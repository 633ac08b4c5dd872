import Columnar.Proofs.HistogramCalls
import Columnar.Proofs.TextReading
import Columnar.Scan.Report
import Columnar.Sink

/-! A full report read back. Its text is split at the ends of the lines, the lines with a comma are
the listing, and numbers are read digit by digit. What is read is what the histogram counts, so the
report says all that it lists and nothing else: two histograms have one report, at one timing,
exactly if they list the same counts. -/

namespace Columnar

theorem Utf8.encode_append (s t : String) : encode (s ++ t) = encode s ++ encode t := by
  rw [encode, String.toByteArray_append, ByteArray.data_append, Array.toList_append]
  rfl

theorem Sink.bytesOf_eq_encode (pieces : List String) :
    bytesOf pieces = Utf8.encode (String.join pieces) := by
  induction pieces with
  | nil => rfl
  | cons piece pieces ih =>
    rw [String.join_cons, Utf8.encode_append, ← ih]
    rfl

namespace Report

def rows (h : Histogram) (t : Timing) : List String :=
  h.counts.map (fun e => s!"{e.1},{e.2}") ++
    [s!"found {h.counts.length} buckets with cnt[0] {(h.counts.lookup 0).getD 0}",
      s!"Runtime-Initialization: {t.initialization.microseconds}us",
      s!"Runtime-Analysis: {t.analysis.microseconds}us"]

def entryOf? (row : String) : Option (Int × Nat) :=
  match Text.partsOf ',' row with
  | [key, count] => do
    let key ← Text.signed? key
    let count ← Text.unsigned? count
    some (key, count)
  | _ => none

def found? (row : String) : Option (Nat × Nat) :=
  match Text.partsOf ' ' row with
  | ["found", buckets, "buckets", "with", "cnt[0]", count] => do
    let buckets ← Text.unsigned? buckets
    let count ← Text.unsigned? count
    some (buckets, count)
  | _ => none

structure Reading where
  listing : List (Int × Nat)
  found : Nat
  underZero : Nat
  deriving DecidableEq

def isListed (row : String) : Bool := row.toList.contains ','

def read? (text : String) : Option Reading := do
  let rows := Text.linesOf text
  let listing ← (rows.takeWhile isListed).mapM entryOf?
  let behind ← (rows.dropWhile isListed).head?
  let (found, underZero) ← found? behind
  some ⟨listing, found, underZero⟩

theorem text_eq_ofLines (h : Histogram) (t : Timing) : text true h t = Text.ofLines (rows h t) := by
  have htimes : timeLines t = [s!"Runtime-Initialization: {t.initialization.microseconds}us",
      s!"Runtime-Analysis: {t.analysis.microseconds}us"].map (· ++ "\n") := by
    have hend : "us" ++ "\n" = "us\n" := rfl
    simp only [timeLines, List.map_cons, List.map_nil, toString_text, String.append_assoc, hend]
  rw [text, lines, Text.ofLines, rows, List.map_append, List.map_map, htimes]
  rfl

theorem entryOf?_row (e : Int × Nat) : entryOf? s!"{e.1},{e.2}" = some e := by
  have htext : s!"{e.1},{e.2}" =
      (String.singleton ',').intercalate [toString e.1, toString e.2] := by
    rw [String.intercalate_cons_cons, String.intercalate_singleton]
    rfl
  have hparts := Text.partsOf_eq htext (List.cons_ne_nil _ _) (by
    rw [List.forall_mem_cons, List.forall_mem_singleton]
    exact ⟨Text.not_mem_integer rfl (by decide) e.1, Text.not_mem_natural rfl e.2⟩)
  rw [entryOf?, hparts]
  simp only [Text.signed?_toString, Text.unsigned?_toString]
  rfl

theorem found?_row (buckets count : Nat) :
    found? s!"found {buckets} buckets with cnt[0] {count}" = some (buckets, count) := by
  have htext : s!"found {buckets} buckets with cnt[0] {count}" = (String.singleton ' ').intercalate
      ["found", toString buckets, "buckets", "with", "cnt[0]", toString count] := by
    have hfirst : "found " = "found" ++ " " := rfl
    have hmiddle : " buckets with cnt[0] " =
        " " ++ ("buckets" ++ (" " ++ ("with" ++ (" " ++ ("cnt[0]" ++ " "))))) := rfl
    have hspace : String.singleton ' ' = " " := rfl
    simp only [toString_text, String.intercalate_cons_cons, String.intercalate_singleton,
      hfirst, hmiddle, hspace, String.append_assoc]
  have hparts := Text.partsOf_eq htext (List.cons_ne_nil _ _) (by
    simp only [List.forall_mem_cons]
    exact ⟨by decide, Text.not_mem_natural rfl buckets, by decide, by decide, by decide,
      Text.not_mem_natural rfl count, List.forall_mem_nil _⟩)
  rw [found?, hparts]
  simp only [Text.unsigned?_toString]
  rfl

theorem not_mem_foundRow {c : Char} (hdigit : c.isDigit = false) (hfirst : c ∉ "found ".toList)
    (hmiddle : c ∉ " buckets with cnt[0] ".toList) (buckets count : Nat) :
    c ∉ s!"found {buckets} buckets with cnt[0] {count}".toList :=
  Text.not_mem_append (Text.not_mem_append
    (Text.not_mem_append hfirst (Text.not_mem_natural hdigit buckets)) hmiddle)
    (Text.not_mem_natural hdigit count)

theorem mapM_entryOf? (entries : List (Int × Nat)) :
    (entries.map fun e => s!"{e.1},{e.2}").mapM entryOf? = some entries := by
  induction entries with
  | nil => rfl
  | cons e entries ih =>
    rw [List.map_cons, List.mapM_cons, entryOf?_row, ih]
    rfl

theorem not_mem_rows (h : Histogram) (t : Timing) : ∀ row ∈ rows h t, '\n' ∉ row.toList := by
  have htime : ∀ (label : String) (d : Duration), '\n' ∉ label.toList →
      '\n' ∉ s!"{label}{d.microseconds}us".toList := by
    intro label d hlabel
    exact Text.not_mem_append
      (Text.not_mem_append hlabel (Text.not_mem_natural rfl d.microseconds)) (by decide)
  rw [rows, List.forall_mem_append]
  refine ⟨?_, ?_⟩
  · rw [List.forall_mem_map]
    intro e _
    exact Text.not_mem_append
      (Text.not_mem_append (Text.not_mem_integer rfl (by decide) e.1) (by decide))
      (Text.not_mem_natural rfl e.2)
  · simp only [List.forall_mem_cons]
    exact ⟨not_mem_foundRow rfl (by decide) (by decide) _ _,
      htime "Runtime-Initialization: " _ (by decide), htime "Runtime-Analysis: " _ (by decide),
      List.forall_mem_nil _⟩

theorem linesOf_text (h : Histogram) (t : Timing) : Text.linesOf (text true h t) = rows h t := by
  rw [text_eq_ofLines, Text.linesOf_ofLines (not_mem_rows h t)]

theorem isListed_entry (e : Int × Nat) : isListed s!"{e.1},{e.2}" = true := by
  rw [isListed, List.contains_iff_mem, String.toList_append, String.toList_append]
  exact List.mem_append_left _ (List.mem_append_right _ (by decide))

theorem not_isListed_found (buckets count : Nat) :
    ¬isListed s!"found {buckets} buckets with cnt[0] {count}" = true := by
  rw [isListed, List.contains_iff_mem]
  exact not_mem_foundRow rfl (by decide) (by decide) buckets count

theorem read?_text (h : Histogram) (t : Timing) :
    read? (text true h t) =
      some ⟨h.counts, h.counts.length, (h.counts.lookup 0).getD 0⟩ := by
  have hlisted : ∀ row ∈ h.counts.map (fun e => s!"{e.1},{e.2}"), isListed row = true := by
    rw [List.forall_mem_map]
    intro e _
    exact isListed_entry e
  rw [read?, linesOf_text, rows, List.takeWhile_append_of_pos hlisted,
    List.takeWhile_cons_of_neg (not_isListed_found _ _), List.dropWhile_append_of_pos hlisted,
    List.dropWhile_cons_of_neg (not_isListed_found _ _), List.append_nil, mapM_entryOf?,
    List.head?_cons]
  simp only [Option.bind_eq_bind, Option.bind_some, found?_row]

theorem text_congr {h k : Histogram} (hcounts : h.counts = k.counts) (t : Timing) :
    text true h t = text true k t := by
  rw [text_eq_ofLines, text_eq_ofLines, rows, rows, hcounts]

/-- The text of a full report against the histogram that it is about. -/
structure Shows (report : String) (h : Histogram) (t : Timing) : Prop where
  written : ∃ s, Sink.unlimited.writeAll (lines true h t) = (.ok (), s) ∧
    Utf8.decode s.taken.toList = .ok report
  rows_eq : Text.linesOf report = rows h t
  ended : Text.ofLines (Text.linesOf report) = report
  ascending : h.counts.Pairwise fun a b => a.1 < b.1
  reading : read? report =
    some ⟨h.counts, h.counts.length, (h.counts.lookup 0).getD 0⟩

theorem text_shows (h : Histogram) (t : Timing) : Shows (text true h t) h t where
  written := by
    refine ⟨_, Sink.writeAll_unlimited #[] (lines true h t), ?_⟩
    rw [Utf8.decode_eq_ok_iff, Sink.bytesOf_eq_encode, Array.toList_appendList]
    rfl
  rows_eq := linesOf_text h t
  ended := by rw [linesOf_text, text_eq_ofLines]
  ascending := h.ascending
  reading := read?_text h t

/-- A full report lists each key that was told with the number of times it was, and its text is
that of another one, at one timing, exactly if the other lists the same. -/
theorem full_report_determines_listing :
    (∀ (calls : List Histogram.Call) (t : Timing),
      let h := Histogram.after calls
      Shows (text true h t) h t ∧
        ∀ key n, (key, n) ∈ h.counts ↔ ∃ k : Int64, k.toInt = key ∧ .increment k ∈ calls ∧
          n = calls.count (.increment k)) ∧
    ∀ (h k : Histogram) (t : Timing), text true h t = text true k t ↔ h.counts = k.counts := by
  refine ⟨?_, ?_⟩
  · intro calls t h
    exact ⟨text_shows h t, Histogram.mem_counts_after calls⟩
  · intro h k t
    constructor
    · intro htext
      have hread : read? (text true h t) = read? (text true k t) := by rw [htext]
      rw [read?_text, read?_text] at hread
      exact congrArg Reading.listing (Option.some.inj hread)
    · intro hcounts
      exact text_congr hcounts t

example : text true (Histogram.after [.increment 10, .increment 9, .increment (-1)]) .zero =
    "-1,1\n9,1\n10,1\nfound 3 buckets with cnt[0] 0\n" ++
      "Runtime-Initialization: 0us\nRuntime-Analysis: 0us\n" := by decide +kernel

end Report
end Columnar
