import Columnar.Proofs.Profiling

/-! What reaches an output that has room for some bytes only. A report and a profile are written in
pieces, each with as many offers as it takes, and everything returns where an offer is refused. So
whatever the pieces are, the output holds the beginning of the text: all of it where there is room,
and otherwise what there is room for. -/

namespace Columnar

/-- An output with room for so many bytes, or for any number of them. Of what it is offered it takes
some bytes from the front: perhaps not all that it has room for, but some where it has room. -/
structure Output (σ : Type) where
  room : σ → Option Nat
  taken : σ → Bytes
  offer : σ → Bytes → Nat × σ
  offer_le : ∀ s bs, (offer s bs).1 ≤ bs.length
  le_room : ∀ s bs n, room s = some n → (offer s bs).1 ≤ n
  offer_pos : ∀ s bs, bs ≠ [] → room s ≠ some 0 → 0 < (offer s bs).1
  room_offer : ∀ s bs, room (offer s bs).2 = (room s).map (· - (offer s bs).1)
  taken_offer : ∀ s bs, taken (offer s bs).2 = taken s ++ bs.take (offer s bs).1

namespace Output

def cut : Option Nat → Bytes → Bytes
  | none, text => text
  | some n, text => text.take n

section Writing

variable {σ : Type} (out : Output σ)

/-- Offers what is left of the bytes until nothing is; an offer of which nothing is taken is the
last one. -/
def write (s : σ) (bs : Bytes) : Except IoFault Unit × σ :=
  if bs = [] then (.ok (), s)
  else
    match out.offer s bs with
    | (0, s) => (.error .outputFull, s)
    | (k + 1, s) => write s (bs.drop (k + 1))
termination_by bs.length
decreasing_by
  have := List.length_pos_iff.2 ‹bs ≠ []›
  rw [List.length_drop]
  omega

def writeAll (s : σ) : List Bytes → Except IoFault Unit × σ
  | [] => (.ok (), s)
  | piece :: pieces =>
    match out.write s piece with
    | (.ok (), s) => writeAll s pieces
    | (.error e, s) => (.error e, s)

/-- A state after some offers of each of which something was taken. A state that records its offers
tells that there were no others. -/
inductive Accepts : σ → σ → Prop
  | refl (s : σ) : Accepts s s
  | offer {s s' : σ} (bs : Bytes) (h : Accepts s s') (hpos : 0 < (out.offer s' bs).1) :
    Accepts s (out.offer s' bs).2

def Refuses (s s' : σ) : Prop :=
  ∃ bs, bs ≠ [] ∧ (out.offer s bs).1 = 0 ∧ (out.offer s bs).2 = s'

/-- What comes of writing `text` from the state `s` on. It succeeds with `value` if there is room
for all of it; otherwise it fails with `fault`, after the first offer that was refused. -/
structure Written {ε α : Type} (s : σ) (text : Bytes) (fault : ε) (value : α)
    (r : Except ε α × σ) : Prop where
  taken : out.taken r.2 = out.taken s ++ cut (out.room s) text
  ok_iff : r.1 = .ok value ↔ ∀ n, out.room s = some n → text.length ≤ n
  error_iff : r.1 = .error fault ↔ ∃ n, out.room s = some n ∧ n < text.length
  stops : (r.1 = .ok value → out.Accepts s r.2) ∧
    (r.1 = .error fault → ∃ s', out.Accepts s s' ∧ out.Refuses s' r.2)

inductive Ends (s : σ) (text : Bytes) : Except IoFault Unit × σ → Prop
  | whole {s' : σ} (hfits : ∀ n, out.room s = some n → text.length ≤ n) (h : out.Accepts s s')
    (htaken : out.taken s' = out.taken s ++ text)
    (hroom : out.room s' = (out.room s).map (· - text.length)) : Ends s text (.ok (), s')
  | short {s' s'' : σ} {n : Nat} (hroom : out.room s = some n) (hn : n < text.length)
    (h : out.Accepts s s') (hlast : out.Refuses s' s'')
    (htaken : out.taken s'' = out.taken s ++ text.take n) (hfull : out.room s'' = some 0) :
    Ends s text (.error .outputFull, s'')

variable {out}

theorem Accepts.trans {s s' s'' : σ} (h : out.Accepts s s') (h' : out.Accepts s' s'') :
    out.Accepts s s'' := by
  induction h' with
  | refl => exact h
  | offer bs _ hpos ih => exact .offer bs ih hpos

theorem ends_nil (s : σ) : out.Ends s [] (.ok (), s) := by
  refine .whole (fun _ _ => Nat.zero_le _) (.refl s) (List.append_nil _).symm ?_
  cases out.room s <;> rfl

theorem Ends.append {s s' : σ} {first second : Bytes} {r : Except IoFault Unit × σ}
    (h : out.Ends s first (.ok (), s')) (h' : out.Ends s' second r) :
    out.Ends s (first ++ second) r := by
  cases h with
  | whole hfits haccepts htaken hroom =>
    cases h' with
    | whole hfits' haccepts' htaken' hroom' =>
      refine .whole ?_ (haccepts.trans haccepts') ?_ ?_
      · intro n hn
        have hleft : out.room s' = some (n - first.length) := by rw [hroom, hn, Option.map_some]
        have hfirst := hfits n hn
        have hsecond := hfits' _ hleft
        rw [List.length_append]
        omega
      · rw [htaken', htaken, List.append_assoc]
      · rw [hroom', hroom, Option.map_map, List.length_append]
        exact congrArg (fun f => (out.room s).map f) (funext fun n => Nat.sub_sub n _ _)
    | short hroom' hn' haccepts' hlast htaken' hfull =>
      obtain ⟨n, hn, rfl⟩ := Option.map_eq_some_iff.1 (hroom.symm.trans hroom')
      have hfirst := hfits n hn
      refine .short hn ?_ (haccepts.trans haccepts') hlast ?_ hfull
      · rw [List.length_append]
        omega
      · rw [htaken', htaken, List.append_assoc, List.take_append, List.take_of_length_le hfirst]

theorem Ends.append_error {s s' : σ} {first : Bytes} {e : IoFault}
    (h : out.Ends s first (.error e, s')) (second : Bytes) :
    out.Ends s (first ++ second) (.error e, s') := by
  cases h with
  | short hroom hn haccepts hlast htaken hfull =>
    refine .short hroom ?_ haccepts hlast ?_ hfull
    · rw [List.length_append]
      omega
    · rw [htaken, List.take_append_of_le_length hn.le]

theorem ends_offer {s : σ} {bs : Bytes} (hpos : 0 < (out.offer s bs).1) :
    out.Ends s (bs.take (out.offer s bs).1) (.ok (), (out.offer s bs).2) := by
  have hlength : (bs.take (out.offer s bs).1).length = (out.offer s bs).1 :=
    List.length_take_of_le (out.offer_le s bs)
  refine .whole ?_ (.offer bs (.refl s) hpos) (out.taken_offer s bs) ?_
  · rw [hlength]
    exact out.le_room s bs
  · rw [hlength]
    exact out.room_offer s bs

theorem ends_refused {s : σ} {bs : Bytes} (hbs : bs ≠ []) (hnone : (out.offer s bs).1 = 0) :
    out.Ends s bs (.error .outputFull, (out.offer s bs).2) := by
  have hroom : out.room s = some 0 := by
    by_contra hne
    have hpos := out.offer_pos s bs hbs hne
    omega
  refine .short hroom (List.length_pos_iff.2 hbs) (.refl s) ⟨bs, hbs, hnone, rfl⟩ ?_ ?_
  · rw [out.taken_offer, hnone]
  · rw [out.room_offer, hroom, hnone, Option.map_some]

theorem write_ends (s : σ) (bs : Bytes) : out.Ends s bs (out.write s bs) := by
  induction hn : bs.length using Nat.strongRecOn generalizing s bs with
  | ind n ih =>
    rw [write]
    split
    · rename_i hbs
      rw [hbs]
      exact ends_nil s
    · rename_i hbs
      split
      · rename_i s' hoffer
        have h := ends_refused hbs (congrArg Prod.fst hoffer)
        rwa [hoffer] at h
      · rename_i k s' hoffer
        have hfirst : out.Ends s (bs.take (k + 1)) (.ok (), s') := by
          have h := @ends_offer σ out s bs
          rw [hoffer] at h
          exact h (Nat.succ_pos k)
        have hlength := List.length_pos_iff.2 hbs
        have hrest := ih (bs.drop (k + 1)).length (by rw [List.length_drop]; omega) s' _ rfl
        have hboth := hfirst.append hrest
        rwa [List.take_append_drop] at hboth

theorem writeAll_ends (s : σ) (pieces : List Bytes) :
    out.Ends s pieces.flatten (out.writeAll s pieces) := by
  induction pieces generalizing s with
  | nil => exact ends_nil s
  | cons piece pieces ih =>
    have hpiece := @write_ends σ out s piece
    rw [List.flatten_cons, writeAll]
    split
    · rename_i s' hwrite
      rw [hwrite] at hpiece
      exact hpiece.append (ih s')
    · rename_i e s' hwrite
      rw [hwrite] at hpiece
      exact hpiece.append_error _

theorem writeAll_append (s : σ) (pieces more : List Bytes) :
    out.writeAll s (pieces ++ more) =
      match out.writeAll s pieces with
      | (.ok (), s) => out.writeAll s more
      | (.error e, s) => (.error e, s) := by
  induction pieces generalizing s with
  | nil => rfl
  | cons piece pieces ih =>
    rw [List.cons_append, writeAll, writeAll]
    split
    · exact ih _
    · rfl

section Written

variable {ε α : Type} {s s' s'' : σ} {text : Bytes} {n : Nat} (fault : ε) (value : α)

theorem written_whole (hfits : ∀ n, out.room s = some n → text.length ≤ n)
    (haccepts : out.Accepts s s') (htaken : out.taken s' = out.taken s ++ text) :
    out.Written s text fault value (.ok value, s') where
  taken := by
    rw [htaken]
    cases hroom : out.room s with
    | none => rfl
    | some n => rw [cut, List.take_of_length_le (hfits n hroom)]
  ok_iff := iff_of_true rfl hfits
  error_iff := iff_of_false nofun fun ⟨n, hroom, hn⟩ => absurd (hfits n hroom) (Nat.not_le.2 hn)
  stops := ⟨fun _ => haccepts, nofun⟩

theorem written_short (hroom : out.room s = some n) (hn : n < text.length)
    (haccepts : out.Accepts s s') (hlast : out.Refuses s' s'')
    (htaken : out.taken s'' = out.taken s ++ text.take n) :
    out.Written s text fault value (.error fault, s'') where
  taken := by rw [htaken, hroom, cut]
  ok_iff := iff_of_false nofun fun hfits => absurd (hfits n hroom) (Nat.not_le.2 hn)
  error_iff := iff_of_true rfl ⟨n, hroom, hn⟩
  stops := ⟨nofun, fun _ => ⟨s', haccepts, hlast⟩⟩

end Written

theorem writeAll_written (s : σ) (pieces : List Bytes) :
    out.Written s pieces.flatten .outputFull () (out.writeAll s pieces) := by
  have h := @writeAll_ends σ out s pieces
  generalize out.writeAll s pieces = r at h ⊢
  cases h with
  | whole hfits haccepts htaken => exact written_whole _ _ hfits haccepts htaken
  | short hroom hn haccepts hlast htaken => exact written_short _ _ hroom hn haccepts hlast htaken

end Writing
end Output

namespace Sink

def output : Output Sink where
  room := room
  taken s := s.taken.toList
  offer s bs :=
    let k := min (s.room.getD bs.length) bs.length
    (k, ⟨s.room.map (· - k), s.taken ++ bs.take k⟩)
  offer_le _ _ := Nat.min_le_right _ _
  le_room s bs n h := by
    dsimp only
    rw [h]
    exact Nat.min_le_left _ _
  offer_pos s bs hbs hroom := by
    have hlength := List.length_pos_iff.2 hbs
    cases h : s.room with
    | none => exact Nat.lt_min.2 ⟨hlength, hlength⟩
    | some n =>
      have hn : n ≠ 0 := fun h0 => hroom (h.trans (congrArg some h0))
      exact Nat.lt_min.2 ⟨Nat.pos_of_ne_zero hn, hlength⟩
  room_offer _ _ := rfl
  taken_offer s bs := by simp

theorem output_write (s : Sink) (bs : Bytes) : output.write s bs = s.write bs := by
  have h := @Output.write_ends Sink output s bs
  generalize output.write s bs = r at h ⊢
  obtain ⟨room, taken⟩ := s
  cases h with
  | @whole s' hfits _ htaken hroom =>
    obtain ⟨room', taken'⟩ := s'
    obtain rfl : taken' = taken ++ bs :=
      Array.ext' (htaken.trans Array.toList_appendList.symm)
    obtain rfl : room' = room.map (· - bs.length) := hroom
    cases room with
    | none => rfl
    | some n => exact (if_pos (hfits n rfl)).symm
  | @short _ s'' n hroom hn _ _ htaken hfull =>
    obtain ⟨room', taken'⟩ := s''
    obtain rfl : taken' = taken ++ bs.take n :=
      Array.ext' (htaken.trans Array.toList_appendList.symm)
    obtain rfl : room' = some 0 := hfull
    obtain rfl : room = some n := hroom
    exact (if_neg (Nat.not_le.2 hn)).symm

theorem output_writeAll (s : Sink) (pieces : List String) :
    output.writeAll s (pieces.map Utf8.encode) = s.writeAll pieces := by
  induction pieces generalizing s with
  | nil => rfl
  | cons piece pieces ih =>
    rw [List.map_cons, Output.writeAll, output_write, writeAll]
    split
    · rename_i h
      rw [h]
      exact ih _
    · rename_i h
      rw [h]

end Sink

namespace Pass

def Outcome.summaryLines (o : Outcome) (watch : Stopwatch) (profiled : Bool) : List String :=
  if profiled then (Profile.ofEvents (timed watch 0 o.steps)).lines else []

def Outcome.reportTo {σ : Type} (o : Outcome) (out : Output σ) (report summary : List Bytes)
    (s : σ) : Except ScanError Tally × σ :=
  match o.result with
  | .error e => (.error e, s)
  | .ok tally =>
    match out.writeAll s report with
    | (.error fault, s) => (.error (.io fault), s)
    | (.ok (), s) =>
      match out.writeAll s summary with
      | (.error fault, s) => (.error (.io fault), s)
      | (.ok (), s) => (.ok tally, s)

section ReportTo

variable {σ : Type} (o : Outcome) (out : Output σ) (report summary : List Bytes) (s : σ)

theorem Outcome.reportTo_of_ok {tally : Tally} (h : o.result = .ok tally) :
    o.reportTo out report summary s =
      match out.writeAll s (report ++ summary) with
      | (.error fault, s) => (.error (.io fault), s)
      | (.ok (), s) => (.ok tally, s) := by
  rw [reportTo, h, Output.writeAll_append]
  rcases out.writeAll s report with ⟨_ | _, _⟩ <;> rfl

theorem Outcome.reportTo_written {tally : Tally} (h : o.result = .ok tally) :
    out.Written s (report.flatten ++ summary.flatten) (.io .outputFull) tally
      (o.reportTo out report summary s) := by
  have hends := @Output.writeAll_ends σ out s (report ++ summary)
  rw [reportTo_of_ok _ _ _ _ _ h, ← List.flatten_append]
  generalize out.writeAll s (report ++ summary) = r at hends ⊢
  cases hends with
  | whole hfits haccepts htaken => exact Output.written_whole _ _ hfits haccepts htaken
  | short hroom hn haccepts hlast htaken =>
    exact Output.written_short _ _ hroom hn haccepts hlast htaken

theorem Outcome.reportTo_of_short {tally : Tally} (h : o.result = .ok tally) {n : Nat}
    (hroom : out.room s = some n) (hn : n < report.flatten.length) :
    o.reportTo out report summary s = (.error (.io .outputFull), (out.writeAll s report).2) := by
  have herror := (@Output.writeAll_written σ out s report).error_iff.2 ⟨n, hroom, hn⟩
  rw [reportTo, h]
  generalize out.writeAll s report = r at herror ⊢
  obtain ⟨result, s'⟩ := r
  cases herror
  rfl

theorem Outcome.report_eq_reportTo (watch : Stopwatch) (profiled showBuckets : Bool)
    {tally : Tally} (h : o.result = .ok tally) (s : Sink) :
    o.report watch profiled showBuckets s = o.reportTo Sink.output
      ((Report.lines showBuckets tally.histogram watch.timing).map Utf8.encode)
      ((o.summaryLines watch profiled).map Utf8.encode) s := by
  have hlines : Report.lines showBuckets tally.histogram watch.timing ++
      o.summaryLines watch profiled = o.reportLines tally watch profiled showBuckets := rfl
  rw [reportTo_of_ok _ _ _ _ _ h, ← List.map_append, Sink.output_writeAll, hlines, report, h]
  dsimp only
  rcases s.writeAll (o.reportLines tally watch profiled showBuckets) with ⟨_ | _, _⟩ <;> rfl

end ReportTo

theorem flatten_encode (lines : List String) :
    (lines.map Utf8.encode).flatten = Sink.bytesOf lines :=
  List.flatMap_def.symm

/-- In whatever pieces a report, a profile or both are written, an output without room for all of
it holds the beginning of the text, as long as the room allows, and the failed write is the last
one. The same goes for what the lines do to a sink. -/
theorem full_output_keeps_beginning :
    (∀ (σ : Type) (out : Output σ) (s : σ),
      (∀ showBuckets h timing pieces,
        pieces.flatten = Sink.bytesOf (Report.lines showBuckets h timing) →
        out.Written s (Sink.bytesOf (Report.lines showBuckets h timing)) .outputFull ()
          (out.writeAll s pieces)) ∧
      (∀ p pieces, pieces.flatten = Sink.bytesOf (Profile.lines p) →
        out.Written s (Sink.bytesOf p.lines) .outputFull () (out.writeAll s pieces)) ∧
      ∀ (o : Outcome) watch profiled showBuckets tally report summary, o.result = .ok tally →
        report.flatten = Sink.bytesOf (Report.lines showBuckets tally.histogram watch.timing) →
        summary.flatten = Sink.bytesOf (o.summaryLines watch profiled) →
        out.Written s (Sink.bytesOf (o.reportLines tally watch profiled showBuckets))
            (.io .outputFull) tally (o.reportTo out report summary s) ∧
          ∀ n, out.room s = some n → n < report.flatten.length →
            (o.reportTo out report summary s).2 = (out.writeAll s report).2) ∧
    ∀ s : Sink,
      (∀ showBuckets h timing, Sink.output.Written s
        (Sink.bytesOf (Report.lines showBuckets h timing)) .outputFull ()
          (s.writeAll (Report.lines showBuckets h timing))) ∧
      (∀ p : Profile, Sink.output.Written s (Sink.bytesOf p.lines) .outputFull ()
        (s.writeAll p.lines)) ∧
      ∀ (o : Outcome) watch profiled showBuckets,
        (∀ tally, o.result = .ok tally → Sink.output.Written s
          (Sink.bytesOf (o.reportLines tally watch profiled showBuckets)) (.io .outputFull) tally
            (o.report watch profiled showBuckets s)) ∧
        ∀ e, o.result = .error e → o.report watch profiled showBuckets s = (.error e, s) := by
  have htext : ∀ (o : Outcome) watch profiled showBuckets tally,
      Sink.bytesOf (o.reportLines tally watch profiled showBuckets) =
        Sink.bytesOf (Report.lines showBuckets tally.histogram watch.timing) ++
          Sink.bytesOf (o.summaryLines watch profiled) :=
    fun _ _ _ _ _ => List.flatMap_append
  have hlines : ∀ (s : Sink) lines,
      Sink.output.Written s (Sink.bytesOf lines) .outputFull () (s.writeAll lines) := by
    intro s lines
    rw [← flatten_encode, ← Sink.output_writeAll]
    exact Output.writeAll_written s _
  refine ⟨fun σ out s => ⟨?_, ?_, ?_⟩, fun s => ⟨?_, ?_, ?_⟩⟩
  · intro showBuckets h timing pieces hpieces
    rw [← hpieces]
    exact Output.writeAll_written s pieces
  · intro p pieces hpieces
    rw [← hpieces]
    exact Output.writeAll_written s pieces
  · intro o watch profiled showBuckets tally report summary hresult hreport hsummary
    refine ⟨?_, fun n hroom hn => ?_⟩
    · rw [htext, ← hreport, ← hsummary]
      exact o.reportTo_written out report summary s hresult
    · rw [o.reportTo_of_short out report summary s hresult hroom hn]
  · intro showBuckets h timing
    exact hlines s _
  · intro p
    exact hlines s _
  · intro o watch profiled showBuckets
    refine ⟨fun tally hresult => ?_, fun e hresult => (Outcome.Silent.of_error hresult).2 ..⟩
    rw [htext, ← flatten_encode, ← flatten_encode, o.report_eq_reportTo watch profiled _ hresult]
    exact o.reportTo_written _ _ _ s hresult

theorem noRows_report_cut_short : ∃ o tally summary,
    o = run (⟨0, [("x", .floats #[])]⟩ : MemoryTable) ⟨"x", "x", "x", .standard⟩ .empty ∧
      o.result = .ok tally ∧
      summary.flatten = Sink.bytesOf (o.summaryLines .stopped true) ∧
      let text := Sink.bytesOf (Report.lines false tally.histogram .zero)
      let r := o.reportTo Sink.output [text.take 6, text.drop 6] summary (.ofRoom 10)
      r.1 = .error (.io .outputFull) ∧ r.2.taken.toList = Utf8.encode "found 0 bu" ∧
        r.2 = (Sink.output.writeAll (.ofRoom 10) [text.take 6, text.drop 6]).2 := by
  obtain ⟨o, ho⟩ : ∃ o, o = run (⟨0, [("x", .floats #[])]⟩ : MemoryTable)
    ⟨"x", "x", "x", .standard⟩ .empty := ⟨_, rfl⟩
  have hresult : o.result = .ok ⟨.empty, 0⟩ := by
    rw [ho]
    rfl
  have hreport : ∀ text : Bytes, [text.take 6, text.drop 6].flatten = text := by
    intro text
    simp
  have hlength : 10 < (Sink.bytesOf (Report.lines false .empty .zero)).length := by decide
  have hten : (Sink.bytesOf (Report.lines false .empty .zero)).take 10 =
      Utf8.encode "found 0 bu" := by decide
  obtain ⟨hwritten, hlast⟩ := (full_output_keeps_beginning.1 Sink Sink.output (.ofRoom 10)).2.2 o
    .stopped true false _ _ [Sink.bytesOf (o.summaryLines .stopped true)] hresult (hreport _)
    (List.flatten_singleton ..)
  have hall : Sink.bytesOf (o.reportLines ⟨.empty, 0⟩ .stopped true false) =
      Sink.bytesOf (Report.lines false .empty .zero) ++
        Sink.bytesOf (o.summaryLines .stopped true) := List.flatMap_append
  refine ⟨o, _, _, ho, hresult, List.flatten_singleton .., ?_, ?_, hlast 10 rfl ?_⟩
  · refine hwritten.error_iff.2 ⟨10, rfl, ?_⟩
    rw [hall, List.length_append]
    omega
  · refine hwritten.taken.trans ?_
    rw [hall, ← hten]
    exact List.take_append_of_le_length hlength.le
  · rwa [hreport]

end Pass
end Columnar
