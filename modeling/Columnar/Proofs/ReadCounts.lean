import Mathlib.Algebra.BigOperators.Group.List.Basic
import Mathlib.Data.UInt
import Columnar.Scan.Profile

/-! What the counters of a profile are after some reads. Counters are added up in any order, each
column that was read has one entry, the entries stand in the order of the first reads, and in its
entry a column has the sum over its own reads. -/

namespace Columnar
namespace Duration

theorem add_assoc (a b c : Duration) : a + b + c = a + (b + c) :=
  congrArg Duration.mk (Nat.add_assoc _ _ _)

theorem add_comm (a b : Duration) : a + b = b + a := congrArg Duration.mk (Nat.add_comm _ _)

theorem zero_add (a : Duration) : zero + a = a := congrArg Duration.mk (Nat.zero_add _)

end Duration

attribute [ext] ReadCounts

instance : Zero ReadCounts := ⟨.zero⟩

instance : AddCommMonoid ReadCounts where
  nsmul := nsmulRec
  add_assoc _ _ _ :=
    ReadCounts.ext (UInt64.add_assoc _ _ _) (UInt64.add_assoc _ _ _) (UInt64.add_assoc _ _ _)
      (UInt64.add_assoc _ _ _) (Duration.add_assoc _ _ _)
  add_comm _ _ :=
    ReadCounts.ext (UInt64.add_comm _ _) (UInt64.add_comm _ _) (UInt64.add_comm _ _)
      (UInt64.add_comm _ _) (Duration.add_comm _ _)
  zero_add _ :=
    ReadCounts.ext (UInt64.zero_add _) (UInt64.zero_add _) (UInt64.zero_add _)
      (UInt64.zero_add _) (Duration.zero_add _)
  add_zero _ :=
    ReadCounts.ext (UInt64.add_zero _) (UInt64.add_zero _) (UInt64.add_zero _)
      (UInt64.add_zero _) (Duration.add_comm _ _ |>.trans (Duration.zero_add _))

namespace Profile

theorem map_fst_addTo (name : String) (counts : ReadCounts) (columns : List (String × ReadCounts)) :
    (addTo name counts columns).map Prod.fst =
      columns.map Prod.fst ++ if name ∈ columns.map Prod.fst then [] else [name] := by
  induction columns with
  | nil => rfl
  | cons e rest ih =>
    obtain ⟨n, c⟩ := e
    rw [addTo]
    by_cases h : n = name
    · simp [h]
    · have hmem : name ∈ n :: rest.map Prod.fst ↔ name ∈ rest.map Prod.fst := by
        rw [List.mem_cons, or_iff_right (Ne.symm h)]
      simp only [if_neg h, List.map_cons, ih, List.cons_append, hmem]

structure Counts (field : ReadCounts → UInt64) (amount : BlockLoad → UInt64) : Prop where
  zero : field .zero = 0
  add : ∀ a b, field (a + b) = field a + field b
  ofLoad : ∀ load elapsed, field (.ofLoad load elapsed) = amount load

theorem counts_blocks : Counts ReadCounts.blocks fun _ => 1 :=
  ⟨rfl, fun _ _ => rfl, fun _ _ => rfl⟩

theorem counts_compressed : Counts ReadCounts.compressed BlockLoad.compressed :=
  ⟨rfl, fun _ _ => rfl, fun _ _ => rfl⟩

theorem counts_uncompressed : Counts ReadCounts.uncompressed BlockLoad.uncompressed :=
  ⟨rfl, fun _ _ => rfl, fun _ _ => rfl⟩

def readColumns (reads : List (BlockLoad × Duration)) : List (String × ReadCounts) :=
  reads.foldl (fun columns r => addTo r.1.column (.ofLoad r.1 r.2) columns) []

theorem readColumns_concat (reads : List (BlockLoad × Duration)) (r : BlockLoad × Duration) :
    readColumns (reads ++ [r]) = addTo r.1.column (.ofLoad r.1 r.2) (readColumns reads) := by
  rw [readColumns, List.foldl_append]
  rfl

theorem eraseDups_concat (names : List String) (name : String) :
    (names ++ [name]).eraseDups = names.eraseDups ++ if name ∈ names then [] else [name] := by
  rw [List.eraseDups_append]
  by_cases h : name ∈ names
  · simp [List.removeAll, h]
  · simp [List.removeAll, h, List.eraseDups_cons]

theorem map_fst_readColumns (reads : List (BlockLoad × Duration)) :
    (readColumns reads).map Prod.fst = (reads.map fun r => r.1.column).eraseDups := by
  induction reads using List.reverseRecOn with
  | nil => rfl
  | append_singleton reads r ih =>
    rw [readColumns_concat, map_fst_addTo, ih, List.map_append, List.map_singleton,
      eraseDups_concat]
    simp only [List.mem_eraseDups]

theorem sum_addTo (name : String) (counts : ReadCounts)
    (columns : List (String × ReadCounts)) :
    ((addTo name counts columns).map Prod.snd).sum = (columns.map Prod.snd).sum + counts := by
  induction columns with
  | nil => exact add_zero _
  | cons e rest ih =>
    obtain ⟨n, c⟩ := e
    rw [addTo]
    split
    · exact add_right_comm c counts _
    · rw [List.map_cons, List.sum_cons, ih, List.map_cons, List.sum_cons, add_assoc]

theorem totals_eq_sum (p : Profile) : p.totals = (p.columns.map Prod.snd).sum :=
  List.sum_eq_foldl.symm

def countsOf (reads : List (BlockLoad × Duration)) : ReadCounts :=
  (reads.map fun r => ReadCounts.ofLoad r.1 r.2).sum

theorem countsOf_concat (reads : List (BlockLoad × Duration)) (r : BlockLoad × Duration) :
    countsOf (reads ++ [r]) = countsOf reads + .ofLoad r.1 r.2 := by
  rw [countsOf, List.map_append, List.sum_append, List.map_singleton, List.sum_singleton, countsOf]

theorem Counts.countsOf {field : ReadCounts → UInt64} {amount : BlockLoad → UInt64}
    (hf : Counts field amount) (reads : List (BlockLoad × Duration)) :
    field (countsOf reads) = (reads.map fun r => amount r.1).sum := by
  induction reads with
  | nil => exact hf.zero
  | cons r reads ih =>
    rw [Profile.countsOf, List.map_cons, List.sum_cons, List.map_cons, List.sum_cons, hf.add,
      hf.ofLoad, ← ih, Profile.countsOf]

theorem sum_readColumns (reads : List (BlockLoad × Duration)) :
    ((readColumns reads).map Prod.snd).sum = countsOf reads := by
  induction reads using List.reverseRecOn with
  | nil => rfl
  | append_singleton reads r ih => rw [readColumns_concat, sum_addTo, ih, countsOf_concat]

theorem ofEvents_concat (events : List Event) (event : Event) :
    ofEvents (events ++ [event]) = (ofEvents events).observe event := by
  rw [ofEvents, List.foldl_append]
  rfl

theorem foldl_observe (reads : List (BlockLoad × Duration)) (p : Profile) :
    (reads.map fun r => Event.blockRead r.1 r.2).foldl observe p =
      { p with columns := reads.foldl (fun columns r =>
          addTo r.1.column (.ofLoad r.1 r.2) columns) p.columns } := by
  induction reads generalizing p with
  | nil => rfl
  | cons r reads ih => rw [List.map_cons, List.foldl_cons, ih, List.foldl_cons, observe]

theorem ofEvents_reads (rows : Nat) (reads : List (BlockLoad × Duration)) (elapsed : Duration) :
    ofEvents (.scanStart rows :: (reads.map fun r => .blockRead r.1 r.2) ++ [.scanEnd elapsed]) =
      ⟨rows, elapsed, readColumns reads⟩ := by
  rw [ofEvents, List.cons_append, List.foldl_cons, List.foldl_append, foldl_observe]
  rfl

def readsOf (name : String) (reads : List (BlockLoad × Duration)) : List (BlockLoad × Duration) :=
  reads.filter fun r => r.1.column = name

theorem lookup_cons (name : String) (counts : ReadCounts) (columns : List (String × ReadCounts))
    (other : String) : ((name, counts) :: columns).lookup other =
      if other = name then some counts else columns.lookup other := by
  by_cases h : other = name
  · rw [if_pos h, h, List.lookup_cons_self]
  · rw [if_neg h, List.lookup_cons, beq_eq_false_iff_ne.2 h]

theorem lookup_addTo (name : String) (counts : ReadCounts) (columns : List (String × ReadCounts))
    (other : String) : (addTo name counts columns).lookup other =
      if other = name then some ((columns.lookup name).getD .zero + counts)
      else columns.lookup other := by
  induction columns with
  | nil => exact lookup_cons name _ [] other
  | cons e rest ih =>
    obtain ⟨n, c⟩ := e
    rw [addTo, lookup_cons n c rest name, lookup_cons n c rest other]
    by_cases hn : n = name
    · subst hn
      rw [if_pos rfl, if_pos rfl, lookup_cons]
      split <;> rfl
    · rw [if_neg hn, if_neg (Ne.symm hn), lookup_cons, ih]
      by_cases h : other = n
      · rw [if_pos h, if_pos h, if_neg (h ▸ hn)]
      · rw [if_neg h, if_neg h]

theorem readsOf_concat (name : String) (reads : List (BlockLoad × Duration))
    (r : BlockLoad × Duration) :
    readsOf name (reads ++ [r]) = readsOf name reads ++ if r.1.column = name then [r] else [] := by
  rw [readsOf, List.filter_append, List.filter_singleton]
  by_cases h : r.1.column = name <;> simp [readsOf, h]

theorem lookup_readColumns (reads : List (BlockLoad × Duration)) (name : String) :
    (readColumns reads).lookup name =
      if readsOf name reads = [] then none else some (countsOf (readsOf name reads)) := by
  induction reads using List.reverseRecOn with
  | nil => rfl
  | append_singleton reads r ih =>
    rw [readColumns_concat, lookup_addTo, readsOf_concat]
    by_cases h : name = r.1.column
    · subst h
      have hread : readsOf r.1.column reads ++ [r] ≠ [] :=
        List.append_ne_nil_of_right_ne_nil _ (List.cons_ne_nil _ _)
      rw [if_pos rfl, if_pos rfl, if_neg hread, countsOf_concat, ih]
      by_cases hnone : readsOf r.1.column reads = []
      · rw [if_pos hnone, hnone]
        rfl
      · rw [if_neg hnone]
        rfl
    · rw [if_neg h, if_neg (Ne.symm h), List.append_nil, ih]

theorem nodup_readColumns (reads : List (BlockLoad × Duration)) :
    ((readColumns reads).map Prod.fst).Nodup := by
  induction reads using List.reverseRecOn with
  | nil => exact .nil
  | append_singleton reads r ih =>
    rw [readColumns_concat, map_fst_addTo]
    split
    · rwa [List.append_nil]
    · rename_i hnew
      exact ih.append (List.nodup_singleton _) (List.disjoint_singleton.2 hnew)

theorem lookup_of_mem {columns : List (String × ReadCounts)}
    (h : (columns.map Prod.fst).Nodup) {e : String × ReadCounts} (he : e ∈ columns) :
    columns.lookup e.1 = some e.2 := by
  induction columns with
  | nil => cases he
  | cons first rest ih =>
    obtain ⟨hfirst, hrest⟩ := List.nodup_cons.1 h
    rw [lookup_cons]
    rcases List.mem_cons.1 he with rfl | hmem
    · exact if_pos rfl
    · rw [if_neg]
      · exact ih hrest hmem
      · intro heq
        exact hfirst (heq ▸ List.mem_map_of_mem hmem)

theorem readColumns_eq (reads : List (BlockLoad × Duration)) :
    readColumns reads = (reads.map fun r => r.1.column).eraseDups.map fun name =>
      (name, countsOf (readsOf name reads)) := by
  have hentry : ∀ e ∈ readColumns reads, e = (e.1, countsOf (readsOf e.1 reads)) := by
    intro e he
    have hlookup := lookup_of_mem (nodup_readColumns reads) he
    rw [lookup_readColumns] at hlookup
    split at hlookup
    · cases hlookup
    · exact Prod.ext rfl (Option.some.inj hlookup).symm
  rw [← map_fst_readColumns, List.map_map]
  conv_lhs => rw [← List.map_id (readColumns reads)]
  exact List.map_congr_left hentry

end Profile
end Columnar
