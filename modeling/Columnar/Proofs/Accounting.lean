import Mathlib.Algebra.Order.BigOperators.Group.List
import Mathlib.Algebra.Order.Group.Nat
import Mathlib.Data.List.Count
import Columnar.Proofs.ExactSums

/-! What a profile says of the events it was told of. The reads of one column come in some order, and
those of different columns in between one another; each read is counted once, in the entry of its
column, and the entries stand in the order of the first reads. As long as the sums over all reads
are words and their times a duration, every counter is the exact sum, the time with its carries
included. Where the events of two profiles agree column by column, so do their counters. -/

namespace Columnar
namespace Duration

def limit : Nat := UInt64.size * 1000000000

/-- Seconds and nanoseconds added apart, with a carry where a second is full. A sum whose seconds
are no word has no value. -/
def plus? (a b : Duration) : Option Duration :=
  let seconds := a.seconds + b.seconds
  let nanos := a.nanos + b.nanos
  if UInt64.size ≤ seconds then none
  else if nanos < 1000000000 then some (.ofParts seconds nanos)
  else if UInt64.size ≤ seconds + 1 then none
  else some (.ofParts (seconds + 1) (nanos - 1000000000))

theorem plus?_of_lt {a b : Duration} (h : a.nanoseconds + b.nanoseconds < limit) :
    plus? a b = some (a + b) := by
  have hlimit : limit = 18446744073709551616 * 1000000000 := rfl
  have hsize : UInt64.size = 18446744073709551616 := rfl
  have ha : 1000000000 * a.seconds + a.nanos = a.nanoseconds := Nat.div_add_mod _ _
  have hb : 1000000000 * b.seconds + b.nanos = b.nanoseconds := Nat.div_add_mod _ _
  have hna : a.nanos < 1000000000 := Nat.mod_lt _ (by decide)
  have hnb : b.nanos < 1000000000 := Nat.mod_lt _ (by decide)
  have hparts : ∀ seconds nanos, 1000000000 * seconds + nanos = a.nanoseconds + b.nanoseconds →
      ofParts seconds nanos = a + b := by
    intro seconds nanos heq
    rw [ofParts, Nat.mul_comm, heq]
    rfl
  rw [plus?, if_neg (by omega)]
  by_cases hcarry : a.nanos + b.nanos < 1000000000
  · rw [if_pos hcarry, hparts _ _ (by omega)]
  · rw [if_neg hcarry, if_neg (by omega), hparts _ _ (by omega)]

theorem foldlM_plus? {start : Duration} {times : List Duration}
    (h : start.nanoseconds + (times.map nanoseconds).sum < limit) :
    times.foldlM plus? start = some ⟨start.nanoseconds + (times.map nanoseconds).sum⟩ := by
  induction times generalizing start with
  | nil => rfl
  | cons d times ih =>
    rw [List.map_cons, List.sum_cons, ← Nat.add_assoc] at h ⊢
    rw [List.foldlM_cons, plus?_of_lt (Nat.lt_of_le_of_lt (Nat.le_add_right _ _) h),
      Option.bind_eq_bind, Option.bind_some]
    exact @ih (start + d) h

theorem carried_of_sum {times : List Duration} {total : Duration}
    (hsum : total.nanoseconds = (times.map nanoseconds).sum) (hlimit : total.nanoseconds < limit) :
    times.foldlM plus? zero = some total := by
  have hzero : zero.nanoseconds + (times.map nanoseconds).sum = total.nanoseconds :=
    (Nat.zero_add _).trans hsum.symm
  rw [foldlM_plus? (hzero ▸ hlimit), hzero]

end Duration

namespace Profile

def readsIn (events : List Event) : List (BlockLoad × Duration) :=
  events.filterMap fun
    | .blockRead load elapsed => some (load, elapsed)
    | .scanStart _ | .scanEnd _ => none

structure Fit (reads : List (BlockLoad × Duration)) : Prop where
  words : ∀ k : Counter, (reads.map fun r => (k.amount r.1).toNat).sum < UInt64.size
  time : (reads.map fun r => r.2.nanoseconds).sum < Duration.limit

/-- The counters are the sums over the reads; the time is what comes of adding seconds and
nanoseconds one read after the other. -/
structure Sums (reads : List (BlockLoad × Duration)) (counts : ReadCounts) : Prop where
  words : ∀ k : Counter,
    (k.value counts).toNat = (reads.map fun r => (k.amount r.1).toNat).sum
  time : counts.time.nanoseconds = (reads.map fun r => r.2.nanoseconds).sum
  carried : (reads.map Prod.snd).foldlM Duration.plus? .zero = some counts.time

theorem Fit.sublist {reads reads' : List (BlockLoad × Duration)} (h : Fit reads)
    (hs : reads'.Sublist reads) : Fit reads' where
  words k := ((hs.map _).sum_le_sum fun _ _ => Nat.zero_le _).trans_lt (h.words k)
  time := ((hs.map _).sum_le_sum fun _ _ => Nat.zero_le _).trans_lt h.time

theorem time_countsOf (reads : List (BlockLoad × Duration)) :
    (countsOf reads).time.nanoseconds = (reads.map fun r => r.2.nanoseconds).sum := by
  induction reads with
  | nil => rfl
  | cons r reads ih =>
    rw [List.map_cons, List.sum_cons, ← ih]
    rfl

theorem sums_countsOf {reads : List (BlockLoad × Duration)} (h : Fit reads) :
    Sums reads (countsOf reads) := by
  refine ⟨?_, time_countsOf reads, ?_⟩
  · intro k
    have hwords := h.words k
    rw [k.counts.countsOf, toNat_sum, List.map_map]
    · rfl
    · rwa [List.map_map]
  · apply Duration.carried_of_sum
    · rw [time_countsOf, List.map_map]
      rfl
    · rw [time_countsOf]
      exact h.time

theorem readsIn_concat (events : List Event) (event : Event) :
    readsIn (events ++ [event]) = readsIn events ++ readsIn [event] :=
  List.filterMap_append

theorem columns_ofEvents (events : List Event) :
    (ofEvents events).columns = readColumns (readsIn events) := by
  induction events using List.reverseRecOn with
  | nil => rfl
  | append_singleton events event ih =>
    rw [ofEvents_concat, readsIn_concat]
    cases event with
    | scanStart rows => exact ih.trans (by rw [readsIn, readsIn]; simp)
    | scanEnd elapsed => exact ih.trans (by rw [readsIn, readsIn]; simp)
    | blockRead load elapsed =>
      rw [show readsIn [.blockRead load elapsed] = [(load, elapsed)] from rfl, readColumns_concat,
        ← ih]
      rfl

theorem totals_ofEvents (events : List Event) :
    (ofEvents events).totals = countsOf (readsIn events) := by
  rw [totals_eq_sum, columns_ofEvents, sum_readColumns]

theorem perm_of_readsOf {reads reads' : List (BlockLoad × Duration)}
    (h : ∀ name, readsOf name reads = readsOf name reads') : reads.Perm reads' := by
  apply List.perm_iff_count.2
  intro r
  have hr : decide (r.1.column = r.1.column) = true := decide_eq_true rfl
  rw [← List.count_filter (p := fun s => decide (s.1.column = r.1.column)) hr,
    ← List.count_filter (l := reads') (p := fun s => decide (s.1.column = r.1.column)) hr]
  exact congrArg (List.count r) (h r.1.column)

theorem sumOver_readColumns_le (k : Counter) (reads : List (BlockLoad × Duration)) :
    k.sumOver (readColumns reads) ≤ (reads.map fun r => (k.amount r.1).toNat).sum := by
  induction reads using List.reverseRecOn with
  | nil => exact Nat.le_refl _
  | append_singleton reads r ih =>
    rw [readColumns_concat, List.map_append, List.sum_append, List.map_singleton,
      List.sum_singleton, ← k.counts.ofLoad r.1 r.2]
    exact (k.sumOver_addTo_le _ _ _).trans (Nat.add_le_add_right ih _)

end Profile

namespace Guarded

open Profile (Fit readsIn readsIn_concat)

theorem observe_of_fit {events : List Event} {event : Event}
    (h : Fit (readsIn (events ++ [event]))) :
    observe (.ofEvents events) event = some ((Profile.ofEvents events).observe event) := by
  cases event with
  | scanStart rows => rfl
  | scanEnd elapsed => rfl
  | blockRead load elapsed =>
    rw [observe, addTo_eq]
    · rfl
    · intro k
      have hwords := h.words k
      rw [readsIn_concat, List.map_append, List.sum_append] at hwords
      rw [Profile.columns_ofEvents, k.counts.ofLoad]
      exact (Nat.add_le_add_right (Profile.sumOver_readColumns_le k _) _).trans_lt hwords

theorem profile_of_fit {events : List Event} (h : Fit (readsIn events)) :
    profile events = some (.ofEvents events) := by
  induction events using List.reverseRecOn with
  | nil => rfl
  | append_singleton events event ih =>
    have hbefore : Fit (readsIn events) := by
      refine h.sublist ?_
      rw [readsIn_concat]
      exact List.sublist_append_left _ _
    have hprofile := ih hbefore
    rw [profile] at hprofile ⊢
    rw [List.foldlM_append, hprofile, Option.bind_eq_bind, Option.bind_some, List.foldlM_cons,
      observe_of_fit h, Profile.ofEvents_concat]
    rfl

theorem totals_of_fit {events : List Event} (h : Fit (readsIn events)) :
    totals (.ofEvents events) = some (Profile.ofEvents events).totals := by
  apply foldlM_plus
  intro k
  rw [k.counts.zero, UInt64.toNat_zero, List.map_map, Profile.columns_ofEvents]
  exact (Nat.zero_add _).trans_lt ((Profile.sumOver_readColumns_le k _).trans_lt (h.words k))

end Guarded

namespace Profile

/-- Every read counts once: in the entry of its column and in the totals. -/
structure Accounts (events : List Event) (p : Profile) : Prop where
  names : p.columns.map Prod.fst = ((readsIn events).map fun r => r.1.column).eraseDups
  once : (p.columns.map Prod.fst).Nodup
  listed : ∀ e ∈ p.columns, p.column? e.1 = some e.2
  unread : ∀ name, p.column? name = none ↔ ∀ r ∈ readsIn events, r.1.column ≠ name
  column : ∀ name counts, p.column? name = some counts →
    Sums (readsOf name (readsIn events)) counts
  totals : Sums (readsIn events) p.totals
  carried : (p.columns.map fun e => e.2.time).foldlM Duration.plus? .zero = some p.totals.time

theorem column?_ofEvents (events : List Event) (name : String) :
    (ofEvents events).column? name = if readsOf name (readsIn events) = [] then none
      else some (countsOf (readsOf name (readsIn events))) := by
  rw [column?, columns_ofEvents, lookup_readColumns]

theorem sum_times (columns : List (String × ReadCounts)) :
    (columns.map Prod.snd).sum.time.nanoseconds =
      (columns.map fun e => e.2.time.nanoseconds).sum := by
  induction columns with
  | nil => rfl
  | cons e columns ih =>
    rw [List.map_cons, List.sum_cons, List.map_cons, List.sum_cons, ← ih]
    rfl

theorem accounts_of_fit {events : List Event} (h : Fit (readsIn events)) :
    Accounts events (ofEvents events) := by
  have hnodup : ((ofEvents events).columns.map Prod.fst).Nodup := by
    rw [columns_ofEvents]
    exact nodup_readColumns _
  refine ⟨?_, hnodup, fun e he => lookup_of_mem hnodup he, ?_, ?_, ?_, ?_⟩
  · rw [columns_ofEvents, map_fst_readColumns]
  · intro name
    rw [column?_ofEvents]
    by_cases hnone : readsOf name (readsIn events) = []
    · rw [if_pos hnone]
      exact iff_of_true rfl fun r hr hname =>
        List.filter_eq_nil_iff.1 hnone r hr (decide_eq_true hname)
    · obtain ⟨r, hr⟩ := List.exists_mem_of_ne_nil _ hnone
      obtain ⟨hmem, hname⟩ := List.mem_filter.1 hr
      rw [if_neg hnone]
      exact iff_of_false nofun fun hall => hall r hmem (of_decide_eq_true hname)
  · intro name counts hcolumn
    rw [column?_ofEvents] at hcolumn
    split at hcolumn
    · cases hcolumn
    · cases hcolumn
      exact sums_countsOf (h.sublist List.filter_sublist)
  · rw [totals_ofEvents]
    exact sums_countsOf h
  · apply Duration.carried_of_sum
    · rw [totals_eq_sum, sum_times, List.map_map]
      rfl
    · rw [totals_ofEvents, time_countsOf]
      exact h.time

/-- Whatever the order in which the columns are read, and as long as the sums exist, a profile has
one entry for each column that was read, and its counters and the totals are the exact sums. The
order of reads of different columns makes no difference to them. -/
theorem accounts_for_every_read :
    (∀ events, Fit (readsIn events) →
      Guarded.profile events = some (ofEvents events) ∧
        Guarded.totals (ofEvents events) = some (ofEvents events).totals ∧
        Accounts events (ofEvents events)) ∧
    ∀ events events',
      (∀ name, readsOf name (readsIn events) = readsOf name (readsIn events')) →
        (∀ name, (ofEvents events).column? name = (ofEvents events').column? name) ∧
          (ofEvents events).totals = (ofEvents events').totals := by
  refine ⟨?_, ?_⟩
  · intro events h
    exact ⟨Guarded.profile_of_fit h, Guarded.totals_of_fit h, accounts_of_fit h⟩
  · intro events events' h
    refine ⟨fun name => ?_, ?_⟩
    · rw [column?_ofEvents, column?_ofEvents, h name]
    · rw [totals_ofEvents, totals_ofEvents]
      exact ((perm_of_readsOf h).map _).sum_eq

def turns : List Event :=
  [.scanStart 9, .blockRead ⟨"x", 4, 53, 31⟩ ⟨600000000⟩, .blockRead ⟨"y", 3, 50, 24⟩ ⟨25⟩,
    .blockRead ⟨"x", 5, 61, 40⟩ ⟨700000000⟩, .scanEnd ⟨2000000000⟩]

def apart : List Event :=
  [.blockRead ⟨"y", 3, 50, 24⟩ ⟨25⟩, .blockRead ⟨"x", 4, 53, 31⟩ ⟨600000000⟩,
    .blockRead ⟨"x", 5, 61, 40⟩ ⟨700000000⟩]

theorem turns_accounted : Fit (readsIn turns) ∧
    (ofEvents turns).columns.map Prod.fst = ["x", "y"] ∧ (ofEvents turns).column? "z" = none ∧
      Guarded.totals (ofEvents turns) = some ⟨3, 12, 164, 95, .ofParts 1 300000025⟩ ∧
      (ofEvents turns).totals = (ofEvents apart).totals := by
  have hfit : Fit (readsIn turns) := ⟨fun k => by cases k <;> decide, by decide⟩
  obtain ⟨-, htotals, haccounts⟩ := accounts_for_every_read.1 turns hfit
  have hsame : ∀ name, readsOf name (readsIn turns) = readsOf name (readsIn apart) := by
    intro name
    by_cases hx : "x" = name
    · subst hx
      decide
    · simp [readsOf, readsIn, turns, apart, List.filter_cons, hx]
  refine ⟨hfit, haccounts.names, ?_, htotals, (accounts_for_every_read.2 turns apart hsame).2⟩
  exact (haccounts.unread "z").2 (by decide)

end Profile
end Columnar
