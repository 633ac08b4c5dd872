import Mathlib.Data.List.Destutter
import Columnar.Proofs.Session
import Columnar.Proofs.Trace

/-! Which calls on a handle load a block. A call is served by the block of its row, unless the table
has no such row or the block cannot be loaded; then nothing is told and the handle stays as it was.
A call that is served by the block of the last served call finds it at hand, and any other loads its
block, be it for the first time or again. -/

namespace Columnar

instance (b : BlockRecord) (row : Nat) : Decidable (b.Covers row) :=
  inferInstanceAs (Decidable (_ ∧ _))

theorem getLast?_toList_append_or {α : Type} (last x : Option α) (xs : List α) :
    (x.toList ++ xs).getLast?.or last = xs.getLast?.or (x.or last) := by
  rw [List.getLast?_append, Option.or_assoc]
  cases x <;> rfl

/-- What differs from the element before it; `last` stands before the first. -/
def changes {α : Type} [DecidableEq α] (last : Option α) : List α → List α
  | [] => []
  | x :: xs => if last = some x then changes last xs else x :: changes (some x) xs

section Changes

variable {α : Type} [DecidableEq α]

theorem cons_changes (x : α) (xs : List α) :
    x :: changes (some x) xs = xs.destutter' (· ≠ ·) x := by
  induction xs generalizing x with
  | nil => rfl
  | cons y ys ih =>
    by_cases h : x = y
    · subst h
      rw [changes, if_pos rfl, ih, List.destutter'_cons_neg ys (not_not_intro rfl)]
    · rw [changes, if_neg (by simpa using h), ih, List.destutter'_cons_pos ys h]

theorem changes_none (xs : List α) : changes none xs = xs.destutter (· ≠ ·) := by
  cases xs with
  | nil => rfl
  | cons x xs => rw [changes, if_neg nofun, cons_changes, List.destutter_cons']

theorem changes_toList_append (last x : Option α) (xs : List α) :
    changes last (x.toList ++ xs) =
      (x.filter fun a => last ≠ some a).toList ++ changes (x.or last) xs := by
  cases x with
  | none => rfl
  | some a =>
    by_cases h : last = some a
    · simp [changes, h]
    · simp [changes, h, Option.filter_some]

end Changes

namespace Table

/-- The block of the row that a call asks for, if there is such a row and its block can be loaded. -/
def served? (t : Table) (column : ColumnRecord) (call : Call) : Option BlockRecord :=
  if call.row < t.rowCount then
    (column.blocks.toList.find? fun b => b.Covers call.row).filter fun b =>
      (b.contents column t.data).isOk
  else none

variable {t : Table} {column : ColumnRecord} {call : Call} {b : BlockRecord}

theorem find?_covers (hr : column.Readable t.data t.rowCount) (hb : b ∈ column.blocks.toList)
    {row : Nat} (hcov : b.Covers row) :
    (column.blocks.toList.find? fun k => k.Covers row) = some b := by
  cases hfind : column.blocks.toList.find? fun k => k.Covers row with
  | none => exact absurd hcov (by simpa using List.find?_eq_none.1 hfind b hb)
  | some k =>
    have hk : k.Covers row := by simpa using List.find?_some hfind
    rw [hr.tiles.covers_unique (List.mem_of_find?_eq_some hfind) hb hk hcov]

theorem served?_of_covers (hr : column.Readable t.data t.rowCount) (hrow : call.row < t.rowCount)
    (hb : b ∈ column.blocks.toList) (hcov : b.Covers call.row) :
    t.served? column call = if (b.contents column t.data).isOk then some b else none := by
  rw [served?, if_pos hrow, find?_covers hr hb hcov, Option.filter_some]

theorem call_of_ge {c : Cursor} (h : t.rowCount ≤ call.row) (scratch : Scratch) :
    (t.call c scratch call).load = none ∧ (t.call c scratch call).handle = c := by
  cases call with
  | read row =>
    rw [Table.call, read, if_pos (show t.rowCount ≤ row from h)]
    exact ⟨rfl, rfl⟩
  | format row =>
    rw [Table.call, format, if_pos (show t.rowCount ≤ row from h)]
    exact ⟨rfl, rfl⟩

theorem call_of_lt {c : Cursor} (h : call.row < t.rowCount) (scratch : Scratch) :
    (t.call c scratch call).load = (c.seek t.data (.ofNat call.row) scratch).load ∧
      (t.call c scratch call).handle = (c.seek t.data (.ofNat call.row) scratch).handle := by
  cases call with
  | read row => exact read_of_lt h scratch
  | format row => exact format_of_lt h scratch

end Table

namespace Cursor

def Holding (c : Cursor) (data : Array UInt8) : Option BlockRecord → Prop
  | none => c.current = none
  | some b => b ∈ c.column.blocks.toList ∧
      ∃ values, b.contents c.column data = .ok values ∧ c.current = some ⟨b.startRow, values⟩

variable {c : Cursor} {data : Array UInt8} {rows : Nat} {last : Option BlockRecord}
  {row : UInt64} {b : BlockRecord}

theorem Holding.hits_iff (h : c.Holding data last) (hr : c.column.Readable data rows)
    (hb : b ∈ c.column.blocks.toList) (hcov : b.Covers row.toNat) :
    c.hits row = true ↔ last = some b := by
  cases last with
  | none =>
    have hnone : c.current = none := h
    simp [hits, hnone]
  | some k =>
    obtain ⟨hk, values, hv, hcur⟩ := h
    rw [hits, hcur, Option.any_some, contains_iff_covers hr hk hv, Option.some.injEq]
    constructor
    · intro hkcov
      exact hr.tiles.covers_unique hk hb hkcov hcov
    · rintro rfl
      exact hcov

theorem fetch_handle_of_error {e : ScanError} (h : c.record? row = some b)
    (he : b.contents c.column data = .error e) (scratch : Scratch) :
    (c.fetch data row scratch).handle = c := by
  have hf := b.fetch_eq_contents c.column data scratch
  unfold fetch
  rcases hfetch : b.fetch c.column data scratch with ⟨e' | values, scratch'⟩
  · simp only [h, hfetch]
    rfl
  · rw [hfetch, he] at hf
    cases hf

end Cursor

namespace Table

variable {t : Table} {c : Cursor} {last : Option BlockRecord}

theorem call_tells (h : c.Holding t.data last) (hr : c.column.Readable t.data t.rowCount)
    (call : Call) (scratch : Scratch) :
    (t.call c scratch call).load =
        ((t.served? c.column call).filter fun b => last ≠ some b).map (·.load c.column) ∧
      (t.call c scratch call).handle.column = c.column ∧
      (t.call c scratch call).handle.Holding t.data ((t.served? c.column call).or last) ∧
      (t.served? c.column call = none → (t.call c scratch call).handle = c) := by
  by_cases hrow : call.row < t.rowCount
  · obtain ⟨b, hb, hcov⟩ := hr.tiles.exists_covers (Nat.zero_le _) hrow
    have hcov' : b.Covers (UInt64.ofNat call.row).toNat := by rwa [toNat_row hrow]
    have hhits := h.hits_iff hr hb hcov'
    have hrecord : c.record? (.ofNat call.row) = some b := Cursor.record?_of_covers hr hb hcov'
    obtain ⟨hload, hhandle⟩ := call_of_lt (c := c) hrow scratch
    rw [hload, hhandle, served?_of_covers hr hrow hb hcov]
    cases hv : b.contents c.column t.data with
    | error e =>
      -- The block at hand was loaded, so it is another one, and it stays.
      have hmiss : c.hits (.ofNat call.row) = false := by
        rw [Bool.eq_false_iff, ne_eq, hhits]
        rintro rfl
        obtain ⟨-, values, hok, -⟩ := h
        rw [hv] at hok
        cases hok
      obtain ⟨hl, hh⟩ := Cursor.seek_of_miss hmiss t.data scratch
      rw [hl, hh, Cursor.fetch_of_error hrecord hv, Cursor.fetch_handle_of_error hrecord hv]
      exact ⟨rfl, rfl, h, fun _ => rfl⟩
    | ok values =>
      have hok : (Except.ok values : Except ScanError Values).isOk = true := rfl
      rw [if_pos hok]
      by_cases hlast : last = some b
      · obtain ⟨hl, hh⟩ := Cursor.seek_of_hit (hhits.2 hlast) t.data scratch
        rw [hl, hh]
        subst hlast
        exact ⟨by simp, rfl, h, nofun⟩
      · have hmiss : c.hits (.ofNat call.row) = false := by
          rwa [Bool.eq_false_iff, ne_eq, hhits]
        obtain ⟨hl, hh⟩ := Cursor.seek_of_miss hmiss t.data scratch
        obtain ⟨hfetched, hheld⟩ := Cursor.fetch_of_ok hrecord hv scratch
        rw [hl, hh, hfetched, hheld]
        exact ⟨by simp [hlast], rfl, ⟨hb, values, hv, rfl⟩, nofun⟩
  · obtain ⟨hload, hhandle⟩ := call_of_ge (c := c) (Nat.not_lt.1 hrow) scratch
    rw [hload, hhandle, served?, if_neg hrow]
    exact ⟨rfl, rfl, h, fun _ => rfl⟩

end Table

namespace Session

variable {ι : Type} [DecidableEq ι]

def loadsOf (s : Session ι) (i : ι) : List (ι × Call) → List BlockLoad
  | [] => []
  | (j, call) :: calls =>
    (if j = i then ((s.table j).call (s.cursor j) s.scratch call).load.toList else []) ++
      (s.step j call).2.loadsOf i calls

/-- The blocks that serve the calls on the handle `i`. -/
def servedBy (s : Session ι) (i : ι) (calls : List (ι × Call)) : List BlockRecord :=
  (calls.filter fun c => c.1 = i).filterMap fun c => (s.table i).served? (s.cursor i).column c.2

theorem servedBy_cons_self (s : Session ι) (i : ι) (call : Call) (calls : List (ι × Call)) :
    s.servedBy i ((i, call) :: calls) =
      ((s.table i).served? (s.cursor i).column call).toList ++ s.servedBy i calls := by
  rw [servedBy, List.filter_cons_of_pos (by simp), List.filterMap_cons, servedBy]
  cases (s.table i).served? (s.cursor i).column call <;> rfl

theorem servedBy_cons_of_ne (s : Session ι) {i j : ι} (hj : j ≠ i) (call : Call)
    (calls : List (ι × Call)) : s.servedBy i ((j, call) :: calls) = s.servedBy i calls := by
  rw [servedBy, List.filter_cons_of_neg (by simpa using hj), servedBy]

structure Keeps (s : Session ι) (i : ι) (t : Table) (column : ColumnRecord)
    (last : Option BlockRecord) : Prop where
  table : s.table i = t
  column : (s.cursor i).column = column
  holding : (s.cursor i).Holding t.data last

namespace Keeps

variable {s : Session ι} {i : ι} {t : Table} {column : ColumnRecord} {last : Option BlockRecord}

theorem step_other (h : s.Keeps i t column last) {j : ι} (hj : j ≠ i) (call : Call) :
    (s.step j call).2.Keeps i t column last := by
  have hsame : (s.step j call).2.cursor i = s.cursor i := Function.update_of_ne hj.symm _ _
  exact ⟨h.table, hsame ▸ h.column, hsame ▸ h.holding⟩

theorem call_tells (h : s.Keeps i t column last) (hr : column.Readable t.data t.rowCount)
    (call : Call) :
    let a := (s.table i).call (s.cursor i) s.scratch call
    a.load = ((t.served? column call).filter fun b => last ≠ some b).map (·.load column) ∧
      (s.step i call).2.Keeps i t column ((t.served? column call).or last) ∧
      (t.served? column call = none → a.handle = s.cursor i) := by
  obtain ⟨rfl, rfl, hholding⟩ := h
  obtain ⟨hload, hcol, hnext, hstay⟩ := Table.call_tells hholding hr call s.scratch
  have hcur : (s.step i call).2.cursor i =
      ((s.table i).call (s.cursor i) s.scratch call).handle := Function.update_self _ _ _
  exact ⟨hload, ⟨rfl, by rw [hcur, hcol], by rwa [hcur]⟩, hstay⟩

theorem servedBy_step (h : s.Keeps i t column last) {j : ι} {call : Call}
    {last' : Option BlockRecord} (h' : (s.step j call).2.Keeps i t column last')
    (calls : List (ι × Call)) :
    (s.step j call).2.servedBy i calls = s.servedBy i calls := by
  rw [servedBy, servedBy, h'.table, h'.column, h.table, h.column]

theorem run_tells (h : s.Keeps i t column last) (hr : column.Readable t.data t.rowCount)
    (calls : List (ι × Call)) :
    s.loadsOf i calls = (changes last (s.servedBy i calls)).map (·.load column) ∧
      (s.run calls).2.Keeps i t column ((s.servedBy i calls).getLast?.or last) := by
  induction calls generalizing s last with
  | nil => exact ⟨rfl, h⟩
  | cons c calls ih =>
    obtain ⟨j, call⟩ := c
    by_cases hj : j = i
    · subst hj
      obtain ⟨hload, hnext, -⟩ := h.call_tells hr call
      obtain ⟨hloads, hkeeps⟩ := ih hnext
      rw [h.servedBy_step hnext] at hloads hkeeps
      rw [servedBy_cons_self, h.table, h.column, changes_toList_append,
        getLast?_toList_append_or, List.map_append, ← Option.toList_map, ← hload, ← hloads]
      exact ⟨by rw [loadsOf, if_pos rfl], hkeeps⟩
    · have hnext := h.step_other hj call
      rw [loadsOf, if_neg hj, List.nil_append, servedBy_cons_of_ne s hj, ← h.servedBy_step hnext]
      exact ih hnext

end Keeps

/-- The loads that the calls on a handle of an opened file tell of are the blocks that serve them,
each told of once for the calls in a row that it serves. So a call that no block serves tells of
nothing and leaves the block at hand, and a block is loaded again after another one was. -/
theorem tells_changes_of_block (path : String) (contents : Except String (Array UInt8))
    (f : TableFile) (ho : TableFile.ofContents path contents = .ok f) (s : Session ι)
    (hs : s.Fresh f) (i : ι) (calls : List (ι × Call)) :
    let column := (s.cursor i).column
    let served := s.servedBy i calls
    s.loadsOf i calls = (served.destutter (· ≠ ·)).map (·.load column) ∧
      ∀ call, let s' := (s.run calls).2
        let a := (s'.table i).call (s'.cursor i) s'.scratch call
        ((s.table i).served? column call = none → a.load = none ∧ a.handle = s'.cursor i) ∧
          ∀ b, (s.table i).served? column call = some b →
            a.load = if served.getLast? = some b then none else some (b.load column) := by
  obtain ⟨hdata, column, hnew, hr⟩ := hs.readable ho i
  have hcol : (s.cursor i).column = column := by rw [hnew]; rfl
  have hstart : s.Keeps i (s.table i) column none := ⟨rfl, hcol, by rw [hnew]; rfl⟩
  obtain ⟨hloads, hkeeps⟩ := hstart.run_tells hr calls
  rw [Option.or_none] at hkeeps
  rw [changes_none] at hloads
  refine ⟨hcol ▸ hloads, ?_⟩
  intro call
  obtain ⟨hload, -, hstay⟩ := hkeeps.call_tells hr call
  refine ⟨?_, ?_⟩
  · intro hnone
    rw [hcol] at hnone
    exact ⟨by rw [hload, hnone]; rfl, hstay hnone⟩
  · intro b hb
    rw [hcol] at hb ⊢
    rw [hload, hb, Option.filter_some]
    by_cases hlast : (s.servedBy i calls).getLast? = some b <;> simp [hlast]

theorem unevenDamaged_served? (call : Call) :
    Table.served? ⟨unevenDamaged.finish.2, unevenHits⟩ unevenX call =
      if call.row < 5 then
        (unevenX.blocks.toList.find? fun b => b.Covers call.row).filter fun b => b.startRow ≠ 4
      else none := by
  have hwritten : ∀ b ∈ unevenX.blocks.toList, b.Within unevenDamaged.written ∧
      (b.contents unevenX unevenDamaged.written).isOk = decide (b.startRow ≠ 4) := by
    decide +kernel
  rw [Table.served?]
  cases hfind : unevenX.blocks.toList.find? fun b => b.Covers call.row with
  | none => rfl
  | some b =>
    obtain ⟨hwithin, hok⟩ := hwritten b (List.mem_of_find?_eq_some hfind)
    rw [Option.filter_some, Option.filter_some, TableWriter.finish_bytes, Array.append_assoc,
      hwithin.contents_append, hok]
    rfl

def unevenReturn : List (Bool × Call) := unevenCalls ++ [(true, .read 2), (true, .read 1)]

theorem unevenHandles_tell : ∃ f,
    TableFile.ofContents "damaged.tbl" (.ok unevenDamaged.finish.2) = .ok f ∧
      (unevenHandles unevenDamaged).Fresh f ∧
      (unevenHandles unevenDamaged).servedBy true unevenReturn =
        [⟨0, 2, 20, 38, 32⟩, ⟨0, 2, 20, 38, 32⟩, ⟨2, 2, 58, 38, 32⟩, ⟨0, 2, 20, 38, 32⟩] ∧
      (unevenHandles unevenDamaged).loadsOf true unevenReturn =
        [⟨"x", 2, 38, 32⟩, ⟨"x", 2, 38, 32⟩, ⟨"x", 2, 38, 32⟩] := by
  have hfresh := unevenHandles_fresh unevenDamaged "damaged.tbl"
  have hserved : (unevenHandles unevenDamaged).servedBy true unevenReturn =
      [⟨0, 2, 20, 38, 32⟩, ⟨0, 2, 20, 38, 32⟩, ⟨2, 2, 58, 38, 32⟩, ⟨0, 2, 20, 38, 32⟩] := by
    have hserved? : (fun c : Bool × Call => Table.served? ⟨unevenDamaged.finish.2, unevenHits⟩
        unevenX c.2) = _ := funext fun c => unevenDamaged_served? c.2
    exact (congrArg (List.filterMap · _) hserved?).trans (by decide)
  obtain ⟨hloads, -⟩ :=
    tells_changes_of_block _ _ _ unevenDamaged_opens _ hfresh true unevenReturn
  rw [hserved] at hloads
  exact ⟨_, unevenDamaged_opens, hfresh, hserved, hloads⟩

end Session
end Columnar
