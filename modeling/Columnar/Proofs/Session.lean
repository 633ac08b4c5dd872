import Mathlib.Logic.Function.Basic
import Columnar.Proofs.RoundTrip

/-! Handles in use together. A session has any number of handles, each on a column of its table, and
one scratch slot for all of them; calls are made on them in any order. What a call gives is decided
by the bytes of one block, so it does not depend on the calls before it, on the same handle or on
others: a handle that has been used answers as one that was just bound. -/

namespace Columnar

inductive Call
  | read (row : Nat)
  | format (row : Nat)
  deriving Repr, DecidableEq

def Call.row : Call → Nat
  | .read row => row
  | .format row => row

inductive Reply
  | number (x : Binary64)
  | text (s : String)
  deriving Repr, DecidableEq

theorem BlockRecord.Gives.of_bytesIn {α : Type} {b : BlockRecord} {column : ColumnRecord}
    {data data' : Array UInt8} {pick : Values → Option α} {r : Except ScanError α}
    (h : b.bytesIn data = b.bytesIn data') (hg : b.Gives column data pick r) :
    b.Gives column data' pick r := by
  unfold Gives at hg ⊢
  rwa [← h]

namespace Table

def call (t : Table) (c : Cursor) (scratch : Scratch) : Call → Access Cursor Reply
  | .read row => (t.read c row scratch).andThen fun x => .ok (.number x)
  | .format row => (t.format c row scratch).andThen fun s => .ok (.text s)

section TwoFiles

variable {t u : Table} {column : ColumnRecord} {c d : Cursor} {row : Nat}
  (hrec : t.record = u.record) (ht : column.Readable t.data t.rowCount)
  (hu : column.Readable u.data u.rowCount) (hc : Cursor.After t.data (.new column) c)
  (hd : Cursor.After u.data (.new column) d)
  (hbytes : row < t.rowCount → ∀ b ∈ column.blocks.toList, b.Covers row →
    b.bytesIn t.data = b.bytesIn u.data)

include hrec ht hu hc hd hbytes

theorem read_eq_read (scratch scratch' : Scratch) :
    (t.read c row scratch).result = (u.read d row scratch').result := by
  have hrows : t.rowCount = u.rowCount := congrArg (fun r => r.rowCount.toNat) hrec
  by_cases hrow : row < t.rowCount
  · have hrow' : row < u.rowCount := hrows ▸ hrow
    obtain ⟨b, hb, hcov⟩ := ht.tiles.exists_covers (Nat.zero_le row) hrow
    have hsame := hbytes hrow b hb hcov
    cases htype : column.type with
    | float64 =>
      have hgt := read_gives ht htype hc hb hcov hrow scratch
      have hgu := read_gives hu htype hd hb hcov hrow' scratch'
      exact (hgt.of_bytesIn hsame).unique hgu
    | int64 =>
      rw [read_ints ht htype hc hb hcov hrow, read_ints hu htype hd hb hcov hrow', hsame]
  · have hge : t.rowCount ≤ row := Nat.not_lt.1 hrow
    rw [read, if_pos hge, read, if_pos (hrows ▸ hge), hrows]
    rfl

theorem format_eq_format (scratch scratch' : Scratch) :
    (t.format c row scratch).result = (u.format d row scratch').result := by
  have hrows : t.rowCount = u.rowCount := congrArg (fun r => r.rowCount.toNat) hrec
  by_cases hrow : row < t.rowCount
  · obtain ⟨b, hb, hcov⟩ := ht.tiles.exists_covers (Nat.zero_le row) hrow
    have hgt := format_gives ht hc hb hcov hrow scratch
    have hgu := format_gives hu hd hb hcov (hrows ▸ hrow) scratch'
    exact (hgt.of_bytesIn (hbytes hrow b hb hcov)).unique hgu
  · have hge : t.rowCount ≤ row := Nat.not_lt.1 hrow
    rw [format, if_pos hge, format, if_pos (hrows ▸ hge), hrows]
    rfl

end TwoFiles

theorem call_eq_call {t u : Table} {column : ColumnRecord} {c d : Cursor} {call : Call}
    (hrec : t.record = u.record) (ht : column.Readable t.data t.rowCount)
    (hu : column.Readable u.data u.rowCount) (hc : Cursor.After t.data (.new column) c)
    (hd : Cursor.After u.data (.new column) d)
    (hbytes : call.row < t.rowCount → ∀ b ∈ column.blocks.toList, b.Covers call.row →
      b.bytesIn t.data = b.bytesIn u.data) (scratch scratch' : Scratch) :
    (t.call c scratch call).result = (u.call d scratch' call).result := by
  cases call with
  | read row =>
    have h : (t.read c row scratch).result = (u.read d row scratch').result :=
      read_eq_read hrec ht hu hc hd hbytes scratch scratch'
    simp only [Table.call, Access.andThen, h]
  | format row =>
    have h : (t.format c row scratch).result = (u.format d row scratch').result :=
      format_eq_format hrec ht hu hc hd hbytes scratch scratch'
    simp only [Table.call, Access.andThen, h]

end Table

theorem Cursor.After.call {data : Array UInt8} {start c : Cursor} (h : After data start c)
    {t : Table} (ht : t.data = data) (scratch : Scratch) (call : Call) :
    After data start (t.call c scratch call).handle := by
  subst ht
  cases call with
  | read row => exact h.read t.record row scratch
  | format row => exact h.format t.record row scratch

/-- Handles in use at one time, and the scratch slot that they share. -/
structure Session (ι : Type) where
  table : ι → Table
  cursor : ι → Cursor
  scratch : Scratch

namespace Session

variable {ι : Type}

def Fresh (s : Session ι) (f : TableFile) : Prop :=
  ∀ i, ∃ table column, f.table table = .ok (s.table i) ∧
    ((s.table i).bind column = .ok (s.cursor i) ∨ (s.table i).bindAny column = .ok (s.cursor i))

theorem Fresh.readable {s : Session ι} {path : String} {contents : Except String (Array UInt8)}
    {f : TableFile} (ho : TableFile.ofContents path contents = .ok f) (hs : s.Fresh f) (i : ι) :
    (s.table i).data = f.data ∧ ∃ column, s.cursor i = .new column ∧
      column.Readable (s.table i).data (s.table i).rowCount := by
  obtain ⟨tableName, name, ht, hbind⟩ := hs i
  refine ⟨(TableFile.table_eq_ok.1 ht).2, ?_⟩
  rcases hbind with hbind | hbind
  · obtain ⟨column, hcol, -, hnew⟩ := Table.bind_eq_ok.1 hbind
    exact ⟨column, hnew, TableFile.readable ho ht hcol⟩
  · obtain ⟨column, hcol, hnew⟩ := Table.bindAny_eq_ok.1 hbind
    exact ⟨column, hnew, TableFile.readable ho ht hcol⟩

/-- `s` is what calls on the handles of `start` can make of them. -/
structure Reached (f : TableFile) (start s : Session ι) : Prop where
  table : s.table = start.table
  cursor : ∀ i, Cursor.After f.data (start.cursor i) (s.cursor i)

theorem Reached.refl (f : TableFile) (start : Session ι) : Reached f start start :=
  ⟨rfl, fun _ => .none⟩

theorem Reached.atHand {path : String} {contents : Except String (Array UInt8)} {f : TableFile}
    {start s : Session ι} (h : Reached f start s) (ho : TableFile.ofContents path contents = .ok f)
    (hs : start.Fresh f) {i : ι} {block : CachedBlock}
    (hb : (s.cursor i).current = some block) :
    ∃ b ∈ (start.cursor i).column.blocks.toList,
      (∀ scratch, (b.fetch (start.cursor i).column f.data scratch).1 = .ok block.values) ∧
        block.startRow = b.startRow ∧ block.values.size = b.rows.toNat := by
  obtain ⟨hdata, column, hnew, hr⟩ := hs.readable ho i
  have hafter := h.cursor i
  rw [hnew] at hafter ⊢
  obtain ⟨hsound, hcol⟩ := hafter.sound
  obtain ⟨b, hmem, hcontents, hstart⟩ := hsound block hb
  rw [hcol] at hmem hcontents
  refine ⟨b, hmem, ?_, hstart, ?_⟩
  · intro scratch
    rw [BlockRecord.fetch_eq_contents]
    exact hcontents
  · rw [hdata] at hr
    rw [BlockRecord.contents_eq_decode (hr.within b hmem), mapError_eq_ok] at hcontents
    exact (BlockRecord.decode_ok hcontents).2

variable [DecidableEq ι]

def step (s : Session ι) (i : ι) (call : Call) : Except ScanError Reply × Session ι :=
  let a := (s.table i).call (s.cursor i) s.scratch call
  (a.result, ⟨s.table, Function.update s.cursor i a.handle, a.scratch⟩)

def run (s : Session ι) : List (ι × Call) → List (Except ScanError Reply) × Session ι
  | [] => ([], s)
  | (i, call) :: calls =>
    ((s.step i call).1 :: ((s.step i call).2.run calls).1, ((s.step i call).2.run calls).2)

variable {f : TableFile} {start s : Session ι}

theorem Reached.step (h : Reached f start s) (hdata : ∀ i, (start.table i).data = f.data) (i : ι)
    (call : Call) : Reached f start (s.step i call).2 := by
  refine ⟨h.table, ?_⟩
  intro j
  by_cases hj : j = i
  · subst hj
    have ht : (s.table j).data = f.data := by rw [h.table, hdata j]
    simp only [Session.step, Function.update_self]
    exact (h.cursor j).call ht s.scratch call
  · simp only [Session.step, Function.update_of_ne hj]
    exact h.cursor j

theorem Reached.run (h : Reached f start s) (hdata : ∀ i, (start.table i).data = f.data)
    (calls : List (ι × Call)) : Reached f start (s.run calls).2 := by
  induction calls generalizing s with
  | nil => exact h
  | cons c calls ih =>
    obtain ⟨i, call⟩ := c
    exact ih (h.step hdata i call)

section Opened

variable {path : String} {contents : Except String (Array UInt8)}
  (ho : TableFile.ofContents path contents = .ok f) (hs : start.Fresh f)

include ho hs

theorem Reached.reply (h : Reached f start s) (i : ι) (call : Call) (scratch : Scratch) :
    (s.step i call).1 = ((start.table i).call (start.cursor i) scratch call).result := by
  obtain ⟨hdata, column, hnew, hr⟩ := hs.readable ho i
  have hafter := h.cursor i
  rw [hnew, ← hdata] at hafter
  rw [Session.step, hnew, h.table]
  exact Table.call_eq_call rfl hr hr hafter .none (fun _ _ _ _ => rfl) s.scratch scratch

theorem Reached.replies (h : Reached f start s) (calls : List (ι × Call)) (scratch : Scratch) :
    (s.run calls).1 =
      calls.map fun c => ((start.table c.1).call (start.cursor c.1) scratch c.2).result := by
  have hdata : ∀ i, (start.table i).data = f.data := fun i => (hs.readable ho i).1
  induction calls generalizing s with
  | nil => rfl
  | cons c calls ih =>
    obtain ⟨i, call⟩ := c
    rw [List.map_cons, ← ih (h.step hdata i call), ← h.reply ho hs i call scratch]
    rfl

end Opened

/-- The blocks that handles keep cannot be seen: each call of a session on an opened file gives what
it gives on a handle that was just bound, and what a handle keeps is a block of its column. -/
theorem replies_as_if_fresh (path : String) (contents : Except String (Array UInt8)) (f : TableFile)
    (ho : TableFile.ofContents path contents = .ok f) (s : Session ι) (hs : s.Fresh f)
    (calls : List (ι × Call)) :
    (∀ scratch, (s.run calls).1 =
      calls.map fun c => ((s.table c.1).call (s.cursor c.1) scratch c.2).result) ∧
    ∀ i block, ((s.run calls).2.cursor i).current = some block →
      ∃ b ∈ (s.cursor i).column.blocks.toList,
        (∀ scratch, (b.fetch (s.cursor i).column f.data scratch).1 = .ok block.values) ∧
          block.startRow = b.startRow ∧ block.values.size = b.rows.toNat := by
  have hdata : ∀ i, (s.table i).data = f.data := fun i => (hs.readable ho i).1
  refine ⟨?_, ?_⟩
  · intro scratch
    exact (Reached.refl f s).replies ho hs calls scratch
  · intro i block hb
    exact ((Reached.refl f s).run hdata calls).atHand ho hs hb

def unevenHandles (w : TableWriter) : Session Bool :=
  ⟨fun _ => ⟨w.finish.2, unevenHits⟩, fun isX => .new (if isX then unevenX else unevenY), .empty⟩

theorem unevenHandles_fresh (w : TableWriter) (path : String) :
    (unevenHandles w).Fresh ⟨path, w.finish.2, FileHeader.ofTable, uneven.catalog⟩ := by
  intro isX
  cases isX with
  | true => exact ⟨"hits", "x", rfl, Or.inl rfl⟩
  | false => exact ⟨"hits", "y", rfl, Or.inr rfl⟩

def unevenCalls : List (Bool × Call) :=
  [(true, .read 1), (true, .read 4), (false, .format 2), (true, .format 0), (false, .read 3),
    (true, .read 9), (false, .read 2)]

theorem unevenHandles_replies : ∃ f,
    TableFile.ofContents "damaged.tbl" (.ok unevenDamaged.finish.2) = .ok f ∧
      (unevenHandles unevenDamaged).Fresh f ∧
      let s := unevenHandles unevenDamaged
      (∀ scratch, (s.run unevenCalls).1 =
        unevenCalls.map fun c => ((s.table c.1).call (s.cursor c.1) scratch c.2).result) ∧
      ∀ isX block, ((s.run unevenCalls).2.cursor isX).current = some block →
        ∃ b ∈ (s.cursor isX).column.blocks.toList,
          (∀ scratch, (b.fetch (s.cursor isX).column f.data scratch).1 = .ok block.values) ∧
            block.startRow = b.startRow ∧ block.values.size = b.rows.toNat := by
  have hfresh := unevenHandles_fresh unevenDamaged "damaged.tbl"
  exact ⟨_, unevenDamaged_opens, hfresh,
    replies_as_if_fresh _ _ _ unevenDamaged_opens _ hfresh unevenCalls⟩

end Session
end Columnar
