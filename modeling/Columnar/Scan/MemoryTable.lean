import Columnar.Scan.Source

/-! A table of columns held in memory. Columns keep the order in which they were added; the first one
sets the number of rows, and the others must have as many. A handle is the place of its column. -/

namespace Columnar

structure MemoryTable where
  rowCount : Nat
  columns : List (String × Values)
  deriving DecidableEq

namespace MemoryTable

def empty : MemoryTable := ⟨0, []⟩

def names (t : MemoryTable) : List String := t.columns.map Prod.fst

def add (t : MemoryTable) (name : String) (values : Values) : Except StoreError MemoryTable :=
  if name ∈ t.names then .error (.duplicateColumn "<memory>" name)
  else if t.columns.isEmpty then .ok ⟨values.size, [(name, values)]⟩
  else if values.size ≠ t.rowCount then .error (.rowCountMismatch name t.rowCount values.size)
  else .ok ⟨t.rowCount, t.columns ++ [(name, values)]⟩

def bind (t : MemoryTable) (name : String) : Except ScanError Nat :=
  match t.columns.findIdx? (fun c => c.1 = name) with
  | none => .error (.columnNotFound (.absent name))
  | some index =>
    match t.columns[index]? with
    | some (_, .floats _) => .ok index
    | _ => .error (.columnNotFound (.storedAs name .int64 .float64))

def value (t : MemoryTable) (handle row : Nat) : Except ScanError Binary64 :=
  if t.rowCount ≤ row then .error (.invalidRow row t.rowCount)
  else
    match t.columns[handle]?.bind fun c => c.2.floatAt? row with
    | some x => .ok x
    | none => .error (.columnRead (.staleHandle handle))

instance : ColumnSource MemoryTable Nat where
  rowCount := rowCount
  bind := bind
  read t handle row scratch := ⟨t.value handle row, handle, none, scratch⟩

end MemoryTable
end Columnar
