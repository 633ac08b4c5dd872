import Columnar.Table.Table

/-! The values of one column as lines: first the names, then one line for each row, at most `limit`
of them, or all if the limit is zero. A row that cannot be read ends the lines. Beside its lines a
dump tells of the blocks that were loaded for them. -/

namespace Columnar

structure Dump where
  lines : List String
  loads : List BlockLoad
  result : Except ScanError Unit

namespace Dump

def heading (column : String) : String := s!"row,{column}\n"

def rowLine (row : Nat) (value : String) : String := s!"{row},{value}\n"

def shownRows (rowCount limit : Nat) : Nat := if limit = 0 then rowCount else min rowCount limit

def rows (t : Table) (row : Nat) : Nat → Cursor → Scratch → Array String → Array BlockLoad → Dump
  | 0, _, _, lines, loads => ⟨lines.toList, loads.toList, .ok ()⟩
  | count + 1, c, scratch, lines, loads =>
    let a := t.format c row scratch
    let told := loads ++ a.load.toList
    match a.result with
    | .error e => ⟨lines.toList, told.toList, .error e⟩
    | .ok value => rows t (row + 1) count a.handle a.scratch (lines.push (rowLine row value)) told

end Dump

def Table.dump (t : Table) (column : String) (limit : Nat) : Dump :=
  match t.bindAny column with
  | .error e => ⟨[], [], .error e⟩
  | .ok c =>
    Dump.rows t 0 (Dump.shownRows t.rowCount limit) c .empty #[Dump.heading column] #[]

end Columnar
