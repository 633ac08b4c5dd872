import Columnar.Command.Start
import Columnar.Command.Synthetic
import Columnar.Table.Catalog.Listing
import Columnar.Table.Dump
import Columnar.Table.Writer

/-! The command that makes and shows table files. It has a command of its own for each: `generate`
writes a table of made-up momenta, `inspect` shows the catalog of a file, and `dump` the values of
one column. -/

namespace Columnar.Command

structure GenerateArguments where
  path : Option String
  rows : Option Nat
  seed : Option Nat
  table : Option String
  rowsPerBlock : Option Nat

structure InspectArguments where
  path : Option String
  json : Bool

structure DumpArguments where
  path : Option String
  column : Option String
  table : Option String
  limit : Option Nat

namespace GenerateArguments

def option : String → Option (Action GenerateArguments)
  | "rows" => some (.value fun s a =>
      (once a.rows (number? UInt64.size s)).map fun v => { a with rows := v })
  | "seed" => some (.value fun s a =>
      (once a.seed (number? UInt64.size s)).map fun v => { a with seed := v })
  | "table" => some (.value fun s a => (once a.table (some s)).map fun v => { a with table := v })
  | "rows-per-block" => some (.value fun s a =>
      (once a.rowsPerBlock (number? UInt64.size s)).map fun v => { a with rowsPerBlock := v })
  | _ => none

def grammar : Grammar GenerateArguments :=
  ⟨option, fun s a => (once a.path (path? s)).map fun v => { a with path := v }⟩

end GenerateArguments

namespace InspectArguments

def option : String → Option (Action InspectArguments)
  | "json" => some (.flag fun a => if a.json then none else some { a with json := true })
  | _ => none

def grammar : Grammar InspectArguments :=
  ⟨option, fun s a => (once a.path (path? s)).map fun v => { a with path := v }⟩

end InspectArguments

namespace DumpArguments

def option : String → Option (Action DumpArguments)
  | "column" => some (.value fun s a =>
      (once a.column (some s)).map fun v => { a with column := v })
  | "table" => some (.value fun s a => (once a.table (some s)).map fun v => { a with table := v })
  | "limit" => some (.value fun s a =>
      (once a.limit (number? UInt64.size s)).map fun v => { a with limit := v })
  | _ => none

def grammar : Grammar DumpArguments :=
  ⟨option, fun s a => (once a.path (path? s)).map fun v => { a with path := v }⟩

end DumpArguments

inductive ToolCommand
  | generate (path : String) (rows seed : Nat) (table : Option String) (rowsPerBlock : Option Nat)
  | inspect (path : String) (json : Bool)
  | dump (path column : String) (table : Option String) (limit : Nat)

namespace ToolCommand

def ofGenerate (a : GenerateArguments) : Option ToolCommand :=
  a.path.map fun path =>
    .generate path (a.rows.getD 100000) (a.seed.getD 42) a.table a.rowsPerBlock

def ofInspect (a : InspectArguments) : Option ToolCommand :=
  a.path.map fun path => .inspect path a.json

def ofDump (a : DumpArguments) : Option ToolCommand :=
  match a.path, a.column with
  | some path, some column => some (.dump path column a.table (a.limit.getD 20))
  | _, _ => none

def names : List String := ["generate", "inspect", "dump", "help"]

def readHelp : List String → Reading ToolCommand
  | [] => .help
  | [name] => if name ∈ names then .help else .mistaken
  | _ => .mistaken

def read : List String → Reading ToolCommand
  | "generate" :: args =>
    (GenerateArguments.grammar.read args ⟨none, none, none, none, none⟩).bind ofGenerate
  | "inspect" :: args => (InspectArguments.grammar.read args ⟨none, false⟩).bind ofInspect
  | "dump" :: args => (DumpArguments.grammar.read args ⟨none, none, none, none⟩).bind ofDump
  | "help" :: args => readHelp args
  | arg :: _ => if arg = "--help" ∨ arg.startsWith "-h" then .help else .mistaken
  | [] => .mistaken

def usage : String :=
  "Usage: table_tool generate <PATH> [--rows <ROWS>] [--seed <SEED>] [--table <TABLE>] " ++
    "[--rows-per-block <ROWS_PER_BLOCK>]\n" ++
    "       table_tool inspect <PATH> [--json]\n" ++
    "       table_tool dump <PATH> --column <COLUMN> [--table <TABLE>] [--limit <LIMIT>]\n"

end ToolCommand

variable {m : Type → Type} [Monad m]

def cannotCreate (path : String) (e : StoreError) : Failure :=
  ⟨s!"cannot create {path}", Failure.storeMessages e⟩

def write (h : Host m) (path : String) (bytes : Array UInt8) : ExceptT Failure m Unit := do
  match ← h.write path bytes with
  | .error text => throw (.ofStore (.io (.reported text)))
  | .ok () => pure ()

/-- The file is made before anything is written to it; a table that is refused leaves the header. -/
def generate (h : Host m) (settings : Settings) (path : String) (rows seed : Nat) (table : String)
    (rowsPerBlock : Nat) : ExceptT Failure m Unit := do
  let query := settings.query
  let columns := Synthetic.columns query.x query.y query.z rows (.ofNat seed)
  match ← h.create path with
  | .error text => throw (cannotCreate path (.io (.reported text)))
  | .ok () =>
    match TableWriter.new.addTable table columns rowsPerBlock with
    | (.error e, w) =>
      write h path w.written
      throw (.ofStore e)
    | (.ok (), w) =>
      write h path w.finish.2
      h.print s!"wrote {rows} rows of {table} to {path}\n"

def reportTree (path : String) (f : TableFile) : Text.Tree :=
  .record [("path", .text path), ("bytes", .number f.size), ("catalog", f.catalog.tree)]

def describeTables (h : Host m) (f : TableFile) : List TableRecord → ExceptT Failure m Unit
  | [] => pure ()
  | t :: tables => do
    let table ← findTable f t.name
    h.print table.describe
    describeTables h f tables

def inspect (h : Host m) (path : String) (json : Bool) : ExceptT Failure m Unit := do
  let file ← openFile h path
  if json then h.print ((reportTree path file).pretty ++ "\n")
  else
    h.print file.describe
    describeTables h file file.catalog.tables

def dump (h : Host m) (path column table : String) (limit : Nat) : ExceptT Failure m Unit := do
  let file ← openFile h path
  let table ← findTable file table
  let shown := table.dump column limit
  h.print (String.join shown.lines)
  match shown.result with
  | .error e => throw (.ofScan e)
  | .ok () => pure ()

def ToolCommand.run (h : Host m) (c : ToolCommand) : ExceptT Failure m Unit := do
  let settings ← start h none
  match c with
  | .generate path rows seed table rowsPerBlock =>
    Command.generate h settings path rows seed (table.getD settings.query.table)
      (rowsPerBlock.getD settings.storage.rowsPerBlock.toNat)
  | .inspect path json => Command.inspect h path json
  | .dump path column table limit =>
    Command.dump h path column (table.getD settings.query.table) limit

def toolCommand (h : Host m) (args : List String) : m UInt32 :=
  runRead h ToolCommand.usage (ToolCommand.read args) fun c => exitCode h (c.run h)

end Columnar.Command
