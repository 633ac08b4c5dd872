import Columnar.Command.Start
import Columnar.Scan.Pass

/-! The command that scans a table: it describes the file and the table, then makes its passes, each
with its report and its time. A second plain argument asks for the profile, and a third one for
every bucket. -/

namespace Columnar.Command

structure ScanArguments where
  path : Option String
  profile : Option String
  listing : Option String
  table : Option String
  passes : Option Nat
  config : Option String

namespace ScanArguments

def empty : ScanArguments := ⟨none, none, none, none, none, none⟩

def plain (arg : String) (a : ScanArguments) : Option ScanArguments :=
  match a.path, a.profile, a.listing with
  | none, _, _ => (path? arg).map fun p => { a with path := some p }
  | some _, none, _ => some { a with profile := some arg }
  | some _, some _, none => some { a with listing := some arg }
  | some _, some _, some _ => none

def option : String → Option (Action ScanArguments)
  | "table" => some (.value fun s a => (once a.table (some s)).map fun v => { a with table := v })
  | "passes" => some (.value fun s a =>
      (once a.passes (signedNumber? UInt32.size s)).map fun v => { a with passes := v })
  | "config" => some (.value fun s a => (once a.config (some s)).map fun v => { a with config := v })
  | _ => none

def grammar : Grammar ScanArguments := ⟨option, plain⟩

def usage : String :=
  "Usage: colscan [--table <TABLE>] [--passes <PASSES>] [--config <CONFIG>] " ++
    "[PATH] [PROFILE] [SHOW]\n"

end ScanArguments

variable {m : Type → Type} [Monad m]

/-- The rows of a pass as in `Pass.rows`, with the time for each block that was loaded: a row that
loads blocks gives each of them an equal part of its own time. -/
def timedRows (h : Host m) (table : Table) (width : BucketWidth) (i : Nat) :
    Nat → Pass.State Cursor → Array Duration →
      m ((Except ScanError Unit × Pass.State Cursor) × Array Duration)
  | 0, s, times => pure ((.ok (), s), times)
  | count + 1, s, times => do
    let known := s.steps.size
    let start ← h.clock
    let (result, s) ← h.compute fun _ => Pass.row table width i s
    let loads := s.steps.size - known
    let times ← if loads = 0 then pure times else do
      let stop ← h.clock
      pure (times ++ Array.replicate loads ⟨(stop - start) / loads⟩)
    match result with
    | .error e => pure ((.error e, s), times)
    | .ok () => timedRows h table width (i + 1) count s times

def timedPass (h : Host m) (table : Table) (options : ScanOptions) (scratch : Scratch) :
    m (Pass.Outcome × Pass.Stopwatch) := do
  let start ← h.clock
  match ← h.compute fun _ => Pass.bindAll table options with
  | .error e => pure (⟨.error e, [], scratch⟩, .stopped)
  | .ok handles =>
    let firstRow ← h.clock
    let count := table.rowCount
    let (rows, times) ←
      timedRows h table options.width 0 count (.initial handles count scratch) #[]
    let stop ← h.clock
    pure (.ofRows count rows,
      ⟨.ofReadings start (some firstRow) stop, fun i => times[i]?.getD .zero⟩)

def totalLine (i : Nat) (timing : Timing) : String :=
  s!"run {i} total time: {(timing.initialization + timing.analysis).milliseconds}ms\n"

def runPasses (h : Host m) (table : Table) (options : ScanOptions) (profiled showBuckets : Bool)
    (i : Nat) (scratch : Scratch) : Nat → ExceptT Failure m Unit
  | 0 => pure ()
  | count + 1 => do
    let (outcome, watch) ← (timedPass h table options scratch : m _)
    match outcome.result with
    | .error e => throw (.ofScan e)
    | .ok tally =>
      h.print (String.join (outcome.reportLines tally watch profiled showBuckets))
      h.print (totalLine i watch.timing)
      runPasses h table options profiled showBuckets (i + 1) outcome.scratch count

def scanFile (h : Host m) (a : ScanArguments) (path : String) : ExceptT Failure m Unit := do
  let settings ← start h a.config
  let query := settings.query
  match BucketWidth.ofUInt64? query.bucketWidth with
  | none => throw ⟨s!"unusable bucket width {query.bucketWidth.toNat}", []⟩
  | some width =>
    let file ← openFile h path
    let table ← findTable file (a.table.getD query.table)
    h.print file.describe
    h.print table.describe
    runPasses h table ⟨query.x, query.y, query.z, width⟩ a.profile.isSome a.listing.isSome 0 .empty
      (a.passes.getD query.passes.toNat)

def scanCommand (h : Host m) (args : List String) : m UInt32 :=
  runRead h ScanArguments.usage (ScanArguments.grammar.read args .empty) fun a =>
    match a.path with
    | none => do
      h.printError "No file provided\n"
      pure 1
    | some path => exitCode h (scanFile h a path)

end Columnar.Command
