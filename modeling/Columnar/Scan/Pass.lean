import Columnar.Scan.Bucket
import Columnar.Scan.Profile
import Columnar.Scan.Report
import Columnar.Sink

/-! One pass over a source. The three columns are bound in order, then every row is read through the
three handles and counted under its bucket. The first read that fails ends the pass without a
histogram. A pass tells what it did as a list of steps; a stopwatch gives them their times. -/

namespace Columnar

structure ScanOptions where
  x : String
  y : String
  z : String
  width : BucketWidth
  deriving DecidableEq

def ScanOptions.standard : ScanOptions := ⟨"H1_PX", "H1_PY", "H1_PZ", .standard⟩

namespace Pass

inductive Step
  | started (rows : Nat)
  | loaded (load : BlockLoad)
  | ended
  deriving Repr, DecidableEq

structure State (η : Type) where
  x : η
  y : η
  z : η
  histogram : Histogram
  steps : Array Step
  scratch : Scratch

def noteLoad (steps : Array Step) : Option BlockLoad → Array Step
  | none => steps
  | some load => steps.push (.loaded load)

variable {σ η : Type} [ColumnSource σ η]

def row (source : σ) (width : BucketWidth) (i : Nat) (s : State η) :
    Except ScanError Unit × State η :=
  let x := ColumnSource.read source s.x i s.scratch
  let s := { s with x := x.handle, steps := noteLoad s.steps x.load, scratch := x.scratch }
  match x.result with
  | .error e => (.error e, s)
  | .ok px =>
    let y := ColumnSource.read source s.y i s.scratch
    let s := { s with y := y.handle, steps := noteLoad s.steps y.load, scratch := y.scratch }
    match y.result with
    | .error e => (.error e, s)
    | .ok py =>
      let z := ColumnSource.read source s.z i s.scratch
      let s := { s with z := z.handle, steps := noteLoad s.steps z.load, scratch := z.scratch }
      match z.result with
      | .error e => (.error e, s)
      | .ok pz => (.ok (), { s with histogram := s.histogram.record (width.bucket px py pz) })

def rows (source : σ) (width : BucketWidth) (i : Nat) :
    Nat → State η → Except ScanError Unit × State η
  | 0, s => (.ok (), s)
  | count + 1, s =>
    match row source width i s with
    | (.error e, s) => (.error e, s)
    | (.ok (), s) => rows source width (i + 1) count s

structure Tally where
  histogram : Histogram
  rows : Nat
  deriving DecidableEq

structure Outcome where
  result : Except ScanError Tally
  steps : List Step
  scratch : Scratch

def bindAll (source : σ) (options : ScanOptions) : Except ScanError (η × η × η) := do
  let x ← ColumnSource.bind source options.x
  let y ← ColumnSource.bind source options.y
  let z ← ColumnSource.bind source options.z
  pure (x, y, z)

def State.initial (handles : η × η × η) (count : Nat) (scratch : Scratch) : State η :=
  ⟨handles.1, handles.2.1, handles.2.2, .empty, #[.started count], scratch⟩

def Outcome.ofRows (count : Nat) : Except ScanError Unit × State η → Outcome
  | (.error e, s) => ⟨.error e, s.steps.toList, s.scratch⟩
  | (.ok (), s) => ⟨.ok ⟨s.histogram, count⟩, s.steps.toList ++ [.ended], s.scratch⟩

def run (source : σ) (options : ScanOptions) (scratch : Scratch) : Outcome :=
  match bindAll source options with
  | .error e => ⟨.error e, [], scratch⟩
  | .ok handles =>
    let count := ColumnSource.rowCount source
    .ofRows count (rows source options.width 0 count (.initial handles count scratch))

/-- The times that were measured for one pass; `load i` is that of the `i`-th block load. -/
structure Stopwatch where
  timing : Timing
  load : Nat → Duration

def Stopwatch.stopped : Stopwatch := ⟨.zero, fun _ => .zero⟩

def timed (watch : Stopwatch) (loads : Nat) : List Step → List Event
  | [] => []
  | .started rows :: steps => .scanStart rows :: timed watch loads steps
  | .loaded load :: steps => .blockRead load (watch.load loads) :: timed watch (loads + 1) steps
  | .ended :: steps => .scanEnd watch.timing.analysis :: timed watch loads steps

def Outcome.reportLines (o : Outcome) (tally : Tally) (watch : Stopwatch)
    (profiled showBuckets : Bool) : List String :=
  Report.lines showBuckets tally.histogram watch.timing ++
    if profiled then (Profile.ofEvents (timed watch 0 o.steps)).lines else []

/-- Writes the report of a pass. A pass that failed writes nothing. -/
def Outcome.report (o : Outcome) (watch : Stopwatch) (profiled showBuckets : Bool) (out : Sink) :
    Except ScanError Tally × Sink :=
  match o.result with
  | .error e => (.error e, out)
  | .ok tally =>
    match out.writeAll (o.reportLines tally watch profiled showBuckets) with
    | (.error fault, out) => (.error (.io fault), out)
    | (.ok (), out) => (.ok tally, out)

end Pass
end Columnar
