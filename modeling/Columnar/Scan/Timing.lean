import Columnar.Binary64

/-! Measured times. A duration is a whole number of nanoseconds; reports show whole microseconds, and
rates use seconds as a double. -/

namespace Columnar

structure Duration where
  nanoseconds : Nat
  deriving Repr, DecidableEq

namespace Duration

def zero : Duration := ⟨0⟩

def ofParts (seconds nanos : Nat) : Duration := ⟨seconds * 1000000000 + nanos⟩

def seconds (d : Duration) : Nat := d.nanoseconds / 1000000000
def nanos (d : Duration) : Nat := d.nanoseconds % 1000000000

def isZero (d : Duration) : Bool := d.nanoseconds = 0

def microseconds (d : Duration) : Nat := d.nanoseconds / 1000
def milliseconds (d : Duration) : Nat := d.nanoseconds / 1000000

instance : Add Duration := ⟨fun a b => ⟨a.nanoseconds + b.nanoseconds⟩⟩

def toSeconds (d : Duration) : Float :=
  (UInt64.ofNat d.seconds).toFloat + (UInt64.ofNat d.nanos).toFloat / 1000000000.0

end Duration

structure Timing where
  initialization : Duration
  analysis : Duration
  deriving Repr, DecidableEq

namespace Timing

def zero : Timing := ⟨.zero, .zero⟩

/-- The phases between the readings of a clock at the start, at the first row and at the end.
Without a reading at the first row the whole span is initialization. -/
def ofReadings (start : Nat) (firstRow : Option Nat) (stop : Nat) : Timing :=
  let first := firstRow.getD stop
  ⟨⟨first - start⟩, ⟨stop - first⟩⟩

end Timing
end Columnar
