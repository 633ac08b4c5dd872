import Columnar.Block.Values

/-! A made-up table of momenta. The two transverse components lie around zero, the longitudinal one is
spread wider, and every row has its number. Each draw takes one step of a generator with 64 bits of
state. -/

namespace Columnar.Synthetic

def step (state : UInt64) : UInt64 × UInt64 :=
  let state := state + 0x9e3779b97f4a7c15
  let z := (state ^^^ (state >>> 30)) * 0xbf58476d1ce4e5b9
  let z := (z ^^^ (z >>> 27)) * 0x94d049bb133111eb
  (state, z ^^^ (z >>> 31))

def draw (reach : Float) (state : UInt64) : UInt64 × Binary64 :=
  let (state, bits) := step state
  let unit := (bits >>> 11).toFloat / 9007199254740992.0
  (state, .ofFloat (reach * (2.0 * unit - 1.0)))

def momenta (x y z : Array Binary64) (state : UInt64) :
    Nat → Array Binary64 × Array Binary64 × Array Binary64
  | 0 => (x, y, z)
  | rows + 1 =>
    let (state, px) := draw 50000.0 state
    let (state, py) := draw 50000.0 state
    let (state, pz) := draw 200000.0 state
    momenta (x.push px) (y.push py) (z.push pz) state rows

def columns (x y z : String) (rows : Nat) (seed : UInt64) : List (String × Values) :=
  let (xs, ys, zs) := momenta #[] #[] #[] seed rows
  [(x, .floats xs), (y, .floats ys), (z, .floats zs),
    ("eventNumber", .ints ((Array.range rows).map fun i => .ofNat i))]

end Columnar.Synthetic
