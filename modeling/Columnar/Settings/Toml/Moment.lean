import Columnar.Settings.Toml.Token

/-! Dates and times. A moment is a day, a time of day, or both, and both together may carry a distance
from universal time. It is written in one form whatever it was read from: a capital `T` between day and
time, and no zeros at the end of a fraction of a second. -/

namespace Columnar.Settings.Toml

structure Day where
  year : Nat
  month : Nat
  day : Nat

structure Clock where
  hour : Nat
  minute : Nat
  second : Nat
  nanos : Nat

inductive Zone
  | universal
  | shifted (negative : Bool) (hours minutes : Nat)

structure Moment where
  day : Option Day
  clock : Option Clock
  zone : Option Zone

namespace Moment

def digits (count : Nat) (cs : List Char) : Option (Nat × List Char) :=
  let ds := cs.take count
  if ds.length = count ∧ ds.all fun c => (digitValue? 10 c).isSome then
    some (numberOf 10 ds, cs.drop count)
  else none

def skip (c : Char) : List Char → Option (List Char)
  | d :: cs => if d = c then some cs else none
  | [] => none

def readDay (cs : List Char) : Option (Day × List Char) := do
  let (year, cs) ← digits 4 cs
  let (month, cs) ← digits 2 (← skip '-' cs)
  let (day, cs) ← digits 2 (← skip '-' cs)
  if 1 ≤ month ∧ month ≤ 12 ∧ 1 ≤ day ∧ day ≤ 31 then some (⟨year, month, day⟩, cs) else none

/-- The digits after a point as nanoseconds; those after the ninth are dropped. -/
def readFraction : List Char → Option (Nat × List Char)
  | '.' :: cs =>
    let ds := cs.takeWhile fun c => (digitValue? 10 c).isSome
    if ds.isEmpty then none
    else
      let shown := ds.take 9
      some (numberOf 10 shown * Nat.pow 10 (9 - shown.length), cs.drop ds.length)
  | cs => some (0, cs)

def readClock (cs : List Char) : Option (Clock × List Char) := do
  let (hour, cs) ← digits 2 cs
  let (minute, cs) ← digits 2 (← skip ':' cs)
  let (second, cs) ← digits 2 (← skip ':' cs)
  let (nanos, cs) ← readFraction cs
  if hour ≤ 24 ∧ minute ≤ 59 ∧ second ≤ 59 then some (⟨hour, minute, second, nanos⟩, cs) else none

def readZone : List Char → Option (Option Zone)
  | [] => some none
  | ['Z'] | ['z'] => some (some .universal)
  | s :: cs =>
    if s = '+' ∨ s = '-' then do
      let (hours, cs) ← digits 2 cs
      let (minutes, cs) ← digits 2 (← skip ':' cs)
      if cs.isEmpty then some (some (.shifted (s = '-') hours minutes)) else none
    else none

/-- A colon after two characters tells a time without a day. Only a day with a time has a zone. -/
def parse (cs : List Char) : Option Moment :=
  if cs[2]? = some ':' then do
    let (clock, rest) ← readClock cs
    if rest.isEmpty then some ⟨none, some clock, none⟩ else none
  else do
    let (day, rest) ← readDay cs
    match rest with
    | [] => some ⟨some day, none, none⟩
    | c :: tail =>
      if c = 'T' ∨ c = 't' ∨ c = ' ' then do
        let (clock, rest) ← readClock tail
        some ⟨some day, some clock, ← readZone rest⟩
      else none

def padded (width n : Nat) : String :=
  let text := toString n
  "".pushn '0' (width - text.length) ++ text

def dayText (d : Day) : String := s!"{padded 4 d.year}-{padded 2 d.month}-{padded 2 d.day}"

def clockText (c : Clock) : String :=
  let fraction := (padded 9 c.nanos).toList.reverse.dropWhile (· = '0')
  s!"{padded 2 c.hour}:{padded 2 c.minute}:{padded 2 c.second}" ++
    if fraction.isEmpty then "" else "." ++ String.ofList fraction.reverse

def zoneText : Zone → String
  | .universal => "Z"
  | .shifted negative hours minutes =>
    (if negative ∧ 0 < hours then "-" else "+") ++ s!"{padded 2 hours}:{padded 2 minutes}"

def text (m : Moment) : String :=
  (m.day.map dayText).getD "" ++
    (if m.day.isSome ∧ m.clock.isSome then "T" else "") ++
    (m.clock.map clockText).getD "" ++ (m.zone.map zoneText).getD ""

/-- The letters of a moment that starts with the word `cs`, over the tokens it takes. A blank stands
between day and time, and the parts of a time stand between colons. -/
def gather (cs : List Char) (ts : List Token) : Option (List Char × List Token) :=
  let (cs, ts) := match ts with
    | .blank [' '] :: .word hour :: rest => (cs ++ ' ' :: hour, rest)
    | ts => (cs, ts)
  match ts with
  | .colon :: ts => clock cs ts
  | ts => some (cs, ts)
where
  clock (cs : List Char) : List Token → Option (List Char × List Token)
    | .word minutes :: .colon :: .word seconds :: ts => do
      let cs := cs ++ ':' :: minutes ++ ':' :: seconds
      let (cs, ts) ← part .period '.' cs ts
      let (cs, ts) ← part .plus '+' cs ts
      part .colon ':' cs ts
    | _ => none
  part (mark : Token) (c : Char) (cs : List Char) :
      List Token → Option (List Char × List Token)
    | [] => some (cs, [])
    | t :: ts =>
      if t = mark then
        match ts with
        | .word ds :: ts => some (cs ++ c :: ds, ts)
        | _ => none
      else some (cs, t :: ts)

def data? (letters : List Char) : Option Data :=
  (parse letters).map fun m => .text m.text

end Moment
end Columnar.Settings.Toml
