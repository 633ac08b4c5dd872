import Columnar.Text.Whole

/-! Levels of logging. A level is written by its name in letters of either case, or by its number;
nothing at all stands for `error`. -/

namespace Columnar.Command

inductive Level
  | off
  | error
  | warn
  | info
  | debug
  | trace
  deriving Repr, DecidableEq

namespace Level

def ofNumber? : Nat → Option Level
  | 0 => some .off
  | 1 => some .error
  | 2 => some .warn
  | 3 => some .info
  | 4 => some .debug
  | 5 => some .trace
  | _ => none

def ofName? (s : String) : Option Level :=
  match s.map Char.toLower with
  | "" | "error" => some .error
  | "off" => some .off
  | "warn" => some .warn
  | "info" => some .info
  | "debug" => some .debug
  | "trace" => some .trace
  | _ => none

def parse? (s : String) : Option Level :=
  ((Text.unsigned? s).bind ofNumber?).or (ofName? s)

def parseFailure : String :=
  "error parsing level filter: expected one of \"off\", \"error\", \"warn\", \"info\", " ++
    "\"debug\", \"trace\", or a number 0-5"

end Level
end Columnar.Command
