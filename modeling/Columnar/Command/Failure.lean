import Columnar.Error

/-! How a command that fails says why: the error first, then its causes, numbered if there are
several. Further lines of a cause are set in as far as its first one. -/

namespace Columnar.Command

structure Failure where
  message : String
  causes : List String
  deriving Repr, DecidableEq

namespace Failure

def ofScan (e : ScanError) : Failure := ⟨e.message, []⟩

def storeMessages (e : StoreError) : List String :=
  match e with
  | .io fault => [e.message, fault.message]
  | _ => [e.message]

def ofStore (e : StoreError) : Failure := ⟨e.message, (storeMessages e).drop 1⟩

def indented (width : Nat) (s : String) : String :=
  String.join (s.toList.map fun c => if c = '\n' then "\n" ++ "".pushn ' ' width else c.toString)

def numbered (causes : List String) : String :=
  String.join (causes.zipIdx.map fun (cause, i) =>
    "".pushn ' ' (5 - (toString i).length) ++ s!"{i}: {indented 7 cause}\n")

def render (f : Failure) : String :=
  s!"Error: {f.message}\n" ++
    match f.causes with
    | [] => ""
    | [cause] => s!"\nCaused by:\n    {indented 4 cause}\n"
    | causes => s!"\nCaused by:\n{numbered causes}"

end Failure
end Columnar.Command
