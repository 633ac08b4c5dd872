import Columnar.Command.Path
import Columnar.Command.ScanCommand
import Columnar.Command.TableTool

/-! The program. Called by the name `table_tool` it is the command that makes and shows table files,
and by any other name the one that scans them. -/

namespace Columnar.Command

def systemText : IO.Error → String
  | .noFileOrDirectory .. => missingPath
  | .permissionDenied _ code text | .inappropriateType _ code text | .invalidArgument _ code text
  | .resourceExhausted _ code text | .alreadyExists _ code text
  | .noSuchThing _ code text => s!"{text} (os error {code.toNat})"
  | .unsupportedOperation code text | .hardwareFault code text | .unsatisfiedConstraints code text
  | .resourceBusy code text | .resourceVanished code text | .otherError code text =>
    s!"{text} (os error {code.toNat})"
  | e => toString e

def attempt {α : Type} (act : IO α) : IO (Except String α) := do
  try
    pure (.ok (← act))
  catch e => pure (.error (systemText e))

def variableOf (bytes : Bytes) : Option (String × String) :=
  (Utf8.decode? bytes).map fun s =>
    let name := s.toList.takeWhile (· ≠ '=')
    (String.ofList name, String.ofList (s.toList.drop (name.length + 1)))

def splitAtZeros (acc : Bytes) : Bytes → List Bytes
  | [] => if acc.isEmpty then [] else [acc.reverse]
  | b :: bs => if b = 0 then acc.reverse :: splitAtZeros [] bs else splitAtZeros (b :: acc) bs

def readFile (path : String) : IO (Except String (Array UInt8)) :=
  attempt do pure (← IO.FS.readBinFile path).data

def environment : IO (List (String × String)) := do
  match ← readFile "/proc/self/environ" with
  | .ok bytes => pure ((splitAtZeros [] bytes.toList).filterMap variableOf)
  | .error _ => pure []

def system : Host IO where
  environment := environment
  location := do pure (Path.names (← IO.currentDir).toString)
  read := readFile
  create path := attempt (IO.FS.writeBinFile path ⟨#[]⟩)
  write path bytes := attempt (IO.FS.writeBinFile path ⟨bytes⟩)
  print := IO.print
  printError := IO.eprint
  clock := IO.monoNanosNow
  compute f := IO.lazyPure f

end Columnar.Command

def main (args : List String) : IO UInt32 := do
  let program ← IO.appPath
  if program.toString.endsWith "table_tool" then
    Columnar.Command.toolCommand Columnar.Command.system args
  else Columnar.Command.scanCommand Columnar.Command.system args
