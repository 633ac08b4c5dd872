import Columnar.Command.Host
import Columnar.Command.Path
import Columnar.Error

/-! A folder of files that is held in memory, as the working directory of commands. Files are known by
the names on the way to them; directories are there if files are below them. A path is walked step by
step, and every step but the last has to lead to a directory. What commands print is kept. Its clock
stands still. -/

namespace Columnar.Command

structure Folder where
  location : List String
  files : List (List String × Array UInt8)
  environment : List (String × String)
  output : String
  errorOutput : String

namespace Folder

inductive Item
  | file (bytes : Array UInt8)
  | directory
  | missing

def isDirectory (d : Folder) (names : List String) : Bool :=
  names.isPrefixOf d.location ||
    d.files.any fun f => names.isPrefixOf f.1 && names ≠ f.1

def item (d : Folder) (names : List String) : Item :=
  match d.files.lookup names with
  | some bytes => .file bytes
  | none => if d.isDirectory names then .directory else .missing

def noDirectory : String := "Not a directory (os error 20)"
def noFile : String := "Is a directory (os error 21)"
def noDevice : String := "No such device (os error 19)"
def tooLong : String := "File name too long (os error 36)"

def nameLimit : Nat := 255

def pathLimit : Nat := 4095

def step (d : Folder) (here : List String) (name : String) : Except String (List String × Item) :=
  if name = "." then .ok (here, .directory)
  else if name = ".." then .ok (here.dropLast, .directory)
  else if nameLimit < name.utf8ByteSize then .error tooLong
  else .ok (here ++ [name], d.item (here ++ [name]))

def walk (d : Folder) (here : List String) : List String → Except String (List String)
  | [] => .ok here
  | name :: rest =>
    match d.step here name with
    | .ok (there, .directory) => walk d there rest
    | .ok (_, .file _) => .error noDirectory
    | .ok (_, .missing) => .error missingPath
    | .error e => .error e

def start (d : Folder) (path : String) : Except String (List String) :=
  if path = "" then .error missingPath
  else if pathLimit < path.utf8ByteSize then .error tooLong
  else .ok (if Path.startsAtRoot path then [] else d.location)

def locate (d : Folder) (path : String) (steps : List String) :
    Except String (List String × Item) := do
  let here ← d.walk (← d.start path) steps.dropLast
  d.step here (steps.getLast?.getD ".")

def read (d : Folder) (path : String) : Except String (Array UInt8) :=
  let steps := Path.parts path ++ if Path.endsInSlash path then ["."] else []
  match d.locate path steps with
  | .ok (_, .file bytes) => .ok bytes
  | .ok (_, .directory) => .error noDevice
  | .ok (_, .missing) => .error missingPath
  | .error e => .error e

/-- Makes `bytes` the contents of a file in a directory that is there. A file's path does not end in a
slash, whether there is something at its end or not. -/
def write (d : Folder) (path : String) (bytes : Array UInt8) : Except String Folder := do
  let steps := Path.parts path
  if Path.endsInSlash path then
    let _ ← d.walk (← d.start path) steps.dropLast
    throw noFile
  match ← d.locate path steps with
  | (_, .directory) => throw noFile
  | (names, _) => pure { d with files := (names, bytes) :: d.files.filter (·.1 ≠ names) }

def writeStep (path : String) (bytes : Array UInt8) : StateM Folder (Except String Unit) := fun d =>
  match d.write path bytes with
  | .ok d => (.ok (), d)
  | .error e => (.error e, d)

def host : Host (StateM Folder) where
  environment := fun d => (d.environment, d)
  location := fun d => (d.location, d)
  read path := fun d => (d.read path, d)
  create path := writeStep path #[]
  write := writeStep
  print s := modify fun d => { d with output := d.output ++ s }
  printError s := modify fun d => { d with errorOutput := d.errorOutput ++ s }
  clock := pure 0
  compute f := pure (f ())

end Folder
end Columnar.Command
