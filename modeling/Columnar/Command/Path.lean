/-! Paths of files, and the names on the way they describe. Names stand between slashes; empty names
and single points are no steps, and two points are a step back. -/

namespace Columnar.Command.Path

def split (acc : List Char) : List Char → List String
  | [] => [String.ofList acc.reverse]
  | c :: cs => if c = '/' then String.ofList acc.reverse :: split [] cs else split (c :: acc) cs

def parts (path : String) : List String := (split [] path.toList).filter (· ≠ "")

def names (path : String) : List String := (parts path).filter (· ≠ ".")

def startsAtRoot (path : String) : Bool := path.toList.head? = some '/'

def endsInSlash (path : String) : Bool := path.toList.getLast? = some '/'

def fromRoot (base : List String) (path : String) : String :=
  if startsAtRoot path then path else "/" ++ "/".intercalate base ++ "/" ++ path

def fileName? (path : String) : Option String := (names path).getLast?.filter (· ≠ "..")

/-- The ending of the file's name, behind its last point; a point in front is none. -/
def ending (path : String) : String :=
  let name := ((fileName? path).getD "").toList.reverse
  let last := name.takeWhile (· ≠ '.')
  if last.length + 1 < name.length then String.ofList last.reverse else ""

def withEnding? (path suffix : String) : Option String :=
  (fileName? path).map fun _ => "/" ++ "/".intercalate (names path) ++ "." ++ suffix

def relative : List String → List String → String
  | b :: base, t :: target =>
    if b = t then relative base target
    else "/".intercalate ((b :: base).map (fun _ => "..") ++ t :: target)
  | base, target => "/".intercalate (base.map (fun _ => "..") ++ target)

def localName (base : List String) (path : String) : String := relative base (names path)

example : localName ["a", "b"] "/a/c/./d" = "../c/d" := by decide +kernel
example : withEnding? "/a/b.c/." "d" = some "/a/b.c.d" := by decide +kernel
example : withEnding? "/a/.." "d" = none := by decide +kernel

end Columnar.Command.Path
