import Columnar.Settings.Data
import Columnar.Settings.Path

/-! Settings gathered from several origins. What a later origin says replaces what an earlier one said,
only records are merged field by field. A node knows the origin of its value; records that were
made by merging, and the gaps of a list that a path has extended, have none. -/

namespace Columnar.Settings

inductive Origin
  | file (name : String)
  | environment
  deriving Repr, DecidableEq

inductive Node
  | scalar (origin : Option Origin) (s : Scalar)
  | list (origin : Option Origin) (items : List Node)
  | record (origin : Option Origin) (fields : List (String × Node))

namespace Node

def gap : Node := .scalar none .null

def empty : Node := .record none []

def origin : Node → Option Origin
  | .scalar o _ | .list o _ | .record o _ => o

mutual

def ofData (o : Origin) : Data → Node
  | .scalar s => .scalar (some o) s
  | .list items => .list (some o) (ofItems o items)
  | .record fields => .record (some o) (ofFields o fields)

def ofItems (o : Origin) : List Data → List Node
  | [] => []
  | d :: items => ofData o d :: ofItems o items

def ofFields (o : Origin) : List (String × Data) → List (String × Node)
  | [] => []
  | (name, d) :: fields => (name, ofData o d) :: ofFields o fields

end

def field? (n : Node) (name : String) : Option Node :=
  match n with
  | .record _ fields => fields.lookup name
  | _ => none

def update (name : String) (f : Option Node → Node) : List (String × Node) → List (String × Node)
  | [] => [(name, f none)]
  | (k, n) :: fields => if k = name then (k, f (some n)) :: fields else (k, n) :: update name f fields

def modifyField (n : Node) (name : String) (f : Option Node → Node) : Node :=
  match n with
  | .record o fields => .record o (update name f fields)
  | _ => .record none (update name f [])

/-- Changes one item; a node that is no list becomes an empty one first. A list that is too short is
extended by gaps, and an index before its start changes nothing. -/
def modifyItem (n : Node) (index : Int) (f : Node → Node) : Node :=
  let (o, items) : Option Origin × List Node := match n with
    | .list o items => (o, items)
    | _ => (none, [])
  let i := if 0 ≤ index then index else index + items.length
  if i < 0 then .list o items
  else
    let items := items ++ List.replicate (i.toNat + 1 - items.length) gap
    .list o (items.modify i.toNat f)

mutual

def put (name : String) (value : Node) (n : Node) : Node :=
  match value with
  | .record _ fields => n.modifyField name fun old => putAll fields (old.getD empty)
  | .scalar o s => n.modifyField name fun _ => .scalar o s
  | .list o items => n.modifyField name fun _ => .list o items

def putAll (fields : List (String × Node)) (n : Node) : Node :=
  match fields with
  | [] => n
  | (name, value) :: fields => putAll fields (put name value n)

end

def putAt (value : Node) : Step → List Step → Node → Node
  | .field name, [], n => put name value n
  | .place index, [], n => n.modifyItem index fun _ => value
  | .field name, step :: steps, n =>
    n.modifyField name fun old => putAt value step steps (old.getD gap)
  | .place index, step :: steps, n => n.modifyItem index (putAt value step steps)

def overlay (n : Node) (key : String) (value : Node) : Node :=
  let path := Path.ofKey key
  putAt value (.field path.first) path.rest n

end Node
end Columnar.Settings
