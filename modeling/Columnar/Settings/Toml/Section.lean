import Columnar.Settings.Toml.Moment

/-! The tables of a TOML text. A field is a plain value, a moment, a list, a table in braces, a table
that dotted keys make, a table that headers make, or a list of tables. A header may name a table that
was only passed through before, dotted keys may extend only what dotted keys made, and a list takes
further tables only from headers. What is written becomes data at the end: then every name has to be
given once, and a moment has to be one. -/

namespace Columnar.Settings.Toml

inductive Entry
  | value (d : Data)
  | moment (letters : List Char)
  | list (items : List Entry)
  | inline (fields : List (String × Entry))
  | dotted (fields : List (String × Entry))
  | table (named : Bool) (fields : List (String × Entry))
  | tables (earlier : List (List (String × Entry))) (last : List (String × Entry))

abbrev Fields := List (String × Entry)

namespace Fields

def update (name : String) (f : Option Entry → Option Entry) : Fields → Option Fields
  | [] => (f none).map fun e => [(name, e)]
  | (k, e) :: fs =>
    if k = name then (f (some e)).map fun e => (k, e) :: fs
    else (update name f fs).map fun fs => (k, e) :: fs

def put : List String → Entry → Fields → Option Fields
  | [], _, _ => none
  | [name], e, fs => some (fs ++ [(name, e)])
  | name :: path, e, fs =>
    update name (fun
      | none => (put path e []).map .dotted
      | some (.dotted sub) => (put path e sub).map .dotted
      | some _ => none) fs

def openTable (body : Fields) : Option Entry → Option Entry
  | none => some (.table true body)
  | some (.table false sub) => some (.table true (sub ++ body))
  | some _ => none

def openElement (body : Fields) : Option Entry → Option Entry
  | none => some (.tables [] body)
  | some (.tables earlier last) => some (.tables (earlier ++ [last]) body)
  | some _ => none

/-- Gives the field at the end of a path what `f` makes of it. A list on the way stands for its last
table. -/
def place (f : Option Entry → Option Entry) : List String → Fields → Option Fields
  | [], _ => none
  | [name], fs => update name f fs
  | name :: path, fs =>
    update name (fun
      | none => (place f path []).map (.table false)
      | some (.table named sub) => (place f path sub).map (.table named)
      | some (.tables earlier last) => (place f path last).map (.tables earlier)
      | some _ => none) fs

end Fields

structure Section where
  path : List String
  element : Bool
  body : Fields

def Section.add (s : Section) (fs : Fields) : Option Fields :=
  if s.element then Fields.place (Fields.openElement s.body) s.path fs
  else Fields.place (Fields.openTable s.body) s.path fs

def momentName : String := "$__toml_private_datetime"

def Entry.underHeader : Entry → Bool
  | .table .. | .tables .. => true
  | _ => false

/-- A table whose first name is the one for moments stands for the moment in its text. Other fields
do not count, but no header may follow for a table below it. -/
def momentOf? : Fields → Option (Option Data)
  | [] => none
  | (name, e) :: fields =>
    if name = momentName then
      match e with
      | .value (.scalar (.text s)) =>
        some (if fields.any (·.2.underHeader) then none else Moment.data? s.toList)
      | _ => some none
    else none

mutual

def Entry.data? : Entry → Option Data
  | .value d => some d
  | .moment letters => Moment.data? letters
  | .list items => (itemsOf? items).map .list
  | .inline fields | .dotted fields | .table _ fields =>
    (momentOf? fields).getD ((fieldsOf? fields).map .record)
  | .tables earlier last => do
    let items ← tablesOf? earlier
    let item ← (momentOf? last).getD ((fieldsOf? last).map .record)
    some (.list (items ++ [item]))

def itemsOf? : List Entry → Option (List Data)
  | [] => some []
  | e :: items => do some ((← e.data?) :: (← itemsOf? items))

def fieldsOf? : List (String × Entry) → Option (List (String × Data))
  | [] => some []
  | (name, e) :: fields => do
    if fields.any (·.1 = name) then none
    else some ((name, ← e.data?) :: (← fieldsOf? fields))

def tablesOf? : List (List (String × Entry)) → Option (List Data)
  | [] => some []
  | fields :: rest => do
    let item ← (momentOf? fields).getD ((fieldsOf? fields).map .record)
    some (item :: (← tablesOf? rest))

end

def document? (front : Fields) (sections : List Section) : Option Data :=
  (momentOf? front).getD do
    (Entry.table true (← sections.foldlM (fun fs s => s.add fs) front)).data?

end Columnar.Settings.Toml
