import Columnar.Text.Whole

/-! The arguments of a command. An argument that starts with two hyphens names an option, which may
have its value behind an equals sign or in the argument after it; after a bare pair of hyphens
everything is a plain argument. An option is given once. Reading goes from left to right and ends at
the first argument that does not fit, or that asks for help. -/

namespace Columnar.Command

inductive Action (α : Type)
  | flag (set : α → Option α)
  | value (set : String → α → Option α)

structure Grammar (α : Type) where
  option : String → Option (Action α)
  plain : String → α → Option α

inductive Reading (α : Type)
  | done (arguments : α)
  | help
  | mistaken

namespace Reading

def bind {α β : Type} (r : Reading α) (f : α → Option β) : Reading β :=
  match r with
  | .done a =>
    match f a with
    | some b => .done b
    | none => .mistaken
  | .help => .help
  | .mistaken => .mistaken

end Reading

namespace Grammar

variable {α : Type}

def plainArguments (g : Grammar α) : List String → α → Reading α
  | [], a => .done a
  | arg :: args, a =>
    match g.plain arg a with
    | some a => plainArguments g args a
    | none => .mistaken

def namesOption (arg : String) : Bool := arg.startsWith "-" && arg ≠ "-"

def long? (arg : String) : Option (String × Option String) :=
  match arg.toList with
  | '-' :: '-' :: cs =>
    let name := cs.takeWhile (· ≠ '=')
    match cs.drop name.length with
    | _ :: value => some (String.ofList name, some (String.ofList value))
    | [] => some (String.ofList name, none)
  | _ => none

def read (g : Grammar α) : List String → α → Reading α
  | [], a => .done a
  | arg :: args, a =>
    if arg = "--" then g.plainArguments args a
    else if !namesOption arg then
      match g.plain arg a with
      | some a => read g args a
      | none => .mistaken
    else
      match long? arg with
      | none => if arg.startsWith "-h" then .help else .mistaken
      | some (name, attached) =>
        if name = "help" then if attached.isNone then .help else .mistaken
        else
          match g.option name, attached, args with
          | none, _, _ => .mistaken
          | some (.flag set), none, args =>
            match set a with
            | some a => read g args a
            | none => .mistaken
          | some (.flag _), some _, _ => .mistaken
          | some (.value set), some value, args =>
            match set value a with
            | some a => read g args a
            | none => .mistaken
          | some (.value _), none, [] => .mistaken
          | some (.value set), none, value :: args =>
            if namesOption value then .mistaken
            else
              match set value a with
              | some a => read g args a
              | none => .mistaken

end Grammar

def once {β : Type} (old : Option β) (new : Option β) : Option (Option β) :=
  match old, new with
  | none, some b => some (some b)
  | _, _ => none

def path? (s : String) : Option String := if s.isEmpty then none else some s

def number? (limit : Nat) (s : String) : Option Nat :=
  (Text.unsigned? s).bind fun n => if n < limit then some n else none

/-- A number without a sign that may be written with one: it is read with a sign first. -/
def signedNumber? (limit : Nat) (s : String) : Option Nat :=
  (Text.signed? s).bind fun n => if 0 ≤ n ∧ n < limit then some n.toNat else none

end Columnar.Command
