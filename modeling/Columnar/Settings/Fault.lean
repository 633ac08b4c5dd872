import Columnar.Settings.Node
import Columnar.Text.Quoted

/-! What can be wrong with settings. A plain value that is not of the kind a setting needs is reported
with the setting's key and the origin of the value; a value in the place of a section or of the
list of columns only with what was needed there. -/

namespace Columnar.Settings

inductive Shape
  | scalar (s : Scalar)
  | list
  | record
  deriving Repr, DecidableEq

def Node.shape : Node → Shape
  | .scalar _ s => .scalar s
  | .list .. => .list
  | .record .. => .record

inductive Need
  | number
  | nonnegative
  | text
  deriving Repr, DecidableEq

inductive Structure
  | columns
  | logging
  | query
  | storage
  deriving Repr, DecidableEq

inductive Fault
  | unreadable (file : String)
  | mistyped (found : Shape) (need : Need) (key : String) (origin : Option Origin)
  | misshapen (found : Shape) (needed : Structure)
  | tooShort (length : Nat) (needed : Structure)
  | zeroBucketWidth
  | zeroRowsPerBlock
  deriving Repr, DecidableEq

def pointedText (x : Binary64) : String :=
  let text := Decimal.text x
  if x.isFinite ∧ '.' ∉ text.toList then text ++ ".0" else text

def Shape.message : Shape → String
  | .scalar .null => "unit value"
  | .scalar (.boolean b) => s!"boolean `{b}`"
  | .scalar (.integer n) => s!"integer `{n}`"
  | .scalar (.float x) => s!"floating point `{pointedText x}`"
  | .scalar (.text s) => s!"string {Text.quoted s}"
  | .list => "sequence"
  | .record => "map"

def Shape.plainMessage : Shape → String
  | .scalar (.integer n) => s!"integer 64 bit `{n}`"
  | shape => shape.message

def Need.message : Need → String
  | .number => "an integer"
  | .nonnegative => "an unsigned 64 bit or less integer"
  | .text => "a string"

def Structure.message : Structure → String
  | .columns => "an array of length 3"
  | .logging => "struct LoggingConfig"
  | .query => "struct QueryConfig"
  | .storage => "struct StorageConfig"

def Structure.sizedMessage : Structure → String
  | .columns => "an array of length 3"
  | .logging => "struct LoggingConfig with 3 elements"
  | .query => "struct QueryConfig with 4 elements"
  | .storage => "struct StorageConfig with 1 element"

def Origin.name : Origin → String
  | .file name => name
  | .environment => "the environment"

def Fault.message : Fault → String
  | .unreadable file => s!"syntax error in {file}"
  | .mistyped found need key origin =>
    s!"invalid type: {found.plainMessage}, expected {need.message} for key `{key}`" ++
      (origin.map fun o => s!" in {o.name}").getD ""
  | .misshapen found needed => s!"invalid type: {found.message}, expected {needed.message}"
  | .tooShort length needed => s!"invalid length {length}, expected {needed.sizedMessage}"
  | .zeroBucketWidth => "query.bucket_width must be greater than zero"
  | .zeroRowsPerBlock => "storage.rows_per_block must be greater than zero"

end Columnar.Settings
