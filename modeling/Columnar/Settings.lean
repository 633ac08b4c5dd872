import Columnar.Bytes.Utf8
import Columnar.Settings.Json
import Columnar.Settings.Reading
import Columnar.Settings.Toml

/-! The settings of the commands. What is not set has a standard value; a settings file comes next, and
variables of the environment come last. Bucket width and rows per block have to be positive. -/

namespace Columnar

structure LoggingSettings where
  directory : Option String
  consoleLevel : String
  fileLevel : String
  deriving Repr, DecidableEq

structure QuerySettings where
  table : String
  x : String
  y : String
  z : String
  bucketWidth : UInt64
  passes : UInt32
  deriving Repr, DecidableEq

structure StorageSettings where
  rowsPerBlock : UInt64
  deriving Repr, DecidableEq

def LoggingSettings.standard : LoggingSettings := ⟨none, "warn", "info"⟩
def QuerySettings.standard : QuerySettings := ⟨"DecayTree", "H1_PX", "H1_PY", "H1_PZ", 10000, 3⟩
def StorageSettings.standard : StorageSettings := ⟨65536⟩

structure Settings where
  logging : LoggingSettings
  query : QuerySettings
  storage : StorageSettings
  deriving Repr, DecidableEq

namespace Settings

def readLogging (e : Entry) : Except Fault LoggingSettings := do
  if !e.isSection then throw (.misshapen e.node.shape .logging)
  let standard := LoggingSettings.standard
  let directory ← match e.node, e.setting? "log_dir" 0 with
    | _, some s => s.optionalText
    | .list .., none => throw (.tooShort 0 .logging)
    | _, none => pure none
  let consoleLevel ← e.settingOr "console_level" 1 Entry.text standard.consoleLevel
  let fileLevel ← e.settingOr "file_level" 2 Entry.text standard.fileLevel
  pure ⟨directory, consoleLevel, fileLevel⟩

/-- The number of passes keeps its low 32 bits. -/
def readQuery (e : Entry) : Except Fault QuerySettings := do
  if !e.isSection then throw (.misshapen e.node.shape .query)
  let standard := QuerySettings.standard
  let table ← e.settingOr "table" 0 Entry.text standard.table
  let (x, y, z) ← e.settingOr "columns" 1 Entry.threeTexts (standard.x, standard.y, standard.z)
  let bucketWidth ← e.settingOr "bucket_width" 2 Entry.number standard.bucketWidth
  let passes ← e.settingOr "passes" 3 (fun s => s.number.map UInt64.toUInt32) standard.passes
  pure ⟨table, x, y, z, bucketWidth, passes⟩

def readStorage (e : Entry) : Except Fault StorageSettings := do
  if !e.isSection then throw (.misshapen e.node.shape .storage)
  let rowsPerBlock ← e.settingOr "rows_per_block" 0 Entry.number StorageSettings.standard.rowsPerBlock
  pure ⟨rowsPerBlock⟩

def readSection {α : Type} (n : Node) (name : String) (read : Entry → Except Fault α)
    (default : α) : Except Fault α :=
  match n.field? name with
  | some s => read ⟨name, s⟩
  | none => .ok default

def ofNode (n : Node) : Except Fault Settings := do
  let logging ← readSection n "logging" readLogging .standard
  let query ← readSection n "query" readQuery .standard
  let storage ← readSection n "storage" readStorage .standard
  if query.bucketWidth = 0 then throw .zeroBucketWidth
  if storage.rowsPerBlock = 0 then throw .zeroRowsPerBlock
  pure ⟨logging, query, storage⟩

inductive Format
  | toml
  | json
  deriving Repr, DecidableEq

def Format.ofExtension? : String → Option Format
  | "toml" => some .toml
  | "json" => some .json
  | _ => none

def Format.parse : Format → String → Option Data
  | .toml => Toml.parse
  | .json => Json.parse

structure File where
  name : String
  format : Format
  text : String

def File.fields (f : File) : Except Fault (List (String × Data)) :=
  match f.format.parse f.text with
  | some (.record fields) => .ok fields
  | some _ => .ok []
  | none => .error (.unreadable f.name)

/-- The lower-case form of a character, where it is an ASCII letter. Besides the capital letters the
sign for kelvin has one. -/
def lowered (c : Char) : Char := if c = '\u212a' then 'k' else c.toLower

def dotted : List Char → List Char
  | '_' :: '_' :: cs => '.' :: dotted cs
  | c :: cs => c :: dotted cs
  | [] => []

/-- The key that a variable of the environment sets: after the prefix, two underscores stand between
the names of a path. -/
def variableKey? (name : String) : Option String :=
  let letters := name.toList.map lowered
  let front := "colscan__".toList
  if front.isPrefixOf letters then some (String.ofList (dotted (letters.drop front.length)))
  else none

def withFields (o : Origin) (fields : List (String × Data)) (n : Node) : Node :=
  fields.foldl (fun n f => n.overlay f.1 (.ofData o f.2)) n

def withEnvironment (environment : List (String × String)) (n : Node) : Node :=
  environment.foldl (fun n v =>
    match variableKey? v.1 with
    | some key => n.overlay key (.scalar (some .environment) (.text v.2))
    | none => n) n

def load (file : Option File) (environment : List (String × String)) : Except Fault Settings := do
  let node ← match file with
    | none => pure Node.empty
    | some f => pure (withFields (.file f.name) (← f.fields) .empty)
  ofNode (withEnvironment environment node)

end Settings
end Columnar
