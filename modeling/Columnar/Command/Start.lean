import Columnar.Command.Arguments
import Columnar.Command.Failure
import Columnar.Command.Host
import Columnar.Command.Level
import Columnar.Command.Path
import Columnar.Settings
import Columnar.Table.File

/-! What every command does first: it reads its settings and checks the levels of logging. The
settings file is the one that is named, if it is there, and else the one with an ending added to its
name. A file whose ending is not known, or that is no text, sets nothing. -/

namespace Columnar.Command

variable {m : Type → Type} [Monad m]

def settingsPath (given : Option String) (environment : List (String × String)) : String :=
  given.getD ((environment.lookup "COLSCAN_CONFIG").getD "config")

def settingsPaths (path : String) : List (String × Settings.Format) :=
  [("toml", Settings.Format.toml), ("json", .json)].filterMap fun (suffix, format) =>
    (Path.withEnding? path suffix).map fun path => (path, format)

def settingsText (h : Host m) (path : String) (format : Settings.Format) (bytes : Array UInt8) :
    m (Option Settings.File) := do
  match Utf8.decode? bytes.toList with
  | some text => pure (some ⟨Path.localName (← h.location) path, format, text⟩)
  | none => pure none

def settingsAmong (h : Host m) : List (String × Settings.Format) → m (Option Settings.File)
  | [] => pure none
  | (path, format) :: rest => do
    match ← h.read path with
    | .ok bytes => settingsText h path format bytes
    | .error _ => settingsAmong h rest

def settingsFile (h : Host m) (path : String) : m (Option Settings.File) := do
  let path := Path.fromRoot (← h.location) path
  match ← h.read path with
  | .ok bytes =>
    match Settings.Format.ofExtension? (Path.ending path) with
    | some format => settingsText h path format bytes
    | none => pure none
  | .error _ => settingsAmong h (settingsPaths path)

def loadSettings (h : Host m) (path : Option String) : m (Except Settings.Fault Settings) := do
  let environment ← h.environment
  pure (Settings.load (← settingsFile h (settingsPath path environment)) environment)

def checkLevels (s : LoggingSettings) : Except Failure Unit :=
  match Level.parse? s.consoleLevel, Level.parse? s.fileLevel with
  | some _, some _ => .ok ()
  | _, _ => .error ⟨Level.parseFailure, []⟩

def start (h : Host m) (path : Option String) : ExceptT Failure m Settings := do
  match ← (loadSettings h path : m _) with
  | .error fault => throw ⟨"failed to load configuration", [fault.message]⟩
  | .ok settings =>
    match checkLevels settings.logging with
    | .error failure => throw failure
    | .ok () => pure settings

def exitCode (h : Host m) (run : ExceptT Failure m Unit) : m UInt32 := do
  match ← run.run with
  | .ok () => pure 0
  | .error failure =>
    h.printError failure.render
    pure 1

def runRead {α : Type} (h : Host m) (usage : String) (r : Reading α) (run : α → m UInt32) :
    m UInt32 := do
  match r with
  | .done a => run a
  | .help =>
    h.print usage
    pure 0
  | .mistaken =>
    h.printError usage
    pure 2

def openFile (h : Host m) (path : String) : ExceptT Failure m TableFile := do
  match TableFile.ofContents path (← h.read path) with
  | .error e => throw (.ofScan e)
  | .ok f => pure f

def findTable (f : TableFile) (name : String) : ExceptT Failure m Table :=
  match f.table name with
  | .error e => throw (.ofScan e)
  | .ok t => pure t

end Columnar.Command
