import Columnar.Block.View
import Columnar.Lz4
import Columnar.Table.Header
import Columnar.Table.Catalog.Layout
import Columnar.Table.Catalog.Codec
import Columnar.Text.Quoted

/-! What can go wrong when a table is opened, scanned or written. Each error is its cause; the
`message` functions hold the wording. A cause that comes from outside is `reported` in its own
words. -/

namespace Columnar

inductive IoFault
  | outputFull
  | reported (text : String)
  deriving Repr, DecidableEq

def IoFault.message : IoFault → String
  | .outputFull => "failed to write whole buffer"
  | .reported text => text

def missingPath : String := "No such file or directory (os error 2)"

inductive FileFault
  | system (text : String)
  | tooSmall
  | header (fault : HeaderFault)
  | missingFooter
  | catalogOutside
  | catalogChecksum
  | catalogEncoding (fault : DecodeFault)
  | layout (fault : LayoutFault)
  | noTable (name : String) (known : List String)
  deriving DecidableEq

def FileFault.message : FileFault → String
  | .system text => text
  | .tooSmall => "file too small to be a table file"
  | .header fault => s!"not a table file ({fault.message})"
  | .missingFooter => "missing footer, file truncated?"
  | .catalogOutside => "catalog range outside file"
  | .catalogChecksum => "catalog CRC mismatch"
  | .catalogEncoding fault => s!"catalog decode failed ({fault.message})"
  | .layout fault => fault.message
  | .noTable name known => s!"no table {Text.quoted name} (tables: {Text.quotedList known})"

inductive SourceFault
  | file (path : String) (fault : FileFault)
  | reported (text : String)
  deriving DecidableEq

def SourceFault.message : SourceFault → String
  | .file path fault => s!"{path}: {fault.message}"
  | .reported text => text

inductive ColumnFault
  | absent (name : String)
  | absentFrom (table name : String)
  | storedAs (name : String) (found expected : ValueType)
  deriving Repr, DecidableEq

def ColumnFault.message : ColumnFault → String
  | .absent name => name
  | .absentFrom table name => s!"{name} (table {table})"
  | .storedAs name found expected => s!"{name} is stored as {found.name}, expected {expected.name}"

inductive CompressionFault
  | undecodable (fault : Lz4.Fault)
  | tooLong (length : Nat)
  | reported (text : String)
  deriving Repr, DecidableEq

def CompressionFault.message : CompressionFault → String
  | .undecodable fault => s!"lz4 decompress: {fault.message}"
  | .tooLong length => s!"compressed block of {length} bytes"
  | .reported text => text

inductive StoreError
  | io (fault : IoFault)
  | encoding (text : String)
  | duplicateTable (name : String)
  | duplicateColumn (table column : String)
  | rowCountMismatch (column : String) (expected actual : Nat)
  | invalidBlockSize (rows : Nat)
  | compression (fault : CompressionFault)
  deriving Repr, DecidableEq

def StoreError.message : StoreError → String
  | .io fault => s!"IO error: {fault.message}"
  | .encoding text => s!"Catalog serialization error: {text}"
  | .duplicateTable name => s!"Duplicate table: {name}"
  | .duplicateColumn table column => s!"Duplicate column {column} in table {table}"
  | .rowCountMismatch column expected actual =>
    s!"Column {column} has {actual} rows, expected {expected}"
  | .invalidBlockSize rows => s!"Invalid block size: {rows}"
  | .compression fault => s!"Compression error: {fault.message}"

inductive BlockDefect
  | missingSize
  | sizeMismatch (announced cataloged : Nat)
  | undecodable (error : StoreError)
  | short (written size : Nat)
  | malformed (fault : BlockFault)
  | contradicts (column : String) (offset : UInt64) (rows : UInt32) (type : ValueType)
      (catalogRows : UInt32) (catalogType : ValueType)
  deriving Repr, DecidableEq

def BlockDefect.message : BlockDefect → String
  | .missingSize => "compressed block missing size prefix"
  | .sizeMismatch announced cataloged =>
    s!"block size mismatch: prefix={announced} catalog={cataloged}"
  | .undecodable error => s!"decompress: {error.message}"
  | .short written size => s!"short block: wrote {written} of {size} bytes"
  | .malformed fault => fault.message
  | .contradicts column offset rows type catalogRows catalogType =>
    s!"{column}: block at {offset.toNat} holds {rows.toNat} {type.name} rows, catalog says " ++
      s!"{catalogRows.toNat} {catalogType.name}"

inductive ReadFault
  | block (defect : BlockDefect)
  | noBlock (column : String) (row : UInt64)
  | offsetTooLarge (offset : UInt64)
  | rangeOverflow
  | outOfBounds (stop size : Nat)
  | notFloat (column : String) (row : UInt64)
  | missingRow (column : String) (row : UInt64)
  | emptyCache
  | staleHandle (index : Nat)
  | reported (text : String)
  deriving Repr, DecidableEq

def ReadFault.message : ReadFault → String
  | .block defect => defect.message
  | .noBlock column row => s!"{column}: no block holds row {row.toNat}"
  | .offsetTooLarge offset => s!"block offset {offset.toNat} too large"
  | .rangeOverflow => "compressed block range overflow"
  | .outOfBounds stop size => s!"compressed block OOB: end={stop} > file_len={size}"
  | .notFloat column row => s!"{column}: row {row.toNat} is not an f64 value"
  | .missingRow column row => s!"{column}: row {row.toNat} missing"
  | .emptyCache => "block cache empty after load"
  | .staleHandle index => s!"stale column handle {index}"
  | .reported text => text

inductive ScanError
  | sourceUnavailable (fault : SourceFault)
  | columnNotFound (fault : ColumnFault)
  | invalidRow (row rowCount : Nat)
  | columnRead (fault : ReadFault)
  | io (fault : IoFault)
  deriving DecidableEq

def ScanError.message : ScanError → String
  | .sourceUnavailable fault => s!"Source unavailable: {fault.message}"
  | .columnNotFound fault => s!"Column not found: {fault.message}"
  | .invalidRow row rowCount => s!"Row index {row} out of range for table with {rowCount} rows"
  | .columnRead fault => s!"Column read error: {fault.message}"
  | .io fault => s!"I/O error: {fault.message}"

end Columnar
