import Columnar.Table.Catalog
import Columnar.Bytes.Utf8

/-! The catalog as bytes. Numbers are little-endian words of their width, a text is its length and its
UTF-8 bytes, a list is its length and its items, and a value type is a word of four bytes, 0 for
integers and 1 for doubles. Reading leaves what follows the catalog alone. -/

namespace Columnar

inductive DecodeFault
  | cutShort
  | textCutShort
  | invalidText (fault : Utf8.Fault)
  | unknownType (index : UInt32)
  deriving Repr, DecidableEq

def DecodeFault.message : DecodeFault → String
  | .cutShort => "io error: unexpected end of file"
  | .textCutShort => "io error: "
  | .invalidText fault => s!"string is not valid utf8: {fault.message}"
  | .unknownType index =>
    s!"invalid value: integer `{index.toNat}`, expected variant index 0 <= i < 2"

namespace Codec

abbrev Reader := StateT Bytes (Except DecodeFault)

def take (count : Nat) (fault : DecodeFault) : Reader Bytes := fun input =>
  match Bytes.split? count input with
  | none => .error fault
  | some split => .ok split

def readUInt32 : Reader UInt32 := Bytes.toUInt32 <$> take 4 .cutShort
def readUInt64 : Reader UInt64 := Bytes.toUInt64 <$> take 8 .cutShort

def writeText (s : String) : Bytes :=
  let bytes := Utf8.encode s
  Bytes.ofUInt64 (.ofNat bytes.length) ++ bytes

def readText : Reader String := do
  let length ← readUInt64
  let bytes ← take length.toNat .textCutShort
  match Utf8.decode bytes with
  | .ok s => pure s
  | .error fault => throw (.invalidText fault)

def writeList (write : α → Bytes) (items : List α) : Bytes :=
  Bytes.ofUInt64 (.ofNat items.length) ++ items.flatMap write

def readItems (read : Reader α) (acc : Array α) : Nat → Reader (Array α)
  | 0 => pure acc
  | count + 1 => do
    let item ← read
    readItems read (acc.push item) count

def readList (read : Reader α) : Reader (Array α) := do
  let count ← readUInt64
  readItems read #[] count.toNat

def writeType : ValueType → Bytes
  | .int64 => Bytes.ofUInt32 0
  | .float64 => Bytes.ofUInt32 1

def readType : Reader ValueType := do
  let index ← readUInt32
  if index = 0 then pure .int64
  else if index = 1 then pure .float64
  else throw (.unknownType index)

def writeBlock (b : BlockRecord) : Bytes :=
  Bytes.ofUInt64 b.startRow ++ Bytes.ofUInt32 b.rows ++ Bytes.ofUInt64 b.offset ++
    Bytes.ofUInt32 b.compressed ++ Bytes.ofUInt32 b.uncompressed

def readBlock : Reader BlockRecord := do
  let startRow ← readUInt64
  let rows ← readUInt32
  let offset ← readUInt64
  let compressed ← readUInt32
  let uncompressed ← readUInt32
  pure ⟨startRow, rows, offset, compressed, uncompressed⟩

def writeColumn (c : ColumnRecord) : Bytes :=
  writeText c.name ++ writeType c.type ++ writeList writeBlock c.blocks.toList

def readColumn : Reader ColumnRecord := do
  let name ← readText
  let type ← readType
  let blocks ← readList readBlock
  pure ⟨name, type, blocks⟩

def writeTable (t : TableRecord) : Bytes :=
  writeText t.name ++ Bytes.ofUInt64 t.rowCount ++ writeList writeColumn t.columns

def readTable : Reader TableRecord := do
  let name ← readText
  let rowCount ← readUInt64
  let columns ← readList readColumn
  pure ⟨name, rowCount, columns.toList⟩

def readCatalog : Reader Catalog := do
  let tables ← readList readTable
  pure ⟨tables.toList⟩

end Codec

namespace Catalog

def encode (c : Catalog) : Bytes := Codec.writeList Codec.writeTable c.tables

def decode (bs : Bytes) : Except DecodeFault Catalog := Prod.fst <$> Codec.readCatalog bs

end Catalog
end Columnar
