import Columnar.Table.Table
import Columnar.Table.Footer

/-! An open table file. The header is checked first, then the footer, then that the catalog lies
between the two, its checksum, its encoding, and that it fits the file; the first fault names the
reason why the file is refused. -/

namespace Columnar

structure TableFile where
  path : String
  data : Array UInt8
  header : FileHeader
  catalog : Catalog

namespace TableFile

def minSize : Nat := FileHeader.size + Footer.size

/-- The catalog that a footer points to, behind the header and before the footer. An end that is no
address is outside. -/
def catalogBytes (data : Array UInt8) (footer : Footer) : Except FileFault Bytes :=
  let start := footer.catalogOffset.toNat
  let stop := start + footer.catalogLength.toNat
  if stop < addressSize ∧ FileHeader.size ≤ start ∧ stop ≤ data.size - Footer.size then
    .ok (data.extract start stop).toList
  else .error .catalogOutside

def readCatalog (data : Array UInt8) (footer : Footer) : Except FileFault Catalog := do
  let bytes ← catalogBytes data footer
  if Checksum.crc32 bytes ≠ footer.catalogChecksum then throw .catalogChecksum
  let catalog ← (Catalog.decode bytes).mapError .catalogEncoding
  (catalog.validate ⟨.ofNat FileHeader.size, footer.catalogOffset⟩).mapError .layout
  pure catalog

def parse (data : Array UInt8) : Except FileFault (FileHeader × Catalog) := do
  if data.size < minSize then throw .tooSmall
  let (header, _) ← (FileHeader.validate (data.extract 0 FileHeader.size).toList).mapError .header
  match Footer.decode? (data.extract (data.size - Footer.size) data.size).toList with
  | none => throw .missingFooter
  | some footer =>
    let catalog ← readCatalog data footer
    pure (header, catalog)

def unavailable (path : String) (fault : FileFault) : ScanError :=
  .sourceUnavailable (.file path fault)

def ofContents (path : String) (contents : Except String (Array UInt8)) :
    Except ScanError TableFile :=
  match contents with
  | .error text => .error (unavailable path (.system text))
  | .ok data =>
    match parse data with
    | .error fault => .error (unavailable path fault)
    | .ok (header, catalog) => .ok ⟨path, data, header, catalog⟩

def size (f : TableFile) : Nat := f.data.size

def table (f : TableFile) (name : String) : Except ScanError Table :=
  match f.catalog.table? name with
  | some record => .ok ⟨f.data, record⟩
  | none => .error (unavailable f.path (.noTable name (f.catalog.tables.map TableRecord.name)))

def describeTable (t : TableRecord) : String :=
  s!"  {t.name}: {t.rowCount.toNat} rows, {t.columns.length} columns\n"

def describe (f : TableFile) : String :=
  s!"TableFile: {f.path}  size={f.size} bytes  version={f.header.version.toNat}" ++
    s!"  tables={f.catalog.tables.length}\n" ++
    String.join (f.catalog.tables.map describeTable)

end TableFile
end Columnar
