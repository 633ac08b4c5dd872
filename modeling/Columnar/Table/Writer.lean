import Columnar.Error
import Columnar.Table.Footer

/-! Writing a table file. A writer holds its encoder, the bytes written so far, their number and the
catalog of the tables written. `addTable` checks a table as a whole before it writes a byte of it;
`finish` adds the catalog and the footer. Every write stores all its bytes. -/

namespace Columnar

structure TableWriter where
  encoder : Lz4.Encoder
  written : Array UInt8
  offset : UInt64
  catalog : Catalog

namespace TableWriter

def newWith (encoder : Lz4.Encoder) : TableWriter :=
  ⟨encoder, FileHeader.ofTable.encode.toArray, .ofNat FileHeader.size, .empty⟩

def new : TableWriter := newWith Lz4.literalRun

/-- Names are new and every column has `rows` values; per column, the name comes first. -/
def checkColumns (table : String) (rows : Nat) (seen : List String) :
    List (String × Values) → Except StoreError Unit
  | [] => .ok ()
  | (name, values) :: columns =>
    if name ∈ seen then .error (.duplicateColumn table name)
    else if values.size ≠ rows then .error (.rowCountMismatch name rows values.size)
    else checkColumns table rows (name :: seen) columns

def rowsOf (columns : List (String × Values)) : Nat :=
  match columns with
  | [] => 0
  | (_, values) :: _ => values.size

def check (w : TableWriter) (name : String) (columns : List (String × Values))
    (rowsPerBlock : Nat) : Except StoreError Unit :=
  if rowsPerBlock = 0 ∨ BlockHeader.maxRows < rowsPerBlock then
    .error (.invalidBlockSize rowsPerBlock)
  else if (w.catalog.table? name).isSome then .error (.duplicateTable name)
  else checkColumns name (rowsOf columns) [] columns

def writeBlock (w : TableWriter) (values : Values) (start stop : Nat) :
    Except StoreError BlockRecord × TableWriter :=
  let raw := (values.slice start stop).block
  let compressed := w.encoder.compress raw
  let length := compressed.length
  let rawLength := raw.length
  if UInt32.size ≤ length then (.error (.compression (.tooLong length)), w)
  else if UInt32.size ≤ rawLength then (.error (.invalidBlockSize (stop - start)), w)
  else
    (.ok ⟨.ofNat start, .ofNat (stop - start), w.offset, .ofNat length, .ofNat rawLength⟩,
      ⟨w.encoder, w.written ++ compressed, w.offset + .ofNat length, w.catalog⟩)

def writeBlocks (w : TableWriter) (values : Values) (rowsPerBlock start : Nat)
    (blocks : Array BlockRecord) : Except StoreError (Array BlockRecord) × TableWriter :=
  if _h : start < values.size ∧ 0 < rowsPerBlock then
    let stop := min (start + rowsPerBlock) values.size
    match w.writeBlock values start stop with
    | (.error e, w) => (.error e, w)
    | (.ok b, w) => writeBlocks w values rowsPerBlock stop (blocks.push b)
  else (.ok blocks, w)
termination_by values.size - start
decreasing_by omega

def writeColumns (w : TableWriter) (rowsPerBlock : Nat) (records : Array ColumnRecord) :
    List (String × Values) → Except StoreError (Array ColumnRecord) × TableWriter
  | [] => (.ok records, w)
  | (name, values) :: columns =>
    match w.writeBlocks values rowsPerBlock 0 #[] with
    | (.error e, w) => (.error e, w)
    | (.ok blocks, w) =>
      writeColumns w rowsPerBlock (records.push ⟨name, values.type, blocks⟩) columns

def addTable (w : TableWriter) (name : String) (columns : List (String × Values))
    (rowsPerBlock : Nat) : Except StoreError Unit × TableWriter :=
  match w.check name columns rowsPerBlock with
  | .error e => (.error e, w)
  | .ok () =>
    match w.writeColumns rowsPerBlock #[] columns with
    | (.error e, w) => (.error e, w)
    | (.ok records, w) =>
      let record : TableRecord := ⟨name, .ofNat (rowsOf columns), records.toList⟩
      (.ok (), { w with catalog := ⟨w.catalog.tables ++ [record]⟩ })

def footer (w : TableWriter) (encoded : Bytes) : Footer :=
  ⟨w.offset, .ofNat encoded.length, Checksum.crc32 encoded⟩

def finish (w : TableWriter) : Catalog × Array UInt8 :=
  let encoded := w.catalog.encode
  (w.catalog, w.written ++ encoded ++ (w.footer encoded).encode)

end TableWriter
end Columnar
