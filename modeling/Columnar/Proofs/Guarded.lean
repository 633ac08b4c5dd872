import Columnar.Proofs.Opening

/-! Opening any bytes. The guarded form of the opening takes every slice and every sum of positions
only where it is defined: a slice out of range, a difference below zero or a sum that is no word
gives nothing. `openFile_eq` says that this never happens, whatever the bytes, and that the result
is that of `TableFile.ofContents`. -/

namespace Columnar.Guarded

def slice? (bs : Bytes) (start stop : Nat) : Option Bytes :=
  if start ≤ stop ∧ stop ≤ bs.length then some ((bs.drop start).take (stop - start)) else none

def add? (a b : UInt64) : Option UInt64 :=
  if a.toNat + b.toNat < UInt64.size then some (a + b) else none

def sub? (a b : Nat) : Option Nat := if b ≤ a then some (a - b) else none

theorem slice?_of_le {bs : Bytes} {start stop : Nat} (h : start ≤ stop) (hs : stop ≤ bs.length) :
    slice? bs start stop = some ((bs.drop start).take (stop - start)) :=
  if_pos ⟨h, hs⟩

theorem slice?_toList {data : Array UInt8} {start stop : Nat} (h : start ≤ stop)
    (hs : stop ≤ data.size) : slice? data.toList start stop = some (data.extract start stop).toList := by
  rw [slice?_of_le h (by simpa using hs)]
  simp

theorem add?_of_lt {a b : UInt64} (h : a.toNat + b.toNat < UInt64.size) :
    add? a b = some (a + b) :=
  if_pos h

theorem sub?_of_le {a b : Nat} (h : b ≤ a) : sub? a b = some (a - b) := if_pos h

def header (bs : Bytes) : Option (Except HeaderFault (FileHeader × Nat)) :=
  if bs.length < FileHeader.size then some (.error .tooSmall)
  else (slice? bs 0 FileHeader.size).map FileHeader.validate

def footer (bs : Bytes) : Option (Option Footer) :=
  if bs.length ≠ Footer.size then some none
  else do
    let tail ← slice? bs 16 24
    if tail ≠ Footer.magic then some none
    else do
      let offset ← slice? bs 0 8
      let length ← slice? bs 8 12
      let checksum ← slice? bs 12 16
      some (some ⟨Bytes.toUInt64 offset, Bytes.toUInt32 length, Bytes.toUInt32 checksum⟩)

def checkBlocks (region : DataRegion) (table column : String) (next : UInt64) :
    List BlockRecord → Option (Except LayoutFault UInt64)
  | [] => some (.ok next)
  | b :: bs =>
    if b.startRow ≠ next then some (.error (.unexpectedStart table column b.startRow next))
    else if b.rows = 0 then some (.error (.emptyBlock table column))
    else if !region.holds b then some (.error (.outsideData table column b.offset))
    else do
      let stop ← add? b.startRow b.rows.toUInt64
      checkBlocks region table column stop bs

def checkColumns (region : DataRegion) (table : TableRecord) (seen : List String) :
    List ColumnRecord → Option (Except LayoutFault Unit)
  | [] => some (.ok ())
  | c :: cs =>
    if c.name ∈ seen then some (.error (.duplicateColumn table.name c.name))
    else do
      match ← checkBlocks region table.name c.name 0 c.blocks.toList with
      | .error e => some (.error e)
      | .ok covered =>
        if covered ≠ table.rowCount then
          some (.error (.coverage table.name c.name covered table.rowCount))
        else checkColumns region table (c.name :: seen) cs

def checkTables (region : DataRegion) (seen : List String) :
    List TableRecord → Option (Except LayoutFault Unit)
  | [] => some (.ok ())
  | t :: ts =>
    if t.name ∈ seen then some (.error (.duplicateTable t.name))
    else do
      match ← checkColumns region t [] t.columns with
      | .error e => some (.error e)
      | .ok () => checkTables region (t.name :: seen) ts

def readCatalog (data : Array UInt8) (dataStart footerStart : Nat) (f : Footer) :
    Option (Except FileFault Catalog) :=
  match add? f.catalogOffset f.catalogLength.toUInt64 with
  | none => some (.error .catalogOutside)
  | some stop =>
    if dataStart ≤ f.catalogOffset.toNat ∧ stop.toNat ≤ footerStart then do
      let bytes ← slice? data.toList f.catalogOffset.toNat stop.toNat
      if Checksum.crc32 bytes ≠ f.catalogChecksum then some (.error .catalogChecksum)
      else
        match Catalog.decode bytes with
        | .error fault => some (.error (.catalogEncoding fault))
        | .ok catalog => do
          match ← checkTables ⟨.ofNat dataStart, f.catalogOffset⟩ [] catalog.tables with
          | .error fault => some (.error (.layout fault))
          | .ok () => some (.ok catalog)
    else some (.error .catalogOutside)

def parse (data : Array UInt8) : Option (Except FileFault (FileHeader × Catalog)) :=
  if data.size < TableFile.minSize then some (.error .tooSmall)
  else do
    match ← header data.toList with
    | .error fault => some (.error (.header fault))
    | .ok (h, dataStart) =>
      let footerStart ← sub? data.size Footer.size
      let tail ← slice? data.toList footerStart data.size
      match ← footer tail with
      | none => some (.error .missingFooter)
      | some f => (readCatalog data dataStart footerStart f).map fun catalog =>
        catalog.map fun c => (h, c)

def openFile (path : String) (contents : Except String (Array UInt8)) :
    Option (Except ScanError TableFile) :=
  match contents with
  | .error text => some (.error (TableFile.unavailable path (.system text)))
  | .ok data => (parse data).map fun
    | .error fault => .error (TableFile.unavailable path fault)
    | .ok (h, catalog) => .ok ⟨path, data, h, catalog⟩

theorem header_eq (bs : Bytes) :
    header bs = some (FileHeader.validate (bs.take FileHeader.size)) := by
  unfold header
  by_cases hl : bs.length < FileHeader.size
  · have ht : (bs.take FileHeader.size).length < FileHeader.size := by
      rw [List.length_take]
      omega
    rw [if_pos hl, FileHeader.validate, if_pos ht]
  · rw [if_neg hl, slice?_of_le (Nat.zero_le _) (Nat.not_lt.1 hl)]
    rfl

theorem footer_eq (bs : Bytes) : footer bs = some (Footer.decode? bs) := by
  unfold footer Footer.decode?
  by_cases hl : bs.length = Footer.size
  · have h24 : bs.length = 24 := hl
    have htail : slice? bs 16 24 = some (bs.drop 16) := by
      rw [slice?_of_le (by omega) (by omega), List.take_of_length_le (by simp; omega)]
    have h8 : slice? bs 0 8 = some (bs.take 8) := by
      rw [slice?_of_le (by omega) (by omega)]
      rfl
    have h12 : slice? bs 8 12 = some ((bs.drop 8).take 4) := slice?_of_le (by omega) (by omega)
    have h16 : slice? bs 12 16 = some ((bs.drop 12).take 4) := slice?_of_le (by omega) (by omega)
    simp only [hl, ne_eq, not_true_eq_false, if_false, htail, h8, h12, h16, true_and,
      Option.bind_eq_bind, Option.bind_some]
    by_cases hm : bs.drop 16 = Footer.magic <;> simp [hm]
  · simp [hl]

theorem checkBlocks_eq {region : DataRegion} {table column : String} {next : UInt64}
    {bs : List BlockRecord} (hlen : next.toNat + UInt32.size * bs.length ≤ UInt64.size) :
    checkBlocks region table column next bs =
      some (Layout.checkBlocks region table column next bs) := by
  induction bs generalizing next with
  | nil => rfl
  | cons b bs ih =>
    have hr : b.rows.toNat < UInt32.size := b.rows.toNat_lt
    rw [List.length_cons, Nat.mul_add, Nat.mul_one] at hlen
    simp only [checkBlocks, Layout.checkBlocks]
    by_cases hs : b.startRow = next
    · subst hs
      have hsum : b.startRow.toNat + b.rows.toNat < UInt64.size := by omega
      have hend := BlockRecord.endRow_toNat hsum
      have hadd : add? b.startRow b.rows.toUInt64 = some b.endRow := add?_of_lt hsum
      rw [hadd, Option.bind_eq_bind, Option.bind_some, @ih b.endRow (by omega)]
      simp only [ne_eq, not_true_eq_false, if_false]
      split
      · rfl
      · split <;> rfl
    · simp [hs]

theorem checkColumns_eq {region : DataRegion} {table : TableRecord} {seen : List String}
    {cs : List ColumnRecord} (hlen : ∀ c ∈ cs, c.blocks.size < UInt32.size) :
    checkColumns region table seen cs = some (Layout.checkColumns region table seen cs) := by
  induction cs generalizing seen with
  | nil => rfl
  | cons c cs ih =>
    obtain ⟨hc, ht⟩ := List.forall_mem_cons.1 hlen
    have hb : (0 : UInt64).toNat + UInt32.size * c.blocks.toList.length ≤ UInt64.size := by
      rw [Array.length_toList]
      have := Nat.mul_le_mul_left UInt32.size (Nat.le_of_lt hc)
      exact (Nat.zero_add _).symm ▸ this
    simp only [checkColumns, Layout.checkColumns, checkBlocks_eq hb, Option.bind_eq_bind,
      Option.bind_some, ih ht]
    by_cases hn : c.name ∈ seen
    · simp only [hn, if_true]
    · cases Layout.checkBlocks region table.name c.name 0 c.blocks.toList with
      | error e => simp only [hn, if_false]
      | ok covered =>
        simp only [hn, if_false]
        split <;> rfl

theorem checkTables_eq {region : DataRegion} {seen : List String} {ts : List TableRecord}
    (hlen : ∀ t ∈ ts, ∀ c ∈ t.columns, c.blocks.size < UInt32.size) :
    checkTables region seen ts = some (Layout.checkTables region seen ts) := by
  induction ts generalizing seen with
  | nil => rfl
  | cons t ts ih =>
    obtain ⟨hc, ht⟩ := List.forall_mem_cons.1 hlen
    simp only [checkTables, Layout.checkTables, checkColumns_eq hc, Option.bind_eq_bind,
      Option.bind_some, ih ht]
    by_cases hn : t.name ∈ seen
    · simp only [hn, if_true]
    · cases Layout.checkColumns region t [] t.columns with
      | error e => simp only [hn, if_false]
      | ok u => simp only [hn, if_false]

theorem size_blocks_of_decode {bytes : Bytes} {catalog : Catalog}
    (hd : Catalog.decode bytes = .ok catalog) (hl : bytes.length < UInt32.size) :
    ∀ t ∈ catalog.tables, ∀ c ∈ t.columns, c.blocks.size < UInt32.size := by
  intro t ht c hc
  obtain ⟨-, rest, rfl⟩ := Catalog.encode_of_decode hd
  rw [List.length_append] at hl
  have h1 := Catalog.size_blocks_le ht hc
  have h2 := catalog.mul_blocks_le_encode
  omega

theorem readCatalog_eq {data : Array UInt8} (f : Footer) :
    readCatalog data FileHeader.size (data.size - Footer.size) f =
      some (TableFile.readCatalog data f) := by
  have hw : f.catalogLength.toUInt64.toNat = f.catalogLength.toNat := UInt32.toNat_toUInt64 _
  unfold readCatalog TableFile.readCatalog TableFile.catalogBytes
  by_cases hsum : f.catalogOffset.toNat + f.catalogLength.toNat < addressSize
  · have hstop : (f.catalogOffset + f.catalogLength.toUInt64).toNat =
        f.catalogOffset.toNat + f.catalogLength.toNat := by
      rw [UInt64.toNat_add, hw]
      exact Nat.mod_eq_of_lt hsum
    rw [add?_of_lt (by rw [hw]; exact hsum)]
    simp only [hstop]
    by_cases hr : FileHeader.size ≤ f.catalogOffset.toNat ∧
        f.catalogOffset.toNat + f.catalogLength.toNat ≤ data.size - Footer.size
    · rw [if_pos hr, if_pos ⟨hsum, hr⟩, slice?_toList (Nat.le_add_right _ _) (by omega)]
      generalize hb : (data.extract f.catalogOffset.toNat
        (f.catalogOffset.toNat + f.catalogLength.toNat)).toList = bytes
      have hl : bytes.length < UInt32.size :=
        TableFile.length_catalogBytes (TableFile.catalogBytes_eq_ok.2 ⟨⟨hsum, hr⟩, hb⟩)
      rw [Option.bind_eq_bind, Option.bind_some]
      by_cases hcrc : Checksum.crc32 bytes = f.catalogChecksum
      · rcases hd : Catalog.decode bytes with fault | catalog
        · simp [hcrc, hd, bind, Except.bind]
        · have hcheck := @checkTables_eq ⟨.ofNat FileHeader.size, f.catalogOffset⟩ []
            catalog.tables (size_blocks_of_decode hd hl)
          simp only [hcrc, hd, hcheck, Catalog.validate, mapError_ok, bind, Except.bind,
            Option.bind_some, ne_eq, not_true_eq_false, if_false]
          cases Layout.checkTables ⟨.ofNat FileHeader.size, f.catalogOffset⟩ [] catalog.tables <;>
            rfl
      · simp [hcrc, throw, throwThe, MonadExceptOf.throw, bind, Except.bind]
    · rw [if_neg hr, if_neg fun h => hr h.2]
      rfl
  · have hnone : add? f.catalogOffset f.catalogLength.toUInt64 = none := by
      rw [add?, hw]
      exact if_neg hsum
    rw [hnone, if_neg fun h => hsum h.1]
    rfl

theorem size_of_validate {bs : Bytes} {h : FileHeader} {n : Nat}
    (hv : FileHeader.validate bs = .ok (h, n)) : n = FileHeader.size := by
  rw [FileHeader.validate] at hv
  split at hv
  · cases hv
  · split at hv
    · cases hv
    · split at hv
      · cases hv
      · split at hv
        · cases hv
        · exact (Prod.mk.inj (Except.ok.inj hv)).2.symm

theorem parse_eq (data : Array UInt8) : parse data = some (TableFile.parse data) := by
  unfold parse TableFile.parse
  by_cases hs : data.size < TableFile.minSize
  · simp [hs, throw, throwThe, MonadExceptOf.throw, bind, Except.bind]
  · have hmin : FileHeader.size + Footer.size ≤ data.size := Nat.not_lt.1 hs
    have hf : Footer.size ≤ data.size := by omega
    have hhead : data.toList.take FileHeader.size = (data.extract 0 FileHeader.size).toList := by
      simp
    simp only [hs, if_false, header_eq, hhead, sub?_of_le hf,
      slice?_toList (Nat.sub_le data.size Footer.size) (Nat.le_refl _), footer_eq,
      Option.bind_eq_bind, Option.bind_some]
    rcases hv : FileHeader.validate (data.extract 0 FileHeader.size).toList with fault | ⟨h, n⟩
    · rfl
    · obtain rfl := size_of_validate hv
      cases hfoot : Footer.decode? (data.extract (data.size - Footer.size) data.size).toList with
      | none => rfl
      | some f =>
        simp only [readCatalog_eq, Option.map_some, mapError_ok, bind, Except.bind]
        cases TableFile.readCatalog data f <;> rfl

theorem openFile_eq (path : String) (contents : Except String (Array UInt8)) :
    openFile path contents = some (TableFile.ofContents path contents) := by
  cases contents with
  | error text => rfl
  | ok data =>
    rcases hp : TableFile.parse data with fault | ⟨h, catalog⟩
    · simp only [openFile, TableFile.ofContents, parse_eq, hp, Option.map_some]
    · simp only [openFile, TableFile.ofContents, parse_eq, hp, Option.map_some]

end Columnar.Guarded
