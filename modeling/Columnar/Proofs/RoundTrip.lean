import Columnar.Proofs.DecimalText
import Columnar.Proofs.Writing

/-! Writing and reading back. A finished file opens: its footer points to the catalog behind the
blocks, the catalog is decoded from its encoding, and what the writer stored is laid out before it.
Every table is then found under its name, and every row of every column comes back as it was
written, whatever was read before: the bits of a double, and the text that shows the value. -/

namespace Columnar

theorem forall₂_find? {α β γ : Type} [DecidableEq γ] {R : α → β → Prop} {f : α → γ} {g : β → γ}
    (hR : ∀ a b, R a b → f a = g b) {xs : List α} {ys : List β} (h : List.Forall₂ R xs ys)
    (hn : (ys.map g).Nodup) {b : β} (hb : b ∈ ys) :
    ∃ a, xs.find? (fun a => f a = g b) = some a ∧ R a b := by
  induction h with
  | nil => cases hb
  | @cons x y xs ys hxy hrest ih =>
    rw [List.map_cons, List.nodup_cons] at hn
    rcases List.mem_cons.1 hb with rfl | hb
    · exact ⟨x, List.find?_cons_of_pos (by simpa using hR _ _ hxy), hxy⟩
    · obtain ⟨a, ha, hab⟩ := ih hn.2 hb
      have hne : f x ≠ g b := by
        intro he
        rw [hR _ _ hxy] at he
        exact hn.1 (List.mem_map.2 ⟨b, hb, he.symm⟩)
      exact ⟨a, by rw [List.find?_cons_of_neg (by simpa using hne), ha], hab⟩

theorem forall₂_exists_right {α β : Type} {R : α → β → Prop} {xs : List α} {ys : List β}
    (h : List.Forall₂ R xs ys) {a : α} (ha : a ∈ xs) : ∃ b ∈ ys, R a b := by
  induction h with
  | nil => cases ha
  | @cons x y xs ys hxy hrest ih =>
    rcases List.mem_cons.1 ha with rfl | ha
    · exact ⟨y, List.mem_cons_self, hxy⟩
    · obtain ⟨b, hb, hab⟩ := ih ha
      exact ⟨b, List.mem_cons_of_mem _ hb, hab⟩

theorem forall₂_map_eq {α β γ : Type} {R : α → β → Prop} {f : α → γ} {g : β → γ}
    (hR : ∀ a b, R a b → f a = g b) {xs : List α} {ys : List β} (h : List.Forall₂ R xs ys) :
    xs.map f = ys.map g := by
  induction h with
  | nil => rfl
  | cons hxy _ ih => rw [List.map_cons, List.map_cons, hR _ _ hxy, ih]

theorem extract_middle {α : Type} (xs ys zs : Array α) :
    (xs ++ ys ++ zs).extract xs.size (xs.size + ys.size) = ys := by
  simp

namespace TableWriter

variable {w : TableWriter} {inputs : List TableInput}

theorem Holds.stores (h : w.Holds inputs) (hlen : w.catalog.encode.length < UInt32.size) :
    w.written.size + UInt32.size < UInt64.size ∧
      (∀ input ∈ inputs, ∀ p ∈ input.columns, p.2.size < UInt64.size) ∧
      List.Forall₂ (fun t input => t.Stores w.written input) w.catalog.tables inputs := by
  have hblocks := w.catalog.mul_blocks_le_encode
  have h32 : UInt32.size = 4294967296 := rfl
  have h64 : UInt64.size = 18446744073709551616 := rfl
  have h20 : FileHeader.size = 20 := rfl
  have hsize := h.size_le
  -- A block takes 28 bytes of the catalog and adds less than 2 ^ 32 bytes and rows.
  have hmul : UInt32.size * w.catalog.blocks.length ≤ 4294967296 * 153391689 := by
    rw [h32]
    exact Nat.mul_le_mul_left _ (by omega)
  have hcols : ∀ input ∈ inputs, ∀ p ∈ input.columns, p.2.size < UInt64.size := by
    intro input hi p hp
    have := h.rows_le input hi p hp
    omega
  exact ⟨by omega, hcols, h.tables (by omega) hcols⟩

theorem rowsOf_lt {input : TableInput}
    (h : ∀ p ∈ input.columns, p.2.size < UInt64.size) :
    rowsOf input.columns < UInt64.size := by
  cases hc : input.columns with
  | nil => decide
  | cons p columns =>
    obtain ⟨name, values⟩ := p
    exact h (name, values) (hc ▸ List.mem_cons_self)

theorem Holds.laid (h : w.Holds inputs) (hlen : w.catalog.encode.length < UInt32.size) :
    w.catalog.Laid ⟨.ofNat FileHeader.size, w.offset⟩ := by
  obtain ⟨hsize, hcols, hstored⟩ := h.stores hlen
  have hoff : w.offset.toNat = w.written.size := h.inStep.offset_toNat (by omega)
  refine ⟨?_, fun t ht => ?_, fun t ht k hk => ?_⟩
  · rw [h.names]
    exact h.nodup
  · obtain ⟨input, hi, hst⟩ := forall₂_exists_right hstored ht
    rw [forall₂_map_eq (fun _ _ hc => hc.name_eq) hst.columns]
    exact (h.regular input hi).nodup
  · obtain ⟨input, hi, hst⟩ := forall₂_exists_right hstored ht
    obtain ⟨p, hp, hc⟩ := forall₂_exists_right hst.columns hk
    have hrows : t.rowCount.toNat = p.2.size := by
      rw [hst.rows_eq, (h.regular input hi).size_eq p hp]
      exact UInt64.toNat_ofNat_of_lt' (rowsOf_lt (hcols input hi))
    refine ⟨by rw [hrows]; exact hc.tiles, fun b hb => ?_⟩
    have hstart := (hc.blocks b hb).start
    have hstop := (hc.blocks b hb).stop
    simp only [DataRegion.holds, Bool.and_eq_true, decide_eq_true_eq, hoff,
      UInt64.le_iff_toNat_le]
    exact ⟨hstart, hstop⟩

theorem finish_bytes (w : TableWriter) :
    w.finish.2 = w.written ++ w.catalog.encode.toArray ++
      (w.footer w.catalog.encode).encode.toArray := by
  simp only [finish, append_bytes]

theorem size_finish (w : TableWriter) :
    w.finish.2.size = w.written.size + w.catalog.encode.length + Footer.size := by
  rw [finish_bytes]
  simp only [Array.size_append, List.size_toArray, Footer.length_encode]

theorem finish_footer (w : TableWriter) :
    w.finish.2.extract (w.finish.2.size - Footer.size) w.finish.2.size =
      (w.footer w.catalog.encode).encode.toArray := by
  rw [size_finish, Nat.add_sub_cancel, finish_bytes]
  have h := extract_middle (w.written ++ w.catalog.encode.toArray)
    (w.footer w.catalog.encode).encode.toArray #[]
  simpa using h

theorem InStep.finish_header (h : w.InStep) :
    w.finish.2.extract 0 FileHeader.size = FileHeader.ofTable.encode.toArray := by
  obtain ⟨more, hm⟩ := h.header
  rw [finish_bytes, hm, Array.append_assoc, Array.append_assoc]
  have hmiddle := extract_middle #[] FileHeader.ofTable.encode.toArray
    (more ++ (w.catalog.encode.toArray ++ (w.footer w.catalog.encode).encode.toArray))
  rwa [Array.empty_append, Array.size_empty, Nat.zero_add, List.size_toArray,
    FileHeader.length_encode] at hmiddle

theorem InStep.catalogBytes_finish (h : w.InStep)
    (hend : w.written.size + UInt32.size < UInt64.size)
    (hlen : w.catalog.encode.length < UInt32.size) :
    TableFile.catalogBytes w.finish.2 (w.footer w.catalog.encode) = .ok w.catalog.encode := by
  have hoff : w.offset.toNat = w.written.size := h.offset_toNat (by omega)
  have hcat : (UInt32.ofNat w.catalog.encode.length).toNat = w.catalog.encode.length :=
    UInt32.toNat_ofNat_of_lt' hlen
  have hmin := h.header_le
  refine TableFile.catalogBytes_eq_ok.2 ⟨⟨?_, ?_, ?_⟩, ?_⟩
  · simp only [footer, hoff, hcat, addressSize]
    omega
  · simp only [footer, hoff]
    exact hmin
  · rw [size_finish]
    simp only [footer, hoff, hcat]
    omega
  · simp only [footer, hoff, hcat]
    rw [finish_bytes]
    simp

theorem InStep.parse_finish (h : w.InStep) (hend : w.written.size + UInt32.size < UInt64.size)
    (hlen : w.catalog.encode.length < UInt32.size)
    (hlaid : w.catalog.Laid ⟨.ofNat FileHeader.size, w.offset⟩) :
    TableFile.parse w.finish.2 = .ok (FileHeader.ofTable, w.catalog) := by
  have hmin := h.header_le
  have hd : Catalog.decode w.catalog.encode = .ok w.catalog := by
    have hfits : w.catalog.encode.length < UInt64.size := by omega
    simpa using Catalog.decode_encode (Catalog.fits_of_length hfits) []
  have hbytes := h.catalogBytes_finish hend hlen
  have hvalid := (TableFile.validate_eq_ok_iff_of_decode hd hlen).2 hlaid
  refine TableFile.parse_eq_ok.2 ⟨?_, ⟨FileHeader.size, ?_⟩, w.footer w.catalog.encode, ?_, ?_⟩
  · rw [size_finish]
    simp only [TableFile.minSize]
    omega
  · rw [h.finish_header]
    exact FileHeader.validate_ofTable
  · rw [finish_footer]
    exact Footer.decode?_encode _
  · exact TableFile.readCatalog_eq_ok.2 ⟨w.catalog.encode, hbytes, rfl, hd, hvalid⟩

theorem InStep.ofContents_finish (h : w.InStep)
    (hend : w.written.size + UInt32.size < UInt64.size)
    (hlen : w.catalog.encode.length < UInt32.size)
    (hlaid : w.catalog.Laid ⟨.ofNat FileHeader.size, w.offset⟩) (path : String) :
    TableFile.ofContents path (.ok w.finish.2) =
      .ok ⟨path, w.finish.2, FileHeader.ofTable, w.catalog⟩ :=
  TableFile.ofContents_eq_ok.2 ⟨rfl, h.parse_finish hend hlen hlaid, rfl⟩

theorem Holds.ofContents_finish (h : w.Holds inputs)
    (hlen : w.catalog.encode.length < UInt32.size) (path : String) :
    TableFile.ofContents path (.ok w.finish.2) =
      .ok ⟨path, w.finish.2, FileHeader.ofTable, w.catalog⟩ := by
  obtain ⟨hend, -, -⟩ := h.stores hlen
  exact h.inStep.ofContents_finish hend hlen (h.laid hlen) path

end TableWriter

theorem BlockRecord.Stores.gives {α : Type} {b : BlockRecord} {data : Array UInt8} {v : Values}
    (h : b.Stores data v) {column : ColumnRecord} (ht : column.type = v.type)
    {pick : Values → Option α} {result : Except ScanError α}
    (hg : b.Gives column data pick result) : ∃ x, pick v = some x ∧ result = .ok x := by
  rw [BlockRecord.Gives, h.decodes column ht] at hg
  exact hg

namespace Table

variable {t : Table} {column : ColumnRecord} {name : String} {values : Values} {c : Cursor}

/-- A value that is there, and the row as invalid where there is none. -/
def answer {α : Type} (t : Table) (row : Nat) : Option α → Except ScanError α
  | some x => .ok x
  | none => .error (.invalidRow row t.rowCount)

theorem format_stored (hr : column.Readable t.data t.rowCount)
    (hs : column.Stores t.data name values) (hsize : values.size = t.rowCount)
    (hc : Cursor.After t.data (.new column) c) (row : Nat) (scratch : Scratch) :
    (t.format c row scratch).result = t.answer row (values.textAt? row) := by
  by_cases hrow : row < t.rowCount
  · obtain ⟨b, hb, hcov⟩ := hr.tiles.exists_covers (Nat.zero_le row) hrow
    have hg := format_gives hr hc hb hcov hrow scratch
    obtain ⟨s, hpick, hres⟩ := (hs.blocks b hb).gives (by simp [hs.type_eq]) hg
    rw [Values.textAt?_slice values hcov.1 hcov.2] at hpick
    rw [hres, hpick]
    rfl
  · rw [format, if_pos (Nat.not_lt.1 hrow), Values.textAt?_eq_none (by omega)]
    rfl

theorem read_stored {xs : Array Binary64} (hr : column.Readable t.data t.rowCount)
    (hs : column.Stores t.data name (.floats xs)) (hsize : xs.size = t.rowCount)
    (hc : Cursor.After t.data (.new column) c) (row : Nat) (scratch : Scratch) :
    (t.read c row scratch).result = t.answer row xs[row]? := by
  by_cases hrow : row < t.rowCount
  · obtain ⟨b, hb, hcov⟩ := hr.tiles.exists_covers (Nat.zero_le row) hrow
    have hg := read_gives hr hs.type_eq hc hb hcov hrow scratch
    obtain ⟨x, hpick, hres⟩ := (hs.blocks b hb).gives (by simp [hs.type_eq]) hg
    rw [Values.floatAt?_slice _ hcov.1 hcov.2] at hpick
    rw [hres, show xs[row]? = some x from hpick]
    rfl
  · rw [read, if_pos (Nat.not_lt.1 hrow), Array.getElem?_eq_none (by omega)]
    rfl

/-- What reading the column `name` gives, through a handle that was used before in any way. -/
structure ReadsBack (t : Table) (name : String) (values : Values) : Prop where
  size_eq : values.size = t.rowCount
  handle : ∃ handle, t.bindAny name = .ok handle ∧
    (∀ row < t.rowCount, ∃ text, values.Shows row text ∧
      ∀ c, Cursor.After t.data handle c → ∀ scratch, (t.format c row scratch).result = .ok text) ∧
    (∀ c row scratch, t.rowCount ≤ row →
      (t.format c row scratch).result = .error (.invalidRow row t.rowCount) ∧
        (t.read c row scratch).result = .error (.invalidRow row t.rowCount)) ∧
    match values with
    | .floats xs => t.bind name = .ok handle ∧
        ∀ c, Cursor.After t.data handle c → ∀ row scratch,
          (t.read c row scratch).result = t.answer row xs[row]?
    | .ints _ => t.bind name = .error (.columnNotFound (.storedAs name .int64 .float64))

theorem readsBack_of_stores (hr : column.Readable t.data t.rowCount)
    (hs : column.Stores t.data name values) (hsize : values.size = t.rowCount)
    (hcol : t.record.column? name = some column) : t.ReadsBack name values := by
  refine ⟨hsize, .new column, bindAny_eq_ok.2 ⟨column, hcol, rfl⟩, ?_, ?_, ?_⟩
  · intro row hrow
    obtain ⟨text, htext⟩ := Values.exists_textAt? (hsize ▸ hrow)
    refine ⟨text, Values.shows_of_textAt? htext, fun c hc scratch => ?_⟩
    rw [format_stored hr hs hsize hc row scratch, htext]
    rfl
  · intro c row scratch hrow
    rw [format, read, if_pos hrow, if_pos hrow]
    exact ⟨rfl, rfl⟩
  · cases values with
    | floats xs =>
      refine ⟨bind_eq_ok.2 ⟨column, hcol, hs.type_eq, rfl⟩, fun c hc row scratch => ?_⟩
      exact read_stored hr hs hsize hc row scratch
    | ints xs =>
      have htype : column.type = .int64 := hs.type_eq
      simp [bind, Table.column, hcol, htype]

end Table

namespace TableWriter

def ReadsBack (f : TableFile) (input : TableInput) : Prop :=
  ∃ t, f.table input.name = .ok t ∧ t.rowCount = rowsOf input.columns ∧
    ∀ p ∈ input.columns, t.ReadsBack p.1 p.2

theorem Holds.exists_table {w : TableWriter} {inputs : List TableInput} (h : w.Holds inputs)
    (hlen : w.catalog.encode.length < UInt32.size) {path : String} {f : TableFile}
    (ho : TableFile.ofContents path (.ok w.finish.2) = .ok f) {input : TableInput}
    (hi : input ∈ inputs) :
    ∃ t, f.table input.name = .ok t ∧ t.rowCount = rowsOf input.columns ∧
      t.record.Stores t.data input := by
  obtain ⟨-, hcols, hstored⟩ := h.stores hlen
  obtain rfl := Except.ok.inj ((h.ofContents_finish hlen path).symm.trans ho)
  obtain ⟨record, hfind, hst⟩ := forall₂_find? (fun _ _ ht => ht.name_eq) hstored h.nodup hi
  refine ⟨⟨w.finish.2, record⟩, TableFile.table_eq_ok.2 ⟨hfind, rfl⟩, ?_, ?_⟩
  · rw [Table.rowCount, hst.rows_eq]
    exact UInt64.toNat_ofNat_of_lt' (rowsOf_lt (hcols input hi))
  · simp only [finish, append_bytes]
    exact (hst.append _).append _

theorem Holds.readsBack {w : TableWriter} {inputs : List TableInput} (h : w.Holds inputs)
    (hlen : w.catalog.encode.length < UInt32.size) {path : String} {f : TableFile}
    (ho : TableFile.ofContents path (.ok w.finish.2) = .ok f) {input : TableInput}
    (hi : input ∈ inputs) : ReadsBack f input := by
  obtain ⟨t, htable, hrows, hst⟩ := h.exists_table hlen ho hi
  refine ⟨t, htable, hrows, ?_⟩
  rintro ⟨name, values⟩ hp
  obtain ⟨column, hcol, hcs⟩ := forall₂_find? (fun _ _ hc => hc.name_eq) hst.columns
    (h.regular input hi).nodup hp
  refine Table.readsBack_of_stores (TableFile.readable ho htable hcol) hcs ?_ hcol
  exact ((h.regular input hi).size_eq _ hp).trans hrows.symm

end TableWriter

/-- What accepted calls wrote is what the finished file gives back: it opens, its catalog is the
one that was written, and every value of every table is read as it was passed. -/
theorem TableWriter.finish_reads_back (encoder : Lz4.Encoder) (inputs : List TableInput)
    (w : TableWriter) (path : String) (h : (newWith encoder).addTables inputs = .ok w)
    (hlen : w.catalog.encode.length < UInt32.size) :
    ∃ f, TableFile.ofContents path (.ok w.finish.2) = .ok f ∧ f.catalog = w.finish.1 ∧
      ∀ input ∈ inputs, ReadsBack f input := by
  have hw := holds_of_addTables h
  have ho := hw.ofContents_finish hlen path
  exact ⟨_, ho, rfl, fun input hi => hw.readsBack hlen ho hi⟩

def twoTables : List TableInput :=
  [⟨"hits", [("x", .floats #[⟨0⟩, ⟨1⟩, ⟨0x7FF8000000000000⟩, ⟨0x3FF0000000000000⟩, ⟨5⟩]),
      ("n", .ints #[1, -2, 3, -4, 5])], 2⟩,
    ⟨"dots", [("x", .floats #[⟨0x3FF0000000000000⟩, ⟨0x4000000000000000⟩, ⟨0⟩])], 4⟩]

theorem twoTables_accepted :
    ∃ w, (TableWriter.newWith Lz4.literalRun).addTables twoTables = .ok w ∧
      w.catalog.encode.length < UInt32.size := by
  have h : (match (TableWriter.newWith Lz4.literalRun).addTables twoTables with
    | .ok w => decide (w.catalog.encode.length < UInt32.size)
    | .error _ => false) = true := by decide +kernel
  split at h
  · rename_i w hw
    exact ⟨w, hw, of_decide_eq_true h⟩
  · cases h

theorem twoTables_read_back : ∃ w f,
    (TableWriter.newWith Lz4.literalRun).addTables twoTables = .ok w ∧
      TableFile.ofContents "two.tbl" (.ok w.finish.2) = .ok f ∧
      ∀ input ∈ twoTables, TableWriter.ReadsBack f input := by
  obtain ⟨w, hw, hlen⟩ := twoTables_accepted
  obtain ⟨f, ho, -, hread⟩ :=
    TableWriter.finish_reads_back Lz4.literalRun twoTables w "two.tbl" hw hlen
  exact ⟨w, f, hw, ho, hread⟩

/-- Two columns of five rows, cut at different rows, as no call cuts them. -/
def unevenX : ColumnRecord :=
  ⟨"x", .float64, #[⟨0, 2, 20, 38, 32⟩, ⟨2, 2, 58, 38, 32⟩, ⟨4, 1, 96, 30, 24⟩]⟩

def unevenY : ColumnRecord := ⟨"y", .float64, #[⟨0, 3, 126, 46, 40⟩, ⟨3, 2, 172, 38, 32⟩]⟩

def unevenHits : TableRecord := ⟨"hits", 5, [unevenX, unevenY]⟩

def uneven : TableWriter :=
  let blocks : List Values := [.floats #[⟨0⟩, ⟨1⟩], .floats #[⟨2⟩, ⟨3⟩], .floats #[⟨4⟩],
    .floats #[⟨5⟩, ⟨6⟩, ⟨7⟩], .floats #[⟨8⟩, ⟨9⟩]]
  ⟨Lz4.literalRun,
    (FileHeader.ofTable.encode ++ blocks.flatMap fun v => Lz4.compress v.block).toArray, 210,
    ⟨[unevenHits]⟩⟩

def unevenDamaged : TableWriter :=
  { uneven with written := (uneven.written.setIfInBounds 100 0).setIfInBounds 172 0 }

theorem uneven_laid : uneven.catalog.Laid ⟨.ofNat FileHeader.size, uneven.offset⟩ := by
  refine (Catalog.validate_eq_ok_iff ?_).1 (by decide +kernel)
  decide +kernel

theorem uneven_encode_lt : uneven.catalog.encode.length < UInt32.size := by decide +kernel

theorem TableWriter.InStep.of_take {w : TableWriter} (hoff : w.offset = .ofNat w.written.size)
    (hhead : w.written.toList.take FileHeader.size = FileHeader.ofTable.encode) : w.InStep := by
  refine ⟨hoff, (w.written.toList.drop FileHeader.size).toArray, ?_⟩
  apply Array.ext'
  rw [← hhead, Array.toList_append, List.take_append_drop]

theorem uneven_opens : TableFile.ofContents "uneven.tbl" (.ok uneven.finish.2) =
    .ok ⟨"uneven.tbl", uneven.finish.2, FileHeader.ofTable, uneven.catalog⟩ := by
  have hstep : uneven.InStep := .of_take (by decide +kernel) (by decide +kernel)
  exact hstep.ofContents_finish (by decide +kernel) uneven_encode_lt uneven_laid _

theorem unevenDamaged_opens : TableFile.ofContents "damaged.tbl" (.ok unevenDamaged.finish.2) =
    .ok ⟨"damaged.tbl", unevenDamaged.finish.2, FileHeader.ofTable, uneven.catalog⟩ := by
  have hstep : unevenDamaged.InStep := .of_take (by decide +kernel) (by decide +kernel)
  exact hstep.ofContents_finish (by decide +kernel) uneven_encode_lt uneven_laid _

end Columnar
