import Columnar.Proofs.CatalogCodec
import Columnar.Proofs.Reading
import Columnar.Table.File

/-! What an opened file guarantees. Every check of the opening leaves a fact about the bytes: the
catalog lies between header and footer, it is what its bytes decode to, and its blocks are laid out
before it. A catalog has less than `2 ^ 32` bytes and so too few blocks for the row count to wrap.
Hence every column of an opened file can be read. -/

namespace Columnar

theorem except_bind_eq_ok {ε α β : Type} {x : Except ε α} {f : α → Except ε β} {b : β} :
    (x >>= f) = .ok b ↔ ∃ a, x = .ok a ∧ f a = .ok b := by
  cases x <;> simp [bind, Except.bind]

@[simp] theorem mapError_ok {ε δ α : Type} (f : ε → δ) (a : α) :
    (Except.ok a : Except ε α).mapError f = .ok a := rfl

@[simp] theorem mapError_error {ε δ α : Type} (f : ε → δ) (e : ε) :
    (Except.error e : Except ε α).mapError f = .error (f e) := rfl

theorem mapError_eq_ok {ε δ α : Type} {x : Except ε α} {f : ε → δ} {a : α} :
    x.mapError f = .ok a ↔ x = .ok a := by
  cases x <;> simp

namespace TableFile

variable {data : Array UInt8} {footer : Footer} {catalog : Catalog}

theorem catalogBytes_eq_ok {bytes : Bytes} :
    catalogBytes data footer = .ok bytes ↔
      (footer.catalogOffset.toNat + footer.catalogLength.toNat < addressSize ∧
        FileHeader.size ≤ footer.catalogOffset.toNat ∧
        footer.catalogOffset.toNat + footer.catalogLength.toNat ≤ data.size - Footer.size) ∧
      (data.extract footer.catalogOffset.toNat
        (footer.catalogOffset.toNat + footer.catalogLength.toNat)).toList = bytes := by
  simp only [catalogBytes]
  split
  · rename_i h
    simp [h]
  · rename_i h
    simp [h]

theorem readCatalog_eq_ok :
    readCatalog data footer = .ok catalog ↔
      ∃ bytes, catalogBytes data footer = .ok bytes ∧
        Checksum.crc32 bytes = footer.catalogChecksum ∧ Catalog.decode bytes = .ok catalog ∧
        catalog.validate ⟨.ofNat FileHeader.size, footer.catalogOffset⟩ = .ok () := by
  rw [readCatalog, except_bind_eq_ok]
  refine exists_congr fun bytes => and_congr_right fun _ => ?_
  by_cases hc : Checksum.crc32 bytes = footer.catalogChecksum
  · simp only [hc, ne_eq, not_true_eq_false, if_false, true_and, except_bind_eq_ok, mapError_eq_ok,
      pure, Except.pure, Except.ok.injEq]
    constructor
    · rintro ⟨c, hd, u, hv, rfl⟩
      exact ⟨hd, hv⟩
    · rintro ⟨hd, hv⟩
      exact ⟨catalog, hd, (), hv, rfl⟩
  · simp [hc, throw, throwThe, MonadExceptOf.throw, bind, Except.bind]

theorem parse_eq_ok {header : FileHeader} :
    parse data = .ok (header, catalog) ↔
      minSize ≤ data.size ∧
      (∃ n, FileHeader.validate (data.extract 0 FileHeader.size).toList = .ok (header, n)) ∧
      ∃ footer, Footer.decode? (data.extract (data.size - Footer.size) data.size).toList =
        some footer ∧ readCatalog data footer = .ok catalog := by
  rw [parse]
  by_cases hs : data.size < minSize
  · simp [hs, Nat.not_le.2 hs, throw, throwThe, MonadExceptOf.throw, bind, Except.bind]
  · simp only [hs, if_false, except_bind_eq_ok, mapError_eq_ok, pure, Except.pure]
    constructor
    · rintro ⟨⟨h, n⟩, hh, hrest⟩
      cases hf : Footer.decode? (data.extract (data.size - Footer.size) data.size).toList with
      | none =>
        rw [hf] at hrest
        cases hrest
      | some footer =>
        rw [hf] at hrest
        obtain ⟨c, hc, hp⟩ := except_bind_eq_ok.1 hrest
        obtain ⟨rfl, rfl⟩ := Prod.mk.inj (Except.ok.inj hp)
        exact ⟨Nat.not_lt.1 hs, ⟨n, hh⟩, footer, rfl, hc⟩
    · rintro ⟨-, ⟨n, hh⟩, footer, hf, hc⟩
      refine ⟨(header, n), hh, ?_⟩
      rw [hf]
      exact except_bind_eq_ok.2 ⟨catalog, hc, rfl⟩

theorem ofContents_eq_ok {path : String} {contents : Except String (Array UInt8)} {f : TableFile} :
    ofContents path contents = .ok f ↔
      contents = .ok f.data ∧ parse f.data = .ok (f.header, f.catalog) ∧ f.path = path := by
  cases contents with
  | error text => simp [ofContents]
  | ok data =>
    simp only [ofContents, Except.ok.injEq]
    rcases hp : parse data with fault | ⟨header, catalog⟩
    · simp only [reduceCtorEq, false_iff, not_and]
      rintro rfl hf
      rw [hp] at hf
      cases hf
    · simp only [Except.ok.injEq]
      constructor
      · rintro rfl
        exact ⟨rfl, hp, rfl⟩
      · rintro ⟨rfl, hf, rfl⟩
        rw [hp] at hf
        obtain ⟨rfl, rfl⟩ := Prod.mk.inj (Except.ok.inj hf)
        rfl

theorem validate_eq_ok_iff_of_decode {bytes : Bytes} (hd : Catalog.decode bytes = .ok catalog)
    (hl : bytes.length < UInt32.size) {region : DataRegion} :
    catalog.validate region = .ok () ↔ catalog.Laid region := by
  obtain ⟨-, rest, rfl⟩ := Catalog.encode_of_decode hd
  rw [List.length_append] at hl
  refine Catalog.validate_eq_ok_iff fun t ht k hk => ?_
  -- Less than `2 ^ 32` bytes hold too few blocks for the row count to wrap.
  have h1 := Catalog.size_blocks_le ht hk
  have h2 := catalog.mul_blocks_le_encode
  omega

theorem length_catalogBytes {bytes : Bytes} (h : catalogBytes data footer = .ok bytes) :
    bytes.length < UInt32.size := by
  obtain ⟨-, rfl⟩ := catalogBytes_eq_ok.1 h
  have hlt : footer.catalogLength.toNat < UInt32.size := footer.catalogLength.toNat_lt
  simp only [Array.length_toList, Array.size_extract]
  omega

theorem laid_of_parse {header : FileHeader} (h : parse data = .ok (header, catalog)) :
    ∃ stop : UInt64, stop.toNat ≤ data.size ∧
      catalog.Laid ⟨.ofNat FileHeader.size, stop⟩ := by
  obtain ⟨-, -, footer, -, hc⟩ := parse_eq_ok.1 h
  obtain ⟨bytes, hb, -, hd, hv⟩ := readCatalog_eq_ok.1 hc
  obtain ⟨⟨-, -, hstop⟩, -⟩ := catalogBytes_eq_ok.1 hb
  exact ⟨footer.catalogOffset, by omega,
    (validate_eq_ok_iff_of_decode hd (length_catalogBytes hb)).1 hv⟩

theorem readable_of_laid {c : ColumnRecord} {region : DataRegion} {rows : UInt64}
    (h : c.Laid region rows.toNat) (hstop : region.stop.toNat ≤ data.size) :
    c.Readable data rows.toNat where
  tiles := h.tiles
  rows_lt := rows.toNat_lt
  within b hb := by
    have hh := h.inside b hb
    simp only [DataRegion.holds, Bool.and_eq_true, decide_eq_true_eq] at hh
    have hlt : region.stop.toNat < addressSize := region.stop.toNat_lt
    exact ⟨by omega, by omega⟩

theorem table_eq_ok {f : TableFile} {name : String} {t : Table} :
    f.table name = .ok t ↔ f.catalog.table? name = some t.record ∧ t.data = f.data := by
  unfold table
  cases hr : f.catalog.table? name with
  | none => simp
  | some record =>
    constructor
    · intro h
      obtain rfl := Except.ok.inj h
      exact ⟨rfl, rfl⟩
    · rintro ⟨hrec, hdata⟩
      obtain rfl := Option.some.inj hrec
      cases t
      cases hdata
      rfl

end TableFile

namespace Table

theorem bindAny_eq_ok {t : Table} {name : String} {handle : Cursor} :
    t.bindAny name = .ok handle ↔
      ∃ column, t.record.column? name = some column ∧ handle = .new column := by
  unfold bindAny column
  cases t.record.column? name with
  | none => simp [Except.map]
  | some c => simp [Except.map, eq_comm]

theorem bind_eq_ok {t : Table} {name : String} {handle : Cursor} :
    t.bind name = .ok handle ↔
      ∃ column, t.record.column? name = some column ∧ column.type = .float64 ∧
        handle = .new column := by
  unfold bind column
  cases t.record.column? name with
  | none => simp
  | some c =>
    by_cases hf : c.type = .float64
    · simp [hf, eq_comm]
    · simp [hf]

end Table

namespace TableFile

theorem readable_of_mem {path : String} {contents : Except String (Array UInt8)} {f : TableFile}
    (ho : ofContents path contents = .ok f) {t : TableRecord} (ht : t ∈ f.catalog.tables)
    {column : ColumnRecord} (hc : column ∈ t.columns) :
    column.Readable f.data t.rowCount.toNat := by
  obtain ⟨-, hp, -⟩ := ofContents_eq_ok.1 ho
  obtain ⟨stop, hstop, hl⟩ := laid_of_parse hp
  exact readable_of_laid (hl.blocks t ht column hc) hstop

theorem readable {path : String} {contents : Except String (Array UInt8)} {f : TableFile}
    (ho : ofContents path contents = .ok f) {name : String} {t : Table}
    (ht : f.table name = .ok t) {columnName : String} {column : ColumnRecord}
    (hc : t.record.column? columnName = some column) : column.Readable t.data t.rowCount := by
  obtain ⟨hrec, hdata⟩ := table_eq_ok.1 ht
  rw [hdata]
  exact readable_of_mem ho (List.mem_of_find?_eq_some hrec) (List.mem_of_find?_eq_some hc)

end TableFile
end Columnar
