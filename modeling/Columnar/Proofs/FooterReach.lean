import Columnar.Proofs.CanonicalCatalog
import Columnar.Proofs.Calls
import Columnar.Proofs.Corruption

/-! What the footer of a finished file points to, as long as every write stores all its bytes. A call
may still be refused by its checks, or break off between two blocks because one is too long; the
writer's offset stays in step with its bytes all the same. The catalog's length goes into a word of
four bytes, though, and nothing looks at whether it fits: from `2 ^ 32` bytes on the footer stands
for a strict beginning of the catalog, which is no catalog, and the file is lost. -/

namespace Columnar
namespace TableWriter

variable {w w' : TableWriter}

theorem writeBlock_of_error {values : Values} {start stop : Nat} {e : StoreError}
    (h : w.writeBlock values start stop = (.error e, w')) : w' = w := by
  unfold writeBlock at h
  dsimp only at h
  split at h
  · exact (Prod.mk.inj h).2.symm
  · split at h
    · exact (Prod.mk.inj h).2.symm
    · cases (Prod.mk.inj h).1

namespace InStep

theorem writeBlocks (hw : w.InStep) (values : Values) (rowsPerBlock start : Nat)
    (blocks : Array BlockRecord) : (w.writeBlocks values rowsPerBlock start blocks).2.InStep := by
  fun_induction TableWriter.writeBlocks w values rowsPerBlock start blocks with
  | case1 w start blocks hlt stop e w₁ hb =>
    obtain rfl := writeBlock_of_error hb
    exact hw
  | case2 w start blocks hlt stop b w₁ hb ih => exact ih ((writeBlock_extends hb).inStep hw)
  | case3 => exact hw

theorem writeColumns (hw : w.InStep) (rowsPerBlock : Nat) (records : Array ColumnRecord)
    (columns : List (String × Values)) :
    (w.writeColumns rowsPerBlock records columns).2.InStep := by
  induction columns generalizing w records with
  | nil => exact hw
  | cons p columns ih =>
    have hfirst := hw.writeBlocks p.2 rowsPerBlock 0 #[]
    rw [TableWriter.writeColumns]
    rcases hb : w.writeBlocks p.2 rowsPerBlock 0 #[] with ⟨e | blocks, w₁⟩
    · rwa [hb] at hfirst
    · rw [hb] at hfirst
      exact ih hfirst _

theorem addTable (hw : w.InStep) (input : TableInput) :
    (w.addTable input.name input.columns input.rowsPerBlock).2.InStep := by
  unfold TableWriter.addTable
  split
  · exact hw
  · have hcolumns := hw.writeColumns input.rowsPerBlock #[] input.columns
    rcases hb : w.writeColumns input.rowsPerBlock #[] input.columns with ⟨e | records, w₁⟩
    · rwa [hb] at hcolumns
    · rw [hb] at hcolumns
      exact ⟨hcolumns.offset, hcolumns.header⟩

theorem callAll (hw : w.InStep) (inputs : List TableInput) : (w.callAll inputs).2.InStep := by
  induction inputs generalizing w with
  | nil => exact hw
  | cons input inputs ih => exact ih (hw.addTable input)

end InStep

theorem inStep_of_callAll {encoder : Lz4.Encoder} {inputs : List TableInput}
    {log : List (TableInput × Except StoreError Unit)}
    (h : (newWith encoder).callAll inputs = (log, w)) : w.InStep := by
  have hcalls := (newWith_holds encoder).inStep.callAll inputs
  rwa [h] at hcalls

/-- The footer stands for the place of the catalog, for all its bytes, and so for the catalog. -/
structure Locates (w : TableWriter) (footer : Footer) : Prop where
  place : footer.catalogOffset.toNat = w.written.size
  length : footer.catalogLength.toNat = w.catalog.encode.length
  bytes : (w.finish.2.extract footer.catalogOffset.toNat
    (footer.catalogOffset.toNat + footer.catalogLength.toNat)).toList = w.catalog.encode

/-- The footer that is read from the last bytes of the finished file locates the catalog. -/
def FooterDescribes (w : TableWriter) : Prop :=
  ∃ footer, Footer.decode? (w.finish.2.extract (w.finish.2.size - Footer.size)
    w.finish.2.size).toList = some footer ∧ w.Locates footer

theorem decode?_finish (w : TableWriter) :
    Footer.decode? (w.finish.2.extract (w.finish.2.size - Footer.size)
      w.finish.2.size).toList = some (w.footer w.catalog.encode) := by
  rw [finish_footer]
  exact Footer.decode?_encode _

theorem footerDescribes_iff_locates :
    w.FooterDescribes ↔ w.Locates (w.footer w.catalog.encode) := by
  rw [FooterDescribes, decode?_finish]
  constructor
  · rintro ⟨footer, hfooter, hloc⟩
    obtain rfl := Option.some.inj hfooter
    exact hloc
  · intro hloc
    exact ⟨_, rfl, hloc⟩

theorem extract_finish (w : TableWriter) {length : Nat} (h : length ≤ w.catalog.encode.length) :
    (w.finish.2.extract w.written.size (w.written.size + length)).toList =
      w.catalog.encode.take length := by
  rw [finish_bytes, Array.append_assoc, Array.toList_extract, Array.toList_append,
    List.extract_eq_take_drop, List.drop_left' Array.length_toList, Nat.add_sub_cancel_left,
    Array.toList_append, List.take_append_of_le_length h]

theorem InStep.footerDescribes_iff (hw : w.InStep) :
    w.FooterDescribes ↔
      w.written.size < UInt64.size ∧ w.catalog.encode.length < UInt32.size := by
  rw [footerDescribes_iff_locates]
  constructor
  · intro hloc
    rw [← hloc.place, ← hloc.length]
    exact ⟨UInt64.toNat_lt _, UInt32.toNat_lt _⟩
  · rintro ⟨hsize, hlen⟩
    have hplace : (w.footer w.catalog.encode).catalogOffset.toNat = w.written.size :=
      hw.offset_toNat hsize
    have hlength : (w.footer w.catalog.encode).catalogLength.toNat = w.catalog.encode.length :=
      UInt32.toNat_ofNat_of_lt' hlen
    refine ⟨hplace, hlength, ?_⟩
    rw [hplace, hlength, extract_finish w (Nat.le_refl _), List.take_length]

theorem InStep.parse_finish_of_long (hw : w.InStep) (hsize : w.finish.2.size < addressSize)
    (hlong : UInt32.size ≤ w.catalog.encode.length) (header : FileHeader) (c : Catalog) :
    TableFile.parse w.finish.2 ≠ .ok (header, c) := by
  have h64 : addressSize = UInt64.size := rfl
  rw [size_finish] at hsize
  intro hparse
  obtain ⟨-, -, footer, hfooter, hread⟩ := TableFile.parse_eq_ok.1 hparse
  rw [decode?_finish] at hfooter
  obtain rfl := Option.some.inj hfooter
  obtain ⟨bytes, hbytes, -, hdecode, -⟩ := TableFile.readCatalog_eq_ok.1 hread
  obtain ⟨-, rfl⟩ := TableFile.catalogBytes_eq_ok.1 hbytes
  have hplace : (w.footer w.catalog.encode).catalogOffset.toNat = w.written.size :=
    hw.offset_toNat (by omega)
  have hlt : (w.footer w.catalog.encode).catalogLength.toNat < UInt32.size := UInt32.toNat_lt _
  rw [hplace, extract_finish w (by omega)] at hdecode
  -- The two catalogs would have encodings that start alike, so they are one, and none is cut.
  obtain ⟨hc, hstart⟩ := Catalog.decode_eq_ok_iff.1 hdecode
  have hfits : w.catalog.Fits := Catalog.fits_of_length (by omega)
  have heq := Catalog.eq_of_prefix hfits hc (hstart.trans (List.take_prefix _ _))
  have hle := hstart.length_le
  rw [← heq, List.length_take] at hle
  omega

/-- After calls on a new writer whose writes do not fail, accepted, refused or broken off at a block,
the footer describes the catalog exactly if that is shorter than `2 ^ 32` bytes; a file with a longer
one is finished all the same and does not open. -/
theorem footer_describes_short_catalogs (encoder : Lz4.Encoder) (inputs : List TableInput)
    (log : List (TableInput × Except StoreError Unit)) (w : TableWriter)
    (h : (newWith encoder).callAll inputs = (log, w)) :
    (w.FooterDescribes ↔
      w.written.size < UInt64.size ∧ w.catalog.encode.length < UInt32.size) ∧
    (w.finish.2.size < addressSize → UInt32.size ≤ w.catalog.encode.length →
      ∀ path, ∃ fault, TableFile.ofContents path (.ok w.finish.2) =
        .error (TableFile.unavailable path fault)) := by
  have hw := inStep_of_callAll h
  refine ⟨hw.footerDescribes_iff, ?_⟩
  intro hsize hlong path
  rcases hparse : TableFile.parse w.finish.2 with fault | ⟨header, c⟩
  · exact ⟨fault, TableFile.ofContents_of_parse hparse path⟩
  · exact absurd hparse (hw.parse_finish_of_long hsize hlong header c)

def bareTable (letters : Nat) : TableInput :=
  ⟨String.ofList (List.replicate letters 'a'), [], 1⟩

theorem length_encode_bareTable (letters : Nat) :
    (Utf8.encode (bareTable letters).name).length = letters := by
  have hone : 'a'.utf8Size = 1 := by decide
  simp [bareTable, Utf8.encode, String.toByteArray_ofList, List.utf8Encode, hone]

theorem callAll_bareTable (encoder : Lz4.Encoder) (letters : Nat) :
    ∃ w, (newWith encoder).callAll [bareTable letters] = ([(bareTable letters, .ok ())], w) ∧
      w.written.size = FileHeader.size ∧ w.catalog.encode.length = letters + 32 := by
  refine ⟨{ newWith encoder with catalog := ⟨[⟨(bareTable letters).name, 0, []⟩]⟩ }, rfl,
    by simp [newWith], ?_⟩
  -- Around the name stand four words: the numbers of tables, letters, rows and columns.
  simp only [Catalog.encode, Codec.length_writeList, List.flatMap_cons, List.flatMap_nil,
    List.append_nil, Codec.writeTable, List.length_append, Codec.length_writeText,
    length_encode_bareTable, Bytes.length_ofUInt64, List.length_nil]
  omega

theorem bareTable_not_described : ∃ w,
    (newWith Lz4.literalRun).callAll [bareTable UInt32.size] =
      ([(bareTable UInt32.size, .ok ())], w) ∧
    w.catalog.encode.length = UInt32.size + 32 ∧
    (w.footer w.catalog.encode).catalogLength = 32 ∧ ¬w.FooterDescribes := by
  obtain ⟨w, hcall, -, hlen⟩ := callAll_bareTable Lz4.literalRun UInt32.size
  refine ⟨w, hcall, hlen, ?_, ?_⟩
  · simp only [footer, hlen]
    rfl
  · rw [(inStep_of_callAll hcall).footerDescribes_iff, hlen]
    omega

theorem mixedCalls_described_bareTable_lost :
    ((newWith Lz4.literalRun).callAll mixedCalls).2.FooterDescribes ∧
      ∃ w, (newWith Lz4.literalRun).callAll [bareTable UInt32.size] =
        ([(bareTable UInt32.size, .ok ())], w) ∧
      ∃ fault, TableFile.ofContents "long.cscn" (.ok w.finish.2) =
        .error (TableFile.unavailable "long.cscn" fault) := by
  refine ⟨?_, ?_⟩
  · obtain ⟨hdescribes, -⟩ := footer_describes_short_catalogs Lz4.literalRun mixedCalls _ _ rfl
    exact hdescribes.2 (by decide +kernel)
  · obtain ⟨w, hcall, hsize, hlen⟩ := callAll_bareTable Lz4.literalRun UInt32.size
    obtain ⟨-, hlost⟩ := footer_describes_short_catalogs Lz4.literalRun _ _ _ hcall
    refine ⟨w, hcall, hlost ?_ ?_ "long.cscn"⟩
    · rw [size_finish, hsize, hlen]
      decide
    · omega

end TableWriter
end Columnar
