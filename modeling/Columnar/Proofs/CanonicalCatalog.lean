import Columnar.Proofs.CatalogCodec

/-! One byte string for each catalog. An input is decoded exactly if it starts with the encoding of
a catalog, so no encoding is the start of another one and none of its own strict starts is decoded.
Whatever else is refused, and the fault says for what: the input ends inside a number, a text is
longer than what is left, its bytes are no text, or a value type has an index that none has. The
faults of a part follow what the parts before it have written. -/

namespace Columnar
namespace Codec

variable {α β : Type} {bs rest : Bytes} {fault : DecodeFault}

theorem bind_eq_error {x : Reader α} {f : α → Reader β} :
    (x >>= f) bs = .error fault ↔
      x bs = .error fault ∨ ∃ a mid, x bs = .ok (a, mid) ∧ f a mid = .error fault := by
  rcases hx : x bs with e | ⟨a, mid⟩
  · simp [bind, StateT.bind, hx, Except.bind]
  · rw [bind_of_ok f hx]
    constructor
    · intro h
      exact Or.inr ⟨a, mid, rfl, h⟩
    · rintro (h | ⟨a', mid', h, hf⟩)
      · cases h
      · obtain ⟨rfl, rfl⟩ := Prod.mk.inj (Except.ok.inj h)
        exact hf

theorem pure_ne_error (a : α) : (pure a : Reader α) bs ≠ .error fault := by
  intro h
  cases h

theorem map_eq_error {x : Reader α} {f : α → β} :
    (f <$> x) bs = .error fault ↔ x bs = .error fault := by
  rw [show f <$> x = x >>= fun a => pure (f a) from rfl, bind_eq_error]
  simp [pure_ne_error]

theorem take_eq_error {n : Nat} {cut : DecodeFault} :
    take n cut bs = .error fault ↔ bs.length < n ∧ fault = cut := by
  rw [← Bytes.split?_eq_none_iff, take]
  cases Bytes.split? n bs <;> simp [eq_comm]

theorem readUInt32_eq_error : readUInt32 bs = .error fault ↔ bs.length < 4 ∧ fault = .cutShort := by
  rw [readUInt32, map_eq_error, take_eq_error]

theorem readUInt64_eq_error : readUInt64 bs = .error fault ↔ bs.length < 8 ∧ fault = .cutShort := by
  rw [readUInt64, map_eq_error, take_eq_error]

namespace Exact

variable {read : Reader α} {write : α → Bytes} {fits : α → Prop}

theorem eq_ok_iff (he : Exact read write fits) {a : α} :
    read bs = .ok (a, rest) ↔ fits a ∧ bs = write a ++ rest := by
  constructor
  · exact he.reads_only
  · rintro ⟨ha, rfl⟩
    exact he.reads ha rest

theorem bind_eq_error (he : Exact read write fits) {f : α → Reader β} :
    (read >>= f) bs = .error fault ↔
      read bs = .error fault ∨
        ∃ a rest, fits a ∧ bs = write a ++ rest ∧ f a rest = .error fault := by
  simp only [Codec.bind_eq_error, he.eq_ok_iff, and_assoc]

end Exact

inductive TextFault : Bytes → DecodeFault → Prop
  | noLength {bs : Bytes} (h : bs.length < 8) : TextFault bs .cutShort
  | pastEnd {bs : Bytes} (length : UInt64) (h : bs.length < length.toNat) :
    TextFault (Bytes.ofUInt64 length ++ bs) .textCutShort
  | noText {bs : Bytes} {fault : Utf8.Fault} (length : UInt64) (rest : Bytes)
    (hl : bs.length = length.toNat) (h : Utf8.decode bs = .error fault) :
    TextFault (Bytes.ofUInt64 length ++ (bs ++ rest)) (.invalidText fault)

inductive TypeFault : Bytes → DecodeFault → Prop
  | noIndex {bs : Bytes} (h : bs.length < 4) : TypeFault bs .cutShort
  | unknown (index : UInt32) (rest : Bytes) (h0 : index ≠ 0) (h1 : index ≠ 1) :
    TypeFault (Bytes.ofUInt32 index ++ rest) (.unknownType index)

inductive BlockFault : Bytes → DecodeFault → Prop
  | cut {bs : Bytes} (h : bs.length < 28) : BlockFault bs .cutShort

inductive ListFault (write : α → Bytes) (fits : α → Prop) (faulty : Bytes → DecodeFault → Prop) :
    Bytes → DecodeFault → Prop
  | noCount {bs : Bytes} (h : bs.length < 8) : ListFault write fits faulty bs .cutShort
  | item {bs : Bytes} {fault : DecodeFault} (count : UInt64) (items : List α)
    (hi : ∀ a ∈ items, fits a) (hn : items.length < count.toNat) (h : faulty bs fault) :
    ListFault write fits faulty (Bytes.ofUInt64 count ++ (items.flatMap write ++ bs)) fault

theorem readText_eq_error : readText bs = .error fault ↔ TextFault bs fault := by
  rw [readText, readUInt64_exact.bind_eq_error, readUInt64_eq_error]
  constructor
  · rintro (⟨h, rfl⟩ | ⟨length, mid, -, rfl, h⟩)
    · exact .noLength h
    · rcases bind_eq_error.1 h with ht | ⟨bytes, last, ht, hd⟩
      · obtain ⟨hl, rfl⟩ := take_eq_error.1 ht
        exact .pastEnd length hl
      · obtain ⟨rfl, hl⟩ := take_eq_ok.1 ht
        cases hu : Utf8.decode bytes with
        | ok s =>
          rw [hu] at hd
          exact absurd hd (pure_ne_error s)
        | error f =>
          rw [hu] at hd
          obtain rfl : DecodeFault.invalidText f = fault := Except.error.inj hd
          exact .noText length last hl hu
  · rintro (h | ⟨length, h⟩ | ⟨length, last, hl, h⟩)
    · exact Or.inl ⟨h, rfl⟩
    · refine Or.inr ⟨length, _, trivial, rfl, bind_eq_error.2 (Or.inl ?_)⟩
      exact take_eq_error.2 ⟨h, rfl⟩
    · refine Or.inr ⟨length, _, trivial, rfl, bind_eq_error.2 (Or.inr ?_)⟩
      refine ⟨_, last, take_eq_ok.2 ⟨rfl, hl⟩, ?_⟩
      rw [h]
      rfl

theorem readType_eq_error : readType bs = .error fault ↔ TypeFault bs fault := by
  rw [readType, readUInt32_exact.bind_eq_error, readUInt32_eq_error]
  constructor
  · rintro (⟨h, rfl⟩ | ⟨index, last, -, rfl, h⟩)
    · exact .noIndex h
    · split at h
      · exact absurd h (pure_ne_error _)
      · split at h
        · exact absurd h (pure_ne_error _)
        · rename_i h0 h1
          obtain rfl : DecodeFault.unknownType index = fault := Except.error.inj h
          exact .unknown index last h0 h1
  · rintro (h | ⟨index, last, h0, h1⟩)
    · exact Or.inl ⟨h, rfl⟩
    · refine Or.inr ⟨index, last, trivial, rfl, ?_⟩
      rw [if_neg h0, if_neg h1]
      rfl

theorem readBlock_eq_error : readBlock bs = .error fault ↔ BlockFault bs fault := by
  have hcut : ∀ {bs : Bytes} {fault : DecodeFault}, readBlock bs = .error fault →
      bs.length < 28 ∧ fault = .cutShort := by
    intro bs fault h
    simp only [readBlock, readUInt64_exact.bind_eq_error, readUInt32_exact.bind_eq_error,
      readUInt64_eq_error, readUInt32_eq_error] at h
    rcases h with ⟨hl, rfl⟩ | ⟨_, _, -, rfl, ⟨hl, rfl⟩ | ⟨_, _, -, rfl, ⟨hl, rfl⟩ |
      ⟨_, _, -, rfl, ⟨hl, rfl⟩ | ⟨_, _, -, rfl, ⟨hl, rfl⟩ | ⟨_, _, -, -, h⟩⟩⟩⟩⟩
    · exact ⟨by omega, rfl⟩
    · exact ⟨by simp; omega, rfl⟩
    · exact ⟨by simp; omega, rfl⟩
    · exact ⟨by simp; omega, rfl⟩
    · exact ⟨by simp; omega, rfl⟩
    · exact absurd h (pure_ne_error _)
  constructor
  · intro h
    obtain ⟨hl, rfl⟩ := hcut h
    exact .cut hl
  · rintro ⟨hl⟩
    rcases hr : readBlock bs with e | ⟨b, last⟩
    · rw [(hcut hr).2]
    · obtain ⟨-, rfl⟩ := readBlock_exact.reads_only hr
      rw [List.length_append, length_writeBlock] at hl
      omega

section List

variable {read : Reader α} {write : α → Bytes} {fits : α → Prop}
  {faulty : Bytes → DecodeFault → Prop}

theorem readItems_eq_error (he : Exact read write fits)
    (hf : ∀ {bs fault}, read bs = .error fault ↔ faulty bs fault) (acc : Array α) (n : Nat) :
    readItems read acc n bs = .error fault ↔
      ∃ (items : List α) (rest : Bytes), (∀ a ∈ items, fits a) ∧ items.length < n ∧
        bs = items.flatMap write ++ rest ∧ faulty rest fault := by
  induction n generalizing acc bs with
  | zero =>
    refine iff_of_false (pure_ne_error acc) ?_
    rintro ⟨items, rest, -, hn, -⟩
    exact Nat.not_lt_zero _ hn
  | succ n ih =>
    rw [readItems, he.bind_eq_error, hf]
    simp only [ih]
    constructor
    · rintro (h | ⟨a, mid, ha, rfl, items, last, hi, hn, rfl, h⟩)
      · exact ⟨[], bs, by simp, Nat.succ_pos n, rfl, h⟩
      · refine ⟨a :: items, last, List.forall_mem_cons.2 ⟨ha, hi⟩, ?_, by simp, h⟩
        rw [List.length_cons]
        exact Nat.succ_lt_succ hn
    · rintro ⟨items, last, hi, hn, rfl, h⟩
      cases items with
      | nil => exact Or.inl h
      | cons a items =>
        obtain ⟨ha, hi⟩ := List.forall_mem_cons.1 hi
        refine Or.inr ⟨a, items.flatMap write ++ last, ha, by simp, items, last, hi, ?_, rfl, h⟩
        exact Nat.lt_of_succ_lt_succ hn

theorem readList_eq_error (he : Exact read write fits)
    (hf : ∀ {bs fault}, read bs = .error fault ↔ faulty bs fault) :
    readList read bs = .error fault ↔ ListFault write fits faulty bs fault := by
  rw [readList, readUInt64_exact.bind_eq_error, readUInt64_eq_error]
  simp only [readItems_eq_error he hf]
  constructor
  · rintro (⟨h, rfl⟩ | ⟨count, mid, -, rfl, items, last, hi, hn, rfl, h⟩)
    · exact .noCount h
    · exact .item count items hi hn h
  · rintro (h | ⟨count, items, hi, hn, h⟩)
    · exact Or.inl ⟨h, rfl⟩
    · exact Or.inr ⟨count, _, trivial, rfl, items, _, hi, hn, rfl, h⟩

end List

inductive ColumnFault : Bytes → DecodeFault → Prop
  | name {bs : Bytes} {fault : DecodeFault} (h : TextFault bs fault) : ColumnFault bs fault
  | type {bs : Bytes} {fault : DecodeFault} (name : String)
    (hn : (Utf8.encode name).length < UInt64.size) (h : TypeFault bs fault) :
    ColumnFault (writeText name ++ bs) fault
  | blocks {bs : Bytes} {fault : DecodeFault} (name : String)
    (hn : (Utf8.encode name).length < UInt64.size) (type : ValueType)
    (h : ListFault writeBlock (fun _ => True) BlockFault bs fault) :
    ColumnFault (writeText name ++ (writeType type ++ bs)) fault

inductive TableFault : Bytes → DecodeFault → Prop
  | name {bs : Bytes} {fault : DecodeFault} (h : TextFault bs fault) : TableFault bs fault
  | rowCount {bs : Bytes} (name : String) (hn : (Utf8.encode name).length < UInt64.size)
    (h : bs.length < 8) : TableFault (writeText name ++ bs) .cutShort
  | columns {bs : Bytes} {fault : DecodeFault} (name : String)
    (hn : (Utf8.encode name).length < UInt64.size) (rowCount : UInt64)
    (h : ListFault writeColumn ColumnRecord.Fits ColumnFault bs fault) :
    TableFault (writeText name ++ (Bytes.ofUInt64 rowCount ++ bs)) fault

theorem readColumn_eq_error : readColumn bs = .error fault ↔ ColumnFault bs fault := by
  have hblocks : ∀ {bs fault}, readList readBlock bs = .error fault ↔
      ListFault writeBlock (fun _ => True) BlockFault bs fault :=
    readList_eq_error readBlock_exact readBlock_eq_error
  rw [readColumn, readText_exact.bind_eq_error, readText_eq_error]
  simp only [readType_exact.bind_eq_error, readType_eq_error, bind_eq_error, hblocks,
    pure_ne_error, and_false, exists_false, or_false]
  constructor
  · rintro (h | ⟨name, _, hn, rfl, h | ⟨type, _, -, rfl, h⟩⟩)
    · exact .name h
    · exact .type name hn h
    · exact .blocks name hn type h
  · rintro (h | ⟨name, hn, h⟩ | ⟨name, hn, type, h⟩)
    · exact Or.inl h
    · exact Or.inr ⟨name, _, hn, rfl, Or.inl h⟩
    · exact Or.inr ⟨name, _, hn, rfl, Or.inr ⟨type, _, trivial, rfl, h⟩⟩

theorem readTable_eq_error : readTable bs = .error fault ↔ TableFault bs fault := by
  have hcolumns : ∀ {bs fault}, readList readColumn bs = .error fault ↔
      ListFault writeColumn ColumnRecord.Fits ColumnFault bs fault :=
    readList_eq_error readColumn_exact readColumn_eq_error
  rw [readTable, readText_exact.bind_eq_error, readText_eq_error]
  simp only [readUInt64_exact.bind_eq_error, readUInt64_eq_error, bind_eq_error, hcolumns,
    pure_ne_error, and_false, exists_false, or_false]
  constructor
  · rintro (h | ⟨name, _, hn, rfl, ⟨h, rfl⟩ | ⟨rowCount, _, -, rfl, h⟩⟩)
    · exact .name h
    · exact .rowCount name hn h
    · exact .columns name hn rowCount h
  · rintro (h | ⟨name, hn, h⟩ | ⟨name, hn, rowCount, h⟩)
    · exact Or.inl h
    · exact Or.inr ⟨name, _, hn, rfl, Or.inl ⟨h, rfl⟩⟩
    · exact Or.inr ⟨name, _, hn, rfl, Or.inr ⟨rowCount, _, trivial, rfl, h⟩⟩

end Codec

namespace Catalog

variable {bs : Bytes} {fault : DecodeFault} {c d : Catalog}

abbrev Faulty : Bytes → DecodeFault → Prop :=
  Codec.ListFault Codec.writeTable TableRecord.Fits Codec.TableFault

theorem decode_eq_error_iff : decode bs = .error fault ↔ Faulty bs fault := by
  have hread : Codec.readCatalog bs = .error fault ↔ Faulty bs fault := by
    rw [Codec.readCatalog, Codec.bind_eq_error,
      Codec.readList_eq_error readTable_exact Codec.readTable_eq_error]
    simp only [Codec.pure_ne_error, and_false, exists_false, or_false]
  rw [← hread, decode]
  rcases Codec.readCatalog bs with e | ⟨c, rest⟩
  · simp only [Functor.map, Except.map, Except.error.injEq]
  · simp only [Functor.map, Except.map, reduceCtorEq]

theorem decode_eq_ok_iff : decode bs = .ok c ↔ c.Fits ∧ c.encode <+: bs := by
  constructor
  · intro h
    obtain ⟨hf, rest, rfl⟩ := encode_of_decode h
    exact ⟨hf, rest, rfl⟩
  · rintro ⟨hf, rest, rfl⟩
    exact decode_encode hf rest

theorem eq_of_prefix (hc : c.Fits) (hd : d.Fits) (h : d.encode <+: c.encode) : c = d := by
  have hself : decode c.encode = .ok c := decode_eq_ok_iff.2 ⟨hc, List.prefix_refl _⟩
  rw [decode_eq_ok_iff.2 ⟨hd, h⟩] at hself
  exact (Except.ok.inj hself).symm

theorem exists_error_of_ne_ok (h : ∀ c, decode bs ≠ .ok c) : ∃ fault, decode bs = .error fault := by
  cases hd : decode bs with
  | error fault => exact ⟨fault, rfl⟩
  | ok c => exact absurd hd (h c)

/-- The encoding of a catalog whose lengths fit their words is read back whatever follows, no other
input is decoded, and no encoding starts with another one or with an input that is decoded. -/
theorem encoding_canonical :
    (∀ c : Catalog, c.Fits → ∀ rest, decode (c.encode ++ rest) = .ok c) ∧
      (∀ (bs : Bytes) (c : Catalog), decode bs = .ok c → c.Fits ∧ c.encode <+: bs) ∧
      (∀ c d : Catalog, c.Fits → d.Fits → c.encode = d.encode → c = d) ∧
      (∀ c : Catalog, c.Fits → ∀ bs : Bytes, bs <+: c.encode → bs ≠ c.encode →
        ∃ fault, decode bs = .error fault) ∧
      (∀ bs : Bytes, (∀ c : Catalog, c.Fits → ¬c.encode <+: bs) →
        ∃ fault, decode bs = .error fault) ∧
      ∀ (bs : Bytes) (fault : DecodeFault), decode bs = .error fault ↔ Faulty bs fault := by
  refine ⟨?_, ?_, ?_, ?_, ?_, ?_⟩
  · intro c hc rest
    exact decode_encode hc rest
  · intro bs c h
    exact decode_eq_ok_iff.1 h
  · intro c d hc hd h
    exact eq_of_prefix hc hd (h ▸ List.prefix_refl _)
  · intro c hc bs hbs hne
    apply exists_error_of_ne_ok
    intro d hok
    obtain ⟨hd, hstart⟩ := decode_eq_ok_iff.1 hok
    obtain rfl := eq_of_prefix hc hd (hstart.trans hbs)
    exact hne (hbs.eq_of_length (Nat.le_antisymm hbs.length_le hstart.length_le))
  · intro bs h
    apply exists_error_of_ne_ok
    intro c hok
    obtain ⟨hc, hstart⟩ := decode_eq_ok_iff.1 hok
    exact h c hc hstart
  · intro bs fault
    exact decode_eq_error_iff

def extremes : Catalog :=
  ⟨[⟨"höhe", 0xFFFFFFFFFFFFFFFF, [⟨"", .float64, #[⟨0xFFFFFFFFFFFFFFFF, 0xFFFFFFFF,
    0xFFFFFFFFFFFFFFFF, 0xFFFFFFFF, 0xFFFFFFFF⟩]⟩]⟩]⟩

theorem extremes_canonical :
    decode (extremes.encode ++ [7]) = .ok extremes ∧
      (∃ fault, decode (extremes.encode.take 50) = .error fault) ∧
      decode (Bytes.ofUInt64 1 ++ ([] ++ (Codec.writeText "höhe" ++
        (Bytes.ofUInt64 0xFFFFFFFFFFFFFFFF ++ (Bytes.ofUInt64 1 ++ ([] ++ (Codec.writeText "" ++
          (Bytes.ofUInt32 3 ++ [])))))))) = .error (.unknownType 3) := by
  obtain ⟨hreads, -, -, hcut, -, hfaulty⟩ := encoding_canonical
  have hfits : extremes.Fits := fits_of_length (by decide +kernel)
  refine ⟨hreads extremes hfits [7], ?_, ?_⟩
  · apply hcut extremes hfits _ (List.take_prefix _ _)
    intro h
    have hlength := congrArg List.length h
    revert hlength
    decide +kernel
  · apply (hfaulty _ _).2
    apply Codec.ListFault.item 1 [] (by simp) (by decide)
    apply Codec.TableFault.columns "höhe" (by decide +kernel)
    apply Codec.ListFault.item 1 [] (by simp) (by decide)
    apply Codec.ColumnFault.type "" (by decide +kernel)
    exact .unknown 3 [] (by decide) (by decide)

end Catalog
end Columnar
