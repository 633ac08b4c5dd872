import Columnar.Table.Catalog.Codec

/-! The catalog's bytes read back. A reader is exact for a writer if it reads what was written,
whatever follows, and reads nothing else. Words are exact, and exactness passes through texts, lists
and records, so a catalog whose lengths fit their words is decoded from its encoding, and whatever
decodes starts with the encoding of its catalog. A block takes 28 bytes, which bounds the number of
blocks by the length of the encoding. -/

namespace Columnar
namespace Codec

variable {α β : Type}

theorem bind_of_ok {x : Reader α} (f : α → Reader β) {a : α} {bs mid : Bytes}
    (h : x bs = .ok (a, mid)) : (x >>= f) bs = f a mid := by
  simp only [bind, StateT.bind, h, Except.bind]

theorem bind_eq_ok {x : Reader α} {f : α → Reader β} {bs rest : Bytes} {b : β} :
    (x >>= f) bs = .ok (b, rest) ↔ ∃ a mid, x bs = .ok (a, mid) ∧ f a mid = .ok (b, rest) := by
  constructor
  · intro h
    rcases hx : x bs with e | ⟨a, mid⟩
    · simp only [bind, StateT.bind, hx, Except.bind, reduceCtorEq] at h
    · rw [bind_of_ok f hx] at h
      exact ⟨a, mid, rfl, h⟩
  · rintro ⟨a, mid, hx, hf⟩
    rw [bind_of_ok f hx, hf]

theorem pure_eq_ok {a b : α} {bs rest : Bytes} :
    (pure a : Reader α) bs = .ok (b, rest) ↔ a = b ∧ bs = rest := by
  change Except.ok (a, bs) = Except.ok (b, rest) ↔ _
  rw [Except.ok.injEq, Prod.mk.injEq]

theorem map_eq_ok {x : Reader α} {f : α → β} {bs rest : Bytes} {b : β} :
    (f <$> x) bs = .ok (b, rest) ↔ ∃ a, x bs = .ok (a, rest) ∧ f a = b := by
  rw [show f <$> x = x >>= fun a => pure (f a) from rfl, bind_eq_ok]
  constructor
  · rintro ⟨a, mid, hx, hp⟩
    obtain ⟨hf, rfl⟩ := pure_eq_ok.1 hp
    exact ⟨a, hx, hf⟩
  · rintro ⟨a, hx, hf⟩
    exact ⟨a, rest, hx, pure_eq_ok.2 ⟨hf, rfl⟩⟩

theorem take_eq_ok {n : Nat} {fault : DecodeFault} {bs front rest : Bytes} :
    take n fault bs = .ok (front, rest) ↔ bs = front ++ rest ∧ front.length = n := by
  rw [← Bytes.split?_eq_some_iff, take]
  cases Bytes.split? n bs <;> simp

/-- Reads every value that `fits` from what is written for it, and nothing else. -/
structure Exact (read : Reader α) (write : α → Bytes) (fits : α → Prop) : Prop where
  reads : ∀ {a}, fits a → ∀ rest, read (write a ++ rest) = .ok (a, rest)
  reads_only : ∀ {bs a rest}, read bs = .ok (a, rest) → fits a ∧ bs = write a ++ rest

theorem readUInt32_exact : Exact readUInt32 Bytes.ofUInt32 fun _ => True where
  reads _ rest := map_eq_ok.2
    ⟨_, take_eq_ok.2 ⟨rfl, Bytes.length_ofUInt32 _⟩, Bytes.toUInt32_ofUInt32 _⟩
  reads_only h := by
    obtain ⟨front, ht, rfl⟩ := map_eq_ok.1 h
    obtain ⟨rfl, hl⟩ := take_eq_ok.1 ht
    exact ⟨trivial, by rw [Bytes.ofUInt32_toUInt32 hl]⟩

theorem readUInt64_exact : Exact readUInt64 Bytes.ofUInt64 fun _ => True where
  reads _ rest := map_eq_ok.2
    ⟨_, take_eq_ok.2 ⟨rfl, Bytes.length_ofUInt64 _⟩, Bytes.toUInt64_ofUInt64 _⟩
  reads_only h := by
    obtain ⟨front, ht, rfl⟩ := map_eq_ok.1 h
    obtain ⟨rfl, hl⟩ := take_eq_ok.1 ht
    exact ⟨trivial, by rw [Bytes.ofUInt64_toUInt64 hl]⟩

theorem toNat_ofNat_length {n : Nat} (h : n < UInt64.size) : (UInt64.ofNat n).toNat = n :=
  UInt64.toNat_ofNat_of_lt' h

theorem readText_exact :
    Exact readText writeText fun s => (Utf8.encode s).length < UInt64.size where
  reads {s} hs rest := by
    rw [readText, writeText, List.append_assoc, bind_of_ok _ (readUInt64_exact.reads trivial _),
      toNat_ofNat_length hs, bind_of_ok _ (take_eq_ok.2 ⟨rfl, rfl⟩)]
    have hd : Utf8.decode (Utf8.encode s) = .ok s := Utf8.decode_eq_ok_iff.2 rfl
    simp only [hd]
    rfl
  reads_only {bs s rest} h := by
    obtain ⟨length, mid, hl, h1⟩ := bind_eq_ok.1 h
    obtain ⟨bytes, mid', ht, h2⟩ := bind_eq_ok.1 h1
    obtain ⟨-, rfl⟩ := readUInt64_exact.reads_only hl
    obtain ⟨rfl, hb⟩ := take_eq_ok.1 ht
    cases hd : Utf8.decode bytes with
    | error fault =>
      rw [hd] at h2
      cases h2
    | ok t =>
      rw [hd] at h2
      obtain ⟨rfl, rfl⟩ := pure_eq_ok.1 h2
      obtain rfl := Utf8.decode_eq_ok_iff.1 hd
      have hlt : (Utf8.encode t).length < UInt64.size := hb ▸ length.toNat_lt
      refine ⟨hlt, ?_⟩
      have hw : UInt64.ofNat (Utf8.encode t).length = length := by rw [hb, UInt64.ofNat_toNat]
      rw [writeText, hw, List.append_assoc]

theorem readType_exact : Exact readType writeType fun _ => True where
  reads {t} _ rest := by
    cases t with
    | int64 =>
      exact bind_of_ok _ (readUInt32_exact.reads (a := 0) trivial rest)
    | float64 =>
      exact bind_of_ok _ (readUInt32_exact.reads (a := 1) trivial rest)
  reads_only {bs t rest} h := by
    obtain ⟨index, mid, hi, ht⟩ := bind_eq_ok.1 h
    obtain ⟨-, rfl⟩ := readUInt32_exact.reads_only hi
    split at ht
    · rename_i h0
      obtain ⟨rfl, rfl⟩ := pure_eq_ok.1 ht
      exact ⟨trivial, by rw [writeType, h0]⟩
    · split at ht
      · rename_i h1
        obtain ⟨rfl, rfl⟩ := pure_eq_ok.1 ht
        exact ⟨trivial, by rw [writeType, h1]⟩
      · cases ht

theorem readBlock_exact : Exact readBlock writeBlock fun _ => True where
  reads {b} _ rest := by
    simp only [writeBlock, List.append_assoc, readBlock]
    rw [bind_of_ok _ (readUInt64_exact.reads trivial _),
      bind_of_ok _ (readUInt32_exact.reads trivial _),
      bind_of_ok _ (readUInt64_exact.reads trivial _),
      bind_of_ok _ (readUInt32_exact.reads trivial _),
      bind_of_ok _ (readUInt32_exact.reads trivial _)]
    rfl
  reads_only {bs b rest} h := by
    obtain ⟨startRow, m1, hs, h1⟩ := bind_eq_ok.1 h
    obtain ⟨rows, m2, hr, h2⟩ := bind_eq_ok.1 h1
    obtain ⟨offset, m3, ho, h3⟩ := bind_eq_ok.1 h2
    obtain ⟨compressed, m4, hc, h4⟩ := bind_eq_ok.1 h3
    obtain ⟨uncompressed, m5, hu, h5⟩ := bind_eq_ok.1 h4
    obtain ⟨rfl, rfl⟩ := pure_eq_ok.1 h5
    obtain ⟨-, rfl⟩ := readUInt64_exact.reads_only hs
    obtain ⟨-, rfl⟩ := readUInt32_exact.reads_only hr
    obtain ⟨-, rfl⟩ := readUInt64_exact.reads_only ho
    obtain ⟨-, rfl⟩ := readUInt32_exact.reads_only hc
    obtain ⟨-, rfl⟩ := readUInt32_exact.reads_only hu
    exact ⟨trivial, by simp only [writeBlock, List.append_assoc]⟩

theorem readItems_reads {read : Reader α} {write : α → Bytes} {fits : α → Prop}
    (he : Exact read write fits) (acc : Array α) {items : List α} (hi : ∀ a ∈ items, fits a)
    (rest : Bytes) :
    readItems read acc items.length (items.flatMap write ++ rest) = .ok (acc ++ items, rest) := by
  induction items generalizing acc with
  | nil => exact pure_eq_ok.2 ⟨by simp, rfl⟩
  | cons a items ih =>
    obtain ⟨ha, ht⟩ := List.forall_mem_cons.1 hi
    rw [List.length_cons, readItems, List.flatMap_cons, List.append_assoc,
      bind_of_ok _ (he.reads ha _), ih _ ht]
    simp

theorem readItems_only {read : Reader α} {write : α → Bytes} {fits : α → Prop}
    (he : Exact read write fits) (acc : Array α) {n : Nat} {bs rest : Bytes} {out : Array α}
    (h : readItems read acc n bs = .ok (out, rest)) :
    ∃ items : List α, items.length = n ∧ out = acc ++ items ∧ (∀ a ∈ items, fits a) ∧
      bs = items.flatMap write ++ rest := by
  induction n generalizing acc bs with
  | zero =>
    obtain ⟨rfl, rfl⟩ := pure_eq_ok.1 h
    exact ⟨[], rfl, by simp, by simp, by simp⟩
  | succ n ih =>
    obtain ⟨a, mid, ha, ht⟩ := bind_eq_ok.1 h
    obtain ⟨hf, rfl⟩ := he.reads_only ha
    obtain ⟨items, hl, rfl, hi, rfl⟩ := ih _ ht
    refine ⟨a :: items, by rw [List.length_cons, hl], by simp, ?_, by simp⟩
    exact List.forall_mem_cons.2 ⟨hf, hi⟩

theorem readList_exact {read : Reader α} {write : α → Bytes} {fits : α → Prop}
    (he : Exact read write fits) :
    Exact (readList read) (fun items : Array α => writeList write items.toList) fun items =>
      items.size < UInt64.size ∧ ∀ a ∈ items.toList, fits a where
  reads {items} hf rest := by
    rw [readList, writeList, List.append_assoc, bind_of_ok _ (readUInt64_exact.reads trivial _),
      Array.length_toList, toNat_ofNat_length hf.1]
    have h := readItems_reads he #[] hf.2 rest
    rw [Array.length_toList] at h
    rw [h]
    simp
  reads_only {bs out rest} h := by
    obtain ⟨count, mid, hc, ht⟩ := bind_eq_ok.1 h
    obtain ⟨-, rfl⟩ := readUInt64_exact.reads_only hc
    obtain ⟨items, hl, rfl, hi, rfl⟩ := readItems_only he #[] ht
    have hlt : items.length < UInt64.size := hl ▸ count.toNat_lt
    have hw : UInt64.ofNat items.length = count := by rw [hl, UInt64.ofNat_toNat]
    refine ⟨⟨by simpa using hlt, by simpa using hi⟩, ?_⟩
    simp [writeList, hw]

end Codec

open Codec

def ColumnRecord.Fits (c : ColumnRecord) : Prop :=
  (Utf8.encode c.name).length < UInt64.size ∧ c.blocks.size < UInt64.size

def TableRecord.Fits (t : TableRecord) : Prop :=
  (Utf8.encode t.name).length < UInt64.size ∧ t.columns.length < UInt64.size ∧
    ∀ c ∈ t.columns, c.Fits

def Catalog.Fits (c : Catalog) : Prop :=
  c.tables.length < UInt64.size ∧ ∀ t ∈ c.tables, t.Fits

theorem readColumn_exact : Exact readColumn writeColumn ColumnRecord.Fits where
  reads {c} hf rest := by
    have hb := (readList_exact readBlock_exact).reads (a := c.blocks)
      ⟨hf.2, fun _ _ => trivial⟩ rest
    simp only [writeColumn, List.append_assoc, readColumn]
    rw [bind_of_ok _ (readText_exact.reads hf.1 _), bind_of_ok _ (readType_exact.reads trivial _),
      bind_of_ok _ hb]
    rfl
  reads_only {bs c rest} h := by
    obtain ⟨name, m1, hn, h1⟩ := bind_eq_ok.1 h
    obtain ⟨type, m2, ht, h2⟩ := bind_eq_ok.1 h1
    obtain ⟨blocks, m3, hb, h3⟩ := bind_eq_ok.1 h2
    obtain ⟨rfl, rfl⟩ := pure_eq_ok.1 h3
    obtain ⟨fn, rfl⟩ := readText_exact.reads_only hn
    obtain ⟨-, rfl⟩ := readType_exact.reads_only ht
    obtain ⟨fb, rfl⟩ := (readList_exact readBlock_exact).reads_only hb
    exact ⟨⟨fn, fb.1⟩, by simp only [writeColumn, List.append_assoc]⟩

theorem readTable_exact : Exact readTable writeTable TableRecord.Fits where
  reads {t} hf rest := by
    have hc := (readList_exact readColumn_exact).reads (a := t.columns.toArray)
      ⟨hf.2.1, fun c hc => hf.2.2 c hc⟩ rest
    simp only [writeTable, List.append_assoc, readTable]
    rw [bind_of_ok _ (readText_exact.reads hf.1 _),
      bind_of_ok _ (readUInt64_exact.reads trivial _), bind_of_ok _ hc]
    rfl
  reads_only {bs t rest} h := by
    obtain ⟨name, m1, hn, h1⟩ := bind_eq_ok.1 h
    obtain ⟨rowCount, m2, hr, h2⟩ := bind_eq_ok.1 h1
    obtain ⟨columns, m3, hc, h3⟩ := bind_eq_ok.1 h2
    obtain ⟨rfl, rfl⟩ := pure_eq_ok.1 h3
    obtain ⟨fn, rfl⟩ := readText_exact.reads_only hn
    obtain ⟨-, rfl⟩ := readUInt64_exact.reads_only hr
    obtain ⟨fc, rfl⟩ := (readList_exact readColumn_exact).reads_only hc
    exact ⟨⟨fn, by simpa using fc.1, fc.2⟩, by simp only [writeTable, List.append_assoc]⟩

theorem readCatalog_exact : Exact readCatalog Catalog.encode Catalog.Fits where
  reads {c} hf rest := by
    have ht := (readList_exact readTable_exact).reads (a := c.tables.toArray)
      ⟨hf.1, fun t ht => hf.2 t ht⟩ rest
    simp only [Catalog.encode, readCatalog]
    rw [bind_of_ok _ ht]
    rfl
  reads_only {bs c rest} h := by
    obtain ⟨tables, m1, ht, h1⟩ := bind_eq_ok.1 h
    obtain ⟨rfl, rfl⟩ := pure_eq_ok.1 h1
    obtain ⟨ft, rfl⟩ := (readList_exact readTable_exact).reads_only ht
    exact ⟨⟨by simpa using ft.1, ft.2⟩, rfl⟩

namespace Catalog

theorem decode_encode {c : Catalog} (h : c.Fits) (rest : Bytes) :
    decode (c.encode ++ rest) = .ok c := by
  rw [decode, readCatalog_exact.reads h]
  rfl

theorem encode_of_decode {bs : Bytes} {c : Catalog} (h : decode bs = .ok c) :
    c.Fits ∧ ∃ rest, bs = c.encode ++ rest := by
  rcases hr : readCatalog bs with e | ⟨k, rest⟩
  · rw [decode, hr] at h
    cases h
  · rw [decode, hr] at h
    obtain rfl : k = c := Except.ok.inj h
    obtain ⟨hf, he⟩ := readCatalog_exact.reads_only hr
    exact ⟨hf, rest, he⟩

def blocks (c : Catalog) : List BlockRecord :=
  c.tables.flatMap fun t => t.columns.flatMap fun k => k.blocks.toList

end Catalog

theorem length_le_flatMap {α β : Type} {f : α → List β} {a : α} {items : List α}
    (h : a ∈ items) : (f a).length ≤ (items.flatMap f).length := by
  obtain ⟨front, back, rfl⟩ := List.append_of_mem h
  simp only [List.flatMap_append, List.flatMap_cons, List.length_append]
  omega

theorem mul_length_flatMap_le {α β γ : Type} (m : Nat) {f : α → List β} {g : α → List γ}
    (items : List α) (h : ∀ a ∈ items, m * (f a).length ≤ (g a).length) :
    m * (items.flatMap f).length ≤ (items.flatMap g).length := by
  induction items with
  | nil => simp
  | cons a items ih =>
    obtain ⟨ha, hi⟩ := List.forall_mem_cons.1 h
    have hr := ih hi
    simp only [List.flatMap_cons, List.length_append, Nat.mul_add]
    omega

theorem mul_length_le_flatMap {α β : Type} {m : Nat} {g : α → List β} (items : List α)
    (h : ∀ a ∈ items, m ≤ (g a).length) : m * items.length ≤ (items.flatMap g).length := by
  have hs : items.flatMap (fun a => [a]) = items := by simp
  have hm := mul_length_flatMap_le m (f := fun a : α => [a]) (g := g) items
    fun a ha => by simpa using h a ha
  rwa [hs] at hm

namespace Codec

@[simp] theorem length_writeBlock (b : BlockRecord) : (writeBlock b).length = 28 := by
  simp [writeBlock]

@[simp] theorem length_writeText (s : String) :
    (writeText s).length = 8 + (Utf8.encode s).length := by
  simp [writeText]

@[simp] theorem length_writeType (t : ValueType) : (writeType t).length = 4 := by
  cases t <;> simp [writeType]

@[simp] theorem length_writeList {α : Type} (write : α → Bytes) (items : List α) :
    (writeList write items).length = 8 + (items.flatMap write).length := by
  simp [writeList]

theorem mul_blocks_le_writeColumn (c : ColumnRecord) :
    28 * c.blocks.size ≤ (writeColumn c).length := by
  have h := mul_length_le_flatMap (m := 28) (g := writeBlock) c.blocks.toList
    fun b _ => by simp
  simp only [writeColumn, List.length_append, length_writeText, length_writeType,
    length_writeList, Array.length_toList] at h ⊢
  omega

theorem mul_blocks_le_writeTable (t : TableRecord) :
    28 * (t.columns.flatMap fun c => c.blocks.toList).length ≤ (writeTable t).length := by
  have h := mul_length_flatMap_le 28 (f := fun c : ColumnRecord => c.blocks.toList)
    (g := writeColumn) t.columns fun c _ => by
      simpa using mul_blocks_le_writeColumn c
  simp only [writeTable, List.length_append, length_writeText, length_writeList]
  omega

end Codec

namespace Catalog

theorem mul_blocks_le_encode (c : Catalog) : 28 * c.blocks.length ≤ c.encode.length := by
  have h := mul_length_flatMap_le 28
    (f := fun t : TableRecord => t.columns.flatMap fun k => k.blocks.toList) (g := writeTable)
    c.tables fun t _ => mul_blocks_le_writeTable t
  simp only [encode, length_writeList, blocks]
  omega

theorem size_blocks_le {c : Catalog} {t : TableRecord} {k : ColumnRecord} (ht : t ∈ c.tables)
    (hk : k ∈ t.columns) : k.blocks.size ≤ c.blocks.length := by
  have h1 := length_le_flatMap (f := fun k : ColumnRecord => k.blocks.toList) hk
  have h2 := length_le_flatMap
    (f := fun t : TableRecord => t.columns.flatMap fun k => k.blocks.toList) ht
  rw [Array.length_toList] at h1
  exact Nat.le_trans h1 h2

theorem fits_of_length {c : Catalog} (h : c.encode.length < UInt64.size) : c.Fits := by
  have hc := mul_length_le_flatMap (m := 1) (g := writeTable) c.tables fun t _ => by
    simp only [writeTable, List.length_append, length_writeText]
    omega
  simp only [encode, length_writeList] at h
  refine ⟨by omega, fun t ht => ?_⟩
  have h1 := length_le_flatMap (f := writeTable) ht
  have hk := mul_length_le_flatMap (m := 1) (g := writeColumn) t.columns fun k _ => by
    simp only [writeColumn, List.length_append, length_writeText]
    omega
  simp only [writeTable, List.length_append, length_writeText, length_writeList] at h1
  refine ⟨by omega, by omega, fun k hmem => ?_⟩
  have h2 := length_le_flatMap (f := writeColumn) hmem
  have h3 := mul_blocks_le_writeColumn k
  have h4 : 8 + (Utf8.encode k.name).length ≤ (writeColumn k).length := by
    simp only [writeColumn, List.length_append, length_writeText]
    omega
  exact ⟨by omega, by omega⟩

end Catalog
end Columnar
