import Mathlib.Data.List.Forall2
import Columnar.Proofs.BlockCodec
import Columnar.Proofs.CompleteBlocks
import Columnar.Proofs.Opening
import Columnar.Table.Writer

/-! What a writer leaves behind. A block that was written decodes to its slice of the column, and
goes on doing so when bytes are appended. Offsets are the words of positions as long as the file is
shorter than `2 ^ 64` bytes, and a block adds less than `2 ^ 32` bytes, so a catalog of few blocks
says that no offset wrapped. From this a run of accepted tables stores all of its values. -/

namespace Columnar

namespace Values

theorem extract_getElem?_sub {α : Type} (xs : Array α) {start stop row : Nat} (hs : start ≤ row)
    (hr : row < stop) : (xs.extract start stop)[row - start]? = xs[row]? := by
  rw [Array.getElem?_extract, show start + (row - start) = row by omega]
  by_cases hx : row < xs.size
  · rw [if_pos (by omega)]
  · rw [if_neg (by omega), Array.getElem?_eq_none (Nat.not_lt.1 hx)]

theorem floatAt?_slice (v : Values) {start stop row : Nat} (hs : start ≤ row) (hr : row < stop) :
    (v.slice start stop).floatAt? (row - start) = v.floatAt? row := by
  cases v with
  | ints xs => rfl
  | floats xs => exact extract_getElem?_sub xs hs hr

theorem textAt?_slice (v : Values) {start stop row : Nat} (hs : start ≤ row) (hr : row < stop) :
    (v.slice start stop).textAt? (row - start) = v.textAt? row := by
  cases v <;> simp only [slice, textAt?, extract_getElem?_sub _ hs hr]

theorem textAt?_eq_none {v : Values} {row : Nat} (h : v.size ≤ row) : v.textAt? row = none := by
  cases v <;> rw [textAt?, Array.getElem?_eq_none h] <;> rfl

end Values

theorem decompress_compress (encoder : Lz4.Encoder) {bs : Bytes} (h : bs.length < UInt32.size) :
    decompress (encoder.compress bs) bs.length = .ok bs :=
  decompress_eq_ok_iff.2 (encoder.completes_compress h)

/-- The bytes of `b` lie behind the header and decode to `v` in every column of its type. -/
structure BlockRecord.Stores (b : BlockRecord) (data : Array UInt8) (v : Values) : Prop where
  start : FileHeader.size ≤ b.offset.toNat
  stop : b.offset.toNat + b.compressed.toNat ≤ data.size
  decodes : ∀ column : ColumnRecord, column.type = v.type →
    b.decode column (b.bytesIn data) = .ok v

theorem BlockRecord.bytesIn_append {b : BlockRecord} {data : Array UInt8}
    (h : b.offset.toNat + b.compressed.toNat ≤ data.size) (more : Array UInt8) :
    b.bytesIn (data ++ more) = b.bytesIn data := by
  simp only [bytesIn, Array.extract_append]
  have hnone : more.extract (b.offset.toNat - data.size)
      (b.offset.toNat + b.compressed.toNat - data.size) = #[] :=
    Array.extract_empty_of_stop_le_start (by omega)
  rw [hnone, Array.append_empty]

theorem BlockRecord.Within.contents_append {b : BlockRecord} {data : Array UInt8}
    (h : b.Within data) (more : Array UInt8) (column : ColumnRecord) :
    b.contents column (data ++ more) = b.contents column data := by
  have hmore : b.Within (data ++ more) :=
    ⟨h.1, by rw [Array.size_append]; exact Nat.le_add_right_of_le h.2⟩
  rw [contents_eq_decode h, contents_eq_decode hmore, bytesIn_append h.2]

theorem BlockRecord.Stores.append {b : BlockRecord} {data : Array UInt8} {v : Values}
    (h : b.Stores data v) (more : Array UInt8) : b.Stores (data ++ more) v where
  start := h.start
  stop := by
    rw [Array.size_append]
    exact Nat.le_add_right_of_le h.stop
  decodes := by
    rw [bytesIn_append h.stop]
    exact h.decodes

theorem append_bytes (xs : Array UInt8) (bs : Bytes) : xs ++ bs = xs ++ bs.toArray := by
  apply Array.ext'
  simp

namespace TableWriter

/-- The offset is the word of the number of bytes written, and these start with the header. -/
structure InStep (w : TableWriter) : Prop where
  offset : w.offset = .ofNat w.written.size
  header : ∃ more, w.written = FileHeader.ofTable.encode.toArray ++ more

structure Extends (w w' : TableWriter) (blocks : Nat) : Prop where
  encoder : w'.encoder = w.encoder
  written : ∃ more, w'.written = w.written ++ more
  size_le : w'.written.size ≤ w.written.size + UInt32.size * blocks
  inStep : w.InStep → w'.InStep

theorem Extends.refl (w : TableWriter) : w.Extends w 0 :=
  ⟨rfl, ⟨#[], by simp⟩, by simp, id⟩

theorem Extends.trans {w₁ w₂ w₃ : TableWriter} {m n : Nat} (h : w₁.Extends w₂ m)
    (k : w₂.Extends w₃ n) : w₁.Extends w₃ (m + n) where
  encoder := k.encoder.trans h.encoder
  written := by
    obtain ⟨xs, hx⟩ := h.written
    obtain ⟨ys, hy⟩ := k.written
    exact ⟨xs ++ ys, by rw [hy, hx, Array.append_assoc]⟩
  size_le := by
    have := h.size_le
    have := k.size_le
    rw [Nat.mul_add]
    omega
  inStep hw := k.inStep (h.inStep hw)

theorem Extends.size_mono {w w' : TableWriter} {n : Nat} (h : w.Extends w' n) :
    w.written.size ≤ w'.written.size := by
  obtain ⟨more, hm⟩ := h.written
  rw [hm, Array.size_append]
  exact Nat.le_add_right _ _

theorem Extends.stores {w w' : TableWriter} {n : Nat} (h : w.Extends w' n) {b : BlockRecord}
    {v : Values} (hb : b.Stores w.written v) : b.Stores w'.written v := by
  obtain ⟨more, hm⟩ := h.written
  rw [hm]
  exact hb.append more

theorem InStep.header_le {w : TableWriter} (h : w.InStep) : FileHeader.size ≤ w.written.size := by
  obtain ⟨more, hm⟩ := h.header
  rw [hm, Array.size_append, List.size_toArray, FileHeader.length_encode]
  exact Nat.le_add_right _ _

theorem InStep.offset_toNat {w : TableWriter} (h : w.InStep)
    (hsize : w.written.size < UInt64.size) : w.offset.toNat = w.written.size := by
  rw [h.offset]
  exact UInt64.toNat_ofNat_of_lt' hsize

theorem writeBlock_ok {w w' : TableWriter} {values : Values} {start stop : Nat} {b : BlockRecord}
    (h : w.writeBlock values start stop = (.ok b, w')) :
    ∃ raw, raw = (values.slice start stop).block ∧
      raw.length < UInt32.size ∧ (w.encoder.compress raw).length < UInt32.size ∧
      b = ⟨.ofNat start, .ofNat (stop - start), w.offset, .ofNat (w.encoder.compress raw).length,
        .ofNat raw.length⟩ ∧
      w' = ⟨w.encoder, w.written ++ (w.encoder.compress raw).toArray,
        w.offset + .ofNat (w.encoder.compress raw).length, w.catalog⟩ := by
  unfold writeBlock at h
  dsimp only at h
  split at h
  · cases (Prod.mk.inj h).1
  · split at h
    · cases (Prod.mk.inj h).1
    · obtain ⟨hb, hw⟩ := Prod.mk.inj h
      rw [append_bytes] at hw
      exact ⟨_, rfl, by omega, by omega, (Except.ok.inj hb).symm, hw.symm⟩

theorem writeBlock_extends {w w' : TableWriter} {values : Values} {start stop : Nat}
    {b : BlockRecord} (h : w.writeBlock values start stop = (.ok b, w')) : w.Extends w' 1 := by
  obtain ⟨raw, -, -, hlen, -, rfl⟩ := writeBlock_ok h
  refine ⟨rfl, ⟨_, rfl⟩, ?_, fun hw => ⟨?_, ?_⟩⟩
  · simp only [Array.size_append, List.size_toArray]
    omega
  · simp [hw.offset]
  · obtain ⟨more, hm⟩ := hw.header
    exact ⟨more ++ (w.encoder.compress raw).toArray, by rw [hm, Array.append_assoc]⟩

theorem writeBlock_stores {w w' : TableWriter} {values : Values} {start stop : Nat}
    {b : BlockRecord} (h : w.writeBlock values start stop = (.ok b, w')) (hw : w.InStep)
    (hrows : (values.slice start stop).size = stop - start)
    (hmax : stop - start ≤ BlockHeader.maxRows) (hsize : w'.written.size < UInt64.size) :
    b.Stores w'.written (values.slice start stop) := by
  have hext := writeBlock_extends h
  obtain ⟨raw, hraw, hrl, hcl, rfl, rfl⟩ := writeBlock_ok h
  have hoff : w.offset.toNat = w.written.size :=
    hw.offset_toNat (Nat.lt_of_le_of_lt hext.size_mono hsize)
  have hcomp : (UInt32.ofNat (w.encoder.compress raw).length).toNat =
      (w.encoder.compress raw).length := UInt32.toNat_ofNat_of_lt' hcl
  have hunc : (UInt32.ofNat raw.length).toNat = raw.length := UInt32.toNat_ofNat_of_lt' hrl
  refine ⟨?_, ?_, fun column hcol => ?_⟩
  · rw [hoff]
    exact hw.header_le
  · simp only [hoff, hcomp, Array.size_append, List.size_toArray, Nat.le_refl]
  · obtain ⟨view, hparse, htype, hcount, hvalues⟩ :=
      BlockView.parse_block (by rwa [hrows])
    have hbytes : ((w.written ++ (w.encoder.compress raw).toArray).extract w.written.size
        (w.written.size + (w.encoder.compress raw).length)).toList = w.encoder.compress raw := by
      simp
    simp only [BlockRecord.decode, BlockRecord.bytesIn, hoff, hcomp, hunc, hbytes,
      decompress_compress w.encoder hrl]
    rw [← hraw] at hparse
    simp only [hparse, htype, hcount, hcol, hrows, hvalues, ne_eq, not_true_eq_false, or_self,
      if_false]

theorem writeBlocks_ok {w w' : TableWriter} {values : Values} {rowsPerBlock start : Nat}
    {blocks all : Array BlockRecord} (hpos : 0 < rowsPerBlock)
    (hmax : rowsPerBlock ≤ BlockHeader.maxRows) (hstart : start ≤ values.size)
    (h : w.writeBlocks values rowsPerBlock start blocks = (.ok all, w')) :
    ∃ new, all.toList = blocks.toList ++ new ∧ w.Extends w' new.length ∧
      w'.catalog = w.catalog ∧ values.size ≤ start + UInt32.size * new.length ∧
      (w.InStep → w'.written.size < UInt64.size → values.size < UInt64.size →
        Tiles start new values.size ∧ ∀ b ∈ new, b.Stores w'.written
          (values.slice b.startRow.toNat (b.startRow.toNat + b.rows.toNat))) := by
  -- What is stored is claimed of the final bytes only: that they are few is not known before.
  fun_induction writeBlocks w values rowsPerBlock start blocks with
  | case1 w start blocks hlt stop e w₁ hb => cases (Prod.mk.inj h).1
  | case2 w start blocks hlt stop b w₁ hb ih =>
    have hstop : stop = min (start + rowsPerBlock) values.size := rfl
    obtain ⟨new, hall, hext, hcat, hrows, hstored⟩ := ih (by omega) h
    have hfirst := writeBlock_extends hb
    have hu : BlockHeader.maxRows < UInt32.size := by decide
    have hslice : (values.slice start stop).size = stop - start := by
      rw [Values.size_slice]
      omega
    have hrec : b.startRow = .ofNat start ∧ b.rows = .ofNat (stop - start) ∧
        w₁.catalog = w.catalog := by
      obtain ⟨raw, -, -, -, rfl, rfl⟩ := writeBlock_ok hb
      exact ⟨rfl, rfl, rfl⟩
    obtain ⟨hbs, hbr, hbc⟩ := hrec
    refine ⟨b :: new, ?_, ?_, hcat.trans hbc, ?_, fun hw hsize hvalues => ?_⟩
    · rw [hall, Array.toList_push, List.append_assoc, List.singleton_append]
    · rw [List.length_cons, Nat.add_comm]
      exact hfirst.trans hext
    · rw [List.length_cons, Nat.mul_add]
      omega
    · obtain ⟨htiles, hnew⟩ := hstored (hfirst.inStep hw) hsize hvalues
      have hs : b.startRow.toNat = start := by
        rw [hbs]
        exact UInt64.toNat_ofNat_of_lt' (by omega)
      have hr : b.rows.toNat = stop - start := by
        rw [hbr]
        exact UInt32.toNat_ofNat_of_lt' (by omega)
      have hend : start + (stop - start) = stop := by omega
      refine ⟨⟨hs, by omega, by rwa [hr, hend]⟩, ?_⟩
      intro k hk
      rcases List.mem_cons.1 hk with rfl | hk
      · rw [hs, hr, hend]
        exact hext.stores (writeBlock_stores hb hw hslice (by omega)
          (Nat.lt_of_le_of_lt hext.size_mono hsize))
      · exact hnew k hk
  | case3 w start blocks hge =>
    obtain ⟨hall, rfl⟩ := Prod.mk.inj h
    obtain rfl := Except.ok.inj hall
    have hend : start = values.size := by omega
    refine ⟨[], by simp, Extends.refl w, rfl, by omega, fun _ _ _ => ⟨hend, ?_⟩⟩
    intro b hb
    cases hb

end TableWriter

/-- The blocks of `c` tile the rows of `v` and store their slices of it. -/
structure ColumnRecord.Stores (c : ColumnRecord) (data : Array UInt8) (name : String)
    (v : Values) : Prop where
  name_eq : c.name = name
  type_eq : c.type = v.type
  tiles : Tiles 0 c.blocks.toList v.size
  blocks : ∀ b ∈ c.blocks.toList,
    b.Stores data (v.slice b.startRow.toNat (b.startRow.toNat + b.rows.toNat))

theorem ColumnRecord.Stores.append {c : ColumnRecord} {data : Array UInt8} {name : String}
    {v : Values} (h : c.Stores data name v) (more : Array UInt8) :
    c.Stores (data ++ more) name v :=
  ⟨h.name_eq, h.type_eq, h.tiles, fun b hb => (h.blocks b hb).append more⟩

namespace TableWriter

theorem checkColumns_eq_ok {table : String} {rows : Nat} {seen : List String}
    {columns : List (String × Values)} :
    checkColumns table rows seen columns = .ok () ↔
      (∀ p ∈ columns, p.1 ∉ seen) ∧ (columns.map Prod.fst).Nodup ∧
        ∀ p ∈ columns, p.2.size = rows := by
  induction columns generalizing seen with
  | nil => simp [checkColumns]
  | cons p columns ih =>
    obtain ⟨name, values⟩ := p
    simp only [checkColumns]
    split
    · rename_i hn
      simp [hn]
    · split
      · rename_i hs
        simp [hs]
      · rename_i hn hs
        simp only [ih, List.mem_cons, not_or, List.map_cons, List.nodup_cons, List.mem_map]
        grind

def blockCount (records : List ColumnRecord) : Nat :=
  (records.flatMap fun c => c.blocks.toList).length

theorem writeColumns_ok {w w' : TableWriter} {rowsPerBlock : Nat} {records all : Array ColumnRecord}
    {columns : List (String × Values)} (hpos : 0 < rowsPerBlock)
    (hmax : rowsPerBlock ≤ BlockHeader.maxRows)
    (h : w.writeColumns rowsPerBlock records columns = (.ok all, w')) :
    ∃ new, all.toList = records.toList ++ new ∧ w.Extends w' (blockCount new) ∧
      w'.catalog = w.catalog ∧ (∀ p ∈ columns, p.2.size ≤ UInt32.size * blockCount new) ∧
      (w.InStep → w'.written.size < UInt64.size → (∀ p ∈ columns, p.2.size < UInt64.size) →
        List.Forall₂ (fun c p => c.Stores w'.written p.1 p.2) new columns) := by
  induction columns generalizing w records with
  | nil =>
    obtain ⟨hall, rfl⟩ := Prod.mk.inj h
    obtain rfl := Except.ok.inj hall
    exact ⟨[], by simp, Extends.refl w, rfl, by simp, fun _ _ _ => List.Forall₂.nil⟩
  | cons p columns ih =>
    obtain ⟨name, values⟩ := p
    rw [writeColumns] at h
    split at h
    · cases (Prod.mk.inj h).1
    · rename_i blocks w₁ hb
      obtain ⟨new, hnew, hext, hcat, hrows, hstored⟩ :=
        writeBlocks_ok hpos hmax (Nat.zero_le _) hb
      obtain ⟨cs, hcs, hext', hcat', hrows', hstored'⟩ := ih h
      have hblocks : blocks.toList = new := by simpa using hnew
      have hcount : blockCount (⟨name, values.type, blocks⟩ :: cs) =
          new.length + blockCount cs := by
        simp only [blockCount, List.flatMap_cons, List.length_append, hblocks]
      refine ⟨⟨name, values.type, blocks⟩ :: cs, ?_, ?_, hcat'.trans hcat, ?_, ?_⟩
      · rw [hcs, Array.toList_push, List.append_assoc, List.singleton_append]
      · rw [hcount]
        exact hext.trans hext'
      · rw [hcount, Nat.mul_add]
        intro q hq
        rcases List.mem_cons.1 hq with rfl | hq
        · dsimp only
          omega
        · have := hrows' q hq
          omega
      · intro hw hsize hvalues
        obtain ⟨hv, hvs⟩ := List.forall_mem_cons.1 hvalues
        obtain ⟨htiles, hbs⟩ := hstored hw (Nat.lt_of_le_of_lt hext'.size_mono hsize) hv
        refine List.Forall₂.cons ⟨rfl, rfl, by rwa [hblocks], ?_⟩
          (hstored' (hext.inStep hw) hsize hvs)
        intro b hb
        exact hext'.stores (hbs b (hblocks ▸ hb))

end TableWriter

structure TableInput where
  name : String
  columns : List (String × Values)
  rowsPerBlock : Nat

namespace TableInput

structure Regular (input : TableInput) : Prop where
  nodup : (input.columns.map Prod.fst).Nodup
  size_eq : ∀ p ∈ input.columns, p.2.size = TableWriter.rowsOf input.columns

end TableInput

structure TableRecord.Stores (t : TableRecord) (data : Array UInt8) (input : TableInput) :
    Prop where
  name_eq : t.name = input.name
  rows_eq : t.rowCount = .ofNat (TableWriter.rowsOf input.columns)
  columns : List.Forall₂ (fun c p => c.Stores data p.1 p.2) t.columns input.columns

theorem TableRecord.Stores.append {t : TableRecord} {data : Array UInt8} {input : TableInput}
    (h : t.Stores data input) (more : Array UInt8) : t.Stores (data ++ more) input :=
  ⟨h.name_eq, h.rows_eq, h.columns.imp fun _ _ hc => hc.append more⟩

namespace TableWriter

theorem addTable_ok {w w' : TableWriter} {input : TableInput}
    (h : w.addTable input.name input.columns input.rowsPerBlock = (.ok (), w')) :
    input.Regular ∧ w.catalog.table? input.name = none ∧
      ∃ record, record.name = input.name ∧ w'.catalog = ⟨w.catalog.tables ++ [record]⟩ ∧
        w.Extends w' (blockCount record.columns) ∧
        (∀ p ∈ input.columns, p.2.size ≤ UInt32.size * blockCount record.columns) ∧
        (w.InStep → w'.written.size < UInt64.size →
          (∀ p ∈ input.columns, p.2.size < UInt64.size) → record.Stores w'.written input) := by
  unfold addTable at h
  split at h
  · cases (Prod.mk.inj h).1
  · rename_i hcheck
    unfold check at hcheck
    split at hcheck
    · cases hcheck
    · rename_i hblock
      split at hcheck
      · cases hcheck
      · rename_i hnew
        split at h
        · cases (Prod.mk.inj h).1
        · rename_i records w₁ hw
          obtain ⟨-, rfl⟩ := Prod.mk.inj h
          obtain ⟨-, hnodup, hsizes⟩ := checkColumns_eq_ok.1 hcheck
          obtain ⟨new, hall, hext, hcat, hrows, hstored⟩ :=
            writeColumns_ok (by omega) (by omega) hw
          obtain rfl : records.toList = new := by simpa using hall
          refine ⟨⟨hnodup, hsizes⟩, by simpa using hnew,
            ⟨input.name, .ofNat (rowsOf input.columns), records.toList⟩, rfl, ?_, ?_, hrows, ?_⟩
          · rw [hcat]
          · exact ⟨hext.encoder, hext.written, hext.size_le, fun hi =>
              ⟨(hext.inStep hi).offset, (hext.inStep hi).header⟩⟩
          · intro hi hsize hvalues
            exact ⟨rfl, rfl, hstored hi hsize hvalues⟩

def addTables (w : TableWriter) : List TableInput → Except StoreError TableWriter
  | [] => .ok w
  | input :: inputs =>
    match w.addTable input.name input.columns input.rowsPerBlock with
    | (.error e, _) => .error e
    | (.ok (), w) => addTables w inputs

/-- The state of a writer after the accepted calls `inputs`. -/
structure Holds (w : TableWriter) (inputs : List TableInput) : Prop where
  inStep : w.InStep
  size_le : w.written.size ≤ FileHeader.size + UInt32.size * w.catalog.blocks.length
  names : w.catalog.tables.map TableRecord.name = inputs.map TableInput.name
  nodup : (inputs.map TableInput.name).Nodup
  regular : ∀ input ∈ inputs, input.Regular
  rows_le : ∀ input ∈ inputs, ∀ p ∈ input.columns,
    p.2.size ≤ UInt32.size * w.catalog.blocks.length
  tables : w.written.size < UInt64.size →
    (∀ input ∈ inputs, ∀ p ∈ input.columns, p.2.size < UInt64.size) →
    List.Forall₂ (fun t input => t.Stores w.written input) w.catalog.tables inputs

theorem newWith_holds (encoder : Lz4.Encoder) : (newWith encoder).Holds [] where
  inStep := ⟨by simp [newWith], #[], by simp [newWith]⟩
  size_le := by simp [newWith]
  names := rfl
  nodup := List.nodup_nil
  regular := by simp
  rows_le := by simp
  tables _ _ := List.Forall₂.nil

theorem addTable_holds {w w' : TableWriter} {done : List TableInput} {input : TableInput}
    (hw : w.Holds done)
    (h : w.addTable input.name input.columns input.rowsPerBlock = (.ok (), w')) :
    w'.Holds (done ++ [input]) := by
  obtain ⟨hreg, hnew, record, hname, hcat, hext, hrows, hstored⟩ := addTable_ok h
  have hcount : w'.catalog.blocks.length =
      w.catalog.blocks.length + blockCount record.columns := by
    simp [hcat, Catalog.blocks, blockCount]
  refine ⟨hext.inStep hw.inStep, ?_, ?_, ?_, ?_, ?_, ?_⟩
  · have := hw.size_le
    have := hext.size_le
    rw [hcount, Nat.mul_add]
    omega
  · rw [hcat, List.map_append, List.map_append, hw.names, List.map_singleton, hname,
      List.map_singleton]
  · rw [List.map_append, List.nodup_append]
    refine ⟨hw.nodup, by simp, ?_⟩
    intro n hn m hm hnm
    obtain rfl : m = input.name := by simpa using hm
    rw [← hw.names] at hn
    obtain ⟨t, ht, rfl⟩ := List.mem_map.1 hn
    have hne := List.find?_eq_none.1 hnew t ht
    simp [hnm] at hne
  · intro i hi
    rcases List.mem_append.1 hi with hi | hi
    · exact hw.regular i hi
    · obtain rfl := List.mem_singleton.1 hi
      exact hreg
  · rw [hcount, Nat.mul_add]
    intro i hi p hp
    rcases List.mem_append.1 hi with hi | hi
    · have := hw.rows_le i hi p hp
      omega
    · obtain rfl := List.mem_singleton.1 hi
      have := hrows p hp
      omega
  · intro hsize hvalues
    obtain ⟨hv, hvs⟩ := List.forall_mem_append.1 hvalues
    obtain ⟨more, hm⟩ := hext.written
    rw [hcat]
    have hold := hw.tables (Nat.lt_of_le_of_lt hext.size_mono hsize) hv
    have hlast := hstored hw.inStep hsize (hvs input (List.mem_singleton.2 rfl))
    refine List.rel_append (hold.imp fun t i ht => ?_) (List.Forall₂.cons hlast .nil)
    rw [hm]
    exact ht.append more

theorem addTables_holds {w w' : TableWriter} {done inputs : List TableInput} (hw : w.Holds done)
    (h : w.addTables inputs = .ok w') : w'.Holds (done ++ inputs) := by
  induction inputs generalizing w done with
  | nil =>
    obtain rfl := Except.ok.inj h
    rwa [List.append_nil]
  | cons input inputs ih =>
    rw [addTables] at h
    split at h
    · cases h
    · rename_i w₁ hadd
      have := ih (addTable_holds hw hadd) h
      rwa [List.append_assoc] at this

theorem holds_of_addTables {encoder : Lz4.Encoder} {w : TableWriter} {inputs : List TableInput}
    (h : (newWith encoder).addTables inputs = .ok w) : w.Holds inputs := by
  have := addTables_holds (newWith_holds encoder) h
  rwa [List.nil_append] at this

end TableWriter
end Columnar
