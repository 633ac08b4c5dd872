import Mathlib.Algebra.Order.Floor.Div
import Columnar.Proofs.Calls

/-! The layout of a file that is being written. After any accepted calls the blocks of all columns
of all tables, in the order of the catalog, fill the file from the end of the header to where the
writer stands; a column has as many blocks as its rows need, and the catalog is one that the reader
accepts. The check of the reader adds rows as words, and so did the writer, so a column may have
any number of rows; only the bytes of the file must be fewer than there are addresses. -/

namespace Columnar

namespace Cut

variable {step rows start : Nat} {bs : List BlockRecord}

theorem sum_rows (h : Cut step rows start bs) :
    start + (bs.map fun b => b.rows.toNat).sum = rows := by
  induction bs generalizing start with
  | nil => exact h
  | cons b bs ih =>
    rw [List.map_cons, List.sum_cons, ← Nat.add_assoc]
    exact ih h.2.2.2

theorem full (h : Cut step rows start bs) : ∀ b ∈ bs.dropLast, b.rows.toNat = step := by
  induction bs generalizing start with
  | nil =>
    intro b hb
    cases hb
  | cons b bs ih =>
    cases bs with
    | nil =>
      intro c hc
      cases hc
    | cons c bs =>
      have hmin := h.2.2.1
      have hnext := h.2.2.2.1
      rw [List.dropLast_cons_of_ne_nil (List.cons_ne_nil c bs)]
      exact List.forall_mem_cons.2 ⟨by omega, ih h.2.2.2⟩

theorem length_eq (h : Cut step rows start bs) (hpos : 0 < step) :
    bs.length = (rows - start) ⌈/⌉ step := by
  induction bs generalizing start with
  | nil =>
    obtain rfl : start = rows := h
    rw [Nat.sub_self, zero_ceilDiv]
    rfl
  | cons b bs ih =>
    have hlt := h.1
    have hmin := h.2.2.1
    have hrest := ih h.2.2.2
    rw [Nat.ceilDiv_eq_add_pred_div] at hrest ⊢
    rw [List.length_cons, hrest]
    by_cases hlast : rows - start ≤ step
    · rw [show rows - (start + b.rows.toNat) + step - 1 = step - 1 by omega,
        Nat.div_eq_of_lt (by omega),
        show rows - start + step - 1 = rows - start - 1 + step by omega,
        Nat.add_div_right _ hpos, Nat.div_eq_of_lt (by omega)]
    · rw [show rows - start + step - 1 = rows - (start + b.rows.toNat) + step - 1 + step by omega,
        Nat.add_div_right _ hpos]

theorem checkBlocks_eq {region : DataRegion} (h : Cut step rows start bs) (hpos : 0 < step)
    (hin : ∀ b ∈ bs, region.holds b = true) (table column : String) :
    Layout.checkBlocks region table column (.ofNat start) bs = .ok (.ofNat rows) := by
  induction bs generalizing start with
  | nil =>
    obtain rfl : start = rows := h
    rfl
  | cons b bs ih =>
    have hlt := h.1
    have hmin := h.2.2.1
    have hrows : b.rows ≠ 0 := by
      intro h0
      rw [h0, UInt32.toNat_zero] at hmin
      omega
    have hholds : region.holds b = true := hin b List.mem_cons_self
    have hend : b.endRow = .ofNat (start + b.rows.toNat) := by
      rw [BlockRecord.endRow, h.2.1, UInt64.ofNat_add, UInt64.ofNat_uInt32ToNat]
    rw [Layout.checkBlocks, if_neg (not_not.2 h.2.1), if_neg hrows, hholds, hend]
    exact ih h.2.2.2 fun c hc => hin c (List.mem_cons_of_mem _ hc)

end Cut

/-- The blocks of the column `name` hold `rows` rows, `step` rows to a block. -/
structure ColumnRecord.InBlocks (c : ColumnRecord) (name : String) (rows step : Nat) : Prop where
  name_eq : c.name = name
  count : c.blocks.size = rows ⌈/⌉ step
  full : ∀ b ∈ c.blocks.toList.dropLast, b.rows.toNat = step
  total : (c.blocks.toList.map fun b => b.rows.toNat).sum = rows

theorem ColumnRecord.CutFrom.inBlocks {c : ColumnRecord} {name : String} {values : Values}
    {step : Nat} (h : c.CutFrom name values step) (hpos : 0 < step) :
    c.InBlocks name values.size step where
  name_eq := h.name_eq
  count := h.cut.length_eq hpos
  full := h.cut.full
  total := by
    have hsum := h.cut.sum_rows
    rwa [Nat.zero_add] at hsum

def TableRecord.InBlocks (t : TableRecord) (input : TableInput) : Prop :=
  t.name = input.name ∧
    List.Forall₂ (fun c p => c.InBlocks p.1 p.2.size input.rowsPerBlock) t.columns input.columns

theorem TableRecord.CutFrom.inBlocks {t : TableRecord} {input : TableInput}
    (h : t.CutFrom input) : t.InBlocks input :=
  ⟨h.name_eq, h.columns.imp fun _ _ hc => hc.inBlocks h.step_pos⟩

namespace TableWriter

variable {w w' : TableWriter}

theorem addTable_adds {input : TableInput}
    (h : w.addTable input.name input.columns input.rowsPerBlock = (.ok (), w')) :
    ∃ record, record.CutFrom input ∧ w'.catalog = ⟨w.catalog.tables ++ [record]⟩ ∧
      w.Adds w' record.blocks := by
  rcases w.addTable_cases input with ⟨e, -, herr⟩ | ⟨-, ⟨length, herr⟩ | ⟨w₁, record, hok, hnew⟩⟩
  · rw [h] at herr
    cases herr
  · rw [h] at herr
    cases herr
  · rw [h] at hok
    obtain ⟨-, rfl⟩ := Prod.mk.inj hok
    exact ⟨record, hnew⟩

theorem addTables_adds {inputs : List TableInput} (h : w.addTables inputs = .ok w') :
    ∃ new, List.Forall₂ TableRecord.CutFrom new inputs ∧
      w'.catalog.tables = w.catalog.tables ++ new ∧ w.Adds w' (new.flatMap TableRecord.blocks) := by
  induction inputs generalizing w with
  | nil =>
    obtain rfl := Except.ok.inj h
    exact ⟨[], .nil, (List.append_nil _).symm, .refl w⟩
  | cons input inputs ih =>
    rw [addTables] at h
    split at h
    · cases h
    · rename_i w₁ hadd
      obtain ⟨record, hcut, hcat, hadds⟩ := addTable_adds hadd
      obtain ⟨new, hcuts, htables, hrest⟩ := ih h
      refine ⟨record :: new, .cons hcut hcuts, ?_, ?_⟩
      · rw [htables, hcat, List.append_assoc, List.singleton_append]
      · rw [List.flatMap_cons]
        exact hadds.trans hrest

/-- What a file looks like after the calls `inputs`, all of them accepted. -/
structure LaidOut (w : TableWriter) (inputs : List TableInput) : Prop where
  valid : w.catalog.validate ⟨.ofNat FileHeader.size, w.offset⟩ = .ok ()
  offset_eq : w.offset.toNat = w.written.size
  places : BackToBack FileHeader.size w.catalog.blocks w.written.size
  tables : List.Forall₂ TableRecord.InBlocks w.catalog.tables inputs
  announced : ∀ b ∈ w.catalog.blocks, b.Announced w.written

theorem validate_of_cutFrom {inputs : List TableInput} {region : DataRegion}
    (hw : w.Holds inputs) (hcut : List.Forall₂ TableRecord.CutFrom w.catalog.tables inputs)
    (hin : ∀ b ∈ w.catalog.blocks, region.holds b = true) : w.catalog.validate region = .ok () := by
  apply Layout.checkTables_eq_ok_iff.2
  refine ⟨⟨?_, fun t _ => List.not_mem_nil⟩, ?_⟩
  · rw [hw.names]
    exact hw.nodup
  · intro t ht
    obtain ⟨input, hi, hti⟩ := forall₂_exists_right hcut ht
    apply Layout.checkColumns_eq_ok_iff.2
    refine ⟨⟨?_, fun c _ => List.not_mem_nil⟩, ?_⟩
    · rw [forall₂_map_eq (fun _ _ hc => hc.name_eq) hti.columns]
      exact (hw.regular input hi).nodup
    · intro c hc
      obtain ⟨p, hp, hcp⟩ := forall₂_exists_right hti.columns hc
      rw [hti.rows_eq, ← (hw.regular input hi).size_eq p hp]
      apply hcp.cut.checkBlocks_eq hti.step_pos
      intro b hb
      exact hin b (List.mem_flatMap.2 ⟨t, ht, List.mem_flatMap.2 ⟨c, hc, hb⟩⟩)

theorem laidOut_of_addTables {encoder : Lz4.Encoder} {inputs : List TableInput}
    (h : (newWith encoder).addTables inputs = .ok w) (hsize : w.written.size < addressSize) :
    w.LaidOut inputs := by
  have hw := holds_of_addTables h
  have hoff : w.offset.toNat = w.written.size := hw.inStep.offset_toNat hsize
  obtain ⟨new, hcut, htables, hadds⟩ := addTables_adds h
  obtain rfl : w.catalog.tables = new := htables
  have hplaced := hadds.placed (newWith_holds encoder).inStep hsize
  have hstart : (newWith encoder).written.size = FileHeader.size := by simp [newWith]
  have hplaces : BackToBack FileHeader.size w.catalog.blocks w.written.size := by
    rw [← hstart]
    exact hplaced.places
  refine ⟨?_, hoff, hplaces, hcut.imp fun _ _ ht => ht.inBlocks, hplaced.announced⟩
  apply validate_of_cutFrom hw hcut
  intro b hb
  have hbounds := hplaces.bounds hb
  simp only [DataRegion.holds, Bool.and_eq_true, decide_eq_true_eq, hoff, UInt64.le_iff_toNat_le]
  exact hbounds

theorem addTable_ne_invalidBlockSize {input : TableInput}
    (hcheck : w.check input.name input.columns input.rowsPerBlock = .ok ()) (rows : Nat) :
    (w.addTable input.name input.columns input.rowsPerBlock).1 ≠
      .error (.invalidBlockSize rows) := by
  intro he
  have hbroken := interrupts_of_addTable hcheck he
  cases hbroken

/-- Any calls on a new writer, none of which broke off, leave a file that is laid out as the
accepted ones ask, with less than `2 ^ 32` bytes to a block; and a call that passes its checks is
never refused for its block size afterwards. -/
theorem calls_lay_out_file (encoder : Lz4.Encoder) (inputs : List TableInput)
    (log : List (TableInput × Except StoreError Unit)) (w : TableWriter)
    (h : (newWith encoder).callAll inputs = (log, w)) (hlog : Unbroken log)
    (hsize : w.written.size < addressSize) :
    w.LaidOut (accepted log) ∧
      (∀ b ∈ w.catalog.blocks, 16 + 8 * b.rows.toNat < UInt32.size) ∧
      ∀ input : TableInput, w.check input.name input.columns input.rowsPerBlock = .ok () →
        ∀ rows, (w.addTable input.name input.columns input.rowsPerBlock).1 ≠
          .error (.invalidBlockSize rows) := by
  have hlaid := laidOut_of_addTables (addTables_accepted h hlog) hsize
  refine ⟨hlaid, ?_, ?_⟩
  · intro b hb
    rw [← (hlaid.announced b hb).size_eq]
    exact b.uncompressed.toNat_lt
  · intro input hcheck
    exact addTable_ne_invalidBlockSize hcheck

theorem mixedCalls_lay_out_file : ∃ log w,
    (newWith Lz4.literalRun).callAll mixedCalls = (log, w) ∧ w.LaidOut (accepted log) ∧
      (accepted log).length = 2 ∧ w.catalog.blocks.map (fun b => b.rows.toNat) =
        [2, 2, 1, 2, 2, 1, 3] := by
  obtain ⟨hlaid, -, -⟩ := calls_lay_out_file Lz4.literalRun mixedCalls
    ((newWith Lz4.literalRun).callAll mixedCalls).1 ((newWith Lz4.literalRun).callAll mixedCalls).2
    rfl mixedCalls_unbroken (by decide +kernel)
  exact ⟨((newWith Lz4.literalRun).callAll mixedCalls).1,
    ((newWith Lz4.literalRun).callAll mixedCalls).2, rfl, hlaid, by decide +kernel,
    by decide +kernel⟩

end TableWriter
end Columnar
