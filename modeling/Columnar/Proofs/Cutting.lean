import Columnar.Proofs.Writing

/-! How a writer cuts a column into blocks and where it puts them. The rows follow one another in
blocks of the size asked for, the last of what is left, and the bytes of the blocks follow one
another from where the writer stands. Each block says in front how long it is when decompressed.
A call that has passed its checks can fail only where a block is too long once it is compressed. -/

namespace Columnar

/-- From row `start` to row `rows`, `step` rows to a block; the last block has what is left. -/
def Cut (step rows start : Nat) : List BlockRecord → Prop
  | [] => start = rows
  | b :: bs => start < rows ∧ b.startRow = .ofNat start ∧ b.rows.toNat = min step (rows - start) ∧
      Cut step rows (start + b.rows.toNat) bs

/-- The blocks lie one behind the other from byte `start` to byte `stop`. -/
def BackToBack (start : Nat) : List BlockRecord → Nat → Prop
  | [], stop => start = stop
  | b :: bs, stop => b.offset.toNat = start ∧ BackToBack (start + b.compressed.toNat) bs stop

namespace BackToBack

variable {start middle stop : Nat} {bs cs : List BlockRecord}

theorem le (h : BackToBack start bs stop) : start ≤ stop := by
  induction bs generalizing start with
  | nil => exact Nat.le_of_eq h
  | cons b bs ih =>
    have := ih h.2
    omega

theorem append (hb : BackToBack start bs middle) (hc : BackToBack middle cs stop) :
    BackToBack start (bs ++ cs) stop := by
  induction bs generalizing start with
  | nil =>
    obtain rfl : start = middle := hb
    exact hc
  | cons b bs ih => exact ⟨hb.1, ih hb.2⟩

theorem bounds (h : BackToBack start bs stop) {b : BlockRecord} (hb : b ∈ bs) :
    start ≤ b.offset.toNat ∧ b.offset.toNat + b.compressed.toNat ≤ stop := by
  induction bs generalizing start with
  | nil => cases hb
  | cons c bs ih =>
    obtain ⟨hs, ht⟩ := h
    rcases List.mem_cons.1 hb with rfl | hm
    · have := ht.le
      omega
    · have := ih ht hm
      omega

end BackToBack

structure BlockRecord.Announced (b : BlockRecord) (data : Array UInt8) : Prop where
  size_eq : b.uncompressed.toNat = 16 + 8 * b.rows.toNat
  announced : Lz4.announcedSize? (b.bytesIn data) = some b.uncompressed.toNat

theorem BlockRecord.Announced.append {b : BlockRecord} {data : Array UInt8}
    (h : b.Announced data) (hstop : b.offset.toNat + b.compressed.toNat ≤ data.size)
    (more : Array UInt8) : b.Announced (data ++ more) := by
  refine ⟨h.size_eq, ?_⟩
  rw [bytesIn_append hstop]
  exact h.announced

namespace TableWriter

/-- The blocks `bs` lie in the bytes of `w'` behind those of `w`, and nothing else does. -/
structure Placed (w w' : TableWriter) (bs : List BlockRecord) : Prop where
  places : BackToBack w.written.size bs w'.written.size
  announced : ∀ b ∈ bs, b.Announced w'.written

structure Adds (w w' : TableWriter) (bs : List BlockRecord) : Prop where
  grows : w.Extends w' bs.length
  placed : w.InStep → w'.written.size < addressSize → w.Placed w' bs

namespace Adds

variable {w w₁ w₂ : TableWriter} {bs cs : List BlockRecord}

theorem refl (w : TableWriter) : w.Adds w [] :=
  ⟨.refl w, fun _ _ => ⟨rfl, fun _ hb => by cases hb⟩⟩

theorem trans (hb : w.Adds w₁ bs) (hc : w₁.Adds w₂ cs) : w.Adds w₂ (bs ++ cs) where
  grows := by
    rw [List.length_append]
    exact hb.grows.trans hc.grows
  placed hw hsize := by
    have hfirst := hb.placed hw (Nat.lt_of_le_of_lt hc.grows.size_mono hsize)
    have hsecond := hc.placed (hb.grows.inStep hw) hsize
    obtain ⟨more, hmore⟩ := hc.grows.written
    refine ⟨hfirst.places.append hsecond.places, ?_⟩
    intro b hmem
    rcases List.mem_append.1 hmem with hmem | hmem
    · rw [hmore]
      exact (hfirst.announced b hmem).append (hfirst.places.bounds hmem).2 more
    · exact hsecond.announced b hmem

end Adds

variable {w w' : TableWriter} {values : Values} {start stop : Nat}

theorem writeBlock_error {e : StoreError} (h : w.writeBlock values start stop = (.error e, w'))
    (hmax : (values.slice start stop).size ≤ BlockHeader.maxRows) :
    ∃ length, e = .compression (.tooLong length) := by
  have hmaxRows : BlockHeader.maxRows = 536870909 := rfl
  have hu : UInt32.size = 4294967296 := rfl
  unfold writeBlock at h
  dsimp only at h
  split at h
  · exact ⟨_, (Except.error.inj (Prod.mk.inj h).1).symm⟩
  · rw [if_neg (by rw [Values.length_block]; omega)] at h
    cases (Prod.mk.inj h).1

theorem writeBlock_adds {b : BlockRecord} (h : w.writeBlock values start stop = (.ok b, w'))
    (hrows : (values.slice start stop).size = stop - start) : w.Adds w' [b] := by
  refine ⟨writeBlock_extends h, ?_⟩
  intro hw hsize
  have hmono := (writeBlock_extends h).size_mono
  obtain ⟨raw, hraw, hrl, hcl, rfl, rfl⟩ := writeBlock_ok h
  have hoff : w.offset.toNat = w.written.size := hw.offset_toNat (Nat.lt_of_le_of_lt hmono hsize)
  have hcomp : (UInt32.ofNat (w.encoder.compress raw).length).toNat =
      (w.encoder.compress raw).length := UInt32.toNat_ofNat_of_lt' hcl
  have hunc : (UInt32.ofNat raw.length).toNat = raw.length := UInt32.toNat_ofNat_of_lt' hrl
  have hlen : raw.length = 16 + 8 * (stop - start) := by
    rw [hraw, Values.length_block, hrows]
  have hcount : (UInt32.ofNat (stop - start)).toNat = stop - start :=
    UInt32.toNat_ofNat_of_lt' (by omega)
  refine ⟨⟨hoff, ?_⟩, ?_⟩
  · simp only [BackToBack, hcomp, Array.size_append, List.size_toArray]
  · intro b hb
    obtain rfl := List.mem_singleton.1 hb
    refine ⟨by rw [hunc, hcount, hlen], ?_⟩
    have hbytes : ((w.written ++ (w.encoder.compress raw).toArray).extract w.written.size
        (w.written.size + (w.encoder.compress raw).length)).toList = w.encoder.compress raw := by
      simp
    simp only [BlockRecord.bytesIn, hoff, hcomp, hunc, hbytes]
    exact w.encoder.announcedSize?_compress hrl

theorem writeBlocks_cases {step : Nat} {blocks : Array BlockRecord}
    {r : Except StoreError (Array BlockRecord)} (hpos : 0 < step)
    (hmax : step ≤ BlockHeader.maxRows) (hstart : start ≤ values.size)
    (h : w.writeBlocks values step start blocks = (r, w')) :
    (∃ length, r = .error (.compression (.tooLong length))) ∨
      ∃ all new, r = .ok all ∧ all.toList = blocks.toList ++ new ∧
        Cut step values.size start new ∧ w'.catalog = w.catalog ∧ w.Adds w' new := by
  have hu : BlockHeader.maxRows < UInt32.size := by decide
  fun_induction writeBlocks w values step start blocks with
  | case1 w start blocks hlt stop e w₁ hb =>
    have hstop : stop = min (start + step) values.size := rfl
    obtain ⟨rfl, rfl⟩ := Prod.mk.inj h
    obtain ⟨length, rfl⟩ := writeBlock_error hb (by rw [Values.size_slice]; omega)
    exact Or.inl ⟨length, rfl⟩
  | case2 w start blocks hlt stop b w₁ hb ih =>
    have hstop : stop = min (start + step) values.size := rfl
    have hslice : (values.slice start stop).size = stop - start := by
      rw [Values.size_slice]
      omega
    have hrec : b.startRow = .ofNat start ∧ b.rows = .ofNat (stop - start) ∧
        w₁.catalog = w.catalog := by
      obtain ⟨raw, -, -, -, rfl, rfl⟩ := writeBlock_ok hb
      exact ⟨rfl, rfl, rfl⟩
    obtain ⟨hbs, hbr, hbc⟩ := hrec
    have hr : b.rows.toNat = stop - start := by
      rw [hbr]
      exact UInt32.toNat_ofNat_of_lt' (by omega)
    rcases ih (by omega) h with hfail | ⟨all, new, hok, hall, hcut, hcat, hadds⟩
    · exact Or.inl hfail
    · refine Or.inr ⟨all, b :: new, hok, ?_, ?_, hcat.trans hbc,
        (writeBlock_adds hb hslice).trans hadds⟩
      · rw [hall, Array.toList_push, List.append_assoc, List.singleton_append]
      · refine ⟨hlt.1, hbs, by omega, ?_⟩
        rwa [hr, show start + (stop - start) = stop by omega]
  | case3 w start blocks hge =>
    obtain ⟨rfl, rfl⟩ := Prod.mk.inj h
    have hend : start = values.size := by omega
    exact Or.inr ⟨blocks, [], rfl, by simp, hend, rfl, .refl w⟩

end TableWriter

structure ColumnRecord.CutFrom (c : ColumnRecord) (name : String) (values : Values) (step : Nat) :
    Prop where
  name_eq : c.name = name
  type_eq : c.type = values.type
  cut : Cut step values.size 0 c.blocks.toList

structure TableRecord.CutFrom (t : TableRecord) (input : TableInput) : Prop where
  name_eq : t.name = input.name
  rows_eq : t.rowCount = .ofNat (TableWriter.rowsOf input.columns)
  step_pos : 0 < input.rowsPerBlock
  columns : List.Forall₂ (fun c p => c.CutFrom p.1 p.2 input.rowsPerBlock) t.columns input.columns

def TableRecord.blocks (t : TableRecord) : List BlockRecord :=
  t.columns.flatMap fun c => c.blocks.toList

namespace TableWriter

variable {w w' : TableWriter}

theorem writeColumns_cases {step : Nat} {records : Array ColumnRecord}
    {columns : List (String × Values)} {r : Except StoreError (Array ColumnRecord)}
    (hpos : 0 < step) (hmax : step ≤ BlockHeader.maxRows)
    (h : w.writeColumns step records columns = (r, w')) :
    (∃ length, r = .error (.compression (.tooLong length))) ∨
      ∃ all new, r = .ok all ∧ all.toList = records.toList ++ new ∧
        List.Forall₂ (fun c p => c.CutFrom p.1 p.2 step) new columns ∧
        w'.catalog = w.catalog ∧ w.Adds w' (new.flatMap fun c => c.blocks.toList) := by
  induction columns generalizing w records with
  | nil =>
    obtain ⟨rfl, rfl⟩ := Prod.mk.inj h
    exact Or.inr ⟨records, [], rfl, by simp, .nil, rfl, .refl w⟩
  | cons p columns ih =>
    obtain ⟨name, values⟩ := p
    rw [writeColumns] at h
    rcases hb : w.writeBlocks values step 0 #[] with ⟨e | blocks, w₁⟩
    · rw [hb] at h
      obtain ⟨rfl, rfl⟩ := Prod.mk.inj h
      rcases writeBlocks_cases hpos hmax (Nat.zero_le _) hb with ⟨length, he⟩ | ⟨_, _, he, -⟩
      · obtain rfl := Except.error.inj he
        exact Or.inl ⟨length, rfl⟩
      · cases he
    · rw [hb] at h
      rcases writeBlocks_cases hpos hmax (Nat.zero_le _) hb with
        ⟨_, he⟩ | ⟨all, new, hok, hall, hcut, hcat, hadds⟩
      · cases he
      obtain rfl := Except.ok.inj hok
      have hblocks : blocks.toList = new := by simpa using hall
      rcases ih h with hfail | ⟨cs, rest, hcs, hrecords, hcuts, hcat', hadds'⟩
      · exact Or.inl hfail
      · refine Or.inr ⟨cs, ⟨name, values.type, blocks⟩ :: rest, hcs, ?_,
          .cons ⟨rfl, rfl, by rwa [hblocks]⟩ hcuts, hcat'.trans hcat, ?_⟩
        · rw [hrecords, Array.toList_push, List.append_assoc, List.singleton_append]
        · rw [List.flatMap_cons, hblocks]
          exact hadds.trans hadds'

theorem addTable_cases (w : TableWriter) (input : TableInput) :
    (∃ e, w.check input.name input.columns input.rowsPerBlock = .error e ∧
      w.addTable input.name input.columns input.rowsPerBlock = (.error e, w)) ∨
    w.check input.name input.columns input.rowsPerBlock = .ok () ∧
      ((∃ length, (w.addTable input.name input.columns input.rowsPerBlock).1 =
        .error (.compression (.tooLong length))) ∨
      ∃ w' record, w.addTable input.name input.columns input.rowsPerBlock = (.ok (), w') ∧
        record.CutFrom input ∧ w'.catalog = ⟨w.catalog.tables ++ [record]⟩ ∧
        w.Adds w' record.blocks) := by
  unfold addTable
  cases hcheck : w.check input.name input.columns input.rowsPerBlock with
  | error e => exact Or.inl ⟨e, rfl, rfl⟩
  | ok u =>
    refine Or.inr ⟨rfl, ?_⟩
    have hstep : 0 < input.rowsPerBlock ∧ input.rowsPerBlock ≤ BlockHeader.maxRows := by
      unfold check at hcheck
      split at hcheck
      · cases hcheck
      · omega
    rcases hw : w.writeColumns input.rowsPerBlock #[] input.columns with ⟨e | records, w₁⟩
    · rcases writeColumns_cases hstep.1 hstep.2 hw with ⟨length, he⟩ | ⟨_, _, he, -⟩
      · obtain rfl := Except.error.inj he
        exact Or.inl ⟨length, rfl⟩
      · cases he
    · rcases writeColumns_cases hstep.1 hstep.2 hw with
        ⟨_, he⟩ | ⟨all, new, hok, hall, hcuts, hcat, hadds⟩
      · cases he
      obtain rfl := Except.ok.inj hok
      obtain rfl : records.toList = new := by simpa using hall
      refine Or.inr ⟨_, ⟨input.name, .ofNat (rowsOf input.columns), records.toList⟩, rfl,
        ⟨rfl, rfl, hstep.1, hcuts⟩, by rw [hcat], ?_⟩
      have hext := hadds.grows
      refine ⟨⟨hext.encoder, hext.written, hext.size_le, ?_⟩, ?_⟩
      · intro hi
        exact ⟨(hext.inStep hi).offset, (hext.inStep hi).header⟩
      · intro hi hsize
        exact ⟨(hadds.placed hi hsize).places, (hadds.placed hi hsize).announced⟩

end TableWriter
end Columnar
