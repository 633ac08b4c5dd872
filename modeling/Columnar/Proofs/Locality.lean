import Columnar.Proofs.Session

/-! Damage stays where it is. Two files with one catalog may differ in the bytes of their blocks. A
row is read alike in both where they agree on the block that holds it, whatever was read before in
either, through the same handle or through others. A change of bytes shows in no block that it does
not meet. -/

namespace Columnar

def BlockRecord.SameIn (b : BlockRecord) (data data' : Array UInt8) : Prop :=
  ∀ place, b.offset.toNat ≤ place → place < b.offset.toNat + b.compressed.toNat →
    data[place]? = data'[place]?

theorem BlockRecord.SameIn.bytesIn {b : BlockRecord} {data data' : Array UInt8}
    (h : b.SameIn data data') : b.bytesIn data = b.bytesIn data' := by
  apply List.ext_getElem?
  intro k
  simp only [BlockRecord.bytesIn, Array.toList_extract, List.extract_eq_take_drop,
    List.getElem?_take, List.getElem?_drop, Array.getElem?_toList, Nat.add_sub_cancel_left]
  split
  · rename_i hk
    exact h _ (Nat.le_add_right _ _) (by omega)
  · rfl

theorem BlockRecord.SameIn.of_outside {b : BlockRecord} {data data' : Array UInt8}
    {start stop : Nat}
    (hout : ∀ place, place < start ∨ stop ≤ place → data[place]? = data'[place]?)
    (hapart : ∀ place, start ≤ place → place < stop → b.offset.toNat ≤ place →
      ¬place < b.offset.toNat + b.compressed.toNat) : b.SameIn data data' := by
  intro place hge hlt
  apply hout
  by_contra hin
  obtain ⟨hstart, hstop⟩ := not_or.1 hin
  exact hapart place (Nat.not_lt.1 hstart) (Nat.not_le.1 hstop) hge hlt

namespace Session

variable {ι : Type} [DecidableEq ι]

def replyAfter (s : Session ι) (before : List (ι × Call)) (i : ι) (call : Call) :
    Except ScanError Reply :=
  ((s.run before).2.step i call).1

theorem replyAfter_eq {path : String} {contents : Except String (Array UInt8)} {f : TableFile}
    (ho : TableFile.ofContents path contents = .ok f) {s : Session ι} (hs : s.Fresh f)
    (before : List (ι × Call)) (i : ι) (call : Call) (scratch : Scratch) :
    s.replyAfter before i call = ((s.table i).call (s.cursor i) scratch call).result := by
  have hdata : ∀ i, (s.table i).data = f.data := fun i => (hs.readable ho i).1
  exact ((Reached.refl f s).run hdata before).reply ho hs i call scratch

end Session

namespace TableFile

theorem record_eq_of_catalog {f g : TableFile} (h : f.catalog = g.catalog) {name : String}
    {t u : Table} (ht : f.table name = .ok t) (hu : g.table name = .ok u) :
    t.record = u.record := by
  have hft := (table_eq_ok.1 ht).1
  have hgu := (table_eq_ok.1 hu).1
  rw [h, hgu] at hft
  exact (Option.some.inj hft).symm

/-- What is read of a row depends on no bytes but those of its block, so a change of bytes shows
only in blocks that it meets. -/
theorem damage_stays_local (path path' : String) (contents contents' : Except String (Array UInt8))
    (f g : TableFile) (hf : ofContents path contents = .ok f)
    (hg : ofContents path' contents' = .ok g) (hcat : f.catalog = g.catalog)
    (tableName name : String) (t u : Table) (ht : f.table tableName = .ok t)
    (hu : g.table tableName = .ok u) (handle : Cursor) (hbind : t.bindAny name = .ok handle)
    (row : Nat) (hrow : row < t.rowCount) :
    ∃ b ∈ handle.column.blocks.toList, b.Covers row ∧
      (∀ k ∈ handle.column.blocks.toList, k.Covers row → k = b) ∧
      ∀ (ι κ : Type) [DecidableEq ι] [DecidableEq κ] (s : Session ι) (r : Session κ),
        s.Fresh f → r.Fresh g → ∀ i j, s.table i = t → s.cursor i = handle →
          r.table j = u → r.cursor j = handle → ∀ before before' call, call.row = row →
            (b.SameIn f.data g.data →
              s.replyAfter before i call = r.replyAfter before' j call) ∧
            ∀ start stop,
              (∀ place, place < start ∨ stop ≤ place → f.data[place]? = g.data[place]?) →
                s.replyAfter before i call ≠ r.replyAfter before' j call →
                  ∃ place, start ≤ place ∧ place < stop ∧ b.offset.toNat ≤ place ∧
                    place < b.offset.toNat + b.compressed.toNat := by
  obtain ⟨column, hcol, rfl⟩ := Table.bindAny_eq_ok.1 hbind
  have hrec := record_eq_of_catalog hcat ht hu
  have hrt := readable hf ht hcol
  have hru := readable hg hu (hrec ▸ hcol)
  obtain ⟨b, hb, hcov⟩ := hrt.tiles.exists_covers (Nat.zero_le row) hrow
  have hunique : ∀ k ∈ column.blocks.toList, k.Covers row → k = b :=
    fun k hk hkcov => hrt.tiles.covers_unique hk hb hkcov hcov
  refine ⟨b, hb, hcov, hunique, ?_⟩
  intro ι κ _ _ s r hs hr i j hsi hci hrj hcj before before' call hcall
  have hsame : b.SameIn f.data g.data →
      s.replyAfter before i call = r.replyAfter before' j call := by
    intro h
    rw [s.replyAfter_eq hf hs before i call .empty, r.replyAfter_eq hg hr before' j call .empty,
      hsi, hci, hrj, hcj]
    apply Table.call_eq_call hrec hrt hru .none .none
    intro _ k hk hkcov
    rw [hunique k hk (hcall ▸ hkcov), (table_eq_ok.1 ht).2, (table_eq_ok.1 hu).2]
    exact h.bytesIn
  refine ⟨hsame, ?_⟩
  intro start stop hout hne
  by_contra hmeet
  apply hne
  apply hsame
  apply BlockRecord.SameIn.of_outside hout
  intro place hstart hstop hge hlt
  exact hmeet ⟨place, hstart, hstop, hge, hlt⟩

theorem unevenDamaged_getElem? {place : Nat} (h : place ≠ 100) (h' : place ≠ 172) :
    uneven.finish.2[place]? = unevenDamaged.finish.2[place]? := by
  rw [TableWriter.finish_bytes, TableWriter.finish_bytes]
  have hset : unevenDamaged.written[place]? = uneven.written[place]? := by
    rw [unevenDamaged, Array.getElem?_setIfInBounds_ne (Ne.symm h'),
      Array.getElem?_setIfInBounds_ne (Ne.symm h)]
  have hsize : unevenDamaged.written.size = uneven.written.size := by
    simp only [unevenDamaged, Array.size_setIfInBounds]
  simp only [Array.append_assoc, Array.getElem?_append, hset, hsize]
  rfl

theorem unevenDamaged_reads_alike : ∃ f g t u,
    ofContents "uneven.tbl" (.ok uneven.finish.2) = .ok f ∧
      ofContents "damaged.tbl" (.ok unevenDamaged.finish.2) = .ok g ∧ f.catalog = g.catalog ∧
      f.table "hits" = .ok t ∧ g.table "hits" = .ok u ∧ t.bindAny "x" = .ok (.new unevenX) ∧
      2 < t.rowCount ∧
      (Session.unevenHandles uneven).replyAfter [] true (.read 2) =
        (Session.unevenHandles unevenDamaged).replyAfter Session.unevenCalls true (.read 2) := by
  obtain ⟨b, -, -, hunique, hlocal⟩ := damage_stays_local _ _ _ _ _ _ uneven_opens
    unevenDamaged_opens rfl "hits" "x" ⟨uneven.finish.2, unevenHits⟩
    ⟨unevenDamaged.finish.2, unevenHits⟩ rfl rfl (.new unevenX) rfl 2 (by decide)
  have hblock : ⟨2, 2, 58, 38, 32⟩ = b := hunique _ (by decide) ⟨by decide, by decide⟩
  have hsame : b.SameIn uneven.finish.2 unevenDamaged.finish.2 := by
    intro place hge hlt
    rw [← hblock] at hge hlt
    have hge' : 58 ≤ place := hge
    have hlt' : place < 96 := hlt
    exact unevenDamaged_getElem? (by omega) (by omega)
  have hreply := (hlocal Bool Bool (Session.unevenHandles uneven)
    (Session.unevenHandles unevenDamaged) (Session.unevenHandles_fresh uneven _)
    (Session.unevenHandles_fresh unevenDamaged _) true true rfl rfl rfl rfl [] Session.unevenCalls
    (.read 2) rfl).1 hsame
  exact ⟨_, _, ⟨uneven.finish.2, unevenHits⟩, ⟨unevenDamaged.finish.2, unevenHits⟩, uneven_opens,
    unevenDamaged_opens, rfl, rfl, rfl, rfl, by decide, hreply⟩

end TableFile
end Columnar
