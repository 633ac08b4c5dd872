import Mathlib.Data.List.Basic
import Columnar.Block.Compressed

/-! When an action is run on a compressed block. Its runs are noted beside what it does; there is one
of them if the block is complete, on the bytes of the block, and none otherwise. -/

namespace Columnar

/-- The announced size is the expected one, and decoding in that much room gives `out` and fills it. -/
structure Completes (compressed : Bytes) (expected : Nat) (out : Bytes) : Prop where
  prefixed : 4 ≤ compressed.length
  announced : Bytes.value (compressed.take 4) = expected
  decoded : Lz4.decode expected (compressed.drop 4) = .ok out.toArray
  filled : out.length = expected

theorem Completes.unique {compressed out out' : Bytes} {expected : Nat}
    (h : Completes compressed expected out) (h' : Completes compressed expected out') : out = out' :=
  List.toArray_inj (Except.ok.inj (h.decoded.symm.trans h'.decoded))

theorem Lz4.announcedSize?_eq_some_iff {compressed : Bytes} {size : Nat} :
    announcedSize? compressed = some size ↔
      4 ≤ compressed.length ∧ Bytes.value (compressed.take 4) = size := by
  constructor
  · intro h
    obtain ⟨⟨front, rest⟩, hs, hv⟩ := Option.map_eq_some_iff.1 h
    obtain ⟨rfl, hlen⟩ := Bytes.split?_eq_some_iff.1 hs
    rw [List.take_left' hlen]
    exact ⟨by rw [List.length_append]; omega, hv⟩
  · rintro ⟨hlen, rfl⟩
    rw [announcedSize?, Bytes.split?_of_le hlen]
    rfl

theorem decompress_eq_ok_iff {compressed out : Bytes} {expected : Nat} :
    decompress compressed expected = .ok out ↔ Completes compressed expected out := by
  constructor
  · intro h
    unfold decompress at h
    split at h
    · cases h
    · rename_i size ha
      obtain ⟨hlen, hv⟩ := Lz4.announcedSize?_eq_some_iff.1 ha
      split at h
      · cases h
      · rename_i hsize
        obtain rfl := not_not.1 hsize
        split at h
        · cases h
        · rename_i found hd
          split at h
          · cases h
          · rename_i hfull
            obtain rfl := Except.ok.inj h
            exact ⟨hlen, hv, hd, not_not.1 hfull⟩
  · rintro ⟨hlen, hv, hd, hfull⟩
    have ha := Lz4.announcedSize?_eq_some_iff.2 ⟨hlen, hv⟩
    simp only [decompress, ha, hd, List.size_toArray, hfull, ne_eq, not_true_eq_false, if_false]

theorem Lz4.Encoder.drop_compress (e : Encoder) (bs : Bytes) : (e.compress bs).drop 4 = e.encode bs :=
  List.drop_left' (Bytes.length_ofUInt32 _)

theorem Lz4.Encoder.completes_compress (e : Encoder) {bs : Bytes} (hbs : bs.length < UInt32.size) :
    Completes (e.compress bs) bs.length bs := by
  obtain ⟨hlen, hsize⟩ := Lz4.announcedSize?_eq_some_iff.1 (e.announcedSize?_compress hbs)
  exact ⟨hlen, hsize, by rw [e.drop_compress, e.decode_encode bs hbs], rfl⟩

structure ActionRun (α : Type) where
  seen : Bytes
  result : Except ScanError α

variable {σ α : Type}

def noted (action : Bytes → StateT Scratch (StateM σ) (Except ScanError α)) (bs : Bytes) :
    StateT Scratch (StateM (σ × List (ActionRun α))) (Except ScanError α) :=
  fun slot world =>
    let ((result, slot), after) := action bs slot world.1
    ((result, slot), (after, world.2 ++ [⟨bs, result⟩]))

theorem withDecompressed_of_completes {compressed out : Bytes} {expected : Nat}
    (h : Completes compressed expected out)
    (action : Bytes → StateT Scratch (StateM σ) (Except ScanError α)) (slot : Scratch) (world : σ) :
    ∃ kept, withDecompressed compressed expected action slot world =
      (((action out .empty world).1.1, kept), (action out .empty world).2) := by
  obtain ⟨kept, hrun⟩ := withDecompressed_eq compressed expected action slot
  rw [decompress_eq_ok_iff.2 h] at hrun
  exact ⟨kept, congrFun hrun world⟩

theorem withDecompressed_of_not_completes {compressed : Bytes} {expected : Nat}
    (h : ∀ out, ¬Completes compressed expected out)
    (action : Bytes → StateT Scratch (StateM σ) (Except ScanError α)) (slot : Scratch) (world : σ) :
    ∃ kept defect, withDecompressed compressed expected action slot world =
      ((.error (blockError defect), kept), world) := by
  obtain ⟨kept, hrun⟩ := withDecompressed_eq compressed expected action slot
  cases hd : decompress compressed expected with
  | error defect =>
    rw [hd] at hrun
    exact ⟨kept, defect, congrFun hrun world⟩
  | ok out => exact absurd (decompress_eq_ok_iff.1 hd) (h out)

/-- Whatever the slot was used for, the action is run at most once, and it is run exactly on the
bytes of a complete block, whose result is handed on; otherwise the read fails. -/
theorem runs_only_if_complete (compressed : Bytes) (expected : Nat)
    (action : Bytes → StateT Scratch (StateM σ) (Except ScanError α)) (slot : Scratch) (world : σ) :
    let outcome := withDecompressed compressed expected (noted action) slot (world, [])
    let result := outcome.1.1
    let after := outcome.2.1
    let runs := outcome.2.2
    runs.length ≤ 1 ∧ (runs.length = 1 ↔ ∃ out, Completes compressed expected out) ∧
      (∀ run ∈ runs, Completes compressed expected run.seen ∧ run.result = result ∧
        ∃ left, action run.seen .empty world = ((result, left), after)) ∧
      (runs = [] → after = world ∧ ∃ fault, result = .error (.columnRead fault)) := by
  intro outcome result after runs
  by_cases h : ∃ out, Completes compressed expected out
  · obtain ⟨out, hout⟩ := h
    obtain ⟨kept, hrun⟩ := withDecompressed_of_completes hout (noted action) slot (world, [])
    have hruns : runs = [⟨out, result⟩] := by simp only [runs, result, outcome, hrun]; rfl
    rw [hruns]
    refine ⟨Nat.le_refl 1, ⟨fun _ => ⟨out, hout⟩, fun _ => rfl⟩, ?_, ?_⟩
    · intro run hmem
      obtain rfl := List.mem_singleton.1 hmem
      refine ⟨hout, rfl, (action out .empty world).1.2, ?_⟩
      simp only [result, after, outcome, hrun]
      rfl
    · intro hnone
      cases hnone
  · obtain ⟨kept, defect, hrun⟩ :=
      withDecompressed_of_not_completes (not_exists.1 h) (noted action) slot (world, [])
    have hruns : runs = [] := by simp only [runs, outcome, hrun]
    rw [hruns]
    refine ⟨Nat.zero_le 1, ⟨fun hone => absurd hone Nat.zero_ne_one, fun hout => absurd hout h⟩,
      ?_, ?_⟩
    · intro run hmem
      cases hmem
    · intro _
      simp only [after, result, outcome, hrun]
      exact ⟨trivial, _, rfl⟩

def countRuns (compressed : Bytes) (expected : Nat) :
    (Except ScanError Nat × Scratch) × (Nat × List (ActionRun Nat)) :=
  withDecompressed compressed expected (noted fun bs slot n => ((.ok bs.length, slot), n + 1))
    ⟨.ofList [1, 2, 3, 4, 5]⟩ (0, [])

theorem countRuns_complete_and_short :
    ((countRuns (Lz4.compress [7, 8, 9]) 3).1.1 = .ok 3 ∧
      (countRuns (Lz4.compress [7, 8, 9]) 3).2.1 = 1 ∧
      ∃ run ∈ (countRuns (Lz4.compress [7, 8, 9]) 3).2.2, run.seen = [7, 8, 9]) ∧
    (countRuns (Bytes.ofUInt32 5 ++ Lz4.encode [7, 8, 9]) 5).2 = (0, []) ∧
      ∃ fault, (countRuns (Bytes.ofUInt32 5 ++ Lz4.encode [7, 8, 9]) 5).1.1 =
        .error (.columnRead fault) := by
  constructor
  · have hcomplete : Completes (Lz4.compress [7, 8, 9]) 3 [7, 8, 9] :=
      ⟨by decide, by decide, Lz4.decode_encode 3 [7, 8, 9], rfl⟩
    obtain ⟨-, hone, hruns, -⟩ := runs_only_if_complete (Lz4.compress [7, 8, 9]) 3
      (fun bs slot (n : Nat) => ((.ok bs.length, slot), n + 1)) ⟨.ofList [1, 2, 3, 4, 5]⟩ 0
    obtain ⟨run, hrun⟩ := List.length_eq_one_iff.1 (hone.2 ⟨_, hcomplete⟩)
    have hmem := hrun ▸ List.mem_singleton_self run
    obtain ⟨hseen, -, left, heq⟩ := hruns run hmem
    have hbytes : run.seen = [7, 8, 9] := hseen.unique hcomplete
    rw [hbytes] at heq
    obtain ⟨hresult, hafter⟩ := Prod.mk.inj heq
    exact ⟨(Prod.mk.inj hresult).1.symm, hafter.symm, run, hmem, hbytes⟩
  · have hshort : ¬∃ out, Completes (Bytes.ofUInt32 5 ++ Lz4.encode [7, 8, 9]) 5 out := by
      rintro ⟨out, -, -, hd, hlen⟩
      have hthree : Lz4.decode 5 (Lz4.encode [7, 8, 9]) = .ok #[7, 8, 9] :=
        Lz4.decode_encode 5 [7, 8, 9]
      obtain rfl := List.toArray_inj (Except.ok.inj (hd.symm.trans hthree))
      cases hlen
    obtain ⟨hle, hone, -, hnone⟩ := runs_only_if_complete
      (Bytes.ofUInt32 5 ++ Lz4.encode [7, 8, 9]) 5
      (fun bs slot (n : Nat) => ((.ok bs.length, slot), n + 1)) ⟨.ofList [1, 2, 3, 4, 5]⟩ 0
    have hempty := List.length_eq_zero_iff.1 ((Nat.le_one_iff_eq_zero_or_eq_one.1 hle).resolve_right
      fun h => hshort (hone.1 h))
    obtain ⟨hafter, hfault⟩ := hnone hempty
    exact ⟨Prod.ext hafter hempty, hfault⟩

end Columnar
