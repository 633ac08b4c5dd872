import Columnar.Proofs.Cutting
import Columnar.Proofs.Failing

/-! Calls one after another on one writer, some of them refused. A call has its requirements in an
order: the block size, a new table name, and column by column a new name and then the length. The
first that is not met refuses the call, and the writer stays as it was; so the file is that of the
accepted calls alone, unless a call broke off in the middle of its blocks. -/

namespace Columnar

inductive Requirement
  | blockSize
  | newTable
  | newColumn (place : Nat)
  | sameLength (place : Nat)
  deriving Repr, DecidableEq

namespace TableInput

def columnRequirements (place : Nat) : List Requirement := [.newColumn place, .sameLength place]

def requirements (input : TableInput) : List Requirement :=
  .blockSize :: .newTable :: (List.range input.columns.length).flatMap columnRequirements

end TableInput

/-- Bytes of the table may have been written when the call failed. -/
def StoreError.interrupts : StoreError → Bool
  | .io _ | .compression _ => true
  | _ => false

namespace TableWriter

def violation? (w : TableWriter) (input : TableInput) : Requirement → Option StoreError
  | .blockSize =>
    if input.rowsPerBlock = 0 ∨ BlockHeader.maxRows < input.rowsPerBlock then
      some (.invalidBlockSize input.rowsPerBlock)
    else none
  | .newTable =>
    if input.name ∈ w.catalog.tables.map TableRecord.name then some (.duplicateTable input.name)
    else none
  | .newColumn place =>
    input.columns[place]?.bind fun c =>
      if c.1 ∈ (input.columns.take place).map Prod.fst then some (.duplicateColumn input.name c.1)
      else none
  | .sameLength place =>
    input.columns[place]?.bind fun c =>
      if c.2.size ≠ rowsOf input.columns then
        some (.rowCountMismatch c.1 (rowsOf input.columns) c.2.size)
      else none

variable {w w' : TableWriter} {input : TableInput}

theorem errorOf_checkColumns (w : TableWriter) {before rest : List (String × Values)}
    {seen : List String} (hsplit : input.columns = before ++ rest)
    (hseen : ∀ n, n ∈ seen ↔ n ∈ before.map Prod.fst) :
    errorOf (checkColumns input.name (rowsOf input.columns) seen rest) =
      ((List.range' before.length rest.length).flatMap TableInput.columnRequirements).findSome?
        (w.violation? input) := by
  induction rest generalizing before seen with
  | nil => rfl
  | cons c rest ih =>
    obtain ⟨name, values⟩ := c
    have hget : input.columns[before.length]? = some (name, values) := by
      rw [hsplit, List.getElem?_append_right (Nat.le_refl _), Nat.sub_self, List.getElem?_cons_zero]
    have htake : input.columns.take before.length = before := by
      rw [hsplit]
      exact List.take_left' rfl
    rw [List.length_cons, List.range'_succ, List.flatMap_cons, TableInput.columnRequirements,
      List.cons_append, List.cons_append, List.nil_append, List.findSome?_cons, List.findSome?_cons]
    simp only [checkColumns, violation?, hget, htake, Option.bind_some, hseen name]
    split
    · rfl
    · split
      · rfl
      · have hnext := @ih (before ++ [(name, values)]) (name :: seen) (by simp [hsplit]) (by
          intro n
          simp [hseen n, or_comm])
        rwa [List.length_append, List.length_singleton] at hnext

theorem errorOf_check (w : TableWriter) (input : TableInput) :
    errorOf (w.check input.name input.columns input.rowsPerBlock) =
      input.requirements.findSome? (w.violation? input) := by
  have hname : (w.catalog.table? input.name).isSome ↔
      input.name ∈ w.catalog.tables.map TableRecord.name := by
    simp [Catalog.table?, List.find?_isSome]
  rw [TableInput.requirements, List.findSome?_cons, List.findSome?_cons]
  simp only [check, violation?, hname]
  split
  · rfl
  · split
    · rfl
    · rw [List.range_eq_range']
      exact errorOf_checkColumns w (List.nil_append _).symm fun n => by simp

theorem addTable_of_violation {before : List Requirement} {r : Requirement} {e : StoreError}
    (h : FirstFailing (w.violation? input) input.requirements before r e) :
    w.addTable input.name input.columns input.rowsPerBlock = (.error e, w) := by
  have hcheck : w.check input.name input.columns input.rowsPerBlock = .error e := by
    apply errorOf_eq_some.1
    rw [errorOf_check, h.findSome?_eq]
  rcases w.addTable_cases input with ⟨e', hcheck', hadd⟩ | ⟨hok, -⟩
  · rw [hcheck] at hcheck'
    rwa [Except.error.inj hcheck']
  · rw [hcheck] at hok
    cases hok

theorem interrupts_of_addTable {e : StoreError}
    (hcheck : w.check input.name input.columns input.rowsPerBlock = .ok ())
    (h : (w.addTable input.name input.columns input.rowsPerBlock).1 = .error e) :
    e.interrupts = true := by
  rcases w.addTable_cases input with ⟨_, hcheck', -⟩ | ⟨-, ⟨length, hfail⟩ | ⟨w', _, hok, -⟩⟩
  · rw [hcheck] at hcheck'
    cases hcheck'
  · rw [h] at hfail
    obtain rfl := Except.error.inj hfail
    rfl
  · rw [hok] at h
    cases h

def callAll (w : TableWriter) :
    List TableInput → List (TableInput × Except StoreError Unit) × TableWriter
  | [] => ([], w)
  | input :: inputs =>
    let (result, w) := w.addTable input.name input.columns input.rowsPerBlock
    let (log, w) := callAll w inputs
    ((input, result) :: log, w)

def accepted (log : List (TableInput × Except StoreError Unit)) : List TableInput :=
  (log.filter fun call => call.2.isOk).map Prod.fst

def Unbroken (log : List (TableInput × Except StoreError Unit)) : Prop :=
  ∀ call ∈ log, ∀ e, call.2 = .error e → e.interrupts = false

theorem addTables_accepted {inputs : List TableInput}
    {log : List (TableInput × Except StoreError Unit)} (h : w.callAll inputs = (log, w'))
    (hlog : Unbroken log) : w.addTables (accepted log) = .ok w' := by
  induction inputs generalizing w log with
  | nil =>
    obtain ⟨rfl, rfl⟩ := Prod.mk.inj h
    rfl
  | cons input inputs ih =>
    simp only [callAll] at h
    rcases hadd : w.addTable input.name input.columns input.rowsPerBlock with ⟨result, w₁⟩
    rcases hrest : w₁.callAll inputs with ⟨log', w₂⟩
    rw [hadd, hrest] at h
    obtain ⟨rfl, rfl⟩ := Prod.mk.inj h
    obtain ⟨hfirst, hlog'⟩ := List.forall_mem_cons.1 hlog
    have hlater := ih hrest hlog'
    cases result with
    | ok u =>
      have hcons : accepted ((input, .ok u) :: log') = input :: accepted log' := rfl
      rw [hcons, addTables, hadd]
      exact hlater
    | error e =>
      have hskip : accepted ((input, .error e) :: log') = accepted log' := rfl
      have hsame : w₁ = w := by
        rcases w.addTable_cases input with ⟨_, -, hadd'⟩ | ⟨hcheck, -⟩
        · rw [hadd] at hadd'
          exact (Prod.mk.inj hadd').2
        · have hbroken := interrupts_of_addTable hcheck (e := e) (by rw [hadd])
          rw [hfirst e rfl] at hbroken
          cases hbroken
      rw [hskip, ← hsame]
      exact hlater

/-- A call whose requirements are not all met is refused for the first of them and changes nothing,
a call that meets them is refused for none, and refused calls leave no trace in the file. -/
theorem rejected_calls_leave_no_trace :
    (∀ (w : TableWriter) (input : TableInput),
      ((∃ r ∈ input.requirements, w.violation? input r ≠ none) →
        ∃ before r e, FirstFailing (w.violation? input) input.requirements before r e ∧
          w.addTable input.name input.columns input.rowsPerBlock = (.error e, w)) ∧
      ((∀ r ∈ input.requirements, w.violation? input r = none) →
        ∀ e, (w.addTable input.name input.columns input.rowsPerBlock).1 = .error e →
          e.interrupts = true)) ∧
    ∀ (w w' : TableWriter) (inputs : List TableInput)
      (log : List (TableInput × Except StoreError Unit)), w.callAll inputs = (log, w') →
        Unbroken log → ∃ alone, w.addTables (accepted log) = .ok alone ∧
          alone.finish = w'.finish := by
  refine ⟨?_, ?_⟩
  · intro w input
    refine ⟨?_, ?_⟩
    · intro hviolated
      obtain ⟨before, r, e, hfirst⟩ := FirstFailing.exists_of_fails hviolated
      exact ⟨before, r, e, hfirst, addTable_of_violation hfirst⟩
    · intro hmet e he
      apply interrupts_of_addTable ?_ he
      obtain ⟨u, hcheck⟩ := errorOf_eq_none.1
        ((w.errorOf_check input).trans (List.findSome?_eq_none_iff.2 hmet))
      exact hcheck
  · intro w w' inputs log hcall hlog
    exact ⟨w', addTables_accepted hcall hlog, rfl⟩

def mixedCalls : List TableInput :=
  let xs : Values := .floats #[⟨0⟩, ⟨1⟩]
  twoTables.take 1 ++
    [⟨"hits", [("x", xs), ("x", .ints #[1])], 0⟩, ⟨"hits", [("x", xs), ("x", .ints #[1])], 2⟩,
      ⟨"odd", [("x", xs), ("n", .ints #[1, 2]), ("x", .ints #[1])], 2⟩,
      ⟨"odd", [("x", xs), ("n", .ints #[1])], 2⟩] ++ twoTables.drop 1

theorem mixedCalls_unbroken : Unbroken ((newWith Lz4.literalRun).callAll mixedCalls).1 := by
  have h : ∀ call ∈ ((newWith Lz4.literalRun).callAll mixedCalls).1,
      ((errorOf call.2).any StoreError.interrupts) = false := by decide +kernel
  intro call hcall e he
  have hcall' := h call hcall
  rwa [he] at hcall'

theorem mixedCalls_leave_no_trace : ∃ log w alone,
    (newWith Lz4.literalRun).callAll mixedCalls = (log, w) ∧
      log.map (fun call => errorOf call.2) = [none, some (.invalidBlockSize 0),
        some (.duplicateTable "hits"), some (.duplicateColumn "odd" "x"),
        some (.rowCountMismatch "n" 2 1), none] ∧
      (newWith Lz4.literalRun).addTables (accepted log) = .ok alone ∧ alone.finish = w.finish ∧
      ∃ input ∈ mixedCalls, (newWith Lz4.literalRun).addTable input.name input.columns
        input.rowsPerBlock = (.error (.duplicateColumn "odd" "x"), newWith Lz4.literalRun) := by
  obtain ⟨hcalls, hruns⟩ := rejected_calls_leave_no_trace
  obtain ⟨alone, halone, hfinish⟩ := hruns (newWith Lz4.literalRun)
    ((newWith Lz4.literalRun).callAll mixedCalls).2 mixedCalls
    ((newWith Lz4.literalRun).callAll mixedCalls).1 rfl mixedCalls_unbroken
  let input : TableInput := ⟨"odd", [("x", .floats #[⟨0⟩, ⟨1⟩]), ("n", .ints #[1, 2]),
    ("x", .ints #[1])], 2⟩
  have hfirst : FirstFailing ((newWith Lz4.literalRun).violation? input) input.requirements
      [.blockSize, .newTable, .newColumn 0, .sameLength 0, .newColumn 1, .sameLength 1]
      (.newColumn 2) (.duplicateColumn "odd" "x") :=
    ⟨⟨[.sameLength 2], rfl⟩, by decide, by decide⟩
  obtain ⟨before, r, e, hfound, hadd⟩ :=
    (hcalls (newWith Lz4.literalRun) input).1 ⟨.newColumn 2, by decide, by decide⟩
  obtain ⟨-, -, rfl⟩ := hfirst.unique hfound
  exact ⟨((newWith Lz4.literalRun).callAll mixedCalls).1,
    ((newWith Lz4.literalRun).callAll mixedCalls).2, alone, rfl, by decide +kernel, halone,
    hfinish, input, by simp [mixedCalls, input], hadd⟩

end TableWriter
end Columnar
