import Columnar.Proofs.Trace

/-! Where a pass fails. It first binds its three columns, and the first that is absent or holds no
doubles ends it before anything is told or loaded. After that only a block that cannot be loaded ends
it, and of several such blocks the first in their order. A pass that failed writes no report. -/

namespace Columnar

/-- `x` is the first of `xs` that fails, with `e`; before it stand `before`. -/
structure FirstFailing {α ε : Type} (fails : α → Option ε) (xs before : List α) (x : α) (e : ε) :
    Prop where
  split : ∃ after, xs = before ++ x :: after
  earlier : ∀ y ∈ before, fails y = none
  failure : fails x = some e

namespace FirstFailing

variable {α ε : Type} {fails : α → Option ε} {xs before before' : List α} {x x' : α} {e e' : ε}

theorem exists_of_fails (h : ∃ x ∈ xs, fails x ≠ none) :
    ∃ before x e, FirstFailing fails xs before x e := by
  have hne : xs.findSome? fails ≠ none := by
    intro hnone
    obtain ⟨x, hx, hne⟩ := h
    exact hne (List.findSome?_eq_none_iff.1 hnone x hx)
  obtain ⟨e, he⟩ := Option.ne_none_iff_exists'.1 hne
  obtain ⟨before, x, after, hsplit, hx, hbefore⟩ := List.findSome?_eq_some_iff.1 he
  exact ⟨before, x, e, ⟨after, hsplit⟩, hbefore, hx⟩

theorem findSome?_eq (h : FirstFailing fails xs before x e) : xs.findSome? fails = some e := by
  obtain ⟨after, hsplit⟩ := h.split
  exact List.findSome?_eq_some_iff.2 ⟨before, x, after, hsplit, h.failure, h.earlier⟩

theorem unique (h : FirstFailing fails xs before x e) (h' : FirstFailing fails xs before' x' e') :
    before = before' ∧ x = x' ∧ e = e' := by
  obtain ⟨⟨after, rfl⟩, hbefore, hx⟩ := h
  obtain ⟨⟨after', hsplit⟩, hbefore', hx'⟩ := h'
  induction before generalizing before' with
  | nil =>
    cases before' with
    | nil =>
      obtain ⟨rfl, -⟩ := List.cons.inj hsplit
      exact ⟨rfl, rfl, Option.some.inj (hx.symm.trans hx')⟩
    | cons y ys =>
      obtain ⟨rfl, -⟩ := List.cons.inj hsplit
      rw [hbefore' x List.mem_cons_self] at hx
      cases hx
  | cons y ys ih =>
    cases before' with
    | nil =>
      obtain ⟨rfl, -⟩ := List.cons.inj hsplit
      rw [hbefore y List.mem_cons_self] at hx'
      cases hx'
    | cons y' ys' =>
      obtain ⟨rfl, hrest⟩ := List.cons.inj hsplit
      obtain ⟨rfl, hxx, hee⟩ := ih (fun k hk => hbefore k (List.mem_cons_of_mem y hk))
        (fun k hk => hbefore' k (List.mem_cons_of_mem y hk)) hrest
      exact ⟨rfl, hxx, hee⟩

theorem loadable_eq {data : Array UInt8} {vs before : List Visit} {v : Visit} {e : ScanError}
    (h : FirstFailing (·.failure? data) vs before v e) : Visit.loadable data vs = before := by
  obtain ⟨⟨after, rfl⟩, hbefore, hv⟩ := h
  rw [Visit.loadable_append (List.findSome?_eq_none_iff.2 hbefore),
    Visit.loadable_cons_of_some hv, List.append_nil]

end FirstFailing

theorem BlockRecord.contents_error {b : BlockRecord} {column : ColumnRecord} {data : Array UInt8}
    {e : ScanError} (h : b.contents column data = .error e) : ∃ fault, e = .columnRead fault := by
  unfold contents at h
  split at h
  · exact ⟨_, (Except.error.inj h).symm⟩
  · split at h
    · exact ⟨_, (Except.error.inj h).symm⟩
    · unfold valuesOf at h
      split at h
      · exact ⟨_, (Except.error.inj h).symm⟩
      · split at h
        · exact ⟨_, (Except.error.inj h).symm⟩
        · cases h

def ScanOptions.names (options : ScanOptions) : List String := [options.x, options.y, options.z]

def Table.refusal? (t : Table) (name : String) : Option ColumnFault :=
  match t.record.column? name with
  | none => some (.absentFrom t.record.name name)
  | some column =>
    if column.type = .float64 then none else some (.storedAs name column.type .float64)

namespace Table

theorem errorOf_bind (t : Table) (name : String) :
    errorOf (ColumnSource.bind t name) = (t.refusal? name).map .columnNotFound := by
  change errorOf (t.bind name) = _
  unfold bind column refusal?
  cases t.record.column? name with
  | none => rfl
  | some c =>
    simp only
    split <;> rfl

theorem bind_of_refusal {t : Table} {name : String} {fault : ColumnFault}
    (h : t.refusal? name = some fault) :
    ColumnSource.bind t name = .error (.columnNotFound fault) := by
  apply errorOf_eq_some.1
  rw [errorOf_bind, h, Option.map_some]

theorem exists_bind {t : Table} {name : String} (h : t.refusal? name = none) :
    ∃ handle, ColumnSource.bind t name = .ok handle := by
  apply errorOf_eq_none.1
  rw [errorOf_bind, h, Option.map_none]

end Table

namespace Pass

variable {t : Table} {options : ScanOptions}

theorem bindAll_of_refusal {fault : ColumnFault}
    (h : options.names.findSome? t.refusal? = some fault) :
    bindAll t options = .error (.columnNotFound fault) := by
  simp only [ScanOptions.names, List.findSome?_cons, List.findSome?_nil] at h
  unfold bindAll
  cases hx : t.refusal? options.x with
  | some fx =>
    rw [hx] at h
    rw [Table.bind_of_refusal hx, Option.some.inj h]
    rfl
  | none =>
    obtain ⟨x, hbx⟩ := Table.exists_bind hx
    rw [hx] at h
    rw [hbx]
    cases hy : t.refusal? options.y with
    | some fy =>
      rw [hy] at h
      rw [Table.bind_of_refusal hy, Option.some.inj h]
      rfl
    | none =>
      obtain ⟨y, hby⟩ := Table.exists_bind hy
      rw [hy] at h
      rw [hby]
      cases hz : t.refusal? options.z with
      | some fz =>
        rw [hz] at h
        rw [Table.bind_of_refusal hz, Option.some.inj h]
        rfl
      | none =>
        rw [hz] at h
        cases h

theorem exists_bindAll (h : ∀ n ∈ options.names, t.refusal? n = none) :
    ∃ handles, bindAll t options = .ok handles := by
  obtain ⟨x, hx⟩ := Table.exists_bind (h options.x (by simp [ScanOptions.names]))
  obtain ⟨y, hy⟩ := Table.exists_bind (h options.y (by simp [ScanOptions.names]))
  obtain ⟨z, hz⟩ := Table.exists_bind (h options.z (by simp [ScanOptions.names]))
  exact ⟨_, bindAll_eq_ok.2 ⟨hx, hy, hz⟩⟩

def Outcome.Silent (o : Outcome) (e : ScanError) : Prop :=
  o.result = .error e ∧ ∀ watch profiled showBuckets out,
    o.report watch profiled showBuckets out = (.error e, out)

theorem Outcome.Silent.of_error {o : Outcome} {e : ScanError} (h : o.result = .error e) :
    o.Silent e := by
  refine ⟨h, ?_⟩
  intro watch profiled showBuckets out
  rw [report, h]

/-- A pass over a table in a file fails at the first column that it cannot read, or else at the
first block that cannot be loaded; where neither is found it counts the rows. -/
theorem run_fails_at_first (path : String) (contents : Except String (Array UInt8)) (f : TableFile)
    (ho : TableFile.ofContents path contents = .ok f) (name : String) (t : Table)
    (ht : f.table name = .ok t) (options : ScanOptions) (scratch : Scratch) :
    ((∃ n ∈ options.names, t.refusal? n ≠ none) →
      ∃ before n fault, FirstFailing t.refusal? options.names before n fault ∧
        run t options scratch = ⟨.error (.columnNotFound fault), [], scratch⟩ ∧
        (run t options scratch).Silent (.columnNotFound fault)) ∧
    ((∀ n ∈ options.names, t.refusal? n = none) →
      ((∃ v ∈ visits t options, v.failure? t.data ≠ none) →
        ∃ before v fault,
          FirstFailing (·.failure? t.data) (visits t options) before v (.columnRead fault) ∧
          (run t options scratch).steps =
            .started t.rowCount :: before.map (fun u => .loaded u.load) ∧
          (run t options scratch).Silent (.columnRead fault)) ∧
      ((∀ v ∈ visits t options, v.failure? t.data = none) →
        ∃ tally, (run t options scratch).result = .ok tally)) := by
  have hr : ∀ name column, t.record.column? name = some column →
      column.Readable t.data t.rowCount := fun _ _ => TableFile.readable ho ht
  refine ⟨?_, ?_⟩
  · intro hrefused
    obtain ⟨before, n, fault, hn⟩ := FirstFailing.exists_of_fails hrefused
    have hrun : run t options scratch = ⟨.error (.columnNotFound fault), [], scratch⟩ := by
      rw [run, bindAll_of_refusal hn.findSome?_eq]
    exact ⟨before, n, fault, hn, hrun, .of_error (by rw [hrun])⟩
  · intro hbound
    obtain ⟨handles, hb⟩ := exists_bindAll hbound
    obtain ⟨herror, hsteps⟩ := run_loads hr hb scratch
    refine ⟨?_, ?_⟩
    · intro hfailing
      obtain ⟨before, v, e, hv⟩ := FirstFailing.exists_of_fails hfailing
      obtain ⟨fault, rfl⟩ := BlockRecord.contents_error (errorOf_eq_some.1 hv.failure)
      rw [hv.findSome?_eq] at herror
      rw [herror, hv.loadable_eq] at hsteps
      exact ⟨before, v, fault, hv, hsteps.trans (List.append_nil _),
        .of_error (errorOf_eq_some.1 herror)⟩
    · intro hsound
      exact errorOf_eq_none.1 (herror.trans (List.findSome?_eq_none_iff.2 hsound))

theorem unevenDamaged_fails_at_first : ∃ f t,
    TableFile.ofContents "damaged.tbl" (.ok unevenDamaged.finish.2) = .ok f ∧
      f.table "hits" = .ok t ∧
      (run t ⟨"x", "y", "x", .standard⟩ .empty).steps =
        [.started 5, .loaded ⟨"x", 2, 38, 32⟩, .loaded ⟨"y", 3, 46, 40⟩, .loaded ⟨"x", 2, 38, 32⟩,
          .loaded ⟨"x", 2, 38, 32⟩, .loaded ⟨"x", 2, 38, 32⟩] ∧
      (run t ⟨"x", "y", "x", .standard⟩ .empty).Silent (blockError (.sizeMismatch 0 32)) ∧
      run t ⟨"x", "n", "q", .standard⟩ .empty =
        ⟨.error (.columnNotFound (.absentFrom "hits" "n")), [], .empty⟩ := by
  let t : Table := ⟨unevenDamaged.finish.2, unevenHits⟩
  let cut : List Visit := (List.range 3).flatMap (startingIn unevenX unevenY unevenX)
  let bad : Visit := ⟨1, unevenY, ⟨3, 2, 172, 38, 32⟩⟩
  have hfirst : FirstFailing (·.failure? t.data) (visits t ⟨"x", "y", "x", .standard⟩) cut bad
      (blockError (.sizeMismatch 0 32)) := by
    have hcut : ∀ v ∈ cut, v.block.Within unevenDamaged.written ∧
        v.failure? unevenDamaged.written = none := by decide +kernel
    have hbad : bad.block.Within unevenDamaged.written ∧ bad.failure? unevenDamaged.written =
        some (blockError (.sizeMismatch 0 32)) := by decide +kernel
    refine ⟨⟨_, uneven_visits t.data⟩, ?_, (failure?_finish hbad.1).trans hbad.2⟩
    intro v hv
    exact (failure?_finish (hcut v hv).1).trans (hcut v hv).2
  have hbound : ∀ n ∈ (⟨"x", "y", "x", .standard⟩ : ScanOptions).names,
      Table.refusal? ⟨unevenDamaged.finish.2, unevenHits⟩ n = none := by decide
  have hbad : bad ∈ visits t ⟨"x", "y", "x", .standard⟩ := by
    obtain ⟨after, hsplit⟩ := hfirst.split
    rw [hsplit]
    exact List.mem_append_right cut List.mem_cons_self
  obtain ⟨before, v, fault, hfound, hsteps, hsilent⟩ :=
    ((run_fails_at_first _ _ _ unevenDamaged_opens "hits" t rfl ⟨"x", "y", "x", .standard⟩
      .empty).2 hbound).1 ⟨bad, hbad, by rw [hfirst.failure]; exact Option.some_ne_none _⟩
  obtain ⟨rfl, -, hfault⟩ := hfirst.unique hfound
  have hrefused : Table.refusal? ⟨unevenDamaged.finish.2, unevenHits⟩ "n" =
      some (.absentFrom "hits" "n") := by decide
  obtain ⟨before', n, fault', hfound', hrun, -⟩ :=
    (run_fails_at_first _ _ _ unevenDamaged_opens "hits" t rfl ⟨"x", "n", "q", .standard⟩
      .empty).1 ⟨"n", by decide, by rw [hrefused]; exact Option.some_ne_none _⟩
  have hsecond : FirstFailing t.refusal? (⟨"x", "n", "q", .standard⟩ : ScanOptions).names ["x"] "n"
      (.absentFrom "hits" "n") := ⟨⟨["q"], rfl⟩, by decide, hrefused⟩
  obtain ⟨-, -, rfl⟩ := hsecond.unique hfound'
  exact ⟨_, t, unevenDamaged_opens, rfl, hsteps, hfault ▸ hsilent, hrun⟩

end Pass
end Columnar
