import Columnar.Proofs.Counting

/-! Tables in memory. The columns of a table that was built by adding them are those that were
added, all of one length, so every row of a column of doubles can be read. Putting the rows into
another order leaves names and types alone, and a pass counts the same rows. -/

namespace Columnar

theorem getElem?_filterMap_of_isSome {α : Type} {f : Nat → Option α} {order : List Nat}
    (h : ∀ i ∈ order, (f i).isSome) (k : Nat) : (order.filterMap f)[k]? = order[k]?.bind f := by
  induction order generalizing k with
  | nil => rfl
  | cons i order ih =>
    obtain ⟨hi, hr⟩ := List.forall_mem_cons.1 h
    obtain ⟨a, ha⟩ := Option.isSome_iff_exists.1 hi
    rw [List.filterMap_cons_some ha]
    cases k with
    | zero => exact ha.symm
    | succ k => exact ih hr k

theorem length_filterMap_of_isSome {α : Type} {f : Nat → Option α} {order : List Nat}
    (h : ∀ i ∈ order, (f i).isSome) : (order.filterMap f).length = order.length := by
  induction order with
  | nil => rfl
  | cons i order ih =>
    obtain ⟨hi, hr⟩ := List.forall_mem_cons.1 h
    obtain ⟨a, ha⟩ := Option.isSome_iff_exists.1 hi
    rw [List.filterMap_cons_some ha, List.length_cons, List.length_cons, ih hr]

theorem isSome_getElem?_of_lt {α : Type} {xs : Array α} {order : List Nat}
    (h : ∀ i ∈ order, i < xs.size) : ∀ i ∈ order, xs[i]?.isSome := by
  intro i hi
  rw [Array.getElem?_eq_getElem (h i hi)]
  rfl

namespace Values

def floats? : Values → Option (Array Binary64)
  | .floats xs => some xs
  | .ints _ => none

theorem floats?_eq_some {v : Values} {xs : Array Binary64} : v.floats? = some xs ↔ v = .floats xs := by
  cases v <;> simp [floats?]

def reorder (order : List Nat) : Values → Values
  | .floats xs => .floats (order.filterMap (xs[·]?)).toArray
  | .ints xs => .ints (order.filterMap (xs[·]?)).toArray

theorem size_reorder {order : List Nat} {v : Values} (h : ∀ i ∈ order, i < v.size) :
    (v.reorder order).size = order.length := by
  cases v with
  | floats xs => exact length_filterMap_of_isSome (isSome_getElem?_of_lt h)
  | ints xs => exact length_filterMap_of_isSome (isSome_getElem?_of_lt h)

theorem floats?_reorder (order : List Nat) (v : Values) :
    (v.reorder order).floats? =
      v.floats?.map fun xs => (order.filterMap (xs[·]?)).toArray := by
  cases v <;> rfl

end Values

def floatColumn (columns : List (String × Values)) (name : String) : Option (Array Binary64) :=
  (columns.find? fun c => c.1 = name).bind fun c => c.2.floats?

theorem floatColumn_eq_some {columns : List (String × Values)} {name : String}
    {xs : Array Binary64} (h : floatColumn columns name = some xs) :
    columns.find? (fun c => c.1 = name) = some (name, .floats xs) := by
  obtain ⟨⟨n, v⟩, hfind, hv⟩ := Option.bind_eq_some_iff.1 h
  obtain rfl : v = .floats xs := Values.floats?_eq_some.1 hv
  have hn : n = name := by simpa using List.find?_some hfind
  rw [hfind, hn]

namespace MemoryTable

variable {t : MemoryTable}

def addColumns (t : MemoryTable) : List (String × Values) → Except StoreError MemoryTable
  | [] => .ok t
  | (name, values) :: columns =>
    match t.add name values with
    | .error e => .error e
    | .ok t => addColumns t columns

def Regular (t : MemoryTable) : Prop := ∀ c ∈ t.columns, c.2.size = t.rowCount

theorem add_ok {t' : MemoryTable} {name : String} {values : Values}
    (h : t.add name values = .ok t') :
    t'.columns = t.columns ++ [(name, values)] ∧ (t.Regular → t'.Regular) := by
  unfold add at h
  split at h
  · cases h
  · split at h
    · rename_i hempty
      obtain rfl := Except.ok.inj h
      have hnil : t.columns = [] := List.isEmpty_iff.1 hempty
      refine ⟨by rw [hnil, List.nil_append], fun _ c hc => ?_⟩
      obtain rfl := List.mem_singleton.1 hc
      rfl
    · split at h
      · cases h
      · rename_i hsize
        obtain rfl := Except.ok.inj h
        refine ⟨rfl, fun hr c hc => ?_⟩
        rcases List.mem_append.1 hc with hc | hc
        · exact hr c hc
        · obtain rfl := List.mem_singleton.1 hc
          exact Decidable.not_not.1 hsize

theorem addColumns_ok {t' : MemoryTable} {columns : List (String × Values)} (hr : t.Regular)
    (h : t.addColumns columns = .ok t') : t'.columns = t.columns ++ columns ∧ t'.Regular := by
  induction columns generalizing t with
  | nil =>
    obtain rfl := Except.ok.inj h
    exact ⟨(List.append_nil _).symm, hr⟩
  | cons c columns ih =>
    obtain ⟨name, values⟩ := c
    rw [addColumns] at h
    split at h
    · cases h
    · rename_i t₁ hadd
      obtain ⟨hcols, hreg⟩ := add_ok hadd
      obtain ⟨hcols', hreg'⟩ := ih (hreg hr) h
      exact ⟨by rw [hcols', hcols, List.append_assoc, List.singleton_append], hreg'⟩

theorem empty_regular : empty.Regular := by
  intro c hc
  cases hc

theorem find?_eq_getElem? {name : String} {i : Nat}
    (h : t.columns.findIdx? (fun c => c.1 = name) = some i) :
    t.columns.find? (fun c => c.1 = name) = t.columns[i]? := by
  rw [List.find?_eq_bind_findIdx?_getElem?, h]
  rfl

theorem bind_floats {name : String} {xs : Array Binary64}
    (h : floatColumn t.columns name = some xs) :
    ∃ i, t.bind name = .ok i ∧ t.columns[i]? = some (name, .floats xs) := by
  have hfind := floatColumn_eq_some h
  rw [List.find?_eq_bind_findIdx?_getElem?] at hfind
  obtain ⟨i, hi, hcol⟩ := Option.bind_eq_some_iff.1 hfind
  refine ⟨i, ?_, hcol⟩
  simp only [bind, hi, hcol]

theorem presents (hr : t.Regular) : ColumnSource.Presents t (floatColumn t.columns) where
  missing name h := by
    change ∃ fault, t.bind name = _
    unfold bind
    cases hi : t.columns.findIdx? fun c => c.1 = name with
    | none => exact ⟨_, rfl⟩
    | some i =>
      dsimp only
      split
      · rename_i n xs hcol
        rw [floatColumn, find?_eq_getElem? hi, hcol] at h
        cases h
      · exact ⟨_, rfl⟩
  bound name xs h := by
    obtain ⟨i, hbind, -⟩ := bind_floats h
    exact ⟨i, hbind⟩
  reads name xs h row hrow := by
    obtain ⟨i, hbind, hcol⟩ := bind_floats h
    have hsize : xs.size = t.rowCount := hr _ (List.mem_of_getElem? hcol)
    have hrow' : row < t.rowCount := hrow
    have hx : xs[row]? = some xs[row] := Array.getElem?_eq_getElem (by omega)
    have hval : t.value i row = .ok xs[row] := by
      simp only [value, Nat.not_le.2 hrow', if_false, hcol, Option.bind_some, Values.floatAt?, hx]
    have hb : ColumnSource.bind t name = .ok i := hbind
    rw [ColumnSource.freshValue, hb, hx]
    exact hval

def reorder (t : MemoryTable) (names : List String) (order : List Nat) : MemoryTable :=
  ⟨t.rowCount, t.columns.map fun c => (c.1, if c.1 ∈ names then c.2.reorder order else c.2)⟩

theorem reorder_regular (hr : t.Regular) (names : List String) {order : List Nat}
    (hp : order.Perm (List.range t.rowCount)) : (t.reorder names order).Regular := by
  intro c hc
  obtain ⟨d, hd, rfl⟩ := List.mem_map.1 hc
  have hsize := hr d hd
  have hlt : ∀ i ∈ order, i < d.2.size := by
    intro i hi
    rw [hsize]
    exact List.mem_range.1 (hp.mem_iff.1 hi)
  by_cases hn : d.1 ∈ names
  · simp only [if_pos hn, Values.size_reorder hlt, hp.length_eq, List.length_range]
    rfl
  · simp only [if_neg hn]
    exact hsize

theorem floatColumn_reorder {names : List String} (order : List Nat) {name : String}
    (hn : name ∈ names) :
    floatColumn (t.reorder names order).columns name =
      (floatColumn t.columns name).map fun xs => (order.filterMap (xs[·]?)).toArray := by
  simp only [floatColumn, reorder, List.find?_map, Function.comp_def]
  cases hf : t.columns.find? fun c => c.1 = name with
  | none => rfl
  | some c =>
    have hc : c.1 = name := by simpa using List.find?_some hf
    simp only [Option.map_some, Option.bind_some, hc, if_pos hn, Values.floats?_reorder]

theorem bind_reorder (names : List String) (order : List Nat) (name : String) :
    (t.reorder names order).bind name = t.bind name := by
  simp only [bind, reorder, List.findIdx?_map, Function.comp_def, List.getElem?_map]
  cases t.columns.findIdx? fun c => c.1 = name with
  | none => rfl
  | some i =>
    dsimp only
    cases t.columns[i]? with
    | none => rfl
    | some c =>
      obtain ⟨n, v⟩ := c
      by_cases hn : n ∈ names
      · cases v <;> simp [hn, Values.reorder]
      · cases v <;> simp [hn]

end MemoryTable

namespace Pass

theorem bucketsOf_reorder {width : BucketWidth} {xs ys zs : Array Binary64} {count : Nat}
    {order : List Nat} (hp : order.Perm (List.range count)) (hx : xs.size = count)
    (hy : ys.size = count) (hz : zs.size = count) :
    (bucketsOf width (order.filterMap (xs[·]?)).toArray (order.filterMap (ys[·]?)).toArray
      (order.filterMap (zs[·]?)).toArray count).Perm (bucketsOf width xs ys zs count) := by
  have hlen : order.length = count := by
    rw [hp.length_eq, List.length_range]
  -- Row `i` of the reordered columns is row `order[i]` of the old ones, in all three alike.
  have horder : (List.range count).map (fun i => order.getD i 0) = order := by
    rw [← hlen]
    refine List.ext_getElem (by simp) fun i hi hi' => ?_
    simp [List.getElem?_eq_getElem hi']
  have hrow : ∀ {vs : Array Binary64}, vs.size = count → ∀ i ∈ List.range count,
      ((order.filterMap (vs[·]?)).toArray[i]?).getD default =
        vs[order.getD i 0]?.getD default := by
    intro vs hv i hi
    have hsome : ∀ j ∈ order, vs[j]?.isSome := by
      apply isSome_getElem?_of_lt
      intro j hj
      rw [hv]
      exact List.mem_range.1 (hp.mem_iff.1 hj)
    have hi' : i < order.length := by
      rw [hlen]
      exact List.mem_range.1 hi
    rw [List.getElem?_toArray, getElem?_filterMap_of_isSome hsome, List.getD_eq_getElem?_getD,
      List.getElem?_eq_getElem hi']
    rfl
  have hmap : bucketsOf width (order.filterMap (xs[·]?)).toArray
      (order.filterMap (ys[·]?)).toArray (order.filterMap (zs[·]?)).toArray count =
        order.map fun i => width.bucket (xs[i]?.getD default) (ys[i]?.getD default)
          (zs[i]?.getD default) := by
    conv_rhs => rw [← horder]
    rw [List.map_map]
    apply List.map_congr_left
    intro i hi
    rw [hrow hx i hi, hrow hy i hi, hrow hz i hi]
    rfl
  rw [hmap]
  exact hp.map _

theorem run_reorder {t : MemoryTable} (hr : t.Regular) {names : List String} {order : List Nat}
    (hp : order.Perm (List.range t.rowCount)) {options : ScanOptions}
    (hx : options.x ∈ names) (hy : options.y ∈ names) (hz : options.z ∈ names)
    (scratch scratch' : Scratch) :
    (run (t.reorder names order) options scratch').result = (run t options scratch).result := by
  have hr' := MemoryTable.reorder_regular hr names hp
  have hbind : bindAll (t.reorder names order) options = bindAll t options := by
    have hb : ∀ name, ColumnSource.bind (t.reorder names order) name = ColumnSource.bind t name :=
      MemoryTable.bind_reorder names order
    simp only [bindAll, hb]
  rcases hall : bindAll t options with e | ⟨a, b, c⟩
  · rw [run_result (MemoryTable.steady _), run_result (MemoryTable.steady _), hbind, hall]
    rfl
  · obtain ⟨ha, hb, hc⟩ := bindAll_eq_ok.1 hall
    have hcol : ∀ {name : String} {handle : Nat}, ColumnSource.bind t name = .ok handle →
        ∃ xs, floatColumn t.columns name = some xs ∧ xs.size = t.rowCount := by
      intro name handle hok
      cases hf : floatColumn t.columns name with
      | none =>
        obtain ⟨fault, he⟩ := (MemoryTable.presents hr).missing name hf
        rw [he] at hok
        cases hok
      | some xs =>
        exact ⟨xs, rfl, hr _ (List.mem_of_find?_eq_some (floatColumn_eq_some hf))⟩
    obtain ⟨xs, hxs, sx⟩ := hcol ha
    obtain ⟨ys, hys, sy⟩ := hcol hb
    obtain ⟨zs, hzs, sz⟩ := hcol hc
    rw [run_presents (MemoryTable.steady t) (MemoryTable.presents hr) hxs hys hzs,
      run_presents (MemoryTable.steady _) (MemoryTable.presents hr')
        (by rw [MemoryTable.floatColumn_reorder order hx, hxs]; rfl)
        (by rw [MemoryTable.floatColumn_reorder order hy, hys]; rfl)
        (by rw [MemoryTable.floatColumn_reorder order hz, hzs]; rfl)]
    have hsame := Histogram.ofBuckets_perm
      (@bucketsOf_reorder options.width xs ys zs _ order hp sx sy sz)
    exact congrArg (fun h => Except.ok (Tally.mk h t.rowCount)) hsame

end Pass
end Columnar
