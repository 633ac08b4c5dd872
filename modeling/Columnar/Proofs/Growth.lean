import Columnar.Proofs.InMemory

/-! Tables in memory as they grow. A column that is refused leaves the table as it was, and one that
is taken goes behind the others, so every later table starts with the columns of every earlier one.
A handle is a place among the columns, and the column in that place stays the same. -/

namespace Columnar
namespace MemoryTable

def offer (t : MemoryTable) (column : String × Values) : Except StoreError Unit × MemoryTable :=
  match t.add column.1 column.2 with
  | .error e => (.error e, t)
  | .ok grown => (.ok (), grown)

def offerAll (t : MemoryTable) :
    List (String × Values) → List ((String × Values) × Except StoreError Unit) × MemoryTable
  | [] => ([], t)
  | column :: columns =>
    let (result, t) := t.offer column
    let (log, t) := offerAll t columns
    ((column, result) :: log, t)

def taken (log : List ((String × Values) × Except StoreError Unit)) : List (String × Values) :=
  (log.filter fun call => call.2.isOk).map Prod.fst

structure Shaped (t : MemoryTable) : Prop where
  nodup : t.names.Nodup
  regular : t.Regular

theorem empty_shaped : empty.Shaped := ⟨List.nodup_nil, empty_regular⟩

structure Grows (t u : MemoryTable) (new : List (String × Values)) : Prop where
  columns : u.columns = t.columns ++ new
  rows : t.columns ≠ [] → u.rowCount = t.rowCount
  shaped : t.Shaped → u.Shaped

namespace Grows

variable {t u v : MemoryTable} {new more : List (String × Values)}

theorem refl (t : MemoryTable) : t.Grows t [] := ⟨(List.append_nil _).symm, fun _ => rfl, id⟩

theorem trans (h : t.Grows u new) (k : u.Grows v more) : t.Grows v (new ++ more) where
  columns := by rw [k.columns, h.columns, List.append_assoc]
  rows hne := by
    have hu : u.columns ≠ [] := by simp [h.columns, hne]
    rw [k.rows hu, h.rows hne]
  shaped ht := k.shaped (h.shaped ht)

theorem getElem? (h : t.Grows u new) {place : Nat} {column : String × Values}
    (hcol : t.columns[place]? = some column) : u.columns[place]? = some column := by
  obtain ⟨hlt, -⟩ := List.getElem?_eq_some_iff.1 hcol
  rw [h.columns, List.getElem?_append_left hlt, hcol]

end Grows

variable {t u : MemoryTable}

theorem grows_of_add {name : String} {values : Values} (h : t.add name values = .ok u) :
    t.Grows u [(name, values)] := by
  obtain ⟨hcols, hreg⟩ := add_ok h
  unfold add at h
  split at h
  · cases h
  rename_i hname
  refine ⟨hcols, ?_, ?_⟩
  · intro hne
    rw [if_neg (by simpa using hne)] at h
    split at h
    · cases h
    · obtain rfl := Except.ok.inj h
      rfl
  · intro ht
    refine ⟨?_, hreg ht.regular⟩
    rw [names, hcols, List.map_append, List.map_singleton, List.nodup_append]
    refine ⟨ht.nodup, List.nodup_singleton _, ?_⟩
    rintro n hn m hm rfl
    obtain rfl := List.mem_singleton.1 hm
    exact hname hn

theorem offer_grows (t : MemoryTable) (column : String × Values) :
    t.Grows (t.offer column).2 (taken [(column, (t.offer column).1)]) := by
  unfold offer
  cases hadd : t.add column.1 column.2 with
  | error e => exact .refl t
  | ok grown => exact grows_of_add hadd

theorem taken_cons (call : (String × Values) × Except StoreError Unit)
    (log : List ((String × Values) × Except StoreError Unit)) :
    taken (call :: log) = taken [call] ++ taken log := by
  simp only [taken, ← List.map_append, ← List.filter_append, List.singleton_append]

theorem offerAll_grows (t : MemoryTable) (columns : List (String × Values)) :
    t.Grows (t.offerAll columns).2 (taken (t.offerAll columns).1) := by
  induction columns generalizing t with
  | nil => exact .refl t
  | cons column columns ih =>
    rw [offerAll, taken_cons]
    exact (t.offer_grows column).trans (ih (t.offer column).2)

theorem getElem?_of_bind {name : String} {handle : Nat} (h : t.bind name = .ok handle) :
    ∃ xs, t.columns[handle]? = some (name, .floats xs) := by
  unfold bind at h
  split at h
  · cases h
  rename_i place hplace
  split at h
  · rename_i found xs hcol
    obtain rfl := Except.ok.inj h
    have hfind := find?_eq_getElem? hplace
    rw [hcol] at hfind
    have hname : found = name := by simpa using List.find?_some hfind
    exact ⟨xs, by rw [hcol, hname]⟩
  · cases h

theorem value_eq (hr : t.Regular) {handle : Nat} {name : String} {xs : Array Binary64}
    (hcol : t.columns[handle]? = some (name, .floats xs)) (row : Nat) :
    t.value handle row =
      if h : row < xs.size then .ok xs[row] else .error (.invalidRow row t.rowCount) := by
  have hsize : xs.size = t.rowCount := hr _ (List.mem_of_getElem? hcol)
  rw [value, ← hsize]
  by_cases hrow : row < xs.size
  · rw [if_neg (Nat.not_le.2 hrow), dif_pos hrow, hcol]
    simp only [Option.bind_some, Values.floatAt?, Array.getElem?_eq_getElem hrow]
  · rw [if_pos (Nat.not_lt.1 hrow), dif_neg hrow]

/-- However a table was built, its columns are those that were taken, in their order, with distinct
names and one length; and a handle reads the column it was bound on in every later table. -/
theorem handles_outlive_growth (calls : List (String × Values))
    (log : List ((String × Values) × Except StoreError Unit)) (t : MemoryTable)
    (h : empty.offerAll calls = (log, t)) :
    t.names.Nodup ∧ t.columns = taken log ∧ (∀ column ∈ t.columns, column.2.size = t.rowCount) ∧
      ∀ (more : List (String × Values)) (log' : List ((String × Values) × Except StoreError Unit))
        (u : MemoryTable), t.offerAll more = (log', u) →
        (t.columns ≠ [] → u.rowCount = t.rowCount) ∧
        ∀ name handle, ColumnSource.bind t name = .ok handle →
          ∃ xs, (name, .floats xs) ∈ t.columns ∧ ∀ row scratch,
            (row < u.rowCount → ∃ x, xs[row]? = some x ∧
              ColumnSource.read u handle row scratch = ⟨.ok x, handle, none, scratch⟩) ∧
            (u.rowCount ≤ row → ColumnSource.read u handle row scratch =
              .refused handle scratch (.invalidRow row u.rowCount)) := by
  have hgrown := empty.offerAll_grows calls
  rw [h] at hgrown
  have hshaped := hgrown.shaped empty_shaped
  refine ⟨hshaped.nodup, hgrown.columns, hshaped.regular, ?_⟩
  intro more log' u hmore
  have hlater := t.offerAll_grows more
  rw [hmore] at hlater
  refine ⟨hlater.rows, ?_⟩
  intro name handle hbind
  obtain ⟨xs, hcol⟩ := getElem?_of_bind hbind
  have hreg := (hlater.shaped hshaped).regular
  have hkept := hlater.getElem? hcol
  have hsize : xs.size = u.rowCount := hreg _ (List.mem_of_getElem? hkept)
  refine ⟨xs, List.mem_of_getElem? hcol, ?_⟩
  intro row scratch
  have hread : ColumnSource.read u handle row scratch =
      ⟨u.value handle row, handle, none, scratch⟩ := rfl
  rw [hread, value_eq hreg hkept row]
  constructor
  · intro hrow
    rw [dif_pos (hsize ▸ hrow)]
    exact ⟨_, Array.getElem?_eq_getElem _, rfl⟩
  · intro hrow
    rw [dif_neg (by omega)]
    rfl

theorem mixedColumns_outlive_growth : ∃ log t log' u,
    empty.offerAll [("x", .floats #[⟨0⟩, ⟨1⟩]), ("x", .ints #[1, 2]), ("n", .ints #[1])] =
        (log, t) ∧
      t.names.Nodup ∧ t.columns = taken log ∧ t.columns ≠ [] ∧
      t.offerAll [("n", .ints #[3, 4]), ("n", .floats #[⟨5⟩]), ("y", .floats #[])] = (log', u) ∧
      u.names = ["x", "n"] ∧ u.rowCount = t.rowCount ∧ ColumnSource.bind t "x" = .ok 0 ∧
      ColumnSource.read u 0 1 .empty = ⟨.ok ⟨1⟩, 0, none, .empty⟩ ∧
      ColumnSource.read u 0 2 .empty = .refused 0 .empty (.invalidRow 2 2) := by
  obtain ⟨hnodup, hcols, -, hlater⟩ := handles_outlive_growth
    [("x", .floats #[⟨0⟩, ⟨1⟩]), ("x", .ints #[1, 2]), ("n", .ints #[1])] _ _ rfl
  obtain ⟨hrows, hread⟩ := hlater
    [("n", .ints #[3, 4]), ("n", .floats #[⟨5⟩]), ("y", .floats #[])] _ _ rfl
  obtain ⟨xs, hmem, hrow⟩ := hread "x" 0 rfl
  obtain rfl : xs = #[⟨0⟩, ⟨1⟩] := by
    rw [hcols] at hmem
    simpa [offerAll, offer, add, names, empty, taken, Except.isOk, Except.toBool] using hmem
  obtain ⟨x, hx, hfirst⟩ := (hrow 1 .empty).1 (by decide)
  obtain rfl : (⟨1⟩ : Binary64) = x := Option.some.inj hx
  exact ⟨_, _, _, _, rfl, hnodup, hcols, by decide, rfl, rfl, hrows (by decide), rfl, hfirst,
    (hrow 2 .empty).2 (by decide)⟩

end MemoryTable
end Columnar
