/-
# Tables: lists of rows with a key

A table is the list of its rows. `put` is the UPDATE of the row with a given
key, `erase` the DELETE, and appending a row the INSERT. A condition on the
key (`Respects`) commutes with all three, which is what lets a part of a table
be followed through the changes of the whole.

Key definitions: `put`, `erase`, `Respects`, `Unique`.
Key theorems: `filter_put`, `filter_put_of_not`, `head?_put`, `Unique.append`.
-/
import Mathlib.Data.List.Nodup
import Mathlib.Data.List.Basic
import Mathlib.Data.Nat.Notation

namespace Table

variable {Row Key : Type} [DecidableEq Key] (key : Row → Key)

/-- The row takes the place of the one with its key. -/
def put (row : Row) (rows : List Row) : List Row :=
  rows.map fun r => if key r = key row then row else r

/-- The rows without the one with key `k`. -/
def erase (k : Key) (rows : List Row) : List Row := rows.filter fun r => key r ≠ k

/-- The condition `p` is one on the key. -/
def Respects (p : Row → Bool) : Prop := ∀ r r', key r = key r' → p r = p r'

/-- No two rows have the same key. -/
def Unique (rows : List Row) : Prop := (rows.map key).Nodup

theorem mem_put {row r : Row} {rows : List Row} : r ∈ put key row rows ↔
    (r ∈ rows ∧ key r ≠ key row) ∨ (r = row ∧ ∃ r' ∈ rows, key r' = key row) := by
  simp only [put, List.mem_map]
  constructor
  · rintro ⟨r', hr', rfl⟩
    by_cases hk : key r' = key row
    · rw [if_pos hk]; exact Or.inr ⟨rfl, r', hr', hk⟩
    · rw [if_neg hk]; exact Or.inl ⟨hr', hk⟩
  · rintro (⟨hr, hk⟩ | ⟨rfl, r', hr', hk⟩)
    · exact ⟨r, hr, if_neg hk⟩
    · exact ⟨r', hr', if_pos hk⟩

@[simp] theorem map_key_put (row : Row) (rows : List Row) : (put key row rows).map key = rows.map key := by
  rw [put, List.map_map]
  refine List.map_congr_left fun r _ => ?_
  by_cases hk : key r = key row
  · simp [hk]
  · simp [hk]

theorem Unique.put {row : Row} {rows : List Row} (h : Unique key rows) :
    Unique key (Table.put key row rows) := by
  rw [Unique, map_key_put]; exact h

theorem put_of_forall_ne {row : Row} {rows : List Row} (h : ∀ r ∈ rows, key r ≠ key row) :
    put key row rows = rows := by
  rw [put]
  conv_rhs => rw [← List.map_id rows]
  exact List.map_congr_left fun r hr => if_neg (h r hr)

theorem put_append (row : Row) (rows rows' : List Row) :
    put key row (rows ++ rows') = put key row rows ++ put key row rows' := List.map_append

theorem put_singleton {row r : Row} (h : key r = key row) : put key row [r] = [row] := by
  simp [put, h]

variable {key}

theorem filter_put {p : Row → Bool} (hp : Respects key p) (row : Row) : ∀ rows : List Row,
    (put key row rows).filter p = put key row (rows.filter p)
  | [] => rfl
  | r :: rows => by
    have ih := filter_put hp row rows
    simp only [put, List.map_cons] at ih ⊢
    by_cases hk : key r = key row
    · have hpr : p r = p row := hp r row hk
      cases hb : p row <;> simp [hk, hb, hpr, ih]
    · cases hb : p r <;> simp [hk, hb, ih]

/-- A part of the table that the row is not in does not see its UPDATE. -/
theorem filter_put_of_not {p : Row → Bool} (hp : Respects key p) {row : Row} (hr : p row = false)
    (rows : List Row) : (put key row rows).filter p = rows.filter p := by
  rw [filter_put hp]
  refine put_of_forall_ne key fun r hr' hk => ?_
  have h1 := (List.mem_filter.mp hr').2
  rw [hp r row hk, hr] at h1
  cases h1

/-- If all rows have the key of `row`, its UPDATE leaves `row` at the head. -/
theorem head?_put {row : Row} {rows : List Row} (h : ∀ r ∈ rows, key r = key row) (hne : rows ≠ []) :
    (put key row rows).head? = some row := by
  obtain ⟨r, rest, rfl⟩ := List.exists_cons_of_ne_nil hne
  simp [put, h r List.mem_cons_self]

/-- The row found by a condition on the key is found after its UPDATE, as the new one. -/
theorem find?_put {q : Row → Bool} (hq : Respects key q) {row old : Row} (hk : key row = key old) :
    ∀ {rows : List Row}, rows.find? q = some old → (put key row rows).find? q = some row
  | [], h => by simp at h
  | r :: rows, h => by
    by_cases hr : q r = true
    · have he : r = old := by simpa [hr] using h
      have hrow : q row = true := by rw [hq row r (hk.trans (congrArg key he.symm)), hr]
      simp [put, he, hk, hrow]
    · have hne : key r ≠ key row := by
        intro he
        have hold := List.find?_some h
        rw [hq r old (he.trans hk), hold] at hr
        exact hr rfl
      have h' : rows.find? q = some old := by simpa [hr] using h
      have ih := find?_put hq hk h'
      rw [put] at ih ⊢
      simpa [hne, hr] using ih

theorem find?_put_of_not {q : Row → Bool} (hq : Respects key q) {row : Row} (hr : q row = false)
    (rows : List Row) : (put key row rows).find? q = rows.find? q := by
  rw [← List.head?_filter, ← List.head?_filter, filter_put_of_not hq hr]

/-- The UPDATEs of rows with distinct keys, one after another, are one pass over the table. -/
theorem foldl_put {f : Row → Row} (hf : ∀ r, key (f r) = key r) : ∀ (rs rows : List Row), Unique key rs →
    rs.foldl (fun rows r => put key (f r) rows) rows =
      rows.map fun r => ((rs.find? fun x => key x = key r).map f).getD r
  | [], rows, _ => by simp
  | r :: rs, rows, h => by
    obtain ⟨hr, hrs⟩ := List.nodup_cons.mp h
    rw [List.foldl_cons, foldl_put hf rs _ hrs, put, List.map_map]
    refine List.map_congr_left fun x _ => ?_
    by_cases hx : key x = key r
    · have hnone : rs.find? (fun y => key y = key r) = none := by
        refine List.find?_eq_none.mpr fun y hy he => hr (List.mem_map.mpr ⟨y, hy, by simpa using he⟩)
      simp [hx, hf, hnone]
    · have hx' : ¬ key r = key x := fun he => hx he.symm
      simp [hx, hx', hf]

theorem filter_erase (p : Row → Bool) (k : Key) (rows : List Row) :
    (erase key k rows).filter p = erase key k (rows.filter p) := by
  simp only [erase, List.filter_filter, Bool.and_comm]

theorem filter_erase_of_not {p : Row → Bool} {k : Key} (hk : ∀ r, key r = k → p r = false)
    (rows : List Row) : (erase key k rows).filter p = rows.filter p := by
  rw [filter_erase, erase, List.filter_eq_self]
  intro r hr
  have h1 := (List.mem_filter.mp hr).2
  simp only [ne_eq, decide_not, Bool.not_eq_eq_eq_not, Bool.not_true, decide_eq_false_iff_not]
  intro he
  rw [hk r he] at h1
  cases h1

omit [DecidableEq Key] in
theorem Unique.append {row : Row} {rows : List Row} (h : Unique key rows)
    (hn : ∀ r ∈ rows, key r ≠ key row) : Unique key (rows ++ [row]) := by
  rw [Unique, List.map_append, List.nodup_append]
  refine ⟨h, by simp, fun a ha b hb => ?_⟩
  obtain ⟨r, hr, rfl⟩ := List.mem_map.mp ha
  simp only [List.map_cons, List.map_nil, List.mem_singleton] at hb
  exact hb ▸ hn r hr

omit [DecidableEq Key] in
theorem Unique.eq {rows : List Row} (h : Unique key rows) {r r' : Row} (hr : r ∈ rows) (hr' : r' ∈ rows)
    (hk : key r = key r') : r = r' := List.inj_on_of_nodup_map h hr hr' hk

/-- What the UPDATE of a row leaves alone of it, it leaves alone of the table. -/
theorem map_put {β : Type*} {f : Row → β} {row row' : Row} {rows : List Row} (h : Unique key rows)
    (hrow : row ∈ rows) (hk : key row' = key row) (hf : f row' = f row) : (put key row' rows).map f = rows.map f := by
  rw [put, List.map_map]
  refine List.map_congr_left fun r hr => ?_
  by_cases hkr : key r = key row'
  · rw [Function.comp_apply, if_pos hkr, hf, h.eq hr hrow (hkr.trans hk)]
  · rw [Function.comp_apply, if_neg hkr]

end Table
