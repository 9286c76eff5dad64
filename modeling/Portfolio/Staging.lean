/-
# No position is taken twice

`UNIQUE (organization_id, initiative_id, position)` is checked at every row
of a reorder: at each one the staging UPDATE moves, in whatever order it
visits them, and at each one the loop writes. Positions are at most
`maxPosition`, which is below every staged one, so a staged position meets no
committed one; and of two rows that are both staged, or both written, the
positions differ because they did before, or because the items' do.

Key definitions: `Staging`, `Placing`, `Matches`.
Key theorems: `stageRows_total`, `Placing.write`, `Placing.step`,
`reorderAccepts_iff`.
-/
import Portfolio.Admission

namespace Portfolio

open Txn

/-- The greatest position a handler admits. -/
def maxPosition : ℤ := 10000

section
variable {o i : String} {r row : ProjectRow} {rs rows : List ProjectRow} {item : ReorderInput}
  {items : List ReorderInput}

/-- Nobody else holds the row's position. -/
theorem positionTaken_eq_false : Sql.positionTaken rows row = false ↔
    ∀ x ∈ rows, x.projectId ≠ row.projectId → x.position ≠ row.position := by
  simp only [Sql.positionTaken, List.any_eq_false, Bool.and_eq_true, decide_eq_true_eq, not_and]

/-! ### The staging UPDATE -/

/-- Where the staging UPDATE stands, with `rs` still to visit among `rows`: the rows to visit have positions that a
handler admits, each its own, and every row has one of these or one that nobody is to be moved to. -/
structure Staging (rs rows : List ProjectRow) : Prop where
  admitted : ∀ r ∈ rs, r.position ≤ maxPosition
  checked : ∀ r ∈ rs, r.checks = true
  apart : (rs.map (·.position)).Nodup
  free : ∀ x ∈ rows, x.position ≤ maxPosition ∨ ∀ r ∈ rs, x.position ≠ (Sql.staged r).position

theorem staged_checks (h : r.checks = true) : (Sql.staged r).checks = true := by
  have hposition : (Sql.staged r).position = r.position + 1000000 := rfl
  rw [ProjectRow.checks_iff] at h ⊢
  refine ⟨?_, h.2⟩
  have := h.1
  omega

/-- The next row finds its staged position free. -/
theorem Staging.visit (h : Staging (r :: rs) rows) : integer (Sql.staged r).position = true ∧
    (Sql.staged r).checks = true ∧ Sql.positionTaken rows (Sql.staged r) = false := by
  have hle := h.admitted r List.mem_cons_self
  have hchecks := h.checked r List.mem_cons_self
  have hpos := (ProjectRow.checks_iff.mp hchecks).1
  have hstaged : (Sql.staged r).position = r.position + 1000000 := rfl
  unfold maxPosition at hle
  refine ⟨?_, staged_checks hchecks, ?_⟩
  · unfold integer
    rw [decide_eq_true_eq, hstaged]
    omega
  · rw [positionTaken_eq_false]
    intro x hx _ he
    rcases h.free x hx with hlow | hapart
    · unfold maxPosition at hlow
      omega
    · exact hapart r List.mem_cons_self he

/-- Moving it leaves the others free. -/
theorem Staging.step (h : Staging (r :: rs) rows) : Staging rs (Table.put ProjectRow.key (Sql.staged r) rows) where
  admitted x hx := h.admitted x (List.mem_cons_of_mem _ hx)
  checked x hx := h.checked x (List.mem_cons_of_mem _ hx)
  apart := (List.nodup_cons.mp h.apart).2
  free x hx := by
    rcases (Table.mem_put _).mp hx with ⟨hx, -⟩ | ⟨rfl, -⟩
    · rcases h.free x hx with hlow | hapart
      · exact Or.inl hlow
      · exact Or.inr fun y hy => hapart y (List.mem_cons_of_mem _ hy)
    · refine Or.inr fun y hy he => ?_
      have hsame : r.position + 1000000 = y.position + 1000000 := he
      have hpos : y.position = r.position := by omega
      exact (List.nodup_cons.mp h.apart).1 (List.mem_map.mpr ⟨y, hy, hpos⟩)

/-- **The staging UPDATE never fails**, whatever order it visits the rows in. -/
theorem stageRows_total : ∀ {rs rows : List ProjectRow}, Staging rs rows → ∃ ws, Sql.stageRows rs rows = .ok ws
  | [], _, _ => ⟨[], rfl⟩
  | r :: rs, rows, h => by
    obtain ⟨hinteger, hchecks, hfree⟩ := h.visit
    obtain ⟨ws, hws⟩ := stageRows_total h.step
    refine ⟨.setProject (Sql.staged r) :: ws, ?_⟩
    rw [Sql.stageRows, hinteger, hchecks, hfree, hws]
    rfl

/-! ### The loop over the items -/

/-- Where the loop stands, with `items` still to write among `rows`: the rows still staged are above every position
an item asks for, and the ones already written have none that an item to come asks for. -/
structure Placing (items : List ReorderInput) (rows : List ProjectRow) : Prop where
  admitted : ∀ item ∈ items, 0 ≤ item.position ∧ item.position ≤ maxPosition
  apart : (items.map (·.position)).Nodup
  present : ∀ item ∈ items, item.projectId ∈ rows.map (·.projectId)
  checked : ∀ x ∈ rows, x.checks = true
  free : ∀ x ∈ rows, maxPosition < x.position ∨ ∀ item ∈ items, x.position ≠ item.position

theorem placed_checks {position : ℤ} (h : row.checks = true) (hp : 0 ≤ position) :
    (Sql.placed position row).checks = true := by
  have hposition : (Sql.placed position row).position = position := rfl
  have hrevision : (Sql.placed position row).membershipRevision = row.membershipRevision + 1 := rfl
  rw [ProjectRow.checks_iff] at h ⊢
  refine ⟨hposition ▸ hp, ?_, h.2.2⟩
  have := h.2.1
  omega

/-- The next item's position is free. -/
theorem Placing.write (h : Placing (item :: items) rows) (hrow : row ∈ rows) :
    integer item.position = true ∧ (Sql.placed item.position row).checks = true ∧
      Sql.positionTaken rows (Sql.placed item.position row) = false := by
  obtain ⟨hpos, hle⟩ := h.admitted item List.mem_cons_self
  unfold maxPosition at hle
  refine ⟨?_, placed_checks (h.checked row hrow) hpos, ?_⟩
  · unfold integer
    rw [decide_eq_true_eq]
    omega
  · rw [positionTaken_eq_false]
    intro x hx _ he
    have hsame : x.position = item.position := he
    rcases h.free x hx with hhigh | hapart
    · unfold maxPosition at hhigh
      omega
    · exact hapart item List.mem_cons_self hsame

/-- Writing it leaves the others free. -/
theorem Placing.step (h : Placing (item :: items) rows) (hrow : row ∈ rows) :
    Placing items (Table.put ProjectRow.key (Sql.placed item.position row) rows) where
  admitted x hx := h.admitted x (List.mem_cons_of_mem _ hx)
  apart := (List.nodup_cons.mp h.apart).2
  present x hx := by
    obtain ⟨y, hy, he⟩ := List.mem_map.mp (h.present x (List.mem_cons_of_mem _ hx))
    have hids : (Table.put ProjectRow.key (Sql.placed item.position row) rows).map (·.projectId) =
        rows.map (·.projectId) := by
      have hkeys := congrArg (List.map fun k : String × String × String => k.2.2)
        (Table.map_key_put ProjectRow.key (Sql.placed item.position row) rows)
      rw [List.map_map, List.map_map] at hkeys
      exact hkeys
    rw [hids]
    exact List.mem_map.mpr ⟨y, hy, he⟩
  checked x hx := by
    rcases (Table.mem_put _).mp hx with ⟨hx, -⟩ | ⟨rfl, -⟩
    · exact h.checked x hx
    · exact (h.write hrow).2.1
  free x hx := by
    rcases (Table.mem_put _).mp hx with ⟨hx, -⟩ | ⟨rfl, -⟩
    · rcases h.free x hx with hhigh | hapart
      · exact Or.inl hhigh
      · exact Or.inr fun y hy => hapart y (List.mem_cons_of_mem _ hy)
    · refine Or.inr fun y hy he => ?_
      have hsame : item.position = y.position := he
      exact (List.nodup_cons.mp h.apart).1 (List.mem_map.mpr ⟨y, hy, hsame.symm⟩)

end

/-! ### From the tables -/

section
variable {F : Facts} {o i : String} {r : Option InitiativeRow} {ps rs : List ProjectRow} {us : List UpdateRow}
  {items : List ReorderInput}

/-- The memberships of an initiative may be staged in any order. -/
theorem staging_of_represented (h : Represented r ps us) (hle : ∀ p ∈ ps, p.position ≤ maxPosition)
    (hperm : rs.Perm ps) : Staging rs ps where
  admitted p hp := hle p (hperm.mem_iff.mp hp)
  checked p hp := h.checked p (hperm.mem_iff.mp hp)
  apart := (hperm.map _).nodup_iff.mpr h.positions
  free p hp := Or.inl (hle p hp)

/-- Once they are staged, items that are accepted may be written. -/
theorem placing_of_accepts (h : Represented r (F.projectsOf o i) us)
    (haccepts : reorderAccepts (F.order o i) items = true)
    (hitems : ∀ item ∈ items, 0 ≤ item.position ∧ item.position ≤ maxPosition) :
    Placing items ((F.projectsOf o i).map Sql.staged) where
  admitted := hitems
  apart := (reorderAccepts_spec haccepts).2.2.2.1
  present item hitem := by
    have hids : ((F.projectsOf o i).map Sql.staged).map (·.projectId) = (F.projectsOf o i).map (·.projectId) := by
      rw [List.map_map]
      rfl
    rw [hids]
    exact (reorder_perm haccepts).mem_iff.mp (List.mem_map.mpr ⟨item, hitem, rfl⟩)
  checked x hx := by
    obtain ⟨p, hp, rfl⟩ := List.mem_map.mp hx
    exact staged_checks (h.checked p hp)
  free x hx := by
    obtain ⟨p, hp, rfl⟩ := List.mem_map.mp hx
    have hpos := (ProjectRow.checks_iff.mp (h.checked p hp)).1
    have hstaged : (Sql.staged p).position = p.position + 1000000 := rfl
    refine Or.inl ?_
    unfold maxPosition
    omega

/-! ### What a reorder accepts -/

/-- The items name exactly the memberships, each once, with its current revision, at distinct positions. -/
structure Matches (F : Facts) (o i : String) (items : List ReorderInput) : Prop where
  nonempty : items ≠ []
  projects : (items.map (·.projectId)).Nodup
  positions : (items.map (·.position)).Nodup
  members : ∀ p, p ∈ items.map (·.projectId) ↔ p ∈ (F.projectsOf o i).map (·.projectId)
  current : ∀ item ∈ items, ∀ row ∈ F.projectsOf o i, row.projectId = item.projectId →
    row.membershipRevision = item.expectedMembershipRevision

theorem lookup_of_nodup {p : String} {n : ℤ} : ∀ {l : List (String × ℤ)}, (l.map (·.1)).Nodup → (p, n) ∈ l →
    l.lookup p = some n
  | [], _, h => (List.not_mem_nil h).elim
  | (p', n') :: l, hn, h => by
    obtain ⟨hnot, hn'⟩ := List.nodup_cons.mp hn
    rw [List.lookup_cons]
    rcases List.mem_cons.mp h with he | h
    · obtain ⟨rfl, rfl⟩ := Prod.mk.inj he
      simp
    · have hne : p ≠ p' := fun he => hnot (List.mem_map.mpr ⟨(p, n), h, he⟩)
      have hbeq : (p == p') = false := by simpa using hne
      rw [hbeq]
      exact lookup_of_nodup hn' h

/-- **A reorder accepts what matches the memberships**, and nothing else. -/
theorem reorderAccepts_iff (h : Represented r (F.projectsOf o i) us) :
    reorderAccepts (F.order o i) items = true ↔ Matches F o i items := by
  constructor
  · intro haccepts
    obtain ⟨hne, -, hids, hpositions, -, -⟩ := reorderAccepts_spec haccepts
    exact ⟨hne, hids, hpositions, fun p => (reorder_perm haccepts).mem_iff,
      fun item hitem row hrow he => reorder_expected haccepts hitem hrow he⟩
  · intro hm
    have hperm : (items.map (·.projectId)).Perm ((F.projectsOf o i).map (·.projectId)) :=
      (List.perm_ext_iff_of_nodup hm.projects h.projects).mpr hm.members
    have hlength : items.length = (F.projectsOf o i).length := by
      have := hperm.length_eq
      simpa using this
    have horder : (F.order o i).length = items.length := by
      rw [Facts.order, List.length_map, List.length_insertionSort, hlength]
    have hnodup : ((F.order o i).map (·.1)).Nodup := (perm_order F o i).nodup_iff.mpr h.projects
    have hlookup : ∀ item ∈ items, (F.order o i).lookup item.projectId = some item.expectedMembershipRevision := by
      intro item hitem
      obtain ⟨row, hrow, he⟩ := List.mem_map.mp ((hm.members item.projectId).mp (List.mem_map.mpr ⟨item, hitem, rfl⟩))
      refine lookup_of_nodup hnodup (List.mem_map.mpr ⟨row, (List.mem_insertionSort _).mpr hrow, ?_⟩)
      rw [he, hm.current item hitem row hrow he]
    have hcount := h.count
    simp only [reorderAccepts, Bool.and_eq_true, Bool.not_eq_true', decide_eq_true_eq, List.all_eq_true,
      List.isEmpty_eq_false_iff]
    refine ⟨⟨⟨⟨⟨hm.nonempty, by omega⟩, ?_⟩, ?_⟩, horder⟩, hlookup⟩
    · rw [hm.projects.dedup, List.length_map]
    · rw [hm.positions.dedup, List.length_map]

end

end Portfolio
