/-
# The reorder of the memberships

`reorder_projects` moves all positions out of the way and writes the new ones
row by row. What it asks of its items makes the two loops one pass over the
table: the items name exactly the current memberships, each once
(`reorder_item`), so no staged position is left.

Key definitions: `reordered`, `reorderOutput`, `Facts.order`.
Key theorems: `reorderAccepts_spec`, `reorder_item`, `stageOrder_ok`,
`writeOrder_ok`.
-/
import Portfolio.Inversion
import Mathlib.Data.List.Dedup

namespace Portfolio

open Txn Txn.Prog

/-- The memberships after a reorder: each of the initiative's rows takes the
position of its item. -/
def reordered (o i : String) (items : List ReorderInput) (row : ProjectRow) : ProjectRow :=
  if row.at o i then
    match items.find? fun item => item.projectId = row.projectId with
    | some item => Sql.placed item.position row
    | none => row
  else row

/-- The answer of a reorder before it is sorted: each item with the new revision of its row. -/
def reorderOutput (items : List ReorderInput) : List ReorderItemRecord :=
  items.map fun item => ⟨item.projectId, item.position, toString (item.expectedMembershipRevision + 1)⟩

/-- What `reorder_projects` reads of the memberships it locks. -/
def Facts.order (F : Facts) (o i : String) : List (String × ℤ) :=
  ((F.projectsOf o i).insertionSort fun r s => r.projectId ≤ s.projectId).map
    fun r => (r.projectId, r.membershipRevision)

theorem reordered_at (o i o' i' : String) (items : List ReorderInput) (row : ProjectRow) :
    (reordered o' i' items row).at o i = row.at o i := by
  unfold reordered
  split
  · split <;> rfl
  · rfl

theorem reordered_projectId (o i : String) (items : List ReorderInput) (row : ProjectRow) :
    (reordered o i items row).projectId = row.projectId := by
  unfold reordered
  split
  · split <;> rfl
  · rfl

/-- A reorder of one initiative, seen from any. -/
theorem filter_reordered (o i o' i' : String) (items : List ReorderInput) (rows : List ProjectRow) :
    (rows.map (reordered o' i' items)).filter (ProjectRow.at o i) =
      (rows.filter (ProjectRow.at o i)).map (reordered o' i' items) := by
  rw [List.filter_map]
  exact congrArg _ (List.filter_congr fun row _ => reordered_at o i o' i' items row)

/-! ### What the items must be -/

section
variable {F : Facts} {o i : String} {items : List ReorderInput}

theorem nodup_of_dedup_length {α : Type} [DecidableEq α] {l : List α} (h : l.dedup.length = l.length) :
    l.Nodup :=
  List.dedup_eq_self.mp ((List.dedup_sublist l).eq_of_length h)

theorem reorderAccepts_spec {current : List (String × ℤ)} (h : reorderAccepts current items = true) :
    items ≠ [] ∧ items.length ≤ maxProjectsPerInitiative ∧ (items.map (·.projectId)).Nodup ∧
      (items.map (·.position)).Nodup ∧ current.length = items.length ∧
      ∀ item ∈ items, current.lookup item.projectId = some item.expectedMembershipRevision := by
  simp only [reorderAccepts, Bool.and_eq_true, Bool.not_eq_true', decide_eq_true_eq, List.all_eq_true,
    List.isEmpty_eq_false_iff] at h
  obtain ⟨⟨⟨⟨⟨hne, hlen⟩, hids⟩, hpos⟩, hcur⟩, hall⟩ := h
  refine ⟨hne, hlen, nodup_of_dedup_length ?_, nodup_of_dedup_length ?_, hcur, hall⟩
  · rw [hids, List.length_map]
  · rw [hpos, List.length_map]

theorem mem_of_lookup {k : String} {v : ℤ} : ∀ {l : List (String × ℤ)}, l.lookup k = some v → (k, v) ∈ l
  | [], h => by simp at h
  | (k', v') :: l, h => by
    rw [List.lookup_cons] at h
    split at h
    · rename_i he
      have hk : k = k' := by simpa using he
      rw [hk, ← Option.some.inj h]
      exact List.mem_cons_self
    · exact List.mem_cons_of_mem _ (mem_of_lookup h)

theorem perm_order (F : Facts) (o i : String) :
    ((F.order o i).map (·.1)).Perm ((F.projectsOf o i).map (·.projectId)) := by
  rw [Facts.order, List.map_map]
  exact (List.perm_insertionSort _ _).map _

/-- The items name exactly the memberships. -/
theorem reorder_perm (h : reorderAccepts (F.order o i) items = true) :
    (items.map (·.projectId)).Perm ((F.projectsOf o i).map (·.projectId)) := by
  obtain ⟨-, -, hids, -, hlen, hall⟩ := reorderAccepts_spec h
  refine List.Perm.trans ?_ (perm_order F o i)
  refine (List.subperm_of_subset hids fun p hp => ?_).perm_of_length_le ?_
  · obtain ⟨item, hitem, rfl⟩ := List.mem_map.mp hp
    exact List.mem_map.mpr ⟨_, mem_of_lookup (hall item hitem), rfl⟩
  · simp only [List.length_map, hlen, le_refl]

theorem reorder_nodup (h : reorderAccepts (F.order o i) items = true) :
    ((F.projectsOf o i).map (·.projectId)).Nodup :=
  (reorder_perm h).nodup_iff.mp (reorderAccepts_spec h).2.2.1

theorem unique_projectsOf (h : ((F.projectsOf o i).map (·.projectId)).Nodup) :
    Table.Unique ProjectRow.key (F.projectsOf o i) := by
  refine List.Nodup.map_on (fun r hr s hs he => ?_) (List.Nodup.of_map _ h)
  simp only [ProjectRow.key, Prod.mk.injEq] at he
  exact List.inj_on_of_nodup_map h hr hs he.2.2

/-- An item expects the revision of the membership it names. -/
theorem reorder_expected (h : reorderAccepts (F.order o i) items = true) {item : ReorderInput}
    (hitem : item ∈ items) {p : ProjectRow} (hp : p ∈ F.projectsOf o i)
    (he : p.projectId = item.projectId) : p.membershipRevision = item.expectedMembershipRevision := by
  obtain ⟨-, -, -, -, -, hall⟩ := reorderAccepts_spec h
  obtain ⟨q, hq, hqe⟩ := List.mem_map.mp (mem_of_lookup (hall item hitem))
  obtain ⟨hqp, hqr⟩ := Prod.mk.inj hqe
  have hq' : q ∈ F.projectsOf o i := (List.mem_insertionSort _).mp hq
  have hqeq : q = p := List.inj_on_of_nodup_map (reorder_nodup h) hq' hp (hqp.trans he.symm)
  rw [← hqr, hqeq]

/-- Each membership has its item. -/
theorem reorder_item (h : reorderAccepts (F.order o i) items = true) {p : ProjectRow}
    (hp : p ∈ F.projectsOf o i) : ∃ item ∈ items, p.projectId = item.projectId ∧
      reordered o i items p = Sql.placed item.position p := by
  have hmem : p.projectId ∈ items.map (·.projectId) :=
    (reorder_perm h).mem_iff.mpr (List.mem_map.mpr ⟨p, hp, rfl⟩)
  obtain ⟨item', hitem', he'⟩ := List.mem_map.mp hmem
  cases hf : items.find? fun item => item.projectId = p.projectId with
  | none =>
    have := List.find?_eq_none.mp hf item' hitem'
    simp [he'] at this
  | some item =>
    have he : item.projectId = p.projectId := by simpa using List.find?_some hf
    have hat : p.at o i = true := (List.mem_filter.mp hp).2
    refine ⟨item, List.mem_of_find?_eq_some hf, he.symm, ?_⟩
    simp only [reordered, hat, if_true, hf]

end

/-! ### The two loops -/

section
variable {t t' : ℕ → Tick} {T T' : Tables} {o i : String}

/-- The memberships with every position of the initiative moved out of the way. -/
def stagedOrder (o i : String) (row : ProjectRow) : ProjectRow :=
  if row.at o i then Sql.staged row else row

theorem stageRows_ok : ∀ (rs rows : List ProjectRow) {ws : List Write},
    Sql.stageRows rs rows = .ok ws → ws = rs.map fun r => .setProject (Sql.staged r)
  | [], _, _, h => (Except.ok.inj h).symm
  | r :: rs, rows, ws, h => by
    rw [Sql.stageRows] at h
    split at h
    · cases h
    split at h
    · cases h
    split at h
    · cases h
    cases hrest : Sql.stageRows rs (Table.put ProjectRow.key (Sql.staged r) rows) with
    | error e => rw [hrest] at h; cases h
    | ok vs =>
      rw [hrest] at h
      rw [← Except.ok.inj h, stageRows_ok rs _ hrest, List.map_cons]

theorem applyAll_setProject (f : ProjectRow → ProjectRow) : ∀ (rs : List ProjectRow) (T : Tables),
    applyAll (rs.map fun r => Write.setProject (f r)) T =
      { T with projects := rs.foldl (fun rows r => Table.put ProjectRow.key (f r) rows) T.projects }
  | [], _ => rfl
  | _ :: rs, _ => applyAll_setProject f rs _

/-- The writes of the staging UPDATE, in whatever order it visits the rows. -/
theorem applyAll_staged {rs : List ProjectRow} (hperm : rs.Perm (T.projectsOf o i))
    (hu : Table.Unique ProjectRow.key (T.projectsOf o i)) :
    applyAll (rs.map fun r => Write.setProject (Sql.staged r)) T =
      { T with projects := T.projects.map (stagedOrder o i) } := by
  have huniq : Table.Unique ProjectRow.key rs := (hperm.map ProjectRow.key).nodup_iff.mpr hu
  rw [applyAll_setProject Sql.staged, @Table.foldl_put _ _ _ ProjectRow.key Sql.staged (fun _ => rfl) _ _ huniq]
  congr 2
  refine List.map_congr_left fun r hr => ?_
  -- a row of the initiative is the one with its key among those visited
  by_cases hat : r.at o i = true
  · have hr' := hperm.mem_iff.mpr (List.mem_filter.mpr ⟨hr, hat⟩)
    cases hf : List.find? (fun x => decide (x.key = r.key)) rs with
    | none =>
      have := List.find?_eq_none.mp hf r hr'
      simp at this
    | some x =>
      have hx := huniq.eq (List.mem_of_find?_eq_some hf) hr' (by simpa using List.find?_some hf)
      simp [stagedOrder, hat, hx]
  · have hf : List.find? (fun x => decide (x.key = r.key)) rs = none := by
      refine List.find?_eq_none.mpr fun x hx he => hat ?_
      rw [ProjectRow.at_respects o i r x (by simpa using (of_decide_eq_true he).symm)]
      exact (List.mem_filter.mp (hperm.mem_iff.mp hx)).2
    simp [stagedOrder, hat, hf]

theorem stageOrder_ok {err : DbError → StorageError} {u : Unit}
    (hu : Table.Unique ProjectRow.key (T.projectsOf o i))
    (h : (perform (Sql.stageOrder o i) err).run t T = (.ok u, t', T')) :
    t' = later t ∧ T' = { T with projects := T.projects.map (stagedOrder o i) } := by
  obtain ⟨ws, hb, rfl, rfl⟩ := sql_ok h
  cases hs : Sql.stageRows ((T.projectsOf o i).insertionSort fun r s => (t 0).rank r.projectId ≤ (t 0).rank s.projectId)
      (T.projectsOf o i) with
  | error e => rw [hs] at hb; cases hb
  | ok vs =>
    rw [hs] at hb
    obtain ⟨-, rfl⟩ := Prod.mk.inj (Except.ok.inj hb)
    rw [stageRows_ok _ _ hs]
    exact ⟨rfl, applyAll_staged (List.perm_insertionSort _ _) hu⟩

theorem projectId_respects (p : String) :
    Table.Respects ProjectRow.key fun r => decide (r.projectId = p) := by
  intro r r' h
  simp only [ProjectRow.key, Prod.mk.injEq] at h
  simp only [h.2.2]

/-- The UPDATE of one membership leaves the others to be found as they were. -/
theorem project_put_of_ne {F : Facts} {row : ProjectRow} {p : String} (h : row.projectId ≠ p) :
    Facts.project { F with projects := Table.put ProjectRow.key row F.projects } o i p = F.project o i p := by
  rw [Facts.project, Facts.projectsOf, Table.filter_put (ProjectRow.at_respects o i),
    Table.find?_put_of_not (projectId_respects p) (decide_eq_false h)]
  rfl

/-- The UPDATE of a membership is found. -/
theorem project_put {F : Facts} {row old : ProjectRow} {p : String} (h : F.project o i p = some old)
    (hk : row.key = old.key) :
    Facts.project { F with projects := Table.put ProjectRow.key row F.projects } o i p = some row := by
  rw [Facts.project, Facts.projectsOf, Table.filter_put (ProjectRow.at_respects o i)]
  exact Table.find?_put (projectId_respects p) hk h

/-- One item and then the rest are the items together. -/
theorem reordered_put {F : Facts} {item : ReorderInput} {items : List ReorderInput} {row : ProjectRow}
    (hu : Table.Unique ProjectRow.key (F.projectsOf o i)) (hrow : F.project o i item.projectId = some row)
    (hitem : item.projectId ∉ items.map (·.projectId)) :
    (Table.put ProjectRow.key (Sql.placed item.position row) F.projects).map (reordered o i items) =
      F.projects.map (reordered o i (item :: items)) := by
  obtain ⟨hmem, ho, hi, hp⟩ := project_mem hrow
  have hkey : (Sql.placed item.position row).key = row.key := rfl
  rw [Table.put, List.map_map]
  refine List.map_congr_left fun r hr => ?_
  by_cases hk : r.key = row.key
  · have hat : r.at o i = true := by
      rw [ProjectRow.at_respects o i r row hk, ProjectRow.at, decide_eq_true ⟨ho, hi⟩]
    have hrow' : r = row := hu.eq (List.mem_filter.mpr ⟨hr, hat⟩) (mem_projectsOf.mpr ⟨hmem, ho, hi⟩) hk
    have hnone : items.find? (fun x => x.projectId = (Sql.placed item.position row).projectId) = none := by
      refine List.find?_eq_none.mpr fun x hx he => hitem (List.mem_map.mpr ⟨x, hx, ?_⟩)
      exact (of_decide_eq_true he).trans hp
    have hplaced : reordered o i items (Sql.placed item.position row) = Sql.placed item.position row := by
      simp only [reordered, hnone, ite_self]
    simp only [Function.comp_apply, hkey, hk, if_true, hplaced]
    simp [reordered, hrow' ▸ hat, hrow', hp]
  · simp only [Function.comp_apply, hkey, hk, if_false]
    by_cases hat : r.at o i = true
    · have hne : ¬ item.projectId = r.projectId := by
        intro he
        have hat' : r.organizationId = o ∧ r.initiativeId = i := by simpa [ProjectRow.at] using hat
        exact hk (by rw [ProjectRow.key, ProjectRow.key, hat'.1, hat'.2, ho, hi, hp, he])
      simp [reordered, hat, hne]
    · simp [reordered, hat]

/-- The loop writes each item's row once, and answers its new revision. -/
theorem writeOrder_ok : ∀ (items : List ReorderInput) {t t' : ℕ → Tick} {T T' : Tables}
    {out : List ReorderItemRecord}, Table.Unique ProjectRow.key (T.projectsOf o i) →
    (items.map (·.projectId)).Nodup →
    (∀ item ∈ items, ∀ row, T.project o i item.projectId = some row →
      row.membershipRevision = item.expectedMembershipRevision) →
    (writeOrder o i items).run t T = (.ok out, t', T') →
    T' = { T with projects := T.projects.map (reordered o i items) } ∧ out = reorderOutput items ∧
      ∀ item ∈ items, ∀ row, T.project o i item.projectId = some row →
        (Sql.placed item.position row).checks = true
  | [], t, t', T, T', out, _, _, _, h => by
    obtain ⟨rfl, rfl, rfl⟩ := ret_ok h
    have hid : T'.projects.map (reordered o i []) = T'.projects :=
      List.map_id'' (fun r => by simp [reordered]) _
    exact ⟨by rw [hid], rfl, by simp⟩
  | item :: items, t, t', T, T', out, hu, hn, hexp, h => by
    obtain ⟨hitem, hn'⟩ := List.nodup_cons.mp hn
    obtain ⟨x, t₁, T₁, h1, h2⟩ := run_bind_ok.mp h
    obtain ⟨ws, hb, rfl, rfl⟩ := sql_ok h1
    obtain ⟨revision, t₂, T₂, h3, h4⟩ := run_bind_ok.mp h2
    obtain ⟨rfl, rfl, rfl⟩ := fetched_ok h3
    obtain ⟨output, t₃, T₃, h5, h6⟩ := run_bind_ok.mp h4
    obtain ⟨rfl, rfl, rfl⟩ := ret_ok h6
    split at hb
    · cases hb
    cases hrow : T.project o i item.projectId with
    | none => simp [hrow] at hb
    | some row =>
      simp only [hrow] at hb
      split at hb
      · cases hb
      rename_i hc
      split at hb
      · cases hb
      obtain ⟨hrev, rfl⟩ := Prod.mk.inj (Except.ok.inj hb)
      obtain rfl := Option.some.inj hrev
      simp only [applyAll_cons, applyAll_nil, store_apply, Write.apply] at h5
      -- the other items find their rows as they were
      have hother : ∀ x ∈ items, Facts.project { T.toFacts with
          projects := Table.put ProjectRow.key (Sql.placed item.position row) T.projects } o i x.projectId =
          T.project o i x.projectId := by
        refine fun x hx => project_put_of_ne fun he => hitem (List.mem_map.mpr ⟨x, hx, ?_⟩)
        exact he.symm.trans (project_mem hrow).2.2.2
      obtain ⟨rfl, rfl, hchecks⟩ := writeOrder_ok items
        (by
          rw [Facts.projectsOf, Table.filter_put (ProjectRow.at_respects o i)]
          exact Table.Unique.put _ hu)
        hn' (fun x hx r hr => hexp x (List.mem_cons_of_mem _ hx) r ((hother x hx).symm.trans hr)) h5
      refine ⟨?_, ?_, fun x hx r hr => ?_⟩
      · rw [reordered_put hu hrow hitem]
      · have hrev := hexp item List.mem_cons_self row hrow
        simp only [reorderOutput, List.map_cons, ← hrev, Sql.placed]
      · rcases List.mem_cons.mp hx with rfl | hx
        · obtain rfl := Option.some.inj (hrow.symm.trans hr)
          simpa using hc
        · exact hchecks x hx r ((hother x hx).trans hr)

end

/-! ### One after the other -/

section
variable {F : Facts} {o i : String} {items : List ReorderInput}

theorem projectsOf_staged (F : Facts) (o i : String) :
    Facts.projectsOf { F with projects := F.projects.map (stagedOrder o i) } o i =
      (F.projectsOf o i).map Sql.staged := by
  simp only [Facts.projectsOf]
  induction F.projects with
  | nil => rfl
  | cons r rows ih =>
    cases hat : r.at o i <;> simp [stagedOrder, hat, ih]

/-- A staged membership is found in its row's place. -/
theorem project_staged (hn : ((F.projectsOf o i).map (·.projectId)).Nodup) {p : String} {row : ProjectRow} :
    Facts.project { F with projects := F.projects.map (stagedOrder o i) } o i p = some row ↔
      ∃ old ∈ F.projectsOf o i, old.projectId = p ∧ row = Sql.staged old := by
  have hfind : ∀ old ∈ F.projectsOf o i, old.projectId = p → F.project o i p = some old := by
    intro old hold he
    cases hf : F.project o i p with
    | none =>
      have := List.find?_eq_none.mp hf old hold
      simp [he] at this
    | some x =>
      have hx := List.mem_of_find?_eq_some hf
      rw [List.inj_on_of_nodup_map hn hx hold ((project_mem hf).2.2.2.trans he.symm)]
  have hmap : Facts.project { F with projects := F.projects.map (stagedOrder o i) } o i p =
      (F.project o i p).map Sql.staged := by
    rw [Facts.project, projectsOf_staged, List.find?_map]
    rfl
  rw [hmap]
  constructor
  · intro h
    obtain ⟨old, hold, rfl⟩ := Option.map_eq_some_iff.mp h
    exact ⟨old, List.mem_of_find?_eq_some hold, (project_mem hold).2.2.2, rfl⟩
  · rintro ⟨old, hold, he, rfl⟩
    rw [hfind old hold he, Option.map_some]

/-- Staging and then writing the order is one pass. -/
theorem map_reordered_staged (h : reorderAccepts (F.order o i) items = true) :
    (F.projects.map (stagedOrder o i)).map (reordered o i items) = F.projects.map (reordered o i items) := by
  rw [List.map_map]
  refine List.map_congr_left fun r hr => ?_
  by_cases hat : r.at o i = true
  · obtain ⟨item, hitem, he, hplaced⟩ := reorder_item h (List.mem_filter.mpr ⟨hr, hat⟩)
    have hfind : items.find? (fun x => x.projectId = r.projectId) ≠ none := by
      intro hf
      have := List.find?_eq_none.mp hf item hitem
      simp [he] at this
    obtain ⟨x, hx⟩ := Option.ne_none_iff_exists'.mp hfind
    have hx' : items.find? (fun x => x.projectId = (Sql.staged r).projectId) = some x := hx
    simp only [Function.comp_apply, stagedOrder, hat, if_true, reordered, Sql.staged_at, hx', hx,
      Sql.placed_staged]
  · simp [stagedOrder, reordered, hat]

end

end Portfolio
