/-
# Updates and health

The health and progress of an initiative are those of its last update. An
update is inserted and the initiative advanced in one transaction, at the
same revision; the other operations that bump the revision leave health and
progress alone. So along the table of updates the revisions increase, and
each is at most the initiative's.

Key definitions: `Reported`.
Key theorems: `Fresh.reported`, `reported_of_history`, `updates_unique`,
`updates_kept`.
-/
import Portfolio.History

namespace Portfolio

open Txn

/-- The health and progress of an initiative with these updates. -/
def reportedHealth (us : List UpdateRow) : String × ℤ :=
  match us.getLast? with
  | none => ("no_update", 0)
  | some u => (u.health, u.progress)

/-- An initiative's row and its updates, in the order they were committed, fit each other. -/
structure Reported (row : Option InitiativeRow) (us : List UpdateRow) : Prop where
  owned : row = none → us = []
  positive : ∀ r, row = some r → 1 ≤ r.revision
  bounded : ∀ r, row = some r → ∀ u ∈ us, 2 ≤ u.initiativeRevision ∧ u.initiativeRevision ≤ r.revision
  increasing : us.Pairwise fun u v => u.initiativeRevision < v.initiativeRevision
  latest : ∀ r, row = some r → (r.health, r.progress) = reportedHealth us

theorem reported_none : Reported none [] where
  owned _ := rfl
  positive _ h := by cases h
  bounded _ h := by cases h
  increasing := .nil
  latest _ h := by cases h

/-- A bump of the revision that leaves health and progress alone. -/
theorem Reported.bump {row row' : InitiativeRow} {us : List UpdateRow} (h : Reported (some row) us)
    (hrev : row'.revision = row.revision + 1) (hhealth : row'.health = row.health)
    (hprogress : row'.progress = row.progress) : Reported (some row') us where
  owned hn := by cases hn
  positive r hr := by
    obtain rfl := Option.some.inj hr
    have := h.positive row rfl
    omega
  bounded r hr u hu := by
    obtain rfl := Option.some.inj hr
    have := h.bounded row rfl u hu
    omega
  increasing := h.increasing
  latest r hr := by
    obtain rfl := Option.some.inj hr
    rw [hhealth, hprogress]
    exact h.latest row rfl

/-- An update with the next revision, which the row takes over. -/
theorem Reported.report {row row' : InitiativeRow} {us : List UpdateRow} {u : UpdateRow}
    (h : Reported (some row) us) (hu : u.initiativeRevision = row.revision + 1)
    (hrev : row'.revision = row.revision + 1) (hhealth : row'.health = u.health)
    (hprogress : row'.progress = u.progress) : Reported (some row') (us ++ [u]) where
  owned hn := by cases hn
  positive r hr := by
    obtain rfl := Option.some.inj hr
    have := h.positive row rfl
    omega
  bounded r hr v hv := by
    obtain rfl := Option.some.inj hr
    have hpos := h.positive row rfl
    rcases List.mem_append.mp hv with hv | hv
    · have := h.bounded row rfl v hv
      omega
    · rw [List.mem_singleton.mp hv]
      omega
  increasing := by
    rw [List.pairwise_append]
    refine ⟨h.increasing, List.pairwise_singleton _ _, fun v hv v' hv' => ?_⟩
    rw [List.mem_singleton.mp hv', hu]
    have := (h.bounded row rfl v hv).2
    omega
  latest r hr := by
    obtain rfl := Option.some.inj hr
    rw [reportedHealth, List.getLast?_concat, hhealth, hprogress]

/-- A fresh success keeps row and updates fitting. -/
theorem Fresh.reported {actor : String} {op : Op} {F F' : Facts} {r : Record} {o i : String}
    (h : Fresh actor op F r F') (hon : op.On o i) (hF : Reported (F.initiative o i) (F.updatesOf o i)) :
    Reported (F'.initiative o i) (F'.updatesOf o i) := by
  obtain ⟨rfl, rfl⟩ := hon
  have hset : ∀ {row row' : InitiativeRow}, F.initiative op.organizationId op.initiativeId = some row →
      row'.key = row.key → row'.revision = row.revision + 1 → row'.health = row.health →
      row'.progress = row.progress →
      Reported ((F.setInitiative row').initiative op.organizationId op.initiativeId)
        (F.updatesOf op.organizationId op.initiativeId) := by
    intro row row' hrow hk hrev hhealth hprogress
    rw [initiative_setInitiative hrow hk]
    rw [hrow] at hF
    exact hF.bump hrev hhealth hprogress
  cases h with
  | @createInitiative v _ rowSeq t _ hnew =>
    have hrow := @initiative_insert _ _ _ (Sql.initiativeRow v rowSeq t) hnew
      (by simp [InitiativeRow.at, Sql.initiativeRow])
    have hus : F.updatesOf v.organizationId v.initiativeId = [] := hF.owned hnew
    have hupd : Facts.updatesOf { F with initiatives := F.initiatives ++ [Sql.initiativeRow v rowSeq t] }
        v.organizationId v.initiativeId = [] := hus
    simp only [Op.organizationId, Op.initiativeId]
    rw [hrow, hupd]
    exact {
      owned := fun hn => by cases hn
      positive := fun r hr => by obtain rfl := Option.some.inj hr; exact le_refl 1
      bounded := fun r hr u hu => by cases hu
      increasing := .nil
      latest := fun r hr => by obtain rfl := Option.some.inj hr; rfl }
  | updateInitiative hrow | archiveInitiative hrow | attachProject hrow | updateProjectSnapshot hrow
  | detachProject hrow | reorderProjects hrow => exact hset hrow.found rfl rfl rfl rfl
  | @addUpdate o i u _ health summary progress _ row update rowSeq t t' _ hrow hrev hnew hu =>
    subst hu
    have hfound : Facts.initiative (F.setInitiative (Sql.advanced health progress (row.revision + 1) t row)) o i =
        some (Sql.advanced health progress (row.revision + 1) t row) := initiative_setInitiative hrow.found rfl
    simp only [Op.organizationId, Op.initiativeId] at hF ⊢
    rw [hrow.found] at hF
    have hreport : Reported (some (Sql.advanced health progress (row.revision + 1) t row)) (F.updatesOf o i ++
        [Sql.updateRow ⟨o, i, u, health, summary, progress, actor, row.revision + 1⟩ rowSeq t']) :=
      hF.report rfl rfl rfl rfl
    rw [← hfound, Facts.updatesOf, ← filter_append_of_pos (by simp [UpdateRow.at, Sql.updateRow])] at hreport
    exact hreport

/-- Row and updates fit, of every initiative of a history. -/
theorem reported_of_history {T : Tables} {cs : List Committed} (h : History Tables.empty cs T) (o i : String) :
    Reported (T.initiative o i) (T.updatesOf o i) :=
  h.local (P := fun row _ us => Reported row us) reported_none
    (fun _ _ _ _ _ _ _ hon hf hF => hf.reported hon hF) o i

/-! ### The table of updates only grows -/

theorem Fresh.updates {actor : String} {op : Op} {F F' : Facts} {r : Record} (h : Fresh actor op F r F') :
    F'.updates = F.updates ∨ ∃ u, F'.updates = F.updates ++ [u] ∧
      F.update u.organizationId u.updateId = none ∧ op.reports = true := by
  cases h with
  | addUpdate _ _ hnew hu => exact Or.inr ⟨_, rfl, by subst hu; exact hnew, rfl⟩
  | createInitiative | updateInitiative | archiveInitiative | attachProject | updateProjectSnapshot
  | detachProject | reorderProjects => exact Or.inl rfl

/-- An update is never changed or removed. -/
theorem updates_kept {T T' : Tables} {cs : List Committed} (h : History T cs T') : T.updates <+: T'.updates := by
  refine h.preserves (I := fun F => T.updates <+: F.updates) (List.prefix_refl _) fun x hx F F' r hF hf => ?_
  rcases hf.updates with heq | ⟨u, heq, -⟩
  · rw [heq]; exact hF
  · rw [heq]; exact hF.trans (List.prefix_append _ _)

/-- An update id is used at most once in an organization. -/
theorem updates_unique {T : Tables} {cs : List Committed} (h : History Tables.empty cs T) :
    Table.Unique UpdateRow.key T.updates := by
  refine h.preserves (I := fun F => Table.Unique UpdateRow.key F.updates) List.nodup_nil fun x hx F F' r hF hf => ?_
  rcases hf.updates with heq | ⟨u, heq, hnew, -⟩
  · rw [heq]; exact hF
  · rw [heq]
    refine hF.append fun v hv hk => ?_
    have hnone := List.filter_eq_nil_iff.mp (List.head?_eq_none_iff.mp hnew) v hv
    simp only [UpdateRow.key, Prod.mk.injEq] at hk
    simp [UpdateRow.has, hk] at hnone

end Portfolio
