/-
# What a fresh success does

The body of a mutation, run in one piece, either throws or changes the facts
in one way: `Fresh` says which, with the guards it has passed and the record
it returns. It is the only place where the bodies are taken apart; everything
later follows from its eight cases.

A call that ends well is then one of two things (`Call.outcome`): a replay,
which answers the stored record and changes nothing, or a fresh success, whose
receipt holds the record.

Key definitions: `Fresh`, `Outcome`, `Record.toJson`, `Op.decode`.
Key theorems: the `..._ok` of each body, `command_ok`, `Call.outcome`,
`fresh_of_atomic`.
-/
import Portfolio.Reorder

namespace Portfolio

open Txn Txn.Prog

/-- A fresh success of an operation, asked by `actor`: the facts before, the
record, the facts after. -/
inductive Fresh (actor : String) : Op → Facts → Record → Facts → Prop
  | createInitiative {v : InitiativeCreate} {F : Facts} {rowSeq : ℤ} {t : Tick} {r : InitiativeRecord}
      (hnew : F.initiative v.organizationId v.initiativeId = none)
      (hc : (Sql.initiativeRow v rowSeq t).checks = true)
      (hr : initiativeFromRow (Sql.initiativeRow v rowSeq t)
        (F.projectsOf v.organizationId v.initiativeId).length = some r) :
      Fresh actor (.createInitiative v) F (.initiative r)
        { F with initiatives := F.initiatives ++ [Sql.initiativeRow v rowSeq t] }
  | updateInitiative {o i : String} {expected : ℤ} {patch : InitiativePatch} {F : Facts}
      {row : InitiativeRow} {t : Tick} {r : InitiativeRecord}
      (hrow : F.Open o i row) (hrev : row.revision = expected) (hc : (Sql.patched patch t row).checks = true)
      (hr : initiativeFromRow (Sql.patched patch t row) (F.projectsOf o i).length = some r) :
      Fresh actor (.updateInitiative o i expected patch) F (.initiative r)
        (F.setInitiative (Sql.patched patch t row))
  | addUpdate {o i u : String} {expected : ℤ} {health summary : String} {progress : ℤ} {F : Facts}
      {row : InitiativeRow} {update : UpdateRow} {rowSeq : ℤ} {t t' : Tick} {r : UpdateRecord}
      (hrow : F.Open o i row) (hrev : row.revision = expected) (hnew : F.update o u = none)
      (hu : update =
        Sql.updateRow ⟨o, i, u, health, summary, progress, actor, row.revision + 1⟩ rowSeq t')
      (hc : (Sql.advanced health progress (row.revision + 1) t row).checks = true)
      (hr : updateFromRow update = some r) :
      Fresh actor (.addUpdate o i u expected health summary progress) F (.update r)
        { F.setInitiative (Sql.advanced health progress (row.revision + 1) t row) with
          updates := F.updates ++ [update] }
  | archiveInitiative {o i : String} {expected : ℤ} {F : Facts} {row : InitiativeRow} {t : Tick}
      {r : ArchiveRecord} (hrow : F.Open o i row) (hrev : row.revision = expected)
      (hc : (Sql.closed t row).checks = true) (hr : archiveFromRow (Sql.closed t row) = some r) :
      Fresh actor (.archiveInitiative o i expected) F (.archive r) (F.setInitiative (Sql.closed t row))
  | attachProject {o i : String} {expected position : ℤ} {s : ProjectSnapshot} {F : Facts}
      {row : InitiativeRow} {t : Tick} {r : ProjectRecord}
      (hrow : F.Open o i row) (hrev : row.revision = expected) (hnew : F.project o i s.projectId = none)
      (hcount : (F.projectsOf o i).length < maxProjectsPerInitiative)
      (hp : (Sql.projectRow o i s position).checks = true)
      (hfree : Sql.positionTaken (F.projectsOf o i) (Sql.projectRow o i s position) = false)
      (hc : (Sql.bumped t row).checks = true)
      (hr : projectFromRow (Sql.projectRow o i s position) (some (toString (row.revision + 1))) = some r) :
      Fresh actor (.attachProject o i expected s position) F (.project r)
        { F.setInitiative (Sql.bumped t row) with
          projects := F.projects ++ [Sql.projectRow o i s position] }
  | updateProjectSnapshot {o i : String} {expected : ℤ} {s : ProjectSnapshot} {F : Facts}
      {row : InitiativeRow} {p : ProjectRow} {t : Tick} {r : ProjectRecord}
      (hrow : F.Open o i row) (hold : F.project o i s.projectId = some p)
      (hrev : p.membershipRevision = expected) (hp : (Sql.refreshed s p).checks = true)
      (hc : (Sql.bumped t row).checks = true)
      (hr : projectFromRow (Sql.refreshed s p) (some (toString (row.revision + 1))) = some r) :
      Fresh actor (.updateProjectSnapshot o i expected s) F (.project r)
        { F.setInitiative (Sql.bumped t row) with
          projects := Table.put ProjectRow.key (Sql.refreshed s p) F.projects }
  | detachProject {o i p : String} {expected expectedMembership : ℤ} {F : Facts} {row : InitiativeRow}
      {old : ProjectRow} {t : Tick}
      (hrow : F.Open o i row) (hrev : row.revision = expected) (hold : F.project o i p = some old)
      (holdrev : old.membershipRevision = expectedMembership) (hc : (Sql.bumped t row).checks = true) :
      Fresh actor (.detachProject o i p expected expectedMembership) F
        (.detach ⟨true, toString (row.revision + 1)⟩)
        { F.setInitiative (Sql.bumped t row) with
          projects := Table.erase ProjectRow.key (o, i, p) F.projects }
  | reorderProjects {o i : String} {expected : ℤ} {items : List ReorderInput} {F : Facts}
      {row : InitiativeRow} {t : Tick}
      (hrow : F.Open o i row) (hrev : row.revision = expected)
      (hitems : reorderAccepts (F.order o i) items = true)
      (hp : ∀ p ∈ F.projectsOf o i, (reordered o i items p).checks = true)
      (hc : (Sql.bumped t row).checks = true) :
      Fresh actor (.reorderProjects o i expected items) F
        (.reorder ⟨toString (row.revision + 1),
          (reorderOutput items).insertionSort fun a b => a.position ≤ b.position⟩)
        { F.setInitiative (Sql.bumped t row) with
          projects := F.projects.map (reordered o i items) }

/-! ### The bodies -/

section
variable {t t' : ℕ → Tick} {T T' : Tables} {o i p actor : String}

/-- The row a create inserts, with the value it drew first. -/
theorem createInitiativeBody_row {v : InitiativeCreate} {r : InitiativeRecord}
    (h : (createInitiativeBody v).run t T = (.ok r, t', T')) :
    T.initiative v.organizationId v.initiativeId = none ∧
      (Sql.initiativeRow v (t 0).rowSeq (later t 0)).checks = true ∧
      initiativeFromRow (Sql.initiativeRow v (t 0).rowSeq (later t 0))
        (T.projectsOf v.organizationId v.initiativeId).length = some r ∧
      T' = { T with initiatives := T.initiatives ++ [Sql.initiativeRow v (t 0).rowSeq (later t 0)] } := by
  obtain ⟨rowSeq, t₁, T₁, h1, h2⟩ := run_bind_ok.mp h
  obtain ⟨rfl, rfl, rfl⟩ := nextval_ok h1
  obtain ⟨_, ws, hb, h3⟩ := attempt_ok (fun e => by cases e <;> exact ⟨_, rfl⟩) h2
  split at hb
  · cases hb
  split at hb
  · cases hb
  rename_i hc
  split at hb
  · cases hb
  rename_i hnew
  obtain ⟨-, rfl⟩ := Prod.mk.inj (Except.ok.inj hb)
  have hnone : T₁.initiative v.organizationId v.initiativeId = none := by simpa using hnew
  have hrow := @initiative_insert _ _ _ (Sql.initiativeRow v (t 0).rowSeq (later t 0)) hnone
    (by simp [InitiativeRow.at, Sql.initiativeRow])
  obtain ⟨hr, rfl⟩ := readInitiative_ok hrow h3
  exact ⟨hnone, by simpa using hc, hr, rfl⟩

theorem createInitiativeBody_ok {v : InitiativeCreate} {r : InitiativeRecord}
    (h : (createInitiativeBody v).run t T = (.ok r, t', T')) :
    T'.commands = T.commands ∧ Fresh actor (.createInitiative v) T.toFacts (.initiative r) T'.toFacts := by
  obtain ⟨hnone, hc, hr, rfl⟩ := createInitiativeBody_row h
  exact ⟨rfl, .createInitiative hnone hc hr⟩

theorem updateInitiativeBody_ok {expected : ℤ} {patch : InitiativePatch} {r : InitiativeRecord}
    (h : (updateInitiativeBody o i expected patch).run t T = (.ok r, t', T')) :
    T'.commands = T.commands ∧
      Fresh actor (.updateInitiative o i expected patch) T.toFacts (.initiative r) T'.toFacts := by
  obtain ⟨row, hrow, hrev, h1⟩ := locked_ok h
  obtain ⟨x, t₁, T₁, h2, h3⟩ := run_bind_ok.mp h1
  obtain ⟨-, hc, rfl, rfl⟩ := setInitiative_ok hrow.found h2
  obtain ⟨hr, rfl⟩ := readInitiative_ok (initiative_setInitiative hrow.found (by rfl)) h3
  exact ⟨rfl, .updateInitiative hrow hrev hc hr⟩

theorem archiveInitiativeBody_ok {expected : ℤ} {r : ArchiveRecord}
    (h : (archiveInitiativeBody o i expected).run t T = (.ok r, t', T')) :
    T'.commands = T.commands ∧
      Fresh actor (.archiveInitiative o i expected) T.toFacts (.archive r) T'.toFacts := by
  obtain ⟨row, hrow, hrev, h1⟩ := locked_ok h
  obtain ⟨x, t₁, T₁, h2, h3⟩ := run_bind_ok.mp h1
  obtain ⟨rfl, hc, rfl, rfl⟩ := setInitiative_ok hrow.found h2
  obtain ⟨row', t₂, T₂, h4, h5⟩ := run_bind_ok.mp h3
  obtain ⟨hrow', rfl, rfl⟩ := fetched_ok h4
  obtain rfl := Option.some.inj hrow'
  obtain ⟨hr, rfl, rfl⟩ := formatted_ok h5
  exact ⟨rfl, .archiveInitiative hrow hrev hc hr⟩

/-- An update, with the value it drew once its initiative was locked. -/
theorem addUpdateBody_row {u : String} {expected : ℤ} {health summary : String} {progress : ℤ}
    {r : UpdateRecord}
    (h : (addUpdateBody actor o i u expected health summary progress).run t T = (.ok r, t', T')) :
    T'.commands = T.commands ∧ Fresh actor (.addUpdate o i u expected health summary progress) T.toFacts
      (.update r) T'.toFacts ∧ ∃ row, T'.updates = T.updates ++ [row] ∧ row.rowSeq = (t 1).rowSeq := by
  obtain ⟨row, hrow, hrev, h1⟩ := locked_ok h
  obtain ⟨rowSeq, t₁, T₁, h2, h3⟩ := run_bind_ok.mp h1
  obtain ⟨rfl, rfl, rfl⟩ := nextval_ok h2
  obtain ⟨_, ws, hb, h4⟩ := attempt_ok (fun e => by cases e <;> exact ⟨_, rfl⟩) h3
  split at hb
  · cases hb
  split at hb
  · cases hb
  split at hb
  · cases hb
  rename_i hnew
  split at hb
  · cases hb
  obtain ⟨-, rfl⟩ := Prod.mk.inj (Except.ok.inj hb)
  have hnone : T₁.update o u = none := by simpa using hnew
  simp only [applyAll_cons, applyAll_nil, store_apply, Write.apply] at h4
  obtain ⟨_, t₂, T₂, h5, h6⟩ := run_bind_ok.mp h4
  obtain ⟨-, hc, rfl, rfl⟩ := setInitiative_ok (by exact hrow.found) h5
  obtain ⟨x, t₃, T₃, h7, h8⟩ := run_bind_ok.mp h6
  obtain ⟨rfl, rfl, rfl⟩ := select_ok h7
  obtain ⟨update, t₄, T₄, h9, h10⟩ := run_bind_ok.mp h8
  obtain ⟨hupdate, rfl, rfl⟩ := fetched_ok h9
  obtain ⟨hr, rfl, rfl⟩ := formatted_ok h10
  have hfound := @update_insert o _ (Sql.updateRow ⟨o, i, u, health, summary, progress, actor,
    row.revision + 1⟩ (later t 0).rowSeq (later (later t) 0)) u hnone (by simp [UpdateRow.has, Sql.updateRow])
  obtain rfl := Option.some.inj (hupdate.symm.trans hfound)
  exact ⟨rfl, .addUpdate hrow hrev hnone rfl hc hr, _, rfl, rfl⟩

theorem addUpdateBody_ok {u : String} {expected : ℤ} {health summary : String} {progress : ℤ}
    {r : UpdateRecord}
    (h : (addUpdateBody actor o i u expected health summary progress).run t T = (.ok r, t', T')) :
    T'.commands = T.commands ∧ Fresh actor (.addUpdate o i u expected health summary progress) T.toFacts
      (.update r) T'.toFacts := by
  obtain ⟨hcommands, hf, -⟩ := addUpdateBody_row h
  exact ⟨hcommands, hf⟩

theorem attachProjectBody_ok {expected position : ℤ} {s : ProjectSnapshot} {r : ProjectRecord}
    (h : (attachProjectBody o i expected s position).run t T = (.ok r, t', T')) :
    T'.commands = T.commands ∧
      Fresh actor (.attachProject o i expected s position) T.toFacts (.project r) T'.toFacts := by
  obtain ⟨row, hrow, hrev, h1⟩ := locked_ok h
  obtain ⟨existing, t₁, T₁, h2, h3⟩ := run_bind_ok.mp h1
  obtain ⟨rfl, rfl, rfl⟩ := select_ok h2
  split at h3
  · simp [refuse] at h3
  obtain ⟨count, t₂, T₂, h4, h5⟩ := run_bind_ok.mp h3
  obtain ⟨rfl, rfl, rfl⟩ := select_ok h4
  split at h5
  · simp [refuse] at h5
  rename_i hcount
  obtain ⟨_, ws, hb, h6⟩ := attempt_ok (fun e => by cases e <;> exact ⟨_, rfl⟩) h5
  split at hb
  · cases hb
  split at hb
  · cases hb
  rename_i hp
  split at hb
  · cases hb
  rename_i hfree
  split at hb
  · cases hb
  obtain ⟨-, rfl⟩ := Prod.mk.inj (Except.ok.inj hb)
  simp only [Bool.or_eq_true, not_or, Bool.not_eq_true, Option.isSome_eq_false_iff, Option.isNone_iff_eq_none]
    at hfree
  simp only [applyAll_cons, applyAll_nil, store_apply, Write.apply] at h6
  obtain ⟨revision, t₃, T₃, h7, h8⟩ := run_bind_ok.mp h6
  obtain ⟨rfl, hc, rfl, rfl⟩ := bumpInitiative_ok (by exact hrow.found) h7
  have hread := @project_insert _ _ s.projectId _ (Sql.projectRow o i s position) hfree.1
    (by simp [ProjectRow.at, Sql.projectRow]) rfl
  obtain ⟨hr, rfl⟩ := readProject_ok hread h8
  exact ⟨rfl, .attachProject hrow hrev hfree.1 (by simpa using hcount) (by simpa using hp) hfree.2 hc hr⟩

theorem updateProjectSnapshotBody_ok {expected : ℤ} {s : ProjectSnapshot} {r : ProjectRecord}
    (h : (updateProjectSnapshotBody o i expected s).run t T = (.ok r, t', T')) :
    T'.commands = T.commands ∧
      Fresh actor (.updateProjectSnapshot o i expected s) T.toFacts (.project r) T'.toFacts := by
  obtain ⟨current, t₁, T₁, h1, h2⟩ := run_bind_ok.mp h
  obtain ⟨row, hrow, rfl, rfl, rfl⟩ := lockInitiative_ok h1
  split at h2
  · simp [refuse] at h2
  rename_i hopen
  obtain ⟨found, t₂, T₂, h3, h4⟩ := run_bind_ok.mp h2
  obtain ⟨ws, hb, rfl, rfl⟩ := sql_ok h3
  obtain ⟨rfl, rfl⟩ := Prod.mk.inj (Except.ok.inj hb)
  obtain ⟨revision, t₃, T₃, h5, h6⟩ := run_bind_ok.mp h4
  obtain ⟨hrev, rfl, rfl⟩ := orRefuse_ok h5
  obtain ⟨old, hold, rfl⟩ := Option.map_eq_some_iff.mp hrev
  split at h6
  · simp [refuse] at h6
  rename_i hexp
  obtain ⟨_, t₄, T₄, h7, h8⟩ := run_bind_ok.mp h6
  obtain ⟨ws', hb', rfl, rfl⟩ := sql_ok h7
  split at hb'
  · cases hb'
  simp only [hold] at hb'
  split at hb'
  · rename_i hp
    obtain ⟨-, rfl⟩ := Prod.mk.inj (Except.ok.inj hb')
    simp only [applyAll_cons, applyAll_nil, store_apply, Write.apply] at h8
    obtain ⟨revision, t₅, T₅, h9, h10⟩ := run_bind_ok.mp h8
    obtain ⟨rfl, hc, rfl, rfl⟩ := bumpInitiative_ok (by exact hrow) h9
    have hread := @project_put o i _ (Sql.refreshed s old) old s.projectId hold rfl
    obtain ⟨hr, rfl⟩ := readProject_ok hread h10
    exact ⟨rfl, .updateProjectSnapshot ⟨hrow, by simpa using hopen⟩ hold (by simpa using hexp) hp hc hr⟩
  · cases hb'

theorem detachProjectBody_ok {expected expectedMembership : ℤ} {r : DetachRecord}
    (h : (detachProjectBody o i p expected expectedMembership).run t T = (.ok r, t', T')) :
    T'.commands = T.commands ∧
      Fresh actor (.detachProject o i p expected expectedMembership) T.toFacts (.detach r) T'.toFacts := by
  obtain ⟨row, hrow, hrev, h1⟩ := locked_ok h
  obtain ⟨deleted, t₁, T₁, h2, h3⟩ := run_bind_ok.mp h1
  obtain ⟨ws, hb, rfl, rfl⟩ := sql_ok h2
  split at h3
  · obtain ⟨found, t₂, T₂, h4, h5⟩ := run_bind_ok.mp h3
    split at h5 <;> simp [refuse] at h5
  rename_i hdel
  cases hold : T.project o i p with
  | none =>
    simp only [hold] at hb
    obtain ⟨rfl, -⟩ := Prod.mk.inj (Except.ok.inj hb)
    simp at hdel
  | some old =>
    simp only [hold] at hb
    split at hb
    · rename_i hold'
      obtain ⟨-, rfl⟩ := Prod.mk.inj (Except.ok.inj hb)
      simp only [applyAll_cons, applyAll_nil, store_apply, Write.apply] at h3
      obtain ⟨revision, t₂, T₂, h4, h5⟩ := run_bind_ok.mp h3
      obtain ⟨rfl, hc, rfl, rfl⟩ := bumpInitiative_ok (by exact hrow.found) h4
      obtain ⟨rfl, rfl, rfl⟩ := ret_ok h5
      exact ⟨rfl, .detachProject hrow hrev hold hold' hc⟩
    · obtain ⟨rfl, -⟩ := Prod.mk.inj (Except.ok.inj hb)
      simp at hdel

theorem reorderProjectsBody_ok {expected : ℤ} {items : List ReorderInput} {r : ReorderRecord}
    (h : (reorderProjectsBody o i expected items).run t T = (.ok r, t', T')) :
    T'.commands = T.commands ∧
      Fresh actor (.reorderProjects o i expected items) T.toFacts (.reorder r) T'.toFacts := by
  obtain ⟨row, hrow, hrev, h1⟩ := locked_ok h
  obtain ⟨current, t₁, T₁, h2, h3⟩ := run_bind_ok.mp h1
  obtain ⟨ws, hb, rfl, rfl⟩ := sql_ok h2
  obtain ⟨rfl, rfl⟩ := Prod.mk.inj (Except.ok.inj hb)
  split at h3
  · simp [refuse] at h3
  rename_i hacc
  have hitems : reorderAccepts (T.toFacts.order o i) items = true := by simpa [Facts.order] using hacc
  simp only [applyAll_nil] at h3
  obtain ⟨_, t₂, T₂, h4, h5⟩ := run_bind_ok.mp h3
  obtain ⟨rfl, rfl⟩ := stageOrder_ok (unique_projectsOf (reorder_nodup hitems)) h4
  obtain ⟨output, t₃, T₃, h6, h7⟩ := run_bind_ok.mp h5
  have hn := reorder_nodup hitems
  obtain ⟨rfl, rfl, hchecks⟩ := writeOrder_ok items
    (by
      rw [projectsOf_staged, Table.Unique, List.map_map]
      exact unique_projectsOf hn)
    (reorderAccepts_spec hitems).2.2.1
    (fun item hitem r hr => by
      obtain ⟨old, hold, he, rfl⟩ := (project_staged hn).mp hr
      have hexp : old.membershipRevision = item.expectedMembershipRevision :=
        reorder_expected hitems hitem hold he
      exact hexp) h6
  rw [map_reordered_staged hitems] at h7
  obtain ⟨revision, t₄, T₄, h8, h9⟩ := run_bind_ok.mp h7
  obtain ⟨rfl, hc, rfl, rfl⟩ := bumpInitiative_ok (by exact hrow.found) h8
  obtain ⟨rfl, rfl, rfl⟩ := ret_ok h9
  refine ⟨rfl, .reorderProjects hrow hrev hitems (fun p hp => ?_) hc⟩
  obtain ⟨item, hitem, he, hplaced⟩ := reorder_item hitems hp
  rw [hplaced, ← Sql.placed_staged]
  exact hchecks item hitem _ ((project_staged hn).mpr ⟨p, hp, he, rfl⟩)

end

/-! ### The receipt around a body -/

/-- The record as its receipt stores it. -/
def Record.toJson : Record → Json
  | .initiative r => r.toJson
  | .update r => r.toJson
  | .archive r => r.toJson
  | .project r => r.toJson
  | .detach r => r.toJson
  | .reorder r => r.toJson

/-- The record an operation reads from its receipt. -/
def Op.decode (j : Json) : Op → Option Record
  | .createInitiative _ => (InitiativeRecord.codec.dec j).map .initiative
  | .updateInitiative .. => (InitiativeRecord.codec.dec j).map .initiative
  | .addUpdate .. => (UpdateRecord.codec.dec j).map .update
  | .archiveInitiative .. => (ArchiveRecord.codec.dec j).map .archive
  | .attachProject .. => (ProjectRecord.codec.dec j).map .project
  | .updateProjectSnapshot .. => (ProjectRecord.codec.dec j).map .project
  | .detachProject .. => (DetachRecord.codec.dec j).map .detach
  | .reorderProjects .. => (ReorderRecord.codec.dec j).map .reorder

section
variable {α : Type} {t t' : ℕ → Tick} {T T' : Tables}

/-- The receipt of a command that has not finished. -/
def Command.admitted (c : Command) (operation : String) : CommandRow := ⟨c.receipt operation, c.hash, none⟩

/-- Either the receipt is there, with the hash asked for and an answer that decodes, or it is
inserted. -/
theorem admitCommand_ok {c : Command} {operation : String} {codec : Codec α} {x : Option α}
    (h : (admitCommand c operation codec).run t T = (.ok x, t', T')) :
    (∃ row j a, T.command (c.receipt operation) = some row ∧ row.requestHash = c.hash ∧
      row.responseJson = some j ∧ codec.dec j = some a ∧ x = some a ∧ T' = T) ∨
    (T.command (c.receipt operation) = none ∧ x = none ∧
      T' = { T with commands := T.commands ++ [c.admitted operation] }) := by
  obtain ⟨existing, t₁, T₁, h1, h2⟩ := run_bind_ok.mp h
  obtain ⟨ws, hb, rfl, rfl⟩ := sql_ok h1
  obtain ⟨rfl, rfl⟩ := Prod.mk.inj (Except.ok.inj hb)
  cases hrow : T.command (c.receipt operation) with
  | some row =>
    simp only [hrow, applyAll_nil] at h2
    split at h2
    · simp [refuse] at h2
    rename_i hhash
    split at h2
    · simp [refuse] at h2
    rename_i j hj
    split at h2
    · rename_i a ha
      obtain ⟨rfl, rfl, rfl⟩ := ret_ok h2
      exact Or.inl ⟨row, j, a, rfl, by simpa using hhash, hj, ha, rfl, rfl⟩
    · simp at h2
  | none =>
    simp only [hrow, applyAll_nil] at h2
    obtain ⟨_, ws, hb', h3⟩ := attempt_ok (fun e => by cases e <;> exact ⟨_, rfl⟩) h2
    simp only [hrow, Option.isSome_none, Bool.false_eq_true, if_false] at hb'
    obtain ⟨-, rfl⟩ := Prod.mk.inj (Except.ok.inj hb')
    obtain ⟨rfl, rfl, rfl⟩ := ret_ok h3
    exact Or.inr ⟨rfl, rfl, rfl⟩

theorem finishCommand_ok {c : Command} {operation : String} {response : Json} {u : Unit} {row : CommandRow}
    (hrow : T.command (c.receipt operation) = some row)
    (h : (finishCommand c operation response).run t T = (.ok u, t', T')) :
    T' = { T with
      commands := Table.put CommandRow.key { row with responseJson := some response } T.commands } := by
  obtain ⟨ws, hb, rfl, rfl⟩ := sql_ok h
  split at hb
  · cases hb
  · simp only [hrow] at hb
    obtain ⟨-, rfl⟩ := Prod.mk.inj (Except.ok.inj hb)
    rfl

theorem finishCommand_facts {c : Command} {operation : String} {response : Json} {u : Unit}
    (h : (finishCommand c operation response).run t T = (.ok u, t', T')) : T'.toFacts = T.toFacts := by
  obtain ⟨ws, hb, rfl, rfl⟩ := sql_ok h
  split at hb
  · cases hb
  split at hb <;> obtain ⟨-, rfl⟩ := Prod.mk.inj (Except.ok.inj hb) <;> rfl

/-- **A mutation that ends well** is a replay, or its body has run and its receipt holds the record. -/
theorem command_ok {c : Command} {operation : String} {codec : Codec α} {body : Tx α} {a : α}
    {P : Facts → α → Facts → Prop}
    (hbody : ∀ {t T b t' T'}, body.run t T = (.ok b, t', T') →
      T'.commands = T.commands ∧ P T.toFacts b T'.toFacts)
    (h : (command c operation codec body).run t T = (.ok a, t', T')) :
    (∃ row j, T.command (c.receipt operation) = some row ∧ row.requestHash = c.hash ∧
      row.responseJson = some j ∧ codec.dec j = some a ∧ T' = T) ∨
    (T.command (c.receipt operation) = none ∧ P T.toFacts a T'.toFacts ∧
      T'.commands = T.commands ++ [⟨c.receipt operation, c.hash, some (codec.enc a)⟩]) := by
  obtain ⟨x, t₁, T₁, h1, h2⟩ := run_bind_ok.mp h
  rcases admitCommand_ok h1 with ⟨row, j, a', hrow, hh, hj, ha, rfl, rfl⟩ | ⟨hnone, rfl, rfl⟩
  · obtain ⟨rfl, rfl, rfl⟩ := ret_ok h2
    exact Or.inl ⟨row, j, hrow, hh, hj, ha, rfl⟩
  · obtain ⟨record, t₂, T₂, h3, h4⟩ := run_bind_ok.mp h2
    obtain ⟨hcommands, hP⟩ := hbody h3
    obtain ⟨u, t₃, T₃, h5, h6⟩ := run_bind_ok.mp h4
    have hempty : T.commands.filter (CommandRow.has (c.receipt operation)) = [] :=
      List.head?_eq_none_iff.mp hnone
    have hrow : T₂.command (c.receipt operation) = some (c.admitted operation) := by
      simp [Tables.command, hcommands, hempty, CommandRow.has, Command.admitted]
    obtain rfl := finishCommand_ok hrow h5
    obtain ⟨rfl, rfl, rfl⟩ := ret_ok h6
    refine Or.inr ⟨hnone, hP, ?_⟩
    -- the receipt inserted last is the only one with its key
    have hold : Table.put CommandRow.key ⟨c.receipt operation, c.hash, some (codec.enc a)⟩ T.commands =
        T.commands := by
      refine Table.put_of_forall_ne _ fun r hr he => ?_
      have := List.filter_eq_nil_iff.mp hempty r hr
      simp [CommandRow.has, he] at this
    have hlast : Table.put CommandRow.key ⟨c.receipt operation, c.hash, some (codec.enc a)⟩
        [c.admitted operation] = [⟨c.receipt operation, c.hash, some (codec.enc a)⟩] :=
      Table.put_singleton _ rfl
    have hput := Table.put_append CommandRow.key ⟨c.receipt operation, c.hash, some (codec.enc a)⟩
      T.commands [c.admitted operation]
    rw [hold, hlast] at hput
    simp only [hcommands]
    exact hput

end

/-- How a call ends well: as a replay of the stored record, which changes nothing, or as a fresh
success, which leaves its receipt. -/
inductive Outcome (c : Call) (T : Tables) (r : Record) (T' : Tables) : Prop
  | replay (row : CommandRow) (j : Json) (hrow : T.command c.key = some row)
      (hh : row.requestHash = c.command.hash) (hj : row.responseJson = some j)
      (hr : c.op.decode j = some r) (hT : T' = T)
  | fresh (hnone : T.command c.key = none) (h : Fresh c.command.actor c.op T.toFacts r T'.toFacts)
      (hr : c.op.decode r.toJson = some r)
      (hT : T'.commands = T.commands ++ [⟨c.key, c.command.hash, some r.toJson⟩])

theorem outcome_of_command {c : Call} {t t' : ℕ → Tick} {T T' : Tables} {r : Record} {α : Type}
    {codec : Codec α} {body : Tx α} {wrap : α → Record}
    (hdec : ∀ j, c.op.decode j = (codec.dec j).map wrap) (henc : ∀ a, (wrap a).toJson = codec.enc a)
    (hbody : ∀ {t T b t' T'}, body.run t T = (.ok b, t', T') →
      T'.commands = T.commands ∧ Fresh c.command.actor c.op T.toFacts (wrap b) T'.toFacts)
    (h : (command c.command c.op.name codec body >>= fun a => pure (wrap a)).run t T = (.ok r, t', T')) :
    Outcome c T r T' := by
  obtain ⟨a, t₁, T₁, h1, h2⟩ := run_bind_ok.mp h
  obtain ⟨rfl, rfl, rfl⟩ := ret_ok h2
  rcases @command_ok _ _ _ _ _ _ _ _ _ _ (fun F b F' => Fresh c.command.actor c.op F (wrap b) F')
    hbody h1 with ⟨row, j, hrow, hh, hj, ha, hT⟩ | ⟨hnone, hf, hT⟩
  · exact .replay row j hrow hh hj (by rw [hdec, ha, Option.map_some]) hT
  · refine .fresh hnone hf ?_ ?_
    · rw [hdec, henc, codec.dec_enc, Option.map_some]
    · rw [henc]
      exact hT

/-- **A call that ends well** is a replay or a fresh success. -/
theorem Call.outcome {c : Call} {t t' : ℕ → Tick} {T T' : Tables} {r : Record}
    (h : c.code.run t T = (.ok r, t', T')) : Outcome c T r T' := by
  obtain ⟨c, op⟩ := c
  cases op with
  | createInitiative v =>
    exact outcome_of_command (fun _ => rfl) (fun _ => rfl) createInitiativeBody_ok h
  | updateInitiative o i expected patch =>
    exact outcome_of_command (fun _ => rfl) (fun _ => rfl) updateInitiativeBody_ok h
  | addUpdate o i update expected health summary progress =>
    exact outcome_of_command (fun _ => rfl) (fun _ => rfl) addUpdateBody_ok h
  | archiveInitiative o i expected =>
    exact outcome_of_command (fun _ => rfl) (fun _ => rfl) archiveInitiativeBody_ok h
  | attachProject o i expected snapshot position =>
    exact outcome_of_command (fun _ => rfl) (fun _ => rfl) attachProjectBody_ok h
  | updateProjectSnapshot o i expected snapshot =>
    exact outcome_of_command (fun _ => rfl) (fun _ => rfl) updateProjectSnapshotBody_ok h
  | detachProject o i p expected expectedMembership =>
    exact outcome_of_command (fun _ => rfl) (fun _ => rfl) detachProjectBody_ok h
  | reorderProjects o i expected items =>
    exact outcome_of_command (fun _ => rfl) (fun _ => rfl) reorderProjectsBody_ok h

/-- Without a receipt the outcome is a fresh success. -/
theorem Outcome.of_new {c : Call} {T T' : Tables} {r : Record} (h : Outcome c T r T')
    (hnew : T.command c.key = none) : Fresh c.command.actor c.op T.toFacts r T'.toFacts := by
  cases h with
  | replay row j hrow =>
    rw [hnew] at hrow
    cases hrow
  | fresh _ hfresh => exact hfresh

/-- So is a call without a receipt that ends well. -/
theorem fresh_of_atomic {c : Call} {t : ℕ → Tick} {T T' : Tables} {r : Record}
    (h : atomic c.code t T = (.ok r, T')) (hnew : T.command c.key = none) :
    Fresh c.command.actor c.op T.toFacts r T'.toFacts := by
  obtain ⟨t', hrun⟩ := atomic_ok.mp h
  exact (Call.outcome hrun).of_new hnew

end Portfolio
