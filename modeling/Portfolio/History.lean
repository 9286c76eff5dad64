/-
# Histories of committed calls

A history is a chain of commits: what the concurrent system leaves
(`Txn.Steps.chain`), in commit order. Each commit is a replay or a fresh
success, so the state an initiative is in (`Facts.about`: its row, its
memberships, its updates) changes in one way only: a fresh success on it,
which finds it missing (a create) or open (any other) and leaves it with the
next revision.

Key definitions: `Op.on`, `Facts.about`, `Facts.revision`, `Committed.Fresh`.
Key theorems: `Fresh.elsewhere`, `Fresh.revision`, `Fresh.guard`,
`outcome_of_mem`, `about_of_commit`.
-/
import Portfolio.Effects
import Portfolio.Txn.Schedule

namespace Portfolio

open Txn

instance : Inhabited Tick := ⟨⟨0, 0, 0, fun _ => 0, false⟩⟩

/-- A commit of the system. -/
abbrev Committed := Txn.Commit Tables Tick Record Call

/-- The system of the eight mutations. -/
abbrev System := Txn.Sys Tables Tick Sequences Write Lock DbError StorageError Record Call

/-- The system on the empty schema. -/
def System.initial (w : Sequences) : System := Txn.Sys.initial Tables.empty w

/-- The history of the commits `cs`, from one committed state to another. -/
abbrev History : Tables → List Committed → Tables → Prop := Txn.Chain Call.code

/-- The commit stored its receipt: its body ran. -/
def Committed.Fresh (x : Committed) : Prop := x.before.command x.call.key = none

instance (x : Committed) : Decidable x.Fresh := inferInstanceAs (Decidable (_ = none))

/-- The commit changed initiatives, projects or updates. -/
def Committed.Effective (x : Committed) : Prop := x.before.toFacts ≠ x.after.toFacts

instance (x : Committed) : Decidable x.Effective := inferInstanceAs (Decidable (_ ≠ _))

/-- What any reachable system satisfies: its commits are a history. -/
theorem reachable_inv {ok : Call → Prop} {w : Sequences} {S : System}
    (h : Txn.Steps Call.code ok (System.initial w) S) : Txn.Inv Call.code ok Tables.empty S :=
  Txn.Steps.inv Call.code ok (fun c _ => c.probed) (Txn.inv_initial Call.code ok _ _) h

/-- Who is among the commits has returned. -/
theorem returned_of_mem {ok : Call → Prop} {S : System} (h : Txn.Inv Call.code ok Tables.empty S) {i : ℕ} {c : Call}
    (hi : (i, c) ∈ S.commits.map fun x => (x.thread, x.call)) : ∃ a, S.threads i = .committed c a := by
  obtain ⟨x, hx, he⟩ := List.mem_map.mp hi
  obtain ⟨rfl, rfl⟩ := Prod.mk.inj he
  exact ⟨x.result, (h.committed _ _ _).mpr ⟨x, hx, rfl, rfl, rfl⟩⟩

/-- What is committed while a system runs on is a history from where it was. -/
theorem later_history {ok : Call → Prop} {w : Sequences} {S S' : System}
    (h : Txn.Steps Call.code ok (System.initial w) S) (h' : Txn.Steps Call.code ok S S') :
    ∃ cs, S'.commits = S.commits ++ cs ∧ History S.db cs S'.db :=
  h'.chain Call.code ok (fun c _ => c.probed) (reachable_inv h)

/-- Where a schedule of admissible calls leads, and one that goes on from there, are reachable. -/
theorem System.scheduled {ok : Call → Prop} {w : Sequences} {n : ℕ} {ms ms' : List (ℕ × Txn.Move Tick Call)}
    {β : Type*} {f : System → System → β} {b : β}
    (hrun : ((System.initial w).schedule Call.code n ms).bind (fun S => (S.schedule Call.code n ms').map (f S)) =
        some b)
    (hn : ∀ x ∈ ms ++ ms', x.1 < n) (hok : ∀ x ∈ ms ++ ms', ∀ c, x.2 = .start c → ok c) :
    ∃ S S', Txn.Steps Call.code ok (System.initial w) S ∧ Txn.Steps Call.code ok S S' ∧ f S S' = b := by
  obtain ⟨S, hS, h⟩ := Option.bind_eq_some_iff.mp hrun
  obtain ⟨S', hS', hf⟩ := Option.map_eq_some_iff.mp h
  obtain ⟨h1, hb⟩ := Txn.schedule_steps (fun _ _ => rfl) (fun x hx => hn x (List.mem_append_left _ hx))
    (fun x hx => hok x (List.mem_append_left _ hx)) hS
  obtain ⟨h2, -⟩ := Txn.schedule_steps hb (fun x hx => hn x (List.mem_append_right _ hx))
    (fun x hx => hok x (List.mem_append_right _ hx)) hS'
  exact ⟨S, S', h1, h2, hf⟩

/-- A create of an initiative, under a key of its own. -/
def sampleCreate (i : String) : Call :=
  ⟨⟨"planner", "ann", i, []⟩, .createInitiative ⟨"acme", i, "Roadmap", none, none, none, none⟩⟩

/-- The archival of an initiative at a revision. -/
def sampleArchive (i : String) (expected : ℤ) : Call :=
  ⟨⟨"planner", "ann", "archive-" ++ i, []⟩, .archiveInitiative "acme" i expected⟩

/-- A snapshot of a project. -/
def sampleSnapshot (p : String) (progress : ℤ) : ProjectSnapshot :=
  ⟨p, "Site", "started", "on_track", progress, none, none, "r1", 0⟩

/-- A project attached at its position to an initiative. -/
def sampleAttach (i p key : String) (expected progress position : ℤ) : Call :=
  ⟨⟨"planner", "ann", key, []⟩, .attachProject "acme" i expected (sampleSnapshot p progress) position⟩

/-- Ticks of a server at the epoch, with one value of the sequences. -/
def sampleTicks (rowSeq : ℤ) (count : ℕ) : List Tick := List.replicate count { (default : Tick) with rowSeq }

/-! ### What a fresh success is on -/

def Op.organizationId : Op → String
  | .createInitiative v => v.organizationId
  | .updateInitiative o _ _ _ => o
  | .addUpdate o _ _ _ _ _ _ => o
  | .archiveInitiative o _ _ => o
  | .attachProject o _ _ _ _ => o
  | .updateProjectSnapshot o _ _ _ => o
  | .detachProject o _ _ _ _ => o
  | .reorderProjects o _ _ _ => o

def Op.initiativeId : Op → String
  | .createInitiative v => v.initiativeId
  | .updateInitiative _ i _ _ => i
  | .addUpdate _ i _ _ _ _ _ => i
  | .archiveInitiative _ i _ => i
  | .attachProject _ i _ _ _ => i
  | .updateProjectSnapshot _ i _ _ => i
  | .detachProject _ i _ _ _ => i
  | .reorderProjects _ i _ _ => i

/-- The operation is one on the initiative. -/
def Op.On (op : Op) (o i : String) : Prop := op.organizationId = o ∧ op.initiativeId = i

instance (op : Op) (o i : String) : Decidable (op.On o i) := inferInstanceAs (Decidable (_ ∧ _))

/-- The operation makes its initiative. -/
def Op.creates : Op → Bool
  | .createInitiative _ => true
  | _ => false

/-- The operation makes an update. -/
def Op.reports : Op → Bool
  | .addUpdate .. => true
  | _ => false

/-- The initiative revision the operation asks for; `update_project_snapshot` asks for none. -/
def Op.expected : Op → Option ℤ
  | .createInitiative _ => none
  | .updateInitiative _ _ expected _ => some expected
  | .addUpdate _ _ _ expected _ _ _ => some expected
  | .archiveInitiative _ _ expected => some expected
  | .attachProject _ _ expected _ _ => some expected
  | .updateProjectSnapshot _ _ _ _ => none
  | .detachProject _ _ _ expected _ => some expected
  | .reorderProjects _ _ expected _ => some expected

/-- All there is of an initiative: its row, its memberships and its updates. -/
def Facts.about (F : Facts) (o i : String) : Facts where
  initiatives := F.initiatives.filter (InitiativeRow.at o i)
  projects := F.projectsOf o i
  updates := F.updatesOf o i

/-- The revision of an initiative, if there is one. -/
def Facts.revision (F : Facts) (o i : String) : Option ℤ := (F.initiative o i).map (·.revision)

/-- The revision a fresh success leaves. -/
def nextRevision : Option ℤ → ℤ
  | none => 1
  | some n => n + 1

/-- The initiative revision a record reports. -/
def Record.revision : Record → Option String
  | .initiative r => some r.revision
  | .update r => some r.initiativeRevision
  | .archive r => some r.revision
  | .project r => r.initiativeRevision
  | .detach r => some r.initiativeRevision
  | .reorder r => some r.initiativeRevision

section
variable {F F' : Facts} {o i : String}

theorem about_eq_iff : F'.about o i = F.about o i ↔
    F'.initiatives.filter (InitiativeRow.at o i) = F.initiatives.filter (InitiativeRow.at o i) ∧
      F'.projectsOf o i = F.projectsOf o i ∧ F'.updatesOf o i = F.updatesOf o i := by
  simp only [Facts.about, Facts.mk.injEq]

theorem initiative_of_about (h : F'.about o i = F.about o i) : F'.initiative o i = F.initiative o i := by
  rw [Facts.initiative, Facts.initiative, (about_eq_iff.mp h).1]

theorem revision_of_about (h : F'.about o i = F.about o i) : F'.revision o i = F.revision o i := by
  rw [Facts.revision, Facts.revision, initiative_of_about h]

/-! ### Writes elsewhere -/

theorem filter_setInitiative_of_ne {row : InitiativeRow} (h : ¬ (row.organizationId = o ∧ row.initiativeId = i)) :
    (F.setInitiative row).initiatives.filter (InitiativeRow.at o i) =
      F.initiatives.filter (InitiativeRow.at o i) :=
  Table.filter_put_of_not (InitiativeRow.at_respects o i) (decide_eq_false h) _

theorem filter_append_of_ne {Row : Type} {p : Row → Bool} {rows : List Row} {row : Row} (h : p row = false) :
    (rows ++ [row]).filter p = rows.filter p := by
  rw [List.filter_append, List.filter_cons_of_neg (by simp [h]), List.filter_nil, List.append_nil]

theorem filter_append_of_pos {Row : Type} {p : Row → Bool} {rows : List Row} {row : Row} (h : p row = true) :
    (rows ++ [row]).filter p = rows.filter p ++ [row] := by
  rw [List.filter_append, List.filter_cons_of_pos h, List.filter_nil]

theorem projectsOf_reordered_of_ne {o' i' : String} {items : List ReorderInput} (h : ¬ (o' = o ∧ i' = i)) :
    (F.projects.map (reordered o' i' items)).filter (ProjectRow.at o i) =
      F.projects.filter (ProjectRow.at o i) := by
  rw [filter_reordered]
  conv_rhs => rw [← List.map_id (F.projects.filter (ProjectRow.at o i))]
  refine List.map_congr_left fun row hrow => ?_
  have h1 := (List.mem_filter.mp hrow).2
  simp only [ProjectRow.at, decide_eq_true_eq] at h1
  have h2 : row.at o' i' = false := by
    refine decide_eq_false fun h2 => h ?_
    exact ⟨h2.1.symm.trans h1.1, h2.2.symm.trans h1.2⟩
  simp [reordered, h2]

/-- A fresh success leaves every other initiative as it was. -/
theorem Fresh.elsewhere {actor : String} {op : Op} {r : Record} (h : Fresh actor op F r F')
    (hne : ¬ op.On o i) : F'.about o i = F.about o i := by
  have hset : ∀ {row row' : InitiativeRow}, F.initiative op.organizationId op.initiativeId = some row →
      row'.key = row.key → (F.setInitiative row').initiatives.filter (InitiativeRow.at o i) =
        F.initiatives.filter (InitiativeRow.at o i) := by
    intro row row' hrow hk
    rw [initiative_key hrow, InitiativeRow.key, Prod.mk.injEq] at hk
    exact filter_setInitiative_of_ne fun he => hne ⟨hk.1.symm.trans he.1, hk.2.symm.trans he.2⟩
  have hput : ∀ {p row : ProjectRow} {s : String}, F.project op.organizationId op.initiativeId s = some p →
      row.key = p.key → (Table.put ProjectRow.key row F.projects).filter (ProjectRow.at o i) =
        F.projects.filter (ProjectRow.at o i) := by
    intro p row s hp hk
    obtain ⟨-, ho, hi, -⟩ := project_mem hp
    simp only [ProjectRow.key, Prod.mk.injEq, ho, hi] at hk
    refine Table.filter_put_of_not (ProjectRow.at_respects o i) (decide_eq_false fun he => hne ?_) _
    exact ⟨hk.1.symm.trans he.1, hk.2.1.symm.trans he.2⟩
  rw [about_eq_iff]
  cases h with
  | createInitiative => exact ⟨filter_append_of_ne (decide_eq_false hne), rfl, rfl⟩
  | updateInitiative hrow => exact ⟨hset hrow.found rfl, rfl, rfl⟩
  | addUpdate hrow _ _ hu =>
    subst hu
    exact ⟨hset hrow.found rfl, rfl, filter_append_of_ne (decide_eq_false hne)⟩
  | archiveInitiative hrow => exact ⟨hset hrow.found rfl, rfl, rfl⟩
  | attachProject hrow =>
    exact ⟨hset hrow.found rfl, filter_append_of_ne (decide_eq_false hne), rfl⟩
  | updateProjectSnapshot hrow hold => exact ⟨hset hrow.found rfl, hput hold rfl, rfl⟩
  | @detachProject o' i' p _ _ _ _ _ _ hrow =>
    refine ⟨hset hrow.found rfl, Table.filter_erase_of_not (fun row hk => decide_eq_false fun he => hne ?_) _, rfl⟩
    simp only [ProjectRow.key, Prod.mk.injEq] at hk
    exact ⟨hk.1.symm.trans he.1, hk.2.1.symm.trans he.2⟩
  | reorderProjects hrow => exact ⟨hset hrow.found rfl, projectsOf_reordered_of_ne hne, rfl⟩

/-! ### The revision -/

theorem initiativeFromRow_revision {row : InitiativeRow} {n : ℕ} {r : InitiativeRecord}
    (h : initiativeFromRow row n = some r) : r.revision = toString row.revision := by
  simp only [initiativeFromRow, Option.bind_eq_bind, Option.bind_eq_some_iff] at h
  obtain ⟨_, -, _, -, _, -, h⟩ := h
  rw [← Option.some.inj h]

theorem projectFromRow_revision {row : ProjectRow} {revision : Option String} {r : ProjectRecord}
    (h : projectFromRow row revision = some r) : r.initiativeRevision = revision := by
  simp only [projectFromRow, Option.bind_eq_bind, Option.bind_eq_some_iff] at h
  obtain ⟨_, -, h⟩ := h
  rw [← Option.some.inj h]

theorem updateFromRow_revision {row : UpdateRow} {r : UpdateRecord} (h : updateFromRow row = some r) :
    r.initiativeRevision = toString row.initiativeRevision := by
  simp only [updateFromRow, Option.bind_eq_bind, Option.bind_eq_some_iff] at h
  obtain ⟨_, -, h⟩ := h
  rw [← Option.some.inj h]

theorem archiveFromRow_revision {row : InitiativeRow} {r : ArchiveRecord} (h : archiveFromRow row = some r) :
    r.revision = toString row.revision := by
  simp only [archiveFromRow, Option.bind_eq_bind, Option.bind_eq_some_iff] at h
  obtain ⟨_, -, _, -, h⟩ := h
  rw [← Option.some.inj h]

/-- A fresh create finds no initiative, every other operation finds it open. -/
theorem Fresh.guard {actor : String} {op : Op} {r : Record} (h : Fresh actor op F r F') :
    (op.creates = true ∧ F.initiative op.organizationId op.initiativeId = none) ∨
      (op.creates = false ∧ ∃ row, F.Open op.organizationId op.initiativeId row) := by
  cases h with
  | createInitiative hnew => exact Or.inl ⟨rfl, hnew⟩
  | updateInitiative hrow | addUpdate hrow | archiveInitiative hrow | attachProject hrow
  | updateProjectSnapshot hrow | detachProject hrow | reorderProjects hrow =>
    exact Or.inr ⟨rfl, _, hrow⟩

/-- A fresh success leaves the next revision, and reports it. -/
theorem Fresh.revision {actor : String} {op : Op} {r : Record} (h : Fresh actor op F r F') :
    F'.revision op.organizationId op.initiativeId =
        some (nextRevision (F.revision op.organizationId op.initiativeId)) ∧
      r.revision = some (toString (nextRevision (F.revision op.organizationId op.initiativeId))) := by
  have hset : ∀ {row row' : InitiativeRow}, F.initiative op.organizationId op.initiativeId = some row →
      row'.key = row.key → row'.revision = row.revision + 1 →
      (F.setInitiative row').revision op.organizationId op.initiativeId =
        some (nextRevision (F.revision op.organizationId op.initiativeId)) := by
    intro row row' hrow hk hrev
    rw [Facts.revision, initiative_setInitiative hrow hk, Facts.revision, hrow, Option.map_some,
      Option.map_some, nextRevision, hrev]
  have hnext : ∀ {row : InitiativeRow}, F.initiative op.organizationId op.initiativeId = some row →
      nextRevision (F.revision op.organizationId op.initiativeId) = row.revision + 1 := by
    intro row hrow
    rw [Facts.revision, hrow, Option.map_some, nextRevision]
  cases h with
  | @createInitiative v _ rowSeq t r hnew hc hr =>
    have hrow := @initiative_insert _ _ _ (Sql.initiativeRow v rowSeq t) hnew
      (by simp [InitiativeRow.at, Sql.initiativeRow])
    have hnone : F.revision v.organizationId v.initiativeId = none := by rw [Facts.revision, hnew]; rfl
    refine ⟨?_, congrArg some ?_⟩
    · simp only [Op.organizationId, Op.initiativeId, hnone]
      rw [Facts.revision, hrow]
      rfl
    · simp only [Op.organizationId, Op.initiativeId, hnone]
      exact initiativeFromRow_revision hr
  | updateInitiative hrow _ _ hr =>
    exact ⟨hset hrow.found rfl rfl, by rw [hnext hrow.found]; exact congrArg some (initiativeFromRow_revision hr)⟩
  | addUpdate hrow _ _ hu _ hr =>
    subst hu
    exact ⟨hset hrow.found rfl rfl, by rw [hnext hrow.found]; exact congrArg some (updateFromRow_revision hr)⟩
  | archiveInitiative hrow _ _ hr =>
    exact ⟨hset hrow.found rfl rfl, by rw [hnext hrow.found]; exact congrArg some (archiveFromRow_revision hr)⟩
  | attachProject hrow _ _ _ _ _ _ hr =>
    exact ⟨hset hrow.found rfl rfl, by rw [hnext hrow.found]; exact projectFromRow_revision hr⟩
  | updateProjectSnapshot hrow _ _ _ _ hr =>
    exact ⟨hset hrow.found rfl rfl, by rw [hnext hrow.found]; exact projectFromRow_revision hr⟩
  | detachProject hrow => exact ⟨hset hrow.found rfl rfl, by rw [hnext hrow.found]; rfl⟩
  | reorderProjects hrow => exact ⟨hset hrow.found rfl rfl, by rw [hnext hrow.found]; rfl⟩

/-- A fresh success found the initiative revision it asked for. -/
theorem Fresh.expected {actor : String} {op : Op} {r : Record} (h : Fresh actor op F r F') {n : ℤ}
    (hn : op.expected = some n) : F.revision op.organizationId op.initiativeId = some n := by
  have hset : ∀ {row : InitiativeRow} {expected : ℤ}, F.Open op.organizationId op.initiativeId row →
      row.revision = expected → some expected = some n →
      F.revision op.organizationId op.initiativeId = some n := by
    intro row expected hrow hrev he
    rw [Facts.revision, hrow.found, Option.map_some, hrev, he]
  cases h with
  | createInitiative | updateProjectSnapshot => cases hn
  | updateInitiative hrow hrev | addUpdate hrow hrev | archiveInitiative hrow hrev | attachProject hrow hrev
  | detachProject hrow hrev | reorderProjects hrow hrev => exact hset hrow hrev hn

end

/-! ### Commits -/

section
variable {T T' : Tables} {cs : List Committed} {x : Committed}

/-- A commit of a history is a replay or a fresh success. -/
theorem outcome_of_mem (h : History T cs T') (hx : x ∈ cs) : Outcome x.call x.before x.result x.after :=
  Call.outcome (h.run _ hx fun _ => default)

/-- A commit that stored no receipt changed nothing. -/
theorem after_of_not_fresh (h : Outcome x.call x.before x.result x.after) (hx : ¬ x.Fresh) :
    x.after = x.before := by
  cases h with
  | replay row j hrow hh hj hr hT => exact hT
  | fresh hnone => exact absurd hnone hx

theorem fresh_of_fresh (h : Outcome x.call x.before x.result x.after) (hx : x.Fresh) :
    Fresh x.call.command.actor x.call.op x.before.toFacts x.result x.after.toFacts := h.of_new hx

/-- A commit changes an initiative only as a fresh success on it. -/
theorem about_of_commit (h : Outcome x.call x.before x.result x.after) {o i : String}
    (hx : ¬ (x.Fresh ∧ x.call.op.On o i)) : x.after.about o i = x.before.about o i := by
  by_cases hf : x.Fresh
  · exact (fresh_of_fresh h hf).elsewhere fun hon => hx ⟨hf, hon⟩
  · rw [after_of_not_fresh h hf]

/-- Of a list in which no earlier member leaves a later one `p`, at most one member is `p`. -/
theorem length_filter_le_one {α : Type*} {p : α → Bool} : ∀ {l : List α},
    (∀ cs x ds y, l = cs ++ x :: ds → y ∈ cs → p y = true → p x = false) → (l.filter p).length ≤ 1
  | [], _ => Nat.zero_le 1
  | a :: l, h => by
    cases ha : p a with
    | false =>
      rw [List.filter_cons_of_neg (by simp [ha])]
      exact length_filter_le_one fun cs x ds y hl hy =>
        h (a :: cs) x ds y (by rw [hl, List.cons_append]) (List.mem_cons_of_mem a hy)
    | true =>
      have hnone : l.filter p = [] := by
        refine List.filter_eq_nil_iff.mpr fun x hx => ?_
        obtain ⟨cs, ds, rfl⟩ := List.append_of_mem hx
        have := h (a :: cs) x ds a rfl List.mem_cons_self ha
        simp [this]
      rw [List.filter_cons_of_pos ha, hnone, List.length_singleton]

/-- What any call keeps as a fresh success, a history keeps. -/
theorem History.preserves {I : Facts → Prop} (h : History T cs T') (hI : I T.toFacts)
    (hstep : ∀ x ∈ cs, ∀ F F' r, I F → Portfolio.Fresh x.call.command.actor x.call.op F r F' → I F') :
    I T'.toFacts := by
  refine Txn.Chain.preserves Call.code (I := fun T => I T.toFacts) h hI fun x hx hb => ?_
  have ho := outcome_of_mem h hx
  by_cases hf : Committed.Fresh x
  · exact hstep x hx _ _ _ hb (fresh_of_fresh ho hf)
  · rw [after_of_not_fresh ho hf]; exact hb

/-- What holds of an initiative that was never there, and what every fresh success on an initiative
keeps of it, holds of every initiative after a history of the empty schema. -/
theorem History.local {P : Option InitiativeRow → List ProjectRow → List UpdateRow → Prop}
    (h : History Tables.empty cs T) (h0 : P none [] [])
    (hstep : ∀ x ∈ cs, ∀ F F' r o i, x.call.op.On o i →
      Portfolio.Fresh x.call.command.actor x.call.op F r F' →
      P (F.initiative o i) (F.projectsOf o i) (F.updatesOf o i) →
      P (F'.initiative o i) (F'.projectsOf o i) (F'.updatesOf o i)) (o i : String) :
    P (T.initiative o i) (T.projectsOf o i) (T.updatesOf o i) := by
  refine h.preserves (I := fun F => P (F.initiative o i) (F.projectsOf o i) (F.updatesOf o i)) h0
    fun x hx F F' r hF hf => ?_
  by_cases hon : x.call.op.On o i
  · exact hstep x hx F F' r o i hon hf hF
  · have habout := hf.elsewhere hon
    rw [initiative_of_about habout, (about_eq_iff.mp habout).2.1, (about_eq_iff.mp habout).2.2]
    exact hF

end

end Portfolio
