/-
# The tables of the schema, and what guards their rows

The rows of `001_create_project_portfolio.sql` with the columns the code
reads or a constraint checks (`portfolio_commands.created_at` is neither).
The `Facts` are the three tables the plugin owns facts in; `Tables` adds the
command receipts.

`Write` is what one row of a statement does to the tables. Every write of a
project or an update row is guarded by the row of its initiative: that is not
a rule of the database, it is what the operations do (`Locks`), and what makes
`Tables` a `Store` whose parts the locks guard.

Key definitions: `InitiativeRow`, `ProjectRow`, `UpdateRow`, `CommandRow`,
`Tables`, `Write`, `Lock`.
-/
import Portfolio.Txn.System
import Portfolio.Table
import Portfolio.Json
import Portfolio.Time

namespace Portfolio

/-! ### Rows -/

/-- A row of `portfolio_initiatives`. -/
structure InitiativeRow where
  organizationId : String
  initiativeId : String
  name : String
  summary : Option String
  ownerSubject : Option String
  targetStart : Option Date
  targetDate : Option Date
  health : String
  progress : ℤ
  archived : Bool
  revision : ℤ
  createdAt : OffsetDateTime
  updatedAt : OffsetDateTime
  archivedAt : Option OffsetDateTime
  rowSeq : ℤ
deriving DecidableEq

/-- A row of `portfolio_projects`. -/
structure ProjectRow where
  organizationId : String
  initiativeId : String
  projectId : String
  nameSnapshot : String
  statusCategory : String
  health : String
  progress : ℤ
  targetStart : Option Date
  targetDate : Option Date
  snapshotRevision : String
  observedAt : OffsetDateTime
  position : ℤ
  membershipRevision : ℤ
deriving DecidableEq

/-- A row of `portfolio_updates`. -/
structure UpdateRow where
  organizationId : String
  initiativeId : String
  updateId : String
  health : String
  summary : String
  progress : ℤ
  createdBy : String
  initiativeRevision : ℤ
  createdAt : OffsetDateTime
  rowSeq : ℤ
deriving DecidableEq

/-- The primary key of `portfolio_commands`. -/
structure CommandKey where
  callerInstance : String
  actorSubject : String
  operation : String
  idempotencyKey : String
deriving DecidableEq

/-- A row of `portfolio_commands`. -/
structure CommandRow where
  key : CommandKey
  requestHash : List UInt8
  responseJson : Option Json
deriving DecidableEq

/-- The primary key of `portfolio_initiatives`. -/
def InitiativeRow.key (r : InitiativeRow) : String × String := (r.organizationId, r.initiativeId)

/-- The primary key of `portfolio_projects`. -/
def ProjectRow.key (r : ProjectRow) : String × String × String :=
  (r.organizationId, r.initiativeId, r.projectId)

/-- The primary key of `portfolio_updates`. -/
def UpdateRow.key (r : UpdateRow) : String × String := (r.organizationId, r.updateId)

/-- The tables of owned facts. -/
structure Facts where
  initiatives : List InitiativeRow := []
  projects : List ProjectRow := []
  updates : List UpdateRow := []
deriving DecidableEq

/-- The tables of the schema. -/
structure Tables extends Facts where
  commands : List CommandRow := []

/-- The schema right after its setup. -/
def Tables.empty : Tables := {}

/-! ### The WHERE clauses -/

/-- `WHERE organization_id=$1 AND initiative_id=$2` on initiatives. -/
def InitiativeRow.at (o i : String) (r : InitiativeRow) : Bool :=
  decide (r.organizationId = o ∧ r.initiativeId = i)

/-- `WHERE organization_id=$1 AND initiative_id=$2` on projects. -/
def ProjectRow.at (o i : String) (r : ProjectRow) : Bool :=
  decide (r.organizationId = o ∧ r.initiativeId = i)

/-- `WHERE organization_id=$1 AND initiative_id=$2` on updates. -/
def UpdateRow.at (o i : String) (r : UpdateRow) : Bool :=
  decide (r.organizationId = o ∧ r.initiativeId = i)

/-- `WHERE organization_id=$1 AND update_id=$2`. -/
def UpdateRow.has (o u : String) (r : UpdateRow) : Bool :=
  decide (r.organizationId = o ∧ r.updateId = u)

/-- The receipt's primary key is `k`. -/
def CommandRow.has (k : CommandKey) (r : CommandRow) : Bool := decide (r.key = k)

/-- The initiative's row. -/
def Facts.initiative (T : Facts) (o i : String) : Option InitiativeRow :=
  (T.initiatives.filter (InitiativeRow.at o i)).head?

/-- The membership rows of an initiative. -/
def Facts.projectsOf (T : Facts) (o i : String) : List ProjectRow :=
  T.projects.filter (ProjectRow.at o i)

/-- The membership row of a project. -/
def Facts.project (T : Facts) (o i p : String) : Option ProjectRow :=
  (T.projectsOf o i).find? fun r => r.projectId = p

/-- The updates of an initiative. -/
def Facts.updatesOf (T : Facts) (o i : String) : List UpdateRow :=
  T.updates.filter (UpdateRow.at o i)

/-- The update with an id of the organization. -/
def Facts.update (T : Facts) (o u : String) : Option UpdateRow :=
  (T.updates.filter (UpdateRow.has o u)).head?

/-- The stored receipt of a command. -/
def Tables.command (T : Tables) (k : CommandKey) : Option CommandRow :=
  (T.commands.filter (CommandRow.has k)).head?

/-! ### Writes and locks -/

/-- What a statement does to one row. -/
inductive Write
  | insertInitiative (r : InitiativeRow)
  | setInitiative (r : InitiativeRow)
  | insertProject (r : ProjectRow)
  | setProject (r : ProjectRow)
  | deleteProject (o i p : String)
  | insertUpdate (r : UpdateRow)
  | insertCommand (r : CommandRow)
  | setCommand (r : CommandRow)

/-- What a transaction can hold: a row, the key of one it has inserted, or the
version of an initiative's row that an UPDATE has written. A SELECT FOR UPDATE
takes the row without a new version of it. -/
inductive Lock
  | initiative (o i : String)
  | version (o i : String)
  | project (o i p : String)
  | update (o u : String)
  | command (k : CommandKey)
deriving DecidableEq

def Write.apply : Write → Tables → Tables
  | .insertInitiative r, T => { T with initiatives := T.initiatives ++ [r] }
  | .setInitiative r, T => { T with initiatives := Table.put InitiativeRow.key r T.initiatives }
  | .insertProject r, T => { T with projects := T.projects ++ [r] }
  | .setProject r, T => { T with projects := Table.put ProjectRow.key r T.projects }
  | .deleteProject o i p, T => { T with projects := Table.erase ProjectRow.key (o, i, p) T.projects }
  | .insertUpdate r, T => { T with updates := T.updates ++ [r] }
  | .insertCommand r, T => { T with commands := T.commands ++ [r] }
  | .setCommand r, T => { T with commands := Table.put CommandRow.key r T.commands }

def Write.guards : Write → List Lock
  | .insertInitiative r => [.initiative r.organizationId r.initiativeId]
  | .setInitiative r => [.initiative r.organizationId r.initiativeId]
  | .insertProject r => [.initiative r.organizationId r.initiativeId]
  | .setProject r => [.initiative r.organizationId r.initiativeId]
  | .deleteProject o i _ => [.initiative o i]
  | .insertUpdate r => [.initiative r.organizationId r.initiativeId, .update r.organizationId r.updateId]
  | .insertCommand r => [.command r.key]
  | .setCommand r => [.command r.key]

/-- The rows a lock guards. A project's own lock guards nothing that its
initiative's does not, and neither does the version of the initiative. -/
def Lock.part : Lock → Tables → Tables
  | .initiative o i, T =>
    { initiatives := T.initiatives.filter (InitiativeRow.at o i)
      projects := T.projects.filter (ProjectRow.at o i)
      updates := T.updates.filter (UpdateRow.at o i) }
  | .version _ _, _ => {}
  | .project _ _ _, _ => {}
  | .update o u, T => { updates := T.updates.filter (UpdateRow.has o u) }
  | .command k, T => { commands := T.commands.filter (CommandRow.has k) }

theorem InitiativeRow.at_respects (o i : String) :
    Table.Respects InitiativeRow.key (InitiativeRow.at o i) := by
  intro r r' h
  simp only [InitiativeRow.key, Prod.mk.injEq] at h
  simp only [InitiativeRow.at, h.1, h.2]

theorem ProjectRow.at_respects (o i : String) : Table.Respects ProjectRow.key (ProjectRow.at o i) := by
  intro r r' h
  simp only [ProjectRow.key, Prod.mk.injEq] at h
  simp only [ProjectRow.at, h.1, h.2.1]

theorem CommandRow.has_respects (k : CommandKey) : Table.Respects CommandRow.key (CommandRow.has k) := by
  intro r r' h
  simp only [CommandRow.has, h]

theorem Lock.part_apply_congr (w : Write) (l : Lock) (T T' : Tables) (h : l.part T = l.part T') :
    l.part (w.apply T) = l.part (w.apply T') := by
  cases l with
  | version | project => rfl
  | initiative o i =>
    simp only [Lock.part, Tables.mk.injEq, Facts.mk.injEq, and_true] at h
    obtain ⟨h1, h2, h3⟩ := h
    cases w <;> simp only [Lock.part, Write.apply, List.filter_append, h1, h2, h3,
      Table.filter_put (InitiativeRow.at_respects o i), Table.filter_put (ProjectRow.at_respects o i),
      Table.filter_erase]
  | update o u =>
    simp only [Lock.part, Tables.mk.injEq, Facts.mk.injEq, and_true, true_and] at h
    cases w <;> simp only [Lock.part, Write.apply, List.filter_append, h]
  | command k =>
    simp only [Lock.part, Tables.mk.injEq, true_and] at h
    cases w <;> simp only [Lock.part, Write.apply, List.filter_append, h,
      Table.filter_put (CommandRow.has_respects k)]

theorem Lock.part_apply_of_notMem (w : Write) (l : Lock) (T : Tables) (h : l ∉ w.guards) :
    l.part (w.apply T) = l.part T := by
  cases l with
  | version | project => rfl
  | initiative o i =>
    cases w with
    | insertInitiative r | insertProject r | insertUpdate r =>
      have hr : ¬ (r.organizationId = o ∧ r.initiativeId = i) := by
        rintro ⟨rfl, rfl⟩; simp [Write.guards] at h
      simp [Lock.part, Write.apply, InitiativeRow.at, ProjectRow.at, UpdateRow.at, hr]
    | setInitiative r =>
      have hr : InitiativeRow.at o i r = false := by
        simp only [InitiativeRow.at, decide_eq_false_iff_not]
        rintro ⟨rfl, rfl⟩; simp [Write.guards] at h
      simp [Lock.part, Write.apply, Table.filter_put_of_not (InitiativeRow.at_respects o i) hr]
    | setProject r =>
      have hr : ProjectRow.at o i r = false := by
        simp only [ProjectRow.at, decide_eq_false_iff_not]
        rintro ⟨rfl, rfl⟩; simp [Write.guards] at h
      simp [Lock.part, Write.apply, Table.filter_put_of_not (ProjectRow.at_respects o i) hr]
    | deleteProject o' i' p =>
      have hr : ∀ r : ProjectRow, r.key = (o', i', p) → ProjectRow.at o i r = false := by
        intro r hr
        simp only [ProjectRow.key, Prod.mk.injEq] at hr
        simp only [ProjectRow.at, hr.1, hr.2.1, decide_eq_false_iff_not]
        rintro ⟨rfl, rfl⟩; simp [Write.guards] at h
      simp [Lock.part, Write.apply, Table.filter_erase_of_not hr]
    | insertCommand r | setCommand r => rfl
  | update o u =>
    cases w with
    | insertUpdate r =>
      have hr : ¬ (r.organizationId = o ∧ r.updateId = u) := by
        rintro ⟨rfl, rfl⟩; simp [Write.guards] at h
      simp [Lock.part, Write.apply, UpdateRow.has, hr]
    | _ => rfl
  | command k =>
    cases w with
    | insertCommand r =>
      have hr : r.key ≠ k := by rintro rfl; simp [Write.guards] at h
      simp [Lock.part, Write.apply, CommandRow.has, hr]
    | setCommand r =>
      have hr : CommandRow.has k r = false := by
        simp only [CommandRow.has, decide_eq_false_iff_not]
        rintro rfl; simp [Write.guards] at h
      simp [Lock.part, Write.apply, Table.filter_put_of_not (CommandRow.has_respects k) hr]
    | _ => rfl

instance : Txn.Store Tables Write Lock where
  apply := Write.apply
  guards := Write.guards
  part := Lock.part
  part_apply_of_notMem w l T h := Lock.part_apply_of_notMem w l T h
  part_apply_congr w l T T' h := Lock.part_apply_congr w l T T' h

@[simp] theorem store_apply (w : Write) (T : Tables) : Txn.Store.apply w T = w.apply T := rfl
@[simp] theorem store_guards (w : Write) : Txn.Store.guards Tables w = w.guards := rfl

end Portfolio
