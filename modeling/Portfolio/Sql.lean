/-
# The SQL statements of the storage layer

One definition for each statement text of `storage.rs`: what it answers and
writes on the tables it sees, the rows it locks, and the constraints of the
schema that can refuse it. A statement fails without a write when the server
is lost (`Tick.fault`), when a bound text holds a NUL, when a value does not
fit its column, and when a CHECK, a UNIQUE or a FOREIGN KEY is violated.

The values of a sequence are drawn by a statement of their own (`nextval`),
before the INSERT that stores them: a DEFAULT is evaluated before its INSERT
waits for a key. `UNIQUE (row_seq)` cannot fire on values drawn from the
sequence and is left out. Counters that only grow (`revision`,
`membership_revision`) are not bounded by `bigint`: at the bound the statement
fails, which `Tick.fault` covers. A sequence draws no value beyond it.

Key definitions: `Tick`, `DbError`, `Sql`, and one for each statement.
-/
import Portfolio.Records
import Mathlib.Data.List.Sort

namespace Portfolio

/-! ### What the storage functions are given -/

structure InitiativeCreate where
  organizationId : String
  initiativeId : String
  name : String
  summary : Option String
  ownerSubject : Option String
  targetStart : Option Date
  targetDate : Option Date
deriving DecidableEq

structure InitiativePatch where
  name : Option String
  summary : Option String
  ownerSubject : Option String
  targetStart : Option Date
  targetDate : Option Date
deriving DecidableEq

structure ProjectSnapshot where
  projectId : String
  nameSnapshot : String
  statusCategory : String
  health : String
  progress : ℤ
  targetStart : Option Date
  targetDate : Option Date
  snapshotRevision : String
  observedAt : OffsetDateTime
deriving DecidableEq

structure ReorderInput where
  projectId : String
  expectedMembershipRevision : ℤ
  position : ℤ
deriving DecidableEq

/-! ### The server -/

/-- What the server supplies to one execution of a statement: its values of
`clock_timestamp()`, its value of `nextval`, the order in which a statement
over many rows visits them (by project id), and whether it is lost. -/
structure Tick where
  now : OffsetDateTime
  now' : OffsetDateTime
  rowSeq : ℤ
  rank : String → ℕ
  fault : Bool

/-- The last values drawn from the two `row_seq` sequences. -/
structure Sequences where
  initiatives : ℤ
  updates : ℤ

/-- Why a statement fails. -/
inductive DbError
  | uniqueViolation
  | checkViolation
  | foreignKeyViolation
  | outOfRange
  | nulCharacter
  | rowNotFound
  | fault
deriving DecidableEq

/-- The statements, by what they answer. -/
abbrev Sql := Txn.Stmt Tables Tick Sequences Write Lock DbError

def hasNul (s : String) : Bool := s.toList.contains (Char.ofNat 0)

/-- A statement with the texts bound to it: it is lost, refuses a NUL, or does
what `body` says. -/
def Sql.of {β : Type} (binds : List String) (locks : Tables → List Lock)
    (body : Tick → Tables → Except DbError (β × List Write)) : Sql β where
  run t T :=
    if t.fault then (.error .fault, [])
    else if binds.any hasNul then (.error .nulCharacter, [])
    else match body t T with
      | .ok (b, ws) => (.ok b, ws)
      | .error e => (.error e, [])
  locks _ T := locks T
  offer w _ := some w

section
variable {β : Type} {binds : List String} {locks : Tables → List Lock}
  {body : Tick → Tables → Except DbError (β × List Write)} {t : Tick} {T T' : Tables}

/-- A statement fails without a write, or does what its body says. -/
theorem Sql.of_run (binds : List String) (locks : Tables → List Lock)
    (body : Tick → Tables → Except DbError (β × List Write)) (t : Tick) (T : Tables) :
    (∃ e, (Sql.of binds locks body).run t T = (.error e, [])) ∨
      ∃ b ws, t.fault = false ∧ binds.any hasNul = false ∧ body t T = .ok (b, ws) ∧
        (Sql.of binds locks body).run t T = (.ok b, ws) := by
  by_cases hf : t.fault = true
  · exact Or.inl ⟨.fault, by simp [Sql.of, hf]⟩
  by_cases hn : binds.any hasNul = true
  · exact Or.inl ⟨.nulCharacter, by simp [Sql.of, hf, hn]⟩
  cases hb : body t T with
  | error e => exact Or.inl ⟨e, by simp [Sql.of, hf, hn, hb]⟩
  | ok r =>
    refine Or.inr ⟨r.1, r.2, Bool.not_eq_true _ ▸ hf, Bool.not_eq_true _ ▸ hn, rfl, ?_⟩
    simp [Sql.of, hf, hn, hb]

/-- A statement fails because of the server, of a NUL, or of its body. -/
theorem Sql.of_error {e : DbError} (h : ((Sql.of binds locks body).run t T).1 = .error e) :
    (e = .fault ∧ t.fault = true) ∨ (e = .nulCharacter ∧ binds.any hasNul = true) ∨ body t T = .error e := by
  by_cases hf : t.fault = true
  · simp only [Sql.of, hf, if_true, Except.error.injEq] at h
    exact Or.inl ⟨h.symm, hf⟩
  by_cases hn : binds.any hasNul = true
  · simp [Sql.of, hf, hn] at h
    exact Or.inr (Or.inl ⟨h.symm, hn⟩)
  cases hb : body t T with
  | error e' =>
    simp [Sql.of, hf, hn, hb] at h
    rw [h]
    exact Or.inr (Or.inr rfl)
  | ok r => simp [Sql.of, hf, hn, hb] at h

/-- What the body does not distinguish, the statement does not. -/
theorem Sql.of_run_congr (h : body t T' = body t T) :
    (Sql.of binds locks body).run t T' = (Sql.of binds locks body).run t T := by
  simp only [Sql.of, h]

end

/-- A SELECT without a lock. -/
def Sql.select {β : Type} (binds : List String) (answer : Tables → β) : Sql β :=
  Sql.of binds (fun _ => []) fun _ T => .ok (answer T, [])

/-- `nextval` of a sequence. -/
def Sql.nextval (draw : Sequences → ℤ → Option Sequences) : Sql ℤ where
  run t _ := if t.fault then (.error .fault, []) else (.ok t.rowSeq, [])
  locks _ _ := []
  offer w t := draw w t.rowSeq

def smallint (n : ℤ) : Bool := decide (-32768 ≤ n ∧ n ≤ 32767)

def integer (n : ℤ) : Bool := decide (-2147483648 ≤ n ∧ n ≤ 2147483647)

def bigint (n : ℤ) : Bool := decide (-9223372036854775808 ≤ n ∧ n ≤ 9223372036854775807)

/-- Both dates fit a `date` column. -/
def datesFit (start target : Option Date) : Bool := start.all Date.storable && target.all Date.storable

/-! ### The CHECK constraints -/

def healthCheck (health : String) : Bool :=
  decide (health ∈ ["on_track", "at_risk", "off_track", "no_update"])

def statusCheck (status : String) : Bool :=
  decide (status ∈ ["backlog", "planned", "started", "paused", "completed", "canceled"])

/-- `CHECK (progress BETWEEN 0 AND 100)`. -/
def progressCheck (progress : ℤ) : Bool := decide (0 ≤ progress ∧ progress ≤ 100)

/-- `CHECK (target_start IS NULL OR target_date IS NULL OR target_start <= target_date)`. -/
def windowCheck : Option Date → Option Date → Bool
  | some start, some target => !target.before start
  | _, _ => true

def InitiativeRow.checks (r : InitiativeRow) : Bool :=
  decide (0 < r.revision) && healthCheck r.health && progressCheck r.progress &&
    windowCheck r.targetStart r.targetDate

def ProjectRow.checks (r : ProjectRow) : Bool :=
  decide (0 ≤ r.position) && decide (0 < r.membershipRevision) && statusCheck r.statusCategory &&
    healthCheck r.health && progressCheck r.progress && windowCheck r.targetStart r.targetDate

def UpdateRow.checks (r : UpdateRow) : Bool :=
  decide (0 < r.initiativeRevision) && healthCheck r.health && progressCheck r.progress

namespace Sql

/-! ### Receipts -/

/-- `SELECT request_hash,response_json FROM portfolio_commands ... FOR UPDATE`. -/
def selectCommand (k : CommandKey) : Sql (Option CommandRow) :=
  of [k.callerInstance, k.actorSubject, k.operation, k.idempotencyKey]
    (fun T => if (T.command k).isSome then [.command k] else [])
    fun _ T => .ok (T.command k, [])

/-- `INSERT INTO portfolio_commands(...)`. A committed receipt refuses it at
once, an uncommitted one makes it wait. -/
def insertCommand (k : CommandKey) (hash : List UInt8) : Sql Unit :=
  of [k.callerInstance, k.actorSubject, k.operation, k.idempotencyKey]
    (fun T => if (T.command k).isSome then [] else [.command k])
    fun _ T =>
      if (T.command k).isSome then .error .uniqueViolation
      else .ok ((), [.insertCommand ⟨k, hash, none⟩])

/-- `UPDATE portfolio_commands SET response_json=$5 ...`. -/
def updateCommand (k : CommandKey) (response : Json) : Sql Unit :=
  of [k.callerInstance, k.actorSubject, k.operation, k.idempotencyKey]
    (fun T => if (T.command k).isSome then [.command k] else [])
    fun _ T =>
      if response.anyText hasNul then .error .nulCharacter
      else match T.command k with
        | some row => .ok ((), [.setCommand { row with responseJson := some response }])
        | none => .ok ((), [])

/-! ### Initiatives -/

/-- The DEFAULT of `portfolio_initiatives.row_seq`. -/
def nextInitiativeSeq : Sql ℤ :=
  nextval fun w n => if w.initiatives < n ∧ bigint n then some { w with initiatives := n } else none

/-- The row `INSERT INTO portfolio_initiatives(...)` stores. -/
def initiativeRow (v : InitiativeCreate) (rowSeq : ℤ) (t : Tick) : InitiativeRow where
  organizationId := v.organizationId
  initiativeId := v.initiativeId
  name := v.name
  summary := v.summary
  ownerSubject := v.ownerSubject
  targetStart := v.targetStart
  targetDate := v.targetDate
  health := "no_update"
  progress := 0
  archived := false
  revision := 1
  createdAt := t.now
  updatedAt := t.now'
  archivedAt := none
  rowSeq := rowSeq

/-- `INSERT INTO portfolio_initiatives(...)`. A committed row refuses it, once no open
transaction has a newer version of it; an uncommitted one makes it wait. -/
def insertInitiative (v : InitiativeCreate) (rowSeq : ℤ) : Sql Unit :=
  of ([v.organizationId, v.initiativeId, v.name] ++ v.summary.toList ++ v.ownerSubject.toList)
    (fun T => if (T.initiative v.organizationId v.initiativeId).isSome then
        [.version v.organizationId v.initiativeId]
      else [.initiative v.organizationId v.initiativeId])
    fun t T =>
      if !datesFit v.targetStart v.targetDate then .error .outOfRange
      else if !(initiativeRow v rowSeq t).checks then .error .checkViolation
      else if (T.initiative v.organizationId v.initiativeId).isSome then .error .uniqueViolation
      else .ok ((), [.insertInitiative (initiativeRow v rowSeq t)])

/-- The lock of a SELECT FOR UPDATE of one initiative's row. -/
def initiativeLock (o i : String) (T : Tables) : List Lock :=
  if (T.initiative o i).isSome then [.initiative o i] else []

/-- The locks of an UPDATE of one initiative's row. -/
def versionLocks (o i : String) (T : Tables) : List Lock :=
  if (T.initiative o i).isSome then [.initiative o i, .version o i] else []

/-- An UPDATE of one initiative's row; it answers the row as it is after. -/
def setInitiative (binds : List String) (o i : String) (fit : Bool)
    (f : Tick → InitiativeRow → InitiativeRow) : Sql (Option InitiativeRow) :=
  of ([o, i] ++ binds) (versionLocks o i) fun t T =>
    if !fit then .error .outOfRange
    else match T.initiative o i with
      | some row =>
        if (f t row).checks then .ok (some (f t row), [.setInitiative (f t row)])
        else .error .checkViolation
      | none => .ok (none, [])

/-- `SET name=COALESCE($3,name),summary=$4,owner_subject=$5,target_start=$6,target_date=$7,
revision=revision+1,updated_at=clock_timestamp()`. -/
def patched (patch : InitiativePatch) (t : Tick) (row : InitiativeRow) : InitiativeRow :=
  { row with
    name := patch.name.getD row.name
    summary := patch.summary
    ownerSubject := patch.ownerSubject
    targetStart := patch.targetStart
    targetDate := patch.targetDate
    revision := row.revision + 1
    updatedAt := t.now }

/-- `SET health=$3,progress=$4,revision=$5,updated_at=clock_timestamp()`. -/
def advanced (health : String) (progress revision : ℤ) (t : Tick) (row : InitiativeRow) : InitiativeRow :=
  { row with health, progress, revision, updatedAt := t.now }

/-- `SET archived=true,archived_at=clock_timestamp(),updated_at=clock_timestamp(),revision=revision+1`. -/
def closed (t : Tick) (row : InitiativeRow) : InitiativeRow :=
  { row with archived := true, archivedAt := some t.now, updatedAt := t.now', revision := row.revision + 1 }

/-- `SET revision=revision+1,updated_at=clock_timestamp()`. -/
def bumped (t : Tick) (row : InitiativeRow) : InitiativeRow :=
  { row with revision := row.revision + 1, updatedAt := t.now }

/-- The UPDATE of `update_initiative`. -/
def updateInitiative (o i : String) (patch : InitiativePatch) : Sql (Option InitiativeRow) :=
  setInitiative (patch.name.toList ++ patch.summary.toList ++ patch.ownerSubject.toList) o i
    (datesFit patch.targetStart patch.targetDate) (patched patch)

/-- The UPDATE of `add_update`. -/
def advanceInitiative (o i health : String) (progress revision : ℤ) : Sql (Option InitiativeRow) :=
  setInitiative [health] o i (smallint progress) (advanced health progress revision)

/-- The UPDATE of `archive_initiative`, with `RETURNING` the row. -/
def archiveInitiative (o i : String) : Sql (Option InitiativeRow) := setInitiative [] o i true closed

/-- The UPDATE of `bump_initiative`, with `RETURNING revision`. -/
def bumpInitiative (o i : String) : Sql (Option InitiativeRow) := setInitiative [] o i true bumped

/-- `SELECT revision,archived FROM portfolio_initiatives ... FOR UPDATE`. -/
def selectInitiativeForUpdate (o i : String) : Sql (Option InitiativeRow) :=
  of [o, i] (initiativeLock o i) fun _ T => .ok (T.initiative o i, [])

/-- `SELECT i.*,(SELECT COUNT(*) FROM portfolio_projects p WHERE ...) project_count FROM
portfolio_initiatives i WHERE ...`. -/
def selectInitiative (o i : String) : Sql (Option (InitiativeRow × ℕ)) :=
  select [o, i] fun T =>
    (T.initiative o i).map fun row =>
      (row, (T.projectsOf row.organizationId row.initiativeId).length)

/-- `... WHERE i.organization_id=$1 AND ($2 OR NOT i.archived) AND i.row_seq>$3 ORDER BY i.row_seq LIMIT $4`. -/
def listInitiatives (o : String) (includeArchived : Bool) (after limit : ℤ) :
    Sql (List (InitiativeRow × ℕ)) :=
  select [o] fun T =>
    (((T.initiatives.filter fun r =>
        decide (r.organizationId = o) && (includeArchived || !r.archived) && decide (after < r.rowSeq)).insertionSort
        fun r s => r.rowSeq ≤ s.rowSeq).take limit.toNat).map fun row =>
      (row, (T.projectsOf row.organizationId row.initiativeId).length)

/-- `SELECT 1 FROM portfolio_initiatives WHERE ...`. -/
def existsInitiative (o i : String) : Sql Bool := select [o, i] fun T => (T.initiative o i).isSome

/-! ### Updates -/

/-- The DEFAULT of `portfolio_updates.row_seq`. -/
def nextUpdateSeq : Sql ℤ :=
  nextval fun w n => if w.updates < n ∧ bigint n then some { w with updates := n } else none

/-- The columns of a row of `portfolio_updates` that its INSERT binds. -/
structure UpdateValues where
  organizationId : String
  initiativeId : String
  updateId : String
  health : String
  summary : String
  progress : ℤ
  createdBy : String
  initiativeRevision : ℤ

/-- The row `INSERT INTO portfolio_updates(...)` stores. -/
def updateRow (v : UpdateValues) (rowSeq : ℤ) (t : Tick) : UpdateRow where
  organizationId := v.organizationId
  initiativeId := v.initiativeId
  updateId := v.updateId
  health := v.health
  summary := v.summary
  progress := v.progress
  createdBy := v.createdBy
  initiativeRevision := v.initiativeRevision
  createdAt := t.now
  rowSeq := rowSeq

def insertUpdate (v : UpdateValues) (rowSeq : ℤ) : Sql Unit :=
  of [v.organizationId, v.initiativeId, v.updateId, v.health, v.summary, v.createdBy]
    (fun T => if (T.update v.organizationId v.updateId).isSome then []
      else [.update v.organizationId v.updateId])
    fun t T =>
      if !smallint v.progress then .error .outOfRange
      else if !(updateRow v rowSeq t).checks then .error .checkViolation
      else if (T.update v.organizationId v.updateId).isSome then .error .uniqueViolation
      else if (T.initiative v.organizationId v.initiativeId).isNone then .error .foreignKeyViolation
      else .ok ((), [.insertUpdate (updateRow v rowSeq t)])

/-- `SELECT * FROM portfolio_updates WHERE organization_id=$1 AND update_id=$2`. -/
def selectUpdate (o u : String) : Sql (Option UpdateRow) := select [o, u] fun T => T.update o u

/-- `... WHERE organization_id=$1 AND initiative_id=$2 AND row_seq>$3 ORDER BY row_seq LIMIT $4`. -/
def listUpdates (o i : String) (after limit : ℤ) : Sql (List UpdateRow) :=
  select [o, i] fun T =>
    (((T.updatesOf o i).filter fun r => after < r.rowSeq).insertionSort fun r s => r.rowSeq ≤ s.rowSeq).take
      limit.toNat

/-! ### Projects -/

/-- The row `INSERT INTO portfolio_projects(...)` stores. -/
def projectRow (o i : String) (s : ProjectSnapshot) (position : ℤ) : ProjectRow where
  organizationId := o
  initiativeId := i
  projectId := s.projectId
  nameSnapshot := s.nameSnapshot
  statusCategory := s.statusCategory
  health := s.health
  progress := s.progress
  targetStart := s.targetStart
  targetDate := s.targetDate
  snapshotRevision := s.snapshotRevision
  observedAt := s.observedAt
  position := position
  membershipRevision := 1

/-- The texts of a snapshot. -/
def snapshotBinds (s : ProjectSnapshot) : List String :=
  [s.projectId, s.nameSnapshot, s.statusCategory, s.health, s.snapshotRevision]

/-- Another membership among `rows` holds the position of `r`. -/
def positionTaken (rows : List ProjectRow) (r : ProjectRow) : Bool :=
  rows.any fun x => decide (x.projectId ≠ r.projectId) && decide (x.position = r.position)

def insertProject (o i : String) (s : ProjectSnapshot) (position : ℤ) : Sql Unit :=
  of ([o, i] ++ snapshotBinds s) (fun _ => [.project o i s.projectId]) fun _ T =>
    if !(smallint s.progress && datesFit s.targetStart s.targetDate && integer position) then
      .error .outOfRange
    else if !(projectRow o i s position).checks then .error .checkViolation
    else if (T.project o i s.projectId).isSome ||
        positionTaken (T.projectsOf o i) (projectRow o i s position) then .error .uniqueViolation
    else if (T.initiative o i).isNone then .error .foreignKeyViolation
    else .ok ((), [.insertProject (projectRow o i s position)])

/-- `SELECT position FROM portfolio_projects WHERE ...`. -/
def selectPosition (o i p : String) : Sql (Option ℤ) :=
  select [o, i, p] fun T => (T.project o i p).map (·.position)

/-- `SELECT COUNT(*) FROM portfolio_projects WHERE ...`. -/
def countProjects (o i : String) : Sql ℕ := select [o, i] fun T => (T.projectsOf o i).length

/-- `SELECT * FROM portfolio_projects WHERE organization_id=$1 AND initiative_id=$2 AND project_id=$3`. -/
def selectProject (o i p : String) : Sql (Option ProjectRow) := select [o, i, p] fun T => T.project o i p

/-- `SELECT 1 FROM portfolio_projects WHERE ...`. -/
def existsProject (o i p : String) : Sql Bool := select [o, i, p] fun T => (T.project o i p).isSome

/-- `ORDER BY position,project_id`. -/
def orderLe (r s : ProjectRow) : Bool :=
  decide (r.position < s.position ∨ (r.position = s.position ∧ r.projectId ≤ s.projectId))

/-- `... WHERE organization_id=$1 AND initiative_id=$2 AND position>$3 ORDER BY position,project_id LIMIT $4`. -/
def listProjects (o i : String) (after limit : ℤ) : Sql (List ProjectRow) :=
  select [o, i] fun T =>
    (((T.projectsOf o i).filter fun r => after < r.position).insertionSort fun r s => orderLe r s).take
      limit.toNat

/-- `SELECT membership_revision FROM portfolio_projects ... FOR UPDATE`. -/
def selectProjectForUpdate (o i p : String) : Sql (Option ℤ) :=
  of [o, i, p] (fun T => if (T.project o i p).isSome then [.project o i p] else [])
    fun _ T => .ok ((T.project o i p).map (·.membershipRevision), [])

/-- `SET name_snapshot=$4,...,observed_at=$11,membership_revision=membership_revision+1`. -/
def refreshed (s : ProjectSnapshot) (row : ProjectRow) : ProjectRow :=
  { row with
    nameSnapshot := s.nameSnapshot
    statusCategory := s.statusCategory
    health := s.health
    progress := s.progress
    targetStart := s.targetStart
    targetDate := s.targetDate
    snapshotRevision := s.snapshotRevision
    observedAt := s.observedAt
    membershipRevision := row.membershipRevision + 1 }

/-- The UPDATE of `update_project_snapshot`. -/
def updateSnapshot (o i : String) (s : ProjectSnapshot) : Sql Unit :=
  of ([o, i] ++ snapshotBinds s) (fun _ => [.project o i s.projectId]) fun _ T =>
    if !(smallint s.progress && datesFit s.targetStart s.targetDate) then .error .outOfRange
    else match T.project o i s.projectId with
      | some row =>
        if (refreshed s row).checks then .ok ((), [.setProject (refreshed s row)])
        else .error .checkViolation
      | none => .ok ((), [])

/-- `DELETE FROM portfolio_projects WHERE ... AND membership_revision=$4`; it answers whether a
row was deleted. -/
def deleteProject (o i p : String) (revision : ℤ) : Sql Bool :=
  of [o, i, p] (fun _ => [.project o i p]) fun _ T =>
    match T.project o i p with
    | some row =>
      if row.membershipRevision = revision then .ok (true, [.deleteProject o i p]) else .ok (false, [])
    | none => .ok (false, [])

/-- `SELECT project_id,membership_revision FROM portfolio_projects ... ORDER BY project_id FOR UPDATE`. -/
def selectOrderForUpdate (o i : String) : Sql (List (String × ℤ)) :=
  of [o, i] (fun T => (T.projectsOf o i).map fun r => .project o i r.projectId) fun _ T =>
    .ok (((T.projectsOf o i).insertionSort fun r s => r.projectId ≤ s.projectId).map
      fun r => (r.projectId, r.membershipRevision), [])

/-- `SET position=position+1000000`. -/
def staged (row : ProjectRow) : ProjectRow := { row with position := row.position + 1000000 }

/-- The rows of the staging UPDATE, one after another: `UNIQUE (organization_id, initiative_id,
position)` is checked at each row, against the rows as they are then. -/
def stageRows : List ProjectRow → List ProjectRow → Except DbError (List Write)
  | [], _ => .ok []
  | r :: rs, rows =>
    if !integer (staged r).position then .error .outOfRange
    else if !(staged r).checks then .error .checkViolation
    else if positionTaken rows (staged r) then .error .uniqueViolation
    else (stageRows rs (Table.put ProjectRow.key (staged r) rows)).map (.setProject (staged r) :: ·)

/-- The staging UPDATE of `reorder_projects`, in any order of the rows. -/
def stageOrder (o i : String) : Sql Unit :=
  of [o, i] (fun T => (T.projectsOf o i).map fun r => .project o i r.projectId) fun t T =>
    (stageRows ((T.projectsOf o i).insertionSort fun r s => t.rank r.projectId ≤ t.rank s.projectId)
      (T.projectsOf o i)).map fun ws => ((), ws)

/-- `SET position=$4,membership_revision=membership_revision+1`. -/
def placed (position : ℤ) (row : ProjectRow) : ProjectRow :=
  { row with position, membershipRevision := row.membershipRevision + 1 }

/-- The UPDATE of one item of `reorder_projects`, with `RETURNING membership_revision`. -/
def writePosition (o i p : String) (position : ℤ) : Sql (Option ℤ) :=
  of [o, i, p] (fun _ => [.project o i p]) fun _ T =>
    if !integer position then .error .outOfRange
    else match T.project o i p with
      | some row =>
        if !(placed position row).checks then .error .checkViolation
        else if positionTaken (T.projectsOf o i) (placed position row) then .error .uniqueViolation
        else .ok (some (placed position row).membershipRevision, [.setProject (placed position row)])
      | none => .ok (none, [])

@[simp] theorem placed_projectId (position : ℤ) (row : ProjectRow) :
    (placed position row).projectId = row.projectId := rfl
@[simp] theorem placed_at (o i : String) (position : ℤ) (row : ProjectRow) :
    (placed position row).at o i = row.at o i := rfl
@[simp] theorem staged_projectId (row : ProjectRow) : (staged row).projectId = row.projectId := rfl
@[simp] theorem staged_at (o i : String) (row : ProjectRow) : (staged row).at o i = row.at o i := rfl
@[simp] theorem placed_staged (position : ℤ) (row : ProjectRow) :
    placed position (staged row) = placed position row := rfl

end Sql

end Portfolio
