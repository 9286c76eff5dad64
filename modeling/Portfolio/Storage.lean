/-
# The storage functions

The functions of `storage.rs` as programs over the statements of `Sql`. A
mutation is one transaction: `command` admits it (a stored receipt is replayed,
a new one is inserted), runs its body, stores the record in the receipt and
commits; it commits when the program ends with a value and is rolled back when
it throws. The reads issue their statements on the pool, each for itself.

Key definitions: `command`, `admitCommand`, `finishCommand`, `lockInitiative`,
`createInitiative` .. `reorderProjects`, `readRollup`, `computeRollup`.
-/
import Portfolio.Sql
import Portfolio.Binary64

namespace Portfolio

open Txn.Prog

inductive DomainFailure
  | invalidRequest
  | notFound
  | archived
  | revisionConflict
  | idempotencyConflict
  | operationInProgress
  | alreadyExists
  | alreadyAttached
  | notAttached
  | positionConflict
deriving DecidableEq

inductive StorageError
  | domain (failure : DomainFailure)
  | database (operation : String) (source : DbError)
  | receipt
  | time
deriving DecidableEq

/-- A storage function that answers `α`. -/
abbrev Tx := Txn.Prog Sql DbError StorageError

/-- `MAX_PROJECTS_PER_INITIATIVE`. -/
def maxProjectsPerInitiative : ℕ := 500

section
variable {α : Type}

def refuse (failure : DomainFailure) : Tx α := .throw (.domain failure)

/-- `fetch_optional` with `ok_or` of a failure. -/
def orRefuse (failure : DomainFailure) : Option α → Tx α
  | some a => pure a
  | none => refuse failure

/-- `fetch_one`. -/
def fetched (operation : String) : Option α → Tx α
  | some a => pure a
  | none => .throw (.database operation .rowNotFound)

/-- A record, if its timestamps have a text. -/
def formatted : Option α → Tx α
  | some a => pure a
  | none => .throw .time

/-! ### Receipts -/

/-- Who asks, under which key, with which request. -/
structure Command where
  caller : String
  actor : String
  key : String
  hash : List UInt8
deriving DecidableEq

/-- The key of its receipt. -/
def Command.receipt (c : Command) (operation : String) : CommandKey :=
  ⟨c.caller, c.actor, operation, c.key⟩

def admitCommand (c : Command) (operation : String) (codec : Codec α) : Tx (Option α) := do
  let existing ← perform (Sql.selectCommand (c.receipt operation)) (.database "read command receipt")
  match existing with
  | some row =>
    if row.requestHash ≠ c.hash then refuse .idempotencyConflict
    else match row.responseJson with
      | none => refuse .operationInProgress
      | some response => match codec.dec response with
        | some replay => pure (some replay)
        | none => .throw .receipt
  | none =>
    match ← attempt (Sql.insertCommand (c.receipt operation) c.hash) with
    | .ok () => pure none
    | .error .uniqueViolation => refuse .operationInProgress
    | .error source => .throw (.database "insert command receipt" source)

def finishCommand (c : Command) (operation : String) (response : Json) : Tx Unit :=
  perform (Sql.updateCommand (c.receipt operation) response) (.database "finish command receipt")

/-- One mutation from its admission to its commit. -/
def command (c : Command) (operation : String) (codec : Codec α) (body : Tx α) : Tx α := do
  match ← admitCommand c operation codec with
  | some replay => pure replay
  | none =>
    let record ← body
    finishCommand c operation (codec.enc record)
    pure record

end

/-! ### Initiatives -/

structure LockedInitiative where
  revision : ℤ
  archived : Bool

def lockInitiative (o i : String) : Tx LockedInitiative := do
  let row ← perform (Sql.selectInitiativeForUpdate o i) (.database "lock initiative")
  let row ← orRefuse .notFound row
  pure ⟨row.revision, row.archived⟩

def requireMutableRevision (current : LockedInitiative) (expected : ℤ) : Tx Unit :=
  if current.archived then refuse .archived
  else if current.revision ≠ expected then refuse .revisionConflict
  else pure ()

def bumpInitiative (o i : String) : Tx ℤ := do
  let row ← perform (Sql.bumpInitiative o i) (.database "bump initiative revision")
  let row ← fetched "bump initiative revision" row
  pure row.revision

/-- `read_initiative_tx` and `get_initiative`: one statement text, in the
transaction or on the pool. -/
def readInitiative (o i : String) : Tx InitiativeRecord := do
  let row ← perform (Sql.selectInitiative o i) (.database "read initiative")
  let (row, projectCount) ← orRefuse .notFound row
  formatted (initiativeFromRow row projectCount)

def createInitiativeBody (v : InitiativeCreate) : Tx InitiativeRecord := do
  let rowSeq ← perform Sql.nextInitiativeSeq (.database "insert initiative")
  match ← attempt (Sql.insertInitiative v rowSeq) with
  | .ok () => readInitiative v.organizationId v.initiativeId
  | .error .uniqueViolation => refuse .alreadyExists
  | .error source => .throw (.database "insert initiative" source)

def createInitiative (c : Command) (v : InitiativeCreate) : Tx InitiativeRecord :=
  command c "create_initiative" InitiativeRecord.codec (createInitiativeBody v)

def updateInitiativeBody (o i : String) (expected : ℤ) (patch : InitiativePatch) :
    Tx InitiativeRecord := do
  let current ← lockInitiative o i
  requireMutableRevision current expected
  let _ ← perform (Sql.updateInitiative o i patch) (.database "update initiative")
  readInitiative o i

def updateInitiative (c : Command) (o i : String) (expected : ℤ) (patch : InitiativePatch) :
    Tx InitiativeRecord :=
  command c "update_initiative" InitiativeRecord.codec (updateInitiativeBody o i expected patch)

def archiveInitiativeBody (o i : String) (expected : ℤ) : Tx ArchiveRecord := do
  let current ← lockInitiative o i
  requireMutableRevision current expected
  let row ← perform (Sql.archiveInitiative o i) (.database "archive initiative")
  let row ← fetched "archive initiative" row
  formatted (archiveFromRow row)

def archiveInitiative (c : Command) (o i : String) (expected : ℤ) : Tx ArchiveRecord :=
  command c "archive_initiative" ArchiveRecord.codec (archiveInitiativeBody o i expected)

/-! ### Updates -/

def addUpdateBody (actor o i update : String) (expected : ℤ) (health summary : String) (progress : ℤ) :
    Tx UpdateRecord := do
  let current ← lockInitiative o i
  requireMutableRevision current expected
  let nextRevision := current.revision + 1
  let rowSeq ← perform Sql.nextUpdateSeq (.database "insert initiative update")
  match ← attempt (Sql.insertUpdate ⟨o, i, update, health, summary, progress, actor, nextRevision⟩ rowSeq) with
  | .ok () =>
    let _ ← perform (Sql.advanceInitiative o i health progress nextRevision)
      (.database "advance initiative update")
    let row ← perform (Sql.selectUpdate o update) (.database "read initiative update")
    let row ← fetched "read initiative update" row
    formatted (updateFromRow row)
  | .error .uniqueViolation => refuse .alreadyExists
  | .error source => .throw (.database "insert initiative update" source)

def addUpdate (c : Command) (o i update : String) (expected : ℤ) (health summary : String)
    (progress : ℤ) : Tx UpdateRecord :=
  command c "add_initiative_update" UpdateRecord.codec
    (addUpdateBody c.actor o i update expected health summary progress)

/-! ### Memberships -/

/-- The membership row of a project as a record of its new revision. -/
def readProject (operation o i p : String) (initiativeRevision : ℤ) : Tx ProjectRecord := do
  let row ← perform (Sql.selectProject o i p) (.database operation)
  let row ← fetched operation row
  formatted (projectFromRow row (some (toString initiativeRevision)))

def attachProjectBody (o i : String) (expected : ℤ) (snapshot : ProjectSnapshot) (position : ℤ) :
    Tx ProjectRecord := do
  let initiative ← lockInitiative o i
  requireMutableRevision initiative expected
  let existing ← perform (Sql.selectPosition o i snapshot.projectId) (.database "check project attachment")
  if existing.isSome then refuse .alreadyAttached
  else do
    let projectCount ← perform (Sql.countProjects o i) (.database "count project attachments")
    if projectCount ≥ maxProjectsPerInitiative then refuse .invalidRequest
    else do
      match ← attempt (Sql.insertProject o i snapshot position) with
      | .ok () =>
        let revision ← bumpInitiative o i
        readProject "read attached project" o i snapshot.projectId revision
      | .error .uniqueViolation => refuse .positionConflict
      | .error source => .throw (.database "attach project" source)

def attachProject (c : Command) (o i : String) (expected : ℤ) (snapshot : ProjectSnapshot)
    (position : ℤ) : Tx ProjectRecord :=
  command c "attach_project" ProjectRecord.codec (attachProjectBody o i expected snapshot position)

/-- It checks the membership revision only, and the archived flag for itself. -/
def updateProjectSnapshotBody (o i : String) (expected : ℤ) (snapshot : ProjectSnapshot) :
    Tx ProjectRecord := do
  let initiative ← lockInitiative o i
  if initiative.archived then refuse .archived
  else do
    let revision ← perform (Sql.selectProjectForUpdate o i snapshot.projectId)
      (.database "lock project snapshot")
    let revision ← orRefuse .notAttached revision
    if revision ≠ expected then refuse .revisionConflict
    else do
      perform (Sql.updateSnapshot o i snapshot) (.database "update project snapshot")
      let revision ← bumpInitiative o i
      readProject "read project snapshot" o i snapshot.projectId revision

def updateProjectSnapshot (c : Command) (o i : String) (expected : ℤ) (snapshot : ProjectSnapshot) :
    Tx ProjectRecord :=
  command c "update_project_snapshot" ProjectRecord.codec (updateProjectSnapshotBody o i expected snapshot)

def detachProjectBody (o i p : String) (expected expectedMembership : ℤ) : Tx DetachRecord := do
  let initiative ← lockInitiative o i
  requireMutableRevision initiative expected
  let deleted ← perform (Sql.deleteProject o i p expectedMembership) (.database "detach project")
  if !deleted then do
    let found ← perform (Sql.existsProject o i p) (.database "check detached project")
    if found then refuse .revisionConflict else refuse .notAttached
  else do
    let revision ← bumpInitiative o i
    pure ⟨true, toString revision⟩

def detachProject (c : Command) (o i p : String) (expected expectedMembership : ℤ) : Tx DetachRecord :=
  command c "detach_project" DetachRecord.codec (detachProjectBody o i p expected expectedMembership)

/-- What `reorder_projects` asks of its items: some, at most 500, distinct
projects and positions, and exactly the current memberships with their
revisions (`current`, by the primary key one entry a project). -/
def reorderAccepts (current : List (String × ℤ)) (items : List ReorderInput) : Bool :=
  !items.isEmpty && decide (items.length ≤ maxProjectsPerInitiative) &&
    decide ((items.map (·.projectId)).dedup.length = items.length) &&
    decide ((items.map (·.position)).dedup.length = items.length) &&
    decide (current.length = items.length) &&
    items.all fun item => current.lookup item.projectId = some item.expectedMembershipRevision

/-- The loop of `reorder_projects`: each item's row takes its position. -/
def writeOrder (o i : String) : List ReorderInput → Tx (List ReorderItemRecord)
  | [] => pure []
  | item :: items => do
    let revision ← perform (Sql.writePosition o i item.projectId item.position)
      (.database "write project order")
    let revision ← fetched "write project order" revision
    let output ← writeOrder o i items
    pure (⟨item.projectId, item.position, toString revision⟩ :: output)

def reorderProjectsBody (o i : String) (expected : ℤ) (items : List ReorderInput) : Tx ReorderRecord := do
  let initiative ← lockInitiative o i
  requireMutableRevision initiative expected
  let current ← perform (Sql.selectOrderForUpdate o i) (.database "lock project order")
  if !reorderAccepts current items then refuse .invalidRequest
  else do
    perform (Sql.stageOrder o i) (.database "stage project order")
    let output ← writeOrder o i items
    let revision ← bumpInitiative o i
    pure ⟨toString revision, output.insertionSort fun a b => a.position ≤ b.position⟩

def reorderProjects (c : Command) (o i : String) (expected : ℤ) (items : List ReorderInput) :
    Tx ReorderRecord :=
  command c "reorder_projects" ReorderRecord.codec (reorderProjectsBody o i expected items)

/-! ### Reads -/

def getInitiative (o i : String) : Tx InitiativeRecord := readInitiative o i

def listInitiatives (o : String) (includeArchived : Bool) (after : Option ℤ) (limit : ℤ) :
    Tx (List InitiativeRecord) := do
  let rows ← perform (Sql.listInitiatives o includeArchived (after.getD 0) limit)
    (.database "list initiatives")
  formatted (rows.mapM fun row => initiativeFromRow row.1 row.2)

def ensureExists (o i : String) : Tx Unit := do
  let found ← perform (Sql.existsInitiative o i) (.database "check initiative")
  if found then pure () else refuse .notFound

def listUpdates (o i : String) (after : Option ℤ) (limit : ℤ) : Tx (List UpdateRecord) := do
  ensureExists o i
  let rows ← perform (Sql.listUpdates o i (after.getD 0) limit) (.database "list initiative updates")
  formatted (rows.mapM updateFromRow)

def listProjects (o i : String) (afterPosition : Option ℤ) (limit : ℤ) : Tx (List ProjectRecord) := do
  ensureExists o i
  let rows ← perform (Sql.listProjects o i (afterPosition.getD (-1)) limit)
    (.database "list initiative projects")
  formatted (rows.mapM fun row => projectFromRow row none)

structure RollupRecord where
  initiativeId : String
  initiativeRevision : String
  health : String
  initiativeProgress : ℤ
  projectCount : ℤ
  completedCount : ℤ
  atRiskCount : ℤ
  offTrackCount : ℤ
  /-- The value of the double. -/
  averageProjectProgress : Option ℚ
  earliestTargetStart : Option String
  latestTargetDate : Option String
  computedAt : String
  source : String
deriving DecidableEq

def RollupRecord.toJson (r : RollupRecord) : Json := .obj [
  ("initiative_id", .str r.initiativeId), ("initiative_revision", .str r.initiativeRevision),
  ("health", .str r.health), ("initiative_progress", .int r.initiativeProgress),
  ("project_count", .int r.projectCount), ("completed_count", .int r.completedCount),
  ("at_risk_count", .int r.atRiskCount), ("off_track_count", .int r.offTrackCount),
  ("average_project_progress", .ofOption .num r.averageProjectProgress),
  ("earliest_target_start", .ofOption .str r.earliestTargetStart),
  ("latest_target_date", .ofOption .str r.latestTargetDate), ("computed_at", .str r.computedAt),
  ("source", .str r.source)]

/-- The least text of a list, `Iterator::min`. -/
def minText : List String → Option String
  | [] => none
  | s :: ss => some (ss.foldl (fun m x => if x < m then x else m) s)

/-- The greatest text of a list, `Iterator::max`. -/
def maxText : List String → Option String
  | [] => none
  | s :: ss => some (ss.foldl (fun m x => if m < x then x else m) s)

/-- `count`. -/
def countProjects (projects : List ProjectRecord) (predicate : ProjectRecord → Bool) : ℤ :=
  (projects.filter predicate).length

/-- `total as f64 / projects.len() as f64`. -/
def averageProgress (projects : List ProjectRecord) : ℚ :=
  Binary64.div (Binary64.ofInt (projects.map (·.progress)).sum) (Binary64.ofInt projects.length)

/-- `compute_rollup`. -/
def computeRollup (initiative : InitiativeRecord) (projects : List ProjectRecord)
    (computedAt : Instant) : Option RollupRecord := do
  let computedAt ← formatInstant computedAt
  return {
    initiativeId := initiative.initiativeId
    initiativeRevision := initiative.revision
    health := initiative.health
    initiativeProgress := initiative.progress
    projectCount := projects.length
    completedCount := countProjects projects fun project => project.statusCategory = "completed"
    atRiskCount := countProjects projects fun project => project.health = "at_risk"
    offTrackCount := countProjects projects fun project => project.health = "off_track"
    averageProjectProgress :=
      if projects.isEmpty then none else some (averageProgress projects)
    earliestTargetStart := minText (projects.filterMap (·.targetStart))
    latestTargetDate := maxText (projects.filterMap (·.targetDate))
    computedAt
    source := "owned_project_snapshots" }

/-- `now` is the plugin's own clock when the rollup is computed. -/
def readRollup (o i : String) (now : Instant) : Tx RollupRecord := do
  let initiative ← getInitiative o i
  let projects ← listProjects o i none maxProjectsPerInitiative
  formatted (computeRollup initiative projects now)

/-! ### Calls -/

/-- The eight mutations with their arguments. -/
inductive Op
  | createInitiative (v : InitiativeCreate)
  | updateInitiative (o i : String) (expected : ℤ) (patch : InitiativePatch)
  | addUpdate (o i update : String) (expected : ℤ) (health summary : String) (progress : ℤ)
  | archiveInitiative (o i : String) (expected : ℤ)
  | attachProject (o i : String) (expected : ℤ) (snapshot : ProjectSnapshot) (position : ℤ)
  | updateProjectSnapshot (o i : String) (expected : ℤ) (snapshot : ProjectSnapshot)
  | detachProject (o i p : String) (expected expectedMembership : ℤ)
  | reorderProjects (o i : String) (expected : ℤ) (items : List ReorderInput)
deriving DecidableEq

/-- The record of any mutation. -/
inductive Record
  | initiative (r : InitiativeRecord)
  | update (r : UpdateRecord)
  | archive (r : ArchiveRecord)
  | project (r : ProjectRecord)
  | detach (r : DetachRecord)
  | reorder (r : ReorderRecord)
deriving DecidableEq

/-- One attempt's call of a storage function. -/
structure Call where
  command : Command
  op : Op
deriving DecidableEq

/-- The operation name in the receipt's key. -/
def Op.name : Op → String
  | .createInitiative _ => "create_initiative"
  | .updateInitiative .. => "update_initiative"
  | .addUpdate .. => "add_initiative_update"
  | .archiveInitiative .. => "archive_initiative"
  | .attachProject .. => "attach_project"
  | .updateProjectSnapshot .. => "update_project_snapshot"
  | .detachProject .. => "detach_project"
  | .reorderProjects .. => "reorder_projects"

/-- The key of the call's receipt. -/
def Call.key (c : Call) : CommandKey := c.command.receipt c.op.name

/-- The storage function the call is of. -/
def Call.code (c : Call) : Tx Record :=
  match c.op with
  | .createInitiative v => createInitiative c.command v >>= fun r => pure (.initiative r)
  | .updateInitiative o i expected patch =>
    updateInitiative c.command o i expected patch >>= fun r => pure (.initiative r)
  | .addUpdate o i update expected health summary progress =>
    addUpdate c.command o i update expected health summary progress >>= fun r => pure (.update r)
  | .archiveInitiative o i expected =>
    archiveInitiative c.command o i expected >>= fun r => pure (.archive r)
  | .attachProject o i expected snapshot position =>
    attachProject c.command o i expected snapshot position >>= fun r => pure (.project r)
  | .updateProjectSnapshot o i expected snapshot =>
    updateProjectSnapshot c.command o i expected snapshot >>= fun r => pure (.project r)
  | .detachProject o i p expected expectedMembership =>
    detachProject c.command o i p expected expectedMembership >>= fun r => pure (.detach r)
  | .reorderProjects o i expected items =>
    reorderProjects c.command o i expected items >>= fun r => pure (.reorder r)

end Portfolio
