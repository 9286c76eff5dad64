/-
# The handlers

The thirteen handlers of the plugin as programs over the functions of the
storage layer: each authorizes the call, checks the request, asks the storage
once at most and converts the record to the contract's response.

What the plugin does not decide itself is given to it: by its instance
(`ProjectPortfolioPlugin`: the callers it admits, whether its key is valid and
its database prepared, the digest of a request and the parsers of other
libraries) and by the call (`Context`: who calls, the subject its assertion
verifies for, the answers of the membership and the access provider, the
clock). The text of a library's error at the end of a failure's detail is left
out. `Storage.serve` is what a storage function does on the tables: a mutation
is one transaction, a read issues its statements one by one.

Key definitions: `ProjectPortfolioPlugin`, `Context`, `authorize`, `Storage`,
`Handler`, one for each handler, `Request.handle`, `Handler.serve`.
-/
import Portfolio.Contract
import Portfolio.Validation
import Portfolio.Storage

namespace Portfolio

open Txn.Prog

/-! ### Failures -/

/-- The failures of the runtime that the plugin makes, and any other it passes on. -/
inductive RuntimeFailure
  | invalidResolvedPlan (detail : String)
  | pluginFailure (detail : String)
  | protocolViolation (capability : String)
  | internal (detail : String)
  | other (detail : String)
deriving DecidableEq

inductive PluginError (ε : Type)
  | domain (error : ε)
  | runtime (failure : RuntimeFailure)
deriving DecidableEq

inductive AuthorizationFailure
  | unauthenticated
  | forbidden
  | runtime (failure : RuntimeFailure)
deriving DecidableEq

/-- The errors every operation has. -/
class OperationError (ε : Type) where
  unauthenticated : ε
  forbidden : ε
  invalidRequest : ε

instance : OperationError PortfolioError := ⟨.unauthenticated, .forbidden, .invalidRequest⟩
instance : OperationError ReadError := ⟨.unauthenticated, .forbidden, .invalidRequest⟩
instance : OperationError AdminError := ⟨.unauthenticated, .forbidden, .invalidRequest⟩

/-- `portfolio_error!`. -/
def portfolioError : DomainFailure → PortfolioError
  | .notFound => .notFound
  | .archived => .archived
  | .revisionConflict => .revisionConflict
  | .idempotencyConflict => .idempotencyConflict
  | .operationInProgress => .operationInProgress
  | .alreadyExists => .alreadyExists
  | _ => .invalidRequest

/-- `read_error!`. -/
def readError : DomainFailure → ReadError
  | .notFound => .notFound
  | _ => .invalidRequest

/-- `admin_error!`. -/
def adminError : DomainFailure → AdminError
  | .notFound => .notFound
  | .archived => .archived
  | .revisionConflict => .revisionConflict
  | .idempotencyConflict => .idempotencyConflict
  | .operationInProgress => .operationInProgress
  | .alreadyAttached => .alreadyAttached
  | .notAttached => .notAttached
  | .positionConflict => .positionConflict
  | _ => .invalidRequest

/-- The text of a storage error, without that of the library error it ends with. A domain failure
is never reported by its text. -/
def StorageError.text : StorageError → String
  | .domain _ => "domain failure: "
  | .database operation _ => "database failure during " ++ operation ++ ": "
  | .receipt => "failed to encode or decode command receipt: "
  | .time => "failed to format a timestamp: "

/-- `map_storage`. -/
def mapStorage {ε : Type} (map : DomainFailure → ε) : StorageError → PluginError ε
  | .domain failure => .domain (map failure)
  | error => .runtime (.pluginFailure error.text)

/-! ### The plugin and the call -/

/-- What another plugin answers instead of a value. -/
inductive InvocationError
  | runtime (failure : RuntimeFailure)
  | domain

/-- An instance of the plugin. -/
structure ProjectPortfolioPlugin where
  portfolioCallers : List String
  adminCallers : List String
  /-- The configured public key is one. -/
  keyValid : Bool
  /-- The plugin is active: its database is prepared. -/
  active : Bool
  /-- The SHA-256 digest of the JSON text of a request. -/
  digest : Json → List UInt8
  /-- `OffsetDateTime::parse` of RFC 3339, as the instant a column stores. -/
  parseRfc3339 : String → Option OffsetDateTime
  /-- The texts the contract's `Timestamp` accepts. -/
  accepts : String → Bool

/-- One invocation of a handler. -/
structure Context where
  callerInstance : Option String
  /-- The subject of the call's assertion, if it verifies for the capability and the operation. -/
  actor : String → String → Option String
  /-- `check_membership` of an organization and a subject: whether it is active. -/
  membership : String → String → Except InvocationError Bool
  /-- `check_permission` of a subject, a scope (kind and id) and a permission: whether it is allowed. -/
  access : String → String → String → String → Except InvocationError Bool
  /-- The plugin's own clock. -/
  now : Instant

structure Authorized where
  caller : String
  actor : String

def portfolioCapability : String := "lenso.project-portfolio@1"
def adminCapability : String := "lenso.project-portfolio-admin@1"
def membershipCapability : String := "lenso.organization-membership@1"
def accessCapability : String := "lenso.access-control@1"

def portfolioRead : String := "portfolio.initiatives.read"
def portfolioWrite : String := "portfolio.initiatives.write"
def portfolioAdmin : String := "portfolio.initiatives.admin"

/-- `ok_or`. -/
def okOr {ε α : Type} (error : ε) : Option α → Except ε α
  | some a => .ok a
  | none => .error error

/-- `Err` unless it holds. -/
def ensure {ε : Type} (error : ε) (b : Bool) : Except ε Unit := if b then .ok () else .error error

/-- A provider's answer; a domain error of a provider is a violation of its protocol. -/
def provided {α : Type} (capability : String) : Except InvocationError α → Except AuthorizationFailure α
  | .ok a => .ok a
  | .error (.runtime failure) => .error (.runtime failure)
  | .error .domain => .error (.runtime (.protocolViolation capability))

namespace ProjectPortfolioPlugin
variable (plugin : ProjectPortfolioPlugin) (context : Context)

/-- `config.verifier()`. -/
def verifier : Except RuntimeFailure Unit :=
  if plugin.keyValid then .ok ()
  else .error (.invalidResolvedPlan "Project Portfolio Auth verification key is invalid")

def authorize (callers : List String) (capability operation organizationId permission : String) :
    Except AuthorizationFailure Authorized := do
  let caller ← okOr .forbidden (context.callerInstance.filter fun caller => callers.contains caller)
  plugin.verifier.mapError .runtime
  let actor ← okOr .unauthenticated (context.actor capability operation)
  ensure .forbidden (validOpaqueId organizationId && validOpaqueId actor)
  let active ← provided membershipCapability (context.membership organizationId actor)
  ensure .forbidden active
  let allowed ← provided accessCapability (context.access actor "organization" organizationId permission)
  ensure .forbidden allowed
  return ⟨caller, actor⟩

/-- `parse_snapshot`. -/
def parseSnapshot (projectId nameSnapshot : String) (status : Status) (health : Health) (progress : ℤ)
    (targetStart targetDate : Option String) (snapshotRevision observedAt : String) : Option ProjectSnapshot := do
  let (targetStart, targetDate) ← parseDateWindow targetStart targetDate
  if !validOpaqueId projectId || !validText nameSnapshot 240 || !validBoundedOpaque snapshotRevision 128 ||
      !decide (0 ≤ progress ∧ progress ≤ 100) then none
  else do
    let observedAt ← plugin.parseRfc3339 observedAt
    return {
      projectId, nameSnapshot
      statusCategory := status.text
      health := health.text
      progress, targetStart, targetDate, snapshotRevision, observedAt }

end ProjectPortfolioPlugin

/-! ### The storage layer as the handlers see it -/

/-- The functions of the storage layer with their arguments, by what they answer. -/
inductive Storage : Type → Type
  | createInitiative (c : Command) (v : InitiativeCreate) : Storage InitiativeRecord
  | updateInitiative (c : Command) (o i : String) (expected : ℤ) (patch : InitiativePatch) :
    Storage InitiativeRecord
  | addUpdate (c : Command) (o i update : String) (expected : ℤ) (health summary : String) (progress : ℤ) :
    Storage UpdateRecord
  | archiveInitiative (c : Command) (o i : String) (expected : ℤ) : Storage ArchiveRecord
  | attachProject (c : Command) (o i : String) (expected : ℤ) (snapshot : ProjectSnapshot) (position : ℤ) :
    Storage ProjectRecord
  | updateProjectSnapshot (c : Command) (o i : String) (expected : ℤ) (snapshot : ProjectSnapshot) :
    Storage ProjectRecord
  | detachProject (c : Command) (o i p : String) (expected expectedMembership : ℤ) : Storage DetachRecord
  | reorderProjects (c : Command) (o i : String) (expected : ℤ) (items : List ReorderInput) :
    Storage ReorderRecord
  | getInitiative (o i : String) : Storage InitiativeRecord
  | listInitiatives (o : String) (includeArchived : Bool) (after : Option ℤ) (limit : ℤ) :
    Storage (List InitiativeRecord)
  | listUpdates (o i : String) (after : Option ℤ) (limit : ℤ) : Storage (List UpdateRecord)
  | listProjects (o i : String) (afterPosition : Option ℤ) (limit : ℤ) : Storage (List ProjectRecord)
  | readRollup (o i : String) (now : Instant) : Storage RollupRecord

def Storage.code {α : Type} : Storage α → Tx α
  | .createInitiative c v => Portfolio.createInitiative c v
  | .updateInitiative c o i expected patch => Portfolio.updateInitiative c o i expected patch
  | .addUpdate c o i update expected health summary progress =>
    Portfolio.addUpdate c o i update expected health summary progress
  | .archiveInitiative c o i expected => Portfolio.archiveInitiative c o i expected
  | .attachProject c o i expected snapshot position =>
    Portfolio.attachProject c o i expected snapshot position
  | .updateProjectSnapshot c o i expected snapshot => Portfolio.updateProjectSnapshot c o i expected snapshot
  | .detachProject c o i p expected expectedMembership =>
    Portfolio.detachProject c o i p expected expectedMembership
  | .reorderProjects c o i expected items => Portfolio.reorderProjects c o i expected items
  | .getInitiative o i => Portfolio.getInitiative o i
  | .listInitiatives o includeArchived after limit => Portfolio.listInitiatives o includeArchived after limit
  | .listUpdates o i after limit => Portfolio.listUpdates o i after limit
  | .listProjects o i afterPosition limit => Portfolio.listProjects o i afterPosition limit
  | .readRollup o i now => Portfolio.readRollup o i now

/-- The mutation it is, and how its record is one of any mutation; none for a read. -/
def Storage.call {α : Type} : Storage α → Option (Call × (α → Record))
  | .createInitiative c v => some (⟨c, .createInitiative v⟩, .initiative)
  | .updateInitiative c o i expected patch => some (⟨c, .updateInitiative o i expected patch⟩, .initiative)
  | .addUpdate c o i update expected health summary progress =>
    some (⟨c, .addUpdate o i update expected health summary progress⟩, .update)
  | .archiveInitiative c o i expected => some (⟨c, .archiveInitiative o i expected⟩, .archive)
  | .attachProject c o i expected snapshot position =>
    some (⟨c, .attachProject o i expected snapshot position⟩, .project)
  | .updateProjectSnapshot c o i expected snapshot =>
    some (⟨c, .updateProjectSnapshot o i expected snapshot⟩, .project)
  | .detachProject c o i p expected expectedMembership =>
    some (⟨c, .detachProject o i p expected expectedMembership⟩, .detach)
  | .reorderProjects c o i expected items => some (⟨c, .reorderProjects o i expected items⟩, .reorder)
  | _ => none

/-- On the tables: a mutation is rolled back where it fails, the statements of a read stand for
themselves. -/
def Storage.serve {α : Type} (s : Storage α) (t : ℕ → Tick) (T : Tables) :
    Except StorageError α × (ℕ → Tick) × Tables :=
  match s.call with
  | some _ => ((Txn.atomic s.code t T).1, (s.code.run t T).2.1, (Txn.atomic s.code t T).2)
  | none => s.code.run t T

/-- A handler with errors `ε` that answers `α`. -/
abbrev Handler (ε α : Type) := Txn.Prog Storage StorageError (PluginError ε) α

/-- What a handler answers, and the tables after it. -/
def Handler.serve {ε α : Type} : Handler ε α → (ℕ → Tick) → Tables → Except (PluginError ε) α × Tables
  | .ret a, _, T => (.ok a, T)
  | .throw e, _, T => (.error e, T)
  | .call s k, t, T => serve (k (s.serve t T).1) (s.serve t T).2.1 (s.serve t T).2.2

section
variable {ε α : Type} [OperationError ε]

/-- `auth_portfolio!` and `auth_admin!`. -/
def authorized : Except AuthorizationFailure Authorized → Handler ε Authorized
  | .ok auth => pure auth
  | .error .unauthenticated => .throw (.domain OperationError.unauthenticated)
  | .error .forbidden => .throw (.domain OperationError.forbidden)
  | .error (.runtime failure) => .throw (.runtime failure)

/-- `InvalidRequest` if there is none. -/
def orInvalid : Option α → Handler ε α
  | some a => pure a
  | none => .throw (.domain OperationError.invalidRequest)

/-- `InvalidRequest` unless it holds. -/
def valid (b : Bool) : Handler ε Unit :=
  if b then pure () else .throw (.domain OperationError.invalidRequest)

/-- `prepared`. -/
def prepared (plugin : ProjectPortfolioPlugin) : Handler ε Unit :=
  if plugin.active then pure ()
  else .throw (.runtime (.pluginFailure "Project Portfolio Plugin is not prepared"))

/-- A storage function, its failures mapped. -/
def stored (s : Storage α) (map : DomainFailure → ε) : Handler ε α := perform s (mapStorage map)

/-- `wire_cast`: a response, if the record's JSON decodes to one. -/
def wireCast : Option α → Handler ε α
  | some a => pure a
  | none => .throw (.runtime (.internal "Project Portfolio wire serialization failed: "))

end

/-- `command`. -/
def Authorized.command (auth : Authorized) (key : String) (hash : List UInt8) : Command :=
  ⟨auth.caller, auth.actor, key, hash⟩

/-- The page of a list that was asked for one row more than its limit, and whether there is more. -/
def page {α : Type} (limit : ℤ) (records : List α) : List α × Bool :=
  if limit.toNat < records.length then (records.dropLast, true) else (records, false)

/-- The cursor after a page: one of its last record, if there is more. -/
def nextCursor {α β : Type} (cursor : α → β) (records : List α × Bool) : Option β :=
  if records.2 then records.1.getLast?.map cursor else none

/-! ### The handlers of `lenso.project-portfolio@1` -/

namespace ProjectPortfolioPlugin
variable (plugin : ProjectPortfolioPlugin) (context : Context)

def createInitiative (request : CreateInitiativeRequest) :
    Handler CreateInitiativeError CreateInitiativeResponse := do
  let auth ← authorized (plugin.authorize context plugin.portfolioCallers portfolioCapability
    "create_initiative" request.organizationId portfolioWrite)
  let dates ← orInvalid (parseDateWindow request.targetStart request.targetDate)
  valid (validIdempotencyKey request.idempotencyKey && validOpaqueId request.initiativeId &&
    validText request.name 240 && validOptionalText request.summary maxTextBytes &&
    request.ownerSubject.all validOpaqueId)
  prepared plugin
  let record ← stored (.createInitiative
    (auth.command request.idempotencyKey (plugin.digest request.toJson))
    { organizationId := request.organizationId
      initiativeId := request.initiativeId
      name := request.name
      summary := request.summary
      ownerSubject := request.ownerSubject
      targetStart := dates.1
      targetDate := dates.2 }) portfolioError
  wireCast (CreateInitiativeResponse.fromJson plugin.accepts record.toJson)

def getInitiative (request : GetInitiativeRequest) : Handler GetInitiativeError GetInitiativeResponse := do
  let _ ← authorized (plugin.authorize context plugin.portfolioCallers portfolioCapability
    "get_initiative" request.organizationId portfolioRead)
  valid (validOpaqueId request.initiativeId)
  prepared plugin
  let record ← stored (.getInitiative request.organizationId request.initiativeId) readError
  wireCast (CreateInitiativeResponse.fromJson plugin.accepts record.toJson)

def listInitiatives (request : ListInitiativesRequest) :
    Handler ListInitiativesError ListInitiativesResponse := do
  let _ ← authorized (plugin.authorize context plugin.portfolioCallers portfolioCapability
    "list_initiatives" request.organizationId portfolioRead)
  let after ← orInvalid (parseCursor request.after)
  valid (decide (1 ≤ request.limit ∧ request.limit ≤ 200))
  prepared plugin
  let records ← stored (.listInitiatives request.organizationId request.includeArchived after
    (request.limit + 1)) readError
  let records := page request.limit records
  let initiatives ← wireCast (records.1.mapM fun record =>
    CreateInitiativeResponse.fromJson plugin.accepts record.toJson)
  pure ⟨initiatives, nextCursor (fun record => toString record.rowSeq) records⟩

def updateInitiative (request : UpdateInitiativeRequest) :
    Handler UpdateInitiativeError UpdateInitiativeResponse := do
  let auth ← authorized (plugin.authorize context plugin.portfolioCallers portfolioCapability
    "update_initiative" request.organizationId portfolioWrite)
  let expectedRevision ← orInvalid (parseRevision request.expectedRevision)
  let dates ← orInvalid (parseDateWindow request.targetStart request.targetDate)
  valid (validIdempotencyKey request.idempotencyKey && validOpaqueId request.initiativeId &&
    request.name.all (fun value => validText value 240) &&
    validOptionalText request.summary maxTextBytes && request.ownerSubject.all validOpaqueId)
  prepared plugin
  let record ← stored (.updateInitiative
    (auth.command request.idempotencyKey (plugin.digest request.toJson)) request.organizationId
    request.initiativeId expectedRevision
    { name := request.name
      summary := request.summary
      ownerSubject := request.ownerSubject
      targetStart := dates.1
      targetDate := dates.2 }) portfolioError
  wireCast (CreateInitiativeResponse.fromJson plugin.accepts record.toJson)

def listInitiativeProjects (request : ListInitiativeProjectsRequest) :
    Handler ListInitiativeProjectsError ListInitiativeProjectsResponse := do
  let _ ← authorized (plugin.authorize context plugin.portfolioCallers portfolioCapability
    "list_initiative_projects" request.organizationId portfolioRead)
  valid (validOpaqueId request.initiativeId && decide (1 ≤ request.limit ∧ request.limit ≤ 200))
  prepared plugin
  let records ← stored (.listProjects request.organizationId request.initiativeId request.afterPosition
    (request.limit + 1)) readError
  let records := page request.limit records
  let projects ← wireCast (records.1.mapM fun record =>
    ListInitiativeProjectsResponseProjectsItem.fromJson plugin.accepts record.toJson)
  pure ⟨nextCursor (fun record => record.position) records, projects⟩

def addInitiativeUpdate (request : AddInitiativeUpdateRequest) :
    Handler AddInitiativeUpdateError AddInitiativeUpdateResponse := do
  let auth ← authorized (plugin.authorize context plugin.portfolioCallers portfolioCapability
    "add_initiative_update" request.organizationId portfolioWrite)
  let expectedRevision ← orInvalid (parseRevision request.expectedRevision)
  valid (validIdempotencyKey request.idempotencyKey && validOpaqueId request.initiativeId &&
    validOpaqueId request.updateId && validText request.summary maxTextBytes &&
    decide (0 ≤ request.progress ∧ request.progress ≤ 100))
  prepared plugin
  let record ← stored (.addUpdate (auth.command request.idempotencyKey (plugin.digest request.toJson))
    request.organizationId request.initiativeId request.updateId expectedRevision request.health.text
    request.summary request.progress) portfolioError
  wireCast (AddInitiativeUpdateResponse.fromJson plugin.accepts record.toJson)

def listInitiativeUpdates (request : ListInitiativeUpdatesRequest) :
    Handler ListInitiativeUpdatesError ListInitiativeUpdatesResponse := do
  let _ ← authorized (plugin.authorize context plugin.portfolioCallers portfolioCapability
    "list_initiative_updates" request.organizationId portfolioRead)
  let after ← orInvalid (parseCursor request.after)
  valid (validOpaqueId request.initiativeId && decide (1 ≤ request.limit ∧ request.limit ≤ 200))
  prepared plugin
  let records ← stored (.listUpdates request.organizationId request.initiativeId after (request.limit + 1))
    readError
  let records := page request.limit records
  let updates ← wireCast (records.1.mapM fun record =>
    AddInitiativeUpdateResponse.fromJson plugin.accepts record.toJson)
  pure ⟨nextCursor (fun record => toString record.rowSeq) records, updates⟩

def readRollup (request : ReadRollupRequest) : Handler ReadRollupError ReadRollupResponse := do
  let _ ← authorized (plugin.authorize context plugin.portfolioCallers portfolioCapability
    "read_rollup" request.organizationId portfolioRead)
  valid (validOpaqueId request.initiativeId)
  prepared plugin
  let record ← stored (.readRollup request.organizationId request.initiativeId context.now) readError
  wireCast (ReadRollupResponse.fromJson plugin.accepts record.toJson)

/-! ### The handlers of `lenso.project-portfolio-admin@1` -/

def archiveInitiative (request : ArchiveInitiativeRequest) :
    Handler ArchiveInitiativeError ArchiveInitiativeResponse := do
  let auth ← authorized (plugin.authorize context plugin.adminCallers adminCapability
    "archive_initiative" request.organizationId portfolioAdmin)
  let expectedRevision ← orInvalid (validAdminMutation request.idempotencyKey request.initiativeId
    request.expectedRevision)
  prepared plugin
  let record ← stored (.archiveInitiative
    (auth.command request.idempotencyKey (plugin.digest request.toJson)) request.organizationId
    request.initiativeId expectedRevision) adminError
  wireCast (ArchiveInitiativeResponse.fromJson plugin.accepts record.toJson)

def attachProject (request : AttachProjectRequest) : Handler AttachProjectError AttachProjectResponse := do
  let auth ← authorized (plugin.authorize context plugin.adminCallers adminCapability
    "attach_project" request.organizationId portfolioAdmin)
  let expectedRevision ← orInvalid (validAdminMutation request.idempotencyKey request.initiativeId
    request.expectedInitiativeRevision)
  let snapshot ← orInvalid (plugin.parseSnapshot request.projectId request.nameSnapshot
    request.statusCategory request.health request.progress request.targetStart request.targetDate
    request.snapshotRevision request.observedAt)
  valid (decide (0 ≤ request.position ∧ request.position ≤ 10000))
  prepared plugin
  let record ← stored (.attachProject (auth.command request.idempotencyKey (plugin.digest request.toJson))
    request.organizationId request.initiativeId expectedRevision snapshot request.position) adminError
  wireCast (AttachProjectResponse.fromJson plugin.accepts record.toJson)

def updateProjectSnapshot (request : UpdateProjectSnapshotRequest) :
    Handler UpdateProjectSnapshotError UpdateProjectSnapshotResponse := do
  let auth ← authorized (plugin.authorize context plugin.adminCallers adminCapability
    "update_project_snapshot" request.organizationId portfolioAdmin)
  let expectedRevision ← orInvalid (validAdminMutation request.idempotencyKey request.initiativeId
    request.expectedMembershipRevision)
  let snapshot ← orInvalid (plugin.parseSnapshot request.projectId request.nameSnapshot
    request.statusCategory request.health request.progress request.targetStart request.targetDate
    request.snapshotRevision request.observedAt)
  prepared plugin
  let record ← stored (.updateProjectSnapshot
    (auth.command request.idempotencyKey (plugin.digest request.toJson)) request.organizationId
    request.initiativeId expectedRevision snapshot) adminError
  wireCast (AttachProjectResponse.fromJson plugin.accepts record.toJson)

def detachProject (request : DetachProjectRequest) : Handler DetachProjectError DetachProjectResponse := do
  let auth ← authorized (plugin.authorize context plugin.adminCallers adminCapability
    "detach_project" request.organizationId portfolioAdmin)
  let initiativeRevision ← orInvalid (validAdminMutation request.idempotencyKey request.initiativeId
    request.expectedInitiativeRevision)
  let membershipRevision ← orInvalid ((parseRevision request.expectedMembershipRevision).filter fun _ =>
    validOpaqueId request.projectId)
  prepared plugin
  let record ← stored (.detachProject (auth.command request.idempotencyKey (plugin.digest request.toJson))
    request.organizationId request.initiativeId request.projectId initiativeRevision membershipRevision)
    adminError
  wireCast (DetachProjectResponse.fromJson record.toJson)

/-- An item of `reorder_projects`, if its parts are valid. -/
def reorderInput (item : ReorderProjectsRequestItemsItem) : Option ReorderInput := do
  let projectId ← Option.guard validOpaqueId item.projectId
  let expectedMembershipRevision ← parseRevision item.expectedMembershipRevision
  let position ← Option.guard (fun position => decide (0 ≤ position ∧ position ≤ 10000)) item.position
  return ⟨projectId, expectedMembershipRevision, position⟩

def reorderProjects (request : ReorderProjectsRequest) :
    Handler ReorderProjectsError ReorderProjectsResponse := do
  let auth ← authorized (plugin.authorize context plugin.adminCallers adminCapability
    "reorder_projects" request.organizationId portfolioAdmin)
  let initiativeRevision ← orInvalid (validAdminMutation request.idempotencyKey request.initiativeId
    request.expectedInitiativeRevision)
  let items ← orInvalid (request.items.mapM reorderInput)
  prepared plugin
  let record ← stored (.reorderProjects
    (auth.command request.idempotencyKey (plugin.digest request.toJson)) request.organizationId
    request.initiativeId initiativeRevision items) adminError
  wireCast (ReorderProjectsResponse.fromJson record.toJson)

end ProjectPortfolioPlugin

/-! ### All of them -/

/-- A request of any operation. -/
inductive Request
  | createInitiative (request : CreateInitiativeRequest)
  | getInitiative (request : GetInitiativeRequest)
  | listInitiatives (request : ListInitiativesRequest)
  | updateInitiative (request : UpdateInitiativeRequest)
  | listInitiativeProjects (request : ListInitiativeProjectsRequest)
  | addInitiativeUpdate (request : AddInitiativeUpdateRequest)
  | listInitiativeUpdates (request : ListInitiativeUpdatesRequest)
  | readRollup (request : ReadRollupRequest)
  | archiveInitiative (request : ArchiveInitiativeRequest)
  | attachProject (request : AttachProjectRequest)
  | updateProjectSnapshot (request : UpdateProjectSnapshotRequest)
  | detachProject (request : DetachProjectRequest)
  | reorderProjects (request : ReorderProjectsRequest)

/-- A response of any operation. -/
inductive Response
  | initiative (response : CreateInitiativeResponse)
  | initiatives (response : ListInitiativesResponse)
  | projects (response : ListInitiativeProjectsResponse)
  | update (response : AddInitiativeUpdateResponse)
  | updates (response : ListInitiativeUpdatesResponse)
  | rollup (response : ReadRollupResponse)
  | archive (response : ArchiveInitiativeResponse)
  | project (response : AttachProjectResponse)
  | detach (response : DetachProjectResponse)
  | reorder (response : ReorderProjectsResponse)
deriving DecidableEq

/-- A domain error of any operation. -/
inductive DomainError
  | portfolio (error : PortfolioError)
  | read (error : ReadError)
  | admin (error : AdminError)
deriving DecidableEq

def PluginError.map {ε ε' : Type} (f : ε → ε') : PluginError ε → PluginError ε'
  | .domain error => .domain (f error)
  | .runtime failure => .runtime failure

/-- A handler among those of the other operations. -/
def Handler.as {ε α : Type} (h : Handler ε α) (error : ε → DomainError) (response : α → Response) :
    Handler DomainError Response :=
  (h >>= fun a => pure (response a)).mapError (PluginError.map error)

/-- The handler of a request. -/
def Request.handle (plugin : ProjectPortfolioPlugin) (context : Context) : Request → Handler DomainError Response
  | .createInitiative r => Handler.as (plugin.createInitiative context r) .portfolio .initiative
  | .getInitiative r => Handler.as (plugin.getInitiative context r) .read .initiative
  | .listInitiatives r => Handler.as (plugin.listInitiatives context r) .read .initiatives
  | .updateInitiative r => Handler.as (plugin.updateInitiative context r) .portfolio .initiative
  | .listInitiativeProjects r => Handler.as (plugin.listInitiativeProjects context r) .read .projects
  | .addInitiativeUpdate r => Handler.as (plugin.addInitiativeUpdate context r) .portfolio .update
  | .listInitiativeUpdates r => Handler.as (plugin.listInitiativeUpdates context r) .read .updates
  | .readRollup r => Handler.as (plugin.readRollup context r) .read .rollup
  | .archiveInitiative r => Handler.as (plugin.archiveInitiative context r) .admin .archive
  | .attachProject r => Handler.as (plugin.attachProject context r) .admin .project
  | .updateProjectSnapshot r => Handler.as (plugin.updateProjectSnapshot context r) .admin .project
  | .detachProject r => Handler.as (plugin.detachProject context r) .admin .detach
  | .reorderProjects r => Handler.as (plugin.reorderProjects context r) .admin .reorder

end Portfolio
