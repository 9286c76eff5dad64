/-
# The two contracts

The types of `generated.rs` of the two capabilities: the thirteen requests, the
responses and the domain errors. Requests are encoded (the request hash is of
their JSON), responses are decoded (`wire_cast` reads them from the JSON of a
record): every field of a response is required, one that may be `null`
included, an enumeration by its texts, and a `Timestamp` is a text that
`accepts` admits. The error a client decodes for a code it does not know
(`Unknown`) is none a handler answers, and left out.

Operations with the same response share one structure under their own names.

Key definitions: `Health`, `Status`, the requests with `toJson`, the responses
with `fromJson`, `PortfolioError`, `ReadError`, `AdminError`.
-/
import Portfolio.Json

namespace Portfolio

open Json

inductive Health
  | onTrack
  | atRisk
  | offTrack
  | noUpdate
deriving DecidableEq

inductive Status
  | backlog
  | planned
  | started
  | paused
  | completed
  | canceled
deriving DecidableEq

def Health.text : Health → String
  | .onTrack => "on_track"
  | .atRisk => "at_risk"
  | .offTrack => "off_track"
  | .noUpdate => "no_update"

def Status.text : Status → String
  | .backlog => "backlog"
  | .planned => "planned"
  | .started => "started"
  | .paused => "paused"
  | .completed => "completed"
  | .canceled => "canceled"

def Health.all : List Health := [.onTrack, .atRisk, .offTrack, .noUpdate]

def Status.all : List Status := [.backlog, .planned, .started, .paused, .completed, .canceled]

/-- The member of an enumeration with the text. -/
def decEnum {α : Type} (all : List α) (text : α → String) : Json → Option α
  | .str s => all.find? fun a => text a = s
  | _ => none

def decHealth : Json → Option Health := decEnum Health.all Health.text

def decStatus : Json → Option Status := decEnum Status.all Status.text

/-- A `Timestamp`: a text the contract's type accepts. -/
def decTimestamp (accepts : String → Bool) : Json → Option String
  | .str s => if accepts s then some s else none
  | _ => none

/-! ### Requests of `lenso.project-portfolio@1` -/

structure AddInitiativeUpdateRequest where
  expectedRevision : String
  health : Health
  idempotencyKey : String
  initiativeId : String
  organizationId : String
  progress : ℤ
  summary : String
  updateId : String

structure CreateInitiativeRequest where
  idempotencyKey : String
  initiativeId : String
  name : String
  organizationId : String
  ownerSubject : Option String
  summary : Option String
  targetDate : Option String
  targetStart : Option String

structure GetInitiativeRequest where
  initiativeId : String
  organizationId : String

structure ListInitiativeProjectsRequest where
  afterPosition : Option ℤ
  initiativeId : String
  limit : ℤ
  organizationId : String

structure ListInitiativeUpdatesRequest where
  after : Option String
  initiativeId : String
  limit : ℤ
  organizationId : String

structure ListInitiativesRequest where
  after : Option String
  includeArchived : Bool
  limit : ℤ
  organizationId : String

structure ReadRollupRequest where
  initiativeId : String
  organizationId : String

structure UpdateInitiativeRequest where
  expectedRevision : String
  idempotencyKey : String
  initiativeId : String
  name : Option String
  organizationId : String
  ownerSubject : Option String
  summary : Option String
  targetDate : Option String
  targetStart : Option String

/-! ### Requests of `lenso.project-portfolio-admin@1` -/

structure ArchiveInitiativeRequest where
  expectedRevision : String
  idempotencyKey : String
  initiativeId : String
  organizationId : String

/-- `observedAt` is the text of its `Timestamp`. -/
structure AttachProjectRequest where
  expectedInitiativeRevision : String
  health : Health
  idempotencyKey : String
  initiativeId : String
  nameSnapshot : String
  observedAt : String
  organizationId : String
  position : ℤ
  progress : ℤ
  projectId : String
  snapshotRevision : String
  statusCategory : Status
  targetDate : Option String
  targetStart : Option String

structure DetachProjectRequest where
  expectedInitiativeRevision : String
  expectedMembershipRevision : String
  idempotencyKey : String
  initiativeId : String
  organizationId : String
  projectId : String

structure ReorderProjectsRequestItemsItem where
  expectedMembershipRevision : String
  position : ℤ
  projectId : String

structure ReorderProjectsRequest where
  expectedInitiativeRevision : String
  idempotencyKey : String
  initiativeId : String
  items : List ReorderProjectsRequestItemsItem
  organizationId : String

structure UpdateProjectSnapshotRequest where
  expectedMembershipRevision : String
  health : Health
  idempotencyKey : String
  initiativeId : String
  nameSnapshot : String
  observedAt : String
  organizationId : String
  progress : ℤ
  projectId : String
  snapshotRevision : String
  statusCategory : Status
  targetDate : Option String
  targetStart : Option String

/-! ### The JSON of the mutating requests -/

def AddInitiativeUpdateRequest.toJson (r : AddInitiativeUpdateRequest) : Json := .obj [
  ("expected_revision", .str r.expectedRevision), ("health", .str r.health.text),
  ("idempotency_key", .str r.idempotencyKey), ("initiative_id", .str r.initiativeId),
  ("organization_id", .str r.organizationId), ("progress", int r.progress), ("summary", .str r.summary),
  ("update_id", .str r.updateId)]

def CreateInitiativeRequest.toJson (r : CreateInitiativeRequest) : Json := .obj [
  ("idempotency_key", .str r.idempotencyKey), ("initiative_id", .str r.initiativeId), ("name", .str r.name),
  ("organization_id", .str r.organizationId), ("owner_subject", ofOption .str r.ownerSubject),
  ("summary", ofOption .str r.summary), ("target_date", ofOption .str r.targetDate),
  ("target_start", ofOption .str r.targetStart)]

def UpdateInitiativeRequest.toJson (r : UpdateInitiativeRequest) : Json := .obj [
  ("expected_revision", .str r.expectedRevision), ("idempotency_key", .str r.idempotencyKey),
  ("initiative_id", .str r.initiativeId), ("name", ofOption .str r.name),
  ("organization_id", .str r.organizationId), ("owner_subject", ofOption .str r.ownerSubject),
  ("summary", ofOption .str r.summary), ("target_date", ofOption .str r.targetDate),
  ("target_start", ofOption .str r.targetStart)]

def ArchiveInitiativeRequest.toJson (r : ArchiveInitiativeRequest) : Json := .obj [
  ("expected_revision", .str r.expectedRevision), ("idempotency_key", .str r.idempotencyKey),
  ("initiative_id", .str r.initiativeId), ("organization_id", .str r.organizationId)]

def AttachProjectRequest.toJson (r : AttachProjectRequest) : Json := .obj [
  ("expected_initiative_revision", .str r.expectedInitiativeRevision), ("health", .str r.health.text),
  ("idempotency_key", .str r.idempotencyKey), ("initiative_id", .str r.initiativeId),
  ("name_snapshot", .str r.nameSnapshot), ("observed_at", .str r.observedAt),
  ("organization_id", .str r.organizationId), ("position", int r.position), ("progress", int r.progress),
  ("project_id", .str r.projectId), ("snapshot_revision", .str r.snapshotRevision),
  ("status_category", .str r.statusCategory.text), ("target_date", ofOption .str r.targetDate),
  ("target_start", ofOption .str r.targetStart)]

def DetachProjectRequest.toJson (r : DetachProjectRequest) : Json := .obj [
  ("expected_initiative_revision", .str r.expectedInitiativeRevision),
  ("expected_membership_revision", .str r.expectedMembershipRevision),
  ("idempotency_key", .str r.idempotencyKey), ("initiative_id", .str r.initiativeId),
  ("organization_id", .str r.organizationId), ("project_id", .str r.projectId)]

def ReorderProjectsRequestItemsItem.toJson (r : ReorderProjectsRequestItemsItem) : Json := .obj [
  ("expected_membership_revision", .str r.expectedMembershipRevision), ("position", int r.position),
  ("project_id", .str r.projectId)]

def ReorderProjectsRequest.toJson (r : ReorderProjectsRequest) : Json := .obj [
  ("expected_initiative_revision", .str r.expectedInitiativeRevision),
  ("idempotency_key", .str r.idempotencyKey), ("initiative_id", .str r.initiativeId),
  ("items", ofList ReorderProjectsRequestItemsItem.toJson r.items), ("organization_id", .str r.organizationId)]

def UpdateProjectSnapshotRequest.toJson (r : UpdateProjectSnapshotRequest) : Json := .obj [
  ("expected_membership_revision", .str r.expectedMembershipRevision), ("health", .str r.health.text),
  ("idempotency_key", .str r.idempotencyKey), ("initiative_id", .str r.initiativeId),
  ("name_snapshot", .str r.nameSnapshot), ("observed_at", .str r.observedAt),
  ("organization_id", .str r.organizationId), ("progress", int r.progress), ("project_id", .str r.projectId),
  ("snapshot_revision", .str r.snapshotRevision), ("status_category", .str r.statusCategory.text),
  ("target_date", ofOption .str r.targetDate), ("target_start", ofOption .str r.targetStart)]

/-! ### Responses -/

structure CreateInitiativeResponse where
  archived : Bool
  archivedAt : Option String
  createdAt : String
  health : Health
  initiativeId : String
  name : String
  organizationId : String
  ownerSubject : Option String
  progress : ℤ
  projectCount : ℤ
  revision : String
  summary : Option String
  targetDate : Option String
  targetStart : Option String
  updatedAt : String
deriving DecidableEq

abbrev GetInitiativeResponse := CreateInitiativeResponse
abbrev UpdateInitiativeResponse := CreateInitiativeResponse
abbrev ListInitiativesResponseInitiativesItem := CreateInitiativeResponse

structure ListInitiativesResponse where
  initiatives : List ListInitiativesResponseInitiativesItem
  nextCursor : Option String
deriving DecidableEq

structure AddInitiativeUpdateResponse where
  createdAt : String
  createdBy : String
  health : Health
  initiativeId : String
  initiativeRevision : String
  organizationId : String
  progress : ℤ
  summary : String
  updateId : String
deriving DecidableEq

abbrev ListInitiativeUpdatesResponseUpdatesItem := AddInitiativeUpdateResponse

structure ListInitiativeUpdatesResponse where
  nextCursor : Option String
  updates : List ListInitiativeUpdatesResponseUpdatesItem
deriving DecidableEq

structure ListInitiativeProjectsResponseProjectsItem where
  health : Health
  membershipRevision : String
  nameSnapshot : String
  observedAt : String
  position : ℤ
  progress : ℤ
  projectId : String
  snapshotRevision : String
  statusCategory : Status
  targetDate : Option String
  targetStart : Option String
deriving DecidableEq

structure ListInitiativeProjectsResponse where
  nextPosition : Option ℤ
  projects : List ListInitiativeProjectsResponseProjectsItem
deriving DecidableEq

inductive ReadRollupResponseSource
  | ownedProjectSnapshots
deriving DecidableEq

def ReadRollupResponseSource.text : ReadRollupResponseSource → String
  | .ownedProjectSnapshots => "owned_project_snapshots"

structure ReadRollupResponse where
  atRiskCount : ℤ
  /-- The value of the double. -/
  averageProjectProgress : Option ℚ
  completedCount : ℤ
  computedAt : String
  earliestTargetStart : Option String
  health : Health
  initiativeId : String
  initiativeProgress : ℤ
  initiativeRevision : String
  latestTargetDate : Option String
  offTrackCount : ℤ
  projectCount : ℤ
  source : ReadRollupResponseSource
deriving DecidableEq

structure ArchiveInitiativeResponse where
  archived : Bool
  archivedAt : Option String
  initiativeId : String
  organizationId : String
  revision : String
  updatedAt : String
deriving DecidableEq

structure AttachProjectResponse where
  health : Health
  initiativeRevision : String
  membershipRevision : String
  nameSnapshot : String
  observedAt : String
  position : ℤ
  progress : ℤ
  projectId : String
  snapshotRevision : String
  statusCategory : Status
  targetDate : Option String
  targetStart : Option String
deriving DecidableEq

abbrev UpdateProjectSnapshotResponse := AttachProjectResponse

structure DetachProjectResponse where
  detached : Bool
  initiativeRevision : String
deriving DecidableEq

structure ReorderProjectsResponseItemsItem where
  membershipRevision : String
  position : ℤ
  projectId : String
deriving DecidableEq

structure ReorderProjectsResponse where
  initiativeRevision : String
  items : List ReorderProjectsResponseItemsItem
deriving DecidableEq

/-! ### Their decoders -/

section
variable (accepts : String → Bool)

def CreateInitiativeResponse.fromJson (j : Json) : Option CreateInitiativeResponse := do
  return {
    archived := ← req "archived" decBool j
    archivedAt := ← req "archived_at" (decOption (decTimestamp accepts)) j
    createdAt := ← req "created_at" (decTimestamp accepts) j
    health := ← req "health" decHealth j
    initiativeId := ← req "initiative_id" decStr j
    name := ← req "name" decStr j
    organizationId := ← req "organization_id" decStr j
    ownerSubject := ← req "owner_subject" (decOption decStr) j
    progress := ← req "progress" decInt j
    projectCount := ← req "project_count" decInt j
    revision := ← req "revision" decStr j
    summary := ← req "summary" (decOption decStr) j
    targetDate := ← req "target_date" (decOption decStr) j
    targetStart := ← req "target_start" (decOption decStr) j
    updatedAt := ← req "updated_at" (decTimestamp accepts) j }

def AddInitiativeUpdateResponse.fromJson (j : Json) : Option AddInitiativeUpdateResponse := do
  return {
    createdAt := ← req "created_at" (decTimestamp accepts) j
    createdBy := ← req "created_by" decStr j
    health := ← req "health" decHealth j
    initiativeId := ← req "initiative_id" decStr j
    initiativeRevision := ← req "initiative_revision" decStr j
    organizationId := ← req "organization_id" decStr j
    progress := ← req "progress" decInt j
    summary := ← req "summary" decStr j
    updateId := ← req "update_id" decStr j }

def ListInitiativeProjectsResponseProjectsItem.fromJson (j : Json) :
    Option ListInitiativeProjectsResponseProjectsItem := do
  return {
    health := ← req "health" decHealth j
    membershipRevision := ← req "membership_revision" decStr j
    nameSnapshot := ← req "name_snapshot" decStr j
    observedAt := ← req "observed_at" (decTimestamp accepts) j
    position := ← req "position" decInt j
    progress := ← req "progress" decInt j
    projectId := ← req "project_id" decStr j
    snapshotRevision := ← req "snapshot_revision" decStr j
    statusCategory := ← req "status_category" decStatus j
    targetDate := ← req "target_date" (decOption decStr) j
    targetStart := ← req "target_start" (decOption decStr) j }

def ReadRollupResponse.fromJson (j : Json) : Option ReadRollupResponse := do
  return {
    atRiskCount := ← req "at_risk_count" decInt j
    averageProjectProgress := ← req "average_project_progress" (decOption decNum) j
    completedCount := ← req "completed_count" decInt j
    computedAt := ← req "computed_at" (decTimestamp accepts) j
    earliestTargetStart := ← req "earliest_target_start" (decOption decStr) j
    health := ← req "health" decHealth j
    initiativeId := ← req "initiative_id" decStr j
    initiativeProgress := ← req "initiative_progress" decInt j
    initiativeRevision := ← req "initiative_revision" decStr j
    latestTargetDate := ← req "latest_target_date" (decOption decStr) j
    offTrackCount := ← req "off_track_count" decInt j
    projectCount := ← req "project_count" decInt j
    source := ← req "source" (decEnum [.ownedProjectSnapshots] ReadRollupResponseSource.text) j }

def ArchiveInitiativeResponse.fromJson (j : Json) : Option ArchiveInitiativeResponse := do
  return {
    archived := ← req "archived" decBool j
    archivedAt := ← req "archived_at" (decOption (decTimestamp accepts)) j
    initiativeId := ← req "initiative_id" decStr j
    organizationId := ← req "organization_id" decStr j
    revision := ← req "revision" decStr j
    updatedAt := ← req "updated_at" (decTimestamp accepts) j }

def AttachProjectResponse.fromJson (j : Json) : Option AttachProjectResponse := do
  return {
    health := ← req "health" decHealth j
    initiativeRevision := ← req "initiative_revision" decStr j
    membershipRevision := ← req "membership_revision" decStr j
    nameSnapshot := ← req "name_snapshot" decStr j
    observedAt := ← req "observed_at" (decTimestamp accepts) j
    position := ← req "position" decInt j
    progress := ← req "progress" decInt j
    projectId := ← req "project_id" decStr j
    snapshotRevision := ← req "snapshot_revision" decStr j
    statusCategory := ← req "status_category" decStatus j
    targetDate := ← req "target_date" (decOption decStr) j
    targetStart := ← req "target_start" (decOption decStr) j }

end

def DetachProjectResponse.fromJson (j : Json) : Option DetachProjectResponse := do
  return {
    detached := ← req "detached" decBool j
    initiativeRevision := ← req "initiative_revision" decStr j }

def ReorderProjectsResponseItemsItem.fromJson (j : Json) : Option ReorderProjectsResponseItemsItem := do
  return {
    membershipRevision := ← req "membership_revision" decStr j
    position := ← req "position" decInt j
    projectId := ← req "project_id" decStr j }

def ReorderProjectsResponse.fromJson (j : Json) : Option ReorderProjectsResponse := do
  return {
    initiativeRevision := ← req "initiative_revision" decStr j
    items := ← req "items" (decList ReorderProjectsResponseItemsItem.fromJson) j }

/-! ### Domain errors -/

/-- The errors of the three mutations of `lenso.project-portfolio@1`. -/
inductive PortfolioError
  | alreadyExists
  | archived
  | forbidden
  | idempotencyConflict
  | invalidRequest
  | notFound
  | operationInProgress
  | revisionConflict
  | unauthenticated
deriving DecidableEq

abbrev CreateInitiativeError := PortfolioError
abbrev UpdateInitiativeError := PortfolioError
abbrev AddInitiativeUpdateError := PortfolioError

/-- The errors of its five reads. -/
inductive ReadError
  | forbidden
  | invalidRequest
  | notFound
  | unauthenticated
deriving DecidableEq

abbrev GetInitiativeError := ReadError
abbrev ListInitiativesError := ReadError
abbrev ListInitiativeProjectsError := ReadError
abbrev ListInitiativeUpdatesError := ReadError
abbrev ReadRollupError := ReadError

/-- The errors of `lenso.project-portfolio-admin@1`. -/
inductive AdminError
  | alreadyAttached
  | archived
  | forbidden
  | idempotencyConflict
  | invalidRequest
  | notAttached
  | notFound
  | operationInProgress
  | positionConflict
  | revisionConflict
  | unauthenticated
deriving DecidableEq

abbrev ArchiveInitiativeError := AdminError
abbrev AttachProjectError := AdminError
abbrev UpdateProjectSnapshotError := AdminError
abbrev DetachProjectError := AdminError
abbrev ReorderProjectsError := AdminError

end Portfolio
