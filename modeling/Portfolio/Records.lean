/-
# Records: rows as the storage functions return them

Each record with the JSON `derive(Serialize, Deserialize)` gives it, which is
what a receipt stores, and the functions that build it from a row: revisions
as decimal text, dates and timestamps as text. A timestamp without RFC 3339
text makes the record unreadable (`none`, the code's `StorageError::Time`).

Key definitions: `InitiativeRecord`, `ProjectRecord`, `initiativeFromRow`,
`projectFromRow`, `updateFromRow`.
Key theorems: the `dec_enc` field of each codec.
-/
import Portfolio.Rows

namespace Portfolio

open Json

structure InitiativeRecord where
  initiativeId : String
  organizationId : String
  name : String
  summary : Option String
  ownerSubject : Option String
  targetStart : Option String
  targetDate : Option String
  health : String
  progress : ℤ
  projectCount : ℤ
  archived : Bool
  revision : String
  createdAt : String
  updatedAt : String
  archivedAt : Option String
  rowSeq : ℤ
deriving DecidableEq

structure ProjectRecord where
  projectId : String
  nameSnapshot : String
  statusCategory : String
  health : String
  progress : ℤ
  targetStart : Option String
  targetDate : Option String
  snapshotRevision : String
  observedAt : String
  position : ℤ
  membershipRevision : String
  initiativeRevision : Option String
deriving DecidableEq

structure UpdateRecord where
  updateId : String
  initiativeId : String
  organizationId : String
  health : String
  summary : String
  progress : ℤ
  createdBy : String
  initiativeRevision : String
  createdAt : String
  rowSeq : ℤ
deriving DecidableEq

structure ArchiveRecord where
  initiativeId : String
  organizationId : String
  archived : Bool
  revision : String
  updatedAt : String
  archivedAt : Option String
deriving DecidableEq

structure DetachRecord where
  detached : Bool
  initiativeRevision : String
deriving DecidableEq

structure ReorderItemRecord where
  projectId : String
  position : ℤ
  membershipRevision : String
deriving DecidableEq

structure ReorderRecord where
  initiativeRevision : String
  items : List ReorderItemRecord
deriving DecidableEq

/-! ### Their JSON -/

def InitiativeRecord.toJson (r : InitiativeRecord) : Json := .obj [
  ("initiative_id", .str r.initiativeId), ("organization_id", .str r.organizationId),
  ("name", .str r.name), ("summary", ofOption .str r.summary),
  ("owner_subject", ofOption .str r.ownerSubject), ("target_start", ofOption .str r.targetStart),
  ("target_date", ofOption .str r.targetDate), ("health", .str r.health), ("progress", int r.progress),
  ("project_count", int r.projectCount), ("archived", .bool r.archived), ("revision", .str r.revision),
  ("created_at", .str r.createdAt), ("updated_at", .str r.updatedAt),
  ("archived_at", ofOption .str r.archivedAt), ("row_seq", int r.rowSeq)]

def InitiativeRecord.fromJson (j : Json) : Option InitiativeRecord := do
  return {
    initiativeId := ← req "initiative_id" decStr j
    organizationId := ← req "organization_id" decStr j
    name := ← req "name" decStr j
    summary := ← opt "summary" decStr j
    ownerSubject := ← opt "owner_subject" decStr j
    targetStart := ← opt "target_start" decStr j
    targetDate := ← opt "target_date" decStr j
    health := ← req "health" decStr j
    progress := ← req "progress" decInt j
    projectCount := ← req "project_count" decInt j
    archived := ← req "archived" decBool j
    revision := ← req "revision" decStr j
    createdAt := ← req "created_at" decStr j
    updatedAt := ← req "updated_at" decStr j
    archivedAt := ← opt "archived_at" decStr j
    rowSeq := ← req "row_seq" decInt j }

/-- `initiative_revision` is skipped when there is none. -/
def ProjectRecord.toJson (r : ProjectRecord) : Json := .obj ([
  ("project_id", .str r.projectId), ("name_snapshot", .str r.nameSnapshot),
  ("status_category", .str r.statusCategory), ("health", .str r.health), ("progress", int r.progress),
  ("target_start", ofOption .str r.targetStart), ("target_date", ofOption .str r.targetDate),
  ("snapshot_revision", .str r.snapshotRevision), ("observed_at", .str r.observedAt),
  ("position", int r.position), ("membership_revision", .str r.membershipRevision)] ++
  match r.initiativeRevision with
  | some revision => [("initiative_revision", .str revision)]
  | none => [])

def ProjectRecord.fromJson (j : Json) : Option ProjectRecord := do
  return {
    projectId := ← req "project_id" decStr j
    nameSnapshot := ← req "name_snapshot" decStr j
    statusCategory := ← req "status_category" decStr j
    health := ← req "health" decStr j
    progress := ← req "progress" decInt j
    targetStart := ← opt "target_start" decStr j
    targetDate := ← opt "target_date" decStr j
    snapshotRevision := ← req "snapshot_revision" decStr j
    observedAt := ← req "observed_at" decStr j
    position := ← req "position" decInt j
    membershipRevision := ← req "membership_revision" decStr j
    initiativeRevision := ← opt "initiative_revision" decStr j }

def UpdateRecord.toJson (r : UpdateRecord) : Json := .obj [
  ("update_id", .str r.updateId), ("initiative_id", .str r.initiativeId),
  ("organization_id", .str r.organizationId), ("health", .str r.health), ("summary", .str r.summary),
  ("progress", int r.progress), ("created_by", .str r.createdBy),
  ("initiative_revision", .str r.initiativeRevision), ("created_at", .str r.createdAt),
  ("row_seq", int r.rowSeq)]

def UpdateRecord.fromJson (j : Json) : Option UpdateRecord := do
  return {
    updateId := ← req "update_id" decStr j
    initiativeId := ← req "initiative_id" decStr j
    organizationId := ← req "organization_id" decStr j
    health := ← req "health" decStr j
    summary := ← req "summary" decStr j
    progress := ← req "progress" decInt j
    createdBy := ← req "created_by" decStr j
    initiativeRevision := ← req "initiative_revision" decStr j
    createdAt := ← req "created_at" decStr j
    rowSeq := ← req "row_seq" decInt j }

def ArchiveRecord.toJson (r : ArchiveRecord) : Json := .obj [
  ("initiative_id", .str r.initiativeId), ("organization_id", .str r.organizationId),
  ("archived", .bool r.archived), ("revision", .str r.revision), ("updated_at", .str r.updatedAt),
  ("archived_at", ofOption .str r.archivedAt)]

def ArchiveRecord.fromJson (j : Json) : Option ArchiveRecord := do
  return {
    initiativeId := ← req "initiative_id" decStr j
    organizationId := ← req "organization_id" decStr j
    archived := ← req "archived" decBool j
    revision := ← req "revision" decStr j
    updatedAt := ← req "updated_at" decStr j
    archivedAt := ← opt "archived_at" decStr j }

def DetachRecord.toJson (r : DetachRecord) : Json := .obj [
  ("detached", .bool r.detached), ("initiative_revision", .str r.initiativeRevision)]

def DetachRecord.fromJson (j : Json) : Option DetachRecord := do
  return {
    detached := ← req "detached" decBool j
    initiativeRevision := ← req "initiative_revision" decStr j }

def ReorderItemRecord.toJson (r : ReorderItemRecord) : Json := .obj [
  ("project_id", .str r.projectId), ("position", int r.position),
  ("membership_revision", .str r.membershipRevision)]

def ReorderItemRecord.fromJson (j : Json) : Option ReorderItemRecord := do
  return {
    projectId := ← req "project_id" decStr j
    position := ← req "position" decInt j
    membershipRevision := ← req "membership_revision" decStr j }

def ReorderRecord.toJson (r : ReorderRecord) : Json := .obj [
  ("initiative_revision", .str r.initiativeRevision), ("items", ofList ReorderItemRecord.toJson r.items)]

def ReorderRecord.fromJson (j : Json) : Option ReorderRecord := do
  return {
    initiativeRevision := ← req "initiative_revision" decStr j
    items := ← req "items" (decList ReorderItemRecord.fromJson) j }

def InitiativeRecord.codec : Codec InitiativeRecord where
  enc := toJson
  dec := fromJson
  dec_enc r := by simp [toJson, fromJson, req, opt, field]

def ProjectRecord.codec : Codec ProjectRecord where
  enc := toJson
  dec := fromJson
  dec_enc r := by
    obtain ⟨_, _, _, _, _, _, _, _, _, _, _, revision⟩ := r
    cases revision <;> simp [toJson, fromJson, req, opt, field]

def UpdateRecord.codec : Codec UpdateRecord where
  enc := toJson
  dec := fromJson
  dec_enc r := by simp [toJson, fromJson, req, field]

def ArchiveRecord.codec : Codec ArchiveRecord where
  enc := toJson
  dec := fromJson
  dec_enc r := by simp [toJson, fromJson, req, opt, field]

def DetachRecord.codec : Codec DetachRecord where
  enc := toJson
  dec := fromJson
  dec_enc r := by simp [toJson, fromJson, req, field]

theorem ReorderItemRecord.fromJson_toJson (r : ReorderItemRecord) : fromJson r.toJson = some r := by
  simp [toJson, fromJson, req, field]

def ReorderRecord.codec : Codec ReorderRecord where
  enc := toJson
  dec := fromJson
  dec_enc r := by
    simp [toJson, fromJson, req, field, decList_map ReorderItemRecord.fromJson_toJson]

/-! ### From rows -/

def initiativeFromRow (row : InitiativeRow) (projectCount : ℕ) : Option InitiativeRecord := do
  let createdAt ← formatTimestamp row.createdAt
  let updatedAt ← formatTimestamp row.updatedAt
  let archivedAt ← optionalTimestamp row.archivedAt
  return {
    initiativeId := row.initiativeId
    organizationId := row.organizationId
    name := row.name
    summary := row.summary
    ownerSubject := row.ownerSubject
    targetStart := optionalDate row.targetStart
    targetDate := optionalDate row.targetDate
    health := row.health
    progress := row.progress
    projectCount := projectCount
    archived := row.archived
    revision := toString row.revision
    createdAt, updatedAt, archivedAt
    rowSeq := row.rowSeq }

def projectFromRow (row : ProjectRow) (initiativeRevision : Option String) : Option ProjectRecord := do
  let observedAt ← formatTimestamp row.observedAt
  return {
    projectId := row.projectId
    nameSnapshot := row.nameSnapshot
    statusCategory := row.statusCategory
    health := row.health
    progress := row.progress
    targetStart := optionalDate row.targetStart
    targetDate := optionalDate row.targetDate
    snapshotRevision := row.snapshotRevision
    observedAt
    position := row.position
    membershipRevision := toString row.membershipRevision
    initiativeRevision }

def updateFromRow (row : UpdateRow) : Option UpdateRecord := do
  let createdAt ← formatTimestamp row.createdAt
  return {
    updateId := row.updateId
    initiativeId := row.initiativeId
    organizationId := row.organizationId
    health := row.health
    summary := row.summary
    progress := row.progress
    createdBy := row.createdBy
    initiativeRevision := toString row.initiativeRevision
    createdAt
    rowSeq := row.rowSeq }

def archiveFromRow (row : InitiativeRow) : Option ArchiveRecord := do
  let updatedAt ← formatTimestamp row.updatedAt
  let archivedAt ← optionalTimestamp row.archivedAt
  return {
    initiativeId := row.initiativeId
    organizationId := row.organizationId
    archived := row.archived
    revision := toString row.revision
    updatedAt, archivedAt }

end Portfolio
