/-
# The contract on the wire

The documents of the requests and the responses of both capabilities: the
fields of each type, in the order they are written, under the names the contract
gives them. All fields must be there, the optional ones too, if only as `null`.

The arguments of an agent's tool are read as the request of its operation
(`Request.read`, which is `serde_json::from_str`); what is written of a request is
read back (`read_wire`), and the order of the fields and what else the document
holds do not matter to what is read.

Key definitions: a `shape` for each type of the contract, `Request.wire`,
`Request.read`, `Response.wire`.
Key theorems: `read_wire`, `requests_read_back`.
-/
import Portfolio.Wire
import Portfolio.Admission

namespace Portfolio

open Wire

/-! ### Enumerations and optional fields -/

def Health.shape : Shape Health := enumeration Health.all Health.text fun a => by cases a <;> rfl

def Status.shape : Shape Status := enumeration Status.all Status.text fun a => by cases a <;> rfl

def ReadRollupResponseSource.shape : Shape ReadRollupResponseSource :=
  enumeration [.ownedProjectSnapshots] ReadRollupResponseSource.text fun a => by cases a; rfl

def optionalText : Shape (Option String) := option text nofun

def optionalI64 : Shape (Option ℤ) := option i64 nofun

def optionalInstant (accepts : String → Bool) : Shape (Option String) := option (constrained accepts) nofun

/-! ### Requests of `lenso.project-portfolio@1` -/

def AddInitiativeUpdateRequest.shape : Shape AddInitiativeUpdateRequest :=
  ((Fields.cons "expected_revision" text <| .cons "health" Health.shape <| .cons "idempotency_key" text <|
      .cons "initiative_id" text <| .cons "organization_id" text <| .cons "progress" i64 <| .cons "summary" text <|
      .cons "update_id" text .nil).shape (by decide)).iso
    (fun (a, b, c, d, e, f, g, h, ()) => ⟨a, b, c, d, e, f, g, h⟩)
    (fun r => (r.expectedRevision, r.health, r.idempotencyKey, r.initiativeId, r.organizationId, r.progress, r.summary,
      r.updateId, ())) (fun _ => rfl) fun _ => rfl

def CreateInitiativeRequest.shape : Shape CreateInitiativeRequest :=
  ((Fields.cons "idempotency_key" text <| .cons "initiative_id" text <| .cons "name" text <|
      .cons "organization_id" text <| .cons "owner_subject" optionalText <| .cons "summary" optionalText <|
      .cons "target_date" optionalText <| .cons "target_start" optionalText .nil).shape (by decide)).iso
    (fun (a, b, c, d, e, f, g, h, ()) => ⟨a, b, c, d, e, f, g, h⟩)
    (fun r => (r.idempotencyKey, r.initiativeId, r.name, r.organizationId, r.ownerSubject, r.summary, r.targetDate,
      r.targetStart, ())) (fun _ => rfl) fun _ => rfl

def GetInitiativeRequest.shape : Shape GetInitiativeRequest :=
  ((Fields.cons "initiative_id" text <| .cons "organization_id" text .nil).shape (by decide)).iso
    (fun (a, b, ()) => ⟨a, b⟩) (fun r => (r.initiativeId, r.organizationId, ())) (fun _ => rfl) fun _ => rfl

def ListInitiativeProjectsRequest.shape : Shape ListInitiativeProjectsRequest :=
  ((Fields.cons "after_position" optionalI64 <| .cons "initiative_id" text <| .cons "limit" i64 <|
      .cons "organization_id" text .nil).shape (by decide)).iso
    (fun (a, b, c, d, ()) => ⟨a, b, c, d⟩)
    (fun r => (r.afterPosition, r.initiativeId, r.limit, r.organizationId, ())) (fun _ => rfl) fun _ => rfl

def ListInitiativeUpdatesRequest.shape : Shape ListInitiativeUpdatesRequest :=
  ((Fields.cons "after" optionalText <| .cons "initiative_id" text <| .cons "limit" i64 <|
      .cons "organization_id" text .nil).shape (by decide)).iso
    (fun (a, b, c, d, ()) => ⟨a, b, c, d⟩) (fun r => (r.after, r.initiativeId, r.limit, r.organizationId, ()))
    (fun _ => rfl) fun _ => rfl

def ListInitiativesRequest.shape : Shape ListInitiativesRequest :=
  ((Fields.cons "after" optionalText <| .cons "include_archived" flag <| .cons "limit" i64 <|
      .cons "organization_id" text .nil).shape (by decide)).iso
    (fun (a, b, c, d, ()) => ⟨a, b, c, d⟩) (fun r => (r.after, r.includeArchived, r.limit, r.organizationId, ()))
    (fun _ => rfl) fun _ => rfl

def ReadRollupRequest.shape : Shape ReadRollupRequest :=
  ((Fields.cons "initiative_id" text <| .cons "organization_id" text .nil).shape (by decide)).iso
    (fun (a, b, ()) => ⟨a, b⟩) (fun r => (r.initiativeId, r.organizationId, ())) (fun _ => rfl) fun _ => rfl

def UpdateInitiativeRequest.shape : Shape UpdateInitiativeRequest :=
  ((Fields.cons "expected_revision" text <| .cons "idempotency_key" text <| .cons "initiative_id" text <|
      .cons "name" optionalText <| .cons "organization_id" text <| .cons "owner_subject" optionalText <|
      .cons "summary" optionalText <| .cons "target_date" optionalText <|
      .cons "target_start" optionalText .nil).shape (by decide)).iso
    (fun (a, b, c, d, e, f, g, h, i, ()) => ⟨a, b, c, d, e, f, g, h, i⟩)
    (fun r => (r.expectedRevision, r.idempotencyKey, r.initiativeId, r.name, r.organizationId, r.ownerSubject,
      r.summary, r.targetDate, r.targetStart, ())) (fun _ => rfl) fun _ => rfl

/-! ### Requests of `lenso.project-portfolio-admin@1` -/

def ArchiveInitiativeRequest.shape : Shape ArchiveInitiativeRequest :=
  ((Fields.cons "expected_revision" text <| .cons "idempotency_key" text <| .cons "initiative_id" text <|
      .cons "organization_id" text .nil).shape (by decide)).iso
    (fun (a, b, c, d, ()) => ⟨a, b, c, d⟩)
    (fun r => (r.expectedRevision, r.idempotencyKey, r.initiativeId, r.organizationId, ())) (fun _ => rfl) fun _ => rfl

def AttachProjectRequest.shape (accepts : String → Bool) : Shape AttachProjectRequest :=
  ((Fields.cons "expected_initiative_revision" text <| .cons "health" Health.shape <| .cons "idempotency_key" text <|
      .cons "initiative_id" text <| .cons "name_snapshot" text <| .cons "observed_at" (constrained accepts) <|
      .cons "organization_id" text <| .cons "position" i64 <| .cons "progress" i64 <| .cons "project_id" text <|
      .cons "snapshot_revision" text <| .cons "status_category" Status.shape <| .cons "target_date" optionalText <|
      .cons "target_start" optionalText .nil).shape (by simp [Fields.cons, Fields.nil])).iso
    (fun (a, b, c, d, e, f, g, h, i, j, k, l, m, n, ()) => ⟨a, b, c, d, e, f, g, h, i, j, k, l, m, n⟩)
    (fun r => (r.expectedInitiativeRevision, r.health, r.idempotencyKey, r.initiativeId, r.nameSnapshot, r.observedAt,
      r.organizationId, r.position, r.progress, r.projectId, r.snapshotRevision, r.statusCategory, r.targetDate,
      r.targetStart, ())) (fun _ => rfl) fun _ => rfl

def DetachProjectRequest.shape : Shape DetachProjectRequest :=
  ((Fields.cons "expected_initiative_revision" text <| .cons "expected_membership_revision" text <|
      .cons "idempotency_key" text <| .cons "initiative_id" text <| .cons "organization_id" text <|
      .cons "project_id" text .nil).shape (by decide)).iso
    (fun (a, b, c, d, e, f, ()) => ⟨a, b, c, d, e, f⟩)
    (fun r => (r.expectedInitiativeRevision, r.expectedMembershipRevision, r.idempotencyKey, r.initiativeId,
      r.organizationId, r.projectId, ())) (fun _ => rfl) fun _ => rfl

def ReorderProjectsRequestItemsItem.shape : Shape ReorderProjectsRequestItemsItem :=
  ((Fields.cons "expected_membership_revision" text <| .cons "position" i64 <|
      .cons "project_id" text .nil).shape (by decide)).iso
    (fun (a, b, c, ()) => ⟨a, b, c⟩) (fun r => (r.expectedMembershipRevision, r.position, r.projectId, ()))
    (fun _ => rfl) fun _ => rfl

def ReorderProjectsRequest.shape : Shape ReorderProjectsRequest :=
  ((Fields.cons "expected_initiative_revision" text <| .cons "idempotency_key" text <| .cons "initiative_id" text <|
      .cons "items" (list ReorderProjectsRequestItemsItem.shape) <| .cons "organization_id" text .nil).shape
      (by decide)).iso
    (fun (a, b, c, d, e, ()) => ⟨a, b, c, d, e⟩)
    (fun r => (r.expectedInitiativeRevision, r.idempotencyKey, r.initiativeId, r.items, r.organizationId, ()))
    (fun _ => rfl) fun _ => rfl

def UpdateProjectSnapshotRequest.shape (accepts : String → Bool) : Shape UpdateProjectSnapshotRequest :=
  ((Fields.cons "expected_membership_revision" text <| .cons "health" Health.shape <| .cons "idempotency_key" text <|
      .cons "initiative_id" text <| .cons "name_snapshot" text <| .cons "observed_at" (constrained accepts) <|
      .cons "organization_id" text <| .cons "progress" i64 <| .cons "project_id" text <|
      .cons "snapshot_revision" text <| .cons "status_category" Status.shape <| .cons "target_date" optionalText <|
      .cons "target_start" optionalText .nil).shape (by simp [Fields.cons, Fields.nil])).iso
    (fun (a, b, c, d, e, f, g, h, i, j, k, l, m, ()) => ⟨a, b, c, d, e, f, g, h, i, j, k, l, m⟩)
    (fun r => (r.expectedMembershipRevision, r.health, r.idempotencyKey, r.initiativeId, r.nameSnapshot, r.observedAt,
      r.organizationId, r.progress, r.projectId, r.snapshotRevision, r.statusCategory, r.targetDate, r.targetStart, ()))
    (fun _ => rfl) fun _ => rfl

/-! ### Responses -/

def CreateInitiativeResponse.shape (accepts : String → Bool) : Shape CreateInitiativeResponse :=
  ((Fields.cons "archived" flag <| .cons "archived_at" (optionalInstant accepts) <|
      .cons "created_at" (constrained accepts) <| .cons "health" Health.shape <| .cons "initiative_id" text <|
      .cons "name" text <| .cons "organization_id" text <| .cons "owner_subject" optionalText <|
      .cons "progress" i64 <| .cons "project_count" i64 <| .cons "revision" text <|
      .cons "summary" optionalText <| .cons "target_date" optionalText <| .cons "target_start" optionalText <|
      .cons "updated_at" (constrained accepts) .nil).shape (by simp [Fields.cons, Fields.nil])).iso
    (fun (a, b, c, d, e, f, g, h, i, j, k, l, m, n, o, ()) => ⟨a, b, c, d, e, f, g, h, i, j, k, l, m, n, o⟩)
    (fun r => (r.archived, r.archivedAt, r.createdAt, r.health, r.initiativeId, r.name, r.organizationId,
      r.ownerSubject, r.progress, r.projectCount, r.revision, r.summary, r.targetDate, r.targetStart,
      r.updatedAt, ())) (fun _ => rfl) fun _ => rfl

def ListInitiativesResponse.shape (accepts : String → Bool) : Shape ListInitiativesResponse :=
  ((Fields.cons "initiatives" (list (CreateInitiativeResponse.shape accepts)) <|
      .cons "next_cursor" optionalText .nil).shape (by simp [Fields.cons, Fields.nil])).iso
    (fun (a, b, ()) => ⟨a, b⟩)
    (fun r => (r.initiatives, r.nextCursor, ())) (fun _ => rfl) fun _ => rfl

def AddInitiativeUpdateResponse.shape (accepts : String → Bool) : Shape AddInitiativeUpdateResponse :=
  ((Fields.cons "created_at" (constrained accepts) <| .cons "created_by" text <| .cons "health" Health.shape <|
      .cons "initiative_id" text <| .cons "initiative_revision" text <| .cons "organization_id" text <|
      .cons "progress" i64 <| .cons "summary" text <| .cons "update_id" text .nil
      ).shape (by simp [Fields.cons, Fields.nil])).iso
    (fun (a, b, c, d, e, f, g, h, i, ()) => ⟨a, b, c, d, e, f, g, h, i⟩)
    (fun r => (r.createdAt, r.createdBy, r.health, r.initiativeId, r.initiativeRevision, r.organizationId,
      r.progress, r.summary, r.updateId, ())) (fun _ => rfl) fun _ => rfl

def ListInitiativeUpdatesResponse.shape (accepts : String → Bool) : Shape ListInitiativeUpdatesResponse :=
  ((Fields.cons "next_cursor" optionalText <|
      .cons "updates" (list (AddInitiativeUpdateResponse.shape accepts)) .nil
      ).shape (by simp [Fields.cons, Fields.nil])).iso
    (fun (a, b, ()) => ⟨a, b⟩)
    (fun r => (r.nextCursor, r.updates, ())) (fun _ => rfl) fun _ => rfl

def ListInitiativeProjectsResponseProjectsItem.shape (accepts : String → Bool) :
    Shape ListInitiativeProjectsResponseProjectsItem :=
  ((Fields.cons "health" Health.shape <| .cons "membership_revision" text <| .cons "name_snapshot" text <|
      .cons "observed_at" (constrained accepts) <| .cons "position" i64 <| .cons "progress" i64 <|
      .cons "project_id" text <| .cons "snapshot_revision" text <| .cons "status_category" Status.shape <|
      .cons "target_date" optionalText <| .cons "target_start" optionalText .nil
      ).shape (by simp [Fields.cons, Fields.nil])).iso
    (fun (a, b, c, d, e, f, g, h, i, j, k, ()) => ⟨a, b, c, d, e, f, g, h, i, j, k⟩)
    (fun r => (r.health, r.membershipRevision, r.nameSnapshot, r.observedAt, r.position, r.progress,
      r.projectId, r.snapshotRevision, r.statusCategory, r.targetDate, r.targetStart, ())) (fun _ => rfl) fun _ => rfl

def ListInitiativeProjectsResponse.shape (accepts : String → Bool) : Shape ListInitiativeProjectsResponse :=
  ((Fields.cons "next_position" optionalI64 <|
      .cons "projects" (list (ListInitiativeProjectsResponseProjectsItem.shape accepts)) .nil
      ).shape (by simp [Fields.cons, Fields.nil])).iso
    (fun (a, b, ()) => ⟨a, b⟩)
    (fun r => (r.nextPosition, r.projects, ())) (fun _ => rfl) fun _ => rfl

def ReadRollupResponse.shape (accepts : String → Bool) : Shape ReadRollupResponse :=
  ((Fields.cons "at_risk_count" i64 <| .cons "average_project_progress" (option number nofun) <|
      .cons "completed_count" i64 <| .cons "computed_at" (constrained accepts) <|
      .cons "earliest_target_start" optionalText <| .cons "health" Health.shape <| .cons "initiative_id" text <|
      .cons "initiative_progress" i64 <| .cons "initiative_revision" text <|
      .cons "latest_target_date" optionalText <| .cons "off_track_count" i64 <| .cons "project_count" i64 <|
      .cons "source" ReadRollupResponseSource.shape .nil).shape (by simp [Fields.cons, Fields.nil])).iso
    (fun (a, b, c, d, e, f, g, h, i, j, k, l, m, ()) => ⟨a, b, c, d, e, f, g, h, i, j, k, l, m⟩)
    (fun r => (r.atRiskCount, r.averageProjectProgress, r.completedCount, r.computedAt, r.earliestTargetStart,
      r.health, r.initiativeId, r.initiativeProgress, r.initiativeRevision, r.latestTargetDate,
      r.offTrackCount, r.projectCount, r.source, ())) (fun _ => rfl) fun _ => rfl

def ArchiveInitiativeResponse.shape (accepts : String → Bool) : Shape ArchiveInitiativeResponse :=
  ((Fields.cons "archived" flag <| .cons "archived_at" (optionalInstant accepts) <|
      .cons "initiative_id" text <| .cons "organization_id" text <| .cons "revision" text <|
      .cons "updated_at" (constrained accepts) .nil).shape (by simp [Fields.cons, Fields.nil])).iso
    (fun (a, b, c, d, e, f, ()) => ⟨a, b, c, d, e, f⟩)
    (fun r => (r.archived, r.archivedAt, r.initiativeId, r.organizationId, r.revision, r.updatedAt, ()))
    (fun _ => rfl) fun _ => rfl

def AttachProjectResponse.shape (accepts : String → Bool) : Shape AttachProjectResponse :=
  ((Fields.cons "health" Health.shape <| .cons "initiative_revision" text <| .cons "membership_revision" text <|
      .cons "name_snapshot" text <| .cons "observed_at" (constrained accepts) <| .cons "position" i64 <|
      .cons "progress" i64 <| .cons "project_id" text <| .cons "snapshot_revision" text <|
      .cons "status_category" Status.shape <| .cons "target_date" optionalText <|
      .cons "target_start" optionalText .nil).shape (by simp [Fields.cons, Fields.nil])).iso
    (fun (a, b, c, d, e, f, g, h, i, j, k, l, ()) => ⟨a, b, c, d, e, f, g, h, i, j, k, l⟩)
    (fun r => (r.health, r.initiativeRevision, r.membershipRevision, r.nameSnapshot, r.observedAt, r.position,
      r.progress, r.projectId, r.snapshotRevision, r.statusCategory, r.targetDate, r.targetStart, ()))
    (fun _ => rfl) fun _ => rfl

def DetachProjectResponse.shape : Shape DetachProjectResponse :=
  ((Fields.cons "detached" flag <| .cons "initiative_revision" text .nil).shape (by decide)).iso
    (fun (a, b, ()) => ⟨a, b⟩)
    (fun r => (r.detached, r.initiativeRevision, ())) (fun _ => rfl) fun _ => rfl

def ReorderProjectsResponseItemsItem.shape : Shape ReorderProjectsResponseItemsItem :=
  ((Fields.cons "membership_revision" text <| .cons "position" i64 <| .cons "project_id" text .nil
      ).shape (by decide)).iso
    (fun (a, b, c, ()) => ⟨a, b, c⟩)
    (fun r => (r.membershipRevision, r.position, r.projectId, ())) (fun _ => rfl) fun _ => rfl

def ReorderProjectsResponse.shape : Shape ReorderProjectsResponse :=
  ((Fields.cons "initiative_revision" text <| .cons "items" (list ReorderProjectsResponseItemsItem.shape) .nil
      ).shape (by decide)).iso
    (fun (a, b, ()) => ⟨a, b⟩)
    (fun r => (r.initiativeRevision, r.items, ())) (fun _ => rfl) fun _ => rfl

/-! ### Requests and responses -/

namespace Request

/-- The document of a request. -/
def wire (accepts : String → Bool) : Request → Wire
  | createInitiative r => CreateInitiativeRequest.shape.enc r
  | getInitiative r => GetInitiativeRequest.shape.enc r
  | listInitiatives r => ListInitiativesRequest.shape.enc r
  | updateInitiative r => UpdateInitiativeRequest.shape.enc r
  | listInitiativeProjects r => ListInitiativeProjectsRequest.shape.enc r
  | addInitiativeUpdate r => AddInitiativeUpdateRequest.shape.enc r
  | listInitiativeUpdates r => ListInitiativeUpdatesRequest.shape.enc r
  | readRollup r => ReadRollupRequest.shape.enc r
  | archiveInitiative r => ArchiveInitiativeRequest.shape.enc r
  | attachProject r => (AttachProjectRequest.shape accepts).enc r
  | updateProjectSnapshot r => (UpdateProjectSnapshotRequest.shape accepts).enc r
  | detachProject r => DetachProjectRequest.shape.enc r
  | reorderProjects r => ReorderProjectsRequest.shape.enc r

/-- Its integers are of 64 bits and its timestamps are accepted. -/
def Fit (accepts : String → Bool) : Request → Prop
  | createInitiative r => CreateInitiativeRequest.shape.Fit r
  | getInitiative r => GetInitiativeRequest.shape.Fit r
  | listInitiatives r => ListInitiativesRequest.shape.Fit r
  | updateInitiative r => UpdateInitiativeRequest.shape.Fit r
  | listInitiativeProjects r => ListInitiativeProjectsRequest.shape.Fit r
  | addInitiativeUpdate r => AddInitiativeUpdateRequest.shape.Fit r
  | listInitiativeUpdates r => ListInitiativeUpdatesRequest.shape.Fit r
  | readRollup r => ReadRollupRequest.shape.Fit r
  | archiveInitiative r => ArchiveInitiativeRequest.shape.Fit r
  | attachProject r => (AttachProjectRequest.shape accepts).Fit r
  | updateProjectSnapshot r => (UpdateProjectSnapshotRequest.shape accepts).Fit r
  | detachProject r => DetachProjectRequest.shape.Fit r
  | reorderProjects r => ReorderProjectsRequest.shape.Fit r

/-- The request that `decode` of the agent tools reads off arguments for an operation. -/
def read (accepts : String → Bool) (operation : String) (w : Wire) : Option Request :=
  match operation with
  | "create_initiative" => (CreateInitiativeRequest.shape.dec w).map createInitiative
  | "get_initiative" => (GetInitiativeRequest.shape.dec w).map getInitiative
  | "list_initiatives" => (ListInitiativesRequest.shape.dec w).map listInitiatives
  | "update_initiative" => (UpdateInitiativeRequest.shape.dec w).map updateInitiative
  | "list_initiative_projects" => (ListInitiativeProjectsRequest.shape.dec w).map listInitiativeProjects
  | "add_initiative_update" => (AddInitiativeUpdateRequest.shape.dec w).map addInitiativeUpdate
  | "list_initiative_updates" => (ListInitiativeUpdatesRequest.shape.dec w).map listInitiativeUpdates
  | "read_rollup" => (ReadRollupRequest.shape.dec w).map readRollup
  | "archive_initiative" => (ArchiveInitiativeRequest.shape.dec w).map archiveInitiative
  | "attach_project" => ((AttachProjectRequest.shape accepts).dec w).map attachProject
  | "update_project_snapshot" => ((UpdateProjectSnapshotRequest.shape accepts).dec w).map updateProjectSnapshot
  | "detach_project" => (DetachProjectRequest.shape.dec w).map detachProject
  | "reorder_projects" => (ReorderProjectsRequest.shape.dec w).map reorderProjects
  | _ => none

/-- The requests of one operation: the values of a record. -/
structure Coded (accepts : String → Bool) (operation : String) {α : Type} (s : Shape α) (request : α → Request) :
    Prop where
  record : ∃ names, s.Record names
  sent : ∀ a, (request a).operation = operation
  wire : ∀ a, (request a).wire accepts = s.enc a
  fit : ∀ a, (request a).Fit accepts ↔ s.Fit a
  read : ∀ w, Request.read accepts operation w = (s.dec w).map request

theorem coded (accepts : String → Bool) (q : Request) :
    ∃ α, ∃ (s : Shape α) (request : α → Request) (a : α), Coded accepts q.operation s request ∧ request a = q := by
  have hrecord : ∀ {α β : Type} {r : Fields α} {h : r.names.Nodup} {f : α → β} {g : β → α} {hgf : ∀ a, g (f a) = a}
      {hfg : ∀ b, f (g b) = b}, ∃ names, ((r.shape h).iso f g hgf hfg).Record names :=
    ⟨_, (Shape.Record.of_fields _).iso _ _⟩
  cases q with
  | createInitiative r =>
    exact ⟨_, _, createInitiative, r, ⟨hrecord, fun _ => rfl, fun _ => rfl, fun _ => Iff.rfl, fun _ => rfl⟩, rfl⟩
  | getInitiative r =>
    exact ⟨_, _, getInitiative, r, ⟨hrecord, fun _ => rfl, fun _ => rfl, fun _ => Iff.rfl, fun _ => rfl⟩, rfl⟩
  | listInitiatives r =>
    exact ⟨_, _, listInitiatives, r, ⟨hrecord, fun _ => rfl, fun _ => rfl, fun _ => Iff.rfl, fun _ => rfl⟩, rfl⟩
  | updateInitiative r =>
    exact ⟨_, _, updateInitiative, r, ⟨hrecord, fun _ => rfl, fun _ => rfl, fun _ => Iff.rfl, fun _ => rfl⟩, rfl⟩
  | listInitiativeProjects r =>
    exact ⟨_, _, listInitiativeProjects, r, ⟨hrecord, fun _ => rfl, fun _ => rfl, fun _ => Iff.rfl, fun _ => rfl⟩, rfl⟩
  | addInitiativeUpdate r =>
    exact ⟨_, _, addInitiativeUpdate, r, ⟨hrecord, fun _ => rfl, fun _ => rfl, fun _ => Iff.rfl, fun _ => rfl⟩, rfl⟩
  | listInitiativeUpdates r =>
    exact ⟨_, _, listInitiativeUpdates, r, ⟨hrecord, fun _ => rfl, fun _ => rfl, fun _ => Iff.rfl, fun _ => rfl⟩, rfl⟩
  | readRollup r =>
    exact ⟨_, _, readRollup, r, ⟨hrecord, fun _ => rfl, fun _ => rfl, fun _ => Iff.rfl, fun _ => rfl⟩, rfl⟩
  | archiveInitiative r =>
    exact ⟨_, _, archiveInitiative, r, ⟨hrecord, fun _ => rfl, fun _ => rfl, fun _ => Iff.rfl, fun _ => rfl⟩, rfl⟩
  | attachProject r =>
    exact ⟨_, _, attachProject, r, ⟨hrecord, fun _ => rfl, fun _ => rfl, fun _ => Iff.rfl, fun _ => rfl⟩, rfl⟩
  | updateProjectSnapshot r =>
    exact ⟨_, _, updateProjectSnapshot, r, ⟨hrecord, fun _ => rfl, fun _ => rfl, fun _ => Iff.rfl, fun _ => rfl⟩, rfl⟩
  | detachProject r =>
    exact ⟨_, _, detachProject, r, ⟨hrecord, fun _ => rfl, fun _ => rfl, fun _ => Iff.rfl, fun _ => rfl⟩, rfl⟩
  | reorderProjects r =>
    exact ⟨_, _, reorderProjects, r, ⟨hrecord, fun _ => rfl, fun _ => rfl, fun _ => Iff.rfl, fun _ => rfl⟩, rfl⟩

/-- What an operation reads is a request of it, and fits. -/
theorem fit_of_read {accepts : String → Bool} {operation : String} {w : Wire} {q : Request}
    (h : read accepts operation w = some q) : q.operation = operation ∧ q.Fit accepts := by
  unfold read at h
  split at h
  case h_14 => cases h
  all_goals
    obtain ⟨r, hr, rfl⟩ := Option.map_eq_some_iff.mp h
    exact ⟨rfl, Shape.fit_dec _ _ _ hr⟩

theorem read_wire {accepts : String → Bool} {q : Request} (h : q.Fit accepts) :
    read accepts q.operation (q.wire accepts) = some q := by
  obtain ⟨α, s, request, a, hcoded, rfl⟩ := coded accepts q
  rw [hcoded.read, hcoded.wire, s.dec_enc a ((hcoded.fit a).mp h), Option.map_some]

end Request

/-- The document of a response. -/
def Response.wire (accepts : String → Bool) : Response → Wire
  | .initiative r => (CreateInitiativeResponse.shape accepts).enc r
  | .initiatives r => (ListInitiativesResponse.shape accepts).enc r
  | .projects r => (ListInitiativeProjectsResponse.shape accepts).enc r
  | .update r => (AddInitiativeUpdateResponse.shape accepts).enc r
  | .updates r => (ListInitiativeUpdatesResponse.shape accepts).enc r
  | .rollup r => (ReadRollupResponse.shape accepts).enc r
  | .archive r => (ArchiveInitiativeResponse.shape accepts).enc r
  | .project r => (AttachProjectResponse.shape accepts).enc r
  | .detach r => DetachProjectResponse.shape.enc r
  | .reorder r => ReorderProjectsResponse.shape.enc r

/-- **Requests are read back** by the agent tools. A request that fits is what is read off its fields in any
order and among others, as arguments for its operation; without one of the fields, or with one twice,
nothing is read. And whatever is read is a request of the operation that can be passed on: its document
is read as the same request. -/
theorem requests_read_back (accepts : String → Bool) :
    (∀ q : Request, ∃ fs, q.wire accepts = .obj fs ∧ (fs.map (·.1)).Nodup ∧
      (q.Fit accepts → ∀ gs : List (String × Wire), (gs.filter fun g => g.1 ∈ fs.map (·.1)).Perm fs →
        Request.read accepts q.operation (.obj gs) = some q) ∧
      ∀ name ∈ fs.map (·.1), ∀ gs : List (String × Wire), (gs.filter fun g => g.1 = name).length ≠ 1 →
        Request.read accepts q.operation (.obj gs) = none) ∧
    ∀ operation w q, Request.read accepts operation w = some q →
      q.operation = operation ∧ q.Fit accepts ∧ Request.read accepts operation (q.wire accepts) = some q := by
  refine ⟨fun q => ?_, fun operation w q h => ?_⟩
  · obtain ⟨α, s, request, a, hcoded, rfl⟩ := Request.coded accepts q
    obtain ⟨names, hrecord⟩ := hcoded.record
    obtain ⟨ws, hlength, hws⟩ := hrecord.enc a
    have hnames := hrecord.fields hws
    refine ⟨names.zip ws, (hcoded.wire a).trans hws, by rw [hnames]; exact hrecord.nodup, fun hfit gs hperm => ?_,
      fun name hname gs hcount => ?_⟩
    · rw [hcoded.read, hrecord.dec_perm ((hcoded.fit a).mp hfit) hws hperm, Option.map_some]
    · rw [hcoded.read, hrecord.dec_missing (by rwa [hnames] at hname) hcount, Option.map_none]
  · obtain ⟨hoperation, hfit⟩ := Request.fit_of_read h
    subst hoperation
    exact ⟨rfl, hfit, Request.read_wire hfit⟩

/-- The arguments `get_initiative` is asked with, after a field it does not know. -/
def sampleGetArguments : Wire := .obj [("note", .null), ("organization_id", .str "acme"),
    ("initiative_id", .str "alpha")]

/-- They are read, not without the organization, and what is read is read again. -/
theorem requests_read_back_get :
    Request.read (fun _ => true) "get_initiative" sampleGetArguments = some (.getInitiative ⟨"alpha", "acme"⟩) ∧
    Request.read (fun _ => true) "get_initiative" (.obj [("initiative_id", .str "alpha")]) = none ∧
    Request.read (fun _ => true) "get_initiative" ((Request.getInitiative ⟨"alpha", "acme"⟩).wire fun _ => true) =
      some (.getInitiative ⟨"alpha", "acme"⟩) := by
  obtain ⟨hwritten, hread⟩ := requests_read_back fun _ => true
  obtain ⟨fs, hfs, -, hback, hmissing⟩ := hwritten (.getInitiative ⟨"alpha", "acme"⟩)
  obtain rfl : [("initiative_id", .str "alpha"), ("organization_id", .str "acme")] = fs := Wire.obj.inj hfs
  have hargs : Request.read (fun _ => true) "get_initiative" sampleGetArguments =
      some (.getInitiative ⟨"alpha", "acme"⟩) :=
    hback ⟨trivial, trivial, trivial⟩ [("note", .null), ("organization_id", .str "acme"),
        ("initiative_id", .str "alpha")]
      (List.Perm.swap _ _ [])
  exact ⟨hargs, hmissing "organization_id" (by simp) _ (by decide), (hread _ _ _ hargs).2.2⟩

end Portfolio
