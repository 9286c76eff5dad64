/-
# The published response schemas

Each operation has a schema for its responses. What the plugin answers conforms to
it: a mutation with whatever it has committed or replayed, a read on whatever
committed states its statements see. What carries this are the rows (`Facts.Sound`):
their progress and positions are in range, their revisions are positive, and an
initiative has at most 500 projects. The texts of the `date-time` format are those
of the contract's `Timestamp`.

Key definitions: `Request.responseSchema`, `Request.Conforms`, `Record.Sound`, `Facts.Sound`.
Key theorems: `Request.Sends.conforms`, `Fresh.sound`, `sound_of_history`, `read_conforms`, `responses_conform`.
-/
import Portfolio.Codecs
import Portfolio.Schema
import Portfolio.Schemas
import Portfolio.Views
import Portfolio.Aggregates

namespace Portfolio

open Txn Txn.Prog Wire

/-! ### The schemas -/

def Health.schema : Schema := .member ["on_track", "at_risk", "off_track", "no_update"]

def Status.schema : Schema := .member ["backlog", "planned", "started", "paused", "completed", "canceled"]

section
variable (accepts : String → Bool)

/-- `initiative-response.schema.json`. -/
def initiativeResponse : Schema := .object [
  ("archived", .boolean), ("archived_at", .nullable (.pattern accepts)), ("created_at", .pattern accepts),
  ("health", Health.schema), ("initiative_id", .string), ("name", .string), ("organization_id", .string),
  ("owner_subject", .nullable .string), ("progress", .integer (some 0) (some 100)),
  ("project_count", .integer (some 0) none), ("revision", .pattern matchesRevision), ("summary", .nullable .string),
  ("target_date", .nullable .string), ("target_start", .nullable .string), ("updated_at", .pattern accepts)]

/-- `list-initiatives-response.schema.json`. -/
def listInitiativesResponse : Schema := .object [
  ("initiatives", .array (initiativeResponse accepts)), ("next_cursor", .nullable .string)]

/-- `initiative-update-response.schema.json`. -/
def initiativeUpdateResponse : Schema := .object [
  ("created_at", .pattern accepts), ("created_by", .string), ("health", Health.schema), ("initiative_id", .string),
  ("initiative_revision", .pattern matchesRevision), ("organization_id", .string),
  ("progress", .integer (some 0) (some 100)), ("summary", .string), ("update_id", .string)]

/-- `list-initiative-updates-response.schema.json`. -/
def listInitiativeUpdatesResponse : Schema := .object [
  ("next_cursor", .nullable .string), ("updates", .array (initiativeUpdateResponse accepts))]

/-- `project-membership-response.schema.json` of the ordinary capability. -/
def projectMembershipResponse : Schema := .object [
  ("health", Health.schema), ("membership_revision", .pattern matchesRevision), ("name_snapshot", .string),
  ("observed_at", .pattern accepts), ("position", .integer (some 0) none), ("progress", .integer (some 0) (some 100)),
  ("project_id", .string), ("snapshot_revision", .string), ("status_category", Status.schema),
  ("target_date", .nullable .string), ("target_start", .nullable .string)]

/-- `list-initiative-projects-response.schema.json`. -/
def listInitiativeProjectsResponse : Schema := .object [
  ("next_position", .nullable (.integer (some 0) none)), ("projects", .array (projectMembershipResponse accepts))]

/-- `rollup-response.schema.json`. -/
def rollupResponse : Schema := .object [
  ("at_risk_count", .integer (some 0) none), ("average_project_progress", .nullable (.number 0 100)),
  ("completed_count", .integer (some 0) none), ("computed_at", .pattern accepts),
  ("earliest_target_start", .nullable .string), ("health", Health.schema), ("initiative_id", .string),
  ("initiative_progress", .integer (some 0) (some 100)), ("initiative_revision", .string),
  ("latest_target_date", .nullable .string), ("off_track_count", .integer (some 0) none),
  ("project_count", .integer (some 0) none), ("source", .member ["owned_project_snapshots"])]

/-- `admin-initiative-response.schema.json`. -/
def adminInitiativeResponse : Schema := .object [
  ("archived", .boolean), ("archived_at", .nullable (.pattern accepts)), ("initiative_id", .string),
  ("organization_id", .string), ("revision", .string), ("updated_at", .pattern accepts)]

/-- `project-membership-response.schema.json` of the admin capability. -/
def adminProjectMembershipResponse : Schema := .object [
  ("health", Health.schema), ("initiative_revision", .string), ("membership_revision", .string),
  ("name_snapshot", .string), ("observed_at", .pattern accepts), ("position", .integer none none),
  ("progress", .integer none none), ("project_id", .string), ("snapshot_revision", .string),
  ("status_category", Status.schema), ("target_date", .nullable .string), ("target_start", .nullable .string)]

/-- `detach-project-response.schema.json`. -/
def detachProjectResponse : Schema := .object [("detached", .boolean), ("initiative_revision", .string)]

/-- `reorder-projects-response.schema.json`. -/
def reorderProjectsResponse : Schema := .object [
  ("initiative_revision", .string), ("items", .array (.object [
    ("membership_revision", .string), ("position", .integer none none), ("project_id", .string)]))]

/-- The `response_schema` of the operation, in the descriptor of its capability. -/
def Request.responseSchema : Request → Schema
  | .createInitiative _ => initiativeResponse accepts
  | .getInitiative _ => initiativeResponse accepts
  | .listInitiatives _ => listInitiativesResponse accepts
  | .updateInitiative _ => initiativeResponse accepts
  | .listInitiativeProjects _ => listInitiativeProjectsResponse accepts
  | .addInitiativeUpdate _ => initiativeUpdateResponse accepts
  | .listInitiativeUpdates _ => listInitiativeUpdatesResponse accepts
  | .readRollup _ => rollupResponse accepts
  | .archiveInitiative _ => adminInitiativeResponse accepts
  | .attachProject _ => adminProjectMembershipResponse accepts
  | .updateProjectSnapshot _ => adminProjectMembershipResponse accepts
  | .detachProject _ => detachProjectResponse
  | .reorderProjects _ => reorderProjectsResponse

/-- The document of the response conforms to the schema of the operation. -/
def Request.Conforms (q : Request) (response : Response) : Prop :=
  q.responseSchema accepts (response.wire accepts) = true

end

theorem Request.Conforms.of_under {accepts : String → Bool} {α : Type} {s : Shape α} {f : α → Response} {a : α}
    {q : Request} (h : s.Under (q.responseSchema accepts) a) (hwire : (f a).wire accepts = s.enc a) :
    q.Conforms accepts (f a) := by
  rw [Conforms, hwire]
  exact h.2

/-! ### Records in range -/

def InRange (progress : ℤ) : Prop := 0 ≤ progress ∧ progress ≤ 100

structure InitiativeRecord.Sound (r : InitiativeRecord) : Prop where
  progress : InRange r.progress
  projectCount : 0 ≤ r.projectCount ∧ r.projectCount ≤ 500
  revision : matchesRevision r.revision = true

structure ProjectRecord.Sound (r : ProjectRecord) : Prop where
  progress : InRange r.progress
  position : 0 ≤ r.position ∧ r.position ≤ 10000
  membershipRevision : matchesRevision r.membershipRevision = true

structure UpdateRecord.Sound (r : UpdateRecord) : Prop where
  progress : InRange r.progress
  initiativeRevision : matchesRevision r.initiativeRevision = true

structure RollupRecord.Sound (r : RollupRecord) : Prop where
  initiativeProgress : InRange r.initiativeProgress
  projectCount : 0 ≤ r.projectCount ∧ r.projectCount ≤ 500
  completedCount : 0 ≤ r.completedCount ∧ r.completedCount ≤ 500
  atRiskCount : 0 ≤ r.atRiskCount ∧ r.atRiskCount ≤ 500
  offTrackCount : 0 ≤ r.offTrackCount ∧ r.offTrackCount ≤ 500
  average : ∀ q, r.averageProjectProgress = some q → 0 ≤ q ∧ q ≤ 100

/-- The numbers of a mutation's record are in range. -/
def Record.Sound : Record → Prop
  | .initiative r => r.Sound
  | .update r => r.Sound
  | .project r => r.Sound
  | .reorder r => ∀ item ∈ r.items, 0 ≤ item.position ∧ item.position ≤ 10000
  | .archive _ => True
  | .detach _ => True

theorem matchesRevision_toString {n : ℤ} (h : 0 < n) : matchesRevision (toString n) = true := by
  obtain ⟨k, rfl⟩ := Int.eq_ofNat_of_zero_le h.le
  have htext : (toString (k : ℤ)).toList = Nat.toDigits 10 k := by
    show (Nat.repr k).toList = _
    simp [Nat.repr]
  rw [matchesRevision_iff, htext]
  exact Decimal.canonical_toDigits (by omega)

/-! ### What a record is answered as -/

theorem under_optionalText (o : Option String) : optionalText.Under (.nullable .string) o :=
  Shape.under_option fun _ _ => under_text _

theorem under_health (health : Health) : Health.shape.Under Health.schema health := by
  refine ⟨trivial, ?_⟩
  cases health <;> decide

theorem under_status (status : Status) : Status.shape.Under Status.schema status := by
  refine ⟨trivial, ?_⟩
  cases status <;> decide

theorem under_progress {n : ℤ} (h : InRange n) : i64.Under (.integer (some 0) (some 100)) n := by
  obtain ⟨hlow, hhigh⟩ := h
  refine under_i64 (by omega) (fun m hm => ?_) fun m hm => ?_
  · rw [← Option.some.inj hm]
    exact hlow
  · rw [← Option.some.inj hm]
    exact hhigh

theorem under_count {n bound : ℤ} (h : 0 ≤ n ∧ n ≤ bound) (hbound : bound ≤ 10000) :
    i64.Under (.integer (some 0) none) n := by
  refine under_i64 (by omega) (fun m hm => ?_) nofun
  rw [← Option.some.inj hm]
  exact h.1

theorem under_any {n : ℤ} (h : 0 ≤ n ∧ n ≤ 10000) : i64.Under (.integer none none) n :=
  under_i64 (by omega) nofun nofun

section
variable {accepts : String → Bool}

theorem accepts_of_decTimestamp {s t : String} (h : decTimestamp accepts (.str s) = some t) : accepts t = true := by
  have hsome : (if accepts s then some s else none) = some t := h
  by_cases hs : accepts s = true
  · rw [if_pos hs] at hsome
    rwa [← Option.some.inj hsome]
  · rw [if_neg hs] at hsome
    cases hsome

theorem accepts_of_decOption {s t : Option String}
    (h : Json.decOption (decTimestamp accepts) (Json.ofOption .str s) = some t) :
    (optionalInstant accepts).Under (.nullable (.pattern accepts)) t := by
  refine Shape.under_option fun a ha => under_constrained ?_
  subst ha
  cases s with
  | none => cases h
  | some s =>
    obtain ⟨b, hb, he⟩ := Option.map_eq_some_iff.mp h
    cases he
    exact accepts_of_decTimestamp hb

theorem InitiativeRecord.Sound.under {r : InitiativeRecord} {item : CreateInitiativeResponse} (hr : r.Sound)
    (h : CreateInitiativeResponse.fromJson accepts r.toJson = some item) :
    (CreateInitiativeResponse.shape accepts).Under (initiativeResponse accepts) item := by
  simp only [CreateInitiativeResponse.fromJson, toJson, Json.req, Json.field] at h
  simp [Option.bind_eq_some_iff] at h
  obtain ⟨archivedAt, harchived, createdAt, hcreated, health, -, updatedAt, hupdated, rfl⟩ := h
  exact Shape.under_record <| Fields.under_cons (under_flag _) <| Fields.under_cons (accepts_of_decOption harchived) <|
    Fields.under_cons (under_constrained (accepts_of_decTimestamp hcreated)) <| Fields.under_cons (under_health _) <|
    Fields.under_cons (under_text _) <| Fields.under_cons (under_text _) <| Fields.under_cons (under_text _) <|
    Fields.under_cons (under_optionalText _) <| Fields.under_cons (under_progress hr.progress) <|
    Fields.under_cons (under_count hr.projectCount (by decide)) <| Fields.under_cons (under_pattern hr.revision) <|
    Fields.under_cons (under_optionalText _) <| Fields.under_cons (under_optionalText _) <|
    Fields.under_cons (under_optionalText _) <|
    Fields.under_cons (under_constrained (accepts_of_decTimestamp hupdated)) Fields.under_nil

theorem UpdateRecord.Sound.under {r : UpdateRecord} {item : AddInitiativeUpdateResponse} (hr : r.Sound)
    (h : AddInitiativeUpdateResponse.fromJson accepts r.toJson = some item) :
    (AddInitiativeUpdateResponse.shape accepts).Under (initiativeUpdateResponse accepts) item := by
  simp only [AddInitiativeUpdateResponse.fromJson, toJson, Json.req, Json.field] at h
  simp [Option.bind_eq_some_iff] at h
  obtain ⟨createdAt, hcreated, health, -, rfl⟩ := h
  exact Shape.under_record <| Fields.under_cons (under_constrained (accepts_of_decTimestamp hcreated)) <|
    Fields.under_cons (under_text _) <| Fields.under_cons (under_health _) <| Fields.under_cons (under_text _) <|
    Fields.under_cons (under_pattern hr.initiativeRevision) <| Fields.under_cons (under_text _) <|
    Fields.under_cons (under_progress hr.progress) <| Fields.under_cons (under_text _) <|
    Fields.under_cons (under_text _) Fields.under_nil

theorem ProjectRecord.Sound.under {r : ProjectRecord} {item : ListInitiativeProjectsResponseProjectsItem}
    (hr : r.Sound) (h : ListInitiativeProjectsResponseProjectsItem.fromJson accepts r.toJson = some item) :
    (ListInitiativeProjectsResponseProjectsItem.shape accepts).Under (projectMembershipResponse accepts) item := by
  simp only [ListInitiativeProjectsResponseProjectsItem.fromJson, toJson, Json.req, Json.field] at h
  simp [Option.bind_eq_some_iff] at h
  obtain ⟨health, -, observedAt, hobserved, status, -, rfl⟩ := h
  exact Shape.under_record <| Fields.under_cons (under_health _) <|
    Fields.under_cons (under_pattern hr.membershipRevision) <| Fields.under_cons (under_text _) <|
    Fields.under_cons (under_constrained (accepts_of_decTimestamp hobserved)) <|
    Fields.under_cons (under_count hr.position (by decide)) <| Fields.under_cons (under_progress hr.progress) <|
    Fields.under_cons (under_text _) <| Fields.under_cons (under_text _) <| Fields.under_cons (under_status _) <|
    Fields.under_cons (under_optionalText _) <| Fields.under_cons (under_optionalText _) Fields.under_nil

theorem ProjectRecord.Sound.under_attached {r : ProjectRecord} {response : AttachProjectResponse} (hr : r.Sound)
    (h : AttachProjectResponse.fromJson accepts r.toJson = some response) :
    (AttachProjectResponse.shape accepts).Under (adminProjectMembershipResponse accepts) response := by
  have hprogress : 0 ≤ r.progress ∧ r.progress ≤ 10000 := ⟨hr.progress.1, hr.progress.2.trans (by decide)⟩
  obtain ⟨health, -, h⟩ := Option.bind_eq_some_iff.mp h
  obtain ⟨initiativeRevision, -, h⟩ := Option.bind_eq_some_iff.mp h
  obtain ⟨membershipRevision, -, h⟩ := Option.bind_eq_some_iff.mp h
  simp only [toJson, Json.req, Json.field] at h
  simp [Option.bind_eq_some_iff] at h
  obtain ⟨observedAt, hobserved, status, -, rfl⟩ := h
  exact Shape.under_record <| Fields.under_cons (under_health _) <| Fields.under_cons (under_text _) <|
    Fields.under_cons (under_text _) <| Fields.under_cons (under_text _) <|
    Fields.under_cons (under_constrained (accepts_of_decTimestamp hobserved)) <|
    Fields.under_cons (under_any hr.position) <| Fields.under_cons (under_any hprogress) <|
    Fields.under_cons (under_text _) <| Fields.under_cons (under_text _) <| Fields.under_cons (under_status _) <|
    Fields.under_cons (under_optionalText _) <| Fields.under_cons (under_optionalText _) Fields.under_nil

theorem ArchiveRecord.under {r : ArchiveRecord} {response : ArchiveInitiativeResponse}
    (h : ArchiveInitiativeResponse.fromJson accepts r.toJson = some response) :
    (ArchiveInitiativeResponse.shape accepts).Under (adminInitiativeResponse accepts) response := by
  simp only [ArchiveInitiativeResponse.fromJson, toJson, Json.req, Json.field] at h
  simp [Option.bind_eq_some_iff] at h
  obtain ⟨archivedAt, harchived, updatedAt, hupdated, rfl⟩ := h
  exact Shape.under_record <| Fields.under_cons (under_flag _) <| Fields.under_cons (accepts_of_decOption harchived) <|
    Fields.under_cons (under_text _) <| Fields.under_cons (under_text _) <| Fields.under_cons (under_text _) <|
    Fields.under_cons (under_constrained (accepts_of_decTimestamp hupdated)) Fields.under_nil

theorem DetachRecord.under {r : DetachRecord} {response : DetachProjectResponse}
    (h : DetachProjectResponse.fromJson r.toJson = some response) :
    DetachProjectResponse.shape.Under detachProjectResponse response := by
  simp only [DetachProjectResponse.fromJson, toJson, Json.req, Json.field] at h
  simp at h
  subst h
  exact Shape.under_record <| Fields.under_cons (under_flag _) <| Fields.under_cons (under_text _) Fields.under_nil

theorem RollupRecord.Sound.under {r : RollupRecord} {response : ReadRollupResponse} (hr : r.Sound)
    (h : ReadRollupResponse.fromJson accepts r.toJson = some response) :
    (ReadRollupResponse.shape accepts).Under (rollupResponse accepts) response := by
  have hnum : ∀ average : Option ℚ, Json.decOption Json.decNum (Json.ofOption .num average) = some average :=
    Json.decOption_ofOption (fun _ => rfl) nofun
  simp only [ReadRollupResponse.fromJson, toJson, Json.req, Json.field] at h
  simp [Option.bind_eq_some_iff, hnum] at h
  obtain ⟨computedAt, hcomputed, health, -, source, -, rfl⟩ := h
  have hsource : ReadRollupResponseSource.shape.Under (.member ["owned_project_snapshots"]) source := by
    refine ⟨trivial, ?_⟩
    cases source
    decide
  exact Shape.under_record <| Fields.under_cons (under_count hr.atRiskCount (by decide)) <|
    Fields.under_cons (Shape.under_option fun q hq => under_number (hr.average q hq)) <|
    Fields.under_cons (under_count hr.completedCount (by decide)) <|
    Fields.under_cons (under_constrained (accepts_of_decTimestamp hcomputed)) <|
    Fields.under_cons (under_optionalText _) <| Fields.under_cons (under_health _) <|
    Fields.under_cons (under_text _) <| Fields.under_cons (under_progress hr.initiativeProgress) <|
    Fields.under_cons (under_text _) <| Fields.under_cons (under_optionalText _) <|
    Fields.under_cons (under_count hr.offTrackCount (by decide)) <|
    Fields.under_cons (under_count hr.projectCount (by decide)) <| Fields.under_cons hsource Fields.under_nil

theorem ReorderRecord.under {r : ReorderRecord} (hr : ∀ item ∈ r.items, 0 ≤ item.position ∧ item.position ≤ 10000) :
    ReorderProjectsResponse.shape.Under reorderProjectsResponse ⟨r.initiativeRevision,
      r.items.map fun item => ⟨item.membershipRevision, item.position, item.projectId⟩⟩ := by
  refine Shape.under_record <| Fields.under_cons (under_text _) <|
    Fields.under_cons (Shape.under_list fun item hitem => ?_) Fields.under_nil
  obtain ⟨output, houtput, rfl⟩ := List.mem_map.mp hitem
  exact Shape.under_record <| Fields.under_cons (under_text _) <|
    Fields.under_cons (under_any (hr output houtput)) <| Fields.under_cons (under_text _) Fields.under_nil

/-- What a sound record of the operation converts to conforms to the schema of the request. -/
theorem Request.Sends.conforms {plugin : ProjectPortfolioPlugin} {context : Context} {q : Request} {c : Call} {j : Json}
    {r : Record} {response : Response} (h : q.Sends plugin context c) (hj : c.op.decode j = some r) (hr : r.Sound)
    (hresponse : r.respond accepts = some response) : q.Conforms accepts response := by
  cases h with
  | createInitiative | updateInitiative =>
    obtain ⟨record, -, rfl⟩ := Option.map_eq_some_iff.mp hj
    obtain ⟨item, hitem, rfl⟩ := Option.map_eq_some_iff.mp hresponse
    exact .of_under (InitiativeRecord.Sound.under hr hitem) rfl
  | addInitiativeUpdate =>
    obtain ⟨record, -, rfl⟩ := Option.map_eq_some_iff.mp hj
    obtain ⟨item, hitem, rfl⟩ := Option.map_eq_some_iff.mp hresponse
    exact .of_under (UpdateRecord.Sound.under hr hitem) rfl
  | archiveInitiative =>
    obtain ⟨record, -, rfl⟩ := Option.map_eq_some_iff.mp hj
    obtain ⟨item, hitem, rfl⟩ := Option.map_eq_some_iff.mp hresponse
    exact .of_under (ArchiveRecord.under hitem) rfl
  | attachProject | updateProjectSnapshot =>
    obtain ⟨record, -, rfl⟩ := Option.map_eq_some_iff.mp hj
    obtain ⟨item, hitem, rfl⟩ := Option.map_eq_some_iff.mp hresponse
    exact .of_under (ProjectRecord.Sound.under_attached hr hitem) rfl
  | detachProject =>
    obtain ⟨record, -, rfl⟩ := Option.map_eq_some_iff.mp hj
    have hmap : (DetachProjectResponse.fromJson record.toJson).map Response.detach = some response := hresponse
    obtain ⟨item, hitem, rfl⟩ := Option.map_eq_some_iff.mp hmap
    exact .of_under (DetachRecord.under hitem) rfl
  | reorderProjects =>
    obtain ⟨record, -, rfl⟩ := Option.map_eq_some_iff.mp hj
    rw [reorder_responds] at hresponse
    obtain rfl := Option.some.inj hresponse
    exact .of_under (ReorderRecord.under hr) rfl

end

/-! ### Rows in range -/

/-- Rows as their constraints and the calls keep them. -/
structure Facts.Sound (F : Facts) : Prop where
  initiatives : ∀ row ∈ F.initiatives, row.checks = true
  projects : ∀ p ∈ F.projects, p.checks = true ∧ p.position ≤ 10000
  updates : ∀ u ∈ F.updates, InRange u.progress ∧ 0 < u.initiativeRevision
  count : ∀ o i, (F.projectsOf o i).length ≤ 500

theorem InitiativeRow.sound {row : InitiativeRow} {n : ℕ} {r : InitiativeRecord} (hc : row.checks = true)
    (hn : n ≤ 500) (h : initiativeFromRow row n = some r) : r.Sound := by
  obtain ⟨hrevision, -, hprogress, -⟩ := InitiativeRow.checks_iff.mp hc
  obtain ⟨createdAt, -, h⟩ := Option.bind_eq_some_iff.mp h
  obtain ⟨updatedAt, -, h⟩ := Option.bind_eq_some_iff.mp h
  obtain ⟨archivedAt, -, h⟩ := Option.bind_eq_some_iff.mp h
  obtain rfl := Option.some.inj h
  exact ⟨progressCheck_iff.mp hprogress, ⟨Int.natCast_nonneg n, Int.ofNat_le.mpr hn⟩,
      matchesRevision_toString hrevision⟩

theorem ProjectRow.sound {row : ProjectRow} {revision : Option String} {r : ProjectRecord} (hc : row.checks = true)
    (hposition : row.position ≤ 10000) (h : projectFromRow row revision = some r) : r.Sound := by
  obtain ⟨hlow, hrevision, -, -, hprogress, -⟩ := ProjectRow.checks_iff.mp hc
  obtain ⟨observedAt, -, h⟩ := Option.bind_eq_some_iff.mp h
  obtain rfl := Option.some.inj h
  exact ⟨progressCheck_iff.mp hprogress, ⟨hlow, hposition⟩, matchesRevision_toString hrevision⟩

theorem UpdateRow.sound {row : UpdateRow} {r : UpdateRecord} (hprogress : InRange row.progress)
    (hrevision : 0 < row.initiativeRevision) (h : updateFromRow row = some r) : r.Sound := by
  obtain ⟨createdAt, -, h⟩ := Option.bind_eq_some_iff.mp h
  obtain rfl := Option.some.inj h
  exact ⟨hprogress, matchesRevision_toString hrevision⟩

section
variable {actor : String} {op : Op} {F F' : Facts} {r : Record} {T T' : Tables} {cs : List Committed}

/-- The record of a fresh success is in range. -/
theorem Fresh.sound (h : Fresh actor op F r F') (hop : op.Valid) (hF : F.Sound) : r.Sound := by
  cases h with
  | createInitiative _ hc hr => exact InitiativeRow.sound hc (hF.count _ _) hr
  | updateInitiative _ _ hc hr => exact InitiativeRow.sound hc (hF.count _ _) hr
  | addUpdate _ _ _ hu hc hr =>
    subst hu
    obtain ⟨hrevision, -, hprogress, -⟩ := InitiativeRow.checks_iff.mp hc
    exact UpdateRow.sound (progressCheck_iff.mp hprogress) hrevision hr
  | archiveInitiative => trivial
  | attachProject _ _ _ _ hp _ _ hr => exact ProjectRow.sound hp hop.2.2 hr
  | updateProjectSnapshot _ hold _ hp _ hr => exact ProjectRow.sound hp (hF.projects _ (project_mem hold).1).2 hr
  | detachProject => trivial
  | reorderProjects =>
    intro item hitem
    obtain ⟨input, hinput, rfl⟩ := List.mem_map.mp ((List.perm_insertionSort _ _).mem_iff.mp hitem)
    exact hop input hinput

/-- An update has the progress and the revision it has set its initiative to. -/
theorem Fresh.updates_sound (h : Fresh actor op F r F')
    (hF : ∀ u ∈ F.updates, InRange u.progress ∧ 0 < u.initiativeRevision) :
    ∀ u ∈ F'.updates, InRange u.progress ∧ 0 < u.initiativeRevision := by
  cases h with
  | addUpdate _ _ _ hu hc =>
    intro u hmem
    rcases List.mem_append.mp hmem with hmem | hmem
    · exact hF u hmem
    · obtain ⟨hrevision, -, hprogress, -⟩ := InitiativeRow.checks_iff.mp hc
      rw [List.mem_singleton.mp hmem, hu]
      exact ⟨progressCheck_iff.mp hprogress, hrevision⟩
  | createInitiative | updateInitiative | archiveInitiative | attachProject | updateProjectSnapshot | detachProject
  | reorderProjects => exact hF

theorem sound_of_history (h : History Tables.empty cs T) (hcs : ∀ x ∈ cs, x.call.op.Valid) : T.Sound where
  initiatives := checked_of_history h
  projects p hp :=
    ⟨(represented_of_history h p.organizationId p.initiativeId).checked p (mem_projectsOf.mpr ⟨hp, rfl, rfl⟩),
    within_of_history h (fun x hx => (hcs x hx).within) p hp⟩
  updates := h.preserves (I := fun F => ∀ u ∈ F.updates, InRange u.progress ∧ 0 < u.initiativeRevision)
    (fun _ hu => (List.not_mem_nil hu).elim) fun _ _ _ _ _ hF hf => hf.updates_sound hF
  count o i := (represented_of_history h o i).count

/-- What a commit returns is in range, a replay included. -/
theorem sound_of_mem (h : History Tables.empty cs T) (hcs : ∀ x ∈ cs, x.call.op.Valid) {x : Committed} (hx : x ∈ cs) :
    x.result.Sound ∧ ∃ j, x.call.op.decode j = some x.result := by
  have hfresh : ∀ y ∈ cs, y.Fresh → y.result.Sound := by
    intro y hy hfresh
    obtain ⟨before, after, rfl⟩ := List.append_of_mem hy
    have hbefore := sound_of_history (h.around Call.code).1 fun z hz => hcs z (List.mem_append_left _ hz)
    exact (fresh_of_fresh (outcome_of_mem h hy) hfresh).sound (hcs y hy) hbefore
  obtain ⟨before, after, rfl⟩ := List.append_of_mem hx
  cases outcome_of_mem h hx with
  | fresh hnone _ hr => exact ⟨hfresh x hx hnone, _, hr⟩
  | replay row j hrow _ hj hr =>
    obtain ⟨y, hy, hyfresh, -, he⟩ := (receipts_of_history (h.around Call.code).1).replayed hrow hj hr
    exact ⟨he ▸ hfresh y (List.mem_append_left _ hy) hyfresh, j, hr⟩

end

/-! ### Reads of rows in range -/

/-- What a read answers is `good`. -/
def Told {α : Type} (good : α → Prop) : Except StorageError α → Prop
  | .ok a => good a
  | .error _ => True

section
variable {α β : Type} {K : Tick → Prop} {I : Tables → Prop} {good : α → Prop} {good' : β → Prop} {o i : String}

theorem told_bind {p : Tx α} {f : α → Tx β} (h : p.Sees K I (Told good))
    (hf : ∀ a, good a → (f a).Sees K I (Told good')) : (p >>= f).Sees K I (Told good') := by
  refine Prog.Sees.bind (h.mono fun r hr => ?_)
  cases r with
  | ok a => exact hf a hr
  | error e => trivial

theorem told_select {binds : List String} {answer : Tables → β} {operation : String} {f : β → Tx α}
    (h : ∀ T, I T → (f (answer T)).Sees K I (Told good)) :
    (perform (Sql.select binds answer) (.database operation) >>= f).Sees K I (Told good) :=
  views_select (fun _ _ _ => trivial) (fun _ => trivial) (fun _ => trivial) h

theorem told_formatted {x : Option α} (h : ∀ a, x = some a → good a) : (formatted x).Sees K I (Told good) := by
  cases x with
  | none => exact sees_throw trivial
  | some a => exact sees_ret (h a rfl)

theorem told_ensureExists {f : Unit → Tx α} (h : (f ()).Sees K I (Told good)) :
    (ensureExists o i >>= f).Sees K I (Told good) := by
  rw [ensureExists, bind_assoc]
  refine told_select fun T _ => ?_
  cases (T.initiative o i).isSome with
  | false => exact sees_throw trivial
  | true => exact h

theorem told_getInitiative : (getInitiative o i).Sees K (fun T => T.Sound) (Told InitiativeRecord.Sound) := by
  refine told_select fun T hT => ?_
  cases hrow : T.initiative o i with
  | none => exact sees_throw trivial
  | some row =>
    exact told_formatted fun r hr =>
      InitiativeRow.sound (hT.initiatives row (initiative_mem hrow).1) (hT.count _ _) hr

theorem told_listInitiatives {includeArchived : Bool} {after : Option ℤ} {limit : ℤ} :
    (listInitiatives o includeArchived after limit).Sees K (fun T => T.Sound) (Told fun rs => ∀ r ∈ rs, r.Sound) := by
  refine told_select fun T hT => told_formatted fun rs hrs r hr => ?_
  obtain ⟨⟨row, n⟩, hrow, hrecord⟩ := Json.mem_of_mapM hrs r hr
  obtain ⟨row', hmem, he⟩ := List.mem_map.mp hrow
  obtain ⟨rfl, rfl⟩ := Prod.mk.inj he
  have hlisted := (List.perm_insertionSort _ _).mem_iff.mp (List.mem_of_mem_take hmem)
  exact InitiativeRow.sound (hT.initiatives row' (List.mem_filter.mp hlisted).1) (hT.count _ _) hrecord

theorem told_listUpdates {after : Option ℤ} {limit : ℤ} :
    (listUpdates o i after limit).Sees K (fun T => T.Sound) (Told fun rs => ∀ r ∈ rs, r.Sound) := by
  refine told_ensureExists (told_select fun T hT => told_formatted fun rs hrs r hr => ?_)
  obtain ⟨row, hrow, hrecord⟩ := Json.mem_of_mapM hrs r hr
  have hlisted := (List.perm_insertionSort _ _).mem_iff.mp (List.mem_of_mem_take hrow)
  obtain ⟨hprogress, hrevision⟩ := hT.updates row (List.mem_filter.mp (List.mem_filter.mp hlisted).1).1
  exact UpdateRow.sound hprogress hrevision hrecord

theorem told_listProjects {after : Option ℤ} {limit : ℤ} : (listProjects o i after limit).Sees K (fun T => T.Sound)
    (Told fun rs => rs.length ≤ limit.toNat ∧ ∀ r ∈ rs, r.Sound) := by
  refine told_ensureExists (told_select fun T hT => told_formatted fun rs hrs =>
    ⟨?_, fun r hr => ?_⟩)
  · rw [← (Json.forall₂_of_mapM hrs).length_eq]
    exact List.length_take_le _ _
  · obtain ⟨row, hrow, hrecord⟩ := Json.mem_of_mapM hrs r hr
    have hlisted := (List.perm_insertionSort _ _).mem_iff.mp (List.mem_of_mem_take hrow)
    obtain ⟨hchecks, hposition⟩ := hT.projects row (mem_projectsOf.mp (List.mem_filter.mp hlisted).1).1
    exact ProjectRow.sound hchecks hposition hrecord

theorem sum_in_range : ∀ {ps : List ProjectRecord}, (∀ p ∈ ps, p.Sound) →
    0 ≤ (ps.map (·.progress)).sum ∧ (ps.map (·.progress)).sum ≤ 100 * ps.length
  | [], _ => by simp
  | p :: ps, h => by
    obtain ⟨hp, hps⟩ := List.forall_mem_cons.mp h
    have h1 := hp.progress
    have h2 := sum_in_range hps
    unfold InRange at h1
    simp only [List.map_cons, List.sum_cons, List.length_cons, Nat.cast_add, Nat.cast_one]
    omega

/-- A rollup of records in range is in range. -/
theorem computeRollup_sound {initiative : InitiativeRecord} {ps : List ProjectRecord} {now : Instant}
    {r : RollupRecord} (hinitiative : initiative.Sound) (hlength : ps.length ≤ 500) (hps : ∀ p ∈ ps, p.Sound)
    (h : computeRollup initiative ps now = some r) : r.Sound := by
  obtain ⟨computedAt, -, h⟩ := Option.bind_eq_some_iff.mp h
  obtain rfl := Option.some.inj h
  have hcount : ∀ predicate : ProjectRecord → Bool,
      0 ≤ countProjects ps predicate ∧ countProjects ps predicate ≤ 500 := by
    intro predicate
    have hle : (ps.filter predicate).length ≤ ps.length := List.length_filter_le _ _
    unfold countProjects
    omega
  refine ⟨hinitiative.progress, ⟨Int.natCast_nonneg _, Int.ofNat_le.mpr hlength⟩, hcount _, hcount _, hcount _,
    fun q hq => ?_⟩
  obtain ⟨hlow, hhigh⟩ := sum_in_range hps
  cases ps with
  | nil => cases hq
  | cons p ps =>
    obtain rfl := Option.some.inj hq
    have hlow' : (0 : ℚ) ≤ (((p :: ps).map (·.progress)).sum : ℤ) := by exact_mod_cast hlow
    have hhigh' : ((((p :: ps).map (·.progress)).sum : ℤ) : ℚ) ≤ 100 * (p :: ps).length := by exact_mod_cast hhigh
    have hpos : (0 : ℚ) < (p :: ps).length := by exact_mod_cast Nat.succ_pos ps.length
    rw [averageProgress_of_small hlength hlow hhigh]
    exact round_progress ⟨div_nonneg hlow' hpos.le, (div_le_iff₀ hpos).mpr hhigh'⟩

theorem told_readRollup {now : Instant} :
    (readRollup o i now).Sees K (fun T => T.Sound) (Told RollupRecord.Sound) :=
  told_bind told_getInitiative fun _ hinitiative => told_bind told_listProjects fun _ hprojects =>
    told_formatted fun _ hr => computeRollup_sound hinitiative hprojects.1 hprojects.2 hr

end

/-! ### The reads as handlers -/

section
variable {ε α β ρ : Type} {t : ℕ → Tick} {T : ℕ → Tables}

theorem told_ok {p : Tx ρ} {good : ρ → Prop} {records : ρ} {t' : ℕ → Tick} {T' : ℕ → Tables}
    (h : p.Sees (fun _ => True) (fun T => T.Sound) (Told good)) (hT : ∀ n, (T n).Sound)
    (hp : p.observe t T = (.ok records, t', T')) :
    good records := by
  have ht := h t T (fun _ => trivial) hT
  rwa [hp] at ht

/-- A handler of a read answers with what it makes of what its storage function sees. -/
theorem observe_reading [OperationError ε] {plugin : ProjectPortfolioPlugin}
    {x : Except AuthorizationFailure Authorized} {b : Bool} {s : Storage ρ} {map : DomainFailure → ε}
    {f : ρ → Handler ε β} {r : β} (h : (Handler.observe (authorized x >>= fun _ => valid b >>= fun _ =>
      prepared plugin >>= fun _ => stored s map >>= f) t T).1 = .ok r) :
    ∃ records t' T', s.code.observe t T = (.ok records, t', T') ∧ (Handler.observe (f records) t' T').1 = .ok r := by
  obtain ⟨auth, t₁, T₁, h1, hall⟩ := Handler.observe_bind_ok.mp (Prod.ext h rfl)
  obtain ⟨rfl, rfl⟩ := observe_authorized h1
  obtain ⟨_, t₂, T₂, h2, hall⟩ := Handler.observe_bind_ok.mp hall
  obtain ⟨-, rfl, rfl⟩ := observe_valid h2
  obtain ⟨_, t₃, T₃, h3, hall⟩ := Handler.observe_bind_ok.mp hall
  obtain ⟨rfl, rfl⟩ := observe_prepared h3
  obtain ⟨records, t₄, T₄, h4, hall⟩ := Handler.observe_bind_ok.mp hall
  exact ⟨records, t₄, T₄, observe_stored h4, congrArg Prod.fst hall⟩

theorem observe_as (error : ε → DomainError) (response : α → Response) : ∀ (h : Handler ε α) (t : ℕ → Tick)
    (T : ℕ → Tables), (Handler.observe (Handler.as h error response) t T).1 =
      ((Handler.observe h t T).1.mapError (PluginError.map error)).map response
  | .ret _, _, _ => rfl
  | .throw _, _, _ => rfl
  | .call s k, t, T => observe_as error response (k (s.code.observe t T).1) (s.code.observe t T).2.1
      (s.code.observe t T).2.2

theorem observe_as_ok {h : Handler ε α} {error : ε → DomainError} {response : α → Response} {r : Response}
    (hr : (Handler.observe (Handler.as h error response) t T).1 = .ok r) :
    ∃ a, (Handler.observe h t T).1 = .ok a ∧ response a = r := by
  rw [observe_as] at hr
  cases ha : (Handler.observe h t T).1 with
  | error e =>
    rw [ha] at hr
    cases hr
  | ok a =>
    rw [ha] at hr
    exact ⟨a, rfl, Except.ok.inj hr⟩

theorem mem_of_page {limit : ℤ} {records : List α} {a : α} (h : a ∈ (page limit records).1) : a ∈ records := by
  unfold page at h
  split at h
  · exact List.mem_of_mem_dropLast h
  · exact h

theorem mem_of_nextCursor {cursor : α → β} {records : List α × Bool} {b : β} (h : nextCursor cursor records = some b) :
    ∃ a ∈ records.1, cursor a = b := by
  unfold nextCursor at h
  split at h
  · obtain ⟨a, ha, rfl⟩ := Option.map_eq_some_iff.mp h
    exact ⟨a, List.mem_of_getLast? ha, rfl⟩
  · cases h

end

section
variable {plugin : ProjectPortfolioPlugin} {context : Context} {t : ℕ → Tick} {T : ℕ → Tables}
  (hT : ∀ n, (T n).Sound)

include hT

theorem getInitiative_conforms {q : GetInitiativeRequest} {r : GetInitiativeResponse}
    (h : (Handler.observe (plugin.getInitiative context q) t T).1 = .ok r) :
    (CreateInitiativeResponse.shape plugin.accepts).Under (initiativeResponse plugin.accepts) r := by
  obtain ⟨record, t', T', hrecord, hr⟩ := observe_reading h
  exact (told_ok told_getInitiative hT hrecord).under (observe_wireCast (Prod.ext hr rfl))

theorem readRollup_conforms {q : ReadRollupRequest} {r : ReadRollupResponse}
    (h : (Handler.observe (plugin.readRollup context q) t T).1 = .ok r) :
    (ReadRollupResponse.shape plugin.accepts).Under (rollupResponse plugin.accepts) r := by
  obtain ⟨record, t', T', hrecord, hr⟩ := observe_reading h
  exact (told_ok told_readRollup hT hrecord).under (observe_wireCast (Prod.ext hr rfl))

theorem listInitiatives_conforms {q : ListInitiativesRequest} {r : ListInitiativesResponse}
    (h : (Handler.observe (plugin.listInitiatives context q) t T).1 = .ok r) :
    (ListInitiativesResponse.shape plugin.accepts).Under (listInitiativesResponse plugin.accepts) r := by
  obtain ⟨after, records, items, t', T', -, -, hrecords, hitems, rfl⟩ := observe_listing h
  have hsound := told_ok told_listInitiatives hT hrecords
  refine Shape.under_record <| Fields.under_cons (Shape.under_list fun item hitem => ?_) <|
    Fields.under_cons (under_optionalText _) Fields.under_nil
  obtain ⟨record, hrecord, hitem⟩ := Json.mem_of_mapM hitems item hitem
  exact (hsound record (mem_of_page hrecord)).under hitem

theorem listInitiativeUpdates_conforms {q : ListInitiativeUpdatesRequest} {r : ListInitiativeUpdatesResponse}
    (h : (Handler.observe (plugin.listInitiativeUpdates context q) t T).1 = .ok r) :
    (ListInitiativeUpdatesResponse.shape plugin.accepts).Under (listInitiativeUpdatesResponse plugin.accepts) r := by
  obtain ⟨after, records, items, t', T', -, -, hrecords, hitems, rfl⟩ := observe_listing h
  have hsound := told_ok told_listUpdates hT hrecords
  refine Shape.under_record <| Fields.under_cons (under_optionalText _) <|
    Fields.under_cons (Shape.under_list fun item hitem => ?_) Fields.under_nil
  obtain ⟨record, hrecord, hitem⟩ := Json.mem_of_mapM hitems item hitem
  exact (hsound record (mem_of_page hrecord)).under hitem

theorem listInitiativeProjects_conforms {q : ListInitiativeProjectsRequest} {r : ListInitiativeProjectsResponse}
    (h : (Handler.observe (plugin.listInitiativeProjects context q) t T).1 = .ok r) :
    (ListInitiativeProjectsResponse.shape plugin.accepts).Under (listInitiativeProjectsResponse plugin.accepts) r := by
  obtain ⟨records, t', T', hrecords, hr⟩ := observe_reading h
  obtain ⟨-, hsound⟩ := told_ok told_listProjects hT hrecords
  obtain ⟨items, t₁, T₁, hcast, hr⟩ := Handler.observe_bind_ok.mp (Prod.ext hr rfl)
  have hitems := observe_wireCast hcast
  obtain rfl := Except.ok.inj (Prod.mk.inj hr).1
  refine Shape.under_record <| Fields.under_cons (Shape.under_option fun n hn => ?_) <|
    Fields.under_cons (Shape.under_list fun item hitem => ?_) Fields.under_nil
  · obtain ⟨record, hrecord, rfl⟩ := mem_of_nextCursor hn
    exact under_count (hsound record (mem_of_page hrecord)).position (by decide)
  · obtain ⟨record, hrecord, hitem⟩ := Json.mem_of_mapM hitems item hitem
    exact (hsound record (mem_of_page hrecord)).under hitem

/-- What a read answers from sound states conforms. -/
theorem read_conforms {q : Request} {response : Response} (hq : q.json = none)
    (h : (Handler.observe (q.handle plugin context) t T).1 = .ok response) :
    q.Conforms plugin.accepts response := by
  cases q with
  | getInitiative =>
    obtain ⟨r, hr, rfl⟩ := observe_as_ok h
    exact .of_under (getInitiative_conforms hT hr) rfl
  | listInitiatives =>
    obtain ⟨r, hr, rfl⟩ := observe_as_ok h
    exact .of_under (listInitiatives_conforms hT hr) rfl
  | listInitiativeProjects =>
    obtain ⟨r, hr, rfl⟩ := observe_as_ok h
    exact .of_under (listInitiativeProjects_conforms hT hr) rfl
  | listInitiativeUpdates =>
    obtain ⟨r, hr, rfl⟩ := observe_as_ok h
    exact .of_under (listInitiativeUpdates_conforms hT hr) rfl
  | readRollup =>
    obtain ⟨r, hr, rfl⟩ := observe_as_ok h
    exact .of_under (readRollup_conforms hT hr) rfl
  | createInitiative | updateInitiative | addInitiativeUpdate | archiveInitiative | attachProject
  | updateProjectSnapshot | detachProject | reorderProjects => cases hq

end

/-! ### Every response -/

section
variable {plugin : ProjectPortfolioPlugin} {w : Sequences} {S : System}

theorem valid_of_reachable (h : Txn.Steps Call.code (Admitted plugin) (System.initial w) S) :
    ∀ x ∈ S.commits, x.call.op.Valid := by
  intro x hx
  obtain ⟨context, q, hmutation⟩ := (reachable_inv h).admitted x hx
  exact (sends_of_mutation hmutation).valid

/-- **Responses conform to their schemas**, in every run of the plugin: what a mutation answers to its
request once it has committed, fresh or replayed, and what a read answers whose statements each see some
committed state, is a document the response schema of the operation accepts. -/
theorem responses_conform (h : Txn.Steps Call.code (Admitted plugin) (System.initial w) S) :
    (∀ x ∈ S.commits, ∀ (context : Context) (q : Request), Handler.mutation (q.handle plugin context) = some x.call →
      ∀ response, x.result.respond plugin.accepts = some response → q.Conforms plugin.accepts response) ∧
    ∀ T : ℕ → Tables, (∀ n, ∃ S' : System, Txn.Steps Call.code (Admitted plugin) S S' ∧ S'.db = T n) →
      ∀ (context : Context) (q : Request) (t : ℕ → Tick) (response : Response), q.json = none →
        (Handler.observe (q.handle plugin context) t T).1 = .ok response → q.Conforms plugin.accepts response := by
  refine ⟨fun x hx context q hmutation response hresponse => ?_, fun T hT context q t response hq hresponse => ?_⟩
  · obtain ⟨hsound, j, hj⟩ := sound_of_mem (reachable_inv h).chain (valid_of_reachable h) hx
    exact (sends_of_mutation hmutation).conforms hj hsound hresponse
  · refine read_conforms (fun n => ?_) hq hresponse
    obtain ⟨S', hS', hdb⟩ := hT n
    have hreached := h.trans hS'
    exact hdb ▸ sound_of_history (reachable_inv hreached).chain (valid_of_reachable hreached)

end

def sampleProjectsRequest : Request := .listInitiativeProjects ⟨none, "alpha", 10, "acme"⟩

/-- What the list of projects answers on the tables. -/
def sampleListing (T : Tables) : Option Response :=
  (Handler.observe (sampleProjectsRequest.handle samplePlugin sampleContext) (fun _ => default) fun _ => T).1.toOption

/-- A project is attached and listed: both responses conform. -/
theorem responses_conform_attached : ∃ (S : System) (attached listed : Response), S.db.projects.length = 1 ∧
    sampleListing S.db = some listed ∧ sampleAttachRequest.Conforms samplePlugin.accepts attached ∧
    sampleProjectsRequest.Conforms samplePlugin.accepts listed := by
  have hrun : ((System.initial ⟨0, 0⟩).schedule Call.code 2 sampleMembership).bind (fun S =>
      (S.schedule Call.code 2 []).map fun S' => (decide (S'.db.projects.length = 1) &&
        (S'.commits.any fun x =>
          decide (Handler.mutation (sampleAttachRequest.handle samplePlugin sampleContext) = some x.call) &&
            (x.result.respond samplePlugin.accepts).isSome) &&
        (sampleListing S'.db).isSome)) = some true := by decide +kernel
  obtain ⟨S, S', h, h', hfacts⟩ := @System.scheduled (Admitted samplePlugin) _ _ _ _ _ _ _ hrun (by decide +kernel)
    (Txn.starts_append admitted_sampleMembership_self Txn.starts_nil)
  simp only [Bool.and_eq_true, decide_eq_true_eq] at hfacts
  obtain ⟨⟨hprojects, hany⟩, hlisted⟩ := hfacts
  obtain ⟨x, hx, hattach⟩ := List.any_eq_true.mp hany
  simp only [Bool.and_eq_true, decide_eq_true_eq] at hattach
  obtain ⟨hmutation, hsome⟩ := hattach
  obtain ⟨attached, hattached⟩ := Option.isSome_iff_exists.mp hsome
  obtain ⟨listed, hlisted⟩ := Option.isSome_iff_exists.mp hlisted
  obtain ⟨hmutations, hreads⟩ := responses_conform (h.trans h')
  exact ⟨S', attached, listed, hprojects, hlisted, hmutations x hx _ _ hmutation _ hattached,
    hreads (fun _ => S'.db) (fun _ => ⟨S', .refl, rfl⟩) sampleContext _ _ _ rfl (ok_of_toOption hlisted)⟩

end Portfolio
