/-
# The published request schemas, and what takes effect

Each operation has a schema for its requests, which is that of the arguments of its
tool. A document it accepts the agent tools read exactly if its numbers are integers
of 64 bits; the schema does not bound the position to list after, and `1.0` is an
integer to it. And in no run does a mutation take effect whose request the schema
would not accept, but for how it spells a revision: what the handlers check and what
the storage refuses of a reorder is what the schema says otherwise. As in the
responses, the texts of the `date-time` format are those of the contract's
`Timestamp`.

Key definitions: `requestSchema`, `Request.revisions`, `Op.Sized`.
Key theorems: `Request.Sends.published`, `Request.spelled`, `effective_requests_are_published`,
`published_requests_are_read`.
-/
import Portfolio.Conformance

namespace Portfolio

open Txn Wire

/-! ### The schemas -/

def keyText : Schema := .bounded 1 200

def idText : Schema := .bounded 1 512

def revisionText : Schema := .pattern matchesRevision

/-- `add-initiative-update-request.schema.json`. -/
def addInitiativeUpdateRequest : Schema := .object [
  ("expected_revision", revisionText), ("health", Health.schema), ("idempotency_key", keyText),
  ("initiative_id", idText), ("organization_id", idText), ("progress", .integer (some 0) (some 100)),
  ("summary", .bounded 1 4000), ("update_id", idText)]

/-- `create-initiative-request.schema.json`. -/
def createInitiativeRequest : Schema := .object [
  ("idempotency_key", keyText), ("initiative_id", idText), ("name", .bounded 1 240), ("organization_id", idText),
  ("owner_subject", .nullable (.bounded 0 512)), ("summary", .nullable (.bounded 0 4000)),
  ("target_date", .nullable .string), ("target_start", .nullable .string)]

/-- `get-initiative-request.schema.json`. -/
def getInitiativeRequest : Schema := .object [("initiative_id", idText), ("organization_id", idText)]

/-- `list-initiative-projects-request.schema.json`. -/
def listInitiativeProjectsRequest : Schema := .object [
  ("after_position", .nullable (.integer (some 0) none)), ("initiative_id", idText),
  ("limit", .integer (some 1) (some 200)), ("organization_id", idText)]

/-- `list-initiative-updates-request.schema.json`. -/
def listInitiativeUpdatesRequest : Schema := .object [
  ("after", .nullable (.bounded 0 512)), ("initiative_id", idText), ("limit", .integer (some 1) (some 200)),
  ("organization_id", idText)]

/-- `list-initiatives-request.schema.json`. -/
def listInitiativesRequest : Schema := .object [
  ("after", .nullable (.bounded 0 512)), ("include_archived", .boolean), ("limit", .integer (some 1) (some 200)),
  ("organization_id", idText)]

/-- `read-rollup-request.schema.json`. -/
def readRollupRequest : Schema := .object [("initiative_id", idText), ("organization_id", idText)]

/-- `update-initiative-request.schema.json`. -/
def updateInitiativeRequest : Schema := .object [
  ("expected_revision", revisionText), ("idempotency_key", keyText), ("initiative_id", idText),
  ("name", .nullable (.bounded 1 240)), ("organization_id", idText), ("owner_subject", .nullable (.bounded 0 512)),
  ("summary", .nullable (.bounded 0 4000)), ("target_date", .nullable .string), ("target_start", .nullable .string)]

/-- `archive-initiative-request.schema.json`. -/
def archiveInitiativeRequest : Schema := .object [
  ("expected_revision", revisionText), ("idempotency_key", keyText), ("initiative_id", idText),
  ("organization_id", idText)]

/-- `attach-project-request.schema.json`. -/
def attachProjectRequest (accepts : String → Bool) : Schema := .object [
  ("expected_initiative_revision", revisionText), ("health", Health.schema), ("idempotency_key", keyText),
  ("initiative_id", idText), ("name_snapshot", .bounded 1 240), ("observed_at", .pattern accepts),
  ("organization_id", idText), ("position", .integer (some 0) (some 10000)),
  ("progress", .integer (some 0) (some 100)), ("project_id", idText), ("snapshot_revision", .bounded 1 128),
  ("status_category", Status.schema), ("target_date", .nullable .string), ("target_start", .nullable .string)]

/-- `detach-project-request.schema.json`. -/
def detachProjectRequest : Schema := .object [
  ("expected_initiative_revision", revisionText), ("expected_membership_revision", revisionText),
  ("idempotency_key", keyText), ("initiative_id", idText), ("organization_id", idText), ("project_id", idText)]

/-- `reorder-projects-request.schema.json`. -/
def reorderProjectsRequest : Schema := .object [
  ("expected_initiative_revision", revisionText), ("idempotency_key", keyText), ("initiative_id", idText),
  ("items", .items 1 500 (.object [
    ("expected_membership_revision", revisionText), ("position", .integer (some 0) (some 10000)),
    ("project_id", idText)])), ("organization_id", idText)]

/-- `update-project-snapshot-request.schema.json`. -/
def updateProjectSnapshotRequest (accepts : String → Bool) : Schema := .object [
  ("expected_membership_revision", revisionText), ("health", Health.schema), ("idempotency_key", keyText),
  ("initiative_id", idText), ("name_snapshot", .bounded 1 240), ("observed_at", .pattern accepts),
  ("organization_id", idText), ("progress", .integer (some 0) (some 100)), ("project_id", idText),
  ("snapshot_revision", .bounded 1 128), ("status_category", Status.schema), ("target_date", .nullable .string),
  ("target_start", .nullable .string)]

/-- The `request_schema` of an operation, in the descriptor of its capability. -/
def requestSchema (accepts : String → Bool) (operation : String) : Schema :=
  match operation with
  | "create_initiative" => createInitiativeRequest
  | "get_initiative" => getInitiativeRequest
  | "list_initiatives" => listInitiativesRequest
  | "update_initiative" => updateInitiativeRequest
  | "list_initiative_projects" => listInitiativeProjectsRequest
  | "add_initiative_update" => addInitiativeUpdateRequest
  | "list_initiative_updates" => listInitiativeUpdatesRequest
  | "read_rollup" => readRollupRequest
  | "archive_initiative" => archiveInitiativeRequest
  | "attach_project" => attachProjectRequest accepts
  | "update_project_snapshot" => updateProjectSnapshotRequest accepts
  | "detach_project" => detachProjectRequest
  | "reorder_projects" => reorderProjectsRequest
  | _ => fun _ => false

/-- The texts of the request that are revisions. -/
def Request.revisions : Request → List String
  | .updateInitiative r => [r.expectedRevision]
  | .addInitiativeUpdate r => [r.expectedRevision]
  | .archiveInitiative r => [r.expectedRevision]
  | .attachProject r => [r.expectedInitiativeRevision]
  | .updateProjectSnapshot r => [r.expectedMembershipRevision]
  | .detachProject r => [r.expectedInitiativeRevision, r.expectedMembershipRevision]
  | .reorderProjects r => r.expectedInitiativeRevision :: r.items.map (·.expectedMembershipRevision)
  | _ => []

/-! ### Texts in characters -/

theorem bounds_of_bytes {value : String} {max : ℕ} (hne : value.isEmpty = false) (hbytes : value.utf8ByteSize ≤ max) :
    1 ≤ value.length ∧ value.length ≤ max := by
  refine ⟨Nat.one_le_iff_ne_zero.mpr fun h => ?_, (length_le_utf8ByteSize value).trans hbytes⟩
  rw [String.length_eq_zero_iff.mp h] at hne
  cases hne

theorem bounds_of_bounded {value : String} {max : ℕ} (h : validBoundedOpaque value max = true) :
    1 ≤ value.length ∧ value.length ≤ max := by
  simp only [validBoundedOpaque, Bool.and_eq_true, Bool.not_eq_true', decide_eq_true_eq] at h
  exact bounds_of_bytes h.1.1.1 h.1.1.2

theorem bounds_of_text {value : String} {max : ℕ} (h : validText value max = true) :
    1 ≤ value.length ∧ value.length ≤ max := by
  simp only [validText, Bool.and_eq_true, Bool.not_eq_true', decide_eq_true_eq] at h
  refine bounds_of_bytes (Bool.eq_false_iff.mpr fun hempty => ?_) h.1.2
  rw [String.isEmpty_iff.mp hempty] at h
  exact absurd h.1.1 (by decide)

theorem under_id {value : String} (h : validOpaqueId value = true) : text.Under idText value :=
  under_bounded (bounds_of_bounded h)

theorem under_key {value : String} (h : validIdempotencyKey value = true) : text.Under keyText value := by
  simp only [validIdempotencyKey, validId, Bool.and_eq_true, Bool.not_eq_true', decide_eq_true_eq] at h
  exact under_bounded (bounds_of_bytes h.1.1.1 h.2)

theorem under_revision {value : String} (h : matchesRevision value = true) : text.Under revisionText value :=
  under_pattern h

theorem under_optional {value : Option String} {p : String → Bool} {minLength maxLength : ℕ} (h : value.all p = true)
    (hp : ∀ v, p v = true → minLength ≤ v.length ∧ v.length ≤ maxLength) :
    optionalText.Under (.nullable (.bounded minLength maxLength)) value := by
  refine Shape.under_option fun v hv => under_bounded (hp v ?_)
  rwa [hv] at h

theorem under_summary {value : Option String} (h : validOptionalText value maxTextBytes = true) :
    optionalText.Under (.nullable (.bounded 0 4000)) value :=
  under_optional h fun _ hv => ⟨Nat.zero_le _, (bounds_of_text hv).2⟩

theorem under_owner {value : Option String} (h : value.all validOpaqueId = true) :
    optionalText.Under (.nullable (.bounded 0 512)) value :=
  under_optional h fun _ hv => ⟨Nat.zero_le _, (bounds_of_bounded hv).2⟩

theorem under_position {n : ℤ} (h : 0 ≤ n ∧ n ≤ 10000) : i64.Under (.integer (some 0) (some 10000)) n := by
  refine under_i64 (by omega) (fun m hm => ?_) fun m hm => ?_
  · rw [← Option.some.inj hm]
    exact h.1
  · rw [← Option.some.inj hm]
    exact h.2

/-! ### What takes effect -/

/-- A reorder is of one item at least, and of no more than an initiative has projects. -/
def Op.Sized : Op → Prop
  | .reorderProjects _ _ _ items => 1 ≤ items.length ∧ items.length ≤ 500
  | _ => True

theorem Fresh.sized {actor : String} {op : Op} {F F' : Facts} {r : Record} (h : Fresh actor op F r F') : op.Sized := by
  cases h with
  | reorderProjects _ _ hitems =>
    obtain ⟨hsome, hcount, -⟩ := reorderAccepts_spec hitems
    exact ⟨List.length_pos_of_ne_nil hsome, hcount⟩
  | createInitiative | updateInitiative | addUpdate | archiveInitiative | attachProject | updateProjectSnapshot
  | detachProject => trivial

section
variable {plugin : ProjectPortfolioPlugin} {context : Context} {q : Request} {c : Call}

/-- The request of an issued call of a size is one the schema accepts, if its revisions are. -/
theorem Request.Sends.published (h : q.Sends plugin context c) (hsized : c.op.Sized) (hfit : q.Fit plugin.accepts)
    (hrev : ∀ revision ∈ q.revisions, matchesRevision revision = true) :
    requestSchema plugin.accepts q.operation (q.wire plugin.accepts) = true := by
  cases h with
  | @createInitiative r _ _ hauth hdates hvalid =>
    simp only [Bool.and_eq_true] at hvalid
    obtain ⟨⟨⟨⟨hkey, hi⟩, hname⟩, hsummary⟩, howner⟩ := hvalid
    have horg := (authorize_ok hauth).ids.1
    have hunder : CreateInitiativeRequest.shape.Under createInitiativeRequest r :=
      Shape.under_record <| Fields.under_cons (under_key hkey) <| Fields.under_cons (under_id hi) <|
      Fields.under_cons (under_bounded (bounds_of_text hname)) <| Fields.under_cons (under_id horg) <|
      Fields.under_cons (under_owner howner) <| Fields.under_cons (under_summary hsummary) <|
      Fields.under_cons (under_optionalText _) <| Fields.under_cons (under_optionalText _) Fields.under_nil
    exact hunder.2
  | @updateInitiative r _ _ _ hauth hexpected hdates hvalid =>
    simp only [Bool.and_eq_true] at hvalid
    obtain ⟨⟨⟨⟨hkey, hi⟩, hname⟩, hsummary⟩, howner⟩ := hvalid
    have horg := (authorize_ok hauth).ids.1
    have hunder : UpdateInitiativeRequest.shape.Under updateInitiativeRequest r :=
      Shape.under_record <| Fields.under_cons (under_revision (hrev _ List.mem_cons_self)) <|
      Fields.under_cons (under_key hkey) <| Fields.under_cons (under_id hi) <|
      Fields.under_cons (under_optional hname fun _ => bounds_of_text) <| Fields.under_cons (under_id horg) <|
      Fields.under_cons (under_owner howner) <| Fields.under_cons (under_summary hsummary) <|
      Fields.under_cons (under_optionalText _) <| Fields.under_cons (under_optionalText _) Fields.under_nil
    exact hunder.2
  | @addInitiativeUpdate r _ _ hauth hexpected hvalid =>
    simp only [Bool.and_eq_true] at hvalid
    obtain ⟨⟨⟨⟨hkey, hi⟩, hu⟩, hsummary⟩, hprogress⟩ := hvalid
    have horg := (authorize_ok hauth).ids.1
    have hrange : 0 ≤ r.progress ∧ r.progress ≤ 100 := of_decide_eq_true hprogress
    have hunder : AddInitiativeUpdateRequest.shape.Under addInitiativeUpdateRequest r :=
      Shape.under_record <| Fields.under_cons (under_revision (hrev _ List.mem_cons_self)) <|
      Fields.under_cons (under_health _) <| Fields.under_cons (under_key hkey) <| Fields.under_cons (under_id hi) <|
      Fields.under_cons (under_id horg) <| Fields.under_cons (under_progress hrange) <|
      Fields.under_cons (under_bounded (bounds_of_text hsummary)) <| Fields.under_cons (under_id hu) Fields.under_nil
    exact hunder.2
  | @archiveInitiative r _ _ hauth hexpected =>
    obtain ⟨hkey, hi, -⟩ := validAdminMutation_ok hexpected
    have horg := (authorize_ok hauth).ids.1
    have hunder : ArchiveInitiativeRequest.shape.Under archiveInitiativeRequest r :=
      Shape.under_record <| Fields.under_cons (under_revision (hrev _ List.mem_cons_self)) <|
      Fields.under_cons (under_key hkey) <| Fields.under_cons (under_id hi) <|
      Fields.under_cons (under_id horg) Fields.under_nil
    exact hunder.2
  | @attachProject r _ _ _ hauth hexpected hsnapshot hposition =>
    obtain ⟨hkey, hi, -⟩ := validAdminMutation_ok hexpected
    obtain ⟨⟨hp, hname, hrevision, hprogress⟩, -⟩ := parseSnapshot_ok hsnapshot
    have horg := (authorize_ok hauth).ids.1
    have hobserved : plugin.accepts r.observedAt = true := hfit.2.2.2.2.2.1
    have hunder : (AttachProjectRequest.shape plugin.accepts).Under (attachProjectRequest plugin.accepts) r :=
      Shape.under_record <| Fields.under_cons (under_revision (hrev _ List.mem_cons_self)) <|
      Fields.under_cons (under_health _) <| Fields.under_cons (under_key hkey) <| Fields.under_cons (under_id hi) <|
      Fields.under_cons (under_bounded (bounds_of_text hname)) <| Fields.under_cons (under_constrained hobserved) <|
      Fields.under_cons (under_id horg) <| Fields.under_cons (under_position hposition) <|
      Fields.under_cons (under_progress hprogress) <| Fields.under_cons (under_id hp) <|
      Fields.under_cons (under_bounded (bounds_of_bounded hrevision)) <| Fields.under_cons (under_status _) <|
      Fields.under_cons (under_optionalText _) <| Fields.under_cons (under_optionalText _) Fields.under_nil
    exact hunder.2
  | @updateProjectSnapshot r _ _ _ hauth hexpected hsnapshot =>
    obtain ⟨hkey, hi, -⟩ := validAdminMutation_ok hexpected
    obtain ⟨⟨hp, hname, hrevision, hprogress⟩, -⟩ := parseSnapshot_ok hsnapshot
    have horg := (authorize_ok hauth).ids.1
    have hobserved : plugin.accepts r.observedAt = true := hfit.2.2.2.2.2.1
    have hunder : (UpdateProjectSnapshotRequest.shape plugin.accepts).Under
        (updateProjectSnapshotRequest plugin.accepts) r :=
      Shape.under_record <| Fields.under_cons (under_revision (hrev _ List.mem_cons_self)) <|
      Fields.under_cons (under_health _) <| Fields.under_cons (under_key hkey) <| Fields.under_cons (under_id hi) <|
      Fields.under_cons (under_bounded (bounds_of_text hname)) <| Fields.under_cons (under_constrained hobserved) <|
      Fields.under_cons (under_id horg) <| Fields.under_cons (under_progress hprogress) <|
      Fields.under_cons (under_id hp) <| Fields.under_cons (under_bounded (bounds_of_bounded hrevision)) <|
      Fields.under_cons (under_status _) <| Fields.under_cons (under_optionalText _) <|
      Fields.under_cons (under_optionalText _) Fields.under_nil
    exact hunder.2
  | @detachProject r _ _ _ hauth hexpected hmembership =>
    obtain ⟨hkey, hi, -⟩ := validAdminMutation_ok hexpected
    have hp := (Option.filter_eq_some_iff.mp hmembership).2
    have horg := (authorize_ok hauth).ids.1
    have hunder : DetachProjectRequest.shape.Under detachProjectRequest r :=
      Shape.under_record <| Fields.under_cons (under_revision (hrev _ List.mem_cons_self)) <|
      Fields.under_cons (under_revision (hrev _ (List.mem_cons_of_mem _ List.mem_cons_self))) <|
      Fields.under_cons (under_key hkey) <| Fields.under_cons (under_id hi) <| Fields.under_cons (under_id horg) <|
      Fields.under_cons (under_id hp) Fields.under_nil
    exact hunder.2
  | @reorderProjects r _ _ items hauth hexpected hitems =>
    obtain ⟨hkey, hi, -⟩ := validAdminMutation_ok hexpected
    have horg := (authorize_ok hauth).ids.1
    have hlength : r.items.length = items.length := (Json.forall₂_of_mapM hitems).length_eq
    have hunder : ReorderProjectsRequest.shape.Under reorderProjectsRequest r := by
      refine Shape.under_record <| Fields.under_cons (under_revision (hrev _ List.mem_cons_self)) <|
        Fields.under_cons (under_key hkey) <| Fields.under_cons (under_id hi) <|
        Fields.under_cons (Shape.under_items (hlength.symm ▸ hsized) fun item hitem => ?_) <|
        Fields.under_cons (under_id horg) Fields.under_nil
      have hsome := Json.mapM_isSome_iff.mp (Option.isSome_of_eq_some hitems) item hitem
      obtain ⟨input, hinput⟩ := Option.isSome_iff_exists.mp hsome
      obtain ⟨projectId, hid, h1⟩ := Option.bind_eq_some_iff.mp hinput
      obtain ⟨expected, -, h2⟩ := Option.bind_eq_some_iff.mp h1
      obtain ⟨position, hposition, -⟩ := Option.bind_eq_some_iff.mp h2
      have hrevision := hrev _ (List.mem_cons_of_mem _ (List.mem_map_of_mem hitem))
      exact Shape.under_record <| Fields.under_cons (under_revision hrevision) <|
        Fields.under_cons (under_position (of_decide_eq_true (Option.guard_eq_some_iff.mp hposition).2)) <|
        Fields.under_cons (under_id (Option.guard_eq_some_iff.mp hid).2) Fields.under_nil
    exact hunder.2

/-- A request the schema accepts has its revisions spelled as the schema says. -/
theorem Request.spelled {accepts : String → Bool} (h : requestSchema accepts q.operation (q.wire accepts) = true) :
    ∀ revision ∈ q.revisions, matchesRevision revision = true := by
  cases q with
  | createInitiative | getInitiative | listInitiatives | listInitiativeProjects | listInitiativeUpdates
  | readRollup => exact fun _ hr => (List.not_mem_nil hr).elim
  | updateInitiative r =>
    have haccepted : updateInitiativeRequest (UpdateInitiativeRequest.shape.enc r) = true := h
    exact List.forall_mem_singleton.mpr (List.forall₂_cons.mp (Shape.fields_accepted haccepted rfl)).1
  | addInitiativeUpdate r =>
    have haccepted : addInitiativeUpdateRequest (AddInitiativeUpdateRequest.shape.enc r) = true := h
    exact List.forall_mem_singleton.mpr (List.forall₂_cons.mp (Shape.fields_accepted haccepted rfl)).1
  | archiveInitiative r =>
    have haccepted : archiveInitiativeRequest (ArchiveInitiativeRequest.shape.enc r) = true := h
    exact List.forall_mem_singleton.mpr (List.forall₂_cons.mp (Shape.fields_accepted haccepted rfl)).1
  | attachProject r =>
    have haccepted : attachProjectRequest accepts ((AttachProjectRequest.shape accepts).enc r) = true := h
    exact List.forall_mem_singleton.mpr (List.forall₂_cons.mp (Shape.fields_accepted haccepted rfl)).1
  | updateProjectSnapshot r =>
    have haccepted : updateProjectSnapshotRequest accepts ((UpdateProjectSnapshotRequest.shape accepts).enc r) =
        true := h
    exact List.forall_mem_singleton.mpr (List.forall₂_cons.mp (Shape.fields_accepted haccepted rfl)).1
  | detachProject r =>
    have haccepted : detachProjectRequest (DetachProjectRequest.shape.enc r) = true := h
    obtain ⟨hinitiative, hrest⟩ := List.forall₂_cons.mp (Shape.fields_accepted haccepted rfl)
    obtain ⟨hmembership, -⟩ := List.forall₂_cons.mp hrest
    exact List.forall_mem_cons.mpr ⟨hinitiative, List.forall_mem_singleton.mpr hmembership⟩
  | reorderProjects r =>
    have haccepted : reorderProjectsRequest (ReorderProjectsRequest.shape.enc r) = true := h
    obtain ⟨hinitiative, hrest⟩ := List.forall₂_cons.mp (Shape.fields_accepted haccepted rfl)
    obtain ⟨-, hrest⟩ := List.forall₂_cons.mp hrest
    obtain ⟨-, hrest⟩ := List.forall₂_cons.mp hrest
    have hitems := (List.forall₂_cons.mp hrest).1
    refine List.forall_mem_cons.mpr ⟨hinitiative, List.forall_mem_map.mpr fun item hitem => ?_⟩
    have hall := List.all_eq_true.mp (Bool.and_eq_true_iff.mp hitems).2 _ (List.mem_map_of_mem hitem)
    exact (List.forall₂_cons.mp (Shape.fields_accepted hall rfl)).1

end

/-- **What takes effect is published**, exactly as far as its revisions are spelled as the schema says: in every run,
a request that was the first of its key to be committed is one the request schema of its operation accepts, if and
only if its revisions are. What the handlers let pass beyond it, an empty reorder or one of too many items, the
storage refuses. -/
theorem effective_requests_are_published {plugin : ProjectPortfolioPlugin} {w : Sequences} {S : System}
    {x : Committed} {context : Context} {q : Request}
    (h : Txn.Steps Call.code (Admitted plugin) (System.initial w) S) (hx : x ∈ S.commits) (hfresh : x.Fresh)
    (hq : Handler.mutation (q.handle plugin context) = some x.call) (hfit : q.Fit plugin.accepts) :
    requestSchema plugin.accepts q.operation (q.wire plugin.accepts) = true ↔
      ∀ revision ∈ q.revisions, matchesRevision revision = true := by
  have hsized := (fresh_of_fresh (outcome_of_mem (reachable_inv h).chain hx) hfresh).sized
  exact ⟨Request.spelled, fun hrev => (sends_of_mutation hq).published hsized hfit hrev⟩

/-- A project is attached: its request is published. -/
theorem effective_requests_are_published_attached : ∃ (S : System) (x : Committed), x ∈ S.commits ∧ x.Fresh ∧
    Handler.mutation (sampleAttachRequest.handle samplePlugin sampleContext) = some x.call ∧
    requestSchema samplePlugin.accepts "attach_project" (sampleAttachRequest.wire samplePlugin.accepts) = true := by
  have hrun : ((System.initial ⟨0, 0⟩).schedule Call.code 2 sampleMembership).bind (fun S =>
      (S.schedule Call.code 2 []).map fun S' => S'.commits.any fun x => decide (Committed.Fresh x ∧
        Handler.mutation (sampleAttachRequest.handle samplePlugin sampleContext) = some x.call)) = some true := by
    decide +kernel
  obtain ⟨S, S', h, h', hany⟩ := @System.scheduled (Admitted samplePlugin) _ _ _ _ _ _ _ hrun (by decide +kernel)
    (Txn.starts_append admitted_sampleMembership_self Txn.starts_nil)
  obtain ⟨x, hx, hattach⟩ := List.any_eq_true.mp hany
  obtain ⟨hfresh, hmutation⟩ := of_decide_eq_true hattach
  have hfit : sampleAttachRequest.Fit samplePlugin.accepts :=
    ⟨trivial, trivial, trivial, trivial, trivial, rfl, trivial, ⟨by decide, by decide⟩, ⟨by decide, by decide⟩, trivial,
      trivial, trivial, nofun, nofun, trivial⟩
  exact ⟨S', x, hx, hfresh, hmutation,
    (effective_requests_are_published (h.trans h') hx hfresh hmutation hfit).mpr (by decide)⟩

/-! ### What is read -/

theorem reads_optionalText : optionalText.Reads (.nullable .string) := Shape.reads_option reads_text

theorem reads_health : Health.shape.Reads Health.schema := reads_member (by decide)

theorem reads_status : Status.shape.Reads Status.schema := reads_member (by decide)

theorem reads_addInitiativeUpdate : AddInitiativeUpdateRequest.shape.Reads addInitiativeUpdateRequest :=
  Shape.reads_record <| Fields.reads_cons reads_pattern <| Fields.reads_cons reads_health <|
  Fields.reads_cons reads_bounded <| Fields.reads_cons reads_bounded <| Fields.reads_cons reads_bounded <|
  Fields.reads_cons reads_i64 <| Fields.reads_cons reads_bounded <| Fields.reads_cons reads_bounded
  Fields.reads_nil

theorem reads_createInitiative : CreateInitiativeRequest.shape.Reads createInitiativeRequest :=
  Shape.reads_record <| Fields.reads_cons reads_bounded <| Fields.reads_cons reads_bounded <|
  Fields.reads_cons reads_bounded <| Fields.reads_cons reads_bounded <|
  Fields.reads_cons (Shape.reads_option reads_bounded) <| Fields.reads_cons (Shape.reads_option reads_bounded) <|
  Fields.reads_cons reads_optionalText <| Fields.reads_cons reads_optionalText Fields.reads_nil

theorem reads_getInitiative : GetInitiativeRequest.shape.Reads getInitiativeRequest :=
  Shape.reads_record <| Fields.reads_cons reads_bounded <| Fields.reads_cons reads_bounded Fields.reads_nil

theorem reads_listInitiativeUpdates : ListInitiativeUpdatesRequest.shape.Reads listInitiativeUpdatesRequest :=
  Shape.reads_record <| Fields.reads_cons (Shape.reads_option reads_bounded) <| Fields.reads_cons reads_bounded <|
  Fields.reads_cons reads_i64 <| Fields.reads_cons reads_bounded Fields.reads_nil

theorem reads_listInitiatives : ListInitiativesRequest.shape.Reads listInitiativesRequest :=
  Shape.reads_record <| Fields.reads_cons (Shape.reads_option reads_bounded) <| Fields.reads_cons reads_flag <|
  Fields.reads_cons reads_i64 <| Fields.reads_cons reads_bounded Fields.reads_nil

theorem reads_readRollup : ReadRollupRequest.shape.Reads readRollupRequest :=
  Shape.reads_record <| Fields.reads_cons reads_bounded <| Fields.reads_cons reads_bounded Fields.reads_nil

theorem reads_updateInitiative : UpdateInitiativeRequest.shape.Reads updateInitiativeRequest :=
  Shape.reads_record <| Fields.reads_cons reads_pattern <| Fields.reads_cons reads_bounded <|
  Fields.reads_cons reads_bounded <| Fields.reads_cons (Shape.reads_option reads_bounded) <|
  Fields.reads_cons reads_bounded <| Fields.reads_cons (Shape.reads_option reads_bounded) <|
  Fields.reads_cons (Shape.reads_option reads_bounded) <| Fields.reads_cons reads_optionalText <|
  Fields.reads_cons reads_optionalText Fields.reads_nil

theorem reads_archiveInitiative : ArchiveInitiativeRequest.shape.Reads archiveInitiativeRequest :=
  Shape.reads_record <| Fields.reads_cons reads_pattern <| Fields.reads_cons reads_bounded <|
  Fields.reads_cons reads_bounded <| Fields.reads_cons reads_bounded Fields.reads_nil

theorem reads_attachProject (accepts : String → Bool) :
    (AttachProjectRequest.shape accepts).Reads (attachProjectRequest accepts) :=
  Shape.reads_record <| Fields.reads_cons reads_pattern <| Fields.reads_cons reads_health <|
  Fields.reads_cons reads_bounded <| Fields.reads_cons reads_bounded <| Fields.reads_cons reads_bounded <|
  Fields.reads_cons reads_constrained <| Fields.reads_cons reads_bounded <| Fields.reads_cons reads_i64 <|
  Fields.reads_cons reads_i64 <| Fields.reads_cons reads_bounded <| Fields.reads_cons reads_bounded <|
  Fields.reads_cons reads_status <| Fields.reads_cons reads_optionalText <| Fields.reads_cons reads_optionalText
  Fields.reads_nil

theorem reads_detachProject : DetachProjectRequest.shape.Reads detachProjectRequest :=
  Shape.reads_record <| Fields.reads_cons reads_pattern <| Fields.reads_cons reads_pattern <|
  Fields.reads_cons reads_bounded <| Fields.reads_cons reads_bounded <| Fields.reads_cons reads_bounded <|
  Fields.reads_cons reads_bounded Fields.reads_nil

theorem reads_reorderProjects : ReorderProjectsRequest.shape.Reads reorderProjectsRequest :=
  Shape.reads_record <| Fields.reads_cons reads_pattern <| Fields.reads_cons reads_bounded <|
  Fields.reads_cons reads_bounded <| Fields.reads_cons (Shape.reads_items <| Shape.reads_record <|
    Fields.reads_cons reads_pattern <| Fields.reads_cons reads_i64 <|
    Fields.reads_cons reads_bounded Fields.reads_nil) <| Fields.reads_cons reads_bounded Fields.reads_nil

theorem reads_updateProjectSnapshot (accepts : String → Bool) :
    (UpdateProjectSnapshotRequest.shape accepts).Reads (updateProjectSnapshotRequest accepts) :=
  Shape.reads_record <| Fields.reads_cons reads_pattern <| Fields.reads_cons reads_health <|
  Fields.reads_cons reads_bounded <| Fields.reads_cons reads_bounded <| Fields.reads_cons reads_bounded <|
  Fields.reads_cons reads_constrained <| Fields.reads_cons reads_bounded <| Fields.reads_cons reads_i64 <|
  Fields.reads_cons reads_bounded <| Fields.reads_cons reads_bounded <| Fields.reads_cons reads_status <|
  Fields.reads_cons reads_optionalText <| Fields.reads_cons reads_optionalText Fields.reads_nil

theorem reads_listInitiativeProjects : ListInitiativeProjectsRequest.shape.Reads listInitiativeProjectsRequest :=
  Shape.reads_record <| Fields.reads_cons (Shape.reads_option reads_i64) <| Fields.reads_cons reads_bounded <|
  Fields.reads_cons reads_i64 <| Fields.reads_cons reads_bounded Fields.reads_nil

/-- **What is published is read** by the agent tools: arguments that the input schema of a tool accepts, the request
schema of its operation, are read as a request of the operation, exactly if their numbers are integers of 64 bits. -/
theorem published_requests_are_read {accepts : String → Bool} {operation : String} {w : Wire}
    (h : requestSchema accepts operation w = true) :
    (∃ q, Request.read accepts operation w = some q ∧ q.operation = operation ∧ q.Fit accepts) ↔ w.Narrow := by
  have hread : ∀ {α : Type} {s : Shape α} {schema : Schema} {request : α → Request},
      (∀ w, Request.read accepts operation w = (s.dec w).map request) → s.Reads schema → schema w = true →
      ((∃ q, Request.read accepts operation w = some q ∧ q.operation = operation ∧ q.Fit accepts) ↔ w.Narrow) := by
    intro α s schema request hdec hreads hw
    rw [← hreads w hw]
    constructor
    · rintro ⟨q, hq, -⟩
      rw [hdec] at hq
      obtain ⟨a, ha, -⟩ := Option.map_eq_some_iff.mp hq
      exact ⟨a, ha⟩
    · rintro ⟨a, ha⟩
      have hq : Request.read accepts operation w = some (request a) := by rw [hdec, ha, Option.map_some]
      exact ⟨request a, hq, Request.fit_of_read hq⟩
  unfold requestSchema at h
  split at h
  · exact hread (fun _ => rfl) reads_createInitiative h
  · exact hread (fun _ => rfl) reads_getInitiative h
  · exact hread (fun _ => rfl) reads_listInitiatives h
  · exact hread (fun _ => rfl) reads_updateInitiative h
  · exact hread (fun _ => rfl) reads_listInitiativeProjects h
  · exact hread (fun _ => rfl) reads_addInitiativeUpdate h
  · exact hread (fun _ => rfl) reads_listInitiativeUpdates h
  · exact hread (fun _ => rfl) reads_readRollup h
  · exact hread (fun _ => rfl) reads_archiveInitiative h
  · exact hread (fun _ => rfl) (reads_attachProject accepts) h
  · exact hread (fun _ => rfl) (reads_updateProjectSnapshot accepts) h
  · exact hread (fun _ => rfl) reads_detachProject h
  · exact hread (fun _ => rfl) reads_reorderProjects h
  · cases h

/-- A list of so many projects after the position. -/
def sampleAfter (limit after : Wire) : Wire := .obj [
  ("organization_id", .str "acme"), ("initiative_id", .str "alpha"), ("limit", limit), ("after_position", after)]

/-- After the last position of 64 bits it is read, after the next one not, nor if the limit is written `10.0`. -/
theorem published_requests_are_read_beyond :
    (∃ q, Request.read samplePlugin.accepts "list_initiative_projects"
      (sampleAfter (.int 10) (.int 9223372036854775807)) = some q ∧ q.operation = "list_initiative_projects" ∧
          q.Fit samplePlugin.accepts) ∧
    (¬ ∃ q, Request.read samplePlugin.accepts "list_initiative_projects"
      (sampleAfter (.int 10) (.int 9223372036854775808)) = some q ∧ q.operation = "list_initiative_projects" ∧
      q.Fit samplePlugin.accepts) ∧
    ¬ ∃ q, Request.read samplePlugin.accepts "list_initiative_projects" (sampleAfter (.float 10) .null) = some q ∧
      q.operation = "list_initiative_projects" ∧ q.Fit samplePlugin.accepts := by
  refine ⟨(published_requests_are_read (by decide +kernel)).mpr (.obj ?_), fun hread => ?_, fun hread => ?_⟩
  · rintro f hf
    simp only [List.mem_cons, List.not_mem_nil, or_false] at hf
    rcases hf with rfl | rfl | rfl | rfl
    · exact .str
    · exact .str
    · exact .int (by decide)
    · exact .int (by decide)
  · cases (published_requests_are_read (by decide +kernel)).mp hread with
    | obj hall =>
      cases hall ("after_position", .int 9223372036854775808) (by simp) with
      | int hbound => exact absurd hbound.2 (by decide)
  · cases (published_requests_are_read (by decide +kernel)).mp hread with
    | obj hall => cases hall ("limit", .float 10) (by simp)

end Portfolio
