/-
# What the handlers admit

A handler refuses a request, or asks the storage once, after all of its checks
and for the organization of its request, and answers with what the record
converts to (`Handler.Asks`). What it has checked of a mutation by then is
`Issued`: who is authorized, the hash of the request, the organization, the
bound on positions. A call the handlers issue is `Admitted`, and a run of the
system whose attempts are all admitted is one of the plugin.

Key definitions: `Handler.Asks`, `Issued`, `Admitted`, `Record.respond`.
Key theorems: `handle_asks`, `admitted_issued`, `membership_representation`.
-/
import Portfolio.Handlers
import Portfolio.Representation

namespace Portfolio

open Txn Txn.Prog

/-! ### What a request asks for -/

namespace Request

def organizationId : Request → String
  | createInitiative r => r.organizationId
  | getInitiative r => r.organizationId
  | listInitiatives r => r.organizationId
  | updateInitiative r => r.organizationId
  | listInitiativeProjects r => r.organizationId
  | addInitiativeUpdate r => r.organizationId
  | listInitiativeUpdates r => r.organizationId
  | readRollup r => r.organizationId
  | archiveInitiative r => r.organizationId
  | attachProject r => r.organizationId
  | updateProjectSnapshot r => r.organizationId
  | detachProject r => r.organizationId
  | reorderProjects r => r.organizationId

def operation : Request → String
  | createInitiative _ => "create_initiative"
  | getInitiative _ => "get_initiative"
  | listInitiatives _ => "list_initiatives"
  | updateInitiative _ => "update_initiative"
  | listInitiativeProjects _ => "list_initiative_projects"
  | addInitiativeUpdate _ => "add_initiative_update"
  | listInitiativeUpdates _ => "list_initiative_updates"
  | readRollup _ => "read_rollup"
  | archiveInitiative _ => "archive_initiative"
  | attachProject _ => "attach_project"
  | updateProjectSnapshot _ => "update_project_snapshot"
  | detachProject _ => "detach_project"
  | reorderProjects _ => "reorder_projects"

/-- The operation is one of the admin capability. -/
def isAdmin : Request → Bool
  | archiveInitiative _ => true
  | attachProject _ => true
  | updateProjectSnapshot _ => true
  | detachProject _ => true
  | reorderProjects _ => true
  | _ => false

/-- The JSON a mutating request is hashed as; a read is not. -/
def json : Request → Option Json
  | createInitiative r => some r.toJson
  | updateInitiative r => some r.toJson
  | addInitiativeUpdate r => some r.toJson
  | archiveInitiative r => some r.toJson
  | attachProject r => some r.toJson
  | updateProjectSnapshot r => some r.toJson
  | detachProject r => some r.toJson
  | reorderProjects r => some r.toJson
  | _ => none

def capability (q : Request) : String := if q.isAdmin then adminCapability else portfolioCapability

def permission (q : Request) : String :=
  if q.isAdmin then portfolioAdmin else if q.json.isSome then portfolioWrite else portfolioRead

/-- The authorization the handler of the request begins with. -/
def authorize (plugin : ProjectPortfolioPlugin) (context : Context) (q : Request) :
    Except AuthorizationFailure Authorized :=
  plugin.authorize context (if q.isAdmin then plugin.adminCallers else plugin.portfolioCallers) q.capability
    q.operation q.organizationId q.permission

/-- The organization is a field of the hashed JSON. -/
theorem json_organizationId {q : Request} {j : Json} (h : q.json = some j) :
    j.field "organization_id" = some (.str q.organizationId) := by
  cases q <;> cases h <;> rfl

end Request

def Storage.organizationId {α : Type} : Storage α → String
  | .createInitiative _ v => v.organizationId
  | .updateInitiative _ o _ _ _ => o
  | .addUpdate _ o _ _ _ _ _ _ => o
  | .archiveInitiative _ o _ _ => o
  | .attachProject _ o _ _ _ _ => o
  | .updateProjectSnapshot _ o _ _ _ => o
  | .detachProject _ o _ _ _ _ => o
  | .reorderProjects _ o _ _ _ => o
  | .getInitiative o _ => o
  | .listInitiatives o _ _ _ => o
  | .listUpdates o _ _ _ => o
  | .listProjects o _ _ _ => o
  | .readRollup o _ _ => o

/-- The call is one for the mutating request: who asks is authorized for it, and the hash, the
organization and the operation are the request's. -/
structure Issued (plugin : ProjectPortfolioPlugin) (context : Context) (q : Request) (c : Call) : Prop where
  authorized : q.authorize plugin context = .ok ⟨c.command.caller, c.command.actor⟩
  hash : ∃ j, q.json = some j ∧ c.command.hash = plugin.digest j
  organization : c.op.organizationId = q.organizationId
  operation : c.op.name = q.operation
  within : c.op.Within 10000

/-- The response a mutation's record converts to. -/
def Record.respond (accepts : String → Bool) : Record → Option Response
  | .initiative r => (CreateInitiativeResponse.fromJson accepts r.toJson).map .initiative
  | .update r => (AddInitiativeUpdateResponse.fromJson accepts r.toJson).map .update
  | .archive r => (ArchiveInitiativeResponse.fromJson accepts r.toJson).map .archive
  | .project r => (AttachProjectResponse.fromJson accepts r.toJson).map .project
  | .detach r => (DetachProjectResponse.fromJson r.toJson).map .detach
  | .reorder r => (ReorderProjectsResponse.fromJson r.toJson).map .reorder

/-- The storage function is asked for the request, and what it answers is converted so. -/
structure Storage.For (plugin : ProjectPortfolioPlugin) (context : Context) (q : Request) {β : Type}
    (s : Storage β) (answer : β → Option Response) : Prop where
  organization : s.organizationId = q.organizationId
  issued : ∀ c wrap, s.call = some (c, wrap) → Issued plugin context q c
  respond : ∀ c wrap, s.call = some (c, wrap) → ∀ a, answer a = (wrap a).respond plugin.accepts
  mutation : q.json.isSome = s.call.isSome

/-- The mutation a handler asks for, when it has passed its checks. -/
def Handler.mutation {ε α : Type} : Handler ε α → Option Call
  | .call s _ => s.call.map (·.1)
  | _ => none

/-- A handler of the plugin issues the call. -/
def Admitted (plugin : ProjectPortfolioPlugin) (c : Call) : Prop :=
  ∃ context q, Handler.mutation (Request.handle plugin context q) = some c

/-! ### The steps of a handler -/

/-- The handler refuses the request, or asks the storage once and answers with what the record
converts to. -/
def Handler.Asks {ε α : Type} (Q : ∀ β, Storage β → (β → Option α) → Prop) (h : Handler ε α) : Prop :=
  (∃ e, h = .throw e) ∨
    ∃ β, ∃ (s : Storage β) (map : DomainFailure → ε) (answer : β → Option α), Q β s answer ∧
      h = stored s map >>= fun a => wireCast (answer a)

section
variable {ε α β γ : Type} [OperationError ε] {Q : ∀ β, Storage β → (β → Option α) → Prop} {f : γ → Handler ε α}

theorem asks_authorized {r : Except AuthorizationFailure Authorized} {f : Authorized → Handler ε α}
    (h : ∀ auth, r = .ok auth → (f auth).Asks Q) : Handler.Asks Q (authorized r >>= f) := by
  cases r with
  | ok auth => exact h auth rfl
  | error e => cases e <;> exact Or.inl ⟨_, rfl⟩

theorem asks_orInvalid {x : Option γ} (h : ∀ a, x = some a → (f a).Asks Q) :
    Handler.Asks Q (orInvalid x >>= f) := by
  cases x with
  | none => exact Or.inl ⟨_, rfl⟩
  | some a => exact h a rfl

theorem asks_valid {b : Bool} {f : Unit → Handler ε α} (h : b = true → (f ()).Asks Q) :
    Handler.Asks Q (valid b >>= f) := by
  cases b with
  | false => exact Or.inl ⟨_, rfl⟩
  | true => exact h rfl

omit [OperationError ε] in
theorem asks_prepared {plugin : ProjectPortfolioPlugin} {f : Unit → Handler ε α} (h : (f ()).Asks Q) :
    Handler.Asks Q (prepared plugin >>= f) := by
  unfold prepared
  cases plugin.active with
  | false => exact Or.inl ⟨_, rfl⟩
  | true => exact h

omit [OperationError ε] in
theorem asks_stored {s : Storage β} {map : DomainFailure → ε} {answer : β → Option α} (h : Q β s answer) :
    Handler.Asks Q (stored s map >>= fun a => wireCast (answer a)) := Or.inr ⟨β, s, map, answer, h, rfl⟩

omit [OperationError ε] in
/-- A conversion with a step after it. -/
theorem asks_stored_pure {s : Storage β} {map : DomainFailure → ε} {answer : β → Option γ} {g : β → γ → α}
    (h : Q β s fun a => (answer a).map (g a)) :
    Handler.Asks Q (stored s map >>= fun a => wireCast (answer a) >>= fun b => pure (g a b)) := by
  refine Or.inr ⟨β, s, map, _, h, congrArg (stored s map >>= ·) (funext fun a => ?_)⟩
  cases answer a <;> rfl

omit [OperationError ε] in
theorem asks_as {h : Handler ε β} {error : ε → DomainError} {response : β → Response}
    {Q : ∀ γ, Storage γ → (γ → Option Response) → Prop}
    (hq : h.Asks fun γ s answer => Q γ s fun a => (answer a).map response) : (h.as error response).Asks Q := by
  rcases hq with ⟨e, rfl⟩ | ⟨γ, s, map, answer, hq, rfl⟩
  · exact Or.inl ⟨_, rfl⟩
  · refine Or.inr ⟨γ, s, fun failure => error (map failure), _, hq, congrArg (Prog.call s) (funext fun r => ?_)⟩
    cases r with
    | error e => cases e <;> rfl
    | ok a => cases ha : answer a <;> simp only [Prog.bind, ha] <;> rfl

end

/-! ### What each handler asks the storage -/

theorem reorderInput_position {item : ReorderProjectsRequestItemsItem} {input : ReorderInput}
    (h : ProjectPortfolioPlugin.reorderInput item = some input) : input.position ≤ 10000 := by
  obtain ⟨_, -, h1⟩ := Option.bind_eq_some_iff.mp h
  obtain ⟨_, -, h2⟩ := Option.bind_eq_some_iff.mp h1
  obtain ⟨position, hp, h3⟩ := Option.bind_eq_some_iff.mp h2
  obtain rfl := Option.some.inj h3
  obtain ⟨rfl, hbound⟩ := Option.guard_eq_some_iff.mp hp
  exact (of_decide_eq_true hbound).2

/-- **A handler asks the storage for its own request only**, and for a mutation only what it has
authorized and checked. -/
theorem handle_asks (plugin : ProjectPortfolioPlugin) (context : Context) (q : Request) :
    (q.handle plugin context).Asks fun _ s answer => s.For plugin context q answer := by
  have hfor : ∀ {β : Type} {s : Storage β} {answer : β → Option Response} {auth : Authorized} {c : Call}
      {wrap : β → Record}, q.authorize plugin context = .ok auth → s.call = some (c, wrap) →
      s.organizationId = q.organizationId → c.command.caller = auth.caller → c.command.actor = auth.actor →
      (∃ j, q.json = some j ∧ c.command.hash = plugin.digest j) → c.op.organizationId = q.organizationId →
      c.op.name = q.operation → c.op.Within 10000 → q.json.isSome = true →
      (∀ a, answer a = (wrap a).respond plugin.accepts) → s.For plugin context q answer := by
    intro β s answer auth c wrap hauth hcall ho hcaller hactor hhash horg hname hwithin hjson hrespond
    have hsame : ∀ c' wrap', s.call = some (c', wrap') → c = c' ∧ wrap = wrap' := fun c' wrap' hc' =>
      Prod.mk.inj (Option.some.inj (hcall.symm.trans hc'))
    refine ⟨ho, fun c' wrap' hc' => ?_, fun c' wrap' hc' a => ?_, by rw [hjson, hcall]; rfl⟩
    · obtain ⟨rfl, -⟩ := hsame c' wrap' hc'
      exact ⟨by rw [hauth, hcaller, hactor], hhash, horg, hname, hwithin⟩
    · obtain ⟨-, rfl⟩ := hsame c' wrap' hc'
      exact hrespond a
  have hread : ∀ {β : Type} {s : Storage β} {answer : β → Option Response}, s.call = none →
      s.organizationId = q.organizationId → q.json = none → s.For plugin context q answer := by
    intro β s answer hcall ho hjson
    have hnone : ∀ c wrap, s.call = some (c, wrap) → False := by
      intro c wrap hc
      rw [hcall] at hc
      cases hc
    refine ⟨ho, fun c wrap hc => (hnone c wrap hc).elim, fun c wrap hc => (hnone c wrap hc).elim, ?_⟩
    rw [hjson, hcall]
    rfl
  cases q with
  | createInitiative r =>
    refine asks_as (asks_authorized fun auth hauth => ?_)
    refine asks_orInvalid fun _ _ => asks_valid fun _ => asks_prepared (asks_stored ?_)
    exact hfor hauth rfl rfl rfl rfl ⟨_, rfl, rfl⟩ rfl rfl trivial rfl fun _ => rfl
  | getInitiative r =>
    refine asks_as (asks_authorized fun _ _ => ?_)
    exact asks_valid fun _ => asks_prepared (asks_stored (hread rfl rfl rfl))
  | listInitiatives r =>
    refine asks_as (asks_authorized fun _ _ => ?_)
    exact asks_orInvalid fun _ _ => asks_valid fun _ => asks_prepared (asks_stored_pure (hread rfl rfl rfl))
  | updateInitiative r =>
    refine asks_as (asks_authorized fun auth hauth => ?_)
    refine asks_orInvalid fun _ _ => asks_orInvalid fun _ _ => asks_valid fun _ => asks_prepared (asks_stored ?_)
    exact hfor hauth rfl rfl rfl rfl ⟨_, rfl, rfl⟩ rfl rfl trivial rfl fun _ => rfl
  | listInitiativeProjects r =>
    refine asks_as (asks_authorized fun _ _ => ?_)
    exact asks_valid fun _ => asks_prepared (asks_stored_pure (hread rfl rfl rfl))
  | addInitiativeUpdate r =>
    refine asks_as (asks_authorized fun auth hauth => ?_)
    refine asks_orInvalid fun _ _ => asks_valid fun _ => asks_prepared (asks_stored ?_)
    exact hfor hauth rfl rfl rfl rfl ⟨_, rfl, rfl⟩ rfl rfl trivial rfl fun _ => rfl
  | listInitiativeUpdates r =>
    refine asks_as (asks_authorized fun _ _ => ?_)
    exact asks_orInvalid fun _ _ => asks_valid fun _ => asks_prepared (asks_stored_pure (hread rfl rfl rfl))
  | readRollup r =>
    refine asks_as (asks_authorized fun _ _ => ?_)
    exact asks_valid fun _ => asks_prepared (asks_stored (hread rfl rfl rfl))
  | archiveInitiative r =>
    refine asks_as (asks_authorized fun auth hauth => ?_)
    refine asks_orInvalid fun _ _ => asks_prepared (asks_stored ?_)
    exact hfor hauth rfl rfl rfl rfl ⟨_, rfl, rfl⟩ rfl rfl trivial rfl fun _ => rfl
  | attachProject r =>
    refine asks_as (asks_authorized fun auth hauth => ?_)
    refine asks_orInvalid fun _ _ => asks_orInvalid fun _ _ => asks_valid fun hposition =>
        asks_prepared (asks_stored ?_)
    exact hfor hauth rfl rfl rfl rfl ⟨_, rfl, rfl⟩ rfl rfl (of_decide_eq_true hposition).2 rfl fun _ => rfl
  | updateProjectSnapshot r =>
    refine asks_as (asks_authorized fun auth hauth => ?_)
    refine asks_orInvalid fun _ _ => asks_orInvalid fun _ _ => asks_prepared (asks_stored ?_)
    exact hfor hauth rfl rfl rfl rfl ⟨_, rfl, rfl⟩ rfl rfl trivial rfl fun _ => rfl
  | detachProject r =>
    refine asks_as (asks_authorized fun auth hauth => ?_)
    refine asks_orInvalid fun _ _ => asks_orInvalid fun _ _ => asks_prepared (asks_stored ?_)
    exact hfor hauth rfl rfl rfl rfl ⟨_, rfl, rfl⟩ rfl rfl trivial rfl fun _ => rfl
  | reorderProjects r =>
    refine asks_as (asks_authorized fun auth hauth => ?_)
    refine asks_orInvalid fun _ _ => asks_orInvalid fun items hitems => asks_prepared (asks_stored ?_)
    have hwithin : ∀ item ∈ items, item.position ≤ 10000 := by
      intro item hitem
      obtain ⟨input, -, hinput⟩ := Json.mem_of_mapM hitems item hitem
      exact reorderInput_position hinput
    exact hfor hauth rfl rfl rfl rfl ⟨_, rfl, rfl⟩ rfl rfl hwithin rfl fun _ => rfl

/-- What a handler issues has passed its checks. -/
theorem issued_of_mutation {plugin : ProjectPortfolioPlugin} {context : Context} {q : Request} {c : Call}
    (h : Handler.mutation (q.handle plugin context) = some c) : Issued plugin context q c := by
  rcases handle_asks plugin context q with ⟨e, he⟩ | ⟨β, s, map, answer, hfor, he⟩
  · rw [he] at h
    cases h
  · rw [he] at h
    obtain ⟨⟨c', wrap⟩, hcall, rfl⟩ := Option.map_eq_some_iff.mp h
    exact hfor.issued c' wrap hcall

theorem admitted_issued {plugin : ProjectPortfolioPlugin} {c : Call} (h : Admitted plugin c) :
    ∃ context q, Issued plugin context q c := by
  obtain ⟨context, q, hc⟩ := h
  exact ⟨context, q, issued_of_mutation hc⟩

/-! ### Memberships -/

/-- A window with both ends is in order. -/
def Ordered (start target : Option Date) : Prop :=
  ∀ first last, start = some first → target = some last → last.before first = false

theorem ordered_of_check {start target : Option Date} (h : windowCheck start target = true) : Ordered start target := by
  rintro first last rfl rfl
  simpa [windowCheck] using h

theorem progressCheck_iff {progress : ℤ} : progressCheck progress = true ↔ 0 ≤ progress ∧ progress ≤ 100 :=
  decide_eq_true_iff

theorem InitiativeRow.checks_iff {r : InitiativeRow} : r.checks = true ↔
    0 < r.revision ∧ healthCheck r.health = true ∧ progressCheck r.progress = true ∧
      windowCheck r.targetStart r.targetDate = true := by
  simp only [InitiativeRow.checks, Bool.and_eq_true, decide_eq_true_eq, and_assoc]

theorem ProjectRow.checks_iff {r : ProjectRow} : r.checks = true ↔
    0 ≤ r.position ∧ 0 < r.membershipRevision ∧ statusCheck r.statusCategory = true ∧ healthCheck r.health = true ∧
      progressCheck r.progress = true ∧ windowCheck r.targetStart r.targetDate = true := by
  simp only [ProjectRow.checks, Bool.and_eq_true, decide_eq_true_eq, and_assoc]

/-- **How memberships are represented**, in every state the plugin reaches: of each initiative the
project ids and the positions are distinct, there are at most 500, each has its position in 0..=10000,
a revision from 1 on, its progress in 0..=100, its window in order and its initiative; the windows and
progress of the initiatives and the progress of the updates keep the same bounds; and no membership is
at a staged position. -/
theorem membership_representation {plugin : ProjectPortfolioPlugin} {w : Sequences} {S : System}
    (h : Txn.Steps Call.code (Admitted plugin) (System.initial w) S) :
    (∀ o i, ((S.db.projectsOf o i).map (·.projectId)).Nodup ∧ ((S.db.projectsOf o i).map (·.position)).Nodup ∧
      (S.db.projectsOf o i).length ≤ 500) ∧
    (∀ p ∈ S.db.projects, (0 ≤ p.position ∧ p.position ≤ 10000) ∧ 1 ≤ p.membershipRevision ∧
      (0 ≤ p.progress ∧ p.progress ≤ 100) ∧ Ordered p.targetStart p.targetDate ∧
      ∃ r ∈ S.db.initiatives, r.organizationId = p.organizationId ∧ r.initiativeId = p.initiativeId) ∧
    (∀ r ∈ S.db.initiatives, (0 ≤ r.progress ∧ r.progress ≤ 100) ∧ Ordered r.targetStart r.targetDate) ∧
    (∀ u ∈ S.db.updates, 0 ≤ u.progress ∧ u.progress ≤ 100) ∧
    (∀ p ∈ S.db.projects, ∀ q : ProjectRow, 0 ≤ q.position → p ≠ Sql.staged q) := by
  have hinv := reachable_inv h
  have hrep := fun o i => represented_of_history hinv.chain o i
  have hwithin := @within_of_history _ _ 10000 hinv.chain fun x hx => by
    obtain ⟨context, q, hissued⟩ := admitted_issued (hinv.admitted x hx)
    exact hissued.within
  have hrow : ∀ p ∈ S.db.projects, (0 ≤ p.position ∧ p.position ≤ 10000) ∧ p.checks = true ∧
      ∃ r ∈ S.db.initiatives, r.organizationId = p.organizationId ∧ r.initiativeId = p.initiativeId := by
    intro p hp
    have hmem : p ∈ S.db.projectsOf p.organizationId p.initiativeId := mem_projectsOf.mpr ⟨hp, rfl, rfl⟩
    have hchecks := (hrep p.organizationId p.initiativeId).checked p hmem
    refine ⟨⟨(ProjectRow.checks_iff.mp hchecks).1, hwithin p hp⟩, hchecks, ?_⟩
    cases hi : S.db.initiative p.organizationId p.initiativeId with
    | none =>
      rw [((hrep p.organizationId p.initiativeId).owned hi).1] at hmem
      exact (List.not_mem_nil hmem).elim
    | some r => exact ⟨r, initiative_mem hi⟩
  refine ⟨fun o i => ⟨(hrep o i).projects, (hrep o i).positions, (hrep o i).count⟩, fun p hp => ?_, fun r hr => ?_,
    fun u hu => ?_, fun p hp q hq he => ?_⟩
  · obtain ⟨hposition, hchecks, hparent⟩ := hrow p hp
    obtain ⟨-, hrevision, -, -, hprogress, hwindow⟩ := ProjectRow.checks_iff.mp hchecks
    exact ⟨hposition, hrevision, progressCheck_iff.mp hprogress, ordered_of_check hwindow, hparent⟩
  · obtain ⟨-, -, hprogress, hwindow⟩ := InitiativeRow.checks_iff.mp (checked_of_history hinv.chain r hr)
    exact ⟨progressCheck_iff.mp hprogress, ordered_of_check hwindow⟩
  · have hmem : u ∈ S.db.updatesOf u.organizationId u.initiativeId :=
      List.mem_filter.mpr ⟨hu, decide_eq_true ⟨rfl, rfl⟩⟩
    exact progressCheck_iff.mp ((hrep u.organizationId u.initiativeId).progress u hmem)
  · have hle := (hrow p hp).1.2
    subst he
    have hstaged : (Sql.staged q).position = q.position + 1000000 := rfl
    omega

def sampleCreateRequest : Request :=
  .createInitiative ⟨"create", "alpha", "Roadmap", "acme", none, none, none, none⟩

def sampleAttachRequest : Request :=
  .attachProject ⟨"1", .onTrack, "attach", "alpha", "Site", "2026-08-30T00:00:00Z", "acme", 0, 10, "site", "r1",
    .started, none, none⟩

/-- An attach of a second project. -/
def sampleAppRequest : Request :=
  .attachProject ⟨"2", .onTrack, "attach-app", "alpha", "App", "2026-08-30T00:00:00Z", "acme", 1, 10, "app", "r1",
    .started, none, none⟩

/-- Another organization's initiative with the same id. -/
def sampleOtherRequest : Request :=
  .createInitiative ⟨"create", "alpha", "Roadmap", "globex", none, none, none, none⟩

/-- The SHA-256 digests of the requests above. -/
def sampleDigests : List (Request × List UInt8) := [
  (sampleCreateRequest, [214, 236, 80, 140, 19, 148, 189, 195, 117, 90, 210, 140, 172, 188, 36, 120, 71, 94, 159, 91,
    161, 65, 133, 234, 127, 248, 155, 22, 148, 101, 220, 170]),
  (sampleAttachRequest, [225, 97, 182, 243, 183, 78, 230, 213, 245, 73, 80, 64, 119, 88, 216, 223, 145, 142, 191, 91,
    131, 85, 21, 165, 4, 32, 201, 59, 174, 159, 48, 154]),
  (sampleAppRequest, [28, 232, 133, 13, 30, 176, 180, 172, 187, 73, 32, 165, 129, 4, 175, 229, 56, 191, 164, 122, 176,
    75, 131, 180, 201, 32, 92, 195, 188, 212, 42, 188]),
  (sampleOtherRequest, [217, 128, 93, 165, 82, 11, 186, 102, 208, 86, 174, 41, 193, 113, 31, 116, 83, 45, 127, 23, 160,
    75, 163, 142, 193, 229, 98, 82, 99, 171, 32, 78])]

/-- An instance of the plugin. -/
def samplePlugin : ProjectPortfolioPlugin where
  portfolioCallers := ["planner"]
  adminCallers := ["planner"]
  keyValid := true
  active := true
  digest j := ((sampleDigests.find? fun d => d.1.json = some j).map (·.2)).getD []
  parseRfc3339 value := if value = "2026-08-30T00:00:00Z" then some 1788048000000000 else none
  accepts _ := true

/-- A call whose assertion verifies and whose providers agree. -/
def sampleContext : Context where
  callerInstance := some "planner"
  actor _ _ := some "ann"
  membership _ _ := .ok true
  access _ _ _ _ := .ok true
  now := 0

/-- The call of a request in the sample context. -/
def sampleMutation (q : Request) : Call :=
  (Handler.mutation (q.handle samplePlugin sampleContext)).getD (sampleCreate "")

theorem admitted_sample {q : Request} (h : (Handler.mutation (q.handle samplePlugin sampleContext)).isSome = true) :
    Admitted samplePlugin (sampleMutation q) := by
  obtain ⟨c, hc⟩ := Option.isSome_iff_exists.mp h
  rw [sampleMutation, hc]
  exact ⟨_, _, hc⟩

/-- A create and an attach through the handlers. -/
def sampleMembership : List (ℕ × Txn.Move Tick Call) :=
  Txn.attempt 0 (sampleMutation sampleCreateRequest) (sampleTicks 1 6) ++
    Txn.attempt 1 (sampleMutation sampleAttachRequest) (sampleTicks 1 9)

theorem admitted_sampleMembership {plugin : ProjectPortfolioPlugin}
    (hcreate : Admitted plugin (sampleMutation sampleCreateRequest))
    (hattach : Admitted plugin (sampleMutation sampleAttachRequest)) :
    ∀ x ∈ sampleMembership, ∀ c, x.2 = .start c → Admitted plugin c :=
  Txn.starts_append (Txn.starts_attempt hcreate) (Txn.starts_attempt hattach)

theorem admitted_sampleMembership_self : ∀ x ∈ sampleMembership, ∀ c, x.2 = .start c → Admitted samplePlugin c :=
  admitted_sampleMembership (admitted_sample (by decide +kernel)) (admitted_sample (by decide +kernel))

/-- Two projects are attached, each where it was asked for. -/
theorem membership_representation_attached : ∃ S : System, S.db.projects.map (·.position) = [0, 1] ∧
    ((S.db.projectsOf "acme" "alpha").map (·.projectId)).Nodup ∧
    ((S.db.projectsOf "acme" "alpha").map (·.position)).Nodup ∧ (S.db.projectsOf "acme" "alpha").length ≤ 500 ∧
    ∀ p ∈ S.db.projects, (0 ≤ p.position ∧ p.position ≤ 10000) ∧ 1 ≤ p.membershipRevision := by
  have hrun : ((System.initial ⟨0, 0⟩).schedule Call.code 3 (sampleMembership ++
      Txn.attempt 2 (sampleMutation sampleAppRequest) (sampleTicks 1 9))).bind (fun S =>
      (S.schedule Call.code 3 []).map fun S' => S'.db.projects.map (·.position)) = some [0, 1] := by decide +kernel
  have hadmitted : ∀ x ∈ sampleMembership ++ Txn.attempt 2 (sampleMutation sampleAppRequest) (sampleTicks 1 9),
      ∀ c, x.2 = .start c → Admitted samplePlugin c :=
    Txn.starts_append admitted_sampleMembership_self (Txn.starts_attempt (admitted_sample (by decide +kernel)))
  obtain ⟨S, S', h, h', hfacts⟩ := @System.scheduled (Admitted samplePlugin) _ _ _ _ _ _ _ hrun (by decide +kernel)
    (Txn.starts_append hadmitted Txn.starts_nil)
  obtain ⟨hmembers, hrows, -⟩ := membership_representation (h.trans h')
  obtain ⟨hids, hpositions, hcount⟩ := hmembers "acme" "alpha"
  exact ⟨S', hfacts, hids, hpositions, hcount, fun p hp => ⟨(hrows p hp).1, (hrows p hp).2.1⟩⟩

end Portfolio
