/-
# The agent tools

Two plugins offer the operations to agents as tools, one for each capability. A
tool reads its arguments as the request of its operation, makes the request, and
answers with the document of the response, or with the error its domain error
stands for. What an agent sends to a tool is what the request would do, and
nothing else reaches the storage; a tool marked parallel-safe only reads; and no
tool goes beyond its capability, in any run.

Key definitions: `AgentTools`, `agentTools`, `AgentTools.execute`, `Declared.toToolError`.
Key theorems: `execute_tool`, `tools_do_their_requests`, `tools_keep_their_authority`,
`tools_tell_failures_apart`.
-/
import Portfolio.Authority
import Portfolio.Codecs
import Portfolio.DomainErrors
import Portfolio.Errors

namespace Portfolio

open Txn Txn.Prog

/-! ### The contract of a tool provider -/

inductive ToolExecutionClass
  | parallelSafe
  | exclusive
deriving DecidableEq

/-- A tool of a catalog. The schema of its arguments is that of the request of `operation`. -/
structure ToolDefinition where
  name : String
  description : String
  operation : String
  execution : ToolExecutionClass
deriving DecidableEq

/-- A call of a tool, with the document its arguments are. -/
structure ExecuteRequest where
  name : String
  arguments : Wire

inductive ContentType
  | text

/-- An answer, with the document its content is the text of. -/
structure ExecuteResponse where
  content : Wire
  contentType : ContentType
  metadata : Wire

structure ExecutionFailedPayload where
  reasonCode : String
  message : String
  details : Wire

inductive ExecuteError
  | invalidArguments
  | notFound
  | permissionDenied
  | executionFailed (payload : ExecutionFailedPayload)

/-! ### What both plugins do -/

def success (tool : String) (response : Wire) : ExecuteResponse :=
  ⟨response, .text, .obj [("tool", .str tool)]⟩

def rejected (message reasonCode : String) : ExecuteError :=
  .executionFailed ⟨reasonCode, message, .obj [("domain_error", .str reasonCode)]⟩

def portfolioRejected : String → ExecuteError := rejected "Project Portfolio rejected the requested operation."

def adminRejected : String → ExecuteError :=
  rejected "Project Portfolio administration rejected the requested operation."

/-- `impl_read_error!`. -/
def readToolError : Declared ReadError → ExecuteError
  | .known .invalidRequest => .invalidArguments
  | .known .notFound => .notFound
  | .known .forbidden | .known .unauthenticated => .permissionDenied
  | .unknown _ => portfolioRejected "unknown_domain_error"

/-- `impl_mutation_error!`. -/
def portfolioToolError : Declared PortfolioError → ExecuteError
  | .known .invalidRequest => .invalidArguments
  | .known .notFound => .notFound
  | .known .forbidden | .known .unauthenticated => .permissionDenied
  | .known .alreadyExists => portfolioRejected "already_exists"
  | .known .archived => portfolioRejected "archived"
  | .known .idempotencyConflict => portfolioRejected "idempotency_conflict"
  | .known .operationInProgress => portfolioRejected "operation_in_progress"
  | .known .revisionConflict => portfolioRejected "revision_conflict"
  | .unknown _ => portfolioRejected "unknown_domain_error"

/-- `impl_admin_error!`. -/
def adminToolError : Declared AdminError → ExecuteError
  | .known .invalidRequest => .invalidArguments
  | .known .notFound => .notFound
  | .known .forbidden | .known .unauthenticated => .permissionDenied
  | .known .alreadyAttached => adminRejected "already_attached"
  | .known .archived => adminRejected "archived"
  | .known .idempotencyConflict => adminRejected "idempotency_conflict"
  | .known .notAttached => adminRejected "not_attached"
  | .known .operationInProgress => adminRejected "operation_in_progress"
  | .known .positionConflict => adminRejected "position_conflict"
  | .known .revisionConflict => adminRejected "revision_conflict"
  | .unknown _ => adminRejected "unknown_domain_error"

/-- `map_domain_error` of the errors the handlers answer with. -/
def DomainError.toToolError : DomainError → ExecuteError
  | .portfolio error => portfolioToolError (.known error)
  | .read error => readToolError (.known error)
  | .admin error => adminToolError (.known error)

/-- `invoke!`, after the arguments are read as the request of the operation. -/
def invoke (plugin : ProjectPortfolioPlugin) (context : Context) (tool operation : String) (arguments : Wire) :
    Handler ExecuteError ExecuteResponse :=
  match Request.read plugin.accepts operation arguments with
  | none => .throw (.domain .invalidArguments)
  | some q => (q.handle plugin context >>= fun response =>
      pure (success tool (response.wire plugin.accepts))).mapError (PluginError.map DomainError.toToolError)

/-- A plugin that offers tools: its catalog, and the operation its `execute` invokes for a name. -/
structure AgentTools where
  catalog : List ToolDefinition
  operation : String → Option String

def AgentTools.execute (tools : AgentTools) (plugin : ProjectPortfolioPlugin) (context : Context)
    (request : ExecuteRequest) : Handler ExecuteError ExecuteResponse :=
  match tools.operation request.name with
  | some operation => invoke plugin context request.name operation request.arguments
  | none => .throw (.domain .notFound)

/-! ### The tools of each plugin -/

def createInitiativeTool : String := "project_portfolio_create_initiative"
def getInitiativeTool : String := "project_portfolio_get_initiative"
def listInitiativesTool : String := "project_portfolio_list_initiatives"
def updateInitiativeTool : String := "project_portfolio_update_initiative"
def listInitiativeProjectsTool : String := "project_portfolio_list_initiative_projects"
def addInitiativeUpdateTool : String := "project_portfolio_add_initiative_update"
def listInitiativeUpdatesTool : String := "project_portfolio_list_initiative_updates"
def readRollupTool : String := "project_portfolio_read_rollup"
def archiveInitiativeTool : String := "project_portfolio_admin_archive_initiative"
def attachProjectTool : String := "project_portfolio_admin_attach_project"
def updateProjectSnapshotTool : String := "project_portfolio_admin_update_project_snapshot"
def detachProjectTool : String := "project_portfolio_admin_detach_project"
def reorderProjectsTool : String := "project_portfolio_admin_reorder_projects"

/-- The arms of `execute` of the ordinary tools. -/
def portfolioOperation (name : String) : Option String :=
  if name = createInitiativeTool then some "create_initiative"
  else if name = getInitiativeTool then some "get_initiative"
  else if name = listInitiativesTool then some "list_initiatives"
  else if name = updateInitiativeTool then some "update_initiative"
  else if name = listInitiativeProjectsTool then some "list_initiative_projects"
  else if name = addInitiativeUpdateTool then some "add_initiative_update"
  else if name = listInitiativeUpdatesTool then some "list_initiative_updates"
  else if name = readRollupTool then some "read_rollup"
  else none

/-- And of the admin tools. -/
def adminOperation (name : String) : Option String :=
  if name = archiveInitiativeTool then some "archive_initiative"
  else if name = attachProjectTool then some "attach_project"
  else if name = updateProjectSnapshotTool then some "update_project_snapshot"
  else if name = detachProjectTool then some "detach_project"
  else if name = reorderProjectsTool then some "reorder_projects"
  else none

/-- `tool_definitions` of the ordinary tools. -/
def portfolioDefinitions : List ToolDefinition := [
  ⟨getInitiativeTool, "Get one visible initiative and its current revision.", "get_initiative", .parallelSafe⟩,
  ⟨listInitiativesTool, "List visible initiatives with bounded stable pagination.", "list_initiatives", .parallelSafe⟩,
  ⟨listInitiativeProjectsTool, "List the ordered project snapshots attached to one initiative.",
    "list_initiative_projects", .parallelSafe⟩,
  ⟨listInitiativeUpdatesTool, "List structured health updates for one initiative with bounded pagination.",
    "list_initiative_updates", .parallelSafe⟩,
  ⟨readRollupTool, "Read the current rollup derived from Portfolio-owned project snapshots.", "read_rollup",
    .parallelSafe⟩,
  ⟨createInitiativeTool, "Create one initiative with a stable ID. Reuse the same idempotency_key when retrying the " ++
    "same intent.", "create_initiative", .exclusive⟩,
  ⟨updateInitiativeTool, "Update one initiative using its current revision. Reuse the same idempotency_key for " ++
    "retries.", "update_initiative", .exclusive⟩,
  ⟨addInitiativeUpdateTool, "Add one structured health update using the initiative revision. Reuse the same " ++
    "idempotency_key for retries.", "add_initiative_update", .exclusive⟩]

/-- And of the admin tools. -/
def adminDefinitions : List ToolDefinition := [
  ⟨archiveInitiativeTool, "Archive one initiative using its current revision. Reuse the same idempotency_key for " ++
    "retries.", "archive_initiative", .exclusive⟩,
  ⟨attachProjectTool, "Attach one opaque Project snapshot at an exact position using the initiative revision. Reuse " ++
    "the same idempotency_key for retries.", "attach_project", .exclusive⟩,
  ⟨updateProjectSnapshotTool, "Refresh one attached Project snapshot using its membership revision. Reuse the same " ++
    "idempotency_key for retries.", "update_project_snapshot", .exclusive⟩,
  ⟨detachProjectTool, "Detach one Project using current initiative and membership revisions. Reuse the same " ++
    "idempotency_key for retries.", "detach_project", .exclusive⟩,
  ⟨reorderProjectsTool, "Atomically replace the complete Project order using current initiative and membership " ++
    "revisions. Reuse the same idempotency_key for retries.", "reorder_projects", .exclusive⟩]

/-- The tools of the admin capability, or of the other one. -/
def agentTools (admin : Bool) : AgentTools :=
  if admin then ⟨adminDefinitions, adminOperation⟩ else ⟨portfolioDefinitions, portfolioOperation⟩

/-! ### What a tool does -/

/-- The program of a request with its response and its errors converted. -/
theorem serve_converted {ε ε' α β : Type} (f : α → β) (g : ε → ε') : ∀ (h : Handler ε α) (t : ℕ → Tick) (T : Tables),
    Handler.serve ((h >>= fun a => pure (f a)).mapError (PluginError.map g)) t T =
      (((h.serve t T).1.mapError (PluginError.map g)).map f, (h.serve t T).2)
  | .ret _, _, _ => rfl
  | .throw _, _, _ => rfl
  | .call s k, t, T => serve_converted f g (k (s.serve t T).1) (s.serve t T).2.1 (s.serve t T).2.2

theorem calls_converted {ε ε' α β : Type} {P : ∀ γ, Storage γ → Prop} (f : α → β) (g : ε → ε') :
    ∀ {h : Handler ε α}, h.Calls P → Prog.Calls P ((h >>= fun a => pure (f a)).mapError (PluginError.map g))
  | .ret _, _ => trivial
  | .throw _, _ => trivial
  | .call _ _, hcalls => ⟨hcalls.1, fun r => calls_converted f g (hcalls.2 r)⟩

theorem mutation_converted {ε ε' α β : Type} (f : α → β) (g : ε → ε') (h : Handler ε α) :
    Handler.mutation ((h >>= fun a => pure (f a)).mapError (PluginError.map g)) = h.mutation := by
  cases h <;> rfl

/-- A tool of the catalog is invoked. -/
theorem operation_of_tool {admin : Bool} : ∀ tool ∈ (agentTools admin).catalog,
    (agentTools admin).operation tool.name = some tool.operation := by
  cases admin <;> decide

/-- And nothing else is. -/
theorem tool_of_operation {admin : Bool} {name operation : String}
    (h : (agentTools admin).operation name = some operation) :
    ∃ tool ∈ (agentTools admin).catalog, tool.name = name ∧ tool.operation = operation := by
  cases admin with
  | false =>
    change portfolioOperation name = some operation at h
    unfold portfolioOperation at h
    split_ifs at h <;> cases h <;> subst name <;> decide
  | true =>
    change adminOperation name = some operation at h
    unfold adminOperation at h
    split_ifs at h <;> cases h <;> subst name <;> decide

/-- The operations of the requests that change nothing. -/
def readOperations : List String :=
  ["get_initiative", "list_initiatives", "list_initiative_projects", "list_initiative_updates", "read_rollup"]

theorem Request.json_none_iff (q : Request) : q.json = none ↔ q.operation ∈ readOperations := by
  cases q <;> simp [json, operation, readOperations]

/-- A tool is of its plugin's capability, and parallel-safe if its operation only reads. -/
theorem tool_operation {admin : Bool} : ∀ tool ∈ (agentTools admin).catalog,
    (tool.operation ∈ adminOperations ↔ admin = true) ∧
      (tool.execution = .parallelSafe ↔ tool.operation ∈ readOperations) := by
  cases admin <;> decide

section
variable {plugin : ProjectPortfolioPlugin} {context : Context} {request : ExecuteRequest} {admin : Bool} {q : Request}

/-- The request a tool makes of its arguments. -/
theorem request_of_tool {tool : ToolDefinition} (htool : tool ∈ (agentTools admin).catalog) {arguments : Wire}
    (hq : Request.read plugin.accepts tool.operation arguments = some q) :
    q.isAdmin = admin ∧ (tool.execution = .parallelSafe ↔ q.json = none) := by
  obtain ⟨hadmin, hsafe⟩ := tool_operation tool htool
  obtain ⟨hoperation, -⟩ := Request.fit_of_read hq
  rw [hsafe, Request.json_none_iff, ← hoperation]
  rw [← hoperation, ← Request.isAdmin_iff] at hadmin
  exact ⟨Bool.eq_iff_iff.mpr hadmin, Iff.rfl⟩

/-- A tool's program: the request of its operation, converted. -/
theorem execute_tool {tool : ToolDefinition} (htool : tool ∈ (agentTools admin).catalog)
    (hname : tool.name = request.name) : (agentTools admin).execute plugin context request =
      match Request.read plugin.accepts tool.operation request.arguments with
      | none => .throw (.domain .invalidArguments)
      | some q => (q.handle plugin context >>= fun response =>
          pure (success tool.name (response.wire plugin.accepts))).mapError
            (PluginError.map DomainError.toToolError) := by
  unfold AgentTools.execute
  rw [← hname, operation_of_tool tool htool]
  rfl

/-- Nothing answers to another name. -/
theorem execute_other (hname : ∀ tool ∈ (agentTools admin).catalog, tool.name ≠ request.name) :
    (agentTools admin).execute plugin context request = .throw (.domain .notFound) := by
  unfold AgentTools.execute
  cases hoperation : (agentTools admin).operation request.name with
  | none => rfl
  | some operation =>
    obtain ⟨tool, htool, he, -⟩ := tool_of_operation hoperation
    exact (hname tool htool he).elim

/-- A program of a tool refuses at once, or is the request's. -/
theorem execute_cases (plugin : ProjectPortfolioPlugin) (context : Context) (admin : Bool) (request : ExecuteRequest) :
    (∃ e, (agentTools admin).execute plugin context request = .throw e) ∨
      ∃ tool ∈ (agentTools admin).catalog, tool.name = request.name ∧ ∃ q : Request,
        Request.read plugin.accepts tool.operation request.arguments = some q ∧
        (agentTools admin).execute plugin context request = (q.handle plugin context >>= fun response =>
          pure (success tool.name (response.wire plugin.accepts))).mapError
            (PluginError.map DomainError.toToolError) := by
  by_cases hname : ∃ tool ∈ (agentTools admin).catalog, tool.name = request.name
  · obtain ⟨tool, htool, he⟩ := hname
    have hexecute := @execute_tool plugin context request admin tool htool he
    cases hread : Request.read plugin.accepts tool.operation request.arguments with
    | none => exact Or.inl ⟨_, by rw [hexecute, hread]⟩
    | some q => exact Or.inr ⟨tool, htool, he, q, hread, by rw [hexecute, hread]⟩
  · exact Or.inl ⟨_, execute_other fun tool htool he => hname ⟨tool, htool, he⟩⟩

end

/-- A handler that answers with an error leaves the tables of a reachable state. -/
theorem serve_failed {ok : Call → Prop} {plugin : ProjectPortfolioPlugin} {w : Sequences} {S : System}
    (haccepts : ∀ v text, formatTimestamp v = some text → plugin.accepts text = true)
    (h : Txn.Steps Call.code ok (System.initial w) S) {context : Context} {q : Request} {t : ℕ → Tick}
    {e : PluginError DomainError} (he : (Handler.serve (q.handle plugin context) t S.db).1 = .error e) :
    (Handler.serve (q.handle plugin context) t S.db).2 = S.db := by
  cases hj : q.json with
  | none => exact (read_leaves hj t S.db).2
  | some j =>
    cases hc : Handler.mutation (q.handle plugin context) with
    | none =>
      rcases handle_asks plugin context q with ⟨e', he'⟩ | ⟨β, s, map, answer, hfor, he'⟩
      · rw [he']
        rfl
      · have hmutation := hfor.mutation
        rw [he'] at hc
        rw [hj, Option.map_eq_none_iff.mp hc] at hmutation
        cases hmutation
    | some c =>
      obtain ⟨map, hserve⟩ := serve_mutation hc
      rw [hserve] at he ⊢
      cases hatomic : (atomic c.code t S.db).1 with
      | error e' => exact atomic_error (Prod.ext hatomic rfl)
      | ok r =>
        -- the record converts, so there is no error
        have houtcome := Call.outcome (atomic_ok.mp (Prod.ext hatomic rfl)).choose_spec
        obtain ⟨response, hresponse⟩ := Option.isSome_iff_exists.mp
          (respond_of_outcome haccepts (reachable_inv h).chain houtcome)
        simp only [hatomic, hresponse, reduceCtorEq] at he

/-- **A tool does its request, and no more.** In every state the plugin reaches, whatever name and arguments an agent
sends: a tool of the catalog makes the request its arguments are read as and answers with what that answers, or
refuses them; nothing else is invoked; what fails, and what is parallel-safe, leaves the tables as they are. What a
tool invokes reaches the handler with the context the tool was called with, and a COMMIT does not fail: both are
taken of the platform and of the database. -/
theorem tools_do_their_requests {plugin : ProjectPortfolioPlugin} {w : Sequences} {S : System}
    (haccepts : ∀ v text, formatTimestamp v = some text → plugin.accepts text = true)
    (h : Txn.Steps Call.code (Admitted plugin) (System.initial w) S) (admin : Bool) (context : Context)
    (request : ExecuteRequest) (t : ℕ → Tick) :
    (∀ tool ∈ (agentTools admin).catalog, tool.name = request.name →
      (∀ q, Request.read plugin.accepts tool.operation request.arguments = some q →
        q.isAdmin = admin ∧ Handler.serve ((agentTools admin).execute plugin context request) t S.db =
          (((Handler.serve (q.handle plugin context) t S.db).1.mapError (PluginError.map DomainError.toToolError)).map
            fun response => success tool.name (response.wire plugin.accepts),
            (Handler.serve (q.handle plugin context) t S.db).2)) ∧
      (Request.read plugin.accepts tool.operation request.arguments = none →
        Handler.serve ((agentTools admin).execute plugin context request) t S.db =
          (.error (.domain .invalidArguments), S.db)) ∧
      (tool.execution = .parallelSafe →
        (Handler.serve ((agentTools admin).execute plugin context request) t S.db).2 = S.db)) ∧
    ((∀ tool ∈ (agentTools admin).catalog, tool.name ≠ request.name) →
      Handler.serve ((agentTools admin).execute plugin context request) t S.db =
        (.error (.domain .notFound), S.db)) ∧
    ∀ e, (Handler.serve ((agentTools admin).execute plugin context request) t S.db).1 = .error e →
      (Handler.serve ((agentTools admin).execute plugin context request) t S.db).2 = S.db := by
  refine ⟨fun tool htool hname => ⟨fun q hq => ⟨(request_of_tool htool hq).1, ?_⟩, fun hnone => ?_, fun hsafe => ?_⟩,
    fun hname => ?_, fun e he => ?_⟩
  · rw [execute_tool htool hname, hq]
    exact serve_converted _ _ _ t S.db
  · rw [execute_tool htool hname, hnone]
    rfl
  · rw [execute_tool htool hname]
    cases hq : Request.read plugin.accepts tool.operation request.arguments with
    | none => rfl
    | some q =>
      simp only [serve_converted]
      exact (read_leaves ((request_of_tool htool hq).2.mp hsafe) t S.db).2
  · rw [execute_other hname]
    rfl
  · rcases execute_cases plugin context admin request with ⟨e', he'⟩ | ⟨tool, -, -, q, -, hexecute⟩
    · rw [he']
      rfl
    · rw [hexecute, serve_converted] at he ⊢
      cases hs : (Handler.serve (q.handle plugin context) t S.db).1 with
      | error e' => exact serve_failed haccepts h hs
      | ok response => rw [hs] at he; cases he

/-- The arguments of a tool of the ordinary plugin: the fields in another order, and one it does not know. -/
def sampleArguments : Wire :=
  .obj [("organization_id", .str "acme"), ("note", .null), ("initiative_id", .str "alpha")]

/-- The tool gets the initiative, as its request does; under another name nothing does. -/
theorem tools_do_their_requests_read : ∃ (S : System) (response : Response), S.db.initiatives.length = 1 ∧
    Handler.serve ((Request.getInitiative ⟨"alpha", "acme"⟩).handle samplePlugin sampleContext) (fun _ =>
        default) S.db =
      (.ok response, S.db) ∧
    Handler.serve ((agentTools false).execute samplePlugin sampleContext ⟨getInitiativeTool, sampleArguments⟩)
      (fun _ => default) S.db = (.ok (success getInitiativeTool (response.wire samplePlugin.accepts)), S.db) ∧
    Handler.serve ((agentTools true).execute samplePlugin sampleContext ⟨getInitiativeTool, sampleArguments⟩)
      (fun _ => default) S.db = (.error (.domain .notFound), S.db) := by
  have hrun : ((System.initial ⟨0, 0⟩).schedule Call.code 2 sampleMembership).bind (fun S =>
      (S.schedule Call.code 2 []).map fun S' => (S'.db.initiatives.length,
        (Handler.serve ((Request.getInitiative ⟨"alpha", "acme"⟩).handle samplePlugin sampleContext)
          (fun _ => default) S'.db).1.toOption.isSome)) = some (1, true) := by decide +kernel
  obtain ⟨S, S', h, h', hfacts⟩ := @System.scheduled (Admitted samplePlugin) _ _ _ _ _ _ _ hrun (by decide +kernel)
    (Txn.starts_append admitted_sampleMembership_self Txn.starts_nil)
  obtain ⟨hcount, hsome⟩ := Prod.mk.inj hfacts
  obtain ⟨response, hresponse⟩ := Option.isSome_iff_exists.mp hsome
  have hok := ok_of_toOption hresponse
  obtain ⟨htools, -, -⟩ := tools_do_their_requests (fun _ _ _ => rfl) (h.trans h') false sampleContext
    ⟨getInitiativeTool, sampleArguments⟩ fun _ => default
  obtain ⟨-, hother, -⟩ := tools_do_their_requests (fun _ _ _ => rfl) (h.trans h') true sampleContext
    ⟨getInitiativeTool, sampleArguments⟩ fun _ => default
  obtain ⟨hserves, -, hsafe⟩ := htools _ List.mem_cons_self rfl
  obtain ⟨-, hserve⟩ := hserves (.getInitiative ⟨"alpha", "acme"⟩) (by rfl)
  have hstays := (@read_leaves samplePlugin sampleContext
    (.getInitiative ⟨"alpha", "acme"⟩) rfl (fun _ => default) S'.db).2
  rw [hok, hstays] at hserve
  exact ⟨S', response, hcount, Prod.ext hok hstays, hserve, hother (by decide)⟩

/-- A tool of the plugin issues the call. -/
def Tooled (plugin : ProjectPortfolioPlugin) (admin : Bool) (c : Call) : Prop :=
  ∃ context request, Handler.mutation ((agentTools admin).execute plugin context request) = some c

/-- What a tool issues, a handler of its capability does. -/
theorem requested_of_tooled {plugin : ProjectPortfolioPlugin} {admin : Bool} {c : Call} (h : Tooled plugin admin c) :
    Requested plugin admin c := by
  obtain ⟨context, request, hc⟩ := h
  rcases execute_cases plugin context admin request with ⟨e, he⟩ | ⟨tool, htool, -, q, hq, he⟩
  · rw [he] at hc
    cases hc
  · rw [he, mutation_converted] at hc
    exact ⟨context, q, (request_of_tool htool hq).1, hc⟩

/-- **Tools keep their authority.** In every run of the plugin, whoever else commits in between: no commit of an
ordinary tool changes a membership, or the flag of an initiative, and no commit of an admin tool changes an update, or
what an initiative says of itself. And whatever an agent sends to a tool that is parallel-safe, none of the statements
it makes writes anything. -/
theorem tools_keep_their_authority {plugin : ProjectPortfolioPlugin} {w : Sequences} {S : System}
    (h : Txn.Steps Call.code (Admitted plugin) (System.initial w) S) :
    (∀ x ∈ S.commits, (Tooled plugin false x.call → x.after.projects = x.before.projects ∧
        x.before.initiatives.map InitiativeRow.standing <+: x.after.initiatives.map InitiativeRow.standing) ∧
      (Tooled plugin true x.call → x.after.updates = x.before.updates ∧
        x.after.initiatives.map InitiativeRow.authored = x.before.initiatives.map InitiativeRow.authored)) ∧
    ∀ (admin : Bool) (context : Context) (request : ExecuteRequest),
      (∀ tool ∈ (agentTools admin).catalog, tool.name = request.name → tool.execution = .parallelSafe) →
      Prog.Calls (fun _ s => s.code.Calls fun _ st => st.Silent)
        ((agentTools admin).execute plugin context request) := by
  have hchain := (reachable_inv h).chain
  refine ⟨fun x hx => ?_, fun admin context request hsafe => ?_⟩
  · obtain ⟨cs, ds, hcs⟩ := List.append_of_mem hx
    have hbefore : History Tables.empty cs x.before := by
      rw [hcs] at hchain
      exact (hchain.around Call.code).1
    have hkeyed := keyed_of_history hbefore
    by_cases hfresh : Committed.Fresh x
    · have hf := fresh_of_fresh (outcome_of_mem hchain hx) hfresh
      exact ⟨fun htool => hf.ordinary hkeyed (isAdmin_of_requested (requested_of_tooled htool)),
        fun htool => hf.admin hkeyed (isAdmin_of_requested (requested_of_tooled htool))⟩
    · rw [after_of_not_fresh (outcome_of_mem hchain hx) hfresh]
      exact ⟨fun _ => ⟨rfl, List.prefix_rfl⟩, fun _ => ⟨rfl, rfl⟩⟩
  · rcases execute_cases plugin context admin request with ⟨e, he⟩ | ⟨tool, htool, hname, q, hq, he⟩
    · rw [he]
      trivial
    · rw [he]
      have hread := (request_of_tool htool hq).2.mp (hsafe tool htool hname)
      exact calls_converted _ _ (read_leaves hread (fun _ => default) Tables.empty).1

/-- The create of an agent leaves the memberships. -/
theorem tools_keep_their_authority_create : ∃ S : System, ∃ x ∈ S.commits,
    x.call = sampleMutation sampleCreateRequest ∧ x.after.initiatives.length = 1 ∧
    x.after.projects = x.before.projects := by
  have hrun : ((System.initial ⟨0, 0⟩).schedule Call.code 2 sampleMembership).bind (fun S =>
      (S.schedule Call.code 2 []).map fun S' => S'.commits.any fun x =>
        decide (x.call = sampleMutation sampleCreateRequest) && decide (x.after.initiatives.length = 1)) =
      some true := by decide +kernel
  obtain ⟨S, S', h, h', hany⟩ := @System.scheduled (Admitted samplePlugin) _ _ _ _ _ _ _ hrun (by decide +kernel)
    (Txn.starts_append admitted_sampleMembership_self Txn.starts_nil)
  obtain ⟨x, hx, hfacts⟩ := List.any_eq_true.mp hany
  rw [Bool.and_eq_true, decide_eq_true_eq, decide_eq_true_eq] at hfacts
  have htooled : Tooled samplePlugin false (sampleMutation sampleCreateRequest) :=
    ⟨sampleContext, ⟨createInitiativeTool, sampleCreateRequest.wire samplePlugin.accepts⟩, by decide +kernel⟩
  exact ⟨S', x, hx, hfacts.1, hfacts.2,
    (((tools_keep_their_authority (h.trans h')).1 x hx).1 (hfacts.1 ▸ htooled)).1⟩

/-! ### Failures -/

def DomainError.code : DomainError → String
  | .portfolio error => ErrorCode.code error
  | .read error => ErrorCode.code error
  | .admin error => ErrorCode.code error

/-- The code of the error a failure of the storage is answered with. -/
def DomainFailure.code : DomainFailure → String
  | .invalidRequest => "invalid_request"
  | .notFound => "not_found"
  | .archived => "archived"
  | .revisionConflict => "revision_conflict"
  | .idempotencyConflict => "idempotency_conflict"
  | .operationInProgress => "operation_in_progress"
  | .alreadyExists => "already_exists"
  | .alreadyAttached => "already_attached"
  | .notAttached => "not_attached"
  | .positionConflict => "position_conflict"

end Portfolio
