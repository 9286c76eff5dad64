/-
# No storage without authorization

`authorize` is one gate with six exits, and each of the thirteen handlers hands
it an allowlist, a capability, an operation and a permission of its own. When
it lets a call through, all of its checks have passed for the organization of
the request and for the actor of the assertion (`authorize_ok`); where it does
not, the handler throws before it asks the storage (`handle_of_error`). So a
storage function is asked for by a checked call only, and what its statements
are bound to is what was checked.

Key definitions: `Request.callers`, `Checked`.
Key theorems: `authorize_ok`, `handle_of_error`, `storage_needs_authorization`.
-/
import Portfolio.Tenants

namespace Portfolio

open Txn Txn.Prog

/-- The allowlist of the request's capability. -/
def Request.callers (plugin : ProjectPortfolioPlugin) (q : Request) : List String :=
  if q.isAdmin then plugin.adminCallers else plugin.portfolioCallers

/-- Everything that is checked of a call before it may reach the storage: its caller, the assertion of its
actor for the capability and the operation, the ids, the membership and the permission. -/
structure Checked (plugin : ProjectPortfolioPlugin) (context : Context) (q : Request) (auth : Authorized) : Prop where
  caller : context.callerInstance = some auth.caller ∧ auth.caller ∈ q.callers plugin
  assertion : plugin.keyValid = true ∧ context.actor q.capability q.operation = some auth.actor
  ids : validOpaqueId q.organizationId = true ∧ validOpaqueId auth.actor = true
  membership : context.membership q.organizationId auth.actor = .ok true
  access : context.access auth.actor "organization" q.organizationId q.permission = .ok true

/-! ### The gate -/

section
variable {ε α β : Type}

theorem except_bind_ok {x : Except ε α} {f : α → Except ε β} {b : β} :
    (x >>= f) = .ok b ↔ ∃ a, x = .ok a ∧ f a = .ok b := by
  cases x with
  | error e => exact ⟨nofun, nofun⟩
  | ok a => exact ⟨fun h => ⟨a, rfl, h⟩, fun ⟨a', ha, h⟩ => Except.ok.inj ha ▸ h⟩

theorem okOr_ok {error : ε} {x : Option α} {a : α} : okOr error x = .ok a ↔ x = some a := by
  cases x <;> simp [okOr]

theorem ensure_ok {error : ε} {b : Bool} {u : Unit} : ensure error b = .ok u ↔ b = true := by
  cases b <;> simp [ensure]

/-- Neither a runtime failure nor a domain error of a provider is an answer. -/
theorem provided_ok {capability : String} {x : Except InvocationError α} {a : α} :
    provided capability x = .ok a ↔ x = .ok a := by
  rcases x with ⟨_ | _⟩ | _ <;> simp [provided]

end

theorem verifier_ok {plugin : ProjectPortfolioPlugin} {u : Unit}
    (h : plugin.verifier.mapError AuthorizationFailure.runtime = .ok u) :
    plugin.keyValid = true := by
  unfold ProjectPortfolioPlugin.verifier at h
  split at h
  · assumption
  · cases h

/-- A call that is let through has passed every check. -/
theorem authorize_ok {plugin : ProjectPortfolioPlugin} {context : Context} {q : Request} {auth : Authorized}
    (h : q.authorize plugin context = .ok auth) : Checked plugin context q auth := by
  unfold Request.authorize ProjectPortfolioPlugin.authorize at h
  obtain ⟨caller, hcaller, h⟩ := except_bind_ok.mp h
  obtain ⟨_, hkey, h⟩ := except_bind_ok.mp h
  obtain ⟨actor, hactor, h⟩ := except_bind_ok.mp h
  obtain ⟨_, hids, h⟩ := except_bind_ok.mp h
  obtain ⟨active, hmembership, h⟩ := except_bind_ok.mp h
  obtain ⟨_, hactive, h⟩ := except_bind_ok.mp h
  obtain ⟨allowed, haccess, h⟩ := except_bind_ok.mp h
  obtain ⟨_, hallowed, h⟩ := except_bind_ok.mp h
  obtain rfl := Except.ok.inj h
  obtain ⟨hinstance, hlisted⟩ := Option.filter_eq_some_iff.mp (okOr_ok.mp hcaller)
  obtain rfl := ensure_ok.mp hactive
  obtain rfl := ensure_ok.mp hallowed
  exact {
    caller := ⟨hinstance, List.contains_iff_mem.mp hlisted⟩
    assertion := ⟨verifier_ok hkey, okOr_ok.mp hactor⟩
    ids := Bool.and_eq_true_iff.mp (ensure_ok.mp hids)
    membership := provided_ok.mp hmembership
    access := provided_ok.mp haccess }

/-! ### The handlers -/

section
variable {ε α β : Type} [OperationError ε]

theorem authorized_of_error {r : Except AuthorizationFailure Authorized} {e : AuthorizationFailure}
    {f : Authorized → Handler ε α} (h : r = .error e) : ∃ e', (authorized r >>= f) = .throw e' := by
  subst h
  cases e <;> exact ⟨_, rfl⟩

omit [OperationError ε] in
theorem as_of_throw {h : Handler ε α} {error : ε → DomainError} {response : α → Response}
    (hthrow : ∃ e, h = .throw e) : ∃ e, h.as error response = .throw e := by
  obtain ⟨e, rfl⟩ := hthrow
  exact ⟨_, rfl⟩

end

/-- A handler whose call is not authorized throws before it asks the storage. -/
theorem handle_of_error {plugin : ProjectPortfolioPlugin} {context : Context} {q : Request} {e : AuthorizationFailure}
    (h : q.authorize plugin context = .error e) : ∃ e', q.handle plugin context = .throw e' := by
  cases q with
  | createInitiative => exact as_of_throw (authorized_of_error h)
  | getInitiative => exact as_of_throw (authorized_of_error h)
  | listInitiatives => exact as_of_throw (authorized_of_error h)
  | updateInitiative => exact as_of_throw (authorized_of_error h)
  | listInitiativeProjects => exact as_of_throw (authorized_of_error h)
  | addInitiativeUpdate => exact as_of_throw (authorized_of_error h)
  | listInitiativeUpdates => exact as_of_throw (authorized_of_error h)
  | readRollup => exact as_of_throw (authorized_of_error h)
  | archiveInitiative => exact as_of_throw (authorized_of_error h)
  | attachProject => exact as_of_throw (authorized_of_error h)
  | updateProjectSnapshot => exact as_of_throw (authorized_of_error h)
  | detachProject => exact as_of_throw (authorized_of_error h)
  | reorderProjects => exact as_of_throw (authorized_of_error h)

/-- A storage function that a handler asks for is called by, and bound to, the caller and the actor it
has authorized. -/
theorem statements_of_asked {plugin : ProjectPortfolioPlugin} {context : Context} {q : Request} {auth : Authorized}
    {β : Type} {s : Storage β} {answer : β → Option Response} (hauth : q.authorize plugin context = .ok auth)
    (hfor : s.For plugin context q answer) :
    (∀ c wrap, s.call = some (c, wrap) → c.command.caller = auth.caller ∧ c.command.actor = auth.actor) ∧
      s.code.For q.organizationId (CommandKey.by auth.caller auth.actor) auth.actor := by
  have hcommand : ∀ c wrap, s.call = some (c, wrap) →
      c.command.caller = auth.caller ∧ c.command.actor = auth.actor := by
    intro c wrap hc
    obtain rfl := Except.ok.inj (hauth.symm.trans (hfor.issued c wrap hc).authorized)
    exact ⟨rfl, rfl⟩
  refine ⟨hcommand, storage_statements hfor.organization fun c wrap hc => ?_⟩
  obtain ⟨hcaller, hactor⟩ := hcommand c wrap hc
  exact ⟨decide_eq_true ⟨hcaller, hactor⟩, hactor⟩

/-- **No storage without authorization.** Whatever the assertion verifier and the providers answer, a
handler asks for a storage function only if its caller is in the allowlist of the capability, the
assertion verified for exactly the capability and the operation, the organization and the actor are valid
ids, the actor is an active member of the organization and has the operation's permission on it; every
statement of that function is bound to that organization, to the receipts of that caller and actor, and to
that actor as an author. Where that does not hold of any caller and actor the handler throws, and
the tables stay as they are. -/
theorem storage_needs_authorization (plugin : ProjectPortfolioPlugin) (context : Context) (q : Request) :
    ((q.handle plugin context).Calls fun _ s => ∃ auth, Checked plugin context q auth ∧
      (∀ c wrap, s.call = some (c, wrap) → c.command.caller = auth.caller ∧ c.command.actor = auth.actor) ∧
      s.code.For q.organizationId (CommandKey.by auth.caller auth.actor) auth.actor) ∧
    ((∀ auth, ¬ Checked plugin context q auth) → ∃ e, ∀ t T,
      Handler.serve (q.handle plugin context) t T = (.error e, T)) := by
  cases hauth : q.authorize plugin context with
  | error e =>
    obtain ⟨e', he⟩ := handle_of_error hauth
    rw [he]
    exact ⟨trivial, fun _ => ⟨e', fun t T => rfl⟩⟩
  | ok auth =>
    have hchecked := authorize_ok hauth
    refine ⟨?_, fun hnone => (hnone auth hchecked).elim⟩
    rcases handle_asks plugin context q with ⟨e, he⟩ | ⟨β, s, map, answer, hfor, he⟩
    · rw [he]
      trivial
    · rw [he]
      refine Calls.bind (calls_perform.mpr ⟨auth, hchecked, statements_of_asked hauth hfor⟩) fun a => ?_
      cases answer a <;> trivial

example : (Handler.mutation (sampleCreateRequest.handle samplePlugin sampleContext)).isSome = true := by
  decide +kernel

/-- A domain error of the membership provider is no answer. -/
example : Handler.mutation (sampleCreateRequest.handle samplePlugin
    { sampleContext with membership := fun _ _ => .error .domain }) = none := by
  decide +kernel

end Portfolio
