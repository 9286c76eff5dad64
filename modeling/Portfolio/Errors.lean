/-
# Which failures an operation has, and what they are called

The domain failures each function of the storage layer can return, whatever its
statements answer (`Storage.failures`, `Storage.raises`). The error macros map
the failures of the operations they serve to errors of the same name, and only
what those operations never return falls into their last arm.

Key definitions: `DomainFailure.name`, `DomainError.name`, `Storage.failures`,
`Handler.Maps`, `Request.mapped`, `Storage.Returns`.
Key theorems: `Storage.raises`, `handle_maps`, `mapped_name`,
`failures_keep_their_names`.
-/
import Portfolio.Txn.Raises
import Portfolio.Cursors
import Portfolio.Responses

namespace Portfolio

open Txn Txn.Prog

/-! ### Names -/

def DomainFailure.name : DomainFailure → String
  | .invalidRequest => "InvalidRequest"
  | .notFound => "NotFound"
  | .archived => "Archived"
  | .revisionConflict => "RevisionConflict"
  | .idempotencyConflict => "IdempotencyConflict"
  | .operationInProgress => "OperationInProgress"
  | .alreadyExists => "AlreadyExists"
  | .alreadyAttached => "AlreadyAttached"
  | .notAttached => "NotAttached"
  | .positionConflict => "PositionConflict"

def PortfolioError.name : PortfolioError → String
  | .alreadyExists => "AlreadyExists"
  | .archived => "Archived"
  | .forbidden => "Forbidden"
  | .idempotencyConflict => "IdempotencyConflict"
  | .invalidRequest => "InvalidRequest"
  | .notFound => "NotFound"
  | .operationInProgress => "OperationInProgress"
  | .revisionConflict => "RevisionConflict"
  | .unauthenticated => "Unauthenticated"

def ReadError.name : ReadError → String
  | .forbidden => "Forbidden"
  | .invalidRequest => "InvalidRequest"
  | .notFound => "NotFound"
  | .unauthenticated => "Unauthenticated"

def AdminError.name : AdminError → String
  | .alreadyAttached => "AlreadyAttached"
  | .archived => "Archived"
  | .forbidden => "Forbidden"
  | .idempotencyConflict => "IdempotencyConflict"
  | .invalidRequest => "InvalidRequest"
  | .notAttached => "NotAttached"
  | .notFound => "NotFound"
  | .operationInProgress => "OperationInProgress"
  | .positionConflict => "PositionConflict"
  | .revisionConflict => "RevisionConflict"
  | .unauthenticated => "Unauthenticated"

/-- The variant of the wire error. -/
def DomainError.name : DomainError → String
  | .portfolio error => error.name
  | .read error => error.name
  | .admin error => error.name

theorem name_injective {failure failure' : DomainFailure} (h : failure.name = failure'.name) : failure = failure' := by
  cases failure <;> cases failure' <;> first | rfl | exact absurd h (by decide)

/-! ### The failures of each operation -/

/-- Those of the admission. -/
def admissionFailures : List DomainFailure := [.idempotencyConflict, .operationInProgress]

/-- Those of an initiative locked for a mutation at a revision. -/
def mutableFailures : List DomainFailure := [.notFound, .archived, .revisionConflict]

/-- The failures a storage function can return. -/
def Storage.failures {α : Type} : Storage α → List DomainFailure
  | .createInitiative .. => admissionFailures ++ [.alreadyExists, .notFound]
  | .updateInitiative .. => admissionFailures ++ mutableFailures
  | .addUpdate .. => admissionFailures ++ .alreadyExists :: mutableFailures
  | .archiveInitiative .. => admissionFailures ++ mutableFailures
  | .attachProject .. =>
    admissionFailures ++ [.alreadyAttached, .invalidRequest, .positionConflict] ++ mutableFailures
  | .updateProjectSnapshot .. => admissionFailures ++ .notAttached :: mutableFailures
  | .detachProject .. => admissionFailures ++ .notAttached :: mutableFailures
  | .reorderProjects .. => admissionFailures ++ .invalidRequest :: mutableFailures
  | .getInitiative .. => [.notFound]
  | .listInitiatives .. => []
  | .listUpdates .. => [.notFound]
  | .listProjects .. => [.notFound]
  | .readRollup .. => [.notFound]

/-- A domain failure, if it is one, is of these. -/
def StorageError.Among (failures : List DomainFailure) : StorageError → Prop
  | .domain failure => failure ∈ failures
  | _ => True

/-- The domain failures of the program are of these. -/
abbrev Tx.Raises {α : Type} (failures : List DomainFailure) (p : Tx α) : Prop :=
  Prog.Raises (StorageError.Among failures) p

section
variable {α β : Type} {o i : String} {failures failures' : List DomainFailure}

theorem Tx.Raises.mono {p : Tx α} (h : Tx.Raises failures p) (hsub : failures ⊆ failures') :
    Tx.Raises failures' p := by
  refine Prog.Raises.mono (fun e he => ?_) h
  cases e with
  | domain failure => exact hsub he
  | database _ _ | receipt | time => trivial

theorem raises_database {st : Sql α} {operation : String} :
    Tx.Raises failures (perform st (.database operation)) := raises_perform fun _ => trivial

theorem raises_refuse {failure : DomainFailure} (h : failure ∈ failures) :
    Tx.Raises failures (refuse failure : Tx α) := raises_throw h

theorem raises_orRefuse {failure : DomainFailure} (h : failure ∈ failures) {x : Option α} :
    Tx.Raises failures (orRefuse failure x) := by
  cases x with
  | none => exact raises_refuse h
  | some a => exact raises_ret a

theorem raises_fetched {operation : String} {x : Option α} : Tx.Raises failures (fetched operation x) := by
  cases x <;> trivial

theorem raises_formatted {x : Option α} : Tx.Raises failures (formatted x) := by
  cases x <;> trivial

/-- An attempted INSERT whose unique violation is the failure. -/
theorem raises_insert {st : Sql β} {f : Except DbError β → Tx α} (failure : DomainFailure) (h : failure ∈ failures)
    (herr : ∀ d, f (.error d) = refuse failure ∨ ∃ operation, f (.error d) = .throw (.database operation d))
    (hok : ∀ b, Tx.Raises failures (f (.ok b))) : Tx.Raises failures (attempt st >>= f) := by
  refine raises_attempt fun r => ?_
  cases r with
  | ok b => exact hok b
  | error d =>
    rcases herr d with hrefuse | ⟨operation, hthrow⟩
    · rw [hrefuse]
      exact raises_refuse h
    · rw [hthrow]
      exact raises_throw trivial

theorem raises_requireMutableRevision (h : mutableFailures ⊆ failures) {current : LockedInitiative} {expected : ℤ} :
    Tx.Raises failures (requireMutableRevision current expected) := by
  unfold requireMutableRevision
  split
  · exact raises_refuse (h (by decide))
  split
  · exact raises_refuse (h (by decide))
  · exact raises_ret _

theorem raises_lockInitiative (h : .notFound ∈ failures) : Tx.Raises failures (lockInitiative o i) :=
  raises_database.bind fun _ => (raises_orRefuse h).bind fun _ => raises_ret _

/-- What a mutation does once its initiative is locked. -/
theorem raises_locked (h : mutableFailures ⊆ failures) {expected : ℤ} {f : LockedInitiative → Tx α}
    (hf : ∀ current, Tx.Raises failures (f current)) :
    Tx.Raises failures (lockInitiative o i >>= fun current =>
      requireMutableRevision current expected >>= fun _ => f current) :=
  (raises_lockInitiative (h (by decide))).bind fun current =>
    (raises_requireMutableRevision h).bind fun _ => hf current

theorem raises_bumpInitiative : Tx.Raises failures (bumpInitiative o i) :=
  raises_database.bind fun _ => raises_fetched.bind fun _ => raises_ret _

theorem raises_readInitiative (h : .notFound ∈ failures) : Tx.Raises failures (readInitiative o i) :=
  raises_database.bind fun _ => (raises_orRefuse h).bind fun _ => raises_formatted

theorem raises_readProject {operation p : String} {revision : ℤ} :
    Tx.Raises failures (readProject operation o i p revision) :=
  raises_database.bind fun _ => raises_fetched.bind fun _ => raises_formatted

/-! ### The bodies -/

theorem raises_createInitiativeBody {v : InitiativeCreate} :
    Tx.Raises [.alreadyExists, .notFound] (createInitiativeBody v) := by
  refine raises_database.bind fun rowSeq => raises_insert .alreadyExists (by decide) (fun d => ?_) ?_
  · cases d <;> first | exact .inl rfl | exact .inr ⟨_, rfl⟩
  · exact fun _ => raises_readInitiative (by decide)

theorem raises_updateInitiativeBody {expected : ℤ} {patch : InitiativePatch} :
    Tx.Raises mutableFailures (updateInitiativeBody o i expected patch) :=
  raises_locked (List.Subset.refl _) fun _ => raises_database.bind fun _ => raises_readInitiative (by decide)

theorem raises_archiveInitiativeBody {expected : ℤ} :
    Tx.Raises mutableFailures (archiveInitiativeBody o i expected) :=
  raises_locked (List.Subset.refl _) fun _ => raises_database.bind fun _ => raises_fetched.bind fun _ =>
    raises_formatted

theorem raises_addUpdateBody {actor update : String} {expected : ℤ} {health summary : String} {progress : ℤ} :
    Tx.Raises (.alreadyExists :: mutableFailures)
      (addUpdateBody actor o i update expected health summary progress) := by
  refine raises_locked (List.subset_cons_self _ _) fun current => raises_database.bind fun rowSeq =>
    raises_insert .alreadyExists (by decide) (fun d => ?_) ?_
  · cases d <;> first | exact .inl rfl | exact .inr ⟨_, rfl⟩
  · exact fun _ => raises_database.bind fun _ => raises_database.bind fun _ => raises_fetched.bind fun _ =>
      raises_formatted

theorem raises_attachProjectBody {expected position : ℤ} {s : ProjectSnapshot} :
    Tx.Raises ([.alreadyAttached, .invalidRequest, .positionConflict] ++ mutableFailures)
      (attachProjectBody o i expected s position) := by
  refine raises_locked (List.subset_append_right _ _) fun _ => raises_database.bind fun existing => ?_
  split
  · exact raises_refuse (by decide)
  refine raises_database.bind fun count => ?_
  split
  · exact raises_refuse (by decide)
  refine raises_insert .positionConflict (by decide) (fun d => ?_) ?_
  · cases d <;> first | exact .inl rfl | exact .inr ⟨_, rfl⟩
  · exact fun _ => raises_bumpInitiative.bind fun _ => raises_readProject

theorem raises_updateProjectSnapshotBody {expected : ℤ} {s : ProjectSnapshot} :
    Tx.Raises (.notAttached :: mutableFailures) (updateProjectSnapshotBody o i expected s) := by
  refine (raises_lockInitiative (by decide)).bind fun initiative => ?_
  split
  · exact raises_refuse (by decide)
  refine raises_database.bind fun _ => (raises_orRefuse (by decide)).bind fun revision => ?_
  split
  · exact raises_refuse (by decide)
  · exact raises_database.bind fun _ => raises_bumpInitiative.bind fun _ => raises_readProject

theorem raises_detachProjectBody {p : String} {expected expectedMembership : ℤ} :
    Tx.Raises (.notAttached :: mutableFailures) (detachProjectBody o i p expected expectedMembership) := by
  refine raises_locked (List.subset_cons_self _ _) fun _ => raises_database.bind fun deleted => ?_
  split
  · refine raises_database.bind fun found => ?_
    split <;> exact raises_refuse (by decide)
  · exact raises_bumpInitiative.bind fun _ => raises_ret _

theorem raises_writeOrder : ∀ items : List ReorderInput, Tx.Raises failures (writeOrder o i items)
  | [] => trivial
  | _ :: items => raises_database.bind fun _ => raises_fetched.bind fun _ =>
      (raises_writeOrder items).bind fun _ => raises_ret _

theorem raises_reorderProjectsBody {expected : ℤ} {items : List ReorderInput} :
    Tx.Raises (.invalidRequest :: mutableFailures) (reorderProjectsBody o i expected items) := by
  refine raises_locked (List.subset_cons_self _ _) fun _ => raises_database.bind fun current => ?_
  split
  · exact raises_refuse (by decide)
  · exact raises_database.bind fun _ => (raises_writeOrder items).bind fun _ =>
      raises_bumpInitiative.bind fun _ => raises_ret _

/-! ### The calls -/

theorem raises_admitCommand {c : Command} {operation : String} {codec : Codec α} :
    Tx.Raises admissionFailures (admitCommand c operation codec) := by
  refine raises_database.bind fun existing => ?_
  cases existing with
  | none =>
    refine raises_insert .operationInProgress (by decide) (fun d => ?_) fun _ => trivial
    cases d <;> first | exact .inl rfl | exact .inr ⟨_, rfl⟩
  | some row =>
    simp only
    split
    · exact raises_refuse (by decide)
    split
    · exact raises_refuse (by decide)
    split <;> trivial

theorem raises_command {c : Command} {operation : String} {codec : Codec α} {body : Tx α}
    (h : Tx.Raises failures body) : Tx.Raises (admissionFailures ++ failures) (command c operation codec body) := by
  have hadmit : Tx.Raises (admissionFailures ++ failures) (admitCommand c operation codec) :=
    raises_admitCommand.mono (List.subset_append_left _ _)
  have hbody : Tx.Raises (admissionFailures ++ failures) body := h.mono (List.subset_append_right _ _)
  refine hadmit.bind fun replay => ?_
  cases replay with
  | none => exact hbody.bind fun _ => raises_database.bind fun _ => raises_ret _
  | some _ => trivial

theorem raises_ensureExists : Tx.Raises [.notFound] (ensureExists o i) := by
  refine raises_database.bind fun found => ?_
  split
  · exact raises_ret _
  · exact raises_refuse (by decide)

theorem raises_listProjects {after : Option ℤ} {limit : ℤ} :
    Tx.Raises [.notFound] (listProjects o i after limit) :=
  raises_ensureExists.bind fun _ => raises_database.bind fun _ => raises_formatted

/-- **A storage function returns only the failures of its operation.** -/
theorem Storage.raises (s : Storage α) : Tx.Raises s.failures s.code := by
  cases s with
  | createInitiative => exact raises_command raises_createInitiativeBody
  | updateInitiative => exact raises_command raises_updateInitiativeBody
  | addUpdate => exact raises_command raises_addUpdateBody
  | archiveInitiative => exact raises_command raises_archiveInitiativeBody
  | attachProject => exact raises_command raises_attachProjectBody
  | updateProjectSnapshot => exact raises_command raises_updateProjectSnapshotBody
  | detachProject => exact raises_command raises_detachProjectBody
  | reorderProjects => exact raises_command raises_reorderProjectsBody
  | getInitiative => exact raises_readInitiative (List.mem_singleton_self _)
  | listInitiatives => exact raises_database.bind fun _ => raises_formatted
  | listUpdates => exact raises_ensureExists.bind fun _ => raises_database.bind fun _ => raises_formatted
  | listProjects => exact raises_listProjects
  | readRollup =>
    exact (raises_readInitiative (List.mem_singleton_self _)).bind fun _ => raises_listProjects.bind fun _ =>
        raises_formatted

end

/-! ### The error macros -/

/-- The error of the request's operation for a failure: `portfolio_error!`, `read_error!` or `admin_error!`. -/
def Request.mapped (q : Request) (failure : DomainFailure) : DomainError :=
  if q.isAdmin then .admin (adminError failure)
  else if q.json.isSome then .portfolio (portfolioError failure)
  else .read (readError failure)

/-- Every storage function the handler asks has `P`, and the handler answers its errors with those `map` gives. -/
def Handler.Maps {ε α : Type} (P : ∀ β, Storage β → Prop) (map : DomainFailure → ε) : Handler ε α → Prop
  | .ret _ => True
  | .throw _ => True
  | .call s k => P _ s ∧ (∀ e, k (.error e) = .throw (mapStorage map e)) ∧ ∀ a, Maps P map (k (.ok a))

section
variable {ε α β γ : Type} {P : ∀ β, Storage β → Prop} {map : DomainFailure → ε}

theorem Handler.Maps.bind : ∀ {h : Handler ε α} {f : α → Handler ε β}, h.Maps P map → (∀ a, (f a).Maps P map) →
    Handler.Maps P map (h >>= f)
  | .ret a, _, _, hf => hf a
  | .throw _, _, _, _ => trivial
  | .call _ _, _, hmaps, hf =>
    ⟨hmaps.1, fun e => congrArg (· >>= _) (hmaps.2.1 e), fun a => Maps.bind (hmaps.2.2 a) hf⟩

theorem Handler.Maps.mapError {error : ε → DomainError} : ∀ {h : Handler ε α}, h.Maps P map →
    Handler.Maps P (fun failure => error (map failure)) (h.mapError (PluginError.map error))
  | .ret _, _ => trivial
  | .throw _, _ => trivial
  | .call s k, hmaps => by
    refine ⟨hmaps.1, fun e => ?_, fun a => Maps.mapError (hmaps.2.2 a)⟩
    simp only [hmaps.2.1 e]
    cases e <;> rfl

theorem maps_as {error : ε → DomainError} {response : α → Response} {h : Handler ε α} (hmaps : h.Maps P map) :
    (h.as error response).Maps P fun failure => error (map failure) :=
  Handler.Maps.mapError (hmaps.bind fun _ => trivial)

theorem maps_stored {s : Storage β} {f : β → Handler ε α} (hs : P _ s) (hf : ∀ a, (f a).Maps P map) :
    Handler.Maps P map (stored s map >>= f) := ⟨hs, fun _ => rfl, hf⟩

theorem maps_prepared {plugin : ProjectPortfolioPlugin} {f : Unit → Handler ε α} (hf : (f ()).Maps P map) :
    Handler.Maps P map (prepared plugin >>= f) := by
  unfold prepared
  cases plugin.active with
  | false => trivial
  | true => exact hf

theorem maps_wireCast {x : Option α} : Handler.Maps P map (wireCast x) := by
  cases x <;> trivial

variable [OperationError ε]

theorem maps_authorized {r : Except AuthorizationFailure Authorized} {f : Authorized → Handler ε α}
    (hf : ∀ auth, (f auth).Maps P map) : Handler.Maps P map (authorized r >>= f) := by
  cases r with
  | ok auth => exact hf auth
  | error e => cases e <;> trivial

theorem maps_orInvalid {x : Option γ} {f : γ → Handler ε α} (hf : ∀ a, (f a).Maps P map) :
    Handler.Maps P map (orInvalid x >>= f) := by
  cases x with
  | none => trivial
  | some a => exact hf a

theorem maps_valid {b : Bool} {f : Unit → Handler ε α} (hf : (f ()).Maps P map) :
    Handler.Maps P map (valid b >>= f) := by
  cases b with
  | false => trivial
  | true => exact hf

end

/-- The failures of the function keep their names. -/
def Request.Names (q : Request) (β : Type) (s : Storage β) : Prop :=
  ∀ failure ∈ s.failures, (q.mapped failure).name = failure.name

/-- `portfolio_error!` names six failures. -/
theorem portfolioError_names {failures : List DomainFailure} (h : failures ⊆ admissionFailures ++
    .alreadyExists :: mutableFailures) : ∀ failure ∈ failures, (portfolioError failure).name = failure.name := by
  have hall : ∀ failure ∈ admissionFailures ++ .alreadyExists :: mutableFailures,
      (portfolioError failure).name = failure.name := by decide
  exact fun failure hfailure => hall failure (h hfailure)

/-- `read_error!` names one. -/
theorem readError_names {failures : List DomainFailure} (h : failures ⊆ [.notFound]) :
    ∀ failure ∈ failures, (readError failure).name = failure.name := by
  have hall : ∀ failure ∈ [DomainFailure.notFound], (readError failure).name = failure.name := by decide
  exact fun failure hfailure => hall failure (h hfailure)

/-- `admin_error!` names all but that of a taken id, the last arm those of a refused request. -/
theorem adminError_names {failures : List DomainFailure} (h : .alreadyExists ∉ failures) :
    ∀ failure ∈ failures, (adminError failure).name = failure.name := by
  intro failure hfailure
  cases failure with
  | alreadyExists => exact absurd hfailure h
  | _ => rfl

/-- **A handler maps every failure of the function it asks to the error of the same name.** -/
theorem handle_maps (plugin : ProjectPortfolioPlugin) (context : Context) (q : Request) :
    (q.handle plugin context).Maps q.Names q.mapped := by
  cases q with
  | createInitiative r =>
    refine @maps_as _ _ _ portfolioError _ _ _ (maps_authorized fun _ => maps_orInvalid fun _ => maps_valid
      (maps_prepared (maps_stored ?_ fun _ => maps_wireCast)))
    exact portfolioError_names (by rw [Storage.failures]; decide)
  | getInitiative r =>
    refine @maps_as _ _ _ readError _ _ _ (maps_authorized fun _ => maps_valid
      (maps_prepared (maps_stored ?_ fun _ => maps_wireCast)))
    exact readError_names (by rw [Storage.failures]; decide)
  | listInitiatives r =>
    refine @maps_as _ _ _ readError _ _ _ (maps_authorized fun _ => maps_orInvalid fun _ => maps_valid
      (maps_prepared (maps_stored ?_ fun _ => maps_wireCast.bind fun _ => trivial)))
    exact readError_names (by rw [Storage.failures]; decide)
  | updateInitiative r =>
    refine @maps_as _ _ _ portfolioError _ _ _ (maps_authorized fun _ => maps_orInvalid fun _ => maps_orInvalid fun _ =>
      maps_valid (maps_prepared (maps_stored ?_ fun _ => maps_wireCast)))
    exact portfolioError_names (by rw [Storage.failures]; decide)
  | listInitiativeProjects r =>
    refine @maps_as _ _ _ readError _ _ _ (maps_authorized fun _ => maps_valid
      (maps_prepared (maps_stored ?_ fun _ => maps_wireCast.bind fun _ => trivial)))
    exact readError_names (by rw [Storage.failures]; decide)
  | addInitiativeUpdate r =>
    refine @maps_as _ _ _ portfolioError _ _ _ (maps_authorized fun _ => maps_orInvalid fun _ => maps_valid
      (maps_prepared (maps_stored ?_ fun _ => maps_wireCast)))
    exact portfolioError_names (by rw [Storage.failures]; decide)
  | listInitiativeUpdates r =>
    refine @maps_as _ _ _ readError _ _ _ (maps_authorized fun _ => maps_orInvalid fun _ => maps_valid
      (maps_prepared (maps_stored ?_ fun _ => maps_wireCast.bind fun _ => trivial)))
    exact readError_names (by rw [Storage.failures]; decide)
  | readRollup r =>
    refine @maps_as _ _ _ readError _ _ _ (maps_authorized fun _ => maps_valid
      (maps_prepared (maps_stored ?_ fun _ => maps_wireCast)))
    exact readError_names (by rw [Storage.failures]; decide)
  | archiveInitiative r =>
    refine @maps_as _ _ _ adminError _ _ _ (maps_authorized fun _ => maps_orInvalid fun _ =>
      maps_prepared (maps_stored ?_ fun _ => maps_wireCast))
    exact adminError_names (by rw [Storage.failures]; decide)
  | attachProject r =>
    refine @maps_as _ _ _ adminError _ _ _ (maps_authorized fun _ => maps_orInvalid fun _ => maps_orInvalid fun _ =>
      maps_valid (maps_prepared (maps_stored ?_ fun _ => maps_wireCast)))
    exact adminError_names (by rw [Storage.failures]; decide)
  | updateProjectSnapshot r =>
    refine @maps_as _ _ _ adminError _ _ _ (maps_authorized fun _ => maps_orInvalid fun _ => maps_orInvalid fun _ =>
      maps_prepared (maps_stored ?_ fun _ => maps_wireCast))
    exact adminError_names (by rw [Storage.failures]; decide)
  | detachProject r =>
    refine @maps_as _ _ _ adminError _ _ _ (maps_authorized fun _ => maps_orInvalid fun _ => maps_orInvalid fun _ =>
      maps_prepared (maps_stored ?_ fun _ => maps_wireCast))
    exact adminError_names (by rw [Storage.failures]; decide)
  | reorderProjects r =>
    refine @maps_as _ _ _ adminError _ _ _ (maps_authorized fun _ => maps_orInvalid fun _ => maps_orInvalid fun _ =>
      maps_prepared (maps_stored ?_ fun _ => maps_wireCast))
    exact adminError_names (by rw [Storage.failures]; decide)

/-! ### Whatever fails -/

/-- The storage function returns the failure: on some tables, on a state of each statement's own moment, or to an
attempt of a run. -/
inductive Storage.Returns {β : Type} (s : Storage β) (failure : DomainFailure) : Prop
  | serve {t : ℕ → Tick} {T : Tables} (h : (s.serve t T).1 = .error (.domain failure))
  | observe {t : ℕ → Tick} {T : ℕ → Tables} (h : (s.code.observe t T).1 = .error (.domain failure))
  | attempt {ok : Call → Prop} {w : Sequences} {S : System} {i : ℕ} {c : Call} {wrap : β → Record}
      (hcall : s.call = some (c, wrap)) (h : Txn.Steps Call.code ok (System.initial w) S)
      (hi : S.threads i = .failed c (.domain failure))

section
variable {plugin : ProjectPortfolioPlugin} {context : Context} {q : Request} {β : Type} {s : Storage β}
  {k : Except StorageError β → Handler DomainError Response} {failure failure' : DomainFailure}

theorem Storage.Returns.mem (h : s.Returns failure) : failure ∈ s.failures := by
  cases h with
  | serve h =>
    unfold Storage.serve at h
    split at h
    · exact s.raises.atomic h
    · exact s.raises.run h
  | observe h => exact s.raises.observe h
  | attempt hcall h hi =>
    refine h.raises hi (StorageError.Among s.failures) ?_
    rw [code_of_call hcall]
    exact s.raises.bind fun _ => raises_ret _

/-- What the handler that asks the function makes of its errors. -/
theorem mapped_of_asked (h : q.handle plugin context = .call s k) :
    q.Names β s ∧ ∀ e, k (.error e) = .throw (mapStorage q.mapped e) := by
  have hmaps := handle_maps plugin context q
  rw [h] at hmaps
  exact ⟨hmaps.1, hmaps.2.1⟩

/-- The handler of a mutation answers an error of its storage function with the one it is mapped to, and a failure
with the error of its name. -/
theorem serve_mapped {c : Call} (hc : Handler.mutation (q.handle plugin context) = some c) {t : ℕ → Tick} {T : Tables}
    {e : StorageError} (he : (atomic c.code t T).1 = .error e) :
    Handler.serve (q.handle plugin context) t T = (.error (mapStorage q.mapped e), T) ∧
      ∀ failure, e = .domain failure → (q.mapped failure).name = failure.name := by
  rcases handle_asks plugin context q with ⟨e', he'⟩ | ⟨β, s, map, answer, hfor, he'⟩
  · rw [he'] at hc
    cases hc
  · obtain ⟨hnames, hmaps⟩ := mapped_of_asked he'
    rw [he'] at hc
    obtain ⟨⟨c', wrap⟩, hcall, rfl⟩ := Option.map_eq_some_iff.mp hc
    have hs : (s.serve t T).1 = .error e := by
      rw [atomic_fst, code_of_call hcall, run_bind] at he
      rw [Storage.serve, hcall]
      show (atomic s.code t T).1 = .error e
      rw [atomic_fst]
      rcases hrun : s.code.run t T with ⟨e₁ | a, t', T'⟩
      · rw [hrun] at he
        exact congrArg Except.error (Except.error.inj he)
      · rw [hrun] at he
        cases he
    refine ⟨?_, fun failure hfailure => hnames failure ?_⟩
    · rw [he', serve_asks, hs, serve_error hs]
      have hthrow : (Prog.throw (mapStorage map e) : Handler DomainError Response) = .throw (mapStorage q.mapped e) :=
        hmaps e
      show (Except.error (mapStorage map e), T) = _
      rw [Prog.throw.inj hthrow]
    · exact Storage.Returns.mem (.serve (hfailure ▸ hs))

/-- **No failure is lost in the last arm of a macro.** Whatever failure a storage function returns, on whatever
tables, at whatever moment of whatever run, the handler that asked answers with the error of its name, and two
failures with two errors. -/
theorem failures_keep_their_names (hasked : q.handle plugin context = .call s k) :
    (∀ failure, s.Returns failure → k (.error (.domain failure)) = .throw (.domain (q.mapped failure)) ∧
      (q.mapped failure).name = failure.name) ∧
    (∀ t T failure, (s.serve t T).1 = .error (.domain failure) →
      (Handler.serve (q.handle plugin context) t T).1 = .error (.domain (q.mapped failure))) ∧
    (∀ t T failure, (s.code.observe t T).1 = .error (.domain failure) →
      (Handler.observe (q.handle plugin context) t T).1 = .error (.domain (q.mapped failure))) ∧
    ∀ failure failure', s.Returns failure → s.Returns failure' → q.mapped failure = q.mapped failure' →
      failure = failure' := by
  obtain ⟨hnames, hmaps⟩ := mapped_of_asked hasked
  refine ⟨fun failure h => ⟨hmaps _, hnames failure h.mem⟩, fun t T failure h => ?_, fun t T failure h => ?_, ?_⟩
  · rw [hasked, Handler.serve, h, hmaps]
    rfl
  · rw [hasked, Handler.observe, h, hmaps]
    rfl
  · intro failure failure' h h' heq
    refine name_injective ?_
    rw [← hnames failure h.mem, ← hnames failure' h'.mem, heq]

end

/-- A create of an initiative that is there, under another key. -/
def sampleAgainRequest : Request := .createInitiative ⟨"again", "alpha", "Roadmap", "acme", none, none, none, none⟩

theorem failures_keep_their_names_taken :
    (Handler.serve (sampleAgainRequest.handle samplePlugin sampleContext) (fun _ => default)
      (Handler.serve (sampleCreateRequest.handle samplePlugin sampleContext) (fun _ => default) Tables.empty).2).1 =
        .error (.domain (.portfolio .alreadyExists)) :=
  (@failures_keep_their_names samplePlugin sampleContext sampleAgainRequest _
    (.createInitiative ⟨"planner", "ann", "again", []⟩ ⟨"acme", "alpha", "Roadmap", none, none, none, none⟩) _
    rfl).2.1 _ _ .alreadyExists (by decide +kernel)

end Portfolio
