/-
# The statements an operation issues

Every statement of a storage function is one of the texts of `storage.rs`,
bound to the organization the function was asked for; the statements on
receipts are bound to the key of its command, and the row of an update names
the actor of its command as its author (`storage_statements`). What all
statements of the operations share is then one case analysis over `Sql.For`.

Key definitions: `Sql.For`, `Tx.For`.
Key theorems: `storage_statements`.
-/
import Portfolio.Responses

namespace Portfolio

open Txn Txn.Prog

/-- The statement is one of the storage layer's for the organization `o`: its receipts are `mine`, the
author of its updates is `actor`. -/
inductive Sql.For (o : String) (mine : CommandKey → Bool) (actor : String) : {β : Type} → Sql β → Prop
  | selectCommand {k : CommandKey} (hk : mine k = true) : For o mine actor (Sql.selectCommand k)
  | insertCommand {k : CommandKey} (hash : List UInt8) (hk : mine k = true) :
    For o mine actor (Sql.insertCommand k hash)
  | updateCommand {k : CommandKey} (response : Json) (hk : mine k = true) :
    For o mine actor (Sql.updateCommand k response)
  | nextInitiativeSeq : For o mine actor Sql.nextInitiativeSeq
  | insertInitiative {v : InitiativeCreate} (rowSeq : ℤ) (hv : v.organizationId = o) :
    For o mine actor (Sql.insertInitiative v rowSeq)
  | updateInitiative (i : String) (patch : InitiativePatch) : For o mine actor (Sql.updateInitiative o i patch)
  | advanceInitiative (i health : String) (progress revision : ℤ) :
    For o mine actor (Sql.advanceInitiative o i health progress revision)
  | archiveInitiative (i : String) : For o mine actor (Sql.archiveInitiative o i)
  | bumpInitiative (i : String) : For o mine actor (Sql.bumpInitiative o i)
  | selectInitiativeForUpdate (i : String) : For o mine actor (Sql.selectInitiativeForUpdate o i)
  | selectInitiative (i : String) : For o mine actor (Sql.selectInitiative o i)
  | listInitiatives (includeArchived : Bool) (after limit : ℤ) :
    For o mine actor (Sql.listInitiatives o includeArchived after limit)
  | existsInitiative (i : String) : For o mine actor (Sql.existsInitiative o i)
  | nextUpdateSeq : For o mine actor Sql.nextUpdateSeq
  | insertUpdate {v : Sql.UpdateValues} (rowSeq : ℤ) (hv : v.organizationId = o) (ha : v.createdBy = actor) :
    For o mine actor (Sql.insertUpdate v rowSeq)
  | selectUpdate (u : String) : For o mine actor (Sql.selectUpdate o u)
  | listUpdates (i : String) (after limit : ℤ) : For o mine actor (Sql.listUpdates o i after limit)
  | insertProject (i : String) (s : ProjectSnapshot) (position : ℤ) :
    For o mine actor (Sql.insertProject o i s position)
  | selectPosition (i p : String) : For o mine actor (Sql.selectPosition o i p)
  | countProjects (i : String) : For o mine actor (Sql.countProjects o i)
  | selectProject (i p : String) : For o mine actor (Sql.selectProject o i p)
  | existsProject (i p : String) : For o mine actor (Sql.existsProject o i p)
  | listProjects (i : String) (after limit : ℤ) : For o mine actor (Sql.listProjects o i after limit)
  | selectProjectForUpdate (i p : String) : For o mine actor (Sql.selectProjectForUpdate o i p)
  | updateSnapshot (i : String) (s : ProjectSnapshot) : For o mine actor (Sql.updateSnapshot o i s)
  | deleteProject (i p : String) (revision : ℤ) : For o mine actor (Sql.deleteProject o i p revision)
  | selectOrderForUpdate (i : String) : For o mine actor (Sql.selectOrderForUpdate o i)
  | stageOrder (i : String) : For o mine actor (Sql.stageOrder o i)
  | writePosition (i p : String) (position : ℤ) : For o mine actor (Sql.writePosition o i p position)

/-! ### The storage functions -/

/-- The statements of a program are the storage layer's for one organization. -/
abbrev Tx.For {α : Type} (o : String) (mine : CommandKey → Bool) (actor : String) (p : Tx α) : Prop :=
  p.Calls fun _ st => Sql.For o mine actor st

section
variable {o actor i : String} {mine : CommandKey → Bool} {α β : Type}

theorem for_perform {st : Sql α} {err : DbError → StorageError} (h : Sql.For o mine actor st) :
    Tx.For o mine actor (perform st err) := calls_perform.mpr h

/-- An attempted statement whose faults throw. -/
theorem for_attempt {st : Sql β} {f : Except DbError β → Tx α} (h : Sql.For o mine actor st)
    (hf : ∀ e, ∃ e', f (.error e) = .throw e') (hok : ∀ b, (f (.ok b)).For o mine actor) :
    Tx.For o mine actor (attempt st >>= f) := by
  refine calls_attempt_bind.mpr ⟨h, fun r => ?_⟩
  cases r with
  | error e =>
    obtain ⟨e', he⟩ := hf e
    rw [he]
    exact calls_throw e'
  | ok b => exact hok b

theorem for_lockInitiative : (lockInitiative o i).For o mine actor :=
  Calls.bind (for_perform (.selectInitiativeForUpdate i)) fun _ => calls_orRefuse.bind fun _ => trivial

theorem for_requireMutableRevision {current : LockedInitiative} {expected : ℤ} :
    (requireMutableRevision current expected).For o mine actor := by
  unfold requireMutableRevision
  split
  · trivial
  · split <;> trivial

/-- What a mutation issues once its initiative is locked. -/
theorem for_locked {expected : ℤ} {f : LockedInitiative → Tx α} (h : ∀ current, (f current).For o mine actor) :
    Tx.For o mine actor
      (lockInitiative o i >>= fun current => requireMutableRevision current expected >>= fun _ => f current) :=
  for_lockInitiative.bind fun current => for_requireMutableRevision.bind fun _ => h current

theorem for_bumpInitiative : (bumpInitiative o i).For o mine actor :=
  Calls.bind (for_perform (.bumpInitiative i)) fun _ => calls_fetched.bind fun _ => trivial

theorem for_readInitiative : (readInitiative o i).For o mine actor :=
  Calls.bind (for_perform (.selectInitiative i)) fun _ => calls_orRefuse.bind fun _ => calls_formatted

theorem for_readProject {operation p : String} {revision : ℤ} :
    (readProject operation o i p revision).For o mine actor :=
  Calls.bind (for_perform (.selectProject i p)) fun _ => calls_fetched.bind fun _ => calls_formatted

theorem for_createInitiativeBody {v : InitiativeCreate} (hv : v.organizationId = o) :
    (createInitiativeBody v).For o mine actor := by
  refine Calls.bind (for_perform .nextInitiativeSeq) fun rowSeq => ?_
  refine for_attempt (.insertInitiative rowSeq hv) (fun e => ?_) fun _ => ?_
  · cases e <;> exact ⟨_, rfl⟩
  · rw [hv]
    exact for_readInitiative

theorem for_updateInitiativeBody {expected : ℤ} {patch : InitiativePatch} :
    (updateInitiativeBody o i expected patch).For o mine actor :=
  for_locked fun _ => Calls.bind (for_perform (.updateInitiative i patch)) fun _ => for_readInitiative

theorem for_archiveInitiativeBody {expected : ℤ} : (archiveInitiativeBody o i expected).For o mine actor :=
  for_locked fun _ => Calls.bind (for_perform (.archiveInitiative i)) fun _ =>
    calls_fetched.bind fun _ => calls_formatted

theorem for_addUpdateBody {update : String} {expected : ℤ} {health summary : String} {progress : ℤ} :
    (addUpdateBody actor o i update expected health summary progress).For o mine actor := by
  refine for_locked fun current => Calls.bind (for_perform .nextUpdateSeq) fun rowSeq => ?_
  refine for_attempt (.insertUpdate rowSeq rfl rfl) (fun e => ?_) fun _ => ?_
  · cases e <;> exact ⟨_, rfl⟩
  · exact Calls.bind (for_perform (.advanceInitiative i health progress _)) fun _ =>
      Calls.bind (for_perform (.selectUpdate update)) fun _ => calls_fetched.bind fun _ => calls_formatted

theorem for_attachProjectBody {expected position : ℤ} {s : ProjectSnapshot} :
    (attachProjectBody o i expected s position).For o mine actor := by
  refine for_locked fun _ => Calls.bind (for_perform (.selectPosition i s.projectId)) fun existing => ?_
  split
  · trivial
  refine Calls.bind (for_perform (.countProjects i)) fun count => ?_
  split
  · trivial
  refine for_attempt (.insertProject i s position) (fun e => ?_) fun _ => ?_
  · cases e <;> exact ⟨_, rfl⟩
  · exact for_bumpInitiative.bind fun _ => for_readProject

theorem for_updateProjectSnapshotBody {expected : ℤ} {s : ProjectSnapshot} :
    (updateProjectSnapshotBody o i expected s).For o mine actor := by
  refine for_lockInitiative.bind fun initiative => ?_
  split
  · trivial
  refine Calls.bind (for_perform (.selectProjectForUpdate i s.projectId)) fun _ =>
      calls_orRefuse.bind fun revision => ?_
  split
  · trivial
  exact Calls.bind (for_perform (.updateSnapshot i s)) fun _ => for_bumpInitiative.bind fun _ => for_readProject

theorem for_detachProjectBody {p : String} {expected expectedMembership : ℤ} :
    (detachProjectBody o i p expected expectedMembership).For o mine actor := by
  refine for_locked fun _ => Calls.bind (for_perform (.deleteProject i p expectedMembership)) fun deleted => ?_
  split
  · refine Calls.bind (for_perform (.existsProject i p)) fun found => ?_
    split <;> trivial
  · exact for_bumpInitiative.bind fun _ => trivial

theorem for_writeOrder : ∀ items : List ReorderInput, (writeOrder o i items).For o mine actor
  | [] => trivial
  | item :: items => Calls.bind (for_perform (.writePosition i item.projectId item.position)) fun _ =>
      calls_fetched.bind fun _ => (for_writeOrder items).bind fun _ => trivial

theorem for_reorderProjectsBody {expected : ℤ} {items : List ReorderInput} :
    (reorderProjectsBody o i expected items).For o mine actor := by
  refine for_locked fun _ => Calls.bind (for_perform (.selectOrderForUpdate i)) fun current => ?_
  split
  · trivial
  exact Calls.bind (for_perform (.stageOrder i)) fun _ => (for_writeOrder items).bind fun _ =>
    for_bumpInitiative.bind fun _ => trivial

theorem for_admitCommand {c : Command} {operation : String} {codec : Codec α}
    (hk : mine (c.receipt operation) = true) : (admitCommand c operation codec).For o mine actor := by
  refine Calls.bind (for_perform (.selectCommand hk)) fun existing => ?_
  rcases existing with _ | row
  · refine for_attempt (.insertCommand c.hash hk) (fun e => ?_) fun _ => trivial
    cases e <;> exact ⟨_, rfl⟩
  · simp only
    split
    · trivial
    split
    · trivial
    split <;> trivial

theorem for_command {c : Command} {operation : String} {codec : Codec α} {body : Tx α}
    (hk : mine (c.receipt operation) = true) (h : body.For o mine actor) :
    (command c operation codec body).For o mine actor := by
  refine (for_admitCommand hk).bind fun replay => ?_
  rcases replay with _ | replay
  · exact h.bind fun record => Calls.bind (for_perform (.updateCommand (codec.enc record) hk)) fun _ => trivial
  · trivial

theorem for_ensureExists : (ensureExists o i).For o mine actor := by
  refine Calls.bind (for_perform (.existsInitiative i)) fun found => ?_
  cases found <;> trivial

theorem for_listProjects {after : Option ℤ} {limit : ℤ} : (listProjects o i after limit).For o mine actor :=
  for_ensureExists.bind fun _ => Calls.bind (for_perform (.listProjects i _ limit)) fun _ => calls_formatted

/-- **The statements of a storage function** are those of its organization, its command's receipt and
its command's actor. -/
theorem storage_statements {s : Storage α} (ho : s.organizationId = o)
    (hc : ∀ c wrap, s.call = some (c, wrap) → mine c.key = true ∧ c.command.actor = actor) :
    s.code.For o mine actor := by
  subst ho
  cases s with
  | createInitiative => exact for_command (hc _ _ rfl).1 (for_createInitiativeBody rfl)
  | updateInitiative => exact for_command (hc _ _ rfl).1 for_updateInitiativeBody
  | addUpdate c =>
    obtain ⟨hk, hactor⟩ := hc _ _ rfl
    subst hactor
    exact for_command hk for_addUpdateBody
  | archiveInitiative => exact for_command (hc _ _ rfl).1 for_archiveInitiativeBody
  | attachProject => exact for_command (hc _ _ rfl).1 for_attachProjectBody
  | updateProjectSnapshot => exact for_command (hc _ _ rfl).1 for_updateProjectSnapshotBody
  | detachProject => exact for_command (hc _ _ rfl).1 for_detachProjectBody
  | reorderProjects => exact for_command (hc _ _ rfl).1 for_reorderProjectsBody
  | getInitiative => exact for_readInitiative
  | listInitiatives =>
    exact Calls.bind (for_perform (.listInitiatives _ _ _)) fun _ => calls_formatted
  | listUpdates =>
    exact for_ensureExists.bind fun _ => Calls.bind (for_perform (.listUpdates _ _ _)) fun _ => calls_formatted
  | listProjects => exact for_listProjects
  | readRollup => exact for_readInitiative.bind fun _ => for_listProjects.bind fun _ => calls_formatted

end

end Portfolio
