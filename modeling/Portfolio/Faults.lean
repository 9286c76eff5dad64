/-
# What a failing statement becomes

Every statement of a mutation that fails ends it: with a database error that
carries the fault, or, where the INSERT of a key is refused, with the failure
the code maps a unique violation to. The mutation throws no database error of
its own but the missing row of a `RETURNING`.

Key definitions: `uniqueFailures`, `Surfaces`, `StorageError.Own`.
Key theorems: `Call.reports`.
-/
import Portfolio.Storage
import Portfolio.Txn.Reports

namespace Portfolio

open Txn Txn.Prog

/-- What a unique violation is mapped to. -/
def uniqueFailures : List DomainFailure := [.alreadyExists, .positionConflict, .operationInProgress]

/-- What a mutation ends with when a statement fails. -/
inductive Surfaces : DbError → StorageError → Prop
  | database (operation : String) (source : DbError) : Surfaces source (.database operation source)
  | unique {failure : DomainFailure} (h : failure ∈ uniqueFailures) :
      Surfaces .uniqueViolation (.domain failure)

/-- What a mutation ends with when no statement has failed. -/
def StorageError.Own : StorageError → Prop
  | .database _ source => source = .rowNotFound
  | .domain _ => True
  | .receipt => True
  | .time => True

/-- The program ends at a failing statement, with what reports it. -/
abbrev Tx.Reports {α : Type} (p : Tx α) : Prop := Prog.Reports StorageError.Own Surfaces p

section
variable {α β : Type} {o i : String}

theorem reports_database {st : Sql α} {operation : String} : Tx.Reports (perform st (.database operation)) :=
  reports_perform fun d => .database operation d

/-- An attempted INSERT whose unique violation has a failure of its own. -/
theorem reports_insert {st : Sql β} {f : Except DbError β → Tx α}
    (hunique : ∃ failure ∈ uniqueFailures, f (.error .uniqueViolation) = refuse failure)
    (herr : ∀ d, d ≠ .uniqueViolation → ∃ operation, f (.error d) = .throw (.database operation d))
    (hok : ∀ b, Tx.Reports (f (.ok b))) : Tx.Reports (attempt st >>= f) := by
  refine reports_attempt (fun d => ?_) hok
  by_cases hd : d = .uniqueViolation
  · obtain ⟨failure, hfailure, hrefuse⟩ := hunique
    rw [hd]
    exact ⟨_, hrefuse, .unique hfailure⟩
  · obtain ⟨operation, hthrow⟩ := herr d hd
    exact ⟨_, hthrow, .database operation d⟩

theorem reports_refuse {failure : DomainFailure} : Tx.Reports (refuse failure : Tx α) :=
  reports_throw trivial

theorem reports_orRefuse {failure : DomainFailure} {x : Option α} : Tx.Reports (orRefuse failure x) := by
  cases x with
  | none => exact reports_refuse
  | some a => exact reports_ret a

theorem reports_fetched {operation : String} {x : Option α} : Tx.Reports (fetched operation x) := by
  cases x with
  | none => exact reports_throw rfl
  | some a => exact reports_ret a

theorem reports_formatted {x : Option α} : Tx.Reports (formatted x) := by
  cases x with
  | none => exact reports_throw trivial
  | some a => exact reports_ret a

theorem reports_requireMutableRevision {current : LockedInitiative} {expected : ℤ} :
    Tx.Reports (requireMutableRevision current expected) := by
  unfold requireMutableRevision
  split
  · exact reports_refuse
  · split
    · exact reports_refuse
    · exact reports_ret _

theorem reports_lockInitiative : Tx.Reports (lockInitiative o i) :=
  reports_database.bind fun _ => reports_orRefuse.bind fun _ => reports_ret _

/-- What a mutation does once its initiative is locked. -/
theorem reports_locked {expected : ℤ} {f : LockedInitiative → Tx α} (h : ∀ current, Tx.Reports (f current)) :
    Tx.Reports (lockInitiative o i >>= fun current =>
      requireMutableRevision current expected >>= fun _ => f current) :=
  reports_lockInitiative.bind fun current => reports_requireMutableRevision.bind fun _ => h current

theorem reports_bumpInitiative : Tx.Reports (bumpInitiative o i) :=
  reports_database.bind fun _ => reports_fetched.bind fun _ => reports_ret _

theorem reports_readInitiative : Tx.Reports (readInitiative o i) :=
  reports_database.bind fun _ => reports_orRefuse.bind fun _ => reports_formatted

theorem reports_readProject {operation p : String} {revision : ℤ} :
    Tx.Reports (readProject operation o i p revision) :=
  reports_database.bind fun _ => reports_fetched.bind fun _ => reports_formatted

/-! ### The bodies -/

theorem reports_createInitiativeBody {v : InitiativeCreate} : Tx.Reports (createInitiativeBody v) := by
  refine reports_database.bind fun rowSeq => reports_insert ⟨.alreadyExists, by decide, rfl⟩ ?_ ?_
  · intro d hd
    cases d <;> first | exact ⟨_, rfl⟩ | exact absurd rfl hd
  · exact fun _ => reports_readInitiative

theorem reports_updateInitiativeBody {expected : ℤ} {patch : InitiativePatch} :
    Tx.Reports (updateInitiativeBody o i expected patch) :=
  reports_locked fun _ => reports_database.bind fun _ => reports_readInitiative

theorem reports_archiveInitiativeBody {expected : ℤ} : Tx.Reports (archiveInitiativeBody o i expected) :=
  reports_locked fun _ => reports_database.bind fun _ => reports_fetched.bind fun _ => reports_formatted

theorem reports_addUpdateBody {actor update : String} {expected : ℤ} {health summary : String} {progress : ℤ} :
    Tx.Reports (addUpdateBody actor o i update expected health summary progress) := by
  refine reports_locked fun current => reports_database.bind fun rowSeq =>
    reports_insert ⟨.alreadyExists, by decide, rfl⟩ ?_ ?_
  · intro d hd
    cases d <;> first | exact ⟨_, rfl⟩ | exact absurd rfl hd
  · exact fun _ => reports_database.bind fun _ => reports_database.bind fun _ =>
      reports_fetched.bind fun _ => reports_formatted

theorem reports_attachProjectBody {expected position : ℤ} {s : ProjectSnapshot} :
    Tx.Reports (attachProjectBody o i expected s position) := by
  refine reports_locked fun _ => reports_database.bind fun existing => ?_
  split
  · exact reports_refuse
  refine reports_database.bind fun count => ?_
  split
  · exact reports_refuse
  refine reports_insert ⟨.positionConflict, by decide, rfl⟩ ?_ ?_
  · intro d hd
    cases d <;> first | exact ⟨_, rfl⟩ | exact absurd rfl hd
  · exact fun _ => reports_bumpInitiative.bind fun _ => reports_readProject

theorem reports_updateProjectSnapshotBody {expected : ℤ} {s : ProjectSnapshot} :
    Tx.Reports (updateProjectSnapshotBody o i expected s) := by
  refine reports_lockInitiative.bind fun initiative => ?_
  split
  · exact reports_refuse
  refine reports_database.bind fun _ => reports_orRefuse.bind fun revision => ?_
  split
  · exact reports_refuse
  exact reports_database.bind fun _ => reports_bumpInitiative.bind fun _ => reports_readProject

theorem reports_detachProjectBody {p : String} {expected expectedMembership : ℤ} :
    Tx.Reports (detachProjectBody o i p expected expectedMembership) := by
  refine reports_locked fun _ => reports_database.bind fun deleted => ?_
  split
  · refine reports_database.bind fun found => ?_
    split <;> exact reports_refuse
  · exact reports_bumpInitiative.bind fun _ => reports_ret _

theorem reports_writeOrder : ∀ items : List ReorderInput, Tx.Reports (writeOrder o i items)
  | [] => trivial
  | _ :: items => reports_database.bind fun _ => reports_fetched.bind fun _ =>
      (reports_writeOrder items).bind fun _ => reports_ret _

theorem reports_reorderProjectsBody {expected : ℤ} {items : List ReorderInput} :
    Tx.Reports (reorderProjectsBody o i expected items) := by
  refine reports_locked fun _ => reports_database.bind fun current => ?_
  split
  · exact reports_refuse
  exact reports_database.bind fun _ => (reports_writeOrder items).bind fun _ =>
    reports_bumpInitiative.bind fun _ => reports_ret _

/-! ### The calls -/

theorem reports_admitCommand {c : Command} {operation : String} {codec : Codec α} :
    Tx.Reports (admitCommand c operation codec) := by
  refine reports_database.bind fun existing => ?_
  cases existing with
  | none =>
    refine reports_insert ⟨.operationInProgress, by decide, rfl⟩ (fun d hd => ?_) fun _ => trivial
    cases d <;> first | exact ⟨_, rfl⟩ | exact absurd rfl hd
  | some row =>
    simp only
    split
    · exact reports_refuse
    split
    · exact reports_refuse
    split <;> trivial

theorem reports_command {c : Command} {operation : String} {codec : Codec α} {body : Tx α} (h : Tx.Reports body) :
    Tx.Reports (command c operation codec body) := by
  refine reports_admitCommand.bind fun replay => ?_
  cases replay with
  | none => exact h.bind fun _ => reports_database.bind fun _ => reports_ret _
  | some _ => trivial

/-- **A mutation reports the statement that fails.** -/
theorem Call.reports (c : Call) : Tx.Reports c.code := by
  obtain ⟨c, op⟩ := c
  cases op with
  | createInitiative => exact (reports_command reports_createInitiativeBody).bind fun _ => reports_ret _
  | updateInitiative => exact (reports_command reports_updateInitiativeBody).bind fun _ => reports_ret _
  | addUpdate => exact (reports_command reports_addUpdateBody).bind fun _ => reports_ret _
  | archiveInitiative => exact (reports_command reports_archiveInitiativeBody).bind fun _ => reports_ret _
  | attachProject => exact (reports_command reports_attachProjectBody).bind fun _ => reports_ret _
  | updateProjectSnapshot => exact (reports_command reports_updateProjectSnapshotBody).bind fun _ => reports_ret _
  | detachProject => exact (reports_command reports_detachProjectBody).bind fun _ => reports_ret _
  | reorderProjects => exact (reports_command reports_reorderProjectsBody).bind fun _ => reports_ret _

end

end Portfolio
