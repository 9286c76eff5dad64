/-
# Archival

Once archived, an initiative stays as it is: every mutation that runs on it
checks the flag under the row lock, a create finds the key taken, and a replay
changes nothing. So its row, memberships and updates are those of the moment
it was archived, for good (`archival_is_terminal`). What a fresh mutation of
it fails with is the flag's failure, or the database's own before the check,
for which there is then a cause (`Causes`).

Key definitions: `Causes`, `Refused`.
Key theorems: `about_of_archived`, `archived_iff_archivedAt`,
`refused_of_archived`, `archival_is_terminal`.
-/
import Portfolio.Requests

namespace Portfolio

open Txn Txn.Prog

/-! ### Archived initiatives do not change -/

/-- The initiative is there and archived. -/
def Facts.Archived (F : Facts) (o i : String) : Prop := ∃ row, F.initiative o i = some row ∧ row.archived = true

/-- No fresh success is on an archived initiative. -/
theorem Fresh.not_on_archived {actor : String} {op : Op} {F F' : Facts} {r : Record} {o i : String}
    (h : Fresh actor op F r F') (ha : F.Archived o i) : ¬ op.On o i := by
  rintro ⟨rfl, rfl⟩
  obtain ⟨row, hrow, harch⟩ := ha
  rcases h.guard with ⟨-, hnone⟩ | ⟨-, row', hopen⟩
  · rw [hnone] at hrow
    cases hrow
  · rw [hopen.found] at hrow
    obtain rfl := Option.some.inj hrow
    rw [hopen.unarchived] at harch
    cases harch

/-- A history leaves an archived initiative as it is. -/
theorem about_of_archived {T T' : Tables} {cs : List Committed} (h : History T cs T') {o i : String}
    (ha : T.Archived o i) : T'.about o i = T.about o i := by
  refine h.preserves (I := fun F => F.about o i = T.about o i) rfl fun x hx F F' r hF hf => ?_
  refine (hf.elsewhere (hf.not_on_archived ?_)).trans hF
  obtain ⟨row, hrow, harch⟩ := ha
  exact ⟨row, (initiative_of_about hF).trans hrow, harch⟩

/-! ### The flag and the time -/

/-- The flag is set exactly with the time of archival. -/
def InitiativeRow.Stamped (row : InitiativeRow) : Prop := row.archived = row.archivedAt.isSome

theorem Fresh.stamped {actor : String} {op : Op} {F F' : Facts} {r : Record} (h : Fresh actor op F r F')
    (hF : ∀ row ∈ F.initiatives, row.Stamped) : ∀ row ∈ F'.initiatives, row.Stamped := by
  have hset : ∀ {o i : String} {row row' : InitiativeRow}, F.Open o i row → (row.Stamped → row'.Stamped) →
      ∀ x ∈ (F.setInitiative row').initiatives, x.Stamped := by
    intro o i row row' hrow himp x hx
    rcases (Table.mem_put _).mp hx with ⟨hx, -⟩ | ⟨rfl, -⟩
    · exact hF x hx
    · exact himp (hF row (initiative_mem hrow.found).1)
  cases h with
  | createInitiative =>
    intro row hrow
    rcases List.mem_append.mp hrow with hrow | hrow
    · exact hF row hrow
    · rw [List.mem_singleton.mp hrow]
      exact rfl
  | updateInitiative hrow | addUpdate hrow | attachProject hrow | updateProjectSnapshot hrow
  | detachProject hrow | reorderProjects hrow => exact hset hrow id
  | archiveInitiative hrow => exact hset hrow fun _ => rfl

theorem archived_iff_archivedAt {T : Tables} {cs : List Committed} (h : History Tables.empty cs T) :
    ∀ row ∈ T.initiatives, row.archived = row.archivedAt.isSome :=
  h.preserves (I := fun F => ∀ row ∈ F.initiatives, row.Stamped) (fun _ hrow => (List.not_mem_nil hrow).elim)
    fun _ _ _ _ _ hF hf => hf.stamped hF

/-! ### What a mutation of it fails with -/

/-- The texts that the statements of the call bind. -/
def Call.texts (c : Call) : List String := c.key.texts ++ c.op.texts

/-- Why the database refuses a statement of the call: it is lost, a text that is bound has a NUL, or a date of a row to
be created does not fit its column, or its target date comes before its start. -/
inductive Causes (c : Call) (lost : Prop) : DbError → Prop
  | fault (h : lost) : Causes c lost .fault
  | nulCharacter (h : ¬ Clean c.texts) : Causes c lost .nulCharacter
  | outOfRange {v : InitiativeCreate} (hop : c.op = .createInitiative v)
      (h : datesFit v.targetStart v.targetDate = false) : Causes c lost .outOfRange
  | checkViolation {v : InitiativeCreate} (hop : c.op = .createInitiative v)
      (h : windowCheck v.targetStart v.targetDate = false) : Causes c lost .checkViolation

/-- The failure is `failure`, or the database's, which has its cause. -/
def Refused (c : Call) (lost : Prop) (failure : DomainFailure) (e : StorageError) : Prop :=
  e = .domain failure ∨ ∃ operation source, e = .database operation source ∧ Causes c lost source

/-- Where nothing is lost and the texts are clean, a mutation other than a create fails with `failure`. -/
theorem Refused.domain {c : Call} {lost : Prop} {failure : DomainFailure} {e : StorageError}
    (h : Refused c lost failure e) (hlost : ¬ lost) (hn : Clean c.texts) (hc : c.op.creates = false) :
    e = .domain failure := by
  rcases h with h | ⟨operation, source, rfl, h⟩
  · exact h
  · cases h with
    | fault h => exact absurd h hlost
    | nulCharacter h => exact absurd hn h
    | outOfRange hop | checkViolation hop =>
      rw [hop] at hc
      cases hc

section
variable {α β γ : Type} {t : ℕ → Tick} {T : Tables} {o i : String}

/-- The program ends with an error of `P`. -/
def FailsWith (p : Tx α) (t : ℕ → Tick) (T : Tables) (P : StorageError → Prop) : Prop :=
  ∃ e t' T', p.run t T = (.error e, t', T') ∧ P e

theorem FailsWith.throw {P : StorageError → Prop} {e : StorageError} (h : P e) :
    FailsWith (.throw e : Tx α) t T P := ⟨e, t, T, rfl, h⟩

theorem FailsWith.bind {p : Tx α} {P : StorageError → Prop} (h : FailsWith p t T P) (f : α → Tx β) :
    FailsWith (p >>= f) t T P := by
  obtain ⟨e, t', T', hp, he⟩ := h
  exact ⟨e, t', T', by rw [run_bind, hp], he⟩

/-- A sequence fails where its second half does, if the first one ends well there. -/
theorem failsWith_bind_ok {p : Tx α} {f : α → Tx β} {P : StorageError → Prop} {a : α} {t' : ℕ → Tick}
    {T' : Tables} (hp : p.run t T = (.ok a, t', T')) (h : FailsWith (f a) t' T' P) :
    FailsWith (p >>= f) t T P := by
  obtain ⟨e, t'', T'', hf, he⟩ := h
  exact ⟨e, t'', T'', by rw [run_bind, hp]; exact hf, he⟩

/-- A performed statement fails with a failure of `P`, or goes on to what does. -/
theorem perform_fails {binds : List String} {locks : Tables → List Lock}
    {body : Tick → Tables → Except DbError (β × List Write)} {err : DbError → StorageError} {f : β → Tx γ}
    {P : StorageError → Prop}
    (hP : ∀ e, (e = .fault ∧ (t 0).fault = true) ∨ (e = .nulCharacter ∧ binds.any hasNul = true) ∨ body (t 0) T =
        .error e →
      P (err e))
    (hok : ∀ b ws, body (t 0) T = .ok (b, ws) → FailsWith (f b) (later t) (applyAll ws T) P) :
    FailsWith (perform (Sql.of binds locks body) err >>= f) t T P := by
  rcases Sql.of_run binds locks body (t 0) T with ⟨e, he⟩ | ⟨b, ws, -, -, hb, hrun⟩
  · refine FailsWith.bind ⟨err e, later t, T, ?_, hP e (Sql.of_error (by rw [he]))⟩ f
    rw [run_perform, he]
    rfl
  · refine @failsWith_bind_ok _ _ t T _ f P b (later t) (applyAll ws T) ?_ (hok b ws hb)
    rw [run_perform, hrun]
    rfl

/-- An attempted statement fails as `f` says, or goes on to what does. -/
theorem attempt_fails {binds : List String} {locks : Tables → List Lock}
    {body : Tick → Tables → Except DbError (β × List Write)} {f : Except DbError β → Tx γ}
    {P : StorageError → Prop}
    (hP : ∀ e, (e = .fault ∧ (t 0).fault = true) ∨ (e = .nulCharacter ∧ binds.any hasNul = true) ∨ body (t 0) T =
        .error e →
      FailsWith (f (.error e)) (later t) T P)
    (hok : ∀ b ws, body (t 0) T = .ok (b, ws) → FailsWith (f (.ok b)) (later t) (applyAll ws T) P) :
    FailsWith (attempt (Sql.of binds locks body) >>= f) t T P := by
  rcases Sql.of_run binds locks body (t 0) T with ⟨e, he⟩ | ⟨b, ws, -, -, hb, hrun⟩
  · refine failsWith_bind_ok (run_attempt _ _ _) ?_
    rw [he]
    exact hP e (Sql.of_error (by rw [he]))
  · refine failsWith_bind_ok (run_attempt _ _ _) ?_
    rw [hrun]
    exact hok b ws hb

variable {x : Call} {lost : Prop} {failure : DomainFailure}

/-- The database refuses a statement whose texts are of the call. -/
theorem refused_database {operation : String} {binds : List String} {s : Tick} {e : DbError}
    (hbinds : ∀ text ∈ binds, text ∈ x.texts) (hlost : s.fault = true → lost)
    (h : (e = .fault ∧ s.fault = true) ∨ (e = .nulCharacter ∧ binds.any hasNul = true)) :
    Refused x lost failure (.database operation e) := by
  refine Or.inr ⟨_, _, rfl, ?_⟩
  rcases h with ⟨rfl, hs⟩ | ⟨rfl, hn⟩
  · exact .fault (hlost hs)
  · refine .nulCharacter fun hclean => ?_
    have hclean' : Clean binds := fun text htext => hclean text (hbinds text htext)
    rw [hclean'.any] at hn
    cases hn

/-- Without a stored receipt a mutation fails as its body does. -/
theorem command_fails {c : Command} {operation : String} {codec : Codec α} {body : Tx α}
    (hkey : x.key = c.receipt operation) (hlost : ∀ n, (t n).fault = true → lost)
    (hnone : T.command (c.receipt operation) = none)
    (hbody : ∀ t T', (∀ n, (t n).fault = true → lost) → T'.toFacts = T.toFacts →
      FailsWith body t T' (Refused x lost failure)) :
    FailsWith (command c operation codec body) t T (Refused x lost failure) := by
  have hbinds : ∀ text ∈ (c.receipt operation).texts, text ∈ x.texts := fun text h =>
    List.mem_append_left _ (hkey ▸ h)
  rw [command, admitCommand, bind_assoc]
  refine perform_fails (fun e he => ?_) fun b ws hb => ?_
  · rw [← or_assoc] at he
    rcases he with he | he
    · exact refused_database hbinds (hlost 0) he
    · cases he
  · obtain ⟨rfl, rfl⟩ := Prod.mk.inj (Except.ok.inj hb)
    rw [hnone, bind_assoc]
    refine attempt_fails (fun e he => ?_) fun b ws hb => ?_
    · simp only [applyAll_nil, hnone, Option.isSome_none, Bool.false_eq_true, if_false] at he
      rw [← or_assoc] at he
      rcases he with he | he
      · have hrefused : Refused x lost failure (.database "insert command receipt" e) :=
          refused_database hbinds (hlost 1) he
        rcases he with ⟨rfl, -⟩ | ⟨rfl, -⟩ <;> exact FailsWith.throw hrefused
      · cases he
    · simp only [applyAll_nil, hnone, Option.isSome_none, Bool.false_eq_true, if_false] at hb
      obtain ⟨rfl, rfl⟩ := Prod.mk.inj (Except.ok.inj hb)
      exact (hbody (later (later t)) { T with commands := T.commands ++ [c.admitted operation] }
        (fun n => hlost (n + 2)) rfl).bind _

/-- What a mutation does first fails, if its initiative is archived. -/
theorem locked_archived {f : LockedInitiative → Tx α} (hbinds : ∀ text ∈ [o, i], text ∈ x.texts)
    (hlost : ∀ n, (t n).fault = true → lost) (ha : T.Archived o i)
    (hf : ∀ revision t T, FailsWith (f ⟨revision, true⟩) t T (Refused x lost .archived)) :
    FailsWith (lockInitiative o i >>= f) t T (Refused x lost .archived) := by
  obtain ⟨row, hrow, harch⟩ := ha
  rw [lockInitiative, bind_assoc]
  refine perform_fails (fun e he => ?_) fun b ws hb => ?_
  · rw [← or_assoc] at he
    rcases he with he | he
    · exact refused_database hbinds (hlost 0) he
    · cases he
  · obtain ⟨rfl, rfl⟩ := Prod.mk.inj (Except.ok.inj hb)
    rw [hrow]
    have := hf row.revision (later t) T
    rw [← harch] at this
    exact this

theorem required_archived {f : Unit → Tx α} (revision expected : ℤ) (t : ℕ → Tick) (T : Tables) :
    FailsWith (requireMutableRevision ⟨revision, true⟩ expected >>= f) t T (Refused x lost .archived) :=
  (FailsWith.throw (Or.inl rfl)).bind f

theorem createInitiativeBody_taken {v : InitiativeCreate} (hop : x.op = .createInitiative v)
    (hlost : ∀ n, (t n).fault = true → lost) (h : (T.initiative v.organizationId v.initiativeId).isSome = true) :
    FailsWith (createInitiativeBody v) t T (Refused x lost .alreadyExists) := by
  have hbinds : ∀ text ∈ x.op.texts, text ∈ x.texts := fun text h => List.mem_append_right _ h
  rw [hop] at hbinds
  by_cases hf : (t 0).fault = true
  · refine FailsWith.bind ⟨StorageError.database "insert initiative" .fault, later t, T, ?_,
      Or.inr ⟨_, _, rfl, .fault (hlost 0 hf)⟩⟩ _
    rw [run_perform]
    simp [Sql.nextInitiativeSeq, Sql.nextval, hf]
  · have hseq : (perform Sql.nextInitiativeSeq (StorageError.database "insert initiative")).run t T =
        (.ok (t 0).rowSeq, later t, T) := by
      rw [run_perform]
      simp [Sql.nextInitiativeSeq, Sql.nextval, hf]
    refine failsWith_bind_ok hseq (attempt_fails (fun e he => ?_) fun b ws hb => ?_)
    · rw [← or_assoc] at he
      rcases he with he | he
      · have hrefused : Refused x lost .alreadyExists (.database "insert initiative" e) :=
          refused_database hbinds (hlost 1) he
        rcases he with ⟨rfl, -⟩ | ⟨rfl, -⟩ <;> exact FailsWith.throw hrefused
      · split at he
        · rename_i hfit
          obtain rfl := Except.error.inj he
          exact FailsWith.throw (Or.inr ⟨_, _, rfl, .outOfRange hop (by simpa using hfit)⟩)
        split at he
        · rename_i hchecks
          obtain rfl := Except.error.inj he
          have hwindow : windowCheck v.targetStart v.targetDate = false := by
            simpa [InitiativeRow.checks, Sql.initiativeRow, healthCheck, progressCheck] using hchecks
          exact FailsWith.throw (Or.inr ⟨_, _, rfl, .checkViolation hop hwindow⟩)
        · obtain rfl := Except.error.inj he
          exact FailsWith.throw (Or.inl rfl)
    · split at hb
      · cases hb
      split at hb <;> cases hb

/-- The organization and the initiative are among the texts of an operation. -/
theorem Op.ids_mem (op : Op) : ∀ text ∈ [op.organizationId, op.initiativeId], text ∈ op.texts := by
  cases op <;> simp [Op.organizationId, Op.initiativeId, Op.texts]

/-- A fresh mutation of an archived initiative fails: with the flag's failure, or as a create does. -/
theorem refused_of_archived {c : Call} (hlost : ∀ n, (t n).fault = true → lost) (hnone : T.command c.key = none)
    (ha : T.Archived c.op.organizationId c.op.initiativeId) :
    FailsWith c.code t T (Refused c lost (if c.op.creates then .alreadyExists else .archived)) := by
  have hT : ∀ {T' : Tables}, T'.toFacts = T.toFacts → T'.Archived c.op.organizationId c.op.initiativeId := by
    intro T' h
    rw [Facts.Archived, h]
    exact ha
  have hids : ∀ text ∈ [c.op.organizationId, c.op.initiativeId], text ∈ c.texts := fun text h =>
    List.mem_append_right _ (c.op.ids_mem text h)
  obtain ⟨command, op⟩ := c
  cases op with
  | createInitiative v =>
    refine (command_fails rfl hlost hnone fun t T' hlost h => createInitiativeBody_taken rfl hlost ?_).bind _
    obtain ⟨row, hrow, -⟩ := hT h
    exact Option.isSome_of_mem hrow
  | updateInitiative | addUpdate | archiveInitiative | attachProject | detachProject | reorderProjects =>
    refine (command_fails rfl hlost hnone fun t T' hlost h => ?_).bind _
    exact locked_archived hids hlost (hT h) fun revision t T => required_archived revision _ t T
  | updateProjectSnapshot =>
    refine (command_fails rfl hlost hnone fun t T' hlost h => ?_).bind _
    exact locked_archived hids hlost (hT h) fun revision t T => FailsWith.throw (Or.inl rfl)

theorem FailsWith.atomic {p : Tx α} {P : StorageError → Prop} (h : FailsWith p t T P) :
    ∃ e, atomic p t T = (.error e, T) ∧ P e := by
  obtain ⟨e, t', T', hp, he⟩ := h
  exact ⟨e, by rw [Txn.atomic, hp], he⟩

end

/-- **Archival is terminal.** From a state in which an initiative is archived on, in every
continuation of the run, its row, its memberships and its updates stay; no commit is a fresh success
on it; a call on it without a stored receipt fails, with `Archived` or for a create with
`AlreadyExists`, unless the database has a cause to refuse a statement first; and the flag is set
exactly with the time of archival, on every initiative. -/
theorem archival_is_terminal {ok : Call → Prop} {w : Sequences} {S S' : System}
    (h : Txn.Steps Call.code ok (System.initial w) S) (h' : Txn.Steps Call.code ok S S') {o i : String}
    {row : InitiativeRow} (hrow : S.db.initiative o i = some row) (harch : row.archived = true) :
    (S'.db.initiative o i = some row ∧ S'.db.projectsOf o i = S.db.projectsOf o i ∧
      S'.db.updatesOf o i = S.db.updatesOf o i) ∧
    (∀ cs, S'.commits = S.commits ++ cs → ∀ x ∈ cs, Committed.Fresh x → ¬ x.call.op.On o i) ∧
    (∀ (c : Call) (t : ℕ → Tick), c.op.On o i → S'.db.command c.key = none →
      ∃ e, atomic c.code t S'.db = (.error e, S'.db) ∧
        Refused c (∃ n, (t n).fault = true) (if c.op.creates then .alreadyExists else .archived) e) ∧
    (∀ row ∈ S'.db.initiatives, row.archived = row.archivedAt.isSome) := by
  obtain ⟨cs, hcs, hist⟩ := later_history h h'
  have ha : S.db.Archived o i := ⟨row, hrow, harch⟩
  have habout := about_of_archived hist ha
  have hrow' : S'.db.initiative o i = some row := (initiative_of_about habout).trans hrow
  refine ⟨⟨hrow', (about_eq_iff.mp habout).2⟩, fun cs' hcs' x hx hf => ?_, ?_,
    archived_iff_archivedAt (reachable_inv (h.trans h')).chain⟩
  · obtain rfl : cs = cs' := List.append_cancel_left (hcs.symm.trans hcs')
    obtain ⟨before, after, rfl⟩ := List.append_of_mem hx
    have hb := about_of_archived (hist.around Call.code).1 ha
    have hax : x.before.Archived o i := ⟨row, (initiative_of_about hb).trans hrow, harch⟩
    exact (fresh_of_fresh (outcome_of_mem hist hx) hf).not_on_archived hax
  · rintro c t ⟨rfl, rfl⟩ hnone
    exact (refused_of_archived (fun n h => ⟨n, h⟩) hnone ⟨row, hrow', harch⟩).atomic

/-- An initiative is created and archived. -/
def archived : List (ℕ × Txn.Move Tick Call) :=
  Txn.attempt 0 (sampleCreate "alpha") (sampleTicks 1 6) ++
    Txn.attempt 1 (sampleArchive "alpha" 1) (sampleTicks 1 5)

/-- Another archive of the initiative. -/
def archivedAgain : Call := { sampleArchive "alpha" 2 with command := ⟨"planner", "ann", "again", []⟩ }

/-- Afterwards the create is repeated: it is replayed, and the row stays. Another archive is refused. -/
theorem archival_is_terminal_replayed : ∃ (S S' : System) (row : InitiativeRow),
    S.db.initiative "acme" "alpha" = some row ∧ row.archived = true ∧ S.commits.length = 2 ∧
    S'.commits.length = 3 ∧ S'.db.initiative "acme" "alpha" = some row ∧
    atomic archivedAgain.code (fun _ => default) S'.db = (.error (.domain .archived), S'.db) := by
  have hrun : ((System.initial ⟨0, 0⟩).schedule Call.code 3 archived).bind (fun S => (S.schedule Call.code 3
      (Txn.attempt 2 (sampleCreate "alpha") (sampleTicks 1 1))).map fun S' =>
        ((S.db.initiative "acme" "alpha").map fun r => r.archived, (S.commits.length, S'.commits.length),
          (S'.db.command archivedAgain.key).isNone)) = some (some true, (2, 3), true) := by decide +kernel
  obtain ⟨S, S', h, h', hfacts⟩ := @System.scheduled (fun _ => True) _ _ _ _ _ _ _ hrun (by decide)
    fun _ _ _ _ => trivial
  obtain ⟨hrow, hrest⟩ := Prod.mk.inj hfacts
  obtain ⟨hlengths, hnone⟩ := Prod.mk.inj hrest
  obtain ⟨row, hrow, harch⟩ := Option.map_eq_some_iff.mp hrow
  obtain ⟨hS, hS'⟩ := Prod.mk.inj hlengths
  obtain ⟨⟨hstays, -⟩, -, hrefused, -⟩ := archival_is_terminal h h' hrow harch
  obtain ⟨e, hatomic, he⟩ := hrefused archivedAgain (fun _ => default) ⟨rfl, rfl⟩ (Option.isNone_iff_eq_none.mp hnone)
  obtain rfl := Refused.domain he (fun ⟨_, hfault⟩ => Bool.noConfusion hfault) (by unfold Clean; decide) rfl
  exact ⟨S, S', row, hrow, harch, hS, hS', hstays, hatomic⟩

/-- A create of the initiative with a date before those of a `date` column. -/
def unstorable : Call :=
  ⟨⟨"planner", "ann", "again", []⟩, .createInitiative ⟨"acme", "alpha", "Roadmap", none, none,
    some ⟨-5000, 1, 1, by decide, by decide, by decide⟩, none⟩⟩

/-- Of an archived initiative a create does not always fail with `AlreadyExists`: the database
refuses the date first. -/
theorem archived_create_out_of_range : ∃ S : System,
    Txn.Steps Call.code (fun _ => True) (System.initial ⟨0, 0⟩) S ∧
    (S.db.initiative "acme" "alpha").map (fun r => r.archived) = some true ∧
    unstorable.op.On "acme" "alpha" ∧ S.db.command unstorable.key = none ∧
    (atomic unstorable.code (fun _ => default) S.db).1 = .error (.database "insert initiative" .outOfRange) := by
  have hrun : ((System.initial ⟨0, 0⟩).schedule Call.code 3 archived).bind (fun S => (S.schedule Call.code 3
      []).map fun S' => ((S'.db.initiative "acme" "alpha").map fun r => r.archived,
        (S'.db.command unstorable.key).isNone,
        (atomic unstorable.code (fun _ => default) S'.db).1.map fun _ => ())) =
      some (some true, true, .error (.database "insert initiative" .outOfRange)) := by decide +kernel
  obtain ⟨S, S', h, h', hfacts⟩ := @System.scheduled (fun _ => True) _ _ _ _ _ _ _ hrun (by decide)
    fun _ _ _ _ => trivial
  obtain ⟨hrow, hrest⟩ := Prod.mk.inj hfacts
  obtain ⟨hnone, hfails⟩ := Prod.mk.inj hrest
  refine ⟨S', h.trans h', hrow, ⟨rfl, rfl⟩, Option.isNone_iff_eq_none.mp hnone, ?_⟩
  cases hresult : (atomic unstorable.code (fun _ => default) S'.db).1 with
  | error e =>
    rw [hresult] at hfails
    exact congrArg Except.error (Except.error.inj hfails)
  | ok record =>
    rw [hresult] at hfails
    cases hfails

end Portfolio
