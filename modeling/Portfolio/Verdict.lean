/-
# What the tables decide about a mutation

`Op.verdict` reads off the tables how a mutation ends: the failure it is
refused with, a date the database has no room for, or success, in the order in
which the code comes to its checks. Every body ends as its verdict says
(`Tx.Decides`), unless the server is lost, or a record has a timestamp without
a text: a statement is never refused for anything else.

Key definitions: `Verdict`, `Op.verdict`, `Op.Timely`, `Decided`, `Tx.Decides`.
Key theorems: `Decided.ends`, `decides_sql`, `decides_insert`,
`decides_locked`, one `decides_..Body` for each body.
-/
import Portfolio.Staging
import Portfolio.Rendering
import Portfolio.Texts

namespace Portfolio

open Txn Txn.Prog

/-! ### Verdicts -/

/-- How a mutation ends: refused, at a date that no column takes, or well. -/
inductive Verdict
  | refuse (failure : DomainFailure)
  | overflow
  | accept
deriving DecidableEq

/-- What is decided of an operation that locks its initiative and expects its revision. -/
def Facts.mutable (F : Facts) (o i : String) (expected : ℤ) (next : Verdict) : Verdict :=
  match F.initiative o i with
  | none => .refuse .notFound
  | some row =>
    if row.archived then .refuse .archived
    else if row.revision ≠ expected then .refuse .revisionConflict
    else next

/-- What is decided of one that expects the revision of a membership only. -/
def Facts.refreshable (F : Facts) (o i p : String) (expected : ℤ) (next : Verdict) : Verdict :=
  match F.initiative o i with
  | none => .refuse .notFound
  | some row =>
    if row.archived then .refuse .archived
    else match F.project o i p with
      | none => .refuse .notAttached
      | some old => if old.membershipRevision ≠ expected then .refuse .revisionConflict else next

/-- What the tables decide about an operation without a receipt. -/
def Op.verdict (F : Facts) : Op → Verdict
  | .createInitiative v =>
    if !datesFit v.targetStart v.targetDate then .overflow
    else if (F.initiative v.organizationId v.initiativeId).isSome then .refuse .alreadyExists
    else .accept
  | .updateInitiative o i expected patch =>
    F.mutable o i expected (if datesFit patch.targetStart patch.targetDate then .accept else .overflow)
  | .addUpdate o i u expected _ _ _ =>
    F.mutable o i expected (if (F.update o u).isSome then .refuse .alreadyExists else .accept)
  | .archiveInitiative o i expected => F.mutable o i expected .accept
  | .attachProject o i expected s position =>
    F.mutable o i expected
      (if (F.project o i s.projectId).isSome then .refuse .alreadyAttached
      else if maxProjectsPerInitiative ≤ (F.projectsOf o i).length then .refuse .invalidRequest
      else if !datesFit s.targetStart s.targetDate then .overflow
      else if Sql.positionTaken (F.projectsOf o i) (Sql.projectRow o i s position) then .refuse .positionConflict
      else .accept)
  | .updateProjectSnapshot o i expected s =>
    F.refreshable o i s.projectId expected
      (if datesFit s.targetStart s.targetDate then .accept else .overflow)
  | .detachProject o i p expected expectedMembership =>
    F.mutable o i expected
      (match F.project o i p with
      | none => .refuse .notAttached
      | some row => if row.membershipRevision = expectedMembership then .accept else .refuse .revisionConflict)
  | .reorderProjects o i expected items =>
    F.mutable o i expected (if reorderAccepts (F.order o i) items then .accept else .refuse .invalidRequest)

/-- An operation gets past the lock and the revision it expects exactly if its initiative is open at that revision. -/
theorem mutable_eq_iff {F : Facts} {o i : String} {expected : ℤ} {next v : Verdict}
    (hv : ∀ failure, v ≠ .refuse failure) : F.mutable o i expected next = v ↔
      (∃ row, F.Open o i row ∧ row.revision = expected) ∧ next = v := by
  unfold Facts.mutable
  cases hrow : F.initiative o i with
  | none =>
    refine ⟨fun h => absurd h.symm (hv _), fun ⟨⟨row, hopen, _⟩, _⟩ => ?_⟩
    rw [hopen.found] at hrow
    cases hrow
  | some row =>
    have hunique : ∀ row', F.Open o i row' → row' = row := fun row' hopen =>
      Option.some.inj (hopen.found.symm.trans hrow)
    cases harch : row.archived with
    | true =>
      simp only [harch, if_true]
      refine ⟨fun h => absurd h.symm (hv _), fun ⟨⟨row', hopen, _⟩, _⟩ => ?_⟩
      have hunarchived := hopen.unarchived
      rw [hunique row' hopen, harch] at hunarchived
      cases hunarchived
    | false =>
      by_cases hrev : row.revision = expected
      · simp only [harch, hrev, Bool.false_eq_true, if_false, ne_eq, not_true_eq_false]
        exact ⟨fun h => ⟨⟨row, ⟨hrow, harch⟩, hrev⟩, h⟩, fun h => h.2⟩
      · simp only [harch, hrev, Bool.false_eq_true, if_false, ne_eq, not_false_eq_true, if_true]
        refine ⟨fun h => absurd h.symm (hv _), fun ⟨⟨row', hopen, hrev'⟩, _⟩ => ?_⟩
        rw [hunique row' hopen] at hrev'
        exact absurd hrev' hrev

/-- The timestamps of the operation's record have texts, on ticks that are `K`. -/
def Op.Timely (K : Tick → Prop) (F : Facts) : Op → Prop
  | .createInitiative _ => ∀ t, K t → Printable t.timestamps
  | .updateInitiative o i _ _ => (∀ t, K t → Printable t.timestamps) ∧
      ∀ row, F.initiative o i = some row → Printable row.timestamps
  | .addUpdate .. => ∀ t, K t → Printable t.timestamps
  | .archiveInitiative .. => ∀ t, K t → Printable t.timestamps
  | .attachProject _ _ _ s _ => (formatTimestamp s.observedAt).isSome = true
  | .updateProjectSnapshot _ _ _ s => (formatTimestamp s.observedAt).isSome = true
  | .detachProject .. => True
  | .reorderProjects .. => True

/-- The result is the one decided, if no server is `lost` and no timestamp lacks a text (`timed`). -/
def Decided {α : Type} (lost timed : Prop) (v : Verdict) : Except StorageError α → Prop
  | .ok _ => v = .accept
  | .error (.domain failure) => v = .refuse failure
  | .error (.database _ .fault) => lost
  | .error (.database _ .outOfRange) => v = .overflow
  | .error (.database _ _) => False
  | .error .receipt => False
  | .error .time => v = .accept ∧ timed

/-- An error is decided whatever the value would have been. -/
theorem Decided.error {α β : Type} {lost timed : Prop} {v : Verdict} {e : StorageError}
    (h : Decided lost timed v (.error e : Except StorageError α)) :
    Decided lost timed v (.error e : Except StorageError β) := by
  cases e with
  | database _ source => cases source <;> exact h
  | domain | receipt | time => exact h

/-- How what is decided ends, if no server is lost. -/
theorem Decided.ends {α : Type} {lost timed : Prop} {v : Verdict} (hlost : ¬ lost) :
    ∀ {r : Except StorageError α}, Decided lost timed v r →
      match v with
      | .accept => (∃ a, r = .ok a) ∨ (r = .error .time ∧ timed)
      | .refuse failure => r = .error (.domain failure)
      | .overflow => ∃ operation, r = .error (.database operation .outOfRange)
  | .ok a, h => by
    obtain rfl : v = .accept := h
    exact .inl ⟨a, rfl⟩
  | .error (.domain failure), h => by
    obtain rfl : v = .refuse failure := h
    rfl
  | .error .receipt, h => h.elim
  | .error .time, h => by
    obtain ⟨rfl, htimed⟩ := h
    exact .inr ⟨rfl, htimed⟩
  | .error (.database operation source), h => by
    cases source with
    | fault => exact absurd h hlost
    | outOfRange =>
      obtain rfl : v = .overflow := h
      exact ⟨operation, rfl⟩
    | uniqueViolation | checkViolation | foreignKeyViolation | nulCharacter | rowNotFound => exact h.elim

section
variable {α : Type} {lost timed : Prop} {r : Except StorageError α}

theorem Decided.accepted (hlost : ¬ lost) (htimed : ¬ timed) (h : Decided lost timed .accept r) : ∃ a, r = .ok a :=
  (h.ends hlost).resolve_right fun htime => htimed htime.2

theorem Decided.refused {failure : DomainFailure} (hlost : ¬ lost) (h : Decided lost timed (.refuse failure) r) :
    r = .error (.domain failure) := h.ends hlost

theorem Decided.overflowed (hlost : ¬ lost) (h : Decided lost timed .overflow r) :
    ∃ operation, r = .error (.database operation .outOfRange) := h.ends hlost

end

/-- On ticks that are `K`, the program run on the tables ends as decided. -/
def Tx.Decides {α : Type} (K : Tick → Prop) (lost timed : Prop) (p : Tx α) (T : Tables) (v : Verdict) : Prop :=
  p.Meets K T fun r _ => Decided lost timed v r

/-! ### Rules -/

theorem bumped_checks {row : InitiativeRow} {t : Tick} (h : row.checks = true) : (Sql.bumped t row).checks = true := by
  have hrevision : (Sql.bumped t row).revision = row.revision + 1 := rfl
  rw [InitiativeRow.checks_iff] at h ⊢
  refine ⟨?_, h.2⟩
  have := h.1
  omega

section
variable {α β : Type} {K : Tick → Prop} {lost timed : Prop} {T : Tables} {v : Verdict} {o i : String}

theorem decides_ret {a : α} : Tx.Decides K lost timed (Prog.ret a : Tx α) T .accept := meets_ret rfl

theorem decides_refuse {failure : DomainFailure} :
    Tx.Decides K lost timed (refuse failure : Tx α) T (.refuse failure) := meets_throw rfl

theorem decides_refused {failure : DomainFailure} {f : β → Tx α} :
    Tx.Decides K lost timed (refuse failure >>= f) T (.refuse failure) := meets_throw rfl

theorem decides_formatted {x : Option α} (h : x.isSome = true ∨ timed) :
    Tx.Decides K lost timed (formatted x) T .accept := by
  cases x with
  | some a => exact decides_ret
  | none => exact meets_throw ⟨rfl, h.resolve_left (by simp)⟩

section
variable {binds : List String} {locks : Tables → List Lock} {body : Tick → Tables → Except DbError (β × List Write)}

/-- A statement without a NUL fails when the server is lost, or as its body does. -/
theorem meets_statement {operation : String} {f : β → Tx α} {Q : Except StorageError α → Tables → Prop}
    (hn : Clean binds) (hlost : ∀ t, K t → t.fault = true → Q (.error (.database operation .fault)) T)
    (h : ∀ t, K t → match body t T with
      | .ok (b, ws) => (f b).Meets K (applyAll ws T) Q
      | .error d => Q (.error (.database operation d)) T) :
    (perform (Sql.of binds locks body) (.database operation) >>= f).Meets K T Q := by
  refine Meets.bind (meets_perform fun t ht => ?_)
  have hbody := h t ht
  unfold Sql.of
  by_cases hfault : t.fault = true
  · simp only [hfault, if_true]
    exact hlost t ht hfault
  · simp only [hfault, hn.any, Bool.false_eq_true, if_false]
    cases hb : body t T with
    | ok r =>
      rw [hb] at hbody
      exact hbody
    | error d =>
      rw [hb] at hbody
      exact hbody

variable (hK : ∀ t, K t → t.fault = true → lost)
include hK

theorem decides_statement {operation : String} {f : β → Tx α} (hn : Clean binds)
    (h : ∀ t, K t → match body t T with
      | .ok (b, ws) => Tx.Decides K lost timed (f b) (applyAll ws T) v
      | .error d => Decided (α := α) lost timed v (.error (.database operation d))) :
    Tx.Decides K lost timed (perform (Sql.of binds locks body) (.database operation) >>= f) T v :=
  meets_statement hn hK h

/-- A SELECT. -/
theorem decides_select {operation : String} {answer : Tables → β} {f : β → Tx α} (hn : Clean binds)
    (h : Tx.Decides K lost timed (f (answer T)) T v) :
    Tx.Decides K lost timed (perform (Sql.select binds answer) (.database operation) >>= f) T v :=
  decides_statement hK hn fun _ _ => h

theorem decides_nextval {operation : String} {draw : Sequences → ℤ → Option Sequences} {f : ℤ → Tx α}
    (h : ∀ t, K t → Tx.Decides K lost timed (f t.rowSeq) T v) :
    Tx.Decides K lost timed (perform (Sql.nextval draw) (.database operation) >>= f) T v := by
  refine Meets.bind (meets_perform fun t ht => ?_)
  unfold Sql.nextval
  by_cases hfault : t.fault = true
  · simp only [hfault, if_true]
    exact hK t ht hfault
  · simp only [hfault, Bool.false_eq_true, if_false]
    exact h t ht

/-- An attempted INSERT, with what follows each of its answers. -/
theorem decides_insert {operation : String} {f : Except DbError β → Tx α} (hn : Clean binds)
    (hfault : f (.error .fault) = .throw (.database operation .fault))
    (h : ∀ t, K t → match body t T with
      | .ok (b, ws) => Tx.Decides K lost timed (f (.ok b)) (applyAll ws T) v
      | .error d => Tx.Decides K lost timed (f (.error d)) T v) :
    Tx.Decides K lost timed (attempt (Sql.of binds locks body) >>= f) T v := by
  refine meets_attempt_bind fun t ht => ?_
  have hbody := h t ht
  unfold Sql.of
  by_cases hlost : t.fault = true
  · simp only [hlost, if_true, hfault]
    exact meets_throw (hK t ht hlost)
  · simp only [hlost, hn.any, Bool.false_eq_true, if_false]
    cases hb : body t T with
    | ok r =>
      rw [hb] at hbody
      exact hbody
    | error d =>
      rw [hb] at hbody
      exact hbody

/-- The UPDATE of an initiative that is there. -/
theorem decides_setInitiative {operation : String} {fit : Bool} {f : Tick → InitiativeRow → InitiativeRow}
    {row : InitiativeRow} {g : Option InitiativeRow → Tx α} (hrow : T.initiative o i = some row)
    (hn : Clean ([o, i] ++ binds)) (hfit : fit = true) (hc : ∀ t, (f t row).checks = true)
    (h : ∀ t, K t → Tx.Decides K lost timed (g (some (f t row)))
      { T with toFacts := T.toFacts.setInitiative (f t row) } v) :
    Tx.Decides K lost timed (perform (Sql.setInitiative binds o i fit f) (.database operation) >>= g) T v := by
  refine decides_statement hK hn fun t ht => ?_
  simp only [hfit, hrow, hc t, Bool.not_true, Bool.false_eq_true, if_false, if_true]
  exact h t ht

/-- What follows the lock of an initiative and the check of its revision. -/
theorem decides_locked {f : LockedInitiative → Tx α} {expected : ℤ} (hn : Clean [o, i])
    (h : ∀ row, T.toFacts.Open o i row → row.revision = expected →
      Tx.Decides K lost timed (f ⟨row.revision, row.archived⟩) T v) :
    Tx.Decides K lost timed (lockInitiative o i >>= fun current =>
      requireMutableRevision current expected >>= fun _ => f current) T (T.toFacts.mutable o i expected v) := by
  unfold lockInitiative Facts.mutable
  rw [Prog.bind_assoc]
  refine decides_statement hK hn fun t _ => ?_
  cases hrow : T.initiative o i with
  | none => exact decides_refuse
  | some row =>
    show Tx.Decides K lost timed (requireMutableRevision ⟨row.revision, row.archived⟩ expected >>= fun _ =>
      f ⟨row.revision, row.archived⟩) T _
    unfold requireMutableRevision
    cases harch : row.archived with
    | true =>
      simp only [harch, if_true]
      exact decides_refused
    | false =>
      by_cases hrev : row.revision = expected
      · have hbody := h row ⟨hrow, harch⟩ hrev
        rw [harch] at hbody
        simp only [harch, hrev, Bool.false_eq_true, ne_eq, not_true_eq_false, if_false]
        exact hrev ▸ hbody
      · simp only [harch, hrev, Bool.false_eq_true, ne_eq, not_false_eq_true, if_false, if_true]
        exact decides_refused

theorem decides_bumpInitiative {row : InitiativeRow} {f : ℤ → Tx α} (hrow : T.initiative o i = some row)
    (hn : Clean [o, i]) (hc : row.checks = true)
    (h : ∀ t, K t → Tx.Decides K lost timed (f (row.revision + 1))
      { T with toFacts := T.toFacts.setInitiative (Sql.bumped t row) } v) :
    Tx.Decides K lost timed (bumpInitiative o i >>= f) T v := by
  unfold bumpInitiative
  rw [Prog.bind_assoc]
  exact decides_setInitiative hK hrow hn rfl (fun _ => bumped_checks hc) h

theorem decides_readInitiative {row : InitiativeRow} (hrow : T.initiative o i = some row) (hn : Clean [o, i])
    (ht : Printable row.timestamps ∨ timed) : Tx.Decides K lost timed (readInitiative o i) T .accept := by
  unfold readInitiative
  refine decides_select hK hn ?_
  rw [hrow]
  exact decides_formatted (ht.imp_left initiativeFromRow_isSome.mpr)

theorem decides_readProject {operation p : String} {revision : ℤ} {row : ProjectRow}
    (hrow : T.project o i p = some row) (hn : Clean [o, i, p])
    (ht : (formatTimestamp row.observedAt).isSome = true ∨ timed) :
    Tx.Decides K lost timed (readProject operation o i p revision) T .accept := by
  unfold readProject
  refine decides_select hK hn ?_
  rw [hrow]
  exact decides_formatted (ht.imp_left projectFromRow_isSome.mpr)

end

end

/-! ### The bodies -/

/-- The rows of every initiative are represented, the positions are ones the handlers admit, and no row of an
initiative holds a NUL. -/
structure Facts.Proper (F : Facts) : Prop where
  represented : ∀ o i, Represented (F.initiative o i) (F.projectsOf o i) (F.updatesOf o i)
  within : ∀ p ∈ F.projects, p.position ≤ maxPosition
  legible : F.Legible

theorem Facts.Proper.checks {F : Facts} {o i : String} {row : InitiativeRow} (hF : F.Proper)
    (hrow : F.initiative o i = some row) : row.checks = true :=
  (hF.represented o i).initiative row hrow

theorem smallint_of_progress {progress : ℤ} (h : progressCheck progress = true) : smallint progress = true := by
  have hbounds := progressCheck_iff.mp h
  unfold smallint
  rw [decide_eq_true_eq]
  omega

theorem projectRow_checks {o i : String} {s : ProjectSnapshot} {position : ℤ} (hs : s.Valid)
    (hposition : 0 ≤ position) : (Sql.projectRow o i s position).checks = true :=
  ProjectRow.checks_iff.mpr ⟨hposition, Int.one_pos, hs.status, hs.health, hs.progress, hs.window⟩

/-- The texts of an operation are among them those of its initiative. -/
theorem clean_on {op : Op} (h : Clean op.texts) : Clean [op.organizationId, op.initiativeId] := by
  have hfirst : ∀ {o i : String} {ss : List String}, Clean (o :: i :: ss) → Clean [o, i] := by
    intro o i ss h
    obtain ⟨ho, hrest⟩ := clean_cons.mp h
    obtain ⟨hi, -⟩ := clean_cons.mp hrest
    exact clean_cons.mpr ⟨ho, clean_cons.mpr ⟨hi, clean_nil⟩⟩
  cases op <;> exact hfirst h

section
variable {K : Tick → Prop} {lost timed : Prop} {T : Tables} {o i actor : String}
  (hK : ∀ t, K t → t.fault = true → lost)
include hK

theorem decides_createInitiativeBody {v : InitiativeCreate} (hn : Clean (Op.createInitiative v).texts)
    (hv : (Op.createInitiative v).Valid) (ht : (Op.createInitiative v).Timely K T.toFacts ∨ timed) :
    Tx.Decides K lost timed (createInitiativeBody v) T ((Op.createInitiative v).verdict T.toFacts) := by
  refine decides_nextval hK fun t₀ _ => decides_insert hK hn rfl fun t htick => ?_
  have hc : (Sql.initiativeRow v t₀.rowSeq t).checks = true :=
    InitiativeRow.checks_iff.mpr ⟨Int.one_pos, rfl, rfl, hv⟩
  unfold Op.verdict
  by_cases hfit : datesFit v.targetStart v.targetDate = true
  · cases hrow : T.initiative v.organizationId v.initiativeId with
    | some row =>
      simp only [hfit, hc, hrow, Bool.not_true, Bool.false_eq_true, if_false, Option.isSome_some, if_true]
      exact decides_refuse
    | none =>
      simp only [hfit, hc, hrow, Bool.not_true, Bool.false_eq_true, if_false, Option.isSome_none]
      have hinserted := @initiative_insert _ _ _ (Sql.initiativeRow v t₀.rowSeq t) hrow
        (by simp [InitiativeRow.at, Sql.initiativeRow])
      refine decides_readInitiative hK hinserted (clean_on hn) ?_
      refine ht.imp_left fun hclock => ?_
      have htick' := hclock t htick
      simpa [Printable, Tick.timestamps, InitiativeRow.timestamps, Sql.initiativeRow] using htick'
  · rw [Bool.not_eq_true] at hfit
    simp only [hfit, Bool.not_false, if_true]
    exact meets_throw rfl

/-- The UPDATE of an initiative with a date that no column takes. -/
theorem decides_unfit {α : Type} {binds : List String} {operation : String} {fit : Bool}
    {f : Tick → InitiativeRow → InitiativeRow} {g : Option InitiativeRow → Tx α} (hn : Clean ([o, i] ++ binds))
    (hfit : fit = false) :
    Tx.Decides K lost timed (perform (Sql.setInitiative binds o i fit f) (.database operation) >>= g) T .overflow := by
  refine decides_statement hK hn fun t _ => ?_
  simp only [hfit, Bool.not_false, if_true]
  rfl

theorem decides_updateInitiativeBody {expected : ℤ} {patch : InitiativePatch} (hF : T.Proper)
    (hn : Clean (Op.updateInitiative o i expected patch).texts) (hv : (Op.updateInitiative o i expected patch).Valid)
    (ht : (Op.updateInitiative o i expected patch).Timely K T.toFacts ∨ timed) :
    Tx.Decides K lost timed (updateInitiativeBody o i expected patch) T
      ((Op.updateInitiative o i expected patch).verdict T.toFacts) := by
  have hon : Clean [o, i] := clean_on hn
  refine decides_locked hK hon fun row hopen _ => ?_
  by_cases hfit : datesFit patch.targetStart patch.targetDate = true
  · rw [if_pos hfit]
    have hrow := InitiativeRow.checks_iff.mp (hF.checks hopen.found)
    have hc : ∀ t, (Sql.patched patch t row).checks = true := by
      intro t
      have hrevision : (Sql.patched patch t row).revision = row.revision + 1 := rfl
      refine InitiativeRow.checks_iff.mpr ⟨?_, hrow.2.1, hrow.2.2.1, hv⟩
      have := hrow.1
      omega
    refine decides_setInitiative hK hopen.found hn hfit hc fun t htick => ?_
    refine decides_readInitiative hK (initiative_setInitiative hopen.found rfl) hon ?_
    refine ht.imp_left fun hclock => ?_
    have hold := hclock.2 row hopen.found
    have hnew := hclock.1 t htick
    simp only [Printable, Tick.timestamps, InitiativeRow.timestamps, List.cons_append, List.nil_append,
      List.forall_mem_cons] at hold hnew ⊢
    exact ⟨hold.1, hnew.1, hold.2.2⟩
  · rw [if_neg hfit]
    exact decides_unfit hK hn (by simpa using hfit)

theorem decides_archiveInitiativeBody {expected : ℤ} (hF : T.Proper)
    (hn : Clean (Op.archiveInitiative o i expected).texts)
    (ht : (Op.archiveInitiative o i expected).Timely K T.toFacts ∨ timed) :
    Tx.Decides K lost timed (archiveInitiativeBody o i expected) T
      ((Op.archiveInitiative o i expected).verdict T.toFacts) := by
  refine decides_locked hK hn fun row hopen _ => ?_
  have hrow := InitiativeRow.checks_iff.mp (hF.checks hopen.found)
  have hc : ∀ t, (Sql.closed t row).checks = true := by
    intro t
    have hrevision : (Sql.closed t row).revision = row.revision + 1 := rfl
    refine InitiativeRow.checks_iff.mpr ⟨?_, hrow.2⟩
    have := hrow.1
    omega
  refine decides_setInitiative hK hopen.found hn rfl hc fun t htick => ?_
  refine decides_formatted (ht.imp_left fun hclock => ?_)
  have hnew := hclock t htick
  simp only [Printable, Tick.timestamps, List.forall_mem_cons] at hnew
  obtain ⟨now, hnow⟩ := Option.isSome_iff_exists.mp hnew.1
  obtain ⟨now', hnow'⟩ := Option.isSome_iff_exists.mp hnew.2.1
  simp [archiveFromRow, Sql.closed, optionalTimestamp, hnow, hnow']

theorem decides_addUpdateBody {u : String} {expected : ℤ} {health summary : String} {progress : ℤ} (hF : T.Proper)
    (hn : Clean (Op.addUpdate o i u expected health summary progress).texts) (hactor : hasNul actor = false)
    (hv : (Op.addUpdate o i u expected health summary progress).Valid)
    (ht : (Op.addUpdate o i u expected health summary progress).Timely K T.toFacts ∨ timed) :
    Tx.Decides K lost timed (addUpdateBody actor o i u expected health summary progress) T
      ((Op.addUpdate o i u expected health summary progress).verdict T.toFacts) := by
  obtain ⟨hhealth, hprogress⟩ := hv
  have hon : Clean [o, i] := clean_on hn
  simp only [Op.texts, clean_cons, clean_nil, and_true] at hn
  obtain ⟨ho, hi, hu, hnhealth, hnsummary⟩ := hn
  refine decides_locked hK hon fun row hopen _ => decides_nextval hK fun t₀ _ => ?_
  have hrow := InitiativeRow.checks_iff.mp (hF.checks hopen.found)
  have hrevision : 0 < row.revision + 1 := by
    have := hrow.1
    omega
  have hsmall := smallint_of_progress hprogress
  refine decides_insert hK ?_ rfl fun t htick => ?_
  · simp only [clean_cons, clean_nil, and_true]
    exact ⟨ho, hi, hu, hnhealth, hnsummary, hactor⟩
  have hc : (Sql.updateRow ⟨o, i, u, health, summary, progress, actor, row.revision + 1⟩ t₀.rowSeq t).checks =
      true := by
    simp only [UpdateRow.checks, Sql.updateRow, hrevision, hhealth, hprogress, decide_true, Bool.and_self]
  cases hupdate : T.update o u with
  | some old =>
    simp only [hsmall, hc, Bool.not_true, Bool.false_eq_true, if_false, Option.isSome_some, if_true]
    exact decides_refuse
  | none =>
    simp only [hsmall, hc, hopen.found, Bool.not_true, Bool.false_eq_true, if_false, Option.isSome_none,
      Option.isNone_some]
    refine decides_setInitiative hK (by exact hopen.found) ?_ hsmall (fun t' => ?_) fun t' _ => ?_
    · simp only [List.cons_append, List.nil_append, clean_cons, clean_nil, and_true]
      exact ⟨ho, hi, hnhealth⟩
    · exact InitiativeRow.checks_iff.mpr ⟨hrevision, hhealth, hprogress, hrow.2.2.2⟩
    · have hinserted := @update_insert o _ (Sql.updateRow ⟨o, i, u, health, summary, progress, actor,
        row.revision + 1⟩ t₀.rowSeq t) u hupdate (by simp [UpdateRow.has, Sql.updateRow])
      have hread : ∀ {T' : Tables} {x : Option UpdateRow},
          x = some (Sql.updateRow ⟨o, i, u, health, summary, progress, actor, row.revision + 1⟩ t₀.rowSeq t) →
          Tx.Decides K lost timed (fetched "read initiative update" x >>= fun row => formatted (updateFromRow row)) T'
            .accept := by
        rintro T' x rfl
        refine decides_formatted (ht.imp_left fun hclock => ?_)
        have hnew := hclock t htick
        simp only [Printable, Tick.timestamps, List.forall_mem_cons] at hnew
        obtain ⟨now, hnow⟩ := Option.isSome_iff_exists.mp hnew.1
        simp [updateFromRow, Sql.updateRow, hnow]
      exact decides_select hK (clean_cons.mpr ⟨ho, clean_cons.mpr ⟨hu, clean_nil⟩⟩) (hread hinserted)

theorem decides_attachProjectBody {expected position : ℤ} {s : ProjectSnapshot} (hF : T.Proper)
    (hn : Clean (Op.attachProject o i expected s position).texts)
    (hv : (Op.attachProject o i expected s position).Valid)
    (ht : (Op.attachProject o i expected s position).Timely K T.toFacts ∨ timed) :
    Tx.Decides K lost timed (attachProjectBody o i expected s position) T
      ((Op.attachProject o i expected s position).verdict T.toFacts) := by
  obtain ⟨hs, hpos, hle⟩ := hv
  have hon : Clean [o, i] := clean_on hn
  have hid : Clean [o, i, s.projectId] := by
    simp only [Op.texts, Sql.snapshotBinds, clean_append, clean_cons, clean_nil, and_true] at hn ⊢
    exact ⟨hn.1.1, hn.1.2, hn.2.1⟩
  have hinteger : integer position = true := by
    unfold integer
    rw [decide_eq_true_eq]
    omega
  refine decides_locked hK hon fun row hopen _ => decides_select hK hid ?_
  cases hproject : T.project o i s.projectId with
  | some old =>
    simp only [Option.map_some, Option.isSome_some, if_true]
    exact decides_refuse
  | none =>
    simp only [Option.map_none, Option.isSome_none, Bool.false_eq_true, if_false]
    refine decides_select hK hon ?_
    by_cases hcount : maxProjectsPerInitiative ≤ (T.projectsOf o i).length
    · rw [if_pos hcount, if_pos hcount]
      exact decides_refuse
    rw [if_neg hcount, if_neg hcount]
    refine decides_insert hK hn rfl fun t _ => ?_
    by_cases hfit : datesFit s.targetStart s.targetDate = true
    · cases htaken : Sql.positionTaken (T.projectsOf o i) (Sql.projectRow o i s position) with
      | true =>
        simp only [smallint_of_progress hs.progress, hfit, hinteger, projectRow_checks hs hpos, hproject,
          Bool.and_self, Bool.not_true, Bool.false_eq_true, if_false, Bool.or_true, if_true]
        exact decides_refuse
      | false =>
        simp only [smallint_of_progress hs.progress, hfit, hinteger, projectRow_checks hs hpos, hproject,
          hopen.found, Bool.and_self, Bool.not_true, Bool.false_eq_true, if_false, Option.isSome_none, Bool.or_self,
          Option.isNone_some]
        have hread := @project_insert _ _ s.projectId _ (Sql.projectRow o i s position) hproject
          (by simp [ProjectRow.at, Sql.projectRow]) rfl
        refine decides_bumpInitiative hK (by exact hopen.found) hon (hF.checks hopen.found) fun t' _ => ?_
        exact decides_readProject hK hread hid ht
    · rw [Bool.not_eq_true] at hfit
      simp only [smallint_of_progress hs.progress, hfit, hinteger, Bool.and_false, Bool.false_and, Bool.not_false,
        if_true]
      exact meets_throw rfl

theorem decides_updateProjectSnapshotBody {expected : ℤ} {s : ProjectSnapshot} (hF : T.Proper)
    (hn : Clean (Op.updateProjectSnapshot o i expected s).texts) (hv : (Op.updateProjectSnapshot o i expected s).Valid)
    (ht : (Op.updateProjectSnapshot o i expected s).Timely K T.toFacts ∨ timed) :
    Tx.Decides K lost timed (updateProjectSnapshotBody o i expected s) T
      ((Op.updateProjectSnapshot o i expected s).verdict T.toFacts) := by
  have hs : s.Valid := hv
  have hon : Clean [o, i] := clean_on hn
  have hid : Clean [o, i, s.projectId] := by
    simp only [Op.texts, Sql.snapshotBinds, clean_append, clean_cons, clean_nil, and_true] at hn ⊢
    exact ⟨hn.1.1, hn.1.2, hn.2.1⟩
  show Tx.Decides K lost timed _ T (T.toFacts.refreshable o i s.projectId expected _)
  unfold updateProjectSnapshotBody lockInitiative Facts.refreshable
  rw [Prog.bind_assoc]
  refine decides_statement hK hon fun t _ => ?_
  cases hrow : T.initiative o i with
  | none => exact meets_throw rfl
  | some row =>
    simp only [orRefuse, pure_eq, ret_bind, applyAll_nil]
    cases harch : row.archived with
    | true =>
      simp only [if_true]
      exact decides_refuse
    | false =>
      simp only [Bool.false_eq_true, if_false]
      refine decides_statement hK hid fun t' _ => ?_
      cases hproject : T.project o i s.projectId with
      | none => exact meets_throw rfl
      | some p =>
        simp only [Option.map_some, ret_bind, applyAll_nil]
        by_cases hrev : p.membershipRevision = expected
        · simp only [hrev, ne_eq, not_true_eq_false, if_false]
          refine decides_statement hK hn fun t'' _ => ?_
          by_cases hfit : datesFit s.targetStart s.targetDate = true
          · have hp := ProjectRow.checks_iff.mp
              ((hF.represented o i).checked p (List.mem_of_find?_eq_some hproject))
            have hrevision : (Sql.refreshed s p).membershipRevision = p.membershipRevision + 1 := rfl
            have hpos : 0 < (Sql.refreshed s p).membershipRevision := by
              have := hp.2.1
              omega
            have hc : (Sql.refreshed s p).checks = true :=
              ProjectRow.checks_iff.mpr ⟨hp.1, hpos, hs.status, hs.health, hs.progress, hs.window⟩
            simp only [smallint_of_progress hs.progress, hfit, hproject, hc, Bool.and_self, Bool.not_true,
              Bool.false_eq_true, if_false, if_true]
            have hread := @project_put o i _ (Sql.refreshed s p) p s.projectId hproject rfl
            refine decides_bumpInitiative hK (by exact hrow) hon (hF.checks hrow) fun _ _ => ?_
            exact decides_readProject hK hread hid ht
          · rw [Bool.not_eq_true] at hfit
            simp only [hfit, Bool.and_false, Bool.not_false, if_true]
            rfl
        · simp only [hrev, ne_eq, not_false_eq_true, if_true]
          exact decides_refuse

theorem decides_detachProjectBody {p : String} {expected expectedMembership : ℤ} (hF : T.Proper)
    (hn : Clean (Op.detachProject o i p expected expectedMembership).texts) :
    Tx.Decides K lost timed (detachProjectBody o i p expected expectedMembership) T
      ((Op.detachProject o i p expected expectedMembership).verdict T.toFacts) := by
  have hon : Clean [o, i] := clean_on hn
  refine decides_locked hK hon fun row hopen _ => decides_statement hK hn fun t _ => ?_
  cases hproject : T.project o i p with
  | none =>
    simp only [Bool.not_false, if_true]
    refine decides_select hK hn ?_
    simp only [applyAll_nil, hproject, Option.isSome_none, Bool.false_eq_true, if_false]
    exact decides_refuse
  | some old =>
    by_cases hrev : old.membershipRevision = expectedMembership
    · simp only [hrev, if_true, Bool.not_true, Bool.false_eq_true, if_false]
      exact decides_bumpInitiative hK (by exact hopen.found) hon (hF.checks hopen.found) fun _ _ => decides_ret
    · simp only [hrev, if_false, Bool.not_false, if_true]
      refine decides_select hK hn ?_
      simp only [applyAll_nil, hproject, Option.isSome_some, if_true]
      exact decides_refuse

/-- The loop of a reorder never fails, wherever it stands. -/
theorem decides_writeOrder {α : Type} {v : Verdict} (hon : Clean [o, i]) : ∀ {items : List ReorderInput} {T : Tables}
    {f : List ReorderItemRecord → Tx α}, Clean (items.map (·.projectId)) → Placing items (T.projectsOf o i) →
    (∀ out T', T'.initiatives = T.initiatives → Tx.Decides K lost timed (f out) T' v) →
      Tx.Decides K lost timed (writeOrder o i items >>= f) T v
  | [], T, _, _, _, hf => hf [] T rfl
  | item :: items, T, f, hn, hp, hf => by
    obtain ⟨hitem, hrest⟩ := clean_cons.mp hn
    have hid : Clean [o, i, item.projectId] := clean_append.mpr ⟨hon, clean_cons.mpr ⟨hitem, clean_nil⟩⟩
    unfold writeOrder
    rw [Prog.bind_assoc]
    refine decides_statement hK hid fun t _ => ?_
    cases hproject : T.project o i item.projectId with
    | none =>
      obtain ⟨x, hx, he⟩ := List.mem_map.mp (hp.present item List.mem_cons_self)
      have hno := List.find?_eq_none.mp hproject x hx
      simp [he] at hno
    | some row =>
      have hrow : row ∈ T.projectsOf o i := List.mem_of_find?_eq_some hproject
      obtain ⟨hinteger, hc, hfree⟩ := hp.write hrow
      simp only [hinteger, hc, hfree, Bool.not_true, Bool.false_eq_true, if_false]
      rw [Prog.bind_assoc]
      simp only [fetched, pure_eq, ret_bind]
      rw [Prog.bind_assoc]
      refine decides_writeOrder hon hrest ?_ fun out T' hT' => hf _ T' hT'
      simp only [applyAll_cons, applyAll_nil, store_apply, Write.apply]
      rw [Facts.projectsOf, projectsOf_put]
      exact hp.step hrow

theorem decides_reorderProjectsBody {expected : ℤ} {items : List ReorderInput} (hF : T.Proper)
    (hn : Clean (Op.reorderProjects o i expected items).texts)
    (hv : (Op.reorderProjects o i expected items).Valid) :
    Tx.Decides K lost timed (reorderProjectsBody o i expected items) T
      ((Op.reorderProjects o i expected items).verdict T.toFacts) := by
  have hon : Clean [o, i] := clean_on hn
  have hrepresented := hF.represented o i
  refine decides_locked hK hon fun row hopen _ => decides_statement hK hon fun t _ => ?_
  show Tx.Decides K lost timed (if !reorderAccepts (T.order o i) items then _ else _) T _
  by_cases haccepts : reorderAccepts (T.order o i) items = true
  · simp only [haccepts, Bool.not_true, Bool.false_eq_true, if_false, if_true]
    refine decides_statement hK hon fun t' _ => ?_
    have hperm := List.perm_insertionSort
      (fun r s : ProjectRow => t'.rank r.projectId ≤ t'.rank s.projectId) (T.projectsOf o i)
    have hle : ∀ p ∈ T.projectsOf o i, p.position ≤ maxPosition := fun p hp => hF.within p (List.mem_filter.mp hp).1
    obtain ⟨ws, hws⟩ := stageRows_total (staging_of_represented hrepresented hle hperm)
    rw [hws, stageRows_ok _ _ hws]
    show Tx.Decides K lost timed (writeOrder o i items >>= fun output => _) (applyAll _ T) _
    rw [applyAll_staged hperm (unique_projectsOf hrepresented.projects)]
    have hplacing := placing_of_accepts hrepresented haccepts hv
    rw [← projectsOf_staged] at hplacing
    refine decides_writeOrder hK hon (clean_append.mp hn).2 hplacing fun out T' hT' => ?_
    have hrow : T'.initiative o i = some row := by
      rw [Facts.initiative, hT']
      exact hopen.found
    exact decides_bumpInitiative hK hrow hon (hF.checks hopen.found) fun _ _ => decides_ret
  · rw [Bool.not_eq_true] at haccepts
    simp only [haccepts, Bool.not_false, if_true]
    exact decides_refuse

end

end Portfolio
