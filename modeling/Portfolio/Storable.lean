/-
# What is admitted fits the tables

The handlers check what they admit, and the schema checks it again. The two
agree on every field but one: `parse_date_window` takes any date the `time`
crate has, from the year -9999 on, and a `date` column begins at November 24
of 4714 BC. A call whose dates are before that fails in the database when it
comes to the statement that writes them, and no statement of any other call
ever fails for its values.

Key definitions: `Op.dates`, `Op.Storable`, `Op.Reaches`, `Call.Fits`.
Key theorems: `overflow_iff`, `requests_fit`.
-/
import Portfolio.Decisions

namespace Portfolio

open Txn Txn.Prog

/-- The target dates that an operation stores. -/
def Op.dates : Op → Option Date × Option Date
  | .createInitiative v => (v.targetStart, v.targetDate)
  | .updateInitiative _ _ _ patch => (patch.targetStart, patch.targetDate)
  | .attachProject _ _ _ s _ => (s.targetStart, s.targetDate)
  | .updateProjectSnapshot _ _ _ s => (s.targetStart, s.targetDate)
  | .addUpdate .. => (none, none)
  | .archiveInitiative .. => (none, none)
  | .detachProject .. => (none, none)
  | .reorderProjects .. => (none, none)

/-- They are dates of a `date` column. -/
def Op.Storable (op : Op) : Prop := datesFit op.dates.1 op.dates.2 = true

/-- The operation has dates, and gets to the statement that writes them: its guards before that hold. -/
def Op.Reaches (F : Facts) : Op → Prop
  | .createInitiative _ => True
  | .updateInitiative o i expected _ => ∃ row, F.Open o i row ∧ row.revision = expected
  | .attachProject o i expected s _ => (∃ row, F.Open o i row ∧ row.revision = expected) ∧
      F.project o i s.projectId = none ∧ (F.projectsOf o i).length < maxProjectsPerInitiative
  | .updateProjectSnapshot o i expected s => (∃ row, F.Open o i row) ∧
      ∃ p, F.project o i s.projectId = some p ∧ p.membershipRevision = expected
  | .addUpdate .. => False
  | .archiveInitiative .. => False
  | .detachProject .. => False
  | .reorderProjects .. => False

/-- In a run of the call from these tables no statement fails, unless the server is lost, or a key is taken and the
call ends with the failure of its own for it. -/
def Call.Fits (c : Call) (T : Tables) : Prop :=
  ∀ t : ℕ → Tick, ∀ d ∈ c.code.faults t T, d = .fault ∨
    (d = .uniqueViolation ∧ ∃ failure ∈ uniqueFailures, (c.code.run t T).1 = .error (.domain failure))

/-! ### When a date is refused -/

section
variable {F : Facts} {o i p : String} {expected : ℤ} {next : Verdict} {op : Op}

theorem mutable_overflow : F.mutable o i expected next = .overflow ↔
    (∃ row, F.Open o i row ∧ row.revision = expected) ∧ next = .overflow :=
  mutable_eq_iff nofun

theorem refreshable_overflow : F.refreshable o i p expected next = .overflow ↔
    ((∃ row, F.Open o i row) ∧ ∃ old, F.project o i p = some old ∧ old.membershipRevision = expected) ∧
      next = .overflow := by
  unfold Facts.refreshable
  cases hrow : F.initiative o i with
  | none =>
    refine ⟨nofun, fun ⟨⟨⟨row, hopen⟩, _⟩, _⟩ => ?_⟩
    rw [hopen.found] at hrow
    cases hrow
  | some row =>
    cases harch : row.archived with
    | true =>
      simp only [harch, if_true]
      refine ⟨nofun, fun ⟨⟨⟨row', hopen⟩, _⟩, _⟩ => ?_⟩
      have hunarchived := hopen.unarchived
      rw [Option.some.inj (hopen.found.symm.trans hrow), harch] at hunarchived
      cases hunarchived
    | false =>
      simp only [harch, Bool.false_eq_true, if_false]
      cases hproject : F.project o i p with
      | none =>
        refine ⟨nofun, fun ⟨⟨_, old, hold, _⟩, _⟩ => ?_⟩
        cases hold
      | some old =>
        by_cases hrev : old.membershipRevision = expected
        · simp only [hrev, ne_eq, not_true_eq_false, if_false]
          exact ⟨fun h => ⟨⟨⟨row, hrow, harch⟩, old, rfl, hrev⟩, h⟩, fun h => h.2⟩
        · simp only [hrev, ne_eq, not_false_eq_true, if_true]
          refine ⟨nofun, fun ⟨⟨_, old', hold, hrev'⟩, _⟩ => ?_⟩
          obtain rfl := Option.some.inj hold
          exact absurd hrev' hrev

theorem fit_overflow {start target : Option Date} :
    (if datesFit start target then Verdict.accept else .overflow) = .overflow ↔ ¬ datesFit start target = true := by
  by_cases hfit : datesFit start target = true <;> simp [hfit]

/-- **A date is refused** where an operation with an unstorable one gets to write it. -/
theorem overflow_iff : op.verdict F = .overflow ↔ op.Reaches F ∧ ¬ op.Storable := by
  unfold Op.Storable
  cases op with
  | createInitiative v =>
    unfold Op.verdict Op.Reaches Op.dates
    by_cases hfit : datesFit v.targetStart v.targetDate = true
    · simp only [hfit, Bool.not_true, Bool.false_eq_true, if_false, not_true_eq_false, and_false, iff_false]
      split <;> nofun
    · simp [hfit]
  | updateInitiative o i expected patch => exact mutable_overflow.trans (and_congr_right fun _ => fit_overflow)
  | addUpdate o i u =>
    refine ⟨fun h => ?_, fun h => h.1.elim⟩
    have hnext := (mutable_overflow.mp h).2
    split at hnext <;> cases hnext
  | archiveInitiative =>
    refine ⟨fun h => ?_, fun h => h.1.elim⟩
    cases (mutable_overflow.mp h).2
  | attachProject o i expected s position =>
    refine mutable_overflow.trans ?_
    unfold Op.Reaches Op.dates
    rw [and_assoc]
    refine and_congr_right fun _ => ?_
    cases hproject : F.project o i s.projectId with
    | some old => simp
    | none =>
      by_cases hcount : maxProjectsPerInitiative ≤ (F.projectsOf o i).length
      · have hnot : ¬ (F.projectsOf o i).length < maxProjectsPerInitiative := Nat.not_lt.mpr hcount
        simp [hcount, hnot]
      · have hlt : (F.projectsOf o i).length < maxProjectsPerInitiative := Nat.not_le.mp hcount
        by_cases hfit : datesFit s.targetStart s.targetDate = true
        · simp only [hcount, hfit, Option.isSome_none, Bool.false_eq_true, if_false, Bool.not_true, not_true_eq_false,
            and_false, iff_false]
          split <;> nofun
        · simp [hcount, hlt, hfit]
  | updateProjectSnapshot => exact refreshable_overflow.trans (and_congr_right fun _ => fit_overflow)
  | detachProject o i p expected expectedMembership =>
    refine ⟨fun h => ?_, fun h => h.1.elim⟩
    have hnext := (mutable_overflow.mp h).2
    split at hnext
    · cases hnext
    · split at hnext <;> cases hnext
  | reorderProjects =>
    refine ⟨fun h => ?_, fun h => h.1.elim⟩
    have hnext := (mutable_overflow.mp h).2
    split at hnext <;> cases hnext

end

/-! ### Admitted calls -/

section
variable {plugin : ProjectPortfolioPlugin} {w : Sequences} {S : System} {c : Call}

/-- A statement that fails otherwise than at a date fails of a lost server or at a taken key. -/
theorem fits_of_failing {v : Verdict} {d : DbError} {e : StorageError} (h : Failing v d e) (hv : v ≠ .overflow) :
    d = .fault ∨ (d = .uniqueViolation ∧ ∃ failure ∈ uniqueFailures, e = .domain failure) := by
  cases h with
  | lost => exact Or.inl rfl
  | overflow _ hov => exact absurd hov hv
  | taken hfailure _ => exact Or.inr ⟨rfl, _, hfailure, rfl⟩

/-- A date that is refused is refused on every healthy server. -/
theorem overflow_fails (hconf : plugin.Configured)
    (h : Txn.Steps Call.code (Admitted plugin) (System.initial w) S) (hc : Admitted plugin c)
    (hnone : S.db.command c.key = none) (hov : c.op.verdict S.db.toFacts = .overflow) {t : ℕ → Tick}
    (ht : ∀ n, (t n).fault = false) : .outOfRange ∈ c.code.faults t S.db := by
  have hdecides := decided_healthy hconf h hc hnone (Or.inr trivial) ht
  rw [hov] at hdecides
  obtain ⟨operation, hrun⟩ := hdecides.overflowed not_false
  rcases c.reports.faults_error hrun with ⟨hown, -⟩ | ⟨d, hfaults, hs⟩
  · cases hown
  · cases hs
    rw [hfaults]
    exact List.mem_singleton_self _

/-- **What is admitted fits the tables, but for the range of a date.** In every state the plugin reaches, a call that
its handler has admitted has no statement that fails, but of a lost server or at a taken key that has a failure of its
own, exactly if its dates are ones of a `date` column, or it has its receipt, or a guard on the tables refuses it
before it writes them. In a run, whatever the attempts do between each other, no statement of an attempt fails
otherwise where its dates fit or the tables keep it from writing them. -/
theorem requests_fit {plugin : ProjectPortfolioPlugin} {w : Sequences} {S : System} (hconf : plugin.Configured)
    (h : Txn.Steps Call.code (Admitted plugin) (System.initial w) S) :
    (∀ (context : Context) (q : Request) (c : Call), Handler.mutation (q.handle plugin context) = some c →
      (c.Fits S.db ↔ c.op.Storable ∨ S.db.command c.key ≠ none ∨ ¬ c.op.Reaches S.db.toFacts)) ∧
    (∀ (i : ℕ) (c : Call) (ticks : List Tick) (β : Type) (st : Sql β) (k : Except DbError β → Tx Record)
      (log : List Write) (held : List Lock) (t : Tick) (d : DbError),
      S.threads i = .active c ticks (.call st k) log held → c.op.Storable ∨ ¬ c.op.Reaches S.db.toFacts →
      (st.run t (applyAll log S.db)).1 = .error d →
      d = .fault ∨ (d = .uniqueViolation ∧ ∃ failure ∈ uniqueFailures, k (.error d) = .throw (.domain failure))) := by
  have hverdict : ∀ {op : Op}, op.Storable ∨ ¬ op.Reaches S.db.toFacts → op.verdict S.db.toFacts ≠ .overflow := by
    intro op hop hov
    obtain ⟨hreaches, hstorable⟩ := overflow_iff.mp hov
    rcases hop with hop | hop
    · exact hstorable hop
    · exact hop hreaches
  refine ⟨fun context q c hmutation => ?_, fun i c ticks β st k log held t d hi hop hd => ?_⟩
  · have hc : Admitted plugin c := ⟨context, q, hmutation⟩
    constructor
    · intro hfits
      by_contra hnot
      push Not at hnot
      obtain ⟨hstorable, hnone, hreaches⟩ := hnot
      have hmem := overflow_fails hconf h hc hnone (overflow_iff.mpr ⟨hreaches, hstorable⟩) (t := fun _ => default)
        fun _ => rfl
      rcases hfits _ _ hmem with hd | ⟨hd, -⟩ <;> cases hd
    · intro hop t d hd
      obtain ⟨e, hrun, hs⟩ := c.reports.of_mem hd
      rw [hrun]
      have hfailing : ∃ v, v ≠ .overflow ∧ Failing v d e := by
        cases hcommand : S.db.command c.key with
        | some row =>
          have hreplays := replayed_anyhow hconf h hc hcommand t
          rw [hrun] at hreplays
          exact ⟨.accept, nofun, failing_of_replayed hs hreplays⟩
        | none =>
          have hguard : c.op.Storable ∨ ¬ c.op.Reaches S.db.toFacts := by
            rcases hop with hop | hop | hop
            · exact Or.inl hop
            · exact absurd hcommand hop
            · exact Or.inr hop
          exact ⟨_, hverdict hguard, failing_of_error hconf h hc hrun hs⟩
      obtain ⟨v, hv, hfailing⟩ := hfailing
      rcases fits_of_failing hfailing hv with hd | ⟨hd, failure, hmem, he⟩
      · exact Or.inl hd
      · exact Or.inr ⟨hd, failure, hmem, by rw [he]⟩
  · obtain ⟨e, he, hfailing⟩ := failing_of_exec hconf h hi hd
    rcases fits_of_failing hfailing (hverdict hop) with hd | ⟨hd, failure, hmem, rfl⟩
    · exact Or.inl hd
    · exact Or.inr ⟨hd, failure, hmem, he⟩

end

/-- An attach of a project with dates. -/
def sampleDatedRequest : Request :=
  .attachProject ⟨"1", .onTrack, "attach-dated", "alpha", "Site", "2026-08-30T00:00:00Z", "acme", 0, 10, "site", "r1",
    .started, some "2026-12-31", some "2026-01-01"⟩

/-- An instance that digests it. -/
def sampleDatedPlugin : ProjectPortfolioPlugin :=
  { samplePlugin with
    digest := fun j =>
      if sampleDatedRequest.json = some j then [121, 27, 202, 14, 195, 200, 20, 241, 110, 22, 155, 245, 39, 107, 122,
        200, 205, 127, 200, 169, 144, 110, 46, 163, 207, 235, 40, 251, 123, 241, 212, 237] else samplePlugin.digest j }

/-- After a create it fits. -/
theorem requests_fit_attach : ∃ (S : System) (c : Call), S.db.initiatives.length = 1 ∧
    Handler.mutation (sampleDatedRequest.handle sampleDatedPlugin sampleContext) = some c ∧
    (c.op.dates.1.isSome = true ∧ c.op.dates.2.isSome = true) ∧ c.Fits S.db := by
  have hrun : ((System.initial ⟨0, 0⟩).schedule Call.code 1
      (Txn.attempt 0 (sampleMutation sampleCreateRequest) (sampleTicks 1 6))).bind (fun S =>
        (S.schedule Call.code 1 []).map fun S' => S'.db.initiatives.length) = some 1 := by decide +kernel
  obtain ⟨S, S', h, h', hlength⟩ := @System.scheduled (Admitted sampleDatedPlugin) _ _ _ _ _ _ _ hrun
    (by decide +kernel) (Txn.starts_append
      (Txn.starts_attempt ⟨sampleContext, sampleCreateRequest, by decide +kernel⟩) Txn.starts_nil)
  have hconf : sampleDatedPlugin.Configured := ⟨by decide +kernel, by decide +kernel⟩
  have hdates : (Handler.mutation (sampleDatedRequest.handle sampleDatedPlugin sampleContext)).map (fun c =>
      ((c.op.dates.1.isSome, c.op.dates.2.isSome), datesFit c.op.dates.1 c.op.dates.2)) =
      some ((true, true), true) := by decide +kernel
  obtain ⟨c, hmutation, hdates⟩ := Option.map_eq_some_iff.mp hdates
  obtain ⟨hsome, hfit⟩ := Prod.mk.inj hdates
  exact ⟨S', c, hlength, hmutation, Prod.mk.inj hsome,
    ((requests_fit hconf (h.trans h')).1 _ _ _ hmutation).mpr (Or.inl hfit)⟩

/-- A create with a target start in the year -5000. -/
def sampleAncientRequest : Request :=
  .createInitiative ⟨"create", "alpha", "Roadmap", "acme", none, none, none, some "-5000-01-01"⟩

/-- An instance that digests it. -/
def sampleAncientPlugin : ProjectPortfolioPlugin :=
  { samplePlugin with
    digest := fun j =>
      if sampleAncientRequest.json = some j then [205, 220, 60, 24, 221, 221, 202, 141, 4, 157, 50, 242, 42, 251, 137,
        24, 149, 78, 141, 132, 169, 23, 23, 10, 167, 208, 115, 56, 63, 254, 107, 20] else samplePlugin.digest j }

/-- On empty tables the handler admits it, and its INSERT fails with the date out of range. -/
theorem request_out_of_range : ∃ c : Call,
    Handler.mutation (sampleAncientRequest.handle sampleAncientPlugin sampleContext) = some c ∧
    c.code.faults (fun _ => default) (System.initial ⟨0, 0⟩).db = [.outOfRange] ∧
    ¬ c.Fits (System.initial ⟨0, 0⟩).db := by
  have hrun : (Handler.mutation (sampleAncientRequest.handle sampleAncientPlugin sampleContext)).map (fun c =>
      c.code.faults (fun _ => default) (System.initial ⟨0, 0⟩).db) = some [.outOfRange] := by decide +kernel
  obtain ⟨c, hc, hfaults⟩ := Option.map_eq_some_iff.mp hrun
  refine ⟨c, hc, hfaults, fun hfits => ?_⟩
  rcases hfits _ .outOfRange (by rw [hfaults]; exact List.mem_singleton_self _) with hd | ⟨hd, -⟩ <;> cases hd

end Portfolio
