/-
# Requests that expect stale revisions

Seven operations name the revisions they expect: that of their initiative, or
of memberships, or both. `Op.current` is the operation with the revisions the
tables have, and an operation is only stale if the tables would accept that one
(`Op.OnlyStale`). Such a request is refused with a revision conflict, whichever
of its revisions differ, but for a reorder whose initiative is at the expected
revision: the code compares the memberships of a reorder as a whole, and calls
any difference an invalid request.

Key definitions: `Op.current`, `Op.Stale`, `Op.OnlyStale`, `Op.ReordersCurrent`.
Key theorems: `stale_verdict`, `stale_of_conflict`, `stale_revision_reported`.
-/
import Portfolio.Decisions
import Portfolio.Errors

namespace Portfolio

open Txn Txn.Prog

/-! ### Stale operations -/

/-- The revision of the initiative, if it is there. -/
def Facts.current (F : Facts) (o i : String) (expected : ℤ) : ℤ :=
  ((F.initiative o i).map (·.revision)).getD expected

/-- The revision of the membership, if the project is attached. -/
def Facts.currentMembership (F : Facts) (o i p : String) (expected : ℤ) : ℤ :=
  ((F.project o i p).map (·.membershipRevision)).getD expected

/-- The item at the current revision of its membership. -/
def Facts.currentItem (F : Facts) (o i : String) (item : ReorderInput) : ReorderInput :=
  { item with
    expectedMembershipRevision := F.currentMembership o i item.projectId item.expectedMembershipRevision }

/-- The operation at the current revisions of what it names. -/
def Op.current (F : Facts) : Op → Op
  | .createInitiative v => .createInitiative v
  | .updateInitiative o i expected patch => .updateInitiative o i (F.current o i expected) patch
  | .addUpdate o i u expected health summary progress =>
    .addUpdate o i u (F.current o i expected) health summary progress
  | .archiveInitiative o i expected => .archiveInitiative o i (F.current o i expected)
  | .attachProject o i expected s position => .attachProject o i (F.current o i expected) s position
  | .updateProjectSnapshot o i expected s =>
    .updateProjectSnapshot o i (F.currentMembership o i s.projectId expected) s
  | .detachProject o i p expected expectedMembership =>
    .detachProject o i p (F.current o i expected) (F.currentMembership o i p expectedMembership)
  | .reorderProjects o i expected items =>
    .reorderProjects o i (F.current o i expected) (items.map (F.currentItem o i))

/-- Some revision it expects is not the current one. -/
def Op.Stale (F : Facts) (op : Op) : Prop := op.current F ≠ op

/-- It is stale, and the tables would accept it at the current revisions. -/
structure Op.OnlyStale (F : Facts) (op : Op) : Prop where
  stale : op.Stale F
  accepted : (op.current F).verdict F = .accept

/-- It is a reorder that expects the current revision of its initiative. -/
def Op.ReordersCurrent (F : Facts) : Op → Prop
  | .reorderProjects o i expected _ => F.current o i expected = expected
  | _ => False

/-! ### What is decided of them -/

section
variable {F : Facts} {o i p : String} {expected : ℤ} {next next' : Verdict}

theorem current_of_open {row : InitiativeRow} (h : F.initiative o i = some row) :
    F.current o i expected = row.revision := by
  rw [Facts.current, h]
  rfl

theorem currentMembership_of_some {row : ProjectRow} (h : F.project o i p = some row) :
    F.currentMembership o i p expected = row.membershipRevision := by
  rw [Facts.currentMembership, h]
  rfl

/-- An initiative that is open at the expected revision leaves the decision to the rest. -/
theorem mutable_of_open {row : InitiativeRow} (hopen : F.Open o i row) (hrev : row.revision = expected) :
    F.mutable o i expected next = next := by
  unfold Facts.mutable
  rw [hopen.found]
  simp only [hopen.unarchived, hrev, Bool.false_eq_true, if_false, ne_eq, not_true_eq_false]

/-- A stale initiative revision is a conflict. -/
theorem mutable_stale (h : F.mutable o i (F.current o i expected) next = .accept)
    (hne : F.current o i expected ≠ expected) : F.mutable o i expected next' = .refuse .revisionConflict := by
  obtain ⟨⟨row, hopen, hrev⟩, -⟩ := (mutable_eq_iff (by nofun)).mp h
  have hstale : row.revision ≠ expected := hrev ▸ hne
  unfold Facts.mutable
  rw [hopen.found]
  simp only [hopen.unarchived, Bool.false_eq_true, if_false, ne_eq, hstale, not_false_eq_true, if_true]

/-- A stale membership revision of a refresh is a conflict. -/
theorem refreshable_stale (h : F.refreshable o i p (F.currentMembership o i p expected) next = .accept)
    (hne : F.currentMembership o i p expected ≠ expected) :
    F.refreshable o i p expected next' = .refuse .revisionConflict := by
  unfold Facts.refreshable at h ⊢
  cases hrow : F.initiative o i with
  | none =>
    rw [hrow] at h
    cases h
  | some row =>
    rw [hrow] at h
    cases harch : row.archived with
    | true =>
      simp only [harch, if_true] at h
      cases h
    | false =>
      cases hp : F.project o i p with
      | none =>
        simp only [harch, hp, Bool.false_eq_true, if_false] at h
        cases h
      | some old =>
        rw [currentMembership_of_some hp] at hne
        simp only [harch, Bool.false_eq_true, if_false, ne_eq, hne, not_false_eq_true, if_true]

/-- A conflict of an operation on its initiative is one of its revision, or of the rest. -/
theorem mutable_conflict (h : F.mutable o i expected next = .refuse .revisionConflict) :
    F.current o i expected ≠ expected ∨ next = .refuse .revisionConflict := by
  unfold Facts.mutable at h
  cases hrow : F.initiative o i with
  | none =>
    rw [hrow] at h
    cases h
  | some row =>
    rw [hrow] at h
    simp only at h
    split at h
    · cases h
    split at h
    · rename_i hne
      exact .inl (by rw [current_of_open hrow]; exact hne)
    · exact .inr h

theorem refreshable_conflict (h : F.refreshable o i p expected next = .refuse .revisionConflict) :
    F.currentMembership o i p expected ≠ expected ∨ next = .refuse .revisionConflict := by
  unfold Facts.refreshable at h
  cases hrow : F.initiative o i with
  | none =>
    rw [hrow] at h
    cases h
  | some row =>
    rw [hrow] at h
    simp only at h
    split at h
    · cases h
    cases hp : F.project o i p with
    | none =>
      rw [hp] at h
      cases h
    | some old =>
      rw [hp] at h
      simp only at h
      split at h
      · rename_i hne
        exact .inl (by rw [currentMembership_of_some hp]; exact hne)
      · exact .inr h

/-- Items that are accepted at the current revisions of their memberships are not accepted at others. -/
theorem not_reorderAccepts {order : List (String × ℤ)} {items : List ReorderInput}
    (h : reorderAccepts order (items.map (F.currentItem o i)) = true) (hne : items.map (F.currentItem o i) ≠ items) :
    reorderAccepts order items = false := by
  rw [Bool.eq_false_iff]
  intro haccepts
  simp only [reorderAccepts, Bool.and_eq_true, List.all_eq_true, decide_eq_true_eq] at h haccepts
  refine hne ((List.map_congr_left ?_).trans (List.map_id items))
  intro item hitem
  have hcurrent := h.2 _ (List.mem_map_of_mem hitem)
  have hgiven := haccepts.2 item hitem
  have hrev : (F.currentItem o i item).expectedMembershipRevision = item.expectedMembershipRevision :=
    Option.some.inj (hcurrent.symm.trans hgiven)
  obtain ⟨projectId, expected, position⟩ := item
  exact congrArg (fun revision => (⟨projectId, revision, position⟩ : ReorderInput)) hrev

/-- **An operation that is only stale is refused with a conflict**, unless it is a reorder whose memberships
alone are. -/
theorem stale_verdict {op : Op} (h : op.OnlyStale F) :
    op.verdict F = .refuse .revisionConflict ↔ ¬ op.ReordersCurrent F := by
  obtain ⟨hstale, haccepted⟩ := h
  cases op with
  | createInitiative v => exact absurd rfl hstale
  | updateInitiative o i expected patch =>
    have hne : F.current o i expected ≠ expected := fun he => hstale (by rw [Op.current, he])
    exact iff_of_true (mutable_stale haccepted hne) not_false
  | addUpdate o i u expected health summary progress =>
    have hne : F.current o i expected ≠ expected := fun he => hstale (by rw [Op.current, he])
    exact iff_of_true (mutable_stale haccepted hne) not_false
  | archiveInitiative o i expected =>
    have hne : F.current o i expected ≠ expected := fun he => hstale (by rw [Op.current, he])
    exact iff_of_true (mutable_stale haccepted hne) not_false
  | attachProject o i expected s position =>
    have hne : F.current o i expected ≠ expected := fun he => hstale (by rw [Op.current, he])
    exact iff_of_true (mutable_stale haccepted hne) not_false
  | updateProjectSnapshot o i expected s =>
    have hne : F.currentMembership o i s.projectId expected ≠ expected := fun he => hstale (by rw [Op.current, he])
    exact iff_of_true (refreshable_stale haccepted hne) not_false
  | detachProject o i p expected expectedMembership =>
    refine iff_of_true ?_ not_false
    by_cases he : F.current o i expected = expected
    · have hne : F.currentMembership o i p expectedMembership ≠ expectedMembership := fun hm =>
        hstale (by rw [Op.current, he, hm])
      obtain ⟨⟨row, hopen, hrev⟩, hnext⟩ := (mutable_eq_iff (by nofun)).mp haccepted
      rw [Op.verdict, mutable_of_open hopen (hrev.trans he)]
      cases hp : F.project o i p with
      | none =>
        rw [hp] at hnext
        cases hnext
      | some old =>
        rw [currentMembership_of_some hp] at hne
        exact if_neg hne
    · exact mutable_stale haccepted he
  | reorderProjects o i expected items =>
    by_cases he : F.current o i expected = expected
    · refine iff_of_false (fun hconflict => ?_) (not_not_intro he)
      have hne : items.map (F.currentItem o i) ≠ items := fun hm => hstale (by rw [Op.current, he, hm])
      obtain ⟨⟨row, hopen, hrev⟩, hnext⟩ := (mutable_eq_iff (by nofun)).mp haccepted
      -- the memberships are compared as a whole
      have haccepts : reorderAccepts (F.order o i) (items.map (F.currentItem o i)) = true := by
        by_contra hnot
        rw [if_neg hnot] at hnext
        cases hnext
      rw [Op.verdict, mutable_of_open hopen (hrev.trans he), not_reorderAccepts haccepts hne] at hconflict
      cases hconflict
    · exact iff_of_true (mutable_stale haccepted he) he

/-- A conflict is decided of stale operations only. -/
theorem stale_of_conflict {op : Op} (h : op.verdict F = .refuse .revisionConflict) : op.Stale F := by
  have hnext : ∀ {b : Prop} [Decidable b] {v v' : Verdict}, (if b then v else v') = .refuse .revisionConflict →
      v = .refuse .revisionConflict ∨ v' = .refuse .revisionConflict := by
    intro b _ v v' hv
    split at hv
    · exact .inl hv
    · exact .inr hv
  intro hcurrent
  cases op with
  | createInitiative v =>
    rcases hnext h with hv | hv
    · cases hv
    · rcases hnext hv with hv | hv <;> cases hv
  | updateInitiative o i expected patch =>
    rcases mutable_conflict h with hne | hv
    · exact hne (Op.updateInitiative.inj hcurrent).2.2.1
    · rcases hnext hv with hv | hv <;> cases hv
  | addUpdate o i u expected health summary progress =>
    rcases mutable_conflict h with hne | hv
    · exact hne (Op.addUpdate.inj hcurrent).2.2.2.1
    · rcases hnext hv with hv | hv <;> cases hv
  | archiveInitiative o i expected =>
    rcases mutable_conflict h with hne | hv
    · exact hne (Op.archiveInitiative.inj hcurrent).2.2
    · cases hv
  | attachProject o i expected s position =>
    rcases mutable_conflict h with hne | hv
    · exact hne (Op.attachProject.inj hcurrent).2.2.1
    · rcases hnext hv with hv | hv
      · cases hv
      rcases hnext hv with hv | hv
      · cases hv
      rcases hnext hv with hv | hv
      · cases hv
      rcases hnext hv with hv | hv <;> cases hv
  | updateProjectSnapshot o i expected s =>
    rcases refreshable_conflict h with hne | hv
    · exact hne (Op.updateProjectSnapshot.inj hcurrent).2.2.1
    · rcases hnext hv with hv | hv <;> cases hv
  | detachProject o i p expected expectedMembership =>
    obtain ⟨-, -, -, he, hm⟩ := Op.detachProject.inj hcurrent
    rcases mutable_conflict h with hne | hv
    · exact hne he
    · cases hp : F.project o i p with
      | none =>
        rw [hp] at hv
        cases hv
      | some old =>
        rw [currentMembership_of_some hp] at hm
        rw [hp] at hv
        simp only [hm, if_true] at hv
        cases hv
  | reorderProjects o i expected items =>
    rcases mutable_conflict h with hne | hv
    · exact hne (Op.reorderProjects.inj hcurrent).2.2.1
    · rcases hnext hv with hv | hv <;> cases hv

end

/-! ### The handlers -/

section
variable {plugin : ProjectPortfolioPlugin} {w : Sequences} {S : System} {context : Context} {q : Request} {c : Call}
  {t : ℕ → Tick}

theorem Call.EndsWith.conflict {lost : Prop} (h : c.EndsWith lost S.db (.domain .revisionConflict)) :
    c.op.Stale S.db.toFacts := by
  unfold EndsWith at h
  split at h
  · exact stale_of_conflict h
  · rcases h with ⟨h, -⟩ | h <;> cases h

/-- The storage error behind a domain error of a mutation's handler. -/
theorem failure_of_serve (hmutation : Handler.mutation (q.handle plugin context) = some c) {T T' : Tables}
    {error : DomainError} (hserve : Handler.serve (q.handle plugin context) t T = (.error (.domain error), T')) :
    ∃ failure, (atomic c.code t T).1 = .error (.domain failure) ∧ error.name = failure.name := by
  obtain ⟨map, hmap⟩ := serve_mutation hmutation
  rcases hatomic : atomic c.code t T with ⟨e | r, T₁⟩
  · obtain ⟨hmapped, hname⟩ := serve_mapped hmutation (congrArg Prod.fst hatomic)
    have herror := (Prod.mk.inj (hserve.symm.trans hmapped)).1
    cases e with
    | domain failure =>
      refine ⟨failure, rfl, ?_⟩
      rw [PluginError.domain.inj (Except.error.inj herror)]
      exact hname failure rfl
    | database _ _ | receipt | time => cases Except.error.inj herror
  · rw [hmap, hatomic] at hserve
    simp only at hserve
    split at hserve <;> cases (Prod.mk.inj hserve).1

/-- **A stale revision is reported as a conflict**, but for one of a membership in a reorder. In every state the
plugin reaches, an admitted request under a fresh key whose only defect is that it is stale fails with a revision
conflict and changes nothing exactly if it is no reorder at its initiative's revision. A conflict is reported for
stale requests only. The same is true of every attempt in a run, at the statement that ends it. -/
theorem stale_revision_reported (hconf : plugin.Configured)
    (h : Txn.Steps Call.code (Admitted plugin) (System.initial w) S) :
    (∀ (context : Context) (q : Request) (c : Call), Handler.mutation (q.handle plugin context) = some c →
      S.db.command c.key = none → c.op.OnlyStale S.db.toFacts → ∀ t : ℕ → Tick, (∀ n, (t n).fault = false) →
      ((∃ error, Handler.serve (q.handle plugin context) t S.db = (.error (.domain error), S.db) ∧
        error.name = "RevisionConflict") ↔ ¬ c.op.ReordersCurrent S.db.toFacts)) ∧
    (∀ (context : Context) (q : Request) (c : Call), Handler.mutation (q.handle plugin context) = some c →
      ∀ (t : ℕ → Tick) (error : DomainError) (T : Tables),
      Handler.serve (q.handle plugin context) t S.db = (.error (.domain error), T) →
      error.name = "RevisionConflict" → c.op.Stale S.db.toFacts) ∧
    (∀ (n : ℕ) (c : Call) (ticks : List Tick) (β : Type) (st : Sql β) (k : Except DbError β → Tx Record)
      (log : List Write) (held : List Lock) (t : Tick) (failure : DomainFailure),
      S.threads n = .active c ticks (.call st k) log held →
      k (st.run t (applyAll log S.db)).1 = .throw (.domain failure) →
      (S.db.command c.key = none → c.op.OnlyStale S.db.toFacts →
        (failure = .revisionConflict ↔ ¬ c.op.ReordersCurrent S.db.toFacts)) ∧
      (failure = .revisionConflict → c.op.Stale S.db.toFacts)) := by
  refine ⟨fun context q c hmutation hnone honly t ht => ?_, fun context q c hmutation t error T hserve hname => ?_,
    fun n c ticks β st k log held t failure hn hthrow => ?_⟩
  · have hc : Admitted plugin c := ⟨context, q, hmutation⟩
    rw [← stale_verdict honly]
    constructor
    · rintro ⟨error, hserve, hname⟩
      obtain ⟨failure, hfailure, hsame⟩ := failure_of_serve hmutation hserve
      obtain rfl : failure = .revisionConflict := name_injective (hsame.symm.trans hname)
      exact (endsWith_of_error hconf h hc ((atomic_fst _ _ _).symm.trans hfailure)).decided hnone
    · intro hv
      have hatomic := refused_healthy hconf h hc hnone ht hv
      obtain ⟨hserve, hname⟩ := serve_mapped hmutation hatomic
      exact ⟨_, hserve, hname _ rfl⟩
  · obtain ⟨failure, hfailure, hsame⟩ := failure_of_serve hmutation hserve
    obtain rfl : failure = .revisionConflict := name_injective (hsame.symm.trans hname)
    exact (endsWith_of_error hconf h ⟨context, q, hmutation⟩ ((atomic_fst _ _ _).symm.trans hfailure)).conflict
  · have hends := endsWith_of_exec hconf h hn hthrow
    refine ⟨fun hnone honly => ?_, fun hfailure => (hfailure ▸ hends).conflict⟩
    have hv : c.op.verdict S.db.toFacts = .refuse failure := hends.decided hnone
    rw [← stale_verdict honly, hv, Verdict.refuse.injEq]

end

/-- An archive at the revision the initiative had before the attach. -/
def sampleLateRequest : Request := .archiveInitiative ⟨"1", "archive", "alpha", "acme"⟩

/-- A reorder of the one project at a revision its membership does not have. -/
def sampleStaleRequest : Request := .reorderProjects ⟨"2", "stale", "alpha", [⟨"2", 0, "site"⟩], "acme"⟩

/-- An instance that digests them. -/
def sampleStalePlugin : ProjectPortfolioPlugin :=
  { samplePlugin with
    digest := fun j =>
      if sampleLateRequest.json = some j then [249, 187, 176, 172, 104, 25, 172, 107, 4, 188, 238, 250, 67, 97, 217, 63,
        150, 101, 203, 25, 198, 140, 92, 10, 232, 177, 98, 171, 26, 105, 98, 42]
      else if sampleStaleRequest.json = some j then [113, 102, 233, 249, 76, 233, 58, 39, 65, 127, 95, 218, 3, 171, 77,
        121, 233, 202, 204, 102, 220, 183, 224, 53, 105, 200, 201, 159, 7, 12, 149, 187] else samplePlugin.digest j }

/-- The calls they are admitted as. -/
def sampleLate : Call := ⟨⟨"planner", "ann", "archive", [249, 187, 176, 172, 104, 25, 172, 107, 4, 188, 238, 250, 67,
  97, 217, 63, 150, 101, 203, 25, 198, 140, 92, 10, 232, 177, 98, 171, 26, 105, 98, 42]⟩,
  .archiveInitiative "acme" "alpha" 1⟩

def sampleStale : Call := ⟨⟨"planner", "ann", "stale", [113, 102, 233, 249, 76, 233, 58, 39, 65, 127, 95, 218, 3,
  171, 77, 121, 233, 202, 204, 102, 220, 183, 224, 53, 105, 200, 201, 159, 7, 12, 149, 187]⟩,
  .reorderProjects "acme" "alpha" 2 [⟨"site", 2, 0⟩]⟩

theorem sampleLate_admitted :
    Handler.mutation (sampleLateRequest.handle sampleStalePlugin sampleContext) = some sampleLate := by decide +kernel

theorem sampleStale_admitted :
    Handler.mutation (sampleStaleRequest.handle sampleStalePlugin sampleContext) = some sampleStale := by decide +kernel

/-- After a create and an attach both are new and only stale. -/
theorem sampleStale_reached : ∃ S : System,
    Txn.Steps Call.code (Admitted sampleStalePlugin) (System.initial ⟨0, 0⟩) S ∧
    (S.db.command sampleLate.key = none ∧ sampleLate.op.OnlyStale S.db.toFacts) ∧
    (S.db.command sampleStale.key = none ∧ sampleStale.op.OnlyStale S.db.toFacts) ∧
    sampleStale.op.verdict S.db.toFacts = .refuse .invalidRequest := by
  have hrun : ((System.initial ⟨0, 0⟩).schedule Call.code 2 sampleMembership).bind (fun S =>
      (S.schedule Call.code 2 []).map fun S' =>
        ((S'.db.command sampleLate.key, S'.db.command sampleStale.key), (sampleLate.op.current S'.db.toFacts,
          (sampleLate.op.current S'.db.toFacts).verdict S'.db.toFacts), (sampleStale.op.current S'.db.toFacts,
          (sampleStale.op.current S'.db.toFacts).verdict S'.db.toFacts), sampleStale.op.verdict S'.db.toFacts)) =
      some ((none, none), (.archiveInitiative "acme" "alpha" 2, .accept),
        (.reorderProjects "acme" "alpha" 2 [⟨"site", 1, 0⟩], .accept), .refuse .invalidRequest) := by decide +kernel
  have hadmitted : ∀ x ∈ sampleMembership, ∀ c, x.2 = .start c → Admitted sampleStalePlugin c :=
    admitted_sampleMembership ⟨sampleContext, sampleCreateRequest, by decide +kernel⟩
      ⟨sampleContext, sampleAttachRequest, by decide +kernel⟩
  obtain ⟨S, S', h, h', hfacts⟩ := @System.scheduled (Admitted sampleStalePlugin) _ _ _ _ _ _ _ hrun
    (by decide +kernel) (Txn.starts_append hadmitted Txn.starts_nil)
  obtain ⟨hnew, hfacts⟩ := Prod.mk.inj hfacts
  obtain ⟨hlate, hfacts⟩ := Prod.mk.inj hfacts
  obtain ⟨hstale, hverdict⟩ := Prod.mk.inj hfacts
  have honly : ∀ {op op' : Op}, (op.current S'.db.toFacts, (op.current S'.db.toFacts).verdict S'.db.toFacts) =
      (op', .accept) → op' ≠ op → op.OnlyStale S'.db.toFacts := by
    intro op op' heq hne
    obtain ⟨hcurrent, haccept⟩ := Prod.mk.inj heq
    exact ⟨fun he => hne (hcurrent.symm.trans he), haccept⟩
  exact ⟨S', h.trans h', ⟨(Prod.mk.inj hnew).1, honly hlate (by decide)⟩,
    ⟨(Prod.mk.inj hnew).2, honly hstale (by decide)⟩, hverdict⟩

theorem stale_revision_reported_late : ∃ S : System,
    Txn.Steps Call.code (Admitted sampleStalePlugin) (System.initial ⟨0, 0⟩) S ∧
    ∃ error, Handler.serve (sampleLateRequest.handle sampleStalePlugin sampleContext) (fun _ => default) S.db =
      (.error (.domain error), S.db) ∧ error.name = "RevisionConflict" := by
  obtain ⟨S, h, ⟨hnone, honly⟩, -, -⟩ := sampleStale_reached
  have hconf : sampleStalePlugin.Configured := ⟨by decide +kernel, by decide +kernel⟩
  exact ⟨S, h, ((stale_revision_reported hconf h).1 _ _ _ sampleLate_admitted hnone honly _ fun _ => rfl).mpr
    not_false⟩

/-- A reorder that is only stale is answered as invalid. -/
theorem stale_reorder_invalid : ∃ S : System,
    Txn.Steps Call.code (Admitted sampleStalePlugin) (System.initial ⟨0, 0⟩) S ∧
    S.db.command sampleStale.key = none ∧ sampleStale.op.OnlyStale S.db.toFacts ∧
    Handler.serve (sampleStaleRequest.handle sampleStalePlugin sampleContext) (fun _ => default) S.db =
      (.error (.domain (.admin .invalidRequest)), S.db) := by
  obtain ⟨S, h, -, ⟨hnone, honly⟩, hverdict⟩ := sampleStale_reached
  have hconf : sampleStalePlugin.Configured := ⟨by decide +kernel, by decide +kernel⟩
  have hrefused := refused_healthy hconf h ⟨_, _, sampleStale_admitted⟩ hnone (t := fun _ => default)
    (fun _ => rfl) hverdict
  exact ⟨S, h, hnone, honly, (serve_mapped sampleStale_admitted hrefused).1⟩

end Portfolio
