/-
# Rollups

A rollup is read in three statements outside a transaction: the initiative's
row, whether the row is there, the memberships. Each sees the state of its own
moment, so the record joins the row of the first with the memberships of the
third. While no membership is attached, refreshed or detached in between it is
the rollup of one state (`rollup_of_one_state`); when one is, it need not be
that of any (`rollup_of_no_state`).

The aggregates do not depend on the order of the memberships, nor on their
positions and revisions, so a reorder in between does no harm.

Key definitions: `Facts.rollup`, `Op.Remembers`, `ReadsRollup`, `Quiet`.
Key theorems: `readRollup_ok`, `computeRollup_congr`, `members_of_quiet`,
`rollup_of_one_state`.
-/
import Portfolio.Decimal
import Portfolio.Representation
import Portfolio.Revisions

namespace Portfolio

open Txn Txn.Prog

/-- The memberships of an initiative in the order of a list. -/
def Facts.ordered (F : Facts) (o i : String) : List ProjectRow :=
  (F.projectsOf o i).insertionSort fun r s => Sql.orderLe r s

/-- The rollup of one state: of the initiative's row and all of its memberships. -/
def Facts.rollup (F : Facts) (o i : String) (now : Instant) : Option RollupRecord := do
  let row ← F.initiative o i
  let initiative ← initiativeFromRow row (F.projectsOf o i).length
  let projects ← (F.ordered o i).mapM fun row => projectFromRow row none
  computeRollup initiative projects now

/-- The operation changes what a rollup reads of the memberships. -/
def Op.Remembers : Op → Prop
  | .attachProject .. => True
  | .updateProjectSnapshot .. => True
  | .detachProject .. => True
  | _ => False

instance (op : Op) : Decidable op.Remembers :=
  match op with
  | .attachProject .. => .isTrue trivial
  | .updateProjectSnapshot .. => .isTrue trivial
  | .detachProject .. => .isTrue trivial
  | .createInitiative .. => .isFalse not_false
  | .updateInitiative .. => .isFalse not_false
  | .archiveInitiative .. => .isFalse not_false
  | .reorderProjects .. => .isFalse not_false
  | .addUpdate .. => .isFalse not_false

/-! ### What is read -/

section
variable {α β : Type} {t t' : ℕ → Tick} {s s' : ℕ → Tables} {o i : String}

theorem observe_select {binds : List String} {answer : Tables → β} {err : DbError → StorageError} {b : β}
    (h : (perform (Sql.select binds answer) err).observe t s = (.ok b, t', s')) :
    b = answer (s 0) ∧ s' = later s := by
  obtain ⟨hb, -, hs⟩ := observe_perform_ok.mp h
  rcases Sql.of_run binds (fun _ => []) (fun _ T => .ok (answer T, [])) (t 0) (s 0) with
    ⟨e, he⟩ | ⟨c, ws, -, -, hc, hrun⟩
  · rw [Sql.select, he] at hb
    cases hb
  · rw [Sql.select, hrun] at hb
    obtain ⟨rfl, -⟩ := Prod.mk.inj (Except.ok.inj hc)
    exact ⟨(Except.ok.inj hb).symm, hs⟩

theorem observe_orRefuse {failure : DomainFailure} {x : Option α} {a : α}
    (h : (orRefuse failure x).observe t s = (.ok a, t', s')) : x = some a ∧ s' = s := by
  cases x with
  | none => cases (Prod.mk.inj h).1
  | some b =>
    obtain ⟨hb, hs⟩ := Prod.mk.inj h
    exact ⟨congrArg some (Except.ok.inj hb), (Prod.mk.inj hs).2.symm⟩

theorem observe_formatted {x : Option α} {a : α} (h : (formatted x).observe t s = (.ok a, t', s')) :
    x = some a ∧ s' = s := by
  cases x with
  | none => cases (Prod.mk.inj h).1
  | some b =>
    obtain ⟨hb, hs⟩ := Prod.mk.inj h
    exact ⟨congrArg some (Except.ok.inj hb), (Prod.mk.inj hs).2.symm⟩

/-- A rollup joins the row of its first statement with the memberships of its third. -/
theorem readRollup_ok {now : Instant} {r : RollupRecord}
    (h : ((readRollup o i now).observe t s).1 = .ok r) :
    ∃ row initiative projects, (s 0).initiative o i = some row ∧
      initiativeFromRow row ((s 0).projectsOf o i).length = some initiative ∧
      (((((s 2).projectsOf o i).filter fun r => -1 < r.position).insertionSort fun r s => Sql.orderLe r s).take
        maxProjectsPerInitiative).mapM (fun row => projectFromRow row none) = some projects ∧
      computeRollup initiative projects now = some r := by
  have hall : (readRollup o i now).observe t s = (.ok r, ((readRollup o i now).observe t s).2) := Prod.ext h rfl
  obtain ⟨initiative, t₁, s₁, h1, h2⟩ := observe_bind_ok.mp hall
  obtain ⟨projects, t₂, s₂, h3, h4⟩ := observe_bind_ok.mp h2
  obtain ⟨x, t₃, s₃, h5, h6⟩ := observe_bind_ok.mp h1
  obtain ⟨rfl, rfl⟩ := observe_select h5
  obtain ⟨⟨row, count⟩, t₄, s₄, h7, h8⟩ := observe_bind_ok.mp h6
  obtain ⟨hrow, rfl⟩ := observe_orRefuse h7
  obtain ⟨hinit, rfl⟩ := observe_formatted h8
  obtain ⟨row', hrow', hpair⟩ := Option.map_eq_some_iff.mp hrow
  obtain ⟨rfl, rfl⟩ := Prod.mk.inj hpair
  obtain ⟨-, ho, hi⟩ := initiative_mem hrow'
  rw [ho, hi] at hinit
  obtain ⟨u, t₅, s₅, h9, h10⟩ := observe_bind_ok.mp h3
  obtain ⟨found, t₆, s₆, h11, h12⟩ := observe_bind_ok.mp h9
  obtain ⟨-, rfl⟩ := observe_select h11
  have hs : s₅ = later (later s) := by
    split at h12
    · exact (Prod.mk.inj (Prod.mk.inj h12).2).2.symm
    · cases (Prod.mk.inj h12).1
  subst hs
  obtain ⟨rows, t₇, s₇, h13, h14⟩ := observe_bind_ok.mp h10
  obtain ⟨rfl, rfl⟩ := observe_select h13
  obtain ⟨hprojects, rfl⟩ := observe_formatted h14
  obtain ⟨hr, -⟩ := observe_formatted h4
  exact ⟨row', initiative, projects, hrow', hinit, hprojects, hr⟩

end

/-! ### Aggregates -/

/-- What the aggregates read of a project. -/
def ProjectRecord.core (p : ProjectRecord) : String × String × ℤ × Option String × Option String :=
  (p.statusCategory, p.health, p.progress, p.targetStart, p.targetDate)

/-- What a rollup reads of a membership. -/
def ProjectRow.core (p : ProjectRow) : String × String × ℤ × Option Date × Option Date × OffsetDateTime :=
  (p.statusCategory, p.health, p.progress, p.targetStart, p.targetDate, p.observedAt)

theorem minText_eq_min? (l : List String) : minText l = l.min? := by
  cases l with
  | nil => rfl
  | cons s ss =>
    rw [minText, List.min?_cons']
    have hf : (fun m x : String => if x < m then x else m) = min := by
      funext m x
      rw [min_comm]
      by_cases h : x < m
      · rw [if_pos h, min_eq_left h.le]
      · rw [if_neg h, min_eq_right (not_lt.mp h)]
    rw [hf]

theorem maxText_eq_max? (l : List String) : maxText l = l.max? := by
  cases l with
  | nil => rfl
  | cons s ss =>
    rw [maxText, List.max?_cons']
    have hf : (fun m x : String => if m < x then x else m) = max := by
      funext m x
      by_cases h : m < x
      · rw [if_pos h, max_eq_right h.le]
      · rw [if_neg h, max_eq_left (not_lt.mp h)]
    rw [hf]

theorem minText_perm {l l' : List String} (h : l.Perm l') : minText l = minText l' := by
  rw [minText_eq_min?, minText_eq_min?]
  refine Option.ext fun a => ?_
  simp only [List.min?_eq_some_iff, h.mem_iff]

theorem maxText_perm {l l' : List String} (h : l.Perm l') : maxText l = maxText l' := by
  rw [maxText_eq_max?, maxText_eq_max?]
  refine Option.ext fun a => ?_
  simp only [List.max?_eq_some_iff, h.mem_iff]

/-- The aggregates are of what is read of the projects, in any order. -/
theorem computeRollup_congr {initiative : InitiativeRecord} {ps qs : List ProjectRecord}
    (h : (ps.map ProjectRecord.core).Perm (qs.map ProjectRecord.core)) (now : Instant) :
    computeRollup initiative ps now = computeRollup initiative qs now := by
  have hlen : ps.length = qs.length := by simpa using h.length_eq
  have hcount : ∀ f : String × String × ℤ × Option String × Option String → Bool,
      countProjects ps (fun p => f p.core) = countProjects qs fun p => f p.core := by
    intro f
    have := (h.filter f).length_eq
    rw [List.filter_map, List.filter_map, List.length_map, List.length_map] at this
    exact congrArg Nat.cast this
  have hsum : (ps.map (·.progress)).sum = (qs.map (·.progress)).sum := by
    have := (h.map fun c => c.2.2.1).sum_eq
    rwa [List.map_map, List.map_map] at this
  have hstart : minText (ps.filterMap (·.targetStart)) = minText (qs.filterMap (·.targetStart)) := by
    have := h.filterMap fun c => c.2.2.2.1
    rw [List.filterMap_map, List.filterMap_map] at this
    exact minText_perm this
  have hdate : maxText (ps.filterMap (·.targetDate)) = maxText (qs.filterMap (·.targetDate)) := by
    have := h.filterMap fun c => c.2.2.2.2
    rw [List.filterMap_map, List.filterMap_map] at this
    exact maxText_perm this
  have hempty : ps.isEmpty = qs.isEmpty := by
    rw [Bool.eq_iff_iff, List.isEmpty_iff_length_eq_zero, List.isEmpty_iff_length_eq_zero, hlen]
  have hcompleted : countProjects ps (fun p => p.statusCategory = "completed") =
      countProjects qs fun p => p.statusCategory = "completed" := hcount fun c => c.1 = "completed"
  have hrisk : countProjects ps (fun p => p.health = "at_risk") = countProjects qs fun p => p.health = "at_risk" :=
    hcount fun c => c.2.1 = "at_risk"
  have hoff : countProjects ps (fun p => p.health = "off_track") = countProjects qs fun p => p.health = "off_track" :=
    hcount fun c => c.2.1 = "off_track"
  unfold computeRollup averageProgress
  rw [hlen, hsum, hempty, hcompleted, hrisk, hoff, hstart, hdate]

/-- What the records of rows read is what the rows hold. -/
theorem map_core_of_mapM {rows : List ProjectRow} {ps : List ProjectRecord}
    (h : rows.mapM (fun row => projectFromRow row none) = some ps) : ps.map ProjectRecord.core = rows.map fun r =>
      (r.statusCategory, r.health, r.progress, optionalDate r.targetStart, optionalDate r.targetDate) := by
  refine Json.map_eq_of_forall₂ (fun row p hp => ?_) (Json.forall₂_of_mapM h)
  obtain ⟨observedAt, -, hp⟩ := Option.bind_eq_some_iff.mp hp
  obtain rfl := Option.some.inj hp
  rfl

/-- A row has a record if its timestamp has a text. -/
theorem projectFromRow_isSome {row : ProjectRow} {revision : Option String} :
    (projectFromRow row revision).isSome = true ↔ (formatTimestamp row.observedAt).isSome = true := by
  cases h : formatTimestamp row.observedAt <;> simp [projectFromRow, h]

/-! ### The memberships between the statements -/

section
variable {F : Facts} {o i : String}

/-- A list with the limit of a rollup is complete. -/
theorem complete_of_represented {row : Option InitiativeRow} {us : List UpdateRow}
    (h : Represented row (F.projectsOf o i) us) :
    ((((F.projectsOf o i).filter fun r => -1 < r.position).insertionSort fun r s => Sql.orderLe r s).take
      maxProjectsPerInitiative) = F.ordered o i := by
  have hall : (F.projectsOf o i).filter (fun r => decide (-1 < r.position)) = F.projectsOf o i := by
    refine List.filter_eq_self.mpr fun p hp => decide_eq_true ?_
    have hc := h.checked p hp
    simp only [ProjectRow.checks, Bool.and_eq_true, decide_eq_true_eq] at hc
    omega
  rw [hall]
  refine List.take_of_length_le ?_
  rw [List.length_insertionSort]
  exact h.count

theorem ordered_perm (F : Facts) (o i : String) : (F.ordered o i).Perm (F.projectsOf o i) :=
  List.perm_insertionSort _ _

end

/-- A fresh success that does not attach, refresh or detach leaves what a rollup reads of the
memberships. -/
theorem Fresh.members {actor : String} {op : Op} {F F' : Facts} {r : Record} {o i : String}
    (h : Fresh actor op F r F') (hop : op.On o i → ¬ op.Remembers) :
    (F'.projectsOf o i).map ProjectRow.core = (F.projectsOf o i).map ProjectRow.core := by
  by_cases hon : op.On o i
  · have hnot := hop hon
    cases h with
    | createInitiative | updateInitiative | addUpdate | archiveInitiative => rfl
    | attachProject | updateProjectSnapshot | detachProject => exact absurd trivial hnot
    | @reorderProjects o' i' _ items =>
      rw [Facts.projectsOf, filter_reordered, List.map_map, Facts.projectsOf]
      refine List.map_congr_left fun p _ => ?_
      simp only [Function.comp_apply, reordered]
      split
      · split <;> rfl
      · rfl
  · rw [(about_eq_iff.mp (h.elsewhere hon)).2.1]

/-- What a rollup reads of the memberships stays while nothing is attached, refreshed or detached. -/
theorem members_of_quiet {T T' : Tables} {cs : List Committed} {o i : String} (h : History T cs T')
    (hcs : ∀ x ∈ cs, Committed.Fresh x → x.call.op.On o i → ¬ x.call.op.Remembers) :
    (T'.projectsOf o i).map ProjectRow.core = (T.projectsOf o i).map ProjectRow.core := by
  refine Txn.Chain.preserves Call.code
    (I := fun U : Tables => (U.projectsOf o i).map ProjectRow.core = (T.projectsOf o i).map ProjectRow.core)
    h rfl fun x hx hb => ?_
  have ho := outcome_of_mem h hx
  by_cases hf : Committed.Fresh x
  · exact ((fresh_of_fresh ho hf).members (hcs x hx hf)).trans hb
  · rw [after_of_not_fresh ho hf]
    exact hb

/-! ### The rollup of one state -/

section
variable {F F' : Facts} {o i : String} {now now' : Instant} {r r' : RollupRecord}

theorem rollup_eq_some : F.rollup o i now = some r ↔ ∃ row initiative projects, F.initiative o i = some row ∧
    initiativeFromRow row (F.projectsOf o i).length = some initiative ∧
    (F.ordered o i).mapM (fun row => projectFromRow row none) = some projects ∧
    computeRollup initiative projects now = some r := by
  simp only [Facts.rollup, Option.bind_eq_bind, Option.bind_eq_some_iff, exists_and_left]

theorem rollup_revision (h : F.rollup o i now = some r) : (F.revision o i).map toString =
    some r.initiativeRevision := by
  obtain ⟨row, initiative, projects, hrow, hinit, -, h⟩ := rollup_eq_some.mp h
  obtain ⟨computedAt, -, h⟩ := Option.bind_eq_some_iff.mp h
  rw [Facts.revision, hrow, ← Option.some.inj h]
  exact congrArg some (initiativeFromRow_revision hinit).symm

/-- In a reachable state a revision is told from another by its text: both are positive. -/
theorem revision_of_text {ok : Call → Prop} {w : Sequences} {S U : System}
    (hS : Txn.Steps Call.code ok (System.initial w) S) (hU : Txn.Steps Call.code ok (System.initial w) U)
    (h : (U.db.revision o i).map toString = (S.db.revision o i).map toString) :
    U.db.revision o i = S.db.revision o i := by
  have hnat : ∀ {V : System}, Txn.Steps Call.code ok (System.initial w) V → ∀ n, V.db.revision o i = some n →
      ∃ k : ℕ, n = k := by
    intro V hV n hn
    obtain ⟨row, hrow, rfl⟩ := Option.map_eq_some_iff.mp hn
    have hchecks := checked_of_history (reachable_inv hV).chain row (initiative_mem hrow).1
    have hpos : 0 < row.revision := by
      simp only [InitiativeRow.checks, Bool.and_eq_true, decide_eq_true_eq] at hchecks
      exact hchecks.1.1.1
    exact Int.eq_ofNat_of_zero_le hpos.le
  cases hs : S.db.revision o i with
  | none =>
    rw [hs] at h
    exact Option.map_eq_none_iff.mp h
  | some n =>
    rw [hs] at h
    obtain ⟨m, hm, htext⟩ := Option.map_eq_some_iff.mp h
    obtain ⟨k, rfl⟩ := hnat hS n hs
    obtain ⟨l, rfl⟩ := hnat hU m hm
    rw [hm, Decimal.eq_of_toString htext]

theorem rollup_of_about (h : F'.about o i = F.about o i) : F'.rollup o i now = F.rollup o i now := by
  rw [Facts.rollup, Facts.rollup, Facts.ordered, Facts.ordered, initiative_of_about h, (about_eq_iff.mp h).2.1]

/-- Two rollups of one state differ in the time they were computed at. -/
theorem rollup_now (h : F.rollup o i now = some r) (h' : F.rollup o i now' = some r') :
    r' = { r with computedAt := r'.computedAt } := by
  obtain ⟨row, initiative, projects, hrow, hinit, hprojects, h⟩ := rollup_eq_some.mp h
  obtain ⟨row', initiative', projects', hrow', hinit', hprojects', h'⟩ := rollup_eq_some.mp h'
  obtain rfl := Option.some.inj (hrow.symm.trans hrow')
  obtain rfl := Option.some.inj (hinit.symm.trans hinit')
  obtain rfl := Option.some.inj (hprojects.symm.trans hprojects')
  obtain ⟨computedAt, -, h⟩ := Option.bind_eq_some_iff.mp h
  obtain ⟨computedAt', -, h'⟩ := Option.bind_eq_some_iff.mp h'
  rw [← Option.some.inj h, ← Option.some.inj h']

end

/-- The committed states of a run. -/
def System.states (S : System) : List Tables := Tables.empty :: S.commits.map fun x => x.after

/-- A read of a rollup in a run: its first statement sees the state of `S`, its last that of `S'`. -/
def ReadsRollup (ok : Call → Prop) (o i : String) (now : Instant) (r : RollupRecord) (S S' : System) : Prop :=
  ∃ (S₁ : System) (t : ℕ → Tick), Txn.Steps Call.code ok S S₁ ∧ Txn.Steps Call.code ok S₁ S' ∧
    ((readRollup o i now).observe t fun
      | 0 => S.db
      | 1 => S₁.db
      | _ => S'.db).1 = .ok r

/-- No commit of the run from the one system to the other attaches, refreshes or detaches a project
of the initiative. -/
def Quiet (o i : String) (S S' : System) : Prop :=
  ∀ cs, S'.commits = S.commits ++ cs → ∀ x ∈ cs, Committed.Fresh x → x.call.op.On o i → ¬ x.call.op.Remembers

theorem mem_states {T : Tables} {cs : List Committed} (h : History Tables.empty cs T) (ds : List Committed) :
    T ∈ Tables.empty :: (cs ++ ds).map fun x => x.after := by
  cases h with
  | nil => exact List.mem_cons_self
  | @snoc _ cs x =>
    refine List.mem_cons_of_mem _ (List.mem_map.mpr ⟨x, ?_, rfl⟩)
    exact List.mem_append_left _ (List.mem_append_right _ (List.mem_singleton_self x))

theorem rollup_of_quiet {ok : Call → Prop} {w : Sequences} {S S' : System} {o i : String} {now : Instant}
    {r : RollupRecord} (h : Txn.Steps Call.code ok (System.initial w) S) (hr : ReadsRollup ok o i now r S S')
    (hq : Quiet o i S S') : S.db.rollup o i now = some r := by
  obtain ⟨S₁, t, h1, h2, hobs⟩ := hr
  obtain ⟨cs, hcs, hist⟩ := later_history h (h1.trans h2)
  have hrep := represented_of_history (reachable_inv (h.trans (h1.trans h2))).chain o i
  have hcore := members_of_quiet hist (hq cs hcs)
  obtain ⟨row, initiative, projects, hrow, hinit, hprojects, hrecord⟩ := readRollup_ok hobs
  change (((((S'.db.projectsOf o i).filter fun r => -1 < r.position).insertionSort fun r s => Sql.orderLe r s).take
    maxProjectsPerInitiative).mapM fun row => projectFromRow row none) = some projects at hprojects
  rw [complete_of_represented hrep] at hprojects
  -- the memberships at the first statement have records too, and the same aggregates
  have hformat : ∀ p ∈ S.db.ordered o i, (formatTimestamp p.observedAt).isSome = true := by
    intro p hp
    have hmem : p.core ∈ (S'.db.projectsOf o i).map ProjectRow.core := by
      rw [hcore]
      exact List.mem_map_of_mem ((ordered_perm S.db.toFacts o i).mem_iff.mp hp)
    obtain ⟨q, hq, hqp⟩ := List.mem_map.mp hmem
    have hsome := projectFromRow_isSome.mp (Json.mapM_isSome_iff.mp (Option.isSome_of_mem hprojects) q
      ((ordered_perm S'.db.toFacts o i).mem_iff.mpr hq))
    have hobserved : q.observedAt = p.observedAt := congrArg (fun c => c.2.2.2.2.2) hqp
    rwa [hobserved] at hsome
  obtain ⟨projects', hprojects'⟩ := @Json.exists_mapM _ _ (fun row => projectFromRow row none) (S.db.ordered o i)
    fun p hp => projectFromRow_isSome.mpr (hformat p hp)
  have hperm : (projects'.map ProjectRecord.core).Perm (projects.map ProjectRecord.core) := by
    rw [map_core_of_mapM hprojects', map_core_of_mapM hprojects]
    have hrows : ((S.db.ordered o i).map ProjectRow.core).Perm ((S'.db.ordered o i).map ProjectRow.core) :=
      ((ordered_perm _ o i).map _).trans (hcore ▸ ((ordered_perm _ o i).map _).symm)
    have := hrows.map fun c => (c.1, c.2.1, c.2.2.1, optionalDate c.2.2.2.1, optionalDate c.2.2.2.2.1)
    rwa [List.map_map, List.map_map] at this
  exact rollup_eq_some.mpr
    ⟨row, initiative, projects', hrow, hinit, hprojects', (computeRollup_congr hperm now).trans hrecord⟩

/-- **A rollup is a snapshot of one state**, if no project of the initiative is attached, refreshed
or detached while it is read: it is then the rollup of the row and the complete list of memberships
of the state its first statement saw, one of the committed states of the run; and a later rollup read
so that reports the same initiative revision is the same but for the time it was computed at. -/
theorem rollup_of_one_state {ok : Call → Prop} {w : Sequences} {S S' : System} {o i : String} {now : Instant}
    {r : RollupRecord} (h : Txn.Steps Call.code ok (System.initial w) S) (hr : ReadsRollup ok o i now r S S')
    (hq : Quiet o i S S') :
    (∃ T ∈ S'.states, T.rollup o i now = some r) ∧
    ∀ (U U' : System) (now' : Instant) (r' : RollupRecord), Txn.Steps Call.code ok S U →
      ReadsRollup ok o i now' r' U U' → Quiet o i U U' → r'.initiativeRevision = r.initiativeRevision →
      r' = { r with computedAt := r'.computedAt } := by
  have hroll := rollup_of_quiet h hr hq
  refine ⟨⟨S.db, ?_, hroll⟩, fun U U' now' r' hU hr' hq' hrev => ?_⟩
  · obtain ⟨S₁, t, h1, h2, -⟩ := hr
    obtain ⟨cs, hcs, -⟩ := later_history h (h1.trans h2)
    rw [System.states, hcs]
    exact mem_states (reachable_inv h).chain cs
  · have hroll' := rollup_of_quiet (h.trans hU) hr' hq'
    obtain ⟨cs, -, hist⟩ := later_history h hU
    have htext : (U.db.revision o i).map toString = (S.db.revision o i).map toString :=
      calc (U.db.revision o i).map toString = some r'.initiativeRevision := rollup_revision hroll'
        _ = some r.initiativeRevision := congrArg some hrev
        _ = (S.db.revision o i).map toString := (rollup_revision hroll).symm
    have hrevision := revision_of_text h (h.trans hU) htext
    rw [rollup_of_about (about_of_revision hist hrevision)] at hroll'
    exact rollup_now hroll hroll'

/-- An initiative with one project. -/
def sampleMembers : List (ℕ × Txn.Move Tick Call) :=
  Txn.attempt 0 (sampleCreate "alpha") (sampleTicks 1 6) ++
    Txn.attempt 1 (sampleAttach "alpha" "site" "site" 1 10 0) (sampleTicks 1 9)

theorem ok_of_toOption {ε α : Type} {x : Except ε α} {a : α} (h : x.toOption = some a) : x = .ok a := by
  cases x with
  | error e => exact absurd h (by simp [Except.toOption])
  | ok b => exact congrArg Except.ok (Option.some.inj h)

/-- The rollup of `alpha` with its last statement on another state than the others. -/
def sampleRollup (S S' : System) : Except StorageError RollupRecord :=
  ((readRollup "acme" "alpha" 0).observe (fun _ => default) fun
    | 0 => S.db
    | 1 => S.db
    | _ => S'.db).1

theorem sampleRollup_ok {ok : Call → Prop} {S S' : System} {r : RollupRecord} (h : Txn.Steps Call.code ok S S')
    (hr : sampleRollup S S' = .ok r) : ReadsRollup ok "acme" "alpha" 0 r S S' :=
  ⟨S, fun _ => default, .refl, h, hr⟩

/-- The initiative is archived while its rollup is read: it is the rollup before. -/
theorem rollup_of_one_state_archived : ∃ (S S' : System) (r : RollupRecord),
    ReadsRollup (fun _ => True) "acme" "alpha" 0 r S S' ∧ S'.commits.length = S.commits.length + 1 ∧
    r.projectCount = 1 ∧ ∃ T ∈ S'.states, T.rollup "acme" "alpha" 0 = some r := by
  have hrun : ((System.initial ⟨0, 0⟩).schedule Call.code 3 sampleMembers).bind (fun S => (S.schedule Call.code 3
      (Txn.attempt 2 (sampleArchive "alpha" 2) (sampleTicks 1 5))).map fun S' =>
        ((S'.commits.drop S.commits.length).map (fun x => x.call),
          (sampleRollup S S').toOption.map fun r => r.projectCount)) =
      some ([sampleArchive "alpha" 2], some 1) := by decide +kernel
  obtain ⟨S, S', h, h', hfacts⟩ := @System.scheduled (fun _ => True) _ _ _ _ _ _ _ hrun (by decide)
    fun _ _ _ _ => trivial
  obtain ⟨hcalls, hr⟩ := Prod.mk.inj hfacts
  obtain ⟨r, hr, hcount⟩ := Option.map_eq_some_iff.mp hr
  obtain ⟨cs, hcs, -⟩ := later_history h h'
  rw [hcs, List.drop_left] at hcalls
  obtain ⟨x, rfl, hx⟩ := List.map_eq_singleton_iff.mp hcalls
  have hread := sampleRollup_ok h' (ok_of_toOption hr)
  have hquiet : Quiet "acme" "alpha" S S' := by
    intro ds hds y hy _ _ hop
    obtain rfl : [x] = ds := List.append_cancel_left (hcs.symm.trans hds)
    rw [List.mem_singleton.mp hy, hx] at hop
    exact hop
  exact ⟨S, S', r, hread, by simp [hcs], hcount, (rollup_of_one_state h hread hquiet).1⟩

/-- A project attached between the statements: the rollup counts it under the revision before, which
is that of no committed state. -/
theorem rollup_of_no_state : ∃ (S S' : System) (r : RollupRecord),
    Txn.Steps Call.code (fun _ => True) (System.initial ⟨0, 0⟩) S ∧
    ReadsRollup (fun _ => True) "acme" "alpha" 0 r S S' ∧ r.initiativeRevision = "2" ∧ r.projectCount = 2 ∧
    ∀ T ∈ S'.states, T.rollup "acme" "alpha" 0 ≠ some r := by
  have hrun : ((System.initial ⟨0, 0⟩).schedule Call.code 3 sampleMembers).bind (fun S => (S.schedule Call.code 3
      (Txn.attempt 2 (sampleAttach "alpha" "app" "app" 2 50 1) (sampleTicks 1 9))).map fun S' =>
        (sampleRollup S S').toOption.map fun r => (r.initiativeRevision, r.projectCount,
          S'.states.all fun T => decide (T.rollup "acme" "alpha" 0 ≠ some r))) =
      some (some ("2", 2, true)) := by decide +kernel
  obtain ⟨S, S', h, h', hfacts⟩ := @System.scheduled (fun _ => True) _ _ _ _ _ _ _ hrun (by decide)
    fun _ _ _ _ => trivial
  obtain ⟨r, hr, hfacts⟩ := Option.map_eq_some_iff.mp hfacts
  obtain ⟨hrev, hfacts⟩ := Prod.mk.inj hfacts
  obtain ⟨hcount, hnone⟩ := Prod.mk.inj hfacts
  refine ⟨S, S', r, h, sampleRollup_ok h' (ok_of_toOption hr), hrev, hcount, fun T hT => ?_⟩
  exact of_decide_eq_true (List.all_eq_true.mp hnone T hT)

end Portfolio
