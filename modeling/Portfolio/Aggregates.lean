/-
# What a rollup counts

A rollup lists the memberships with a limit of 500 from the position after -1,
and `get_initiative` counts them in the database. In every reachable state the
memberships of an initiative are at most 500 and at positions from 0 on, so
the list is complete and the two agree. The counts and the average are then
those of all memberships (`Counts`), in whatever order they are listed, and a
reorder changes none of them. The average is a double: the nearest to the
quotient of the sum of all progress values by their number.

Key definitions: `exactAverage`, `Counts`, `RollupRecord.aggregates`, `Op.isReorder`.
Key theorems: `readRollup_counts`, `Counts.average_nearest`, `rollup_counts`.
-/
import Portfolio.Rollup
import Portfolio.Responses

namespace Portfolio

open Txn Txn.Prog

/-- The sum of all progress values by their number. -/
def exactAverage (ps : List ProjectRow) : ℚ := (((ps.map (·.progress)).sum : ℤ) : ℚ) / (ps.length : ℚ)

/-- The rollup counts these memberships: all of them, the completed, those at risk and off track, and
their average progress as a double. -/
structure Counts (r : RollupRecord) (ps : List ProjectRow) : Prop where
  projects : r.projectCount = ps.length
  completed : r.completedCount = ps.countP fun p => p.statusCategory = "completed"
  atRisk : r.atRiskCount = ps.countP fun p => p.health = "at_risk"
  offTrack : r.offTrackCount = ps.countP fun p => p.health = "off_track"
  average : r.averageProjectProgress =
    if ps = [] then none else some (Binary64.round (exactAverage ps))

/-- The counts and the average of a rollup. -/
def RollupRecord.aggregates (r : RollupRecord) : ℤ × ℤ × ℤ × ℤ × Option ℚ :=
  (r.projectCount, r.completedCount, r.atRiskCount, r.offTrackCount, r.averageProjectProgress)

def Op.isReorder : Op → Bool
  | .reorderProjects .. => true
  | _ => false

/-! ### Sums of progress -/

section
variable {ps : List ProjectRow}

theorem sum_progress_bounds : ∀ {ps : List ProjectRow}, (∀ p ∈ ps, progressCheck p.progress = true) →
    0 ≤ (ps.map (·.progress)).sum ∧ (ps.map (·.progress)).sum ≤ 100 * ps.length
  | [], _ => by simp
  | p :: ps, h => by
    obtain ⟨hp, hps⟩ := List.forall_mem_cons.mp h
    have h1 := progressCheck_iff.mp hp
    have h2 := sum_progress_bounds hps
    simp only [List.map_cons, List.sum_cons, List.length_cons, Nat.cast_add, Nat.cast_one]
    omega

/-- The average of progress values is one. -/
theorem average_bounds (h : ∀ p ∈ ps, progressCheck p.progress = true) (hne : ps ≠ []) :
    0 ≤ exactAverage ps ∧ exactAverage ps ≤ 100 := by
  obtain ⟨hlow, hhigh⟩ := sum_progress_bounds h
  have hpos : (0 : ℚ) < ps.length := by exact_mod_cast List.length_pos_of_ne_nil hne
  have hlow' : (0 : ℚ) ≤ (((ps.map (·.progress)).sum : ℤ) : ℚ) := by exact_mod_cast hlow
  have hhigh' : (((ps.map (·.progress)).sum : ℤ) : ℚ) ≤ 100 * ps.length := by exact_mod_cast hhigh
  exact ⟨div_nonneg hlow' hpos.le, (div_le_iff₀ hpos).mpr hhigh'⟩

end

/-! ### The counts of a rollup -/

theorem countProjects_core {f : String × String × ℤ × Option String × Option String → Bool} {g : ProjectRow → Bool}
    {rows : List ProjectRow} {ps : List ProjectRecord}
    (h : (ps.map ProjectRecord.core).Perm (rows.map fun r =>
      (r.statusCategory, r.health, r.progress, optionalDate r.targetStart, optionalDate r.targetDate)))
    (hf : ∀ r : ProjectRow,
      f (r.statusCategory, r.health, r.progress, optionalDate r.targetStart, optionalDate r.targetDate) = g r) :
    countProjects ps (fun p => f p.core) = rows.countP g := by
  have hcount := h.countP_eq f
  rw [List.countP_map, List.countP_map] at hcount
  rw [countProjects, ← List.countP_eq_length_filter]
  have hleft : List.countP (f ∘ ProjectRecord.core) ps = List.countP (fun p => f p.core) ps := rfl
  rw [← hleft, hcount]
  exact congrArg Nat.cast (List.countP_congr fun r _ => by rw [Function.comp_apply, hf])

/-- The average of so few progress values is their quotient, rounded once. -/
theorem averageProgress_of_small {ps : List ProjectRecord} (hcap : ps.length ≤ 500)
    (hlow : 0 ≤ (ps.map (·.progress)).sum) (hhigh : (ps.map (·.progress)).sum ≤ 100 * ps.length) :
    averageProgress ps = Binary64.round ((((ps.map (·.progress)).sum : ℤ) : ℚ) / (ps.length : ℚ)) := by
  have hcap' : (ps.length : ℤ) ≤ 500 := by exact_mod_cast hcap
  have hsumSmall : |(ps.map (·.progress)).sum| < 2 ^ 53 := by
    rw [abs_of_nonneg hlow]
    omega
  have hlenSmall : |(ps.length : ℤ)| < 2 ^ 53 := by
    rw [abs_of_nonneg (Int.natCast_nonneg _)]
    omega
  rw [averageProgress, Binary64.ofInt_of_small hsumSmall, Binary64.ofInt_of_small hlenSmall, Binary64.div,
    Int.cast_natCast]

/-- The double nearest to a number from 0 to 100 is one. -/
theorem round_progress {q : ℚ} (h : 0 ≤ q ∧ q ≤ 100) : 0 ≤ Binary64.round q ∧ Binary64.round q ≤ 100 := by
  obtain ⟨hlow, hhigh⟩ := h
  have hzero : Binary64.IsDouble ((0 : ℤ) : ℚ) := Binary64.isDouble_of_small (by norm_num)
  have hhundred : Binary64.IsDouble ((100 : ℤ) : ℚ) := Binary64.isDouble_of_small (by norm_num)
  have hbetween := Binary64.round_between hzero hhundred ⟨by exact_mod_cast hlow, by exact_mod_cast hhigh⟩
  exact_mod_cast hbetween

/-- A rollup of the records of some rows, in any order, counts the rows. -/
theorem computeRollup_counts {initiative : InitiativeRecord} {rows : List ProjectRow} {ps : List ProjectRecord}
    {now : Instant} {r : RollupRecord}
    (h : (ps.map ProjectRecord.core).Perm (rows.map fun r =>
      (r.statusCategory, r.health, r.progress, optionalDate r.targetStart, optionalDate r.targetDate)))
    (hchecked : ∀ p ∈ rows, progressCheck p.progress = true) (hcap : rows.length ≤ 500)
    (hr : computeRollup initiative ps now = some r) : Counts r rows := by
  obtain ⟨computedAt, -, hr⟩ := Option.bind_eq_some_iff.mp hr
  obtain rfl := Option.some.inj hr
  have hlen : ps.length = rows.length := by simpa using h.length_eq
  have hsum : (ps.map (·.progress)).sum = (rows.map (·.progress)).sum := by
    have := (h.map fun c => c.2.2.1).sum_eq
    rwa [List.map_map, List.map_map] at this
  have hempty : ps.isEmpty = true ↔ rows = [] := by
    rw [List.isEmpty_iff_length_eq_zero, hlen, List.length_eq_zero_iff]
  exact {
    projects := by rw [← hlen]
    completed := countProjects_core (f := fun c => c.1 = "completed") h fun _ => rfl
    atRisk := countProjects_core (f := fun c => c.2.1 = "at_risk") h fun _ => rfl
    offTrack := countProjects_core (f := fun c => c.2.1 = "off_track") h fun _ => rfl
    average := by
      obtain ⟨hlow, hhigh⟩ := sum_progress_bounds hchecked
      have haverage : averageProgress ps = Binary64.round (exactAverage rows) := by
        rw [averageProgress_of_small (hlen ▸ hcap) (hsum ▸ hlow) (by rw [hsum, hlen]; exact hhigh), exactAverage, hsum,
          hlen]
      simp only [haverage, hempty] }

theorem initiativeFromRow_count {row : InitiativeRow} {n : ℕ} {r : InitiativeRecord}
    (h : initiativeFromRow row n = some r) : r.projectCount = n := by
  simp only [initiativeFromRow, Option.bind_eq_bind, Option.bind_eq_some_iff] at h
  obtain ⟨_, -, _, -, _, -, h⟩ := h
  rw [← Option.some.inj h]

section
variable {ok : Call → Prop} {w : Sequences} {S : System} {o i : String} {now : Instant} {t : ℕ → Tick}

/-- A rollup read in a reachable state is that of all memberships. -/
theorem readRollup_reads {r : RollupRecord} (h : Txn.Steps Call.code ok (System.initial w) S)
    (hr : ((Storage.readRollup o i now).serve t S.db).1 = .ok r) : ∃ initiative projects,
      (S.db.ordered o i).mapM (fun row => projectFromRow row none) = some projects ∧
        computeRollup initiative projects now = some r := by
  have hsilent : (readRollup o i now).Calls fun _ st => st.Silent :=
    @read_silent _ (Storage.readRollup o i now) rfl
  have hobs : ((readRollup o i now).observe t fun _ => S.db).1 = .ok r := (hsilent.observe_silent t S.db).trans hr
  obtain ⟨row, initiative, projects, -, -, hprojects, hrecord⟩ := readRollup_ok hobs
  rw [complete_of_represented (represented_of_history (reachable_inv h).chain o i)] at hprojects
  exact ⟨initiative, projects, hprojects, hrecord⟩

theorem progress_checked {row : Option InitiativeRow} {ps : List ProjectRow} {us : List UpdateRow}
    (h : Represented row ps us) : ∀ p ∈ ps, progressCheck p.progress = true :=
  fun p hp => (ProjectRow.checks_iff.mp (h.checked p hp)).2.2.2.2.1

/-- It counts them all. -/
theorem readRollup_counts {r : RollupRecord} (h : Txn.Steps Call.code ok (System.initial w) S)
    (hr : ((Storage.readRollup o i now).serve t S.db).1 = .ok r) : Counts r (S.db.projectsOf o i) := by
  obtain ⟨initiative, projects, hprojects, hrecord⟩ := readRollup_reads h hr
  have hrep := represented_of_history (reachable_inv h).chain o i
  refine computeRollup_counts ?_ (progress_checked hrep) hrep.count hrecord
  rw [map_core_of_mapM hprojects]
  exact (ordered_perm _ o i).map _

/-- `get_initiative` counts the memberships in the database. -/
theorem getInitiative_count {r : InitiativeRecord} (hr : ((Storage.getInitiative o i).serve t S.db).1 = .ok r) :
    r.projectCount = (S.db.projectsOf o i).length := by
  have hall : (readInitiative o i).run t S.db = (.ok r, ((readInitiative o i).run t S.db).2) := Prod.ext hr rfl
  obtain ⟨x, t₁, T₁, h1, h2⟩ := run_bind_ok.mp hall
  obtain ⟨rfl, -, -⟩ := select_ok h1
  obtain ⟨⟨row, count⟩, t₂, T₂, h3, h4⟩ := run_bind_ok.mp h2
  obtain ⟨hrow, -, -⟩ := orRefuse_ok h3
  obtain ⟨row', hrow', hpair⟩ := Option.map_eq_some_iff.mp hrow
  obtain ⟨-, rfl⟩ := Prod.mk.inj hpair
  obtain ⟨-, ho, hi⟩ := initiative_mem hrow'
  obtain ⟨hinit, -, -⟩ := formatted_ok h4
  rw [initiativeFromRow_count hinit, ho, hi]

end

/-! ### What the counts satisfy -/

section
variable {r r' : RollupRecord} {ps qs : List ProjectRow}

/-- Memberships that cannot be both are counted once. -/
theorem countP_add_le {α : Type*} {p q : α → Bool} (h : ∀ a, p a = true → q a = false) (l : List α) :
    l.countP p + l.countP q ≤ l.length := by
  have hle : l.countP q ≤ l.countP fun a => !p a := by
    refine List.countP_mono_left fun a _ hq => ?_
    cases hp : p a with
    | false => rfl
    | true => rw [h a hp] at hq; cases hq
  have := List.length_eq_countP_add_countP p (l := l)
  simp only [Bool.not_eq_true, Bool.decide_eq_false] at this
  omega

theorem Counts.completed_le (h : Counts r ps) : r.completedCount ≤ r.projectCount := by
  rw [h.completed, h.projects]
  exact_mod_cast List.countP_le_length

theorem Counts.risk_le (h : Counts r ps) : r.atRiskCount + r.offTrackCount ≤ r.projectCount := by
  rw [h.atRisk, h.offTrack, h.projects]
  have hdisjoint : ∀ p : ProjectRow, decide (p.health = "at_risk") = true →
      decide (p.health = "off_track") = false := by
    intro p hp
    rw [of_decide_eq_true hp]
    decide
  exact_mod_cast countP_add_le hdisjoint ps

/-- There is an average where there is a membership: the double nearest to the exact one, among progress values. -/
theorem Counts.average_nearest (h : Counts r ps) (hps : ∀ p ∈ ps, progressCheck p.progress = true) :
    (r.averageProjectProgress = none ↔ ps = []) ∧ ∀ a, r.averageProjectProgress = some a →
      Binary64.IsDouble a ∧ (0 ≤ a ∧ a ≤ 100) ∧
      ∀ x, Binary64.IsDouble x → |exactAverage ps - a| ≤ |exactAverage ps - x| := by
  rw [h.average]
  by_cases hne : ps = []
  · simp [hne]
  · rw [if_neg hne]
    refine ⟨by simp [hne], fun a ha => ?_⟩
    obtain ⟨hlow, hhigh⟩ := average_bounds hps hne
    have hsmall : |exactAverage ps| < 2 ^ (1023 : ℤ) := by
      rw [abs_of_nonneg hlow]
      calc exactAverage ps ≤ 100 := hhigh
        _ < 2 ^ (7 : ℤ) := by norm_num
        _ ≤ 2 ^ (1023 : ℤ) := zpow_le_zpow_right₀ (by norm_num) (by norm_num)
    rw [← Option.some.inj ha]
    exact ⟨Binary64.round_isDouble hsmall, round_progress ⟨hlow, hhigh⟩, fun x hx => Binary64.round_nearest hx⟩

/-- Memberships of which a rollup reads the same have the same aggregates. -/
theorem Counts.aggregates_eq (h : Counts r ps) (h' : Counts r' qs)
    (hcore : qs.map ProjectRow.core = ps.map ProjectRow.core) : r'.aggregates = r.aggregates := by
  have hlen : qs.length = ps.length := by simpa using congrArg List.length hcore
  have hcount : ∀ f : String × String × ℤ × Option Date × Option Date × OffsetDateTime → Bool,
      qs.countP (fun p => f p.core) = ps.countP fun p => f p.core := by
    intro f
    have := congrArg (List.countP f) hcore
    rwa [List.countP_map, List.countP_map] at this
  have hcompleted : (qs.countP fun p => p.statusCategory = "completed") =
      ps.countP fun p => p.statusCategory = "completed" := hcount fun c => c.1 = "completed"
  have hrisk : (qs.countP fun p => p.health = "at_risk") = ps.countP fun p => p.health = "at_risk" :=
    hcount fun c => c.2.1 = "at_risk"
  have hoff : (qs.countP fun p => p.health = "off_track") = ps.countP fun p => p.health = "off_track" :=
    hcount fun c => c.2.1 = "off_track"
  have hsum : (qs.map (·.progress)).sum = (ps.map (·.progress)).sum := by
    have := congrArg (fun cs => (cs.map fun c => c.2.2.1).sum) hcore
    simp only [List.map_map] at this
    exact this
  have hempty : qs = [] ↔ ps = [] := by rw [← List.length_eq_zero_iff, hlen, List.length_eq_zero_iff]
  simp only [RollupRecord.aggregates, h.projects, h'.projects, h.completed, h'.completed, h.atRisk, h'.atRisk,
    h.offTrack, h'.offTrack, h.average, h'.average, hlen, hcompleted, hrisk, hoff, exactAverage, hsum, hempty]

end

/-- **A rollup counts every attached project.** Read in a reachable state, with nobody writing, its counts
and its average are those of all memberships of the initiative, and `get_initiative` reports the same
number of them; the counts fit together, there is an average where there is a membership, the double
nearest to the quotient of their sum by their number, in 0..=100, and no sum on the way to it leaves
0..=50000. Whatever reorders commit later, of this or of other initiatives, a rollup read then has the same
counts and average. -/
theorem rollup_counts {ok : Call → Prop} {w : Sequences} {S : System} {o i : String} {now : Instant}
    {t : ℕ → Tick} {r : RollupRecord} (h : Txn.Steps Call.code ok (System.initial w) S)
    (hr : ((Storage.readRollup o i now).serve t S.db).1 = .ok r) :
    Counts r (S.db.projectsOf o i) ∧
    (∀ (t' : ℕ → Tick) (r' : InitiativeRecord), ((Storage.getInitiative o i).serve t' S.db).1 = .ok r' →
      r'.projectCount = r.projectCount) ∧
    (r.completedCount ≤ r.projectCount ∧ r.atRiskCount + r.offTrackCount ≤ r.projectCount) ∧
    ((r.averageProjectProgress = none ↔ S.db.projectsOf o i = []) ∧
      ∀ a, r.averageProjectProgress = some a → Binary64.IsDouble a ∧ (0 ≤ a ∧ a ≤ 100) ∧ ∀ x, Binary64.IsDouble x →
        |exactAverage (S.db.projectsOf o i) - a| ≤ |exactAverage (S.db.projectsOf o i) - x|) ∧
    (∀ ps, ps <+: S.db.ordered o i → 0 ≤ (ps.map (·.progress)).sum ∧ (ps.map (·.progress)).sum ≤ 50000) ∧
    (∀ (S' : System) (cs : List Committed), Txn.Steps Call.code ok S S' → S'.commits = S.commits ++ cs →
      (∀ x ∈ cs, x.call.op.isReorder = true) → ∀ (now' : Instant) (t' : ℕ → Tick) (r' : RollupRecord),
        ((Storage.readRollup o i now').serve t' S'.db).1 = .ok r' → r'.aggregates = r.aggregates) := by
  have hcounts := readRollup_counts h hr
  have hrep := represented_of_history (reachable_inv h).chain o i
  have hprogress := progress_checked hrep
  refine ⟨hcounts, fun t' r' hr' => ?_, ⟨hcounts.completed_le, hcounts.risk_le⟩, hcounts.average_nearest hprogress,
    fun ps hps => ?_, fun S' cs h' hcs hreorder now' t' r' hr' => ?_⟩
  · rw [getInitiative_count hr', hcounts.projects]
  · have hmem : ∀ p ∈ ps, progressCheck p.progress = true := fun p hp =>
      hprogress p ((ordered_perm _ o i).mem_iff.mp (hps.subset hp))
    have hlen := hps.length_le
    rw [Facts.ordered, List.length_insertionSort] at hlen
    have hcap : (S.db.projectsOf o i).length ≤ 500 := hrep.count
    have hbounds := sum_progress_bounds hmem
    omega
  · obtain ⟨ds, hds, hhistory⟩ := later_history h h'
    obtain rfl := List.append_cancel_left (hds.symm.trans hcs)
    refine hcounts.aggregates_eq (readRollup_counts (h.trans h') hr') (members_of_quiet hhistory ?_)
    intro x hx _ _ hop
    have hx' := hreorder x hx
    cases hcall : x.call.op <;> rw [hcall] at hx' hop <;> first | exact hop | cases hx'

/-- Three projects, with progress 10, 10 and 11. -/
def sampleThirds : List (ℕ × Txn.Move Tick Call) :=
  Txn.attempt 0 (sampleCreate "alpha") (sampleTicks 1 6) ++
    (Txn.attempt 1 (sampleAttach "alpha" "site" "site" 1 10 0) (sampleTicks 1 9) ++
      (Txn.attempt 2 (sampleAttach "alpha" "app" "app" 2 10 1) (sampleTicks 1 9) ++
        Txn.attempt 3 (sampleAttach "alpha" "web" "web" 3 11 2) (sampleTicks 1 9)))

theorem sampleThirds_reached : ∃ (S : System) (r : RollupRecord),
    Txn.Steps Call.code (fun _ => True) (System.initial ⟨0, 0⟩) S ∧
    ((Storage.readRollup "acme" "alpha" 0).serve (fun _ => default) S.db).1 = .ok r ∧ r.projectCount = 3 ∧
    r.averageProjectProgress = some (5817149518686891 / 562949953421312) ∧
    (S.db.projectsOf "acme" "alpha").map (·.progress) = [10, 10, 11] := by
  have hrun : ((System.initial ⟨0, 0⟩).schedule Call.code 4 sampleThirds).bind (fun S =>
      (S.schedule Call.code 4 []).map fun S' =>
        (((Storage.readRollup "acme" "alpha" 0).serve (fun _ => default) S'.db).1.toOption.map fun r =>
          (r.projectCount, r.averageProjectProgress), (S'.db.projectsOf "acme" "alpha").map (·.progress))) =
      some (some (3, some (5817149518686891 / 562949953421312)), [10, 10, 11]) := by decide +kernel
  obtain ⟨S, S', h, h', hfacts⟩ := @System.scheduled (fun _ => True) _ _ _ _ _ _ _ hrun (by decide)
    fun _ _ _ _ => trivial
  obtain ⟨hrollup, hprogress⟩ := Prod.mk.inj hfacts
  obtain ⟨r, hr, hfacts⟩ := Option.map_eq_some_iff.mp hrollup
  obtain ⟨hcount, haverage⟩ := Prod.mk.inj hfacts
  exact ⟨S', r, h.trans h', ok_of_toOption hr, hcount, haverage, hprogress⟩

/-- Their average is not the quotient of their sum by their number. -/
theorem rollup_average_rounded : ∃ (S : System) (r : RollupRecord),
    Txn.Steps Call.code (fun _ => True) (System.initial ⟨0, 0⟩) S ∧
    ((Storage.readRollup "acme" "alpha" 0).serve (fun _ => default) S.db).1 = .ok r ∧
    S.db.projectsOf "acme" "alpha" ≠ [] ∧ r.averageProjectProgress ≠
      some (exactAverage (S.db.projectsOf "acme" "alpha")) := by
  obtain ⟨S, r, h, hread, -, haverage, hprogress⟩ := sampleThirds_reached
  have hlen : (S.db.projectsOf "acme" "alpha").length = 3 := by simpa using congrArg List.length hprogress
  refine ⟨S, r, h, hread, List.ne_nil_of_length_pos (by omega), ?_⟩
  rw [haverage, exactAverage, hprogress, hlen]
  decide +kernel

/-- They are counted, and their average is the double next to 31 / 3. -/
theorem rollup_counts_thirds : ∃ (S : System) (r : RollupRecord),
    ((Storage.readRollup "acme" "alpha" 0).serve (fun _ => default) S.db).1 = .ok r ∧ r.projectCount = 3 ∧
    r.averageProjectProgress = some (5817149518686891 / 562949953421312) ∧
      Counts r (S.db.projectsOf "acme" "alpha") := by
  obtain ⟨S, r, h, hread, hcount, haverage, -⟩ := sampleThirds_reached
  exact ⟨S, r, hread, hcount, haverage, (rollup_counts h hread).1⟩

end Portfolio
