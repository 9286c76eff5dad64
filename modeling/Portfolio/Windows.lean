/-
# The window of a rollup

`compute_rollup` takes the least text of the target starts and the greatest of
the target dates. Texts compare as dates from year 0 on, and a negative year
comes first as it should; but of two negative years the text of the later one
is the less. So the start is right exactly if all target starts in negative
years are in one, and the end exactly if some target date is in no negative
year or all are in one (`window_chronological`).

Key definitions: `Earliest`, `Latest`, `Chronological`, `OneNegativeYear`.
Key theorems: `minText_earliest_iff`, `maxText_latest_iff`,
`window_chronological`.
-/
import Portfolio.Aggregates
import Portfolio.DateText

namespace Portfolio

/-! ### The first and the last of some dates -/

/-- A date of the list that none comes before. -/
def Earliest (ds : List Date) (d : Date) : Prop := d ∈ ds ∧ ∀ b ∈ ds, b.before d = false

/-- A date of the list that comes before none. -/
def Latest (ds : List Date) (d : Date) : Prop := d ∈ ds ∧ ∀ b ∈ ds, d.before b = false

section
variable {ds : List Date} {d : Date}

/-- Of the dates' texts, the least. -/
theorem minText_text_iff : minText (ds.map Date.text) = some d.text ↔
    d.text ∈ ds.map Date.text ∧ ∀ b ∈ ds, ¬ b.text < d.text := by
  rw [minText_eq_min?, List.min?_eq_some_iff, List.forall_mem_map]
  simp only [not_lt]

theorem exists_minText (hne : ds ≠ []) : ∃ d ∈ ds, minText (ds.map Date.text) = some d.text := by
  have hsome : (ds.map Date.text).min? ≠ none := fun hnone =>
    hne (List.map_eq_nil_iff.mp (List.min?_eq_none_iff.mp hnone))
  obtain ⟨s, hs⟩ := Option.ne_none_iff_exists'.mp hsome
  obtain ⟨d, hd, rfl⟩ := List.mem_map.mp (List.min?_eq_some_iff.mp hs).1
  exact ⟨d, hd, by rw [minText_eq_min?, hs]⟩

/-- And the greatest. -/
theorem maxText_text_iff : maxText (ds.map Date.text) = some d.text ↔
    d.text ∈ ds.map Date.text ∧ ∀ b ∈ ds, ¬ d.text < b.text := by
  rw [maxText_eq_max?, List.max?_eq_some_iff, List.forall_mem_map]
  simp only [not_lt]

theorem exists_maxText (hne : ds ≠ []) : ∃ d ∈ ds, maxText (ds.map Date.text) = some d.text := by
  have hsome : (ds.map Date.text).max? ≠ none := fun hnone =>
    hne (List.map_eq_nil_iff.mp (List.max?_eq_none_iff.mp hnone))
  obtain ⟨s, hs⟩ := Option.ne_none_iff_exists'.mp hsome
  obtain ⟨d, hd, rfl⟩ := List.mem_map.mp (List.max?_eq_some_iff.mp hs).1
  exact ⟨d, hd, by rw [maxText_eq_max?, hs]⟩

end

/-- The least text is that of an earliest date exactly if the dates in negative years are all in one. -/
theorem minText_earliest_iff {ds : List Date} (hne : ds ≠ []) :
    (∃ d, Earliest ds d ∧ minText (ds.map Date.text) = some d.text) ↔
      ∀ a ∈ ds, ∀ b ∈ ds, a.year < 0 → b.year < 0 → a.year = b.year := by
  constructor
  · rintro ⟨d, ⟨hd, hearliest⟩, htext⟩
    have hleast := (minText_text_iff.mp htext).2
    -- of two negative years the later one would have a lesser text than `d`
    have hnot : ∀ a ∈ ds, ∀ b ∈ ds, b.year < 0 → ¬ a.year < b.year := by
      intro a ha b hb hneg hlt
      have hle : d.year ≤ a.year := by
        by_contra hcon
        have := hearliest a ha
        rw [Date.before_iff.mpr (Or.inl (by omega))] at this
        cases this
      exact hleast b hb ((Date.text_lt_of_neg hneg (by omega)).mpr (Or.inl (by omega)))
    intro a ha b hb hna hnb
    have h1 := hnot a ha b hb hnb
    have h2 := hnot b hb a ha hna
    omega
  · intro hyears
    obtain ⟨d, hd, htext⟩ := exists_minText hne
    have hleast := (minText_text_iff.mp htext).2
    refine ⟨d, ⟨hd, fun b hb => ?_⟩, htext⟩
    by_contra hbefore
    rw [Bool.not_eq_false] at hbefore
    refine hleast b hb ?_
    exact Date.text_lt_of_before hbefore (hyears b hb d hd)

/-- The greatest text is that of a latest date exactly if some date is in no negative year, or all are in
one year. -/
theorem maxText_latest_iff {ds : List Date} (hne : ds ≠ []) :
    (∃ d, Latest ds d ∧ maxText (ds.map Date.text) = some d.text) ↔
      (∃ d ∈ ds, 0 ≤ d.year) ∨ ∀ a ∈ ds, ∀ b ∈ ds, a.year = b.year := by
  constructor
  · rintro ⟨d, ⟨hd, hlatest⟩, htext⟩
    have hgreatest := (maxText_text_iff.mp htext).2
    by_cases hnonneg : ∃ b ∈ ds, 0 ≤ b.year
    · exact Or.inl hnonneg
    -- all years are negative, so an earlier year than that of `d` would have the greater text
    have hneg : ∀ b ∈ ds, b.year < 0 := fun b hb => by
      by_contra hcon
      exact hnonneg ⟨b, hb, by omega⟩
    have hyear : ∀ b ∈ ds, b.year = d.year := by
      intro b hb
      have h1 : ¬ d.year < b.year := by
        intro hlt
        have := hlatest b hb
        rw [Date.before_iff.mpr (Or.inl hlt)] at this
        cases this
      have h2 : ¬ b.year < d.year := fun hlt =>
        hgreatest b hb ((Date.text_lt_of_neg (hneg d hd) (hneg b hb)).mpr (Or.inl hlt))
      omega
    exact Or.inr fun a ha b hb => (hyear a ha).trans (hyear b hb).symm
  · intro hyears
    obtain ⟨d, hd, htext⟩ := exists_maxText hne
    have hgreatest := (maxText_text_iff.mp htext).2
    refine ⟨d, ⟨hd, fun b hb => ?_⟩, htext⟩
    by_contra hbefore
    rw [Bool.not_eq_false] at hbefore
    refine hgreatest b hb ?_
    refine Date.text_lt_of_before hbefore fun hnd _ => ?_
    rcases hyears with ⟨c, hc, hnc⟩ | hyears
    · exact (hgreatest c hc (Date.text_lt_of_signs hnd hnc)).elim
    · exact hyears d hd b hb

/-! ### The window of the memberships -/

/-- The window of the rollup is that of the memberships: its start is the text of an earliest target start
and its end that of a latest target date, each absent where there is none, and it is in order where a
membership has both. -/
structure Chronological (rows : List ProjectRow) (r : RollupRecord) : Prop where
  noStart : rows.filterMap (·.targetStart) = [] → r.earliestTargetStart = none
  start : rows.filterMap (·.targetStart) ≠ [] →
    ∃ d, Earliest (rows.filterMap (·.targetStart)) d ∧ r.earliestTargetStart = some d.text
  noEnd : rows.filterMap (·.targetDate) = [] → r.latestTargetDate = none
  target : rows.filterMap (·.targetDate) ≠ [] →
    ∃ d, Latest (rows.filterMap (·.targetDate)) d ∧ r.latestTargetDate = some d.text
  ordered : ∀ p ∈ rows, p.targetStart.isSome = true → p.targetDate.isSome = true → ∃ first last : Date,
    r.earliestTargetStart = some first.text ∧ r.latestTargetDate = some last.text ∧ last.before first = false

/-- The target starts in negative years are all in one year; and a target date is in no negative year, or
all target dates are in one year. -/
def OneNegativeYear (rows : List ProjectRow) : Prop :=
  (∀ a ∈ rows.filterMap (·.targetStart), ∀ b ∈ rows.filterMap (·.targetStart),
    a.year < 0 → b.year < 0 → a.year = b.year) ∧
  ((∃ d ∈ rows.filterMap (·.targetDate), 0 ≤ d.year) ∨
    ∀ a ∈ rows.filterMap (·.targetDate), ∀ b ∈ rows.filterMap (·.targetDate), a.year = b.year)

/-- A window that parses is in order. -/
theorem ordered_of_parseDateWindow {start target : Option String} {window : Option Date × Option Date}
    (h : parseDateWindow start target = some window) : Ordered window.1 window.2 := by
  obtain ⟨first, -, h⟩ := Option.bind_eq_some_iff.mp h
  obtain ⟨last, -, h⟩ := Option.bind_eq_some_iff.mp h
  rintro a b ha hb
  split at h
  · split at h
    · cases h
    · rename_i hbefore
      obtain rfl := Option.some.inj h
      obtain rfl := Option.some.inj ha
      obtain rfl := Option.some.inj hb
      exact Bool.not_eq_true _ ▸ hbefore
  · rename_i hnot
    obtain rfl := Option.some.inj h
    exact (hnot a b ha hb).elim

section
variable {rows : List ProjectRow} {projects : List ProjectRecord}

/-- The texts of the dates that the records of rows hold. -/
theorem texts_of_mapM (h : rows.mapM (fun row => projectFromRow row none) = some projects) :
    projects.filterMap (·.targetStart) = (rows.filterMap (·.targetStart)).map Date.text ∧
      projects.filterMap (·.targetDate) = (rows.filterMap (·.targetDate)).map Date.text := by
  have hcore := map_core_of_mapM h
  have h1 := congrArg (List.filterMap fun c => c.2.2.2.1) hcore
  have h2 := congrArg (List.filterMap fun c => c.2.2.2.2) hcore
  rw [List.filterMap_map, List.filterMap_map] at h1 h2
  rw [List.map_filterMap, List.map_filterMap]
  exact ⟨h1, h2⟩

/-- Between an earliest start and a latest end every window in order fits. -/
theorem window_ordered {starts dates : List Date} {a b first last : Date} (ha : a ∈ starts) (hb : b ∈ dates)
    (hab : b.before a = false) (hfirst : Earliest starts first) (hlast : Latest dates last) :
    last.before first = false := by
  have h1 := hfirst.2 a ha
  have h2 := hlast.2 b hb
  rw [← Bool.not_eq_true, Date.before_iff_ord] at h1 h2 hab ⊢
  omega

/-- **The window of a rollup is chronological exactly if one negative year is enough**: for all memberships
whose windows the date parser admits, whatever years of -9999 to 9999 they have. -/
theorem window_chronological {initiative : InitiativeRecord} {now : Instant} {r : RollupRecord}
    (hadmitted : ∀ p ∈ rows, ∃ start target, parseDateWindow start target = some (p.targetStart, p.targetDate))
    (hread : rows.mapM (fun row => projectFromRow row none) = some projects)
    (hr : computeRollup initiative projects now = some r) : Chronological rows r ↔ OneNegativeYear rows := by
  obtain ⟨computedAt, -, hr⟩ := Option.bind_eq_some_iff.mp hr
  obtain rfl := Option.some.inj hr
  obtain ⟨hstarts, hdates⟩ := texts_of_mapM hread
  simp only [OneNegativeYear]
  constructor
  · intro h
    have hstart := h.start
    have htarget := h.target
    rw [hstarts] at hstart
    rw [hdates] at htarget
    constructor
    · by_cases hne : rows.filterMap (·.targetStart) = []
      · simp [hne]
      · exact (minText_earliest_iff hne).mp (hstart hne)
    · by_cases hne : rows.filterMap (·.targetDate) = []
      · simp [hne]
      · exact (maxText_latest_iff hne).mp (htarget hne)
  · rintro ⟨hneg, hpos⟩
    have hstart := fun hne => (@minText_earliest_iff (rows.filterMap (·.targetStart)) hne).mpr hneg
    have htarget := fun hne => (@maxText_latest_iff (rows.filterMap (·.targetDate)) hne).mpr hpos
    refine ⟨fun hnil => ?_, fun hne => ?_, fun hnil => ?_, fun hne => ?_, fun p hp hfirst hlast => ?_⟩
    · simp only [hstarts, hnil, List.map_nil, minText]
    · rw [hstarts]
      exact hstart hne
    · simp only [hdates, hnil, List.map_nil, maxText]
    · rw [hdates]
      exact htarget hne
    · obtain ⟨a, ha⟩ := Option.isSome_iff_exists.mp hfirst
      obtain ⟨b, hb⟩ := Option.isSome_iff_exists.mp hlast
      obtain ⟨start, target, hparse⟩ := hadmitted p hp
      have hmem := List.mem_filterMap.mpr ⟨p, hp, ha⟩
      have hmem' := List.mem_filterMap.mpr ⟨p, hp, hb⟩
      obtain ⟨first, hearliest, htext⟩ := hstart (List.ne_nil_of_mem hmem)
      obtain ⟨last, hlatest, htext'⟩ := htarget (List.ne_nil_of_mem hmem')
      rw [hstarts, hdates]
      refine ⟨first, last, htext, htext', ?_⟩
      exact window_ordered hmem hmem' (ordered_of_parseDateWindow hparse a b ha hb) hearliest hlatest

end

theorem january_le : 1 ≤ 1 ∧ 1 ≤ 12 := by decide

theorem first_le_daysInMonth (year : ℤ) : 1 ≤ 1 ∧ 1 ≤ daysInMonth year 1 :=
  ⟨le_refl 1, by simp [daysInMonth]⟩

/-- The first of January of a year. -/
def sampleNewYear (year : ℤ) (h : -9999 ≤ year ∧ year ≤ 9999) : Date where
  year := year
  month := 1
  day := 1
  year_le := h
  month_le := january_le
  day_le := first_le_daysInMonth year

/-- The attach of a project with a window. -/
def sampleDated (p : String) (expected position : ℤ) (start target : Option Date) : Call :=
  ⟨⟨"planner", "ann", p, []⟩, .attachProject "acme" "alpha" expected
    { sampleSnapshot p 10 with targetStart := start, targetDate := target } position⟩

/-- Two projects with windows. -/
def sampleDates (window window' : Option Date × Option Date) : List (ℕ × Txn.Move Tick Call) :=
  Txn.attempt 0 (sampleCreate "alpha") (sampleTicks 1 6) ++
    Txn.attempt 1 (sampleDated "site" 1 0 window.1 window.2) (sampleTicks 1 9) ++
    Txn.attempt 2 (sampleDated "app" 2 1 window'.1 window'.2) (sampleTicks 1 9)

/-- The windows of the initiative parse, from the texts they are printed as. -/
def sampleParses (S : System) : Bool :=
  (S.db.ordered "acme" "alpha").all fun p =>
    decide (parseDateWindow (optionalDate p.targetStart) (optionalDate p.targetDate) =
        some (p.targetStart, p.targetDate))

theorem admitted_of_sampleParses {S : System} (h : sampleParses S = true) : ∀ p ∈ S.db.ordered "acme" "alpha",
    ∃ start target, parseDateWindow start target = some (p.targetStart, p.targetDate) := fun p hp =>
  ⟨_, _, of_decide_eq_true (List.all_eq_true.mp h p hp)⟩

/-- A window that begins in a negative year, and a start in another year. -/
theorem window_chronological_spanned : ∃ (S : System) (r : RollupRecord),
    ((Storage.readRollup "acme" "alpha" 0).serve (fun _ => default) S.db).1 = .ok r ∧
    r.earliestTargetStart = some "-0001-01-01" ∧ r.latestTargetDate = some "2026-01-01" ∧
    Chronological (S.db.ordered "acme" "alpha") r := by
  have hrun : ((System.initial ⟨0, 0⟩).schedule Call.code 3 (sampleDates
      (some (sampleNewYear (-1) (by decide)), some (sampleNewYear 2026 (by decide)))
      (some (sampleNewYear 2025 (by decide)), none))).bind (fun S => (S.schedule Call.code 3 []).map fun S' =>
        (sampleParses S' &&
            decide (((S'.db.ordered "acme" "alpha").filterMap (·.targetStart)).map (·.year) = [-1, 2025] ∧
              ((S'.db.ordered "acme" "alpha").filterMap (·.targetDate)).map (·.year) = [2026]),
          ((Storage.readRollup "acme" "alpha" 0).serve (fun _ => default) S'.db).1.toOption.map fun r =>
            (r.earliestTargetStart, r.latestTargetDate))) =
      some (true, some (some "-0001-01-01", some "2026-01-01")) := by decide +kernel
  obtain ⟨S, S', h, h', hfacts⟩ := @System.scheduled (fun _ => True) _ _ _ _ _ _ _ hrun (by decide)
    fun _ _ _ _ => trivial
  obtain ⟨hfacts, hr⟩ := Prod.mk.inj hfacts
  obtain ⟨hparses, hyears⟩ := Bool.and_eq_true_iff.mp hfacts
  obtain ⟨hstarts, hdates⟩ := of_decide_eq_true hyears
  obtain ⟨r, hr, hwindow⟩ := Option.map_eq_some_iff.mp hr
  obtain ⟨hstart, htarget⟩ := Prod.mk.inj hwindow
  have hread := ok_of_toOption hr
  obtain ⟨initiative, projects, hprojects, hrecord⟩ := readRollup_reads (h.trans h') hread
  refine ⟨S', r, hread, hstart, htarget,
    (window_chronological (admitted_of_sampleParses hparses) hprojects hrecord).mpr
      ⟨fun a ha b hb => ?_, Or.inr fun a ha b hb => ?_⟩⟩
  · have h1 := List.mem_map_of_mem (f := fun d : Date => d.year) ha
    have h2 := List.mem_map_of_mem (f := fun d : Date => d.year) hb
    simp only [hstarts, List.mem_cons, List.not_mem_nil, or_false] at h1 h2
    omega
  · have h1 := List.mem_map_of_mem (f := fun d : Date => d.year) ha
    have h2 := List.mem_map_of_mem (f := fun d : Date => d.year) hb
    simp only [hdates, List.mem_singleton] at h1 h2
    omega

/-- Two starts in negative years: the rollup reports the later one. -/
theorem window_of_two_negative_years : ∃ (S : System) (r : RollupRecord),
    Txn.Steps Call.code (fun _ => True) (System.initial ⟨0, 0⟩) S ∧
    ((Storage.readRollup "acme" "alpha" 0).serve (fun _ => default) S.db).1 = .ok r ∧ sampleParses S = true ∧
    r.earliestTargetStart = some "-0001-01-01" ∧ ¬ Chronological (S.db.ordered "acme" "alpha") r := by
  have hrun : ((System.initial ⟨0, 0⟩).schedule Call.code 3 (sampleDates
      (some (sampleNewYear (-2) (by decide)), none) (some (sampleNewYear (-1) (by decide)), none))).bind (fun S =>
        (S.schedule Call.code 3 []).map fun S' =>
          (sampleParses S', (S'.db.ordered "acme" "alpha").filterMap (·.targetStart),
            ((Storage.readRollup "acme" "alpha" 0).serve (fun _ => default) S'.db).1.toOption.map
              fun r => r.earliestTargetStart)) =
      some (true, [sampleNewYear (-2) (by decide), sampleNewYear (-1) (by decide)], some (some "-0001-01-01")) := by
    decide +kernel
  obtain ⟨S, S', h, h', hfacts⟩ := @System.scheduled (fun _ => True) _ _ _ _ _ _ _ hrun (by decide)
    fun _ _ _ _ => trivial
  obtain ⟨hparses, hfacts⟩ := Prod.mk.inj hfacts
  obtain ⟨hstarts, hr⟩ := Prod.mk.inj hfacts
  obtain ⟨r, hr, hstart⟩ := Option.map_eq_some_iff.mp hr
  refine ⟨S', r, h.trans h', ok_of_toOption hr, hparses, hstart, fun hchronological => ?_⟩
  obtain ⟨d, ⟨hd, hearliest⟩, htext⟩ := hchronological.start (by rw [hstarts]; simp)
  rw [hstarts] at hd hearliest
  rw [hstart] at htext
  rcases List.mem_pair.mp hd with rfl | rfl
  · exact absurd htext (by decide +kernel)
  · exact absurd (hearliest _ List.mem_cons_self) (by decide +kernel)

end Portfolio
