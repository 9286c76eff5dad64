/-
# A reorder is total and exact

A reorder succeeds exactly if its initiative is open at the expected revision
and its items match the memberships, which then have the positions of their
items, each at the next revision; the answer lists them by position. Whatever
order the staging UPDATE visits the rows in, none of its statements ever meets
a position that is taken.

Key definitions: `Rearranges`.
Key theorems: `reorder_verdict`, `Fresh.rearranges`, `reorder_total_and_exact`.
-/
import Portfolio.Storable

namespace Portfolio

open Txn Txn.Prog

/-- The reorder has put every membership where its item asks for it, at its next revision, and changed nothing else
but the revision of the initiative and the time of its update; the response lists the memberships by position. -/
structure Rearranges (o i : String) (items : List ReorderInput) (F : Facts) (response : ReorderProjectsResponse)
    (F' : Facts) : Prop where
  revision : ∃ row updatedAt, F.initiative o i = some row ∧
    F'.initiative o i = some { row with revision := row.revision + 1, updatedAt := updatedAt } ∧
    response.initiativeRevision = toString (row.revision + 1)
  projects : F'.projectsOf o i = (F.projectsOf o i).map (reordered o i items)
  placed : ∀ p ∈ F.projectsOf o i, ∃ item ∈ items, item.projectId = p.projectId ∧ reordered o i items p =
    { p with position := item.position, membershipRevision := p.membershipRevision + 1 }
  increasing : response.items.Pairwise fun a b => a.position < b.position
  listed : ∀ x, x ∈ response.items ↔
    ∃ p ∈ F'.projectsOf o i, x = ⟨toString p.membershipRevision, p.position, p.projectId⟩
  updates : F'.updatesOf o i = F.updatesOf o i
  elsewhere : ∀ o' i', ¬ (o = o' ∧ i = i') → F'.about o' i' = F.about o' i'

section
variable {F F' : Facts} {actor o i : String} {expected : ℤ} {items : List ReorderInput} {r : Record}

/-! ### When it succeeds -/

theorem reorder_verdict (h : Represented (F.initiative o i) (F.projectsOf o i) (F.updatesOf o i)) :
    (Op.reorderProjects o i expected items).verdict F = .accept ↔
      (∃ row, F.Open o i row ∧ row.revision = expected) ∧ Matches F o i items := by
  refine (@mutable_eq_iff _ _ _ _ _ .accept nofun).trans (and_congr_right fun _ => ?_)
  rw [← reorderAccepts_iff h]
  by_cases haccepts : reorderAccepts (F.order o i) items = true <;> simp [haccepts]

/-- The lock and the expected revision refuse an operation for no key that is taken. -/
theorem mutable_unique {next : Verdict} {failure : DomainFailure} (h : failure ∈ uniqueFailures)
    (hv : F.mutable o i expected next = .refuse failure) : next = .refuse failure := by
  unfold Facts.mutable at hv
  split at hv
  · obtain rfl := Verdict.refuse.inj hv
    exact absurd h (by decide)
  split at hv
  · obtain rfl := Verdict.refuse.inj hv
    exact absurd h (by decide)
  split at hv
  · obtain rfl := Verdict.refuse.inj hv
    exact absurd h (by decide)
  · exact hv

/-- Nor do the items of a reorder. -/
theorem reorder_unique {failure : DomainFailure} (h : failure ∈ uniqueFailures) :
    (Op.reorderProjects o i expected items).verdict F ≠ .refuse failure := by
  intro hv
  have hnext := mutable_unique h hv
  split at hnext
  · cases hnext
  · obtain rfl := Verdict.refuse.inj hnext
    exact absurd h (by decide)

/-- So of its statements only the INSERT of its receipt ever finds one. -/
theorem failing_reorder {d : DbError} {e : StorageError}
    (h : Failing ((Op.reorderProjects o i expected items).verdict F) d e) :
    d = .fault ∨ (d = .uniqueViolation ∧ e = .domain .operationInProgress) := by
  cases h with
  | lost => exact Or.inl rfl
  | overflow _ hv => exact (overflow_iff.mp hv).1.elim
  | taken hfailure hv =>
    rcases hv with hv | rfl
    · exact absurd hv (reorder_unique hfailure)
    · exact Or.inr ⟨rfl, rfl⟩

/-! ### What it does -/

/-- The items of the answer are the memberships after it. -/
theorem mem_reorderOutput (h : reorderAccepts (F.order o i) items = true) {x : ReorderItemRecord} :
    x ∈ reorderOutput items ↔ ∃ p ∈ (F.projectsOf o i).map (reordered o i items),
      x = ⟨p.projectId, p.position, toString p.membershipRevision⟩ := by
  constructor
  · intro hx
    obtain ⟨item, hitem, rfl⟩ := List.mem_map.mp hx
    obtain ⟨p, hp, he⟩ := List.mem_map.mp ((reorder_perm h).mem_iff.mp (List.mem_map.mpr ⟨item, hitem, rfl⟩))
    refine ⟨_, List.mem_map.mpr ⟨p, hp, rfl⟩, ?_⟩
    obtain ⟨item', hitem', he', hplaced⟩ := reorder_item h hp
    have hsame : item' = item :=
      List.inj_on_of_nodup_map (reorderAccepts_spec h).2.2.1 hitem' hitem (he'.symm.trans he)
    rw [hplaced, hsame]
    simp only [Sql.placed, he, reorder_expected h hitem hp he]
  · rintro ⟨_, hmem, rfl⟩
    obtain ⟨p, hp, rfl⟩ := List.mem_map.mp hmem
    obtain ⟨item, hitem, he, hplaced⟩ := reorder_item h hp
    refine List.mem_map.mpr ⟨item, hitem, ?_⟩
    rw [hplaced]
    simp only [Sql.placed, he, reorder_expected h hitem hp he]

/-- Sorted by position they strictly increase, since no two items ask for the same one. -/
theorem reorderOutput_increasing (h : reorderAccepts (F.order o i) items = true) :
    ((reorderOutput items).insertionSort fun a b => a.position ≤ b.position).Pairwise
      fun a b => a.position < b.position := by
  have hsorted := List.pairwise_insertionSort (fun a b : ReorderItemRecord => a.position ≤ b.position)
    (reorderOutput items)
  have hpositions : (reorderOutput items).map (·.position) = items.map (·.position) := by
    rw [reorderOutput, List.map_map]
    rfl
  have hnodup : (((reorderOutput items).insertionSort fun a b => a.position ≤ b.position).map (·.position)).Nodup := by
    rw [((List.perm_insertionSort _ _).map _).nodup_iff, hpositions]
    exact (reorderAccepts_spec h).2.2.2.1
  exact (hsorted.and (List.pairwise_map.mp hnodup)).imp fun hle => lt_of_le_of_ne hle.1 hle.2

/-- **What a reorder that succeeds does.** -/
theorem Fresh.rearranges (h : Fresh actor (.reorderProjects o i expected items) F r F') (accepts : String → Bool) :
    ∃ response, r.respond accepts = some (.reorder response) ∧ Rearranges o i items F response F' := by
  have helsewhere : ∀ o' i', ¬ (o = o' ∧ i = i') → F'.about o' i' = F.about o' i' := fun o' i' hne =>
    h.elsewhere hne
  cases h with
  | @reorderProjects _ _ _ _ _ row t hrow hrev hitems hp hc =>
    have hprojects : (F.projects.map (reordered o i items)).filter (ProjectRow.at o i) =
        (F.projectsOf o i).map (reordered o i items) := filter_reordered o i o i items F.projects
    refine ⟨_, reorder_responds _, {
      revision := ⟨row, _, hrow.found, initiative_setInitiative hrow.found rfl, rfl⟩
      projects := hprojects
      placed := fun p hp => ?_
      increasing := List.pairwise_map.mpr (reorderOutput_increasing hitems)
      listed := fun x => ?_
      updates := rfl
      elsewhere := helsewhere }⟩
    · obtain ⟨item, hitem, he, hplaced⟩ := reorder_item hitems hp
      exact ⟨item, hitem, he.symm, hplaced⟩
    · rw [Facts.projectsOf, hprojects]
      simp only [List.mem_map, List.mem_insertionSort]
      constructor
      · rintro ⟨y, hy, rfl⟩
        obtain ⟨p, hp, rfl⟩ := (mem_reorderOutput hitems).mp hy
        exact ⟨p, List.mem_map.mp hp, rfl⟩
      · rintro ⟨p, hp, rfl⟩
        exact ⟨_, (mem_reorderOutput hitems).mpr ⟨p, List.mem_map.mpr hp, rfl⟩, rfl⟩

end

/-! ### The handler -/

section
variable {plugin : ProjectPortfolioPlugin} {w : Sequences} {S : System} {context : Context} {q : Request} {c : Call}
  {o i : String} {expected : ℤ} {items : List ReorderInput} {t : ℕ → Tick}

/-- A reorder without a receipt that ends well is one the tables accept, and does what a fresh one does. -/
theorem rearranges_of_atomic (hop : c.op = .reorderProjects o i expected items) (hnone : S.db.command c.key = none)
    {r : Record} {T : Tables} (hatomic : atomic c.code t S.db = (.ok r, T)) (accepts : String → Bool) :
    ∃ response, r.respond accepts = some (.reorder response) ∧
        Rearranges o i items S.db.toFacts response T.toFacts := by
  have hfresh := fresh_of_atomic hatomic hnone
  rw [hop] at hfresh
  exact hfresh.rearranges accepts

/-- On a healthy server a reorder without a receipt succeeds exactly if the tables accept it. -/
theorem reorder_succeeds (hconf : plugin.Configured)
    (h : Txn.Steps Call.code (Admitted plugin) (System.initial w) S) (hc : Admitted plugin c)
    (hop : c.op = .reorderProjects o i expected items) (hnone : S.db.command c.key = none)
    (ht : ∀ n, (t n).fault = false) : (∃ r T, atomic c.code t S.db = (.ok r, T)) ↔
      c.op.verdict S.db.toFacts = .accept := by
  have htimely : c.op.Timely (fun t => t.fault = false) S.db.toFacts := by
    rw [hop]
    trivial
  constructor
  · rintro ⟨r, T, hatomic⟩
    have hdecides : Decided False False _ _ := decided_healthy hconf h hc hnone (Or.inl htimely) ht
    obtain ⟨t', hrun⟩ := atomic_ok.mp hatomic
    rw [hrun] at hdecides
    exact hdecides
  · intro haccept
    obtain ⟨r, T, hatomic, -⟩ := accepted_healthy hconf h hc hnone ht haccept htimely
    exact ⟨r, T, hatomic⟩

/-- **A reorder is total on correct requests and exact.** In every state the plugin reaches, a reorder that its
handler has admitted under a fresh key, run on a healthy server, answers well exactly if the initiative is open at
the expected revision and the items match the memberships. When it answers well, on whatever server, the memberships
are rearranged as asked. None of its statements ever fails but for a lost server, in whatever order the rows are
visited. The same is true of every commit and of every statement in a run, where besides only the INSERT of its
receipt may find one that another attempt has stored. -/
theorem reorder_total_and_exact {plugin : ProjectPortfolioPlugin} {w : Sequences} {S : System}
    (hconf : plugin.Configured) (h : Txn.Steps Call.code (Admitted plugin) (System.initial w) S) :
    (∀ (context : Context) (q : Request) (c : Call) (o i : String) (expected : ℤ) (items : List ReorderInput),
      Handler.mutation (q.handle plugin context) = some c → c.op = .reorderProjects o i expected items →
      S.db.command c.key = none → ∀ t : ℕ → Tick,
      ((∀ n, (t n).fault = false) → ((∃ answer T, Handler.serve (q.handle plugin context) t S.db = (.ok answer, T)) ↔
        (∃ row, S.db.Open o i row ∧ row.revision = expected) ∧ Matches S.db.toFacts o i items)) ∧
      (∀ answer T, Handler.serve (q.handle plugin context) t S.db = (.ok answer, T) →
        ∃ response, answer = .reorder response ∧ Rearranges o i items S.db.toFacts response T.toFacts) ∧
      ∀ d ∈ c.code.faults t S.db, d = .fault) ∧
    (∀ x ∈ S.commits, Committed.Fresh x → ∀ (o i : String) (expected : ℤ) (items : List ReorderInput),
      x.call.op = .reorderProjects o i expected items →
      ∃ response, x.result.respond plugin.accepts = some (.reorder response) ∧
        Rearranges o i items x.before.toFacts response x.after.toFacts) ∧
    (∀ (n : ℕ) (c : Call) (ticks : List Tick) (β : Type) (st : Sql β) (k : Except DbError β → Tx Record)
      (log : List Write) (held : List Lock) (t : Tick) (d : DbError) (o i : String) (expected : ℤ)
      (items : List ReorderInput), S.threads n = .active c ticks (.call st k) log held →
      c.op = .reorderProjects o i expected items → (st.run t (applyAll log S.db)).1 = .error d →
      d = .fault ∨ (d = .uniqueViolation ∧ k (.error d) = .throw (.domain .operationInProgress))) := by
  have hinv := reachable_inv h
  refine ⟨fun context q c o i expected items hmutation hop hnone t => ?_, fun x hx hfresh o i expected items hop => ?_,
    fun n c ticks β st k log held t d o i expected items hn hop hd => ?_⟩
  · have hc : Admitted plugin c := ⟨context, q, hmutation⟩
    obtain ⟨map, hserve⟩ := serve_mutation hmutation
    -- the handler answers with the response of the record, where there is one
    have hanswers : ∀ {r T}, atomic c.code t S.db = (.ok r, T) →
        ∃ response, Handler.serve (q.handle plugin context) t S.db = (.ok (.reorder response), T) ∧
          Rearranges o i items S.db.toFacts response T.toFacts := by
      intro r T hatomic
      obtain ⟨response, hresponse, hrearranges⟩ := rearranges_of_atomic hop hnone hatomic plugin.accepts
      refine ⟨response, ?_, hrearranges⟩
      rw [hserve, hatomic]
      simp only [hresponse]
    have hatomic : ∀ {answer T}, Handler.serve (q.handle plugin context) t S.db = (.ok answer, T) →
        ∃ r, atomic c.code t S.db = (.ok r, T) := by
      intro answer T hanswer
      rw [hserve] at hanswer
      rcases hrun : atomic c.code t S.db with ⟨e | r, T'⟩
      · rw [hrun] at hanswer
        cases (Prod.mk.inj hanswer).1
      · rw [hrun] at hanswer
        obtain ⟨-, rfl⟩ := Prod.mk.inj hanswer
        exact ⟨r, rfl⟩
    refine ⟨fun ht => ?_, fun answer T hanswer => ?_, fun d hd => ?_⟩
    · have hsucceeds := reorder_succeeds hconf h hc hop hnone ht
      rw [hop, reorder_verdict ((proper_of_reachable hconf h).represented o i)] at hsucceeds
      rw [← hsucceeds]
      constructor
      · rintro ⟨answer, T, hanswer⟩
        obtain ⟨r, hr⟩ := hatomic hanswer
        exact ⟨r, T, hr⟩
      · rintro ⟨r, T, hr⟩
        obtain ⟨response, hresponse, -⟩ := hanswers hr
        exact ⟨_, T, hresponse⟩
    · obtain ⟨r, hr⟩ := hatomic hanswer
      obtain ⟨response, hresponse, hrearranges⟩ := hanswers hr
      rw [hanswer] at hresponse
      exact ⟨response, Except.ok.inj (Prod.mk.inj hresponse).1, hrearranges⟩
    · obtain ⟨e, hrun, hs⟩ := c.reports.of_mem hd
      have hfailing := failing_of_error hconf h hc hrun hs
      rw [hop] at hfailing
      rcases failing_reorder hfailing with hfault | ⟨rfl, rfl⟩
      · exact hfault
      · -- there is no receipt, so it is not refused for one
        have hdecides := decided_anyhow hconf h hc hnone t
        rw [hrun, hop] at hdecides
        exact absurd hdecides (reorder_unique (by decide))
  · exact (hop ▸ fresh_of_fresh (outcome_of_mem hinv.chain hx) hfresh).rearranges plugin.accepts
  · obtain ⟨e, he, hfailing⟩ := failing_of_exec hconf h hn hd
    rw [hop] at hfailing
    rcases failing_reorder hfailing with hfault | ⟨hunique, rfl⟩
    · exact Or.inl hfault
    · exact Or.inr ⟨hunique, he⟩

end

/-- A swap of the two projects of the initiative. -/
def sampleSwapRequest : Request :=
  .reorderProjects ⟨"3", "swap", "alpha", [⟨"1", 0, "app"⟩, ⟨"1", 1, "site"⟩], "acme"⟩

/-- An instance that digests it. -/
def sampleSwapPlugin : ProjectPortfolioPlugin :=
  { samplePlugin with
    digest := fun j =>
      if sampleSwapRequest.json = some j then [154, 58, 16, 67, 132, 174, 160, 200, 126, 125, 106, 250, 116, 12, 183,
        195, 216, 48, 129, 194, 63, 177, 253, 43, 215, 194, 4, 45, 191, 153, 242, 121] else samplePlugin.digest j }

/-- The two projects change places. -/
theorem reorder_total_and_exact_swap : ∃ (S : System) (T : Tables),
    S.db.projects.map (fun p => (p.projectId, p.position)) = [("site", 0), ("app", 1)] ∧
    Handler.serve (sampleSwapRequest.handle sampleSwapPlugin sampleContext) (fun _ => default) S.db =
      (.ok (.reorder ⟨"4", [⟨"2", 0, "app"⟩, ⟨"2", 1, "site"⟩]⟩), T) ∧
    Rearranges "acme" "alpha" [⟨"app", 1, 0⟩, ⟨"site", 1, 1⟩] S.db.toFacts
      ⟨"4", [⟨"2", 0, "app"⟩, ⟨"2", 1, "site"⟩]⟩ T.toFacts := by
  have hrun : ((System.initial ⟨0, 0⟩).schedule Call.code 3 (sampleMembership ++
      Txn.attempt 2 (sampleMutation sampleAppRequest) (sampleTicks 2 9))).bind (fun S =>
        (S.schedule Call.code 3 []).map fun S' => (S'.db.projects.map fun p => (p.projectId, p.position),
          (Handler.serve (sampleSwapRequest.handle sampleSwapPlugin sampleContext) (fun _ => default) S'.db).1,
          ((Handler.mutation (sampleSwapRequest.handle sampleSwapPlugin sampleContext)).map
            fun c => S'.db.command c.key))) =
      some ([("site", 0), ("app", 1)], .ok (.reorder ⟨"4", [⟨"2", 0, "app"⟩, ⟨"2", 1, "site"⟩]⟩), some none) := by
    decide +kernel
  have hmembership : ∀ x ∈ sampleMembership, ∀ c, x.2 = .start c → Admitted sampleSwapPlugin c :=
    admitted_sampleMembership ⟨sampleContext, sampleCreateRequest, by decide +kernel⟩
      ⟨sampleContext, sampleAttachRequest, by decide +kernel⟩
  have hadmitted : ∀ x ∈ sampleMembership ++ Txn.attempt 2 (sampleMutation sampleAppRequest) (sampleTicks 2 9),
      ∀ c, x.2 = .start c → Admitted sampleSwapPlugin c :=
    Txn.starts_append hmembership (Txn.starts_attempt ⟨sampleContext, sampleAppRequest, by decide +kernel⟩)
  obtain ⟨S, S', h, h', hfacts⟩ := @System.scheduled (Admitted sampleSwapPlugin) _ _ _ _ _ _ _ hrun (by decide +kernel)
    (Txn.starts_append hadmitted Txn.starts_nil)
  obtain ⟨hplaces, hfacts⟩ := Prod.mk.inj hfacts
  obtain ⟨hanswer, hfacts⟩ := Prod.mk.inj hfacts
  obtain ⟨c, hmutation, hnone⟩ := Option.map_eq_some_iff.mp hfacts
  have hconf : sampleSwapPlugin.Configured := ⟨by decide +kernel, by decide +kernel⟩
  have hop : c.op = .reorderProjects "acme" "alpha" 3 [⟨"app", 1, 0⟩, ⟨"site", 1, 1⟩] := by
    have hvalue : (Handler.mutation (sampleSwapRequest.handle sampleSwapPlugin sampleContext)).map (·.op) =
        some (.reorderProjects "acme" "alpha" 3 [⟨"app", 1, 0⟩, ⟨"site", 1, 1⟩]) := by decide +kernel
    rw [hmutation] at hvalue
    exact Option.some.inj hvalue
  rcases hserve : Handler.serve (sampleSwapRequest.handle sampleSwapPlugin sampleContext) (fun _ => default) S'.db
    with ⟨answer, T⟩
  rw [hserve] at hanswer
  obtain rfl := hanswer
  obtain ⟨response, hresponse, hrearranges⟩ := ((reorder_total_and_exact hconf (h.trans h')).1 _ _ _ _ _ _ _ hmutation
    hop hnone _).2.1 _ _ hserve
  refine ⟨S', T, hplaces, hserve, ?_⟩
  rw [Response.reorder.inj hresponse]
  exact hrearranges

end Portfolio
