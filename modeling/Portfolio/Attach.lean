/-
# Why an attach is refused

An attach to an open initiative at the expected revision is refused for the
first reason there is: the project is attached, the initiative is full, the
position is taken (`Facts.attachRefusal`). The position is found out by the
INSERT alone, whose two unique keys answer with one error. It is the position
that is taken whenever that error comes: the existence check has found no
membership, and the lock of the initiative keeps others from adding one.

Key definitions: `Facts.attachRefusal`, `Attaches`.
Key theorems: `attach_verdict`, `taken_of_refused`, `Fresh.attaches`,
`attach_reports_reason`.
-/
import Portfolio.Stale

namespace Portfolio

open Txn Txn.Prog

/-- The first reason to refuse an attach of `p` at a position. -/
def Facts.attachRefusal (F : Facts) (o i p : String) (position : ℤ) : Option DomainFailure :=
  if (F.project o i p).isSome then some .alreadyAttached
  else if 500 ≤ (F.projectsOf o i).length then some .invalidRequest
  else if ∃ other ∈ F.projectsOf o i, other.position = position then some .positionConflict
  else none

/-- From `F` to `F'` the project is attached, at membership revision 1, and the initiative is at its next revision. -/
structure Attaches (o i : String) (s : ProjectSnapshot) (position : ℤ) (F F' : Facts) : Prop where
  added : F'.projects = F.projects ++ [Sql.projectRow o i s position]
  attached : ∃ p, F'.project o i s.projectId = some p ∧ p.position = position ∧ p.membershipRevision = 1
  revision : ∃ row row', F.initiative o i = some row ∧ F'.initiative o i = some row' ∧
    row'.revision = row.revision + 1
  updates : F'.updates = F.updates
  elsewhere : ∀ o' i', ¬ (o = o' ∧ i = i') → F'.about o' i' = F.about o' i'

/-! ### What is decided -/

section
variable {F F' : Facts} {o i actor : String} {expected position : ℤ} {s : ProjectSnapshot} {row : InitiativeRow}
  {r : Record}

/-- Where the project is not attached, who holds its position is another. -/
theorem positionTaken_iff (hnew : F.project o i s.projectId = none) :
    Sql.positionTaken (F.projectsOf o i) (Sql.projectRow o i s position) = true ↔
      ∃ other ∈ F.projectsOf o i, other.position = position := by
  have hother : ∀ other ∈ F.projectsOf o i, other.projectId ≠ s.projectId := fun other hother =>
    of_decide_eq_false (Bool.eq_false_iff.mpr (List.find?_eq_none.mp hnew other hother))
  rw [Sql.positionTaken, List.any_eq_true]
  constructor
  · rintro ⟨other, hmem, hsame⟩
    rw [Bool.and_eq_true, decide_eq_true_eq, decide_eq_true_eq] at hsame
    exact ⟨other, hmem, hsame.2⟩
  · rintro ⟨other, hmem, hsame⟩
    refine ⟨other, hmem, ?_⟩
    rw [Bool.and_eq_true, decide_eq_true_eq, decide_eq_true_eq]
    exact ⟨hother other hmem, hsame⟩

/-- **The verdict of an attach is its first reason.** -/
theorem attach_verdict (hopen : F.Open o i row) (hrev : row.revision = expected)
    (hfit : datesFit s.targetStart s.targetDate = true) :
    (Op.attachProject o i expected s position).verdict F =
      ((F.attachRefusal o i s.projectId position).map .refuse).getD .accept := by
  rw [Op.verdict, mutable_of_open hopen hrev, Facts.attachRefusal]
  cases hproject : F.project o i s.projectId with
  | some old => rfl
  | none =>
    simp only [Option.isSome_none, Bool.false_eq_true, if_false, hfit, Bool.not_true, maxProjectsPerInitiative,
      positionTaken_iff hproject]
    by_cases hcount : 500 ≤ (F.projectsOf o i).length
    · simp only [hcount, if_true, Option.map_some, Option.getD_some]
    by_cases htaken : ∃ other ∈ F.projectsOf o i, other.position = position
    · simp only [hcount, htaken, if_true, if_false, Option.map_some, Option.getD_some]
    · simp only [hcount, htaken, if_false, Option.map_none, Option.getD_none]

/-- Of the failures a taken key is mapped to, an attach is refused with a position conflict only, and then it is the
position that is taken: the project is not attached. -/
theorem taken_of_refused {failure : DomainFailure} (hunique : failure ∈ uniqueFailures)
    (h : (Op.attachProject o i expected s position).verdict F = .refuse failure) :
    failure = .positionConflict ∧ F.project o i s.projectId = none ∧
      ∃ other ∈ F.projectsOf o i, other.position = position := by
  have hnot : ∀ {failure' : DomainFailure}, failure' ∉ uniqueFailures → Verdict.refuse failure' ≠ .refuse failure := by
    intro failure' hmem heq
    exact hmem (Verdict.refuse.inj heq ▸ hunique)
  rw [Op.verdict] at h
  unfold Facts.mutable at h
  cases hrow : F.initiative o i with
  | none =>
    rw [hrow] at h
    exact absurd h (hnot (by decide))
  | some row =>
    rw [hrow] at h
    simp only at h
    split at h
    · exact absurd h (hnot (by decide))
    split at h
    · exact absurd h (hnot (by decide))
    cases hproject : F.project o i s.projectId with
    | some old =>
      rw [hproject] at h
      exact absurd h (hnot (by decide))
    | none =>
      rw [hproject] at h
      simp only [Option.isSome_none, Bool.false_eq_true, if_false] at h
      split at h
      · exact absurd h (hnot (by decide))
      split at h
      · cases h
      split at h
      · rename_i htaken
        exact ⟨(Verdict.refuse.inj h).symm, rfl, (positionTaken_iff hproject).mp htaken⟩
      · cases h

/-- **What an attach that succeeds does**, and what it has found. -/
theorem Fresh.attaches (h : Fresh actor (.attachProject o i expected s position) F r F') :
    F.attachRefusal o i s.projectId position = none ∧ Attaches o i s position F F' := by
  have helsewhere : ∀ o' i', ¬ (o = o' ∧ i = i') → F'.about o' i' = F.about o' i' := fun o' i' hne =>
    h.elsewhere hne
  cases h with
  | @attachProject _ _ _ _ _ _ row t r hrow hrev hnew hcount hp hfree hc hr =>
    have hattached := @project_insert _ _ s.projectId _ (Sql.projectRow o i s position) hnew
      (by simp [ProjectRow.at, Sql.projectRow]) rfl
    refine ⟨?_, rfl, ⟨_, hattached, rfl, rfl⟩, ⟨row, _, hrow.found, initiative_setInitiative hrow.found rfl, rfl⟩,
      rfl, helsewhere⟩
    have htaken : ¬ ∃ other ∈ F.projectsOf o i, other.position = position := fun htaken =>
      Bool.eq_false_iff.mp hfree ((positionTaken_iff hnew).mpr htaken)
    have hfull : ¬ 500 ≤ (F.projectsOf o i).length := not_le_of_gt hcount
    rw [Facts.attachRefusal, hnew]
    simp only [Option.isSome_none, Bool.false_eq_true, if_false, hfull, htaken]

/-- What an attach to an open initiative at the expected revision is refused with is its first reason. -/
theorem attachRefusal_of_refused (hopen : F.Open o i row) (hrev : row.revision = expected) {failure : DomainFailure}
    (h : (Op.attachProject o i expected s position).verdict F = .refuse failure) :
    F.attachRefusal o i s.projectId position = some failure := by
  by_cases hfit : datesFit s.targetStart s.targetDate = true
  · rw [attach_verdict hopen hrev hfit] at h
    cases hrefusal : F.attachRefusal o i s.projectId position with
    | none =>
      rw [hrefusal] at h
      cases h
    | some failure' =>
      rw [hrefusal] at h
      rw [Verdict.refuse.inj h]
  · rw [Op.verdict, mutable_of_open hopen hrev] at h
    rw [Facts.attachRefusal]
    -- dates without a column are found out after the first two reasons, and are no refusal
    split at h
    · rename_i hattached
      rw [if_pos hattached, Verdict.refuse.inj h]
    rename_i hnew
    split at h
    · rename_i hcount
      have hfull : 500 ≤ (F.projectsOf o i).length := hcount
      rw [if_neg hnew, if_pos hfull, Verdict.refuse.inj h]
    rw [Bool.not_eq_true] at hfit
    simp only [hfit, Bool.not_false, if_true] at h
    cases h

end

/-! ### The handler -/

section
variable {plugin : ProjectPortfolioPlugin} {w : Sequences} {S : System} {c : Call} {t : ℕ → Tick}

/-- **An attach reports its true reason.** In every state the plugin reaches, an admitted attach under a fresh key, to
an open initiative at the expected revision and with dates of a `date` column, is refused with the first reason there
is (attached, full, position taken) and changes nothing; without a reason it attaches the project and nothing else,
or, if its snapshot is observed at an instant without a text, fails without a change. In every run, whatever the
others do, an attach that succeeds afresh has found no reason and attaches the project and nothing else, and one that
is refused is refused with the first reason there is at that moment; so is one whose INSERT finds a key taken, the
project not being attached and its position being taken. Of an instant in a UTC year above 9999 this says what comes
of it once it is bound; whether it is bound is up to the crates that send it. -/
theorem attach_reports_reason (hconf : plugin.Configured)
    (haccepts : ∀ v text, formatTimestamp v = some text → plugin.accepts text = true)
    (h : Txn.Steps Call.code (Admitted plugin) (System.initial w) S) :
    (∀ (context : Context) (q : Request) (c : Call) (o i : String) (expected position : ℤ) (s : ProjectSnapshot)
      (row : InitiativeRow), Handler.mutation (q.handle plugin context) = some c →
      c.op = .attachProject o i expected s position → S.db.command c.key = none → S.db.Open o i row →
      row.revision = expected → datesFit s.targetStart s.targetDate = true →
      ∀ t : ℕ → Tick, (∀ n, (t n).fault = false) →
      match S.db.attachRefusal o i s.projectId position with
      | some failure => ∃ error, Handler.serve (q.handle plugin context) t S.db = (.error (.domain error), S.db) ∧
          error.name = failure.name
      | none =>
        if (formatTimestamp s.observedAt).isSome then
          ∃ response T, Handler.serve (q.handle plugin context) t S.db = (.ok response, T) ∧
            Attaches o i s position S.db.toFacts T.toFacts
        else ∃ detail, Handler.serve (q.handle plugin context) t S.db =
          (.error (.runtime (.pluginFailure detail)), S.db)) ∧
    (∀ x ∈ S.commits, Committed.Fresh x → ∀ (o i : String) (expected position : ℤ) (s : ProjectSnapshot),
      x.call.op = .attachProject o i expected s position →
      x.before.attachRefusal o i s.projectId position = none ∧
        Attaches o i s position x.before.toFacts x.after.toFacts) ∧
    (∀ (n : ℕ) (c : Call) (ticks : List Tick) (β : Type) (st : Sql β) (k : Except DbError β → Tx Record)
      (log : List Write) (held : List Lock) (t : Tick) (failure : DomainFailure) (o i : String)
      (expected position : ℤ) (s : ProjectSnapshot) (row : InitiativeRow),
      S.threads n = .active c ticks (.call st k) log held →
      k (st.run t (applyAll log S.db)).1 = .throw (.domain failure) →
      c.op = .attachProject o i expected s position → S.db.command c.key = none → S.db.Open o i row →
      row.revision = expected → S.db.attachRefusal o i s.projectId position = some failure) ∧
    (∀ (n : ℕ) (c : Call) (ticks : List Tick) (β : Type) (st : Sql β) (k : Except DbError β → Tx Record)
      (log : List Write) (held : List Lock) (t : Tick) (o i : String) (expected position : ℤ) (s : ProjectSnapshot),
      S.threads n = .active c ticks (.call st k) log held → c.op = .attachProject o i expected s position →
      (st.run t (applyAll log S.db)).1 = .error .uniqueViolation →
      k (.error .uniqueViolation) = .throw (.domain .operationInProgress) ∨
      (k (.error .uniqueViolation) = .throw (.domain .positionConflict) ∧ S.db.project o i s.projectId = none ∧
        ∃ other ∈ S.db.projectsOf o i, other.position = position)) := by
  refine ⟨fun context q c o i expected position s row hmutation hop hnone hopen hrev hfit t ht => ?_,
    fun x hx hfresh o i expected position s hop => ?_,
    fun n c ticks β st k log held t failure o i expected position s row hn hthrow hop hnone hopen hrev => ?_,
    fun n c ticks β st k log held t o i expected position s hn hop hd => ?_⟩
  · have hc : Admitted plugin c := ⟨context, q, hmutation⟩
    have hv : (Op.attachProject o i expected s position).verdict S.db.toFacts = _ := attach_verdict hopen hrev hfit
    rw [← hop] at hv
    cases hrefusal : S.db.attachRefusal o i s.projectId position with
    | some failure =>
      rw [hrefusal] at hv
      obtain ⟨hserve, hname⟩ := serve_mapped hmutation (refused_healthy hconf h hc hnone ht hv)
      exact ⟨_, hserve, hname _ rfl⟩
    | none =>
      rw [hrefusal] at hv
      have hobserved : c.op.observedAt = some s.observedAt := by rw [hop]; rfl
      cases htext : formatTimestamp s.observedAt with
      | some text =>
        have htimely : c.op.Timely (fun t => t.fault = false) S.db.toFacts := by
          rw [hop]
          exact (congrArg Option.isSome htext).trans rfl
        obtain ⟨r, T, hatomic, hfresh⟩ := accepted_healthy hconf h hc hnone ht hv htimely
        obtain ⟨t', hrun⟩ := atomic_ok.mp hatomic
        obtain ⟨response, hresponse⟩ := Option.isSome_iff_exists.mp
          (respond_of_outcome haccepts (reachable_inv h).chain (Call.outcome hrun))
        obtain ⟨map, hmap⟩ := serve_mutation hmutation
        rw [hop] at hfresh
        refine ⟨response, T, ?_, hfresh.attaches.2⟩
        rw [hmap, hatomic]
        simp only [hresponse]
      | none =>
        have htime := unprinted_healthy hconf h hc hnone ht hv hobserved htext
        exact ⟨_, (serve_mapped hmutation htime).1⟩
  · have hx := fresh_of_fresh (outcome_of_mem (reachable_inv h).chain hx) hfresh
    rw [hop] at hx
    exact hx.attaches
  · have hv : c.op.verdict S.db.toFacts = .refuse failure := (endsWith_of_exec hconf h hn hthrow).decided hnone
    rw [hop] at hv
    exact attachRefusal_of_refused hopen hrev hv
  · obtain ⟨e, he, hfailing⟩ := failing_of_exec hconf h hn hd
    cases hfailing with
    | taken hfailure hv =>
      rcases hv with hv | rfl
      · rw [hop] at hv
        obtain ⟨rfl, htaken⟩ := taken_of_refused hfailure hv
        exact .inr ⟨he, htaken⟩
      · exact .inl he

end

/-- The call of the attach of a second project. -/
def sampleApp : Call := ⟨⟨"planner", "ann", "attach-app", [28, 232, 133, 13, 30, 176, 180, 172, 187, 73, 32, 165, 129,
  4, 175, 229, 56, 191, 164, 122, 176, 75, 131, 180, 201, 32, 92, 195, 188, 212, 42, 188]⟩,
  .attachProject "acme" "alpha" 2 ⟨"app", "App", "started", "on_track", 10, none, none, "r1", 1788048000000000⟩ 1⟩

/-- And of the one that is observed before the year 0. -/
def sampleOld : Call := ⟨⟨"planner", "ann", "attach-old", [75, 244, 150, 57, 96, 20, 6, 99, 135, 30, 113, 0, 67, 77,
  194, 166, 205, 72, 11, 250, 132, 238, 31, 207, 194, 252, 28, 180, 217, 237, 73, 245]⟩,
  .attachProject "acme" "alpha" 2 ⟨"old", "Old", "started", "on_track", 10, none, none, "r1", -62167219260000000⟩ 1⟩

theorem sampleApp_admitted :
    Handler.mutation (sampleAppRequest.handle sampleOldPlugin sampleContext) = some sampleApp := by decide +kernel

theorem sampleOld_admitted :
    Handler.mutation (sampleOldRequest.handle sampleOldPlugin sampleContext) = some sampleOld := by decide +kernel

/-- After a create and an attach both are new, and there is no reason to refuse them. -/
theorem sampleAttach_reached : ∃ (S : System) (row : InitiativeRow),
    Txn.Steps Call.code (Admitted sampleOldPlugin) (System.initial ⟨0, 0⟩) S ∧
    (S.db.Open "acme" "alpha" row ∧ row.revision = 2) ∧
    (S.db.command sampleApp.key = none ∧ S.db.attachRefusal "acme" "alpha" "app" 1 = none) ∧
    S.db.command sampleOld.key = none ∧ S.db.attachRefusal "acme" "alpha" "old" 1 = none := by
  have hrun : ((System.initial ⟨0, 0⟩).schedule Call.code 2 sampleMembership).bind (fun S =>
      (S.schedule Call.code 2 []).map fun S' =>
        ((S'.db.initiative "acme" "alpha").map (fun row => (row.archived, row.revision)),
          ((S'.db.command sampleApp.key, S'.db.attachRefusal "acme" "alpha" "app" 1),
            (S'.db.command sampleOld.key, S'.db.attachRefusal "acme" "alpha" "old" 1)))) =
      some (some (false, 2), ((none, none), (none, none))) := by decide +kernel
  have hadmitted : ∀ x ∈ sampleMembership, ∀ c, x.2 = .start c → Admitted sampleOldPlugin c :=
    admitted_sampleMembership ⟨sampleContext, sampleCreateRequest, by decide +kernel⟩
      ⟨sampleContext, sampleAttachRequest, by decide +kernel⟩
  obtain ⟨S, S', h, h', hfacts⟩ := @System.scheduled (Admitted sampleOldPlugin) _ _ _ _ _ _ _ hrun
    (by decide +kernel) (Txn.starts_append hadmitted Txn.starts_nil)
  obtain ⟨hrow, hfacts⟩ := Prod.mk.inj hfacts
  obtain ⟨happ, hold⟩ := Prod.mk.inj hfacts
  obtain ⟨row, hfound, hrow⟩ := Option.map_eq_some_iff.mp hrow
  obtain ⟨hunarchived, hrev⟩ := Prod.mk.inj hrow
  exact ⟨S', row, h.trans h', ⟨⟨hfound, hunarchived⟩, hrev⟩, Prod.mk.inj happ, Prod.mk.inj hold⟩

theorem attach_reports_reason_app : ∃ (S : System) (response : Response) (T : Tables),
    Handler.serve (sampleAppRequest.handle sampleOldPlugin sampleContext) (fun _ => default) S.db = (.ok response, T) ∧
    T.projects.length = S.db.projects.length + 1 := by
  obtain ⟨S, row, h, ⟨hopen, hrev⟩, ⟨hnone, hreason⟩, -⟩ := sampleAttach_reached
  have hconf : sampleOldPlugin.Configured := ⟨by decide +kernel, by decide +kernel⟩
  have hserved := (attach_reports_reason hconf (fun _ _ _ => rfl) h).1 _ _ _ _ _ _ _ _ _ sampleApp_admitted rfl hnone
    hopen hrev (by decide +kernel) (fun _ => default) fun _ => rfl
  rw [hreason] at hserved
  obtain ⟨response, T, hserve, hattaches⟩ := hserved
  refine ⟨S, response, T, hserve, ?_⟩
  rw [hattaches.added, List.length_append]
  rfl

/-- An attach that has no reason to be refused fails at its instant. -/
theorem attach_unprinted : ∃ (S : System) (row : InitiativeRow) (detail : String),
    Txn.Steps Call.code (Admitted sampleOldPlugin) (System.initial ⟨0, 0⟩) S ∧
    S.db.command sampleOld.key = none ∧ (S.db.Open "acme" "alpha" row ∧ row.revision = 2) ∧
    S.db.attachRefusal "acme" "alpha" "old" 1 = none ∧
    Handler.serve (sampleOldRequest.handle sampleOldPlugin sampleContext) (fun _ => default) S.db =
      (.error (.runtime (.pluginFailure detail)), S.db) := by
  obtain ⟨S, row, h, ⟨hopen, hrev⟩, -, hnone, hreason⟩ := sampleAttach_reached
  have hconf : sampleOldPlugin.Configured := ⟨by decide +kernel, by decide +kernel⟩
  have hv : sampleOld.op.verdict S.db.toFacts = .accept := by
    refine (attach_verdict hopen hrev (by decide +kernel)).trans ?_
    rw [hreason]
    rfl
  have htime := unprinted_healthy (t := fun _ => default) hconf h ⟨_, _, sampleOld_admitted⟩ hnone (fun _ => rfl) hv
    (v := -62167219260000000) rfl (by decide +kernel)
  exact ⟨S, row, _, h, hnone, ⟨hopen, hrev⟩, hreason, (serve_mapped sampleOld_admitted htime).1⟩

end Portfolio
