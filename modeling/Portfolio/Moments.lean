/-
# Attempts take effect at a moment, and refusals have a cause

Whatever an attempt answers, committed or failed, it answers as the plan of one
moment between its beginning and its end does (`attempts_take_effect`): the
attempts, those that fail included, are as if each ran alone at its moment.

An operation of which the plan has approved when the attempt began, and that
the attempt is refused for, has been overtaken (`refusal_has_cause`): a fresh
commit in between was on its initiative, reported under the id of its report or
had its idempotency key. What others do elsewhere refuses nothing.

Key definitions: `Op.reportId`, `Op.Touches`.
Key theorems: `Plan.step_set`, `Plan.step_congr`, `attempts_take_effect`,
`refusal_has_cause`.
-/
import Portfolio.Refinement
import Portfolio.ExactlyOnce
import Portfolio.Txn.Moments

namespace Portfolio

open Txn

/-! ### What a step of a plan changes and reads -/

/-- The organization and the id of the report that the operation makes. -/
def Op.reportId : Op → Option (String × String)
  | .addUpdate o _ u _ _ _ _ => some (o, u)
  | _ => none

/-- A step of the one operation may change what the plan says of the other. -/
def Op.Touches (op' op : Op) : Prop :=
  op'.On op.organizationId op.initiativeId ∨ (op.reportId ≠ none ∧ op'.reportId = op.reportId)

instance (op' op : Op) : Decidable (op'.Touches op) := inferInstanceAs (Decidable (_ ∨ _))

section
variable {P P' Q : Plan} {o i actor : String} {expected : ℤ} {f f' : Initiative → Except DomainFailure Initiative}
  {op : Op}

section
variable {x y : Initiative}

theorem Initiative.attach_next {s : ProjectSnapshot} {position : ℤ} (h : x.attach s position = .ok y) :
    ∃ members, y = x.next members := by
  unfold Initiative.attach at h
  split at h
  · cases h
  split at h
  · cases h
  split at h
  · cases h
  · exact ⟨_, (Except.ok.inj h).symm⟩

theorem Initiative.refresh_next {s : ProjectSnapshot} (h : x.refresh expected s = .ok y) :
    ∃ members, y = x.next members := by
  unfold Initiative.refresh at h
  split at h
  · cases h
  split at h
  · cases h
  · exact ⟨_, (Except.ok.inj h).symm⟩

theorem Initiative.detach_next {p : String} (h : x.detach p expected = .ok y) : ∃ members, y = x.next members := by
  unfold Initiative.detach at h
  split at h
  · cases h
  split at h
  · cases h
  · exact ⟨_, (Except.ok.inj h).symm⟩

theorem Initiative.reorder_next {items : List ReorderInput} (h : x.reorder items = .ok y) :
    ∃ members, y = x.next members := by
  unfold Initiative.reorder at h
  split at h
  · exact ⟨_, (Except.ok.inj h).symm⟩
  · cases h

end

/-- The reports of an initiative were made before the operation, but for one of the operation's id. -/
theorem Op.becomes_reports {x : Initiative} {y : Option Initiative} (h : op.becomes actor y = some x) :
    ∀ r ∈ x.reports, (∃ z, y = some z ∧ r ∈ z.reports) ∨ op.reportId = some (op.organizationId, r.updateId) := by
  have hmap : ∀ {g : Initiative → Initiative}, (∀ z, (g z).reports = z.reports) → y.map g = some x →
      ∀ r ∈ x.reports, ∃ z, y = some z ∧ r ∈ z.reports := by
    intro g hg hx r hr
    obtain ⟨z, hz, rfl⟩ := Option.map_eq_some_iff.mp hx
    exact ⟨z, hz, hg z ▸ hr⟩
  have hbind : ∀ {f : Initiative → Except DomainFailure Initiative},
      (∀ z x, f z = .ok x → ∃ members, x = z.next members) → (y.bind fun z => (f z).toOption) = some x →
      ∀ r ∈ x.reports, ∃ z, y = some z ∧ r ∈ z.reports := by
    intro f hf hx r hr
    obtain ⟨z, hz, hx⟩ := Option.bind_eq_some_iff.mp hx
    cases hfz : f z with
    | error e =>
      rw [hfz] at hx
      cases hx
    | ok x' =>
      rw [hfz] at hx
      obtain rfl := Option.some.inj hx
      obtain ⟨members, rfl⟩ := hf z x' hfz
      exact ⟨z, hz, hr⟩
  intro r hr
  cases op with
  | createInitiative v =>
    obtain rfl := Option.some.inj h
    exact (List.not_mem_nil hr).elim
  | updateInitiative o i expected patch => exact .inl (hmap (g := fun z => z.edit patch) (fun _ => rfl) h r hr)
  | archiveInitiative => exact .inl (hmap (g := Initiative.archive) (fun _ => rfl) h r hr)
  | addUpdate o i u expected health summary progress =>
    obtain ⟨z, hz, rfl⟩ := Option.map_eq_some_iff.mp h
    rcases List.mem_append.mp hr with hr | hr
    · exact .inl ⟨z, hz, hr⟩
    · rw [List.mem_singleton.mp hr]
      exact .inr rfl
  | attachProject => exact .inl (hbind (fun _ _ => Initiative.attach_next) h r hr)
  | updateProjectSnapshot => exact .inl (hbind (fun _ _ => Initiative.refresh_next) h r hr)
  | detachProject => exact .inl (hbind (fun _ _ => Initiative.detach_next) h r hr)
  | reorderProjects => exact .inl (hbind (fun _ _ => Initiative.reorder_next) h r hr)

/-- A step reports under the id of its operation only. -/
theorem Plan.step_reported {u : String} (h : P.step actor op = .ok P') (hu : P'.Reported o u) :
    P.Reported o u ∨ op.reportId = some (o, u) := by
  obtain ⟨i, x, hx, r, hr, rfl⟩ := hu
  by_cases hon : op.On o i
  · obtain ⟨rfl, rfl⟩ := hon
    obtain ⟨y, hbecomes, rfl⟩ := Plan.step_becomes h
    rw [Plan.set_self] at hx
    obtain rfl := Option.some.inj hx
    rcases Op.becomes_reports hbecomes r hr with ⟨z, hz, hr⟩ | hid
    · exact Or.inl ⟨_, z, hz, r, hr, rfl⟩
    · exact Or.inr hid
  · rw [Plan.step_elsewhere h hon] at hx
    exact Or.inl ⟨i, x, hx, r, hr, rfl⟩

/-- Whether a step may be taken depends on its initiative, and for a report on its id. -/
theorem Plan.step_congr (hx : P' op.organizationId op.initiativeId = P op.organizationId op.initiativeId)
    (hreported : ∀ o u, op.reportId = some (o, u) → P'.Reported o u → P.Reported o u) (h : P.step actor op = .ok Q) :
    ∃ Q', P'.step actor op = .ok Q' := by
  cases op with
  | createInitiative v =>
    change P' v.organizationId v.initiativeId = P v.organizationId v.initiativeId at hx
    simp only [Plan.step] at h ⊢
    rw [hx]
    split at h
    · cases h
    · rename_i hnone
      exact ⟨_, if_neg hnone⟩
  | addUpdate o i u expected health summary progress =>
    obtain ⟨x, y, hy, ha, hrev, hf, -⟩ := Plan.revise_ok.mp h
    split at hf
    · cases hf
    · rename_i hnot
      refine ⟨P'.set o i y, Plan.revise_ok.mpr ⟨x, y, hx.trans hy, ha, hrev, ?_, rfl⟩⟩
      rwa [if_neg fun hu => hnot (hreported o u rfl hu)]
  | updateProjectSnapshot o i expected s =>
    obtain ⟨x, y, hy, ha, hf, -⟩ := Plan.change_ok.mp h
    exact ⟨_, Plan.change_ok.mpr ⟨x, y, hx.trans hy, ha, hf, rfl⟩⟩
  | updateInitiative | archiveInitiative | attachProject | detachProject | reorderProjects =>
    obtain ⟨x, y, hy, ha, hrev, hf, -⟩ := Plan.revise_ok.mp h
    exact ⟨_, Plan.revise_ok.mpr ⟨x, y, hx.trans hy, ha, hrev, hf, rfl⟩⟩

end

/-! ### The moment of an attempt -/

section
variable {plugin : ProjectPortfolioPlugin} {w : Sequences} {S S' : System} {i : ℕ}

/-- The plan that the tables of a reachable system depict, and a later one. -/
theorem plans_of_steps (h : Txn.Steps Call.code (Admitted plugin) (System.initial w) S)
    (h' : Txn.Steps Call.code (Admitted plugin) S S') {P : Plan} (hP : S.db.Depicts P) :
    ∃ cs P', S'.commits = S.commits ++ cs ∧ Trace.Run Plan.Commits P (cs.filterMap Committed.label) P' ∧
      S'.db.Depicts P' := by
  obtain ⟨cs, hcs, hhistory⟩ := later_history h h'
  obtain ⟨P', hrun, hP'⟩ := History.follows hhistory hP
  exact ⟨cs, P', hcs, hrun, hP'⟩

end

/-! ### A race of two attempts of one request -/

/-- The call and the error of a failed attempt; nothing of one that has not begun. -/
def sampleFailure (S : System) (i : ℕ) : Option (Option (Call × StorageError)) :=
  match S.threads i with
  | .idle => some none
  | .failed c e => some (some (c, e))
  | _ => none

theorem idle_of_sampleFailure {S : System} {i : ℕ} (h : sampleFailure S i = some none) : S.threads i = .idle := by
  unfold sampleFailure at h
  split at h
  · assumption
  · cases h
  · cases h

theorem failed_of_sampleFailure {S : System} {i : ℕ} {c : Call} {e : StorageError}
    (h : sampleFailure S i = some (some (c, e))) : S.threads i = .failed c e := by
  unfold sampleFailure at h
  split at h
  · cases h
  · rename_i hfailed
    cases h
    exact hfailed
  · cases h

/-- An attach finds no receipt; the same attach runs and commits; the first finds the receipt there. -/
def sampleRace : List (ℕ × Txn.Move Tick Call) :=
  [(1, .start (sampleMutation sampleAttachRequest)), (1, .exec default)] ++
    Txn.attempt 2 (sampleMutation sampleAttachRequest) (sampleTicks 1 9) ++ [(1, .exec default), (1, .fail)]

/-- The race is one of the system. -/
theorem sampleRace_reached : ∃ S S' : System, Txn.Steps Call.code (Admitted samplePlugin) (System.initial ⟨0, 0⟩) S ∧
    Txn.Steps Call.code (Admitted samplePlugin) S S' ∧ S.threads 1 = .idle ∧
    S'.threads 1 = .failed (sampleMutation sampleAttachRequest) (.domain .operationInProgress) ∧
    S.db.command (sampleMutation sampleAttachRequest).key = none ∧
    (sampleMutation sampleAttachRequest).op.verdict S.db.toFacts = .accept ∧ S'.commits.length = 2 := by
  have hrun : ((System.initial ⟨0, 0⟩).schedule Call.code 3
      (Txn.attempt 0 (sampleMutation sampleCreateRequest) (sampleTicks 1 6))).bind (fun S =>
        (S.schedule Call.code 3 sampleRace).map fun S' => (decide (sampleFailure S 1 = some none),
          decide (sampleFailure S' 1 = some (some (sampleMutation sampleAttachRequest, .domain .operationInProgress))),
          (S.db.command (sampleMutation sampleAttachRequest).key).isNone,
          (sampleMutation sampleAttachRequest).op.verdict S.db.toFacts, S'.commits.length)) =
      some (true, true, true, .accept, 2) := by
    decide +kernel
  have hattach : Admitted samplePlugin (sampleMutation sampleAttachRequest) := admitted_sample (by decide +kernel)
  have hexec : ∀ {t : Tick} {c : Call}, Txn.Move.exec t = .start c → Admitted samplePlugin c := nofun
  have hfail : ∀ {c : Call}, (Txn.Move.fail : Txn.Move Tick Call) = .start c → Admitted samplePlugin c := nofun
  have hrace : ∀ x ∈ sampleRace, ∀ c, x.2 = .start c → Admitted samplePlugin c := by
    intro x hx c hc
    rcases List.mem_append.mp hx with hx | hx
    · rcases List.mem_append.mp hx with hx | hx
      · rcases List.mem_pair.mp hx with rfl | rfl
        · exact (Txn.Move.start.inj hc) ▸ hattach
        · exact hexec hc
      · exact Txn.starts_attempt hattach x hx c hc
    · rcases List.mem_pair.mp hx with rfl | rfl
      · exact hexec hc
      · exact hfail hc
  obtain ⟨S, S', h, h', hfacts⟩ := @System.scheduled (Admitted samplePlugin) _ _ _ _ _ _ _ hrun (by decide +kernel)
    (Txn.starts_append (Txn.starts_attempt (admitted_sample (by decide +kernel))) hrace)
  simp only [Prod.mk.injEq, decide_eq_true_eq] at hfacts
  obtain ⟨hidle, hfailed, hnone, hverdict, hcommits⟩ := hfacts
  exact ⟨S, S', h, h', idle_of_sampleFailure hidle, failed_of_sampleFailure hfailed, Option.isNone_iff_eq_none.mp hnone,
    hverdict, hcommits⟩

section
variable {plugin : ProjectPortfolioPlugin} {w : Sequences} {S S' : System} {i : ℕ}

/-- Steps that do not touch an operation leave the plan's consent to it. -/
theorem consent_of_untouched {P P₁ Q : Plan} {actor : String} {op : Op} {ls : List (String × Op × Record)}
    (hrun : Trace.Run Plan.Commits P ls P₁) (hls : ∀ l ∈ ls, ¬ l.2.1.Touches op) (h : P.step actor op = .ok Q) :
    ∃ Q', P₁.step actor op = .ok Q' := by
  have hkept : P₁ op.organizationId op.initiativeId = P op.organizationId op.initiativeId ∧
      ∀ o u, op.reportId = some (o, u) → P₁.Reported o u → P.Reported o u := by
    refine hrun.invariant (I := fun P' : Plan =>
      P' op.organizationId op.initiativeId = P op.organizationId op.initiativeId ∧
      ∀ o u, op.reportId = some (o, u) → P'.Reported o u → P.Reported o u) ?_ ⟨rfl, fun _ _ _ => id⟩
    rintro P' l P'' hl ⟨hstep, -⟩ ⟨hx, hreported⟩
    have huntouched := hls l hl
    refine ⟨(Plan.step_elsewhere hstep fun hon => huntouched (Or.inl hon)).trans hx, fun o u hid hu => ?_⟩
    rcases Plan.step_reported hstep hu with hu | hu
    · exact hreported o u hid hu
    · refine (huntouched (Or.inr ⟨?_, hu.trans hid.symm⟩)).elim
      rw [hid]
      exact Option.some_ne_none _
  exact Plan.step_congr hkept.1 hkept.2 h

/-- **A refusal has a cause.** An attempt of an operation that the plan consents to when it begins, and that has no
receipt then, fails with a domain failure only if in between a fresh commit had its key, or touched the operation: was
on its initiative, or made a report of the same id. -/
theorem refusal_has_cause {c : Call} {failure : DomainFailure} {P Q : Plan} (hconf : plugin.Configured)
    (h : Txn.Steps Call.code (Admitted plugin) (System.initial w) S)
    (h' : Txn.Steps Call.code (Admitted plugin) S S') (hi : S.threads i = .idle)
    (hfailed : S'.threads i = .failed c (.domain failure)) (hP : S.db.Depicts P) (hnone : S.db.command c.key = none)
    (hconsent : P.step c.command.actor c.op = .ok Q) :
    ∃ cs, S'.commits = S.commits ++ cs ∧ ∃ x ∈ cs, Committed.Fresh x ∧
      (x.call.key = c.key ∨ x.call.op.Touches c.op) := by
  have hprobed : ∀ c, Admitted plugin c → c.code.Probed := fun c _ => c.probed
  obtain ⟨S₁, h1, h2, t, ticks, β, st, k, log, held, hactive, hthrow⟩ :=
    Steps.thrown (c := c) (e := .domain failure) hprobed h' hi (by rw [hfailed]; exact ⟨rfl, rfl⟩)
  obtain ⟨cs, P₁, hcs, hrun, hP₁⟩ := plans_of_steps h h1 hP
  obtain ⟨ds, hds, -⟩ := later_history (h.trans h1) h2
  have hends := endsWith_of_exec hconf (h.trans h1) hactive hthrow
  refine ⟨cs ++ ds, by rw [hds, hcs, List.append_assoc], ?_⟩
  suffices hcause : ∃ x ∈ cs, Committed.Fresh x ∧ (x.call.key = c.key ∨ x.call.op.Touches c.op) by
    obtain ⟨x, hx, hcause⟩ := hcause
    exact ⟨x, List.mem_append_left _ hx, hcause⟩
  cases hrow : S₁.db.command c.key with
  | some row =>
    -- the receipt is that of a commit since
    have hreceipts := receipts_of_history (reachable_inv (h.trans h1)).chain
    rw [hcs] at hreceipts
    obtain ⟨x, hx, hfresh, hkey⟩ :=
      (receipts_of_history (reachable_inv h).chain).issued_since hreceipts hnone hrow
    exact ⟨x, hx, hfresh, Or.inl hkey⟩
  | none =>
    by_contra hnocause
    have hsays := says_of_decided hP₁ (hends.decided hrow)
    have huntouched : ∀ l ∈ cs.filterMap Committed.label, ¬ l.2.1.Touches c.op := by
      intro l hl htouches
      obtain ⟨x, hx, hlabel⟩ := List.mem_filterMap.mp hl
      unfold Committed.label at hlabel
      split at hlabel
      · rename_i hfresh
        obtain rfl := Option.some.inj hlabel
        exact hnocause ⟨x, hx, hfresh, Or.inr htouches⟩
      · cases hlabel
    obtain ⟨Q', hstep⟩ := consent_of_untouched hrun huntouched hconsent
    have hrefused : P₁.step c.command.actor c.op = .error failure := hsays
    rw [hstep] at hrefused
    cases hrefused

end

/-- The plan consents to the attach of the race before it; the cause of its refusal is the other attempt's commit. -/
theorem refusal_has_cause_race : ∃ (S S' : System) (x : Committed), S.threads 1 = .idle ∧
    S'.threads 1 = .failed (sampleMutation sampleAttachRequest) (.domain .operationInProgress) ∧ x ∈ S'.commits ∧
    Committed.Fresh x ∧ (x.call.key = (sampleMutation sampleAttachRequest).key ∨
      x.call.op.Touches (sampleMutation sampleAttachRequest).op) := by
  obtain ⟨S, S', h, h', hidle, hfailed, hnone, hverdict, -⟩ := sampleRace_reached
  obtain ⟨P, -, hP⟩ := History.follows (reachable_inv h).chain depicts_empty
  have hagrees := verdict_agrees hP (sampleMutation sampleAttachRequest).command.actor
    (sampleMutation sampleAttachRequest).op
  rw [hverdict] at hagrees
  obtain ⟨Q, hconsent⟩ := hagrees
  obtain ⟨cs, hcs, x, hx, hcause⟩ :=
    refusal_has_cause ⟨by decide +kernel, by decide +kernel⟩ h h' hidle hfailed hP hnone hconsent
  exact ⟨S, S', x, hidle, hfailed, hcs ▸ List.mem_append_right _ hx, hcause⟩

end Portfolio
