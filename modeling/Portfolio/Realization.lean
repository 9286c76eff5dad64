/-
# What a plan may do, the system can do

The refinement says that the system does nothing a plan does not. Here is the other
half: from every state it reaches in which no attempt is open, the system can take
whatever steps the plan may take from there, one call after another on a server that
is there, so nothing that is consented to is out of its reach. What a plan says
nothing about is asked for besides: dates that the tables hold, instants that have a
text, and draws that the sequences have left.

Key definitions: `Plan.Accepts`, `Op.Showable`.
Key theorems: `takes_step`, `plans_are_realized`.
-/
import Portfolio.Refinement
import Portfolio.Liveness
import Portfolio.Txn.Solo

namespace Portfolio

open Txn

/-- The plan takes the step the call asks for. -/
def Plan.Accepts (P : Plan) (c : Call) (P' : Plan) : Prop := P.step c.command.actor c.op = .ok P'

/-- The dates of the operation are stored, and the instant it was observed at has a text. -/
def Op.Showable (op : Op) : Prop := op.Storable ∧ ∀ v, op.observedAt = some v → (formatTimestamp v).isSome = true

/-- While all initiatives are dated by instants with texts, what is showable is answered with its texts. -/
theorem Op.Showable.timely {op : Op} {F : Facts} (h : op.Showable) (hF : F.Dated) : op.Timely Tick.Healthy F := by
  have hprinted : ∀ t : Tick, t.Healthy → Printable t.timestamps := fun _ ht => ht.2
  cases op with
  | createInitiative | addUpdate | archiveInitiative => exact hprinted
  | updateInitiative => exact ⟨hprinted, fun row hrow => hF row (initiative_mem hrow).1⟩
  | attachProject | updateProjectSnapshot => exact h.2 _ rfl
  | detachProject | reorderProjects => trivial

section
variable {plugin : ProjectPortfolioPlugin} {w : Sequences} {S : System} {P P' : Plan}

/-- **A step that the plan accepts, the system can take**: its call commits afresh where it runs alone. -/
theorem takes_step {c : Call} {m : ℕ} (hconf : plugin.Configured)
    (h : Txn.Steps Call.code (Admitted plugin) (System.initial w) S) (hclosed : ∀ i, ¬ (S.threads i).Open)
    (hclock : S.Clocked) (hP : S.db.Depicts P) (hc : Admitted plugin c) (hshow : c.op.Showable)
    (hnone : S.db.command c.key = none) (haccepts : P.Accepts c P') (hm : Supply (m + c.op.statements) S.world) :
    ∃ (S' : System) (x : Committed), Txn.Steps Call.code (Admitted plugin) S S' ∧ S'.commits = S.commits ++ [x] ∧
      x.call = c ∧ Committed.Fresh x ∧ S'.db.Depicts P' ∧ (∀ i, ¬ (S'.threads i).Open) ∧ S'.Clocked ∧
          Supply m S'.world := by
  have hchain := (reachable_inv h).chain
  obtain ⟨n, hn⟩ := h.below
  obtain ⟨t, ht, hends⟩ := commits_alone (fun _ _ => Supply.less) ⟨drawing 0, healthy_drawing 0⟩ hclosed
    (hn n (Nat.le_refl n)) hc c.within c.supplied hm
  -- alone, the call does what it does in one piece
  have htimely := hshow.timely (dated_of_history hchain hclock)
  obtain ⟨r, T, hatomic, -⟩ := accepted_of_plan hconf h hP hc hnone haccepts hshow.1 ht htimely
  obtain ⟨S', us, hsteps, hworld, hus, hclosed', hcommits⟩ := hends r (congrArg Prod.fst hatomic)
  have hchain' := (reachable_inv (h.trans hsteps)).chain
  have hx : (⟨n, c, us, S.db, S'.db, r⟩ : Committed) ∈ S'.commits := by
    rw [hcommits]
    exact List.mem_append_right _ (List.mem_singleton_self _)
  obtain ⟨P₁, ⟨hstep, -⟩, hP₁⟩ := (fresh_of_fresh (outcome_of_mem hchain' hx) hnone).step hP
  obtain rfl : P₁ = P' := Except.ok.inj (hstep.symm.trans haccepts)
  refine ⟨S', _, hsteps, hcommits, rfl, hnone, hP₁, hclosed', fun y hy => ?_, hworld⟩
  rw [hcommits] at hy
  rcases List.mem_append.mp hy with hy | hy
  · exact hclock y hy
  · rw [List.mem_singleton.mp hy]
    exact fun u hu => (hus u hu).2

/-- **What a plan may do, the system can do.** From every state it reaches in which no attempt is open, and whose
commits a clock with texts has dated, it can take whatever steps the plan of that state may take: there is a run in
which the calls commit, afresh and in their order, and after which the tables depict the plan they make. -/
theorem plans_are_realized {cs : List Call} {m : ℕ} (hconf : plugin.Configured)
    (h : Txn.Steps Call.code (Admitted plugin) (System.initial w) S) (hclosed : ∀ i, ¬ (S.threads i).Open)
    (hclock : S.Clocked) (hP : S.db.Depicts P) (hrun : Trace.Run Plan.Accepts P cs P')
    (hcs : ∀ c ∈ cs, Admitted plugin c ∧ c.op.Showable ∧ S.db.command c.key = none) (hkeys : (cs.map Call.key).Nodup)
    (hsupply : Supply (m + (cs.map fun c => c.op.statements).sum) S.world) :
    ∃ (S' : System) (xs : List Committed), Txn.Steps Call.code (Admitted plugin) S S' ∧ S'.commits = S.commits ++ xs ∧
      xs.map (fun x => x.call) = cs ∧ (∀ x ∈ xs, Committed.Fresh x) ∧ S'.db.Depicts P' ∧
      (∀ i, ¬ (S'.threads i).Open) ∧ S'.Clocked ∧ Supply m S'.world := by
  induction hrun generalizing m with
  | nil =>
    rw [List.map_nil, List.sum_nil, Nat.add_zero] at hsupply
    exact ⟨S, [], .refl, (List.append_nil _).symm, rfl, fun _ hx => (List.not_mem_nil hx).elim, hP, hclosed, hclock,
      hsupply⟩
  | @snoc P₁ P₂ cs c hrun haccepts ih =>
    rw [List.map_append, List.nodup_append] at hkeys
    obtain ⟨hkeys, -, hfresh⟩ := hkeys
    rw [List.map_append, List.sum_append, List.map_singleton, List.sum_singleton, ← Nat.add_assoc,
      Nat.add_right_comm] at hsupply
    obtain ⟨S₁, xs, hsteps, hcommits, hcalls, hxs, hP₁, hclosed₁, hclock₁, hsupply₁⟩ :=
      ih (fun d hd => hcs d (List.mem_append_left _ hd)) hkeys hsupply
    obtain ⟨hc, hshow, hnone⟩ := hcs c (List.mem_append_right _ (List.mem_singleton_self c))
    -- a receipt of its key would be that of one of them, but their keys are others
    have hnone₁ : S₁.db.command c.key = none := by
      by_contra hsome
      obtain ⟨row, hrow⟩ := Option.ne_none_iff_exists'.mp hsome
      have hreceipts := receipts_of_history (reachable_inv (h.trans hsteps)).chain
      rw [hcommits] at hreceipts
      obtain ⟨x, hx, -, hkey⟩ :=
        (receipts_of_history (reachable_inv h).chain).issued_since hreceipts hnone hrow
      refine hfresh c.key ?_ c.key (List.mem_singleton_self _) rfl
      rw [← hcalls, List.map_map, ← hkey]
      exact List.mem_map_of_mem hx
    obtain ⟨S₂, x, hsteps₂, hcommits₂, hx, hxFresh, hP₂, hclosed₂, hclock₂, hsupply₂⟩ :=
      takes_step hconf (h.trans hsteps) hclosed₁ hclock₁ hP₁ hc hshow hnone₁ haccepts hsupply₁
    refine ⟨S₂, xs ++ [x], hsteps.trans hsteps₂, ?_, ?_, ?_, hP₂, hclosed₂, hclock₂, hsupply₂⟩
    · rw [hcommits₂, hcommits, List.append_assoc]
    · rw [List.map_append, List.map_singleton, hcalls, hx]
    · exact List.forall_mem_append.mpr ⟨hxs, List.forall_mem_singleton.mpr hxFresh⟩

end

/-- A plan that makes an initiative and attaches a project to it: the system can do both. -/
theorem plans_are_realized_attached : ∃ S : System,
    Txn.Steps Call.code (Admitted samplePlugin) (System.initial ⟨0, 0⟩) S ∧
    S.commits.map (fun x => x.call) = [sampleMutation sampleCreateRequest, sampleMutation sampleAttachRequest] ∧
    (∀ x ∈ S.commits, Committed.Fresh x) ∧ S.db.revision "acme" "alpha" = some 2 := by
  have hplan : ((Plan.empty.step (sampleMutation sampleCreateRequest).command.actor
      (sampleMutation sampleCreateRequest).op).toOption.bind fun P => ((P.step
        (sampleMutation sampleAttachRequest).command.actor (sampleMutation sampleAttachRequest).op).toOption.map
          fun Q => (Q "acme" "alpha").map (·.revision))) = some (some 2) := by decide +kernel
  obtain ⟨P, hP, hplan⟩ := Option.bind_eq_some_iff.mp hplan
  obtain ⟨Q, hQ, hrevision⟩ := Option.map_eq_some_iff.mp hplan
  have hrun : Trace.Run Plan.Accepts Plan.empty
      [sampleMutation sampleCreateRequest, sampleMutation sampleAttachRequest] Q :=
    ((Trace.Run.nil _).snoc (ok_of_toOption hP)).snoc (ok_of_toOption hQ)
  have hshow : ∀ {c : Call}, (datesFit c.op.dates.1 c.op.dates.2 && c.op.observedAt.all fun v =>
      (formatTimestamp v).isSome) = true → c.op.Showable := by
    intro c hc
    rwa [Bool.and_eq_true, Option.all_eq_true] at hc
  obtain ⟨S, xs, hsteps, hcommits, hcalls, hfresh, hdepicts, -⟩ := plans_are_realized (w := ⟨0, 0⟩) (m := 0)
    ⟨by decide +kernel, by decide +kernel⟩ .refl (fun _ => not_false) (fun _ hx => (List.not_mem_nil hx).elim)
    depicts_empty hrun
    (List.forall_mem_cons.mpr ⟨⟨admitted_sample (by decide +kernel), hshow (by decide +kernel), rfl⟩,
      List.forall_mem_singleton.mpr ⟨admitted_sample (by decide +kernel), hshow (by decide +kernel), rfl⟩⟩)
    (by decide +kernel) (by rw [Supply]; decide +kernel)
  obtain rfl : S.commits = xs := hcommits
  exact ⟨S, hsteps, hcalls, hfresh, (hdepicts "acme" "alpha").shown.1.symm.trans hrevision⟩

end Portfolio
