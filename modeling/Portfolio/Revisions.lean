/-
# The initiative revision

The revision of an initiative is 1 when it is created and grows by 1 with
each fresh success on it, with nothing else: so it is a version of all there
is of the initiative, in the sense of `Versioned`, and two moments of a run
at which it is the same have the same row, memberships and updates.

Key theorems: `version_step`, `about_of_revision`,
`revision_determines_content`.
-/
import Portfolio.History
import Portfolio.Versioned
import Mathlib.Order.ConditionallyCompleteLattice.Basic
import Mathlib.Data.Int.ConditionallyCompleteOrder

namespace Portfolio

open Txn

/-- The revision as a version: 0 for an initiative that is not there. -/
def Facts.version (F : Facts) (o i : String) : ℤ := (F.revision o i).getD 0

theorem lt_nextRevision (n : Option ℤ) : n.getD 0 < nextRevision n := by
  cases n with
  | none => exact Int.one_pos
  | some n => exact Int.lt_succ n

/-- What a commit does to the revision of an initiative, and what it reports. -/
theorem revision_of_commit {x : Committed} (h : Outcome x.call x.before x.result x.after) {o i : String}
    (hx : x.Fresh ∧ x.call.op.On o i) :
    x.after.revision o i = some (nextRevision (x.before.revision o i)) ∧
      x.result.revision = some (toString (nextRevision (x.before.revision o i))) := by
  obtain ⟨hf, rfl, rfl⟩ := hx
  exact (fresh_of_fresh h hf).revision

/-- A commit leaves an initiative as it is or raises its revision. -/
theorem version_step {x : Committed} (h : Outcome x.call x.before x.result x.after) (o i : String) :
    Versioned.Step (fun T : Tables => T.version o i) (fun T : Tables => T.about o i) x.before x.after := by
  by_cases hx : x.Fresh ∧ x.call.op.On o i
  · refine Or.inr ?_
    simp only [Facts.version, (revision_of_commit h hx).1]
    exact lt_nextRevision _
  · have habout := about_of_commit h hx
    refine Or.inl ⟨?_, habout⟩
    simp only [Facts.version, revision_of_about habout]

/-- The steps of a history, for one initiative. -/
theorem version_path {T T' : Tables} {cs : List Committed} (h : History T cs T') (o i : String) :
    Relation.ReflTransGen (Versioned.Step (fun T : Tables => T.version o i) fun T : Tables => T.about o i)
      T T' :=
  h.path Call.code fun _ hx => version_step (outcome_of_mem h hx) o i

/-- In a history the revision determines all there is of the initiative. -/
theorem about_of_revision {T T' : Tables} {cs : List Committed} (h : History T cs T') {o i : String}
    (hr : T'.revision o i = T.revision o i) : T'.about o i = T.about o i := by
  refine Versioned.run_eq (version_path h o i) ?_
  rw [Facts.version, Facts.version, hr]

/-- **The initiative revision determines the initiative's content.** A commit changes an initiative
as a fresh success on it only, which makes the revision 1 if it creates it and one more otherwise,
and reports it; whenever the revision is the same at two moments, so are the row, the memberships
and the updates; and a later fresh success that asked for the revision acted on just that state. -/
theorem revision_determines_content {ok : Call → Prop} {w : Sequences} {S S' : System}
    (h : Txn.Steps Call.code ok (System.initial w) S) (h' : Txn.Steps Call.code ok S S') (o i : String) :
    (∀ x ∈ S.commits, Committed.Fresh x ∧ x.call.op.On o i →
      x.after.revision o i = some (match x.before.revision o i with
        | none => 1
        | some n => n + 1) ∧
      x.result.revision = (x.after.revision o i).map toString) ∧
    (∀ x ∈ S.commits, ¬ (Committed.Fresh x ∧ x.call.op.On o i) →
      x.after.about o i = x.before.about o i ∧ x.after.revision o i = x.before.revision o i) ∧
    (∀ row row', S.db.initiative o i = some row → S'.db.initiative o i = some row' →
      row'.revision = row.revision →
        row' = row ∧ S'.db.projectsOf o i = S.db.projectsOf o i ∧ S'.db.updatesOf o i = S.db.updatesOf o i) ∧
    (∀ cs, S'.commits = S.commits ++ cs → ∀ x ∈ cs, Committed.Fresh x → x.call.op.On o i → ∀ n,
      x.call.op.expected = some n → S.db.revision o i = some n → x.before.about o i = S.db.about o i) := by
  have hist := (reachable_inv h).chain
  obtain ⟨cs, hcs, hlater⟩ := later_history h h'
  refine ⟨fun x hx hf => ?_, fun x hx hf => ?_, fun row row' hrow hrow' hr => ?_,
    fun cs' hcs' x hx hf hon n hn hrev => ?_⟩
  · obtain ⟨hrev, hrec⟩ := revision_of_commit (outcome_of_mem hist hx) hf
    rw [hrec, hrev]
    cases x.before.revision o i <;> exact ⟨rfl, rfl⟩
  · have habout := about_of_commit (outcome_of_mem hist hx) hf
    exact ⟨habout, revision_of_about habout⟩
  · have hrev : S'.db.revision o i = S.db.revision o i := by
      rw [Facts.revision, Facts.revision, hrow, hrow', Option.map_some, Option.map_some, hr]
    have habout := about_of_revision hlater hrev
    have hinit := initiative_of_about habout
    rw [hrow, hrow'] at hinit
    exact ⟨Option.some.inj hinit, (about_eq_iff.mp habout).2.1, (about_eq_iff.mp habout).2.2⟩
  · obtain rfl : cs = cs' := List.append_cancel_left (hcs.symm.trans hcs')
    obtain ⟨rfl, rfl⟩ := hon
    obtain ⟨before, after, rfl⟩ := List.append_of_mem hx
    refine about_of_revision (hlater.around Call.code).1 ?_
    rw [hrev, (fresh_of_fresh (outcome_of_mem hlater hx) hf).expected hn]

/-- An initiative is created, and archived by one who has seen revision 1. -/
theorem revision_determines_content_archived : ∃ S S' : System,
    S.db.revision "acme" "alpha" = some 1 ∧ S'.db.revision "acme" "alpha" = some 2 ∧
    ∃ x, S'.commits = S.commits ++ [x] ∧ x.call = sampleArchive "alpha" 1 ∧
      x.before.about "acme" "alpha" = S.db.about "acme" "alpha" := by
  have hrun : ((System.initial ⟨0, 0⟩).schedule Call.code 2
      (Txn.attempt 0 (sampleCreate "alpha") (sampleTicks 1 6))).bind (fun S => (S.schedule Call.code 2
      (Txn.attempt 1 (sampleArchive "alpha" 1) (sampleTicks 1 5))).map fun S' =>
        (S.db.revision "acme" "alpha", S'.db.revision "acme" "alpha",
          (S'.commits.drop S.commits.length).map fun x => (x.call, decide (Committed.Fresh x)))) =
      some (some 1, some 2, [(sampleArchive "alpha" 1, true)]) := by decide +kernel
  obtain ⟨S, S', h, h', hfacts⟩ := @System.scheduled (fun _ => True) _ _ _ _ _ _ _ hrun (by decide)
    fun _ _ _ _ => trivial
  obtain ⟨hrev, hfacts⟩ := Prod.mk.inj hfacts
  obtain ⟨hrev', hlast⟩ := Prod.mk.inj hfacts
  obtain ⟨cs, hcs, -⟩ := later_history h h'
  rw [hcs, List.drop_left] at hlast
  obtain ⟨x, rfl, hx⟩ := List.map_eq_singleton_iff.mp hlast
  obtain ⟨hcall, hfresh⟩ := Prod.mk.inj hx
  obtain ⟨-, -, -, hread⟩ := revision_determines_content h h' "acme" "alpha"
  refine ⟨S, S', hrev, hrev', x, hcs, hcall, ?_⟩
  exact hread [x] hcs x List.mem_cons_self (of_decide_eq_true hfresh) (hcall ▸ ⟨rfl, rfl⟩) 1 (hcall ▸ rfl) hrev

end Portfolio
