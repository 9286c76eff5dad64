/-
# Initiatives go by their own operations

An operation the plan accepts makes of its initiative what the initiative
decides (`Op.becomes`), and leaves the others as they are. So an initiative is
what the fresh commits on it have made of it one after another, and two runs with
the same operations on it, in the same order, have the same initiative and have
answered the same, whatever else went on in either.

Key definitions: `Initiative.Takes`, `ownCommits`.
Key theorems: `Plan.Commits.takes`, `initiatives_go_by_their_own`.
-/
import Portfolio.Refinement

namespace Portfolio

open Txn

/-! ### The runs of an initiative -/

/-- The initiative of these ids, or none, takes an operation on it and answers the record. -/
def Initiative.Takes (o i : String) (y : Option Initiative) (l : String × Op × Record)
    (y' : Option Initiative) : Prop :=
  l.2.1.becomes l.1 y = y' ∧ ∃ x, y' = some x ∧ x.answer o i l.2.1 = some l.2.2.timeless

/-- The label, if it is of an operation on the initiative. -/
def ownLabel (o i : String) (l : String × Op × Record) : Option (String × Op × Record) :=
  if l.2.1.On o i then some l else none

/-- A step of the plan is one of the initiative it is on. -/
theorem Plan.Commits.takes {P P' : Plan} {l : String × Op × Record} {o i : String} (h : P.Commits l P') :
    (ownLabel o i l = none ∧ P' o i = P o i) ∨
      ∃ m, ownLabel o i l = some m ∧ Initiative.Takes o i (P o i) m (P' o i) := by
  obtain ⟨hstep, x, hx, hanswer⟩ := h
  obtain ⟨x', hbecomes, hset⟩ := Plan.step_becomes hstep
  by_cases hon : l.2.1.On o i
  · refine .inr ⟨l, if_pos hon, ?_⟩
    obtain ⟨rfl, rfl⟩ := hon
    have hx' : P' l.2.1.organizationId l.2.1.initiativeId = some x' := hset ▸ Plan.set_self
    exact ⟨hbecomes.trans hx'.symm, x, hx, hanswer⟩
  · exact .inl ⟨if_neg hon, Plan.step_elsewhere hstep hon⟩

/-- What an initiative takes decides what it becomes and what it answers. -/
theorem Initiative.Takes.determined {o i : String} {y z z' : Option Initiative} {l l' : String × Op × Record}
    (h : Initiative.Takes o i y l z) (h' : Initiative.Takes o i y l' z') (hl : (l.1, l.2.1) = (l'.1, l'.2.1)) :
    z = z' ∧ l.2.2.timeless = l'.2.2.timeless := by
  obtain ⟨hactor, hop⟩ := Prod.mk.inj hl
  obtain ⟨hbecomes, x, rfl, hanswer⟩ := h
  obtain ⟨hbecomes', x', rfl, hanswer'⟩ := h'
  rw [hactor, hop, hbecomes'] at hbecomes
  obtain rfl := Option.some.inj hbecomes
  rw [hop, hanswer'] at hanswer
  exact ⟨rfl, (Option.some.inj hanswer).symm⟩

/-- The fresh commits on the initiative, with who asked for each and what was answered. -/
def ownCommits (o i : String) (S : System) : List (String × Op × Record) :=
  (S.commits.filterMap Committed.label).filterMap (ownLabel o i)

/-- An initiative is what its own commits have made of it. -/
theorem takes_of_reachable {ok : Call → Prop} {w : Sequences} {S : System} {P : Plan} {o i : String}
    (h : Txn.Steps Call.code ok (System.initial w) S) (hP : S.db.Depicts P) :
    Trace.Run (Initiative.Takes o i) none (ownCommits o i S) (P o i) := by
  obtain ⟨P', hrun, hP'⟩ := History.follows (reachable_inv h).chain depicts_empty
  obtain rfl := depicts_unique hP hP'
  have hstep : ∀ {P : Plan} {l : String × Op × Record} {P' : Plan} {y : Option Initiative}, P.Commits l P' →
      P o i = y → (ownLabel o i l = none ∧ P' o i = y) ∨
        ∃ m y', ownLabel o i l = some m ∧ Initiative.Takes o i y m y' ∧ P' o i = y' := by
    rintro P l P' y hcommits rfl
    rcases hcommits.takes with hnone | ⟨m, hm, htakes⟩
    · exact .inl hnone
    · exact .inr ⟨m, _, hm, htakes, rfl⟩
  obtain ⟨y, hown, hy⟩ := hrun.simulate (R := fun (P : Plan) y => P o i = y)
    (fun hcommits hR => hstep hcommits hR) rfl
  rwa [hy]

/-- **Initiatives go by their own operations.** In two runs of the system, whatever attempts there are in either,
if the fresh commits on an initiative are of the same operations, asked by the same actors in the same order, the
tables depict the same initiative, and each of these commits has answered the same, but for the times and the
numbers the server gives. -/
theorem initiatives_go_by_their_own {ok ok' : Call → Prop} {w w' : Sequences} {S S' : System} {P P' : Plan}
    {o i : String} (h : Txn.Steps Call.code ok (System.initial w) S)
    (h' : Txn.Steps Call.code ok' (System.initial w') S') (hP : S.db.Depicts P) (hP' : S'.db.Depicts P')
    (hsame : (ownCommits o i S).map (fun l => (l.1, l.2.1)) = (ownCommits o i S').map fun l => (l.1, l.2.1)) :
    P o i = P' o i ∧
      (ownCommits o i S).map (fun l => l.2.2.timeless) = (ownCommits o i S').map fun l => l.2.2.timeless :=
  Trace.Run.determined (fun htakes htakes' hl => htakes.determined htakes' hl) (takes_of_reachable h hP)
    (takes_of_reachable h' hP') hsame

/-- The operations on `alpha` in two runs. -/
def sampleOwn : List (String × Op) :=
  [("ann", (sampleCreate "alpha").op), ("ann", (sampleAttach "alpha" "site" "site" 1 10 0).op)]

/-- In one of two runs another initiative is made between the operations on `alpha`: it is the same in both. -/
theorem initiatives_go_by_their_own_besides : ∃ (S S' : System) (P P' : Plan),
    S.commits.length = 2 ∧ S'.commits.length = 3 ∧ S.db.Depicts P ∧ S'.db.Depicts P' ∧
    (P "acme" "alpha").map (·.revision) = some 2 ∧ P "acme" "alpha" = P' "acme" "alpha" := by
  have hrun : ((System.initial ⟨0, 0⟩).schedule Call.code 2 sampleMembers).bind (fun S =>
      (S.schedule Call.code 2 []).map fun S' => (S'.commits.length, S'.db.revision "acme" "alpha",
        (ownCommits "acme" "alpha" S').map fun l => (l.1, l.2.1))) = some (2, some 2, sampleOwn) := by decide +kernel
  have hrun' : ((System.initial ⟨0, 0⟩).schedule Call.code 3
      (Txn.attempt 0 (sampleCreate "alpha") (sampleTicks 1 6))).bind (fun S => (S.schedule Call.code 3
        (Txn.attempt 2 (sampleCreate "beta") (sampleTicks 2 6) ++
          Txn.attempt 1 (sampleAttach "alpha" "site" "site" 1 10 0) (sampleTicks 2 9))).map fun S' =>
        (S'.commits.length, (ownCommits "acme" "alpha" S').map fun l => (l.1, l.2.1))) = some (3, sampleOwn) := by
    decide +kernel
  obtain ⟨S₀, S, h₀, h, hfacts⟩ := @System.scheduled (fun _ => True) _ _ _ _ _ _ _ hrun (by decide)
    fun _ _ _ _ => trivial
  obtain ⟨S₁, S', h₁, h', hfacts'⟩ := @System.scheduled (fun _ => True) _ _ _ _ _ _ _ hrun' (by decide)
    fun _ _ _ _ => trivial
  obtain ⟨hlength, hfacts⟩ := Prod.mk.inj hfacts
  obtain ⟨hrevision, hown⟩ := Prod.mk.inj hfacts
  obtain ⟨hlength', hown'⟩ := Prod.mk.inj hfacts'
  obtain ⟨P, -, hP⟩ := History.follows (reachable_inv (h₀.trans h)).chain depicts_empty
  obtain ⟨P', -, hP'⟩ := History.follows (reachable_inv (h₁.trans h')).chain depicts_empty
  exact ⟨S, S', P, P', hlength, hlength', hP, hP', (hP "acme" "alpha").shown.1.trans hrevision,
    (initiatives_go_by_their_own (h₀.trans h) (h₁.trans h') hP hP' (hown.trans hown'.symm)).1⟩

end Portfolio
