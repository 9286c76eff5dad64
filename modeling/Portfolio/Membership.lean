/-
# The membership revision

A membership starts at revision 1 when a project is attached; a refresh of its
snapshot and a reorder each raise the revision by one, and nothing else
touches the row. So while a project stays attached the membership revision is
a version of the row (`membership_step`). It is not one across a detach: an
attach starts again at 1.

Key definitions: `Op.detaches`, `Facts.membershipVersion`.
Key theorems: `Fresh.project`, `membership_step`, `membership_of_revision`,
`membership_revision_sound`.
-/
import Portfolio.Revisions
import Mathlib.Data.List.Find

namespace Portfolio

open Txn

/-- The operation detaches the project from the initiative. -/
def Op.Detaches (o i p : String) : Op → Prop
  | .detachProject o' i' p' _ _ => o' = o ∧ i' = i ∧ p' = p
  | _ => False

instance (o i p : String) (op : Op) : Decidable (op.Detaches o i p) := by
  cases op <;> unfold Op.Detaches <;> infer_instance

/-- The membership revision as a version: 0 for a project that is not attached. -/
def Facts.membershipVersion (F : Facts) (o i p : String) : ℤ :=
  ((F.project o i p).map (·.membershipRevision)).getD 0

section
variable {F F' : Facts} {o i p : String}

theorem project_of_about (h : F'.about o i = F.about o i) : F'.project o i p = F.project o i p := by
  rw [Facts.project, Facts.project, (about_eq_iff.mp h).2.1]

/-- An INSERT of another membership is not found. -/
theorem project_append_of_ne {row : ProjectRow} (h : ¬ (row.at o i = true ∧ row.projectId = p)) :
    Facts.project { F with projects := F.projects ++ [row] } o i p = F.project o i p := by
  rw [Facts.project, Facts.projectsOf, List.filter_append, List.find?_append]
  by_cases hat : row.at o i = true
  · have hne : ¬ row.projectId = p := fun he => h ⟨hat, he⟩
    rw [List.filter_cons_of_pos hat, List.filter_nil, List.find?_cons_of_neg (by simp [hne]), List.find?_nil,
      Option.or_none]
    rfl
  · rw [List.filter_cons_of_neg hat, List.filter_nil, List.find?_nil, Option.or_none]
    rfl

/-- A DELETE of another membership leaves it to be found. -/
theorem project_erase_of_ne {o' i' p' : String} (h : ¬ (o' = o ∧ i' = i ∧ p' = p)) :
    Facts.project { F with projects := Table.erase ProjectRow.key (o', i', p') F.projects } o i p =
      F.project o i p := by
  rw [Facts.project, Facts.projectsOf, Table.filter_erase, Table.erase, List.find?_filter]
  refine (List.find?_congr fun row hrow => ?_).trans rfl
  have hat := (mem_projectsOf.mp hrow).2
  by_cases hp : row.projectId = p
  · have hne : row.key ≠ (o', i', p') := by
      intro hk
      simp only [ProjectRow.key, Prod.mk.injEq] at hk
      exact h ⟨hk.1.symm.trans hat.1, hk.2.1.symm.trans hat.2, hk.2.2.symm.trans hp⟩
    simp [hne, hp]
  · simp [hp]

theorem project_reordered (items : List ReorderInput) :
    Facts.project { F with projects := F.projects.map (reordered o i items) } o i p =
      (F.project o i p).map (reordered o i items) := by
  rw [Facts.project, Facts.projectsOf, filter_reordered, List.find?_map]
  refine congrArg _ (List.find?_congr fun row _ => ?_)
  simp only [Function.comp_apply, reordered_projectId]

/-- A fresh success that does not detach the project leaves its membership as it is, or raises its
revision. -/
theorem Fresh.project {actor : String} {op : Op} {r : Record} (h : Fresh actor op F r F')
    (hd : ¬ op.Detaches o i p) :
    F'.project o i p = F.project o i p ∨ F.membershipVersion o i p < F'.membershipVersion o i p := by
  by_cases hon : op.On o i
  · obtain ⟨rfl, rfl⟩ := hon
    cases h with
    | createInitiative | updateInitiative | addUpdate | archiveInitiative => exact Or.inl rfl
    | @attachProject o i _ position s _ _ _ _ hrow hrev hnew =>
      by_cases hp : s.projectId = p
      · subst hp
        have hfound := @project_insert _ _ s.projectId _ (Sql.projectRow o i s position) hnew
          (by simp [ProjectRow.at, Sql.projectRow]) rfl
        have hold : Facts.membershipVersion F o i s.projectId = 0 := by
          rw [Facts.membershipVersion, hnew]; rfl
        have hnow : Facts.membershipVersion { F with projects := F.projects ++ [Sql.projectRow o i s position] }
            o i s.projectId = 1 := by
          rw [Facts.membershipVersion, hfound]; rfl
        refine Or.inr (lt_of_eq_of_lt hold (lt_of_lt_of_eq Int.one_pos hnow.symm))
      · exact Or.inl (project_append_of_ne fun he => hp he.2)
    | @updateProjectSnapshot o i _ s _ _ old _ _ hrow hold hrev =>
      by_cases hp : s.projectId = p
      · subst hp
        have hfound := @project_put o i _ (Sql.refreshed s old) old s.projectId hold rfl
        refine Or.inr ?_
        have h1 : Facts.membershipVersion F o i s.projectId = old.membershipRevision := by
          rw [Facts.membershipVersion, hold]; rfl
        have h2 : Facts.membershipVersion
            { F with projects := Table.put ProjectRow.key (Sql.refreshed s old) F.projects } o i s.projectId =
              old.membershipRevision + 1 := by
          rw [Facts.membershipVersion, hfound]; rfl
        exact lt_of_eq_of_lt h1 (lt_of_lt_of_eq (Int.lt_succ _) h2.symm)
      · refine Or.inl (project_put_of_ne fun he => hp ?_)
        exact (project_mem hold).2.2.2.symm.trans he
    | detachProject =>
      exact Or.inl (project_erase_of_ne hd)
    | @reorderProjects o i _ items _ _ _ hrow hrev hitems =>
      have hmap := @project_reordered F o i p items
      cases hold : F.project o i p with
      | none =>
        rw [hold] at hmap
        exact Or.inl (hmap.trans hold.symm)
      | some row =>
        obtain ⟨item, -, -, hplaced⟩ := reorder_item hitems (List.mem_of_find?_eq_some hold)
        rw [hold, Option.map_some, hplaced] at hmap
        have h1 : Facts.membershipVersion F o i p = row.membershipRevision := by
          rw [Facts.membershipVersion, hold]; rfl
        have h2 : Facts.membershipVersion { F with projects := F.projects.map (reordered o i items) } o i p =
            row.membershipRevision + 1 := by
          rw [Facts.membershipVersion, hmap]; rfl
        exact Or.inr (lt_of_eq_of_lt h1 (lt_of_lt_of_eq (Int.lt_succ _) h2.symm))
  · exact Or.inl (project_of_about (h.elsewhere hon))

end

/-- A commit that does not detach the project leaves the membership as it is, or raises its revision. -/
theorem membership_step {x : Committed} (h : Outcome x.call x.before x.result x.after) {o i p : String}
    (hd : ¬ (x.Fresh ∧ x.call.op.Detaches o i p)) :
    Versioned.Step (fun T : Tables => T.membershipVersion o i p) (fun T : Tables => T.project o i p)
      x.before x.after := by
  by_cases hf : x.Fresh
  · rcases (fresh_of_fresh h hf).project fun hdet => hd ⟨hf, hdet⟩ with heq | hlt
    · refine Or.inl ⟨?_, heq⟩
      simp only [Facts.membershipVersion, heq]
    · exact Or.inr hlt
  · rw [after_of_not_fresh h hf]
    exact Or.inl ⟨rfl, rfl⟩

theorem membership_path {T T' : Tables} {cs : List Committed} (h : History T cs T') {o i p : String}
    (hd : ∀ x ∈ cs, ¬ (Committed.Fresh x ∧ x.call.op.Detaches o i p)) :
    Relation.ReflTransGen (Versioned.Step (fun T : Tables => T.membershipVersion o i p)
      fun T : Tables => T.project o i p) T T' :=
  h.path Call.code fun x hx => membership_step (outcome_of_mem h hx) (hd x hx)

/-- While a project is not detached, its membership revision determines its membership. -/
theorem membership_of_revision {T T' : Tables} {cs : List Committed} (h : History T cs T') {o i p : String}
    (hd : ∀ x ∈ cs, ¬ (Committed.Fresh x ∧ x.call.op.Detaches o i p))
    (hv : T'.membershipVersion o i p = T.membershipVersion o i p) : T'.project o i p = T.project o i p :=
  Versioned.run_eq (membership_path h hd) hv

/-- At every moment between two at which the membership has the same revision it is the same. -/
theorem membership_between {T T' T'' : Tables} {cs ds : List Committed} (h : History T cs T')
    (h' : History T' ds T'') {o i p : String}
    (hd : ∀ x ∈ cs, ¬ (Committed.Fresh x ∧ x.call.op.Detaches o i p))
    (hd' : ∀ x ∈ ds, ¬ (Committed.Fresh x ∧ x.call.op.Detaches o i p))
    (hv : T''.membershipVersion o i p = T.membershipVersion o i p) : T'.project o i p = T.project o i p := by
  refine membership_of_revision h hd (le_antisymm ?_ (Versioned.run_le (membership_path h hd)))
  exact (Versioned.run_le (membership_path h' hd')).trans (le_of_eq hv)

/-- A fresh refresh finds the membership at the revision it expects. -/
theorem Fresh.refresh_expects {actor o i : String} {expected : ℤ} {s : ProjectSnapshot} {F F' : Facts}
    {r : Record} (h : Fresh actor (.updateProjectSnapshot o i expected s) F r F') :
    ∃ row, F.project o i s.projectId = some row ∧ row.membershipRevision = expected := by
  cases h with
  | updateProjectSnapshot hrow hold hrev => exact ⟨_, hold, hrev⟩

theorem membershipVersion_of_some {F : Facts} {o i p : String} {row : ProjectRow}
    (h : F.project o i p = some row) : F.membershipVersion o i p = row.membershipRevision := by
  rw [Facts.membershipVersion, h]
  rfl

/-- **The membership revision is a sound token while the project is not detached.** Between two
moments of a run with no committed detach of the project from the initiative, equal membership
revisions mean equal membership rows; and if a client has read the row at the first moment and a
refresh that expects its revision succeeds later, every commit in between, up to that refresh, has
left the membership as the client read it. -/
theorem membership_revision_sound {ok : Call → Prop} {w : Sequences} {S S' : System}
    (h : Txn.Steps Call.code ok (System.initial w) S) (h' : Txn.Steps Call.code ok S S')
    {cs : List Committed} (hcs : S'.commits = S.commits ++ cs) {o i p : String}
    (hd : ∀ x ∈ cs, ¬ (Committed.Fresh x ∧ x.call.op.Detaches o i p))
    {row : ProjectRow} (hrow : S.db.project o i p = some row) :
    (∀ row', S'.db.project o i p = some row' → row'.membershipRevision = row.membershipRevision → row' = row) ∧
    (∀ (before after : List Committed) (x : Committed) (s : ProjectSnapshot), cs = before ++ x :: after →
      x.Fresh → s.projectId = p → x.call.op = .updateProjectSnapshot o i row.membershipRevision s →
        (∀ y ∈ before, y.before.project o i p = some row ∧ y.after.project o i p = some row) ∧
        x.before.project o i p = some row) := by
  obtain ⟨cs', hcs', hist⟩ := later_history h h'
  obtain rfl : cs' = cs := List.append_cancel_left (hcs'.symm.trans hcs)
  refine ⟨fun row' hrow' hrev => ?_, fun before after x s hsplit hf hp hop => ?_⟩
  · have heq := membership_of_revision hist hd (by
      rw [membershipVersion_of_some hrow, membershipVersion_of_some hrow', hrev])
    rw [hrow, hrow'] at heq
    exact Option.some.inj heq
  · subst hsplit hp
    obtain ⟨hbefore, -⟩ := hist.around Call.code
    have hdb : ∀ y ∈ before, ¬ (Committed.Fresh y ∧ y.call.op.Detaches o i s.projectId) := fun y hy =>
      hd y (List.mem_append_left _ hy)
    have hx : x ∈ before ++ x :: after := List.mem_append_right _ List.mem_cons_self
    have hfresh := fresh_of_fresh (outcome_of_mem hist hx) hf
    rw [hop] at hfresh
    obtain ⟨found, hfound, hrev⟩ := hfresh.refresh_expects
    have hv : x.before.membershipVersion o i s.projectId = S.db.membershipVersion o i s.projectId := by
      rw [membershipVersion_of_some hrow, membershipVersion_of_some hfound, hrev]
    refine ⟨fun y hy => ?_, (membership_of_revision hbefore hdb hv).trans hrow⟩
    obtain ⟨l, m, rfl⟩ := List.append_of_mem hy
    obtain ⟨hl, hm⟩ := hbefore.around Call.code
    have hy1 : History y.before [y] y.after := hbefore.single Call.code hy
    have hdl : ∀ z ∈ l, ¬ (Committed.Fresh z ∧ z.call.op.Detaches o i s.projectId) := fun z hz =>
      hdb z (List.mem_append_left _ hz)
    have hdy : ∀ z ∈ [y], ¬ (Committed.Fresh z ∧ z.call.op.Detaches o i s.projectId) := fun z hz =>
      List.mem_singleton.mp hz ▸ hdb y hy
    have hdm : ∀ z ∈ m, ¬ (Committed.Fresh z ∧ z.call.op.Detaches o i s.projectId) := fun z hz =>
      hdb z (List.mem_append_right _ (List.mem_cons_of_mem _ hz))
    constructor
    · refine (membership_between hl (hy1.append Call.code hm) hdl (fun z hz => ?_) hv).trans hrow
      rcases List.mem_append.mp hz with hz | hz
      · exact hdy z hz
      · exact hdm z hz
    · refine (membership_between (hl.append Call.code hy1) hm (fun z hz => ?_) hdm hv).trans hrow
      rcases List.mem_append.mp hz with hz | hz
      · exact hdl z hz
      · exact hdy z hz

/-- A refresh by one who has read the membership at a revision. -/
def sampleRefresh (i p : String) (expected progress : ℤ) : Call :=
  ⟨⟨"planner", "ann", "refresh-" ++ p, []⟩, .updateProjectSnapshot "acme" i expected (sampleSnapshot p progress)⟩

def sampleDetach (i p : String) (expected expectedMembership : ℤ) : Call :=
  ⟨⟨"planner", "ann", "detach-" ++ p, []⟩, .detachProject "acme" i p expected expectedMembership⟩

/-- A project is attached. -/
def attached : List (ℕ × Txn.Move Tick Call) :=
  Txn.attempt 0 (sampleCreate "alpha") (sampleTicks 1 6) ++
    Txn.attempt 1 (sampleAttach "alpha" "site" "attach" 1 10 0) (sampleTicks 1 9)

/-- The snapshot is refreshed by the one who has read it: nothing was between. -/
theorem membership_revision_sound_refreshed : ∃ (S : System) (x : Committed) (row : ProjectRow),
    S.db.project "acme" "alpha" "site" = some row ∧ row.progress = 10 ∧
    x.call = sampleRefresh "alpha" "site" row.membershipRevision 20 ∧ x.Fresh ∧
    x.before.project "acme" "alpha" "site" = some row := by
  have hrun : ((System.initial ⟨0, 0⟩).schedule Call.code 3 attached).bind (fun S => (S.schedule Call.code 3
      (Txn.attempt 2 (sampleRefresh "alpha" "site" 1 20) (sampleTicks 1 8))).map fun S' =>
        ((S.db.project "acme" "alpha" "site").map fun r => (r.progress, r.membershipRevision),
          (S'.commits.drop S.commits.length).map fun x => (x.call, decide (Committed.Fresh x)))) =
      some (some (10, 1), [(sampleRefresh "alpha" "site" 1 20, true)]) := by decide +kernel
  obtain ⟨S, S', h, h', hfacts⟩ := @System.scheduled (fun _ => True) _ _ _ _ _ _ _ hrun (by decide)
    fun _ _ _ _ => trivial
  obtain ⟨hrow, hlast⟩ := Prod.mk.inj hfacts
  obtain ⟨row, hrow, hvalues⟩ := Option.map_eq_some_iff.mp hrow
  obtain ⟨hprogress, hrev⟩ := Prod.mk.inj hvalues
  obtain ⟨cs, hcs, -⟩ := later_history h h'
  rw [hcs, List.drop_left] at hlast
  obtain ⟨x, rfl, hx⟩ := List.map_eq_singleton_iff.mp hlast
  obtain ⟨hcall, hfresh⟩ := Prod.mk.inj hx
  have hd : ∀ y ∈ [x], ¬ (Committed.Fresh y ∧ y.call.op.Detaches "acme" "alpha" "site") := by
    rintro y hy ⟨-, hdet⟩
    rw [List.mem_singleton.mp hy, hcall] at hdet
    exact hdet
  have hsound := (membership_revision_sound h h' hcs hd hrow).2 [] [] x (sampleSnapshot "site" 20) rfl
    (of_decide_eq_true hfresh) rfl (by rw [hcall, hrev]; rfl)
  exact ⟨S, x, row, hrow, hprogress, by rw [hcall, hrev], of_decide_eq_true hfresh, hsound.2⟩

/-- A detach and another attach bring the revision back: a refresh that expects what was read before
them succeeds on a membership that nobody has read. -/
theorem membership_revision_reused : ∃ (S S' : System) (before : List Committed) (x : Committed)
    (row row' : ProjectRow),
    Txn.Steps Call.code (fun _ => True) (System.initial ⟨0, 0⟩) S ∧ Txn.Steps Call.code (fun _ => True) S S' ∧
    S'.commits = S.commits ++ before ++ [x] ∧
    S.db.project "acme" "alpha" "site" = some row ∧ x.before.project "acme" "alpha" "site" = some row' ∧
    x.Fresh ∧ x.call = sampleRefresh "alpha" "site" row.membershipRevision 30 ∧
    row'.membershipRevision = row.membershipRevision ∧ row'.progress ≠ row.progress := by
  have hrun : ((System.initial ⟨0, 0⟩).schedule Call.code 5 attached).bind (fun S => (S.schedule Call.code 5
      (Txn.attempt 2 (sampleDetach "alpha" "site" 2 1) (sampleTicks 1 6) ++
        Txn.attempt 3 (sampleAttach "alpha" "site" "again" 3 20 0) (sampleTicks 1 9) ++
        Txn.attempt 4 (sampleRefresh "alpha" "site" 1 30) (sampleTicks 1 8))).map fun S' =>
        ((S.db.project "acme" "alpha" "site").map (fun r => (r.progress, r.membershipRevision)),
          (S'.commits.drop S.commits.length).map (fun x => (x.call, decide (Committed.Fresh x))),
          S'.commits.getLast?.bind fun x => (x.before.project "acme" "alpha" "site").map fun r =>
            (r.progress, r.membershipRevision))) =
      some (some (10, 1), [(sampleDetach "alpha" "site" 2 1, true),
        (sampleAttach "alpha" "site" "again" 3 20 0, true), (sampleRefresh "alpha" "site" 1 30, true)],
        some (20, 1)) := by decide +kernel
  obtain ⟨S, S', h, h', hfacts⟩ := @System.scheduled (fun _ => True) _ _ _ _ _ _ _ hrun (by decide)
    fun _ _ _ _ => trivial
  obtain ⟨hrow, hfacts⟩ := Prod.mk.inj hfacts
  obtain ⟨row, hrow, hvalues⟩ := Option.map_eq_some_iff.mp hrow
  obtain ⟨hprogress, hrev⟩ := Prod.mk.inj hvalues
  obtain ⟨hcommits, hlast⟩ := Prod.mk.inj hfacts
  obtain ⟨cs, hcs, -⟩ := later_history h h'
  rw [hcs, List.drop_left] at hcommits
  obtain ⟨d, rest, rfl, -, hrest⟩ := List.map_eq_cons_iff.mp hcommits
  obtain ⟨a, rest, rfl, -, hrest⟩ := List.map_eq_cons_iff.mp hrest
  obtain ⟨x, rfl, hx⟩ := List.map_eq_singleton_iff.mp hrest
  obtain ⟨hcall, hfresh⟩ := Prod.mk.inj hx
  have hget : S'.commits.getLast? = some x := by simp [hcs]
  rw [hget] at hlast
  obtain ⟨row', hrow', hvalues'⟩ := Option.map_eq_some_iff.mp hlast
  obtain ⟨hprogress', hrev'⟩ := Prod.mk.inj hvalues'
  refine ⟨S, S', [d, a], x, row, row', h, h', by simp [hcs], hrow, hrow', of_decide_eq_true hfresh, ?_, ?_, ?_⟩
  · rw [hcall, hrev]
  · rw [hrev, hrev']
  · rw [hprogress, hprogress']
    decide

end Portfolio
