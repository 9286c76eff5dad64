/-
# What a portfolio is

The portfolio as its users know it, without tables, transactions or receipts.
An initiative is what its owner says of it, the projects seen from it, each at
a position of its own, and the reports made on it. Its health and its progress
are those of the last report, and how many projects it has is how many it
shows: nothing of this is stored.

A change asks for the revision it was made for, and leaves the next one. What
it may not do it refuses, and then nothing has happened.

Key definitions: `Member`, `Report`, `Initiative`, `Plan`, `Plan.step`,
`Initiative.answer`, `Op.becomes`.
Key theorems: `Plan.step_becomes`, `Plan.step_elsewhere`.
-/
import Portfolio.Lineup
import Portfolio.History

namespace Portfolio

/-! ### Initiatives -/

/-- A project as it was last seen, its position, and how many times it changed since it was attached. -/
structure Member where
  snapshot : ProjectSnapshot
  position : ℤ
  revision : ℤ

def Member.projectId (m : Member) : String := m.snapshot.projectId

/-- A report on the state of an initiative. -/
structure Report where
  updateId : String
  health : String
  summary : String
  progress : ℤ
  createdBy : String
  revision : ℤ

/-- What the owner of an initiative says of it. -/
structure Details where
  name : String
  summary : Option String
  ownerSubject : Option String
  targetStart : Option Date
  targetDate : Option Date

/-- Projects at positions of their own, in their order. -/
abbrev Members := Lineup Member.projectId Member.position maxProjectsPerInitiative

/-- An initiative: each report on it is made at a revision of its own, after the first. -/
structure Initiative where
  details : Details
  archived : Bool
  revision : ℤ
  members : Members
  reports : List Report
  positive : 1 ≤ revision
  numbered : reports.Pairwise fun r s => r.revision < s.revision
  recent : ∀ r ∈ reports, 2 ≤ r.revision ∧ r.revision ≤ revision

namespace Initiative

/-- The health and the progress last reported. -/
def health (x : Initiative) : String × ℤ :=
  match x.reports.getLast? with
  | none => ("no_update", 0)
  | some r => (r.health, r.progress)

/-- An initiative nobody has worked on. -/
def new (details : Details) : Initiative where
  details := details
  archived := false
  revision := 1
  members := .empty
  reports := []
  positive := le_refl 1
  numbered := .nil
  recent _ h := (List.not_mem_nil h).elim

/-- The initiative at its next revision, with other projects. -/
def next (x : Initiative) (members : Members) : Initiative where
  details := x.details
  archived := x.archived
  revision := x.revision + 1
  members := members
  reports := x.reports
  positive := by
    have := x.positive
    omega
  numbered := x.numbered
  recent r hr := by
    have := x.recent r hr
    omega

/-- What a patch leaves out of the name stays; the rest it replaces. -/
def edit (x : Initiative) (patch : InitiativePatch) : Initiative :=
  { x.next x.members with
    details := ⟨patch.name.getD x.details.name, patch.summary, patch.ownerSubject, patch.targetStart,
        patch.targetDate⟩ }

def archive (x : Initiative) : Initiative := { x.next x.members with archived := true }

/-- A report made at the next revision. -/
def report (x : Initiative) (actor u health summary : String) (progress : ℤ) : Initiative :=
  { x.next x.members with
    reports := x.reports ++ [⟨u, health, summary, progress, actor, x.revision + 1⟩]
    numbered := by
      refine List.pairwise_append.mpr ⟨x.numbered, List.pairwise_singleton _ _, fun r hr s hs => ?_⟩
      rw [List.mem_singleton.mp hs]
      have := x.recent r hr
      exact Int.lt_add_one_iff.mpr this.2
    recent := fun r hr => by
      have hpos := x.positive
      change 2 ≤ r.revision ∧ r.revision ≤ x.revision + 1
      rcases List.mem_append.mp hr with hr | hr
      · have := x.recent r hr
        omega
      · rw [List.mem_singleton.mp hr]
        change 2 ≤ x.revision + 1 ∧ x.revision + 1 ≤ x.revision + 1
        omega }

/-- A project the initiative does not have yet, at a position nobody has, while there is room. -/
def attach (x : Initiative) (s : ProjectSnapshot) (position : ℤ) : Except DomainFailure Initiative :=
  if hname : s.projectId ∈ x.members.items.map Member.projectId then .error .alreadyAttached
  else if hsize : maxProjectsPerInitiative ≤ x.members.items.length then .error .invalidRequest
  else if hplace : position ∈ x.members.items.map Member.position then .error .positionConflict
  else .ok (x.next (x.members.insert ⟨s, position, 1⟩ hname hplace (Nat.lt_of_not_le hsize)))

/-- The member as it is now, in its place. -/
def Seen (s : ProjectSnapshot) (m : Member) : Member :=
  if m.projectId = s.projectId then { m with snapshot := s, revision := m.revision + 1 } else m

theorem seen_projectId (s : ProjectSnapshot) (m : Member) : (Seen s m).projectId = m.projectId := by
  unfold Seen
  split
  · rename_i h
    exact h.symm
  · rfl

theorem seen_position (s : ProjectSnapshot) (m : Member) : (Seen s m).position = m.position := by
  unfold Seen
  split <;> rfl

theorem seen_positions (x : Initiative) (s : ProjectSnapshot) :
    (x.members.items.map fun m => (Seen s m).position).Nodup := by
  rw [List.map_congr_left fun m _ => seen_position s m]
  exact x.members.places

/-- A project seen anew. -/
def refresh (x : Initiative) (expected : ℤ) (s : ProjectSnapshot) : Except DomainFailure Initiative :=
  match x.members.find s.projectId with
  | none => .error .notAttached
  | some m =>
    if m.revision ≠ expected then .error .revisionConflict
    else .ok (x.next (x.members.rearrange (Seen s) (seen_projectId s) (x.seen_positions s)))

def detach (x : Initiative) (p : String) (expected : ℤ) : Except DomainFailure Initiative :=
  match x.members.find p with
  | none => .error .notAttached
  | some m => if m.revision ≠ expected then .error .revisionConflict else .ok (x.next (x.members.remove p))

/-- The member where its item puts it. -/
def Moved (items : List ReorderInput) (m : Member) : Member :=
  match items.find? fun item => item.projectId = m.projectId with
  | none => m
  | some item => { m with position := item.position, revision := m.revision + 1 }

theorem moved_projectId (items : List ReorderInput) (m : Member) : (Moved items m).projectId = m.projectId := by
  unfold Moved
  split <;> rfl

/-- The items name all projects at the revisions they have, each at another position. -/
structure Permutes (x : Initiative) (items : List ReorderInput) : Prop where
  some : items ≠ []
  all : (items.map fun item => (item.projectId, item.expectedMembershipRevision)).Perm
    (x.members.items.map fun m => (m.projectId, m.revision))
  apart : (items.map (·.position)).Nodup

theorem Permutes.ids {x : Initiative} {items : List ReorderInput} (h : x.Permutes items) :
    (items.map (·.projectId)).Perm (x.members.items.map Member.projectId) := by
  have := h.all.map Prod.fst
  rwa [List.map_map, List.map_map] at this

/-- Each project has its item. -/
theorem Permutes.item {x : Initiative} {items : List ReorderInput} (h : x.Permutes items) {m : Member}
    (hm : m ∈ x.members.items) : ∃ item ∈ items, item.projectId = m.projectId ∧
      item.expectedMembershipRevision = m.revision ∧
      Moved items m = { m with position := item.position, revision := m.revision + 1 } := by
  have hmem : m.projectId ∈ items.map (·.projectId) := h.ids.mem_iff.mpr (List.mem_map_of_mem hm)
  obtain ⟨item₀, hitem₀, he₀⟩ := List.mem_map.mp hmem
  unfold Moved
  cases hfind : items.find? fun item => item.projectId = m.projectId with
  | none =>
    have hne := List.find?_eq_none.mp hfind item₀ hitem₀
    simp [he₀] at hne
  | some item =>
    have hitem : item ∈ items := List.mem_of_find?_eq_some hfind
    have hid : item.projectId = m.projectId := by simpa using List.find?_some hfind
    obtain ⟨m', hm', hpair⟩ := List.mem_map.mp (h.all.mem_iff.mp (List.mem_map_of_mem hitem))
    obtain ⟨hid', hrevision⟩ := Prod.mk.inj hpair
    obtain rfl : m' = m := List.inj_on_of_nodup_map x.members.distinct hm' hm (hid'.trans hid)
    exact ⟨item, hitem, hid, hrevision.symm, rfl⟩

theorem Permutes.positions {x : Initiative} {items : List ReorderInput} (h : x.Permutes items) :
    (x.members.items.map fun m => (Moved items m).position).Nodup := by
  have hids : (x.members.items.map Member.projectId).Nodup := x.members.distinct
  refine List.Nodup.map_on (fun m hm n hn he => ?_) hids.of_map
  obtain ⟨item, hitem, hid, -, hmoved⟩ := h.item hm
  obtain ⟨item', hitem', hid', -, hmoved'⟩ := h.item hn
  rw [hmoved, hmoved'] at he
  obtain rfl : item = item' := List.inj_on_of_nodup_map h.apart hitem hitem' he
  exact List.inj_on_of_nodup_map hids hm hn (hid.symm.trans hid')

open Classical in
/-- All projects where their items put them. -/
noncomputable def reorder (x : Initiative) (items : List ReorderInput) : Except DomainFailure Initiative :=
  if h : x.Permutes items then
    .ok (x.next (x.members.rearrange (Moved items) (moved_projectId items) h.positions))
  else .error .invalidRequest

end Initiative

/-! ### Plans -/

/-- The initiatives of all organizations, by their ids. -/
abbrev Plan := String → String → Option Initiative

namespace Plan

/-- No initiative. -/
def empty : Plan := fun _ _ => none

/-- With an initiative in its place. -/
def set (P : Plan) (o i : String) (x : Initiative) : Plan := fun o' i' => if o' = o ∧ i' = i then some x else P o' i'

/-- A report of the organization has the id. -/
def Reported (P : Plan) (o u : String) : Prop := ∃ i x, P o i = some x ∧ ∃ r ∈ x.reports, r.updateId = u

/-- A change to an initiative that is there, and not archived. -/
def change (P : Plan) (o i : String) (f : Initiative → Except DomainFailure Initiative) : Except DomainFailure Plan :=
  match P o i with
  | none => .error .notFound
  | some x => if x.archived then .error .archived else (f x).map (P.set o i)

/-- One that asks for a revision. -/
def revise (P : Plan) (o i : String) (expected : ℤ) (f : Initiative → Except DomainFailure Initiative) :
    Except DomainFailure Plan :=
  P.change o i fun x => if x.revision ≠ expected then .error .revisionConflict else f x

open Classical in
/-- What an operation asked by an actor makes of a plan. -/
noncomputable def step (actor : String) (P : Plan) : Op → Except DomainFailure Plan
  | .createInitiative v =>
    if (P v.organizationId v.initiativeId).isSome then .error .alreadyExists
    else .ok (P.set v.organizationId v.initiativeId
      (.new ⟨v.name, v.summary, v.ownerSubject, v.targetStart, v.targetDate⟩))
  | .updateInitiative o i expected patch => P.revise o i expected fun x => .ok (x.edit patch)
  | .addUpdate o i u expected health summary progress => P.revise o i expected fun x =>
    if P.Reported o u then .error .alreadyExists else .ok (x.report actor u health summary progress)
  | .archiveInitiative o i expected => P.revise o i expected fun x => .ok x.archive
  | .attachProject o i expected s position => P.revise o i expected fun x => x.attach s position
  | .updateProjectSnapshot o i expected s => P.change o i fun x => x.refresh expected s
  | .detachProject o i p expected expectedMembership => P.revise o i expected fun x => x.detach p expectedMembership
  | .reorderProjects o i expected items => P.revise o i expected fun x => x.reorder items

end Plan

/-! ### What an operation answers -/

/-- A record without what a clock or a sequence of the server puts into it. -/
def Record.timeless : Record → Record
  | .initiative r => .initiative { r with createdAt := "", updatedAt := "", archivedAt := none, rowSeq := 0 }
  | .update r => .update { r with createdAt := "", rowSeq := 0 }
  | .archive r => .archive { r with updatedAt := "", archivedAt := none }
  | r => r

/-- A member, as it is shown. -/
def Member.record (m : Member) (initiativeRevision : Option String) : ProjectRecord where
  projectId := m.projectId
  nameSnapshot := m.snapshot.nameSnapshot
  statusCategory := m.snapshot.statusCategory
  health := m.snapshot.health
  progress := m.snapshot.progress
  targetStart := optionalDate m.snapshot.targetStart
  targetDate := optionalDate m.snapshot.targetDate
  snapshotRevision := m.snapshot.snapshotRevision
  observedAt := (formatTimestamp m.snapshot.observedAt).getD ""
  position := m.position
  membershipRevision := toString m.revision
  initiativeRevision := initiativeRevision

/-- A report on an initiative, as it is shown. -/
def Report.record (r : Report) (o i : String) : UpdateRecord where
  updateId := r.updateId
  initiativeId := i
  organizationId := o
  health := r.health
  summary := r.summary
  progress := r.progress
  createdBy := r.createdBy
  initiativeRevision := toString r.revision
  createdAt := ""
  rowSeq := 0

namespace Initiative

/-- The initiative, as it is shown. -/
def record (x : Initiative) (o i : String) : InitiativeRecord where
  initiativeId := i
  organizationId := o
  name := x.details.name
  summary := x.details.summary
  ownerSubject := x.details.ownerSubject
  targetStart := optionalDate x.details.targetStart
  targetDate := optionalDate x.details.targetDate
  health := x.health.1
  progress := x.health.2
  projectCount := x.members.items.length
  archived := x.archived
  revision := toString x.revision
  createdAt := ""
  updatedAt := ""
  archivedAt := none
  rowSeq := 0

/-- What an operation answers, read off the initiative it leaves. -/
def answer (x : Initiative) (o i : String) : Op → Option Record
  | .createInitiative _ => some (.initiative (x.record o i))
  | .updateInitiative .. => some (.initiative (x.record o i))
  | .addUpdate .. => x.reports.getLast?.map fun r => .update (r.record o i)
  | .archiveInitiative .. => some (.archive ⟨i, o, x.archived, toString x.revision, "", none⟩)
  | .attachProject _ _ _ s _ =>
    (x.members.find s.projectId).map fun m => .project (m.record (some (toString x.revision)))
  | .updateProjectSnapshot _ _ _ s =>
    (x.members.find s.projectId).map fun m => .project (m.record (some (toString x.revision)))
  | .detachProject .. => some (.detach ⟨true, toString x.revision⟩)
  | .reorderProjects .. =>
    some (.reorder ⟨toString x.revision,
      x.members.items.map fun m => ⟨m.projectId, m.position, toString m.revision⟩⟩)

end Initiative

/-! ### What an operation makes of its initiative -/

/-- What an operation asked by an actor makes of its initiative, if the plan accepts it. -/
noncomputable def Op.becomes (actor : String) : Op → Option Initiative → Option Initiative
  | .createInitiative v, _ => some (.new ⟨v.name, v.summary, v.ownerSubject, v.targetStart, v.targetDate⟩)
  | .updateInitiative _ _ _ patch, y => y.map fun x => x.edit patch
  | .addUpdate _ _ u _ health summary progress, y => y.map fun x => x.report actor u health summary progress
  | .archiveInitiative .., y => y.map fun x => x.archive
  | .attachProject _ _ _ s position, y => y.bind fun x => (x.attach s position).toOption
  | .updateProjectSnapshot _ _ expected s, y => y.bind fun x => (x.refresh expected s).toOption
  | .detachProject _ _ p _ expectedMembership, y => y.bind fun x => (x.detach p expectedMembership).toOption
  | .reorderProjects _ _ _ items, y => y.bind fun x => (x.reorder items).toOption

section
variable {P P' : Plan} {o i actor : String} {expected : ℤ} {f : Initiative → Except DomainFailure Initiative}

theorem Plan.change_ok : P.change o i f = .ok P' ↔
    ∃ x y, P o i = some x ∧ x.archived = false ∧ f x = .ok y ∧ P' = P.set o i y := by
  unfold Plan.change
  constructor
  · intro h
    cases hx : P o i with
    | none =>
      rw [hx] at h
      cases h
    | some x =>
      rw [hx] at h
      simp only at h
      split at h
      · cases h
      · rename_i ha
        cases hf : f x with
        | error e =>
          rw [hf] at h
          cases h
        | ok y =>
          rw [hf] at h
          exact ⟨x, y, rfl, Bool.not_eq_true _ ▸ ha, hf, (Except.ok.inj h).symm⟩
  · rintro ⟨x, y, hx, ha, hf, rfl⟩
    rw [hx]
    simp only [ha, hf]
    rfl

theorem Plan.revise_ok : P.revise o i expected f = .ok P' ↔
    ∃ x y, P o i = some x ∧ x.archived = false ∧ x.revision = expected ∧ f x = .ok y ∧ P' = P.set o i y := by
  unfold Plan.revise
  rw [Plan.change_ok]
  constructor
  · rintro ⟨x, y, hx, ha, hf, rfl⟩
    by_cases hrev : x.revision = expected
    · rw [if_neg (not_not_intro hrev)] at hf
      exact ⟨x, y, hx, ha, hrev, hf, rfl⟩
    · rw [if_pos hrev] at hf
      cases hf
  · rintro ⟨x, y, hx, ha, hrev, hf, rfl⟩
    exact ⟨x, y, hx, ha, by rwa [if_neg (not_not_intro hrev)], rfl⟩

/-- What becomes of an initiative that a function of it makes another one. -/
theorem bind_of_ok {y : Option Initiative} {x x' : Initiative} (hx : y = some x) (hf : f x = .ok x') :
    (y.bind fun x => (f x).toOption) = some x' := by
  rw [hx, Option.bind_some, hf]
  rfl

theorem map_of_ok {y : Option Initiative} {x x' : Initiative} {g : Initiative → Initiative} (hx : y = some x)
    (hg : (.ok (g x) : Except DomainFailure Initiative) = .ok x') : y.map g = some x' := by
  rw [hx, Option.map_some, Except.ok.inj hg]

/-- An accepted operation changes its initiative as the initiative decides, and no other. -/
theorem Plan.step_becomes {op : Op} (h : P.step actor op = .ok P') :
    ∃ x, op.becomes actor (P op.organizationId op.initiativeId) = some x ∧
      P' = P.set op.organizationId op.initiativeId x := by
  cases op with
  | createInitiative v =>
    simp only [Plan.step] at h
    split at h
    · cases h
    · exact ⟨_, rfl, (Except.ok.inj h).symm⟩
  | updateInitiative o i expected patch =>
    obtain ⟨x, x', hx, -, -, hf, hP'⟩ := Plan.revise_ok.mp h
    exact ⟨x', map_of_ok hx hf, hP'⟩
  | addUpdate o i u expected health summary progress =>
    classical
    obtain ⟨x, x', hx, -, -, hf, hP'⟩ := Plan.revise_ok.mp h
    split at hf
    · cases hf
    · exact ⟨x', map_of_ok hx hf, hP'⟩
  | archiveInitiative o i expected =>
    obtain ⟨x, x', hx, -, -, hf, hP'⟩ := Plan.revise_ok.mp h
    exact ⟨x', map_of_ok hx hf, hP'⟩
  | attachProject o i expected s position =>
    obtain ⟨x, x', hx, -, -, hf, hP'⟩ := Plan.revise_ok.mp h
    exact ⟨x', bind_of_ok hx hf, hP'⟩
  | updateProjectSnapshot o i expected s =>
    obtain ⟨x, x', hx, -, hf, hP'⟩ := Plan.change_ok.mp h
    exact ⟨x', bind_of_ok hx hf, hP'⟩
  | detachProject o i p expected expectedMembership =>
    obtain ⟨x, x', hx, -, -, hf, hP'⟩ := Plan.revise_ok.mp h
    exact ⟨x', bind_of_ok hx hf, hP'⟩
  | reorderProjects o i expected items =>
    obtain ⟨x, x', hx, -, -, hf, hP'⟩ := Plan.revise_ok.mp h
    exact ⟨x', bind_of_ok hx hf, hP'⟩

/-- A step leaves every other initiative as it was. -/
theorem Plan.step_elsewhere {op : Op} (h : P.step actor op = .ok P') (hne : ¬ op.On o i) : P' o i = P o i := by
  obtain ⟨x, -, rfl⟩ := Plan.step_becomes h
  exact if_neg fun he => hne ⟨he.1.symm, he.2.symm⟩

end

end Portfolio
