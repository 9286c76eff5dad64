/-
# The tables hold a plan

Each initiative of the tables depicts one of a plan: its row has what its owner
said, its memberships are its projects in whatever order, and its updates are
its reports. The columns that the plan has not (health, progress) are what the
plan makes of its reports.

A fresh success of an operation is a step of the plan, and answers what the
plan does (`Fresh.step`); the verdict on an operation is what the plan says of
it (`verdict_agrees`). So a run of the system is a run of the plan, with the
fresh commits as its steps (`system_follows_plan`): replays, failures and
whatever else the attempts do between their commits are no steps at all.

Key definitions: `Depicts`, `Facts.Depicts`, `Plan.Commits`, `Committed.label`.
Key theorems: `Fresh.step`, `verdict_agrees`, `system_follows_plan`.
-/
import Portfolio.Plan
import Portfolio.Trace
import Portfolio.Decisions
import Portfolio.Storable

namespace Portfolio

open Txn

/-! ### What depicts an initiative -/

def InitiativeRow.details (r : InitiativeRow) : Details :=
  ⟨r.name, r.summary, r.ownerSubject, r.targetStart, r.targetDate⟩

def ProjectRow.snapshot (r : ProjectRow) : ProjectSnapshot where
  projectId := r.projectId
  nameSnapshot := r.nameSnapshot
  statusCategory := r.statusCategory
  health := r.health
  progress := r.progress
  targetStart := r.targetStart
  targetDate := r.targetDate
  snapshotRevision := r.snapshotRevision
  observedAt := r.observedAt

def ProjectRow.member (r : ProjectRow) : Member := ⟨r.snapshot, r.position, r.membershipRevision⟩

def UpdateRow.report (r : UpdateRow) : Report :=
  ⟨r.updateId, r.health, r.summary, r.progress, r.createdBy, r.initiativeRevision⟩

/-- The row of an initiative, its memberships and its updates depict the initiative. -/
structure Depicts (row : InitiativeRow) (ps : List ProjectRow) (us : List UpdateRow) (x : Initiative) : Prop where
  details : x.details = row.details
  archived : x.archived = row.archived
  revision : x.revision = row.revision
  health : x.health = (row.health, row.progress)
  members : x.members.items.Perm (ps.map ProjectRow.member)
  reports : x.reports = us.map UpdateRow.report

/-- And there is one, or there is none. -/
inductive Depicted : Option InitiativeRow → List ProjectRow → List UpdateRow → Option Initiative → Prop
  | missing : Depicted none [] [] none
  | there {row : InitiativeRow} {ps : List ProjectRow} {us : List UpdateRow} {x : Initiative}
    (h : Depicts row ps us x) : Depicted (some row) ps us (some x)

theorem Depicted.of_row {row : InitiativeRow} {ps : List ProjectRow} {us : List UpdateRow} {y : Option Initiative}
    (h : Depicted (some row) ps us y) : ∃ x, y = some x ∧ Depicts row ps us x := by
  cases h with
  | there h => exact ⟨_, rfl, h⟩

theorem Depicted.of_initiative {r : Option InitiativeRow} {ps : List ProjectRow} {us : List UpdateRow} {x : Initiative}
    (h : Depicted r ps us (some x)) : ∃ row, r = some row ∧ Depicts row ps us x := by
  cases h with
  | there h => exact ⟨_, rfl, h⟩

theorem Depicted.of_none {ps : List ProjectRow} {us : List UpdateRow} {y : Option Initiative}
    (h : Depicted none ps us y) : ps = [] ∧ us = [] ∧ y = none := by
  cases h
  exact ⟨rfl, rfl, rfl⟩

/-- The tables depict the plan. -/
def Facts.Depicts (F : Facts) (P : Plan) : Prop :=
  ∀ o i, Depicted (F.initiative o i) (F.projectsOf o i) (F.updatesOf o i) (P o i)

section
variable {row row' : InitiativeRow} {ps ps' : List ProjectRow} {us : List UpdateRow} {x y : Initiative}

/-- What the tables depict is one initiative. -/
theorem Depicts.unique (h : Depicts row ps us x) (h' : Depicts row ps us y) : x = y := by
  have hmembers : x.members = y.members := Lineup.ext_perm (h.members.trans h'.members.symm)
  have hdetails := h.details.trans h'.details.symm
  have harchived := h.archived.trans h'.archived.symm
  have hrevision := h.revision.trans h'.revision.symm
  have hreports := h.reports.trans h'.reports.symm
  cases x
  cases y
  simp only at hmembers hdetails harchived hrevision hreports
  subst hmembers hdetails harchived hrevision hreports
  rfl

/-- The row at its next revision, with other memberships. -/
theorem Depicts.next (h : Depicts row ps us x) {members : Members}
    (hmembers : members.items.Perm (ps'.map ProjectRow.member)) (hdetails : row'.details = row.details)
    (harchived : row'.archived = row.archived) (hrevision : row'.revision = row.revision + 1)
    (hhealth : (row'.health, row'.progress) = (row.health, row.progress)) :
    Depicts row' ps' us (x.next members) where
  details := h.details.trans hdetails.symm
  archived := h.archived.trans harchived.symm
  revision := (congrArg (· + 1) h.revision).trans hrevision.symm
  health := h.health.trans hhealth.symm
  members := hmembers
  reports := h.reports

/-! ### Its members -/

theorem Depicts.ids (h : Depicts row ps us x) :
    (x.members.items.map Member.projectId).Perm (ps.map (·.projectId)) := by
  have := h.members.map Member.projectId
  rwa [List.map_map] at this

theorem Depicts.nodup (h : Depicts row ps us x) : (ps.map (·.projectId)).Nodup := h.ids.nodup_iff.mp x.members.distinct

theorem Depicts.positions (h : Depicts row ps us x) :
    (x.members.items.map Member.position).Perm (ps.map (·.position)) := by
  have := h.members.map Member.position
  rwa [List.map_map] at this

theorem Depicts.length (h : Depicts row ps us x) : x.members.items.length = ps.length := by
  rw [h.members.length_eq, List.length_map]

end

section
variable {F : Facts} {P : Plan} {o i p : String} {row : InitiativeRow} {us : List UpdateRow} {x : Initiative}

/-- The member of a name is its membership. -/
theorem Depicts.find (h : Depicts row (F.projectsOf o i) us x) (p : String) :
    x.members.find p = (F.project o i p).map ProjectRow.member := by
  cases hp : F.project o i p with
  | none =>
    rw [Option.map_none, Lineup.find_eq_none, h.ids.mem_iff]
    exact projectId_notMem hp
  | some old =>
    rw [Option.map_some, Lineup.find_eq_some, h.members.mem_iff]
    exact ⟨List.mem_map_of_mem (List.mem_of_find?_eq_some hp), (project_mem hp).2.2.2⟩

/-- An initiative that is there is depicted. -/
theorem Facts.Depicts.found (h : F.Depicts P) (hrow : F.initiative o i = some row) :
    ∃ x, P o i = some x ∧ Portfolio.Depicts row (F.projectsOf o i) (F.updatesOf o i) x := by
  have hoi := h o i
  rw [hrow] at hoi
  exact hoi.of_row

theorem Facts.Depicts.missing (h : F.Depicts P) (hrow : F.initiative o i = none) :
    F.projectsOf o i = [] ∧ F.updatesOf o i = [] ∧ P o i = none := by
  have hoi := h o i
  rw [hrow] at hoi
  exact hoi.of_none

/-- The reports of an organization are its updates. -/
theorem Facts.Depicts.reported (h : F.Depicts P) {u : String} : P.Reported o u ↔ (F.update o u).isSome = true := by
  constructor
  · rintro ⟨i, x, hx, r, hr, rfl⟩
    have hoi := h o i
    rw [hx] at hoi
    obtain ⟨row, -, hd⟩ := hoi.of_initiative
    rw [hd.reports] at hr
    obtain ⟨v, hv, rfl⟩ := List.mem_map.mp hr
    obtain ⟨hv, hat⟩ := List.mem_filter.mp hv
    have hhas : UpdateRow.has o v.report.updateId v = true := by
      simp only [UpdateRow.at, decide_eq_true_eq] at hat
      exact decide_eq_true ⟨hat.1, rfl⟩
    have hne : F.updates.filter (UpdateRow.has o v.report.updateId) ≠ [] :=
      List.ne_nil_of_mem (List.mem_filter.mpr ⟨hv, hhas⟩)
    rw [Facts.update, Option.isSome_iff_ne_none]
    exact fun hnone => hne (List.head?_eq_none_iff.mp hnone)
  · intro hu
    obtain ⟨v, hv⟩ := Option.isSome_iff_exists.mp hu
    obtain ⟨hmem, hhas⟩ := List.mem_filter.mp (List.mem_of_mem_head? hv)
    simp only [UpdateRow.has, decide_eq_true_eq] at hhas
    obtain ⟨rfl, rfl⟩ := hhas
    have hof : v ∈ F.updatesOf v.organizationId v.initiativeId :=
      List.mem_filter.mpr ⟨hmem, decide_eq_true ⟨rfl, rfl⟩⟩
    cases hrow : F.initiative v.organizationId v.initiativeId with
    | none =>
      rw [(h.missing hrow).2.1] at hof
      exact (List.not_mem_nil hof).elim
    | some row =>
      obtain ⟨x, hx, hd⟩ := h.found hrow
      exact ⟨_, x, hx, v.report, hd.reports ▸ List.mem_map_of_mem hof, rfl⟩

/-- The items of a reorder are accepted if they permute the members. -/
theorem Depicts.permutes (h : Depicts row (F.projectsOf o i) us x) {items : List ReorderInput} :
    reorderAccepts (F.order o i) items = true ↔ x.Permutes items := by
  have hpairs : (x.members.items.map fun m => (m.projectId, m.revision)).Perm (F.order o i) := by
    have := h.members.map fun m : Member => (m.projectId, m.revision)
    rw [List.map_map] at this
    exact this.trans ((List.perm_insertionSort _ _).symm.map _)
  constructor
  · intro haccepts
    obtain ⟨hne, -, hids, hpositions, hlength, hall⟩ := reorderAccepts_spec haccepts
    refine ⟨hne, List.Perm.trans ?_ hpairs.symm, hpositions⟩
    have hnodup : (items.map fun item => (item.projectId, item.expectedMembershipRevision)).Nodup := by
      refine List.Nodup.of_map Prod.fst ?_
      rwa [List.map_map]
    refine (List.subperm_of_subset hnodup fun pair hpair => ?_).perm_of_length_le ?_
    · obtain ⟨item, hitem, rfl⟩ := List.mem_map.mp hpair
      exact mem_of_lookup (hall item hitem)
    · rw [List.length_map, hlength]
  · intro hpermutes
    have hall := hpermutes.all.trans hpairs
    have hids : (items.map (·.projectId)).Nodup := hpermutes.ids.nodup_iff.mpr x.members.distinct
    have hlength : items.length = x.members.items.length := by
      have := hpermutes.ids.length_eq
      rwa [List.length_map, List.length_map] at this
    have horder : ((F.order o i).map (·.1)).Nodup := by
      have := hall.map Prod.fst
      rw [List.map_map] at this
      exact this.nodup_iff.mp hids
    simp only [reorderAccepts, Bool.and_eq_true, Bool.not_eq_true', decide_eq_true_eq, List.all_eq_true,
      List.isEmpty_eq_false_iff]
    refine ⟨⟨⟨⟨⟨hpermutes.some, hlength ▸ x.members.bounded⟩, ?_⟩, ?_⟩, ?_⟩, fun item hitem => ?_⟩
    · rw [List.dedup_eq_self.mpr hids, List.length_map]
    · rw [List.dedup_eq_self.mpr hpermutes.apart, List.length_map]
    · rw [← hall.length_eq, List.length_map]
    · exact lookup_of_nodup horder (hall.mem_iff.mp (List.mem_map_of_mem hitem))

end

/-! ### Records -/

section
variable {row : InitiativeRow} {ps : List ProjectRow} {us : List UpdateRow} {x : Initiative} {o i : String}

theorem initiative_timeless {r : InitiativeRecord} (h : initiativeFromRow row ps.length = some r)
    (hd : Depicts row ps us x) (hkey : row.key = (o, i)) :
    (Record.initiative r).timeless = .initiative (x.record o i) := by
  obtain ⟨rfl, rfl⟩ := Prod.mk.inj hkey
  simp only [initiativeFromRow, Option.bind_eq_bind, Option.bind_eq_some_iff] at h
  obtain ⟨createdAt, -, updatedAt, -, archivedAt, -, h⟩ := h
  obtain rfl := Option.some.inj h
  simp only [Record.timeless, Initiative.record, hd.details, InitiativeRow.details, hd.health, hd.archived, hd.revision,
    hd.length]

theorem archive_timeless {r : ArchiveRecord} (h : archiveFromRow row = some r) (hd : Depicts row ps us x)
    (hkey : row.key = (o, i)) :
    (Record.archive r).timeless = .archive ⟨i, o, x.archived, toString x.revision, "", none⟩ := by
  obtain ⟨rfl, rfl⟩ := Prod.mk.inj hkey
  simp only [archiveFromRow, Option.bind_eq_bind, Option.bind_eq_some_iff] at h
  obtain ⟨updatedAt, -, archivedAt, -, h⟩ := h
  obtain rfl := Option.some.inj h
  rw [Record.timeless, hd.archived, hd.revision]

theorem project_record {row : ProjectRow} {revision : Option String} {r : ProjectRecord}
    (h : projectFromRow row revision = some r) : r = row.member.record revision := by
  simp only [projectFromRow, Option.bind_eq_bind, Option.bind_eq_some_iff] at h
  obtain ⟨observedAt, htext, h⟩ := h
  obtain rfl := Option.some.inj h
  simp only [Member.record, ProjectRow.member, ProjectRow.snapshot, htext, Option.getD_some]
  rfl

theorem update_timeless {v : UpdateRow} {r : UpdateRecord} (h : updateFromRow v = some r) :
    (Record.update r).timeless = .update (v.report.record v.organizationId v.initiativeId) := by
  simp only [updateFromRow, Option.bind_eq_bind, Option.bind_eq_some_iff] at h
  obtain ⟨createdAt, -, h⟩ := h
  obtain rfl := Option.some.inj h
  rfl

end

/-! ### A fresh success is a step -/

/-- The operation, asked by the actor, makes the plan another one and answers the record. -/
def Plan.Commits (P : Plan) (l : String × Op × Record) (P' : Plan) : Prop :=
  P.step l.1 l.2.1 = .ok P' ∧ ∃ x, P' l.2.1.organizationId l.2.1.initiativeId = some x ∧
    x.answer l.2.1.organizationId l.2.1.initiativeId l.2.1 = some l.2.2.timeless

section
variable {P : Plan} {o i actor : String} {x : Initiative} {expected : ℤ}
  {f : Initiative → Except DomainFailure Initiative}

@[simp] theorem Plan.set_self : P.set o i x o i = some x := if_pos ⟨rfl, rfl⟩

theorem Plan.change_of (hx : P o i = some x) (harch : x.archived = false) :
    P.change o i f = (f x).map (P.set o i) := by
  rw [Plan.change, hx]
  exact if_neg (by rw [harch]; exact Bool.false_ne_true)

theorem Plan.revise_of (hx : P o i = some x) (harch : x.archived = false) (hrev : x.revision = expected) :
    P.revise o i expected f = (f x).map (P.set o i) := by
  rw [Plan.revise, Plan.change_of hx harch, if_neg (not_not_intro hrev)]

variable {F F' : Facts} {op : Op} {r : Record} {row row' : InitiativeRow}

/-- Where the tables change at one initiative, so does the plan. -/
theorem Fresh.depicts_set (h : Fresh actor op F r F') (hF : F.Depicts P)
    (hrow : F'.initiative op.organizationId op.initiativeId = some row')
    (hx : Depicts row' (F'.projectsOf op.organizationId op.initiativeId)
      (F'.updatesOf op.organizationId op.initiativeId) x) :
    F'.Depicts (P.set op.organizationId op.initiativeId x) := by
  intro o i
  by_cases hon : o = op.organizationId ∧ i = op.initiativeId
  · obtain ⟨rfl, rfl⟩ := hon
    rw [Plan.set_self, hrow]
    exact .there hx
  · have habout := h.elsewhere fun he : op.On o i => hon ⟨he.1.symm, he.2.symm⟩
    obtain ⟨-, hps, hus⟩ := about_eq_iff.mp habout
    have hoi := hF o i
    rw [Plan.set, if_neg hon, initiative_of_about habout, hps, hus]
    exact hoi

/-- An open initiative, and what depicts it. -/
theorem Facts.Depicts.opened (hF : F.Depicts P) (hrow : F.Open o i row) : ∃ x, P o i = some x ∧
    x.archived = false ∧ x.revision = row.revision ∧ Portfolio.Depicts row (F.projectsOf o i) (F.updatesOf o i) x := by
  obtain ⟨x, hx, hd⟩ := hF.found hrow.found
  exact ⟨x, hx, hd.archived.trans hrow.unarchived, hd.revision, hd⟩

/-- The memberships after a refresh are the members, seen anew. -/
theorem Depicts.seen {us : List UpdateRow} (hd : Depicts row (F.projectsOf o i) us x) {s : ProjectSnapshot}
    {p : ProjectRow} (hp : F.project o i s.projectId = some p) : (x.members.items.map (Initiative.Seen s)).Perm
      ((Table.put ProjectRow.key (Sql.refreshed s p) (F.projectsOf o i)).map ProjectRow.member) := by
  have hmap := hd.members.map (Initiative.Seen s)
  rw [List.map_map] at hmap
  have hseen : (F.projectsOf o i).map (Initiative.Seen s ∘ ProjectRow.member) =
      (Table.put ProjectRow.key (Sql.refreshed s p) (F.projectsOf o i)).map ProjectRow.member := by
    rw [Table.put, List.map_map]
    refine List.map_congr_left fun q hq => ?_
    have hpid : p.projectId = s.projectId := (project_mem hp).2.2.2
    have hmem : p ∈ F.projectsOf o i := List.mem_of_find?_eq_some hp
    rw [Function.comp_apply, Function.comp_apply, Initiative.Seen]
    by_cases hqid : q.projectId = s.projectId
    · -- it is the one refreshed
      obtain rfl : q = p := List.inj_on_of_nodup_map hd.nodup hq hmem (hqid.trans hpid.symm)
      rw [if_pos (show q.member.projectId = s.projectId from hqid),
        if_pos (show q.key = (Sql.refreshed s q).key from rfl)]
      cases s
      obtain rfl := hqid
      rfl
    · rw [if_neg (show ¬ q.member.projectId = s.projectId from hqid), if_neg fun hk => hqid ?_]
      exact (Prod.mk.inj (Prod.mk.inj hk).2).2.trans hpid
  rwa [hseen] at hmap

/-- The memberships after a detach are the other members. -/
theorem Depicts.removed {us : List UpdateRow} (hd : Depicts row (F.projectsOf o i) us x) (p : String) :
    (x.members.remove p).items.Perm
      ((Table.erase ProjectRow.key (o, i, p) (F.projectsOf o i)).map ProjectRow.member) := by
  have hfilter := hd.members.filter fun m => m.projectId ≠ p
  rw [List.filter_map] at hfilter
  refine hfilter.trans (.of_eq (congrArg _ (List.filter_congr fun q hq => ?_)))
  have hat := (List.mem_filter.mp hq).2
  simp only [ProjectRow.at, decide_eq_true_eq] at hat
  refine decide_eq_decide.mpr (not_congr ?_)
  simp only [ProjectRow.key, Prod.mk.injEq, hat.1, hat.2, true_and]
  exact Iff.rfl

/-- The memberships after a reorder are the members, each where its item puts it. -/
theorem Depicts.moved {us : List UpdateRow} (hd : Depicts row (F.projectsOf o i) us x) (items : List ReorderInput) :
    (x.members.items.map (Initiative.Moved items)).Perm
      (((F.projectsOf o i).map (reordered o i items)).map ProjectRow.member) := by
  have hmap := hd.members.map (Initiative.Moved items)
  rw [List.map_map] at hmap ⊢
  refine hmap.trans (.of_eq (List.map_congr_left fun q hq => ?_))
  have hat : q.at o i = true := (List.mem_filter.mp hq).2
  rw [Function.comp_apply, Function.comp_apply, Initiative.Moved, reordered, if_pos hat]
  have hid : q.member.projectId = q.projectId := rfl
  rw [hid]
  cases items.find? fun item => item.projectId = q.projectId <;> rfl

/-- A member, as a reorder answers it. -/
def Member.item (m : Member) : ReorderItemRecord := ⟨m.projectId, m.position, toString m.revision⟩

/-- The answer of a reorder lists the members where their items put them. -/
theorem reorderOutput_listed {items : List ReorderInput} (h : x.Permutes items) :
    ((reorderOutput items).insertionSort fun a b => a.position ≤ b.position) =
      (x.members.rearrange (Initiative.Moved items) (Initiative.moved_projectId items) h.positions).items.map
        Member.item := by
  have hperm : (reorderOutput items).Perm ((x.members.items.map (Initiative.Moved items)).map Member.item) := by
    have hnodup : ((reorderOutput items).map (·.position)).Nodup := by
      rw [reorderOutput, List.map_map]
      exact h.apart
    refine (List.perm_ext_iff_of_nodup hnodup.of_map ?_).mpr fun r => ?_
    · refine List.Nodup.of_map (·.position) ?_
      rw [List.map_map, List.map_map]
      exact h.positions
    rw [reorderOutput, List.map_map, List.mem_map, List.mem_map]
    constructor
    · rintro ⟨item, hitem, rfl⟩
      obtain ⟨m, hm, hid⟩ := List.mem_map.mp (h.ids.mem_iff.mp (List.mem_map_of_mem hitem))
      obtain ⟨item', hitem', hid', hrevision, hmoved⟩ := h.item hm
      obtain rfl : item' = item := List.inj_on_of_nodup_map (h.ids.nodup_iff.mpr x.members.distinct) hitem' hitem
        (hid'.trans hid)
      refine ⟨m, hm, ?_⟩
      rw [Function.comp_apply, hmoved, hrevision, hid']
      rfl
    · rintro ⟨m, hm, rfl⟩
      obtain ⟨item, hitem, hid, hrevision, hmoved⟩ := h.item hm
      refine ⟨item, hitem, ?_⟩
      rw [Function.comp_apply, hmoved, hrevision, hid]
      rfl
  have hplaces : ((reorderOutput items).map (·.position)).Nodup := by
    rw [reorderOutput, List.map_map]
    exact h.apart
  rw [Lineup.insertionSort_congr hperm hplaces]
  exact (List.map_insertionSort _ _ Member.item _ fun _ _ _ _ => Iff.rfl).symm

/-- A report on the initiative, for the row of one. -/
theorem Depicts.report {ps : List ProjectRow} {us : List UpdateRow} {update : UpdateRow} {u health summary : String}
    {progress : ℤ} {t : Tick} (hd : Depicts row ps us x)
    (hreport : update.report = ⟨u, health, summary, progress, actor, x.revision + 1⟩) :
    Depicts (Sql.advanced health progress (row.revision + 1) t row) ps (us ++ [update])
      (x.report actor u health summary progress) := by
  refine ⟨hd.details, hd.archived, congrArg (· + 1) hd.revision, ?_, hd.members, ?_⟩
  · rw [Initiative.health, Initiative.report, List.getLast?_concat]
    rfl
  · rw [List.map_append, List.map_singleton, hreport, ← hd.reports]
    rfl

/-- The initiative attaches a project that has no row, at a position that no row has. -/
theorem Depicts.attach {us : List UpdateRow} {s : ProjectSnapshot} {position : ℤ}
    (hd : Depicts row (F.projectsOf o i) us x) (hnew : F.project o i s.projectId = none)
    (hcount : (F.projectsOf o i).length < maxProjectsPerInitiative)
    (hfree : Sql.positionTaken (F.projectsOf o i) (Sql.projectRow o i s position) = false) :
    ∃ members : Members, x.attach s position = .ok (x.next members) ∧
      members.items.Perm ((F.projectsOf o i ++ [Sql.projectRow o i s position]).map ProjectRow.member) ∧
      members.find s.projectId = some (Sql.projectRow o i s position).member := by
  have hname : s.projectId ∉ x.members.items.map Member.projectId := fun hmem =>
    projectId_notMem hnew (hd.ids.mem_iff.mp hmem)
  have hplace : position ∉ x.members.items.map Member.position := fun hmem =>
    position_notMem hfree (projectId_notMem hnew) (hd.positions.mem_iff.mp hmem)
  have hsize : ¬ maxProjectsPerInitiative ≤ x.members.items.length := by
    rw [hd.length]
    exact Nat.not_le_of_lt hcount
  have hmember : (Sql.projectRow o i s position).member = ⟨s, position, 1⟩ := rfl
  refine ⟨x.members.insert ⟨s, position, 1⟩ hname hplace (Nat.lt_of_not_le hsize), ?_, ?_, ?_⟩
  · rw [Initiative.attach, dif_neg hname, dif_neg hsize, dif_neg hplace]
  · rw [List.map_append, List.map_singleton, hmember]
    exact (Lineup.items_insert _ _ _ _ _).trans ((hd.members.cons _).trans (List.perm_append_singleton _ _).symm)
  · rw [hmember]
    exact Lineup.find_eq_some.mpr ⟨(Lineup.items_insert _ _ _ _ _).mem_iff.mpr List.mem_cons_self, rfl⟩

/-- The initiative sees a project anew whose row has the revision asked for. -/
theorem Depicts.refresh {us : List UpdateRow} {s : ProjectSnapshot} {p : ProjectRow}
    (hd : Depicts row (F.projectsOf o i) us x) (hold : F.project o i s.projectId = some p)
    (hrev : p.membershipRevision = expected) :
    ∃ members : Members, x.refresh expected s = .ok (x.next members) ∧
      members.items.Perm ((Table.put ProjectRow.key (Sql.refreshed s p) (F.projectsOf o i)).map ProjectRow.member) ∧
      members.find s.projectId = some (Sql.refreshed s p).member := by
  have hfound : x.members.find s.projectId = some p.member := by rw [hd.find, hold, Option.map_some]
  have hseen : Initiative.Seen s p.member = (Sql.refreshed s p).member := by
    have hpid : p.member.projectId = s.projectId := (project_mem hold).2.2.2
    rw [Initiative.Seen, if_pos hpid]
    cases s
    obtain rfl := hpid
    rfl
  have hitems := Lineup.items_rearrange x.members (Initiative.Seen s) (Initiative.seen_projectId s) (x.seen_positions s)
  refine ⟨x.members.rearrange (Initiative.Seen s) (Initiative.seen_projectId s) (x.seen_positions s), ?_,
    hitems.trans (hd.seen hold), ?_⟩
  · rw [Initiative.refresh, hfound]
    exact if_neg (not_not_intro hrev)
  · rw [Lineup.find_eq_some, hitems.mem_iff, ← hseen]
    exact ⟨List.mem_map_of_mem (Lineup.find_eq_some.mp hfound).1,
      (Initiative.seen_projectId s _).trans (Lineup.find_eq_some.mp hfound).2⟩

/-- **A fresh success is a step of the plan**, and answers what the plan does. -/
theorem Fresh.step (h : Fresh actor op F r F') (hF : F.Depicts P) :
    ∃ P', P.Commits (actor, op, r) P' ∧ F'.Depicts P' := by
  have hset : ∀ {x : Initiative} {row' : InitiativeRow},
      P.step actor op = .ok (P.set op.organizationId op.initiativeId x) →
      F'.initiative op.organizationId op.initiativeId = some row' →
      Depicts row' (F'.projectsOf op.organizationId op.initiativeId)
        (F'.updatesOf op.organizationId op.initiativeId) x →
      x.answer op.organizationId op.initiativeId op = some r.timeless →
      ∃ P', P.Commits (actor, op, r) P' ∧ F'.Depicts P' :=
    fun hstep hrow hx hanswer => ⟨_, ⟨hstep, _, Plan.set_self, hanswer⟩, h.depicts_set hF hrow hx⟩
  have hnext : ∀ {row row' : InitiativeRow}, F.Open op.organizationId op.initiativeId row → row'.key = row.key →
      (F.setInitiative row').initiative op.organizationId op.initiativeId = some row' :=
    fun hrow hk => initiative_setInitiative hrow.found hk
  cases id h with
  | @createInitiative v _ rowSeq t _ hnew hc hr =>
    obtain ⟨hps, hus, hnone⟩ := hF.missing hnew
    have hrow := @initiative_insert _ _ _ (Sql.initiativeRow v rowSeq t) hnew
      (by simp [InitiativeRow.at, Sql.initiativeRow])
    have hd : Depicts (Sql.initiativeRow v rowSeq t) (F.projectsOf v.organizationId v.initiativeId)
        (F.updatesOf v.organizationId v.initiativeId)
        (.new ⟨v.name, v.summary, v.ownerSubject, v.targetStart, v.targetDate⟩) := by
      rw [hps, hus]
      exact ⟨rfl, rfl, rfl, rfl, .nil, rfl⟩
    exact hset (if_neg (by rw [hnone]; exact Bool.false_ne_true)) hrow hd
      (congrArg some (initiative_timeless hr hd rfl).symm)
  | @updateInitiative o i _ patch _ row t _ hrow hrev hc hr =>
    obtain ⟨x, hx, harch, hxrev, hd⟩ := hF.opened hrow
    have hkey : row.key = (o, i) := initiative_key hrow.found
    have hd' : Depicts (Sql.patched patch t row) (F.projectsOf o i) (F.updatesOf o i) (x.edit patch) :=
      ⟨by rw [Initiative.edit, hd.details]; rfl, hd.archived, congrArg (· + 1) hd.revision, hd.health, hd.members,
        hd.reports⟩
    exact hset (Plan.revise_of hx harch (hxrev.trans hrev)) (hnext hrow rfl) hd'
      (congrArg some (initiative_timeless hr hd' hkey).symm)
  | @addUpdate o i u _ health summary progress _ row update rowSeq t t' _ hrow hrev hnew hu hc hr =>
    obtain ⟨x, hx, harch, hxrev, hd⟩ := hF.opened hrow
    have hfree : ¬ P.Reported o u := by
      rw [hF.reported, hnew]
      exact Bool.false_ne_true
    have hus : Facts.updatesOf { F.setInitiative (Sql.advanced health progress (row.revision + 1) t row) with
        updates := F.updates ++ [update] } o i = F.updatesOf o i ++ [update] :=
      filter_append_of_pos (by rw [hu]; exact decide_eq_true ⟨rfl, rfl⟩)
    have hreport : update.report = ⟨u, health, summary, progress, actor, x.revision + 1⟩ := by
      rw [hu, hxrev]
      rfl
    refine hset ((Plan.revise_of hx harch (hxrev.trans hrev)).trans (congrArg _ (if_neg hfree))) (hnext hrow rfl)
      (hus.symm ▸ hd.report hreport) ?_
    rw [update_timeless hr, hreport, Initiative.answer, Initiative.report, List.getLast?_concat, hu]
    rfl
  | @archiveInitiative o i _ _ row t _ hrow hrev hc hr =>
    obtain ⟨x, hx, harch, hxrev, hd⟩ := hF.opened hrow
    have hkey : row.key = (o, i) := initiative_key hrow.found
    have hd' : Depicts (Sql.closed t row) (F.projectsOf o i) (F.updatesOf o i) x.archive :=
      ⟨hd.details, rfl, congrArg (· + 1) hd.revision, hd.health, hd.members, hd.reports⟩
    exact hset (Plan.revise_of hx harch (hxrev.trans hrev)) (hnext hrow rfl) hd'
      (congrArg some (archive_timeless hr hd' hkey).symm)
  | @attachProject o i _ position s _ row t _ hrow hrev hnew hcount hp hfree hc hr =>
    obtain ⟨x, hx, harch, hxrev, hd⟩ := hF.opened hrow
    obtain ⟨members, hattach, hperm, hfind⟩ := hd.attach hnew hcount hfree
    have hps : Facts.projectsOf { F.setInitiative (Sql.bumped t row) with
        projects := F.projects ++ [Sql.projectRow o i s position] } o i =
          F.projectsOf o i ++ [Sql.projectRow o i s position] := filter_append_of_pos (decide_eq_true ⟨rfl, rfl⟩)
    refine hset ((Plan.revise_of hx harch (hxrev.trans hrev)).trans (congrArg _ hattach)) (hnext hrow rfl)
      (hps.symm ▸ hd.next hperm rfl rfl rfl rfl) ?_
    rw [project_record hr, ← hxrev]
    exact congrArg (Option.map _) hfind
  | @updateProjectSnapshot o i expected s _ row p t _ hrow hold hrev hp hc hr =>
    obtain ⟨x, hx, harch, hxrev, hd⟩ := hF.opened hrow
    obtain ⟨members, hrefresh, hperm, hfind⟩ := hd.refresh hold hrev
    have hps : Facts.projectsOf { F.setInitiative (Sql.bumped t row) with
        projects := Table.put ProjectRow.key (Sql.refreshed s p) F.projects } o i =
          Table.put ProjectRow.key (Sql.refreshed s p) (F.projectsOf o i) := projectsOf_put _
    refine hset ((Plan.change_of hx harch).trans (congrArg _ hrefresh)) (hnext hrow rfl)
      (hps.symm ▸ hd.next hperm rfl rfl rfl rfl) ?_
    rw [project_record hr, ← hxrev]
    exact congrArg (Option.map _) hfind
  | @detachProject o i p _ expected _ row old t hrow hrev hold holdrev hc =>
    obtain ⟨x, hx, harch, hxrev, hd⟩ := hF.opened hrow
    have hfound : x.members.find p = some old.member := by rw [hd.find, hold, Option.map_some]
    have hdetach : x.detach p expected = .ok (x.next (x.members.remove p)) := by
      rw [Initiative.detach, hfound]
      exact if_neg (not_not_intro holdrev)
    have hps : Facts.projectsOf { F.setInitiative (Sql.bumped t row) with
        projects := Table.erase ProjectRow.key (o, i, p) F.projects } o i =
          Table.erase ProjectRow.key (o, i, p) (F.projectsOf o i) := projectsOf_erase _
    refine hset ((Plan.revise_of hx harch (hxrev.trans hrev)).trans (congrArg _ hdetach)) (hnext hrow rfl)
      (hps.symm ▸ hd.next (hd.removed p) rfl rfl rfl rfl) ?_
    rw [← hxrev]
    rfl
  | @reorderProjects o i _ items _ row t hrow hrev hitems hp hc =>
    obtain ⟨x, hx, harch, hxrev, hd⟩ := hF.opened hrow
    have hpermutes := hd.permutes.mp hitems
    have hreorder : x.reorder items = .ok (x.next (x.members.rearrange (Initiative.Moved items)
        (Initiative.moved_projectId items) hpermutes.positions)) := dif_pos hpermutes
    have hitemsPerm := Lineup.items_rearrange x.members (Initiative.Moved items)
      (Initiative.moved_projectId items) hpermutes.positions
    have hps : Facts.projectsOf { F.setInitiative (Sql.bumped t row) with
        projects := F.projects.map (reordered o i items) } o i = (F.projectsOf o i).map (reordered o i items) :=
      filter_reordered _ _ _ _ _ _
    refine hset ((Plan.revise_of hx harch (hxrev.trans hrev)).trans (congrArg _ hreorder)) (hnext hrow rfl)
      (hps.symm ▸ hd.next (hitemsPerm.trans (hd.moved items)) rfl rfl rfl rfl) ?_
    rw [← hxrev, reorderOutput_listed hpermutes]
    rfl

end

/-! ### The verdict on an operation is the plan's -/

/-- What the tables decide is what the plan does, unless a date has no column. -/
def Verdict.Agrees (v : Verdict) (r : Except DomainFailure Plan) : Prop :=
  match v with
  | .accept => ∃ P, r = .ok P
  | .refuse failure => r = .error failure
  | .overflow => True

theorem agrees_ok {P : Plan} : Verdict.Agrees .accept (.ok P) := ⟨P, rfl⟩

section
variable {F : Facts} {P : Plan} {o i : String} {expected : ℤ} {next : Verdict}
  {f : Initiative → Except DomainFailure Initiative}

/-- Only an initiative that is there and open, at the expected revision, leaves the decision to the rest. -/
theorem mutable_agrees (hF : F.Depicts P) (hnext : ∀ row x, F.Open o i row → P o i = some x →
    Depicts row (F.projectsOf o i) (F.updatesOf o i) x → next.Agrees ((f x).map (P.set o i))) :
    (F.mutable o i expected next).Agrees (P.revise o i expected f) := by
  unfold Facts.mutable Plan.revise Plan.change
  cases hrow : F.initiative o i with
  | none =>
    rw [(hF.missing hrow).2.2]
    exact rfl
  | some row =>
    obtain ⟨x, hx, hd⟩ := hF.found hrow
    rw [hx]
    simp only [hd.archived, hd.revision]
    cases harch : row.archived with
    | true => exact rfl
    | false =>
      simp only [Bool.false_eq_true, if_false]
      by_cases hrev : row.revision = expected
      · rw [if_neg (not_not_intro hrev), if_neg (not_not_intro hrev)]
        exact hnext row x ⟨hrow, harch⟩ hx hd
      · rw [if_pos hrev, if_pos hrev]
        exact rfl

/-- One that expects the revision of a membership only needs its initiative to be open. -/
theorem refreshable_agrees {p : String} (hF : F.Depicts P) (hnext : ∀ row x, P o i = some x →
    Depicts row (F.projectsOf o i) (F.updatesOf o i) x →
    Verdict.Agrees (match F.project o i p with
      | none => .refuse .notAttached
      | some old => if old.membershipRevision ≠ expected then .refuse .revisionConflict else next)
      ((f x).map (P.set o i))) :
    (F.refreshable o i p expected next).Agrees (P.change o i f) := by
  unfold Facts.refreshable Plan.change
  cases hrow : F.initiative o i with
  | none =>
    rw [(hF.missing hrow).2.2]
    exact rfl
  | some row =>
    obtain ⟨x, hx, hd⟩ := hF.found hrow
    rw [hx]
    simp only [hd.archived]
    cases harch : row.archived with
    | true => exact rfl
    | false =>
      simp only [Bool.false_eq_true, if_false]
      exact hnext row x hx hd

/-- **The verdict on an operation is what the plan says of it.** -/
theorem verdict_agrees (hF : F.Depicts P) (actor : String) (op : Op) : (op.verdict F).Agrees (P.step actor op) := by
  have hdates : ∀ {fit : Bool} {r : Except DomainFailure Plan}, (∃ P, r = .ok P) →
      (if fit = true then Verdict.accept else .overflow).Agrees r := by
    intro fit r hr
    cases fit with
    | true => exact hr
    | false => trivial
  cases op with
  | createInitiative v =>
    unfold Op.verdict Plan.step
    by_cases hfit : datesFit v.targetStart v.targetDate = true
    · simp only [hfit, Bool.not_true, Bool.false_eq_true, if_false]
      cases hrow : F.initiative v.organizationId v.initiativeId with
      | none =>
        rw [(hF.missing hrow).2.2]
        exact agrees_ok
      | some row =>
        obtain ⟨x, hx, -⟩ := hF.found hrow
        rw [hx]
        exact rfl
    · simp only [hfit, Bool.not_false, if_true]
      trivial
  | updateInitiative o i expected patch => exact mutable_agrees hF fun row x _ _ _ => hdates ⟨_, rfl⟩
  | addUpdate o i u expected health summary progress =>
    refine mutable_agrees hF fun row x _ _ _ => ?_
    by_cases hu : (F.update o u).isSome = true
    · rw [if_pos hu, if_pos (hF.reported.mpr hu)]
      exact rfl
    · rw [if_neg hu, if_neg fun hr => hu (hF.reported.mp hr)]
      exact agrees_ok
  | archiveInitiative o i expected => exact mutable_agrees hF fun row x _ _ _ => agrees_ok
  | attachProject o i expected s position =>
    refine mutable_agrees hF fun row x _ _ hd => ?_
    unfold Initiative.attach
    cases hp : F.project o i s.projectId with
    | some old =>
      have hmem : s.projectId ∈ x.members.items.map Member.projectId :=
        hd.ids.mem_iff.mpr (List.mem_map.mpr ⟨old, List.mem_of_find?_eq_some hp, (project_mem hp).2.2.2⟩)
      rw [dif_pos hmem]
      exact rfl
    | none =>
      have hmem : s.projectId ∉ x.members.items.map Member.projectId := fun hmem =>
        projectId_notMem hp (hd.ids.mem_iff.mp hmem)
      simp only [Option.isSome_none, Bool.false_eq_true, if_false]
      rw [dif_neg hmem, ← hd.length]
      by_cases hcount : maxProjectsPerInitiative ≤ x.members.items.length
      · rw [if_pos hcount, dif_pos hcount]
        exact rfl
      rw [if_neg hcount, dif_neg hcount]
      cases hfit : datesFit s.targetStart s.targetDate with
      | false => trivial
      | true =>
        simp only [Bool.not_true, Bool.false_eq_true, if_false]
        cases htaken : Sql.positionTaken (F.projectsOf o i) (Sql.projectRow o i s position) with
        | true =>
          obtain ⟨q, hq, hplace⟩ := List.any_eq_true.mp htaken
          have hposition : q.position = position := by
            simp only [Bool.and_eq_true, decide_eq_true_eq] at hplace
            exact hplace.2
          have hplaced : position ∈ x.members.items.map Member.position :=
            hd.positions.mem_iff.mpr (List.mem_map.mpr ⟨q, hq, hposition⟩)
          rw [dif_pos hplaced]
          exact rfl
        | false =>
          have hplaced : position ∉ x.members.items.map Member.position := fun hmem =>
            position_notMem htaken (projectId_notMem hp) (hd.positions.mem_iff.mp hmem)
          rw [dif_neg hplaced]
          exact agrees_ok
  | updateProjectSnapshot o i expected s =>
    refine refreshable_agrees hF fun row x _ hd => ?_
    unfold Initiative.refresh
    rw [hd.find]
    cases hp : F.project o i s.projectId with
    | none => exact rfl
    | some old =>
      simp only [Option.map_some]
      by_cases hrev : old.membershipRevision = expected
      · have hrev' : old.member.revision = expected := hrev
        rw [if_neg (not_not_intro hrev), if_neg (not_not_intro hrev')]
        exact hdates ⟨_, rfl⟩
      · have hrev' : old.member.revision ≠ expected := hrev
        rw [if_pos hrev, if_pos hrev']
        exact rfl
  | detachProject o i p expected expectedMembership =>
    refine mutable_agrees hF fun row x _ _ hd => ?_
    unfold Initiative.detach
    rw [hd.find]
    cases hp : F.project o i p with
    | none => exact rfl
    | some old =>
      simp only [Option.map_some]
      by_cases hrev : old.membershipRevision = expectedMembership
      · have hrev' : old.member.revision = expectedMembership := hrev
        rw [if_pos hrev, if_neg (not_not_intro hrev')]
        exact agrees_ok
      · have hrev' : old.member.revision ≠ expectedMembership := hrev
        rw [if_neg hrev, if_pos hrev']
        exact rfl
  | reorderProjects o i expected items =>
    refine mutable_agrees hF fun row x _ _ hd => ?_
    unfold Initiative.reorder
    by_cases hitems : x.Permutes items
    · rw [if_pos (hd.permutes.mpr hitems), dif_pos hitems]
      exact agrees_ok
    · rw [if_neg fun haccepts => hitems (hd.permutes.mp haccepts), dif_neg hitems]
      exact rfl

end

/-! ### Errors -/

/-- What the plan says of an error a call without a receipt ends with; the server is `lost` at most in that case. -/
def Plan.Says (P : Plan) (c : Call) (lost : Prop) : StorageError → Prop
  | .domain failure => P.step c.command.actor c.op = .error failure
  | .database _ .outOfRange => ¬ c.op.Storable
  | .database _ .fault => lost
  | .time => ∃ P', P.step c.command.actor c.op = .ok P'
  | _ => False

theorem Plan.Says.mono {P : Plan} {c : Call} {lost lost' : Prop} {e : StorageError} (h : P.Says c lost e)
    (hlost : lost → lost') : P.Says c lost' e := by
  cases e with
  | database operation source =>
    cases source with
    | fault => exact hlost h
    | outOfRange | uniqueViolation | checkViolation | foreignKeyViolation | nulCharacter | rowNotFound => exact h
  | domain | receipt | time => exact h

theorem says_of_decided {F : Facts} {P : Plan} {c : Call} {lost timed : Prop} {e : StorageError} (hF : F.Depicts P)
    (h : Decided lost timed (c.op.verdict F) (.error e : Except StorageError Record)) : P.Says c lost e := by
  have hagrees := verdict_agrees hF c.command.actor c.op
  cases e with
  | domain failure =>
    have hv : c.op.verdict F = .refuse failure := h
    rw [hv] at hagrees
    exact hagrees
  | receipt => exact h.elim
  | time =>
    obtain ⟨hv, -⟩ := h
    rw [hv] at hagrees
    exact hagrees
  | database operation source =>
    cases source with
    | fault => exact h
    | outOfRange =>
      have hv : c.op.verdict F = .overflow := h
      exact (overflow_iff.mp hv).2
    | uniqueViolation | checkViolation | foreignKeyViolation | nulCharacter | rowNotFound => exact h.elim

/-! ### A run of the system is a run of the plan -/

/-- What a commit is to the plan: its operation, if it is fresh. -/
def Committed.label (x : Committed) : Option (String × Op × Record) :=
  if x.Fresh then some (x.call.command.actor, x.call.op, x.result) else none

section
variable {P P' : Plan} {F : Facts} {T T' : Tables} {cs : List Committed}

theorem depicts_unique (h : F.Depicts P) (h' : F.Depicts P') : P' = P := by
  funext o i
  cases hrow : F.initiative o i with
  | none => rw [(h.missing hrow).2.2, (h'.missing hrow).2.2]
  | some row =>
    obtain ⟨x, hx, hd⟩ := h.found hrow
    obtain ⟨x', hx', hd'⟩ := h'.found hrow
    rw [hx, hx', hd'.unique hd]

theorem depicts_empty : Tables.empty.Depicts Plan.empty := fun _ _ => .missing

/-- A history is a run, with its commits as the steps. -/
theorem History.trace (h : History T cs T') :
    Trace.Run (fun T (x : Committed) T' => x.before = T ∧ x.after = T' ∧ Outcome x.call T x.result T') T cs T' := by
  induction h with
  | nil => exact .nil _
  | @snoc T₁ cs x h hb hx ih => exact ih.snoc ⟨hb, rfl, Call.outcome (hx fun _ => default)⟩

/-- The plan takes the steps of the fresh commits. -/
theorem History.follows (h : History T cs T') (hT : T.Depicts P) :
    ∃ P', Trace.Run Plan.Commits P (cs.filterMap Committed.label) P' ∧ T'.Depicts P' := by
  refine h.trace.simulate (R := fun (T : Tables) P => T.Depicts P) ?_ hT
  rintro T x T' P ⟨rfl, rfl, ho⟩ hR
  by_cases hx : Committed.Fresh x
  · obtain ⟨P', hcommits, hR'⟩ := (fresh_of_fresh ho hx).step hR
    exact .inr ⟨_, P', if_pos hx, hcommits, hR'⟩
  · rw [after_of_not_fresh ho hx]
    exact .inl ⟨if_neg hx, hR⟩

end

/-- What the plan accepts, and the tables can hold, succeeds alone on a healthy server. -/
theorem accepted_of_plan {plugin : ProjectPortfolioPlugin} {w : Sequences} {S : System} {c : Call} {P P' : Plan}
    (hconf : plugin.Configured) (h : Txn.Steps Call.code (Admitted plugin) (System.initial w) S) (hP : S.db.Depicts P)
    (hc : Admitted plugin c) (hnone : S.db.command c.key = none) (hstep : P.step c.command.actor c.op = .ok P')
    (hstorable : c.op.Storable) {t : ℕ → Tick} (ht : ∀ n, (t n).Healthy)
    (htimely : c.op.Timely Tick.Healthy S.db.toFacts) :
    ∃ r T, atomic c.code t S.db = (.ok r, T) ∧ Fresh c.command.actor c.op S.db.toFacts r T.toFacts := by
  have hagrees := verdict_agrees hP c.command.actor c.op
  rw [hstep] at hagrees
  have hv : c.op.verdict S.db.toFacts = .accept := by
    cases hv : c.op.verdict S.db.toFacts with
    | accept => rfl
    | overflow => exact absurd hstorable (overflow_iff.mp hv).2
    | refuse failure =>
      rw [hv] at hagrees
      cases hagrees
  have hlost : ∀ t : Tick, t.Healthy → t.fault = true → False := by
    rintro t ⟨hhealthy, -⟩ hfault
    rw [hhealthy] at hfault
    cases hfault
  obtain ⟨hvalid, hclean, hkey⟩ := values_of_admitted hconf hc
  have hdecides : Decided False False _ _ :=
    Call.decides hlost (proper_of_reachable hconf h) hvalid hclean hkey (Or.inl htimely) hnone t ht
  rw [hv] at hdecides
  obtain ⟨r, hr⟩ := hdecides.accepted not_false not_false
  have hatomic : atomic c.code t S.db = (.ok r, (atomic c.code t S.db).2) :=
    Prod.ext ((atomic_fst _ _ _).trans hr) rfl
  exact ⟨r, _, hatomic, fresh_of_atomic hatomic hnone⟩

/-- **A run of the system is a run of the plan.** Whatever the attempts of admitted calls have come to, the tables
depict one plan: the one that the fresh commits, in their order, make of an empty one. However the system goes on, the
commits to come are steps from there. A call without a receipt that now ran alone would be a step of the plan and
answer what it does, or end in an error of which the plan knows; one that the plan accepts fails only for a date or a
timestamp, or with the server. And any attempt that a statement ends, ends with an error that the plan of that moment
knows of, and with a lost server only if that statement was lost. -/
theorem system_follows_plan {plugin : ProjectPortfolioPlugin} {w : Sequences} {S : System} (hconf : plugin.Configured)
    (h : Txn.Steps Call.code (Admitted plugin) (System.initial w) S) :
    ∃ P, S.db.Depicts P ∧ (∀ P', S.db.Depicts P' → P' = P) ∧
      Trace.Run Plan.Commits Plan.empty (S.commits.filterMap Committed.label) P ∧
      (∀ S', Txn.Steps Call.code (Admitted plugin) S S' → ∃ cs P', S'.commits = S.commits ++ cs ∧
        Trace.Run Plan.Commits P (cs.filterMap Committed.label) P' ∧ S'.db.Depicts P') ∧
      (∀ c, Admitted plugin c → S.db.command c.key = none → ∀ t : ℕ → Tick,
        (∀ r T, atomic c.code t S.db = (.ok r, T) →
          ∃ P', P.Commits (c.command.actor, c.op, r) P' ∧ T.Depicts P') ∧
        (∀ e T, atomic c.code t S.db = (.error e, T) → T = S.db ∧ P.Says c (∃ n, (t n).fault = true) e) ∧
        ((∃ P', P.step c.command.actor c.op = .ok P') → c.op.Storable → (∀ n, (t n).Healthy) →
          c.op.Timely Tick.Healthy S.db.toFacts → ∃ r T, atomic c.code t S.db = (.ok r, T))) ∧
      (∀ i c ticks (β : Type) (st : Sql β) k log held t e, S.threads i = .active c ticks (.call st k) log held →
        k (st.run t (applyAll log S.db)).1 = .throw e → S.db.command c.key = none → P.Says c (t.fault = true) e) := by
  obtain ⟨P, hrun, hP⟩ := History.follows (reachable_inv h).chain depicts_empty
  refine ⟨P, hP, fun P' hP' => depicts_unique hP hP', hrun, fun S' h' => ?_, fun c hc hnone t =>
    ⟨fun r T hatomic => (fresh_of_atomic hatomic hnone).step hP, fun e T hatomic => ?_,
      fun haccepts hstorable ht htimely => ?_⟩,
    fun i c ticks β st k log held t e hi he hnone =>
      says_of_decided hP ((endsWith_of_exec hconf h hi he).decided hnone)⟩
  · obtain ⟨cs, hcs, hhistory⟩ := later_history h h'
    obtain ⟨P', hrun', hP'⟩ := History.follows hhistory hP
    exact ⟨cs, P', hcs, hrun', hP'⟩
  · refine ⟨atomic_error hatomic, ?_⟩
    by_cases ht : ∀ n, (t n).fault = false
    · have hdecided := decided_healthy hconf h hc hnone (Or.inr trivial) ht
      rw [← atomic_fst, hatomic] at hdecided
      exact (says_of_decided hP hdecided).mono False.elim
    · have hlost : ∃ n, (t n).fault = true := by simpa using ht
      have hdecided := decided_anyhow hconf h hc hnone t
      rw [← atomic_fst, hatomic] at hdecided
      exact (says_of_decided hP hdecided).mono fun _ => hlost
  · obtain ⟨P', hstep⟩ := haccepts
    obtain ⟨r, T, hatomic, -⟩ := accepted_of_plan hconf h hP hc hnone hstep hstorable ht htimely
    exact ⟨r, T, hatomic⟩

/-- What the tables have of an initiative, the plan has. -/
theorem Depicted.shown {row : Option InitiativeRow} {ps : List ProjectRow} {us : List UpdateRow} {y : Option Initiative}
    (h : Depicted row ps us y) : y.map (·.revision) = row.map (·.revision) ∧
      (y.map fun x => x.members.items.length) = row.map fun _ => ps.length := by
  cases h with
  | missing => exact ⟨rfl, rfl⟩
  | there h => exact ⟨congrArg some h.revision, congrArg some h.length⟩

/-- An initiative is made and a project attached: the plan of this run has it at its second revision, with
one project. -/
theorem system_follows_plan_attached : ∃ (S : System) (P : Plan),
    Trace.Run Plan.Commits Plan.empty (S.commits.filterMap Committed.label) P ∧ S.db.Depicts P ∧ S.commits.length = 2 ∧
    (P "acme" "alpha").map (·.revision) = some 2 ∧
    ((P "acme" "alpha").map fun x => x.members.items.length) = some 1 := by
  have hrun : ((System.initial ⟨0, 0⟩).schedule Call.code 2 sampleMembership).bind (fun S =>
      (S.schedule Call.code 2 []).map fun S' => (S'.commits.length, S'.db.revision "acme" "alpha",
        (S'.db.projectsOf "acme" "alpha").length)) = some (2, some 2, 1) := by decide +kernel
  obtain ⟨S, S', h, h', hfacts⟩ := @System.scheduled (Admitted samplePlugin) _ _ _ _ _ _ _ hrun (by decide +kernel)
    (Txn.starts_append admitted_sampleMembership_self Txn.starts_nil)
  obtain ⟨hcommits, hfacts⟩ := Prod.mk.inj hfacts
  obtain ⟨hrevision, hprojects⟩ := Prod.mk.inj hfacts
  obtain ⟨P, hP, -, hfollows, -⟩ := system_follows_plan ⟨by decide +kernel, by decide +kernel⟩ (h.trans h')
  obtain ⟨hx, hlength⟩ := (hP "acme" "alpha").shown
  obtain ⟨row, hrow, -⟩ := Option.map_eq_some_iff.mp hrevision
  refine ⟨S', P, hfollows, hP, hcommits, hx.trans hrevision, hlength.trans ?_⟩
  rw [hrow, hprojects]
  rfl

end Portfolio
