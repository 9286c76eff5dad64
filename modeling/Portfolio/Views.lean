/-
# Reads are views of the plan

Whatever a read of an initiative answers is read off the initiative of the plan
that the tables depict: the initiative as it is, its projects in their order
from a position on, its reports in the order they were made from a number on,
and the rollup of its projects. A read refuses only an initiative that the plan
has not, and fails only for a cause (`Excused`). The statements of a read may
each see another state, as long as all of them depict the same initiative: that
is so while no fresh commit is on it, whatever the others do.

Key definitions: `Showing`, `Viewed`, `Excused`, `Listed`, `Still`.
Key theorems: `showing_of_still`, `sees_readRollup`, `reads_show_plan`.
-/
import Portfolio.Refinement
import Portfolio.Aggregates
import Portfolio.Sequence
import Portfolio.PageWalks
import Mathlib.Data.List.Forall2

namespace Portfolio

open Txn Txn.Prog

/-- The initiative is there, with a timestamp that has no text. -/
def Tables.Undated (T : Tables) (o i : String) : Prop :=
  ∃ row, T.initiative o i = some row ∧ ¬ Printable row.timestamps

/-- The tables depict this initiative under the ids, its reports under these numbers, with rows as the operations
leave them; a timestamp of the initiative lacks a text only where `undated`. -/
structure Showing (o i : String) (y : Option Initiative) (numbers : List ℤ) (undated : Prop) (T : Tables) : Prop where
  depicted : Depicted (T.initiative o i) (T.projectsOf o i) (T.updatesOf o i) y
  represented : Represented (T.initiative o i) (T.projectsOf o i) (T.updatesOf o i)
  sequenced : (T.updatesOf o i).Pairwise fun u v => u.rowSeq < v.rowSeq
  numbered : (T.updatesOf o i).map (·.rowSeq) = numbers
  observed : ∀ p ∈ T.projectsOf o i, (formatTimestamp p.observedAt).isSome = true
  answerable : ∀ u ∈ T.updatesOf o i, (updateFromRow u).isSome = true
  dated : T.Undated o i → undated

/-- Why a read fails: a statement is lost, a text that is bound has a NUL, a timestamp has no text. -/
inductive Excused (lost : Prop) (binds : List String) (undated : Prop) : StorageError → Prop
  | fault {operation : String} (h : lost) : Excused lost binds undated (.database operation .fault)
  | nulCharacter {operation : String} (h : ¬ Clean binds) :
    Excused lost binds undated (.database operation .nulCharacter)
  | time (h : undated) : Excused lost binds undated .time

theorem Excused.mono {lost undated undated' : Prop} {binds : List String} {e : StorageError}
    (h : Excused lost binds undated e) (himp : undated → undated') : Excused lost binds undated' e := by
  cases h with
  | fault h => exact .fault h
  | nulCharacter h => exact .nulCharacter h
  | time h => exact .time (himp h)

/-- The result is a view, refuses what is missing, or is an error that is excused. -/
inductive Viewed {α : Type} (missing : Prop) (view : α → Prop) (excuse : StorageError → Prop) :
    Except StorageError α → Prop
  | view {a : α} (h : view a) : Viewed missing view excuse (.ok a)
  | missing (h : missing) : Viewed missing view excuse (.error (.domain .notFound))
  | failed {e : StorageError} (h : excuse e) : Viewed missing view excuse (.error e)

theorem Viewed.mono {α : Type} {missing : Prop} {view view' : α → Prop} {excuse excuse' : StorageError → Prop}
    {r : Except StorageError α} (h : Viewed missing view excuse r) (hview : ∀ a, view a → view' a)
    (hexcuse : ∀ e, excuse e → excuse' e) : Viewed missing view' excuse' r := by
  cases h with
  | view h => exact .view (hview _ h)
  | missing h => exact .missing h
  | failed h => exact .failed (hexcuse _ h)

/-! ### Lists in order -/

section
variable {F : Facts} {o i : String} {row : InitiativeRow} {us : List UpdateRow} {x : Initiative}

/-- The memberships beyond a position, in their order, are the members beyond it. -/
theorem depicted_members (hd : Depicts row (F.projectsOf o i) us x) (after : ℤ) :
    (((F.projectsOf o i).filter fun r => decide (after < r.position)).insertionSort fun r s => Sql.orderLe r s).map
      ProjectRow.member = x.members.items.filter fun m => decide (after < m.position) := by
  have hpositions : ((F.projectsOf o i).map fun p => p.position).Nodup := hd.positions.nodup_iff.mp x.members.places
  rw [insertionSort_orderLe hpositions]
  have hfilter := hd.members.filter fun m => decide (after < m.position)
  rw [List.filter_map] at hfilter
  have hperm : ((Paging.after (fun p : ProjectRow => p.position) after (F.projectsOf o i)).map ProjectRow.member).Perm
      (x.members.items.filter fun m => decide (after < m.position)) :=
    ((List.perm_insertionSort _ _).map ProjectRow.member).trans hfilter.symm
  exact hperm.eq_of_pairwise (fun a b _ _ hab hba => absurd (hab.trans hba) (lt_irrefl _))
    (List.pairwise_map.mpr (Paging.after_pairwise hpositions)) (x.members.ordered.filter _)

/-- What is beyond a number, of a list in order. -/
theorem after_eq_filter {α : Type} {key : α → ℤ} {k : ℤ} {l : List α} (h : l.Pairwise fun a b => key a < key b) :
    Paging.after key k l = l.filter fun a => decide (k < key a) :=
  List.Pairwise.insertionSort_eq ((h.filter _).imp le_of_lt)

end

/-! ### Programs that read -/

section
variable {α β : Type} {K : Tick → Prop} {lost undated : Prop} (hlost : ∀ t, K t → t.fault = true → lost)
  {I : Tables → Prop} {y : Option Initiative} {numbers : List ℤ} {lacking : Prop} {view : α → Prop}
  {excuse : StorageError → Prop} {o i : String}

include hlost in
/-- A SELECT is lost, refuses a text with a NUL, or goes on with its answer. -/
theorem views_select {binds : List String} {answer : Tables → β} {operation : String} {f : β → Tx α}
    {Q : Except StorageError α → Prop} (hfault : lost → Q (.error (.database operation .fault)))
    (hnul : ¬ Clean binds → Q (.error (.database operation .nulCharacter)))
    (h : ∀ T, I T → (f (answer T)).Sees K I Q) :
    (perform (Sql.select binds answer) (.database operation) >>= f).Sees K I Q := by
  refine Prog.Sees.bind (sees_perform fun t T ht hT => ?_)
  cases hf : t.fault with
  | true =>
    simp only [Sql.select, Sql.of, hf, if_true]
    exact hfault (hlost t ht hf)
  | false =>
    cases hn : binds.any hasNul with
    | true =>
      simp only [Sql.select, Sql.of, hf, hn, Bool.false_eq_true, if_false, if_true]
      refine hnul fun hclean => ?_
      rw [hclean.any] at hn
      cases hn
    | false =>
      simp only [Sql.select, Sql.of, hf, hn, Bool.false_eq_true, if_false]
      exact h T hT

include hlost in
/-- Its failures are excused. -/
theorem viewed_select {binds : List String} {answer : Tables → β} {operation : String} {f : β → Tx α}
    (h : ∀ T, I T → (f (answer T)).Sees K I (Viewed lacking view (Excused lost binds undated))) :
    (perform (Sql.select binds answer) (.database operation) >>= f).Sees K I
      (Viewed lacking view (Excused lost binds undated)) :=
  views_select hlost (fun h => .failed (.fault h)) (fun h => .failed (.nulCharacter h)) h

theorem viewed_formatted {a : Option α} (h : ∀ b, a = some b → view b) (hnone : a = none → excuse .time) :
    (formatted a).Sees K I (Viewed lacking view excuse) := by
  cases a with
  | none => exact sees_throw (.failed (hnone rfl))
  | some a => exact sees_ret (.view (h a rfl))

/-- A read and what follows its views. -/
theorem viewed_bind {p : Tx β} {f : β → Tx α} {view' : β → Prop} {excuse' : StorageError → Prop}
    (h : p.Sees K I (Viewed lacking view' excuse')) (hexcuse : ∀ e, excuse' e → excuse e)
    (hf : ∀ b, view' b → (f b).Sees K I (Viewed lacking view excuse)) :
    (p >>= f).Sees K I (Viewed lacking view excuse) := by
  refine Prog.Sees.bind (h.mono fun r hr => ?_)
  cases hr with
  | view h => exact hf _ h
  | missing h => exact .missing h
  | failed h => exact .failed (hexcuse _ h)

/-- What is there shows the initiative. -/
theorem Showing.found {T : Tables} {row : InitiativeRow} (h : Showing o i y numbers undated T)
    (hrow : T.initiative o i = some row) : ∃ x, y = some x ∧ Depicts row (T.projectsOf o i) (T.updatesOf o i) x := by
  have hd := h.depicted
  rw [hrow] at hd
  exact hd.of_row

theorem Showing.missing {T : Tables} (h : Showing o i y numbers undated T) (hrow : T.initiative o i = none) :
    y = none := by
  have hd := h.depicted
  rw [hrow] at hd
  exact hd.of_none.2.2

/-- The initiative, as it is shown, in a record with any times. -/
def ShownAs (o i : String) (x : Initiative) (r : InitiativeRecord) : Prop :=
  (Record.initiative r).timeless = .initiative (x.record o i)

/-- A view of the initiative, which is there. -/
def Initiative.Viewed (y : Option Initiative) (view : Initiative → α → Prop) (a : α) : Prop :=
  ∃ x, y = some x ∧ view x a

include hlost

theorem sees_getInitiative : (getInitiative o i).Sees K (Showing o i y numbers undated)
    (Viewed (y = none) (Initiative.Viewed y (ShownAs o i)) (Excused lost [o, i] undated)) := by
  refine viewed_select hlost fun T hT => ?_
  cases hrow : T.initiative o i with
  | none => exact sees_throw (.missing (hT.missing hrow))
  | some row =>
    obtain ⟨x, hx, hd⟩ := hT.found hrow
    obtain ⟨-, ho, hi⟩ := initiative_mem hrow
    refine viewed_formatted
      (a := initiativeFromRow row (T.projectsOf row.organizationId row.initiativeId).length) (fun r hr => ⟨x, hx, ?_⟩)
      fun hnone => .time (hT.dated ⟨row, hrow, fun hprintable => ?_⟩)
    · rw [ho, hi] at hr
      exact initiative_timeless hr hd (initiative_key hrow)
    · have hsome := (@initiativeFromRow_isSome row
        (T.projectsOf row.organizationId row.initiativeId).length).mpr hprintable
      rw [hnone] at hsome
      cases hsome

/-- A list of an initiative that is there. -/
theorem sees_ensureExists {f : Unit → Tx α} (h : ∀ x, y = some x → (f ()).Sees K (Showing o i y numbers undated)
      (Viewed (y = none) view (Excused lost [o, i] False))) :
    (ensureExists o i >>= f).Sees K (Showing o i y numbers undated)
      (Viewed (y = none) view (Excused lost [o, i] False)) := by
  rw [ensureExists, bind_assoc]
  refine viewed_select hlost fun T hT => ?_
  cases hrow : T.initiative o i with
  | none => exact sees_throw (.missing (hT.missing hrow))
  | some row =>
    obtain ⟨x, hx, -⟩ := hT.found hrow
    exact h x hx

/-- The projects beyond a position, so many of them. -/
def Initiative.projectsBeyond (x : Initiative) (after limit : ℤ) : List ProjectRecord :=
  ((x.members.items.filter fun m => decide (after < m.position)).take limit.toNat).map fun m => m.record none

theorem sees_listProjects {after : Option ℤ} {limit : ℤ} :
    (listProjects o i after limit).Sees K (Showing o i y numbers undated) (Viewed (y = none)
      (Initiative.Viewed y fun x rs => rs = x.projectsBeyond (after.getD (-1)) limit ∧
        ∀ m ∈ x.members.items, 0 ≤ m.position) (Excused lost [o, i] False)) := by
  refine sees_ensureExists hlost fun x hx => viewed_select hlost fun T hT => viewed_formatted (fun rs hrs =>
    ⟨x, hx, ?_⟩) fun hnone => ?_
  · have hd := hT.depicted
    rw [hx] at hd
    obtain ⟨row, -, hd⟩ := hd.of_initiative
    refine ⟨?_, fun m hm => ?_⟩
    · have hrecords : rs.map id = _ := Json.map_eq_of_forall₂ (R := fun row r => projectFromRow row none = some r)
        (f := fun row : ProjectRow => row.member.record none) (g := id) (fun _ _ h => project_record h)
        (Json.forall₂_of_mapM hrs)
      rw [List.map_id] at hrecords
      rw [hrecords, Initiative.projectsBeyond, ← depicted_members hd, ← List.map_take, List.map_map]
      rfl
    · obtain ⟨p, hp, rfl⟩ := List.mem_map.mp (hd.members.mem_iff.mp hm)
      exact (ProjectRow.checks_iff.mp (hT.represented.checked p hp)).1
  · -- every membership has a text for its instant
    obtain ⟨rs, hrs⟩ := @Json.exists_mapM _ _ (fun row : ProjectRow => projectFromRow row none)
      ((((T.projectsOf o i).filter fun r => decide (after.getD (-1) < r.position)).insertionSort fun r s =>
        Sql.orderLe r s).take limit.toNat) fun p hp => by
          have hlisted := (List.perm_insertionSort _ _).mem_iff.mp (List.mem_of_mem_take hp)
          exact projectFromRow_isSome.mpr (hT.observed p (List.mem_filter.mp hlisted).1)
    rw [hrs] at hnone
    cases hnone

/-- The reports beyond a number, so many of them, each with its number: `numbers` are those of all of them. -/
def Initiative.reportsBeyond (x : Initiative) (o i : String) (numbers : List ℤ) (after limit : ℤ) :
    List (ℤ × Record) :=
  (((numbers.zip x.reports).filter fun r => decide (after < r.1)).take limit.toNat).map fun r =>
    (r.1, .update (r.2.record o i))

/-- The record of an update with any times, and its number. -/
def UpdateRecord.numbered (r : UpdateRecord) : ℤ × Record := (r.rowSeq, (Record.update r).timeless)

omit hlost in
theorem numbered_of_row {row : UpdateRow} {r : UpdateRecord} (h : updateFromRow row = some r) :
    r.numbered = (row.rowSeq, .update (row.report.record row.organizationId row.initiativeId)) := by
  refine Prod.ext ?_ (update_timeless h)
  obtain ⟨createdAt, -, h⟩ := Option.bind_eq_some_iff.mp h
  rw [← Option.some.inj h]
  rfl

theorem sees_listUpdates {after : Option ℤ} {limit : ℤ} :
    (listUpdates o i after limit).Sees K (Showing o i y numbers undated) (Viewed (y = none)
      (Initiative.Viewed y fun x rs =>
        rs.map UpdateRecord.numbered = x.reportsBeyond o i numbers (after.getD 0) limit)
      (Excused lost [o, i] False)) := by
  refine sees_ensureExists hlost fun x hx => viewed_select hlost fun T hT => ?_
  have hmem : ∀ u ∈ (Paging.after (fun u : UpdateRow => u.rowSeq) (after.getD 0) (T.updatesOf o i)).take limit.toNat,
      u ∈ T.updatesOf o i := fun u hu => (Paging.mem_after.mp (List.mem_of_mem_take hu)).1
  refine viewed_formatted (fun rs hrs => ⟨x, hx, ?_⟩) fun hnone => ?_
  · have hd := hT.depicted
    rw [hx] at hd
    obtain ⟨row, -, hd⟩ := hd.of_initiative
    have hrecords := Json.map_eq_of_forall₂ (R := fun row r => updateFromRow row = some r)
      (f := fun u : UpdateRow => (u.rowSeq, Record.update (u.report.record u.organizationId u.initiativeId)))
      (g := UpdateRecord.numbered) (fun _ _ h => numbered_of_row h) (Json.forall₂_of_mapM hrs)
    have hids : ∀ u ∈ T.updatesOf o i, u.organizationId = o ∧ u.initiativeId = i := fun u hu => by
      simpa [UpdateRow.at] using (List.mem_filter.mp hu).2
    show rs.map UpdateRecord.numbered = _
    rw [hrecords, Initiative.reportsBeyond, hd.reports, ← hT.numbered, List.zip_map', List.filter_map, ← List.map_take,
      List.map_map]
    have hfilter := @after_eq_filter _ (fun u : UpdateRow => u.rowSeq) (after.getD 0) _ hT.sequenced
    change ((Paging.after (fun u : UpdateRow => u.rowSeq) (after.getD 0) (T.updatesOf o i)).take limit.toNat).map _ = _
    refine (List.map_congr_left fun u hu => ?_ :
      _ = ((Paging.after (fun u : UpdateRow => u.rowSeq) (after.getD 0) (T.updatesOf o i)).take limit.toNat).map
        fun u => (u.rowSeq, Record.update (u.report.record o i))).trans ?_
    · obtain ⟨ho, hi⟩ := hids u (hmem u hu)
      rw [ho, hi]
    · rw [hfilter]
      rfl
  · obtain ⟨rs, hrs⟩ := @Json.exists_mapM _ _ updateFromRow _ fun u hu => hT.answerable u (hmem u hu)
    cases hrs.symm.trans hnone

/-- The rollup of its projects. -/
theorem sees_readRollup {now : Instant} : (readRollup o i now).Sees K (Showing o i y numbers undated)
    (Viewed (y = none) (Initiative.Viewed y fun x r =>
      computeRollup (x.record o i) (x.members.items.map fun m => m.record none) now = some r)
      (Excused lost [o, i] (undated ∨ formatInstant now = none))) := by
  refine viewed_bind (sees_getInitiative hlost) (fun e he => he.mono Or.inl) fun initiative hinitiative => ?_
  obtain ⟨x, hx, hshown⟩ := hinitiative
  refine viewed_bind (sees_listProjects hlost) (fun e he => he.mono False.elim) fun projects hprojects => ?_
  obtain ⟨x', hx', hprojects, hpositions⟩ := hprojects
  obtain rfl := Option.some.inj (hx.symm.trans hx')
  have hall : projects = x.members.items.map fun m => m.record none := by
    have hbeyond : (x.members.items.filter fun m => decide (-1 < m.position)) = x.members.items :=
      List.filter_eq_self.mpr fun m hm => by
        have := hpositions m hm
        exact decide_eq_true (by omega)
    rw [hprojects, Initiative.projectsBeyond, Option.getD_none, hbeyond, Int.toNat_natCast,
      List.take_of_length_le x.members.bounded]
  refine viewed_formatted (fun r hr => ⟨x, hx, ?_⟩) fun hnone => .time (Or.inr ?_)
  · rw [hall] at hr
    -- the rollup reads none of the times of the initiative
    have hblind : computeRollup { initiative with createdAt := "", updatedAt := "", archivedAt := none, rowSeq := 0 }
        (x.members.items.map fun m => m.record none) now = some r := hr
    rwa [Record.initiative.inj hshown] at hblind
  · cases hnow : formatInstant now with
    | none => rfl
    | some computedAt =>
      rw [computeRollup, hnow] at hnone
      cases hnone

end

/-! ### Initiatives of an organization -/

/-- A row that is there is the one of its initiative. -/
theorem Facts.Keyed.initiative {F : Facts} (hF : F.Keyed) {row : InitiativeRow} (hrow : row ∈ F.initiatives) :
    F.initiative row.organizationId row.initiativeId = some row := by
  have hmem : row ∈ F.initiatives.filter (InitiativeRow.at row.organizationId row.initiativeId) :=
    List.mem_filter.mpr ⟨hrow, decide_eq_true ⟨rfl, rfl⟩⟩
  cases hfind : F.initiative row.organizationId row.initiativeId with
  | none => exact absurd (List.head?_eq_none_iff.mp hfind ▸ hmem) List.not_mem_nil
  | some row' =>
    obtain ⟨hrow', ho, hi⟩ := initiative_mem hfind
    have hkey : InitiativeRow.key row' = InitiativeRow.key row := Prod.ext ho hi
    rw [Table.Unique.eq hF hrow' hrow hkey]

theorem initiativeFromRow_keys {row : InitiativeRow} {n : ℕ} {r : InitiativeRecord}
    (h : initiativeFromRow row n = some r) : r.initiativeId = row.initiativeId ∧ r.rowSeq = row.rowSeq := by
  simp only [initiativeFromRow, Option.bind_eq_bind, Option.bind_eq_some_iff] at h
  obtain ⟨_, -, _, -, _, -, h⟩ := h
  rw [← Option.some.inj h]
  exact ⟨rfl, rfl⟩

/-- The initiative is one of those a list is of: beyond the cursor, and archived only if these are asked for. -/
def Tables.Lists (T : Tables) (o : String) (includeArchived : Bool) (after : ℤ) (row : InitiativeRow) : Prop :=
  T.initiative o row.initiativeId = some row ∧ (row.archived = true → includeArchived = true) ∧ after < row.rowSeq

/-- Initiatives of the plan beyond a cursor, the archived ones only if they are asked for, in the order of their
numbers, and none is left out that comes before one of them or for which there is room. -/
structure Listed (T : Tables) (P : Plan) (o : String) (includeArchived : Bool) (after limit : ℤ)
    (rs : List InitiativeRecord) : Prop where
  shown : ∀ r ∈ rs, ∃ x row, P o r.initiativeId = some x ∧ ShownAs o r.initiativeId x r ∧
    T.Lists o includeArchived after row ∧ r.initiativeId = row.initiativeId ∧ r.rowSeq = row.rowSeq
  ordered : rs.Pairwise fun r r' => r.rowSeq < r'.rowSeq
  bounded : rs.length ≤ limit.toNat
  complete : ∀ row, T.Lists o includeArchived after row → (∃ r ∈ rs, r.initiativeId = row.initiativeId) ∨
    (rs.length = limit.toNat ∧ ∀ r ∈ rs, r.rowSeq < row.rowSeq)

/-- The rows a page of them is the first of. -/
def Tables.listing (T : Tables) (o : String) (includeArchived : Bool) (after : ℤ) : List InitiativeRow :=
  (T.initiatives.filter fun r => decide (r.organizationId = o) && (includeArchived || !r.archived) &&
    decide (after < r.rowSeq)).insertionSort fun r s => r.rowSeq ≤ s.rowSeq

section
variable {T : Tables} {P : Plan} {o : String} {includeArchived : Bool} {after limit : ℤ}

theorem mem_listing (hkeyed : T.toFacts.Keyed) {row : InitiativeRow} :
    row ∈ T.listing o includeArchived after ↔ row.organizationId = o ∧ T.Lists o includeArchived after row := by
  rw [Tables.listing, List.mem_insertionSort, List.mem_filter]
  simp only [Bool.and_eq_true, decide_eq_true_eq, Bool.or_eq_true, Bool.not_eq_eq_eq_not, Bool.not_true]
  constructor
  · rintro ⟨hmem, ⟨rfl, harchived⟩, hafter⟩
    refine ⟨rfl, hkeyed.initiative hmem, fun ha => harchived.resolve_right ?_, hafter⟩
    rw [ha]
    exact Bool.noConfusion
  · rintro ⟨rfl, hrow, harchived, hafter⟩
    refine ⟨(initiative_mem hrow).1, ⟨rfl, ?_⟩, hafter⟩
    cases ha : row.archived with
    | true => exact Or.inl (harchived ha)
    | false => exact Or.inr rfl

theorem pairwise_listing (hnumbers : (T.initiatives.map fun r => r.rowSeq).Nodup) :
    (T.listing o includeArchived after).Pairwise fun r s => r.rowSeq < s.rowSeq := by
  have hle : (T.listing o includeArchived after).Pairwise fun r s => r.rowSeq ≤ s.rowSeq :=
    List.pairwise_insertionSort _ _
  have hne : (T.listing o includeArchived after).Pairwise fun r s => r.rowSeq ≠ s.rowSeq := by
    rw [Tables.listing, (List.perm_insertionSort _ _).pairwise_iff fun h => h.symm]
    exact (List.pairwise_map.mp hnumbers).filter _
  exact (hle.and hne).imp fun ⟨hle, hne⟩ => lt_of_le_of_ne hle hne

/-- The records of its first rows are such a list. -/
theorem listed_of_forall₂ {rs : List InitiativeRecord} (hkeyed : T.toFacts.Keyed)
    (hnumbers : (T.initiatives.map fun r => r.rowSeq).Nodup) (hP : T.toFacts.Depicts P)
    (h : List.Forall₂
      (fun row r => initiativeFromRow row (T.projectsOf row.organizationId row.initiativeId).length = some r)
      ((T.listing o includeArchived after).take limit.toNat) rs) : Listed T P o includeArchived after limit rs := by
  have hsorted := @pairwise_listing T o includeArchived after hnumbers
  have hnumbered : rs.map (·.rowSeq) = ((T.listing o includeArchived after).take limit.toNat).map (·.rowSeq) :=
    Json.map_eq_of_forall₂ (f := fun row : InitiativeRow => row.rowSeq) (g := fun r : InitiativeRecord => r.rowSeq)
      (fun _ _ hr => (initiativeFromRow_keys hr).2) h
  exact {
    shown := fun r hr => by
      obtain ⟨row, hrow, hr⟩ := Json.mem_of_forall₂ h hr
      obtain ⟨rfl, hlisted⟩ := (mem_listing hkeyed).mp (List.mem_of_mem_take hrow)
      obtain ⟨hid, hnumber⟩ := initiativeFromRow_keys hr
      obtain ⟨x, hx, hd⟩ := Facts.Depicts.found hP hlisted.1
      rw [hid]
      exact ⟨x, row, hx, initiative_timeless hr hd rfl, hlisted, rfl, hnumber⟩
    ordered := by
      have hpairwise : (rs.map (·.rowSeq)).Pairwise fun m n => m < n := by
        rw [hnumbered]
        exact List.pairwise_map.mpr hsorted.take
      exact List.pairwise_map.mp hpairwise
    bounded := by
      rw [← h.length_eq]
      exact List.length_take_le _ _
    complete := fun row hrow => by
      have hmem : row ∈ T.listing o includeArchived after :=
        (mem_listing hkeyed).mpr ⟨(initiative_mem hrow.1).2.1, hrow⟩
      rw [← List.take_append_drop limit.toNat (T.listing o includeArchived after)] at hmem
      rcases List.mem_append.mp hmem with htake | hdrop
      · have hids : rs.map (·.initiativeId) =
            ((T.listing o includeArchived after).take limit.toNat).map (·.initiativeId) :=
          Json.map_eq_of_forall₂ (f := fun row : InitiativeRow => row.initiativeId)
            (g := fun r : InitiativeRecord => r.initiativeId) (fun _ _ hr => (initiativeFromRow_keys hr).1) h
        have hlisted : row.initiativeId ∈ rs.map (·.initiativeId) := by
          rw [hids]
          exact List.mem_map_of_mem htake
        exact Or.inl (List.mem_map.mp hlisted)
      · refine Or.inr ⟨?_, fun r hr => ?_⟩
        · rw [← h.length_eq, List.length_take]
          have hlong := List.length_pos_of_mem hdrop
          rw [List.length_drop] at hlong
          omega
        · have hnumber : r.rowSeq ∈ ((T.listing o includeArchived after).take limit.toNat).map (·.rowSeq) := by
            rw [← hnumbered]
            exact List.mem_map_of_mem hr
          obtain ⟨row', hrow', he⟩ := List.mem_map.mp hnumber
          rw [← he]
          rw [← List.take_append_drop limit.toNat (T.listing o includeArchived after)] at hsorted
          exact (List.pairwise_append.mp hsorted).2.2 row' hrow' row hdrop }

end

theorem sees_listInitiatives {K : Tick → Prop} {lost : Prop} (hlost : ∀ t, K t → t.fault = true → lost) {o : String}
    {P : Plan} {includeArchived : Bool} {after : Option ℤ} {limit : ℤ} {T : Tables}
    (hkeyed : T.toFacts.Keyed) (hnumbers : (T.initiatives.map fun r => r.rowSeq).Nodup) (hP : T.toFacts.Depicts P) :
    (listInitiatives o includeArchived after limit).Sees K (fun T' => T' = T) (Viewed False
      (Listed T P o includeArchived (after.getD 0) limit)
      (Excused lost [o] (∃ row ∈ T.initiatives, row.organizationId = o ∧ ¬ Printable row.timestamps))) := by
  refine viewed_select hlost fun T' hT' => ?_
  subst hT'
  refine viewed_formatted (fun rs hrs => ?_) fun hnone => .time ?_
  · exact listed_of_forall₂ hkeyed hnumbers hP (List.forall₂_map_left_iff.mp (Json.forall₂_of_mapM hrs))
  · by_contra hdated
    obtain ⟨rs, hrs⟩ := @Json.exists_mapM _ _ (fun row : InitiativeRow × ℕ => initiativeFromRow row.1 row.2)
      (((T'.listing o includeArchived (after.getD 0)).take limit.toNat).map fun row =>
        (row, (T'.projectsOf row.organizationId row.initiativeId).length))
      fun row hrow => by
        obtain ⟨row, hmem, rfl⟩ := List.mem_map.mp hrow
        obtain ⟨ho, hlisted⟩ := (mem_listing hkeyed).mp (List.mem_of_mem_take hmem)
        refine initiativeFromRow_isSome.mpr (by_contra fun hprintable => hdated ?_)
        exact ⟨row, (initiative_mem hlisted.1).1, ho, hprintable⟩
    cases hrs.symm.trans hnone

/-! ### Reads while others go on -/

/-- What a statement may see while no fresh commit is on the initiative. -/
def Still (ok : Call → Prop) (S : System) (o i : String) (T : Tables) : Prop :=
  ∃ S' cs, Txn.Steps Call.code ok S S' ∧ S'.commits = S.commits ++ cs ∧
    (∀ x ∈ cs, Committed.Fresh x → ¬ x.call.op.On o i) ∧ S'.db = T

theorem showing_of_still {ok : Call → Prop} {w : Sequences} {S : System} {P : Plan} {o i : String} {T : Tables}
    (h : Txn.Steps Call.code ok (System.initial w) S) (hP : S.db.Depicts P) (hT : Still ok S o i T) :
    Showing o i (P o i) ((S.db.updatesOf o i).map (·.rowSeq)) (S.db.Undated o i) T := by
  obtain ⟨S', cs, hsteps, hcs, hquiet, rfl⟩ := hT
  obtain ⟨ds, hds, hist⟩ := later_history h hsteps
  obtain rfl : ds = cs := List.append_cancel_left (hds.symm.trans hcs)
  have habout : S'.db.about o i = S.db.about o i := by
    refine Txn.Chain.preserves Call.code (I := fun U : Tables => U.about o i = S.db.about o i) hist rfl
      fun x hx hb => ?_
    have ho := outcome_of_mem hist hx
    by_cases hf : Committed.Fresh x
    · exact ((fresh_of_fresh ho hf).elsewhere (hquiet x hx hf)).trans hb
    · rw [after_of_not_fresh ho hf]
      exact hb
  obtain ⟨-, hprojects, hupdates⟩ := about_eq_iff.mp habout
  have hrow := initiative_of_about habout
  have hreached := h.trans hsteps
  have hchain := (reachable_inv hreached).chain
  exact {
    depicted := by
      rw [hrow, hprojects, hupdates]
      exact hP o i
    represented := represented_of_history hchain o i
    sequenced := (sequenced_of_steps hreached).2 o i
    numbered := by rw [hupdates]
    observed := fun p hp => observed_of_history hchain p (mem_projectsOf.mp hp).1
    answerable := fun u hu => (answerable_of_history hchain u (List.mem_filter.mp hu).1).1
    dated := fun ⟨row, hfound, hprintable⟩ => ⟨row, hrow ▸ hfound, hprintable⟩ }

/-- **Reads show the plan.** In a reachable system whose tables depict a plan, what a read of an initiative answers,
each of its statements seeing any state the system comes to while no fresh commit is on the initiative, is a view of
the initiative of the plan: the initiative, its projects beyond a position, its reports beyond a number, its rollup.
It refuses only an initiative that is not there, and fails only where a statement is lost, an id has a NUL, or a
timestamp of the initiative, or the instant of the rollup, has no text. A list of initiatives is of those of the plan
beyond its cursor, in the order of their numbers, none left out that comes before one of them. -/
theorem reads_show_plan {ok : Call → Prop} {w : Sequences} {S : System} {P : Plan} {o i : String} {t : ℕ → Tick}
    {s : ℕ → Tables} (h : Txn.Steps Call.code ok (System.initial w) S) (hP : S.db.Depicts P)
    (hs : ∀ n, Still ok S o i (s n)) :
    Viewed (P o i = none) (Initiative.Viewed (P o i) (ShownAs o i))
      (Excused (∃ n, (t n).fault = true) [o, i] (S.db.Undated o i)) ((getInitiative o i).observe t s).1 ∧
    (∀ after limit, Viewed (P o i = none)
      (Initiative.Viewed (P o i) fun x rs => rs = x.projectsBeyond (after.getD (-1)) limit)
      (Excused (∃ n, (t n).fault = true) [o, i] False) ((listProjects o i after limit).observe t s).1) ∧
    (∀ after limit, Viewed (P o i = none)
      (Initiative.Viewed (P o i) fun x rs => rs.map UpdateRecord.numbered =
        x.reportsBeyond o i ((S.db.updatesOf o i).map (·.rowSeq)) (after.getD 0) limit)
      (Excused (∃ n, (t n).fault = true) [o, i] False) ((listUpdates o i after limit).observe t s).1) ∧
    (∀ now, Viewed (P o i = none)
      (Initiative.Viewed (P o i) fun x r =>
        computeRollup (x.record o i) (x.members.items.map fun m => m.record none) now = some r)
      (Excused (∃ n, (t n).fault = true) [o, i] (S.db.Undated o i ∨ formatInstant now = none))
      ((readRollup o i now).observe t s).1) ∧
    ∀ includeArchived after limit, Viewed False (Listed S.db P o includeArchived (after.getD 0) limit)
      (Excused (∃ n, (t n).fault = true) [o]
        (∃ row ∈ S.db.initiatives, row.organizationId = o ∧ ¬ Printable row.timestamps))
      ((listInitiatives o includeArchived after limit).observe t fun _ => S.db).1 := by
  have hshow := fun n => showing_of_still h hP (hs n)
  -- each of the ticks is one of the read's
  have hticks : ∀ n, ∃ m, t m = t n := fun n => ⟨n, rfl⟩
  have hlost : ∀ u : Tick, (∃ m, t m = u) → u.fault = true → ∃ n, (t n).fault = true := by
    rintro u ⟨m, rfl⟩ hfault
    exact ⟨m, hfault⟩
  refine ⟨sees_getInitiative hlost t s hticks hshow, fun after limit => ?_,
    fun after limit => sees_listUpdates hlost t s hticks hshow, fun now => sees_readRollup hlost t s hticks hshow,
    fun includeArchived after limit => ?_⟩
  · refine (sees_listProjects hlost t s hticks hshow).mono (fun rs hrs => ?_) fun e he => he
    obtain ⟨x, hx, hrs, -⟩ := hrs
    exact ⟨x, hx, hrs⟩
  · exact sees_listInitiatives hlost (keyed_of_history (reachable_inv h).chain) (rowSeqs_nodup h) hP t _ hticks
      fun _ => rfl

/-- The rollup of `alpha`, with its last statement on other tables than the two before. -/
def sampleMeanwhile (T T' : Tables) : Except StorageError RollupRecord :=
  ((readRollup "acme" "alpha" 0).observe (fun _ => default) fun n => if n < 2 then T else T').1

/-- Another initiative is made while a rollup is read: it is the rollup of the initiative of the plan. -/
theorem reads_show_plan_meanwhile : ∃ (S S' : System) (P : Plan) (x : Initiative) (r : RollupRecord),
    S'.commits.length = S.commits.length + 1 ∧ S.db.Depicts P ∧ P "acme" "alpha" = some x ∧
    sampleMeanwhile S.db S'.db = .ok r ∧ r.projectCount = 1 ∧
    computeRollup (x.record "acme" "alpha") (x.members.items.map fun m => m.record none) 0 = some r := by
  have hrun : ((System.initial ⟨0, 0⟩).schedule Call.code 3 sampleMembers).bind (fun S => (S.schedule Call.code 3
      (Txn.attempt 2 (sampleCreate "beta") (sampleTicks 2 6))).map fun S' =>
        ((S'.commits.drop S.commits.length).map (fun x => x.call),
          (sampleMeanwhile S.db S'.db).toOption.map fun r => r.projectCount)) =
      some ([sampleCreate "beta"], some 1) := by decide +kernel
  obtain ⟨S, S', h, h', hfacts⟩ := @System.scheduled (fun _ => True) _ _ _ _ _ _ _ hrun (by decide)
    fun _ _ _ _ => trivial
  obtain ⟨hcalls, hr⟩ := Prod.mk.inj hfacts
  obtain ⟨r, hr, hcount⟩ := Option.map_eq_some_iff.mp hr
  obtain ⟨cs, hcs, -⟩ := later_history h h'
  rw [hcs, List.drop_left] at hcalls
  obtain ⟨c, rfl, hc⟩ := List.map_eq_singleton_iff.mp hcalls
  obtain ⟨P, -, hP⟩ := History.follows (reachable_inv h).chain depicts_empty
  have hnow : Still (fun _ => True) S "acme" "alpha" S.db :=
    ⟨S, [], .refl, (List.append_nil _).symm, fun _ hx => (List.not_mem_nil hx).elim, rfl⟩
  have hthen : Still (fun _ => True) S "acme" "alpha" S'.db := by
    refine ⟨S', [c], h', hcs, fun x hx _ hon => ?_, rfl⟩
    rw [List.mem_singleton.mp hx, hc] at hon
    exact absurd hon (by decide)
  have hstates : ∀ n, Still (fun _ => True) S "acme" "alpha" (if n < 2 then S.db else S'.db) := fun n => by
    split
    · exact hnow
    · exact hthen
  obtain ⟨-, -, -, hrollup, -⟩ := reads_show_plan (t := fun _ => default) h hP hstates
  have hview : Viewed _ _ _ (sampleMeanwhile S.db S'.db) := hrollup 0
  rw [ok_of_toOption hr] at hview
  cases hview with
  | view hview =>
  obtain ⟨x, hx, hcompute⟩ := hview
  exact ⟨S, S', P, x, r, by simp [hcs], hP, hx, ok_of_toOption hr, hcount, hcompute⟩

end Portfolio
