/-
# How memberships are represented

The rows of one initiative, its memberships and its updates as the tables
always hold them: each project once, each position once, at most 500, every
row as its CHECK constraints want it, and none without the initiative. An
attach adds one row at a free place, a refresh replaces one, a detach removes
one, and a reorder permutes the positions; each keeps what it needs of the
others.

The database bounds a position from below only. The bound from above is the
one the calls keep to (`Op.Within`), and it is what keeps the staged positions
of a reorder apart from those that are committed.

Key definitions: `Represented`, `Op.Within`.
Key theorems: `Fresh.represented`, `represented_of_history`,
`within_of_history`.
-/
import Portfolio.History

namespace Portfolio

open Txn

/-! ### The memberships after a write -/

section
variable {F : Facts} {o i : String}

theorem projectsOf_put (row : ProjectRow) :
    (Table.put ProjectRow.key row F.projects).filter (ProjectRow.at o i) =
      Table.put ProjectRow.key row (F.projectsOf o i) :=
  Table.filter_put (ProjectRow.at_respects o i) row F.projects

theorem projectsOf_erase (k : String × String × String) :
    (Table.erase ProjectRow.key k F.projects).filter (ProjectRow.at o i) =
      Table.erase ProjectRow.key k (F.projectsOf o i) :=
  Table.filter_erase (ProjectRow.at o i) k F.projects

end

/-! ### The representation -/

/-- The row of an initiative, its memberships and its updates fit each other. -/
structure Represented (row : Option InitiativeRow) (ps : List ProjectRow) (us : List UpdateRow) : Prop where
  owned : row = none → ps = [] ∧ us = []
  initiative : ∀ r, row = some r → r.checks = true
  projects : (ps.map (·.projectId)).Nodup
  positions : (ps.map (·.position)).Nodup
  count : ps.length ≤ maxProjectsPerInitiative
  checked : ∀ p ∈ ps, p.checks = true
  progress : ∀ u ∈ us, progressCheck u.progress = true

theorem represented_none : Represented none [] [] where
  owned _ := ⟨rfl, rfl⟩
  initiative _ h := by cases h
  projects := List.nodup_nil
  positions := List.nodup_nil
  count := Nat.zero_le _
  checked _ h := (List.not_mem_nil h).elim
  progress _ h := (List.not_mem_nil h).elim

namespace Represented

variable {row row' : InitiativeRow} {ps : List ProjectRow} {us : List UpdateRow}

theorem of_eq {r r' : Option InitiativeRow} {ps' : List ProjectRow} {us' : List UpdateRow} (hr : r' = r)
    (hps : ps' = ps) (hus : us' = us) (h : Represented r ps us) : Represented r' ps' us' := by
  rw [hr, hps, hus]
  exact h

/-- The initiative's own row may change as its constraints allow. -/
theorem set (h : Represented (some row) ps us) (hc : row'.checks = true) : Represented (some row') ps us where
  owned hn := by cases hn
  initiative r hr := Option.some.inj hr ▸ hc
  projects := h.projects
  positions := h.positions
  count := h.count
  checked := h.checked
  progress := h.progress

/-- A membership of another project at another position, while there is room. -/
theorem attach {p : ProjectRow} (h : Represented (some row) ps us) (hnew : p.projectId ∉ ps.map (·.projectId))
    (hfree : p.position ∉ ps.map (·.position)) (hcount : ps.length < maxProjectsPerInitiative)
    (hc : p.checks = true) : Represented (some row) (ps ++ [p]) us where
  owned hn := by cases hn
  initiative := h.initiative
  projects := by
    rw [List.map_append, List.map_singleton]
    exact List.nodup_append.mpr ⟨h.projects, List.nodup_singleton _, fun a ha b hb hab =>
      hnew (List.mem_singleton.mp hb ▸ hab ▸ ha)⟩
  positions := by
    rw [List.map_append, List.map_singleton]
    exact List.nodup_append.mpr ⟨h.positions, List.nodup_singleton _, fun a ha b hb hab =>
      hfree (List.mem_singleton.mp hb ▸ hab ▸ ha)⟩
  count := by
    rw [List.length_append, List.length_singleton]
    exact hcount
  checked q hq := by
    rcases List.mem_append.mp hq with hq | hq
    · exact h.checked q hq
    · exact List.mem_singleton.mp hq ▸ hc
  progress := h.progress

/-- Other columns of the memberships may change. -/
theorem map {f : ProjectRow → ProjectRow} (h : Represented (some row) ps us)
    (hid : ∀ p ∈ ps, (f p).projectId = p.projectId) (hpos : (ps.map fun p => (f p).position).Nodup)
    (hc : ∀ p ∈ ps, (f p).checks = true) : Represented (some row) (ps.map f) us where
  owned hn := by cases hn
  initiative := h.initiative
  projects := by
    have hmap : (ps.map f).map (·.projectId) = ps.map (·.projectId) := by
      rw [List.map_map]
      exact List.map_congr_left hid
    rw [hmap]
    exact h.projects
  positions := by
    rw [List.map_map]
    exact hpos
  count := by
    rw [List.length_map]
    exact h.count
  checked q hq := by
    obtain ⟨p, hp, rfl⟩ := List.mem_map.mp hq
    exact hc p hp
  progress := h.progress

/-- Fewer memberships. -/
theorem sublist {qs : List ProjectRow} (h : Represented (some row) ps us) (hs : qs.Sublist ps) :
    Represented (some row) qs us where
  owned hn := by cases hn
  initiative := h.initiative
  projects := List.Nodup.sublist (hs.map _) h.projects
  positions := List.Nodup.sublist (hs.map _) h.positions
  count := hs.length_le.trans h.count
  checked p hp := h.checked p (hs.subset hp)
  progress := h.progress

/-- Another update. -/
theorem update {u : UpdateRow} (h : Represented (some row) ps us) (hc : progressCheck u.progress = true) :
    Represented (some row) ps (us ++ [u]) where
  owned hn := by cases hn
  initiative := h.initiative
  projects := h.projects
  positions := h.positions
  count := h.count
  checked := h.checked
  progress v hv := by
    rcases List.mem_append.mp hv with hv | hv
    · exact h.progress v hv
    · exact List.mem_singleton.mp hv ▸ hc

end Represented

/-! ### Fresh successes keep it -/

section
variable {F : Facts} {o i : String} {items : List ReorderInput}

theorem projectId_notMem {p : String} (h : F.project o i p = none) :
    p ∉ (F.projectsOf o i).map (·.projectId) := by
  intro hp
  obtain ⟨r, hr, he⟩ := List.mem_map.mp hp
  have := List.find?_eq_none.mp h r hr
  simp [he] at this

theorem position_notMem {row : ProjectRow} {rows : List ProjectRow} (h : Sql.positionTaken rows row = false)
    (hnew : row.projectId ∉ rows.map (·.projectId)) : row.position ∉ rows.map (·.position) := by
  intro hp
  obtain ⟨r, hr, he⟩ := List.mem_map.mp hp
  have hne : r.projectId ≠ row.projectId := fun heq => hnew (List.mem_map.mpr ⟨r, hr, heq⟩)
  have htaken : Sql.positionTaken rows row = true := List.any_eq_true.mpr ⟨r, hr, by simp [hne, he]⟩
  rw [h] at htaken
  cases htaken

/-- After a reorder each position is that of one item. -/
theorem reordered_positions (h : reorderAccepts (F.order o i) items = true) :
    ((F.projectsOf o i).map fun p => (reordered o i items p).position).Nodup := by
  obtain ⟨-, -, -, hpos, -⟩ := reorderAccepts_spec h
  refine List.Nodup.map_on (fun p hp q hq he => ?_) (List.Nodup.of_map _ (reorder_nodup h))
  obtain ⟨item, hitem, hpi, hp'⟩ := reorder_item h hp
  obtain ⟨item', hitem', hqi, hq'⟩ := reorder_item h hq
  rw [hp', hq'] at he
  have hsame : item = item' := List.inj_on_of_nodup_map hpos hitem hitem' he
  exact List.inj_on_of_nodup_map (reorder_nodup h) hp hq (by rw [hpi, hqi, hsame])

/-- A fresh success keeps the representation of its initiative. -/
theorem Fresh.represented {actor : String} {op : Op} {F' : Facts} {r : Record} (h : Fresh actor op F r F')
    (hon : op.On o i) (hF : Represented (F.initiative o i) (F.projectsOf o i) (F.updatesOf o i)) :
    Represented (F'.initiative o i) (F'.projectsOf o i) (F'.updatesOf o i) := by
  obtain ⟨rfl, rfl⟩ := hon
  have hopen : ∀ {row : InitiativeRow}, F.Open op.organizationId op.initiativeId row →
      Represented (some row) (F.projectsOf op.organizationId op.initiativeId)
        (F.updatesOf op.organizationId op.initiativeId) := fun hrow => hrow.found ▸ hF
  have hset : ∀ {row row' : InitiativeRow}, F.Open op.organizationId op.initiativeId row → row'.key = row.key →
      (F.setInitiative row').initiative op.organizationId op.initiativeId = some row' :=
    fun hrow hk => initiative_setInitiative hrow.found hk
  cases h with
  | @createInitiative v _ rowSeq t _ hnew hc =>
    obtain ⟨hps, hus⟩ := hF.owned hnew
    have hrow := @initiative_insert _ _ _ (Sql.initiativeRow v rowSeq t) hnew
      (by simp [InitiativeRow.at, Sql.initiativeRow])
    refine .of_eq hrow hps hus ?_
    exact {
      owned := fun hn => by cases hn
      initiative := fun r hr => Option.some.inj hr ▸ hc
      projects := List.nodup_nil
      positions := List.nodup_nil
      count := Nat.zero_le _
      checked := fun _ h => (List.not_mem_nil h).elim
      progress := fun _ h => (List.not_mem_nil h).elim }
  | updateInitiative hrow _ hc => exact .of_eq (hset hrow rfl) rfl rfl ((hopen hrow).set hc)
  | archiveInitiative hrow _ hc => exact .of_eq (hset hrow rfl) rfl rfl ((hopen hrow).set hc)
  | @addUpdate o i u _ health summary progress _ row update rowSeq t t' _ hrow _ _ hu hc =>
    have hprogress := hc
    simp only [InitiativeRow.checks, Bool.and_eq_true] at hprogress
    subst hu
    exact .of_eq (hset hrow rfl) rfl (filter_append_of_pos (decide_eq_true ⟨rfl, rfl⟩))
      (((hopen hrow).set hc).update hprogress.1.2)
  | @attachProject o i _ position s _ _ _ _ hrow _ hnew hcount hp hfree hc =>
    have hadd := ((hopen hrow).set hc).attach (p := Sql.projectRow o i s position) (projectId_notMem hnew)
      (position_notMem hfree (projectId_notMem hnew)) hcount hp
    exact .of_eq (hset hrow rfl) (filter_append_of_pos (decide_eq_true ⟨rfl, rfl⟩)) rfl hadd
  | @updateProjectSnapshot o i _ s _ _ p _ _ hrow hold _ hp hc =>
    -- the row with the key of the new one is the old one
    have hsame : ∀ q ∈ F.projectsOf o i, q.key = (Sql.refreshed s p).key → q = p := fun q hq hk =>
      List.inj_on_of_nodup_map hF.projects hq (List.mem_of_find?_eq_some hold) (Prod.mk.inj (Prod.mk.inj hk).2).2
    refine .of_eq (hset hrow rfl) (projectsOf_put _) rfl (((hopen hrow).set hc).map (fun q hq => ?_) ?_ fun q hq => ?_)
    · split
      · rename_i hk
        rw [hsame q hq hk]
        rfl
      · rfl
    · have hpos : ((F.projectsOf o i).map fun q =>
          (if q.key = (Sql.refreshed s p).key then Sql.refreshed s p else q).position) =
            (F.projectsOf o i).map (·.position) := by
        refine List.map_congr_left fun q hq => ?_
        split
        · rename_i hk
          rw [hsame q hq hk]
          rfl
        · rfl
      exact hpos ▸ hF.positions
    · split
      · exact hp
      · exact hF.checked q hq
  | detachProject hrow _ _ _ hc =>
    exact .of_eq (hset hrow rfl) (projectsOf_erase _) rfl (((hopen hrow).set hc).sublist List.filter_sublist)
  | reorderProjects hrow _ hitems hp hc =>
    exact .of_eq (hset hrow rfl) (filter_reordered _ _ _ _ _ _) rfl (((hopen hrow).set hc).map
      (fun p _ => reordered_projectId _ _ _ p) (reordered_positions hitems) hp)

/-- The representation of every initiative of a history. -/
theorem represented_of_history {T : Tables} {cs : List Committed} (h : History Tables.empty cs T) (o i : String) :
    Represented (T.initiative o i) (T.projectsOf o i) (T.updatesOf o i) :=
  h.local represented_none (fun _ _ _ _ _ _ _ hon hf hF => hf.represented hon hF) o i

/-- Every row of an initiative is as its constraints want it. -/
theorem checked_of_history {T : Tables} {cs : List Committed} (h : History Tables.empty cs T) :
    ∀ row ∈ T.initiatives, row.checks = true := by
  refine h.preserves (I := fun F => ∀ row ∈ F.initiatives, row.checks = true) (fun _ hr => (List.not_mem_nil hr).elim)
    fun x _ F F' r hF hf => ?_
  have hset : ∀ {row' : InitiativeRow}, row'.checks = true →
      ∀ row ∈ (F.setInitiative row').initiatives, row.checks = true := by
    intro row' hc row hrow
    rcases (Table.mem_put _).mp hrow with ⟨hrow, -⟩ | ⟨rfl, -⟩
    · exact hF row hrow
    · exact hc
  generalize x.call.op = op at hf
  cases hf with
  | createInitiative _ hc =>
    intro row hrow
    rcases List.mem_append.mp hrow with hrow | hrow
    · exact hF row hrow
    · exact List.mem_singleton.mp hrow ▸ hc
  | updateInitiative _ _ hc | addUpdate _ _ _ _ hc | archiveInitiative _ _ hc | attachProject _ _ _ _ _ _ hc
  | updateProjectSnapshot _ _ _ _ hc | detachProject _ _ _ _ hc | reorderProjects _ _ _ _ hc => exact hset hc

/-! ### Positions from above -/

/-- The positions the operation asks for are at most `bound`. -/
def Op.Within (bound : ℤ) : Op → Prop
  | .attachProject _ _ _ _ position => position ≤ bound
  | .reorderProjects _ _ _ items => ∀ item ∈ items, item.position ≤ bound
  | _ => True

theorem Fresh.within {actor : String} {op : Op} {F' : Facts} {r : Record} {bound : ℤ}
    (h : Fresh actor op F r F') (hop : op.Within bound) (hF : ∀ p ∈ F.projects, p.position ≤ bound) :
    ∀ p ∈ F'.projects, p.position ≤ bound := by
  cases h with
  | createInitiative | updateInitiative | addUpdate | archiveInitiative => exact hF
  | attachProject =>
    intro p hp
    rcases List.mem_append.mp hp with hp | hp
    · exact hF p hp
    · exact List.mem_singleton.mp hp ▸ hop
  | @updateProjectSnapshot _ _ _ _ _ _ old _ _ _ hold =>
    intro p hp
    rcases (Table.mem_put _).mp hp with ⟨hp, -⟩ | ⟨rfl, -⟩
    · exact hF p hp
    · exact hF old (project_mem hold).1
  | detachProject => exact fun p hp => hF p (List.mem_filter.mp hp).1
  | @reorderProjects o i _ items _ _ _ _ _ hitems =>
    intro p hp
    obtain ⟨q, hq, rfl⟩ := List.mem_map.mp hp
    by_cases hat : q.at o i = true
    · obtain ⟨item, hitem, -, hplaced⟩ := reorder_item hitems (List.mem_filter.mpr ⟨hq, hat⟩)
      rw [hplaced]
      exact hop item hitem
    · rw [reordered, if_neg hat]
      exact hF q hq

/-- Where calls keep to a bound, so do the positions of a history. -/
theorem within_of_history {T : Tables} {cs : List Committed} {bound : ℤ} (h : History Tables.empty cs T)
    (hcs : ∀ x ∈ cs, x.call.op.Within bound) : ∀ p ∈ T.projects, p.position ≤ bound :=
  h.preserves (I := fun F => ∀ p ∈ F.projects, p.position ≤ bound) (fun _ hp => (List.not_mem_nil hp).elim)
    fun x hx _ _ _ hF hf => hf.within (hcs x hx) hF

end

end Portfolio
