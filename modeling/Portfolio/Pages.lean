/-
# Pages under concurrent writers

A client walks a list while others write. Of the updates of an initiative it
misses none: an update draws its number behind the lock of the initiative, so
whatever is committed after a page has a greater number than all that is on
it. Initiatives have no such lock. A create can draw a number, be overtaken by
another create that draws a greater one and commits, and commit itself when a
client's cursor has passed it; then the client never gets it, and that is the
only way to miss one (`initiative_pages_complete`).

Key definitions: `updateListing`, `initiativeListing`, `Committed.update`,
`Complete`, `InOrder`, `NotOvertaken`.
Key theorems: `update_pages_complete`, `initiative_pages_complete`,
`initiative_page_skipped`.
-/
import Portfolio.Cursors
import Portfolio.Sequence

namespace Portfolio

open Txn Txn.Prog

/-! ### Updates -/

/-- The updates of an initiative, as a client lists them. -/
def updateListing (plugin : ProjectPortfolioPlugin) (o i : String) :
    Listing ListInitiativeUpdatesRequest ListInitiativeUpdatesResponse where
  asks q := q.organizationId = o ∧ q.initiativeId = i
  after q := q.after
  limit q := q.limit
  reads q S₁ S r := ∃ (context : Context) (t : ℕ → Tick),
    (Handler.observe (plugin.listInitiativeUpdates context q) t fun
      | 0 => S₁.db
      | _ => S.db).1 = .ok r
  next r := r.nextCursor

/-- The update a commit made on an initiative. -/
def Committed.update (o i : String) (x : Committed) : Option String :=
  match x.call.op with
  | .addUpdate o' i' u _ _ _ _ => if Committed.Fresh x ∧ o' = o ∧ i' = i then some u else none
  | _ => none

/-- A fresh success adds the update it makes on an initiative. -/
theorem update_of_fresh {x : Committed} (hf : Committed.Fresh x)
    (h : Fresh x.call.command.actor x.call.op x.before.toFacts x.result x.after.toFacts) (o i : String) :
    (x.after.updatesOf o i).map (fun u => u.updateId) =
      (x.before.updatesOf o i).map (fun u => u.updateId) ++ (Committed.update o i x).toList := by
  obtain ⟨thread, ⟨c, op⟩, ticks, T, T', r⟩ := x
  cases op with
  | addUpdate o' i' u expected health summary progress =>
    obtain ⟨row, hrow, hkey⟩ : ∃ row, T'.toFacts.updates = T.toFacts.updates ++ [row] ∧
        (row.organizationId, row.initiativeId, row.updateId) = (o', i', u) := by
      generalize T'.toFacts = F' at h ⊢
      generalize T.toFacts = F at h ⊢
      cases h with
      | addUpdate hrow hrev hnew hu =>
        subst hu
        exact ⟨_, rfl, rfl⟩
    obtain ⟨ho, hi, hu⟩ : row.organizationId = o' ∧ row.initiativeId = i' ∧ row.updateId = u := by
      simpa [Prod.mk.injEq] using hkey
    simp only [Facts.updatesOf, hrow, List.filter_append, List.map_append, Committed.update]
    congr 1
    by_cases hon : o' = o ∧ i' = i
    · rw [if_pos ⟨hf, hon⟩]
      simp [UpdateRow.at, ho, hi, hu, hon]
    · rw [if_neg fun hx => hon hx.2]
      simp [UpdateRow.at, ho, hi, hon]
  | _ =>
    rcases h.updates with he | ⟨u, -, -, hop⟩
    · rw [Facts.updatesOf, he]
      exact (List.append_nil _).symm
    · cases hop

/-- The updates of an initiative are those of the commits, in their order. -/
theorem updates_of_commits {T : Tables} {cs : List Committed} (h : History Tables.empty cs T) (o i : String) :
    cs.filterMap (Committed.update o i) = (T.updatesOf o i).map fun u => u.updateId := by
  induction h with
  | nil => rfl
  | @snoc T cs x h hb hx ih =>
    have hout : Outcome x.call x.before x.result x.after := by
      rw [hb]
      exact Call.outcome (hx fun _ => default)
    have hlast : List.filterMap (Committed.update o i) [x] = (Committed.update o i x).toList := by
      cases hu : Committed.update o i x <;> simp [hu]
    rw [List.filterMap_append, ih, ← hb, hlast]
    by_cases hf : Committed.Fresh x
    · exact (update_of_fresh hf (fresh_of_fresh hout hf) o i).symm
    · have hnone : Committed.update o i x = none := by
        unfold Committed.update
        split
        · rw [if_neg fun h => hf h.1]
        · rfl
      rw [after_of_not_fresh hout hf, hnone, Option.toList_none, List.append_nil]

section
variable {ok : Call → Prop} {w : Sequences} {S S' : System} {o i : String}

/-- Later updates come last. -/
theorem updatesOf_grows (h : Txn.Steps Call.code ok (System.initial w) S) (h' : Txn.Steps Call.code ok S S') :
    S.db.updatesOf o i <+: S'.db.updatesOf o i := by
  obtain ⟨cs, -, hlater⟩ := later_history h h'
  exact (updates_kept hlater).filter _

/-- The pages of a walk over updates, as visits. -/
theorem grows_updates {plugin : ProjectPortfolioPlugin} {after : Option String}
    {vs : List (Visit ListInitiativeUpdatesRequest ListInitiativeUpdatesResponse)}
    (h : Txn.Steps Call.code ok (System.initial w) S) (hwalk : Walk ok (updateListing plugin o i) after S vs) :
    Paging.Grows (fun u : UpdateRow => u.rowSeq)
      (vs.map (Visit.paged (fun u => u.rowSeq) (fun S => S.db.updatesOf o i) (updateListing plugin o i))) where
  kept := by
    rw [List.pairwise_map]
    refine hwalk.steps.imp_of_mem fun {v v'} hv hv' hsteps => ?_
    exact (updatesOf_grows (h.trans (hwalk.reach v hv)) hsteps).subset
  keyed := by
    intro x hx
    obtain ⟨v, hv, rfl⟩ := List.mem_map.mp hx
    have hseq := (sequenced_of_steps (h.trans (hwalk.reach v hv))).2 o i
    exact List.pairwise_map.mpr (hseq.imp fun hlt => ne_of_lt hlt)

end

/-- **Cursor pagination of updates skips nothing.** However the walk and the transactions interleave, with
any limits and cursors as the responses give them, the responses together are the updates of the initiative
in the state the last of them was read from, each once, in the order of their numbers, which is that of
their commits. -/
theorem update_pages_complete {ok : Call → Prop} {w : Sequences} {S₀ : System} {plugin : ProjectPortfolioPlugin}
    {o i : String} {vs : List (Visit ListInitiativeUpdatesRequest ListInitiativeUpdatesResponse)}
    (hw : 0 ≤ w.updates) (h : Txn.Steps Call.code ok (System.initial w) S₀)
    (hwalk : Walk ok (updateListing plugin o i) none S₀ vs) :
    ∃ last, vs.getLast? = some last ∧
      List.Forall₂ (UpdateRow.AnsweredAs plugin.accepts) (last.system.db.updatesOf o i)
        (vs.flatMap fun v => v.response.updates) ∧
      ((last.system.db.updatesOf o i).Pairwise fun u v => u.rowSeq < v.rowSeq) ∧
      (vs.flatMap fun v => v.response.updates).map (fun item => item.updateId) =
        last.system.commits.filterMap (Committed.update o i) ∧
      ((vs.flatMap fun v => v.response.updates).map fun item => item.updateId).Nodup := by
  have hanswers : ∀ q S₁ S r, (updateListing plugin o i).asks q → (updateListing plugin o i).reads q S₁ S r →
      Answers (fun u : UpdateRow => u.rowSeq) ((updateListing plugin o i).after q) ((updateListing plugin o i).limit q)
        (S.db.updatesOf o i) (UpdateRow.AnsweredAs plugin.accepts) r.updates ((updateListing plugin o i).next r) := by
    rintro q S₁ S r ⟨rfl, rfl⟩ ⟨context, t, hr⟩
    exact listInitiativeUpdates_observe hr
  have hpaging := hwalk.paging hanswers
  have hgrows := grows_updates h hwalk
  obtain ⟨last, hmem, hlast⟩ := hwalk.exists_last
  have hreach := h.trans (hwalk.reach last hmem)
  have hseq := (sequenced_of_steps hreach).2 o i
  have hpos : ∀ u ∈ last.system.db.updatesOf o i, (0 : ℤ) < u.rowSeq := fun u hu =>
    lt_of_le_of_lt hw ((lt_rowSeq_of_steps hreach).2 u (List.mem_filter.mp hu).1)
  -- what is added to the updates comes after them
  have hlater : (vs.map (Visit.paged (fun u : UpdateRow => u.rowSeq) (fun S => S.db.updatesOf o i)
      (updateListing plugin o i))).Pairwise fun v v' =>
        ∀ x ∈ v'.rows, x ∉ v.rows → ∀ y ∈ v.rows, y.rowSeq < x.rowSeq := by
    rw [List.pairwise_map]
    refine hwalk.steps.imp_of_mem fun {v v'} hv hv' hsteps x hx hnot y hy => ?_
    have hv := h.trans (hwalk.reach v hv)
    obtain ⟨added, hadded⟩ := @updatesOf_grows _ _ _ _ o i hv hsteps
    have hsorted := (sequenced_of_steps (hv.trans hsteps)).2 o i
    change x ∈ v'.system.db.updatesOf o i at hx
    rw [← hadded] at hx hsorted
    exact (List.pairwise_append.mp hsorted).2.2 y hy x ((List.mem_append.mp hx).resolve_left hnot)
  have hend : (vs.map (Visit.paged (fun u : UpdateRow => u.rowSeq) (fun S => S.db.updatesOf o i)
      (updateListing plugin o i))).getLast? =
        some (Visit.paged (fun u => u.rowSeq) (fun S => S.db.updatesOf o i) (updateListing plugin o i) last) := by
    rw [List.getLast?_map, hlast, Option.map_some]
  have hpages := hpaging.pages_eq hgrows hend (hpaging.beyond_of_later hgrows hlater)
  have hitems := hwalk.answered hanswers
  rw [hpages] at hitems
  change List.Forall₂ _ (Paging.after (fun u : UpdateRow => u.rowSeq) 0 (last.system.db.updatesOf o i)) _ at hitems
  rw [Paging.after_eq_self hseq hpos] at hitems
  have hids := Json.map_eq_of_forall₂ (fun row item hanswer => UpdateRow.AnsweredAs.updateId hanswer) hitems
  refine ⟨last, hlast, hitems, hseq, ?_, ?_⟩
  · rw [hids]
    exact (updates_of_commits (reachable_inv hreach).chain o i).symm
  · rw [hids]
    have hunique := updates_unique (reachable_inv hreach).chain
    refine List.Nodup.of_map (fun u => (o, u)) ?_
    rw [List.map_map]
    have hkeys : (last.system.db.updatesOf o i).map ((fun u => (o, u)) ∘ fun u : UpdateRow => u.updateId) =
        (last.system.db.updatesOf o i).map UpdateRow.key := by
      refine List.map_congr_left fun u hu => ?_
      have hat := of_decide_eq_true (List.mem_filter.mp hu).2
      exact Prod.ext hat.1.symm rfl
    rw [hkeys]
    exact hunique.sublist (List.filter_sublist.map _)

/-- A page of the updates of an initiative, read in one moment. -/
def sampleUpdatePage (S : System) (after : Option String) (limit : ℤ) :
    Option ListInitiativeUpdatesResponse :=
  (Handler.observe (samplePlugin.listInitiativeUpdates sampleContext ⟨after, "alpha", limit, "acme"⟩)
    (fun _ => default) fun
      | 0 => S.db
      | _ => S.db).1.toOption

/-- What a client sees of a page of updates. -/
def ListInitiativeUpdatesResponse.shown (r : ListInitiativeUpdatesResponse) : List String × Option String :=
  (r.updates.map fun item => item.updateId, r.nextCursor)

/-- A third update commits between the two pages of a walk, which has all three. -/
theorem update_pages_complete_between : ∃ (S₀ last : System)
    (vs : List (Visit ListInitiativeUpdatesRequest ListInitiativeUpdatesResponse)),
    Walk (fun _ => True) (updateListing samplePlugin "acme" "alpha") none S₀ vs ∧ vs.length = 2 ∧
    vs.getLast?.map (fun v => v.system.db) = some last.db ∧
    (vs.flatMap fun v => v.response.updates).map (fun item => item.updateId) =
      last.commits.filterMap (Committed.update "acme" "alpha") ∧
    ((vs.flatMap fun v => v.response.updates).map fun item => item.updateId) = ["first", "second", "third"] := by
  have hrun : ((System.initial ⟨0, 0⟩).schedule Call.code 4
      (Txn.attempt 0 (sampleCreate "alpha") (sampleTicks 1 6) ++
        Txn.attempt 1 (sampleUpdate "alpha" "first" 1 "on_track" 10) (sampleTicks 1 8) ++
        Txn.attempt 2 (sampleUpdate "alpha" "second" 2 "at_risk" 20) (sampleTicks 2 8))).bind (fun S =>
      (S.schedule Call.code 4
        (Txn.attempt 3 (sampleUpdate "alpha" "third" 3 "on_track" 30) (sampleTicks 3 8))).map fun S' =>
          ((sampleUpdatePage S none 1).map ListInitiativeUpdatesResponse.shown,
            (sampleUpdatePage S' (some "1") 5).map ListInitiativeUpdatesResponse.shown)) =
      some (some (["first"], some "1"), some (["second", "third"], none)) := by decide +kernel
  obtain ⟨S, S', h, h', hfacts⟩ := @System.scheduled (fun _ => True) _ _ _ _ _ _ _ hrun (by decide)
    fun _ _ _ _ => trivial
  obtain ⟨hfirst, hsecond⟩ := Prod.mk.inj hfacts
  obtain ⟨r₁, hr₁, h₁⟩ := Option.map_eq_some_iff.mp hfirst
  obtain ⟨r₂, hr₂, h₂⟩ := Option.map_eq_some_iff.mp hsecond
  obtain ⟨hids₁, hnext₁⟩ := Prod.mk.inj h₁
  obtain ⟨hids₂, hnext₂⟩ := Prod.mk.inj h₂
  have hwalk : Walk (fun _ => True) (updateListing samplePlugin "acme" "alpha") none S
      [⟨S, ⟨none, "alpha", 1, "acme"⟩, r₁⟩, ⟨S', ⟨some "1", "alpha", 5, "acme"⟩, r₂⟩] :=
    @Walk.two _ _ _ (updateListing samplePlugin "acme" "alpha") S S S' ⟨none, "alpha", 1, "acme"⟩
      ⟨some "1", "alpha", 5, "acme"⟩ r₁ r₂ .refl h' ⟨rfl, rfl⟩ ⟨sampleContext, _, ok_of_toOption hr₁⟩ ⟨rfl, rfl⟩
      ⟨sampleContext, _, ok_of_toOption hr₂⟩ hnext₁.symm (Option.isSome_of_eq_some hnext₁) hnext₂
  obtain ⟨last, hlast, -, -, hcommits, -⟩ := update_pages_complete (le_refl 0) h hwalk
  refine ⟨S, last.system, _, hwalk, rfl, by rw [hlast]; rfl, hcommits, ?_⟩
  simp only [List.flatMap_cons, List.flatMap_nil, List.append_nil, List.map_append, hids₁, hids₂]
  rfl

/-! ### Initiatives -/

/-- The initiatives of an organization, archived ones too, as a client lists them. -/
def initiativeListing (plugin : ProjectPortfolioPlugin) (o : String) :
    Listing ListInitiativesRequest ListInitiativesResponse where
  asks q := q.organizationId = o ∧ q.includeArchived = true
  after q := q.after
  limit q := q.limit
  reads q _ S r := ∃ (context : Context) (t : ℕ → Tick),
    (Handler.observe (plugin.listInitiatives context q) t fun _ => S.db).1 = .ok r
  next r := r.nextCursor

/-- Every initiative of the organization is among the items, once. -/
def Complete (F : Facts) (o : String) (items : List ListInitiativesResponseInitiativesItem) : Prop :=
  ∀ r ∈ F.initiatives, r.organizationId = o → (items.map fun item => item.initiativeId).count r.initiativeId = 1

/-- Along the items the numbers of the initiatives grow. -/
def InOrder (F : Facts) (o : String) (items : List ListInitiativesResponseInitiativesItem) : Prop :=
  items.Pairwise fun a b => ∀ r ∈ F.initiatives, ∀ s ∈ F.initiatives, r.organizationId = o → s.organizationId = o →
    r.initiativeId = a.initiativeId → s.initiativeId = b.initiativeId → r.rowSeq < s.rowSeq

/-- Each create of the organization that commits after a page was read has a number beyond the cursor of
the next request. -/
def NotOvertaken (o : String) (vs : List (Visit ListInitiativesRequest ListInitiativesResponse)) : Prop :=
  vs.IsChain fun v v' => ∀ r ∈ v'.system.db.initiatives, r.organizationId = o →
    v.system.db.initiative o r.initiativeId = none → cursorOf v'.request.after < r.rowSeq

theorem mem_listed {F : Facts} {o : String} {x : ℤ × String × String} :
    x ∈ F.listed o ↔ ∃ r ∈ F.initiatives, r.organizationId = o ∧ r.entry = x := by
  simp only [Facts.listed, List.mem_map, List.mem_filter, decide_eq_true_eq, and_assoc]

/-- A key names one entry. -/
theorem Facts.Keyed.entry_eq {F : Facts} (hF : F.Keyed) {r s : InitiativeRow} (hr : r ∈ F.initiatives)
    (hs : s ∈ F.initiatives) (h : r.key = s.key) : r.entry = s.entry := by
  rw [Table.Unique.eq hF hr hs h]

theorem isChain_congr {α : Type*} {P R R' : α → α → Prop} (h : ∀ a b, P a b → (R a b ↔ R' a b)) :
    ∀ {l : List α}, l.Pairwise P → (l.IsChain R ↔ l.IsChain R')
  | [], _ => iff_of_true .nil .nil
  | [a], _ => iff_of_true (.singleton a) (.singleton a)
  | a :: b :: l, hl => by
    obtain ⟨hab, hl⟩ := List.pairwise_cons.mp hl
    rw [List.isChain_cons_cons, List.isChain_cons_cons, h a b (hab b List.mem_cons_self), isChain_congr h hl]

section
variable {ok : Call → Prop} {w : Sequences} {S S' : System} {o : String}

theorem listed_grows (h : Txn.Steps Call.code ok (System.initial w) S) (h' : Txn.Steps Call.code ok S S') :
    S.db.toFacts.listed o ⊆ S'.db.toFacts.listed o := by
  obtain ⟨cs, -, hlater⟩ := later_history h h'
  have hkept := (entries_kept hlater (keyed_of_history (reachable_inv h).chain)).subset
  intro x hx
  obtain ⟨r, hr, ho, rfl⟩ := mem_listed.mp hx
  obtain ⟨s, hs, he⟩ := List.mem_map.mp (hkept (List.mem_map_of_mem hr))
  have hkey : s.key = r.key := congrArg Prod.snd he
  exact mem_listed.mpr ⟨s, hs, (congrArg Prod.fst hkey).trans ho, he⟩

/-- The entry of a later initiative is there already if its initiative is. -/
theorem entry_mem_listed (h : Txn.Steps Call.code ok (System.initial w) S) (h' : Txn.Steps Call.code ok S S')
    {r : InitiativeRow} (hr : r ∈ S'.db.initiatives) (ho : r.organizationId = o) :
    r.entry ∉ S.db.toFacts.listed o ↔ S.db.initiative o r.initiativeId = none := by
  constructor
  · intro hnot
    by_contra hsome
    obtain ⟨s, hs⟩ := Option.ne_none_iff_exists'.mp hsome
    obtain ⟨hmem, hso, hsi⟩ := initiative_mem hs
    have hlisted : s.entry ∈ S.db.toFacts.listed o := mem_listed.mpr ⟨s, hmem, hso, rfl⟩
    obtain ⟨s', hs', -, he⟩ := mem_listed.mp (listed_grows h h' hlisted)
    have hkeys : s'.key = s.key := congrArg Prod.snd he
    have hkey : r.key = s'.key := by
      rw [hkeys]
      exact Prod.ext (ho.trans hso.symm) hsi.symm
    have heq := (keyed_of_history (reachable_inv (h.trans h')).chain).entry_eq hr hs' hkey
    rw [heq, he] at hnot
    exact hnot hlisted
  · intro hnone hmem
    obtain ⟨s, hs, hso, he⟩ := mem_listed.mp hmem
    have hkey : s.key = r.key := congrArg Prod.snd he
    have hat : InitiativeRow.at o r.initiativeId s = true := decide_eq_true ⟨hso, congrArg Prod.snd hkey⟩
    have hfound := List.mem_filter.mpr ⟨hs, hat⟩
    rw [List.head?_eq_none_iff.mp hnone] at hfound
    cases hfound

/-- The pages of a walk over initiatives, as visits. -/
theorem grows_initiatives {plugin : ProjectPortfolioPlugin} {after : Option String}
    {vs : List (Visit ListInitiativesRequest ListInitiativesResponse)}
    (h : Txn.Steps Call.code ok (System.initial w) S) (hwalk : Walk ok (initiativeListing plugin o) after S vs) :
    Paging.Grows (Prod.fst : ℤ × String × String → ℤ)
      (vs.map (Visit.paged Prod.fst (fun S => S.db.toFacts.listed o) (initiativeListing plugin o))) where
  kept := by
    rw [List.pairwise_map]
    refine hwalk.steps.imp_of_mem fun {v v'} hv hv' hsteps => ?_
    exact listed_grows (h.trans (hwalk.reach v hv)) hsteps
  keyed := by
    intro x hx
    obtain ⟨v, hv, rfl⟩ := List.mem_map.mp hx
    have hnodup := rowSeqs_nodup (h.trans (hwalk.reach v hv))
    show ((v.system.db.toFacts.listed o).map Prod.fst).Nodup
    rw [Facts.listed, List.map_map]
    exact hnodup.sublist (List.filter_sublist.map _)

end

section
variable {F : Facts} {o : String} {entries : List (ℤ × String × String)}
  {items : List ListInitiativesResponseInitiativesItem}

/-- An id names one entry of a listing. -/
theorem Facts.Keyed.listed_eq (hF : F.Keyed) {x y : ℤ × String × String} (hx : x ∈ F.listed o)
    (hy : y ∈ F.listed o) (h : x.2.2 = y.2.2) : x = y := by
  obtain ⟨r, hr, hro, rfl⟩ := mem_listed.mp hx
  obtain ⟨s, hs, hso, rfl⟩ := mem_listed.mp hy
  exact hF.entry_eq hr hs (Prod.ext (hro.trans hso.symm) h)

/-- Items that stand for entries in order are in order. -/
theorem inOrder_of_entries (hF : F.Keyed) (hmem : ∀ x ∈ entries, x ∈ F.listed o)
    (hids : items.map (fun item => item.initiativeId) = entries.map fun x => x.2.2)
    (hsorted : entries.Pairwise fun x y => x.1 < y.1) : InOrder F o items := by
  have hpairs : (items.map fun item => item.initiativeId).Pairwise fun a b => ∀ r ∈ F.initiatives,
      ∀ s ∈ F.initiatives, r.organizationId = o → s.organizationId = o → r.initiativeId = a → s.initiativeId = b →
        r.rowSeq < s.rowSeq := by
    rw [hids, List.pairwise_map]
    refine hsorted.imp_of_mem fun {x y} hx hy hlt r hr s hs hro hso hra hsb => ?_
    have hrx := hF.listed_eq (mem_listed.mpr ⟨r, hr, hro, rfl⟩) (hmem x hx) hra
    have hsy := hF.listed_eq (mem_listed.mpr ⟨s, hs, hso, rfl⟩) (hmem y hy) hsb
    rw [← hrx, ← hsy] at hlt
    exact hlt
  exact List.pairwise_map.mp hpairs

/-- Items that stand for different entries are complete if the entries are. -/
theorem complete_iff_entries (hF : F.Keyed) (hmem : ∀ x ∈ entries, x ∈ F.listed o)
    (hids : items.map (fun item => item.initiativeId) = entries.map fun x => x.2.2)
    (hsorted : entries.Pairwise fun x y => x.1 < y.1) : Complete F o items ↔ ∀ x ∈ F.listed o, x ∈ entries := by
  have hnodup : (items.map fun item => item.initiativeId).Nodup := by
    rw [hids, List.Nodup, List.pairwise_map]
    refine hsorted.imp_of_mem fun {x y} hx hy hlt he => ?_
    exact ne_of_lt hlt (congrArg Prod.fst (hF.listed_eq (hmem x hx) (hmem y hy) he))
  constructor
  · intro hall x hx
    obtain ⟨r, hr, hro, rfl⟩ := mem_listed.mp hx
    have hcount := hall r hr hro
    have hid : r.initiativeId ∈ items.map fun item => item.initiativeId :=
      List.count_pos_iff.mp (by rw [hcount]; exact Nat.one_pos)
    rw [hids] at hid
    obtain ⟨y, hy, he⟩ := List.mem_map.mp hid
    rw [hF.listed_eq hx (hmem y hy) he.symm]
    exact hy
  · intro hall r hr hro
    refine List.count_eq_one_of_mem hnodup ?_
    rw [hids]
    exact List.mem_map.mpr ⟨r.entry, hall _ (mem_listed.mpr ⟨r, hr, hro, rfl⟩), rfl⟩

end

/-- **Cursor pagination of initiatives skips nothing exactly if no create is overtaken by a cursor.** However
the walk and the transactions interleave: every initiative of the organization in the state the last page
was read from is on exactly one page, with the numbers growing along the pages, if and only if each create
that committed between two pages has a number beyond the cursor the second was asked for with. -/
theorem initiative_pages_complete {ok : Call → Prop} {w : Sequences} {S₀ : System}
    {plugin : ProjectPortfolioPlugin} {o : String} {vs : List (Visit ListInitiativesRequest ListInitiativesResponse)}
    (hw : 0 ≤ w.initiatives) (h : Txn.Steps Call.code ok (System.initial w) S₀)
    (hwalk : Walk ok (initiativeListing plugin o) none S₀ vs) :
    ∃ last, vs.getLast? = some last ∧
      (Complete last.system.db.toFacts o (vs.flatMap fun v => v.response.initiatives) ∧
        InOrder last.system.db.toFacts o (vs.flatMap fun v => v.response.initiatives) ↔ NotOvertaken o vs) := by
  have hanswers : ∀ q S₁ S r, (initiativeListing plugin o).asks q → (initiativeListing plugin o).reads q S₁ S r →
      Answers Prod.fst ((initiativeListing plugin o).after q) ((initiativeListing plugin o).limit q)
        (S.db.toFacts.listed o) (fun entry item => item.initiativeId = entry.2.2) r.initiatives
        ((initiativeListing plugin o).next r) := by
    rintro q S₁ S r ⟨rfl, harchived⟩ ⟨context, t, hr⟩
    exact listInitiatives_observe harchived hr
  have hpaging := hwalk.paging hanswers
  have hgrows := grows_initiatives h hwalk
  obtain ⟨last, hmem, hlast⟩ := hwalk.exists_last
  have hreach := h.trans (hwalk.reach last hmem)
  have hkeyed := keyed_of_history (reachable_inv hreach).chain
  have hpos : ∀ x ∈ last.system.db.toFacts.listed o, (0 : ℤ) < x.1 := by
    intro x hx
    obtain ⟨r, hr, -, rfl⟩ := mem_listed.mp hx
    exact lt_of_le_of_lt hw ((lt_rowSeq_of_steps hreach).1 r hr)
  have hend : (vs.map (Visit.paged Prod.fst (fun S => S.db.toFacts.listed o)
      (initiativeListing plugin o))).getLast? =
        some (Visit.paged Prod.fst (fun S => S.db.toFacts.listed o) (initiativeListing plugin o) last) := by
    rw [List.getLast?_map, hlast, Option.map_some]
  have hids := Json.map_eq_of_forall₂ (f := fun x : ℤ × String × String => x.2.2)
    (g := fun item : ListInitiativesResponseInitiativesItem => item.initiativeId) (fun _ _ he => he)
    (hwalk.answered hanswers)
  have hsorted := hpaging.pairwise hgrows
  have hsub := hpaging.mem_last hgrows hend
  refine ⟨last, hlast, ?_⟩
  rw [and_iff_left (inOrder_of_entries hkeyed hsub hids hsorted), complete_iff_entries hkeyed hsub hids hsorted]
  refine (hpaging.complete_iff hgrows hend hpos).trans ?_
  rw [Paging.Beyond, List.isChain_map]
  refine isChain_congr (P := fun v v' => Txn.Steps Call.code ok (System.initial w) v.system ∧
    Txn.Steps Call.code ok v.system v'.system) (fun v v' ⟨hv, hsteps⟩ => ?_)
    (hwalk.steps.imp_of_mem fun {v v'} hv _ hsteps => ⟨h.trans (hwalk.reach v hv), hsteps⟩)
  constructor
  · intro hb r hr hro hnone
    exact hb r.entry (mem_listed.mpr ⟨r, hr, hro, rfl⟩) ((entry_mem_listed hv hsteps hr hro).mpr hnone)
  · intro hb x hx hnot
    obtain ⟨r, hr, hro, rfl⟩ := mem_listed.mp hx
    exact hb r hr hro ((entry_mem_listed hv hsteps hr hro).mp hnot)

/-- A page of the initiatives of an organization. -/
def sampleInitiativePage (S : System) (after : Option String) (limit : ℤ) : Option ListInitiativesResponse :=
  (Handler.observe (samplePlugin.listInitiatives sampleContext ⟨after, true, limit, "acme"⟩) (fun _ => default)
    fun _ => S.db).1.toOption

/-- What a client sees of a page of initiatives. -/
def ListInitiativesResponse.shown (r : ListInitiativesResponse) : List String × Option String :=
  (r.initiatives.map fun item => item.initiativeId, r.nextCursor)

/-- A walk of two such pages, the first with one initiative. -/
theorem sample_walk {S S' : System} {text : String} {ids ids' : List String}
    (h : Txn.Steps Call.code (fun _ => True) S S')
    (hfirst : (sampleInitiativePage S none 1).map ListInitiativesResponse.shown = some (ids, some text))
    (hsecond : (sampleInitiativePage S' (some text) 5).map ListInitiativesResponse.shown = some (ids', none)) :
    ∃ vs : List (Visit ListInitiativesRequest ListInitiativesResponse),
      Walk (fun _ => True) (initiativeListing samplePlugin "acme") none S vs ∧
      vs.map (fun v => (v.system.db, v.request.after)) = [(S.db, none), (S'.db, some text)] ∧
      (vs.flatMap fun v => v.response.initiatives).map (fun item => item.initiativeId) = ids ++ ids' := by
  obtain ⟨r₁, hr₁, h₁⟩ := Option.map_eq_some_iff.mp hfirst
  obtain ⟨r₂, hr₂, h₂⟩ := Option.map_eq_some_iff.mp hsecond
  obtain ⟨hids₁, hnext₁⟩ := Prod.mk.inj h₁
  obtain ⟨hids₂, hnext₂⟩ := Prod.mk.inj h₂
  refine ⟨_, @Walk.two _ _ _ (initiativeListing samplePlugin "acme") S S S' ⟨none, true, 1, "acme"⟩
    ⟨some text, true, 5, "acme"⟩ r₁ r₂ .refl h ⟨rfl, rfl⟩ ⟨sampleContext, _, ok_of_toOption hr₁⟩ ⟨rfl, rfl⟩
    ⟨sampleContext, _, ok_of_toOption hr₂⟩ hnext₁.symm (Option.isSome_of_eq_some hnext₁) hnext₂, rfl, ?_⟩
  simp only [List.flatMap_cons, List.flatMap_nil, List.append_nil, List.map_append, hids₁, hids₂]

/-- A create that commits between the two pages with the next number is on the second. -/
theorem initiative_pages_complete_between : ∃ (S last : System)
    (vs : List (Visit ListInitiativesRequest ListInitiativesResponse)),
    Walk (fun _ => True) (initiativeListing samplePlugin "acme") none S vs ∧
    (vs.flatMap fun v => v.response.initiatives).map (fun item => item.initiativeId) = ["alpha", "beta", "gamma"] ∧
    S.db.initiatives.length = 2 ∧ vs.getLast?.map (fun v => v.system.db) = some last.db ∧
    Complete last.db.toFacts "acme" (vs.flatMap fun v => v.response.initiatives) ∧
    InOrder last.db.toFacts "acme" (vs.flatMap fun v => v.response.initiatives) := by
  have hrun : ((System.initial ⟨0, 0⟩).schedule Call.code 3
      (Txn.attempt 0 (sampleCreate "alpha") (sampleTicks 1 6) ++
        Txn.attempt 1 (sampleCreate "beta") (sampleTicks 2 6))).bind (fun S =>
      (S.schedule Call.code 3 (Txn.attempt 2 (sampleCreate "gamma") (sampleTicks 3 6))).map fun S' =>
        decide (((sampleInitiativePage S none 1).map ListInitiativesResponse.shown = some (["alpha"], some "1") ∧
            (sampleInitiativePage S' (some "1") 5).map ListInitiativesResponse.shown =
              some (["beta", "gamma"], none)) ∧
          S.db.initiatives.length = 2 ∧ ∀ r ∈ S'.db.initiatives, r.organizationId = "acme" →
            (S.db.initiative "acme" r.initiativeId).isNone = true → cursorOf (some "1") < r.rowSeq)) =
      some true := by decide +kernel
  obtain ⟨S, S', h, h', hfacts⟩ := @System.scheduled (fun _ => True) _ _ _ _ _ _ _ hrun (by decide)
    fun _ _ _ _ => trivial
  obtain ⟨⟨hfirst, hsecond⟩, hlength, hbeyond⟩ := of_decide_eq_true hfacts
  obtain ⟨vs, hwalk, hvs, hids⟩ := sample_walk h' hfirst hsecond
  have hchain : NotOvertaken "acme" vs := by
    have hmapped : (vs.map fun v => (v.system.db, v.request.after)).IsChain fun p p' =>
        ∀ r ∈ p'.1.initiatives, r.organizationId = "acme" → p.1.initiative "acme" r.initiativeId = none →
          cursorOf p'.2 < r.rowSeq := by
      rw [hvs, List.isChain_pair]
      exact fun r hr ho hnone => hbeyond r hr ho (Option.isNone_iff_eq_none.mpr hnone)
    rwa [List.isChain_map] at hmapped
  obtain ⟨last, hlast, hiff⟩ := initiative_pages_complete (le_refl 0) h hwalk
  obtain ⟨hcomplete, horder⟩ := hiff.mpr hchain
  exact ⟨S, last.system, vs, hwalk, hids, hlength, by rw [hlast]; rfl, hcomplete, horder⟩

/-- A create that draws first and commits between the two pages, when others that drew later have been
listed, is on neither, although it is committed before the second is read. -/
theorem initiative_page_skipped : ∃ (S : System) (last : Visit ListInitiativesRequest ListInitiativesResponse)
    (vs : List (Visit ListInitiativesRequest ListInitiativesResponse)),
    Txn.Steps Call.code (fun _ => True) (System.initial ⟨0, 0⟩) S ∧
    Walk (fun _ => True) (initiativeListing samplePlugin "acme") none S vs ∧ vs.getLast? = some last ∧
    (vs.flatMap fun v => v.response.initiatives).map (fun item => item.initiativeId) = ["beta", "gamma"] ∧
    (last.system.db.initiative "acme" "alpha").isSome = true ∧
    ¬ Complete last.system.db.toFacts "acme" (vs.flatMap fun v => v.response.initiatives) := by
  have hrun : ((System.initial ⟨0, 0⟩).schedule Call.code 3
      ([(0, .start (sampleCreate "alpha"))] ++ (sampleTicks 1 3).map (fun t => (0, .exec t)) ++
        Txn.attempt 1 (sampleCreate "beta") (sampleTicks 2 6) ++
        Txn.attempt 2 (sampleCreate "gamma") (sampleTicks 3 6))).bind (fun S =>
      (S.schedule Call.code 3 ((sampleTicks 1 3).map (fun t => (0, .exec t)) ++ [(0, .commit)])).map fun S' =>
        decide (((sampleInitiativePage S none 1).map ListInitiativesResponse.shown = some (["beta"], some "2") ∧
            (sampleInitiativePage S' (some "2") 5).map ListInitiativesResponse.shown = some (["gamma"], none)) ∧
          (S'.db.initiative "acme" "alpha").isSome = true)) = some true := by decide +kernel
  obtain ⟨S, S', h, h', hfacts⟩ := @System.scheduled (fun _ => True) _ _ _ _ _ _ _ hrun (by decide)
    fun _ _ _ _ => trivial
  obtain ⟨⟨hfirst, hsecond⟩, halpha⟩ := of_decide_eq_true hfacts
  obtain ⟨vs, hwalk, hvs, hids⟩ := sample_walk h' hfirst hsecond
  obtain ⟨last, -, hlast⟩ := hwalk.exists_last
  have hdb : last.system.db = S'.db := by
    have := congrArg List.getLast? hvs
    rw [List.getLast?_map, hlast] at this
    exact congrArg Prod.fst (Option.some.inj this)
  refine ⟨S, last, vs, h, hwalk, hlast, hids, by rw [hdb]; exact halpha, fun hcomplete => ?_⟩
  rw [hdb] at hcomplete
  obtain ⟨r, hr⟩ := Option.isSome_iff_exists.mp halpha
  obtain ⟨hmem, ho, hi⟩ := initiative_mem hr
  have hcount := hcomplete r hmem ho
  rw [hids, hi] at hcount
  exact absurd hcount (by decide)

end Portfolio
