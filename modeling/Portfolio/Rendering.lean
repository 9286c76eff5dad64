/-
# Rows that can be rendered

RFC 3339 has no text for an instant outside the years 0 to 9999, and a
snapshot may be observed at one: `parse_timestamp` accepts any offset. Both
writers of `observed_at` read their row back and format it before they commit,
so no such instant is ever committed, and a list of projects or a rollup finds
a text for every row it reads.

The timestamps of the initiatives come from the database's clock; they have
texts while it stays in those years.

Key definitions: `Printable`, `System.Clocked`, `Rendered`, `Tables.Shows`,
`MayRead`.
Key theorems: `observed_of_history`, `dated_of_history`, `listProjects_sees`,
`readRollup_sees`, `no_poison_rows`.
-/
import Portfolio.Requests
import Portfolio.Cursors
import Portfolio.Txn.Meets

namespace Portfolio

open Txn Txn.Prog

/-- The instants have texts. -/
def Printable (vs : List OffsetDateTime) : Prop := ∀ v ∈ vs, (formatTimestamp v).isSome = true

instance (vs : List OffsetDateTime) : Decidable (Printable vs) := inferInstanceAs (Decidable (∀ v ∈ vs, _))

def InitiativeRow.timestamps (row : InitiativeRow) : List OffsetDateTime :=
  [row.createdAt, row.updatedAt] ++ row.archivedAt.toList

def Tick.timestamps (t : Tick) : List OffsetDateTime := [t.now, t.now']

/-- The server is there, and its clock has a text. -/
def Tick.Healthy (t : Tick) : Prop := t.fault = false ∧ Printable t.timestamps

/-- The database's clock had texts whenever a commit asked for it. -/
def System.Clocked (S : System) : Prop := ∀ x ∈ S.commits, ∀ t ∈ x.ticks, Printable t.timestamps

theorem initiativeFromRow_isSome {row : InitiativeRow} {n : ℕ} :
    (initiativeFromRow row n).isSome = true ↔ Printable row.timestamps := by
  simp only [Printable, InitiativeRow.timestamps, List.cons_append, List.nil_append, List.forall_mem_cons,
    initiativeFromRow]
  cases h1 : formatTimestamp row.createdAt with
  | none => simp
  | some createdAt =>
    cases h2 : formatTimestamp row.updatedAt with
    | none => simp
    | some updatedAt =>
      cases h3 : row.archivedAt with
      | none => simp [optionalTimestamp]
      | some v => cases h4 : formatTimestamp v <;> simp [optionalTimestamp, h4]

/-! ### The memberships -/

/-- A fresh success leaves no row without a text that had one, and takes no snapshot without one. -/
theorem Fresh.observed {actor : String} {op : Op} {F F' : Facts} {r : Record} (h : Fresh actor op F r F') :
    (∀ v, op.observedAt = some v → (formatTimestamp v).isSome = true) ∧
    ((∀ p ∈ F.projects, (formatTimestamp p.observedAt).isSome = true) →
      ∀ p ∈ F'.projects, (formatTimestamp p.observedAt).isSome = true) := by
  cases h with
  | createInitiative | updateInitiative | addUpdate | archiveInitiative => exact ⟨nofun, fun hF => hF⟩
  | attachProject _ _ _ _ _ _ _ hr =>
    have hsome := projectFromRow_isSome.mp (Option.isSome_of_mem hr)
    refine ⟨fun v hv => Option.some.inj hv ▸ hsome, fun hF p hp => ?_⟩
    rcases List.mem_append.mp hp with hp | hp
    · exact hF p hp
    · exact List.mem_singleton.mp hp ▸ hsome
  | updateProjectSnapshot _ _ _ _ _ hr =>
    have hsome := projectFromRow_isSome.mp (Option.isSome_of_mem hr)
    refine ⟨fun v hv => Option.some.inj hv ▸ hsome, fun hF p hp => ?_⟩
    rcases (Table.mem_put _).mp hp with ⟨hp, -⟩ | ⟨rfl, -⟩
    · exact hF p hp
    · exact hsome
  | detachProject => exact ⟨nofun, fun hF p hp => hF p (List.mem_filter.mp hp).1⟩
  | @reorderProjects o i _ items =>
    refine ⟨nofun, fun hF p hp => ?_⟩
    obtain ⟨q, hq, rfl⟩ := List.mem_map.mp hp
    have hsame : (reordered o i items q).observedAt = q.observedAt := by
      unfold reordered
      split
      · split <;> rfl
      · rfl
    rw [hsame]
    exact hF q hq

/-- Every membership of a history has a text for its instant. -/
theorem observed_of_history {T : Tables} {cs : List Committed} (h : History Tables.empty cs T) :
    ∀ p ∈ T.projects, (formatTimestamp p.observedAt).isSome = true :=
  h.preserves (I := fun F => ∀ p ∈ F.projects, (formatTimestamp p.observedAt).isSome = true)
    (fun _ hp => (List.not_mem_nil hp).elim) fun _ _ _ _ _ hF hf => hf.observed.2 hF

/-! ### The initiatives -/

/-- Every initiative has texts for its timestamps. -/
def Facts.Dated (F : Facts) : Prop := ∀ row ∈ F.initiatives, Printable row.timestamps

section
variable {T : Tables} {t : Tick} {β : Type} {binds : List String} {locks : Tables → List Lock}
  {body : Tick → Tables → Except DbError (β × List Write)}

theorem ok_of_ite {ε α : Type} {p : Prop} [Decidable p] {e : ε} {x : Except ε α} {a : α}
    (h : (if p then .error e else x) = .ok a) : x = .ok a := by
  split at h
  · cases h
  · exact h

theorem dated_of (hT : T.Dated) (h : ∀ b ws, body t T = .ok (b, ws) → (applyAll ws T).Dated) :
    (applyAll ((Sql.of binds locks body).run t T).2 T).Dated := by
  rcases Sql.of_run binds locks body t T with ⟨e, he⟩ | ⟨b, ws, -, -, hb, hrun⟩
  · rw [he]
    exact hT
  · rw [hrun]
    exact h b ws hb

theorem dated_select (hT : T.Dated) {answer : Tables → β} :
    (applyAll ((Sql.select binds answer).run t T).2 T).Dated := by
  rw [silent_select t T]
  exact hT

theorem dated_setInitiative {o i : String} {fit : Bool} {f : Tick → InitiativeRow → InitiativeRow} (hT : T.Dated)
    (hf : ∀ row, Printable row.timestamps → Printable (f t row).timestamps) :
    (applyAll ((Sql.setInitiative binds o i fit f).run t T).2 T).Dated := by
  refine dated_of hT fun b ws h => ?_
  split at h
  · cases h
  split at h
  · rename_i row hrow
    split at h
    · obtain ⟨-, rfl⟩ := Prod.mk.inj (Except.ok.inj h)
      intro row' hrow'
      rcases (Table.mem_put _).mp hrow' with ⟨hrow', -⟩ | ⟨rfl, -⟩
      · exact hT row' hrow'
      · exact hf row (hT row (initiative_mem hrow).1)
    · cases h
  · obtain ⟨-, rfl⟩ := Prod.mk.inj (Except.ok.inj h)
    exact hT

/-- A statement leaves the initiatives dated, if the clock it reads is. -/
theorem Sql.For.dated {o actor : String} {mine : CommandKey → Bool} {st : Sql β} (h : st.For o mine actor)
    (ht : Printable t.timestamps) (hT : T.Dated) : (applyAll (st.run t T).2 T).Dated := by
  obtain ⟨hnow, hnow', -⟩ : (formatTimestamp t.now).isSome = true ∧ (formatTimestamp t.now').isSome = true ∧
      Printable [] := by simpa only [Printable, Tick.timestamps, List.forall_mem_cons] using ht
  have hupdated : ∀ {row row' : InitiativeRow}, row'.createdAt = row.createdAt → row'.updatedAt = t.now →
      row'.archivedAt = row.archivedAt → Printable row.timestamps → Printable row'.timestamps := by
    intro row row' hcreated hupdated harchived hrow v hv
    simp only [InitiativeRow.timestamps, hcreated, hupdated, harchived, List.cons_append, List.nil_append,
      List.mem_cons] at hv
    rcases hv with rfl | rfl | hv
    · exact hrow _ List.mem_cons_self
    · exact hnow
    · exact hrow v (List.mem_append_right _ hv)
  cases h with
  | selectCommand | selectInitiativeForUpdate | selectProjectForUpdate | selectOrderForUpdate =>
    refine dated_of hT fun b ws h => ?_
    obtain ⟨-, rfl⟩ := Prod.mk.inj (Except.ok.inj h)
    exact hT
  | selectInitiative | listInitiatives | existsInitiative | selectUpdate | listUpdates | selectPosition
  | countProjects | selectProject | existsProject | listProjects => exact dated_select hT
  | nextInitiativeSeq | nextUpdateSeq =>
    simp only [Sql.nextInitiativeSeq, Sql.nextUpdateSeq, Sql.nextval]
    split <;> exact hT
  | insertCommand =>
    refine dated_of hT fun b ws h => ?_
    split at h
    · cases h
    · obtain ⟨-, rfl⟩ := Prod.mk.inj (Except.ok.inj h)
      exact hT
  | updateCommand =>
    refine dated_of hT fun b ws h => ?_
    split at h
    · cases h
    · split at h <;> obtain ⟨-, rfl⟩ := Prod.mk.inj (Except.ok.inj h) <;> exact hT
  | @insertInitiative v rowSeq =>
    refine dated_of hT fun b ws h => ?_
    obtain ⟨-, rfl⟩ := Prod.mk.inj (Except.ok.inj (ok_of_ite (ok_of_ite (ok_of_ite h))))
    intro row hrow
    rcases List.mem_append.mp hrow with hrow | hrow
    · exact hT row hrow
    · rw [List.mem_singleton.mp hrow]
      exact ht
  | updateInitiative i patch => exact dated_setInitiative hT fun row => hupdated rfl rfl rfl
  | advanceInitiative i health progress revision => exact dated_setInitiative hT fun row => hupdated rfl rfl rfl
  | bumpInitiative i => exact dated_setInitiative hT fun row => hupdated rfl rfl rfl
  | archiveInitiative i =>
    refine dated_setInitiative hT fun row hrow v hv => ?_
    simp only [Sql.closed, InitiativeRow.timestamps, Option.toList_some, List.cons_append, List.nil_append,
      List.mem_cons, List.not_mem_nil, or_false] at hv
    rcases hv with rfl | rfl | rfl
    · exact hrow _ List.mem_cons_self
    · exact hnow'
    · exact hnow
  | insertUpdate rowSeq =>
    refine dated_of hT fun b ws h => ?_
    obtain ⟨-, rfl⟩ := Prod.mk.inj (Except.ok.inj (ok_of_ite (ok_of_ite (ok_of_ite (ok_of_ite h)))))
    exact hT
  | insertProject =>
    refine dated_of hT fun b ws h => ?_
    obtain ⟨-, rfl⟩ := Prod.mk.inj (Except.ok.inj (ok_of_ite (ok_of_ite (ok_of_ite (ok_of_ite h)))))
    exact hT
  | updateSnapshot =>
    refine dated_of hT fun b ws h => ?_
    have h := ok_of_ite h
    split at h
    · split at h
      · obtain ⟨-, rfl⟩ := Prod.mk.inj (Except.ok.inj h)
        exact hT
      · cases h
    · obtain ⟨-, rfl⟩ := Prod.mk.inj (Except.ok.inj h)
      exact hT
  | deleteProject =>
    refine dated_of hT fun b ws h => ?_
    split at h
    · split at h <;> obtain ⟨-, rfl⟩ := Prod.mk.inj (Except.ok.inj h) <;> exact hT
    · obtain ⟨-, rfl⟩ := Prod.mk.inj (Except.ok.inj h)
      exact hT
  | stageOrder i =>
    refine dated_of hT fun b ws h => ?_
    cases hs : Sql.stageRows ((T.projectsOf o i).insertionSort fun r s => t.rank r.projectId ≤ t.rank s.projectId)
        (T.projectsOf o i) with
    | error e => rw [hs] at h; cases h
    | ok vs =>
      rw [hs] at h
      obtain ⟨-, rfl⟩ := Prod.mk.inj (Except.ok.inj h)
      rw [stageRows_ok _ _ hs, applyAll_setProject Sql.staged]
      exact hT
  | writePosition =>
    refine dated_of hT fun b ws h => ?_
    have h := ok_of_ite h
    split at h
    · obtain ⟨-, rfl⟩ := Prod.mk.inj (Except.ok.inj (ok_of_ite (ok_of_ite h)))
      exact hT
    · obtain ⟨-, rfl⟩ := Prod.mk.inj (Except.ok.inj h)
      exact hT

end

/-- The initiatives of a history whose commits read a clock with texts are dated. -/
theorem dated_of_history {T : Tables} {cs : List Committed} (h : History Tables.empty cs T)
    (hcs : ∀ x ∈ cs, ∀ t ∈ x.ticks, Printable t.timestamps) : T.Dated := by
  refine Txn.Chain.preserves Call.code (I := fun T : Tables => T.Dated) h (fun _ hr => (List.not_mem_nil hr).elim)
    fun x hx hb => ?_
  have hticks := @thenTicks_forall Tick (fun t => Printable t.timestamps) (fun _ => default)
    (fun _ => by decide) x.ticks (hcs x hx)
  have hrun := h.run Call.code hx fun _ => default
  have hcalls : x.call.code.Calls fun _ st => ∀ t T, Printable t.timestamps → T.Dated →
      (applyAll (st.run t T).2 T).Dated :=
    x.call.statements.mono fun _ st (hst : Sql.For _ _ _ st) _ _ ht hT => hst.dated ht hT
  have hafter := hcalls.run_preserves hticks hb
  rwa [hrun] at hafter

/-! ### The reads -/

/-- The rows have texts for their timestamps, and are as their constraints want them. -/
structure Rendered (T : Tables) : Prop where
  projects : ∀ p ∈ T.projects, (formatTimestamp p.observedAt).isSome = true ∧ p.checks = true
  initiatives : ∀ row ∈ T.initiatives, Printable row.timestamps ∧ row.checks = true

/-- Tables with the initiative, whose rows have texts. -/
def Tables.Shows (T : Tables) (o i : String) : Prop := Rendered T ∧ (T.initiative o i).isSome = true

/-- The read answers what is `good`. -/
def Answered {α : Type} (good : α → Prop) (r : Except StorageError α) : Prop := ∃ a, r = .ok a ∧ good a

section
variable {α β : Type} {o i : String} {good : α → Prop} {good' : β → Prop} {K : Tick → Prop} {I : Tables → Prop}

theorem sees_bind {p : Tx α} {f : α → Tx β} (h : p.Sees K I (Answered good))
    (hf : ∀ a, good a → (f a).Sees K I (Answered good')) : (p >>= f).Sees K I (Answered good') := by
  refine Prog.Sees.bind (h.mono fun r hr => ?_)
  obtain ⟨a, rfl, ha⟩ := hr
  exact hf a ha

/-- A SELECT of a server that is not lost answers. -/
theorem sees_select {binds : List String} {answer : Tables → α} {operation : String} (hn : Clean binds)
    (h : ∀ T, I T → good (answer T)) :
    (perform (Sql.select binds answer) (.database operation)).Sees (fun t => t.fault = false) I (Answered good) := by
  refine sees_perform fun t T ht hT => ⟨answer T, ?_, h T hT⟩
  simp only [Sql.select, Sql.of, ht, hn.any, Bool.false_eq_true, if_false]
  rfl

theorem sees_formatted {x : Option α} (h : ∃ a, x = some a ∧ good a) : (formatted x).Sees K I (Answered good) := by
  obtain ⟨a, rfl, ha⟩ := h
  exact sees_ret ⟨a, rfl, ha⟩

/-- The initiative that is read converts. -/
theorem sees_readInitiative (hn : Clean [o, i]) : (readInitiative o i).Sees (fun t => t.fault = false)
    (fun T => T.Shows o i) (Answered fun r => ∃ health, decHealth (.str r.health) = some health) := by
  have hselect : (perform (Sql.selectInitiative o i) (.database "read initiative")).Sees (fun t => t.fault = false)
      (fun T => T.Shows o i) (Answered fun x => ∃ row n, x = some (row, n) ∧ Printable row.timestamps ∧
        row.checks = true) := by
    refine sees_select hn fun T hT => ?_
    obtain ⟨hrendered, hfound⟩ := hT
    obtain ⟨row, hrow⟩ := Option.isSome_iff_exists.mp hfound
    rw [hrow]
    exact ⟨row, _, rfl, hrendered.initiatives _ (initiative_mem hrow).1⟩
  refine sees_bind hselect fun x hx => ?_
  obtain ⟨row, n, rfl, hprintable, hc⟩ := hx
  obtain ⟨r, hr⟩ := Option.isSome_iff_exists.mp (initiativeFromRow_isSome.mpr hprintable)
  refine sees_formatted ⟨r, hr, ?_⟩
  have hhealth : r.health = row.health := by
    simp only [initiativeFromRow, Option.bind_eq_bind, Option.bind_eq_some_iff] at hr
    obtain ⟨_, -, _, -, _, -, hr⟩ := hr
    rw [← Option.some.inj hr]
  rw [hhealth]
  exact decHealth_of_check (InitiativeRow.checks_iff.mp hc).2.1

section
variable {accepts : String → Bool} (haccepts : ∀ v text, formatTimestamp v = some text → accepts text = true)

include haccepts

theorem projectsItem_isSome {row : ProjectRow} {r : ProjectRecord} (hc : row.checks = true)
    (h : projectFromRow row none = some r) :
    (ListInitiativeProjectsResponseProjectsItem.fromJson accepts r.toJson).isSome = true := by
  obtain ⟨-, -, hstatus, hhealth, -⟩ := ProjectRow.checks_iff.mp hc
  obtain ⟨status, hstatus⟩ := decStatus_of_check hstatus
  obtain ⟨health, hhealth⟩ := decHealth_of_check hhealth
  obtain ⟨observedAt, h1, h⟩ := Option.bind_eq_some_iff.mp h
  obtain rfl := Option.some.inj h
  simp [ListInitiativeProjectsResponseProjectsItem.fromJson, ProjectRecord.toJson, Json.req, Json.field, hstatus,
    hhealth, decTimestamp_of_format haccepts h1]

/-- Every membership that is listed has a record that converts. -/
theorem listProjects_sees {after : Option ℤ} {limit : ℤ} (hn : Clean [o, i]) :
    (listProjects o i after limit).Sees (fun t => t.fault = false) (fun T => T.Shows o i)
      (Answered fun records => ∀ r ∈ records,
        (ListInitiativeProjectsResponseProjectsItem.fromJson accepts r.toJson).isSome = true) := by
  have hexists : (ensureExists o i).Sees (fun t => t.fault = false) (fun T => T.Shows o i)
      (Answered fun _ => True) := by
    have hfound : (perform (Sql.existsInitiative o i) (.database "check initiative")).Sees (fun t => t.fault = false)
        (fun T => T.Shows o i) (Answered fun found => found = true) := sees_select hn fun _ hT => hT.2
    refine sees_bind hfound fun found h => ?_
    subst h
    exact sees_ret ⟨(), rfl, trivial⟩
  have hlist : (perform (Sql.listProjects o i (after.getD (-1)) limit)
      (.database "list initiative projects")).Sees (fun t => t.fault = false) (fun T => T.Shows o i)
        (Answered fun rows => ∀ row ∈ rows,
          (formatTimestamp row.observedAt).isSome = true ∧ row.checks = true) := by
    refine sees_select hn fun T hT row hrow => ?_
    have hlisted := List.mem_of_mem_take hrow
    rw [List.mem_insertionSort] at hlisted
    exact hT.1.projects row (List.mem_filter.mp (List.mem_filter.mp hlisted).1).1
  refine sees_bind hexists fun _ _ => sees_bind hlist fun rows hrows => ?_
  obtain ⟨records, hrecords⟩ := @Json.exists_mapM _ _ (fun row => projectFromRow row none) rows fun row hrow =>
    projectFromRow_isSome.mpr (hrows row hrow).1
  refine sees_formatted ⟨records, hrecords, fun r hr => ?_⟩
  obtain ⟨row, hrow, hf⟩ := Json.mem_of_mapM hrecords r hr
  exact projectsItem_isSome haccepts (hrows row hrow).2 hf

/-- A rollup converts, if the plugin's own clock has a text. -/
theorem readRollup_sees {now : Instant} {computedAt : String} (hn : Clean [o, i])
    (hnow : formatInstant now = some computedAt) (htext : accepts computedAt = true) :
    (readRollup o i now).Sees (fun t => t.fault = false) (fun T => T.Shows o i) (Answered fun r =>
      (ReadRollupResponse.fromJson accepts r.toJson).isSome = true) := by
  refine sees_bind (sees_readInitiative hn) fun initiative hinitiative =>
    sees_bind (listProjects_sees haccepts hn) fun projects _ => ?_
  obtain ⟨health, hhealth⟩ := hinitiative
  cases hr : computeRollup initiative projects now with
  | none => simp [computeRollup, hnow] at hr
  | some r =>
    refine sees_formatted ⟨r, rfl, ?_⟩
    simp only [computeRollup, hnow, Option.bind_eq_bind, Option.bind_some, Option.pure_def, Option.some.injEq] at hr
    subst hr
    have haverage : ∀ q : Option ℚ, Json.decOption Json.decNum (Json.ofOption .num q) = some q :=
      Json.decOption_ofOption (fun _ => rfl) nofun
    have hcomputed : decTimestamp accepts (.str computedAt) = some computedAt := if_pos htext
    simp [haverage, ReadRollupResponse.fromJson, RollupRecord.toJson, Json.req, Json.field, hhealth,
      hcomputed, decEnum, ReadRollupResponseSource.text]

end

end

/-! ### The handlers of the reads -/

/-- The call may read the organization's portfolio. -/
def MayRead (plugin : ProjectPortfolioPlugin) (context : Context) (operation o : String) : Prop :=
  ∃ auth, plugin.authorize context plugin.portfolioCallers portfolioCapability operation o portfolioRead = .ok auth

section
variable {α β : Type} {t : ℕ → Tick} {T : ℕ → Tables} {o i : String}

/-- A read that is allowed and valid, and whose records convert, is answered. -/
theorem answers_of_sees {plugin : ProjectPortfolioPlugin} {x : Except AuthorizationFailure Authorized} {b : Bool}
    {s : Storage β} {f : β → Handler ReadError α} {good : β → Prop} (hx : ∃ auth, x = .ok auth) (hb : b = true)
    (hactive : plugin.active = true)
    (h : s.code.Sees (fun t => t.fault = false) (fun T => T.Shows o i) (Answered good))
    (ht : ∀ n, (t n).fault = false) (hT : ∀ n, (T n).Shows o i) (hf : ∀ a, good a → ∃ b, f a = .ret b) :
    ∃ a, (Handler.observe (authorized x >>= fun _ => valid b >>= fun _ => prepared plugin >>= fun _ =>
      stored s readError >>= f) t T).1 = .ok a := by
  obtain ⟨auth, rfl⟩ := hx
  subst hb
  have hprepared : (prepared plugin : Handler ReadError Unit) = pure () := by
    unfold prepared
    rw [hactive]
    rfl
  obtain ⟨a, ha, hgood⟩ := h t T ht hT
  obtain ⟨b, hb⟩ := hf a hgood
  refine ⟨b, ?_⟩
  show (Handler.observe (prepared plugin >>= fun _ => stored s readError >>= f) t T).1 = _
  rw [hprepared]
  show (Handler.observe (Prog.call s fun r => _) t T).1 = _
  rw [Handler.observe, ha]
  show (Handler.observe (f a) _ _).1 = _
  rw [hb]
  rfl

variable {plugin : ProjectPortfolioPlugin} {context : Context}
  (haccepts : ∀ v text, formatTimestamp v = some text → plugin.accepts text = true) (hactive : plugin.active = true)
  (ht : ∀ n, (t n).fault = false) (hT : ∀ n, (T n).Shows o i) (hi : validOpaqueId i = true)

include haccepts hactive ht hT hi

theorem listInitiativeProjects_answers {after : Option ℤ} {limit : ℤ} (hlimit : 1 ≤ limit ∧ limit ≤ 200)
    (hmay : MayRead plugin context "list_initiative_projects" o) :
    ∃ a, (Handler.observe (plugin.listInitiativeProjects context ⟨after, i, limit, o⟩) t T).1 = .ok a := by
  obtain ⟨auth, hauth⟩ := hmay
  have hclean : Clean [o, i] := by
    simp only [clean_cons, clean_nil, and_true]
    exact ⟨@clean_organization plugin context (.listInitiativeProjects ⟨after, i, limit, o⟩) auth hauth,
      hasNul_of_validBoundedOpaque hi⟩
  refine answers_of_sees ⟨auth, hauth⟩ ?_ hactive (listProjects_sees haccepts hclean) ht hT fun records hrecords => ?_
  · rw [Bool.and_eq_true]
    exact ⟨hi, decide_eq_true hlimit⟩
  obtain ⟨items, hitems⟩ := @Json.exists_mapM _ _
    (fun record => ListInitiativeProjectsResponseProjectsItem.fromJson plugin.accepts (ProjectRecord.toJson record))
    (page limit records).1 fun record hrecord => by
      refine hrecords record ?_
      unfold page at hrecord
      split at hrecord
      · exact List.mem_of_mem_dropLast hrecord
      · exact hrecord
  refine ⟨⟨nextCursor (fun record => record.position) (page limit records), items⟩, ?_⟩
  simp only [hitems]
  rfl

theorem readRollup_answers {computedAt : String} (hnow : formatInstant context.now = some computedAt)
    (htext : plugin.accepts computedAt = true) (hmay : MayRead plugin context "read_rollup" o) :
    ∃ a, (Handler.observe (plugin.readRollup context ⟨i, o⟩) t T).1 = .ok a := by
  obtain ⟨auth, hauth⟩ := hmay
  have hclean : Clean [o, i] := by
    simp only [clean_cons, clean_nil, and_true]
    exact ⟨@clean_organization plugin context (.readRollup ⟨i, o⟩) auth hauth, hasNul_of_validBoundedOpaque hi⟩
  refine answers_of_sees ⟨auth, hauth⟩ hi hactive (readRollup_sees haccepts hclean hnow htext) ht hT
    fun record hrecord => ?_
  obtain ⟨response, hresponse⟩ := Option.isSome_iff_exists.mp hrecord
  exact ⟨response, by rw [hresponse]; rfl⟩

end

/-- A state the plugin has committed, its database's clock in the years that have texts. -/
def Reached (plugin : ProjectPortfolioPlugin) (w : Sequences) (T : Tables) : Prop :=
  ∃ S : System, Txn.Steps Call.code (Admitted plugin) (System.initial w) S ∧ S.Clocked ∧ S.db = T

theorem rendered_of_reached {plugin : ProjectPortfolioPlugin} {w : Sequences} {T : Tables} (h : Reached plugin w T) :
    Rendered T := by
  obtain ⟨S, hS, hclock, rfl⟩ := h
  have hchain := (reachable_inv hS).chain
  refine ⟨fun p hp => ⟨observed_of_history hchain p hp, ?_⟩, fun row hrow =>
    ⟨dated_of_history hchain hclock row hrow, checked_of_history hchain row hrow⟩⟩
  exact (represented_of_history hchain p.organizationId p.initiativeId).checked p
    (mem_projectsOf.mpr ⟨hp, rfl, rfl⟩)

/-! ### The writers -/

/-- What answers an attach or a refresh, a replay included, has observed it at an instant with a text. -/
theorem observed_of_outcome {plugin : ProjectPortfolioPlugin} {cs : List Committed} {T T' : Tables} {context : Context}
    {q : Request} {c : Call} {j : Json} {r : Record} (h : History Tables.empty cs T)
    (hadmitted : ∀ x ∈ cs, Admitted plugin x.call) (hc : Handler.mutation (q.handle plugin context) = some c)
    (hj : q.json = some j) (hdigest : Unmatched plugin cs j) (ho : Outcome c T r T') {v : OffsetDateTime}
    (hv : c.op.observedAt = some v) : (formatTimestamp v).isSome = true := by
  cases ho with
  | fresh _ hf => exact hf.observed.1 v hv
  | replay row stored hrow hh hstored hr =>
    obtain ⟨x, hx, hfresh, hhash, -⟩ := (receipts_of_history h).replayed hrow hstored hr
    obtain ⟨context', q', hc'⟩ := hadmitted x hx
    -- the two requests have one digest, so one JSON, which names the instant
    obtain ⟨j', hj', hdigest'⟩ := (issued_of_mutation hc').hash
    obtain ⟨j₁, hj₁, hdigest₁⟩ := (issued_of_mutation hc).hash
    obtain rfl := Option.some.inj (hj.symm.trans hj₁)
    have hsame : plugin.digest j' = plugin.digest j := by
      rw [← hdigest', hhash, hh, hdigest₁]
    obtain rfl := hdigest x hx context' q' j' (issued_of_mutation hc') hj' hsame
    have hobserved := (sends_of_mutation hc').observedAt hj'
    rw [← (sends_of_mutation hc).observedAt hj, hv] at hobserved
    exact (fresh_of_fresh (outcome_of_mem h hx) hfresh).observed.1 v hobserved

/-- A handler that is asked for a snapshot without a text answers an error and leaves the tables. -/
theorem serve_unprintable {plugin : ProjectPortfolioPlugin} {w : Sequences} {S : System} {context : Context}
    {q : Request} {c : Call} {j : Json} {v : OffsetDateTime} {t : ℕ → Tick}
    (h : Txn.Steps Call.code (Admitted plugin) (System.initial w) S)
    (hc : Handler.mutation (q.handle plugin context) = some c) (hj : q.json = some j)
    (hdigest : Unmatched plugin S.commits j) (hv : c.op.observedAt = some v) (hnone : formatTimestamp v = none) :
    ∃ e, Handler.serve (q.handle plugin context) t S.db = (.error e, S.db) := by
  have hinv := reachable_inv h
  rcases handle_asks plugin context q with ⟨e, he⟩ | ⟨β, s, map, answer, hfor, he⟩
  · rw [he] at hc
    cases hc
  · have hmutation := hc
    rw [he] at hc
    obtain ⟨⟨c', wrap⟩, hcall, rfl⟩ := Option.map_eq_some_iff.mp hc
    rw [he, serve_asks]
    cases hs : (s.serve t S.db).1 with
    | error e => exact ⟨mapStorage map e, by rw [serve_error hs]⟩
    | ok a =>
      have hsome := observed_of_outcome hinv.chain hinv.admitted hmutation hj hdigest (outcome_of_serve hcall hs) hv
      rw [hnone] at hsome
      cases hsome

/-- **No poison rows.** In every state the plugin reaches, every committed project row can be rendered. So on a server
that is there a valid call that may read is answered, each of its statements on a committed state of its own moment
that has the initiative: with a list of the projects, and with a rollup where the plugin's own clock has a text. And
an attach or a refresh observed at an instant without a text answers an error and leaves the tables as they were, in a
run as alone, where the digest of its request is that of no other request that has committed; none of the commits of a
run has ever changed anything for one. -/
theorem no_poison_rows {plugin : ProjectPortfolioPlugin} {w : Sequences}
    (haccepts : ∀ v text, formatTimestamp v = some text → plugin.accepts text = true) :
    (∀ S : System, Txn.Steps Call.code (Admitted plugin) (System.initial w) S →
      (∀ p ∈ S.db.projects, ∀ revision, ∃ record, projectFromRow p revision = some record) ∧
      (∀ (context : Context) (q : Request) (c : Call) (j : Json) (v : OffsetDateTime) (t : ℕ → Tick),
        Handler.mutation (q.handle plugin context) = some c → q.json = some j → Unmatched plugin S.commits j →
        c.op.observedAt = some v → formatTimestamp v = none →
        ∃ e, Handler.serve (q.handle plugin context) t S.db = (.error e, S.db)) ∧
      (∀ x ∈ S.commits, ∀ v, x.call.op.observedAt = some v → formatTimestamp v = none → x.after = x.before ∧
        ∀ (context : Context) (q : Request) (j : Json), Handler.mutation (q.handle plugin context) = some x.call →
          q.json = some j → ¬ Unmatched plugin S.commits j)) ∧
    (plugin.active = true → ∀ (T : ℕ → Tables) (t : ℕ → Tick) (context : Context) (o i : String),
      (∀ n, Reached plugin w (T n)) → (∀ n, (t n).fault = false) → validOpaqueId i = true →
      (∀ n, ((T n).initiative o i).isSome = true) →
      (∀ after limit, 1 ≤ limit ∧ limit ≤ 200 → MayRead plugin context "list_initiative_projects" o →
        ∃ a, (Handler.observe (plugin.listInitiativeProjects context ⟨after, i, limit, o⟩) t T).1 = .ok a) ∧
      (∀ computedAt, formatInstant context.now = some computedAt → plugin.accepts computedAt = true →
        MayRead plugin context "read_rollup" o →
        ∃ a, (Handler.observe (plugin.readRollup context ⟨i, o⟩) t T).1 = .ok a)) := by
  refine ⟨fun S h => ⟨fun p hp revision => ?_, fun context q c j v t hc hj hdigest hv hnone =>
    serve_unprintable h hc hj hdigest hv hnone, fun x hx v hv hnone => ?_⟩,
        fun hactive T t context o i hT ht hi hfound => ?_⟩
  · exact Option.isSome_iff_exists.mp (projectFromRow_isSome.mpr (observed_of_history (reachable_inv h).chain p hp))
  · have hinv := reachable_inv h
    have ho := outcome_of_mem hinv.chain hx
    refine ⟨after_of_not_fresh ho fun hfresh => ?_, fun context q j hc hj hdigest => ?_⟩
    · have hsome := (fresh_of_fresh ho hfresh).observed.1 v hv
      rw [hnone] at hsome
      cases hsome
    · obtain ⟨cs, ds, hcs⟩ := List.append_of_mem hx
      have hsub : ∀ y ∈ cs, y ∈ S.commits := fun y hy => hcs ▸ List.mem_append_left _ hy
      have hchain := hinv.chain
      rw [hcs] at hchain
      have hsome := observed_of_outcome (hchain.around Call.code).1 (fun y hy => hinv.admitted y (hsub y hy)) hc hj
        (fun y hy => hdigest y (hsub y hy)) ho hv
      rw [hnone] at hsome
      cases hsome
  · have hshows : ∀ n, (T n).Shows o i := fun n => ⟨rendered_of_reached (hT n), hfound n⟩
    exact ⟨fun _ _ hlimit hmay => listInitiativeProjects_answers haccepts hactive ht hshows hi hlimit hmay,
      fun _ hnow htext hmay => readRollup_answers haccepts hactive ht hshows hi hnow htext hmay⟩

/-- An attach observed a minute before the year 0. -/
def sampleOldRequest : Request :=
  .attachProject ⟨"2", .onTrack, "attach-old", "alpha", "Old", "0000-01-01T00:00:00+00:01", "acme", 1, 10, "old", "r1",
    .started, none, none⟩

/-- An instance that parses its timestamp and digests it. -/
def sampleOldPlugin : ProjectPortfolioPlugin :=
  { samplePlugin with
    parseRfc3339 := fun value =>
      if value = "0000-01-01T00:00:00+00:01" then some (-62167219260000000) else samplePlugin.parseRfc3339 value
    digest := fun j =>
      if sampleOldRequest.json = some j then [75, 244, 150, 57, 96, 20, 6, 99, 135, 30, 113, 0, 67, 77, 194, 166, 205,
        72, 11, 250, 132, 238, 31, 207, 194, 252, 28, 180, 217, 237, 73, 245] else samplePlugin.digest j }

theorem digest_sampleOld {j j' : Json} (hj : sampleOldRequest.json = some j)
    (h : sampleOldPlugin.digest j' = sampleOldPlugin.digest j) : j' = j := by
  by_cases hj' : sampleOldRequest.json = some j'
  · exact Option.some.inj (hj'.symm.trans hj)
  · have hnone : ∀ d ∈ sampleDigests, d.2 ≠ sampleOldPlugin.digest (sampleOldRequest.json.getD .null) := by
      decide +kernel
    have hempty : sampleOldPlugin.digest (sampleOldRequest.json.getD .null) ≠ [] := by decide +kernel
    have hj : j = sampleOldRequest.json.getD .null := by rw [hj]; rfl
    rw [← hj] at hnone hempty
    have hlookup : sampleOldPlugin.digest j' =
        ((sampleDigests.find? fun d => d.1.json = some j').map (·.2)).getD [] := if_neg hj'
    rw [hlookup] at h
    cases hfind : sampleDigests.find? fun d => d.1.json = some j' with
    | none =>
      rw [hfind] at h
      exact absurd h.symm hempty
    | some d =>
      rw [hfind] at h
      exact absurd h (hnone d (List.mem_of_find?_eq_some hfind))

/-- The old attach is refused, and the projects and the rollup of its initiative are answered. -/
theorem no_poison_rows_old : ∃ S : System, S.db.projects.length = 1 ∧
    (∃ e, Handler.serve (sampleOldRequest.handle sampleOldPlugin sampleContext) (fun _ => default) S.db =
      (.error e, S.db)) ∧
    (∃ a, (Handler.observe (sampleOldPlugin.listInitiativeProjects sampleContext ⟨none, "alpha", 10, "acme"⟩)
      (fun _ => default) fun _ => S.db).1 = .ok a) ∧
    (∃ a, (Handler.observe (sampleOldPlugin.readRollup sampleContext ⟨"alpha", "acme"⟩) (fun _ => default)
      fun _ => S.db).1 = .ok a) := by
  have hrun : ((System.initial ⟨0, 0⟩).schedule Call.code 2 sampleMembership).bind (fun S =>
      (S.schedule Call.code 2 []).map fun S' => decide ((S'.db.projects.length = 1 ∧
        (S'.db.initiative "acme" "alpha").isSome = true) ∧
        ∀ x ∈ S'.commits, ∀ t ∈ x.ticks, Printable t.timestamps)) = some true := by decide +kernel
  have hadmitted : ∀ x ∈ sampleMembership, ∀ c, x.2 = .start c → Admitted sampleOldPlugin c :=
    admitted_sampleMembership ⟨sampleContext, sampleCreateRequest, by decide +kernel⟩
      ⟨sampleContext, sampleAttachRequest, by decide +kernel⟩
  obtain ⟨S, S', h, h', hfacts⟩ := @System.scheduled (Admitted sampleOldPlugin) _ _ _ _ _ _ _ hrun (by decide +kernel)
    (Txn.starts_append hadmitted Txn.starts_nil)
  obtain ⟨⟨hcount, hfound⟩, hclock⟩ := of_decide_eq_true hfacts
  obtain ⟨hwrites, hreads⟩ := @no_poison_rows sampleOldPlugin ⟨0, 0⟩ fun _ _ _ => rfl
  obtain ⟨-, hrefused, -⟩ := hwrites S' (h.trans h')
  obtain ⟨hlists, hrollup⟩ := hreads rfl (fun _ => S'.db) (fun _ => default) sampleContext "acme" "alpha"
    (fun _ => ⟨S', h.trans h', hclock, rfl⟩) (fun _ => rfl) (by decide +kernel) fun _ => hfound
  refine ⟨S', hcount, ?_, hlists none 10 (by decide) ⟨⟨"planner", "ann"⟩, by rfl⟩, ?_⟩
  · refine hrefused sampleContext sampleOldRequest _ _ (-62167219260000000) _ (by rfl) (by rfl) ?_ (by rfl)
      (by decide +kernel)
    exact fun x _ context q j' _ _ hj' => digest_sampleOld rfl hj'
  · obtain ⟨computedAt, hnow⟩ : ∃ text, formatInstant sampleContext.now = some text :=
      Option.isSome_iff_exists.mp (by decide +kernel)
    exact hrollup computedAt hnow rfl ⟨⟨"planner", "ann"⟩, by rfl⟩

end Portfolio
