/-
# The sequence of the updates

An update draws its `row_seq` after it has locked its initiative and commits
before it gives the lock back, so the draws of one initiative's updates are
in the order of their commits, although those of different initiatives need
not be. The sequence is part of the world, which no rollback undoes: the
proof is one of rely and guarantee, with the last value drawn as the bound.

Key definitions: `Sequenced`, `Pending`, `Calm`.
Key theorems: `Calm.sustains`, `Call.sustains`, `sequenced_of_steps`,
`health_is_latest_update`.
-/
import Portfolio.Updates
import Portfolio.Txn.Rely

namespace Portfolio

open Txn Txn.Prog

/-- No update is beyond the last value drawn, and each initiative's are in order. -/
def Sequenced (T : Tables) (w : Sequences) : Prop :=
  (∀ u ∈ T.updates, u.rowSeq ≤ w.updates) ∧
    ∀ o i, (T.updatesOf o i).Pairwise fun u v => u.rowSeq < v.rowSeq

/-- What a statement may do to the sequence. -/
def Draws (w w' : Sequences) : Prop := w.updates ≤ w'.updates

/-- The updates among writes. -/
def newUpdates (ws : List Write) : List UpdateRow :=
  ws.filterMap fun
    | .insertUpdate r => some r
    | _ => none

/-- Updates that are not committed yet and come after all that are. -/
def Pending (us : List UpdateRow) (T : Tables) (w : Sequences) : Prop :=
  ∀ u ∈ us, u.rowSeq ≤ w.updates ∧ ∀ v ∈ T.updatesOf u.organizationId u.initiativeId, v.rowSeq < u.rowSeq

/-- A drawn value that comes after all updates of the initiative. -/
def Above (o i : String) (n : ℤ) (T : Tables) (w : Sequences) : Prop :=
  n ≤ w.updates ∧ ∀ v ∈ T.updatesOf o i, v.rowSeq < n

theorem agree_updatesOf {H : List Lock} {T T' : Tables} {o i : String} (h : Agree H T T')
    (hl : Lock.initiative o i ∈ H) : T.updatesOf o i = T'.updatesOf o i := by
  have h1 : Lock.part (.initiative o i) T = Lock.part (.initiative o i) T' := h _ hl
  simp only [Lock.part, Tables.mk.injEq, Facts.mk.injEq, and_true] at h1
  exact h1.2.2

theorem stable_above {H : List Lock} {o i : String} (hl : Lock.initiative o i ∈ H) (n : ℤ) :
    Stable Draws H (Above o i n) := by
  intro T T' w w' h ha hw
  refine ⟨h.1.trans hw, ?_⟩
  rw [agree_updatesOf ha hl]
  exact h.2

theorem stable_pending {H : List Lock} {us : List UpdateRow}
    (hl : ∀ u ∈ us, Lock.initiative u.organizationId u.initiativeId ∈ H) :
    Stable Draws H (Pending us) := fun T T' w w' h ha hw u hu =>
  stable_above (hl u hu) u.rowSeq T T' w w' (h u hu) ha hw

theorem applyAll_updates : ∀ (ws : List Write) (T : Tables),
    (applyAll ws T).updates = T.updates ++ newUpdates ws
  | [], T => (List.append_nil _).symm
  | w :: ws, T => by
    rw [applyAll_cons, applyAll_updates ws]
    cases w <;> simp [newUpdates, Write.apply]

/-- One pending update, committed, keeps the order. -/
theorem sequenced_applyAll {ws : List Write} {T : Tables} {w : Sequences} (h : Sequenced T w)
    (hone : (newUpdates ws).length ≤ 1) (hp : Pending (newUpdates ws) T w) : Sequenced (applyAll ws T) w := by
  refine ⟨fun u hu => ?_, fun o i => ?_⟩
  · rw [applyAll_updates] at hu
    rcases List.mem_append.mp hu with hu | hu
    · exact h.1 u hu
    · exact (hp u hu).1
  · rw [Facts.updatesOf, applyAll_updates, List.filter_append, List.pairwise_append]
    refine ⟨h.2 o i, ?_, fun v hv u hu => ?_⟩
    · have hle := (List.length_filter_le (UpdateRow.at o i) (newUpdates ws)).trans hone
      rcases Nat.le_one_iff_eq_zero_or_eq_one.mp hle with hnone | hone
      · rw [List.length_eq_zero_iff.mp hnone]
        exact .nil
      · obtain ⟨u, hu⟩ := List.length_eq_one_iff.mp hone
        rw [hu]
        exact List.pairwise_singleton _ _
    · obtain ⟨hu, hat⟩ := List.mem_filter.mp hu
      simp only [UpdateRow.at, decide_eq_true_eq] at hat
      refine (hp u hu).2 v ?_
      rw [hat.1, hat.2]
      exact hv

/-! ### Programs without an update -/

section
variable {α β γ : Type}

/-- The program inserts no update. -/
def Calm : Tx α → Prop
  | .ret _ => True
  | .throw _ => True
  | .call st k => ∀ t T, (∀ w w', st.offer w t = some w' → Draws w w') ∧ newUpdates (st.run t T).2 = [] ∧
      Calm (k (st.run t T).1)

theorem Calm.bind : ∀ {p : Tx α} {f : α → Tx β}, Calm p → (∀ a, Calm (f a)) → Calm (p >>= f)
  | .ret a, _, _, hf => hf a
  | .throw _, _, _, _ => trivial
  | .call _ _, _, h, hf => fun t T => ⟨(h t T).1, (h t T).2.1, Calm.bind (h t T).2.2 hf⟩

/-- A program without an update sustains the order, with at most one update in its writes. -/
theorem Calm.sustains : ∀ {p : Tx α}, Calm p → ∀ {H : List Lock} {ws : List Write},
    (newUpdates ws).length ≤ 1 →
    (∀ u ∈ newUpdates ws, Lock.initiative u.organizationId u.initiativeId ∈ H) →
    p.Sustains Sequenced Draws H ws (Pending (newUpdates ws))
  | .ret _, _, _, _, hone, _ => fun _ _ hJ hp => sequenced_applyAll hJ hone hp
  | .throw _, _, _, _, _, _ => trivial
  | .call st k, h, H, ws, hone, hl => fun t T w w' _ hA hw => by
    obtain ⟨hdraw, hnone, hrest⟩ := h t (applyAll ws T)
    have hnew : newUpdates (ws ++ (st.run t (applyAll ws T)).2) = newUpdates ws := by
      rw [newUpdates, List.filterMap_append]
      exact (congrArg (newUpdates ws ++ ·) hnone).trans (List.append_nil _)
    have hl' : ∀ u ∈ newUpdates ws, Lock.initiative u.organizationId u.initiativeId ∈
        H ++ st.locks t (applyAll ws T) := fun u hu => List.mem_append_left _ (hl u hu)
    refine ⟨hdraw w w' hw, Pending (newUpdates ws), stable_pending hl', fun u hu => ?_, ?_⟩
    · exact ⟨(hA u hu).1.trans (hdraw w w' hw), (hA u hu).2⟩
    · have := @Calm.sustains _ hrest (H ++ st.locks t (applyAll ws T))
        (ws ++ (st.run t (applyAll ws T)).2) (by rwa [hnew]) (by rwa [hnew])
      rwa [hnew] at this

/-- A program without an update sustains the order when its writes have none either. -/
theorem Calm.sustains_true {p : Tx α} (h : Calm p) {H : List Lock} {ws : List Write} (hws : newUpdates ws = []) :
    p.Sustains Sequenced Draws H ws fun _ _ => True := by
  have hnone : ∀ u, u ∉ newUpdates ws := fun u hu => by simp [hws] at hu
  have hp := @Calm.sustains _ _ h H ws (by simp [hws]) fun u hu => absurd hu (hnone u)
  exact Prog.Sustains.weaken Sequenced Draws hp fun _ _ _ u hu => absurd hu (hnone u)

/-- Before its first update a program may go on from one without any. -/
theorem Calm.then_sustains : ∀ {p : Tx α} {f : α → Tx β}, Calm p → ∀ {H : List Lock} {ws : List Write},
    newUpdates ws = [] →
    (∀ a K vs, H ⊆ K → newUpdates vs = [] → (f a).Sustains Sequenced Draws K vs fun _ _ => True) →
    (p >>= f).Sustains Sequenced Draws H ws fun _ _ => True
  | .ret a, _, _, H, ws, hws, hf => hf a H ws (List.Subset.refl _) hws
  | .throw _, _, _, _, _, _, _ => trivial
  | .call st k, f, h, H, ws, hws, hf => fun t T w w' _ _ hw => by
    obtain ⟨hdraw, hnone, hrest⟩ := h t (applyAll ws T)
    refine ⟨hdraw w w' hw, fun _ _ => True, fun _ _ _ _ _ _ _ => trivial, trivial, ?_⟩
    refine hrest.then_sustains ?_ fun a K vs hK hvs => hf a K vs (List.Subset.trans
      (List.subset_append_left _ _) hK) hvs
    rw [newUpdates, List.filterMap_append]
    exact (congrArg₂ (· ++ ·) hws hnone).trans (List.append_nil _)

theorem calm_attempt {binds : List String} {locks : Tables → List Lock}
    {body : Tick → Tables → Except DbError (β × List Write)} {f : Except DbError β → Tx γ}
    (h : ∀ t T b ws, body t T = .ok (b, ws) → newUpdates ws = []) (hf : ∀ r, Calm (f r)) :
    Calm (attempt (Sql.of binds locks body) >>= f) := by
  intro t T
  refine ⟨fun w w' hw => le_of_eq (congrArg _ (Option.some.inj hw)), ?_, hf _⟩
  rcases Sql.of_run binds locks body t T with ⟨e, he⟩ | ⟨b, ws, -, -, hb, hrun⟩
  · rw [he]; rfl
  · rw [hrun]; exact h t T b ws hb

theorem calm_perform {binds : List String} {locks : Tables → List Lock}
    {body : Tick → Tables → Except DbError (β × List Write)} (err : DbError → StorageError)
    (h : ∀ t T b ws, body t T = .ok (b, ws) → newUpdates ws = []) :
    Calm (perform (Sql.of binds locks body) err) := by
  intro t T
  refine ⟨fun w w' hw => le_of_eq (congrArg _ (Option.some.inj hw)), ?_⟩
  rcases Sql.of_run binds locks body t T with ⟨e, he⟩ | ⟨b, ws, -, -, hb, hrun⟩
  · rw [he]; exact ⟨rfl, trivial⟩
  · rw [hrun]; exact ⟨h t T b ws hb, trivial⟩

theorem calm_select {binds : List String} {answer : Tables → β} (err : DbError → StorageError) :
    Calm (perform (Sql.select binds answer) err) :=
  calm_perform err fun t T b ws hb => by
    obtain ⟨-, rfl⟩ := Prod.mk.inj (Except.ok.inj hb)
    rfl

theorem calm_orRefuse (failure : DomainFailure) (x : Option α) : Calm (orRefuse failure x) := by
  cases x <;> trivial

theorem calm_fetched (operation : String) (x : Option α) : Calm (fetched operation x) := by
  cases x <;> trivial

theorem calm_formatted (x : Option α) : Calm (formatted x) := by
  cases x <;> trivial

end

/-! ### The mutations -/

section
variable {o i : String}

theorem calm_setInitiative {binds : List String} {fit : Bool} {f : Tick → InitiativeRow → InitiativeRow}
    (err : DbError → StorageError) : Calm (perform (Sql.setInitiative binds o i fit f) err) := by
  refine calm_perform err fun t T b ws hb => ?_
  split at hb
  · cases hb
  split at hb
  · split at hb
    · obtain ⟨-, rfl⟩ := Prod.mk.inj (Except.ok.inj hb)
      rfl
    · cases hb
  · obtain ⟨-, rfl⟩ := Prod.mk.inj (Except.ok.inj hb)
    rfl

theorem calm_lockInitiative : Calm (lockInitiative o i) := by
  refine Calm.bind (calm_perform _ fun t T b ws hb => ?_) fun row => (calm_orRefuse _ row).bind fun _ => trivial
  obtain ⟨-, rfl⟩ := Prod.mk.inj (Except.ok.inj hb)
  rfl

theorem calm_requireMutableRevision (current : LockedInitiative) (expected : ℤ) :
    Calm (requireMutableRevision current expected) := by
  unfold requireMutableRevision
  split
  · trivial
  · split <;> trivial

theorem calm_bumpInitiative : Calm (bumpInitiative o i) :=
  (calm_setInitiative _).bind fun row => (calm_fetched _ row).bind fun _ => trivial

theorem calm_readInitiative : Calm (readInitiative o i) :=
  (calm_select _).bind fun row => (calm_orRefuse _ row).bind fun _ => calm_formatted _

theorem calm_readProject (operation p : String) (revision : ℤ) : Calm (readProject operation o i p revision) :=
  (calm_select _).bind fun row => (calm_fetched _ row).bind fun _ => calm_formatted _

theorem calm_createInitiativeBody (v : InitiativeCreate) : Calm (createInitiativeBody v) := by
  refine Calm.bind ?_ fun rowSeq => calm_attempt (fun t T b ws hb => ?_) fun r => ?_
  · intro t T
    refine ⟨fun w w' hw => le_of_eq ?_, ?_⟩
    · obtain ⟨-, hw'⟩ := Option.ite_none_right_eq_some.mp hw
      rw [← Option.some.inj hw']
    · by_cases hf : t.fault = true <;> simp [Sql.nextInitiativeSeq, Sql.nextval, hf, newUpdates, Calm]
  · grind [newUpdates]
  · rcases r with e | _
    · cases e <;> trivial
    · exact calm_readInitiative

theorem calm_updateInitiativeBody (expected : ℤ) (patch : InitiativePatch) :
    Calm (updateInitiativeBody o i expected patch) :=
  calm_lockInitiative.bind fun current => (calm_requireMutableRevision current expected).bind fun _ =>
    (calm_setInitiative _).bind fun _ => calm_readInitiative

theorem calm_archiveInitiativeBody (expected : ℤ) : Calm (archiveInitiativeBody o i expected) :=
  calm_lockInitiative.bind fun current => (calm_requireMutableRevision current expected).bind fun _ =>
    (calm_setInitiative _).bind fun row => (calm_fetched _ row).bind fun _ => calm_formatted _

theorem calm_attachProjectBody (expected : ℤ) (s : ProjectSnapshot) (position : ℤ) :
    Calm (attachProjectBody o i expected s position) := by
  refine calm_lockInitiative.bind fun current => (calm_requireMutableRevision current expected).bind fun _ => ?_
  refine (calm_select _).bind fun existing => ?_
  split
  · trivial
  refine (calm_select _).bind fun count => ?_
  split
  · trivial
  refine calm_attempt (fun t T b ws hb => by grind [newUpdates]) fun r => ?_
  rcases r with e | _
  · cases e <;> trivial
  · exact calm_bumpInitiative.bind fun revision => calm_readProject _ _ revision

theorem calm_updateProjectSnapshotBody (expected : ℤ) (s : ProjectSnapshot) :
    Calm (updateProjectSnapshotBody o i expected s) := by
  refine calm_lockInitiative.bind fun current => ?_
  split
  · trivial
  refine Calm.bind (calm_perform _ fun t T b ws hb => by grind [newUpdates]) fun found => ?_
  refine (calm_orRefuse _ found).bind fun revision => ?_
  split
  · trivial
  refine Calm.bind (calm_perform _ fun t T b ws hb => by grind [newUpdates]) fun _ => ?_
  exact calm_bumpInitiative.bind fun revision => calm_readProject _ _ revision

theorem calm_detachProjectBody (p : String) (expected expectedMembership : ℤ) :
    Calm (detachProjectBody o i p expected expectedMembership) := by
  refine calm_lockInitiative.bind fun current => (calm_requireMutableRevision current expected).bind fun _ => ?_
  refine Calm.bind (calm_perform _ fun t T b ws hb => by grind [newUpdates]) fun deleted => ?_
  split
  · refine (calm_select _).bind fun found => ?_
    split <;> trivial
  · exact calm_bumpInitiative.bind fun _ => trivial

theorem newUpdates_stageRows (rs rows : List ProjectRow) {ws : List Write} (h : Sql.stageRows rs rows = .ok ws) :
    newUpdates ws = [] := by
  rw [stageRows_ok rs rows h, newUpdates, List.filterMap_map]
  exact List.filterMap_eq_nil_iff.mpr fun _ _ => rfl

theorem calm_writeOrder : ∀ items : List ReorderInput, Calm (writeOrder o i items)
  | [] => trivial
  | item :: items =>
    Calm.bind (calm_perform _ fun t T b ws hb => by grind [newUpdates]) fun revision =>
      (calm_fetched _ revision).bind fun _ => (calm_writeOrder items).bind fun _ => trivial

theorem calm_reorderProjectsBody (expected : ℤ) (items : List ReorderInput) :
    Calm (reorderProjectsBody o i expected items) := by
  refine calm_lockInitiative.bind fun current => (calm_requireMutableRevision current expected).bind fun _ => ?_
  refine Calm.bind (calm_perform _ fun t T b ws hb => by grind [newUpdates]) fun rows => ?_
  split
  · trivial
  refine Calm.bind (calm_perform _ fun t T b ws hb => ?_) fun _ =>
    (calm_writeOrder items).bind fun _ => calm_bumpInitiative.bind fun _ => trivial
  cases hs : Sql.stageRows ((T.projectsOf o i).insertionSort fun r s => t.rank r.projectId ≤ t.rank s.projectId)
      (T.projectsOf o i) with
  | error e => rw [hs] at hb; cases hb
  | ok vs =>
    rw [hs] at hb
    obtain ⟨-, rfl⟩ := Prod.mk.inj (Except.ok.inj hb)
    exact newUpdates_stageRows _ _ hs

end

section
variable {α β : Type} {H : List Lock} {ws : List Write}

theorem newUpdates_append (ws vs : List Write) : newUpdates (ws ++ vs) = newUpdates ws ++ newUpdates vs :=
  List.filterMap_append

/-- A statement whose draws nothing depends on. -/
theorem sustains_perform {binds : List String} {locks : Tables → List Lock}
    {body : Tick → Tables → Except DbError (β × List Write)} {err : DbError → StorageError} {f : β → Tx α}
    (h : ∀ t T b vs, body t (applyAll ws T) = .ok (b, vs) →
      (f b).Sustains Sequenced Draws (H ++ locks (applyAll ws T)) (ws ++ vs) fun _ _ => True) :
    (perform (Sql.of binds locks body) err >>= f).Sustains Sequenced Draws H ws fun _ _ => True := by
  intro t T w w' _ _ hw
  refine ⟨le_of_eq (congrArg _ (Option.some.inj hw)), fun _ _ => True, fun _ _ _ _ _ _ _ => trivial, trivial, ?_⟩
  rcases Sql.of_run binds locks body t (applyAll ws T) with ⟨e, he⟩ | ⟨b, vs, -, -, hb, hrun⟩
  · rw [he]
    trivial
  · rw [hrun]
    exact h t T b vs hb

/-- The INSERT of an update writes nothing, or the one row. -/
theorem newUpdates_insertUpdate (v : Sql.UpdateValues) (n : ℤ) (t : Tick) (T : Tables) :
    newUpdates ((Sql.insertUpdate v n).run t T).2 = [] ∨
      newUpdates ((Sql.insertUpdate v n).run t T).2 = [Sql.updateRow v n t] := by
  unfold Sql.insertUpdate
  generalize hbody : (fun (t : Tick) (T : Tables) => _) = body
  rcases Sql.of_run _ _ body t T with ⟨e, he⟩ | ⟨b, vs, -, -, hb, hrun⟩
  · exact Or.inl (by rw [he]; rfl)
  · rw [hrun]
    subst hbody
    grind [newUpdates]

/-- The INSERT of an update with a value drawn above those that are committed. -/
theorem insertUpdate_sustains {v : Sql.UpdateValues} {n : ℤ} {f : Except DbError Unit → Tx α}
    (hf : ∀ r, Calm (f r)) (hl : Lock.initiative v.organizationId v.initiativeId ∈ H) (hws : newUpdates ws = []) :
    (attempt (Sql.insertUpdate v n) >>= f).Sustains Sequenced Draws H ws
      (Above v.organizationId v.initiativeId n) := by
  intro t T w w' _ hA hw
  obtain rfl : w = w' := Option.some.inj hw
  have hnew := newUpdates_append ws ((Sql.insertUpdate v n).run t (applyAll ws T)).2
  rw [hws, List.nil_append] at hnew
  have hrows : ∀ u ∈ newUpdates ((Sql.insertUpdate v n).run t (applyAll ws T)).2, u = Sql.updateRow v n t := by
    rcases newUpdates_insertUpdate v n t (applyAll ws T) with h | h <;> rw [h] <;> simp
  have hone : (newUpdates ((Sql.insertUpdate v n).run t (applyAll ws T)).2).length ≤ 1 := by
    rcases newUpdates_insertUpdate v n t (applyAll ws T) with h | h <;> rw [h] <;> simp
  rw [← hnew] at hrows hone
  have hlock : ∀ u ∈ newUpdates (ws ++ ((Sql.insertUpdate v n).run t (applyAll ws T)).2),
      Lock.initiative u.organizationId u.initiativeId ∈ H ++ (Sql.insertUpdate v n).locks t (applyAll ws T) := by
    intro u hu
    obtain rfl := hrows u hu
    exact List.mem_append_left _ hl
  refine ⟨le_refl _, _, stable_pending hlock, fun u hu => ?_, (hf _).sustains hone hlock⟩
  obtain rfl := hrows u hu
  exact hA

/-- Behind the row lock of its initiative, an update draws above all that are committed. -/
theorem addUpdateBody_sustains {actor o i u health summary : String} {expected progress : ℤ}
    {f : UpdateRecord → Tx α} (hf : ∀ r, Calm (f r)) (hws : newUpdates ws = []) :
    (addUpdateBody actor o i u expected health summary progress >>= f).Sustains Sequenced Draws H ws
      fun _ _ => True := by
  unfold addUpdateBody lockInitiative
  rw [Prog.bind_assoc, Prog.bind_assoc]
  refine sustains_perform fun t T row vs hb => ?_
  obtain ⟨rfl, rfl⟩ := Prod.mk.inj (Except.ok.inj hb)
  cases hrow : (applyAll ws T).initiative o i with
  | none => trivial
  | some row =>
    have hl : Lock.initiative o i ∈ H ++ Sql.initiativeLock o i (applyAll ws T) := by
      simp [Sql.initiativeLock, hrow]
    show (requireMutableRevision _ _ >>= _ >>= f).Sustains _ _ _ _ _
    rw [Prog.bind_assoc]
    refine (calm_requireMutableRevision _ _).then_sustains (by simpa using hws) fun _ K vs hK hvs => ?_
    intro t T w w' hJ _ hw
    obtain ⟨⟨hlt, -⟩, hw'⟩ := Option.ite_none_right_eq_some.mp hw
    obtain rfl := Option.some.inj hw'
    refine ⟨le_of_lt hlt, Above o i t.rowSeq, stable_above (List.mem_append_left _ (hK hl)) _, ⟨le_refl _, ?_⟩, ?_⟩
    · exact fun u hu => lt_of_le_of_lt (hJ.1 u (List.mem_filter.mp hu).1) hlt
    · by_cases hfault : t.fault = true
      · simp only [Sql.nextUpdateSeq, Sql.nextval, hfault]
        trivial
      · simp only [Sql.nextUpdateSeq, Sql.nextval, hfault]
        show ((attempt (Sql.insertUpdate ⟨o, i, u, health, summary, progress, actor, row.revision + 1⟩ t.rowSeq) >>=
          _) >>= f).Sustains _ _ (K ++ []) (vs ++ []) _
        rw [Prog.bind_assoc, List.append_nil, List.append_nil]
        refine insertUpdate_sustains (fun r => Calm.bind ?_ hf) (hK hl) hvs
        rcases r with e | _
        · cases e <;> trivial
        · exact (calm_setInitiative _).bind fun _ => (calm_select _).bind fun row =>
            (calm_fetched _ row).bind fun _ => calm_formatted _

end

section
variable {α β : Type}

theorem calm_admitCommand (c : Command) (operation : String) (codec : Codec α) :
    Calm (admitCommand c operation codec) := by
  refine Calm.bind (calm_perform _ fun t T b ws hb => by grind [newUpdates]) fun existing => ?_
  rcases existing with _ | row
  · refine calm_attempt (fun t T b ws hb => by grind [newUpdates]) fun r => ?_
    rcases r with e | _
    · cases e <;> trivial
    · trivial
  · simp only
    split
    · trivial
    split
    · trivial
    split <;> trivial

theorem calm_finishCommand (c : Command) (operation : String) (response : Json) :
    Calm (finishCommand c operation response) :=
  calm_perform _ fun t T b ws hb => by grind [newUpdates]

/-- A mutation whose body is calm. -/
theorem calm_command (c : Command) (operation : String) (codec : Codec α) {body : Tx α} (hbody : Calm body)
    (wrap : α → β) : Calm (command c operation codec body >>= fun r => pure (wrap r)) := by
  refine Calm.bind ((calm_admitCommand c operation codec).bind fun x => ?_) fun r => trivial
  rcases x with _ | replay
  · exact hbody.bind fun record => (calm_finishCommand c operation _).bind fun _ => trivial
  · trivial

end

/-- Every mutation sustains the order of the updates. -/
theorem Call.sustains (c : Call) : c.code.Sustains Sequenced Draws [] [] fun _ _ => True := by
  obtain ⟨c, op⟩ := c
  cases op with
  | createInitiative v => exact (calm_command c _ _ (calm_createInitiativeBody v) _).sustains_true rfl
  | updateInitiative o i expected patch =>
    exact (calm_command c _ _ (calm_updateInitiativeBody expected patch) _).sustains_true rfl
  | archiveInitiative o i expected =>
    exact (calm_command c _ _ (calm_archiveInitiativeBody expected) _).sustains_true rfl
  | attachProject o i expected s position =>
    exact (calm_command c _ _ (calm_attachProjectBody expected s position) _).sustains_true rfl
  | updateProjectSnapshot o i expected s =>
    exact (calm_command c _ _ (calm_updateProjectSnapshotBody expected s) _).sustains_true rfl
  | detachProject o i p expected expectedMembership =>
    exact (calm_command c _ _ (calm_detachProjectBody p expected expectedMembership) _).sustains_true rfl
  | reorderProjects o i expected items =>
    exact (calm_command c _ _ (calm_reorderProjectsBody expected items) _).sustains_true rfl
  | addUpdate o i u expected health summary progress =>
    show (addUpdate c o i u expected health summary progress >>= fun r => pure (Record.update r)).Sustains _ _ _ _ _
    unfold addUpdate Portfolio.command
    rw [Prog.bind_assoc]
    refine (calm_admitCommand c _ _).then_sustains rfl fun x K vs hK hvs => ?_
    rcases x with _ | replay
    · rw [Prog.bind_assoc]
      refine addUpdateBody_sustains (fun r => ?_) hvs
      rw [Prog.bind_assoc]
      exact (calm_finishCommand c _ _).bind fun _ => trivial
    · have hret : Calm (.ret (.update replay) : Tx Record) := trivial
      exact hret.sustains_true hvs

/-- **The updates of an initiative are in the order of their sequence**, in every reachable system. -/
theorem sequenced_of_steps {ok : Call → Prop} {w : Sequences} {S : System}
    (h : Txn.Steps Call.code ok (System.initial w) S) : Sequenced S.db S.world := by
  have hinit : Sequenced Tables.empty w := ⟨fun u hu => (List.not_mem_nil hu).elim, fun o i => .nil⟩
  refine (Txn.Steps.kept (J := Sequenced) (R := Draws) (fun w => le_refl _) (fun T w w' hJ hR => ?_)
    (fun c _ => c.sustains) (fun c _ => c.probed) (Txn.inv_initial Call.code ok _ _)
    (Txn.kept_initial hinit) h).holds
  exact ⟨fun u hu => (hJ.1 u hu).trans hR, hJ.2⟩

/-- Along the sequence the revisions of an initiative's updates grow. -/
theorem revision_lt_of_rowSeq_lt {us : List UpdateRow} (hseq : us.Pairwise fun u v => u.rowSeq < v.rowSeq)
    (hrev : us.Pairwise fun u v => u.initiativeRevision < v.initiativeRevision) {u v : UpdateRow} (hu : u ∈ us)
    (hv : v ∈ us) (h : u.rowSeq < v.rowSeq) : u.initiativeRevision < v.initiativeRevision := by
  have hforth : us.Pairwise fun u v => u.rowSeq < v.rowSeq → u.initiativeRevision < v.initiativeRevision :=
    hrev.imp fun {_ _} h1 => fun _ => h1
  have hback : us.Pairwise fun u v => v.rowSeq < u.rowSeq → v.initiativeRevision < u.initiativeRevision :=
    hseq.imp fun {_ _} h1 => fun h2 => absurd h1 (not_lt_of_gt h2)
  have hrefl : ∀ u ∈ us, u.rowSeq < u.rowSeq → u.initiativeRevision < u.initiativeRevision :=
    fun u _ h1 => absurd h1 (lt_irrefl _)
  exact hforth.forall_of_forall_of_flip hrefl hback hu hv h

/-- **Initiative health is the latest update**, in every reachable state. Without updates it is
`no_update` with progress 0, otherwise that of the update with the greatest `row_seq`; along `row_seq`
the revisions of an initiative's updates grow, from 2 at least to the initiative's at most; in any
continuation the updates stay; and an update id names one update of its organization. -/
theorem health_is_latest_update {ok : Call → Prop} {w : Sequences} {S S' : System}
    (h : Txn.Steps Call.code ok (System.initial w) S) (h' : Txn.Steps Call.code ok S S') :
    (∀ o i row, S.db.initiative o i = some row →
      (S.db.updatesOf o i = [] → row.health = "no_update" ∧ row.progress = 0) ∧
      (S.db.updatesOf o i ≠ [] → ∃ u ∈ S.db.updatesOf o i,
        (∀ v ∈ S.db.updatesOf o i, v ≠ u → v.rowSeq < u.rowSeq) ∧
        row.health = u.health ∧ row.progress = u.progress) ∧
      (∀ u ∈ S.db.updatesOf o i, ∀ v ∈ S.db.updatesOf o i, u.rowSeq < v.rowSeq →
        u.initiativeRevision < v.initiativeRevision) ∧
      (∀ u ∈ S.db.updatesOf o i, 2 ≤ u.initiativeRevision ∧ u.initiativeRevision ≤ row.revision)) ∧
    S.db.updates <+: S'.db.updates ∧
    (S.db.updates.map fun u => (u.organizationId, u.updateId)).Nodup := by
  have hist := (reachable_inv h).chain
  have hseq := (sequenced_of_steps h).2
  obtain ⟨cs, -, hlater⟩ := later_history h h'
  refine ⟨fun o i row hrow => ?_, updates_kept hlater, updates_unique hist⟩
  have hrep := reported_of_history hist o i
  have hlatest := hrep.latest row hrow
  refine ⟨fun hnone => ?_, fun hsome => ?_, fun u hu v hv => ?_, hrep.bounded row hrow⟩
  · rw [hnone] at hlatest
    exact Prod.mk.inj hlatest
  · rcases List.eq_nil_or_concat (S.db.updatesOf o i) with hnil | ⟨us, u, hus⟩
    · exact absurd hnil hsome
    · rw [List.concat_eq_append] at hus
      rw [hus, reportedHealth, List.getLast?_concat] at hlatest
      have hord := hseq o i
      rw [hus, List.pairwise_append] at hord
      refine ⟨u, by simp [hus], fun v hv hne => ?_, Prod.mk.inj hlatest⟩
      rw [hus, List.mem_append, List.mem_singleton] at hv
      exact hord.2.2 v (hv.resolve_right hne) u (List.mem_singleton_self u)
  · exact revision_lt_of_rowSeq_lt (hseq o i) hrep.increasing hu hv

/-- An update of an initiative, asked for at a revision. -/
def sampleUpdate (i u : String) (expected : ℤ) (health : String) (progress : ℤ) : Call :=
  ⟨⟨"planner", "ann", u, []⟩, .addUpdate "acme" i u expected health "As planned." progress⟩

/-- Two updates: the initiative's health is that of the second. -/
theorem health_is_latest_update_twice : ∃ (S : System) (row : InitiativeRow) (u : UpdateRow),
    S.db.initiative "acme" "alpha" = some row ∧ u ∈ S.db.updatesOf "acme" "alpha" ∧
    (∀ v ∈ S.db.updatesOf "acme" "alpha", v ≠ u → v.rowSeq < u.rowSeq) ∧
    (S.db.updatesOf "acme" "alpha").length = 2 ∧ row.health = u.health ∧ row.health = "at_risk" := by
  have hrun : ((System.initial ⟨0, 0⟩).schedule Call.code 3
      (Txn.attempt 0 (sampleCreate "alpha") (sampleTicks 1 6) ++
        Txn.attempt 1 (sampleUpdate "alpha" "first" 1 "on_track" 10) (sampleTicks 1 8) ++
        Txn.attempt 2 (sampleUpdate "alpha" "second" 2 "at_risk" 20) (sampleTicks 2 8))).bind (fun S =>
      (S.schedule Call.code 3 []).map fun S' => ((S'.db.initiative "acme" "alpha").map fun r => r.health,
        (S'.db.updatesOf "acme" "alpha").length)) = some (some "at_risk", 2) := by decide +kernel
  obtain ⟨S, S', h, h', hfacts⟩ := @System.scheduled (fun _ => True) _ _ _ _ _ _ _ hrun (by decide)
    fun _ _ _ _ => trivial
  obtain ⟨hrow, hlength⟩ := Prod.mk.inj hfacts
  obtain ⟨row, hrow, hhealth⟩ := Option.map_eq_some_iff.mp hrow
  have hne : S'.db.updatesOf "acme" "alpha" ≠ [] := fun hnil => by simp [hnil] at hlength
  obtain ⟨-, hlast, -⟩ := (health_is_latest_update (h.trans h') .refl).1 "acme" "alpha" row hrow
  obtain ⟨u, hu, hmax, hh, -⟩ := hlast hne
  exact ⟨S', row, u, hrow, hu, hmax, hlength, hh, hhealth⟩

end Portfolio
