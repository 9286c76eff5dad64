/-
# Every mutation locks what it reads

The lock discipline of `Txn.System` for the eight mutations. Each body takes
the row lock of its initiative (or inserts the initiative) before it reads or
writes anything of it, and throws if there is none; projects and updates are
read and written under that lock only. The receipt is the one exception: the
SELECT that finds none locks nothing, and is confirmed by the INSERT after it
(`admit_probed`).

Key definitions: `Keeps`.
Key theorems: `keeps_body`, `Call.probed`.
-/
import Portfolio.Storage

namespace Portfolio

open Txn Txn.Prog

/-! ### What agreement on a lock gives -/

section
variable {H : List Lock} {T T' : Tables} {o i p u : String} {k : CommandKey}

theorem agree_initiative (h : Agree H T T') (hl : Lock.initiative o i ∈ H) :
    T.initiative o i = T'.initiative o i ∧ T.projectsOf o i = T'.projectsOf o i := by
  have h1 : Lock.part (.initiative o i) T = Lock.part (.initiative o i) T' := h _ hl
  simp only [Lock.part, Tables.mk.injEq, Facts.mk.injEq, and_true] at h1
  exact ⟨congrArg List.head? h1.1, h1.2.1⟩

theorem agree_project (h : Agree H T T') (hl : Lock.initiative o i ∈ H) :
    T.project o i p = T'.project o i p := by
  rw [Facts.project, Facts.project, (agree_initiative h hl).2]

theorem agree_update (h : Agree H T T') (hl : Lock.update o u ∈ H) : T.update o u = T'.update o u := by
  have h1 : Lock.part (.update o u) T = Lock.part (.update o u) T' := h _ hl
  simp only [Lock.part, Tables.mk.injEq, Facts.mk.injEq, and_true, true_and] at h1
  exact congrArg List.head? h1

theorem agree_command (h : Agree H T T') (hl : Lock.command k ∈ H) : T.command k = T'.command k := by
  have h1 : Lock.part (.command k) T = Lock.part (.command k) T' := h _ hl
  simp only [Lock.part, Tables.mk.injEq, true_and] at h1
  exact congrArg List.head? h1

end

theorem initiative_mem {T : Facts} {o i : String} {row : InitiativeRow} (h : T.initiative o i = some row) :
    row ∈ T.initiatives ∧ row.organizationId = o ∧ row.initiativeId = i := by
  have h1 := List.mem_filter.mp (List.mem_of_mem_head? h)
  simpa [InitiativeRow.at] using h1

theorem mem_projectsOf {T : Facts} {o i : String} {row : ProjectRow} : row ∈ T.projectsOf o i ↔
    row ∈ T.projects ∧ row.organizationId = o ∧ row.initiativeId = i := by
  simp [Facts.projectsOf, ProjectRow.at]

theorem project_mem {T : Facts} {o i p : String} {row : ProjectRow} (h : T.project o i p = some row) :
    row ∈ T.projects ∧ row.organizationId = o ∧ row.initiativeId = i ∧ row.projectId = p := by
  have h1 := mem_projectsOf.mp (List.mem_of_find?_eq_some h)
  have h2 := List.find?_some h
  exact ⟨h1.1, h1.2.1, h1.2.2, by simpa using h2⟩

theorem command_mem {T : Tables} {k : CommandKey} {row : CommandRow} (h : T.command k = some row) :
    row ∈ T.commands ∧ row.key = k := by
  have h1 := List.mem_filter.mp (List.mem_of_mem_head? h)
  simpa [CommandRow.has] using h1

/-! ### Programs that keep their locks -/

section
variable {α β γ : Type} {H : List Lock}

/-- Holding `H`, the program is guarded and holds `H` at its end. -/
def Keeps (p : Tx α) (H : List Lock) : Prop := p.Guarded H fun _ K => H ⊆ K

theorem Keeps.ret (a : α) : Keeps (.ret a) H := List.Subset.refl H

theorem Keeps.throw (e : StorageError) : Keeps (.throw e : Tx α) H := trivial

theorem Keeps.bind {p : Tx α} {f : α → Tx β} (hp : Keeps p H) (hf : ∀ a K, H ⊆ K → Keeps (f a) K) :
    Keeps (p >>= f) H := by
  refine Guarded.bind (hp.mono fun a K hK => ?_)
  exact (hf a K hK).mono fun _ _ h => List.Subset.trans hK h

/-- A statement whose faults all throw. If it goes on with an answer, it has
locked what the answer comes from. -/
theorem guarded_call {binds : List String} {locks : Tables → List Lock}
    {body : Tick → Tables → Except DbError (β × List Write)} {k : Except DbError β → Tx α}
    {Q : α → List Lock → Prop} (hk : ∀ e, ∃ e', k (.error e) = .throw e')
    (h : ∀ t T b ws, body t T = .ok (b, ws) → (∃ e, k (.ok b) = .throw e) ∨
      ((∀ T', Agree (H ++ locks T) T' T → body t T' = body t T) ∧
        (∀ w ∈ ws, ∀ g ∈ w.guards, g ∈ H ++ locks T) ∧ (k (.ok b)).Guarded (H ++ locks T) Q)) :
    (Prog.call (Sql.of binds locks body) k).Guarded H Q := by
  intro t T
  rcases Sql.of_run binds locks body t T with ⟨e, he⟩ | ⟨b, ws, -, -, hb, hrun⟩
  · exact Or.inl (he ▸ hk e)
  · rw [hrun]
    rcases h t T b ws hb with he | ⟨hloc, hg, hq⟩
    · exact Or.inl he
    · exact Or.inr ⟨fun T' ha => (Sql.of_run_congr (hloc T' ha)).trans hrun, hg, hq⟩

/-- A performed statement that reads under the locks held. -/
theorem keeps_perform {binds : List String} {locks : Tables → List Lock}
    {body : Tick → Tables → Except DbError (β × List Write)} (err : DbError → StorageError)
    (h : ∀ t T T', Agree (H ++ locks T) T' T → body t T' = body t T)
    (hg : ∀ t T b ws, body t T = .ok (b, ws) → ∀ w ∈ ws, ∀ g ∈ w.guards, g ∈ H) :
    Keeps (perform (Sql.of binds locks body) err) H := by
  refine guarded_call (fun e => ⟨err e, rfl⟩) fun t T b ws hb => Or.inr ⟨h t T, fun w hw g hgw => ?_, ?_⟩
  · exact List.mem_append_left _ (hg t T b ws hb w hw g hgw)
  · exact List.subset_append_left _ _

theorem keeps_select {binds : List String} {answer : Tables → β} (err : DbError → StorageError)
    (h : ∀ T T', Agree H T' T → answer T' = answer T) :
    Keeps (perform (Sql.select binds answer) err) H := by
  refine keeps_perform err (fun t T T' ha => ?_) fun t T b ws hb w hw => ?_
  · rw [h T T' (ha.mono (List.subset_append_left _ _))]
  · obtain ⟨-, rfl⟩ := Prod.mk.inj (Except.ok.inj hb)
    simp at hw

/-- An attempted statement: a fault throws, and an answer is guarded. -/
theorem keeps_attempt {binds : List String} {locks : Tables → List Lock}
    {body : Tick → Tables → Except DbError (β × List Write)} {f : Except DbError β → Tx γ}
    (hf : ∀ e, ∃ e', f (.error e) = .throw e')
    (h : ∀ t T b ws, body t T = .ok (b, ws) →
      (∀ T', Agree (H ++ locks T) T' T → body t T' = body t T) ∧
        (∀ w ∈ ws, ∀ g ∈ w.guards, g ∈ H ++ locks T) ∧ Keeps (f (.ok b)) (H ++ locks T)) :
    Keeps (attempt (Sql.of binds locks body) >>= f) H := by
  refine guarded_call hf fun t T b ws hb => ?_
  obtain ⟨h1, h2, h3⟩ := h t T b ws hb
  exact Or.inr ⟨h1, h2, h3.mono fun _ _ hK => List.Subset.trans (List.subset_append_left _ _) hK⟩

theorem keeps_nextval {draw : Sequences → ℤ → Option Sequences} (err : DbError → StorageError) :
    Keeps (perform (Sql.nextval draw) err) H := by
  intro t T
  by_cases hf : t.fault = true
  · exact Or.inl ⟨err .fault, by simp [Sql.nextval, hf]⟩
  · refine Or.inr ⟨fun T' _ => rfl, fun w hw => ?_, ?_⟩
    · simp [Sql.nextval, hf] at hw
    · simp only [Sql.nextval, hf, Bool.false_eq_true, if_false, List.append_nil]
      exact Keeps.ret t.rowSeq

theorem keeps_formatted (a : Option α) : Keeps (formatted a) H := by
  cases a with
  | none => exact .throw _
  | some a => exact .ret a

theorem keeps_fetched (operation : String) (a : Option α) : Keeps (fetched operation a) H := by
  cases a with
  | none => exact .throw _
  | some a => exact .ret a

theorem keeps_orRefuse (failure : DomainFailure) (a : Option α) : Keeps (orRefuse failure a) H := by
  cases a with
  | none => exact .throw _
  | some a => exact .ret a

end

/-! ### The steps of the mutations -/

section
variable {H : List Lock} {o i p : String}

theorem keeps_requireMutableRevision (current : LockedInitiative) (expected : ℤ) :
    Keeps (requireMutableRevision current expected) H := by
  unfold requireMutableRevision
  split
  · exact .throw _
  · split
    · exact .throw _
    · exact .ret ()

/-- The row lock is taken before anything of the initiative is read. -/
theorem guarded_lockInitiative :
    (lockInitiative o i).Guarded H fun _ K => H ⊆ K ∧ .initiative o i ∈ K := by
  refine guarded_call (fun e => ⟨_, rfl⟩) fun t T b ws hb => ?_
  obtain ⟨rfl, rfl⟩ := Prod.mk.inj (Except.ok.inj hb)
  cases hrow : T.initiative o i with
  | none => exact Or.inl ⟨_, rfl⟩
  | some row =>
    have hl : Sql.initiativeLock o i T = [.initiative o i] := by simp [Sql.initiativeLock, hrow]
    refine Or.inr ⟨fun T' ha => ?_, fun w hw => by simp at hw, ?_⟩
    · rw [hl] at ha
      rw [(agree_initiative ha (List.mem_append_right _ (List.mem_singleton_self _))).1, hrow]
    · rw [hl]
      exact ⟨List.subset_append_left _ _, List.mem_append_right _ (List.mem_singleton_self _)⟩

/-- What a mutation does after it has locked its initiative. -/
theorem keeps_locked {α : Type} {f : LockedInitiative → Tx α}
    (hf : ∀ current K, H ⊆ K → .initiative o i ∈ K → Keeps (f current) K) :
    Keeps (lockInitiative o i >>= f) H := by
  refine Guarded.bind (guarded_lockInitiative.mono fun current K hK => ?_)
  exact (hf current K hK.1 hK.2).mono fun _ _ h => List.Subset.trans hK.1 h

theorem keeps_setInitiative (h : .initiative o i ∈ H) {binds : List String} {fit : Bool}
    {f : Tick → InitiativeRow → InitiativeRow} (hf : ∀ t row, (f t row).key = row.key)
    (err : DbError → StorageError) : Keeps (perform (Sql.setInitiative binds o i fit f) err) H := by
  refine keeps_perform err (fun t T T' ha => ?_) fun t T b ws hb w hw g hg => ?_
  · rw [(agree_initiative ha (List.mem_append_left _ h)).1]
  · cases hrow : T.initiative o i with
    | none =>
      simp only [hrow] at hb
      split at hb
      · cases hb
      · obtain ⟨-, rfl⟩ := Prod.mk.inj (Except.ok.inj hb)
        simp at hw
    | some row =>
      simp only [hrow] at hb
      split at hb
      · cases hb
      · split at hb
        · obtain ⟨-, rfl⟩ := Prod.mk.inj (Except.ok.inj hb)
          obtain rfl := List.mem_singleton.mp hw
          have hkey := hf t row
          obtain ⟨-, ho, hi⟩ := initiative_mem hrow
          simp only [InitiativeRow.key, Prod.mk.injEq, ho, hi] at hkey
          simp only [Write.guards, hkey.1, hkey.2, List.mem_singleton] at hg
          exact hg ▸ h
        · cases hb

theorem keeps_bumpInitiative (h : .initiative o i ∈ H) : Keeps (bumpInitiative o i) H := by
  have hset : Keeps (perform (Sql.bumpInitiative o i) (.database "bump initiative revision")) H :=
    keeps_setInitiative h (by intro t row; rfl) _
  refine hset.bind fun row K hK => ?_
  exact (keeps_fetched _ row).bind fun row K hK => .ret _

theorem keeps_readInitiative (h : .initiative o i ∈ H) : Keeps (readInitiative o i) H := by
  refine Keeps.bind (keeps_select _ fun T T' ha => ?_) fun row K hK => ?_
  · obtain ⟨h1, h2⟩ := agree_initiative ha h
    rw [h1]
    cases hrow : T.initiative o i with
    | none => rfl
    | some row =>
      obtain ⟨-, ho, hi⟩ := initiative_mem hrow
      simp only [Option.map_some, ho, hi, h2]
  · exact (keeps_orRefuse _ row).bind fun row K hK => keeps_formatted _

theorem keeps_readProject (h : .initiative o i ∈ H) (operation : String) (revision : ℤ) :
    Keeps (readProject operation o i p revision) H := by
  refine Keeps.bind (keeps_select _ fun T T' ha => agree_project ha h) fun row K hK => ?_
  exact (keeps_fetched _ row).bind fun row K hK => keeps_formatted _

theorem keeps_createInitiativeBody (v : InitiativeCreate) : Keeps (createInitiativeBody v) H := by
  refine Keeps.bind (keeps_nextval _) fun rowSeq K hK => keeps_attempt (fun e => ?_) fun t T b ws hb => ?_
  · cases e <;> exact ⟨_, rfl⟩
  · cases hrow : T.initiative v.organizationId v.initiativeId with
    | some row =>
      simp only [hrow, Option.isSome_some, if_true] at hb
      split at hb
      · cases hb
      · split at hb <;> cases hb
    | none =>
      simp only [hrow, Option.isSome_none, Bool.false_eq_true, if_false] at hb ⊢
      have hl : Lock.initiative v.organizationId v.initiativeId ∈
          K ++ [Lock.initiative v.organizationId v.initiativeId] :=
        List.mem_append_right _ (List.mem_singleton_self _)
      refine ⟨fun T' ha => ?_, fun w hw g hg => ?_, keeps_readInitiative hl⟩
      · rw [(agree_initiative ha hl).1, hrow]
        rfl
      · split at hb
        · cases hb
        · split at hb
          · cases hb
          · obtain ⟨-, rfl⟩ := Prod.mk.inj (Except.ok.inj hb)
            obtain rfl := List.mem_singleton.mp hw
            obtain rfl := List.mem_singleton.mp hg
            exact hl

theorem keeps_updateInitiativeBody (expected : ℤ) (patch : InitiativePatch) :
    Keeps (updateInitiativeBody o i expected patch) H := by
  refine keeps_locked fun current K hK hl => ?_
  refine (keeps_requireMutableRevision current expected).bind fun _ K₁ h₁ => ?_
  have hset : Keeps (perform (Sql.updateInitiative o i patch) (.database "update initiative")) K₁ :=
    keeps_setInitiative (h₁ hl) (by intro t row; rfl) _
  exact hset.bind fun _ K₂ h₂ => keeps_readInitiative (h₂ (h₁ hl))

theorem keeps_archiveInitiativeBody (expected : ℤ) : Keeps (archiveInitiativeBody o i expected) H := by
  refine keeps_locked fun current K hK hl => ?_
  refine (keeps_requireMutableRevision current expected).bind fun _ K₁ h₁ => ?_
  have hset : Keeps (perform (Sql.archiveInitiative o i) (.database "archive initiative")) K₁ :=
    keeps_setInitiative (h₁ hl) (by intro t row; rfl) _
  exact hset.bind fun row K₂ h₂ => (keeps_fetched _ row).bind fun row K₃ h₃ => keeps_formatted _

theorem keeps_addUpdateBody (actor u : String) (expected : ℤ) (health summary : String) (progress : ℤ) :
    Keeps (addUpdateBody actor o i u expected health summary progress) H := by
  refine keeps_locked fun current K hK hl => ?_
  refine (keeps_requireMutableRevision current expected).bind fun _ K₁ h₁ => ?_
  refine Keeps.bind (keeps_nextval _) fun rowSeq K₂ h₂ => ?_
  have hl₂ := h₂ (h₁ hl)
  refine keeps_attempt (fun e => ?_) fun t T b ws hb => ?_
  · cases e <;> exact ⟨_, rfl⟩
  · cases hrow : T.update o u with
    | some row =>
      simp only [hrow, Option.isSome_some, if_true] at hb
      split at hb
      · cases hb
      · split at hb <;> cases hb
    | none =>
      simp only [hrow, Option.isSome_none, Bool.false_eq_true, if_false] at hb ⊢
      have hu : Lock.update o u ∈ K₂ ++ [Lock.update o u] :=
        List.mem_append_right _ (List.mem_singleton_self _)
      have hi : Lock.initiative o i ∈ K₂ ++ [Lock.update o u] := List.mem_append_left _ hl₂
      refine ⟨fun T' ha => ?_, fun w hw g hg => ?_, ?_⟩
      · rw [agree_update ha hu, hrow, (agree_initiative ha hi).1]
        rfl
      · split at hb
        · cases hb
        split at hb
        · cases hb
        split at hb
        · cases hb
        obtain ⟨-, rfl⟩ := Prod.mk.inj (Except.ok.inj hb)
        obtain rfl := List.mem_singleton.mp hw
        rcases List.mem_pair.mp hg with rfl | rfl
        · exact hi
        · exact hu
      · refine Keeps.bind ?_ fun _ K₃ h₃ => Keeps.bind (keeps_select _ ?_) fun row K₄ h₄ => ?_
        · exact keeps_setInitiative hi (by intro t row; rfl) _
        · exact fun T T' ha => agree_update ha (h₃ hu)
        · exact (keeps_fetched _ row).bind fun row K₅ h₅ => keeps_formatted _

theorem keeps_attachProjectBody (expected : ℤ) (snapshot : ProjectSnapshot) (position : ℤ) :
    Keeps (attachProjectBody o i expected snapshot position) H := by
  refine keeps_locked fun current K hK hl => ?_
  refine (keeps_requireMutableRevision current expected).bind fun _ K₁ h₁ => ?_
  have hl₁ := h₁ hl
  refine Keeps.bind (keeps_select _ fun T T' ha => ?_) fun existing K₂ h₂ => ?_
  · rw [agree_project ha hl₁]
  split
  · exact .throw _
  refine Keeps.bind (keeps_select _ fun T T' ha => ?_) fun count K₃ h₃ => ?_
  · rw [(agree_initiative ha (h₂ hl₁)).2]
  split
  · exact .throw _
  have hl₃ := h₃ (h₂ hl₁)
  refine keeps_attempt (fun e => ?_) fun t T b ws hb => ?_
  · cases e <;> exact ⟨_, rfl⟩
  · refine ⟨fun T' ha => ?_, fun w hw g hg => ?_, ?_⟩
    · have ha' := agree_initiative ha (List.mem_append_left _ hl₃)
      rw [agree_project ha (List.mem_append_left _ hl₃), ha'.1, ha'.2]
    · split at hb
      · cases hb
      split at hb
      · cases hb
      split at hb
      · cases hb
      split at hb
      · cases hb
      obtain ⟨-, rfl⟩ := Prod.mk.inj (Except.ok.inj hb)
      obtain rfl := List.mem_singleton.mp hw
      obtain rfl := List.mem_singleton.mp hg
      exact List.mem_append_left _ hl₃
    · have hl₄ : Lock.initiative o i ∈ K₃ ++ [Lock.project o i snapshot.projectId] :=
        List.mem_append_left _ hl₃
      exact (keeps_bumpInitiative hl₄).bind fun revision K₅ h₅ => keeps_readProject (h₅ hl₄) _ _

theorem keeps_updateProjectSnapshotBody (expected : ℤ) (snapshot : ProjectSnapshot) :
    Keeps (updateProjectSnapshotBody o i expected snapshot) H := by
  refine keeps_locked fun current K hK hl => ?_
  split
  · exact .throw _
  refine Keeps.bind (keeps_perform _ (fun t T T' ha => ?_) fun t T b ws hb w hw => ?_) fun found K₁ h₁ => ?_
  · rw [agree_project ha (List.mem_append_left _ hl)]
  · obtain ⟨-, rfl⟩ := Prod.mk.inj (Except.ok.inj hb)
    simp at hw
  refine (keeps_orRefuse _ found).bind fun revision K₂ h₂ => ?_
  have hl₂ := h₂ (h₁ hl)
  split
  · exact .throw _
  refine Keeps.bind (keeps_perform _ (fun t T T' ha => ?_) fun t T b ws hb w hw g hg => ?_) fun _ K₃ h₃ => ?_
  · rw [agree_project ha (List.mem_append_left _ hl₂)]
  · split at hb
    · cases hb
    split at hb
    · rename_i row hrow
      split at hb
      · obtain ⟨-, rfl⟩ := Prod.mk.inj (Except.ok.inj hb)
        obtain rfl := List.mem_singleton.mp hw
        obtain rfl := List.mem_singleton.mp hg
        obtain ⟨-, ho, hi, -⟩ := project_mem hrow
        simp only [Sql.refreshed, ho, hi]
        exact hl₂
      · cases hb
    · obtain ⟨-, rfl⟩ := Prod.mk.inj (Except.ok.inj hb)
      simp at hw
  · exact (keeps_bumpInitiative (h₃ hl₂)).bind fun revision K₅ h₅ => keeps_readProject (h₅ (h₃ hl₂)) _ _

theorem keeps_detachProjectBody (expected expectedMembership : ℤ) :
    Keeps (detachProjectBody o i p expected expectedMembership) H := by
  refine keeps_locked fun current K hK hl => ?_
  refine (keeps_requireMutableRevision current expected).bind fun _ K₁ h₁ => ?_
  have hl₁ := h₁ hl
  refine Keeps.bind (keeps_perform _ (fun t T T' ha => ?_) fun t T b ws hb w hw g hg => ?_)
    fun deleted K₂ h₂ => ?_
  · rw [agree_project ha (List.mem_append_left _ hl₁)]
  · split at hb
    · split at hb
      · obtain ⟨-, rfl⟩ := Prod.mk.inj (Except.ok.inj hb)
        obtain rfl := List.mem_singleton.mp hw
        obtain rfl := List.mem_singleton.mp hg
        exact hl₁
      · obtain ⟨-, rfl⟩ := Prod.mk.inj (Except.ok.inj hb)
        simp at hw
    · obtain ⟨-, rfl⟩ := Prod.mk.inj (Except.ok.inj hb)
      simp at hw
  · split
    · refine Keeps.bind (keeps_select _ fun T T' ha => ?_) fun found K₃ h₃ => ?_
      · rw [agree_project ha (h₂ hl₁)]
      split <;> exact .throw _
    · exact (keeps_bumpInitiative (h₂ hl₁)).bind fun revision K₃ h₃ => .ret _

theorem stageRows_guards : ∀ (rs rows : List ProjectRow) (ws : List Write),
    (∀ r ∈ rs, r.organizationId = o ∧ r.initiativeId = i) → Sql.stageRows rs rows = .ok ws →
    ∀ w ∈ ws, ∀ g ∈ w.guards, g = Lock.initiative o i
  | [], _, ws, _, h => by
    obtain rfl := Except.ok.inj h
    simp
  | r :: rs, rows, ws, hr, h => by
    rw [Sql.stageRows] at h
    split at h
    · cases h
    split at h
    · cases h
    split at h
    · cases h
    cases hrest : Sql.stageRows rs (Table.put ProjectRow.key (Sql.staged r) rows) with
    | error e => rw [hrest] at h; cases h
    | ok vs =>
      rw [hrest] at h
      obtain rfl := Except.ok.inj h
      intro w hw g hg
      rcases List.mem_cons.mp hw with rfl | hw
      · obtain ⟨ho, hi⟩ := hr r List.mem_cons_self
        obtain rfl := List.mem_singleton.mp hg
        simp only [Sql.staged, ho, hi]
      · exact stageRows_guards rs _ vs (fun r' hr' => hr r' (List.mem_cons_of_mem _ hr')) hrest w hw g hg

theorem keeps_writeOrder : ∀ (items : List ReorderInput) {H : List Lock}, .initiative o i ∈ H →
    Keeps (writeOrder o i items) H
  | [], _, _ => .ret _
  | item :: items, H, hl => by
    refine Keeps.bind (keeps_perform _ (fun t T T' ha => ?_) fun t T b ws hb w hw g hg => ?_)
      fun revision K hK => ?_
    · have hl' := List.mem_append_left [Lock.project o i item.projectId] hl
      rw [agree_project ha hl', (agree_initiative ha hl').2]
    · split at hb
      · cases hb
      split at hb
      · rename_i row hrow
        split at hb
        · cases hb
        split at hb
        · cases hb
        obtain ⟨-, rfl⟩ := Prod.mk.inj (Except.ok.inj hb)
        obtain rfl := List.mem_singleton.mp hw
        obtain rfl := List.mem_singleton.mp hg
        obtain ⟨-, ho, hi, -⟩ := project_mem hrow
        simp only [Sql.placed, ho, hi]
        exact hl
      · obtain ⟨-, rfl⟩ := Prod.mk.inj (Except.ok.inj hb)
        simp at hw
    · refine (keeps_fetched _ revision).bind fun revision K₁ h₁ => ?_
      exact (keeps_writeOrder items (h₁ (hK hl))).bind fun output K₂ h₂ => .ret _

theorem keeps_reorderProjectsBody (expected : ℤ) (items : List ReorderInput) :
    Keeps (reorderProjectsBody o i expected items) H := by
  refine keeps_locked fun current K hK hl => ?_
  refine (keeps_requireMutableRevision current expected).bind fun _ K₁ h₁ => ?_
  have hl₁ := h₁ hl
  refine Keeps.bind (keeps_perform _ (fun t T T' ha => ?_) fun t T b ws hb w hw => ?_) fun rows K₂ h₂ => ?_
  · rw [(agree_initiative ha (List.mem_append_left _ hl₁)).2]
  · obtain ⟨-, rfl⟩ := Prod.mk.inj (Except.ok.inj hb)
    simp at hw
  split
  · exact .throw _
  have hl₂ := h₂ hl₁
  refine Keeps.bind (keeps_perform _ (fun t T T' ha => ?_) fun t T b ws hb w hw g hg => ?_) fun _ K₃ h₃ => ?_
  · rw [(agree_initiative ha (List.mem_append_left _ hl₂)).2]
  · cases hs : Sql.stageRows ((T.projectsOf o i).insertionSort fun r s => t.rank r.projectId ≤ t.rank s.projectId)
        (T.projectsOf o i) with
    | error e => rw [hs] at hb; cases hb
    | ok vs =>
      rw [hs] at hb
      obtain ⟨-, rfl⟩ := Prod.mk.inj (Except.ok.inj hb)
      refine (stageRows_guards _ _ _ (fun r hr => ?_) hs w hw g hg) ▸ hl₂
      exact (mem_projectsOf.mp ((List.mem_insertionSort _).mp hr)).2
  · have hl₃ := h₃ hl₂
    refine (keeps_writeOrder items hl₃).bind fun output K₄ h₄ => ?_
    exact (keeps_bumpInitiative (h₄ hl₃)).bind fun revision K₅ h₅ => .ret _

end

/-! ### The mutations -/

section
variable {α β : Type} {H : List Lock}

theorem keeps_finishCommand {c : Command} {operation : String} (h : .command (c.receipt operation) ∈ H)
    (response : Json) : Keeps (finishCommand c operation response) H := by
  refine keeps_perform _ (fun t T T' ha => ?_) fun t T b ws hb w hw g hg => ?_
  · rw [agree_command ha (List.mem_append_left _ h)]
  · split at hb
    · cases hb
    split at hb
    · rename_i row hrow
      obtain ⟨-, rfl⟩ := Prod.mk.inj (Except.ok.inj hb)
      obtain rfl := List.mem_singleton.mp hw
      obtain rfl := List.mem_singleton.mp hg
      exact (command_mem hrow).2 ▸ h
    · obtain ⟨-, rfl⟩ := Prod.mk.inj (Except.ok.inj hb)
      simp at hw

/-- The INSERT of a receipt locks the key that the SELECT before it found
free, so it confirms what the SELECT answered; then the body runs. -/
theorem confirms_insertCommand (c : Command) (operation : String) (codec : Codec α) {body : Tx α}
    (hbody : ∀ H, Keeps body H) (wrap : α → β) {t₀ : Tick} {T₀ : Tables}
    (h₀ : T₀.command (c.receipt operation) = none) {k : Except DbError Unit → Tx β}
    (herr : ∀ e, ∃ e', k (.error e) = .throw e')
    (hok : k (.ok ()) = body >>= fun record =>
      finishCommand c operation (codec.enc record) >>= fun _ => .ret (wrap record)) :
    (Prog.call (Sql.insertCommand (c.receipt operation) c.hash) k).Confirms
      (Sql.selectCommand (c.receipt operation)) t₀
      ((Sql.selectCommand (c.receipt operation)).run t₀ T₀) := by
  intro t T
  rcases Sql.of_run _ _ _ t T with ⟨e, he⟩ | ⟨b, ws, -, -, hb, hrun⟩
  · exact Or.inl (by rw [Sql.insertCommand, he]; exact herr e)
  · rw [Sql.insertCommand, hrun]
    cases hrow : T.command (c.receipt operation) with
    | some row => simp [hrow] at hb
    | none =>
      simp only [hrow, Option.isSome_none, Bool.false_eq_true, if_false] at hb
      obtain ⟨rfl, rfl⟩ := Prod.mk.inj (Except.ok.inj hb)
      have hlocks : (Sql.insertCommand (c.receipt operation) c.hash).locks t T =
          [.command (c.receipt operation)] := by
        simp [Sql.insertCommand, Sql.of, hrow]
      rw [Sql.insertCommand] at hlocks
      rw [hlocks]
      have hl : Lock.command (c.receipt operation) ∈ [Lock.command (c.receipt operation)] :=
        List.mem_singleton_self _
      refine Or.inr ⟨fun T' ha => ?_, fun w hw g hg => ?_, ?_⟩
      · have hT' : T'.command (c.receipt operation) = none := (agree_command ha hl).trans hrow
        refine ⟨Sql.of_run_congr ?_, (Sql.of_run_congr ?_).trans hrun⟩
        · rw [hT', h₀]
        · simp only [hT', hrow]
      · obtain rfl := List.mem_singleton.mp hw
        exact hg
      · rw [hok]
        refine ((hbody _).bind fun record K hK => ?_ : Keeps _ _).mono fun _ _ _ => trivial
        exact (keeps_finishCommand (hK hl) _).bind fun _ K' _ => .ret _

/-- What a stored receipt leads to locks nothing more. -/
theorem keeps_replay (c : Command) (codec : Codec α) (wrap : α → β) (row : CommandRow) {rest : Tx α} :
    Keeps ((do
      match ← (if row.requestHash ≠ c.hash then refuse .idempotencyConflict
        else match row.responseJson with
          | none => refuse .operationInProgress
          | some response => match codec.dec response with
            | some replay => pure (some replay)
            | none => .throw .receipt) with
      | some replay => pure replay
      | none => rest) >>= fun r => pure (wrap r)) H := by
  split
  · exact .throw _
  split
  · exact .throw _
  split
  · exact .ret _
  · exact .throw _

/-- An admitted mutation is probed: a stored receipt is locked by the SELECT
that finds it, a missing one by the INSERT. -/
theorem probed_command (c : Command) (operation : String) (codec : Codec α) {body : Tx α}
    (hbody : ∀ H, Keeps body H) (wrap : α → β) :
    (command c operation codec body >>= fun r => pure (wrap r)).Probed := by
  intro t T
  rcases Sql.of_run _ _ _ t T with ⟨e, he⟩ | ⟨b, ws, -, -, hb, hrun⟩
  · rw [Sql.selectCommand, he]
    exact ⟨rfl, Or.inl ⟨_, rfl⟩⟩
  · obtain ⟨rfl, rfl⟩ := Prod.mk.inj (Except.ok.inj hb)
    refine ⟨by rw [Sql.selectCommand, hrun], Or.inr ?_⟩
    cases hrow : T.command (c.receipt operation) with
    | none =>
      refine Or.inr ⟨by simp [Sql.selectCommand, Sql.of, hrow], ?_⟩
      have h1 := @confirms_insertCommand α β c operation codec body hbody wrap t T hrow
      rw [Sql.selectCommand, hrun, hrow] at h1 ⊢
      refine h1 (fun e => ?_) ?_
      · cases e <;> exact ⟨_, rfl⟩
      · exact (bind_assoc body _ _).trans (congrArg (body >>= ·) (funext fun record => bind_assoc _ _ _))
    | some row =>
      refine Or.inl ⟨fun T' ha => ?_, ?_⟩
      · have hlocks : (Sql.selectCommand (c.receipt operation)).locks t T =
            [.command (c.receipt operation)] := by
          simp [Sql.selectCommand, Sql.of, hrow]
        rw [hlocks] at ha
        refine Sql.of_run_congr ?_
        rw [agree_command ha (List.mem_singleton_self _)]
      · rw [Sql.selectCommand, hrun, hrow]
        exact (keeps_replay c codec wrap row).mono fun _ _ _ => trivial

/-- **Lock discipline.** Every mutation is probed. -/
theorem Call.probed (c : Call) : c.code.Probed := by
  obtain ⟨c, op⟩ := c
  cases op with
  | createInitiative v => exact probed_command c _ _ (fun H => keeps_createInitiativeBody v) _
  | updateInitiative o i expected patch =>
    exact probed_command c _ _ (fun H => keeps_updateInitiativeBody expected patch) _
  | addUpdate o i update expected health summary progress =>
    exact probed_command c _ _ (fun H => keeps_addUpdateBody c.actor update expected health summary progress) _
  | archiveInitiative o i expected =>
    exact probed_command c _ _ (fun H => keeps_archiveInitiativeBody expected) _
  | attachProject o i expected snapshot position =>
    exact probed_command c _ _ (fun H => keeps_attachProjectBody expected snapshot position) _
  | updateProjectSnapshot o i expected snapshot =>
    exact probed_command c _ _ (fun H => keeps_updateProjectSnapshotBody expected snapshot) _
  | detachProject o i p expected expectedMembership =>
    exact probed_command c _ _ (fun H => keeps_detachProjectBody expected expectedMembership) _
  | reorderProjects o i expected items =>
    exact probed_command c _ _ (fun H => keeps_reorderProjectsBody expected items) _

end

end Portfolio
