/-
# No deadlock among the mutations

Every mutation takes its locks in one order: the key of its receipt, its
initiative (the row, or the key it inserts), the key of its update, and last
the version of the row that its UPDATE writes, or for which its INSERT waits
to be refused. The rows of projects are locked under the row of their
initiative only. So the mutations climb (`Call.climbs`), whatever keys,
initiatives, projects and update ids they are on, and no two of them, nor any
larger number, wait for one another in a circle.

A foreign key is checked on a row the transaction has locked itself, and a
position is taken under the lock of its initiative: neither is waited for.

Key definitions: `Lock.root`, `Lock.rank`, `Stays`.
Key theorems: `climbs_command`, `Call.climbs`, `no_deadlock`.
-/
import Portfolio.History
import Portfolio.Txn.Order

namespace Portfolio

open Txn Txn.Prog

/-- The lock a lock is taken under: a project's is its initiative's, the others are taken by themselves. -/
def Lock.root : Lock → Lock
  | .project o i _ => .initiative o i
  | l => l

/-- The order in which an operation takes its locks. -/
def Lock.rank : Lock → ℕ
  | .command _ => 0
  | .initiative _ _ => 1
  | .project _ _ _ => 1
  | .update _ _ => 2
  | .version _ _ => 3

/-- The program climbs by the ranks of its locks. -/
abbrev Tx.Climbs {α : Type} (p : Tx α) (B : List Lock) (Q : α → List Lock → Prop) : Prop :=
  Prog.Climbs Lock.root Lock.rank p B Q

/-- Holding the roots `B`, the program locks under them only. -/
def Stays {α : Type} (p : Tx α) (B : List Lock) : Prop := p.Climbs B fun _ K => K = B

section
variable {α β : Type} {B : List Lock} {Q : α → List Lock → Prop}

theorem Stays.ret (a : α) : Stays (.ret a) B := rfl

theorem Stays.throw (e : StorageError) : Stays (.throw e : Tx α) B := trivial

theorem Stays.climbs {p : Tx α} {f : α → Tx β} {Q : β → List Lock → Prop} (hp : Stays p B)
    (hf : ∀ a, (f a).Climbs B Q) : Tx.Climbs (p >>= f) B Q := by
  refine Climbs.bind (hp.mono fun a K hK => ?_)
  rw [hK]
  exact hf a

theorem Stays.bind {p : Tx α} {f : α → Tx β} (hp : Stays p B) (hf : ∀ a, Stays (f a) B) : Stays (p >>= f) B :=
  Stays.climbs hp hf

/-- A performed statement that locks under the roots held. -/
theorem stays_perform {st : Sql β} (err : DbError → StorageError)
    (h : ∀ t T, ∀ r ∈ st.locks t T, r.root ∈ B) : Stays (perform st err) B := by
  refine fun t T => Or.inl ⟨h t T, ?_⟩
  cases (st.run t T).1 with
  | ok a => exact Stays.ret a
  | error e => trivial

/-- A performed statement that may take a root. -/
theorem climbs_perform {st : Sql β} (err : DbError → StorageError)
    (h : ∀ t T, (∀ r ∈ st.locks t T, r.root ∈ B) ∨ ∃ r, Rises Lock.root Lock.rank B (st.locks t T) r) :
    Tx.Climbs (perform st err) B fun _ K => B ⊆ K := by
  intro t T
  rcases h t T with hunder | ⟨r, hrises⟩
  · refine Or.inl ⟨hunder, ?_⟩
    cases (st.run t T).1 with
    | ok a => exact List.Subset.refl _
    | error e => trivial
  · refine Or.inr ⟨r, hrises, ?_⟩
    cases (st.run t T).1 with
    | ok a => exact List.subset_append_left _ _
    | error e => trivial

theorem stays_select {binds : List String} {answer : Tables → β} (err : DbError → StorageError) :
    Stays (perform (Sql.select binds answer) err) B :=
  stays_perform err fun _ _ _ hr => (List.not_mem_nil hr).elim

theorem stays_nextval {draw : Sequences → ℤ → Option Sequences} (err : DbError → StorageError) :
    Stays (perform (Sql.nextval draw) err) B :=
  stays_perform err fun _ _ _ hr => (List.not_mem_nil hr).elim

theorem climbs_attempt {st : Sql β} {f : Except DbError β → Tx α} (h : ∀ t T, ∀ r ∈ st.locks t T, r.root ∈ B)
    (hf : ∀ r, (f r).Climbs B Q) : Tx.Climbs (attempt st >>= f) B Q := fun t T => Or.inl ⟨h t T, hf _⟩

theorem stays_formatted (a : Option α) : Stays (formatted a) B := by
  cases a with
  | none => exact .throw _
  | some a => exact .ret a

theorem stays_fetched (operation : String) (a : Option α) : Stays (fetched operation a) B := by
  cases a with
  | none => exact .throw _
  | some a => exact .ret a

theorem stays_orRefuse (failure : DomainFailure) (a : Option α) : Stays (orRefuse failure a) B := by
  cases a with
  | none => exact .throw _
  | some a => exact .ret a

/-- One lock alone, above those held. -/
theorem rises_single {l : Lock} (hroot : l.root = l) (hB : ∀ b ∈ B, b.rank < l.rank) :
    Rises Lock.root Lock.rank B [l] l where
  taken := List.mem_singleton_self l
  self := hroot
  above := hB
  under _ hr hne := (hne (List.mem_singleton.mp hr)).elim

/-- A statement that takes the root `l`, above those held: it locks nothing, or takes `l`, or is refused once it has
another lock above those held; and it goes further only with `l`. -/
theorem climbs_take {binds : List String} {locks : Tables → List Lock}
    {body : Tick → Tables → Except DbError (β × List Write)} {k : Except DbError β → Tx α} {l : Lock}
    (hlocks : ∀ T, locks T = [] ∨ ∃ r, Rises Lock.root Lock.rank B (locks T) r)
    (hk : ∀ e, ∃ e', k (.error e) = .throw e')
    (h : ∀ t T b ws, body t T = .ok (b, ws) → (∃ e, k (.ok b) = .throw e) ∨
      (Rises Lock.root Lock.rank B (locks T) l ∧ (k (.ok b)).Climbs (B ++ [l]) Q)) :
    Tx.Climbs (Prog.call (Sql.of binds locks body) k) B Q := by
  intro t T
  have hrefused : ∀ {p : Tx α}, (∃ e, p = .throw e) → ((∀ r ∈ locks T, r.root ∈ B) ∧ p.Climbs B Q) ∨
      ∃ r, Rises Lock.root Lock.rank B (locks T) r ∧ p.Climbs (B ++ [r]) Q := by
    rintro p ⟨e, rfl⟩
    rcases hlocks T with hn | ⟨r, hrises⟩
    · rw [hn]
      exact Or.inl ⟨fun r hr => (List.not_mem_nil hr).elim, trivial⟩
    · exact Or.inr ⟨r, hrises, trivial⟩
  rcases Sql.of_run binds locks body t T with ⟨e, he⟩ | ⟨b, ws, -, -, hb, hrun⟩
  · rw [he]
    exact hrefused (hk e)
  · rw [hrun]
    rcases h t T b ws hb with hthrow | ⟨hrises, hclimbs⟩
    · exact hrefused hthrow
    · exact Or.inr ⟨l, hrises, hclimbs⟩

end

/-! ### The steps of the mutations -/

section
variable {α : Type} {B : List Lock} {o i p : String} {k : CommandKey}

theorem initiativeLock_cases (o i : String) (T : Tables) :
    Sql.initiativeLock o i T = [] ∨ Sql.initiativeLock o i T = [.initiative o i] := by
  unfold Sql.initiativeLock
  split
  · exact Or.inr rfl
  · exact Or.inl rfl

/-- The row of the initiative is taken before anything under it. -/
theorem climbs_lockInitiative (hB : ∀ b ∈ B, b.rank < 1) :
    (lockInitiative o i).Climbs B fun _ K => K = B ++ [.initiative o i] := by
  have hrises : Rises Lock.root Lock.rank B [.initiative o i] (.initiative o i) := rises_single rfl hB
  refine climbs_take (l := .initiative o i) (fun T => ?_) (fun e => ⟨_, rfl⟩) fun t T b ws hb => ?_
  · rcases initiativeLock_cases o i T with hl | hl
    · exact Or.inl hl
    · rw [hl]
      exact Or.inr ⟨_, hrises⟩
  · obtain ⟨rfl, rfl⟩ := Prod.mk.inj (Except.ok.inj hb)
    cases hrow : T.initiative o i with
    | none => exact Or.inl ⟨_, rfl⟩
    | some row =>
      have hl : Sql.initiativeLock o i T = [.initiative o i] := by simp [Sql.initiativeLock, hrow]
      rw [hl]
      exact Or.inr ⟨hrises, rfl⟩

theorem stays_requireMutableRevision (current : LockedInitiative) (expected : ℤ) :
    Stays (requireMutableRevision current expected) B := by
  unfold requireMutableRevision
  split
  · exact .throw _
  · split
    · exact .throw _
    · exact .ret ()

/-- The version of the row is taken last. -/
theorem climbs_setInitiative (h : .initiative o i ∈ B) (hB : ∀ b ∈ B, b.rank < 3) {binds : List String} {fit : Bool}
    {f : Tick → InitiativeRow → InitiativeRow} (err : DbError → StorageError) :
    Tx.Climbs (perform (Sql.setInitiative binds o i fit f) err) B fun _ K => B ⊆ K := by
  refine climbs_perform err fun t T => ?_
  have hlocks : (Sql.setInitiative binds o i fit f).locks t T = Sql.versionLocks o i T := rfl
  rw [hlocks, Sql.versionLocks]
  split
  · -- the row is its own already
    refine Or.inr ⟨.version o i, by simp, rfl, hB, fun r hr hne => ?_⟩
    rcases List.mem_pair.mp hr with rfl | rfl
    · exact h
    · exact (hne rfl).elim
  · exact Or.inl fun r hr => (List.not_mem_nil hr).elim

theorem climbs_bumpInitiative (h : .initiative o i ∈ B) (hB : ∀ b ∈ B, b.rank < 3) :
    Tx.Climbs (bumpInitiative o i) B fun _ K => B ⊆ K := by
  have hset : Tx.Climbs (perform (Sql.bumpInitiative o i) (.database "bump initiative revision")) B fun _ K => B ⊆ K :=
    climbs_setInitiative h hB _
  refine Climbs.bind (hset.mono fun row K hK => ?_)
  exact ((stays_fetched _ row).bind fun _ => Stays.ret _).mono fun _ _ hK' => hK' ▸ hK

theorem stays_readInitiative : Stays (readInitiative o i) B :=
  Stays.bind (stays_select _) fun row => (stays_orRefuse _ row).bind fun _ => stays_formatted _

theorem stays_readProject {operation : String} {revision : ℤ} : Stays (readProject operation o i p revision) B :=
  Stays.bind (stays_select _) fun row => (stays_fetched _ row).bind fun _ => stays_formatted _

/-- Rows of projects are locked under the row of their initiative. -/
theorem stays_projects (h : .initiative o i ∈ B) {st : Sql α} (err : DbError → StorageError)
    (hlocks : ∀ t T, ∀ r ∈ st.locks t T, ∃ p, r = .project o i p) : Stays (perform st err) B := by
  refine stays_perform err fun t T r hr => ?_
  obtain ⟨p, rfl⟩ := hlocks t T r hr
  exact h

/-! ### The mutations -/

/-- The roots of a mutation that has its receipt. -/
theorem receipt_rank {n : ℕ} (h : 0 < n) : ∀ b ∈ [Lock.command k], b.rank < n := by
  intro b hb
  rw [List.mem_singleton.mp hb]
  exact h

/-- The roots of a mutation that has its initiative too. -/
theorem locked_rank {n : ℕ} (h : 1 < n) : ∀ b ∈ [Lock.command k, Lock.initiative o i], b.rank < n := by
  intro b hb
  rcases List.mem_pair.mp hb with rfl | rfl
  · exact Nat.zero_lt_of_lt h
  · exact h

theorem locked_mem : Lock.initiative o i ∈ [Lock.command k, Lock.initiative o i] :=
  List.mem_cons_of_mem _ (List.mem_singleton_self _)

/-- What a mutation does once its initiative is locked. -/
theorem climbs_locked {f : LockedInitiative → Tx α}
    (hf : ∀ current, (f current).Climbs [.command k, .initiative o i] fun _ K => .command k ∈ K) :
    Tx.Climbs (lockInitiative o i >>= f) [.command k] fun _ K => .command k ∈ K := by
  refine Climbs.bind ((climbs_lockInitiative (receipt_rank Nat.zero_lt_one)).mono fun current K hK => ?_)
  rw [hK]
  exact hf current

/-- Steps that take no root keep the receipt's key. -/
theorem Stays.holds {p : Tx α} (h : Stays p B) (hB : .command k ∈ B) : p.Climbs B fun _ K => .command k ∈ K :=
  h.mono fun _ _ hK => hK ▸ hB

/-- Nothing is locked after the new version of the row. -/
theorem climbs_set {β : Type} {binds : List String} {fit : Bool} {f : Tick → InitiativeRow → InitiativeRow}
    (err : DbError → StorageError) {g : Option InitiativeRow → Tx β} (hg : ∀ row B, Stays (g row) B) :
    Tx.Climbs (perform (Sql.setInitiative binds o i fit f) err >>= g) [.command k, .initiative o i]
      fun _ K => .command k ∈ K :=
  Climbs.bind ((climbs_setInitiative locked_mem (locked_rank (Nat.one_lt_succ_succ 1)) err).mono fun row K hK =>
    (hg row K).holds (hK List.mem_cons_self))

theorem climbs_bump {β : Type} {g : ℤ → Tx β} (hg : ∀ revision B, Stays (g revision) B) :
    Tx.Climbs (bumpInitiative o i >>= g) [.command k, .initiative o i] fun _ K => .command k ∈ K :=
  Climbs.bind ((climbs_bumpInitiative locked_mem (locked_rank (Nat.one_lt_succ_succ 1))).mono fun revision K hK =>
    (hg revision K).holds (hK List.mem_cons_self))

/-- The key is taken, or the version of the row that refuses it. -/
theorem climbs_createInitiativeBody (v : InitiativeCreate) :
    (createInitiativeBody v).Climbs [.command k] fun _ K => .command k ∈ K := by
  refine Stays.climbs (stays_nextval _) fun rowSeq => ?_
  refine climbs_take (l := .initiative v.organizationId v.initiativeId) (fun T => Or.inr ?_) (fun e => ?_)
    fun t T b ws hb => ?_
  · split
    · exact ⟨_, rises_single rfl (receipt_rank (Nat.zero_lt_succ 2))⟩
    · exact ⟨_, rises_single rfl (receipt_rank Nat.zero_lt_one)⟩
  · cases e <;> exact ⟨_, rfl⟩
  · cases hrow : T.initiative v.organizationId v.initiativeId with
    | some row =>
      simp only [hrow, Option.isSome_some, if_true] at hb
      split at hb
      · cases hb
      · split at hb <;> cases hb
    | none =>
      exact Or.inr ⟨rises_single rfl (receipt_rank Nat.zero_lt_one), stays_readInitiative.holds List.mem_cons_self⟩

theorem climbs_updateInitiativeBody (expected : ℤ) (patch : InitiativePatch) :
    (updateInitiativeBody o i expected patch).Climbs [.command k] fun _ K => .command k ∈ K := by
  refine climbs_locked fun current => ?_
  refine Stays.climbs (stays_requireMutableRevision current expected) fun _ => ?_
  exact climbs_set _ fun _ _ => stays_readInitiative

theorem climbs_archiveInitiativeBody (expected : ℤ) :
    (archiveInitiativeBody o i expected).Climbs [.command k] fun _ K => .command k ∈ K := by
  refine climbs_locked fun current => ?_
  refine Stays.climbs (stays_requireMutableRevision current expected) fun _ => ?_
  exact climbs_set _ fun row _ => (stays_fetched _ row).bind fun _ => stays_formatted _

/-- The key of the update is taken before the version of the row. -/
theorem climbs_addUpdateBody (actor u : String) (expected : ℤ) (health summary : String) (progress : ℤ) :
    (addUpdateBody actor o i u expected health summary progress).Climbs [.command k] fun _ K => .command k ∈ K := by
  refine climbs_locked fun current => ?_
  refine Stays.climbs (stays_requireMutableRevision current expected) fun _ => ?_
  refine Stays.climbs (stays_nextval _) fun rowSeq => ?_
  have hrises : Rises Lock.root Lock.rank [.command k, .initiative o i] [.update o u] (.update o u) :=
    rises_single rfl (locked_rank Nat.one_lt_two)
  refine climbs_take (l := .update o u) (fun T => ?_) (fun e => ?_) fun t T b ws hb => ?_
  · split
    · exact Or.inl rfl
    · exact Or.inr ⟨_, hrises⟩
  · cases e <;> exact ⟨_, rfl⟩
  · cases hrow : T.update o u with
    | some row =>
      simp only [hrow, Option.isSome_some, if_true] at hb
      split at hb
      · cases hb
      · split at hb <;> cases hb
    | none =>
      refine Or.inr ⟨hrises, ?_⟩
      have hrank : ∀ b ∈ [Lock.command k, Lock.initiative o i] ++ [.update o u], b.rank < 3 := by
        refine List.forall_mem_append.mpr ⟨locked_rank (Nat.one_lt_succ_succ 1), fun b hb => ?_⟩
        rw [List.mem_singleton.mp hb]
        exact Nat.lt_succ_self 2
      have hread : ∀ {B}, Stays (perform (Sql.selectUpdate o u) (.database "read initiative update") >>= fun row =>
          fetched "read initiative update" row >>= fun row => formatted (updateFromRow row)) B :=
        Stays.bind (stays_select _) fun row => (stays_fetched _ row).bind fun row => stays_formatted _
      have hset : Tx.Climbs (perform (Sql.advanceInitiative o i health progress (current.revision + 1))
          (.database "advance initiative update")) ([.command k, .initiative o i] ++ [.update o u])
            fun _ K => [Lock.command k, .initiative o i] ++ [.update o u] ⊆ K :=
        climbs_setInitiative (List.mem_append_left _ locked_mem) hrank _
      show Tx.Climbs (perform (Sql.advanceInitiative o i health progress (current.revision + 1)) _ >>= fun _ => _) _ _
      exact Climbs.bind (hset.mono fun _ K hK => hread.holds (hK List.mem_cons_self))

theorem climbs_attachProjectBody (expected : ℤ) (snapshot : ProjectSnapshot) (position : ℤ) :
    (attachProjectBody o i expected snapshot position).Climbs [.command k] fun _ K => .command k ∈ K := by
  refine climbs_locked fun current => ?_
  refine Stays.climbs (stays_requireMutableRevision current expected) fun _ => ?_
  refine Stays.climbs (stays_select _) fun existing => ?_
  split
  · trivial
  refine Stays.climbs (stays_select _) fun count => ?_
  split
  · trivial
  refine climbs_attempt (fun t T r hr => ?_) fun r => ?_
  · obtain rfl := List.mem_singleton.mp hr
    exact locked_mem
  · rcases r with e | _
    · cases e <;> trivial
    · exact climbs_bump fun _ _ => stays_readProject

theorem climbs_updateProjectSnapshotBody (expected : ℤ) (snapshot : ProjectSnapshot) :
    (updateProjectSnapshotBody o i expected snapshot).Climbs [.command k] fun _ K => .command k ∈ K := by
  refine climbs_locked fun current => ?_
  split
  · trivial
  refine Stays.climbs (stays_projects locked_mem _ fun t T r hr => ?_) fun found => ?_
  · change r ∈ (if (T.project o i snapshot.projectId).isSome then _ else _) at hr
    split at hr
    · exact ⟨_, List.mem_singleton.mp hr⟩
    · exact (List.not_mem_nil hr).elim
  refine Stays.climbs (stays_orRefuse _ found) fun revision => ?_
  split
  · trivial
  refine Stays.climbs (stays_projects locked_mem _ fun t T r hr => ⟨_, List.mem_singleton.mp hr⟩) fun _ => ?_
  exact climbs_bump fun _ _ => stays_readProject

theorem climbs_detachProjectBody (expected expectedMembership : ℤ) :
    (detachProjectBody o i p expected expectedMembership).Climbs [.command k] fun _ K => .command k ∈ K := by
  refine climbs_locked fun current => ?_
  refine Stays.climbs (stays_requireMutableRevision current expected) fun _ => ?_
  refine Stays.climbs (stays_projects locked_mem _ fun t T r hr => ⟨_, List.mem_singleton.mp hr⟩) fun deleted => ?_
  split
  · refine Stays.climbs (stays_select _) fun found => ?_
    split <;> trivial
  · exact climbs_bump fun _ _ => .ret _

theorem stays_writeOrder (hi : .initiative o i ∈ B) : ∀ items : List ReorderInput, Stays (writeOrder o i items) B
  | [] => .ret _
  | _ :: items => Stays.bind (stays_projects hi _ fun _ _ _ hr => ⟨_, List.mem_singleton.mp hr⟩) fun revision =>
      (stays_fetched _ revision).bind fun _ => (stays_writeOrder hi items).bind fun _ => .ret _

/-- The rows of all projects are locked in no particular order, under one initiative. -/
theorem climbs_reorderProjectsBody (expected : ℤ) (items : List ReorderInput) :
    (reorderProjectsBody o i expected items).Climbs [.command k] fun _ K => .command k ∈ K := by
  refine climbs_locked fun current => ?_
  have hall : ∀ (T : Tables), ∀ r ∈ (T.projectsOf o i).map fun r => Lock.project o i r.projectId,
      ∃ p, r = .project o i p := by
    intro T r hr
    obtain ⟨row, -, rfl⟩ := List.mem_map.mp hr
    exact ⟨_, rfl⟩
  refine Stays.climbs (stays_requireMutableRevision current expected) fun _ => ?_
  refine Stays.climbs (stays_projects locked_mem _ fun t T r hr => hall T r hr) fun rows => ?_
  split
  · trivial
  refine Stays.climbs (stays_projects locked_mem _ fun t T r hr => hall T r hr) fun _ => ?_
  refine Stays.climbs (stays_writeOrder locked_mem items) fun _ => ?_
  exact climbs_bump fun _ _ => .ret _

theorem stays_finishCommand {c : Command} {operation : String} (h : .command (c.receipt operation) ∈ B)
    (response : Json) : Stays (finishCommand c operation response) B := by
  refine stays_perform _ fun t T r hr => ?_
  change r ∈ (if (T.command (c.receipt operation)).isSome then _ else _) at hr
  split at hr
  · obtain rfl := List.mem_singleton.mp hr
    exact h
  · exact (List.not_mem_nil hr).elim

/-- What a stored receipt leads to locks nothing. -/
theorem stays_replay {β : Type} (c : Command) (codec : Codec α) (wrap : α → β) (row : CommandRow) {rest : Tx α} :
    Stays ((do
      match ← (if row.requestHash ≠ c.hash then refuse .idempotencyConflict
        else match row.responseJson with
          | none => refuse .operationInProgress
          | some response => match codec.dec response with
            | some replay => pure (some replay)
            | none => .throw .receipt) with
      | some replay => pure replay
      | none => rest) >>= fun r => pure (wrap r)) B := by
  split
  · exact .throw _
  split
  · exact .throw _
  split
  · exact .ret _
  · exact .throw _

/-- A mutation takes the key of its receipt first: with the row it finds, or with the one it inserts. -/
theorem climbs_command {β : Type} (c : Command) (operation : String) (codec : Codec α) {body : Tx α}
    (hbody : body.Climbs [.command (c.receipt operation)] fun _ K => .command (c.receipt operation) ∈ K)
    (wrap : α → β) :
    Tx.Climbs (command c operation codec body >>= fun r => pure (wrap r)) [] fun _ _ => True := by
  intro t T
  cases hrow : T.command (c.receipt operation) with
  | some row =>
    have hlocks : (Sql.selectCommand (c.receipt operation)).locks t T = [.command (c.receipt operation)] := by
      simp [Sql.selectCommand, Sql.of, hrow]
    refine Or.inr ⟨.command (c.receipt operation), ?_, ?_⟩
    · rw [hlocks]
      exact rises_single rfl fun b hb => (List.not_mem_nil hb).elim
    rcases Sql.of_run _ _ _ t T with ⟨e, he⟩ | ⟨b, ws, -, -, hb, hrun⟩
    · rw [Sql.selectCommand, he]
      trivial
    · obtain ⟨rfl, rfl⟩ := Prod.mk.inj (Except.ok.inj hb)
      rw [Sql.selectCommand, hrun, hrow]
      exact (stays_replay c codec wrap row).mono fun _ _ _ => trivial
  | none =>
    have hlocks : (Sql.selectCommand (c.receipt operation)).locks t T = [] := by
      simp [Sql.selectCommand, Sql.of, hrow]
    refine Or.inl ⟨fun r hr => ?_, ?_⟩
    · rw [hlocks] at hr
      exact (List.not_mem_nil hr).elim
    rcases Sql.of_run _ _ _ t T with ⟨e, he⟩ | ⟨b, ws, -, -, hb, hrun⟩
    · rw [Sql.selectCommand, he]
      trivial
    · obtain ⟨rfl, rfl⟩ := Prod.mk.inj (Except.ok.inj hb)
      rw [Sql.selectCommand, hrun, hrow]
      have hrises : Rises Lock.root Lock.rank [] [.command (c.receipt operation)] (.command (c.receipt operation)) :=
        rises_single rfl fun b hb => (List.not_mem_nil hb).elim
      refine climbs_take (l := .command (c.receipt operation)) (fun T => ?_) (fun e => ?_) fun t T b ws hb => ?_
      · split
        · exact Or.inl rfl
        · exact Or.inr ⟨_, hrises⟩
      · cases e <;> exact ⟨_, rfl⟩
      · cases hnew : T.command (c.receipt operation) with
        | some row =>
          simp only [hnew, Option.isSome_some, if_true] at hb
          cases hb
        | none =>
          refine Or.inr ⟨hrises, ?_⟩
          show Tx.Climbs ((body >>= _) >>= _) _ _
          rw [Prog.bind_assoc]
          refine Climbs.bind (hbody.mono fun record K hK => ?_)
          have hfinish := (stays_finishCommand hK (codec.enc record)).bind fun _ => Stays.ret record
          exact (hfinish.bind fun record => Stays.ret (wrap record)).mono fun _ _ _ => trivial

/-- Every mutation climbs. -/
theorem Call.climbs (c : Call) : c.code.Climbs [] fun _ _ => True := by
  obtain ⟨c, op⟩ := c
  cases op with
  | createInitiative v => exact climbs_command c _ _ (climbs_createInitiativeBody v) _
  | updateInitiative o i expected patch => exact climbs_command c _ _ (climbs_updateInitiativeBody expected patch) _
  | addUpdate o i update expected health summary progress =>
    exact climbs_command c _ _ (climbs_addUpdateBody c.actor update expected health summary progress) _
  | archiveInitiative o i expected => exact climbs_command c _ _ (climbs_archiveInitiativeBody expected) _
  | attachProject o i expected snapshot position =>
    exact climbs_command c _ _ (climbs_attachProjectBody expected snapshot position) _
  | updateProjectSnapshot o i expected snapshot =>
    exact climbs_command c _ _ (climbs_updateProjectSnapshotBody expected snapshot) _
  | detachProject o i p expected expectedMembership =>
    exact climbs_command c _ _ (climbs_detachProjectBody expected expectedMembership) _
  | reorderProjects o i expected items => exact climbs_command c _ _ (climbs_reorderProjectsBody expected items) _

end

/-- **No deadlock.** In every reachable state of any number of mutations, and at any moment of the
statements they are at, no attempt waits for itself, however many others its wait goes through. -/
theorem no_deadlock {ok : Call → Prop} {w : Sequences} {S : System} {tick : ℕ → Tick} {taken : ℕ → List Lock}
    (h : Txn.Steps Call.code ok (System.initial w) S) (htaking : Taking S tick taken) (i : ℕ) :
    ¬ Relation.TransGen (Waits S tick taken) i i :=
  waits_acyclic (Steps.climbing (fun c _ => c.climbs) h) (reachable_inv h).exclusive htaking i

/-- A create under another key. -/
def sampleRival (i : String) : Call :=
  ⟨⟨"planner", "ann", "rival-" ++ i, []⟩, .createInitiative ⟨"acme", i, "Roadmap", none, none, none, none⟩⟩

/-- Two creates of one initiative: the first has inserted it and is open, the second is at its INSERT. -/
def sampleBlocked : List (ℕ × Txn.Move Tick Call) :=
  [(0, .start (sampleCreate "alpha"))] ++ (sampleTicks 1 4).map (fun t => (0, .exec t)) ++
    [(1, .start (sampleRival "alpha"))] ++ (sampleTicks 2 3).map fun t => (1, .exec t)

/-- One create waits for the other, which does not wait for it. -/
theorem no_deadlock_blocked : ∃ S : System, Waits S (fun _ => default) (fun _ => []) 1 0 ∧
    ¬ Relation.TransGen (Waits S (fun _ => default) (fun _ => [])) 1 1 := by
  have hrun : ((System.initial ⟨0, 0⟩).schedule Call.code 2 sampleBlocked).bind (fun S =>
      (S.schedule Call.code 2 []).map fun S' => ((S'.threads 1).wants default S'.db, (S'.threads 0).held,
        decide (Lock.initiative "acme" "alpha" ∈ (S'.threads 1).held))) =
      some ([.initiative "acme" "alpha"], [.command ((sampleCreate "alpha").key), .initiative "acme" "alpha"],
          false) := by
    decide +kernel
  obtain ⟨S, S', h, h', hfacts⟩ := @System.scheduled (fun _ => True) _ _ _ _ _ _ _ hrun (by decide +kernel)
    fun _ _ _ _ => trivial
  obtain ⟨hwants, hfacts⟩ := Prod.mk.inj hfacts
  obtain ⟨hheld, hnot⟩ := Prod.mk.inj hfacts
  have hwaits : Waits S' (fun _ => default) (fun _ => []) 1 0 :=
    ⟨.initiative "acme" "alpha", by simp [hwants], of_decide_eq_false hnot, List.not_mem_nil, Or.inl (by simp [hheld])⟩
  have htaking : Taking S' (fun _ => default) fun _ => [] :=
    ⟨fun _ _ hr => (List.not_mem_nil hr).elim, fun _ _ _ _ hr => (List.not_mem_nil hr).elim⟩
  exact ⟨S', hwaits, no_deadlock (h.trans h') htaking 1⟩

end Portfolio
