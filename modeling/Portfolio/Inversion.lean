/-
# Statements and steps that end well

One inversion lemma for each kind of statement and each shared step of the
mutations: when it ends with a value, what it has read, what it has written
and what it has checked. Nothing later unfolds a statement.

Key definitions: `Facts.setInitiative`, `Facts.Open`.
Key theorems: `sql_ok`, `select_ok`, `attempt_ok`, `locked_ok`,
`setInitiative_ok`, `bumpInitiative_ok`.
-/
import Portfolio.Locks

namespace Portfolio

open Txn Txn.Prog

/-- The facts with a row for that of its initiative. -/
def Facts.setInitiative (F : Facts) (row : InitiativeRow) : Facts :=
  { F with initiatives := Table.put InitiativeRow.key row F.initiatives }

/-- The initiative is there with the row `row`, open. -/
structure Facts.Open (F : Facts) (o i : String) (row : InitiativeRow) : Prop where
  found : F.initiative o i = some row
  unarchived : row.archived = false

section
variable {α β γ : Type} {t t' : ℕ → Tick} {T T' : Tables} {o i p : String}

theorem sql_ok {binds : List String} {locks : Tables → List Lock}
    {body : Tick → Tables → Except DbError (β × List Write)} {err : DbError → StorageError} {b : β}
    (h : (perform (Sql.of binds locks body) err).run t T = (.ok b, t', T')) :
    ∃ ws, body (t 0) T = .ok (b, ws) ∧ t' = later t ∧ T' = applyAll ws T := by
  obtain ⟨hb, ht, hT⟩ := run_perform_ok.mp h
  rcases Sql.of_run binds locks body (t 0) T with ⟨e, he⟩ | ⟨b', ws, -, -, hbody, hrun⟩
  · rw [he] at hb
    cases hb
  · rw [hrun] at hb hT
    obtain rfl := Except.ok.inj hb
    exact ⟨ws, hbody, ht, hT⟩

theorem select_ok {binds : List String} {answer : Tables → β} {err : DbError → StorageError} {b : β}
    (h : (perform (Sql.select binds answer) err).run t T = (.ok b, t', T')) :
    b = answer T ∧ t' = later t ∧ T' = T := by
  obtain ⟨ws, hb, ht, hT⟩ := sql_ok h
  obtain ⟨rfl, rfl⟩ := Prod.mk.inj (Except.ok.inj hb)
  exact ⟨rfl, ht, hT⟩

/-- An attempted statement whose faults throw. -/
theorem attempt_ok {binds : List String} {locks : Tables → List Lock}
    {body : Tick → Tables → Except DbError (β × List Write)} {f : Except DbError β → Tx α} {a : α}
    (hf : ∀ e, ∃ e', f (.error e) = .throw e')
    (h : (attempt (Sql.of binds locks body) >>= f).run t T = (.ok a, t', T')) :
    ∃ b ws, body (t 0) T = .ok (b, ws) ∧ (f (.ok b)).run (later t) (applyAll ws T) = (.ok a, t', T') := by
  obtain ⟨r, t₁, T₁, h1, h2⟩ := run_bind_ok.mp h
  rw [run_attempt] at h1
  rcases Sql.of_run binds locks body (t 0) T with ⟨e, he⟩ | ⟨b, ws, -, -, hbody, hrun⟩
  · rw [he] at h1
    simp only [Prod.mk.injEq, Except.ok.injEq] at h1
    obtain ⟨rfl, -⟩ := h1
    obtain ⟨e', he'⟩ := hf e
    rw [he'] at h2
    simp at h2
  · rw [hrun] at h1
    simp only [Prod.mk.injEq, Except.ok.injEq] at h1
    obtain ⟨rfl, rfl, rfl⟩ := h1
    exact ⟨b, ws, hbody, h2⟩

theorem nextval_ok {draw : Sequences → ℤ → Option Sequences} {err : DbError → StorageError} {n : ℤ}
    (h : (perform (Sql.nextval draw) err).run t T = (.ok n, t', T')) :
    n = (t 0).rowSeq ∧ t' = later t ∧ T' = T := by
  obtain ⟨hb, ht, hT⟩ := run_perform_ok.mp h
  simp only [Sql.nextval] at hb hT
  split at hb
  · cases hb
  · rename_i hf
    rw [if_neg hf] at hT
    exact ⟨(Except.ok.inj hb).symm, ht, hT⟩

theorem orRefuse_ok {failure : DomainFailure} {x : Option α} {a : α}
    (h : (orRefuse failure x).run t T = (.ok a, t', T')) : x = some a ∧ t' = t ∧ T' = T := by
  cases x with
  | none => simp [orRefuse, refuse] at h
  | some b => simpa [orRefuse, eq_comm] using h

theorem fetched_ok {operation : String} {x : Option α} {a : α}
    (h : (fetched operation x).run t T = (.ok a, t', T')) : x = some a ∧ t' = t ∧ T' = T := by
  cases x with
  | none => simp [fetched] at h
  | some b => simpa [fetched, eq_comm] using h

theorem formatted_ok {x : Option α} {a : α}
    (h : (formatted x).run t T = (.ok a, t', T')) : x = some a ∧ t' = t ∧ T' = T := by
  cases x with
  | none => simp [formatted] at h
  | some b => simpa [formatted, eq_comm] using h

theorem ret_ok {a b : α} (h : (Prog.ret a : Tx α).run t T = (.ok b, t', T')) : b = a ∧ t' = t ∧ T' = T := by
  simpa [eq_comm] using h

theorem lockInitiative_ok {current : LockedInitiative}
    (h : (lockInitiative o i).run t T = (.ok current, t', T')) :
    ∃ row, T.initiative o i = some row ∧ current = ⟨row.revision, row.archived⟩ ∧ t' = later t ∧ T' = T := by
  obtain ⟨x, t₁, T₁, h1, h2⟩ := run_bind_ok.mp h
  obtain ⟨ws, hb, rfl, rfl⟩ := sql_ok h1
  obtain ⟨rfl, rfl⟩ := Prod.mk.inj (Except.ok.inj hb)
  obtain ⟨row, t₂, T₂, h3, h4⟩ := run_bind_ok.mp h2
  obtain ⟨hrow, rfl, rfl⟩ := orRefuse_ok h3
  obtain ⟨rfl, rfl, rfl⟩ := ret_ok h4
  exact ⟨row, hrow, rfl, rfl, rfl⟩

theorem requireMutableRevision_ok {current : LockedInitiative} {expected : ℤ} {u : Unit}
    (h : (requireMutableRevision current expected).run t T = (.ok u, t', T')) :
    current.archived = false ∧ current.revision = expected ∧ t' = t ∧ T' = T := by
  unfold requireMutableRevision at h
  split at h
  · simp [refuse] at h
  · split at h
    · simp [refuse] at h
    · rename_i ha hr
      obtain ⟨-, rfl, rfl⟩ := ret_ok h
      exact ⟨by simpa using ha, by simpa using hr, rfl, rfl⟩

/-- What a body does after it has locked its initiative and checked its revision. -/
theorem locked_ok {f : LockedInitiative → Tx α} {expected : ℤ} {a : α}
    (h : (lockInitiative o i >>= fun current =>
      requireMutableRevision current expected >>= fun _ => f current).run t T = (.ok a, t', T')) :
    ∃ row, T.toFacts.Open o i row ∧ row.revision = expected ∧
      (f ⟨row.revision, row.archived⟩).run (later t) T = (.ok a, t', T') := by
  obtain ⟨current, t₁, T₁, h1, h2⟩ := run_bind_ok.mp h
  obtain ⟨row, hrow, rfl, rfl, rfl⟩ := lockInitiative_ok h1
  obtain ⟨u, t₂, T₂, h3, h4⟩ := run_bind_ok.mp h2
  obtain ⟨harch, hrev, rfl, rfl⟩ := requireMutableRevision_ok h3
  exact ⟨row, ⟨hrow, harch⟩, hrev, h4⟩

theorem initiative_key {F : Facts} {row : InitiativeRow} (h : F.initiative o i = some row) :
    row.key = (o, i) := by
  obtain ⟨-, ho, hi⟩ := initiative_mem h
  rw [InitiativeRow.key, ho, hi]

/-- After an UPDATE of its row, an initiative has the new row. -/
theorem initiative_setInitiative {F : Facts} {row row' : InitiativeRow} (h : F.initiative o i = some row)
    (hk : row'.key = row.key) : (F.setInitiative row').initiative o i = some row' := by
  rw [initiative_key h] at hk
  rw [Facts.initiative, Facts.setInitiative, Table.filter_put (InitiativeRow.at_respects o i)]
  refine Table.head?_put (fun r hr => ?_) fun hne => ?_
  · have h1 := (List.mem_filter.mp hr).2
    simp only [InitiativeRow.at, decide_eq_true_eq] at h1
    rw [hk, InitiativeRow.key, h1.1, h1.2]
  · rw [Facts.initiative, hne] at h
    cases h

/-- A row inserted under a free key is found there. -/
theorem initiative_insert {F : Facts} {row : InitiativeRow} (h : F.initiative o i = none)
    (hrow : row.at o i = true) :
    Facts.initiative { F with initiatives := F.initiatives ++ [row] } o i = some row := by
  have hempty : F.initiatives.filter (InitiativeRow.at o i) = [] := List.head?_eq_none_iff.mp h
  simp only [Facts.initiative, List.filter_append, hempty, List.filter_cons_of_pos hrow, List.filter_nil,
    List.nil_append, List.head?_cons]

theorem project_insert {F : Facts} {row : ProjectRow} (h : F.project o i p = none)
    (hrow : row.at o i = true) (hp : row.projectId = p) :
    Facts.project { F with projects := F.projects ++ [row] } o i p = some row := by
  rw [Facts.project, Facts.projectsOf] at h ⊢
  simp only [List.filter_append, List.find?_append, h, Option.none_or, List.filter_cons_of_pos hrow,
    List.filter_nil, List.find?_cons, hp, decide_true]

theorem update_insert {F : Facts} {row : UpdateRow} {u : String} (h : F.update o u = none)
    (hrow : row.has o u = true) :
    Facts.update { F with updates := F.updates ++ [row] } o u = some row := by
  have hempty : F.updates.filter (UpdateRow.has o u) = [] := List.head?_eq_none_iff.mp h
  simp only [Facts.update, List.filter_append, hempty, List.filter_cons_of_pos hrow, List.filter_nil,
    List.nil_append, List.head?_cons]

theorem setInitiative_ok {binds : List String} {fit : Bool} {f : Tick → InitiativeRow → InitiativeRow}
    {err : DbError → StorageError} {row : InitiativeRow} {x : Option InitiativeRow}
    (hrow : T.initiative o i = some row)
    (h : (perform (Sql.setInitiative binds o i fit f) err).run t T = (.ok x, t', T')) :
    x = some (f (t 0) row) ∧ (f (t 0) row).checks = true ∧ t' = later t ∧
      T' = { T with toFacts := T.toFacts.setInitiative (f (t 0) row) } := by
  obtain ⟨ws, hb, rfl, rfl⟩ := sql_ok h
  split at hb
  · cases hb
  · simp only [hrow] at hb
    split at hb
    · rename_i hc
      obtain ⟨rfl, rfl⟩ := Prod.mk.inj (Except.ok.inj hb)
      exact ⟨rfl, hc, rfl, rfl⟩
    · cases hb

theorem bumpInitiative_ok {row : InitiativeRow} {revision : ℤ} (hrow : T.initiative o i = some row)
    (h : (bumpInitiative o i).run t T = (.ok revision, t', T')) :
    revision = row.revision + 1 ∧ (Sql.bumped (t 0) row).checks = true ∧ t' = later t ∧
      T' = { T with toFacts := T.toFacts.setInitiative (Sql.bumped (t 0) row) } := by
  obtain ⟨x, t₁, T₁, h1, h2⟩ := run_bind_ok.mp h
  obtain ⟨rfl, hc, rfl, rfl⟩ := setInitiative_ok hrow h1
  obtain ⟨row', t₂, T₂, h3, h4⟩ := run_bind_ok.mp h2
  obtain ⟨hrow', rfl, rfl⟩ := fetched_ok h3
  obtain rfl := Option.some.inj hrow'
  obtain ⟨rfl, rfl, rfl⟩ := ret_ok h4
  exact ⟨rfl, hc, rfl, rfl⟩

theorem readInitiative_ok {r : InitiativeRecord} {row : InitiativeRow} (hrow : T.initiative o i = some row)
    (h : (readInitiative o i).run t T = (.ok r, t', T')) :
    initiativeFromRow row (T.projectsOf o i).length = some r ∧ T' = T := by
  obtain ⟨x, t₁, T₁, h1, h2⟩ := run_bind_ok.mp h
  obtain ⟨rfl, rfl, rfl⟩ := select_ok h1
  obtain ⟨y, t₂, T₂, h3, h4⟩ := run_bind_ok.mp h2
  obtain ⟨hy, rfl, rfl⟩ := orRefuse_ok h3
  obtain ⟨hr, rfl, rfl⟩ := formatted_ok h4
  obtain ⟨-, ho, hi⟩ := initiative_mem hrow
  simp only [hrow, Option.map_some, Option.some.injEq, ho, hi] at hy
  obtain rfl := hy
  exact ⟨hr, rfl⟩

theorem readProject_ok {operation : String} {revision : ℤ} {r : ProjectRecord} {row : ProjectRow}
    (hrow : T.project o i p = some row)
    (h : (readProject operation o i p revision).run t T = (.ok r, t', T')) :
    projectFromRow row (some (toString revision)) = some r ∧ T' = T := by
  obtain ⟨x, t₁, T₁, h1, h2⟩ := run_bind_ok.mp h
  obtain ⟨rfl, rfl, rfl⟩ := select_ok h1
  obtain ⟨y, t₂, T₂, h3, h4⟩ := run_bind_ok.mp h2
  obtain ⟨hy, rfl, rfl⟩ := fetched_ok h3
  obtain ⟨hr, rfl, rfl⟩ := formatted_ok h4
  rw [hrow] at hy
  obtain rfl := Option.some.inj hy
  exact ⟨hr, rfl⟩

end

end Portfolio
