/-
# Rules for what a program ends with

`Prog.Meets`: run in one piece from a state, on ticks of a class, the program
ends as a postcondition says of its result, a thrown error included, and of
its state. `Prog.Sees` is the same of a program of single reads, each on a
state of its own with an invariant. Both have one rule for each way to build a
program, so a proof follows the program's text, with a case for every answer
of a statement.

Key definitions: `Prog.Meets`, `Prog.Sees`.
Key theorems: `Meets.bind`, `meets_perform`, `meets_attempt_bind`, `Sees.bind`,
`sees_perform`.
-/
import Portfolio.Txn.Prog

namespace Txn

variable {σ τ υ ω ρ δ ε α β : Type}

/-! ### Runs in one piece -/

section
variable [Store σ ω ρ] {K : τ → Prop} {s : σ}

/-- On ticks that are all `K` the program, run from `s`, ends with `Q` of its result and its state. -/
def Prog.Meets (K : τ → Prop) (p : Prog (Stmt σ τ υ ω ρ δ) δ ε α) (s : σ) (Q : Except ε α → σ → Prop) : Prop :=
  ∀ t : ℕ → τ, (∀ n, K (t n)) → Q (p.run t s).1 (p.run t s).2.2

theorem meets_ret {a : α} {Q : Except ε α → σ → Prop} (h : Q (.ok a) s) :
    (Prog.ret a : Prog (Stmt σ τ υ ω ρ δ) δ ε α).Meets K s Q := fun _ _ => h

theorem meets_throw {e : ε} {Q : Except ε α → σ → Prop} (h : Q (.error e) s) :
    (Prog.throw e : Prog (Stmt σ τ υ ω ρ δ) δ ε α).Meets K s Q := fun _ _ => h

theorem Prog.Meets.mono {p : Prog (Stmt σ τ υ ω ρ δ) δ ε α} {Q Q' : Except ε α → σ → Prop} (h : p.Meets K s Q)
    (hQ : ∀ r s', Q r s' → Q' r s') : p.Meets K s Q' := fun t ht => hQ _ _ (h t ht)

/-- What is met is met by a run. -/
theorem Prog.Meets.run {p : Prog (Stmt σ τ υ ω ρ δ) δ ε α} {Q : Except ε α → σ → Prop} (h : p.Meets K s Q) :
    p.Meets K s fun r s' => Q r s' ∧ ∃ t t', p.run t s = (r, t', s') :=
  fun t ht => ⟨h t ht, t, _, rfl⟩

/-- The ticks a run leaves are of its ticks. -/
theorem run_ticks : ∀ (p : Prog (Stmt σ τ υ ω ρ δ) δ ε α) {t : ℕ → τ} (s : σ), (∀ n, K (t n)) →
    ∀ n, K ((p.run t s).2.1 n)
  | .ret _, _, _, ht => ht
  | .throw _, _, _, ht => ht
  | .call st k, t, s, ht => run_ticks (k (st.run (t 0) s).1) _ fun n => ht (n + 1)

/-- What a sequence meets: the first half ends where the second begins, or with the error of both. -/
theorem Prog.Meets.bind {p : Prog (Stmt σ τ υ ω ρ δ) δ ε α} {f : α → Prog (Stmt σ τ υ ω ρ δ) δ ε β}
    {Q : Except ε β → σ → Prop}
    (h : p.Meets K s fun r s' => match r with
      | .ok a => (f a).Meets K s' Q
      | .error e => Q (.error e) s') : (p >>= f).Meets K s Q := by
  intro t ht
  have hp := h t ht
  have hticks := run_ticks p s ht
  rw [Prog.run_bind]
  cases hrun : p.run t s with
  | mk r rest =>
    rw [hrun] at hp hticks
    cases r with
    | ok a => exact hp rest.1 hticks
    | error e => exact hp

theorem meets_perform {st : Stmt σ τ υ ω ρ δ α} {err : δ → ε} {Q : Except ε α → σ → Prop}
    (h : ∀ t, K t → Q ((st.run t s).1.mapError err) (applyAll (st.run t s).2 s)) :
    (Prog.perform st err).Meets K s Q := by
  intro t ht
  rw [run_perform]
  exact h (t 0) (ht 0)

/-- An attempted statement and what follows each of its answers. -/
theorem meets_attempt_bind {st : Stmt σ τ υ ω ρ δ α} {f : Except δ α → Prog (Stmt σ τ υ ω ρ δ) δ ε β}
    {Q : Except ε β → σ → Prop}
    (h : ∀ t, K t → (f (st.run t s).1).Meets K (applyAll (st.run t s).2 s) Q) :
    (Prog.attempt st >>= f).Meets K s Q := by
  refine Prog.Meets.bind fun t ht => ?_
  rw [run_attempt]
  exact h (t 0) (ht 0)

end

/-! ### Reads, each on a state of its own -/

section
variable {K : τ → Prop} {I : σ → Prop}

/-- On ticks that are all `K`, whatever states with `I` its statements see, the program ends with `Q` of its result. -/
def Prog.Sees (K : τ → Prop) (I : σ → Prop) (p : Prog (Stmt σ τ υ ω ρ δ) δ ε α) (Q : Except ε α → Prop) : Prop :=
  ∀ (t : ℕ → τ) (s : ℕ → σ), (∀ n, K (t n)) → (∀ n, I (s n)) → Q (p.observe t s).1

theorem sees_ret {a : α} {Q : Except ε α → Prop} (h : Q (.ok a)) :
    (Prog.ret a : Prog (Stmt σ τ υ ω ρ δ) δ ε α).Sees K I Q := fun _ _ _ _ => h

theorem sees_throw {e : ε} {Q : Except ε α → Prop} (h : Q (.error e)) :
    (Prog.throw e : Prog (Stmt σ τ υ ω ρ δ) δ ε α).Sees K I Q := fun _ _ _ _ => h

theorem Prog.Sees.mono {p : Prog (Stmt σ τ υ ω ρ δ) δ ε α} {Q Q' : Except ε α → Prop} (h : p.Sees K I Q)
    (hQ : ∀ r, Q r → Q' r) : p.Sees K I Q' := fun t s ht hs => hQ _ (h t s ht hs)

/-- The ticks a program of reads leaves are of its ticks. -/
theorem observe_ticks : ∀ (p : Prog (Stmt σ τ υ ω ρ δ) δ ε α) {t : ℕ → τ} (s : ℕ → σ), (∀ n, K (t n)) →
    ∀ n, K ((p.observe t s).2.1 n)
  | .ret _, _, _, ht => ht
  | .throw _, _, _, ht => ht
  | .call st k, t, s, ht => observe_ticks (k (st.run (t 0) (s 0)).1) (later s) fun n => ht (n + 1)

/-- The states a program of reads leaves are of its states. -/
theorem observe_states : ∀ (p : Prog (Stmt σ τ υ ω ρ δ) δ ε α) (t : ℕ → τ) {s : ℕ → σ}, (∀ n, I (s n)) →
    ∀ n, I ((p.observe t s).2.2 n)
  | .ret _, _, _, hs => hs
  | .throw _, _, _, hs => hs
  | .call st k, t, s, hs => observe_states (k (st.run (t 0) (s 0)).1) (later t) fun n => hs (n + 1)

theorem Prog.Sees.bind {p : Prog (Stmt σ τ υ ω ρ δ) δ ε α} {f : α → Prog (Stmt σ τ υ ω ρ δ) δ ε β}
    {Q : Except ε β → Prop}
    (h : p.Sees K I fun r => match r with
      | .ok a => (f a).Sees K I Q
      | .error e => Q (.error e)) : (p >>= f).Sees K I Q := by
  intro t s ht hs
  have hp := h t s ht hs
  have hticks := observe_ticks p s ht
  have hstates := observe_states p t hs
  rw [Prog.observe_bind]
  cases hrun : p.observe t s with
  | mk r rest =>
    rw [hrun] at hp hticks hstates
    cases r with
    | ok a => exact hp rest.1 rest.2 hticks hstates
    | error e => exact hp

theorem sees_perform {st : Stmt σ τ υ ω ρ δ α} {err : δ → ε} {Q : Except ε α → Prop}
    (h : ∀ t s, K t → I s → Q ((st.run t s).1.mapError err)) : (Prog.perform st err).Sees K I Q := by
  intro t s ht hs
  have hQ := h (t 0) (s 0) (ht 0) (hs 0)
  unfold Prog.perform
  rw [Prog.observe]
  cases hst : (st.run (t 0) (s 0)).1 <;> rw [hst] at hQ <;> exact hQ

end

end Txn
