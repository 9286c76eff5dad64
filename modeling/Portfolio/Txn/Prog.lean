/-
# Programs that talk to a store one statement at a time

`Prog S δ ε α` is a program that issues statements of `S` and continues with
what the store answers: a value, or a fault of type `δ`. It ends with a value
or throws. A program is run in one piece by `Prog.run`, against a state `σ`
that its own writes change as it goes, and by the system of `Txn.System` one
statement at a time, between the statements of others.

A statement (`Stmt`) is given by what it answers and writes on a state
(`run`), what it locks there (`locks`), and what it may draw from the world
outside the state (`offer`: sequences, clocks), which no rollback undoes.

A program outside a transaction has each statement see the state of its own
moment (`Prog.observe`).

Key definitions: `Prog`, `Stmt`, `Store`, `Prog.run`, `atomic`, `Prog.observe`.
Key theorems: `Prog.run_bind`, `run_bind_ok`, `run_perform_ok`, `observe_bind_ok`.
-/
import Mathlib.Logic.Function.Basic
import Mathlib.Data.Nat.Notation

namespace Txn

/-- A program over the statements `S`: it ends with an `α`, throws an `ε`, or
issues a statement and continues with the answer. -/
inductive Prog (S : Type → Type) (δ ε α : Type) : Type 1
  | ret (a : α)
  | throw (e : ε)
  | call {β : Type} (s : S β) (k : Except δ β → Prog S δ ε α)

namespace Prog

variable {S : Type → Type} {δ ε α β γ : Type}

def bind : Prog S δ ε α → (α → Prog S δ ε β) → Prog S δ ε β
  | .ret a, f => f a
  | .throw e, _ => .throw e
  | .call s k, f => .call s fun r => (k r).bind f

instance : Monad (Prog S δ ε) where
  pure := .ret
  bind := bind

@[simp] theorem pure_eq (a : α) : (pure a : Prog S δ ε α) = .ret a := rfl
@[simp] theorem ret_bind (a : α) (f : α → Prog S δ ε β) : (Prog.ret a >>= f) = f a := rfl
@[simp] theorem throw_bind (e : ε) (f : α → Prog S δ ε β) : (Prog.throw e >>= f) = .throw e := rfl
@[simp] theorem call_bind (s : S γ) (k : Except δ γ → Prog S δ ε α) (f : α → Prog S δ ε β) :
    (Prog.call s k >>= f) = .call s fun r => k r >>= f := rfl

theorem bind_assoc : ∀ (p : Prog S δ ε α) (f : α → Prog S δ ε β) (g : β → Prog S δ ε γ),
    (p >>= f) >>= g = p >>= fun a => f a >>= g
  | .ret _, _, _ => rfl
  | .throw _, _, _ => rfl
  | .call s k, f, g => congrArg (Prog.call s) (funext fun r => bind_assoc (k r) f g)

/-- Issue `s`; a fault ends the program with `err` of it. -/
def perform (s : S α) (err : δ → ε) : Prog S δ ε α :=
  .call s fun
    | .ok a => .ret a
    | .error d => .throw (err d)

/-- Issue `s` and go on with the answer, a fault included. -/
def attempt (s : S α) : Prog S δ ε (Except δ α) := .call s .ret

/-- The program with its errors mapped. -/
def mapError {ε' : Type} (f : ε → ε') : Prog S δ ε α → Prog S δ ε' α
  | .ret a => .ret a
  | .throw e => .throw (f e)
  | .call s k => .call s fun r => (k r).mapError f

end Prog

/-- A statement: on a tick `τ` (what the server supplies to this execution)
and a state `σ` it answers `β` or a fault, with the writes it makes, and it
locks `ρ`. `offer w t` is the world after it has supplied `t` in `w`, if it can. -/
structure Stmt (σ τ υ ω ρ δ β : Type) where
  run : τ → σ → Except δ β × List ω
  locks : τ → σ → List ρ
  offer : υ → τ → Option υ

/-- What writes do to a state, and which locks guard which part of it. -/
class Store (σ : Type) (ω ρ : outParam Type) where
  apply : ω → σ → σ
  /-- The locks a transaction that makes this write must hold. -/
  guards : ω → List ρ
  /-- What of a state the lock guards. -/
  part : ρ → σ → σ
  part_apply_of_notMem : ∀ (w : ω) (r : ρ) (s : σ), r ∉ guards w → part r (apply w s) = part r s
  part_apply_congr : ∀ (w : ω) (r : ρ) (s s' : σ), part r s = part r s' →
    part r (apply w s) = part r (apply w s')

section
variable {σ τ υ ω ρ δ ε α β γ : Type} [Store σ ω ρ]

/-- All writes of a list, in order. -/
def applyAll (ws : List ω) (s : σ) : σ := ws.foldl (fun s w => Store.apply w s) s

@[simp] theorem applyAll_nil (s : σ) : applyAll ([] : List ω) s = s := rfl
@[simp] theorem applyAll_cons (w : ω) (ws : List ω) (s : σ) :
    applyAll (w :: ws) s = applyAll ws (Store.apply w s) := rfl
theorem applyAll_append (ws vs : List ω) (s : σ) :
    applyAll (ws ++ vs) s = applyAll vs (applyAll ws s) := List.foldl_append

/-- The ticks left after the first. -/
def later (t : ℕ → τ) : ℕ → τ := fun n => t (n + 1)

/-- The ticks of `ts`, then those of `t`. -/
def thenTicks : List τ → (ℕ → τ) → ℕ → τ
  | [], t => t
  | a :: ts, t => fun n => match n with
    | 0 => a
    | n + 1 => thenTicks ts t n

@[simp] theorem thenTicks_nil (t : ℕ → τ) : thenTicks [] t = t := rfl
@[simp] theorem thenTicks_cons_zero (a : τ) (ts : List τ) (t : ℕ → τ) :
    thenTicks (a :: ts) t 0 = a := rfl
@[simp] theorem later_thenTicks_cons (a : τ) (ts : List τ) (t : ℕ → τ) :
    later (thenTicks (a :: ts) t) = thenTicks ts t := rfl

theorem thenTicks_append : ∀ (ts us : List τ) (t : ℕ → τ),
    thenTicks (ts ++ us) t = thenTicks ts (thenTicks us t)
  | [], _, _ => rfl
  | a :: ts, us, t => by
    funext n
    cases n with
    | zero => rfl
    | succ n => exact congrFun (thenTicks_append ts us t) n

/-- Run a program in one piece: each statement takes the next tick, and the
writes it makes are there for the next one. -/
def Prog.run : Prog (Stmt σ τ υ ω ρ δ) δ ε α → (ℕ → τ) → σ → Except ε α × (ℕ → τ) × σ
  | .ret a, t, s => (.ok a, t, s)
  | .throw e, t, s => (.error e, t, s)
  | .call st k, t, s => (k (st.run (t 0) s).1).run (later t) (applyAll (st.run (t 0) s).2 s)

/-- What is left of a program after its first statement. -/
def Prog.next : Prog (Stmt σ τ υ ω ρ δ) δ ε α → τ → σ → Prog (Stmt σ τ υ ω ρ δ) δ ε α
  | .call st k, t, s => k (st.run t s).1
  | p, _, _ => p

omit [Store σ ω ρ] in
theorem next_perform_bind (st : Stmt σ τ υ ω ρ δ α) (err : δ → ε) (f : α → Prog (Stmt σ τ υ ω ρ δ) δ ε β)
    (t : τ) (s : σ) : (Prog.perform st err >>= f).next t s = match (st.run t s).1 with
      | .ok a => f a
      | .error d => .throw (err d) := by
  simp only [Prog.perform, Prog.call_bind, Prog.next]
  cases (st.run t s).1 <;> rfl

@[simp] theorem run_ret (a : α) (t : ℕ → τ) (s : σ) :
    (Prog.ret a : Prog (Stmt σ τ υ ω ρ δ) δ ε α).run t s = (.ok a, t, s) := rfl
@[simp] theorem run_throw (e : ε) (t : ℕ → τ) (s : σ) :
    (Prog.throw e : Prog (Stmt σ τ υ ω ρ δ) δ ε α).run t s = (.error e, t, s) := rfl

theorem Prog.run_bind : ∀ (p : Prog (Stmt σ τ υ ω ρ δ) δ ε α)
    (f : α → Prog (Stmt σ τ υ ω ρ δ) δ ε β) (t : ℕ → τ) (s : σ),
    (p >>= f).run t s = match p.run t s with
      | (.ok a, t', s') => (f a).run t' s'
      | (.error e, t', s') => (.error e, t', s')
  | .ret _, _, _, _ => rfl
  | .throw _, _, _, _ => rfl
  | .call st k, f, t, s => run_bind (k (st.run (t 0) s).1) f (later t) _

/-- A sequence that ends well went through its first half. -/
theorem run_bind_ok {p : Prog (Stmt σ τ υ ω ρ δ) δ ε α} {f : α → Prog (Stmt σ τ υ ω ρ δ) δ ε β}
    {t t' : ℕ → τ} {s s' : σ} {b : β} :
    (p >>= f).run t s = (.ok b, t', s') ↔
      ∃ a t₁ s₁, p.run t s = (.ok a, t₁, s₁) ∧ (f a).run t₁ s₁ = (.ok b, t', s') := by
  rw [Prog.run_bind]
  constructor
  · intro h
    split at h
    · rename_i a t₁ s₁ hp
      exact ⟨a, t₁, s₁, hp, h⟩
    · simp at h
  · rintro ⟨a, t₁, s₁, hp, h⟩
    rw [hp]
    exact h

theorem run_perform (st : Stmt σ τ υ ω ρ δ α) (err : δ → ε) (t : ℕ → τ) (s : σ) :
    (Prog.perform st err).run t s =
      ((st.run (t 0) s).1.mapError err, later t, applyAll (st.run (t 0) s).2 s) := by
  unfold Prog.perform
  rw [Prog.run]
  cases (st.run (t 0) s).1 <;> rfl

@[simp] theorem mapError_ok (f : δ → ε) (a : α) : Except.mapError f (.ok a) = .ok a := rfl

@[simp] theorem mapError_error (f : δ → ε) (d : δ) :
    Except.mapError f (.error d : Except δ α) = .error (f d) := rfl

theorem run_perform_ok {st : Stmt σ τ υ ω ρ δ α} {err : δ → ε} {t t' : ℕ → τ} {s s' : σ} {a : α} :
    (Prog.perform st err).run t s = (.ok a, t', s') ↔
      (st.run (t 0) s).1 = .ok a ∧ t' = later t ∧ s' = applyAll (st.run (t 0) s).2 s := by
  rw [run_perform]
  cases (st.run (t 0) s).1 <;> simp [eq_comm]

@[simp] theorem run_attempt (st : Stmt σ τ υ ω ρ δ α) (t : ℕ → τ) (s : σ) :
    (Prog.attempt st : Prog (Stmt σ τ υ ω ρ δ) δ ε _).run t s =
      (.ok (st.run (t 0) s).1, later t, applyAll (st.run (t 0) s).2 s) := rfl

/-- The program as one transaction: what it wrote stays if it ends with a
value, and is rolled back if it throws. -/
def atomic (p : Prog (Stmt σ τ υ ω ρ δ) δ ε α) (t : ℕ → τ) (s : σ) : Except ε α × σ :=
  match p.run t s with
  | (.ok a, _, s') => (.ok a, s')
  | (.error e, _, _) => (.error e, s)

/-- A transaction answers what its run does. -/
theorem atomic_fst (p : Prog (Stmt σ τ υ ω ρ δ) δ ε α) (t : ℕ → τ) (s : σ) : (atomic p t s).1 = (p.run t s).1 := by
  unfold atomic
  split <;> rename_i h <;> rw [h]

theorem atomic_ok {p : Prog (Stmt σ τ υ ω ρ δ) δ ε α} {t : ℕ → τ} {s s' : σ} {a : α} :
    atomic p t s = (.ok a, s') ↔ ∃ t', p.run t s = (.ok a, t', s') := by
  unfold atomic
  split <;> rename_i h <;> simp [h]

/-- A transaction that throws leaves the state as it was. -/
theorem atomic_error {p : Prog (Stmt σ τ υ ω ρ δ) δ ε α} {t : ℕ → τ} {s s' : σ} {e : ε}
    (h : atomic p t s = (.error e, s')) : s' = s := by
  unfold atomic at h
  split at h <;> simp_all

/-! ### Without a transaction -/

omit [Store σ ω ρ] in
/-- Run each statement on a state of its own: what a program of single reads sees. -/
def Prog.observe : Prog (Stmt σ τ υ ω ρ δ) δ ε α → (ℕ → τ) → (ℕ → σ) → Except ε α × (ℕ → τ) × (ℕ → σ)
  | .ret a, t, s => (.ok a, t, s)
  | .throw e, t, s => (.error e, t, s)
  | .call st k, t, s => (k (st.run (t 0) (s 0)).1).observe (later t) (later s)

omit [Store σ ω ρ] in
theorem Prog.observe_bind : ∀ (p : Prog (Stmt σ τ υ ω ρ δ) δ ε α)
    (f : α → Prog (Stmt σ τ υ ω ρ δ) δ ε β) (t : ℕ → τ) (s : ℕ → σ),
    (p >>= f).observe t s = match p.observe t s with
      | (.ok a, t', s') => (f a).observe t' s'
      | (.error e, t', s') => (.error e, t', s')
  | .ret _, _, _, _ => rfl
  | .throw _, _, _, _ => rfl
  | .call st k, f, t, s => observe_bind (k (st.run (t 0) (s 0)).1) f (later t) (later s)

omit [Store σ ω ρ] in
theorem observe_bind_ok {p : Prog (Stmt σ τ υ ω ρ δ) δ ε α} {f : α → Prog (Stmt σ τ υ ω ρ δ) δ ε β}
    {t t' : ℕ → τ} {s s' : ℕ → σ} {b : β} : (p >>= f).observe t s = (.ok b, t', s') ↔
      ∃ a t₁ s₁, p.observe t s = (.ok a, t₁, s₁) ∧ (f a).observe t₁ s₁ = (.ok b, t', s') := by
  rw [Prog.observe_bind]
  constructor
  · intro h
    split at h
    · rename_i a t₁ s₁ hp
      exact ⟨a, t₁, s₁, hp, h⟩
    · simp at h
  · rintro ⟨a, t₁, s₁, hp, h⟩
    rw [hp]
    exact h

omit [Store σ ω ρ] in
theorem observe_perform_ok {st : Stmt σ τ υ ω ρ δ α} {err : δ → ε} {t t' : ℕ → τ} {s s' : ℕ → σ} {a : α} :
    (Prog.perform st err).observe t s = (.ok a, t', s') ↔
      (st.run (t 0) (s 0)).1 = .ok a ∧ t' = later t ∧ s' = later s := by
  unfold Prog.perform
  rw [Prog.observe]
  cases (st.run (t 0) (s 0)).1 <;> simp [Prog.observe, eq_comm]

end

end Txn
