/-
# The errors a program can end with

`Prog.Raises E`: whatever its statements answer, the program throws only errors
of `E`. It has one rule for each way to build a program. A program that raises
only `E` ends with no other error: run in one piece, run on a state of each
statement's own moment, or as an attempt among others.

Key definitions: `Prog.Raises`.
Key theorems: `Raises.bind`, `Raises.run`, `Raises.observe`, `Steps.raises`.
-/
import Portfolio.Txn.System

namespace Txn

variable {σ τ υ ω ρ δ ε α β κ : Type}

/-- Every error the program throws is of `E`. -/
def Prog.Raises {S : Type → Type} (E : ε → Prop) : Prog S δ ε α → Prop
  | .ret _ => True
  | .throw e => E e
  | .call _ k => ∀ r, (k r).Raises E

/-! ### Rules -/

section
variable {S : Type → Type} {E E' : ε → Prop}

theorem raises_ret (a : α) : (Prog.ret a : Prog S δ ε α).Raises E := trivial

theorem raises_throw {e : ε} (h : E e) : (Prog.throw e : Prog S δ ε α).Raises E := h

theorem Prog.Raises.mono (hE : ∀ e, E e → E' e) : ∀ {p : Prog S δ ε α}, p.Raises E → p.Raises E'
  | .ret _, _ => trivial
  | .throw e, h => hE e h
  | .call _ _, h => fun r => Raises.mono hE (h r)

/-- Errors of several kinds at once. -/
theorem Prog.Raises.all {ι : Sort*} {E : ι → ε → Prop} : ∀ {p : Prog S δ ε α}, (∀ x, p.Raises (E x)) →
    p.Raises fun e => ∀ x, E x e
  | .ret _, _ => trivial
  | .throw _, h => h
  | .call _ _, h => fun r => Raises.all fun x => h x r

theorem Prog.Raises.bind : ∀ {p : Prog S δ ε α} {f : α → Prog S δ ε β}, p.Raises E → (∀ a, (f a).Raises E) →
    (p >>= f).Raises E
  | .ret a, _, _, hf => hf a
  | .throw _, _, h, _ => h
  | .call _ _, _, h, hf => fun r => Raises.bind (h r) hf

theorem raises_perform {st : S α} {err : δ → ε} (h : ∀ d, E (err d)) : (Prog.perform st err).Raises E := fun r =>
  match r with
  | .ok _ => trivial
  | .error d => h d

theorem raises_attempt {st : S α} {f : Except δ α → Prog S δ ε β} (h : ∀ r, (f r).Raises E) :
    (Prog.attempt st >>= f).Raises E := h

end

/-! ### Runs -/

section
variable {E : ε → Prop}

theorem Prog.Raises.run [Store σ ω ρ] : ∀ {p : Prog (Stmt σ τ υ ω ρ δ) δ ε α}, p.Raises E → ∀ {t : ℕ → τ} {s : σ}
    {e : ε}, (p.run t s).1 = .error e → E e
  | .ret _, _, _, _, _, he => nomatch he
  | .throw _, h, _, _, _, he => Except.error.inj he ▸ h
  | .call _ _, h, _, _, _, he => Raises.run (h _) he

theorem Prog.Raises.atomic [Store σ ω ρ] {p : Prog (Stmt σ τ υ ω ρ δ) δ ε α} (h : p.Raises E) {t : ℕ → τ} {s : σ}
    {e : ε} (he : (Txn.atomic p t s).1 = .error e) : E e := h.run ((atomic_fst p t s).symm.trans he)

theorem Prog.Raises.observe : ∀ {p : Prog (Stmt σ τ υ ω ρ δ) δ ε α}, p.Raises E → ∀ {t : ℕ → τ} {s : ℕ → σ}
    {e : ε}, (p.observe t s).1 = .error e → E e
  | .ret _, _, _, _, _, he => nomatch he
  | .throw _, h, _, _, _, he => Except.error.inj he ▸ h
  | .call _ _, h, _, _, _, he => Raises.observe (h _) he

end

/-! ### In the system -/

section
variable [Store σ ω ρ] {code : κ → Prog (Stmt σ τ υ ω ρ δ) δ ε α} {ok : κ → Prop}

/-- What an attempt has left to do raises what its call does, and so has one that failed. -/
def Thread.Raising (E : κ → ε → Prop) : Thread σ τ υ ω ρ δ ε α κ → Prop
  | .active c _ p _ _ => p.Raises (E c)
  | .failed c e => E c e
  | _ => True

theorem Step.raising {E : κ → ε → Prop} (hcode : ∀ c, (code c).Raises (E c)) {S S' : Sys σ τ υ ω ρ δ ε α κ}
    (h : Step code ok S S') (hS : ∀ i, (S.threads i).Raising E) : ∀ i, (S'.threads i).Raising E := by
  have hupdate : ∀ {j : ℕ} {th : Thread σ τ υ ω ρ δ ε α κ}, th.Raising E →
      ∀ i, (Function.update S.threads j th i).Raising E := by
    intro j th hth i
    by_cases hij : i = j
    · rw [hij, Function.update_self]
      exact hth
    · rw [Function.update_of_ne hij]
      exact hS i
  have hactive : ∀ {i c ticks p log held}, S.threads i = .active c ticks p log held → p.Raises (E c) := by
    intro i c ticks p log held hi
    have hraising := hS i
    rw [hi] at hraising
    exact hraising
  cases h with
  | @start _ c _ _ => exact hupdate (hcode c)
  | exec hi _ _ => exact hupdate (hactive hi _)
  | commit _ => exact hupdate trivial
  | fail hi => exact hupdate (hactive hi)
  | drop _ => exact hupdate trivial

/-- **An attempt fails only with an error its call can throw.** -/
theorem Steps.raises {s : σ} {w : υ} {S : Sys σ τ υ ω ρ δ ε α κ} (h : Steps code ok (Sys.initial s w) S) {i : ℕ}
    {c : κ} {e : ε} (hi : S.threads i = .failed c e) (E : ε → Prop) (hE : (code c).Raises E) : E e := by
  have hcode : ∀ c, (code c).Raises fun e => ∀ E : {E : ε → Prop // (code c).Raises E}, E.1 e :=
    fun c => Prog.Raises.all fun E => E.2
  have hraising : ∀ i, (S.threads i).Raising fun c e => ∀ E : {E : ε → Prop // (code c).Raises E}, E.1 e := by
    clear hi
    induction h with
    | refl => exact fun i => trivial
    | tail _ hstep ih => exact hstep.raising hcode ih
  have hfailed := hraising i
  rw [hi] at hfailed
  exact hfailed ⟨E, hE⟩

end

end Txn
