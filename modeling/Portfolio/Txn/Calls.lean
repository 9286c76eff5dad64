/-
# What all statements of a program are like

`Prog.Calls P`: whatever is answered, every statement the program issues
satisfies `P`. It is read off a program step by step, so it says what all of
its runs share.

A program whose statements answer and write alike on two states does the same
on both (`Calls.run_congr`), one whose statements write nothing leaves the
state alone (`Calls.run_silent`), and what all statements keep the program
keeps (`Calls.run_preserves`).

Key definitions: `Prog.Calls`, `Stmt.Alike`, `Stmt.Silent`.
Key theorems: `Calls.bind`, `Calls.run_congr`, `Calls.run_silent`,
`Calls.run_preserves`.
-/
import Portfolio.Txn.Prog

namespace Txn

namespace Prog

variable {S : Type → Type} {δ ε α β : Type} {P Q : ∀ β, S β → Prop}

/-- Every statement the program may issue satisfies `P`. -/
def Calls (P : ∀ β, S β → Prop) : Prog S δ ε α → Prop
  | .ret _ => True
  | .throw _ => True
  | .call s k => P _ s ∧ ∀ r, (k r).Calls P

@[simp] theorem calls_ret (a : α) : (Prog.ret a : Prog S δ ε α).Calls P := trivial
@[simp] theorem calls_throw (e : ε) : (Prog.throw e : Prog S δ ε α).Calls P := trivial

theorem Calls.mono (h : ∀ β (s : S β), P β s → Q β s) : ∀ {p : Prog S δ ε α}, p.Calls P → p.Calls Q
  | .ret _, _ => trivial
  | .throw _, _ => trivial
  | .call _ _, hp => ⟨h _ _ hp.1, fun r => Calls.mono h (hp.2 r)⟩

theorem Calls.bind : ∀ {p : Prog S δ ε α} {f : α → Prog S δ ε β}, p.Calls P → (∀ a, (f a).Calls P) →
    (p >>= f).Calls P
  | .ret a, _, _, hf => hf a
  | .throw _, _, _, _ => trivial
  | .call _ _, _, h, hf => ⟨h.1, fun r => Calls.bind (h.2 r) hf⟩

theorem calls_perform {s : S α} {err : δ → ε} : (perform s err).Calls P ↔ P _ s := by
  refine ⟨And.left, fun h => ⟨h, fun r => ?_⟩⟩
  cases r <;> trivial

theorem calls_attempt_bind {s : S α} {f : Except δ α → Prog S δ ε β} :
    (attempt s >>= f).Calls P ↔ P _ s ∧ ∀ r, (f r).Calls P := Iff.rfl

end Prog

section
variable {σ τ υ ω ρ δ ε α β : Type} [Store σ ω ρ]

/-- The statement answers and writes alike on states that `R` relates. -/
def Stmt.Alike (R : σ → σ → Prop) (st : Stmt σ τ υ ω ρ δ β) : Prop :=
  ∀ t s s', R s s' → st.run t s' = st.run t s

/-- The statement writes nothing. -/
def Stmt.Silent (st : Stmt σ τ υ ω ρ δ β) : Prop := ∀ t s, (st.run t s).2 = []

theorem applyAll_rel {R : σ → σ → Prop} (hw : ∀ (w : ω) s s', R s s' → R (Store.apply w s) (Store.apply w s')) :
    ∀ (ws : List ω) {s s' : σ}, R s s' → R (applyAll ws s) (applyAll ws s')
  | [], _, _, h => h
  | w :: ws, _, _, h => applyAll_rel hw ws (hw w _ _ h)

/-- On states that its statements cannot tell apart a program does the same. -/
theorem Prog.Calls.run_congr {R : σ → σ → Prop}
    (hw : ∀ (w : ω) s s', R s s' → R (Store.apply w s) (Store.apply w s')) :
    ∀ {p : Prog (Stmt σ τ υ ω ρ δ) δ ε α}, p.Calls (fun _ st => st.Alike R) → ∀ (t : ℕ → τ) {s s' : σ}, R s s' →
      (p.run t s').1 = (p.run t s).1 ∧ (p.run t s').2.1 = (p.run t s).2.1 ∧
        R (p.run t s).2.2 (p.run t s').2.2
  | .ret _, _, _, _, _, h => ⟨rfl, rfl, h⟩
  | .throw _, _, _, _, _, h => ⟨rfl, rfl, h⟩
  | .call st k, hp, t, s, s', h => by
    simp only [Prog.run, hp.1 (t 0) s s' h]
    exact Calls.run_congr hw (hp.2 _) (later t) (applyAll_rel hw _ h)

/-- A program that writes nothing leaves the state as it is. -/
theorem Prog.Calls.run_silent : ∀ {p : Prog (Stmt σ τ υ ω ρ δ) δ ε α}, p.Calls (fun _ st => st.Silent) →
    ∀ (t : ℕ → τ) (s : σ), (p.run t s).2.2 = s
  | .ret _, _, _, _ => rfl
  | .throw _, _, _, _ => rfl
  | .call st k, hp, t, s => by
    simp only [Prog.run, hp.1 (t 0) s, applyAll_nil]
    exact Calls.run_silent (hp.2 _) (later t) s

omit [Store σ ω ρ] in
/-- What holds of the ticks before and of those after holds of all. -/
theorem thenTicks_forall {K : τ → Prop} {rest : ℕ → τ} (hrest : ∀ n, K (rest n)) : ∀ {ts : List τ},
    (∀ t ∈ ts, K t) → ∀ n, K (thenTicks ts rest n)
  | [], _, n => hrest n
  | _ :: _, hts, 0 => hts _ List.mem_cons_self
  | _ :: _, hts, n + 1 => thenTicks_forall hrest (fun t ht => hts t (List.mem_cons_of_mem _ ht)) n

/-- What every statement keeps on ticks that are all `K`, the program keeps. -/
theorem Prog.Calls.run_preserves {I : σ → Prop} {K : τ → Prop} : ∀ {p : Prog (Stmt σ τ υ ω ρ δ) δ ε α},
    p.Calls (fun _ st => ∀ t s, K t → I s → I (applyAll (st.run t s).2 s)) → ∀ {t : ℕ → τ} {s : σ},
      (∀ n, K (t n)) → I s → I (p.run t s).2.2
  | .ret _, _, _, _, _, hs => hs
  | .throw _, _, _, _, _, hs => hs
  | .call st _, hp, t, s, ht, hs =>
    Calls.run_preserves (hp.2 (st.run (t 0) s).1) (fun n => ht (n + 1)) (hp.1 (t 0) s (ht 0) hs)

/-- On a state that stays, a program that writes nothing sees what it sees in one piece. -/
theorem Prog.Calls.observe_silent : ∀ {p : Prog (Stmt σ τ υ ω ρ δ) δ ε α}, p.Calls (fun _ st => st.Silent) →
    ∀ (t : ℕ → τ) (s : σ), (p.observe t fun _ => s).1 = (p.run t s).1
  | .ret _, _, _, _ => rfl
  | .throw _, _, _, _ => rfl
  | .call st k, hp, t, s => by
    simp only [Prog.run, Prog.observe, hp.1 (t 0) s, applyAll_nil]
    exact Calls.observe_silent (hp.2 _) (later t) s

end

end Txn
