/-
# The moment an attempt ends at

An attempt that has begun and failed since issued a statement, at some moment
between, after whose answer its program throws (`Steps.thrown`); one that has
committed has its commit among those since (`Steps.committed`). So whatever an
attempt answers, it answers at a moment of its own.

Key definitions: `Sys.Throws`, `Thread.Lost`.
Key theorems: `Steps.thrown`, `Steps.committed`.
-/
import Portfolio.Txn.System

namespace Txn

variable {σ τ υ ω ρ δ ε α κ : Type} [Store σ ω ρ]

/-- The attempt is at a statement that is answered on the tick so that its program throws the error. -/
def Sys.Throws (S : Sys σ τ υ ω ρ δ ε α κ) (i : ℕ) (c : κ) (t : τ) (e : ε) : Prop :=
  ∃ (ticks : List τ) (β : Type) (st : Stmt σ τ υ ω ρ δ β) (k : Except δ β → Prog (Stmt σ τ υ ω ρ δ) δ ε α)
    (log : List ω) (held : List ρ), S.threads i = .active c ticks (.call st k) log held ∧
      k (st.run t (applyAll log S.db)).1 = .throw e

omit [Store σ ω ρ] in
/-- The attempt has failed with the error, or can only fail with it. -/
def Thread.Lost (c : κ) (e : ε) : Thread σ τ υ ω ρ δ ε α κ → Prop
  | .active c' _ (.throw e') _ _ => c' = c ∧ e' = e
  | .failed c' e' => c' = c ∧ e' = e
  | _ => False

variable {code : κ → Prog (Stmt σ τ υ ω ρ δ) δ ε α} {ok : κ → Prop} {S S' : Sys σ τ υ ω ρ δ ε α κ} {i : ℕ} {c : κ}

/-- **An attempt is lost at a statement.** -/
theorem Steps.thrown {e : ε} (hcode : ∀ c, ok c → (code c).Probed) (h : Steps code ok S S') (hi : S.threads i = .idle)
    (hlost : (S'.threads i).Lost c e) : ∃ S₁, Steps code ok S S₁ ∧ Steps code ok S₁ S' ∧ ∃ t, S₁.Throws i c t e := by
  induction h with
  | refl =>
    rw [hi] at hlost
    exact hlost.elim
  | @tail S₁ S₂ h hst ih =>
    by_cases hbefore : (S₁.threads i).Lost c e
    · obtain ⟨S₀, h0, h1, hthrows⟩ := ih hbefore
      exact ⟨S₀, h0, h1.tail hst, hthrows⟩
    -- the step is one of this attempt, for the others leave it as it was
    have hself : ∀ {j : ℕ} {th : Thread σ τ υ ω ρ δ ε α κ}, S₂.threads = Function.update S₁.threads j th →
        j = i ∧ th.Lost c e := by
      intro j th hth
      rw [hth] at hlost
      by_cases hj : i = j
      · rw [hj, Function.update_self] at hlost
        exact ⟨hj.symm, hlost⟩
      · rw [Function.update_of_ne hj] at hlost
        exact (hbefore hlost).elim
    cases hst with
    | @start j c' hj hc =>
      obtain ⟨-, hth⟩ := hself rfl
      have hprobed := hcode c' hc
      cases hp : code c' with
      | throw =>
        rw [hp] at hprobed
        exact hprobed.elim
      | ret | call =>
        rw [hp] at hth
        exact hth.elim
    | @exec j c' ticks β st k log held t w hj hw hf =>
      obtain ⟨rfl, hth⟩ := hself rfl
      cases hp : k (st.run t (applyAll log S₁.db)).1 with
      | throw e' =>
        rw [hp] at hth
        obtain ⟨rfl, rfl⟩ := hth
        have hst : Step code ok S₁ _ := .exec hj hw hf
        rw [hp] at hst
        exact ⟨S₁, h, .single hst, t, ticks, β, st, k, log, held, hj, hp⟩
      | ret | call =>
        rw [hp] at hth
        exact hth.elim
    | commit hj =>
      obtain ⟨-, hth⟩ := hself rfl
      exact hth.elim
    | @fail j c' ticks e' log held hj =>
      obtain ⟨rfl, hth⟩ := hself rfl
      rw [hj] at hbefore
      exact (hbefore hth).elim
    | drop hj =>
      obtain ⟨-, hth⟩ := hself rfl
      exact hth.elim

/-- **An attempt that has committed since** is among the commits since. -/
theorem Steps.committed {s : σ} {w : υ} {a : α} {cs : List (Commit σ τ α κ)} (hcode : ∀ c, ok c → (code c).Probed)
    (h : Steps code ok (Sys.initial s w) S) (h' : Steps code ok S S') (hcs : S'.commits = S.commits ++ cs)
    (hi : S.threads i = .idle) (hdone : S'.threads i = .committed c a) :
    ∃ x ∈ cs, x.thread = i ∧ x.call = c ∧ x.result = a := by
  have hinv := Steps.inv code ok hcode (inv_initial code ok s w) h
  have hinv' := Steps.inv code ok hcode (inv_initial code ok s w) (h.trans h')
  obtain ⟨x, hx, hthread, hcall, hresult⟩ := (hinv'.committed i c a).mp hdone
  rw [hcs] at hx
  rcases List.mem_append.mp hx with hx | hx
  · have hearlier := (hinv.committed i c a).mpr ⟨x, hx, hthread, hcall, hresult⟩
    rw [hi] at hearlier
    cases hearlier
  · exact ⟨x, hx, hthread, hcall, hresult⟩

end Txn
