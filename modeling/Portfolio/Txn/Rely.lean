/-
# Assertions that survive the other attempts

`Txn.System` says what a committed attempt did; this says what it may assume
of the world it draws from while it holds its locks. `J` is an invariant of
the committed state and the world, `R` is what any statement of any attempt
may do to the world. An assertion is stable under the locks `H` if nothing
the others can do while they do not hold `H` falsifies it: they change the
committed state outside `H` and move the world along `R`.

A program sustains `J` if, from one stable assertion to the next, it reaches
a commit that keeps `J`. If every program does, every reachable system
satisfies `J` (`Steps.kept`).

Key definitions: `Stable`, `Prog.Sustains`, `Kept`.
Key theorems: `Step.kept`, `Steps.kept`.
-/
import Portfolio.Txn.System

namespace Txn

section
variable {σ τ υ ω ρ δ ε α κ : Type} [Store σ ω ρ] (J : σ → υ → Prop) (R : υ → υ → Prop)

/-- The assertion survives commits outside `H` and draws of others. -/
def Stable (H : List ρ) (A : σ → υ → Prop) : Prop :=
  ∀ s s' w w', A s w → Agree H s' s → R w w' → A s' w'

/-- Holding `H`, with the writes `log` not committed yet and `A` true of the
committed state and the world, the program goes on to a commit that keeps `J`. -/
def Prog.Sustains : Prog (Stmt σ τ υ ω ρ δ) δ ε α → List ρ → List ω → (σ → υ → Prop) → Prop
  | .ret _, _, log, A => ∀ s w, J s w → A s w → J (applyAll log s) w
  | .throw _, _, _, _ => True
  | .call st k, H, log, A => ∀ t s w w', J s w → A s w → st.offer w t = some w' →
      R w w' ∧ ∃ A', Stable R (H ++ st.locks t (applyAll log s)) A' ∧ A' s w' ∧
        (k (st.run t (applyAll log s)).1).Sustains (H ++ st.locks t (applyAll log s))
          (log ++ (st.run t (applyAll log s)).2) A'

theorem Prog.Sustains.weaken : ∀ {p : Prog (Stmt σ τ υ ω ρ δ) δ ε α} {H : List ρ} {log : List ω}
    {A A' : σ → υ → Prop}, p.Sustains J R H log A → (∀ s w, A' s w → A s w) → p.Sustains J R H log A'
  | .ret _, _, _, _, _, h, hA => fun s w hJ h' => h s w hJ (hA s w h')
  | .throw _, _, _, _, _, _, _ => trivial
  | .call _ _, _, _, _, _, h, hA => fun t s w w' hJ h' hw => h t s w w' hJ (hA s w h') hw

/-- The invariant holds, and every open attempt goes on to keep it. -/
structure Kept (S : Sys σ τ υ ω ρ δ ε α κ) : Prop where
  holds : J S.db S.world
  sustained : ∀ i c ticks p log held, S.threads i = .active c ticks p log held →
    ∃ A, Stable R held A ∧ A S.db S.world ∧ p.Sustains J R held log A

variable {J R} {code : κ → Prog (Stmt σ τ υ ω ρ δ) δ ε α} {ok : κ → Prop}

theorem kept_initial {s : σ} {w : υ} (h : J s w) :
    Kept J R (Sys.initial s w : Sys σ τ υ ω ρ δ ε α κ) where
  holds := h
  sustained i c ticks p log held hi := by simp [Sys.initial] at hi

/-- A change of the committed state outside an attempt's locks, and a draw, leave it sustained. -/
theorem Kept.other {S : Sys σ τ υ ω ρ δ ε α κ} (h : Kept J R S) {i : ℕ} {c : κ} {ticks : List τ}
    {p : Prog (Stmt σ τ υ ω ρ δ) δ ε α} {log : List ω} {held : List ρ} {s : σ} {w : υ}
    (hi : S.threads i = .active c ticks p log held) (ha : Agree (S.threads i).held s S.db)
    (hw : R S.world w) : ∃ A, Stable R held A ∧ A s w ∧ p.Sustains J R held log A := by
  obtain ⟨A, hs, hA, hp⟩ := h.sustained i c ticks p log held hi
  rw [hi] at ha
  exact ⟨A, hs, hs _ _ _ _ hA ha hw, hp⟩

variable (hrefl : ∀ w, R w w) (hJ : ∀ s w w', J s w → R w w' → J s w')
  (hcode : ∀ c, ok c → (code c).Sustains J R [] [] fun _ _ => True)
include hrefl hJ hcode

theorem Step.kept {s₀ : σ} {S S' : Sys σ τ υ ω ρ δ ε α κ} (hinv : Inv code ok s₀ S) (h : Kept J R S)
    (hst : Step code ok S S') : Kept J R S' := by
  cases hst with
  | @start i c hi hc =>
    refine ⟨h.holds, fun j c' ticks p log held hj => ?_⟩
    by_cases hji : j = i
    · subst hji
      simp only [Function.update_self, Thread.active.injEq] at hj
      obtain ⟨rfl, -, rfl, rfl, rfl⟩ := hj
      exact ⟨_, fun _ _ _ _ _ _ _ => trivial, trivial, hcode c hc⟩
    · simp only [Function.update_of_ne hji] at hj
      exact h.sustained j c' ticks p log held hj
  | @exec i c ticks β st k log held t w hi hw hf =>
    obtain ⟨A, hs, hA, hp⟩ := h.sustained i c ticks _ log held hi
    obtain ⟨hR, A', hs', hA', hp'⟩ := hp t S.db S.world w h.holds hA hw
    refine ⟨hJ _ _ _ h.holds hR, fun j c' ticks' p log' held' hj => ?_⟩
    by_cases hji : j = i
    · subst hji
      simp only [Function.update_self, Thread.active.injEq] at hj
      obtain ⟨-, -, rfl, rfl, rfl⟩ := hj
      exact ⟨A', hs', hA', hp'⟩
    · simp only [Function.update_of_ne hji] at hj
      exact h.other hj (Agree.refl _ _) hR
  | @commit i c ticks a log held hi =>
    obtain ⟨A, hs, hA, hp⟩ := h.sustained i c ticks _ log held hi
    refine ⟨hp S.db S.world h.holds hA, fun j c' ticks' p log' held' hj => ?_⟩
    by_cases hji : j = i
    · subst hji
      simp at hj
    · simp only [Function.update_of_ne hji] at hj
      exact h.other hj (hinv.agree_commit code ok hi hji) (hrefl _)
  | @fail i c ticks e log held hi =>
    refine ⟨h.holds, fun j c' ticks' p log' held' hj => ?_⟩
    by_cases hji : j = i
    · subst hji
      simp at hj
    · simp only [Function.update_of_ne hji] at hj
      exact h.sustained j c' ticks' p log' held' hj
  | @drop i c ticks p log held hi =>
    refine ⟨h.holds, fun j c' ticks' p' log' held' hj => ?_⟩
    by_cases hji : j = i
    · subst hji
      simp at hj
    · simp only [Function.update_of_ne hji] at hj
      exact h.sustained j c' ticks' p' log' held' hj

/-- **The invariant holds in every reachable system.** -/
theorem Steps.kept (hprobed : ∀ c, ok c → (code c).Probed) {s₀ : σ} {S S' : Sys σ τ υ ω ρ δ ε α κ}
    (hinv : Inv code ok s₀ S) (h : Kept J R S) (hst : Steps code ok S S') : Kept J R S' := by
  induction hst with
  | refl => exact h
  | tail hsteps hst ih =>
    exact hst.kept hrefl hJ hcode (Steps.inv code ok hprobed hinv hsteps) ih

end

end Txn
