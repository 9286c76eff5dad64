/-
# What an attempt draws is its own

A value drawn from the world (`nextval`) is one nobody has drawn before, and
no rollback gives it back. So of the values that open attempts have drawn no
two are the same, and none of them is in the committed state before its
attempt commits: whatever order the attempts draw in and commit in, each value
gets into the state once.

`Prog.Follows` says where a program can be after some ticks. `Draws` says what
an attempt has drawn by then; what a commit adds to the values of the state it
has drawn itself (`hspend`).

Key definitions: `Prog.Follows`, `Draws`, `Owned`.
Key theorems: `Step.owned`, `Steps.owned`.
-/
import Portfolio.Txn.System
import Portfolio.Txn.Calls

namespace Txn

section
variable {σ τ υ ω ρ δ ε α κ ν : Type} [Store σ ω ρ]

/-- The ticks lead from one program to the other, on whatever states. -/
def Prog.Follows : List τ → Prog (Stmt σ τ υ ω ρ δ) δ ε α → Prog (Stmt σ τ υ ω ρ δ) δ ε α → Prop
  | [], p, q => q = p
  | t :: ts, .call st k, q => ∃ s, (k (st.run t s).1).Follows ts q
  | _ :: _, _, _ => False

omit [Store σ ω ρ] in
theorem Prog.Follows.snoc {β : Type} {st : Stmt σ τ υ ω ρ δ β} {k : Except δ β → Prog (Stmt σ τ υ ω ρ δ) δ ε α}
    (t : τ) (s : σ) : ∀ {p : Prog (Stmt σ τ υ ω ρ δ) δ ε α} {ts : List τ}, p.Follows ts (.call st k) →
      p.Follows (ts ++ [t]) (k (st.run t s).1)
  | _, [], h => by
    obtain rfl : Prog.call st k = _ := h
    exact ⟨s, rfl⟩
  | .call _ _, _ :: _, ⟨s', h⟩ => ⟨s', h.snoc t s⟩

omit [Store σ ω ρ] in
theorem Prog.Follows.calls {P : ∀ β, Stmt σ τ υ ω ρ δ β → Prop} : ∀ {p q : Prog (Stmt σ τ υ ω ρ δ) δ ε α}
    {ts : List τ}, p.Follows ts q → p.Calls P → q.Calls P
  | p, q, [], h, hp => by
    obtain rfl : q = p := h
    exact hp
  | .call _ _, _, _ :: _, ⟨_, h⟩, hp => h.calls (hp.2 _)

/-- What an open attempt has drawn. -/
def Thread.drawn (drawn : κ → List τ → Option ν) : Thread σ τ υ ω ρ δ ε α κ → Option ν
  | .active c ticks _ _ _ => drawn c ticks
  | _ => none

/-- An open attempt is where its ticks lead. -/
def Thread.Follows (code : κ → Prog (Stmt σ τ υ ω ρ δ) δ ε α) : Thread σ τ υ ω ρ δ ε α κ → Prop
  | .active c ticks p _ _ => (code c).Follows ticks p
  | _ => True

/-- After the ticks an attempt of `c` has drawn `drawn c ticks`: a value that was unused before the
statement that drew it, and used from then on. -/
structure Draws (code : κ → Prog (Stmt σ τ υ ω ρ δ) δ ε α) (drawn : κ → List τ → Option ν)
    (used : υ → ν → Prop) : Prop where
  begins : ∀ c, drawn c [] = none
  kept : ∀ {c ts β} {st : Stmt σ τ υ ω ρ δ β} {k t w w'}, (code c).Follows ts (.call st k) →
    st.offer w t = some w' → ∀ n, used w n → used w' n
  draws : ∀ {c ts β} {st : Stmt σ τ υ ω ρ δ β} {k t w w'}, (code c).Follows ts (.call st k) →
    st.offer w t = some w' → ∀ n, drawn c (ts ++ [t]) = some n → drawn c ts = some n ∨ (¬ used w n ∧ used w' n)

/-- The values drawn since the world was `w₀` are each one attempt's, and in the state at most once. -/
structure Owned (code : κ → Prog (Stmt σ τ υ ω ρ δ) δ ε α) (drawn : κ → List τ → Option ν) (used : υ → ν → Prop)
    (vals : σ → ν → Prop) (w₀ : υ) (S : Sys σ τ υ ω ρ δ ε α κ) : Prop where
  follows : ∀ i, (S.threads i).Follows code
  since : ∀ n, used w₀ n → used S.world n
  unspent : ∀ i n, (S.threads i).drawn drawn = some n → used S.world n ∧ ¬ used w₀ n ∧ ¬ vals S.db n
  apart : ∀ i j n, i ≠ j → (S.threads i).drawn drawn = some n → (S.threads j).drawn drawn ≠ some n
  spent : ∀ n, vals S.db n → used S.world n ∧ ¬ used w₀ n
  fresh : ∀ x ∈ S.commits, ∀ n, drawn x.call x.ticks = some n → ¬ used w₀ n ∧ ¬ vals x.before n

variable {code : κ → Prog (Stmt σ τ υ ω ρ δ) δ ε α} {ok : κ → Prop} {drawn : κ → List τ → Option ν}
  {used : υ → ν → Prop} {vals : σ → ν → Prop} {w₀ : υ}

omit [Store σ ω ρ] in
theorem owned_initial {s : σ} (h : ∀ n, ¬ vals s n) : Owned code drawn used vals w₀ (Sys.initial s w₀) where
  follows _ := trivial
  since _ h := h
  unspent _ _ h := nomatch h
  apart _ _ _ _ h := nomatch h
  spent n hn := absurd hn (h n)
  fresh _ hx := nomatch hx

omit [Store σ ω ρ] in
/-- A step that changes one attempt, to one that has drawn nothing new, and not the committed state. -/
theorem Owned.update {S : Sys σ τ υ ω ρ δ ε α κ} (h : Owned code drawn used vals w₀ S) {w : υ} {i : ℕ}
    {th : Thread σ τ υ ω ρ δ ε α κ} (hw : ∀ n, used S.world n → used w n) (hf : th.Follows code)
    (hd : ∀ n, th.drawn drawn = some n → (S.threads i).drawn drawn = some n ∨ (¬ used S.world n ∧ used w n)) :
    Owned code drawn used vals w₀ { S with world := w, threads := Function.update S.threads i th } := by
  -- a value the attempt draws now is nobody's: what others have drawn is used
  have hown : ∀ j n, j ≠ i → th.drawn drawn = some n → (S.threads j).drawn drawn ≠ some n := by
    intro j n hj hn hjn
    rcases hd n hn with hi | ⟨hnew, -⟩
    · exact h.apart i j n (Ne.symm hj) hi hjn
    · exact hnew (h.unspent j n hjn).1
  refine ⟨fun j => ?_, fun n hn => hw n (h.since n hn), fun j n hj => ?_, fun j k n hjk hj => ?_, fun n hn => ?_,
    h.fresh⟩
  · by_cases hji : j = i
    · subst hji
      simpa using hf
    · simpa [Function.update_of_ne hji] using h.follows j
  · by_cases hji : j = i
    · subst hji
      simp only [Function.update_self] at hj
      rcases hd n hj with hi | ⟨hnew, hused⟩
      · obtain ⟨h1, h2, h3⟩ := h.unspent j n hi
        exact ⟨hw n h1, h2, h3⟩
      · exact ⟨hused, fun h0 => hnew (h.since n h0), fun hv => hnew (h.spent n hv).1⟩
    · simp only [Function.update_of_ne hji] at hj
      obtain ⟨h1, h2, h3⟩ := h.unspent j n hj
      exact ⟨hw n h1, h2, h3⟩
  · by_cases hji : j = i
    · subst hji
      simp only [Function.update_self] at hj
      simp only [Function.update_of_ne (Ne.symm hjk)]
      exact hown k n (Ne.symm hjk) hj
    · simp only [Function.update_of_ne hji] at hj
      by_cases hki : k = i
      · subst hki
        simp only [Function.update_self]
        exact fun hk => hown j n hji hk hj
      · simp only [Function.update_of_ne hki]
        exact h.apart j k n hjk hj
  · obtain ⟨h1, h2⟩ := h.spent n hn
    exact ⟨hw n h1, h2⟩

variable (hdraws : Draws code drawn used) (hprobed : ∀ c, ok c → (code c).Probed)
  (hspend : ∀ c ticks s a s', (∀ rest, (code c).run (thenTicks ticks rest) s = (.ok a, rest, s')) →
    ∀ n, vals s' n → vals s n ∨ drawn c ticks = some n)
include hdraws hprobed hspend

theorem Step.owned {s₀ : σ} {S S' : Sys σ τ υ ω ρ δ ε α κ} (hinv : Inv code ok s₀ S)
    (h : Owned code drawn used vals w₀ S) (hst : Step code ok S S') : Owned code drawn used vals w₀ S' := by
  cases hst with
  | @start i c hi hc =>
    refine h.update (fun _ hn => hn) rfl fun n hn => ?_
    rw [Thread.drawn, hdraws.begins] at hn
    cases hn
  | @exec i c ticks β st k log held t w hi hw hf =>
    have hfollows := h.follows i
    rw [hi] at hfollows
    refine h.update (hdraws.kept hfollows hw) (hfollows.snoc t _) fun n hn => ?_
    rw [hi]
    exact hdraws.draws hfollows hw n hn
  | @commit i c ticks a log held hi =>
    have hsound := hinv.sound i
    rw [hi] at hsound
    have hrun := fun rest => hsound.commit code (hprobed c (hinv.admissible i c ticks _ log held hi)) rest
    have hvals := hspend c ticks S.db a _ hrun
    have hdrawn : ∀ n, drawn c ticks = some n → (S.threads i).drawn drawn = some n := by
      intro n hn
      rw [hi]
      exact hn
    refine ⟨fun j => ?_, h.since, fun j n hj => ?_, fun j k n hjk hj => ?_, fun n hn => ?_, fun x hx n hn => ?_⟩
    · by_cases hji : j = i
      · subst hji
        simp [Thread.Follows]
      · simpa [Function.update_of_ne hji] using h.follows j
    · by_cases hji : j = i
      · subst hji
        simp [Thread.drawn] at hj
      · simp only [Function.update_of_ne hji] at hj
        obtain ⟨h1, h2, h3⟩ := h.unspent j n hj
        refine ⟨h1, h2, fun hv => ?_⟩
        rcases hvals n hv with hv | hv
        · exact h3 hv
        · exact h.apart i j n (Ne.symm hji) (hdrawn n hv) hj
    · by_cases hji : j = i
      · subst hji
        simp [Thread.drawn] at hj
      · simp only [Function.update_of_ne hji] at hj
        by_cases hki : k = i
        · subst hki
          simp [Thread.drawn]
        · simp only [Function.update_of_ne hki]
          exact h.apart j k n hjk hj
    · rcases hvals n hn with hv | hv
      · exact h.spent n hv
      · obtain ⟨h1, h2, -⟩ := h.unspent i n (hdrawn n hv)
        exact ⟨h1, h2⟩
    · rcases List.mem_append.mp hx with hx | hx
      · exact h.fresh x hx n hn
      · obtain rfl := List.mem_singleton.mp hx
        obtain ⟨-, h2, h3⟩ := h.unspent i n (hdrawn n hn)
        exact ⟨h2, h3⟩
  | @fail i c ticks e log held hi =>
    exact h.update (fun _ hn => hn) trivial fun n hn => nomatch hn
  | @drop i c ticks p log held hi =>
    exact h.update (fun _ hn => hn) trivial fun n hn => nomatch hn

/-- **Each value is drawn by one attempt and gets into the state once**, in every reachable system. -/
theorem Steps.owned {s₀ : σ} {S S' : Sys σ τ υ ω ρ δ ε α κ} (hinv : Inv code ok s₀ S)
    (h : Owned code drawn used vals w₀ S) (hst : Steps code ok S S') : Owned code drawn used vals w₀ S' := by
  induction hst with
  | refl => exact h
  | tail hsteps hst ih => exact hst.owned hdraws hprobed hspend (Steps.inv code ok hprobed hinv hsteps) ih

end

end Txn
