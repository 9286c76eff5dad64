/-
# Attempts end

A program that issues at most `n` statements, whatever is answered, is `Within`
`n`; an attempt of it takes one step for each of them and one to end. So a run
in which no attempt begins is no longer than what the open attempts have left
(`settling_bounded`).

An attempt that is neither at its end nor able to run its statement waits for
another one that holds a lock, and is open. Among finitely many attempts that
never wait in a circle one does not wait (`exists_advance`). Both together:
without new attempts, all that are open end (`settles`).

A step of the system in which no call is admissible begins no attempt. What the
world still has to offer (a sequence comes to its end) is counted: `Supplied`.

Key definitions: `Prog.Within`, `Thread.left`, `Metered`, `Thread.Of`, `Supplied`.
Key theorems: `Within.bind`, `Step.metered`, `settling_bounded`,
`exists_advance`, `settles`.
-/
import Mathlib.Algebra.Order.BigOperators.Group.Finset
import Mathlib.Data.Fintype.Card
import Mathlib.Data.Fintype.EquivFin
import Portfolio.Txn.Order
import Portfolio.Txn.Calls
import Portfolio.Txn.Schedule

namespace Txn

/-! ### Programs of bounded length -/

namespace Prog

variable {S : Type → Type} {δ ε α β : Type}

/-- The program issues at most so many statements, whatever is answered. -/
def Within : Prog S δ ε α → ℕ → Prop
  | .ret _, _ => True
  | .throw _, _ => True
  | .call _ _, 0 => False
  | .call _ k, n + 1 => ∀ r, (k r).Within n

@[simp] theorem within_ret (a : α) (n : ℕ) : (Prog.ret a : Prog S δ ε α).Within n := trivial
@[simp] theorem within_throw (e : ε) (n : ℕ) : (Prog.throw e : Prog S δ ε α).Within n := trivial

theorem Within.mono : ∀ {p : Prog S δ ε α} {m n : ℕ}, p.Within m → m ≤ n → p.Within n
  | .ret _, _, _, _, _ => trivial
  | .throw _, _, _, _, _ => trivial
  | .call _ _, 0, _, h, _ => h.elim
  | .call _ _, m + 1, 0, _, hmn => (Nat.not_succ_le_zero m hmn).elim
  | .call _ _, _ + 1, _ + 1, h, hmn => fun r => (h r).mono (Nat.le_of_succ_le_succ hmn)

theorem Within.bind {n : ℕ} : ∀ {p : Prog S δ ε α} {m : ℕ} {f : α → Prog S δ ε β}, p.Within m →
    (∀ a, (f a).Within n) → (p >>= f).Within (m + n)
  | .ret a, m, f, _, hf => (hf a).mono (Nat.le_add_left n m)
  | .throw _, _, _, _, _ => trivial
  | .call _ _, 0, _, h, _ => h.elim
  | .call _ k, m + 1, f, h, hf => by
    rw [Nat.succ_add]
    exact fun r => Within.bind (h r) hf

/-- A statement and what follows its answer. -/
theorem within_perform_bind {s : S α} {err : δ → ε} {f : α → Prog S δ ε β} {n : ℕ} (hf : ∀ a, (f a).Within n) :
    (perform s err >>= f).Within (n + 1) := by
  intro r
  cases r with
  | ok a => exact hf a
  | error d => trivial

theorem within_attempt_bind {s : S α} {f : Except δ α → Prog S δ ε β} {n : ℕ} (hf : ∀ r, (f r).Within n) :
    (attempt s >>= f).Within (n + 1) := hf

end Prog

section
variable {σ τ υ ω ρ δ ε α β κ : Type}

/-! ### What is left of an attempt -/

/-- The attempt is under way. -/
def Thread.Open : Thread σ τ υ ω ρ δ ε α κ → Prop
  | .active _ _ _ _ _ => True
  | _ => False

/-- The attempt is of the call, and not dropped. -/
def Thread.Of (c : κ) : Thread σ τ υ ω ρ δ ε α κ → Prop
  | .active c' _ _ _ _ => c' = c
  | .committed c' _ => c' = c
  | .failed c' _ => c' = c
  | _ => False

/-- The steps an attempt may still take: a statement each of those its call may still issue, and its end. -/
def Thread.left (bound : κ → ℕ) : Thread σ τ υ ω ρ δ ε α κ → ℕ
  | .active c ticks _ _ _ => bound c - ticks.length + 1
  | _ => 0

/-- The steps that the first `n` attempts may still take. -/
def Sys.left (bound : κ → ℕ) (n : ℕ) (S : Sys σ τ υ ω ρ δ ε α κ) : ℕ :=
  ∑ i ∈ Finset.range n, (S.threads i).left bound

/-- An open attempt has issued statements within the bound of its call, and what is left of its program
is within what is left of the bound. -/
def Metered (bound : κ → ℕ) (th : Thread σ τ υ ω ρ δ ε α κ) : Prop :=
  ∀ c ticks p log held, th = .active c ticks p log held →
    ticks.length ≤ bound c ∧ p.Within (bound c - ticks.length)

/-- What is left of the attempt issues statements that are `P` only. -/
def Issues (P : ∀ β, Stmt σ τ υ ω ρ δ β → Prop) (th : Thread σ τ υ ω ρ δ ε α κ) : Prop :=
  ∀ c ticks p log held, th = .active c ticks p log held → p.Calls P

theorem metered_of_closed {bound : κ → ℕ} {th : Thread σ τ υ ω ρ δ ε α κ} (h : ¬ th.Open) : Metered bound th := by
  rintro c ticks p log held rfl
  exact (h trivial).elim

/-- An attempt that holds a lock is open. -/
theorem open_of_held {th : Thread σ τ υ ω ρ δ ε α κ} {r : ρ} (h : r ∈ th.held) : th.Open := by
  cases th with
  | active => trivial
  | idle | committed | failed | dropped => exact (List.not_mem_nil h).elim

/-- An attempt of a call that is not open has committed or failed. -/
theorem Thread.Of.ended {c : κ} {th : Thread σ τ υ ω ρ δ ε α κ} (h : th.Of c) (hclosed : ¬ th.Open) :
    (∃ a, th = .committed c a) ∨ ∃ e, th = .failed c e := by
  cases th with
  | active => exact (hclosed trivial).elim
  | committed c' a =>
    obtain rfl : c' = c := h
    exact Or.inl ⟨a, rfl⟩
  | failed c' e =>
    obtain rfl : c' = c := h
    exact Or.inr ⟨e, rfl⟩
  | idle | dropped => exact h.elim

/-- A call may issue one statement more than it has, where it is at one. -/
theorem Metered.call {bound : κ → ℕ} {c : κ} {ticks : List τ} {st : Stmt σ τ υ ω ρ δ β}
    {k : Except δ β → Prog (Stmt σ τ υ ω ρ δ) δ ε α} {log : List ω} {held : List ρ}
    (h : Metered bound (.active c ticks (.call st k) log held)) : ticks.length + 1 ≤ bound c ∧
      ∀ r, (k r).Within (bound c - (ticks.length + 1)) := by
  obtain ⟨hle, hwithin⟩ := h c ticks _ log held rfl
  cases hn : bound c - ticks.length with
  | zero =>
    rw [hn] at hwithin
    exact hwithin.elim
  | succ n =>
    rw [hn] at hwithin
    have hn' : bound c - (ticks.length + 1) = n := by omega
    exact ⟨by omega, fun r => hn' ▸ hwithin r⟩

end

section
variable {σ τ υ ω ρ δ ε α β κ : Type} [Store σ ω ρ] {code : κ → Prog (Stmt σ τ υ ω ρ δ) δ ε α} {ok : κ → Prop}
  {bound : κ → ℕ} {n : ℕ} {S S' : Sys σ τ υ ω ρ δ ε α κ}

/-! ### What a run has left -/

/-- What holds of every attempt that is not open or has just begun, and what a statement keeps, holds of every
attempt. -/
theorem Step.attempts {Q : Thread σ τ υ ω ρ δ ε α κ → Prop} (hclosed : ∀ th, ¬ th.Open → Q th)
    (hstart : ∀ c, ok c → Q (.active c [] (code c) [] []))
    (hexec : ∀ c ticks (β : Type) (st : Stmt σ τ υ ω ρ δ β) k log held t s, Q (.active c ticks (.call st k) log held) →
      Q (.active c (ticks ++ [t]) (k (st.run t s).1) (log ++ (st.run t s).2) (held ++ st.locks t s)))
    (h : ∀ i, Q (S.threads i)) (hst : Step code ok S S') (i : ℕ) : Q (S'.threads i) := by
  have hother : ∀ (i : ℕ) (th : Thread σ τ υ ω ρ δ ε α κ), Q th → ∀ j, Q (Function.update S.threads i th j) := by
    intro i th hth j
    by_cases hj : j = i
    · rw [hj, Function.update_self]
      exact hth
    · rw [Function.update_of_ne hj]
      exact h j
  cases hst with
  | start hi hc => exact hother _ _ (hstart _ hc) _
  | @exec i c ticks β st k log held t w hi hw hf => exact hother _ _ (hexec _ _ _ _ _ _ _ _ _ (hi ▸ h i)) _
  | commit hi => exact hother _ _ (hclosed _ id) _
  | fail hi => exact hother _ _ (hclosed _ id) _
  | drop hi => exact hother _ _ (hclosed _ id) _

/-- Every attempt is metered, if each call is within its bound. -/
theorem Step.metered (hcode : ∀ c, ok c → (code c).Within (bound c)) (h : ∀ i, Metered bound (S.threads i))
    (hst : Step code ok S S') : ∀ i, Metered bound (S'.threads i) := by
  refine hst.attempts (fun th => metered_of_closed) (fun c hc c' ticks p log held he => ?_)
    (fun c ticks β st k log held t s hcall c' ticks' p log' held' he => ?_) h
  · obtain ⟨rfl, rfl, rfl, -⟩ := Thread.active.inj he
    exact ⟨Nat.zero_le _, hcode c hc⟩
  · obtain ⟨rfl, rfl, rfl, -⟩ := Thread.active.inj he
    obtain ⟨hle, hwithin⟩ := hcall.call
    rw [List.length_append, List.length_singleton]
    exact ⟨hle, hwithin _⟩

theorem Steps.metered {s : σ} {w : υ} (hcode : ∀ c, ok c → (code c).Within (bound c))
    (hst : Steps code ok (Sys.initial s w) S) : ∀ i, Metered bound (S.threads i) := by
  induction hst with
  | refl => exact fun i => metered_of_closed id
  | tail _ hst ih => exact hst.metered hcode ih

/-- Only finitely many attempts have begun. -/
theorem Steps.below {s : σ} {w : υ} (hst : Steps code ok (Sys.initial s w) S) : ∃ n, S.Below n := by
  induction hst with
  | refl => exact ⟨0, fun _ _ => rfl⟩
  | @tail S S' _ hst ih =>
    obtain ⟨n, hn⟩ := ih
    have hother : ∀ (i : ℕ) (th : Thread σ τ υ ω ρ δ ε α κ) j, max n (i + 1) ≤ j →
        Function.update S.threads i th j = .idle := fun i th j hj => by
      rw [Function.update_of_ne (by omega)]
      exact hn j (by omega)
    cases hst with
    | @start i | @exec i | @commit i | @fail i | @drop i => exact ⟨max n (i + 1), hother i _⟩

/-- A step that begins no attempt is one of the open attempts', which has less left after it. -/
theorem Step.settling (h : ∀ i, Metered bound (S.threads i)) (hst : Step code (fun _ => False) S S') :
    ∃ i th, S'.threads = Function.update S.threads i th ∧ (S.threads i).Open ∧
      th.left bound < (S.threads i).left bound := by
  cases hst with
  | start _ hc => exact hc.elim
  | @exec i c ticks β st k log held t w hi hw hf =>
    have hcall := h i
    rw [hi] at hcall
    refine ⟨i, _, rfl, by rw [hi]; trivial, ?_⟩
    rw [hi, Thread.left, Thread.left, List.length_append, List.length_singleton]
    have := hcall.call.1
    omega
  | @commit i c ticks a log held hi =>
    refine ⟨i, _, rfl, by rw [hi]; trivial, ?_⟩
    rw [hi]
    exact Nat.succ_pos _
  | @fail i c ticks e log held hi =>
    refine ⟨i, _, rfl, by rw [hi]; trivial, ?_⟩
    rw [hi]
    exact Nat.succ_pos _
  | @drop i c ticks p log held hi =>
    refine ⟨i, _, rfl, by rw [hi]; trivial, ?_⟩
    rw [hi]
    exact Nat.succ_pos _

omit [Store σ ω ρ] in
/-- An open attempt is one of the first `n`, if the others have not begun. -/
theorem Sys.Below.lt_of_open (hn : S.Below n) {i : ℕ} (h : (S.threads i).Open) : i < n := by
  by_contra hle
  rw [hn i (by omega)] at h
  exact h

theorem Step.left_lt (hn : S.Below n) (h : ∀ i, Metered bound (S.threads i)) (hst : Step code (fun _ => False) S S') :
    S'.left bound n < S.left bound n ∧ S'.Below n := by
  obtain ⟨i, th, hthreads, hopen, hlt⟩ := hst.settling h
  have hi : i ∈ Finset.range n := Finset.mem_range.mpr (hn.lt_of_open hopen)
  refine ⟨Finset.sum_lt_sum (fun j _ => ?_) ⟨i, hi, ?_⟩, fun j hj => ?_⟩
  · rw [hthreads]
    by_cases hj : j = i
    · rw [hj, Function.update_self]
      exact hlt.le
    · rw [Function.update_of_ne hj]
  · rw [hthreads, Function.update_self]
    exact hlt
  · rw [hthreads]
    exact hn.update (hn.lt_of_open hopen) th j hj

/-- A step that begins no attempt is a step whatever may begin. -/
theorem Step.of_settling (hst : Step code (fun _ => False) S S') : Step code ok S S' := by
  cases hst with
  | start _ hc => exact hc.elim
  | exec hi hw hf => exact .exec hi hw hf
  | commit hi => exact .commit hi
  | fail hi => exact .fail hi
  | drop hi => exact .drop hi

theorem Steps.of_settling (hst : Steps code (fun _ => False) S S') : Steps code ok S S' := by
  induction hst with
  | refl => exact .refl
  | tail _ hst ih => exact ih.tail hst.of_settling

/-- **A run that begins no attempt is bounded** by what the open attempts have left. -/
theorem settling_bounded (run : ℕ → Sys σ τ υ ω ρ δ ε α κ) (hn : (run 0).Below n)
    (h : ∀ i, Metered bound ((run 0).threads i)) : ∀ k, (∀ j < k, Step code (fun _ => False) (run j) (run (j + 1))) →
    k + (run k).left bound n ≤ (run 0).left bound n ∧ (run k).Below n ∧ ∀ i, Metered bound ((run k).threads i)
  | 0, _ => ⟨by omega, hn, h⟩
  | k + 1, hrun => by
    obtain ⟨hle, hn', h'⟩ := settling_bounded run hn h k fun j hj => hrun j (by omega)
    have hst := hrun k (by omega)
    obtain ⟨hlt, hn''⟩ := hst.left_lt hn' h'
    exact ⟨by omega, hn'', hst.metered (fun _ hc => hc.elim) h'⟩

/-! ### Somebody can go on -/

/-- The world can answer the statement with a tick that is `K` as long as it has draws left (`G` counts them), with one
less after it. -/
def Supplied (K : τ → Prop) (G : ℕ → υ → Prop) (st : Stmt σ τ υ ω ρ δ β) : Prop :=
  ∀ m w, G (m + 1) w → ∃ t w', K t ∧ st.offer w t = some w' ∧ G m w'

omit [Store σ ω ρ] in
/-- A step of one attempt that leaves it of its call leaves every attempt so. -/
theorem of_update {i : ℕ} {th : Thread σ τ υ ω ρ δ ε α κ} (h : ∀ c, (S.threads i).Of c → th.Of c) (j : ℕ) (c : κ)
    (hj : (S.threads j).Of c) : (Function.update S.threads i th j).Of c := by
  by_cases hji : j = i
  · rw [hji, Function.update_self]
    exact h c (hji ▸ hj)
  · rw [Function.update_of_ne hji]
    exact hj

theorem Step.issues {P : ∀ β, Stmt σ τ υ ω ρ δ β → Prop} (hcode : ∀ c, ok c → (code c).Calls P)
    (h : ∀ i, Issues P (S.threads i)) (hst : Step code ok S S') : ∀ i, Issues P (S'.threads i) := by
  refine hst.attempts (fun th hth c ticks p log held he => ?_) (fun c hc c' ticks p log held he => ?_)
    (fun c ticks β st k log held t s hcall c' ticks' p log' held' he => ?_) h
  · rw [he] at hth
    exact (hth trivial).elim
  · obtain ⟨-, -, rfl, -⟩ := Thread.active.inj he
    exact hcode c hc
  · obtain ⟨-, -, rfl, -⟩ := Thread.active.inj he
    exact (hcall c ticks _ log held rfl).2 _

/-- What is true of all statements of every call is true of those that an attempt may still issue. -/
theorem Steps.issues {P : ∀ β, Stmt σ τ υ ω ρ δ β → Prop} {s : σ} {w : υ} (hcode : ∀ c, ok c → (code c).Calls P)
    (hst : Steps code ok (Sys.initial s w) S) : ∀ i, Issues P (S.threads i) := by
  induction hst with
  | refl => exact nofun
  | tail _ hst ih => exact hst.issues hcode ih

section
variable {root : ρ → ρ} {rank : ρ → ℕ} {K : τ → Prop} {G : ℕ → υ → Prop} {s : σ} {w : υ} [Nonempty τ]
  (hwithin : ∀ c, ok c → (code c).Within (bound c)) (hsupplied : ∀ c, ok c → (code c).Calls fun _ st => Supplied K G st)
  (hclimbs : ∀ c, ok c → (code c).Climbs root rank [] fun _ _ => True) (hprobed : ∀ c, ok c → (code c).Probed)
  (hG : ∀ m w, G (m + 1) w → G m w)

include hsupplied hclimbs hprobed hG

/-- **Where an attempt is open, one can go on**: it commits, fails, or runs its statement. Of those that are open
one waits for nobody, for nobody waits in a circle. -/
theorem exists_advance (h : Steps code ok (Sys.initial s w) S) {m : ℕ} (hm : G (m + 1) S.world)
    (hopen : ∃ i, (S.threads i).Open) : ∃ S', Step code (fun _ => False) S S' ∧ G m S'.world ∧
      ∀ i c, (S.threads i).Of c → (S'.threads i).Of c := by
  classical
  have hexcl := (Steps.inv code ok hprobed (inv_initial code ok s w) h).exclusive
  obtain ⟨n, hn⟩ := h.below
  -- a tick for the statement each attempt is at
  have htick : ∀ i, ∃ t, ∀ c ticks (β : Type) (st : Stmt σ τ υ ω ρ δ β) k log held,
      S.threads i = .active c ticks (.call st k) log held → ∃ w', st.offer S.world t = some w' ∧ G m w' := by
    intro i
    by_cases hi : ∃ c ticks, ∃ (β : Type) (st : Stmt σ τ υ ω ρ δ β), ∃ k log held,
        S.threads i = .active c ticks (.call st k) log held
    · obtain ⟨c, ticks, β, st, k, log, held, hi⟩ := hi
      obtain ⟨t, w', -, hoffer, hw'⟩ := (h.issues hsupplied i c ticks _ log held hi).1 m S.world hm
      refine ⟨t, fun c' ticks' β' st' k' log' held' hi' => ?_⟩
      obtain ⟨-, -, hcall, -⟩ := Thread.active.inj (hi.symm.trans hi')
      cases hcall
      exact ⟨w', hoffer, hw'⟩
    · exact ⟨Classical.arbitrary τ, fun c ticks β st k log held hi' => (hi ⟨c, ticks, β, st, k, log, held, hi'⟩).elim⟩
  choose tick htick using htick
  have htaking : Taking S tick fun _ => [] :=
    ⟨fun _ _ hr => (List.not_mem_nil hr).elim, fun _ _ _ _ hr => (List.not_mem_nil hr).elim⟩
  have hacyclic := waits_acyclic (h.climbing hclimbs) hexcl htaking
  -- an open attempt that waits for none of the open ones
  have hwf : WellFounded fun a b : Fin n => Relation.TransGen (Waits S tick fun _ => []) b a := by
    have htrans : IsTrans (Fin n) fun a b => Relation.TransGen (Waits S tick fun _ => []) b a :=
      ⟨fun _ _ _ hab hbc => hbc.trans hab⟩
    have hirrefl : Std.Irrefl fun a b : Fin n => Relation.TransGen (Waits S tick fun _ => []) b a :=
      ⟨fun a => hacyclic a⟩
    exact Finite.wellFounded_of_trans_of_irrefl _
  obtain ⟨i₀, hi₀⟩ := hopen
  obtain ⟨⟨i, hin⟩, hi, hmin⟩ := hwf.has_min {i : Fin n | (S.threads i).Open} ⟨⟨i₀, hn.lt_of_open hi₀⟩, hi₀⟩
  have hfirst : ∀ j, (S.threads j).Open → ¬ Waits S tick (fun _ => []) i j := fun j hj hwaits =>
    hmin ⟨j, hn.lt_of_open hj⟩ hj (.single hwaits)
  cases hth : S.threads i with
  | idle | committed | failed | dropped =>
    change (S.threads i).Open at hi
    rw [hth] at hi
    exact hi.elim
  | active c ticks p log held =>
    have hof : ∀ {th : Thread σ τ υ ω ρ δ ε α κ}, th.Of c → ∀ c', (S.threads i).Of c' → th.Of c' := by
      intro th hthc c' hc'
      rw [hth] at hc'
      obtain rfl : c = c' := hc'
      exact hthc
    cases p with
    | ret a => exact ⟨_, .commit hth, hG m _ hm, of_update (hof rfl)⟩
    | throw e => exact ⟨_, .fail hth, hG m _ hm, of_update (hof rfl)⟩
    | @call β st k =>
      obtain ⟨w', hoffer, hw'⟩ := htick i c ticks β st k log held hth
      refine ⟨_, .exec hth hoffer fun r hr j hj hheld => ?_, hw', of_update (hof rfl)⟩
      refine hfirst j (open_of_held hheld) ⟨r, ?_, hexcl j i hj r hheld, List.not_mem_nil, Or.inl hheld⟩
      rw [hth]
      exact hr

include hwithin

/-- **Without new attempts, all that are open end**, none of them dropped. -/
theorem settles {n : ℕ} : ∀ {m : ℕ} {S : Sys σ τ υ ω ρ δ ε α κ}, Steps code ok (Sys.initial s w) S → S.Below n →
    S.left bound n ≤ m → G m S.world → ∃ S', Steps code (fun _ => False) S S' ∧ (∀ i, ¬ (S'.threads i).Open) ∧
      ∀ i c, (S.threads i).Of c → (S'.threads i).Of c := by
  intro m
  induction m with
  | zero =>
    intro S h hn hle _
    refine ⟨S, .refl, fun i hi => ?_, fun _ _ => id⟩
    have hpos : 0 < S.left bound n := by
      refine Finset.sum_pos' (fun _ _ => Nat.zero_le _) ⟨i, Finset.mem_range.mpr (hn.lt_of_open hi), ?_⟩
      cases hth : S.threads i with
      | active => exact Nat.succ_pos _
      | idle | committed | failed | dropped =>
        rw [hth] at hi
        exact hi.elim
    omega
  | succ m ih =>
    intro S h hn hle hm
    by_cases hopen : ∃ i, (S.threads i).Open
    · obtain ⟨S₁, hst, hm₁, hof₁⟩ := exists_advance hsupplied hclimbs hprobed hG h hm hopen
      obtain ⟨hlt, hn₁⟩ := hst.left_lt hn (h.metered hwithin)
      obtain ⟨S₂, hsts, hclosed, hof₂⟩ := ih (h.tail hst.of_settling) hn₁ (by omega) hm₁
      exact ⟨S₂, .head hst hsts, hclosed, fun i c hc => hof₂ i c (hof₁ i c hc)⟩
    · exact ⟨S, .refl, fun i hi => hopen ⟨i, hi⟩, fun _ _ => id⟩

end

end

end Txn
