/-
# Schedules

An interleaving written down, move by move, and the system that follows it:
`Sys.schedule` computes what `Step` relates, for attempts below a bound. So
that a system is reachable can be evaluated (`schedule_steps`).

`Prog.exec` runs one program in one piece, with what the world offers it, and
`serially` a list of calls one after another.

Key definitions: `Move`, `Sys.move`, `Sys.schedule`, `attempt`, `Prog.exec`,
`serially`.
Key theorems: `move_step`, `schedule_steps`, `starts_attempt`, `exec_bind_ok`,
`Chain.serially`.
-/
import Portfolio.Txn.System

namespace Txn

/-- What an attempt may do next. -/
inductive Move (τ κ : Type)
  | start (c : κ)
  | exec (t : τ)
  | commit
  | fail
  | drop

/-- The moves of an attempt that runs its statements with these ticks and commits. -/
def attempt {τ κ : Type} (i : ℕ) (c : κ) (ts : List τ) : List (ℕ × Move τ κ) :=
  (i, .start c) :: (ts.map fun t => (i, .exec t)) ++ [(i, .commit)]

section
variable {σ τ υ ω ρ δ ε α β κ : Type} [Store σ ω ρ] [DecidableEq ρ]
  (code : κ → Prog (Stmt σ τ υ ω ρ δ) δ ε α)

/-- The system after a move of attempt `i`, if it may make it; `n` bounds the attempts. -/
def Sys.move (n : ℕ) (S : Sys σ τ υ ω ρ δ ε α κ) (i : ℕ) : Move τ κ → Option (Sys σ τ υ ω ρ δ ε α κ)
  | .start c => match S.threads i with
    | .idle => some { S with threads := Function.update S.threads i (.active c [] (code c) [] []) }
    | _ => none
  | .exec t => match S.threads i with
    | .active c ticks (.call st k) log held => match st.offer S.world t with
      | some w =>
        if ∀ r ∈ st.locks t (applyAll log S.db), ∀ j ∈ List.range n, j ≠ i → r ∉ (S.threads j).held then
          some { S with
            world := w
            threads := Function.update S.threads i
              (.active c (ticks ++ [t]) (k (st.run t (applyAll log S.db)).1)
                (log ++ (st.run t (applyAll log S.db)).2) (held ++ st.locks t (applyAll log S.db))) }
        else none
      | none => none
    | _ => none
  | .commit => match S.threads i with
    | .active c ticks (.ret a) log _ => some { S with
        db := applyAll log S.db
        threads := Function.update S.threads i (.committed c a)
        commits := S.commits ++ [⟨i, c, ticks, S.db, applyAll log S.db, a⟩] }
    | _ => none
  | .fail => match S.threads i with
    | .active c _ (.throw e) _ _ => some { S with threads := Function.update S.threads i (.failed c e) }
    | _ => none
  | .drop => match S.threads i with
    | .active c _ _ _ _ => some { S with threads := Function.update S.threads i (.dropped c) }
    | _ => none

/-- The system after a list of moves. -/
def Sys.schedule (n : ℕ) : List (ℕ × Move τ κ) → Sys σ τ υ ω ρ δ ε α κ → Option (Sys σ τ υ ω ρ δ ε α κ)
  | [], S => some S
  | (i, m) :: ms, S => (S.move code n i m).bind (Sys.schedule n ms)

variable {code} {ok : κ → Prop}

/-- The attempts from `n` on have not begun. -/
def Sys.Below (n : ℕ) (S : Sys σ τ υ ω ρ δ ε α κ) : Prop := ∀ j, n ≤ j → S.threads j = .idle

omit [Store σ ω ρ] [DecidableEq ρ] in
theorem Sys.Below.update {n i : ℕ} {S : Sys σ τ υ ω ρ δ ε α κ} (h : S.Below n) (hi : i < n)
    (th : Thread σ τ υ ω ρ δ ε α κ) (j : ℕ) (hj : n ≤ j) : Function.update S.threads i th j = .idle := by
  rw [Function.update_of_ne (by omega)]
  exact h j hj

/-- A move is a step. -/
theorem move_step {n i : ℕ} {m : Move τ κ} {S S' : Sys σ τ υ ω ρ δ ε α κ} (hb : S.Below n) (hi : i < n)
    (hok : ∀ c, m = .start c → ok c) (h : S.move code n i m = some S') :
    Step code ok S S' ∧ S'.Below n := by
  cases m with
  | start c =>
    cases hth : S.threads i <;> simp only [Sys.move, hth, reduceCtorEq, Option.some.injEq] at h
    subst h
    exact ⟨.start hth (hok c rfl), hb.update hi _⟩
  | exec t =>
    cases hth : S.threads i <;> simp only [Sys.move, hth, reduceCtorEq] at h
    rename_i c ticks p log held
    cases p with
    | ret | throw => simp at h
    | call st k =>
      simp only at h
      split at h
      · rename_i w hw
        rw [Option.ite_none_right_eq_some] at h
        obtain ⟨hf, h⟩ := h
        obtain rfl := Option.some.inj h
        refine ⟨.exec hth hw fun r hr j hj => ?_, hb.update hi _⟩
        by_cases hjn : j < n
        · exact hf r hr j (List.mem_range.mpr hjn) hj
        · rw [hb j (by omega)]
          exact List.not_mem_nil
      · cases h
  | commit =>
    cases hth : S.threads i <;> simp only [Sys.move, hth, reduceCtorEq] at h
    rename_i c ticks p log held
    cases p with
    | ret a =>
      obtain rfl := Option.some.inj h
      exact ⟨.commit hth, hb.update hi _⟩
    | throw | call => simp at h
  | fail =>
    cases hth : S.threads i <;> simp only [Sys.move, hth, reduceCtorEq] at h
    rename_i c ticks p log held
    cases p with
    | throw e =>
      obtain rfl := Option.some.inj h
      exact ⟨.fail hth, hb.update hi _⟩
    | ret | call => simp at h
  | drop =>
    cases hth : S.threads i <;> simp only [Sys.move, hth, reduceCtorEq, Option.some.injEq] at h
    subst h
    exact ⟨.drop hth, hb.update hi _⟩

/-- **A schedule is a run of the system.** -/
theorem schedule_steps {n : ℕ} : ∀ {ms : List (ℕ × Move τ κ)} {S S' : Sys σ τ υ ω ρ δ ε α κ}, S.Below n →
    (∀ x ∈ ms, x.1 < n) → (∀ x ∈ ms, ∀ c, x.2 = .start c → ok c) → S.schedule code n ms = some S' →
    Steps code ok S S' ∧ S'.Below n
  | [], S, S', hb, _, _, h => by
    obtain rfl := Option.some.inj h
    exact ⟨.refl, hb⟩
  | (i, m) :: ms, S, S', hb, hn, hok, h => by
    obtain ⟨S₁, h1, h2⟩ := Option.bind_eq_some_iff.mp h
    obtain ⟨hst, hb'⟩ := move_step hb (hn (i, m) List.mem_cons_self) (hok (i, m) List.mem_cons_self) h1
    obtain ⟨hsts, hb''⟩ := schedule_steps hb' (fun x hx => hn x (List.mem_cons_of_mem _ hx))
      (fun x hx => hok x (List.mem_cons_of_mem _ hx)) h2
    exact ⟨.head hst hsts, hb''⟩

end

/-! ### The calls of a schedule -/

section
variable {τ κ : Type} {P : κ → Prop} {xs ys : List (ℕ × Move τ κ)}

theorem starts_nil : ∀ x ∈ ([] : List (ℕ × Move τ κ)), ∀ c, x.2 = .start c → P c := nofun

theorem starts_append (hxs : ∀ x ∈ xs, ∀ c, x.2 = .start c → P c) (hys : ∀ x ∈ ys, ∀ c, x.2 = .start c → P c) :
    ∀ x ∈ xs ++ ys, ∀ c, x.2 = .start c → P c := List.forall_mem_append.mpr ⟨hxs, hys⟩

/-- An attempt starts its own call. -/
theorem starts_attempt {i : ℕ} {c : κ} {ts : List τ} (hc : P c) :
    ∀ x ∈ attempt i c ts, ∀ c', x.2 = .start c' → P c' := by
  intro x hx c' h
  simp only [attempt, List.cons_append, List.mem_cons, List.mem_append, List.mem_map, List.not_mem_nil, or_false] at hx
  rcases hx with rfl | ⟨t, -, rfl⟩ | rfl
  · exact Move.start.inj h ▸ hc
  · cases h
  · cases h

end

/-! ### One after another -/

section
variable {σ τ υ ω ρ δ ε α β κ : Type} [Store σ ω ρ]

/-- A program in one piece with the ticks `ts`, each on offer in its turn. -/
def Prog.exec : Prog (Stmt σ τ υ ω ρ δ) δ ε α → List τ → σ → υ → Option (Except ε α × σ × υ)
  | .ret a, [], s, w => some (.ok a, s, w)
  | .throw e, [], s, w => some (.error e, s, w)
  | .call st k, t :: ts, s, w =>
    (st.offer w t).bind ((k (st.run t s).1).exec ts (applyAll (st.run t s).2 s))
  | _, _, _, _ => none

theorem exec_call {st : Stmt σ τ υ ω ρ δ β} {k : Except δ β → Prog (Stmt σ τ υ ω ρ δ) δ ε α} {ts : List τ} {s : σ}
    {w : υ} {r : Except ε α × σ × υ} (h : (Prog.call st k).exec ts s w = some r) :
    ∃ t us w', ts = t :: us ∧ st.offer w t = some w' ∧
      (k (st.run t s).1).exec us (applyAll (st.run t s).2 s) w' = some r := by
  cases ts with
  | nil => cases h
  | cons t us =>
    obtain ⟨w', hw, h'⟩ := Option.bind_eq_some_iff.mp h
    exact ⟨t, us, w', rfl, hw, h'⟩

/-- What a program does in one piece does not depend on how its ticks came. -/
theorem exec_run : ∀ {p : Prog (Stmt σ τ υ ω ρ δ) δ ε α} {ts : List τ} {s s' : σ} {w w' : υ} {r : Except ε α},
    p.exec ts s w = some (r, s', w') → ∀ rest, p.run (thenTicks ts rest) s = (r, rest, s')
  | .ret a, [], _, _, _, _, _, h, _ => by
    obtain ⟨rfl, rfl, -⟩ := Prod.mk.inj (Option.some.inj h)
    rfl
  | .throw e, [], _, _, _, _, _, h, _ => by
    obtain ⟨rfl, rfl, -⟩ := Prod.mk.inj (Option.some.inj h)
    rfl
  | .call st k, t :: ts, s, s', w, w', r, h, rest => by
    obtain ⟨w₁, -, h'⟩ := Option.bind_eq_some_iff.mp h
    rw [Prog.run]
    exact exec_run h' rest

/-- A sequence that ends well went through its first half, in its world too. -/
theorem exec_bind_ok : ∀ {p : Prog (Stmt σ τ υ ω ρ δ) δ ε α} {f : α → Prog (Stmt σ τ υ ω ρ δ) δ ε β} {ts : List τ}
    {s s' : σ} {w w' : υ} {b : β}, (p >>= f).exec ts s w = some (.ok b, s', w') →
    ∃ a ts₁ ts₂ s₁ w₁, ts = ts₁ ++ ts₂ ∧ p.exec ts₁ s w = some (.ok a, s₁, w₁) ∧
      (f a).exec ts₂ s₁ w₁ = some (.ok b, s', w')
  | .ret a, _, ts, s, _, w, _, _, h => ⟨a, [], ts, s, w, rfl, rfl, h⟩
  | .throw _, _, [], _, _, _, _, _, h => by cases (Prod.mk.inj (Option.some.inj h)).1
  | .throw _, _, _ :: _, _, _, _, _, _, h => by cases h
  | .call st k, f, ts, s, s', w, w', b, h => by
    obtain ⟨t, us, w₁, rfl, hw, h'⟩ := exec_call h
    obtain ⟨a, us₁, us₂, s₂, w₂, rfl, h1, h2⟩ := exec_bind_ok h'
    refine ⟨a, t :: us₁, us₂, s₂, w₂, rfl, ?_, h2⟩
    rw [Prog.exec, hw]
    exact h1

/-- The program draws nothing from the world. -/
def Prog.Still : Prog (Stmt σ τ υ ω ρ δ) δ ε α → Prop
  | .call st k => ∀ t s w, st.offer w t = some w ∧ (k (st.run t s).1).Still
  | _ => True

omit [Store σ ω ρ] in
theorem Prog.Still.bind : ∀ {p : Prog (Stmt σ τ υ ω ρ δ) δ ε α} {f : α → Prog (Stmt σ τ υ ω ρ δ) δ ε β}, p.Still →
    (∀ a, (f a).Still) → (p >>= f).Still
  | .ret a, _, _, hf => hf a
  | .throw _, _, _, _ => trivial
  | .call _ _, _, h, hf => fun t s w => ⟨(h t s w).1, Still.bind (h t s w).2 hf⟩

theorem Prog.Still.world : ∀ {p : Prog (Stmt σ τ υ ω ρ δ) δ ε α} {ts : List τ} {s s' : σ} {w w' : υ}
    {r : Except ε α}, p.Still → p.exec ts s w = some (r, s', w') → w' = w
  | .ret _, [], _, _, _, _, _, _, h => (Prod.mk.inj (Prod.mk.inj (Option.some.inj h)).2).2.symm
  | .throw _, [], _, _, _, _, _, _, h => (Prod.mk.inj (Prod.mk.inj (Option.some.inj h)).2).2.symm
  | .call st k, t :: ts, s, s', w, w', r, hp, h => by
    rw [Prog.exec, (hp t s w).1] at h
    exact (hp t s w).2.world h

variable (code : κ → Prog (Stmt σ τ υ ω ρ δ) δ ε α)

/-- The calls run to their commits one after another, each in one piece, in a world that goes on
from one to the next. -/
inductive Serial : σ → υ → List κ → σ → υ → Prop
  | nil (s : σ) (w : υ) : Serial s w [] s w
  | cons {s s₁ s₂ : σ} {w w₁ w₂ : υ} {c : κ} {cs : List κ} {ts : List τ} {a : α}
      (h : (code c).exec ts s w = some (.ok a, s₁, w₁)) (h' : Serial s₁ w₁ cs s₂ w₂) : Serial s w (c :: cs) s₂ w₂

/-- The calls with these ticks in one piece one after another: what each returns, and the state
after all of them. -/
def serially : List (κ × (ℕ → τ)) → σ → List (Except ε α) × σ
  | [], s => ([], s)
  | (c, t) :: cs, s =>
    ((atomic (code c) t s).1 :: (serially cs (atomic (code c) t s).2).1,
      (serially cs (atomic (code c) t s).2).2)

theorem serially_append (xs ys : List (κ × (ℕ → τ))) (s : σ) :
    serially code (xs ++ ys) s = ((serially code xs s).1 ++ (serially code ys (serially code xs s).2).1,
      (serially code ys (serially code xs s).2).2) := by
  induction xs generalizing s with
  | nil => rfl
  | cons x xs ih => simp only [List.cons_append, serially, ih]

/-- The commits of a chain are what its calls return in one piece, in its order, with its ticks. -/
theorem Chain.serially {s s' : σ} {cs : List (Commit σ τ α κ)} (h : Chain code s cs s') (rest : ℕ → τ) :
    serially code (cs.map fun x => (x.call, thenTicks x.ticks rest)) s =
      (cs.map fun x => .ok x.result, s') := by
  induction h with
  | nil => rfl
  | @snoc s' cs x h hb hx ih =>
    have hatomic : atomic (code x.call) (thenTicks x.ticks rest) s' = (.ok x.result, x.after) :=
      atomic_ok.mpr ⟨rest, hx rest⟩
    rw [List.map_append, List.map_append, serially_append, ih]
    simp only [List.map_cons, List.map_nil, Txn.serially, hatomic]

end

end Txn
