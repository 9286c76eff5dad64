/-
# Transactions under READ COMMITTED with row locks, statement by statement

Any number of attempts run programs against one store. A statement of an
attempt sees the committed state with the attempt's own writes over it, and
runs only when nobody else holds what it locks; locks are kept to the end of
the attempt, whose writes become visible at its commit and vanish when it
fails or is dropped. So a blocked statement is one the scheduler does not
pick, and when it does run it reads what is committed then.

`Prog.Guarded` is the discipline that makes this serializable although the
isolation level is not: every statement reads what the attempt has locked, or
the attempt throws. `Prog.Probed` allows one exception, a first read that
locks nothing, provided the next statement locks what it read and finds it
unchanged (a SELECT that finds no row, then the INSERT of it). Under it a
program that reaches its commit would have run the same in one piece on the
state it commits to (`Sound.commit`), so the commits of any interleaving are
a chain of atomic runs in commit order (`Steps.chain`).

Key definitions: `Sys`, `Step`, `Prog.Guarded`, `Prog.Probed`, `Chain`.
Key theorems: `Chain.preserves`, `Chain.around`, `Sound.exec`, `Step.inv`,
`Steps.inv`, `Steps.chain`.
-/
import Portfolio.Txn.Prog
import Mathlib.Logic.Relation
import Mathlib.Data.List.Nodup

namespace Txn

section
variable {σ τ υ ω ρ δ ε α β κ : Type} [Store σ ω ρ]

/-! ### States that agree on what is locked -/

/-- Two states are the same on everything the locks `H` guard. -/
def Agree (H : List ρ) (s s' : σ) : Prop := ∀ r ∈ H, Store.part r s = Store.part r s'

theorem Agree.refl (H : List ρ) (s : σ) : Agree H s s := fun _ _ => rfl

theorem Agree.trans {H : List ρ} {s s' s'' : σ} (h : Agree H s s') (h' : Agree H s' s'') :
    Agree H s s'' := fun r hr => (h r hr).trans (h' r hr)

theorem Agree.mono {H H' : List ρ} {s s' : σ} (h : Agree H' s s') (hs : H ⊆ H') : Agree H s s' :=
  fun r hr => h r (hs hr)

theorem Agree.left {H H' : List ρ} {s s' : σ} (h : Agree (H ++ H') s s') : Agree H s s' :=
  h.mono (List.subset_append_left _ _)

/-- The same writes keep states in agreement. -/
theorem Agree.applyAll {H : List ρ} : ∀ (ws : List ω) {s s' : σ}, Agree H s s' →
    Agree H (applyAll ws s) (applyAll ws s')
  | [], _, _, h => h
  | w :: ws, _, _, h => Agree.applyAll ws fun r hr => Store.part_apply_congr w r _ _ (h r hr)

/-- Writes guarded by none of `H` leave what `H` guards alone. -/
theorem agree_applyAll {H : List ρ} : ∀ (ws : List ω) (s : σ),
    (∀ w ∈ ws, ∀ g ∈ Store.guards σ w, g ∉ H) → Agree H (applyAll ws s) s
  | [], s, _ => Agree.refl H s
  | w :: ws, s, h => by
    have h1 := agree_applyAll ws (Store.apply w s) fun v hv => h v (List.mem_cons_of_mem _ hv)
    refine h1.trans fun r hr => Store.part_apply_of_notMem w r s fun hg => ?_
    exact h w List.mem_cons_self r hg hr

/-! ### The discipline -/

/-- Holding `H`, the program reads only what it has locked and writes only
under the locks that guard it, or throws; it ends with `Q` of its value and
the locks it holds then. -/
def Prog.Guarded : Prog (Stmt σ τ υ ω ρ δ) δ ε α → List ρ → (α → List ρ → Prop) → Prop
  | .ret a, H, Q => Q a H
  | .throw _, _, _ => True
  | .call st k, H, Q => ∀ t s, (∃ e, k (st.run t s).1 = .throw e) ∨
      ((∀ s', Agree (H ++ st.locks t s) s' s → st.run t s' = st.run t s) ∧
        (∀ w ∈ (st.run t s).2, ∀ g ∈ Store.guards σ w, g ∈ H ++ st.locks t s) ∧
        (k (st.run t s).1).Guarded (H ++ st.locks t s) Q)

theorem Prog.Guarded.mono : ∀ {p : Prog (Stmt σ τ υ ω ρ δ) δ ε α} {H : List ρ}
    {Q Q' : α → List ρ → Prop}, p.Guarded H Q → (∀ a K, Q a K → Q' a K) → p.Guarded H Q'
  | .ret _, _, _, _, h, hq => hq _ _ h
  | .throw _, _, _, _, _, _ => trivial
  | .call _ _, _, _, _, h, hq => fun t s =>
    (h t s).imp id fun ⟨h1, h2, h3⟩ => ⟨h1, h2, h3.mono hq⟩

theorem Prog.Guarded.bind : ∀ {p : Prog (Stmt σ τ υ ω ρ δ) δ ε α}
    {f : α → Prog (Stmt σ τ υ ω ρ δ) δ ε β} {H : List ρ} {Q : β → List ρ → Prop},
    p.Guarded H (fun a K => (f a).Guarded K Q) → (p >>= f).Guarded H Q
  | .ret _, _, _, _, h => h
  | .throw _, _, _, _, _ => trivial
  | .call st k, f, _, _, h => fun t s => by
    rcases h t s with ⟨e, he⟩ | ⟨h1, h2, h3⟩
    · exact Or.inl ⟨e, congrArg (Prog.bind · f) he⟩
    · exact Or.inr ⟨h1, h2, Guarded.bind h3⟩

/-- The program repeats, under lock, what `st₀` answered without one: its
first statement throws, or locks what makes `st₀` answer `o` again. -/
def Prog.Confirms (st₀ : Stmt σ τ υ ω ρ δ β) (t₀ : τ) (o : Except δ β × List ω) :
    Prog (Stmt σ τ υ ω ρ δ) δ ε α → Prop
  | .call st k => ∀ t s, (∃ e, k (st.run t s).1 = .throw e) ∨
      ((∀ s', Agree (st.locks t s) s' s → st₀.run t₀ s' = o ∧ st.run t s' = st.run t s) ∧
        (∀ w ∈ (st.run t s).2, ∀ g ∈ Store.guards σ w, g ∈ st.locks t s) ∧
        (k (st.run t s).1).Guarded (st.locks t s) fun _ _ => True)
  | _ => False

/-- The program starts with a read that locks what it read, or that the next
statement confirms. -/
def Prog.Probed : Prog (Stmt σ τ υ ω ρ δ) δ ε α → Prop
  | .call st k => ∀ t s, (st.run t s).2 = [] ∧
      ((∃ e, k (st.run t s).1 = .throw e) ∨
        ((∀ s', Agree (st.locks t s) s' s → st.run t s' = st.run t s) ∧
          (k (st.run t s).1).Guarded (st.locks t s) fun _ _ => True) ∨
        (st.locks t s = [] ∧ (k (st.run t s).1).Confirms st t (st.run t s)))
  | _ => False

/-! ### The system -/

/-- One attempt: not begun; open, with the ticks it was given, the program
left, its writes and its locks; or over. -/
inductive Thread (σ τ υ ω ρ δ ε α κ : Type) : Type 1
  | idle
  | active (c : κ) (ticks : List τ) (prog : Prog (Stmt σ τ υ ω ρ δ) δ ε α) (log : List ω)
      (held : List ρ)
  | committed (c : κ) (a : α)
  | failed (c : κ) (e : ε)
  | dropped (c : κ)

/-- The locks of an attempt. -/
def Thread.held : Thread σ τ υ ω ρ δ ε α κ → List ρ
  | .active _ _ _ _ held => held
  | _ => []

/-- A commit: whose, of which call and with which ticks, the committed state
before and after, and the value the attempt returns. -/
structure Commit (σ τ α κ : Type) where
  thread : ℕ
  call : κ
  ticks : List τ
  before : σ
  after : σ
  result : α

/-- The committed state, the world of the draws, the attempts, and the
commits so far. -/
structure Sys (σ τ υ ω ρ δ ε α κ : Type) : Type 1 where
  db : σ
  world : υ
  threads : ℕ → Thread σ τ υ ω ρ δ ε α κ
  commits : List (Commit σ τ α κ)

/-- The system before any attempt. -/
def Sys.initial (s : σ) (w : υ) : Sys σ τ υ ω ρ δ ε α κ := ⟨s, w, fun _ => .idle, []⟩

variable (code : κ → Prog (Stmt σ τ υ ω ρ δ) δ ε α) (ok : κ → Prop)

/-- One step: an attempt of an admissible call begins, issues a statement,
commits, fails, or is dropped. -/
inductive Step : Sys σ τ υ ω ρ δ ε α κ → Sys σ τ υ ω ρ δ ε α κ → Prop
  | start {S : Sys σ τ υ ω ρ δ ε α κ} {i : ℕ} {c : κ} (hi : S.threads i = .idle) (hc : ok c) :
      Step S { S with threads := Function.update S.threads i (.active c [] (code c) [] []) }
  | exec {S : Sys σ τ υ ω ρ δ ε α κ} {i : ℕ} {c : κ} {ticks : List τ} {β : Type}
      {st : Stmt σ τ υ ω ρ δ β} {k : Except δ β → Prog (Stmt σ τ υ ω ρ δ) δ ε α} {log : List ω}
      {held : List ρ} {t : τ} {w : υ}
      (hi : S.threads i = .active c ticks (.call st k) log held) (hw : st.offer S.world t = some w)
      (hf : ∀ r ∈ st.locks t (applyAll log S.db), ∀ j, j ≠ i → r ∉ (S.threads j).held) :
      Step S { S with
        world := w
        threads := Function.update S.threads i
          (.active c (ticks ++ [t]) (k (st.run t (applyAll log S.db)).1)
            (log ++ (st.run t (applyAll log S.db)).2) (held ++ st.locks t (applyAll log S.db))) }
  | commit {S : Sys σ τ υ ω ρ δ ε α κ} {i : ℕ} {c : κ} {ticks : List τ} {a : α} {log : List ω}
      {held : List ρ} (hi : S.threads i = .active c ticks (.ret a) log held) :
      Step S { S with
        db := applyAll log S.db
        threads := Function.update S.threads i (.committed c a)
        commits := S.commits ++ [⟨i, c, ticks, S.db, applyAll log S.db, a⟩] }
  | fail {S : Sys σ τ υ ω ρ δ ε α κ} {i : ℕ} {c : κ} {ticks : List τ} {e : ε} {log : List ω}
      {held : List ρ} (hi : S.threads i = .active c ticks (.throw e) log held) :
      Step S { S with threads := Function.update S.threads i (.failed c e) }
  | drop {S : Sys σ τ υ ω ρ δ ε α κ} {i : ℕ} {c : κ} {ticks : List τ}
      {p : Prog (Stmt σ τ υ ω ρ δ) δ ε α} {log : List ω} {held : List ρ}
      (hi : S.threads i = .active c ticks p log held) :
      Step S { S with threads := Function.update S.threads i (.dropped c) }

/-- Any number of steps. -/
abbrev Steps : Sys σ τ υ ω ρ δ ε α κ → Sys σ τ υ ω ρ δ ε α κ → Prop :=
  Relation.ReflTransGen (Step code ok)

/-- The commits, one after another, are atomic runs: each program, run in one
piece on the state the commit before it left, ends with the committed value
and state. -/
inductive Chain : σ → List (Commit σ τ α κ) → σ → Prop
  | nil (s : σ) : Chain s [] s
  | snoc {s s' : σ} {cs : List (Commit σ τ α κ)} {x : Commit σ τ α κ} (h : Chain s cs s')
      (hb : x.before = s')
      (hx : ∀ rest, (code x.call).run (thenTicks x.ticks rest) s' = (.ok x.result, rest, x.after)) :
      Chain s (cs ++ [x]) x.after

/-! ### Chains -/

theorem Chain.unique {s₀ s s' : σ} {cs : List (Commit σ τ α κ)} (h : Chain code s₀ cs s)
    (h' : Chain code s₀ cs s') : s = s' := by
  generalize hds : cs = ds at h'
  cases h with
  | nil =>
    cases h' with
    | nil => rfl
    | snoc => simp at hds
  | snoc =>
    cases h' with
    | nil => simp at hds
    | snoc =>
      obtain ⟨-, he⟩ := List.append_inj' hds rfl
      rw [List.singleton_inj.mp he]

theorem Chain.split {s₀ s : σ} {cs ds : List (Commit σ τ α κ)} (h : Chain code s₀ (cs ++ ds) s) :
    ∃ m, Chain code s₀ cs m ∧ Chain code m ds s := by
  generalize hes : cs ++ ds = es at h
  induction h generalizing ds with
  | nil =>
    obtain ⟨rfl, rfl⟩ := List.append_eq_nil_iff.mp hes
    exact ⟨s₀, .nil s₀, .nil s₀⟩
  | @snoc s' es x h hb hx ih =>
    rcases List.eq_nil_or_concat ds with rfl | ⟨ds', y, rfl⟩
    · rw [List.append_nil] at hes
      exact ⟨x.after, hes ▸ .snoc h hb hx, .nil _⟩
    · rw [List.concat_eq_append, ← List.append_assoc] at hes
      obtain ⟨hes', he⟩ := List.append_inj' hes rfl
      obtain rfl := List.singleton_inj.mp he
      obtain ⟨m, h1, h2⟩ := ih hes'
      exact ⟨m, h1, by rw [List.concat_eq_append]; exact .snoc h2 hb hx⟩

/-- What every commit of a chain keeps, the chain keeps. -/
theorem Chain.preserves {I : σ → Prop} {s s' : σ} {cs : List (Commit σ τ α κ)} (h : Chain code s cs s')
    (hI : I s) (hstep : ∀ x ∈ cs, I x.before → I x.after) : I s' := by
  induction h with
  | nil => exact hI
  | @snoc s' cs x h hb hx ih =>
    refine hstep x (List.mem_append_right _ (List.mem_singleton_self x)) ?_
    rw [hb]
    exact ih fun y hy => hstep y (List.mem_append_left _ hy)

/-- A chain as a path of any relation its commits are steps of. -/
theorem Chain.path {R : σ → σ → Prop} {s s' : σ} {cs : List (Commit σ τ α κ)} (h : Chain code s cs s')
    (hR : ∀ x ∈ cs, R x.before x.after) : Relation.ReflTransGen R s s' := by
  induction h with
  | nil => exact .refl
  | @snoc s' cs x h hb hx ih =>
    refine .tail (ih fun y hy => hR y (List.mem_append_left _ hy)) ?_
    have := hR x (List.mem_append_right _ (List.mem_singleton_self x))
    rwa [hb] at this

/-- A commit of a chain is an atomic run. -/
theorem Chain.run {s s' : σ} {cs : List (Commit σ τ α κ)} (h : Chain code s cs s') {x : Commit σ τ α κ}
    (hx : x ∈ cs) (rest : ℕ → τ) :
    (code x.call).run (thenTicks x.ticks rest) x.before = (.ok x.result, rest, x.after) := by
  induction h with
  | nil => cases hx
  | @snoc s' cs y h hb hy ih =>
    rcases List.mem_append.mp hx with hx | hx
    · exact ih hx
    · obtain rfl := List.mem_singleton.mp hx
      rw [hb]
      exact hy rest

/-- A commit of a chain is a chain of its own. -/
theorem Chain.single {s s' : σ} {cs : List (Commit σ τ α κ)} (h : Chain code s cs s')
    {x : Commit σ τ α κ} (hx : x ∈ cs) : Chain code x.before [x] x.after :=
  .snoc (.nil x.before) rfl (h.run code hx)

/-- The chain before and after one of its commits. -/
theorem Chain.around {s s' : σ} {cs ds : List (Commit σ τ α κ)} {x : Commit σ τ α κ}
    (h : Chain code s (cs ++ x :: ds) s') : Chain code s cs x.before ∧ Chain code x.after ds s' := by
  rw [← List.singleton_append, ← List.append_assoc] at h
  obtain ⟨m, h1, h2⟩ := h.split code
  generalize hes : cs ++ [x] = es at h1
  cases h1 with
  | nil => simp at hes
  | snoc h1 hb hx =>
    obtain ⟨rfl, he⟩ := List.append_inj' hes rfl
    obtain rfl := List.singleton_inj.mp he
    exact ⟨hb ▸ h1, h2⟩

theorem Chain.append {s s' s'' : σ} {cs ds : List (Commit σ τ α κ)} (h : Chain code s cs s')
    (h' : Chain code s' ds s'') : Chain code s (cs ++ ds) s'' := by
  induction h' with
  | nil => rwa [List.append_nil]
  | snoc _ hb hx ih =>
    rw [← List.append_assoc]
    exact .snoc ih hb hx

/-! ### What every attempt keeps -/

/-- Where an open attempt stands. The last case is the one that matters:
from any state that agrees with the committed one on the attempt's locks, the
program run in one piece passes through where the attempt is. -/
inductive Sound (db : σ) : Thread σ τ υ ω ρ δ ε α κ → Prop
  | idle : Sound db .idle
  | committed (c : κ) (a : α) : Sound db (.committed c a)
  | failed (c : κ) (e : ε) : Sound db (.failed c e)
  | dropped (c : κ) : Sound db (.dropped c)
  | fresh (c : κ) : Sound db (.active c [] (code c) [] [])
  | throwing (c : κ) (ticks : List τ) (e : ε) (log : List ω) (held : List ρ) :
      Sound db (.active c ticks (.throw e) log held)
  | probed {c : κ} {β : Type} {st : Stmt σ τ υ ω ρ δ β}
      {k : Except δ β → Prog (Stmt σ τ υ ω ρ δ) δ ε α} {t : τ} {o : Except δ β × List ω}
      (hc : code c = .call st k) (ho : o.2 = []) (hp : (k o.1).Confirms st t o) :
      Sound db (.active c [t] (k o.1) [] [])
  | tracked {c : κ} {ticks : List τ} {p : Prog (Stmt σ τ υ ω ρ δ) δ ε α} {log : List ω}
      {held : List ρ} (hl : ∀ w ∈ log, ∀ g ∈ Store.guards σ w, g ∈ held)
      (hg : p.Guarded held fun _ _ => True)
      (hr : ∀ s', Agree held s' db → ∀ rest,
        (code c).run (thenTicks ticks rest) s' = p.run rest (applyAll log s')) :
      Sound db (.active c ticks p log held)

/-- The commits of others do not disturb an attempt: they agree with the old
state on what it has locked. -/
theorem Sound.other {db db' : σ} {th : Thread σ τ υ ω ρ δ ε α κ} (h : Sound code db th)
    (ha : Agree th.held db' db) : Sound code db' th := by
  cases h with
  | idle => exact .idle
  | committed c a => exact .committed c a
  | failed c e => exact .failed c e
  | dropped c => exact .dropped c
  | fresh c => exact .fresh c
  | throwing c ticks e log held => exact .throwing c ticks e log held
  | probed hc ho hp => exact .probed hc ho hp
  | tracked hl hg hr => exact .tracked hl hg fun s' hs => hr s' (hs.trans ha)

/-- A statement of an attempt keeps it sound. -/
theorem Sound.exec {db : σ} {c : κ} {ticks : List τ} {st : Stmt σ τ υ ω ρ δ β}
    {k : Except δ β → Prog (Stmt σ τ υ ω ρ δ) δ ε α} {log : List ω} {held : List ρ} (t : τ)
    (hcode : (code c).Probed) (h : Sound code db (.active c ticks (.call st k) log held)) :
    Sound code db (.active c (ticks ++ [t]) (k (st.run t (applyAll log db)).1)
      (log ++ (st.run t (applyAll log db)).2) (held ++ st.locks t (applyAll log db))) := by
  generalize hth : Thread.active c ticks (Prog.call st k) log held = th at h
  cases h with
  | idle | committed | failed | dropped | throwing => cases hth
  | fresh c' =>
    obtain ⟨rfl, rfl, hp, rfl, rfl⟩ := Thread.active.inj hth
    rw [← hp] at hcode
    obtain ⟨hw, hcase⟩ := hcode t db
    simp only [applyAll_nil, List.nil_append, hw]
    rcases hcase with ⟨e, he⟩ | ⟨hloc, hg⟩ | ⟨hlk, hconf⟩
    · rw [he]; exact .throwing _ _ _ _ _
    · refine .tracked (fun w hw => by simp at hw) hg fun s' hs rest => ?_
      rw [← hp, Prog.run]
      simp only [thenTicks_cons_zero, thenTicks_nil, later_thenTicks_cons, applyAll_nil,
        hloc s' hs, hw]
    · rw [hlk]
      exact .probed hp.symm hw hconf
  | @probed c' γ st₀ k₀ t₀ o hc ho hp =>
    obtain ⟨rfl, rfl, hk, rfl, rfl⟩ := Thread.active.inj hth
    rw [← hk] at hp
    simp only [applyAll_nil, List.nil_append]
    rcases hp t db with ⟨e, he⟩ | ⟨hloc, hgw, hg⟩
    · rw [he]; exact .throwing _ _ _ _ _
    · refine .tracked hgw hg fun s' hs rest => ?_
      obtain ⟨h0, h1⟩ := hloc s' hs
      rw [hc, Prog.run]
      simp only [List.cons_append, List.nil_append, thenTicks_cons_zero, later_thenTicks_cons, h0, ho,
        applyAll_nil, ← hk]
      rw [Prog.run]
      simp only [thenTicks_cons_zero, thenTicks_nil, later_thenTicks_cons, h1]
  | tracked hl hg hr =>
    obtain ⟨rfl, rfl, rfl, rfl, rfl⟩ := Thread.active.inj hth
    rcases hg t (applyAll log db) with ⟨e, he⟩ | ⟨hloc, hgw, hg'⟩
    · rw [he]; exact .throwing _ _ _ _ _
    · refine .tracked (fun w hw g hgr => ?_) hg' fun s' hs rest => ?_
      · rcases List.mem_append.mp hw with hw | hw
        · exact List.mem_append_left _ (hl w hw g hgr)
        · exact hgw w hw g hgr
      · rw [thenTicks_append, hr s' hs.left, Prog.run]
        simp only [thenTicks_cons_zero, thenTicks_nil, later_thenTicks_cons,
          hloc _ (hs.applyAll log), applyAll_append]

/-- An attempt that is ready to commit ran, as far as the committed state can
tell, in one piece just now. -/
theorem Sound.commit {db : σ} {c : κ} {ticks : List τ} {a : α} {log : List ω} {held : List ρ}
    (hcode : (code c).Probed) (h : Sound code db (.active c ticks (.ret a) log held)) (rest : ℕ → τ) :
    (code c).run (thenTicks ticks rest) db = (.ok a, rest, applyAll log db) := by
  generalize hth : Thread.active c ticks (Prog.ret a) log held = th at h
  cases h with
  | idle | committed | failed | dropped | throwing => cases hth
  | fresh c' =>
    obtain ⟨rfl, rfl, hp, rfl, rfl⟩ := Thread.active.inj hth
    rw [← hp] at hcode
    exact hcode.elim
  | probed hc ho hp =>
    obtain ⟨rfl, rfl, hk, rfl, rfl⟩ := Thread.active.inj hth
    rw [← hk] at hp
    exact hp.elim
  | tracked hl hg hr =>
    obtain ⟨rfl, rfl, rfl, rfl, rfl⟩ := Thread.active.inj hth
    exact hr db (Agree.refl _ _) rest

/-- The writes of an attempt that is ready to commit are under its locks. -/
theorem Sound.log_guarded {db : σ} {c : κ} {ticks : List τ} {a : α} {log : List ω} {held : List ρ}
    (h : Sound code db (.active c ticks (.ret a) log held)) :
    ∀ w ∈ log, ∀ g ∈ Store.guards σ w, g ∈ held := by
  generalize hth : Thread.active c ticks (Prog.ret a) log held = th at h
  cases h with
  | idle | committed | failed | dropped | throwing => cases hth
  | fresh | probed =>
    obtain ⟨-, -, -, rfl, -⟩ := Thread.active.inj hth
    exact fun w hw => by simp at hw
  | tracked hl hg hr =>
    obtain ⟨-, -, -, rfl, rfl⟩ := Thread.active.inj hth
    exact hl

/-! ### What the system keeps -/

/-- What every reachable system satisfies: each attempt is sound, no lock has
two holders, and the commits are a chain that each attempt is in once, if it
has committed. -/
structure Inv (s₀ : σ) (S : Sys σ τ υ ω ρ δ ε α κ) : Prop where
  sound : ∀ i, Sound code S.db (S.threads i)
  exclusive : ∀ i j, i ≠ j → ∀ r ∈ (S.threads i).held, r ∉ (S.threads j).held
  chain : Chain code s₀ S.commits S.db
  once : (S.commits.map (·.thread)).Nodup
  committed : ∀ i c a, S.threads i = .committed c a ↔
    ∃ x ∈ S.commits, x.thread = i ∧ x.call = c ∧ x.result = a
  admissible : ∀ i c ticks p log held, S.threads i = .active c ticks p log held → ok c
  admitted : ∀ x ∈ S.commits, ok x.call

theorem inv_initial (s : σ) (w : υ) : Inv code ok s (Sys.initial s w) where
  sound _ := .idle
  exclusive _ _ _ r hr := by simp [Sys.initial, Thread.held] at hr
  chain := .nil s
  once := List.nodup_nil
  committed i c a := by simp [Sys.initial]
  admissible i c ticks p log held h := by simp [Sys.initial] at h
  admitted x hx := by simp [Sys.initial] at hx

/-- A step that changes one attempt only, to one that is neither committed
nor holds a lock that another holds. -/
theorem Inv.update {s₀ : σ} {S : Sys σ τ υ ω ρ δ ε α κ} (h : Inv code ok s₀ S) (w : υ) (i : ℕ)
    (th : Thread σ τ υ ω ρ δ ε α κ) (hs : Sound code S.db th)
    (hheld : ∀ r ∈ th.held, ∀ j, j ≠ i → r ∉ (S.threads j).held)
    (hnot : ∀ c a, S.threads i ≠ .committed c a) (hth : ∀ c a, th ≠ .committed c a)
    (hok : ∀ c ticks p log held, th = .active c ticks p log held → ok c) :
    Inv code ok s₀ { S with world := w, threads := Function.update S.threads i th } where
  sound j := by
    by_cases hj : j = i
    · subst hj; simpa using hs
    · simpa [Function.update_of_ne hj] using h.sound j
  exclusive j k hjk r hr := by
    by_cases hj : j = i
    · subst hj
      have hk : k ≠ j := fun e => hjk e.symm
      simp only [Function.update_self, Function.update_of_ne hk] at hr ⊢
      exact hheld r hr k hk
    · by_cases hk : k = i
      · subst hk
        simp only [Function.update_self, Function.update_of_ne hj] at hr ⊢
        exact fun hr' => hheld r hr' j hj hr
      · simp only [Function.update_of_ne hj, Function.update_of_ne hk] at hr ⊢
        exact h.exclusive j k hjk r hr
  chain := h.chain
  once := h.once
  committed j c a := by
    by_cases hj : j = i
    · subst hj
      simp only [Function.update_self, hth c a, false_iff]
      exact fun hx => hnot c a ((h.committed j c a).mpr hx)
    · simpa [Function.update_of_ne hj] using h.committed j c a
  admissible j c ticks p log held hj' := by
    by_cases hj : j = i
    · subst hj
      simp only [Function.update_self] at hj'
      exact hok c ticks p log held hj'
    · simp only [Function.update_of_ne hj] at hj'
      exact h.admissible j c ticks p log held hj'
  admitted := h.admitted

/-- Other attempts agree on the state before and after a commit. -/
theorem Inv.agree_commit {s₀ : σ} {S : Sys σ τ υ ω ρ δ ε α κ} (h : Inv code ok s₀ S) {i : ℕ} {c : κ}
    {ticks : List τ} {a : α} {log : List ω} {held : List ρ}
    (hi : S.threads i = .active c ticks (.ret a) log held) {j : ℕ} (hj : j ≠ i) :
    Agree (S.threads j).held (applyAll log S.db) S.db := by
  have hs := h.sound i
  rw [hi] at hs
  refine agree_applyAll log S.db fun w hw g hg hgj => ?_
  have hgi : g ∈ (S.threads i).held := by
    rw [hi]; exact hs.log_guarded code w hw g hg
  exact h.exclusive i j (fun e => hj e.symm) g hgi hgj

variable (hcode : ∀ c, ok c → (code c).Probed)
include hcode

theorem Step.inv {s₀ : σ} {S S' : Sys σ τ υ ω ρ δ ε α κ} (h : Inv code ok s₀ S)
    (hst : Step code ok S S') : Inv code ok s₀ S' := by
  cases hst with
  | @start i c hi hc =>
    refine h.update code ok S.world i _ (.fresh c) (fun r hr => by simp [Thread.held] at hr)
      (fun c a hc' => by simp [hi] at hc') (fun c a hc' => by cases hc') fun c' _ _ _ _ he => ?_
    exact (Thread.active.inj he).1 ▸ hc
  | @exec i c ticks β st k log held t w hi hw hf =>
    have hok := h.admissible i c ticks _ log held hi
    have hs := h.sound i
    rw [hi] at hs
    refine h.update code ok w i _ (hs.exec code t (hcode c hok)) (fun r hr j hj => ?_)
      (fun c a hc' => by simp [hi] at hc') (fun c a hc' => by cases hc') fun c' _ _ _ _ he => ?_
    · rcases List.mem_append.mp hr with hr | hr
      · exact h.exclusive i j (fun e => hj e.symm) r (by rw [hi]; exact hr)
      · exact hf r hr j hj
    · exact (Thread.active.inj he).1 ▸ hok
  | @commit i c ticks a log held hi =>
    have hok := h.admissible i c ticks _ log held hi
    have hs := h.sound i
    rw [hi] at hs
    have hfresh : i ∉ S.commits.map (·.thread) := by
      intro hm
      obtain ⟨x, hx, hxi⟩ := List.mem_map.mp hm
      have := (h.committed i x.call x.result).mpr ⟨x, hx, hxi, rfl, rfl⟩
      rw [hi] at this
      cases this
    refine ⟨fun j => ?_, fun j k hjk r hr => ?_, ?_, ?_, fun j c' a' => ?_, ?_, ?_⟩
    · by_cases hj : j = i
      · subst hj; simpa using .committed c a
      · simp only [Function.update_of_ne hj]
        exact (h.sound j).other code (h.agree_commit code ok hi hj)
    · by_cases hj : j = i
      · subst hj; simp [Thread.held] at hr
      · by_cases hk : k = i
        · subst hk; simp [Thread.held]
        · simp only [Function.update_of_ne hj, Function.update_of_ne hk] at hr ⊢
          exact h.exclusive j k hjk r hr
    · exact .snoc h.chain rfl fun rest => hs.commit code (hcode c hok) rest
    · rw [List.map_append, List.nodup_append]
      refine ⟨h.once, by simp, fun x hx y hy => ?_⟩
      simp only [List.map_cons, List.map_nil, List.mem_singleton] at hy
      exact fun e => hfresh (hy ▸ e ▸ hx)
    · by_cases hj : j = i
      · subst hj
        simp only [Function.update_self, List.mem_append, List.mem_singleton]
        constructor
        · intro he
          obtain ⟨rfl, rfl⟩ := Thread.committed.inj he
          exact ⟨_, Or.inr rfl, rfl, rfl, rfl⟩
        · rintro ⟨x, hx | rfl, hxi, rfl, rfl⟩
          · exact absurd (List.mem_map.mpr ⟨x, hx, hxi⟩) hfresh
          · rfl
      · simp only [Function.update_of_ne hj, h.committed j c' a', List.mem_append, List.mem_singleton]
        constructor
        · rintro ⟨x, hx, hrest⟩
          exact ⟨x, Or.inl hx, hrest⟩
        · rintro ⟨x, hx | rfl, hxi, hrest⟩
          · exact ⟨x, hx, hxi, hrest⟩
          · exact absurd hxi.symm hj
    · intro j c' ticks' p log' held' hj'
      by_cases hj : j = i
      · subst hj; simp at hj'
      · simp only [Function.update_of_ne hj] at hj'
        exact h.admissible j c' ticks' p log' held' hj'
    · intro x hx
      rcases List.mem_append.mp hx with hx | hx
      · exact h.admitted x hx
      · rw [List.mem_singleton] at hx
        subst hx; exact hok
  | @fail i c ticks e log held hi =>
    exact h.update code ok S.world i _ (.failed c e) (fun r hr => by simp [Thread.held] at hr)
      (fun c a hc' => by simp [hi] at hc') (fun c a hc' => by cases hc') (fun _ _ _ _ _ he => by cases he)
  | @drop i c ticks p log held hi =>
    exact h.update code ok S.world i _ (.dropped c) (fun r hr => by simp [Thread.held] at hr)
      (fun c a hc' => by simp [hi] at hc') (fun c a hc' => by cases hc') (fun _ _ _ _ _ he => by cases he)

/-- **Serializability.** Whatever the interleaving, the commits are a chain of
atomic runs, in commit order, from the first state to the committed one. -/
theorem Steps.inv {s₀ : σ} {S S' : Sys σ τ υ ω ρ δ ε α κ} (h : Inv code ok s₀ S)
    (hst : Steps code ok S S') : Inv code ok s₀ S' := by
  induction hst with
  | refl => exact h
  | tail _ hst ih => exact hst.inv code ok hcode ih

omit hcode in
/-- The commits of a later system start with those of the earlier one. -/
theorem Step.commits {S S' : Sys σ τ υ ω ρ δ ε α κ} (hst : Step code ok S S') :
    ∃ cs, S'.commits = S.commits ++ cs := by
  cases hst with
  | commit hi => exact ⟨_, rfl⟩
  | start | exec | fail | drop => exact ⟨[], (List.append_nil _).symm⟩

omit hcode in
theorem Steps.commits {S S' : Sys σ τ υ ω ρ δ ε α κ} (hst : Steps code ok S S') :
    ∃ cs, S'.commits = S.commits ++ cs := by
  induction hst with
  | refl => exact ⟨[], (List.append_nil _).symm⟩
  | tail _ hst ih =>
    obtain ⟨cs, h1⟩ := ih
    obtain ⟨ds, h2⟩ := hst.commits code ok
    exact ⟨cs ++ ds, by rw [h2, h1, List.append_assoc]⟩

/-- A continuation of a run is a chain from the state it starts at. -/
theorem Steps.chain {s₀ : σ} {S S' : Sys σ τ υ ω ρ δ ε α κ} (h : Inv code ok s₀ S)
    (hst : Steps code ok S S') : ∃ cs, S'.commits = S.commits ++ cs ∧ Chain code S.db cs S'.db := by
  obtain ⟨cs, hcs⟩ := hst.commits code ok
  have h' := hst.inv code ok hcode h
  have hc := h'.chain
  rw [hcs] at hc
  obtain ⟨m, h1, h2⟩ := hc.split code
  obtain rfl := h1.unique code h.chain
  exact ⟨cs, hcs, h2⟩

end

end Txn
