/-
# Locks taken in order never deadlock

Every lock has a root, which is a lock as well, and a root has a rank. A
program climbs (`Prog.Climbs`) if each of its statements locks only what is
under the roots it holds, or takes one root besides, of a rank above all of
these. An attempt that waits for a lock under a root of its own would wait for
one that nobody else can hold; so it waits for a root, which ranks above all
that it has, and who holds that root waits, if at all, for one of a higher
rank. There is no way round (`waits_acyclic`).

A statement that locks many rows locks them one by one, so at any moment an
attempt may have taken some of what its statement locks: that is `Taking`, a
tick for the statement each attempt is at, and the locks it has taken for it.

Key definitions: `Rises`, `Prog.Climbs`, `Thread.wants`, `Taking`, `Waits`.
Key theorems: `Climbs.bind`, `Steps.climbing`, `waits_acyclic`.
-/
import Portfolio.Txn.System

namespace Txn

section
variable {σ τ υ ω ρ δ ε α β κ : Type} (root : ρ → ρ) (rank : ρ → ℕ)

/-- To lock `ls` takes the root `r`, which ranks above the roots `B`, and otherwise what is under these. -/
structure Rises (B ls : List ρ) (r : ρ) : Prop where
  taken : r ∈ ls
  self : root r = r
  above : ∀ b ∈ B, rank b < rank r
  under : ∀ r' ∈ ls, r' ≠ r → root r' ∈ B

/-- Holding the roots `B`, the program locks under them, or takes one root of a higher rank at a time. It
ends with `Q` of its value and the roots it holds then. -/
def Prog.Climbs : Prog (Stmt σ τ υ ω ρ δ) δ ε α → List ρ → (α → List ρ → Prop) → Prop
  | .ret a, B, Q => Q a B
  | .throw _, _, _ => True
  | .call st k, B, Q => ∀ t s,
      ((∀ r ∈ st.locks t s, root r ∈ B) ∧ (k (st.run t s).1).Climbs B Q) ∨
        ∃ r, Rises root rank B (st.locks t s) r ∧ (k (st.run t s).1).Climbs (B ++ [r]) Q

variable {root rank}

theorem Prog.Climbs.mono : ∀ {p : Prog (Stmt σ τ υ ω ρ δ) δ ε α} {B : List ρ} {Q Q' : α → List ρ → Prop},
    p.Climbs root rank B Q → (∀ a K, Q a K → Q' a K) → p.Climbs root rank B Q'
  | .ret _, _, _, _, h, hq => hq _ _ h
  | .throw _, _, _, _, _, _ => trivial
  | .call _ _, _, _, _, h, hq => fun t s => (h t s).imp (fun ⟨h1, h2⟩ => ⟨h1, h2.mono hq⟩)
      fun ⟨r, h1, h2⟩ => ⟨r, h1, h2.mono hq⟩

theorem Prog.Climbs.bind : ∀ {p : Prog (Stmt σ τ υ ω ρ δ) δ ε α} {f : α → Prog (Stmt σ τ υ ω ρ δ) δ ε β}
    {B : List ρ} {Q : β → List ρ → Prop},
    p.Climbs root rank B (fun a K => (f a).Climbs root rank K Q) → (p >>= f).Climbs root rank B Q
  | .ret _, _, _, _, h => h
  | .throw _, _, _, _, _ => trivial
  | .call _ _, _, _, _, h => fun t s => (h t s).imp (fun ⟨h1, h2⟩ => ⟨h1, Climbs.bind h2⟩)
      fun ⟨r, h1, h2⟩ => ⟨r, h1, Climbs.bind h2⟩

/-! ### Waiting -/

/-- What the statement an attempt is at locks, with the tick `t`. -/
def Thread.wants [Store σ ω ρ] (t : τ) (s : σ) : Thread σ τ υ ω ρ δ ε α κ → List ρ
  | .active _ _ (.call st _) log _ => st.locks t (applyAll log s)
  | _ => []

variable [Store σ ω ρ]

/-- A moment between two statements: the tick of the one each attempt is at, and what it has locked for it
so far, which nobody else has. -/
structure Taking (S : Sys σ τ υ ω ρ δ ε α κ) (tick : ℕ → τ) (taken : ℕ → List ρ) : Prop where
  wanted : ∀ i, ∀ r ∈ taken i, r ∈ (S.threads i).wants (tick i) S.db
  free : ∀ i j, i ≠ j → ∀ r ∈ taken i, r ∉ (S.threads j).held ∧ r ∉ taken j

/-- The attempt `i` waits for `j`: it wants a lock that it does not have and `j` has. -/
def Waits (S : Sys σ τ υ ω ρ δ ε α κ) (tick : ℕ → τ) (taken : ℕ → List ρ) (i j : ℕ) : Prop :=
  ∃ r ∈ (S.threads i).wants (tick i) S.db, r ∉ (S.threads i).held ∧ r ∉ taken i ∧
    (r ∈ (S.threads j).held ∨ r ∈ taken j)

variable (root rank) in
/-- An open attempt holds the roots `B` and locks under them, and goes on to climb. -/
def Climbing (th : Thread σ τ υ ω ρ δ ε α κ) (B : List ρ) : Prop :=
  (∀ b ∈ B, b ∈ th.held) ∧ (∀ r ∈ th.held, root r ∈ B) ∧
    ∀ c ticks p log held, th = .active c ticks p log held → p.Climbs root rank B fun _ _ => True

omit [Store σ ω ρ] in
/-- An attempt that is not open. -/
theorem climbing_of_closed {th : Thread σ τ υ ω ρ δ ε α κ}
    (h : ∀ c ticks p log held, th ≠ .active c ticks p log held) : Climbing root rank th [] := by
  refine ⟨fun b hb => (List.not_mem_nil hb).elim, fun r hr => ?_, fun c ticks p log held he => (h _ _ _ _ _ he).elim⟩
  cases th with
  | active c ticks p log held => exact (h _ _ _ _ _ rfl).elim
  | idle | committed | failed | dropped => exact (List.not_mem_nil hr).elim

variable {code : κ → Prog (Stmt σ τ υ ω ρ δ) δ ε α} {ok : κ → Prop}
  (hcode : ∀ c, ok c → (code c).Climbs root rank [] fun _ _ => True)

include hcode

/-- A step leaves every attempt climbing. -/
theorem Step.climbing {S S' : Sys σ τ υ ω ρ δ ε α κ} (h : ∀ i, ∃ B, Climbing root rank (S.threads i) B)
    (hst : Step code ok S S') : ∀ i, ∃ B, Climbing root rank (S'.threads i) B := by
  have hother : ∀ (i : ℕ) (th : Thread σ τ υ ω ρ δ ε α κ), (∃ B, Climbing root rank th B) →
      ∀ j, ∃ B, Climbing root rank (Function.update S.threads i th j) B := by
    intro i th hth j
    by_cases hj : j = i
    · rw [hj, Function.update_self]
      exact hth
    · rw [Function.update_of_ne hj]
      exact h j
  cases hst with
  | @start i c hi hc =>
    refine hother i _ ⟨[], fun b hb => (List.not_mem_nil hb).elim, fun r hr => (List.not_mem_nil hr).elim, ?_⟩
    intro c' ticks p log held he
    obtain ⟨-, -, rfl, -⟩ := Thread.active.inj he
    exact hcode c hc
  | @exec i c ticks β st k log held t w hi hw hf =>
    refine hother i _ ?_
    obtain ⟨B, hB, hheld, hclimbs⟩ := h i
    rw [hi] at hB hheld
    rcases hclimbs c ticks _ log held hi t (applyAll log S.db) with ⟨hunder, hnext⟩ | ⟨r, hrises, hnext⟩
    · refine ⟨B, fun b hb => List.mem_append_left _ (hB b hb), fun r hr => ?_, fun c' ticks' p log' held' he => ?_⟩
      · rcases List.mem_append.mp hr with hr | hr
        · exact hheld r hr
        · exact hunder r hr
      · obtain ⟨-, -, rfl, -⟩ := Thread.active.inj he
        exact hnext
    · refine ⟨B ++ [r], fun b hb => ?_, fun r' hr' => ?_, fun c' ticks' p log' held' he => ?_⟩
      · rcases List.mem_append.mp hb with hb | hb
        · exact List.mem_append_left _ (hB b hb)
        · rw [List.mem_singleton.mp hb]
          exact List.mem_append_right _ hrises.taken
      · rcases List.mem_append.mp hr' with hr' | hr'
        · exact List.mem_append_left _ (hheld r' hr')
        · by_cases hne : r' = r
          · rw [hne, hrises.self]
            exact List.mem_append_right _ (List.mem_singleton_self r)
          · exact List.mem_append_left _ (hrises.under r' hr' hne)
      · obtain ⟨-, -, rfl, -⟩ := Thread.active.inj he
        exact hnext
  | commit hi => exact hother _ _ ⟨[], climbing_of_closed nofun⟩
  | fail hi => exact hother _ _ ⟨[], climbing_of_closed nofun⟩
  | drop hi => exact hother _ _ ⟨[], climbing_of_closed nofun⟩

theorem Steps.climbing {s : σ} {w : υ} {S : Sys σ τ υ ω ρ δ ε α κ} (hst : Steps code ok (Sys.initial s w) S) :
    ∀ i, ∃ B, Climbing root rank (S.threads i) B := by
  induction hst with
  | refl => exact fun i => ⟨[], climbing_of_closed nofun⟩
  | tail _ hst ih => exact hst.climbing hcode ih

omit hcode

/-! ### Nobody waits in a circle -/

variable {S : Sys σ τ υ ω ρ δ ε α κ} {tick : ℕ → τ} {taken : ℕ → List ρ}

/-- What a climbing attempt is at: a statement under its roots, or one that takes a higher root. -/
theorem Climbing.wants {th : Thread σ τ υ ω ρ δ ε α κ} {B : List ρ} (h : Climbing root rank th B) (t : τ) (s : σ) :
    (∀ r ∈ th.wants t s, root r ∈ B) ∨ ∃ r, Rises root rank B (th.wants t s) r := by
  cases th with
  | idle | committed | failed | dropped => exact Or.inl fun r hr => (List.not_mem_nil hr).elim
  | active c ticks p log held =>
    cases p with
    | ret | throw => exact Or.inl fun r hr => (List.not_mem_nil hr).elim
    | call st k =>
      rcases h.2.2 _ _ _ _ _ rfl t (applyAll log s) with ⟨hunder, -⟩ | ⟨r, hrises, -⟩
      · exact Or.inl hunder
      · exact Or.inr ⟨r, hrises⟩

/-- What an attempt wants is under a root of its own, or is a root. -/
theorem Climbing.wanted {th : Thread σ τ υ ω ρ δ ε α κ} {B : List ρ} (h : Climbing root rank th B) {t : τ} {s : σ}
    {r : ρ} (hr : r ∈ th.wants t s) : root r ∈ th.held ∨ root r = r := by
  rcases h.wants t s with hunder | ⟨r', hrises⟩
  · exact Or.inl (h.1 _ (hunder r hr))
  · by_cases hne : r = r'
    · exact Or.inr (hne ▸ hrises.self)
    · exact Or.inl (h.1 _ (hrises.under r hr hne))

/-- Nobody else has a lock under a root that an attempt holds. -/
theorem Climbing.alone {B B' : List ρ} {i j : ℕ} {r : ρ} (hi : Climbing root rank (S.threads i) B)
    (hj : Climbing root rank (S.threads j) B') (hij : i ≠ j)
    (hexcl : ∀ i j, i ≠ j → ∀ r ∈ (S.threads i).held, r ∉ (S.threads j).held) (htaking : Taking S tick taken)
    (hr : root r ∈ B) : ¬ (r ∈ (S.threads j).held ∨ r ∈ taken j) := by
  have hmine : root r ∈ (S.threads i).held := hi.1 _ hr
  have hnot : root r ∉ (S.threads j).held := hexcl i j hij _ hmine
  rintro (hheld | htaken)
  · exact hnot (hj.1 _ (hj.2.1 r hheld))
  · rcases hj.wanted (htaking.wanted j r htaken) with hroot | hroot
    · exact hnot hroot
    · rw [hroot] at hmine
      exact (htaking.free j i (Ne.symm hij) r htaken).1 hmine

/-- **Who waits, waits for a root**, which ranks above every root that it has itself. -/
theorem Waits.rises (hclimb : ∀ i, ∃ B, Climbing root rank (S.threads i) B)
    (hexcl : ∀ i j, i ≠ j → ∀ r ∈ (S.threads i).held, r ∉ (S.threads j).held) (htaking : Taking S tick taken)
    {i j : ℕ} (h : Waits S tick taken i j) : ∃ r, root r = r ∧ (r ∈ (S.threads j).held ∨ r ∈ taken j) ∧
      ∀ r', root r' = r' → (r' ∈ (S.threads i).held ∨ r' ∈ taken i) → rank r' < rank r := by
  obtain ⟨r, hr, hnot, hnottaken, hj⟩ := h
  have hij : i ≠ j := by
    rintro rfl
    exact hj.elim hnot hnottaken
  obtain ⟨B, hclimbing⟩ := hclimb i
  obtain ⟨B', hclimbing'⟩ := hclimb j
  have hunder : root r ∉ B := fun hB => hclimbing.alone hclimbing' hij hexcl htaking hB hj
  rcases hclimbing.wants (tick i) S.db with hwants | ⟨r₀, hrises⟩
  · exact (hunder (hwants r hr)).elim
  · obtain rfl : r = r₀ := by
      by_contra hne
      exact hunder (hrises.under r hr hne)
    refine ⟨r, hrises.self, hj, fun r' hroot' hhas => hrises.above r' ?_⟩
    rw [← hroot']
    rcases hhas with hheld | htaken
    · exact hclimbing.2.1 r' hheld
    · refine hrises.under r' (htaking.wanted i r' htaken) ?_
      rintro rfl
      exact hnottaken htaken

/-- **No deadlock.** In a system of climbing programs no attempt waits, through any others, for itself. -/
theorem waits_acyclic (hclimb : ∀ i, ∃ B, Climbing root rank (S.threads i) B)
    (hexcl : ∀ i j, i ≠ j → ∀ r ∈ (S.threads i).held, r ∉ (S.threads j).held) (htaking : Taking S tick taken)
    (i : ℕ) : ¬ Relation.TransGen (Waits S tick taken) i i := by
  -- along the waits, the last attempt has a root that ranks above all that the first one has
  have hpath : ∀ j, Relation.TransGen (Waits S tick taken) i j →
      ∃ r, root r = r ∧ (r ∈ (S.threads j).held ∨ r ∈ taken j) ∧
        ∀ r', root r' = r' → (r' ∈ (S.threads i).held ∨ r' ∈ taken i) → rank r' < rank r := by
    intro j hj
    induction hj with
    | single h => exact h.rises hclimb hexcl htaking
    | tail _ h ih =>
      obtain ⟨r, hroot, hr, habove⟩ := ih
      obtain ⟨r₁, hroot₁, hr₁, habove₁⟩ := h.rises hclimb hexcl htaking
      exact ⟨r₁, hroot₁, hr₁, fun r' hroot' hr' => Nat.lt_trans (habove r' hroot' hr') (habove₁ r hroot hr)⟩
  intro hcycle
  obtain ⟨r, hroot, hr, habove⟩ := hpath i hcycle
  exact Nat.lt_irrefl _ (habove r hroot hr)

end

end Txn
