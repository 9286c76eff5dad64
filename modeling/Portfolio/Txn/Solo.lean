/-
# An attempt that runs alone

While no other attempt has a lock, an open one waits for nobody. If the world can
answer its statements with ticks of some kind (`Supplied`), there are such ticks on
which the system takes it to its end; it commits what its program, run in one piece
on them, ends with.

Key definitions: `Sys.Alone`.
Key theorems: `runs_alone`, `commits_alone`.
-/
import Portfolio.Txn.Ending

namespace Txn

variable {σ τ υ ω ρ δ ε α β κ : Type} [Store σ ω ρ] {code : κ → Prog (Stmt σ τ υ ω ρ δ) δ ε α} {ok : κ → Prop}
  {S : Sys σ τ υ ω ρ δ ε α κ} {i : ℕ} {c : κ} {K : τ → Prop} {G : ℕ → υ → Prop}

/-- No other attempt than this one has a lock. -/
def Sys.Alone (S : Sys σ τ υ ω ρ δ ε α κ) (i : ℕ) : Prop := ∀ j, j ≠ i → (S.threads j).held = []

omit [Store σ ω ρ] in
theorem Sys.Alone.update {S' : Sys σ τ υ ω ρ δ ε α κ} {th : Thread σ τ υ ω ρ δ ε α κ} (h : S.Alone i)
    (hthreads : S'.threads = Function.update S.threads i th) : S'.Alone i := by
  intro j hj
  rw [hthreads, Function.update_of_ne hj]
  exact h j hj

omit [Store σ ω ρ] in
/-- Where no attempt is open, whichever begins is alone. -/
theorem Sys.alone_of_closed (h : ∀ j, ¬ (S.threads j).Open) : S.Alone i := by
  intro j _
  cases hj : S.threads j with
  | active => exact (h j (by rw [hj]; trivial)).elim
  | idle | committed | failed | dropped => rfl

variable (code ok) in
/-- An attempt alone runs its statement, whatever that locks. -/
theorem executes_alone {ticks : List τ} {st : Stmt σ τ υ ω ρ δ β} {k : Except δ β → Prog (Stmt σ τ υ ω ρ δ) δ ε α}
    {log : List ω} {held : List ρ} {t : τ} {w : υ} (hi : S.threads i = .active c ticks (.call st k) log held)
    (h : S.Alone i) (hw : st.offer S.world t = some w) :
    ∃ S', Step code ok S S' ∧ S'.db = S.db ∧ S'.world = w ∧ S'.commits = S.commits ∧
      S'.threads = Function.update S.threads i (.active c (ticks ++ [t]) (k (st.run t (applyAll log S.db)).1)
        (log ++ (st.run t (applyAll log S.db)).2) (held ++ st.locks t (applyAll log S.db))) := by
  refine ⟨_, .exec hi hw fun r _ j hj => ?_, rfl, rfl, rfl, rfl⟩
  rw [h j hj]
  exact List.not_mem_nil

/-- What is left of a supply that covers more. -/
theorem supply_le {m : ℕ} {w : υ} (hG : ∀ m w, G (m + 1) w → G m w) : ∀ {n : ℕ}, G (m + n) w → G m w
  | 0, h => h
  | _ + 1, h => supply_le hG (hG _ _ h)

/-- **An attempt alone runs to its end**, on ticks that are `K`: from where it is, it commits if the rest of its program
does on these. -/
theorem runs_alone (hG : ∀ m w, G (m + 1) w → G m w) (hK : ∃ t, K t) :
    ∀ {p : Prog (Stmt σ τ υ ω ρ δ) δ ε α} {m n : ℕ} {S : Sys σ τ υ ω ρ δ ε α κ} {ticks : List τ} {log : List ω}
      {held : List ρ}, S.threads i = .active c ticks p log held → S.Alone i → p.Within n →
      (p.Calls fun _ st => Supplied K G st) → G (m + n) S.world →
      ∃ t : ℕ → τ, (∀ k, K (t k)) ∧ ∀ a, (p.run t (applyAll log S.db)).1 = .ok a →
        ∃ S' us, Steps code ok S S' ∧ G m S'.world ∧ (∀ u ∈ us, K u) ∧
          S'.threads = Function.update S.threads i (.committed c a) ∧
          S'.commits = S.commits ++ [⟨i, c, ticks ++ us, S.db, S'.db, a⟩]
  | .ret b, m, n, S, ticks, log, held, hi, _, _, _, hm => by
    obtain ⟨t, ht⟩ := hK
    refine ⟨fun _ => t, fun _ => ht, fun a ha => ?_⟩
    obtain rfl : b = a := Except.ok.inj ha
    exact ⟨_, [], .single (.commit hi), supply_le hG hm, nofun, rfl, by rw [List.append_nil]⟩
  | .throw e, m, n, S, ticks, log, held, _, _, _, _, _ => by
    obtain ⟨t, ht⟩ := hK
    exact ⟨fun _ => t, fun _ => ht, fun a ha => nomatch ha⟩
  | .call st k, m, 0, S, ticks, log, held, _, _, hwithin, _, _ => hwithin.elim
  | .call st k, m, n + 1, S, ticks, log, held, hi, halone, hwithin, hcalls, hm => by
    obtain ⟨t₁, w', ht₁, hoffer, hw'⟩ := hcalls.1 (m + n) S.world hm
    obtain ⟨S₁, hstep, hdb, hworld₁, hcommits₁, hthreads₁⟩ := executes_alone code ok hi halone hoffer
    rw [← hworld₁] at hw'
    obtain ⟨t₂, ht₂, hends⟩ := runs_alone hG hK (by rw [hthreads₁, Function.update_self]) (halone.update hthreads₁)
      (hwithin (st.run t₁ (applyAll log S.db)).1) (hcalls.2 _) hw'
    refine ⟨thenTicks [t₁] t₂, fun k => ?_, fun a ha => ?_⟩
    · cases k with
      | zero => exact ht₁
      | succ k => exact ht₂ k
    · obtain ⟨S', us, hsteps, hworld, hus, hthreads, hcommits⟩ := hends a (by rwa [hdb, applyAll_append])
      refine ⟨S', t₁ :: us, .head hstep hsteps, hworld, List.forall_mem_cons.mpr ⟨ht₁, hus⟩, ?_, ?_⟩
      · rw [hthreads, hthreads₁, Function.update_idem]
      · rw [hcommits, hcommits₁, hdb, List.append_assoc]
        rfl

/-- **A call that runs alone commits** what it commits in one piece, on some ticks that are `K`. -/
theorem commits_alone (hG : ∀ m w, G (m + 1) w → G m w) (hK : ∃ t, K t) {m n : ℕ} (hclosed : ∀ j, ¬ (S.threads j).Open)
    (hi : S.threads i = .idle) (hc : ok c) (hwithin : (code c).Within n)
    (hcalls : (code c).Calls fun _ st => Supplied K G st) (hm : G (m + n) S.world) :
    ∃ t : ℕ → τ, (∀ k, K (t k)) ∧ ∀ a, (atomic (code c) t S.db).1 = .ok a →
      ∃ S' us, Steps code ok S S' ∧ G m S'.world ∧ (∀ u ∈ us, K u) ∧ (∀ j, ¬ (S'.threads j).Open) ∧
        S'.commits = S.commits ++ [⟨i, c, us, S.db, S'.db, a⟩] := by
  obtain ⟨S₁, hstart, hdb, hworld₁, hcommits₁, hthreads₁⟩ : ∃ S₁, Step code ok S S₁ ∧ S₁.db = S.db ∧
      S₁.world = S.world ∧ S₁.commits = S.commits ∧
      S₁.threads = Function.update S.threads i (.active c [] (code c) [] []) := ⟨_, .start hi hc, rfl, rfl, rfl, rfl⟩
  rw [← hworld₁] at hm
  obtain ⟨t, ht, hends⟩ := runs_alone hG hK (by rw [hthreads₁, Function.update_self])
    ((Sys.alone_of_closed hclosed).update hthreads₁) hwithin hcalls hm
  refine ⟨t, ht, fun a ha => ?_⟩
  rw [atomic_fst, ← hdb] at ha
  obtain ⟨S', us, hsteps, hworld, hus, hthreads, hcommits⟩ := hends a ha
  refine ⟨S', us, .head hstart hsteps, hworld, hus, fun j hj => ?_, by rw [hcommits, hcommits₁, hdb, List.nil_append]⟩
  rw [hthreads, hthreads₁, Function.update_idem] at hj
  by_cases hji : j = i
  · rw [hji, Function.update_self] at hj
    exact hj
  · rw [Function.update_of_ne hji] at hj
    exact hclosed j hj

end Txn
