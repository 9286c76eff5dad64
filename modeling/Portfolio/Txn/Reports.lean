/-
# Faults and how a program reports them

The faults of a run are those its statements are answered with
(`Prog.faults`). A program `Reports` its faults if it ends at the first one,
with an error that says which (`R`), and throws only errors of its own (`Own`)
when there is none. Then the result of a run tells its faults, and the other
way round (`Reports.run`), and wherever an attempt of the system stands, a
statement that fails there ends it (`Steps.ends`).

Key definitions: `Prog.faults`, `Prog.Reports`.
Key theorems: `Reports.bind`, `Reports.run`, `Steps.hereditary`, `Steps.ends`.
-/
import Portfolio.Txn.System

namespace Txn

variable {σ τ υ ω ρ δ ε α β κ : Type}

/-- What the statements of a run in one piece fail with. -/
def Prog.faults [Store σ ω ρ] : Prog (Stmt σ τ υ ω ρ δ) δ ε α → (ℕ → τ) → σ → List δ
  | .ret _, _, _ => []
  | .throw _, _, _ => []
  | .call st k, t, s =>
    match (st.run (t 0) s).1 with
    | .ok a => (k (.ok a)).faults (later t) (applyAll (st.run (t 0) s).2 s)
    | .error d => d :: (k (.error d)).faults (later t) (applyAll (st.run (t 0) s).2 s)

/-- A fault `d` ends the program with an error that `R` relates to `d`; without one the program throws an error of
its own or ends well. -/
def Prog.Reports {S : Type → Type} (Own : ε → Prop) (R : δ → ε → Prop) : Prog S δ ε α → Prop
  | .ret _ => True
  | .throw e => Own e
  | .call _ k => (∀ d, ∃ e, k (.error d) = .throw e ∧ R d e) ∧ ∀ a, (k (.ok a)).Reports Own R

/-! ### Rules -/

section
variable {S : Type → Type} {Own : ε → Prop} {R : δ → ε → Prop}

theorem reports_ret (a : α) : (Prog.ret a : Prog S δ ε α).Reports Own R := trivial

theorem reports_throw {e : ε} (h : Own e) : (Prog.throw e : Prog S δ ε α).Reports Own R := h

theorem Prog.Reports.bind : ∀ {p : Prog S δ ε α} {f : α → Prog S δ ε β}, p.Reports Own R →
    (∀ a, (f a).Reports Own R) → (p >>= f).Reports Own R
  | .ret a, _, _, hf => hf a
  | .throw _, _, h, _ => h
  | .call st k, f, h, hf => by
    refine ⟨fun d => ?_, fun a => Reports.bind (h.2 a) hf⟩
    obtain ⟨e, he, hR⟩ := h.1 d
    exact ⟨e, congrArg (Prog.bind · f) he, hR⟩

theorem reports_perform {st : S α} {err : δ → ε} (h : ∀ d, R d (err d)) : (Prog.perform st err).Reports Own R :=
  ⟨fun d => ⟨err d, rfl, h d⟩, fun _ => trivial⟩

/-- An attempted statement whose faults are thrown on. -/
theorem reports_attempt {st : S α} {f : Except δ α → Prog S δ ε β}
    (herr : ∀ d, ∃ e, f (.error d) = .throw e ∧ R d e) (hok : ∀ a, (f (.ok a)).Reports Own R) :
    (Prog.attempt st >>= f).Reports Own R := ⟨herr, hok⟩

end

/-! ### Runs -/

section
variable [Store σ ω ρ] {Own : ε → Prop} {R : δ → ε → Prop}

/-- What the faults of a run are, by what it ends with. -/
theorem Prog.Reports.run : ∀ {p : Prog (Stmt σ τ υ ω ρ δ) δ ε α}, p.Reports Own R → ∀ (t : ℕ → τ) (s : σ),
    match (p.run t s).1 with
    | .ok _ => p.faults t s = []
    | .error e => (Own e ∧ p.faults t s = []) ∨ ∃ d, p.faults t s = [d] ∧ R d e
  | .ret _, _, _, _ => rfl
  | .throw _, h, _, _ => Or.inl ⟨h, rfl⟩
  | .call st k, ⟨herr, hok⟩, t, s => by
    unfold Prog.run Prog.faults
    cases hst : (st.run (t 0) s).1 with
    | ok a => exact Reports.run (hok a) (later t) _
    | error d =>
      obtain ⟨e, he, hR⟩ := herr d
      simp only [he]
      exact Or.inr ⟨d, rfl, hR⟩

/-- A run that ends well has no faults. -/
theorem Prog.Reports.faults_ok {p : Prog (Stmt σ τ υ ω ρ δ) δ ε α} (h : p.Reports Own R) {t : ℕ → τ} {s : σ} {a : α}
    (hp : (p.run t s).1 = .ok a) : p.faults t s = [] := by
  have hrun := h.run t s
  rw [hp] at hrun
  exact hrun

/-- A run that fails does so by itself or at a fault, the only one. -/
theorem Prog.Reports.faults_error {p : Prog (Stmt σ τ υ ω ρ δ) δ ε α} (h : p.Reports Own R) {t : ℕ → τ} {s : σ}
    {e : ε} (hp : (p.run t s).1 = .error e) :
    (Own e ∧ p.faults t s = []) ∨ ∃ d, p.faults t s = [d] ∧ R d e := by
  have hrun := h.run t s
  rw [hp] at hrun
  exact hrun

/-- A fault of a run is in what it ends with. -/
theorem Prog.Reports.of_mem {p : Prog (Stmt σ τ υ ω ρ δ) δ ε α} (h : p.Reports Own R) {t : ℕ → τ} {s : σ} {d : δ}
    (hd : d ∈ p.faults t s) : ∃ e, (p.run t s).1 = .error e ∧ R d e := by
  cases hp : (p.run t s).1 with
  | ok a =>
    rw [h.faults_ok hp] at hd
    exact (List.not_mem_nil hd).elim
  | error e =>
    rcases h.faults_error hp with ⟨-, hnil⟩ | ⟨d', hsingle, hR⟩
    · rw [hnil] at hd
      exact (List.not_mem_nil hd).elim
    · rw [hsingle] at hd
      obtain rfl := List.mem_singleton.mp hd
      exact ⟨e, rfl, hR⟩

/-! ### In the system -/

variable {code : κ → Prog (Stmt σ τ υ ω ρ δ) δ ε α} {ok : κ → Prop}

/-- What every statement of a program passes on holds of the program an attempt has left. -/
theorem Steps.hereditary {P : Prog (Stmt σ τ υ ω ρ δ) δ ε α → Prop} (hcode : ∀ c, P (code c))
    (hnext : ∀ {β : Type} {st : Stmt σ τ υ ω ρ δ β} {k : Except δ β → Prog (Stmt σ τ υ ω ρ δ) δ ε α} (r : Except δ β),
      P (.call st k) → P (k r)) {s : σ} {w : υ} {S : Sys σ τ υ ω ρ δ ε α κ}
    (h : Steps code ok (Sys.initial s w) S) : ∀ i c ticks p log held,
      S.threads i = .active c ticks p log held → P p := by
  have hupdate : ∀ {threads : ℕ → Thread σ τ υ ω ρ δ ε α κ} {j : ℕ} {th : Thread σ τ υ ω ρ δ ε α κ},
      (∀ i c ticks p log held, threads i = .active c ticks p log held → P p) →
      (∀ c ticks p log held, th = .active c ticks p log held → P p) →
      ∀ i c ticks p log held, Function.update threads j th i = .active c ticks p log held → P p := by
    intro threads j th hthreads hth i c ticks p log held hi
    by_cases hij : i = j
    · rw [hij, Function.update_self] at hi
      exact hth c ticks p log held hi
    · rw [Function.update_of_ne hij] at hi
      exact hthreads i c ticks p log held hi
  induction h with
  | refl => exact fun i c ticks p log held hi => nomatch hi
  | tail _ hstep ih =>
    cases hstep with
    | start _ _ =>
      refine hupdate ih fun c ticks p log held hth => ?_
      cases hth
      exact hcode _
    | exec hi _ _ =>
      refine hupdate ih fun c ticks p log held hth => ?_
      cases hth
      exact hnext _ (ih _ _ _ _ _ _ hi)
    | commit _ | fail _ | drop _ => exact hupdate ih fun c ticks p log held hth => nomatch hth

/-- What an attempt has left reports its faults. -/
theorem Steps.reports (hcode : ∀ c, (code c).Reports Own R) {s : σ} {w : υ} {S : Sys σ τ υ ω ρ δ ε α κ}
    (h : Steps code ok (Sys.initial s w) S) {i : ℕ} {c : κ} {ticks : List τ} {st : Stmt σ τ υ ω ρ δ β}
    {k : Except δ β → Prog (Stmt σ τ υ ω ρ δ) δ ε α} {log : List ω} {held : List ρ}
    (hi : S.threads i = .active c ticks (.call st k) log held) : (Prog.call st k).Reports Own R := by
  have hp := @Steps.hereditary _ _ _ _ _ _ _ _ _ _ code ok
    (fun p => p.Reports Own R ∨ ∃ e, p = .throw e) (fun c => Or.inl (hcode c)) (fun {_ _ _} r hcall => by
      rcases hcall with ⟨herr, hok⟩ | ⟨e, he⟩
      · cases r with
        | ok a => exact Or.inl (hok a)
        | error d =>
          obtain ⟨e, he, -⟩ := herr d
          exact Or.inr ⟨e, he⟩
      · cases he) s w S h i c ticks _ log held hi
  rcases hp with hreports | ⟨e, he⟩
  · exact hreports
  · cases he

/-- A statement that fails ends its attempt, with an error that reports it. -/
theorem Steps.ends (hcode : ∀ c, (code c).Reports Own R) {s : σ} {w : υ} {S : Sys σ τ υ ω ρ δ ε α κ}
    (h : Steps code ok (Sys.initial s w) S) {i : ℕ} {c : κ} {ticks : List τ} {st : Stmt σ τ υ ω ρ δ β}
    {k : Except δ β → Prog (Stmt σ τ υ ω ρ δ) δ ε α} {log : List ω} {held : List ρ}
    (hi : S.threads i = .active c ticks (.call st k) log held) (d : δ) : ∃ e, k (.error d) = .throw e ∧ R d e :=
  (Steps.reports hcode h hi).1 d

end

end Txn
