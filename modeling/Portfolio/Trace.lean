/-
# Runs of machines, and simulation

A machine is a relation of states, labels and states. Where every step of one
machine is a step of another with a label of its own, or none at all, and the
states stay related, every run of the first is a run of the second. Where part of
a label decides the rest of it and the next state, it does so for a run.

Key definitions: `Trace.Run`.
Key theorems: `Trace.Run.invariant`, `Trace.Run.simulate`, `Trace.Run.determined`.
-/
import Mathlib.Data.List.Basic

namespace Trace

variable {A B L M : Type*}

/-- A run of a machine, with the labels of its steps in order. -/
inductive Run (step : A → L → A → Prop) : A → List L → A → Prop
  | nil (a : A) : Run step a [] a
  | snoc {a b c : A} {ls : List L} {l : L} (h : Run step a ls b) (hst : step b l c) : Run step a (ls ++ [l]) c

variable {step : A → L → A → Prop} {step' : B → M → B → Prop} {a b : A} {ls : List L}

/-- What every step of a run keeps, the run keeps. -/
theorem Run.invariant {I : A → Prop} (h : Run step a ls b) (hstep : ∀ a l b, l ∈ ls → step a l b → I a → I b)
    (ha : I a) : I b := by
  induction h with
  | nil => exact ha
  | @snoc _ _ ls l _ hst ih =>
    have hI := ih fun a l' b hl' => hstep a l' b (List.mem_append_left _ hl')
    exact hstep _ _ _ (List.mem_append_right _ (List.mem_singleton_self l)) hst hI

/-- **Simulation**: a machine whose steps are steps of another, or none, has its runs. -/
theorem Run.simulate {R : A → B → Prop} {label : L → Option M}
    (hstep : ∀ {a l a' b}, step a l a' → R a b →
      (label l = none ∧ R a' b) ∨ ∃ m b', label l = some m ∧ step' b m b' ∧ R a' b')
    {a a' : A} {b : B} (h : Run step a ls a') (hR : R a b) :
    ∃ b', Run step' b (ls.filterMap label) b' ∧ R a' b' := by
  induction h with
  | nil => exact ⟨b, .nil b, hR⟩
  | @snoc a₁ a₂ ls l _ hst ih =>
    obtain ⟨b₁, hrun, hR₁⟩ := ih
    rw [List.filterMap_append]
    rcases hstep hst hR₁ with ⟨hnone, hR₂⟩ | ⟨m, b₂, hsome, hst', hR₂⟩
    · refine ⟨b₁, ?_, hR₂⟩
      rwa [List.filterMap_cons_none hnone, List.filterMap_nil, List.append_nil]
    · refine ⟨b₂, ?_, hR₂⟩
      rw [List.filterMap_cons_some hsome, List.filterMap_nil]
      exact hrun.snoc hst'

/-- **Determinism**: where a step is decided by what goes into it, so is a run. -/
theorem Run.determined {K N : Type*} {f : L → K} {g : L → N}
    (hstep : ∀ {a l b l' b'}, step a l b → step a l' b' → f l = f l' → b = b' ∧ g l = g l') {b' : A} {ls' : List L}
    (h : Run step a ls b) (h' : Run step a ls' b') (hf : ls.map f = ls'.map f) :
    b = b' ∧ ls.map g = ls'.map g := by
  induction h generalizing ls' b' with
  | nil =>
    cases h' with
    | nil => exact ⟨rfl, rfl⟩
    | snoc => simp at hf
  | @snoc _ _ ls l _ hst ih =>
    cases h' with
    | nil => simp at hf
    | snoc h' hst' =>
      rw [List.map_append, List.map_append] at hf
      obtain ⟨hinit, hlast⟩ := List.append_inj' hf rfl
      obtain ⟨rfl, hg⟩ := ih h' hinit
      obtain ⟨rfl, hgl⟩ := hstep hst hst' (List.singleton_inj.mp hlast)
      refine ⟨rfl, ?_⟩
      rw [List.map_append, List.map_append, hg, List.map_singleton, List.map_singleton, hgl]

end Trace
