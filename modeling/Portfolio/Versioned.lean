/-
# Versions that determine content

A state with a version and a content, and steps that either leave both as
they are or raise the version. Along any run of such steps the version never
falls, and two moments with the same version have the same content: the
version is a token for compare-and-swap. One step that raises the version is
enough to tell all later moments from all earlier ones.

Key definitions: `Versioned.Step`.
Key theorems: `Versioned.run_le`, `Versioned.run_eq`.
-/
import Mathlib.Logic.Relation
import Mathlib.Order.Basic

namespace Versioned

variable {σ ν γ : Type} [Preorder ν] (version : σ → ν) (content : σ → γ)

/-- The step leaves version and content as they are, or raises the version. -/
def Step (s s' : σ) : Prop :=
  (version s' = version s ∧ content s' = content s) ∨ version s < version s'

variable {version content}

/-- The version never falls. -/
theorem run_le {s s' : σ} (h : Relation.ReflTransGen (Step version content) s s') :
    version s ≤ version s' := by
  induction h with
  | refl => exact le_refl _
  | tail _ hst ih =>
    rcases hst with ⟨hv, -⟩ | hlt
    · rw [hv]; exact ih
    · exact ih.trans hlt.le

/-- **The version determines the content.** -/
theorem run_eq {s s' : σ} (h : Relation.ReflTransGen (Step version content) s s')
    (hv : version s' = version s) : content s' = content s := by
  induction h with
  | refl => rfl
  | @tail m s' hsm hst ih =>
    rcases hst with ⟨hv', hc⟩ | hlt
    · rw [hc]; exact ih (hv'.symm.trans hv)
    · exact absurd (lt_of_le_of_lt (run_le hsm) hlt) (hv ▸ lt_irrefl _)

end Versioned
