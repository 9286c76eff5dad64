/-
# The segments of a list

A list split at a separator. No segment is empty exactly when the list is not,
neither starts nor ends with the separator, and has no two of them in a row.

Key theorems: `Segments.nonempty_iff`, `Segments.single`.
-/
import Mathlib.Data.List.Infix
import Mathlib.Tactic.Tauto

namespace Segments

variable {α : Type*} [DecidableEq α] {sep : α}

theorem cons_sep (l : List α) : (sep :: l).splitOn sep = [] :: l.splitOn sep := by
  rw [List.splitOn_cons_eq_if_modifyHead, if_pos (beq_self_eq_true sep)]

theorem cons_other {a : α} (h : a ≠ sep) (l : List α) :
    (a :: l).splitOn sep = (l.splitOn sep).modifyHead (a :: ·) := by
  rw [List.splitOn_cons_eq_if_modifyHead, if_neg (by simpa using h)]

/-- There is always a first segment. -/
theorem exists_cons (sep : α) (l : List α) : ∃ first rest, l.splitOn sep = first :: rest :=
  List.exists_cons_of_ne_nil (List.splitOn_ne_nil sep l)

/-- A list without separators is its only segment. -/
theorem single {l : List α} (h : sep ∉ l) : l.splitOn sep = [l] := List.splitOn_eq_singleton h

theorem first_nonempty_iff : ∀ {l first : List α} {rest : List (List α)}, l.splitOn sep = first :: rest →
    (first ≠ [] ↔ l ≠ [] ∧ ¬ [sep] <+: l)
  | [], first, rest, h => by
    rw [List.splitOn_nil] at h
    simp [(List.cons.inj h).1.symm]
  | a :: l, first, rest, h => by
    by_cases ha : a = sep
    · rw [ha, cons_sep] at h
      simp [(List.cons.inj h).1.symm, ha]
    · obtain ⟨head, tail, hl⟩ := exists_cons sep l
      rw [cons_other ha, hl] at h
      have hfirst : a :: head = first := (List.cons.inj h).1
      simp [← hfirst, Ne.symm ha]

/-- Past the first segment, none is empty when no separator ends the list or follows another. -/
theorem rest_nonempty_iff : ∀ {l first : List α} {rest : List (List α)}, l.splitOn sep = first :: rest →
    ((∀ part ∈ rest, part ≠ []) ↔ ¬ [sep] <:+ l ∧ ¬ [sep, sep] <:+: l)
  | [], first, rest, h => by
    rw [List.splitOn_nil] at h
    simp [(List.cons.inj h).2.symm]
  | a :: l, first, rest, h => by
    obtain ⟨head, tail, hl⟩ := exists_cons sep l
    have htail := rest_nonempty_iff hl
    rw [List.suffix_cons_iff, List.infix_cons_iff]
    by_cases ha : a = sep
    · subst ha
      have hhead := first_nonempty_iff hl
      rw [cons_sep, hl] at h
      rw [← (List.cons.inj h).2, List.forall_mem_cons, hhead, htail]
      rw [List.cons_prefix_cons]
      rcases l with - | ⟨b, l⟩
      · simp
      · simp only [List.cons.injEq, true_and, ne_eq, reduceCtorEq, not_false_eq_true]
        tauto
    · rw [cons_other ha, hl] at h
      rw [← (List.cons.inj h).2, htail, List.cons_prefix_cons]
      have hne : sep ≠ a := Ne.symm ha
      simp [hne]

/-- **No segment is empty.** -/
theorem nonempty_iff (l : List α) :
    (∀ part ∈ l.splitOn sep, part ≠ []) ↔
      l ≠ [] ∧ ¬ [sep] <+: l ∧ ¬ [sep] <:+ l ∧ ¬ [sep, sep] <:+: l := by
  obtain ⟨first, rest, h⟩ := exists_cons sep l
  rw [h, List.forall_mem_cons, first_nonempty_iff h, rest_nonempty_iff h, and_assoc]

end Segments
