/-
# Decimal texts

Lists of decimal digits and their values (`Nat.ofDigitChars`). Two of one
length compare as lists, character by character, the way their values compare
as numbers, so texts put together of such fields compare field by field.

Without a leading zero a number has one text.

Key definitions: `Decimal.Digits`, `Decimal.Canonical`.
Key theorems: `eq_of_toString`, `ofDigitChars_lt`, `lt_iff_of_length_eq`,
`append_lt_append_iff`, `Canonical.eq_of_value`.
-/
import Mathlib.Data.Nat.Digits.Defs
import Mathlib.Data.String.Basic
import Mathlib.Tactic.IntervalCases

namespace Decimal

/-- The characters are decimal digits. -/
def Digits (l : List Char) : Prop := ∀ c ∈ l, c.isDigit = true

theorem isDigit_iff {c : Char} : c.isDigit = true ↔ 48 ≤ c.toNat ∧ c.toNat ≤ 57 := by
  unfold Char.isDigit
  rw [Bool.and_eq_true, decide_eq_true_eq, decide_eq_true_eq]
  exact Iff.rfl

theorem digits_toDigits (n : ℕ) : Digits (Nat.toDigits 10 n) := fun _ hc =>
  Nat.isDigit_of_mem_toDigits (by decide) (by decide) hc

/-- The text of a natural number is its digits. -/
theorem toList_toString (n : ℕ) : (toString (n : ℤ)).toList = Nat.toDigits 10 n := by
  show (Nat.repr n).toList = _
  rw [Nat.toList_repr]

/-- Natural numbers of one text are equal. -/
theorem eq_of_toString {m n : ℕ} (h : toString (m : ℤ) = toString (n : ℤ)) : m = n := by
  have hdigits : Nat.toDigits 10 m = Nat.toDigits 10 n := by rw [← toList_toString, h, toList_toString]
  calc m = Nat.ofDigitChars 10 (Nat.toDigits 10 m) 0 := Nat.ofDigitChars_ten_toDigits.symm
    _ = Nat.ofDigitChars 10 (Nat.toDigits 10 n) 0 := by rw [hdigits]
    _ = n := Nat.ofDigitChars_ten_toDigits

theorem Digits.append {l m : List Char} (hl : Digits l) (hm : Digits m) : Digits (l ++ m) := fun c hc =>
  (List.mem_append.mp hc).elim (hl c) (hm c)

theorem digits_replicate (k : ℕ) : Digits (List.replicate k '0') := by
  intro c hc
  rw [(List.mem_replicate.mp hc).2]
  decide

theorem ofDigitChars_cons_eq (c : Char) (l : List Char) :
    Nat.ofDigitChars 10 (c :: l) 0 = 10 ^ l.length * (c.toNat - 48) + Nat.ofDigitChars 10 l 0 := by
  rw [Nat.ofDigitChars_cons, Nat.ofDigitChars_eq_ofDigitChars_zero]
  simp

/-- The value of `k` digits is below `10 ^ k`. -/
theorem ofDigitChars_lt : ∀ {l : List Char}, Digits l → Nat.ofDigitChars 10 l 0 < 10 ^ l.length
  | [], _ => by simp
  | c :: l, h => by
    obtain ⟨hc, hl⟩ := List.forall_mem_cons.mp h
    have h1 := isDigit_iff.mp hc
    have h2 := ofDigitChars_lt (l := l) hl
    rw [ofDigitChars_cons_eq, List.length_cons, Nat.pow_succ]
    have h3 : 10 ^ l.length * (c.toNat - 48) ≤ 10 ^ l.length * 9 := Nat.mul_le_mul_left _ (by omega)
    omega

/-- Texts that begin with parts of one length compare by these first. -/
theorem append_lt_append_iff : ∀ {a b : List Char} (l m : List Char), a.length = b.length →
    (a ++ l < b ++ m ↔ a < b ∨ (a = b ∧ l < m))
  | [], [], l, m, _ => by simp
  | c :: a, d :: b, l, m, h => by
    have ih := append_lt_append_iff l m (Nat.succ.inj h)
    rw [List.cons_append, List.cons_append, List.cons_lt_cons_iff, List.cons_lt_cons_iff, ih, List.cons.injEq]
    tauto

/-- Of texts of digits with one length the less is the one of the less number. -/
theorem lt_iff_of_length_eq : ∀ {l m : List Char}, Digits l → Digits m → l.length = m.length →
    (l < m ↔ Nat.ofDigitChars 10 l 0 < Nat.ofDigitChars 10 m 0)
  | [], [], _, _, _ => by simp
  | c :: l, d :: m, hl, hm, h => by
    obtain ⟨hc, hl⟩ := List.forall_mem_cons.mp hl
    obtain ⟨hd, hm⟩ := List.forall_mem_cons.mp hm
    have hlen : l.length = m.length := Nat.succ.inj h
    have ih := lt_iff_of_length_eq hl hm hlen
    have hlow := ofDigitChars_lt hl
    have hhigh := ofDigitChars_lt hm
    rw [hlen] at hlow
    rw [List.cons_lt_cons_iff, ih, ofDigitChars_cons_eq, ofDigitChars_cons_eq, hlen]
    -- the first digits decide, unless they are one
    have hfirst : ∀ {x y a b : ℕ}, x < y → a < 10 ^ m.length → 10 ^ m.length * x + a < 10 ^ m.length * y + b := by
      intro x y a b hxy ha
      have := Nat.mul_le_mul_left (10 ^ m.length) hxy
      rw [Nat.succ_eq_add_one, Nat.mul_add, Nat.mul_one] at this
      omega
    have hc' := isDigit_iff.mp hc
    have hd' := isDigit_iff.mp hd
    rcases Nat.lt_trichotomy c.toNat d.toNat with hlt | heq | hgt
    · have hcd : c < d := hlt
      exact iff_of_true (Or.inl hcd) (hfirst (by omega) hlow)
    · obtain rfl : c = d := Char.toNat_inj.mp heq
      simp only [Char.lt_irrefl, true_and, false_or]
      omega
    · have hnot : ¬ c < d := fun hcd => Nat.lt_asymm hgt hcd
      have hne : c ≠ d := fun he => by rw [he] at hgt; exact Nat.lt_irrefl _ hgt
      refine iff_of_false (fun h => h.elim hnot fun h => hne h.1) ?_
      exact Nat.lt_asymm (hfirst (by omega) hhigh)

/-! ### One text for a number -/

/-- At least one digit, and the first is not zero. -/
def Canonical (l : List Char) : Prop := Digits l ∧ l ≠ [] ∧ l.head? ≠ some '0'

/-- A canonical text of `k + 1` digits denotes at least `10 ^ k`. -/
theorem Canonical.le_value {c : Char} {l : List Char} (h : Canonical (c :: l)) :
    10 ^ l.length ≤ Nat.ofDigitChars 10 (c :: l) 0 := by
  have hc := isDigit_iff.mp (h.1 c List.mem_cons_self)
  have hzero : c ≠ '0' := fun hc => h.2.2 (congrArg some hc)
  have hne : c.toNat ≠ 48 := fun hc => hzero (Char.toNat_inj.mp hc)
  have hfirst : 10 ^ l.length * 1 ≤ 10 ^ l.length * (c.toNat - 48) := Nat.mul_le_mul_left _ (by omega)
  rw [ofDigitChars_cons_eq]
  omega

theorem Canonical.length_le {l m : List Char} (hl : Canonical l) (hm : Canonical m)
    (h : Nat.ofDigitChars 10 l 0 ≤ Nat.ofDigitChars 10 m 0) : l.length ≤ m.length := by
  cases l with
  | nil => exact absurd rfl hl.2.1
  | cons c l =>
    have hlow := hl.le_value
    have hhigh := ofDigitChars_lt hm.1
    have hpow : 10 ^ l.length < 10 ^ m.length := by omega
    exact (Nat.pow_lt_pow_iff_right (by decide)).mp hpow

/-- **Canonical texts of one number are equal.** -/
theorem Canonical.eq_of_value {l m : List Char} (hl : Canonical l) (hm : Canonical m)
    (h : Nat.ofDigitChars 10 l 0 = Nat.ofDigitChars 10 m 0) : l = m := by
  have hlen : l.length = m.length := Nat.le_antisymm (hl.length_le hm (Nat.le_of_eq h))
    (hm.length_le hl (Nat.le_of_eq h.symm))
  have hnot : ¬ l < m := fun hlt => absurd ((lt_iff_of_length_eq hl.1 hm.1 hlen).mp hlt) (by omega)
  have hnot' : ¬ m < l := fun hlt => absurd ((lt_iff_of_length_eq hm.1 hl.1 hlen.symm).mp hlt) (by omega)
  exact List.le_antisymm hnot' hnot

/-- The text of a positive number is canonical. -/
theorem canonical_toDigits {n : ℕ} (h : 0 < n) : Canonical (Nat.toDigits 10 n) := by
  have hhead : ∀ n : ℕ, 0 < n → (Nat.toDigits 10 n).head? ≠ some '0' := by
    intro n
    induction n using Nat.strongRecOn with
    | ind n ih =>
      intro hpos
      by_cases hn : n < 10
      · rw [Nat.toDigits_of_lt_base hn]
        interval_cases n <;> decide
      · have hquot : 0 < n / 10 := by omega
        obtain ⟨c, cs, hcs⟩ := List.exists_cons_of_ne_nil (l := Nat.toDigits 10 (n / 10)) (by simp)
        have hih := ih (n / 10) (by omega) hquot
        rw [hcs] at hih
        rw [Nat.toDigits_of_base_le (by decide) (by omega : 10 ≤ n), hcs]
        exact hih
  exact ⟨digits_toDigits n, by simp, hhead n h⟩

end Decimal
