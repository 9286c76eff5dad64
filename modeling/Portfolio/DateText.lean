/-
# The texts of dates

`Display` writes a date as fields of fixed width, with a minus before a
negative year. So texts compare by year, month and day like the dates, except
that the minus comes before the digits: a negative year is before any other,
and of two negative years the later one is the lesser text
(`Date.text_lt_of_neg`).

Key definitions: `Date.fields`, `Date.inYear`, `Date.ord`.
Key theorems: `padded_lt_iff`, `Date.text_lt_of_nonneg`, `Date.text_lt_of_neg`,
`Date.text_lt_of_signs`.
-/
import Portfolio.Decimal
import Portfolio.Time

namespace Portfolio

open Decimal

/-! ### Padded numbers -/

section
variable {w n m : ℕ}

theorem toList_padded (w n : ℕ) :
    (padded w n).toList = List.replicate (w - (toString n).length) '0' ++ Nat.toDigits 10 n := by
  rw [padded, String.toList_append, String.toList_ofList, Nat.toString_eq_repr, Nat.toList_repr]

theorem digits_padded (w n : ℕ) : Digits (padded w n).toList := by
  rw [toList_padded]
  exact (digits_replicate _).append (digits_toDigits n)

theorem length_padded (hw : 0 < w) (hn : n < 10 ^ w) : (padded w n).toList.length = w := by
  have hle : (toString n).length ≤ w := by
    rw [Nat.toString_eq_repr, Nat.length_repr_le_iff hw]
    exact hn
  have hlen : (Nat.toDigits 10 n).length = (toString n).length := by
    rw [Nat.toString_eq_repr, ← Nat.toList_repr, String.length_toList]
  rw [toList_padded, List.length_append, List.length_replicate, hlen]
  omega

theorem value_padded (w n : ℕ) : Nat.ofDigitChars 10 (padded w n).toList 0 = n := by
  rw [toList_padded, Nat.ofDigitChars_append, Nat.ofDigitChars_replicate_zero, Nat.mul_zero,
    Nat.ofDigitChars_ten_toDigits]

/-- Numbers of one width compare as their texts. -/
theorem padded_lt_iff (hw : 0 < w) (hn : n < 10 ^ w) (hm : m < 10 ^ w) :
    (padded w n).toList < (padded w m).toList ↔ n < m := by
  rw [lt_iff_of_length_eq (digits_padded w n) (digits_padded w m), value_padded, value_padded]
  rw [length_padded hw hn, length_padded hw hm]

theorem padded_inj : (padded w n).toList = (padded w m).toList ↔ n = m := by
  refine ⟨fun h => ?_, fun h => by rw [h]⟩
  rw [← value_padded w n, h, value_padded]

end

/-! ### Dates -/

namespace Date

/-- The text after the sign. -/
def fields (d : Date) : List Char :=
  (padded 4 d.year.natAbs).toList ++ ('-' :: (padded 2 d.month).toList ++ '-' :: (padded 2 d.day).toList)

/-- Month and day come before those of another date. -/
def inYear (a b : Date) : Prop := a.month < b.month ∨ (a.month = b.month ∧ a.day < b.day)

theorem toList_text (d : Date) : d.text.toList = (if d.year < 0 then ['-'] else []) ++ d.fields := by
  unfold text fields
  split <;> simp [String.toList_append, List.append_assoc]

theorem natAbs_year_lt (d : Date) : d.year.natAbs < 10 ^ 4 := by
  have := d.year_le
  omega

theorem month_lt (d : Date) : d.month < 10 ^ 2 := by
  have := d.month_le
  omega

theorem day_lt (d : Date) : d.day < 32 := by
  have h1 := d.day_le
  have h2 : daysInMonth d.year d.month ≤ 31 := by
    unfold daysInMonth
    split
    · split <;> omega
    · split <;> omega
  omega

variable {a b : Date}

theorem before_iff : a.before b = true ↔ a.year < b.year ∨ (a.year = b.year ∧ a.inYear b) := decide_eq_true_iff

/-- A number that orders dates. -/
def ord (d : Date) : ℤ := (d.year * 13 + d.month) * 32 + d.day

theorem before_iff_ord : a.before b = true ↔ a.ord < b.ord := by
  have h1 := a.month_le
  have h2 := b.month_le
  have h3 := a.day_lt
  have h4 := b.day_lt
  rw [before_iff]
  unfold inYear ord
  omega

/-- After the sign, texts compare by the digits of the year, then month, then day. -/
theorem fields_lt_iff : a.fields < b.fields ↔
    a.year.natAbs < b.year.natAbs ∨ (a.year.natAbs = b.year.natAbs ∧ a.inYear b) := by
  have hyear : (padded 4 a.year.natAbs).toList.length = (padded 4 b.year.natAbs).toList.length := by
    rw [length_padded (by decide) a.natAbs_year_lt, length_padded (by decide) b.natAbs_year_lt]
  have hmonth : (padded 2 a.month).toList.length = (padded 2 b.month).toList.length := by
    rw [length_padded (by decide) a.month_lt, length_padded (by decide) b.month_lt]
  unfold fields
  rw [append_lt_append_iff _ _ hyear, padded_lt_iff (by decide) a.natAbs_year_lt b.natAbs_year_lt, padded_inj]
  rw [List.cons_append, List.cons_append, List.cons_lt_cons_iff, append_lt_append_iff _ _ hmonth,
    padded_lt_iff (by decide) a.month_lt b.month_lt, padded_inj, List.cons_lt_cons_iff,
    padded_lt_iff (by decide) (Nat.lt_trans a.day_lt (by decide)) (Nat.lt_trans b.day_lt (by decide))]
  simp [inYear]

/-- From year 0 on, texts compare as dates. -/
theorem text_lt_of_nonneg (ha : 0 ≤ a.year) (hb : 0 ≤ b.year) : a.text < b.text ↔ a.before b = true := by
  rw [String.lt_iff, toList_text, toList_text, if_neg (by omega), if_neg (by omega), List.nil_append, List.nil_append,
    fields_lt_iff, before_iff]
  have h1 : a.year.natAbs < b.year.natAbs ↔ a.year < b.year := by omega
  have h2 : a.year.natAbs = b.year.natAbs ↔ a.year = b.year := by omega
  rw [h1, h2]

/-- Before year 0, the later year has the lesser text. -/
theorem text_lt_of_neg (ha : a.year < 0) (hb : b.year < 0) :
    a.text < b.text ↔ b.year < a.year ∨ (a.year = b.year ∧ a.inYear b) := by
  rw [String.lt_iff, toList_text, toList_text, if_pos ha, if_pos hb, List.singleton_append, List.singleton_append,
    List.cons_lt_cons_iff, fields_lt_iff]
  have h1 : a.year.natAbs < b.year.natAbs ↔ b.year < a.year := by omega
  have h2 : a.year.natAbs = b.year.natAbs ↔ a.year = b.year := by omega
  simp only [Char.lt_irrefl, true_and, false_or, h1, h2]

/-- A negative year has the lesser text. -/
theorem text_lt_of_signs (ha : a.year < 0) (hb : 0 ≤ b.year) : a.text < b.text := by
  rw [String.lt_iff, toList_text, toList_text, if_pos ha, if_neg (by omega), List.singleton_append, List.nil_append]
  have hne : (padded 4 b.year.natAbs).toList ≠ [] := by
    intro hnil
    have hlen := length_padded (n := b.year.natAbs) (w := 4) (by decide) b.natAbs_year_lt
    rw [hnil] at hlen
    cases hlen
  obtain ⟨c, cs, hcs⟩ := List.exists_cons_of_ne_nil hne
  have hc : c.isDigit = true := digits_padded 4 b.year.natAbs c (by rw [hcs]; exact List.mem_cons_self)
  have hlt : '-' < c := Nat.lt_of_lt_of_le (by decide) (isDigit_iff.mp hc).1
  rw [show b.fields = c :: (cs ++ _) by rw [fields, hcs, List.cons_append]]
  exact List.cons_lt_cons_iff.mpr (Or.inl hlt)

/-- The earlier date has the lesser text, unless both are in negative years that differ. -/
theorem text_lt_of_before (h : a.before b = true) (hyears : a.year < 0 → b.year < 0 → a.year = b.year) :
    a.text < b.text := by
  rcases Int.lt_or_le a.year 0 with ha | ha <;> rcases Int.lt_or_le b.year 0 with hb | hb
  · rcases before_iff.mp h with hlt | ⟨-, hin⟩
    · have hyear := hyears ha hb
      omega
    · exact (text_lt_of_neg ha hb).mpr (Or.inr ⟨hyears ha hb, hin⟩)
  · exact text_lt_of_signs ha hb
  · rcases before_iff.mp h with hlt | ⟨hyear, -⟩ <;> omega
  · exact (text_lt_of_nonneg ha hb).mpr h

end Date

end Portfolio
