/-
# Lineups

Finitely many items, each with a name of its own at a place of its own, kept in
the order of their places, no more than the lineup has room for. A lineup is what
it holds: two lineups that hold the same are the same (`ext_perm`), so whatever
order a table keeps its rows in, there is one lineup of them.

Every change goes through `ofList`, which sorts, so it is known by what it holds.

Key definitions: `Lineup`, `Lineup.ofList`, `Lineup.insert`, `Lineup.rearrange`,
`Lineup.remove`.
Key theorems: `Lineup.ext_perm`, `Lineup.insertionSort_congr`, `Lineup.items_ofList`.
-/
import Mathlib.Data.List.Sort
import Mathlib.Data.List.Nodup

/-- Items with names and places of their own, in the order of their places, at most `size`. -/
structure Lineup {α κ ν : Type*} [LinearOrder ν] (name : α → κ) (place : α → ν) (size : ℕ) where
  items : List α
  ordered : items.Pairwise fun a b => place a < place b
  distinct : (items.map name).Nodup
  bounded : items.length ≤ size

namespace Lineup

variable {α κ ν : Type*} [LinearOrder ν] {name : α → κ} {place : α → ν} {size : ℕ}

/-- **A lineup is what it holds.** -/
theorem ext_perm {s s' : Lineup name place size} (h : s.items.Perm s'.items) : s = s' := by
  have hitems : s.items = s'.items :=
    h.eq_of_pairwise (fun a b _ _ hab hba => absurd (hab.trans hba) (lt_irrefl _)) s.ordered s'.ordered
  cases s
  cases s'
  obtain rfl := hitems
  rfl

theorem places (s : Lineup name place size) : (s.items.map place).Nodup := by
  rw [List.nodup_iff_pairwise_ne, List.pairwise_map]
  exact s.ordered.imp ne_of_lt

/-- What has places of its own sorts in one way. -/
theorem insertionSort_congr {l l' : List α} (h : l.Perm l') (hplace : (l.map place).Nodup) :
    (l.insertionSort fun a b => place a ≤ place b) = l'.insertionSort fun a b => place a ≤ place b := by
  have hperm : (l.insertionSort fun a b => place a ≤ place b).Perm (l'.insertionSort fun a b => place a ≤ place b) :=
    (l.perm_insertionSort _).trans (h.trans (l'.perm_insertionSort _).symm)
  refine hperm.eq_of_pairwise (fun a b ha hb hab hba => ?_)
    (l.pairwise_insertionSort fun a b => place a ≤ place b) (l'.pairwise_insertionSort fun a b => place a ≤ place b)
  exact List.inj_on_of_nodup_map hplace ((List.mem_insertionSort _).mp ha)
    (h.mem_iff.mpr ((List.mem_insertionSort _).mp hb)) (le_antisymm hab hba)

/-- The lineup of some items. -/
def ofList (l : List α) (hname : (l.map name).Nodup) (hplace : (l.map place).Nodup) (hsize : l.length ≤ size) :
    Lineup name place size where
  items := l.insertionSort fun a b => place a ≤ place b
  ordered := by
    have hsorted : (l.insertionSort fun a b => place a ≤ place b).Pairwise fun a b => place a ≤ place b :=
      l.pairwise_insertionSort fun a b => place a ≤ place b
    have hne : (l.insertionSort fun a b => place a ≤ place b).Pairwise fun a b => place a ≠ place b :=
      List.pairwise_map.mp (((l.perm_insertionSort _).map place).nodup_iff.mpr hplace)
    exact hsorted.imp₂ (fun a b hle hne => lt_of_le_of_ne hle hne) hne
  distinct := ((l.perm_insertionSort _).map name).nodup_iff.mpr hname
  bounded := by
    rw [List.length_insertionSort]
    exact hsize

theorem items_ofList {l : List α} (hname : (l.map name).Nodup) (hplace : (l.map place).Nodup)
    (hsize : l.length ≤ size) : (ofList l hname hplace hsize).items.Perm l := l.perm_insertionSort _

/-- The lineup with nothing on it. -/
def empty : Lineup name place size := ⟨[], .nil, List.nodup_nil, Nat.zero_le _⟩

/-- The item with a name. -/
def find [DecidableEq κ] (s : Lineup name place size) (k : κ) : Option α := s.items.find? fun a => name a = k

theorem find_eq_some [DecidableEq κ] {s : Lineup name place size} {k : κ} {a : α} :
    s.find k = some a ↔ a ∈ s.items ∧ name a = k := by
  constructor
  · intro h
    exact ⟨List.mem_of_find?_eq_some h, by simpa using List.find?_some h⟩
  · rintro ⟨ha, rfl⟩
    cases hfind : s.items.find? fun b => name b = name a with
    | none =>
      have hne := List.find?_eq_none.mp hfind a ha
      simp at hne
    | some b =>
      have hname : name b = name a := by simpa using List.find?_some hfind
      have hab : b = a := List.inj_on_of_nodup_map s.distinct (List.mem_of_find?_eq_some hfind) ha hname
      rw [find, hfind, hab]

theorem find_eq_none [DecidableEq κ] {s : Lineup name place size} {k : κ} :
    s.find k = none ↔ k ∉ s.items.map name := by
  rw [find, List.find?_eq_none, List.mem_map]
  simp

/-! ### Changes -/

/-- Another item, at a place that is free. -/
def insert (s : Lineup name place size) (a : α) (hname : name a ∉ s.items.map name)
    (hplace : place a ∉ s.items.map place) (hsize : s.items.length < size) : Lineup name place size :=
  ofList (a :: s.items) (List.nodup_cons.mpr ⟨hname, s.distinct⟩) (List.nodup_cons.mpr ⟨hplace, s.places⟩) hsize

/-- Without the item of a name. -/
def remove [DecidableEq κ] (s : Lineup name place size) (k : κ) : Lineup name place size where
  items := s.items.filter fun a => name a ≠ k
  ordered := s.ordered.filter _
  distinct := s.distinct.sublist (List.filter_sublist.map _)
  bounded := List.filter_sublist.length_le.trans s.bounded

/-- The items changed, each under its name, at places of their own. -/
def rearrange (s : Lineup name place size) (f : α → α) (hname : ∀ a, name (f a) = name a)
    (hplace : (s.items.map fun a => place (f a)).Nodup) : Lineup name place size :=
  ofList (s.items.map f)
    (by
      rw [List.map_map]
      exact (List.map_congr_left fun a _ => hname a) ▸ s.distinct)
    (by rwa [List.map_map])
    (by
      rw [List.length_map]
      exact s.bounded)

theorem items_insert (s : Lineup name place size) (a : α) (hname : name a ∉ s.items.map name)
    (hplace : place a ∉ s.items.map place) (hsize : s.items.length < size) :
    (s.insert a hname hplace hsize).items.Perm (a :: s.items) := items_ofList _ _ _

theorem items_rearrange (s : Lineup name place size) (f : α → α) (hname : ∀ a, name (f a) = name a)
    (hplace : (s.items.map fun a => place (f a)).Nodup) :
    (s.rearrange f hname hplace).items.Perm (s.items.map f) := items_ofList _ _ _

end Lineup
