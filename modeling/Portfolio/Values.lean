/-
# Documents as values

A value keeps of an object one field of each name: the last, where the first
stood. A document that is its own value is settled; a value is
(`value_settled`), and what it holds is.

Key definitions: `Wire.settle`, `Wire.value`, `Wire.Settled`.
Key theorems: `Wire.value_settled`, `Wire.Settled.nodup`, `Wire.Settled.mem`,
`Wire.settled_obj`.
-/
import Portfolio.Wire
import Portfolio.Table

namespace Wire

/-- A field into those of an object. -/
def insertField (fs : List (String × Wire)) (f : String × Wire) : List (String × Wire) :=
  if f.1 ∈ fs.map (·.1) then Table.put (·.1) f fs else fs ++ [f]

/-- The fields of an object, one of each name. -/
def settle (fs : List (String × Wire)) : List (String × Wire) := fs.foldl insertField []

mutual
/-- What a value keeps of a document. -/
def value : Wire → Wire
  | .arr ws => .arr (values ws)
  | .obj fs => .obj (settle (fieldValues fs))
  | .null => .null
  | .bool b => .bool b
  | .int n => .int n
  | .float q => .float q
  | .str s => .str s

def values : List Wire → List Wire
  | [] => []
  | w :: ws => value w :: values ws

def fieldValues : List (String × Wire) → List (String × Wire)
  | [] => []
  | f :: fs => fieldValue f :: fieldValues fs

def fieldValue : String × Wire → String × Wire
  | (name, w) => (name, value w)
end

def Settled (w : Wire) : Prop := w.value = w

/-! ### Fields -/

theorem nodup_insertField {fs : List (String × Wire)} {f : String × Wire} (h : (fs.map (·.1)).Nodup) :
    ((insertField fs f).map (·.1)).Nodup := by
  unfold insertField
  split
  · rw [Table.map_key_put]
    exact h
  · rename_i hf
    rw [List.map_append]
    exact List.nodup_append.mpr ⟨h, List.nodup_singleton _, fun a ha b hb he => hf (by
      rw [List.map_singleton, List.mem_singleton] at hb
      rwa [← hb, ← he])⟩

theorem mem_insertField {fs : List (String × Wire)} {f g : String × Wire} (h : g ∈ insertField fs f) :
    g ∈ fs ∨ g = f := by
  unfold insertField at h
  split at h
  · rcases (Table.mem_put fun x : String × Wire => x.1).mp h with ⟨hg, -⟩ | ⟨hg, -⟩
    · exact Or.inl hg
    · exact Or.inr hg
  · rcases List.mem_append.mp h with hg | hg
    · exact Or.inl hg
    · exact Or.inr (List.mem_singleton.mp hg)

theorem nodup_settle (fs : List (String × Wire)) : ((settle fs).map (·.1)).Nodup := by
  have hfold : ∀ gs acc : List (String × Wire), (acc.map (·.1)).Nodup →
      ((gs.foldl insertField acc).map (·.1)).Nodup := by
    intro gs
    induction gs with
    | nil => exact fun _ h => h
    | cons g gs ih => exact fun acc h => ih _ (nodup_insertField h)
  exact hfold fs [] List.nodup_nil

theorem mem_settle {fs : List (String × Wire)} {f : String × Wire} (h : f ∈ settle fs) : f ∈ fs := by
  have hfold : ∀ gs acc : List (String × Wire), f ∈ gs.foldl insertField acc → f ∈ acc ∨ f ∈ gs := by
    intro gs
    induction gs with
    | nil => exact fun _ h => Or.inl h
    | cons g gs ih =>
      intro acc h
      rcases ih _ h with hacc | hgs
      · rcases mem_insertField hacc with hf | rfl
        · exact Or.inl hf
        · exact Or.inr List.mem_cons_self
      · exact Or.inr (List.mem_cons_of_mem _ hgs)
  exact (hfold fs [] h).resolve_left List.not_mem_nil

theorem settle_of_nodup {fs : List (String × Wire)} (h : (fs.map (·.1)).Nodup) : settle fs = fs := by
  have hfold : ∀ gs acc : List (String × Wire), ((acc ++ gs).map (·.1)).Nodup → gs.foldl insertField acc =
      acc ++ gs := by
    intro gs
    induction gs with
    | nil => exact fun acc _ => (List.append_nil acc).symm
    | cons g gs ih =>
      intro acc h
      have hg : g.1 ∉ acc.map (·.1) := by
        rw [List.map_append, List.nodup_append] at h
        exact fun hmem => h.2.2 g.1 hmem g.1 (by simp) rfl
      have hinsert : insertField acc g = acc ++ [g] := if_neg hg
      rw [List.foldl_cons, hinsert, ih _ (by simpa using h), List.append_assoc]
      rfl
  exact hfold fs [] h

/-! ### Values are settled -/

theorem fieldValues_eq_self {fs : List (String × Wire)} (h : ∀ f ∈ fs, f.2.Settled) : fieldValues fs = fs := by
  induction fs with
  | nil => rfl
  | cons f fs ih =>
    rw [fieldValues, ih fun g hg => h g (List.mem_cons_of_mem _ hg), fieldValue, h f List.mem_cons_self]

/-- An object with one field of each name and with settled values is settled. -/
theorem settled_obj {fs : List (String × Wire)} (hnodup : (fs.map (·.1)).Nodup) (h : ∀ f ∈ fs, f.2.Settled) :
    (Wire.obj fs).Settled := by
  unfold Settled
  rw [value, fieldValues_eq_self h, settle_of_nodup hnodup]

theorem settled_str (s : String) : (Wire.str s).Settled := by
  rw [Settled, value]

mutual
/-- **A value is settled.** -/
theorem value_settled : ∀ w : Wire, w.value.Settled
  | .arr ws => by
    rw [Settled, value, value, values_settled ws]
  | .obj fs => by
    rw [value]
    exact settled_obj (nodup_settle _) fun f hf => fieldValues_settled fs f (mem_settle hf)
  | .null => by rw [value, Settled, value]
  | .bool b => by rw [value, Settled, value]
  | .int n => by rw [value, Settled, value]
  | .float q => by rw [value, Settled, value]
  | .str s => by rw [value, Settled, value]

theorem values_settled : ∀ ws : List Wire, values (values ws) = values ws
  | [] => by rw [values, values]
  | w :: ws => by rw [values, values, values_settled ws, value_settled w]

theorem fieldValues_settled : ∀ (fs : List (String × Wire)), ∀ f ∈ fieldValues fs, f.2.Settled
  | [] => fun f hf => by
    rw [fieldValues] at hf
    exact (List.not_mem_nil hf).elim
  | f :: fs => by
    rw [fieldValues]
    exact List.forall_mem_cons.mpr ⟨fieldValue_settled f, fieldValues_settled fs⟩

theorem fieldValue_settled : ∀ f : String × Wire, (fieldValue f).2.Settled
  | (_, w) => by
    rw [fieldValue]
    exact value_settled w
end

namespace Settled

variable {fs : List (String × Wire)}

theorem settle_eq (h : (Wire.obj fs).Settled) : settle (fieldValues fs) = fs := by
  rw [Settled, value] at h
  exact Wire.obj.inj h

theorem nodup (h : (Wire.obj fs).Settled) : (fs.map (·.1)).Nodup := by
  rw [← h.settle_eq]
  exact nodup_settle _

theorem mem (h : (Wire.obj fs).Settled) : ∀ f ∈ fs, f.2.Settled := by
  intro f hf
  rw [← h.settle_eq] at hf
  exact fieldValues_settled fs f (mem_settle hf)

end Settled

end Wire
