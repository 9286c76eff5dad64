/-
# JSON values and struct codecs

JSON as `serde_json::Value` holds it: an object is its list of fields, and a
field is found by its name. The decoders are those that `derive(Deserialize)`
builds: a field with no other type than the decoder accepts, or a missing one,
is an error (`none`); an optional field may be missing (`opt`). Fields the
struct does not name are ignored.

A `Codec` is an encoder with the decoder that reads back what it writes.

Key definitions: `Json`, `Json.req`, `Json.opt`, `Codec`.
Key theorems: `decInt_int`, `decOption_ofOption`, `decList_ofList`,
`forall₂_of_mapM`.
-/
import Mathlib.Data.Rat.Defs
import Mathlib.Data.List.Basic
import Mathlib.Tactic.TypeStar

/-- A JSON value. -/
inductive Json
  | null
  | bool (b : Bool)
  | num (q : ℚ)
  | str (s : String)
  | arr (xs : List Json)
  | obj (fs : List (String × Json))

namespace Json

variable {α : Type}

/-- An integer. -/
def int (n : ℤ) : Json := .num n

/-- `null`, or the value. -/
def ofOption (enc : α → Json) : Option α → Json
  | none => .null
  | some a => enc a

/-- A list as an array. -/
def ofList (enc : α → Json) (xs : List α) : Json := .arr (xs.map enc)

def decStr : Json → Option String
  | .str s => some s
  | _ => none

def decBool : Json → Option Bool
  | .bool b => some b
  | _ => none

def decNum : Json → Option ℚ
  | .num q => some q
  | _ => none

def decInt : Json → Option ℤ
  | .num q => if q.den = 1 then some q.num else none
  | _ => none

def decOption (dec : Json → Option α) : Json → Option (Option α)
  | .null => some none
  | j => (dec j).map some

def decList (dec : Json → Option α) : Json → Option (List α)
  | .arr xs => xs.mapM dec
  | _ => none

/-- The value of a field. -/
def field (name : String) : Json → Option Json
  | .obj fs => (fs.find? fun f => f.1 = name).map (·.2)
  | _ => none

/-- A field that must be there. -/
def req (name : String) (dec : Json → Option α) (j : Json) : Option α := (j.field name).bind dec

/-- A field that may be missing. -/
def opt (name : String) (dec : Json → Option α) (j : Json) : Option (Option α) :=
  match j.field name with
  | none => some none
  | some v => decOption dec v

mutual
/-- Some text of the value satisfies `p`. -/
def anyText (p : String → Bool) : Json → Bool
  | .null => false
  | .bool _ => false
  | .num _ => false
  | .str s => p s
  | .arr xs => anyTextList p xs
  | .obj fs => anyTextFields p fs

def anyTextList (p : String → Bool) : List Json → Bool
  | [] => false
  | x :: xs => anyText p x || anyTextList p xs

def anyTextFields (p : String → Bool) : List (String × Json) → Bool
  | [] => false
  | (k, v) :: fs => p k || anyText p v || anyTextFields p fs
end

mutual
/-- The values are the same. -/
def same : Json → Json → Bool
  | .null, .null => true
  | .bool b, .bool b' => b = b'
  | .num q, .num q' => q = q'
  | .str s, .str s' => s = s'
  | .arr xs, .arr ys => sameList xs ys
  | .obj fs, .obj gs => sameFields fs gs
  | _, _ => false

def sameList : List Json → List Json → Bool
  | [], [] => true
  | x :: xs, y :: ys => same x y && sameList xs ys
  | _, _ => false

def sameFields : List (String × Json) → List (String × Json) → Bool
  | [], [] => true
  | (k, v) :: fs, (l, w) :: gs => decide (k = l) && same v w && sameFields fs gs
  | _, _ => false
end

mutual
theorem same_iff : ∀ j j' : Json, same j j' = true ↔ j = j'
  | .null, j' => by cases j' <;> simp [same]
  | .bool b, j' => by cases j' <;> simp [same]
  | .num q, j' => by cases j' <;> simp [same]
  | .str s, j' => by cases j' <;> simp [same]
  | .arr xs, j' => by cases j' <;> simp [same, sameList_iff xs]
  | .obj fs, j' => by cases j' <;> simp [same, sameFields_iff fs]

theorem sameList_iff : ∀ xs ys : List Json, sameList xs ys = true ↔ xs = ys
  | [], ys => by cases ys <;> simp [sameList]
  | x :: xs, ys => by cases ys <;> simp [sameList, same_iff x, sameList_iff xs]

theorem sameFields_iff : ∀ fs gs : List (String × Json), sameFields fs gs = true ↔ fs = gs
  | [], gs => by cases gs <;> simp [sameFields]
  | (k, v) :: fs, gs => by
    rcases gs with _ | ⟨⟨l, w⟩, gs⟩ <;> simp [sameFields, same_iff v, sameFields_iff fs]
end

instance : DecidableEq Json := fun j j' => decidable_of_iff _ (same_iff j j')

@[simp] theorem decStr_str (s : String) : decStr (.str s) = some s := rfl
@[simp] theorem decBool_bool (b : Bool) : decBool (.bool b) = some b := rfl
@[simp] theorem decNum_num (q : ℚ) : decNum (.num q) = some q := rfl

@[simp] theorem decInt_int (n : ℤ) : decInt (int n) = some n := by
  simp [decInt, int]

@[simp] theorem decOption_null (dec : Json → Option α) : decOption dec .null = some none := rfl

@[simp] theorem decOption_str (s : String) : decOption decStr (.str s) = some (some s) := rfl

/-- An optional value reads back, if its encoding is never `null`. -/
theorem decOption_ofOption {enc : α → Json} {dec : Json → Option α} (h : ∀ a, dec (enc a) = some a)
    (hn : ∀ a, enc a ≠ .null) : ∀ o : Option α, decOption dec (ofOption enc o) = some o
  | none => rfl
  | some a => by
    have h1 := h a
    have h2 := hn a
    simp only [ofOption]
    unfold decOption
    split
    · exact absurd (by assumption) h2
    · rw [h1]; rfl

@[simp] theorem decOption_ofOption_str (o : Option String) :
    decOption decStr (ofOption .str o) = some o :=
  @decOption_ofOption String .str decStr (fun _ => rfl) (fun _ h => by cases h) o

/-- An array decodes item by item. -/
theorem decList_ofList {β : Type} {enc : α → Json} {dec : Json → Option β} {f : α → β}
    (h : ∀ a, dec (enc a) = some (f a)) (xs : List α) : decList dec (ofList enc xs) = some (xs.map f) := by
  unfold decList ofList
  induction xs with
  | nil => rfl
  | cons x xs ih => simp_all [List.mapM_cons]

theorem decList_map {enc : α → Json} {dec : Json → Option α} (h : ∀ a, dec (enc a) = some a)
    (xs : List α) : decList dec (ofList enc xs) = some xs := by
  rw [@decList_ofList _ _ enc dec id h, List.map_id]

/-! ### Lists that decode -/

section
variable {β γ : Type} {f : α → Option β}

theorem forall₂_of_mapM : ∀ {as : List α} {bs : List β}, as.mapM f = some bs →
    List.Forall₂ (fun a b => f a = some b) as bs
  | [], bs, h => by
    obtain rfl : [] = bs := Option.some.inj h
    exact .nil
  | a :: as, bs, h => by
    rw [List.mapM_cons] at h
    obtain ⟨b, hb, h⟩ := Option.bind_eq_some_iff.mp h
    obtain ⟨bs', hbs, h⟩ := Option.bind_eq_some_iff.mp h
    obtain rfl := Option.some.inj h
    exact .cons hb (forall₂_of_mapM hbs)

theorem mapM_isSome_iff : ∀ {as : List α}, (as.mapM f).isSome = true ↔ ∀ a ∈ as, (f a).isSome = true
  | [] => by simp
  | a :: as => by
    rw [List.mapM_cons, List.forall_mem_cons, ← mapM_isSome_iff]
    cases f a <;> cases as.mapM f <;> simp

theorem exists_mapM {as : List α} (h : ∀ a ∈ as, (f a).isSome = true) : ∃ bs, as.mapM f = some bs :=
  Option.isSome_iff_exists.mp (mapM_isSome_iff.mpr h)

theorem mem_of_forall₂ {R : α → β → Prop} {b : β} : ∀ {as : List α} {bs : List β}, List.Forall₂ R as bs → b ∈ bs →
    ∃ a ∈ as, R a b
  | _, _, .nil, hb => (List.not_mem_nil hb).elim
  | _, _, .cons hr hrs, hb => by
    rcases List.mem_cons.mp hb with rfl | hb
    · exact ⟨_, List.mem_cons_self, hr⟩
    · obtain ⟨a, ha, hab⟩ := mem_of_forall₂ hrs hb
      exact ⟨a, List.mem_cons_of_mem _ ha, hab⟩

/-- What a list decodes to is of its items. -/
theorem mem_of_mapM {as : List α} {bs : List β} (h : as.mapM f = some bs) : ∀ b ∈ bs, ∃ a ∈ as, f a = some b :=
  fun b hb => @mem_of_forall₂ _ _ (fun a b => f a = some b) b as bs (forall₂_of_mapM h) hb

theorem forall₂_trans {R : α → β → Prop} {S : β → γ → Prop} {Q : α → γ → Prop}
    (h : ∀ a b c, R a b → S b c → Q a c) : ∀ {as : List α} {bs : List β} {cs : List γ},
    List.Forall₂ R as bs → List.Forall₂ S bs cs → List.Forall₂ Q as cs
  | _, _, _, .nil, .nil => .nil
  | _, _, _, .cons hr hrs, .cons hs hss => .cons (h _ _ _ hr hs) (forall₂_trans h hrs hss)

theorem map_eq_of_forall₂ {R : α → β → Prop} {f : α → γ} {g : β → γ} (h : ∀ a b, R a b → g b = f a) :
    ∀ {as : List α} {bs : List β}, List.Forall₂ R as bs → bs.map g = as.map f
  | _, _, .nil => rfl
  | _, _, .cons hr hrs => congrArg₂ List.cons (h _ _ hr) (map_eq_of_forall₂ h hrs)

end

end Json

/-- An encoder with the decoder that reads back what it writes. -/
structure Codec (α : Type) where
  enc : α → Json
  dec : Json → Option α
  dec_enc : ∀ a, dec (enc a) = some a
