/-
# JSON documents, and what a type reads off them

A document as its text has it: an object is the list of its fields, whose names
may repeat, and a number is an integer that the parser keeps as one, or a double.
A `Shape` is what the values of a type are written as and what is read as one; what
is written of a value that fits is read back, and what is read fits.

A record (`Fields.shape`) reads each of its fields where its name stands, once,
in whatever order, and does not look at the fields it does not know
(`Shape.Record`); it also reads an array of its values. An enumeration reads the
name of a member, also as the only field of an object.

Key definitions: `Wire`, `Wire.Shape`, `Wire.Fields`, `Wire.columns`.
Key theorems: `Wire.Shape.Record.dec_perm`, `Wire.Shape.Record.dec_missing`.
-/
import Mathlib.Data.Rat.Defs
import Mathlib.Data.List.Basic
import Mathlib.Data.List.Nodup

inductive Wire
  | null
  | bool (b : Bool)
  | int (n : ℤ)
  | float (q : ℚ)
  | str (s : String)
  | arr (ws : List Wire)
  | obj (fs : List (String × Wire))

namespace Wire

variable {α β γ : Type}

/-- What the values of a type are written as, and what is read as one. -/
structure Shape (α : Type) where
  enc : α → Wire
  dec : Wire → Option α
  /-- The values that are read back. -/
  Fit : α → Prop
  dec_enc : ∀ a, Fit a → dec (enc a) = some a
  fit_dec : ∀ w a, dec w = some a → Fit a

/-! ### Values -/

def text : Shape String where
  enc := .str
  dec
    | .str s => some s
    | _ => none
  Fit _ := True
  dec_enc _ _ := rfl
  fit_dec _ _ _ := trivial

/-- A text of some kind. -/
def constrained (accepts : String → Bool) : Shape String where
  enc := .str
  dec
    | .str s => if accepts s then some s else none
    | _ => none
  Fit s := accepts s = true
  dec_enc _ h := if_pos h
  fit_dec w a h := by
    cases w with
    | str s =>
      by_cases hs : accepts s = true
      · obtain rfl := Option.some.inj ((if_pos hs).symm.trans h)
        exact hs
      · cases (if_neg hs).symm.trans h
    | null | bool | int | float | arr | obj => cases h

def flag : Shape Bool where
  enc := .bool
  dec
    | .bool b => some b
    | _ => none
  Fit _ := True
  dec_enc _ _ := rfl
  fit_dec _ _ _ := trivial

/-- An integer of 64 bits. -/
def i64 : Shape ℤ where
  enc := .int
  dec
    | .int n => if -9223372036854775808 ≤ n ∧ n ≤ 9223372036854775807 then some n else none
    | _ => none
  Fit n := -9223372036854775808 ≤ n ∧ n ≤ 9223372036854775807
  dec_enc _ h := if_pos h
  fit_dec w a h := by
    cases w with
    | int n =>
      by_cases hn : -9223372036854775808 ≤ n ∧ n ≤ 9223372036854775807
      · obtain rfl := Option.some.inj ((if_pos hn).symm.trans h)
        exact hn
      · cases (if_neg hn).symm.trans h
    | null | bool | float | str | arr | obj => cases h

/-- A number, with or without a fraction. -/
def number : Shape ℚ where
  enc := .float
  dec
    | .int n => some n
    | .float q => some q
    | _ => none
  Fit _ := True
  dec_enc _ _ := rfl
  fit_dec _ _ _ := trivial

/-- `null`, or a value that is not written so. -/
def option (s : Shape α) (hnull : ∀ a, s.enc a ≠ .null) : Shape (Option α) where
  enc
    | none => .null
    | some a => s.enc a
  dec
    | .null => some none
    | w => (s.dec w).map some
  Fit a := ∀ b, a = some b → s.Fit b
  dec_enc
    | none, _ => rfl
    | some a, h => by
      have hdec := s.dec_enc a (h a rfl)
      have hne := hnull a
      cases hw : s.enc a with
      | null => exact (hne hw).elim
      | bool | int | float | str | arr | obj =>
        rw [hw] at hdec
        simp only [hw, hdec, Option.map_some]
  fit_dec w a h b hb := by
    subst hb
    have hdec : s.dec w = some b := by
      cases w with
      | null => cases h
      | bool | int | float | str | arr | obj =>
        obtain ⟨c, hc, hcb⟩ := Option.map_eq_some_iff.mp h
        cases hcb
        exact hc
    exact s.fit_dec w b hdec

theorem mapM_enc (s : Shape α) : ∀ {as : List α}, (∀ a ∈ as, s.Fit a) → (as.map s.enc).mapM s.dec = some as
  | [], _ => rfl
  | a :: as, h => by
    rw [List.map_cons, List.mapM_cons, s.dec_enc a (h a List.mem_cons_self),
      mapM_enc s fun b hb => h b (List.mem_cons_of_mem _ hb)]
    rfl

theorem fit_mapM (s : Shape α) : ∀ {ws : List Wire} {as : List α}, ws.mapM s.dec = some as → ∀ a ∈ as, s.Fit a
  | [], as, h => by
    obtain rfl := Option.some.inj h
    exact fun a ha => (List.not_mem_nil ha).elim
  | w :: ws, as, h => by
    rw [List.mapM_cons] at h
    obtain ⟨b, hb, h⟩ := Option.bind_eq_some_iff.mp h
    obtain ⟨bs, hbs, h⟩ := Option.bind_eq_some_iff.mp h
    obtain rfl := Option.some.inj h
    exact List.forall_mem_cons.mpr ⟨s.fit_dec w b hb, fit_mapM s hbs⟩

def list (s : Shape α) : Shape (List α) where
  enc as := .arr (as.map s.enc)
  dec
    | .arr ws => ws.mapM s.dec
    | _ => none
  Fit as := ∀ a ∈ as, s.Fit a
  dec_enc _ h := mapM_enc s h
  fit_dec w as h := by
    cases w with
    | arr ws => exact fit_mapM s h
    | null | bool | int | float | str | obj => cases h

/-- A member of an enumeration, by its name. -/
def enumeration (all : List α) (name : α → String) (hall : ∀ a, all.find? (fun b => name b = name a) = some a) :
    Shape α where
  enc a := .str (name a)
  dec
    | .str s => all.find? fun a => name a = s
    | .obj [(s, .null)] => all.find? fun a => name a = s
    | _ => none
  Fit _ := True
  dec_enc a _ := hall a
  fit_dec _ _ _ := trivial

/-- A shape of values that stand for those of another type. -/
def Shape.iso (s : Shape α) (f : α → β) (g : β → α) (hgf : ∀ a, g (f a) = a) (hfg : ∀ b, f (g b) = b) : Shape β where
  enc b := s.enc (g b)
  dec w := (s.dec w).map f
  Fit b := s.Fit (g b)
  dec_enc b hb := by rw [s.dec_enc _ hb, Option.map_some, hfg]
  fit_dec w b h := by
    obtain ⟨a, ha, rfl⟩ := Option.map_eq_some_iff.mp h
    rw [hgf]
    exact s.fit_dec w a ha

/-! ### Records -/

/-- The value of the field of the name, if there is one and no other of its name. -/
def column (fs : List (String × Wire)) (name : String) : Option Wire :=
  match fs.filter fun f => f.1 = name with
  | [f] => some f.2
  | _ => none

/-- The values of a record with fields of these names. -/
def columns (names : List String) : Wire → Option (List Wire)
  | .obj fs => names.mapM (column fs)
  | .arr ws => if ws.length = names.length then some ws else none
  | _ => none

theorem column_congr {fs gs : List (String × Wire)} {name : String}
    (h : (fs.filter fun f => f.1 = name).Perm (gs.filter fun f => f.1 = name)) : column fs name = column gs name := by
  unfold column
  cases hfs : fs.filter fun f => f.1 = name with
  | nil =>
    rw [hfs] at h
    rw [h.nil_eq]
  | cons f fs' =>
    rw [hfs] at h
    cases fs' with
    | nil => rw [List.singleton_perm.mp h]
    | cons g fs'' =>
      have hlength := h.length_eq
      split
      · rename_i hsingle
        cases hsingle
      · rename_i hfs'
        split
        · rename_i k hgs
          rw [hgs] at hlength
          simp at hlength
        · rfl

theorem mapM_congr {f g : α → Option β} : ∀ {as : List α}, (∀ a ∈ as, f a = g a) → as.mapM f = as.mapM g
  | [], _ => rfl
  | a :: as, h => by
    rw [List.mapM_cons, List.mapM_cons, h a List.mem_cons_self, mapM_congr fun b hb => h b (List.mem_cons_of_mem _ hb)]

theorem mapM_none {f : α → Option β} {a : α} : ∀ {as : List α}, a ∈ as → f a = none → as.mapM f = none
  | b :: as, ha, hf => by
    rw [List.mapM_cons]
    rcases List.mem_cons.mp ha with rfl | ha
    · rw [hf]
      rfl
    · cases f b with
      | none => rfl
      | some c => rw [mapM_none ha hf]; rfl

/-- The order of the fields does not matter. -/
theorem columns_perm {names : List String} {fs gs : List (String × Wire)} (h : fs.Perm gs) :
    columns names (.obj fs) = columns names (.obj gs) :=
  mapM_congr fun _ _ => column_congr (h.filter _)

/-- Nor do fields with other names. -/
theorem columns_known {names : List String} {fs : List (String × Wire)} :
    columns names (.obj (fs.filter fun f => f.1 ∈ names)) = columns names (.obj fs) := by
  refine mapM_congr fun name hname => column_congr (.of_eq ?_)
  rw [List.filter_filter]
  refine List.filter_congr fun f _ => ?_
  by_cases hf : f.1 = name
  · simp [hf, hname]
  · simp [hf]

theorem filter_zip_of_notMem {name : String} : ∀ {names : List String} {ws : List Wire}, name ∉ names →
    (names.zip ws).filter (fun f => f.1 = name) = []
  | [], _, _ => rfl
  | _ :: _, [], _ => rfl
  | m :: names, w :: ws, h => by
    have hne : m ≠ name := fun he => h (he ▸ List.mem_cons_self)
    rw [List.zip_cons_cons, List.filter_cons_of_neg (by simpa using hne),
      filter_zip_of_notMem fun hm => h (List.mem_cons_of_mem _ hm)]

/-- What a record writes under its names is what it finds there. -/
theorem columns_zip : ∀ {names : List String} {ws : List Wire}, names.Nodup → ws.length = names.length →
    columns names (.obj (names.zip ws)) = some ws
  | [], [], _, _ => rfl
  | m :: names, w :: ws, hnodup, hlength => by
    obtain ⟨hm, hnodup⟩ := List.nodup_cons.mp hnodup
    have ih : names.mapM (column (names.zip ws)) = some ws := columns_zip hnodup (Nat.succ.inj hlength)
    have hhead : column ((m :: names).zip (w :: ws)) m = some w := by
      unfold column
      rw [List.zip_cons_cons, List.filter_cons_of_pos (by simp), filter_zip_of_notMem hm]
    have htail : names.mapM (column ((m :: names).zip (w :: ws))) = names.mapM (column (names.zip ws)) := by
      refine mapM_congr fun name hname => column_congr (.of_eq ?_)
      have hne : m ≠ name := fun he => hm (he ▸ hname)
      rw [List.zip_cons_cons, List.filter_cons_of_neg (by simpa using hne)]
    show (m :: names).mapM (column ((m :: names).zip (w :: ws))) = some (w :: ws)
    rw [List.mapM_cons, hhead, htail, ih]
    rfl

/-- The fields of a record, in the order they are written. -/
structure Fields (α : Type) where
  names : List String
  enc : α → List Wire
  dec : List Wire → Option α
  Fit : α → Prop
  length_enc : ∀ a, (enc a).length = names.length
  dec_enc : ∀ a, Fit a → dec (enc a) = some a
  fit_dec : ∀ ws a, dec ws = some a → Fit a

namespace Fields

protected def nil : Fields Unit where
  names := []
  enc _ := []
  dec
    | [] => some ()
    | _ => none
  Fit _ := True
  length_enc _ := rfl
  dec_enc _ _ := rfl
  fit_dec _ _ _ := trivial

protected def cons (name : String) (s : Shape β) (r : Fields γ) : Fields (β × γ) where
  names := name :: r.names
  enc a := s.enc a.1 :: r.enc a.2
  dec
    | [] => none
    | w :: ws => do
      let b ← s.dec w
      let c ← r.dec ws
      return (b, c)
  Fit a := s.Fit a.1 ∧ r.Fit a.2
  length_enc a := congrArg Nat.succ (r.length_enc a.2)
  dec_enc a h := by
    simp only [s.dec_enc a.1 h.1, r.dec_enc a.2 h.2]
    rfl
  fit_dec ws a h := by
    cases ws with
    | nil => cases h
    | cons w ws =>
      obtain ⟨b, hb, h⟩ := Option.bind_eq_some_iff.mp h
      obtain ⟨c, hc, h⟩ := Option.bind_eq_some_iff.mp h
      obtain rfl := Option.some.inj h
      exact ⟨s.fit_dec w b hb, r.fit_dec ws c hc⟩

/-- The record of the fields. -/
def shape (r : Fields α) (h : r.names.Nodup) : Shape α where
  enc a := .obj (r.names.zip (r.enc a))
  dec w := (columns r.names w).bind r.dec
  Fit := r.Fit
  dec_enc a ha := by rw [columns_zip h (r.length_enc a), Option.bind_some, r.dec_enc a ha]
  fit_dec w a ha := by
    obtain ⟨ws, -, ha⟩ := Option.bind_eq_some_iff.mp ha
    exact r.fit_dec ws a ha

end Fields

namespace Shape

/-- The shape is that of a record with fields of these names. -/
structure Record (s : Shape α) (names : List String) : Prop where
  nodup : names.Nodup
  enc : ∀ a, ∃ ws, ws.length = names.length ∧ s.enc a = .obj (names.zip ws)
  dec : ∃ f, ∀ w, s.dec w = (columns names w).bind f

namespace Record

variable {s : Shape α} {names : List String}

theorem of_fields {r : Fields α} (h : r.names.Nodup) : (r.shape h).Record r.names :=
  ⟨h, fun a => ⟨r.enc a, r.length_enc a, rfl⟩, r.dec, fun _ => rfl⟩

theorem iso (h : s.Record names) {f : α → β} {g : β → α} (hgf : ∀ a, g (f a) = a) (hfg : ∀ b, f (g b) = b) :
    (s.iso f g hgf hfg).Record names := by
  obtain ⟨dec, hdec⟩ := h.dec
  refine ⟨h.nodup, fun b => h.enc (g b), fun ws => (dec ws).map f, fun w => ?_⟩
  show (s.dec w).map f = _
  rw [hdec w, Option.map_bind]
  rfl

theorem fields (h : s.Record names) {a : α} {fs : List (String × Wire)} (ha : s.enc a = .obj fs) :
    fs.map (·.1) = names := by
  obtain ⟨ws, hlength, hws⟩ := h.enc a
  obtain rfl := Wire.obj.inj (hws.symm.trans ha)
  exact List.map_fst_zip hlength.ge

/-- The fields of a record in any order, among others, are read as the record. -/
theorem dec_perm (h : s.Record names) {a : α} (hfit : s.Fit a) {fs gs : List (String × Wire)}
    (ha : s.enc a = .obj fs) (hperm : (gs.filter fun g => g.1 ∈ fs.map (·.1)).Perm fs) :
    s.dec (.obj gs) = some a := by
  obtain ⟨f, hf⟩ := h.dec
  rw [h.fields ha] at hperm
  calc s.dec (.obj gs)
      = (columns names (.obj gs)).bind f := hf _
    _ = (columns names (.obj (gs.filter fun g => g.1 ∈ names))).bind f := by rw [columns_known]
    _ = (columns names (.obj fs)).bind f := by rw [columns_perm hperm]
    _ = s.dec (s.enc a) := by rw [ha, hf]
    _ = some a := s.dec_enc a hfit

/-- An object that lacks a field, or has one twice, is not read. -/
theorem dec_missing (h : s.Record names) {gs : List (String × Wire)} {name : String} (hname : name ∈ names)
    (hcount : (gs.filter fun g => g.1 = name).length ≠ 1) : s.dec (.obj gs) = none := by
  obtain ⟨f, hf⟩ := h.dec
  have hcolumn : column gs name = none := by
    unfold column
    split
    · rename_i hg
      exact (hcount (by rw [hg]; rfl)).elim
    · rfl
  rw [hf, show columns names (.obj gs) = none from mapM_none hname hcolumn, Option.bind_none]

end Record

end Shape

end Wire
