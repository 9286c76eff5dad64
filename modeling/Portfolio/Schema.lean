/-
# Schemas of documents

What a JSON schema accepts, of the keywords that say of what type a document is,
within which bounds, by which pattern, of which items, and with exactly which
properties.

A type and a schema fit in two ways. A value is under the schema if what is
written of it is accepted, and read back (`Shape.Under`); and the type reads the
schema if of the documents it accepts it reads those whose numbers are integers of
64 bits (`Shape.Reads`). Of a record, both follow from its fields.

Key definitions: `Wire.Schema`, `Wire.Schema.object`, `Wire.Shape.Under`, `Wire.Narrow`, `Wire.Shape.Reads`.
Key theorems: `Wire.Schema.object_zip`, `Wire.Schema.object_columns`, `Wire.Shape.under_record`,
`Wire.Shape.reads_record`.
-/
import Portfolio.Wire

namespace Wire

/-- The documents a schema accepts. -/
abbrev Schema := Wire → Bool

namespace Schema

def string : Schema
  | .str _ => true
  | _ => false

/-- A text of some kind: a `pattern`, or a `format`. -/
def pattern (accepts : String → Bool) : Schema
  | .str s => accepts s
  | _ => false

/-- A text of so many characters. -/
def bounded (minLength maxLength : ℕ) : Schema := pattern fun s => decide (minLength ≤ s.length ∧ s.length ≤ maxLength)

/-- An `enum` of texts. -/
def member (names : List String) : Schema
  | .str s => decide (s ∈ names)
  | _ => false

def boolean : Schema
  | .bool _ => true
  | _ => false

/-- Between a `minimum` and a `maximum`, if there are. -/
def between (minimum maximum : Option ℤ) (n : ℤ) : Bool :=
  minimum.all (fun m => decide (m ≤ n)) && maximum.all fun m => decide (n ≤ m)

/-- A number without a fraction, however it is written: `1.0` is an integer too. -/
def integer (minimum maximum : Option ℤ) : Schema
  | .int n => between minimum maximum n
  | .float q => decide (q.den = 1) && between minimum maximum q.num
  | _ => false

/-- A number, with a fraction or without. -/
def number (minimum maximum : ℚ) : Schema
  | .int n => decide (minimum ≤ n) && decide (n ≤ maximum)
  | .float q => decide (minimum ≤ q) && decide (q ≤ maximum)
  | _ => false

/-- A type, or `null`. -/
def nullable (s : Schema) : Schema
  | .null => true
  | w => s w

def array (items : Schema) : Schema
  | .arr ws => ws.all items
  | _ => false

/-- An array of so many items. -/
def items (minItems maxItems : ℕ) (s : Schema) : Schema
  | .arr ws => decide (minItems ≤ ws.length ∧ ws.length ≤ maxItems) && ws.all s
  | _ => false

/-- An object with these properties, all of them `required` and none `additionalProperties`. -/
def object (properties : List (String × Schema)) : Schema
  | .obj fs => (fs.all fun f => decide (f.1 ∈ properties.map (·.1))) &&
      properties.all fun p => (column fs p.1).any p.2
  | _ => false

end Schema

namespace Schema

theorem column_cons_self {name : String} {w : Wire} {fs : List (String × Wire)} (h : name ∉ fs.map (·.1)) :
    column ((name, w) :: fs) name = some w := by
  have hnone : fs.filter (fun f => f.1 = name) = [] :=
    List.filter_eq_nil_iff.mpr fun f hf he => h (List.mem_map.mpr ⟨f, hf, of_decide_eq_true he⟩)
  unfold column
  rw [List.filter_cons_of_pos (by simp), hnone]

theorem column_cons_of_ne {name other : String} {w : Wire} {fs : List (String × Wire)} (h : other ≠ name) :
    column ((other, w) :: fs) name = column fs name := by
  unfold column
  rw [List.filter_cons_of_neg (by simpa using h)]

/-- The properties of a record are found and accepted. -/
theorem properties_zip {properties : List (String × Schema)} {ws : List Wire}
    (h : List.Forall₂ (fun p w => p.2 w = true) properties ws) : (properties.map (·.1)).Nodup →
      ∀ p ∈ properties, (column ((properties.map (·.1)).zip ws) p.1).any p.2 = true := by
  induction h with
  | nil => exact fun _ p hp => (List.not_mem_nil hp).elim
  | @cons q w properties ws hq hrest ih =>
    intro hnodup p hp
    obtain ⟨hnot, hnodup⟩ := List.nodup_cons.mp hnodup
    have hlength : (properties.map (·.1)).length = ws.length := by rw [List.length_map, hrest.length_eq]
    show (column ((q.1, w) :: (properties.map (·.1)).zip ws) p.1).any p.2 = true
    rcases List.mem_cons.mp hp with rfl | hp
    · rw [column_cons_self (by rwa [List.map_fst_zip hlength.le])]
      exact hq
    · have hne : q.1 ≠ p.1 := fun he => hnot (List.mem_map.mpr ⟨p, hp, he.symm⟩)
      rw [column_cons_of_ne hne]
      exact ih hnodup p hp

/-- An object with the names of a schema, each with a value its property accepts, is accepted. -/
theorem object_zip {properties : List (String × Schema)} {ws : List Wire} (hnodup : (properties.map (·.1)).Nodup)
    (h : List.Forall₂ (fun p w => p.2 w = true) properties ws) :
    object properties (.obj ((properties.map (·.1)).zip ws)) = true := by
  have hlength : ws.length = (properties.map (·.1)).length := by rw [List.length_map, h.length_eq]
  rw [object, Bool.and_eq_true, List.all_eq_true, List.all_eq_true]
  refine ⟨fun f hf => decide_eq_true ?_, properties_zip h hnodup⟩
  rw [← List.map_fst_zip hlength.ge]
  exact List.mem_map_of_mem hf

theorem mem_of_column {fs : List (String × Wire)} {name : String} {w : Wire} (h : column fs name = some w) :
    (name, w) ∈ fs := by
  unfold column at h
  split at h
  · rename_i f hf
    obtain rfl := Option.some.inj h
    obtain ⟨hmem, hname⟩ := List.mem_filter.mp (hf ▸ List.mem_singleton_self f)
    rwa [← of_decide_eq_true hname]
  · cases h

/-- A field whose name has a value is the only one of its name. -/
theorem column_of_mem {fs : List (String × Wire)} {f : String × Wire} {w : Wire} (hf : f ∈ fs)
    (h : column fs f.1 = some w) : f.2 = w := by
  unfold column at h
  split at h
  · rename_i g hg
    obtain rfl := List.mem_singleton.mp (hg ▸ List.mem_filter.mpr ⟨hf, decide_eq_true rfl⟩)
    exact Option.some.inj h
  · cases h

/-- Each property of an object that is accepted has a value there, which the property accepts. -/
theorem properties_columns {fs : List (String × Wire)} : ∀ {properties : List (String × Schema)},
    (∀ p ∈ properties, (column fs p.1).any p.2 = true) →
    ∃ ws, (properties.map (·.1)).mapM (column fs) = some ws ∧ List.Forall₂ (fun p w => p.2 w = true) properties ws ∧
      ∀ w, w ∈ ws ↔ ∃ p ∈ properties, column fs p.1 = some w
  | [], _ => ⟨[], rfl, .nil, fun _ => ⟨nofun, fun ⟨_, hp, _⟩ => nomatch hp⟩⟩
  | p :: properties, h => by
    obtain ⟨ws, hws, haccepted, hmem⟩ := properties_columns fun q hq => h q (List.mem_cons_of_mem _ hq)
    have hp := h p List.mem_cons_self
    cases hcolumn : column fs p.1 with
    | none =>
      rw [hcolumn] at hp
      cases hp
    | some v =>
      rw [hcolumn] at hp
      refine ⟨v :: ws, ?_, .cons hp haccepted, fun w => ?_⟩
      · rw [List.map_cons, List.mapM_cons, hcolumn, hws]
        rfl
      · rw [List.exists_mem_cons_iff, List.mem_cons, hmem, hcolumn, Option.some_inj, eq_comm]

/-- An object that is accepted has no values but one for each property, which the property accepts. -/
theorem object_columns {properties : List (String × Schema)} {w : Wire} (h : object properties w = true) :
    ∃ fs ws, w = .obj fs ∧ columns (properties.map (·.1)) w = some ws ∧
      List.Forall₂ (fun p w => p.2 w = true) properties ws ∧ ∀ v, v ∈ ws ↔ ∃ f ∈ fs, f.2 = v := by
  cases w with
  | obj fs =>
    rw [object, Bool.and_eq_true, List.all_eq_true, List.all_eq_true] at h
    obtain ⟨ws, hws, haccepted, hmem⟩ := properties_columns h.2
    refine ⟨fs, ws, rfl, hws, haccepted, fun v => (hmem v).trans ⟨?_, ?_⟩⟩
    · rintro ⟨p, -, hp⟩
      exact ⟨(p.1, v), mem_of_column hp, rfl⟩
    · rintro ⟨f, hf, rfl⟩
      obtain ⟨p, hp, hname⟩ := List.mem_map.mp (of_decide_eq_true (h.1 f hf))
      obtain ⟨v, hv, -⟩ := (Option.any_eq_true _ _).mp (h.2 p hp)
      exact ⟨p, hp, hv.trans (congrArg some (column_of_mem hf (hname ▸ hv)).symm)⟩
  | null | bool | int | float | str | arr => cases h

end Schema

/-! ### Shapes under schemas -/

variable {α β γ : Type}

/-- The value is read back, and what is written of it is accepted. -/
def Shape.Under (s : Shape α) (schema : Schema) (a : α) : Prop := s.Fit a ∧ schema (s.enc a) = true

/-- The fields of a record are read back, and each is accepted by its property. -/
def Fields.Under (r : Fields α) (properties : List (String × Schema)) (a : α) : Prop :=
  properties.map (·.1) = r.names ∧ r.Fit a ∧ List.Forall₂ (fun p w => p.2 w = true) properties (r.enc a)

theorem Fields.under_nil : Fields.nil.Under [] () := ⟨rfl, trivial, .nil⟩

theorem Fields.under_cons {name : String} {s : Shape β} {r : Fields γ} {schema : Schema}
    {properties : List (String × Schema)} {a : β × γ} (hs : s.Under schema a.1) (hr : r.Under properties a.2) :
    (Fields.cons name s r).Under ((name, schema) :: properties) a :=
  ⟨congrArg (name :: ·) hr.1, ⟨hs.1, hr.2.1⟩, .cons hs.2 hr.2.2⟩

/-- A record whose fields are under their properties is under the object of them. -/
theorem Shape.under_record {r : Fields α} {h : r.names.Nodup} {f : α → β} {g : β → α} {hgf : ∀ a, g (f a) = a}
    {hfg : ∀ b, f (g b) = b} {properties : List (String × Schema)} {b : β} (hr : r.Under properties (g b)) :
    ((r.shape h).iso f g hgf hfg).Under (.object properties) b := by
  obtain ⟨hnames, hfit, hfields⟩ := hr
  refine ⟨hfit, ?_⟩
  show Schema.object properties (.obj (r.names.zip (r.enc (g b)))) = true
  rw [← hnames] at h ⊢
  exact Schema.object_zip h hfields

/-- If the object accepts a record, each property accepts its field. -/
theorem Shape.fields_accepted {r : Fields α} {h : r.names.Nodup} {f : α → β} {g : β → α} {hgf : ∀ a, g (f a) = a}
    {hfg : ∀ b, f (g b) = b} {properties : List (String × Schema)} {b : β}
    (hb : Schema.object properties (((r.shape h).iso f g hgf hfg).enc b) = true)
    (hnames : properties.map (·.1) = r.names) : List.Forall₂ (fun p w => p.2 w = true) properties (r.enc (g b)) := by
  obtain ⟨fs, ws, -, hws, haccepted, -⟩ := Schema.object_columns hb
  have henc : columns r.names (((r.shape h).iso f g hgf hfg).enc b) = some (r.enc (g b)) :=
    columns_zip h (r.length_enc (g b))
  rw [hnames, henc] at hws
  rwa [Option.some.inj hws]

theorem Shape.under_list {s : Shape α} {items : Schema} {as : List α} (h : ∀ a ∈ as, s.Under items a) :
    (list s).Under (.array items) as := by
  refine ⟨fun a ha => (h a ha).1, ?_⟩
  show (as.map s.enc).all items = true
  rw [List.all_map, List.all_eq_true]
  exact fun a ha => (h a ha).2

theorem Shape.under_items {s : Shape α} {schema : Schema} {minItems maxItems : ℕ} {as : List α}
    (hlength : minItems ≤ as.length ∧ as.length ≤ maxItems) (h : ∀ a ∈ as, s.Under schema a) :
    (list s).Under (.items minItems maxItems schema) as := by
  obtain ⟨hfit, hall⟩ := Shape.under_list h
  refine ⟨hfit, ?_⟩
  have hmap : minItems ≤ (as.map s.enc).length ∧ (as.map s.enc).length ≤ maxItems := by rwa [List.length_map]
  show (decide (minItems ≤ (as.map s.enc).length ∧ (as.map s.enc).length ≤ maxItems) && (as.map s.enc).all schema) =
      true
  rw [decide_eq_true hmap, Bool.true_and]
  exact hall

theorem Shape.under_option {s : Shape α} {hnull : ∀ a, s.enc a ≠ .null} {schema : Schema} {o : Option α}
    (h : ∀ a, o = some a → s.Under schema a) : (option s hnull).Under (.nullable schema) o := by
  refine ⟨fun a ha => (h a ha).1, ?_⟩
  cases o with
  | none => rfl
  | some a =>
    have ha := (h a rfl).2
    have hne := hnull a
    show Schema.nullable schema (s.enc a) = true
    cases hw : s.enc a with
    | null => exact (hne hw).elim
    | bool | int | float | str | arr | obj => rwa [hw] at ha

theorem under_text (s : String) : text.Under .string s := ⟨trivial, rfl⟩

theorem under_pattern {accepts : String → Bool} {s : String} (h : accepts s = true) :
    text.Under (.pattern accepts) s := ⟨trivial, h⟩

theorem under_bounded {s : String} {minLength maxLength : ℕ} (h : minLength ≤ s.length ∧ s.length ≤ maxLength) :
    text.Under (.bounded minLength maxLength) s := under_pattern (decide_eq_true h)

theorem under_constrained {accepts : String → Bool} {s : String} (h : accepts s = true) :
    (constrained accepts).Under (.pattern accepts) s := ⟨h, h⟩

theorem under_flag (b : Bool) : flag.Under .boolean b := ⟨trivial, rfl⟩

theorem under_i64 {n : ℤ} {minimum maximum : Option ℤ} (h : -9223372036854775808 ≤ n ∧ n ≤ 9223372036854775807)
    (hmin : ∀ m, minimum = some m → m ≤ n) (hmax : ∀ m, maximum = some m → n ≤ m) :
    i64.Under (.integer minimum maximum) n := by
  refine ⟨h, ?_⟩
  show Schema.between minimum maximum n = true
  rw [Schema.between, Bool.and_eq_true, Option.all_eq_true, Option.all_eq_true]
  exact ⟨fun m hm => decide_eq_true (hmin m hm), fun m hm => decide_eq_true (hmax m hm)⟩

theorem under_number {q minimum maximum : ℚ} (h : minimum ≤ q ∧ q ≤ maximum) :
    number.Under (.number minimum maximum) q := by
  refine ⟨trivial, ?_⟩
  show (decide (minimum ≤ q) && decide (q ≤ maximum)) = true
  rw [decide_eq_true h.1, decide_eq_true h.2]
  rfl

/-! ### Schemas that shapes read -/

/-- Every number of the document is an integer of 64 bits. -/
inductive Narrow : Wire → Prop
  | null : Narrow .null
  | bool {b : Bool} : Narrow (.bool b)
  | int {n : ℤ} (h : -9223372036854775808 ≤ n ∧ n ≤ 9223372036854775807) : Narrow (.int n)
  | str {s : String} : Narrow (.str s)
  | arr {ws : List Wire} (h : ∀ w ∈ ws, Narrow w) : Narrow (.arr ws)
  | obj {fs : List (String × Wire)} (h : ∀ f ∈ fs, Narrow f.2) : Narrow (.obj fs)

/-- What the schema accepts is read, exactly if its numbers are integers of 64 bits. -/
def Shape.Reads (s : Shape α) (schema : Schema) : Prop :=
  ∀ w, schema w = true → ((∃ a, s.dec w = some a) ↔ w.Narrow)

/-- The values that the properties accept are read as the fields, exactly if their numbers are integers of 64 bits. -/
def Fields.Reads (r : Fields α) (properties : List (String × Schema)) : Prop :=
  properties.map (·.1) = r.names ∧
    ∀ ws, List.Forall₂ (fun p w => p.2 w = true) properties ws → ((∃ a, r.dec ws = some a) ↔ ∀ w ∈ ws, w.Narrow)

theorem Fields.reads_nil : Fields.nil.Reads [] := by
  refine ⟨rfl, fun ws h => ?_⟩
  cases h
  exact ⟨fun _ => nofun, fun _ => ⟨(), rfl⟩⟩

theorem Fields.reads_cons {name : String} {s : Shape β} {r : Fields γ} {schema : Schema}
    {properties : List (String × Schema)} (hs : s.Reads schema) (hr : r.Reads properties) :
    (Fields.cons name s r).Reads ((name, schema) :: properties) := by
  refine ⟨congrArg (name :: ·) hr.1, fun ws h => ?_⟩
  cases h with
  | @cons _ w _ ws hw hws =>
    rw [List.forall_mem_cons, ← hs w hw, ← hr.2 ws hws]
    constructor
    · rintro ⟨a, ha⟩
      obtain ⟨b, hb, ha⟩ := Option.bind_eq_some_iff.mp ha
      obtain ⟨c, hc, -⟩ := Option.bind_eq_some_iff.mp ha
      exact ⟨⟨b, hb⟩, c, hc⟩
    · rintro ⟨⟨b, hb⟩, c, hc⟩
      refine ⟨(b, c), ?_⟩
      show (s.dec w >>= fun b => r.dec ws >>= fun c => pure (b, c)) = some (b, c)
      rw [hb, hc]
      rfl

/-- A record reads the object of what its fields read. -/
theorem Shape.reads_record {r : Fields α} {h : r.names.Nodup} {f : α → β} {g : β → α} {hgf : ∀ a, g (f a) = a}
    {hfg : ∀ b, f (g b) = b} {properties : List (String × Schema)} (hr : r.Reads properties) :
    ((r.shape h).iso f g hgf hfg).Reads (.object properties) := by
  intro w hw
  obtain ⟨fs, ws, rfl, hws, haccepted, hmem⟩ := Schema.object_columns hw
  have hnarrow : (∀ w ∈ ws, w.Narrow) ↔ (Wire.obj fs).Narrow := by
    constructor
    · exact fun hall => .obj fun f hf => hall _ ((hmem _).mpr ⟨f, hf, rfl⟩)
    · rintro (_ | _ | _ | _ | _ | hall) v hv
      obtain ⟨f, hf, rfl⟩ := (hmem v).mp hv
      exact hall f hf
  rw [← hnarrow, ← hr.2 ws haccepted]
  show (∃ b, ((columns r.names (.obj fs)).bind r.dec).map f = some b) ↔ _
  rw [← hr.1, hws, Option.bind_some]
  constructor
  · rintro ⟨b, hb⟩
    obtain ⟨a, ha, -⟩ := Option.map_eq_some_iff.mp hb
    exact ⟨a, ha⟩
  · rintro ⟨a, ha⟩
    exact ⟨f a, by rw [ha, Option.map_some]⟩

theorem Shape.reads_items {s : Shape α} {schema : Schema} {minItems maxItems : ℕ} (h : s.Reads schema) :
    (list s).Reads (.items minItems maxItems schema) := by
  intro w hw
  cases w with
  | arr ws =>
    have hall : ws.all schema = true := (Bool.and_eq_true_iff.mp hw).2
    have hnarrow : (Wire.arr ws).Narrow ↔ ∀ w ∈ ws, w.Narrow :=
      ⟨fun hn => by cases hn with | arr hn => exact hn, .arr⟩
    rw [hnarrow]
    show (∃ as, ws.mapM s.dec = some as) ↔ _
    clear hw hnarrow
    induction ws with
    | nil => exact ⟨fun _ => nofun, fun _ => ⟨[], rfl⟩⟩
    | cons w ws ih =>
      rw [List.all_cons, Bool.and_eq_true] at hall
      rw [List.forall_mem_cons, ← h w hall.1, ← ih hall.2, List.mapM_cons]
      constructor
      · rintro ⟨as, has⟩
        obtain ⟨b, hb, has⟩ := Option.bind_eq_some_iff.mp has
        obtain ⟨bs, hbs, -⟩ := Option.bind_eq_some_iff.mp has
        exact ⟨⟨b, hb⟩, bs, hbs⟩
      · rintro ⟨⟨b, hb⟩, bs, hbs⟩
        refine ⟨b :: bs, ?_⟩
        rw [hb, hbs]
        rfl
  | null | bool | int | float | str | obj => cases hw

theorem Shape.reads_option {s : Shape α} {hnull : ∀ a, s.enc a ≠ .null} {schema : Schema} (h : s.Reads schema) :
    (option s hnull).Reads (.nullable schema) := by
  intro w hw
  cases w with
  | null => exact ⟨fun _ => .null, fun _ => ⟨none, rfl⟩⟩
  | bool | int | float | str | arr | obj =>
    rw [← h _ hw]
    show (∃ a, Option.map some _ = some a) ↔ _
    constructor
    · rintro ⟨a, ha⟩
      obtain ⟨b, hb, -⟩ := Option.map_eq_some_iff.mp ha
      exact ⟨b, hb⟩
    · rintro ⟨b, hb⟩
      exact ⟨some b, by rw [hb, Option.map_some]⟩

theorem reads_text : text.Reads .string := by
  intro w hw
  cases w with
  | str s => exact ⟨fun _ => .str, fun _ => ⟨s, rfl⟩⟩
  | null | bool | int | float | arr | obj => cases hw

theorem reads_pattern {accepts : String → Bool} : text.Reads (.pattern accepts) := by
  intro w hw
  cases w with
  | str s => exact ⟨fun _ => .str, fun _ => ⟨s, rfl⟩⟩
  | null | bool | int | float | arr | obj => cases hw

theorem reads_bounded {minLength maxLength : ℕ} : text.Reads (.bounded minLength maxLength) := reads_pattern

theorem reads_constrained {accepts : String → Bool} : (constrained accepts).Reads (.pattern accepts) := by
  intro w hw
  cases w with
  | str s => exact ⟨fun _ => .str, fun _ => ⟨s, if_pos hw⟩⟩
  | null | bool | int | float | arr | obj => cases hw

theorem reads_flag : flag.Reads .boolean := by
  intro w hw
  cases w with
  | bool b => exact ⟨fun _ => .bool, fun _ => ⟨b, rfl⟩⟩
  | null | int | float | str | arr | obj => cases hw

/-- An integer that is written as a double is not read as one. -/
theorem reads_i64 {minimum maximum : Option ℤ} : i64.Reads (.integer minimum maximum) := by
  intro w hw
  cases w with
  | int n =>
    show (∃ a, (if -9223372036854775808 ≤ n ∧ n ≤ 9223372036854775807 then some n else none) = some a) ↔ _
    by_cases hn : -9223372036854775808 ≤ n ∧ n ≤ 9223372036854775807
    · rw [if_pos hn]
      exact ⟨fun _ => .int hn, fun _ => ⟨n, rfl⟩⟩
    · rw [if_neg hn]
      exact ⟨nofun, fun h => by cases h with | int h => exact (hn h).elim⟩
  | float q => exact ⟨nofun, nofun⟩
  | null | bool | str | arr | obj => cases hw

/-- The names are of members. -/
theorem reads_member {all : List α} {name : α → String} {hall : ∀ a, all.find? (fun b => name b = name a) = some a}
    {names : List String} (h : ∀ s ∈ names, s ∈ all.map name) : (enumeration all name hall).Reads (.member names) := by
  intro w hw
  cases w with
  | str s =>
    obtain ⟨a, -, rfl⟩ := List.mem_map.mp (h s (of_decide_eq_true hw))
    exact ⟨fun _ => .str, fun _ => ⟨a, hall a⟩⟩
  | null | bool | int | float | arr | obj => cases hw

end Wire
