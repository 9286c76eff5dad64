/-
# The published request schemas

What the JSON schemas of the requests say of a text, beside what the handlers
check. A schema writes a revision without sign or leading zero; the parser of
the handlers takes both. A schema counts the characters of a text; the handlers
count its UTF-8 bytes.

Key definitions: `matchesRevision`, `Padded`, `TextField`, `Request.textFields`.
Key theorems: `parseRevision_iff`, `revision_spelling`, `length_limits`,
`Request.Sends.accepted`.
-/
import Portfolio.Admission
import Portfolio.Cursors
import Portfolio.Requests

namespace Portfolio

/-! ### Revisions -/

/-- The pattern of a revision, `^[1-9][0-9]*$`. -/
def matchesRevision (value : String) : Bool :=
  match value.toList with
  | [] => false
  | c :: cs => decide ('1' ≤ c ∧ c ≤ '9') && cs.all Char.isDigit

/-- The number a run of digits denotes. -/
def denoted (value : String) : ℕ := Nat.ofDigitChars 10 value.toList 0

theorem digits_map_iff {cs : List Char} {n : ℤ} :
    (digits cs).map (fun k => (k : ℤ)) = some n ↔ Decimal.Digits cs ∧ n = Nat.ofDigitChars 10 cs 0 := by
  rw [Option.map_eq_some_iff]
  constructor
  · rintro ⟨_, hparsed, rfl⟩
    obtain ⟨k, hk, hn⟩ := Option.bind_eq_some_iff.mp hparsed
    obtain ⟨hdigits, rfl⟩ := digits_iff.mp hk
    exact ⟨hdigits, (Option.some.inj hn).symm⟩
  · rintro ⟨hdigits, rfl⟩
    exact ⟨_, Option.bind_eq_some_iff.mpr ⟨_, digits_iff.mpr ⟨hdigits, rfl⟩, rfl⟩, rfl⟩

/-- A sign is no digit. -/
theorem sign_not_digits {c : Char} (hc : c.isDigit = false) (cs : List Char) : ¬ Decimal.Digits (c :: cs) :=
  fun h => absurd (h c List.mem_cons_self) (by rw [hc]; decide)

/-- What the parser takes: a positive number that fits, without a sign or after a plus. -/
theorem parseRevision_iff {value : String} {n : ℤ} :
    parseRevision value = some n ↔
      ∃ cs, (value.toList = cs ∨ value.toList = '+' :: cs) ∧ Decimal.Digits cs ∧
        n = Nat.ofDigitChars 10 cs 0 ∧ 0 < n ∧ n ≤ 9223372036854775807 := by
  unfold parseRevision parseI64
  rw [Option.filter_eq_some_iff, Option.filter_eq_some_iff, decide_eq_true_eq, decide_eq_true_eq]
  generalize value.toList = text
  split
  · rename_i c cs
    constructor
    · rintro ⟨⟨hparsed, -⟩, hpos⟩
      obtain ⟨_, hk, rfl⟩ := Option.map_eq_some_iff.mp hparsed
      obtain ⟨k, -, hn⟩ := Option.bind_eq_some_iff.mp hk
      have hnat : (k : ℤ) = _ := Option.some.inj hn
      omega
    · rintro ⟨_, rfl | htext, hdigits, -⟩
      · exact absurd hdigits (sign_not_digits (by decide) _)
      · exact absurd (List.cons.inj htext).1 (by decide)
  · rename_i c cs
    rw [digits_map_iff]
    constructor
    · rintro ⟨⟨⟨hdigits, hn⟩, hmin, hmax⟩, hpos⟩
      exact ⟨c :: cs, .inr rfl, hdigits, hn, hpos, hmax⟩
    · rintro ⟨_, rfl | htext, hdigits, hn, hpos, hmax⟩
      · exact absurd hdigits (sign_not_digits (by decide) _)
      · obtain ⟨-, rfl⟩ := List.cons.inj htext
        exact ⟨⟨⟨hdigits, hn⟩, by omega, hmax⟩, hpos⟩
  · rename_i c cs hminus hplus
    rw [digits_map_iff]
    constructor
    · rintro ⟨⟨⟨hdigits, hn⟩, hmin, hmax⟩, hpos⟩
      exact ⟨c :: cs, .inl rfl, hdigits, hn, hpos, hmax⟩
    · rintro ⟨digits, rfl | htext, hdigits, hn, hpos, hmax⟩
      · exact ⟨⟨⟨hdigits, hn⟩, by omega, hmax⟩, hpos⟩
      · -- a plus alone denotes nothing
        obtain ⟨rfl, rfl⟩ := List.cons.inj htext
        rcases cs with - | ⟨d, ds⟩
        · rw [Nat.ofDigitChars_nil] at hn
          omega
        · exact (hplus d ds rfl rfl).elim
  · constructor
    · rintro ⟨⟨hparsed, -⟩, -⟩
      cases hparsed
    · rintro ⟨_, rfl | htext, -, hn, hpos, -⟩
      · rw [Nat.ofDigitChars_nil] at hn
        omega
      · cases htext

theorem matchesRevision_iff {value : String} : matchesRevision value = true ↔ Decimal.Canonical value.toList := by
  unfold matchesRevision Decimal.Canonical
  cases value.toList with
  | nil => simp
  | cons c cs =>
    simp only [Bool.and_eq_true, decide_eq_true_eq, List.all_eq_true, ne_eq, reduceCtorEq, not_false_eq_true,
      List.head?_cons, Option.some_inj, true_and, Decimal.Digits, List.forall_mem_cons, Decimal.isDigit_iff]
    have hone : '1' ≤ c ↔ 49 ≤ c.toNat := Iff.rfl
    have hnine : c ≤ '9' ↔ c.toNat ≤ 57 := Iff.rfl
    have hzero : c = '0' ↔ c.toNat = 48 := Char.toNat_inj.symm
    rw [hone, hnine, hzero]
    constructor
    · rintro ⟨hc, hcs⟩
      exact ⟨⟨by omega, hcs⟩, by omega⟩
    · rintro ⟨⟨hc, hcs⟩, hne⟩
      exact ⟨by omega, hcs⟩

/-- A positive number that fits, written with a plus or with a leading zero. -/
def Padded (value : String) : Prop :=
  ∃ cs, (value.toList = '+' :: cs ∨ (value.toList = cs ∧ cs.head? = some '0')) ∧ Decimal.Digits cs ∧
    0 < Nat.ofDigitChars 10 cs 0 ∧ Nat.ofDigitChars 10 cs 0 ≤ 9223372036854775807

/-- What is accepted and not padded is canonical. -/
theorem canonical_of_parseRevision {value : String} {n : ℤ} (hpad : ¬ Padded value)
    (h : parseRevision value = some n) : Decimal.Canonical value.toList ∧ n = denoted value := by
  obtain ⟨cs, htext, hdigits, hn, hpos, hmax⟩ := parseRevision_iff.mp h
  have hpos' : 0 < Nat.ofDigitChars 10 cs 0 := by omega
  have hmax' : Nat.ofDigitChars 10 cs 0 ≤ 9223372036854775807 := by omega
  rcases htext with rfl | htext
  · refine ⟨⟨hdigits, fun hnil => ?_, fun hzero => ?_⟩, hn⟩
    · rw [hnil, Nat.ofDigitChars_nil] at hpos'
      omega
    · exact hpad ⟨_, .inr ⟨rfl, hzero⟩, hdigits, hpos', hmax'⟩
  · exact (hpad ⟨cs, .inl htext, hdigits, hpos', hmax'⟩).elim

theorem parseRevision_of_canonical {value : String} (h : Decimal.Canonical value.toList)
    (hmax : denoted value ≤ 9223372036854775807) : parseRevision value = some (denoted value : ℤ) := by
  refine parseRevision_iff.mpr ⟨value.toList, .inl rfl, h.1, rfl, ?_, by exact_mod_cast hmax⟩
  obtain ⟨c, cs, htext⟩ := List.exists_cons_of_ne_nil h.2.1
  have hlow : 10 ^ cs.length ≤ denoted value := by
    rw [denoted, htext]
    exact (htext ▸ h).le_value
  have hpow : 0 < 10 ^ cs.length := Nat.pow_pos (by decide)
  omega

/-- **A revision is parsed as the schemas write it, unless it is padded; and what is not padded has one
spelling.** -/
theorem revision_spelling (value : String) :
    ((∀ n : ℤ, parseRevision value = some n ↔
        matchesRevision value = true ∧ n = denoted value ∧ n ≤ 9223372036854775807) ↔ ¬ Padded value) ∧
    (∀ n : ℤ, 0 < n → n ≤ 9223372036854775807 → parseRevision (toString n) = some n) ∧
    ∀ (value' : String) (n : ℤ), ¬ Padded value → ¬ Padded value' → parseRevision value = some n →
      parseRevision value' = some n → value = value' := by
  refine ⟨⟨fun h => ?_, fun hpad n => ⟨fun h => ?_, ?_⟩⟩, fun n hpos hmax => ?_, ?_⟩
  · rintro ⟨cs, htext, hdigits, hpos, hmax⟩
    have hparse : parseRevision value = some (Nat.ofDigitChars 10 cs 0 : ℤ) := by
      refine parseRevision_iff.mpr ⟨cs, ?_, hdigits, rfl, by exact_mod_cast hpos, by exact_mod_cast hmax⟩
      exact htext.elim .inr fun h => .inl h.1
    obtain ⟨hcanon, -⟩ := ((h _).mp hparse).imp_left matchesRevision_iff.mp
    rcases htext with htext | ⟨rfl, hzero⟩
    · rw [htext] at hcanon
      exact sign_not_digits (by decide) _ hcanon.1
    · exact hcanon.2.2 hzero
  · obtain ⟨hcanon, rfl⟩ := canonical_of_parseRevision hpad h
    obtain ⟨-, -, -, -, -, hmax⟩ := parseRevision_iff.mp h
    exact ⟨matchesRevision_iff.mpr hcanon, rfl, hmax⟩
  · rintro ⟨hmatch, rfl, hmax⟩
    exact parseRevision_of_canonical (matchesRevision_iff.mp hmatch) (by exact_mod_cast hmax)
  · exact (parseRevision_toString hpos).mpr ⟨rfl, hmax⟩
  · intro value' n hpad hpad' h h'
    obtain ⟨hcanon, hn⟩ := canonical_of_parseRevision hpad h
    obtain ⟨hcanon', hn'⟩ := canonical_of_parseRevision hpad' h'
    have hvalue : denoted value = denoted value' := by exact_mod_cast hn.symm.trans hn'
    exact String.toList_injective (hcanon.eq_of_value hcanon' hvalue)

/-- A revision has a second spelling, and the request with it a second digest. -/
theorem revision_spelled_twice :
    (¬ ∀ value, ∀ n : ℤ, parseRevision value = some n ↔
      matchesRevision value = true ∧ n = denoted value ∧ n ≤ 9223372036854775807) ∧
    parseRevision "+1" = parseRevision "1" ∧
    (Request.attachProject ⟨"+1", .onTrack, "attach", "alpha", "Site", "2026-08-30T00:00:00Z", "acme", 0, 10, "site",
      "r1", .started, none, none⟩).json ≠ sampleAttachRequest.json := by
  refine ⟨fun h => ?_, by decide +kernel, by decide +kernel⟩
  have hparse : parseRevision "+1" = some 1 := by decide +kernel
  exact absurd ((h "+1" 1).mp hparse).1 (by decide +kernel)

/-! ### Lengths -/

/-- The texts a request schema bounds, but for the keys. -/
inductive TextField
  | name
  | nameSnapshot
  | summary
  | opaqueId
  | snapshotRevision
deriving DecidableEq

/-- The `maxLength` of the schemas, in characters. -/
def TextField.maxLength : TextField → ℕ
  | .name => 240
  | .nameSnapshot => 240
  | .summary => 4000
  | .opaqueId => 512
  | .snapshotRevision => 128

/-- The check of the handlers. -/
def TextField.accepts : TextField → String → Bool
  | .name, value => validText value 240
  | .nameSnapshot, value => validText value 240
  | .summary, value => validText value maxTextBytes
  | .opaqueId, value => validOpaqueId value
  | .snapshotRevision, value => validBoundedOpaque value 128

/-- The bounded texts of a request. -/
def Request.textFields : Request → List (TextField × String)
  | .createInitiative r =>
    [(.opaqueId, r.organizationId), (.opaqueId, r.initiativeId), (.name, r.name)] ++
      r.summary.toList.map (TextField.summary, ·) ++ r.ownerSubject.toList.map (TextField.opaqueId, ·)
  | .getInitiative r => [(.opaqueId, r.organizationId), (.opaqueId, r.initiativeId)]
  | .listInitiatives r => [(.opaqueId, r.organizationId)]
  | .updateInitiative r =>
    [(.opaqueId, r.organizationId), (.opaqueId, r.initiativeId)] ++ r.name.toList.map (TextField.name, ·) ++
      r.summary.toList.map (TextField.summary, ·) ++ r.ownerSubject.toList.map (TextField.opaqueId, ·)
  | .listInitiativeProjects r => [(.opaqueId, r.organizationId), (.opaqueId, r.initiativeId)]
  | .addInitiativeUpdate r =>
    [(.opaqueId, r.organizationId), (.opaqueId, r.initiativeId), (.opaqueId, r.updateId), (.summary, r.summary)]
  | .listInitiativeUpdates r => [(.opaqueId, r.organizationId), (.opaqueId, r.initiativeId)]
  | .readRollup r => [(.opaqueId, r.organizationId), (.opaqueId, r.initiativeId)]
  | .archiveInitiative r => [(.opaqueId, r.organizationId), (.opaqueId, r.initiativeId)]
  | .attachProject r =>
    [(.opaqueId, r.organizationId), (.opaqueId, r.initiativeId), (.opaqueId, r.projectId),
      (.nameSnapshot, r.nameSnapshot), (.snapshotRevision, r.snapshotRevision)]
  | .updateProjectSnapshot r =>
    [(.opaqueId, r.organizationId), (.opaqueId, r.initiativeId), (.opaqueId, r.projectId),
      (.nameSnapshot, r.nameSnapshot), (.snapshotRevision, r.snapshotRevision)]
  | .detachProject r => [(.opaqueId, r.organizationId), (.opaqueId, r.initiativeId), (.opaqueId, r.projectId)]
  | .reorderProjects r =>
    [(.opaqueId, r.organizationId), (.opaqueId, r.initiativeId)] ++
      r.items.map fun item => (TextField.opaqueId, item.projectId)

theorem length_le_flatMap {α β : Type} {f : α → List β} (hf : ∀ a, 1 ≤ (f a).length) :
    ∀ l : List α, l.length ≤ (l.flatMap f).length
  | [] => Nat.le_refl 0
  | a :: l => by
    have ha := hf a
    have hl := length_le_flatMap hf l
    rw [List.flatMap_cons, List.length_append, List.length_cons]
    omega

/-- A text has a byte at least for each of its characters. -/
theorem length_le_utf8ByteSize (value : String) : value.length ≤ value.utf8ByteSize := by
  have hsize : value.utf8ByteSize = (value.toList.flatMap String.utf8EncodeChar).length := by
    rw [← String.size_toByteArray, ← String.utf8Encode_toList, List.utf8Encode, List.size_toByteArray]
  rw [hsize, ← String.length_toList]
  refine length_le_flatMap (fun c => ?_) _
  rw [String.length_utf8EncodeChar]
  exact c.utf8Size_pos

/-- Past the tests of its characters, the check of a text is one of its bytes. -/
theorem TextField.accepts_iff {value : String} (hblank : value.toList.all isWhiteSpace = false)
    (hcontrol : value.toList.any isControl = false) (field : TextField) :
    field.accepts value = true ↔ value.utf8ByteSize ≤ field.maxLength := by
  have hnul : hasNul value = false := by
    refine Bool.eq_false_iff.mpr fun hmem => ?_
    exact absurd (List.any_eq_false.mp hcontrol _ (List.contains_iff_mem.mp hmem)) (by decide)
  have hempty : value.isEmpty = false := by
    refine Bool.eq_false_iff.mpr fun hempty => ?_
    rw [String.isEmpty_iff.mp hempty] at hblank
    exact absurd hblank (by decide)
  have htext : ∀ max, validText value max = decide (value.utf8ByteSize ≤ max) := by
    intro max
    rw [validText, hblank, hnul, Bool.not_false, Bool.true_and, Bool.and_true]
  have hopaque : ∀ max, validBoundedOpaque value max = decide (value.utf8ByteSize ≤ max) := by
    intro max
    rw [validBoundedOpaque, hempty, hnul, hcontrol, Bool.not_false, Bool.true_and, Bool.and_true, Bool.and_true]
  cases field with
  | name => rw [accepts, htext, decide_eq_true_eq, maxLength]
  | nameSnapshot => rw [accepts, htext, decide_eq_true_eq, maxLength]
  | summary => rw [accepts, htext, decide_eq_true_eq, maxLength, maxTextBytes]
  | opaqueId => rw [accepts, validOpaqueId, hopaque, decide_eq_true_eq, maxLength, maxIdBytes]
  | snapshotRevision => rw [accepts, hopaque, decide_eq_true_eq, maxLength]

/-- **A handler's limit is the schema's for a text within it in bytes, or over it in characters.** -/
theorem length_limits (field : TextField) (value : String) (hblank : value.toList.all isWhiteSpace = false)
    (hcontrol : value.toList.any isControl = false) :
    (field.accepts value = true ↔ value.length ≤ field.maxLength) ↔
      value.utf8ByteSize ≤ field.maxLength ∨ field.maxLength < value.length := by
  rw [TextField.accepts_iff hblank hcontrol]
  have hle := length_le_utf8ByteSize value
  omega

theorem length_limits_ascii :
    (TextField.name.accepts "Roadmap" = true ↔ "Roadmap".length ≤ TextField.name.maxLength) :=
  (length_limits .name "Roadmap" (by decide +kernel) (by decide +kernel)).mpr (.inl (by decide +kernel))

/-- A name of 121 characters in 242 bytes, which the schema admits, is refused. -/
theorem length_limit_in_bytes :
    (¬ ∀ (field : TextField) (value : String), value.toList.all isWhiteSpace = false →
      value.toList.any isControl = false → (field.accepts value = true ↔ value.length ≤ field.maxLength)) ∧
    (Handler.serve ((Request.createInitiative ⟨"create", "alpha", String.ofList (List.replicate 121 'é'), "acme",
      none, none, none, none⟩).handle samplePlugin sampleContext) (fun _ => default) Tables.empty).1 =
        .error (.domain (.portfolio .invalidRequest)) := by
  refine ⟨fun h => ?_, by decide +kernel⟩
  have hname := h .name (String.ofList (List.replicate 121 'é')) (by rw [String.toList_ofList]; decide)
    (by rw [String.toList_ofList]; decide)
  have hlength : (String.ofList (List.replicate 121 'é')).length ≤ TextField.name.maxLength := by
    rw [String.length_ofList, List.length_replicate]
    decide
  exact absurd (hname.mpr hlength) (by decide +kernel)

/-! ### The texts of an issued call -/

theorem accepted_nil : ∀ p ∈ ([] : List (TextField × String)), p.1.accepts p.2 = true := nofun

theorem accepted_cons {field : TextField} {value : String} {rest : List (TextField × String)}
    (h : field.accepts value = true) (hrest : ∀ p ∈ rest, p.1.accepts p.2 = true) :
    ∀ p ∈ (field, value) :: rest, p.1.accepts p.2 = true := List.forall_mem_cons.mpr ⟨h, hrest⟩

theorem accepted_of_optional {field : TextField} {value : Option String} (h : value.all field.accepts = true) :
    ∀ p ∈ value.toList.map (Prod.mk field), p.1.accepts p.2 = true := by
  cases value with
  | none => exact nofun
  | some v => exact List.forall_mem_singleton.mpr h

section
variable {plugin : ProjectPortfolioPlugin} {context : Context} {q : Request} {c : Call}

/-- **A handler issues a call only with texts their fields accept.** -/
theorem Request.Sends.accepted (h : q.Sends plugin context c) :
    ∀ p ∈ q.textFields, p.1.accepts p.2 = true := by
  cases h with
  | createInitiative hauth hdates hvalid =>
    simp only [Bool.and_eq_true] at hvalid
    obtain ⟨⟨⟨⟨hkey, hi⟩, hname⟩, hsummary⟩, howner⟩ := hvalid
    have horg := (authorize_ok hauth).ids.1
    rw [textFields, List.forall_mem_append, List.forall_mem_append]
    refine ⟨⟨?_, accepted_of_optional hsummary⟩, accepted_of_optional howner⟩
    exact accepted_cons horg (accepted_cons hi (accepted_cons hname accepted_nil))
  | updateInitiative hauth hexpected hdates hvalid =>
    simp only [Bool.and_eq_true] at hvalid
    obtain ⟨⟨⟨⟨hkey, hi⟩, hname⟩, hsummary⟩, howner⟩ := hvalid
    have horg := (authorize_ok hauth).ids.1
    rw [textFields, List.forall_mem_append, List.forall_mem_append, List.forall_mem_append]
    refine ⟨⟨⟨?_, accepted_of_optional hname⟩, accepted_of_optional hsummary⟩, accepted_of_optional howner⟩
    exact accepted_cons horg (accepted_cons hi accepted_nil)
  | addInitiativeUpdate hauth hexpected hvalid =>
    simp only [Bool.and_eq_true] at hvalid
    obtain ⟨⟨⟨⟨hkey, hi⟩, hu⟩, hsummary⟩, hprogress⟩ := hvalid
    have horg := (authorize_ok hauth).ids.1
    exact accepted_cons horg (accepted_cons hi (accepted_cons hu (accepted_cons hsummary accepted_nil)))
  | archiveInitiative hauth hexpected =>
    have horg := (authorize_ok hauth).ids.1
    exact accepted_cons horg (accepted_cons (validAdminMutation_ok hexpected).2.1 accepted_nil)
  | attachProject hauth hexpected hsnapshot hvalid =>
    have horg := (authorize_ok hauth).ids.1
    obtain ⟨⟨hp, hname, hrevision, -⟩, -⟩ := parseSnapshot_ok hsnapshot
    exact accepted_cons horg (accepted_cons (validAdminMutation_ok hexpected).2.1
      (accepted_cons hp (accepted_cons hname (accepted_cons hrevision accepted_nil))))
  | updateProjectSnapshot hauth hexpected hsnapshot =>
    have horg := (authorize_ok hauth).ids.1
    obtain ⟨⟨hp, hname, hrevision, -⟩, -⟩ := parseSnapshot_ok hsnapshot
    exact accepted_cons horg (accepted_cons (validAdminMutation_ok hexpected).2.1
      (accepted_cons hp (accepted_cons hname (accepted_cons hrevision accepted_nil))))
  | detachProject hauth hexpected hmembership =>
    have horg := (authorize_ok hauth).ids.1
    have hp := (Option.filter_eq_some_iff.mp hmembership).2
    exact accepted_cons horg (accepted_cons (validAdminMutation_ok hexpected).2.1 (accepted_cons hp accepted_nil))
  | reorderProjects hauth hexpected hitems =>
    have horg := (authorize_ok hauth).ids.1
    rw [textFields, List.forall_mem_append]
    refine ⟨accepted_cons horg (accepted_cons (validAdminMutation_ok hexpected).2.1 accepted_nil), ?_⟩
    refine List.forall_mem_map.mpr fun item hitem => ?_
    have hsome := Json.mapM_isSome_iff.mp (Option.isSome_of_eq_some hitems) item hitem
    obtain ⟨input, hinput⟩ := Option.isSome_iff_exists.mp hsome
    obtain ⟨projectId, hid, -⟩ := Option.bind_eq_some_iff.mp hinput
    exact (Option.guard_eq_some_iff.mp hid).2

/-- A text its field does not accept stops the call. -/
theorem not_issued {p : TextField × String} (hp : p ∈ q.textFields) (h : p.1.accepts p.2 = false) :
    Handler.mutation (q.handle plugin context) = none := by
  cases hcall : Handler.mutation (q.handle plugin context) with
  | none => rfl
  | some c =>
    have haccepted := (sends_of_mutation hcall).accepted p hp
    rw [h] at haccepted
    cases haccepted

end

end Portfolio
