/-
# The configuration of the plugin

What `ProjectPortfolioConfig::validate` admits, and the reference under which
the database secret is resolved. A reference is admitted by either of two
separate rules: as an id, or as a relative path. The path rule refuses the
segments `.` and `..`; the id rule knows no segments, and both pass it.

Key definitions: `validSecretReference`, `NormalizedReference`,
`ProjectPortfolioConfig.validate`.
Key theorems: `validSecretReference_normalized`,
`ProjectPortfolioConfig.validate_error`, `configured_of_validate`.
-/
import Portfolio.Segments
import Portfolio.Requests

namespace Portfolio

/-! ### The secret reference -/

/-- `str::bytes`. -/
def bytes (value : String) : List UInt8 := value.toUTF8.data.toList

/-- `u8::is_ascii_alphanumeric`. -/
def isAsciiAlphanumeric (byte : UInt8) : Bool :=
  decide (0x30 ≤ byte ∧ byte ≤ 0x39) || decide (0x41 ≤ byte ∧ byte ≤ 0x5a) || decide (0x61 ≤ byte ∧ byte ≤ 0x7a)

/-- A letter, a digit or one of the marks. -/
def isReferenceByte (marks : List Char) (byte : UInt8) : Bool :=
  isAsciiAlphanumeric byte || decide (byte ∈ marks.map Char.toUInt8)

/-- `value.split('/')`. -/
def parts (value : String) : List (List Char) := value.toList.splitOn '/'

def validSecretReference (value : String) : Bool :=
  validId value ||
    (!value.isEmpty && decide (value.utf8ByteSize ≤ 256) && !decide (['/'] <+: value.toList) &&
      !decide (['/'] <:+ value.toList) && !decide (['/', '/'] <:+: value.toList) &&
      (parts value).all (fun part => decide (part ≠ ['.'] ∧ part ≠ ['.', '.'])) &&
      (bytes value).all (isReferenceByte ['.', '_', '-', '/']))

/-! ### Ids as references -/

/-- A list of ASCII characters has one byte for each. -/
theorem utf8Encode_ascii : ∀ {cs : List Char}, (∀ c ∈ cs, c.toNat < 128) →
    cs.flatMap String.utf8EncodeChar = cs.map Char.toUInt8
  | [], _ => rfl
  | c :: cs, h => by
    have hc : c.toNat < 128 := h c List.mem_cons_self
    have hsize : c.utf8Size = 1 := Char.utf8Size_eq_one_iff.mpr (UInt32.le_iff_toNat_le.mpr (Nat.le_of_lt_succ hc))
    rw [List.flatMap_cons, List.map_cons, String.utf8EncodeChar_eq_singleton hsize,
      utf8Encode_ascii fun c' hc' => h c' (List.mem_cons_of_mem _ hc')]
    rfl

theorem bytes_ascii {value : String} (h : ∀ c ∈ value.toList, c.toNat < 128) :
    bytes value = value.toList.map Char.toUInt8 := by
  unfold bytes
  rw [String.toUTF8_eq_toByteArray, ← String.utf8Encode_toList, List.utf8Encode, List.toList_data_toByteArray]
  exact utf8Encode_ascii h

theorem isAlphanum_range {c : Char} (h : c.isAlphanum = true) :
    (0x30 ≤ c.toNat ∧ c.toNat ≤ 0x39) ∨ (0x41 ≤ c.toNat ∧ c.toNat ≤ 0x5a) ∨ (0x61 ≤ c.toNat ∧ c.toNat ≤ 0x7a) := by
  have range {low high : UInt32} (hlow : c.val ≥ low) (hhigh : c.val ≤ high) :
      low.toNat ≤ c.toNat ∧ c.toNat ≤ high.toNat :=
    ⟨UInt32.le_iff_toNat_le.mp hlow, UInt32.le_iff_toNat_le.mp hhigh⟩
  rcases Bool.or_eq_true_iff.mp h with halpha | hdigit
  · rcases Bool.or_eq_true_iff.mp halpha with hupper | hlower
    · obtain ⟨hlow, hhigh⟩ := of_decide_eq_true hupper
      exact .inr (.inl (range hlow hhigh))
    · obtain ⟨hlow, hhigh⟩ := Bool.and_eq_true_iff.mp hlower
      exact .inr (.inr (range (of_decide_eq_true hlow) (of_decide_eq_true hhigh)))
  · obtain ⟨hlow, hhigh⟩ := Bool.and_eq_true_iff.mp hdigit
    exact .inl (range (of_decide_eq_true hlow) (of_decide_eq_true hhigh))

theorem isAsciiAlphanumeric_of_isAlphanum {c : Char} (h : c.isAlphanum = true) :
    isAsciiAlphanumeric c.toUInt8 = true := by
  have hrange := isAlphanum_range h
  have hbyte : c.toUInt8.toNat = c.toNat := by
    show c.toNat % 256 = c.toNat
    omega
  unfold isAsciiAlphanumeric
  simp only [Bool.or_eq_true, decide_eq_true_eq, UInt8.le_iff_toNat_le, hbyte]
  exact or_assoc.mpr hrange

theorem isIdChar_ascii {c : Char} (h : isIdChar c = true) : c.toNat < 128 := by
  rcases Bool.or_eq_true_iff.mp h with h | h
  · have hrange := isAlphanum_range h
    omega
  · have hmarks : ∀ c ∈ ['.', '_', '-', ':'], c.toNat < 128 := by simp
    exact hmarks c (of_decide_eq_true h)

theorem isReferenceByte_of_isIdChar {c : Char} (h : isIdChar c = true) :
    isReferenceByte ['.', '_', '-', ':'] c.toUInt8 = true := by
  rcases Bool.or_eq_true_iff.mp h with h | h
  · exact Bool.or_eq_true_iff.mpr (.inl (isAsciiAlphanumeric_of_isAlphanum h))
  · exact Bool.or_eq_true_iff.mpr (.inr (decide_eq_true (List.mem_map_of_mem (of_decide_eq_true h))))

/-- More marks admit more. -/
theorem isReferenceByte_mono {marks marks' : List Char} (hmarks : marks ⊆ marks') {byte : UInt8}
    (h : isReferenceByte marks byte = true) : isReferenceByte marks' byte = true := by
  rcases Bool.or_eq_true_iff.mp h with h | h
  · exact Bool.or_eq_true_iff.mpr (.inl h)
  · exact Bool.or_eq_true_iff.mpr (.inr (decide_eq_true (List.map_subset _ hmarks (of_decide_eq_true h))))

/-- An id is one segment. -/
theorem parts_of_validId {value : String} (h : validId value = true) : parts value = [value.toList] := by
  simp only [validId, Bool.and_eq_true, List.all_eq_true] at h
  refine Segments.single fun hslash => ?_
  have hid : isIdChar '/' = true := h.2 _ hslash
  exact absurd hid (by decide)

/-! ### Normalized references -/

/-- A relative path of 1 to 256 bytes, letters, digits and marks, with no empty segment and no `.` or `..`. -/
structure NormalizedReference (marks : List Char) (value : String) : Prop where
  size : 1 ≤ (bytes value).length ∧ (bytes value).length ≤ 256
  letters : ∀ byte ∈ bytes value, isReferenceByte marks byte = true
  segments : ∀ part ∈ parts value, part ≠ [] ∧ part ≠ ['.'] ∧ part ≠ ['.', '.']

theorem length_bytes (value : String) : (bytes value).length = value.utf8ByteSize := rfl

theorem one_le_bytes_iff {value : String} : 1 ≤ (bytes value).length ↔ value ≠ "" := by
  rw [length_bytes, Nat.one_le_iff_ne_zero, Ne, String.utf8ByteSize_eq_zero_iff]

theorem toList_eq_nil_iff {value : String} : value.toList = [] ↔ value = "" :=
  ⟨fun h => String.toList_injective h, fun h => h ▸ rfl⟩

/-- The path rule, segment by segment. -/
theorem normalizedReference_iff (value : String) :
    NormalizedReference ['.', '_', '-', '/'] value ↔
      (!value.isEmpty && decide (value.utf8ByteSize ≤ 256) && !decide (['/'] <+: value.toList) &&
        !decide (['/'] <:+ value.toList) && !decide (['/', '/'] <:+: value.toList) &&
        (parts value).all (fun part => decide (part ≠ ['.'] ∧ part ≠ ['.', '.'])) &&
        (bytes value).all (isReferenceByte ['.', '_', '-', '/'])) = true := by
  have hparts : (∀ part ∈ parts value, part ≠ []) ↔ value ≠ "" ∧ ¬ ['/'] <+: value.toList ∧
      ¬ ['/'] <:+ value.toList ∧ ¬ ['/', '/'] <:+: value.toList := by
    unfold parts
    rw [Segments.nonempty_iff, Ne, toList_eq_nil_iff]
  have hempty : (!value.isEmpty) = true ↔ value ≠ "" := by
    rw [Bool.not_eq_true', ← Bool.not_eq_true, String.isEmpty_iff]
  simp only [Bool.and_eq_true, hempty, Bool.not_eq_true', decide_eq_true_eq, decide_eq_false_iff_not,
    List.all_eq_true]
  constructor
  · rintro ⟨⟨hpos, hsize⟩, hletters, hsegments⟩
    obtain ⟨hne, hstart, hend, htwo⟩ := hparts.mp fun part hpart => (hsegments part hpart).1
    exact ⟨⟨⟨⟨⟨⟨hne, hsize⟩, hstart⟩, hend⟩, htwo⟩, fun part hpart => (hsegments part hpart).2⟩, hletters⟩
  · rintro ⟨⟨⟨⟨⟨⟨hne, hsize⟩, hstart⟩, hend⟩, htwo⟩, hdots⟩, hletters⟩
    exact ⟨⟨one_le_bytes_iff.mpr hne, hsize⟩, hletters,
      fun part hpart => ⟨hparts.mpr ⟨hne, hstart, hend, htwo⟩ part hpart, hdots part hpart⟩⟩

/-- The id rule, past the two names it does not know. -/
theorem normalizedReference_of_validId {value : String} (h : validId value = true) (hdot : value ≠ ".")
    (hdots : value ≠ "..") : NormalizedReference ['.', '_', '-', ':'] value := by
  have hparts := parts_of_validId h
  simp only [validId, Bool.and_eq_true, Bool.not_eq_true', decide_eq_true_eq, List.all_eq_true] at h
  obtain ⟨⟨hempty, hsize⟩, hchars⟩ := h
  have hne : value ≠ "" := fun h => absurd (String.isEmpty_iff.mpr h) (Bool.not_eq_true _ ▸ hempty)
  refine ⟨⟨one_le_bytes_iff.mpr hne, hsize⟩, ?_, ?_⟩
  · rw [bytes_ascii fun c hc => isIdChar_ascii (hchars c hc)]
    exact List.forall_mem_map.mpr fun c hc => isReferenceByte_of_isIdChar (hchars c hc)
  · rw [hparts]
    refine List.forall_mem_singleton.mpr ⟨fun h => hne (toList_eq_nil_iff.mp h), ?_, ?_⟩
    · exact fun h => hdot (String.toList_injective h)
    · exact fun h => hdots (String.toList_injective h)

theorem NormalizedReference.mono {marks marks' : List Char} (hmarks : marks ⊆ marks') {value : String}
    (h : NormalizedReference marks value) : NormalizedReference marks' value :=
  ⟨h.size, fun byte hbyte => isReferenceByte_mono hmarks (h.letters byte hbyte), h.segments⟩

/-- **An admitted reference is a normalized path, but for the names of the directory and its parent.** -/
theorem validSecretReference_normalized (value : String) :
    ((validSecretReference value = true → NormalizedReference ['.', '_', '-', ':', '/'] value) ∧
      (NormalizedReference ['.', '_', '-', '/'] value → validSecretReference value = true)) ↔
    value ≠ "." ∧ value ≠ ".." := by
  unfold validSecretReference
  rw [Bool.or_eq_true, ← normalizedReference_iff]
  constructor
  · rintro ⟨h, -⟩
    constructor
    · rintro rfl
      exact absurd (h (.inl (by decide +kernel))).segments (by decide +kernel)
    · rintro rfl
      exact absurd (h (.inl (by decide +kernel))).segments (by decide +kernel)
  · rintro ⟨hdot, hdots⟩
    refine ⟨?_, .inr⟩
    rintro (hid | hpath)
    · exact (normalizedReference_of_validId hid hdot hdots).mono (by decide)
    · exact hpath.mono (by decide)

/-- The parent directory is admitted as an id. -/
theorem validSecretReference_parent :
    ¬ ∀ value, (validSecretReference value = true → NormalizedReference ['.', '_', '-', ':', '/'] value) ∧
      (NormalizedReference ['.', '_', '-', '/'] value → validSecretReference value = true) := by
  intro h
  have hvalid : validSecretReference ".." = true := by decide +kernel
  exact absurd ((h "..").1 hvalid).segments (by decide +kernel)

example : validSecretReference "portfolio/database-url" = true := by decide +kernel
example : validSecretReference "portfolio/../database-url" = false := by decide +kernel

/-! ### The configuration -/

structure ProjectPortfolioConfig where
  schema : String
  databaseUrlSecret : String
  authIssuer : String
  authAssertionPublicKey : String
  portfolioCallers : List String
  adminCallers : List String
deriving DecidableEq

inductive ProjectPortfolioConfigError
  | invalidSchema
  | invalidSecretReference
  | invalidAuthIssuer
  | invalidAuthPublicKey
  | invalidPortfolioCallers
  | invalidAdminCallers
deriving DecidableEq

def ProjectPortfolioConfigError.message : ProjectPortfolioConfigError → String
  | .invalidSchema => "invalid owned PostgreSQL schema"
  | .invalidSecretReference => "invalid database URL secret reference"
  | .invalidAuthIssuer => "invalid Auth issuer"
  | .invalidAuthPublicKey => "invalid Auth assertion public key"
  | .invalidPortfolioCallers => "portfolio_callers must contain unique exact Instance keys"
  | .invalidAdminCallers => "admin_callers must contain unique exact Instance keys"

/-- The checks of the libraries: a schema name has a plan, and an issuer and a public key make a verifier. -/
structure ConfigLibraries where
  schemaPlan : String → Bool
  verifier : String → String → Bool

namespace ProjectPortfolioConfig
variable (config : ProjectPortfolioConfig) (libraries : ConfigLibraries)

def validate : Except ProjectPortfolioConfigError Unit := do
  ensure .invalidSchema (libraries.schemaPlan config.schema)
  ensure .invalidSecretReference (validSecretReference config.databaseUrlSecret)
  ensure .invalidAuthIssuer (validId config.authIssuer)
  ensure .invalidAuthPublicKey (libraries.verifier config.authIssuer config.authAssertionPublicKey)
  ensure .invalidPortfolioCallers (validCallers config.portfolioCallers)
  ensure .invalidAdminCallers (validCallers config.adminCallers)

def validateConfig : Except RuntimeFailure Unit :=
  (config.validate libraries).mapError fun error =>
    .invalidResolvedPlan ("Project Portfolio configuration is invalid: " ++ error.message)

/-- The check an error reports. -/
def admits : ProjectPortfolioConfigError → Bool
  | .invalidSchema => libraries.schemaPlan config.schema
  | .invalidSecretReference => validSecretReference config.databaseUrlSecret
  | .invalidAuthIssuer => validId config.authIssuer
  | .invalidAuthPublicKey => libraries.verifier config.authIssuer config.authAssertionPublicKey
  | .invalidPortfolioCallers => validCallers config.portfolioCallers
  | .invalidAdminCallers => validCallers config.adminCallers

variable {config libraries}

theorem validate_ok {u : Unit} (h : config.validate libraries = .ok u) (error : ProjectPortfolioConfigError) :
    config.admits libraries error = true := by
  obtain ⟨_, hschema, h⟩ := except_bind_ok.mp h
  obtain ⟨_, hsecret, h⟩ := except_bind_ok.mp h
  obtain ⟨_, hissuer, h⟩ := except_bind_ok.mp h
  obtain ⟨_, hkey, h⟩ := except_bind_ok.mp h
  obtain ⟨_, hportfolio, hadmin⟩ := except_bind_ok.mp h
  cases error with
  | invalidSchema => exact ensure_ok.mp hschema
  | invalidSecretReference => exact ensure_ok.mp hsecret
  | invalidAuthIssuer => exact ensure_ok.mp hissuer
  | invalidAuthPublicKey => exact ensure_ok.mp hkey
  | invalidPortfolioCallers => exact ensure_ok.mp hportfolio
  | invalidAdminCallers => exact ensure_ok.mp hadmin

theorem ensure_error (error : ProjectPortfolioConfigError) {error' : ProjectPortfolioConfigError}
    (h : ensure error (config.admits libraries error) = .error error') : config.admits libraries error' = false := by
  unfold ensure at h
  split at h
  · cases h
  · rename_i hfails
    obtain rfl : error = error' := Except.error.inj h
    exact Bool.eq_false_of_not_eq_true hfails

theorem ensure_bind_error (error : ProjectPortfolioConfigError) {error' : ProjectPortfolioConfigError}
    {rest : Unit → Except ProjectPortfolioConfigError Unit}
    (h : (ensure error (config.admits libraries error) >>= rest) = .error error') :
    config.admits libraries error' = false ∨ rest () = .error error' := by
  cases hcheck : ensure error (config.admits libraries error) with
  | ok u =>
    rw [hcheck] at h
    exact .inr h
  | error e =>
    rw [hcheck] at h
    exact .inl (ensure_error error (hcheck.trans h))

/-- The error of a refused configuration is of a check that refuses it. -/
theorem validate_error {error : ProjectPortfolioConfigError} (h : config.validate libraries = .error error) :
    config.admits libraries error = false := by
  rcases ensure_bind_error .invalidSchema h with h | h
  · exact h
  rcases ensure_bind_error .invalidSecretReference h with h | h
  · exact h
  rcases ensure_bind_error .invalidAuthIssuer h with h | h
  · exact h
  rcases ensure_bind_error .invalidAuthPublicKey h with h | h
  · exact h
  rcases ensure_bind_error .invalidPortfolioCallers h with h | h
  · exact h
  exact ensure_error .invalidAdminCallers h

end ProjectPortfolioConfig

/-- The callers of a plugin whose configuration is validated have passed their checks. -/
theorem configured_of_validate {plugin : ProjectPortfolioPlugin} {config : ProjectPortfolioConfig}
    {libraries : ConfigLibraries} (h : config.validateConfig libraries = .ok ())
    (hportfolio : plugin.portfolioCallers = config.portfolioCallers)
    (hadmin : plugin.adminCallers = config.adminCallers) : plugin.Configured := by
  cases hvalid : config.validate libraries with
  | error error =>
    rw [ProjectPortfolioConfig.validateConfig, hvalid] at h
    cases h
  | ok u =>
    have hall := ProjectPortfolioConfig.validate_ok hvalid
    exact ⟨hportfolio ▸ hall .invalidPortfolioCallers, hadmin ▸ hall .invalidAdminCallers⟩

end Portfolio
