/-
# What a request must satisfy

The checks of `lib.rs` on the texts and numbers of a request, with the parsers
it uses. A length is one in UTF-8 bytes, as `str::len` counts.

Key definitions: `validOpaqueId`, `validText`, `validIdempotencyKey`,
`parseRevision`, `parseDateWindow`, `validAdminMutation`.
-/
import Portfolio.Sql

namespace Portfolio

/-! ### Texts -/

def maxIdBytes : ℕ := 512

def maxTextBytes : ℕ := 4000

/-- `char::is_control`: the general category Cc. -/
def isControl (c : Char) : Bool := decide (c.toNat ≤ 0x1f) || decide (0x7f ≤ c.toNat ∧ c.toNat ≤ 0x9f)

/-- The characters `str::trim` removes: the property White_Space. -/
def isWhiteSpace (c : Char) : Bool :=
  decide (0x09 ≤ c.toNat ∧ c.toNat ≤ 0x0d) || decide (0x2000 ≤ c.toNat ∧ c.toNat ≤ 0x200a) ||
    decide (c.toNat ∈ [0x20, 0x85, 0xa0, 0x1680, 0x2028, 0x2029, 0x202f, 0x205f, 0x3000])

/-- The bytes `valid_id` admits: an ASCII letter or digit, or one of `.`, `_`, `-` and `:`. -/
def isIdChar (c : Char) : Bool := c.isAlphanum || decide (c ∈ ['.', '_', '-', ':'])

def validId (value : String) : Bool :=
  !value.isEmpty && decide (value.utf8ByteSize ≤ 256) && value.toList.all isIdChar

def validBoundedOpaque (value : String) (max : ℕ) : Bool :=
  !value.isEmpty && decide (value.utf8ByteSize ≤ max) && !hasNul value && !value.toList.any isControl

def validOpaqueId (value : String) : Bool := validBoundedOpaque value maxIdBytes

/-- Not blank, not too long, no NUL. -/
def validText (value : String) (max : ℕ) : Bool :=
  !value.toList.all isWhiteSpace && decide (value.utf8ByteSize ≤ max) && !hasNul value

def validOptionalText (value : Option String) (max : ℕ) : Bool := value.all fun value => validText value max

def validIdempotencyKey (value : String) : Bool := validId value && decide (value.utf8ByteSize ≤ 200)

/-! ### Parsers -/

/-- `str::parse::<i64>`: an optional sign, then decimal digits, at least one. -/
def parseI64 (value : String) : Option ℤ :=
  let parsed : Option ℤ := match value.toList with
    | '-' :: c :: cs => (digits (c :: cs)).map fun n => -(n : ℤ)
    | '+' :: c :: cs => (digits (c :: cs)).map fun n => (n : ℤ)
    | c :: cs => (digits (c :: cs)).map fun n => (n : ℤ)
    | [] => none
  parsed.filter fun n => decide (-9223372036854775808 ≤ n ∧ n ≤ 9223372036854775807)

def parseRevision (value : String) : Option ℤ := (parseI64 value).filter fun revision => 0 < revision

/-- No cursor, or one that parses. -/
def parseCursor : Option String → Option (Option ℤ)
  | none => some none
  | some value => (parseRevision value).map some

/-- The text of a date that may be missing. -/
def parseOptionalDate : Option String → Option (Option Date)
  | none => some none
  | some value => (Date.parse value).map some

/-- Both dates parse, and the start is not after the end. -/
def parseDateWindow (start target : Option String) : Option (Option Date × Option Date) := do
  let start ← parseOptionalDate start
  let target ← parseOptionalDate target
  match start, target with
  | some first, some last => if last.before first then none else some (start, target)
  | _, _ => some (start, target)

/-- The revision of an admin mutation whose key and initiative are valid. -/
def validAdminMutation (key initiativeId revision : String) : Option ℤ :=
  if validIdempotencyKey key && validOpaqueId initiativeId then parseRevision revision else none

example : parseRevision "+7" = some 7 := by decide
example : validText "  " 240 = false := by decide
example : validOpaqueId "alpha" = true := by decide +kernel

end Portfolio
