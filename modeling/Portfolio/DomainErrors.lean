/-
# Domain errors as documents

A domain error is written as its code. A reader keeps what it does not know: a
code of no error it has, and of an object with a code the payload and the other
fields in the order of their names (`UnknownDomainError`). What it has read it can
pass on, and the next reads the same (`errors_read_back`); but a code that has
gone through a reader that does not know it is no longer one to a reader that does.

These are the `Serialize` and `Deserialize` of the error types, from and to the data
of serde; what a text holds of a document, and which texts a reader takes, is not
theirs.

Key definitions: `UnknownDomainError`, `Declared`, `Declared.serialize`, `Declared.deserialize`.
Key theorems: `Declared.deserialize_unknown_iff`, `errors_read_back`.
-/
import Portfolio.Values
import Portfolio.Contract
import Mathlib.Data.List.Sort
import Mathlib.Data.String.Basic

namespace Portfolio

/-! ### Codes -/

/-- The errors a contract declares for an operation, and their codes. -/
class ErrorCode (ε : Type) where
  all : List ε
  code : ε → String
  find_code : ∀ error, all.find? (fun e => code e = code error) = some error

def PortfolioError.code : PortfolioError → String
  | .alreadyExists => "already_exists"
  | .archived => "archived"
  | .forbidden => "forbidden"
  | .idempotencyConflict => "idempotency_conflict"
  | .invalidRequest => "invalid_request"
  | .notFound => "not_found"
  | .operationInProgress => "operation_in_progress"
  | .revisionConflict => "revision_conflict"
  | .unauthenticated => "unauthenticated"

def ReadError.code : ReadError → String
  | .forbidden => "forbidden"
  | .invalidRequest => "invalid_request"
  | .notFound => "not_found"
  | .unauthenticated => "unauthenticated"

def AdminError.code : AdminError → String
  | .alreadyAttached => "already_attached"
  | .archived => "archived"
  | .forbidden => "forbidden"
  | .idempotencyConflict => "idempotency_conflict"
  | .invalidRequest => "invalid_request"
  | .notAttached => "not_attached"
  | .notFound => "not_found"
  | .operationInProgress => "operation_in_progress"
  | .positionConflict => "position_conflict"
  | .revisionConflict => "revision_conflict"
  | .unauthenticated => "unauthenticated"

instance : ErrorCode PortfolioError where
  all := [.alreadyExists, .archived, .forbidden, .idempotencyConflict, .invalidRequest, .notFound,
    .operationInProgress, .revisionConflict, .unauthenticated]
  code := PortfolioError.code
  find_code error := by cases error <;> rfl

instance : ErrorCode ReadError where
  all := [.forbidden, .invalidRequest, .notFound, .unauthenticated]
  code := ReadError.code
  find_code error := by cases error <;> rfl

instance : ErrorCode AdminError where
  all := [.alreadyAttached, .archived, .forbidden, .idempotencyConflict, .invalidRequest, .notAttached, .notFound,
    .operationInProgress, .positionConflict, .revisionConflict, .unauthenticated]
  code := AdminError.code
  find_code error := by cases error <;> rfl

/-- An error with a code the contract does not declare. Its other fields are in the order of their names. -/
structure UnknownDomainError where
  code : String
  payload : Option Wire
  extra : List (String × Wire)
  settled_payload : ∀ w, payload = some w → w.Settled
  settled_extra : ∀ f ∈ extra, f.2.Settled
  ordered : extra.Pairwise fun f g => f.1 < g.1

/-- An error as an operation's contract has it. -/
inductive Declared (ε : Type)
  | known (error : ε)
  | unknown (error : UnknownDomainError)

/-- A code alone. -/
def UnknownDomainError.bare (code : String) : UnknownDomainError := ⟨code, none, [], nofun, nofun, .nil⟩

namespace Declared

variable {ε : Type} [ErrorCode ε]

/-- The fields an unknown error is written as. -/
def fields (u : UnknownDomainError) : List (String × Wire) :=
  ("code", .str u.code) :: (u.payload.toList.map fun payload => ("payload", payload)) ++ u.extra

/-- `Serialize` of an error type. -/
def serialize : Declared ε → Wire
  | known error => .str (ErrorCode.code error)
  | unknown u => .obj (fields u)

/-! ### Reading -/

def ofCode (code : String) : Declared ε :=
  match (ErrorCode.all : List ε).find? fun e => ErrorCode.code e = code with
  | some error => known error
  | none => unknown (.bare code)

def lookup (fs : List (String × Wire)) (name : String) : Option Wire := (fs.find? fun f => f.1 = name).map (·.2)

/-- The fields besides the code and the payload, by their names. -/
def others (fs : List (String × Wire)) : List (String × Wire) :=
  (fs.filter fun f => f.1 ≠ "code" ∧ f.1 ≠ "payload").insertionSort fun f g => f.1 ≤ g.1

theorem mem_others {fs : List (String × Wire)} {f : String × Wire} :
    f ∈ others fs ↔ f ∈ fs ∧ f.1 ≠ "code" ∧ f.1 ≠ "payload" := by
  rw [others, List.mem_insertionSort, List.mem_filter, decide_eq_true_eq]

theorem ordered_others {fs : List (String × Wire)} (h : (fs.map (·.1)).Nodup) :
    (others fs).Pairwise fun f g => f.1 < g.1 := by
  have : Std.Total fun f g : String × Wire => f.1 ≤ g.1 := ⟨fun f g => le_total f.1 g.1⟩
  have : IsTrans (String × Wire) fun f g => f.1 ≤ g.1 := ⟨fun _ _ _ => le_trans⟩
  have hsorted : (others fs).Pairwise fun f g => f.1 ≤ g.1 := List.pairwise_insertionSort _ _
  have hnodup : ((others fs).map (·.1)).Nodup :=
    ((List.perm_insertionSort _ _).map _).nodup_iff.mpr (h.sublist (List.filter_sublist.map _))
  exact (hsorted.and (List.pairwise_map.mp hnodup)).imp fun h => lt_of_le_of_ne h.1 h.2

theorem mem_of_lookup {fs : List (String × Wire)} {name : String} {w : Wire} (h : lookup fs name = some w) :
    ∃ f ∈ fs, f.2 = w := by
  obtain ⟨f, hf, rfl⟩ := Option.map_eq_some_iff.mp h
  exact ⟨f, List.mem_of_find?_eq_some hf, rfl⟩

/-- The error an object is, if it has a code. -/
def ofFields (fs : List (String × Wire)) (h : (Wire.obj fs).Settled) : Option UnknownDomainError :=
  match lookup fs "code" with
  | some (.str code) => some {
      code
      payload := lookup fs "payload"
      extra := others fs
      settled_payload := fun w hw => by
        obtain ⟨f, hf, rfl⟩ := mem_of_lookup hw
        exact h.mem f hf
      settled_extra := fun f hf => h.mem f (mem_others.mp hf).1
      ordered := ordered_others h.nodup }
  | _ => none

/-- `Deserialize` of an error type: the document as a value, of which a code and a payload are taken. -/
def deserialize (w : Wire) : Option (Declared ε) :=
  match hw : w.value with
  | .str code => some (ofCode code)
  | .obj fs => (ofFields fs (hw ▸ w.value_settled)).map unknown
  | _ => none

theorem deserialize_str (code : String) : (deserialize (.str code) : Option (Declared ε)) = some (ofCode code) := by
  unfold deserialize
  have hvalue := Wire.settled_str code
  split
  · rename_i hw
    rw [hvalue] at hw
    rw [Wire.str.inj hw]
  · rename_i hw
    rw [hvalue] at hw
    cases hw
  · rename_i hstr _
    exact (hstr code hvalue).elim

theorem deserialize_obj {fs : List (String × Wire)} (h : (Wire.obj fs).Settled) :
    (deserialize (.obj fs) : Option (Declared ε)) = (ofFields fs h).map unknown := by
  unfold deserialize
  split
  · rename_i hw
    rw [h] at hw
    cases hw
  · rename_i hw
    have hvalue : (Wire.obj fs).value = .obj fs := h
    rw [hvalue] at hw
    cases hw
    rfl
  · rename_i hobj
    exact (hobj fs h).elim

theorem ofCode_code (error : ε) : ofCode (ErrorCode.code error) = known error := by
  unfold ofCode
  rw [ErrorCode.find_code]

/-- What is read of an object names neither its code nor its payload again. -/
theorem others_of_deserialize {w : Wire} {u : UnknownDomainError}
    (h : (deserialize w : Option (Declared ε)) = some (unknown u)) :
    ∀ f ∈ u.extra, f.1 ≠ "code" ∧ f.1 ≠ "payload" := by
  unfold deserialize at h
  split at h
  · rename_i code _
    unfold ofCode at h
    split at h
    · cases h
    · obtain rfl := unknown.inj (Option.some.inj h)
      exact fun f hf => (List.not_mem_nil hf).elim
  · obtain ⟨u', hu', he⟩ := Option.map_eq_some_iff.mp h
    cases he
    unfold ofFields at hu'
    split at hu'
    · obtain rfl := Option.some.inj hu'
      exact fun f hf => (mem_others.mp hf).2
    · cases hu'
  · cases h

/-! ### Written and read again -/

section
variable {u : UnknownDomainError} (h : ∀ f ∈ u.extra, f.1 ≠ "code" ∧ f.1 ≠ "payload")
include h

theorem settled_fields : (Wire.obj (fields u)).Settled := by
  have hextra : (u.extra.map (·.1)).Nodup := List.pairwise_map.mpr (u.ordered.imp ne_of_lt)
  have hcode : "code" ∉ u.extra.map (·.1) := by
    rintro hmem
    obtain ⟨f, hf, he⟩ := List.mem_map.mp hmem
    exact (h f hf).1 he
  have hpayload : "payload" ∉ u.extra.map (·.1) := by
    rintro hmem
    obtain ⟨f, hf, he⟩ := List.mem_map.mp hmem
    exact (h f hf).2 he
  have hstr := Wire.settled_str u.code
  cases hp : u.payload with
  | none =>
    refine Wire.settled_obj ?_ ?_
    · simpa [fields, hp] using And.intro (by simpa using hcode) hextra
    · simpa [fields, hp] using And.intro hstr fun a b hab => u.settled_extra (a, b) hab
  | some payload =>
    have hsettled := u.settled_payload payload hp
    refine Wire.settled_obj ?_ ?_
    · simpa [fields, hp] using And.intro (by simpa using hcode) (And.intro (by simpa using hpayload) hextra)
    · simpa [fields, hp] using And.intro hstr (And.intro hsettled fun a b hab => u.settled_extra (a, b) hab)

theorem lookup_payload : lookup (fields u) "payload" = u.payload := by
  have hnone : u.extra.find? (fun f => f.1 = "payload") = none :=
    List.find?_eq_none.mpr fun f hf => by simpa using (h f hf).2
  cases hp : u.payload <;> simp [lookup, fields, hp, hnone]

theorem others_fields : others (fields u) = u.extra := by
  have hextra : u.extra.filter (fun f => f.1 ≠ "code" ∧ f.1 ≠ "payload") = u.extra :=
    List.filter_eq_self.mpr fun f hf => decide_eq_true (h f hf)
  have hfilter : (fields u).filter (fun f => f.1 ≠ "code" ∧ f.1 ≠ "payload") = u.extra := by
    have hhead : ((("code", Wire.str u.code) :: u.payload.toList.map fun payload => ("payload", payload)).filter
        fun f => f.1 ≠ "code" ∧ f.1 ≠ "payload") = [] := by
      cases u.payload <;> simp
    rw [fields, List.filter_append, hhead, hextra, List.nil_append]
  rw [others, hfilter]
  exact List.Pairwise.insertionSort_eq (u.ordered.imp le_of_lt)

theorem deserialize_unknown : (deserialize (serialize (unknown u : Declared ε)) : Option (Declared ε)) =
    some (unknown u) := by
  have hcode : lookup (fields u) "code" = some (.str u.code) := rfl
  show deserialize (.obj (fields u)) = _
  rw [deserialize_obj (settled_fields h)]
  unfold ofFields
  simp only [hcode, lookup_payload h, others_fields h]
  rfl

end

/-- An unknown error is read back where its other fields name neither the code nor the payload. -/
theorem deserialize_unknown_iff {u : UnknownDomainError} :
    (deserialize (serialize (unknown u : Declared ε)) : Option (Declared ε)) = some (unknown u) ↔
      ∀ f ∈ u.extra, f.1 ≠ "code" ∧ f.1 ≠ "payload" :=
  ⟨others_of_deserialize, deserialize_unknown⟩

theorem deserialize_known (error : ε) : deserialize (serialize (known error)) = some (known error) := by
  show deserialize (.str (ErrorCode.code error)) = _
  rw [deserialize_str, ofCode_code]

/-- Whatever is read can be passed on. -/
theorem deserialize_serialize_of_deserialize {w : Wire} {error : Declared ε} (h : deserialize w = some error) :
    deserialize (serialize error) = some error := by
  cases error with
  | known error => exact deserialize_known error
  | unknown u => exact deserialize_unknown (others_of_deserialize h)

end Declared

/-- **Domain errors are read back.** Of the errors an operation declares each is read as itself; one it does not is
read back exactly if its other fields name neither its code nor its payload; and whatever has been read is read again
when it is passed on. An error with a code that its reader does not declare is read as that code alone, and stays so
when the reader passes it on, also to one that does declare it. -/
theorem errors_read_back {ε ε' : Type} [ErrorCode ε] [ErrorCode ε'] :
    (∀ error : ε, Declared.deserialize (Declared.known error).serialize = some (.known error)) ∧
    (∀ u : UnknownDomainError,
      Declared.deserialize (Declared.unknown u : Declared ε).serialize = some (.unknown u : Declared ε) ↔
        ∀ f ∈ u.extra, f.1 ≠ "code" ∧ f.1 ≠ "payload") ∧
    (∀ w (error : Declared ε), Declared.deserialize w = some error →
      Declared.deserialize error.serialize = some error) ∧
    ∀ error : ε', (∀ e : ε, ErrorCode.code e ≠ ErrorCode.code error) →
      Declared.deserialize (Declared.known error).serialize =
        some (.unknown (.bare (ErrorCode.code error)) : Declared ε) ∧
      Declared.deserialize (Declared.unknown (.bare (ErrorCode.code error)) : Declared ε).serialize =
        some (.unknown (.bare (ErrorCode.code error)) : Declared ε') := by
  refine ⟨Declared.deserialize_known, fun u => Declared.deserialize_unknown_iff, fun w error h =>
    Declared.deserialize_serialize_of_deserialize h, fun error hcode => ⟨?_, ?_⟩⟩
  · have hbare : (Declared.ofCode (ErrorCode.code error) : Declared ε) =
        .unknown (UnknownDomainError.bare (ErrorCode.code error)) := by
      unfold Declared.ofCode
      rw [List.find?_eq_none.mpr fun e _ => by simpa using hcode e]
    exact (Declared.deserialize_str _).trans (congrArg some hbare)
  · exact Declared.deserialize_unknown fun f hf => (List.not_mem_nil hf).elim

/-- An archived error with another field is read and read again, and a position conflict by who reads a list. -/
theorem errors_read_back_undeclared :
    (∃ error : Declared AdminError,
      Declared.deserialize (.obj [("retry_after", .int 5), ("code", .str "archived")]) = some error ∧
        Declared.deserialize error.serialize = some error) ∧
    Declared.deserialize (Declared.known AdminError.positionConflict).serialize =
      some (.unknown (.bare "position_conflict") : Declared ReadError) ∧
    Declared.deserialize (Declared.unknown (.bare "position_conflict") : Declared ReadError).serialize =
      some (.unknown (.bare "position_conflict") : Declared AdminError) := by
  obtain ⟨-, -, hagain, -⟩ := @errors_read_back AdminError ReadError _ _
  obtain ⟨-, -, -, hundeclared⟩ := @errors_read_back ReadError AdminError _ _
  have hsettled : (Wire.obj [("retry_after", .int 5), ("code", .str "archived")]).Settled :=
    Wire.settled_obj (by decide) fun f hf => by
      simp only [List.mem_cons, List.not_mem_nil, or_false] at hf
      rcases hf with rfl | rfl <;> simp [Wire.Settled, Wire.value]
  have hread := @Declared.deserialize_obj AdminError _ _ hsettled
  exact ⟨⟨_, hread, hagain _ _ hread⟩, hundeclared _ fun e => by cases e <;> decide⟩

end Portfolio
