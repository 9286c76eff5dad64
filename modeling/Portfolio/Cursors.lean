/-
# Lists read page by page

The two lists of the ordinary capability are read page by page: a response
carries a cursor, the text of the `row_seq` of its last record, if there is
more, and the next request brings it back. The text parses to the number it
was made of, so a walk over either list is one of `Paging` over the rows the
list statements of its requests have seen.

A list handler runs its statements one by one on the pool, so each sees the
committed state of its own moment (`Handler.observe`).

Key definitions: `Handler.observe`, `Visit`, `Walk`, `visited`.
Key theorems: `parseRevision_toString`, `listInitiatives_observe`,
`listInitiativeUpdates_observe`, `Walk.paging`.
-/
import Portfolio.Numbers
import Portfolio.Paging
import Portfolio.Decimal
import Portfolio.Rollup
import Portfolio.Handlers

namespace Portfolio

open Txn Txn.Prog

/-! ### The text of a cursor -/

theorem digits_iff {cs : List Char} {n : ℕ} :
    digits cs = some n ↔ Decimal.Digits cs ∧ n = Nat.ofDigitChars 10 cs 0 := by
  have hfold : ∀ {cs : List Char} {m : ℕ}, cs.foldlM
      (fun n c => if c.isDigit then some (10 * n + (c.toNat - '0'.toNat)) else none) m = some n ↔
        Decimal.Digits cs ∧ n = Nat.ofDigitChars 10 cs m := by
    intro cs
    induction cs with
    | nil =>
      intro m
      rw [List.foldlM_nil, Nat.ofDigitChars_nil, Option.pure_def, Option.some_inj]
      exact ⟨fun h => ⟨fun _ hc => absurd hc List.not_mem_nil, h.symm⟩, fun h => h.2.symm⟩
    | cons c cs ih =>
      intro m
      rw [List.foldlM_cons, Nat.ofDigitChars_cons, Decimal.Digits, List.forall_mem_cons]
      by_cases hc : c.isDigit = true
      · rw [if_pos hc]
        exact ih.trans (by simp only [hc, true_and, Decimal.Digits])
      · rw [if_neg hc]
        exact ⟨nofun, fun h => absurd h.1.1 hc⟩
  cases cs with
  | nil => exact @hfold [] 0
  | cons c cs => exact hfold

/-- A positive number parses to itself, if it fits. -/
theorem parseRevision_toString {n m : ℤ} (hn : 0 < n) :
    parseRevision (toString n) = some m ↔ m = n ∧ n ≤ 9223372036854775807 := by
  obtain ⟨k, rfl⟩ := Int.eq_ofNat_of_zero_le (le_of_lt hn)
  have htext := Decimal.toList_toString k
  have hdigits := Decimal.digits_toDigits k
  have hvalue : digits (Nat.toDigits 10 k) = some k := by
    exact digits_iff.mpr ⟨hdigits, Nat.ofDigitChars_ten_toDigits.symm⟩
  obtain ⟨c, cs, hcs⟩ := List.exists_cons_of_ne_nil (l := Nat.toDigits 10 k) (by simp)
  rw [hcs] at htext hdigits hvalue
  have hc := Decimal.isDigit_iff.mp (hdigits c List.mem_cons_self)
  have hparsed : parseI64 (toString (k : ℤ)) = (some (k : ℤ)).filter fun n =>
      decide (-9223372036854775808 ≤ n ∧ n ≤ 9223372036854775807) := by
    unfold parseI64
    rw [htext]
    split
    · rename_i heq
      obtain ⟨rfl, -⟩ := List.cons_eq_cons.mp heq
      exact absurd hc (by decide)
    · rename_i heq
      obtain ⟨rfl, -⟩ := List.cons_eq_cons.mp heq
      exact absurd hc (by decide)
    · rename_i heq
      obtain ⟨rfl, rfl⟩ := List.cons_eq_cons.mp heq
      rw [hvalue]
      rfl
    · rename_i heq
      cases heq
  have hpos : 0 < k := by omega
  rw [parseRevision, hparsed]
  by_cases hk : (k : ℤ) ≤ 9223372036854775807
  · have hmin : -9223372036854775808 ≤ (k : ℤ) := by omega
    simp [Option.filter, hk, hmin, hpos, eq_comm]
  · simp [Option.filter, hk]

/-! ### A handler that reads -/

/-- What a handler answers whose statements see the states of `T`, with the ticks and states left. -/
def Handler.observe {ε α : Type} :
    Handler ε α → (ℕ → Tick) → (ℕ → Tables) → Except (PluginError ε) α × (ℕ → Tick) × (ℕ → Tables)
  | .ret a, t, T => (.ok a, t, T)
  | .throw e, t, T => (.error e, t, T)
  | .call s k, t, T => observe (k (s.code.observe t T).1) (s.code.observe t T).2.1 (s.code.observe t T).2.2

section
variable {ε α β : Type} [OperationError ε] {t t' : ℕ → Tick} {T T' : ℕ → Tables}

omit [OperationError ε] in
theorem Handler.observe_bind : ∀ (p : Handler ε α) (f : α → Handler ε β) (t : ℕ → Tick) (T : ℕ → Tables),
    Handler.observe (p >>= f) t T = match Handler.observe p t T with
      | (.ok a, t', T') => Handler.observe (f a) t' T'
      | (.error e, t', T') => (.error e, t', T')
  | .ret _, _, _, _ => rfl
  | .throw _, _, _, _ => rfl
  | .call s k, f, t, T => observe_bind (k (s.code.observe t T).1) f _ _

omit [OperationError ε] in
theorem Handler.observe_bind_ok {p : Handler ε α} {f : α → Handler ε β} {b : β} :
    Handler.observe (p >>= f) t T = (.ok b, t', T') ↔ ∃ a t₁ T₁, Handler.observe p t T = (.ok a, t₁, T₁) ∧
      Handler.observe (f a) t₁ T₁ = (.ok b, t', T') := by
  rw [Handler.observe_bind]
  constructor
  · intro h
    split at h
    · rename_i a t₁ T₁ hp
      exact ⟨a, t₁, T₁, hp, h⟩
    · simp at h
  · rintro ⟨a, t₁, T₁, hp, h⟩
    rw [hp]
    exact h

theorem observe_authorized {x : Except AuthorizationFailure Authorized} {a : Authorized}
    (h : Handler.observe (authorized x : Handler ε Authorized) t T = (.ok a, t', T')) : t' = t ∧ T' = T := by
  rcases x with e | b
  · cases e <;> cases (Prod.mk.inj h).1
  · obtain ⟨ht, hT⟩ := Prod.mk.inj (Prod.mk.inj h).2
    exact ⟨ht.symm, hT.symm⟩

theorem observe_orInvalid {x : Option α} {a : α}
    (h : Handler.observe (orInvalid x : Handler ε α) t T = (.ok a, t', T')) : x = some a ∧ t' = t ∧ T' = T := by
  cases x with
  | none => cases (Prod.mk.inj h).1
  | some b =>
    obtain ⟨hb, hs⟩ := Prod.mk.inj h
    obtain ⟨ht, hT⟩ := Prod.mk.inj hs
    exact ⟨congrArg some (Except.ok.inj hb), ht.symm, hT.symm⟩

theorem observe_valid {b : Bool} {u : Unit}
    (h : Handler.observe (valid b : Handler ε Unit) t T = (.ok u, t', T')) : b = true ∧ t' = t ∧ T' = T := by
  cases b with
  | false => cases (Prod.mk.inj h).1
  | true =>
    obtain ⟨ht, hT⟩ := Prod.mk.inj (Prod.mk.inj h).2
    exact ⟨rfl, ht.symm, hT.symm⟩

omit [OperationError ε] in
theorem observe_prepared {plugin : ProjectPortfolioPlugin} {u : Unit}
    (h : Handler.observe (prepared plugin : Handler ε Unit) t T = (.ok u, t', T')) : t' = t ∧ T' = T := by
  unfold prepared at h
  split at h
  · obtain ⟨ht, hT⟩ := Prod.mk.inj (Prod.mk.inj h).2
    exact ⟨ht.symm, hT.symm⟩
  · cases (Prod.mk.inj h).1

omit [OperationError ε] in
theorem observe_stored {s : Storage α} {map : DomainFailure → ε} {a : α}
    (h : Handler.observe (stored s map) t T = (.ok a, t', T')) : s.code.observe t T = (.ok a, t', T') := by
  unfold stored perform at h
  rw [Handler.observe] at h
  cases hs : (s.code.observe t T).1 with
  | error e =>
    rw [hs] at h
    cases (Prod.mk.inj h).1
  | ok b =>
    rw [hs] at h
    obtain ⟨hb, hrest⟩ := Prod.mk.inj h
    exact Prod.ext (by rw [hs, Except.ok.inj hb]) hrest

omit [OperationError ε] in
theorem observe_wireCast {x : Option α} {a : α}
    (h : Handler.observe (wireCast x : Handler ε α) t T = (.ok a, t', T')) : x = some a := by
  cases x with
  | none => cases (Prod.mk.inj h).1
  | some b => exact congrArg some (Except.ok.inj (Prod.mk.inj h).1)

/-- A handler of a list answers with a page of what its storage function sees. -/
theorem observe_listing {γ ρ ι : Type} {plugin : ProjectPortfolioPlugin} {x : Except AuthorizationFailure Authorized}
    {after : Option γ} {b : Bool} {s : γ → Storage ρ} {map : DomainFailure → ε} {items : ρ → Option ι}
    {answer : ρ → ι → β} {r : β}
    (h : (Handler.observe (authorized x >>= fun _ => orInvalid after >>= fun after => valid b >>= fun _ =>
      prepared plugin >>= fun _ => stored (s after) map >>= fun records => wireCast (items records) >>= fun is =>
        pure (answer records is)) t T).1 = .ok r) :
    ∃ c records is t' T', after = some c ∧ b = true ∧ (s c).code.observe t T = (.ok records, t', T') ∧
      items records = some is ∧ r = answer records is := by
  obtain ⟨auth, t₁, T₁, h1, hall⟩ := Handler.observe_bind_ok.mp (Prod.ext h rfl)
  obtain ⟨rfl, rfl⟩ := observe_authorized h1
  obtain ⟨c, t₂, T₂, h2, hall⟩ := Handler.observe_bind_ok.mp hall
  obtain ⟨hafter, rfl, rfl⟩ := observe_orInvalid h2
  obtain ⟨_, t₃, T₃, h3, hall⟩ := Handler.observe_bind_ok.mp hall
  obtain ⟨hvalid, rfl, rfl⟩ := observe_valid h3
  obtain ⟨_, t₄, T₄, h4, hall⟩ := Handler.observe_bind_ok.mp hall
  obtain ⟨rfl, rfl⟩ := observe_prepared h4
  obtain ⟨records, t₅, T₅, h5, hall⟩ := Handler.observe_bind_ok.mp hall
  obtain ⟨is, t₆, T₆, h6, hall⟩ := Handler.observe_bind_ok.mp hall
  exact ⟨c, records, is, t₅, T₅, hafter, hvalid, observe_stored h5, observe_wireCast h6,
    (Except.ok.inj (Prod.mk.inj hall).1).symm⟩

end

/-! ### A page and its visit -/

/-- The number a request's cursor stands for, 0 without one. -/
def cursorOf (after : Option String) : ℤ := ((parseCursor after).getD none).getD 0

/-- The visit of a request with a cursor and a limit to the rows there are. -/
def visited {α : Type} (key : α → ℤ) (after : Option String) (limit : ℤ) (rows : List α) : Paging.Visit α ℤ where
  rows := rows
  cursor := cursorOf after
  page := (Paging.after key (cursorOf after) rows).take limit.toNat
  more := decide (limit.toNat < (Paging.after key (cursorOf after) rows).length)

/-- What a response to the request says: `R` relates the rows of the page to its items. -/
structure Answers {α β : Type} (key : α → ℤ) (after : Option String) (limit : ℤ) (rows : List α) (R : α → β → Prop)
    (items : List β) (next : Option String) : Prop where
  cursor : ∃ n, parseCursor after = some n
  positive : 1 ≤ limit
  items : List.Forall₂ R (visited key after limit rows).page items
  next : next = if (visited key after limit rows).more
    then (visited key after limit rows).page.getLast?.map fun x => toString (key x) else none

theorem page_eq {α : Type} {limit : ℤ} {records : List α} (h : records.length ≤ limit.toNat + 1) :
    page limit records = (records.take limit.toNat, decide (limit.toNat < records.length)) := by
  unfold page
  split
  · rename_i hlt
    have hlen : records.length - 1 = limit.toNat := by omega
    rw [List.dropLast_eq_take, hlen, decide_eq_true hlt]
  · rename_i hlt
    rw [List.take_of_length_le (not_lt.mp hlt), decide_eq_false hlt]

/-- A page made of records, one row more than the limit asked for: its items are those of the first rows, and its
cursor is that of the last of them, if there is more. -/
theorem page_of_rows {α β γ δ ρ : Type} {key : α → ℤ} {c limit : ℤ} {rows : List α} {R : α → β → Prop} {xs : List γ}
    {proj : γ → α} {f : γ → Option ρ} {cursor : ρ → δ} {text : ℤ → δ} {g : ρ → Option β} {records : List ρ}
    {items : List β} (hpos : 1 ≤ limit) (hxs : Paging.after key c rows = xs.map proj)
    (hrecords : (xs.take (limit + 1).toNat).mapM f = some records)
    (hitems : (page limit records).1.mapM g = some items)
    (hcursor : ∀ x record, f x = some record → cursor record = text (key (proj x)))
    (hR : ∀ x record item, f x = some record → g record = some item → R (proj x) item) :
    List.Forall₂ R ((Paging.after key c rows).take limit.toNat) items ∧
      nextCursor cursor (page limit records) = if limit.toNat < (Paging.after key c rows).length
        then ((Paging.after key c rows).take limit.toNat).getLast?.map fun x => text (key x) else none := by
  have hall := Json.forall₂_of_mapM hrecords
  have hlimit : (limit + 1).toNat = limit.toNat + 1 := by omega
  have hlen : records.length = min (limit.toNat + 1) xs.length := by
    rw [← hall.length_eq, List.length_take, hlimit]
  have hpage := @page_eq _ limit records (by omega)
  have hmore : decide (limit.toNat < records.length) = decide (limit.toNat < xs.length) := by
    rw [decide_eq_decide]
    omega
  rw [hpage, hmore]
  rw [hpage] at hitems
  have hfirst := List.forall₂_take limit.toNat hall
  rw [List.take_take, min_eq_left (by omega)] at hfirst
  refine ⟨?_, ?_⟩
  · rw [hxs, ← List.map_take, List.forall₂_map_left_iff]
    exact Json.forall₂_trans hR hfirst (Json.forall₂_of_mapM hitems)
  · have hcursors : (records.take limit.toNat).map cursor = (xs.take limit.toNat).map fun x => text (key (proj x)) :=
      Json.map_eq_of_forall₂ hcursor hfirst
    have hlast : (records.take limit.toNat).getLast?.map cursor =
        ((xs.take limit.toNat).map proj).getLast?.map fun x => text (key x) := by
      rw [← List.getLast?_map, ← List.getLast?_map, hcursors, List.map_map]
      rfl
    simp only [nextCursor, hlast, hxs, List.length_map, List.map_take, decide_eq_true_eq]

/-- Such a page answers the request. -/
theorem answers_of_page {α β γ ρ : Type} {key : α → ℤ} {after : Option String} {limit : ℤ} {rows : List α}
    {R : α → β → Prop} {xs : List γ} {proj : γ → α} {f : γ → Option ρ} {num : ρ → ℤ} {g : ρ → Option β}
    {records : List ρ} {items : List β} (hcursor : ∃ n, parseCursor after = some n) (hpos : 1 ≤ limit)
    (hxs : Paging.after key (cursorOf after) rows = xs.map proj)
    (hrecords : (xs.take (limit + 1).toNat).mapM f = some records)
    (hitems : (page limit records).1.mapM g = some items)
    (hnum : ∀ x record, f x = some record → num record = key (proj x))
    (hR : ∀ x record item, f x = some record → g record = some item → R (proj x) item) :
    Answers key after limit rows R items (nextCursor (fun record => toString (num record)) (page limit records)) := by
  obtain ⟨hfirst, hnext⟩ := @page_of_rows _ _ _ _ _ key (cursorOf after) limit rows R xs proj f
    (fun record => toString (num record)) (fun n => toString n) g records items hpos hxs hrecords hitems
    (fun x record hx => congrArg (fun n : ℤ => toString n) (hnum x record hx)) hR
  refine ⟨hcursor, hpos, hfirst, ?_⟩
  rw [hnext]
  simp only [visited, decide_eq_true_eq]

/-! ### The two lists -/

/-- What an update is answered as. -/
def UpdateRow.AnsweredAs (accepts : String → Bool) (row : UpdateRow)
    (item : ListInitiativeUpdatesResponseUpdatesItem) : Prop :=
  ∃ record, updateFromRow row = some record ∧ AddInitiativeUpdateResponse.fromJson accepts record.toJson = some item

/-- The initiatives of an organization, as a listing orders and names them. -/
def Facts.listed (F : Facts) (o : String) : List (ℤ × String × String) :=
  (F.initiatives.filter fun r => decide (r.organizationId = o)).map InitiativeRow.entry

/-- An initiative is answered under its own id. -/
theorem initiativeId_of_fromJson {accepts : String → Bool} {record : InitiativeRecord}
    {item : ListInitiativesResponseInitiativesItem}
    (h : CreateInitiativeResponse.fromJson accepts record.toJson = some item) :
    item.initiativeId = record.initiativeId := by
  obtain ⟨archivedAt, -, h⟩ := Option.bind_eq_some_iff.mp h
  obtain ⟨createdAt, -, h⟩ := Option.bind_eq_some_iff.mp h
  obtain ⟨health, -, h⟩ := Option.bind_eq_some_iff.mp h
  obtain ⟨initiativeId, hid, h⟩ := Option.bind_eq_some_iff.mp h
  have hid : some record.initiativeId = some initiativeId := by
    simpa [InitiativeRecord.toJson, Json.req, Json.field] using hid
  obtain rfl := Option.some.inj hid
  obtain ⟨name, -, h⟩ := Option.bind_eq_some_iff.mp h
  obtain ⟨organizationId, -, h⟩ := Option.bind_eq_some_iff.mp h
  obtain ⟨ownerSubject, -, h⟩ := Option.bind_eq_some_iff.mp h
  obtain ⟨progress, -, h⟩ := Option.bind_eq_some_iff.mp h
  obtain ⟨projectCount, -, h⟩ := Option.bind_eq_some_iff.mp h
  obtain ⟨revision, -, h⟩ := Option.bind_eq_some_iff.mp h
  obtain ⟨summary, -, h⟩ := Option.bind_eq_some_iff.mp h
  obtain ⟨targetDate, -, h⟩ := Option.bind_eq_some_iff.mp h
  obtain ⟨targetStart, -, h⟩ := Option.bind_eq_some_iff.mp h
  obtain ⟨updatedAt, -, h⟩ := Option.bind_eq_some_iff.mp h
  rw [← Option.some.inj h]

/-- An update is answered under its own id. -/
theorem UpdateRow.AnsweredAs.updateId {accepts : String → Bool} {row : UpdateRow}
    {item : ListInitiativeUpdatesResponseUpdatesItem} (h : row.AnsweredAs accepts item) :
    item.updateId = row.updateId := by
  obtain ⟨record, hrow, h⟩ := h
  obtain ⟨createdAt, -, hrow⟩ := Option.bind_eq_some_iff.mp hrow
  obtain rfl := Option.some.inj hrow
  obtain ⟨createdAt, -, h⟩ := Option.bind_eq_some_iff.mp h
  obtain ⟨createdBy, -, h⟩ := Option.bind_eq_some_iff.mp h
  obtain ⟨health, -, h⟩ := Option.bind_eq_some_iff.mp h
  obtain ⟨initiativeId, -, h⟩ := Option.bind_eq_some_iff.mp h
  obtain ⟨initiativeRevision, -, h⟩ := Option.bind_eq_some_iff.mp h
  obtain ⟨organizationId, -, h⟩ := Option.bind_eq_some_iff.mp h
  obtain ⟨progress, -, h⟩ := Option.bind_eq_some_iff.mp h
  obtain ⟨summary, -, h⟩ := Option.bind_eq_some_iff.mp h
  obtain ⟨updateId, hid, h⟩ := Option.bind_eq_some_iff.mp h
  have hid : some row.updateId = some updateId := by
    simpa [UpdateRecord.toJson, Json.req, Json.field] using hid
  rw [← Option.some.inj h, Option.some.inj hid]

section
variable {plugin : ProjectPortfolioPlugin} {context : Context} {t : ℕ → Tick} {T : ℕ → Tables}

/-- A page of updates is one of the state its second statement sees. -/
theorem listInitiativeUpdates_observe {q : ListInitiativeUpdatesRequest} {r : ListInitiativeUpdatesResponse}
    (h : (Handler.observe (plugin.listInitiativeUpdates context q) t T).1 = .ok r) :
    Answers (fun u : UpdateRow => u.rowSeq) q.after q.limit ((T 1).updatesOf q.organizationId q.initiativeId)
      (UpdateRow.AnsweredAs plugin.accepts) r.updates r.nextCursor := by
  obtain ⟨after, records, items, t₁, T₁, hafter, hvalid, hcode, hitems, rfl⟩ := observe_listing h
  obtain ⟨-, hlimit⟩ := Bool.and_eq_true_iff.mp hvalid
  obtain ⟨_, t₂, T₂, h1, h2⟩ := observe_bind_ok.mp hcode
  obtain ⟨found, t₃, T₃, h3, h4⟩ := observe_bind_ok.mp h1
  obtain ⟨-, rfl⟩ := observe_select h3
  have hT : T₂ = later T := by
    split at h4
    · exact (Prod.mk.inj (Prod.mk.inj h4).2).2.symm
    · cases (Prod.mk.inj h4).1
  subst hT
  obtain ⟨rows, t₄, T₄, h5, h6⟩ := observe_bind_ok.mp h2
  obtain ⟨rfl, rfl⟩ := observe_select h5
  obtain ⟨hrecords, -⟩ := observe_formatted h6
  have hc : cursorOf q.after = after.getD 0 := by
    simp only [cursorOf, hafter, Option.getD_some]
  have hrows : Paging.after (fun u : UpdateRow => u.rowSeq) (cursorOf q.after)
      ((later T 0).updatesOf q.organizationId q.initiativeId) =
        ((((later T 0).updatesOf q.organizationId q.initiativeId).filter fun u =>
          after.getD 0 < u.rowSeq).insertionSort fun u v => u.rowSeq ≤ v.rowSeq).map id := by
    rw [List.map_id, hc]
    rfl
  refine answers_of_page ⟨after, hafter⟩ (of_decide_eq_true hlimit).1 hrows hrecords hitems
    (fun row record hrow => ?_) fun row record item hrow hitem => ⟨record, hrow, hitem⟩
  obtain ⟨createdAt, -, hrow⟩ := Option.bind_eq_some_iff.mp hrow
  obtain rfl := Option.some.inj hrow
  rfl

/-- A page of initiatives, archived ones too, is one of the state its statement sees. -/
theorem listInitiatives_observe {q : ListInitiativesRequest} {r : ListInitiativesResponse}
    (harchived : q.includeArchived = true)
    (h : (Handler.observe (plugin.listInitiatives context q) t T).1 = .ok r) :
    Answers Prod.fst q.after q.limit ((T 0).toFacts.listed q.organizationId)
      (fun entry item => item.initiativeId = entry.2.2) r.initiatives r.nextCursor := by
  obtain ⟨after, records, items, t₁, T₁, hafter, hvalid, hcode, hitems, rfl⟩ := observe_listing h
  obtain ⟨rows, t₄, T₄, h5, h6⟩ := observe_bind_ok.mp hcode
  obtain ⟨rfl, rfl⟩ := observe_select h5
  obtain ⟨hrecords, -⟩ := observe_formatted h6
  have hc : cursorOf q.after = after.getD 0 := by
    simp only [cursorOf, hafter, Option.getD_some]
  rw [List.map_take] at hrecords
  -- the statement's filter and order are those of the listing
  have hfilter : (T 0).initiatives.filter (fun r => decide (r.organizationId = q.organizationId) &&
      (q.includeArchived || !r.archived) && decide (after.getD 0 < r.rowSeq)) =
        ((T 0).initiatives.filter fun r => decide (r.organizationId = q.organizationId)).filter fun r =>
          decide (after.getD 0 < r.rowSeq) := by
    rw [List.filter_filter]
    refine List.filter_congr fun r _ => ?_
    rw [harchived, Bool.true_or, Bool.and_true, Bool.and_comm]
  rw [hfilter] at hrecords
  have hrows : Paging.after Prod.fst (cursorOf q.after) ((T 0).toFacts.listed q.organizationId) =
      (((((T 0).initiatives.filter fun r => decide (r.organizationId = q.organizationId)).filter fun r =>
        decide (after.getD 0 < r.rowSeq)).insertionSort fun r s => r.rowSeq ≤ s.rowSeq).map fun row =>
          (row, ((T 0).projectsOf row.organizationId row.initiativeId).length)).map fun x => x.1.entry := by
    rw [List.map_map, hc, Facts.listed, Paging.after, List.filter_map]
    exact (List.map_insertionSort (r := fun r s : InitiativeRow => r.rowSeq ≤ s.rowSeq)
      (s := fun a b : ℤ × String × String => a.1 ≤ b.1) _ _ fun _ _ _ _ => Iff.rfl).symm
  refine answers_of_page ⟨after, hafter⟩ (of_decide_eq_true hvalid).1 hrows hrecords hitems
    (fun x record hx => ?_) fun x record item hx hitem => ?_
  · obtain ⟨createdAt, -, hx⟩ := Option.bind_eq_some_iff.mp hx
    obtain ⟨updatedAt, -, hx⟩ := Option.bind_eq_some_iff.mp hx
    obtain ⟨archivedAt, -, hx⟩ := Option.bind_eq_some_iff.mp hx
    obtain rfl := Option.some.inj hx
    rfl
  · obtain ⟨createdAt, -, hx⟩ := Option.bind_eq_some_iff.mp hx
    obtain ⟨updatedAt, -, hx⟩ := Option.bind_eq_some_iff.mp hx
    obtain ⟨archivedAt, -, hx⟩ := Option.bind_eq_some_iff.mp hx
    obtain rfl := Option.some.inj hx
    exact initiativeId_of_fromJson hitem

end

/-! ### Walks -/

/-- A page a client was given: the system its list statement saw, the request, the response. -/
structure Visit (Q R : Type) where
  system : System
  request : Q
  response : R

/-- How a list is asked for and answered: which requests ask for it, with which cursor and limit, what a
response says of the states the first and the last statement of its request see, and its cursor. -/
structure Listing (Q R : Type) where
  asks : Q → Prop
  after : Q → Option String
  limit : Q → ℤ
  reads : Q → System → System → R → Prop
  next : R → Option String

/-- A client walks a list in a run: from a cursor and a system on, each request has the cursor of the
response before it, until a response has none. -/
inductive Walk {Q R : Type} (ok : Call → Prop) (L : Listing Q R) : Option String → System → List (Visit Q R) → Prop
  | last {S₀ S₁ S : System} {q : Q} {r : R} (h₀ : Txn.Steps Call.code ok S₀ S₁) (h₁ : Txn.Steps Call.code ok S₁ S)
      (hq : L.asks q) (hr : L.reads q S₁ S r) (hn : L.next r = none) : Walk ok L (L.after q) S₀ [⟨S, q, r⟩]
  | page {S₀ S₁ S : System} {q : Q} {r : R} {text : String} {vs : List (Visit Q R)}
      (h₀ : Txn.Steps Call.code ok S₀ S₁) (h₁ : Txn.Steps Call.code ok S₁ S) (hq : L.asks q) (hr : L.reads q S₁ S r)
      (hn : L.next r = some text) (h : Walk ok L (some text) S vs) : Walk ok L (L.after q) S₀ (⟨S, q, r⟩ :: vs)

section
variable {Q R : Type} {ok : Call → Prop} {L : Listing Q R} {after : Option String} {S₀ : System}
  {vs : List (Visit Q R)}

theorem Walk.reach (h : Walk ok L after S₀ vs) : ∀ v ∈ vs, Txn.Steps Call.code ok S₀ v.system := by
  induction h with
  | last h₀ h₁ =>
    intro v hv
    rw [List.mem_singleton.mp hv]
    exact h₀.trans h₁
  | page h₀ h₁ hq hr hn h ih =>
    intro v hv
    rcases List.mem_cons.mp hv with rfl | hv
    · exact h₀.trans h₁
    · exact (h₀.trans h₁).trans (ih v hv)

theorem Walk.exists_last (h : Walk ok L after S₀ vs) : ∃ last ∈ vs, vs.getLast? = some last := by
  have hne : vs ≠ [] := by cases h <;> exact List.cons_ne_nil _ _
  obtain ⟨last, hlast⟩ := Option.isSome_iff_exists.mp (List.getLast?_isSome.mpr hne)
  exact ⟨last, List.mem_of_getLast? hlast, hlast⟩

/-- The pages of a walk are read one after another. -/
theorem Walk.steps (h : Walk ok L after S₀ vs) :
    vs.Pairwise fun v v' => Txn.Steps Call.code ok v.system v'.system := by
  induction h with
  | last => exact List.pairwise_singleton _ _
  | page h₀ h₁ hq hr hn h ih => exact List.pairwise_cons.mpr ⟨fun v hv => h.reach v hv, ih⟩

/-- A walk of two pages. -/
theorem Walk.two {S₁ S₂ : System} {q₁ q₂ : Q} {r₁ r₂ : R} (h₁ : Txn.Steps Call.code ok S₀ S₁)
    (h₂ : Txn.Steps Call.code ok S₁ S₂) (hq₁ : L.asks q₁) (hr₁ : L.reads q₁ S₁ S₁ r₁) (hq₂ : L.asks q₂)
    (hr₂ : L.reads q₂ S₂ S₂ r₂) (hafter : L.after q₂ = L.next r₁) (hmore : (L.next r₁).isSome = true)
    (hend : L.next r₂ = none) : Walk ok L (L.after q₁) S₀ [⟨S₁, q₁, r₁⟩, ⟨S₂, q₂, r₂⟩] := by
  obtain ⟨text, htext⟩ := Option.isSome_iff_exists.mp hmore
  have hlast := Walk.last h₂ .refl hq₂ hr₂ hend
  rw [hafter, htext] at hlast
  exact .page h₁ .refl hq₁ hr₁ htext hlast

variable {α β : Type} {key : α → ℤ} {rows : System → List α} {P : α → β → Prop} {items : R → List β}

/-- The visit of a page. -/
def Visit.paged (key : α → ℤ) (rows : System → List α) (L : Listing Q R) (v : Visit Q R) : Paging.Visit α ℤ :=
  visited key (L.after v.request) (L.limit v.request) (rows v.system)

theorem visited_answered {after : Option String} {limit : ℤ} {rows : List α} (h : 1 ≤ limit) :
    (visited key after limit rows).Answered key := ⟨limit.toNat, by omega, rfl, rfl⟩

/-- Where there is more, the page is not empty. -/
theorem exists_last_of_more {after : Option String} {limit : ℤ} {rows : List α} (h : 1 ≤ limit)
    (hmore : (visited key after limit rows).more = true) :
    ∃ x, (visited key after limit rows).page.getLast? = some x := by
  have hlen : limit.toNat < (Paging.after key (cursorOf after) rows).length := of_decide_eq_true hmore
  refine Option.isSome_iff_exists.mp ?_
  rw [List.getLast?_isSome, visited, ne_eq, List.take_eq_nil_iff, not_or]
  exact ⟨by omega, List.ne_nil_of_length_pos (by omega)⟩

theorem cursorOf_nonneg (after : Option String) : 0 ≤ cursorOf after := by
  unfold cursorOf
  rcases hafter : parseCursor after with _ | _ | n
  · exact le_refl 0
  · exact le_refl 0
  · cases after with
    | none => cases hafter
    | some text =>
      obtain ⟨m, hm, hmn⟩ := Option.map_eq_some_iff.mp hafter
      obtain rfl := Option.some.inj hmn
      obtain ⟨-, hpos⟩ := Option.filter_eq_some_iff.mp hm
      exact le_of_lt (of_decide_eq_true hpos)

/-- The cursor after a row parses to its number, if it parses. -/
theorem cursorOf_toString {n : ℤ} (hn : 0 < n) (h : ∃ c, parseCursor (some (toString n)) = some c) :
    cursorOf (some (toString n)) = n := by
  obtain ⟨c, hc⟩ := h
  obtain ⟨m, hm, rfl⟩ := Option.map_eq_some_iff.mp hc
  obtain ⟨rfl, -⟩ := (parseRevision_toString hn).mp hm
  rw [cursorOf, hc]
  rfl

variable (hanswers : ∀ q S₁ S r, L.asks q → L.reads q S₁ S r →
  Answers key (L.after q) (L.limit q) (rows S) P (items r) (L.next r))
include hanswers

theorem Walk.parses (h : Walk ok L after S₀ vs) : ∃ n, parseCursor after = some n := by
  cases h with
  | last h₀ h₁ hq hr hn => exact (hanswers _ _ _ _ hq hr).cursor
  | page h₀ h₁ hq hr hn h => exact (hanswers _ _ _ _ hq hr).cursor

/-- **A client's walk is one over the rows**, from the number of its first cursor on. -/
theorem Walk.paging (h : Walk ok L after S₀ vs) :
    Paging.Walk key (cursorOf after) (vs.map (Visit.paged key rows L)) := by
  induction h with
  | @last S₀ S₁ S q r h₀ h₁ hq hr hn =>
    have ha := hanswers q S₁ S r hq hr
    refine .last (v := Visit.paged key rows L ⟨S, q, r⟩) (visited_answered ha.positive) ?_
    by_contra hmore
    have hmore : (visited key (L.after q) (L.limit q) (rows S)).more = true := Bool.not_eq_false _ ▸ hmore
    obtain ⟨x, hx⟩ := exists_last_of_more ha.positive hmore
    have hnext := ha.next
    rw [hn, hmore, if_pos rfl, hx] at hnext
    cases hnext
  | @page S₀ S₁ S q r text vs h₀ h₁ hq hr hn h ih =>
    have ha := hanswers q S₁ S r hq hr
    have hnext := ha.next
    rw [hn] at hnext
    have hmore : (visited key (L.after q) (L.limit q) (rows S)).more = true := by
      by_contra hmore
      rw [if_neg hmore] at hnext
      cases hnext
    rw [if_pos hmore] at hnext
    obtain ⟨x, hx, rfl⟩ := Option.map_eq_some_iff.mp hnext.symm
    have hmem : x ∈ Paging.after key (cursorOf (L.after q)) (rows S) := List.mem_of_mem_take (List.mem_of_getLast? hx)
    have hpos := lt_of_le_of_lt (cursorOf_nonneg _) (Paging.mem_after.mp hmem).2
    rw [cursorOf_toString hpos (h.parses hanswers)] at ih
    exact .page (v := Visit.paged key rows L ⟨S, q, r⟩) (visited_answered ha.positive) hmore hx ih

/-- The items of a walk's responses are those of the rows on its pages. -/
theorem Walk.answered (h : Walk ok L after S₀ vs) :
    List.Forall₂ P ((vs.map (Visit.paged key rows L)).flatMap (·.page)) (vs.flatMap fun v => items v.response) := by
  induction h with
  | @last S₀ S₁ S q r h₀ h₁ hq hr hn =>
    rw [List.map_singleton, List.flatMap_singleton, List.flatMap_singleton]
    exact (hanswers q S₁ S r hq hr).items
  | @page S₀ S₁ S q r text vs h₀ h₁ hq hr hn h ih =>
    rw [List.map_cons, List.flatMap_cons, List.flatMap_cons]
    exact List.rel_append (hanswers q S₁ S r hq hr).items ih

end

end Portfolio
