/-
# How a call ends

A call without a receipt ends as the tables decide about its operation
(`Call.decides`): its receipt is inserted, its body runs, and its record, which
holds no NUL, is stored. With a receipt it ends at it (`Call.replays`), and
where another attempt has stored the receipt since the call looked for it, it
is refused (`Drives.late`).

Key definitions: `unreceipted`, `Drives`, `Replayed`, `Call.Readable`,
`Call.EndsWith`.
Key theorems: `Call.drives`, `Call.decides`, `Call.replays`,
`refused_healthy`, `accepted_healthy`, `lost_of_exec`, `endsWith_of_exec`.
-/
import Portfolio.Verdict
import Portfolio.Faults

namespace Portfolio

open Txn Txn.Prog

/-- What a mutation does once it has found no receipt. -/
def unreceipted {α : Type} (c : Command) (operation : String) (codec : Codec α) (body : Tx α) : Tx α := do
  match ← attempt (Sql.insertCommand (c.receipt operation) c.hash) with
  | .ok () =>
    let record ← body
    finishCommand c operation (codec.enc record)
    pure record
  | .error .uniqueViolation => refuse .operationInProgress
  | .error source => .throw (.database "insert command receipt" source)

/-- What a mutation does with the receipt it has found. -/
def receipted {α : Type} (c : Command) (codec : Codec α) (row : CommandRow) : Tx α :=
  if row.requestHash ≠ c.hash then refuse .idempotencyConflict
  else match row.responseJson with
    | none => refuse .operationInProgress
    | some response => match codec.dec response with
      | some replay => pure replay
      | none => .throw .receipt

theorem command_eq {α : Type} (c : Command) (operation : String) (codec : Codec α) (body : Tx α) :
    command c operation codec body =
      perform (Sql.selectCommand (c.receipt operation)) (.database "read command receipt") >>= fun existing =>
        match existing with
        | some row => receipted c codec row
        | none => unreceipted c operation codec body := by
  unfold command admitCommand
  rw [Prog.bind_assoc]
  congr 1
  funext existing
  cases existing with
  | none =>
    simp only [unreceipted]
    rw [Prog.bind_assoc]
    congr 1
    funext r
    rcases r with d | _
    · cases d <;> rfl
    · rfl
  | some row =>
    simp only [receipted]
    split
    · rfl
    · cases row.responseJson with
      | none => rfl
      | some response => cases hdec : codec.dec response <;> simp [hdec]

/-! ### Receipts -/

/-- How a call with a receipt ends, whose hash may be `another`, if no server is `lost`. -/
def Replayed {α : Type} (lost another : Prop) : Except StorageError α → Prop
  | .ok _ => True
  | .error (.domain failure) => (failure = .idempotencyConflict ∧ another) ∨ failure = .operationInProgress
  | .error (.database _ .fault) => lost
  | .error (.database _ _) => False
  | .error .receipt => False
  | .error .time => False

theorem Replayed.error {α β : Type} {lost another : Prop} {e : StorageError}
    (h : Replayed lost another (.error e : Except StorageError α)) :
    Replayed lost another (.error e : Except StorageError β) := by
  cases e with
  | database _ source => cases source <;> exact h
  | domain | receipt | time => exact h

section
variable {α β : Type} {K : Tick → Prop} {lost timed : Prop} {T : Tables} {v : Verdict} {c : Command}
  {operation : String} {codec : Codec α} {body : Tx α}

theorem replayed_receipted {row : CommandRow}
    (hread : ∀ j, row.responseJson = some j → (codec.dec j).isSome = true) :
    (receipted c codec row).Meets K T fun r _ => Replayed lost (row.requestHash ≠ c.hash) r := by
  unfold receipted
  split
  · rename_i hanother
    exact meets_throw (Or.inl ⟨rfl, hanother⟩)
  · cases hj : row.responseJson with
    | none => exact meets_throw (Or.inr rfl)
    | some j =>
      obtain ⟨replay, hreplay⟩ := Option.isSome_iff_exists.mp (hread j hj)
      simp only [hreplay]
      exact meets_ret trivial

variable (hK : ∀ t, K t → t.fault = true → lost)
include hK

theorem decides_finishCommand {response : Json} {f : Unit → Tx α} (hkey : Clean (c.receipt operation).texts)
    (hresponse : response.anyText hasNul = false)
    (h : ∀ T', T'.toFacts = T.toFacts → Tx.Decides K lost timed (f ()) T' v) :
    Tx.Decides K lost timed (finishCommand c operation response >>= f) T v := by
  unfold finishCommand
  refine decides_statement hK hkey fun t _ => ?_
  simp only [hresponse, Bool.false_eq_true, if_false]
  cases T.command (c.receipt operation) with
  | none => exact h T rfl
  | some row => exact h _ rfl

/-- A mutation that has found no receipt ends as its body does, unless there is one by now. -/
theorem decides_unreceipted (hkey : Clean (c.receipt operation).texts)
    (hbody : ∀ T', T'.toFacts = T.toFacts → Tx.Decides K lost timed body T' v)
    (hrecord : ∀ {t T' a t' T''}, T'.toFacts = T.toFacts → body.run t T' = (.ok a, t', T'') →
      (codec.enc a).anyText hasNul = false) :
    Tx.Decides K lost timed (unreceipted c operation codec body) T
      (if (T.command (c.receipt operation)).isSome then .refuse .operationInProgress else v) := by
  refine decides_insert hK hkey rfl fun t _ => ?_
  cases hcommand : T.command (c.receipt operation) with
  | some row =>
    simp only [Option.isSome_some, if_true]
    exact decides_refuse
  | none =>
    simp only [Option.isSome_none, Bool.false_eq_true, if_false]
    have hbegun := hbody (applyAll [Write.insertCommand ⟨c.receipt operation, c.hash, none⟩] T) rfl
    refine Meets.bind (hbegun.run.mono fun r T' hr => ?_)
    obtain ⟨hdecided, t₁, t₂, hrun⟩ := hr
    cases r with
    | error e => exact hdecided
    | ok a =>
      have hv : v = .accept := hdecided
      rw [hv]
      have hresponse := @hrecord t₁ (applyAll [Write.insertCommand ⟨c.receipt operation, c.hash, none⟩] T) a t₂ T'
        rfl hrun
      exact decides_finishCommand hK hkey hresponse fun _ _ => decides_ret

end

/-! ### The calls -/

/-- The call is a command with this body, which ends as the tables decide, with a record that can be stored. -/
structure Drives (K : Tick → Prop) (lost timed : Prop) (c : Call) (T : Tables) {α : Type} (codec : Codec α)
    (body : Tx α) (wrap : α → Record) : Prop where
  code : c.code = (command c.command c.op.name codec body >>= fun a => pure (wrap a))
  decode : ∀ j, c.op.decode j = (codec.dec j).map wrap
  decides : ∀ T', T'.toFacts = T.toFacts → Tx.Decides K lost timed body T' (c.op.verdict T.toFacts)
  nulFree : ∀ {t T' a t' T''}, T'.toFacts = T.toFacts → body.run t T' = (.ok a, t', T'') →
    (codec.enc a).anyText hasNul = false

section
variable {K : Tick → Prop} {lost timed : Prop} {T : Tables} {c : Call}
  (hK : ∀ t, K t → t.fault = true → lost)
include hK

/-- **Every call is such a command**, on the tables of a state the plugin reaches. -/
theorem Call.drives (hF : T.Proper) (hv : c.op.Valid) (hn : Clean c.op.texts) (hkey : Clean c.key.texts)
    (ht : c.op.Timely K T.toFacts ∨ timed) : ∃ (α : Type) (codec : Codec α) (body : Tx α) (wrap : α → Record),
      Drives K lost timed c T codec body wrap := by
  have hactor : hasNul c.command.actor = false := hkey _ (List.mem_cons_of_mem _ List.mem_cons_self)
  have hproper : ∀ {T' : Tables}, T'.toFacts = T.toFacts → T'.Proper := fun he => he ▸ hF
  have hnul : ∀ {F : Facts} {r : Record} {F' : Facts}, Fresh c.command.actor c.op F r F' → F = T.toFacts →
      r.toJson.anyText hasNul = false := fun h he => h.nulFree hn hactor (he ▸ hF.legible)
  obtain ⟨c, op⟩ := c
  cases op with
  | createInitiative v =>
    refine ⟨_, InitiativeRecord.codec, createInitiativeBody v, .initiative, rfl, fun _ => rfl,
      fun T' he => ?_, fun he h => ?_⟩
    · rw [← he] at ht ⊢
      exact decides_createInitiativeBody hK hn hv ht
    · exact hnul (createInitiativeBody_ok h).2 he
  | updateInitiative o i expected patch =>
    refine ⟨_, InitiativeRecord.codec, updateInitiativeBody o i expected patch, .initiative, rfl, fun _ => rfl,
      fun T' he => ?_, fun he h => ?_⟩
    · rw [← he] at ht ⊢
      exact decides_updateInitiativeBody hK (hproper he) hn hv ht
    · exact hnul (updateInitiativeBody_ok h).2 he
  | addUpdate o i u expected health summary progress =>
    refine ⟨_, UpdateRecord.codec, addUpdateBody c.actor o i u expected health summary progress, .update, rfl,
      fun _ => rfl, fun T' he => ?_, fun he h => ?_⟩
    · rw [← he] at ht ⊢
      exact decides_addUpdateBody hK (hproper he) hn hactor hv ht
    · exact hnul (addUpdateBody_ok h).2 he
  | archiveInitiative o i expected =>
    refine ⟨_, ArchiveRecord.codec, archiveInitiativeBody o i expected, .archive, rfl, fun _ => rfl,
      fun T' he => ?_, fun he h => ?_⟩
    · rw [← he] at ht ⊢
      exact decides_archiveInitiativeBody hK (hproper he) hn ht
    · exact hnul (archiveInitiativeBody_ok h).2 he
  | attachProject o i expected s position =>
    refine ⟨_, ProjectRecord.codec, attachProjectBody o i expected s position, .project, rfl, fun _ => rfl,
      fun T' he => ?_, fun he h => ?_⟩
    · rw [← he] at ht ⊢
      exact decides_attachProjectBody hK (hproper he) hn hv ht
    · exact hnul (attachProjectBody_ok h).2 he
  | updateProjectSnapshot o i expected s =>
    refine ⟨_, ProjectRecord.codec, updateProjectSnapshotBody o i expected s, .project, rfl, fun _ => rfl,
      fun T' he => ?_, fun he h => ?_⟩
    · rw [← he] at ht ⊢
      exact decides_updateProjectSnapshotBody hK (hproper he) hn hv ht
    · exact hnul (updateProjectSnapshotBody_ok h).2 he
  | detachProject o i p expected expectedMembership =>
    refine ⟨_, DetachRecord.codec, detachProjectBody o i p expected expectedMembership, .detach, rfl, fun _ => rfl,
      fun T' he => ?_, fun he h => ?_⟩
    · rw [← he]
      exact decides_detachProjectBody hK (hproper he) hn
    · exact hnul (detachProjectBody_ok h).2 he
  | reorderProjects o i expected items =>
    refine ⟨_, ReorderRecord.codec, reorderProjectsBody o i expected items, .reorder, rfl, fun _ => rfl,
      fun T' he => ?_, fun he h => ?_⟩
    · rw [← he]
      exact decides_reorderProjectsBody hK (hproper he) hn hv
    · exact hnul (reorderProjectsBody_ok h).2 he

/-- Without a receipt, or with one by now, a call goes on as decided. -/
theorem Drives.late {α : Type} {codec : Codec α} {body : Tx α} {wrap : α → Record}
    (h : Drives K lost timed c T codec body wrap) (hkey : Clean c.key.texts) :
    Tx.Decides K lost timed (unreceipted c.command c.op.name codec body >>= fun a => pure (wrap a)) T
      (if (T.command c.key).isSome then .refuse .operationInProgress else c.op.verdict T.toFacts) := by
  refine Meets.bind ((decides_unreceipted hK hkey h.decides h.nulFree).mono fun r T' hr => ?_)
  cases r with
  | ok a => exact meets_ret hr
  | error e => exact hr.error

/-- The receipt of a call, if it has one, has an answer that can be read, or none. -/
def Call.Readable (c : Call) (T : Tables) : Prop :=
  ∀ row j, T.command c.key = some row → row.responseJson = some j → (c.op.decode j).isSome = true

/-- How a call ends: as decided, or at its receipt. -/
theorem Call.ends (hF : T.Proper) (hv : c.op.Valid) (hn : Clean c.op.texts) (hkey : Clean c.key.texts)
    (ht : c.op.Timely K T.toFacts ∨ timed) (hread : c.Readable T) : c.code.Meets K T fun r _ =>
      match T.command c.key with
      | none => Decided lost timed (c.op.verdict T.toFacts) r
      | some row => Replayed lost (row.requestHash ≠ c.command.hash) r := by
  obtain ⟨α, codec, body, wrap, hdrives⟩ := Call.drives hK hF hv hn hkey ht
  rw [hdrives.code, command_eq, Prog.bind_assoc]
  refine meets_statement hkey (fun t htick hfault => ?_) fun t _ => ?_
  · cases T.command c.key <;> exact hK t htick hfault
  · show Prog.Meets K ((match T.command c.key with
      | some row => receipted c.command codec row
      | none => unreceipted c.command c.op.name codec body) >>= _) T _
    cases hcommand : T.command c.key with
    | none =>
      have hlate := hdrives.late hK hkey
      rw [hcommand] at hlate
      exact hlate
    | some row =>
      have hanswer : ∀ j, row.responseJson = some j → (codec.dec j).isSome = true := fun j hj => by
        have hsome := hread row j hcommand hj
        rwa [hdrives.decode, Option.isSome_map] at hsome
      refine Meets.bind ((@replayed_receipted _ K lost T c.command codec row hanswer).mono fun r T' hr => ?_)
      cases r with
      | ok a => exact meets_ret trivial
      | error e => exact hr.error

/-- **A call without a receipt ends as the tables decide.** -/
theorem Call.decides (hF : T.Proper) (hv : c.op.Valid) (hn : Clean c.op.texts) (hkey : Clean c.key.texts)
    (ht : c.op.Timely K T.toFacts ∨ timed) (hnone : T.command c.key = none) :
    c.code.Meets K T fun r _ => Decided lost timed (c.op.verdict T.toFacts) r := by
  have h := Call.ends hK hF hv hn hkey ht fun row j hrow => by
    rw [hnone] at hrow
    cases hrow
  rwa [hnone] at h

/-- A call with a receipt ends at it. -/
theorem Call.replays (hF : T.Proper) (hv : c.op.Valid) (hn : Clean c.op.texts) (hkey : Clean c.key.texts)
    (ht : c.op.Timely K T.toFacts ∨ timed) (hread : c.Readable T) {row : CommandRow}
    (hrow : T.command c.key = some row) :
    c.code.Meets K T fun r _ => Replayed lost (row.requestHash ≠ c.command.hash) r := by
  have h := Call.ends hK hF hv hn hkey ht hread
  rwa [hrow] at h

end

/-! ### Statements that fail -/

/-- How a statement of a call may fail where the tables decide `v`, and what the call ends with: the server is lost,
a date fits no column, or a key is taken. -/
inductive Failing (v : Verdict) : DbError → StorageError → Prop
  | lost (operation : String) : Failing v .fault (.database operation .fault)
  | overflow (operation : String) (hv : v = .overflow) : Failing v .outOfRange (.database operation .outOfRange)
  | taken {failure : DomainFailure} (h : failure ∈ uniqueFailures)
      (hv : v = .refuse failure ∨ failure = .operationInProgress) : Failing v .uniqueViolation (.domain failure)

theorem failing_of_decided {α : Type} {v : Verdict} {lost timed : Prop} {d : DbError} {e : StorageError}
    (hs : Surfaces d e) (h : Decided lost timed v (.error e : Except StorageError α)) : Failing v d e := by
  cases hs with
  | database operation =>
    cases d with
    | fault => exact .lost operation
    | outOfRange => exact .overflow operation h
    | uniqueViolation | checkViolation | foreignKeyViolation | nulCharacter | rowNotFound => exact h.elim
  | unique hfailure => exact .taken hfailure (Or.inl h)

theorem failing_of_replayed {α : Type} {v : Verdict} {lost another : Prop} {d : DbError} {e : StorageError}
    (hs : Surfaces d e) (h : Replayed lost another (.error e : Except StorageError α)) : Failing v d e := by
  cases hs with
  | database operation =>
    cases d with
    | fault => exact .lost operation
    | outOfRange | uniqueViolation | checkViolation | foreignKeyViolation | nulCharacter | rowNotFound => exact h.elim
  | unique hfailure =>
    rcases h with ⟨rfl, -⟩ | rfl
    · exact absurd hfailure (by decide)
    · exact .taken hfailure (Or.inr rfl)

/-- What is refused because of a receipt that has come in between. -/
theorem replayed_of_inProgress {α : Type} {lost timed another : Prop} {e : StorageError}
    (h : Decided lost timed (.refuse .operationInProgress) (.error e : Except StorageError α)) :
    Replayed lost another (.error e : Except StorageError α) := by
  cases e with
  | domain failure => exact Or.inr (Verdict.refuse.inj h).symm
  | database _ source => cases source <;> first | exact h | cases h
  | receipt => exact h.elim
  | time => cases h.1

/-- The positions of an operation's values are ones the handlers admit. -/
theorem Op.Valid.within {op : Op} (h : op.Valid) : op.Within maxPosition := by
  cases op with
  | attachProject => exact h.2.2
  | reorderProjects => exact fun item hitem => (h item hitem).2
  | createInitiative | updateInitiative | addUpdate | archiveInitiative | updateProjectSnapshot | detachProject =>
    trivial

section
variable {plugin : ProjectPortfolioPlugin} {w : Sequences} {S : System} {c : Call}

/-- What is known of the texts and the values of a call of a configured plugin. -/
theorem values_of_admitted (hconf : plugin.Configured) (hc : Admitted plugin c) :
    c.op.Valid ∧ Clean c.op.texts ∧ Clean c.key.texts := by
  obtain ⟨context, q, hmutation⟩ := hc
  have hsends := sends_of_mutation hmutation
  exact ⟨hsends.valid, hsends.texts hconf⟩

/-- The tables of every state the plugin reaches. -/
theorem proper_of_reachable (hconf : plugin.Configured)
    (h : Txn.Steps Call.code (Admitted plugin) (System.initial w) S) : S.db.Proper where
  represented := represented_of_history (reachable_inv h).chain
  within := within_of_history (reachable_inv h).chain fun x hx =>
    (values_of_admitted hconf ((reachable_inv h).admitted x hx)).1.within
  legible := legible_of_history (reachable_inv h).chain fun x hx =>
    (values_of_admitted hconf ((reachable_inv h).admitted x hx)).2.1

/-- How a call without a receipt ends where no server is lost. -/
theorem decided_healthy (hconf : plugin.Configured)
    (h : Txn.Steps Call.code (Admitted plugin) (System.initial w) S) (hc : Admitted plugin c)
    (hnone : S.db.command c.key = none) {timed : Prop}
    (htimely : c.op.Timely (fun t => t.fault = false) S.db.toFacts ∨ timed) {t : ℕ → Tick}
    (ht : ∀ n, (t n).fault = false) : Decided False timed (c.op.verdict S.db.toFacts) (c.code.run t S.db).1 := by
  obtain ⟨hv, hn, hkey⟩ := values_of_admitted hconf hc
  have hlost : ∀ t : Tick, t.fault = false → t.fault = true → False := by
    intro t hhealthy hfault
    rw [hhealthy] at hfault
    cases hfault
  exact Call.decides hlost (proper_of_reachable hconf h) hv hn hkey htimely hnone t ht

/-- One that the tables refuse fails with the failure. -/
theorem refused_healthy (hconf : plugin.Configured)
    (h : Txn.Steps Call.code (Admitted plugin) (System.initial w) S) (hc : Admitted plugin c)
    (hnone : S.db.command c.key = none) {t : ℕ → Tick} (ht : ∀ n, (t n).fault = false) {failure : DomainFailure}
    (hv : c.op.verdict S.db.toFacts = .refuse failure) : (atomic c.code t S.db).1 = .error (.domain failure) := by
  have hdecides := decided_healthy hconf h hc hnone (Or.inr trivial) ht
  rw [hv] at hdecides
  exact (atomic_fst _ _ _).trans (hdecides.refused not_false)

/-- One that they accept succeeds afresh, if its record has its texts. -/
theorem accepted_healthy (hconf : plugin.Configured)
    (h : Txn.Steps Call.code (Admitted plugin) (System.initial w) S) (hc : Admitted plugin c)
    (hnone : S.db.command c.key = none) {t : ℕ → Tick} (ht : ∀ n, (t n).fault = false)
    (hv : c.op.verdict S.db.toFacts = .accept) (htimely : c.op.Timely (fun t => t.fault = false) S.db.toFacts) :
    ∃ r T, atomic c.code t S.db = (.ok r, T) ∧ Fresh c.command.actor c.op S.db.toFacts r T.toFacts := by
  have hdecides : Decided False False _ _ := decided_healthy hconf h hc hnone (Or.inl htimely) ht
  rw [hv] at hdecides
  obtain ⟨r, hr⟩ := hdecides.accepted not_false not_false
  have hatomic : atomic c.code t S.db = (.ok r, (atomic c.code t S.db).2) :=
    Prod.ext ((atomic_fst _ _ _).trans hr) rfl
  exact ⟨r, _, hatomic, fresh_of_atomic hatomic hnone⟩

/-- And fails for the text if its snapshot has none. -/
theorem unprinted_healthy (hconf : plugin.Configured)
    (h : Txn.Steps Call.code (Admitted plugin) (System.initial w) S) (hc : Admitted plugin c)
    (hnone : S.db.command c.key = none) {t : ℕ → Tick} (ht : ∀ n, (t n).fault = false)
    (hv : c.op.verdict S.db.toFacts = .accept) {v : OffsetDateTime} (hobserved : c.op.observedAt = some v)
    (htext : formatTimestamp v = none) : (atomic c.code t S.db).1 = .error .time := by
  have hdecides := decided_healthy hconf h hc hnone (Or.inr trivial) ht
  rw [hv, ← atomic_fst] at hdecides
  rcases hdecides.ends not_false with ⟨r, hr⟩ | ⟨htime, -⟩
  · have hatomic : atomic c.code t S.db = (.ok r, (atomic c.code t S.db).2) := Prod.ext hr rfl
    have hsome := (fresh_of_atomic hatomic hnone).observed.1 v hobserved
    rw [htext] at hsome
    cases hsome
  · exact htime

/-- And where one may be, and a timestamp may lack a text. -/
theorem decided_anyhow (hconf : plugin.Configured)
    (h : Txn.Steps Call.code (Admitted plugin) (System.initial w) S) (hc : Admitted plugin c)
    (hnone : S.db.command c.key = none) (t : ℕ → Tick) :
    Decided True True (c.op.verdict S.db.toFacts) (c.code.run t S.db).1 := by
  obtain ⟨hv, hn, hkey⟩ := values_of_admitted hconf hc
  exact @Call.decides (fun _ => True) True True S.db c (fun _ _ _ => trivial) (proper_of_reachable hconf h) hv hn hkey
    (Or.inr trivial) hnone t fun _ => trivial

/-- Every receipt of a reachable state can be read by its call: it has the record of a commit. -/
theorem readable_of_reachable {ok : Call → Prop} (h : Txn.Steps Call.code ok (System.initial w) S) :
    c.Readable S.db := by
  intro row j hrow hj
  have hreceipts := receipts_of_history (reachable_inv h).chain
  have hmem := List.mem_filter.mp (List.mem_of_mem_head? (Option.mem_def.mpr hrow))
  obtain ⟨x, hx, -, hissued⟩ := hreceipts.issued row hmem.1
  obtain ⟨row', j', hrow', -, hj', hresult⟩ := hreceipts.stored x hx
  have hkey : c.key = x.call.key := by
    have := of_decide_eq_true hmem.2
    rw [hissued] at this
    exact this.symm
  rw [← hkey, hrow] at hrow'
  obtain rfl := Option.some.inj hrow'
  obtain rfl := Option.some.inj (hj.symm.trans hj')
  rw [decode_congr (name_of_key hkey), hresult]
  rfl

theorem replayed_anyhow (hconf : plugin.Configured)
    (h : Txn.Steps Call.code (Admitted plugin) (System.initial w) S) (hc : Admitted plugin c) {row : CommandRow}
    (hrow : S.db.command c.key = some row) (t : ℕ → Tick) :
    Replayed True (row.requestHash ≠ c.command.hash) (c.code.run t S.db).1 := by
  obtain ⟨hv, hn, hkey⟩ := values_of_admitted hconf hc
  exact @Call.replays (fun _ => True) True True S.db c (fun _ _ _ => trivial) (proper_of_reachable hconf h) hv hn hkey
    (Or.inr trivial) (readable_of_reachable h) row hrow t fun _ => trivial

/-- The error is one a call can end with on the tables, by its receipt or as decided without one, if no server is
`lost`. -/
def Call.EndsWith (c : Call) (lost : Prop) (T : Tables) (e : StorageError) : Prop :=
  match T.command c.key with
  | none => Decided lost True (c.op.verdict T.toFacts) (.error e : Except StorageError Record)
  | some row => Replayed lost (row.requestHash ≠ c.command.hash) (.error e : Except StorageError Record)

/-- A server is lost only where the error says so. -/
theorem Call.EndsWith.of_lost {lost : Prop} {T : Tables} {e : StorageError} (h : c.EndsWith True T e)
    (hlost : ∀ operation, e = .database operation .fault → lost) : c.EndsWith lost T e := by
  unfold EndsWith at h ⊢
  cases e with
  | database operation source =>
    cases source with
    | fault => split <;> exact hlost operation rfl
    | outOfRange | uniqueViolation | checkViolation | foreignKeyViolation | nulCharacter | rowNotFound => exact h
  | domain | receipt | time => exact h

section
variable {lost : Prop}

theorem Call.EndsWith.decided {e : StorageError} (h : c.EndsWith lost S.db e) (hnone : S.db.command c.key = none) :
    Decided lost True (c.op.verdict S.db.toFacts) (.error e : Except StorageError Record) := by
  unfold EndsWith at h
  rwa [hnone] at h

/-- What a failing statement says of the tables. -/
theorem Call.EndsWith.failing {e : StorageError} {d : DbError} (h : c.EndsWith lost S.db e) (hs : Surfaces d e) :
    Failing (c.op.verdict S.db.toFacts) d e := by
  unfold EndsWith at h
  split at h
  · exact failing_of_decided hs h
  · exact failing_of_replayed hs h

end

/-- A call that fails on the tables of a reachable state. -/
theorem endsWith_of_error (hconf : plugin.Configured)
    (h : Txn.Steps Call.code (Admitted plugin) (System.initial w) S) (hc : Admitted plugin c) {t : ℕ → Tick}
    {e : StorageError} (hrun : (c.code.run t S.db).1 = .error e) : c.EndsWith True S.db e := by
  unfold Call.EndsWith
  cases hcommand : S.db.command c.key with
  | none => exact hrun ▸ decided_anyhow hconf h hc hcommand t
  | some row => exact hrun ▸ replayed_anyhow hconf h hc hcommand t

theorem failing_of_error (hconf : plugin.Configured)
    (h : Txn.Steps Call.code (Admitted plugin) (System.initial w) S) (hc : Admitted plugin c) {t : ℕ → Tick}
    {d : DbError} {e : StorageError} (hrun : (c.code.run t S.db).1 = .error e) (hs : Surfaces d e) :
    Failing (c.op.verdict S.db.toFacts) d e := (endsWith_of_error hconf h hc hrun).failing hs

/-- A call that has found its receipt issues no more statements. -/
theorem call_ne_receipted {α β : Type} {st : Sql β} {k : Except DbError β → Tx Record} {command : Command}
    {codec : Codec α} {wrap : α → Record} (row : CommandRow) :
    Prog.call st k ≠ (receipted command codec row >>= fun a => pure (wrap a)) := by
  intro hp
  unfold receipted at hp
  split at hp
  · cases hp
  split at hp
  · cases hp
  split at hp <;> cases hp

/-- The staging of an order has no fault of its own. -/
theorem stageRows_ne_fault : ∀ rs rows : List ProjectRow, Sql.stageRows rs rows ≠ .error .fault
  | [], _ => nofun
  | r :: rs, rows => by
    intro h
    unfold Sql.stageRows at h
    split at h
    · cases h
    split at h
    · cases h
    split at h
    · cases h
    cases hs : Sql.stageRows rs (Table.put ProjectRow.key (Sql.staged r) rows) with
    | error d =>
      rw [hs] at h
      obtain rfl := Except.error.inj h
      exact stageRows_ne_fault rs _ hs
    | ok ws =>
      rw [hs] at h
      cases h

/-- A statement that is answered with a fault only if the server is lost. -/
def Sql.FaultsIfLost {β : Type} (st : Sql β) : Prop :=
  ∀ (t : Tick) (T : Tables), (st.run t T).1 = .error .fault → t.fault = true

/-- So is every statement of the storage layer. -/
theorem Sql.For.faultsIfLost {o actor : String} {mine : CommandKey → Bool} {β : Type} {st : Sql β}
    (h : st.For o mine actor) : st.FaultsIfLost := by
  intro t T he
  have hof : ∀ {γ : Type} {binds : List String} {locks : Tables → List Lock}
      {body : Tick → Tables → Except DbError (γ × List Write)},
      ((Sql.of binds locks body).run t T).1 = .error .fault → body t T ≠ .error .fault → t.fault = true := by
    intro γ binds locks body he hbody
    rcases Sql.of_error he with ⟨-, hf⟩ | ⟨hnul, -⟩ | hb
    · exact hf
    · cases hnul
    · exact absurd hb hbody
  have hselect : ∀ {γ : Type} {binds : List String} {answer : Tables → γ},
      ((Sql.select binds answer).run t T).1 = .error .fault → t.fault = true := by
    intro γ binds answer he
    refine hof he fun hb => ?_
    cases hb
  have hset : ∀ {binds : List String} {o i : String} {fit : Bool} {f : Tick → InitiativeRow → InitiativeRow},
      ((Sql.setInitiative binds o i fit f).run t T).1 = .error .fault → t.fault = true := by
    intro binds o i fit f he
    refine hof he fun hb => ?_
    split at hb
    · cases hb
    split at hb
    · split at hb <;> cases hb
    · cases hb
  cases h with
  | nextInitiativeSeq | nextUpdateSeq =>
    by_contra hf
    simp [Sql.nextInitiativeSeq, Sql.nextUpdateSeq, Sql.nextval, hf] at he
  | selectCommand | selectInitiativeForUpdate | selectProjectForUpdate | selectOrderForUpdate =>
    refine hof he fun hb => ?_
    cases hb
  | selectInitiative | listInitiatives | existsInitiative | selectUpdate | listUpdates | selectPosition
  | countProjects | selectProject | existsProject | listProjects => exact hselect he
  | updateInitiative | advanceInitiative | archiveInitiative | bumpInitiative => exact hset he
  | insertCommand =>
    refine hof he fun hb => ?_
    split at hb <;> cases hb
  | updateCommand =>
    refine hof he fun hb => ?_
    split at hb
    · cases hb
    · split at hb <;> cases hb
  | insertInitiative =>
    refine hof he fun hb => ?_
    split at hb
    · cases hb
    split at hb
    · cases hb
    split at hb <;> cases hb
  | insertUpdate | insertProject =>
    refine hof he fun hb => ?_
    split at hb
    · cases hb
    split at hb
    · cases hb
    split at hb
    · cases hb
    split at hb <;> cases hb
  | updateSnapshot =>
    refine hof he fun hb => ?_
    split at hb
    · cases hb
    split at hb
    · split at hb <;> cases hb
    · cases hb
  | deleteProject =>
    refine hof he fun hb => ?_
    split at hb
    · split at hb <;> cases hb
    · cases hb
  | stageOrder i =>
    refine hof he fun hb => ?_
    cases hs : Sql.stageRows ((T.projectsOf o i).insertionSort fun r s => t.rank r.projectId ≤ t.rank s.projectId)
        (T.projectsOf o i) with
    | error d =>
      rw [hs] at hb
      obtain rfl := Except.error.inj hb
      exact stageRows_ne_fault _ _ hs
    | ok ws =>
      rw [hs] at hb
      cases hb
  | writePosition =>
    refine hof he fun hb => ?_
    split at hb
    · cases hb
    split at hb
    · split at hb
      · cases hb
      split at hb <;> cases hb
    · cases hb

/-- An attempt ends with a lost server only at a statement that is lost. -/
theorem lost_of_exec {ok : Call → Prop} (h : Txn.Steps Call.code ok (System.initial w) S) {i : ℕ} {ticks : List Tick}
    {β : Type} {st : Sql β} {k : Except DbError β → Tx Record} {log : List Write} {held : List Lock}
    (hi : S.threads i = .active c ticks (.call st k) log held) {t : Tick} {operation : String}
    (he : k (st.run t (applyAll log S.db)).1 = .throw (.database operation .fault)) : t.fault = true := by
  have hreports := Steps.reports (fun c => Call.reports c) h hi
  have hcalls := Steps.hereditary (P := fun p : Tx Record => p.Calls fun _ st => Sql.FaultsIfLost st)
    (fun c => c.statements.mono fun _ _ hst => hst.faultsIfLost) (fun r hp => hp.2 r) h i c ticks _ log held hi
  cases hr : (st.run t (applyAll log S.db)).1 with
  | ok a =>
    rw [hr] at he
    have hown := hreports.2 a
    rw [he] at hown
    cases hown
  | error d =>
    obtain ⟨e, hthrow, hs⟩ := hreports.1 d
    rw [hr, hthrow] at he
    obtain rfl := Prog.throw.inj he
    cases hs
    exact hcalls.1 t _ hr

/-- **A statement that ends its attempt** with an error does so as the tables of its moment say, wherever the attempt
stands and whatever the others have done; with a lost server only if it is lost. -/
theorem endsWith_of_exec (hconf : plugin.Configured)
    (h : Txn.Steps Call.code (Admitted plugin) (System.initial w) S) {i : ℕ} {ticks : List Tick} {β : Type}
    {st : Sql β} {k : Except DbError β → Tx Record} {log : List Write} {held : List Lock}
    (hi : S.threads i = .active c ticks (.call st k) log held) {t : Tick} {e : StorageError}
    (he : k (st.run t (applyAll log S.db)).1 = .throw e) : c.EndsWith (t.fault = true) S.db e := by
  refine Call.EndsWith.of_lost ?_ fun operation hoperation => lost_of_exec h hi (hoperation ▸ he)
  have hinv := reachable_inv h
  have hc := hinv.admissible i c ticks _ log held hi
  -- the attempt alone, on this tick, ends with the error
  have hcall : ((Prog.call st k).run (fun _ => t) (applyAll log S.db)).1 = .error e := by
    unfold Prog.run
    rw [he]
    rfl
  have hsound := hinv.sound i
  rw [hi] at hsound
  generalize hp : Prog.call st k = p at hsound
  cases hsound with
  | fresh =>
    rw [hp] at hcall
    exact endsWith_of_error hconf h hc hcall
  | throwing => cases hp
  | tracked _ _ hr =>
    have hrun := hr S.db (Agree.refl held S.db) fun _ => t
    rw [hp] at hcall
    exact endsWith_of_error hconf h hc (by rw [hrun]; exact hcall)
  | @probed _ _ st₀ k₀ t₀ o hcode _ _ =>
    obtain ⟨hv, hn, hkey⟩ := values_of_admitted hconf hc
    obtain ⟨α, codec, body, wrap, hdrives⟩ := @Call.drives (fun _ => True) True True S.db c (fun _ _ _ => trivial)
      (proper_of_reachable hconf h) hv hn hkey (Or.inr trivial)
    rw [hdrives.code, command_eq, Prog.bind_assoc] at hcode
    cases hcode
    obtain ⟨answer, ws⟩ := o
    rcases answer with d' | _ | row
    · cases hp
    · -- the INSERT of the receipt, on tables that may have it by now
      have hlate := hdrives.late (fun _ _ _ => trivial) hkey (fun _ => t) fun _ => trivial
      have hprogram : Prog.call st k =
        (unreceipted c.command c.op.name codec body >>= fun a => pure (wrap a)) := hp
      rw [← hprogram] at hlate
      have hcall' : ((Prog.call st k).run (fun _ => t) S.db).1 = .error e := hcall
      rw [hcall'] at hlate
      unfold Call.EndsWith
      cases hcommand : S.db.command c.key with
      | none =>
        rw [hcommand] at hlate
        exact hlate
      | some row =>
        rw [hcommand] at hlate
        exact replayed_of_inProgress hlate
    · exact absurd hp (call_ne_receipted row)

/-- A statement of an attempt that fails does so because the server is lost, a date fits no column or a key is
taken, and ends the attempt. -/
theorem failing_of_exec (hconf : plugin.Configured)
    (h : Txn.Steps Call.code (Admitted plugin) (System.initial w) S) {i : ℕ} {ticks : List Tick} {β : Type}
    {st : Sql β} {k : Except DbError β → Tx Record} {log : List Write} {held : List Lock}
    (hi : S.threads i = .active c ticks (.call st k) log held) {t : Tick} {d : DbError}
    (hd : (st.run t (applyAll log S.db)).1 = .error d) :
    ∃ e, k (.error d) = .throw e ∧ Failing (c.op.verdict S.db.toFacts) d e := by
  obtain ⟨e, he, hs⟩ := Steps.ends (fun c => Call.reports c) h hi d
  have hend := endsWith_of_exec hconf h hi ((congrArg k hd).trans he)
  exact ⟨e, he, hend.failing hs⟩

end

end Portfolio
