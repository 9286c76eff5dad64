/-
# What a key stands for

A receipt holds the digest of a request, not the request. Two mutations with one
JSON are one request of their operation (`json_injective`), and a request makes
one operation, whoever sends it (`op_of_sends`). So the commits under one key are
of one request, unless the two requests collide: their JSON differs and has one
digest (`Request.Collides`).

Key definitions: `Request.Collides`.
Key theorems: `request_of_key`, `faithful_of_injective`, `Call.repeats`,
`keys_stand_for_requests`.
-/
import Portfolio.Errors
import Portfolio.Decisions
import Portfolio.Serializable

namespace Portfolio

open Txn Txn.Prog

/-! ### Requests and their JSON -/

theorem Json.ofOption_inj {a b : Option String} : Json.ofOption .str a = Json.ofOption .str b ↔ a = b := by
  cases a <;> cases b <;> simp [Json.ofOption]

theorem Json.int_inj {m n : ℤ} : Json.int m = Json.int n ↔ m = n := by
  simp [Json.int]

theorem Health.text_inj {a b : Health} : a.text = b.text ↔ a = b := by
  cases a <;> cases b <;> simp [Health.text]

theorem Status.text_inj {a b : Status} : a.text = b.text ↔ a = b := by
  cases a <;> cases b <;> simp [Status.text]

theorem Json.ofList_inj {α : Type} {enc : α → Json} (henc : ∀ {a b}, enc a = enc b → a = b) {as bs : List α} :
    Json.ofList enc as = Json.ofList enc bs ↔ as = bs := by
  rw [Json.ofList, Json.ofList, Json.arr.injEq]
  exact (List.map_injective_iff.mpr fun _ _ => henc).eq_iff

theorem ReorderProjectsRequestItemsItem.toJson_injective {r r' : ReorderProjectsRequestItemsItem}
    (h : r.toJson = r'.toJson) : r = r' := by
  cases r
  cases r'
  simpa [toJson, Json.ofOption_inj, Json.int_inj, Health.text_inj, Status.text_inj] using h

theorem CreateInitiativeRequest.toJson_injective {r r' : CreateInitiativeRequest} (h : r.toJson = r'.toJson) :
    r = r' := by
  cases r
  cases r'
  simpa [toJson, Json.ofOption_inj, Json.int_inj, Health.text_inj, Status.text_inj] using h

theorem UpdateInitiativeRequest.toJson_injective {r r' : UpdateInitiativeRequest} (h : r.toJson = r'.toJson) :
    r = r' := by
  cases r
  cases r'
  simpa [toJson, Json.ofOption_inj, Json.int_inj, Health.text_inj, Status.text_inj] using h

theorem AddInitiativeUpdateRequest.toJson_injective {r r' : AddInitiativeUpdateRequest} (h : r.toJson = r'.toJson) :
    r = r' := by
  cases r
  cases r'
  simpa [toJson, Json.ofOption_inj, Json.int_inj, Health.text_inj, Status.text_inj] using h

theorem ArchiveInitiativeRequest.toJson_injective {r r' : ArchiveInitiativeRequest} (h : r.toJson = r'.toJson) :
    r = r' := by
  cases r
  cases r'
  simpa [toJson, Json.ofOption_inj, Json.int_inj, Health.text_inj, Status.text_inj] using h

theorem AttachProjectRequest.toJson_injective {r r' : AttachProjectRequest} (h : r.toJson = r'.toJson) : r = r' := by
  cases r
  cases r'
  simpa [toJson, Json.ofOption_inj, Json.int_inj, Health.text_inj, Status.text_inj] using h

theorem UpdateProjectSnapshotRequest.toJson_injective {r r' : UpdateProjectSnapshotRequest} (h : r.toJson = r'.toJson) :
    r = r' := by
  cases r
  cases r'
  simpa [toJson, Json.ofOption_inj, Json.int_inj, Health.text_inj, Status.text_inj] using h

theorem DetachProjectRequest.toJson_injective {r r' : DetachProjectRequest} (h : r.toJson = r'.toJson) : r = r' := by
  cases r
  cases r'
  simpa [toJson, Json.ofOption_inj, Json.int_inj, Health.text_inj, Status.text_inj] using h

theorem ReorderProjectsRequest.toJson_injective {r r' : ReorderProjectsRequest} (h : r.toJson = r'.toJson) :
    r = r' := by
  cases r
  cases r'
  simpa [toJson, Json.ofOption_inj, Json.int_inj, Health.text_inj, Status.text_inj,
    Json.ofList_inj @ReorderProjectsRequestItemsItem.toJson_injective] using h

/-- Two mutations of one operation that are written as one JSON are one request. -/
theorem Request.json_injective {q q' : Request} {j : Json} (hoperation : q.operation = q'.operation)
    (h : q.json = some j) (h' : q'.json = some j) : q = q' := by
  have hjson := h.trans h'.symm
  cases q with
  | getInitiative | listInitiatives | listInitiativeProjects | listInitiativeUpdates | readRollup => cases h
  | createInitiative r =>
    cases q' with
    | createInitiative r' =>
      exact congrArg createInitiative (CreateInitiativeRequest.toJson_injective (Option.some.inj hjson))
    | _ => simp [operation] at hoperation
  | updateInitiative r =>
    cases q' with
    | updateInitiative r' =>
      exact congrArg updateInitiative (UpdateInitiativeRequest.toJson_injective (Option.some.inj hjson))
    | _ => simp [operation] at hoperation
  | addInitiativeUpdate r =>
    cases q' with
    | addInitiativeUpdate r' =>
      exact congrArg addInitiativeUpdate (AddInitiativeUpdateRequest.toJson_injective (Option.some.inj hjson))
    | _ => simp [operation] at hoperation
  | archiveInitiative r =>
    cases q' with
    | archiveInitiative r' =>
      exact congrArg archiveInitiative (ArchiveInitiativeRequest.toJson_injective (Option.some.inj hjson))
    | _ => simp [operation] at hoperation
  | attachProject r =>
    cases q' with
    | attachProject r' => exact congrArg attachProject (AttachProjectRequest.toJson_injective (Option.some.inj hjson))
    | _ => simp [operation] at hoperation
  | updateProjectSnapshot r =>
    cases q' with
    | updateProjectSnapshot r' =>
      exact congrArg updateProjectSnapshot (UpdateProjectSnapshotRequest.toJson_injective (Option.some.inj hjson))
    | _ => simp [operation] at hoperation
  | detachProject r =>
    cases q' with
    | detachProject r' => exact congrArg detachProject (DetachProjectRequest.toJson_injective (Option.some.inj hjson))
    | _ => simp [operation] at hoperation
  | reorderProjects r =>
    cases q' with
    | reorderProjects r' =>
      exact congrArg reorderProjects (ReorderProjectsRequest.toJson_injective (Option.some.inj hjson))
    | _ => simp [operation] at hoperation

/-- A request makes one operation, whoever sends it. -/
theorem op_of_sends {plugin : ProjectPortfolioPlugin} {context context' : Context} {q : Request} {c c' : Call}
    (h : q.Sends plugin context c) (h' : q.Sends plugin context' c') : c.op = c'.op := by
  cases h <;> cases h' <;> simp_all

/-- The two requests are written differently and have one digest. -/
def Request.Collides (plugin : ProjectPortfolioPlugin) (q q' : Request) : Prop :=
  ∃ j j', q.json = some j ∧ q'.json = some j' ∧ j ≠ j' ∧ plugin.digest j = plugin.digest j'

/-! ### Commits under one key -/

section
variable {plugin : ProjectPortfolioPlugin} {context context' : Context} {q q' : Request} {c c' : Call}

/-- Two calls with one key and one hash are of one request. -/
theorem request_of_key (hc : Handler.mutation (q.handle plugin context) = some c)
    (hc' : Handler.mutation (q'.handle plugin context') = some c') (hkey : c.key = c'.key)
    (hhash : c.command.hash = c'.command.hash) : (q = q' ∧ c.op = c'.op) ∨ q.Collides plugin q' := by
  have hissued := issued_of_mutation hc
  have hissued' := issued_of_mutation hc'
  obtain ⟨j, hj, hdigest⟩ := hissued.hash
  obtain ⟨j', hj', hdigest'⟩ := hissued'.hash
  by_cases hjson : j = j'
  · subst hjson
    have hoperation : q.operation = q'.operation := by
      rw [← hissued.operation, ← hissued'.operation, name_of_key hkey]
    obtain rfl := Request.json_injective hoperation hj hj'
    exact Or.inl ⟨rfl, op_of_sends (sends_of_mutation hc) (sends_of_mutation hc')⟩
  · exact Or.inr ⟨j, j', hj, hj', hjson, by rw [← hdigest, ← hdigest', hhash]⟩

/-- Where no two requests have one digest, the hash of a call stands for its request. -/
theorem faithful_of_injective (h : Function.Injective plugin.digest) : Faithful (Admitted plugin) := by
  rintro c c' ⟨context, q, hc⟩ ⟨context', q', hc'⟩ hkey hhash
  rcases request_of_key hc hc' hkey hhash with ⟨-, hop⟩ | ⟨j, j', -, -, hne, hdigest⟩
  · exact hop
  · exact absurd (h hdigest) hne

/-- And of one request they have one hash. -/
theorem hash_of_request (hc : Handler.mutation (q.handle plugin context) = some c)
    (hc' : Handler.mutation (q.handle plugin context') = some c') : c.command.hash = c'.command.hash := by
  obtain ⟨j, hj, hdigest⟩ := (issued_of_mutation hc).hash
  obtain ⟨j', hj', hdigest'⟩ := (issued_of_mutation hc').hash
  obtain rfl := Option.some.inj (hj.symm.trans hj')
  rw [hdigest, hdigest']

end

/-- A command whose receipt has its answer gives that, or refuses another hash. -/
theorem repeats_command {α : Type} {c : Command} {operation : String} {codec : Codec α} {body : Tx α}
    {wrap : α → Record} {T : Tables} (hkey : Clean (c.receipt operation).texts) {row : CommandRow} {j : Json}
    {r : Record} (hrow : T.command (c.receipt operation) = some row) (hj : row.responseJson = some j)
    (hr : (codec.dec j).map wrap = some r) :
    (command c operation codec body >>= fun a => pure (wrap a)).Meets (fun t => t.fault = false) T fun result _ =>
      result = if row.requestHash = c.hash then .ok r else .error (.domain .idempotencyConflict) := by
  obtain ⟨a, ha, rfl⟩ := Option.map_eq_some_iff.mp hr
  rw [command_eq, Prog.bind_assoc]
  refine meets_statement hkey (fun t hhealthy hfault => ?_) fun t _ => ?_
  · rw [hhealthy] at hfault
    cases hfault
  simp only [applyAll_nil, hrow, receipted, hj, ha]
  by_cases hhash : row.requestHash = c.hash
  · rw [if_neg (not_not.mpr hhash), if_pos hhash]
    exact meets_ret rfl
  · rw [if_pos hhash, if_neg hhash]
    exact meets_throw rfl

/-- **A call with a receipt** that has its answer gives that, or refuses another hash. -/
theorem Call.repeats {c : Call} {T : Tables} (hkey : Clean c.key.texts) {row : CommandRow} {j : Json} {r : Record}
    (hrow : T.command c.key = some row) (hj : row.responseJson = some j) (hr : c.op.decode j = some r) :
    c.code.Meets (fun t => t.fault = false) T fun result _ =>
      result = if row.requestHash = c.command.hash then .ok r else .error (.domain .idempotencyConflict) := by
  obtain ⟨command, op⟩ := c
  cases op <;> exact repeats_command hkey hrow hj hr

/-- **A key stands for a request.** In every state the plugin reaches, the commits under one key have one result and
are of one request, or of two that collide. And whoever makes a request under a key that has committed, no statement
being lost, leaves the tables as they are, is answered with what was committed if the request is the same, and is told
of the conflict if it is another one and they do not collide. -/
theorem keys_stand_for_requests {plugin : ProjectPortfolioPlugin} {w : Sequences} {S : System}
    (hconf : plugin.Configured)
    (haccepts : ∀ v text, formatTimestamp v = some text → plugin.accepts text = true)
    (h : Txn.Steps Call.code (Admitted plugin) (System.initial w) S) :
    (∀ x ∈ S.commits, ∀ y ∈ S.commits, x.call.key = y.call.key → x.result = y.result ∧
      ∀ (context context' : Context) (q q' : Request), Handler.mutation (q.handle plugin context) = some x.call →
        Handler.mutation (q'.handle plugin context') = some y.call →
        (q = q' ∧ x.call.op = y.call.op) ∨ q.Collides plugin q') ∧
    ∀ x ∈ S.commits, ∀ (context context' : Context) (q q' : Request) (c : Call),
      Handler.mutation (q.handle plugin context) = some x.call →
      Handler.mutation (q'.handle plugin context') = some c → c.key = x.call.key →
      ∀ t : ℕ → Tick, (∀ n, (t n).fault = false) →
        (q = q' → ∃ response, x.result.respond plugin.accepts = some response ∧
          Handler.serve (q'.handle plugin context') t S.db = (.ok response, S.db)) ∧
        (q ≠ q' → Handler.serve (q'.handle plugin context') t S.db =
            (.error (.domain (q'.mapped .idempotencyConflict)), S.db) ∨ q.Collides plugin q') := by
  have hinv := reachable_inv h
  have hreceipts := receipts_of_history hinv.chain
  refine ⟨fun x hx y hy hkey => ?_, fun x hx context context' q q' c hxq hc hkey t ht => ?_⟩
  · obtain ⟨hresult, hhash⟩ := hreceipts.agree hx hy hkey
    exact ⟨hresult, fun context context' q q' hq hq' => request_of_key hq hq' hkey hhash⟩
  · obtain ⟨row, j, hrow, hhash, hj, hr⟩ := hreceipts.stored x hx
    rw [← hkey] at hrow
    rw [← decode_congr (name_of_key hkey)] at hr
    have hrun := Call.repeats (values_of_admitted hconf ⟨context', q', hc⟩).2.2 hrow hj hr t ht
    have hatomic : (atomic c.code t S.db).1 = _ := (atomic_fst _ _ _).trans hrun
    refine ⟨fun hq => ?_, fun hq => ?_⟩
    · subst hq
      rw [if_pos (hhash.trans (hash_of_request hxq hc))] at hatomic
      have houtcome := Call.outcome (atomic_ok.mp (Prod.ext hatomic rfl)).choose_spec
      obtain ⟨response, hresponse⟩ := Option.isSome_iff_exists.mp (respond_of_outcome haccepts hinv.chain houtcome)
      have hsame : (atomic c.code t S.db).2 = S.db := by
        cases houtcome with
        | replay _ _ _ _ _ _ hT => exact hT
        | fresh hnone => rw [hnone] at hrow; cases hrow
      obtain ⟨map, hserve⟩ := serve_mutation hc
      refine ⟨response, hresponse, ?_⟩
      rw [hserve, hatomic, hsame]
      simp only [hresponse]
    · by_cases hsame : row.requestHash = c.command.hash
      · rcases request_of_key hxq hc hkey.symm (hhash.symm.trans hsame) with ⟨he, -⟩ | hcollides
        · exact (hq he).elim
        · exact Or.inr hcollides
      · rw [if_neg hsame] at hatomic
        exact Or.inl (serve_mapped hc hatomic).1

/-- Another request under the key of the create. -/
def sampleRenamedRequest : Request :=
  .createInitiative ⟨"create", "alpha", "Plan", "acme", none, none, none, none⟩

/-- The create is answered again with the initiative; the other request is not. -/
theorem keys_stand_for_requests_renamed : ∃ S : System, S.db.initiatives.length = 1 ∧
    (∃ response, Handler.serve (sampleCreateRequest.handle samplePlugin sampleContext) (fun _ => default) S.db =
      (.ok response, S.db)) ∧
    Handler.serve (sampleRenamedRequest.handle samplePlugin sampleContext) (fun _ => default) S.db =
      (.error (.domain (.portfolio .idempotencyConflict)), S.db) := by
  have hrun : ((System.initial ⟨0, 0⟩).schedule Call.code 2 sampleMembership).bind (fun S =>
      (S.schedule Call.code 2 []).map fun S' => (S'.db.initiatives.length,
        S'.commits.any fun x => decide (x.call = sampleMutation sampleCreateRequest))) = some (1, true) := by
    decide +kernel
  obtain ⟨S, S', h, h', hfacts⟩ := @System.scheduled (Admitted samplePlugin) _ _ _ _ _ _ _ hrun (by decide +kernel)
    (Txn.starts_append admitted_sampleMembership_self Txn.starts_nil)
  obtain ⟨hcount, hany⟩ := Prod.mk.inj hfacts
  obtain ⟨x, hx, hcall⟩ := List.any_eq_true.mp hany
  have hxcall : x.call = sampleMutation sampleCreateRequest := of_decide_eq_true hcall
  have hconf : samplePlugin.Configured := ⟨by decide +kernel, by decide +kernel⟩
  have hcreate : Handler.mutation (sampleCreateRequest.handle samplePlugin sampleContext) =
      some (sampleMutation sampleCreateRequest) := by decide +kernel
  have hrenamed : Handler.mutation (sampleRenamedRequest.handle samplePlugin sampleContext) =
      some (sampleMutation sampleRenamedRequest) := by decide +kernel
  have hkey : (sampleMutation sampleRenamedRequest).key = (sampleMutation sampleCreateRequest).key := by decide +kernel
  have hdiffer : samplePlugin.digest (CreateInitiativeRequest.toJson ⟨"create", "alpha", "Roadmap", "acme", none, none,
      none, none⟩) ≠ samplePlugin.digest (CreateInitiativeRequest.toJson ⟨"create", "alpha", "Plan", "acme", none, none,
      none, none⟩) := by decide +kernel
  obtain ⟨-, hserved⟩ := keys_stand_for_requests hconf (fun _ _ _ => rfl) (h.trans h')
  refine ⟨S', hcount, ?_, ?_⟩
  · obtain ⟨response, -, hserve⟩ := (hserved x hx sampleContext sampleContext _ sampleCreateRequest _
      (hxcall ▸ hcreate) hcreate (congrArg Call.key hxcall).symm (fun _ => default) fun _ => rfl).1 rfl
    exact ⟨response, hserve⟩
  · refine ((hserved x hx sampleContext sampleContext _ sampleRenamedRequest _ (hxcall ▸ hcreate) hrenamed
      (hkey.trans (congrArg Call.key hxcall).symm) (fun _ => default) fun _ => rfl).2 (by simp [sampleCreateRequest,
        sampleRenamedRequest])).resolve_right ?_
    rintro ⟨j, j', hj, hj', -, hdigest⟩
    obtain rfl := Option.some.inj hj
    obtain rfl := Option.some.inj hj'
    exact hdiffer hdigest

end Portfolio
