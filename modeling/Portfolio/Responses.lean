/-
# What comes back after the commit

A mutation's record is converted after its COMMIT, so a conversion that failed
would report an error for a call that took effect. It cannot: a record of a
fresh success comes from rows that satisfy their constraints, whose texts of
health and status are those of the contract, and a replay returns such a
record again. So a handler that answers with an error has left the tables as
they were.

Key definitions: `Record.respond` (in `Admission`).
Key theorems: `Fresh.respond`, `respond_of_outcome`, `read_silent`,
`failed_call_leaves_no_trace`.
-/
import Portfolio.Admission
import Portfolio.ExactlyOnce
import Portfolio.Txn.Calls

namespace Portfolio

open Txn Txn.Prog Json

/-! ### Decoding what a row holds -/

theorem decHealth_of_check {s : String} (h : healthCheck s = true) : ∃ health, decHealth (.str s) = some health := by
  have hs : s = "on_track" ∨ s = "at_risk" ∨ s = "off_track" ∨ s = "no_update" := by
    simpa [healthCheck] using h
  rcases hs with rfl | rfl | rfl | rfl
  · exact ⟨.onTrack, by decide⟩
  · exact ⟨.atRisk, by decide⟩
  · exact ⟨.offTrack, by decide⟩
  · exact ⟨.noUpdate, by decide⟩

theorem decStatus_of_check {s : String} (h : statusCheck s = true) : ∃ status, decStatus (.str s) = some status := by
  have hs : s = "backlog" ∨ s = "planned" ∨ s = "started" ∨ s = "paused" ∨ s = "completed" ∨ s = "canceled" := by
    simpa [statusCheck] using h
  rcases hs with rfl | rfl | rfl | rfl | rfl | rfl
  · exact ⟨.backlog, by decide⟩
  · exact ⟨.planned, by decide⟩
  · exact ⟨.started, by decide⟩
  · exact ⟨.paused, by decide⟩
  · exact ⟨.completed, by decide⟩
  · exact ⟨.canceled, by decide⟩

section
variable {accepts : String → Bool} (haccepts : ∀ v text, formatTimestamp v = some text → accepts text = true)

include haccepts

theorem decTimestamp_of_format {v : OffsetDateTime} {text : String} (h : formatTimestamp v = some text) :
    decTimestamp accepts (.str text) = some text := by
  rw [decTimestamp, if_pos (haccepts v text h)]

theorem decTimestamp_of_optional {v : Option OffsetDateTime} {text : Option String}
    (h : optionalTimestamp v = some text) :
    decOption (decTimestamp accepts) (ofOption .str text) = some text := by
  cases v with
  | none =>
    obtain rfl := Option.some.inj h
    rfl
  | some v =>
    obtain ⟨s, hs, rfl⟩ := Option.map_eq_some_iff.mp h
    have hdec := decTimestamp_of_format haccepts hs
    simp only [ofOption, decOption, hdec, Option.map_some]

theorem initiative_respond {row : InitiativeRow} {n : ℕ} {r : InitiativeRecord} (hc : row.checks = true)
    (h : initiativeFromRow row n = some r) : (Record.respond accepts (.initiative r)).isSome = true := by
  obtain ⟨health, hhealth⟩ := decHealth_of_check (InitiativeRow.checks_iff.mp hc).2.1
  obtain ⟨createdAt, h1, h⟩ := Option.bind_eq_some_iff.mp h
  obtain ⟨updatedAt, h2, h⟩ := Option.bind_eq_some_iff.mp h
  obtain ⟨archivedAt, h3, h⟩ := Option.bind_eq_some_iff.mp h
  obtain rfl := Option.some.inj h
  simp [Record.respond, CreateInitiativeResponse.fromJson, InitiativeRecord.toJson, req, field, hhealth,
    decTimestamp_of_format haccepts h1, decTimestamp_of_format haccepts h2, decTimestamp_of_optional haccepts h3]

theorem update_respond {row : UpdateRow} {r : UpdateRecord} (hc : healthCheck row.health = true)
    (h : updateFromRow row = some r) : (Record.respond accepts (.update r)).isSome = true := by
  obtain ⟨health, hhealth⟩ := decHealth_of_check hc
  obtain ⟨createdAt, h1, h⟩ := Option.bind_eq_some_iff.mp h
  obtain rfl := Option.some.inj h
  simp [Record.respond, AddInitiativeUpdateResponse.fromJson, UpdateRecord.toJson, req, field, hhealth,
    decTimestamp_of_format haccepts h1]

theorem archive_respond {row : InitiativeRow} {r : ArchiveRecord} (h : archiveFromRow row = some r) :
    (Record.respond accepts (.archive r)).isSome = true := by
  obtain ⟨updatedAt, h1, h⟩ := Option.bind_eq_some_iff.mp h
  obtain ⟨archivedAt, h2, h⟩ := Option.bind_eq_some_iff.mp h
  obtain rfl := Option.some.inj h
  simp [Record.respond, ArchiveInitiativeResponse.fromJson, ArchiveRecord.toJson, req, field,
    decTimestamp_of_format haccepts h1, decTimestamp_of_optional haccepts h2]

theorem project_respond {row : ProjectRow} {revision : String} {r : ProjectRecord} (hc : row.checks = true)
    (h : projectFromRow row (some revision) = some r) : (Record.respond accepts (.project r)).isSome = true := by
  obtain ⟨-, -, hstatus, hhealth, -⟩ := ProjectRow.checks_iff.mp hc
  obtain ⟨status, hstatus⟩ := decStatus_of_check hstatus
  obtain ⟨health, hhealth⟩ := decHealth_of_check hhealth
  obtain ⟨observedAt, h1, h⟩ := Option.bind_eq_some_iff.mp h
  obtain rfl := Option.some.inj h
  simp [Record.respond, AttachProjectResponse.fromJson, ProjectRecord.toJson, req, field, hstatus, hhealth,
    decTimestamp_of_format haccepts h1]

omit haccepts in
theorem detach_respond (r : DetachRecord) : (Record.respond accepts (.detach r)).isSome = true := by
  simp [Record.respond, DetachProjectResponse.fromJson, DetachRecord.toJson, req, field]

omit haccepts in
/-- The record of a reorder converts item by item. -/
theorem reorder_responds (r : ReorderRecord) : Record.respond accepts (.reorder r) = some (.reorder
    ⟨r.initiativeRevision, r.items.map fun item => ⟨item.membershipRevision, item.position, item.projectId⟩⟩) := by
  have hitem : ∀ item : ReorderItemRecord, ReorderProjectsResponseItemsItem.fromJson item.toJson =
      some ⟨item.membershipRevision, item.position, item.projectId⟩ := fun item => by
    simp [ReorderProjectsResponseItemsItem.fromJson, ReorderItemRecord.toJson, req, field]
  simp [Record.respond, ReorderProjectsResponse.fromJson, ReorderRecord.toJson, req, field, decList_ofList hitem]

omit haccepts in
theorem reorder_respond (r : ReorderRecord) : (Record.respond accepts (.reorder r)).isSome = true := by
  rw [reorder_responds]
  rfl

/-- The record of a fresh success converts. -/
theorem Fresh.respond {actor : String} {op : Op} {F F' : Facts} {r : Record} (h : Fresh actor op F r F') :
    (r.respond accepts).isSome = true := by
  cases h with
  | createInitiative _ hc hr => exact initiative_respond haccepts hc hr
  | updateInitiative _ _ hc hr => exact initiative_respond haccepts hc hr
  | addUpdate _ _ _ hu hc hr =>
    subst hu
    exact update_respond haccepts (InitiativeRow.checks_iff.mp hc).2.1 hr
  | archiveInitiative _ _ _ hr => exact archive_respond haccepts hr
  | attachProject _ _ _ _ hp _ _ hr => exact project_respond haccepts hp hr
  | updateProjectSnapshot _ _ _ hp _ hr => exact project_respond haccepts hp hr
  | detachProject => exact detach_respond _
  | reorderProjects => exact reorder_respond _

/-- So does what any call returns after a history, a replay included. -/
theorem respond_of_outcome {cs : List Committed} {T T' : Tables} {c : Call} {r : Record}
    (h : History Tables.empty cs T) (ho : Outcome c T r T') : (r.respond accepts).isSome = true := by
  cases ho with
  | fresh _ hf => exact hf.respond haccepts
  | replay row j hrow _ hj hr =>
    obtain ⟨x, hx, hfresh, -, rfl⟩ := (receipts_of_history h).replayed hrow hj hr
    exact (fresh_of_fresh (outcome_of_mem h hx) hfresh).respond haccepts

end

/-! ### What the storage leaves -/

section
variable {α β : Type} {P : ∀ β, Sql β → Prop}

theorem calls_orRefuse {failure : DomainFailure} {x : Option α} : (orRefuse failure x).Calls P := by
  cases x <;> trivial

theorem calls_fetched {operation : String} {x : Option α} : (fetched operation x).Calls P := by
  cases x <;> trivial

theorem calls_formatted {x : Option α} : (formatted x).Calls P := by
  cases x <;> trivial

theorem silent_select {binds : List String} {answer : Tables → β} : (Sql.select binds answer).Silent := by
  intro t T
  rcases Sql.of_run binds (fun _ => []) (fun _ T => .ok (answer T, [])) t T with ⟨e, he⟩ | ⟨b, ws, -, -, hb, hrun⟩
  · rw [Sql.select, he]
  · obtain ⟨-, rfl⟩ := Prod.mk.inj (Except.ok.inj hb)
    rw [Sql.select, hrun]

theorem silent_readInitiative {o i : String} : (readInitiative o i).Calls fun _ st => st.Silent :=
  Calls.bind (calls_perform.mpr silent_select) fun _ => calls_orRefuse.bind fun _ => calls_formatted

theorem silent_ensureExists {o i : String} : (ensureExists o i).Calls fun _ st => st.Silent := by
  refine Calls.bind (calls_perform.mpr silent_select) fun found => ?_
  cases found <;> trivial

theorem silent_listProjects {o i : String} {after : Option ℤ} {limit : ℤ} :
    (listProjects o i after limit).Calls fun _ st => st.Silent :=
  silent_ensureExists.bind fun _ => Calls.bind (calls_perform.mpr silent_select) fun _ => calls_formatted

/-- A read writes nothing. -/
theorem read_silent {s : Storage α} (h : s.call = none) : s.code.Calls fun _ st => st.Silent := by
  cases s with
  | getInitiative => exact silent_readInitiative
  | listInitiatives => exact Calls.bind (calls_perform.mpr silent_select) fun _ => calls_formatted
  | listUpdates =>
    exact silent_ensureExists.bind fun _ => Calls.bind (calls_perform.mpr silent_select) fun _ => calls_formatted
  | listProjects => exact silent_listProjects
  | readRollup => exact silent_readInitiative.bind fun _ => silent_listProjects.bind fun _ => calls_formatted
  | _ => cases h

/-- A mutation is the call it is of. -/
theorem code_of_call {s : Storage α} {c : Call} {wrap : α → Record} (h : s.call = some (c, wrap)) :
    c.code = s.code >>= fun a => pure (wrap a) := by
  cases s <;> cases h <;> rfl

/-- A mutation that answers is a replay or a fresh success. -/
theorem outcome_of_serve {s : Storage α} {c : Call} {wrap : α → Record} {t : ℕ → Tick} {T : Tables} {a : α}
    (hcall : s.call = some (c, wrap)) (h : (s.serve t T).1 = .ok a) :
    Outcome c T (wrap a) (s.serve t T).2.2 := by
  have hserve : s.serve t T = ((atomic s.code t T).1, (s.code.run t T).2.1, (atomic s.code t T).2) := by
    rw [Storage.serve, hcall]
  rw [hserve] at h ⊢
  obtain ⟨t', hrun⟩ := atomic_ok.mp (Prod.ext h rfl)
  have hcode : c.code.run t T = (.ok (wrap a), t', (atomic s.code t T).2) := by
    rw [code_of_call hcall]
    exact run_bind_ok.mpr ⟨a, _, _, hrun, rfl⟩
  exact Call.outcome hcode

/-- A storage function that fails leaves the tables as they were. -/
theorem serve_error {s : Storage α} {t : ℕ → Tick} {T : Tables} {e : StorageError}
    (h : (s.serve t T).1 = .error e) : (s.serve t T).2.2 = T := by
  cases hcall : s.call with
  | none =>
    rw [Storage.serve, hcall]
    exact (read_silent hcall).run_silent t T
  | some x =>
    rw [Storage.serve, hcall] at h ⊢
    exact atomic_error (Prod.ext h rfl)

end

/-! ### What a handler leaves -/

theorem serve_asks {β : Type} {s : Storage β} {map : DomainFailure → DomainError} {answer : β → Option Response}
    (t : ℕ → Tick) (T : Tables) :
    Handler.serve (stored s map >>= fun a => wireCast (answer a)) t T =
      ((match (s.serve t T).1 with
        | .error e => .error (mapStorage map e)
        | .ok a => match answer a with
          | some response => .ok response
          | none => .error (.runtime (.internal "Project Portfolio wire serialization failed: "))),
        (s.serve t T).2.2) := by
  show Handler.serve (Prog.call s fun r => _) t T = _
  rw [Handler.serve]
  cases (s.serve t T).1 with
  | error e => rfl
  | ok a => cases ha : answer a <;> simp only [Prog.bind, ha] <;> rfl

/-- A mutation runs as one transaction, and answers with what its record converts to. -/
theorem serve_mutation {plugin : ProjectPortfolioPlugin} {context : Context} {q : Request} {c : Call}
    (hc : Handler.mutation (q.handle plugin context) = some c) : ∃ map : DomainFailure → DomainError, ∀ t T,
      Handler.serve (q.handle plugin context) t T = ((match (atomic c.code t T).1 with
        | .error e => .error (mapStorage map e)
        | .ok r => match r.respond plugin.accepts with
          | some response => .ok response
          | none => .error (.runtime (.internal "Project Portfolio wire serialization failed: "))),
        (atomic c.code t T).2) := by
  rcases handle_asks plugin context q with ⟨e, he⟩ | ⟨β, s, map, answer, hfor, he⟩
  · rw [he] at hc
    cases hc
  · rw [he] at hc
    obtain ⟨⟨c', wrap⟩, hcall, rfl⟩ := Option.map_eq_some_iff.mp hc
    refine ⟨map, fun t T => ?_⟩
    have hserve : s.serve t T = ((atomic s.code t T).1, (s.code.run t T).2.1, (atomic s.code t T).2) := by
      rw [Storage.serve, hcall]
    rw [he, serve_asks, hserve, code_of_call hcall]
    unfold atomic
    rw [run_bind]
    rcases hrun : s.code.run t T with ⟨e | a, t', T'⟩
    · rfl
    · simp only [hfor.respond _ _ hcall a]
      rfl

/-- **A failed call leaves no trace.** A handler that answers with an error, wherever a statement is
lost, leaves every table as it was. In particular the record of a mutation always converts: of one
made now, in any reachable state, and of every one committed so far. And of concurrent attempts those
that fail or are dropped are none of those that have changed the tables. -/
theorem failed_call_leaves_no_trace {ok : Call → Prop} {w : Sequences} {S : System} {plugin : ProjectPortfolioPlugin}
    (haccepts : ∀ v text, formatTimestamp v = some text → plugin.accepts text = true)
    (h : Txn.Steps Call.code ok (System.initial w) S) :
    (∀ (context : Context) (q : Request) (t : ℕ → Tick) (e : PluginError DomainError) (T : Tables),
      Handler.serve (q.handle plugin context) t S.db = (.error e, T) → T = S.db) ∧
    (∀ (c : Call) (t : ℕ → Tick) (r : Record) (T : Tables), atomic c.code t S.db = (.ok r, T) →
      (r.respond plugin.accepts).isSome = true) ∧
    (∀ x ∈ S.commits, (x.result.respond plugin.accepts).isSome = true) ∧
    (∀ i c, (∃ e, S.threads i = .failed c e) ∨ S.threads i = .dropped c → ∀ x ∈ S.commits, x.thread ≠ i) := by
  have hinv := reachable_inv h
  refine ⟨fun context q t e T hserve => ?_, fun c t r T hatomic => ?_, fun x hx => ?_, fun i c hi x hx he => ?_⟩
  · rcases handle_asks plugin context q with ⟨e', he'⟩ | ⟨β, s, map, answer, hfor, he'⟩
    · rw [he'] at hserve
      exact (Prod.mk.inj hserve).2.symm
    · rw [he', serve_asks] at hserve
      obtain ⟨hanswer, rfl⟩ := Prod.mk.inj hserve
      cases hs : (s.serve t S.db).1 with
      | error e₁ => exact serve_error hs
      | ok a =>
        cases hcall : s.call with
        | none =>
          rw [Storage.serve, hcall]
          exact (read_silent hcall).run_silent t S.db
        | some x =>
          -- the record converts, so the handler has not answered with an error
          have hsome := respond_of_outcome haccepts hinv.chain (outcome_of_serve hcall hs)
          obtain ⟨response, hresponse⟩ := Option.isSome_iff_exists.mp hsome
          simp only [hs, hfor.respond _ _ hcall, hresponse, reduceCtorEq] at hanswer
  · obtain ⟨t', hrun⟩ := atomic_ok.mp hatomic
    exact respond_of_outcome haccepts hinv.chain (Call.outcome hrun)
  · obtain ⟨cs, ds, hcs⟩ := List.append_of_mem hx
    have hchain := hinv.chain
    rw [hcs] at hchain
    exact respond_of_outcome haccepts (hchain.around Call.code).1 (outcome_of_mem hinv.chain hx)
  · have hcommitted := (hinv.committed i x.call x.result).mpr ⟨x, hx, he, rfl, rfl⟩
    rcases hi with ⟨e, hi⟩ | hi <;> rw [hi] at hcommitted <;> cases hcommitted

/-- The server is lost at the seventh statement. -/
def sampleLost : ℕ → Tick := fun n => { (default : Tick) with fault := n = 6 }

/-- An attach that loses the server after its INSERT of the project leaves the one that was there. -/
theorem failed_call_leaves_no_trace_lost : ∃ (S : System) (T : Tables),
    Handler.serve (sampleAppRequest.handle samplePlugin sampleContext) sampleLost S.db =
      (.error (.runtime (.pluginFailure "database failure during bump initiative revision: ")), T) ∧
    T = S.db ∧ S.db.projects.length = 1 := by
  have hrun : ((System.initial ⟨0, 0⟩).schedule Call.code 2 sampleMembership).bind (fun S =>
      (S.schedule Call.code 2 []).map fun S' =>
        ((Handler.serve (sampleAppRequest.handle samplePlugin sampleContext) sampleLost S'.db).1,
          S'.db.projects.length)) =
      some (.error (.runtime (.pluginFailure "database failure during bump initiative revision: ")), 1) := by
    decide +kernel
  obtain ⟨S, S', h, h', hfacts⟩ := @System.scheduled (Admitted samplePlugin) _ _ _ _ _ _ _ hrun (by decide +kernel)
    (Txn.starts_append admitted_sampleMembership_self Txn.starts_nil)
  obtain ⟨herror, hcount⟩ := Prod.mk.inj hfacts
  refine ⟨S', (Handler.serve (sampleAppRequest.handle samplePlugin sampleContext) sampleLost S'.db).2,
    Prod.ext herror rfl, ?_, hcount⟩
  exact (failed_call_leaves_no_trace (fun _ _ _ => rfl) (h.trans h')).1 sampleContext _ _ _ _ (Prod.ext herror rfl)

end Portfolio
