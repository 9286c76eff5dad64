/-
# Tenants

An operation reads and writes the rows of its own organization and the
receipts of its caller and actor, so on two states that agree on these
(`SameFor`) it does the same, whatever the other organizations hold
(`serve_same`). A receipt is found without the organization, but its hash is
that of the request it was stored for, which names one: where the digests of
two requests differ, a replay is of a record written for the organization that
asks.

Key definitions: `Facts.of`, `SameFor`.
Key theorems: `SameFor.apply`, `storage_alike`, `serve_same`,
`tenant_isolation`.
-/
import Portfolio.Statements

namespace Portfolio

open Txn Txn.Prog

/-- The rows of an organization. -/
def Facts.of (F : Facts) (o : String) : Facts where
  initiatives := F.initiatives.filter fun r => r.organizationId = o
  projects := F.projects.filter fun r => r.organizationId = o
  updates := F.updates.filter fun r => r.organizationId = o

@[simp] theorem Facts.of_of (F : Facts) (o : String) : (F.of o).of o = F.of o := by
  simp only [Facts.of, List.filter_filter, Bool.and_self]

/-- The receipts whose key satisfies `mine`. -/
def Tables.receipts (T : Tables) (mine : CommandKey → Bool) : List CommandRow := T.commands.filter fun r => mine r.key

/-- The receipts of a caller and an actor. -/
def CommandKey.by (caller actor : String) (k : CommandKey) : Bool :=
  decide (k.callerInstance = caller ∧ k.actorSubject = actor)

/-- The states agree on the rows of an organization and on some receipts. -/
structure SameFor (o : String) (mine : CommandKey → Bool) (T T' : Tables) : Prop where
  facts : T'.toFacts.of o = T.toFacts.of o
  receipts : T'.receipts mine = T.receipts mine

/-! ### What they agree on -/

theorem filter_of_filter {α : Type*} {p q : α → Bool} {l l' : List α} (hq : ∀ a, q a = true → p a = true)
    (h : l'.filter p = l.filter p) : l'.filter q = l.filter q := by
  have hsub : ∀ l : List α, (l.filter p).filter q = l.filter q := by
    intro l
    rw [List.filter_filter]
    refine List.filter_congr fun a _ => ?_
    cases hqa : q a with
    | false => rfl
    | true => rw [hq a hqa]; rfl
  rw [← hsub l', h, hsub l]

namespace SameFor
variable {o : String} {mine : CommandKey → Bool} {T T' : Tables}

theorem initiatives_filter (h : SameFor o mine T T') {q : InitiativeRow → Bool}
    (hq : ∀ r, q r = true → r.organizationId = o) : T'.initiatives.filter q = T.initiatives.filter q :=
  filter_of_filter (fun r hr => decide_eq_true (hq r hr)) (congrArg Facts.initiatives h.facts)

theorem initiative (h : SameFor o mine T T') (i : String) : T'.initiative o i = T.initiative o i :=
  congrArg List.head? (h.initiatives_filter fun _ hr => (of_decide_eq_true hr).1)

theorem projectsOf (h : SameFor o mine T T') (i : String) : T'.projectsOf o i = T.projectsOf o i :=
  filter_of_filter (fun _ hr => decide_eq_true (of_decide_eq_true hr).1) (congrArg Facts.projects h.facts)

theorem project (h : SameFor o mine T T') (i p : String) : T'.project o i p = T.project o i p := by
  rw [Facts.project, Facts.project, h.projectsOf]

theorem updatesOf (h : SameFor o mine T T') (i : String) : T'.updatesOf o i = T.updatesOf o i :=
  filter_of_filter (fun _ hr => decide_eq_true (of_decide_eq_true hr).1) (congrArg Facts.updates h.facts)

theorem update (h : SameFor o mine T T') (u : String) : T'.update o u = T.update o u :=
  congrArg List.head? (filter_of_filter (fun _ hr => decide_eq_true (of_decide_eq_true hr).1)
    (congrArg Facts.updates h.facts))

theorem command (h : SameFor o mine T T') {k : CommandKey} (hk : mine k = true) : T'.command k = T.command k :=
  congrArg List.head? (filter_of_filter (fun r hr => by rw [of_decide_eq_true hr, hk]) h.receipts)

/-- A write keeps the agreement. -/
theorem apply (h : SameFor o mine T T') (w : Write) : SameFor o mine (w.apply T) (w.apply T') := by
  obtain ⟨hfacts, hreceipts⟩ := h
  simp only [Facts.of, Facts.mk.injEq] at hfacts
  obtain ⟨h1, h2, h3⟩ := hfacts
  have hi : Table.Respects InitiativeRow.key fun r => decide (r.organizationId = o) := fun _ _ hk =>
    congrArg (fun k : String × String => decide (k.1 = o)) hk
  have hp : Table.Respects ProjectRow.key fun r => decide (r.organizationId = o) := fun _ _ hk =>
    congrArg (fun k : String × String × String => decide (k.1 = o)) hk
  have hc : Table.Respects CommandRow.key fun r => mine r.key := fun _ _ hk => congrArg mine hk
  simp only [Tables.receipts] at hreceipts
  constructor
  · cases w <;> simp only [Write.apply, Facts.of, List.filter_append, Table.filter_put hi, Table.filter_put hp,
      Table.filter_erase, h1, h2, h3]
  · cases w <;> simp only [Write.apply, Tables.receipts, List.filter_append, Table.filter_put hc, hreceipts]

end SameFor

/-! ### The statements -/

section
variable {o actor : String} {mine : CommandKey → Bool} {β : Type}

theorem alike_of {binds : List String} {locks : Tables → List Lock}
    {body : Tick → Tables → Except DbError (β × List Write)}
    (h : ∀ t T T', SameFor o mine T T' → body t T' = body t T) :
    Stmt.Alike (SameFor o mine) (Sql.of binds locks body) := fun t T T' hs => Sql.of_run_congr (h t T T' hs)

theorem alike_select {binds : List String} {answer : Tables → β}
    (h : ∀ T T', SameFor o mine T T' → answer T' = answer T) :
    Stmt.Alike (SameFor o mine) (Sql.select binds answer) :=
  alike_of fun _ T T' hs => by rw [h T T' hs]

theorem alike_setInitiative {binds : List String} {i : String} {fit : Bool}
    {f : Tick → InitiativeRow → InitiativeRow} :
    Stmt.Alike (SameFor o mine) (Sql.setInitiative binds o i fit f) :=
  alike_of fun t T T' hs => by rw [hs.initiative]

theorem alike_selectInitiative {i : String} : Stmt.Alike (SameFor o mine) (Sql.selectInitiative o i) := by
  refine alike_select fun T T' hs => ?_
  rw [hs.initiative]
  cases hrow : T.initiative o i with
  | none => rfl
  | some row =>
    obtain ⟨-, ho, -⟩ := initiative_mem hrow
    simp only [Option.map_some, ho, hs.projectsOf]

theorem alike_listInitiatives {includeArchived : Bool} {after limit : ℤ} :
    Stmt.Alike (SameFor o mine) (Sql.listInitiatives o includeArchived after limit) := by
  refine alike_select fun T T' hs => ?_
  rw [hs.initiatives_filter fun r hr => by
    simp only [Bool.and_eq_true, decide_eq_true_eq] at hr
    exact hr.1.1]
  refine List.map_congr_left fun row hrow => ?_
  have hmem := List.mem_filter.mp ((List.mem_insertionSort _).mp (List.mem_of_mem_take hrow))
  have ho : row.organizationId = o := by
    simp only [Bool.and_eq_true, decide_eq_true_eq] at hmem
    exact hmem.2.1.1
  rw [ho, hs.projectsOf]

/-- A statement for the organization and the receipts does not tell such states apart. -/
theorem Sql.For.alike {st : Sql β} (h : Sql.For o mine actor st) : Stmt.Alike (SameFor o mine) st := by
  cases h with
  | selectCommand hk => exact alike_of fun t T T' hs => by rw [hs.command hk]
  | insertCommand hash hk => exact alike_of fun t T T' hs => by rw [hs.command hk]
  | updateCommand response hk => exact alike_of fun t T T' hs => by rw [hs.command hk]
  | nextInitiativeSeq => exact fun _ _ _ _ => rfl
  | insertInitiative rowSeq hv =>
    subst hv
    exact alike_of fun t T T' hs => by rw [hs.initiative]
  | updateInitiative | advanceInitiative | archiveInitiative | bumpInitiative => exact alike_setInitiative
  | selectInitiativeForUpdate => exact alike_of fun t T T' hs => by rw [hs.initiative]
  | selectInitiative => exact alike_selectInitiative
  | listInitiatives => exact alike_listInitiatives
  | existsInitiative => exact alike_select fun T T' hs => by rw [hs.initiative]
  | nextUpdateSeq => exact fun _ _ _ _ => rfl
  | insertUpdate rowSeq hv =>
    subst hv
    exact alike_of fun t T T' hs => by rw [hs.update, hs.initiative]
  | selectUpdate u => exact alike_select fun T T' hs => hs.update u
  | listUpdates => exact alike_select fun T T' hs => by rw [hs.updatesOf]
  | insertProject => exact alike_of fun t T T' hs => by rw [hs.project, hs.projectsOf, hs.initiative]
  | selectPosition => exact alike_select fun T T' hs => by rw [hs.project]
  | countProjects => exact alike_select fun T T' hs => by rw [hs.projectsOf]
  | selectProject i p => exact alike_select fun T T' hs => hs.project i p
  | existsProject => exact alike_select fun T T' hs => by rw [hs.project]
  | listProjects => exact alike_select fun T T' hs => by rw [hs.projectsOf]
  | selectProjectForUpdate => exact alike_of fun t T T' hs => by rw [hs.project]
  | updateSnapshot => exact alike_of fun t T T' hs => by rw [hs.project]
  | deleteProject => exact alike_of fun t T T' hs => by rw [hs.project]
  | selectOrderForUpdate => exact alike_of fun t T T' hs => by rw [hs.projectsOf]
  | stageOrder => exact alike_of fun t T T' hs => by rw [hs.projectsOf]
  | writePosition => exact alike_of fun t T T' hs => by rw [hs.project, hs.projectsOf]

/-- What the statements of a storage function for one organization are like. -/
abbrev Tx.Alike {α : Type} (o : String) (mine : CommandKey → Bool) (p : Tx α) : Prop :=
  p.Calls fun _ st => st.Alike (SameFor o mine)

/-- A storage function reads the rows of its organization and the receipt of its command. -/
theorem storage_alike {α : Type} {s : Storage α} (ho : s.organizationId = o)
    (hk : ∀ c wrap, s.call = some (c, wrap) → mine c.key = true) : s.code.Alike o mine := by
  cases hcall : s.call with
  | none =>
    refine (@storage_statements o "" mine _ s ho fun c wrap hc => ?_).mono fun _ _ h => h.alike
    rw [hcall] at hc
    cases hc
  | some x =>
    refine (@storage_statements o x.1.command.actor mine _ s ho fun c wrap hc => ?_).mono fun _ _ h => h.alike
    have hx : x = (c, wrap) := Option.some.inj (hcall.symm.trans hc)
    exact ⟨hk c wrap hc, by rw [hx]⟩

end

/-! ### The handlers -/

section
variable {o : String} {mine : CommandKey → Bool} {T T' : Tables}

/-- On states that agree for its organization a storage function does the same. -/
theorem storage_same {α : Type} {s : Storage α} (hs : s.code.Alike o mine) (h : SameFor o mine T T') (t : ℕ → Tick) :
    (s.serve t T').1 = (s.serve t T).1 ∧ SameFor o mine (s.serve t T).2.2 (s.serve t T').2.2 := by
  obtain ⟨hresult, -, hstate⟩ := hs.run_congr (fun w _ _ hR => hR.apply w) t h
  unfold Storage.serve
  cases s.call with
  | none => exact ⟨hresult, hstate⟩
  | some x =>
    simp only [atomic]
    cases hrun : s.code.run t T with
    | mk r rest =>
      cases hrun' : s.code.run t T' with
      | mk r' rest' =>
        rw [hrun, hrun'] at hresult hstate
        simp only at hresult hstate
        subst hresult
        cases r' with
        | ok a => exact ⟨rfl, hstate⟩
        | error e => exact ⟨rfl, h⟩

/-- On states that agree for its organization and its caller and actor a handler does the same. -/
theorem serve_same {plugin : ProjectPortfolioPlugin} {context : Context} {q : Request} (t : ℕ → Tick)
    (hfacts : T'.toFacts.of q.organizationId = T.toFacts.of q.organizationId)
    (hreceipts : ∀ auth, q.authorize plugin context = .ok auth →
      T'.receipts (CommandKey.by auth.caller auth.actor) = T.receipts (CommandKey.by auth.caller auth.actor)) :
    (Handler.serve (q.handle plugin context) t T').1 = (Handler.serve (q.handle plugin context) t T).1 ∧
      (Handler.serve (q.handle plugin context) t T').2.toFacts.of q.organizationId =
        (Handler.serve (q.handle plugin context) t T).2.toFacts.of q.organizationId := by
  rcases handle_asks plugin context q with ⟨e, he⟩ | ⟨β, s, map, answer, hfor, he⟩
  · rw [he]
    exact ⟨rfl, hfacts⟩
  · have hsame : ∃ mine, s.code.Alike q.organizationId mine ∧ SameFor q.organizationId mine T T' := by
      cases hcall : s.call with
      | none =>
        refine ⟨fun _ => false, storage_alike hfor.organization fun c wrap hc => ?_, hfacts, ?_⟩
        · rw [hcall] at hc
          cases hc
        · simp only [Tables.receipts, List.filter_false]
      | some x =>
        have hissued := hfor.issued x.1 x.2 hcall
        refine ⟨_, storage_alike hfor.organization fun c wrap hc => ?_, hfacts, hreceipts _ hissued.authorized⟩
        rw [hcall] at hc
        obtain rfl := Option.some.inj hc
        exact decide_eq_true ⟨rfl, rfl⟩
    obtain ⟨mine, halike, hagree⟩ := hsame
    obtain ⟨hresult, hstate⟩ := storage_same halike hagree t
    rw [he, serve_asks, serve_asks, hresult]
    exact ⟨rfl, hstate.facts⟩

/-- A handler leaves every row of the other organizations as it was. -/
theorem serve_elsewhere {plugin : ProjectPortfolioPlugin} {context : Context} {q : Request} (t : ℕ → Tick) {i : String}
    (ho : o ≠ q.organizationId) :
    (Handler.serve (q.handle plugin context) t T).2.toFacts.about o i = T.toFacts.about o i := by
  rcases handle_asks plugin context q with ⟨e, he⟩ | ⟨β, s, map, answer, hfor, he⟩
  · rw [he]
    rfl
  · rw [he, serve_asks]
    cases hs : (s.serve t T).1 with
    | error e => rw [serve_error hs]
    | ok a =>
      cases hcall : s.call with
      | none =>
        rw [Storage.serve, hcall]
        exact congrArg (fun T : Tables => T.toFacts.about o i) ((read_silent hcall).run_silent t T)
      | some x =>
        have houtcome := outcome_of_serve hcall hs
        cases houtcome with
        | replay _ _ _ _ _ _ hT => rw [hT]
        | fresh _ hf =>
          refine hf.elsewhere fun hon => ho ?_
          rw [← hon.1, (hfor.issued x.1 x.2 hcall).organization]

end

/-- The digest of `j` is that of no other request of a commit. -/
def Unmatched (plugin : ProjectPortfolioPlugin) (cs : List Committed) (j : Json) : Prop :=
  ∀ x ∈ cs, ∀ context q j', Issued plugin context q x.call → q.json = some j' →
    plugin.digest j' = plugin.digest j → j' = j

/-- **A replay stays in its organization**: the record it returns was written for the organization that asks. -/
theorem replay_own {plugin : ProjectPortfolioPlugin} {cs : List Committed} {T T' : Tables} {context : Context}
    {q : Request} {c : Call} {j : Json} {r : Record} (h : History Tables.empty cs T)
    (hadmitted : ∀ x ∈ cs, Admitted plugin x.call) (hissued : Issued plugin context q c) (hj : q.json = some j)
    (hdigest : Unmatched plugin cs j) (hstored : T.command c.key ≠ none) (ho : Outcome c T r T') :
    ∃ x ∈ cs, x.Fresh ∧ x.call.op.organizationId = q.organizationId ∧ x.result = r := by
  cases ho with
  | fresh hnone => exact (hstored hnone).elim
  | replay row stored hrow hh hstored hr =>
    obtain ⟨x, hx, hfresh, hhash, hresult⟩ := (receipts_of_history h).replayed hrow hstored hr
    obtain ⟨context', q', hissued'⟩ := admitted_issued (hadmitted x hx)
    refine ⟨x, hx, hfresh, ?_, hresult⟩
    -- the two requests have one digest, so one JSON, which names the organization
    obtain ⟨j', hj', hdigest'⟩ := hissued'.hash
    obtain ⟨j₁, hj₁, hdigest₁⟩ := hissued.hash
    rw [hj] at hj₁
    obtain rfl := Option.some.inj hj₁
    have hsame : plugin.digest j' = plugin.digest j := by
      rw [← hdigest', hhash, hh, hdigest₁]
    obtain rfl := hdigest x hx context' q' j' hissued' hj' hsame
    have hfield := Request.json_organizationId hj'
    rw [Request.json_organizationId hj] at hfield
    have horganization : q.organizationId = q'.organizationId := by simpa using hfield
    rw [hissued'.organization, horganization]

/-- **Tenant isolation.** An operation called for an organization leaves every row of the others as it
was. On any other state with the same rows of the organization and the same receipts of the caller and
actor, whatever else it holds, it returns the same result and leaves the same rows of the organization.
And where its receipt is stored, what it returns is a record written for the organization, if the
digest of the request is that of no other request that has committed. -/
theorem tenant_isolation {plugin : ProjectPortfolioPlugin} {w : Sequences} {S : System}
    (h : Txn.Steps Call.code (Admitted plugin) (System.initial w) S) (context : Context) (q : Request) (t : ℕ → Tick) :
    (∀ o i, o ≠ q.organizationId →
      (Handler.serve (q.handle plugin context) t S.db).2.toFacts.about o i = S.db.toFacts.about o i) ∧
    (∀ T' : Tables, T'.toFacts.of q.organizationId = S.db.toFacts.of q.organizationId →
      (∀ auth, q.authorize plugin context = .ok auth →
        T'.receipts (CommandKey.by auth.caller auth.actor) = S.db.receipts (CommandKey.by auth.caller auth.actor)) →
      (Handler.serve (q.handle plugin context) t T').1 = (Handler.serve (q.handle plugin context) t S.db).1 ∧
        (Handler.serve (q.handle plugin context) t T').2.toFacts.of q.organizationId =
          (Handler.serve (q.handle plugin context) t S.db).2.toFacts.of q.organizationId) ∧
    (∀ (c : Call) (j : Json) (response : Response) (T : Tables),
      Handler.mutation (q.handle plugin context) = some c → q.json = some j → Unmatched plugin S.commits j →
      S.db.command c.key ≠ none → Handler.serve (q.handle plugin context) t S.db = (.ok response, T) →
      ∃ x ∈ S.commits, Committed.Fresh x ∧ x.call.op.organizationId = q.organizationId ∧
        x.result.respond plugin.accepts = some response) := by
  have hinv := reachable_inv h
  refine ⟨fun o i ho => serve_elsewhere t ho, fun T' hfacts hreceipts => serve_same t hfacts hreceipts, ?_⟩
  intro c j response T hc hj hdigest hstored hserve
  rcases handle_asks plugin context q with ⟨e, he⟩ | ⟨β, s, map, answer, hfor, he⟩
  · rw [he] at hc
    cases hc
  · rw [he] at hc hserve
    obtain ⟨⟨c', wrap⟩, hcall, rfl⟩ := Option.map_eq_some_iff.mp hc
    rw [serve_asks] at hserve
    obtain ⟨hanswer, -⟩ := Prod.mk.inj hserve
    cases hs : (s.serve t S.db).1 with
    | error e => simp only [hs, reduceCtorEq] at hanswer
    | ok a =>
      obtain ⟨x, hx, hfresh, horganization, hresult⟩ := replay_own hinv.chain hinv.admitted
        (hfor.issued c' wrap hcall) hj hdigest hstored (outcome_of_serve hcall hs)
      refine ⟨x, hx, hfresh, horganization, ?_⟩
      rw [hresult, ← hfor.respond c' wrap hcall a]
      cases ha : answer a with
      | none => simp only [hs, ha, reduceCtorEq] at hanswer
      | some response' =>
        simp only [hs, ha, Except.ok.injEq] at hanswer
        rw [hanswer]

/-- No other JSON has the digest of the create. -/
theorem digest_sampleCreate {j j' : Json} (hj : sampleCreateRequest.json = some j)
    (h : samplePlugin.digest j' = samplePlugin.digest j) : j' = j := by
  obtain rfl := Option.some.inj hj
  have honly : ∀ d ∈ sampleDigests, d.2 = samplePlugin.digest (sampleCreateRequest.json.getD .null) →
      d.1.json = sampleCreateRequest.json := by decide +kernel
  have hlookup : samplePlugin.digest j' = ((sampleDigests.find? fun d => d.1.json = some j').map (·.2)).getD [] := rfl
  rw [hlookup] at h
  cases hfind : sampleDigests.find? fun d => d.1.json = some j' with
  | none =>
    rw [hfind] at h
    exact absurd h (by decide +kernel)
  | some d =>
    rw [hfind] at h
    have hjson : d.1.json = some j' := by simpa using List.find?_some hfind
    exact Option.some.inj (hjson.symm.trans (honly d (List.mem_of_find?_eq_some hfind) h))

/-- A call of another actor. -/
def sampleOtherContext : Context := { sampleContext with actor := fun _ _ => some "bob" }

/-- Two organizations create an initiative with one id and one idempotency key. -/
def sampleTenants : List (ℕ × Txn.Move Tick Call) :=
  Txn.attempt 0 (sampleMutation sampleCreateRequest) (sampleTicks 1 6) ++
    Txn.attempt 1
      ((Handler.mutation (sampleOtherRequest.handle samplePlugin sampleOtherContext)).getD (sampleCreate ""))
      (sampleTicks 2 6)

theorem admitted_sampleTenants : ∀ x ∈ sampleTenants, ∀ c, x.2 = .start c → Admitted samplePlugin c :=
  Txn.starts_append (Txn.starts_attempt (admitted_sample (by decide +kernel)))
    (Txn.starts_attempt ⟨sampleOtherContext, sampleOtherRequest, by decide +kernel⟩)

/-- The create again, where the other organization is there and where it is not. -/
theorem tenant_isolation_replayed : ∃ (S : System) (T' : Tables) (response : Response),
    S.db.initiatives.map (fun r => (r.organizationId, r.initiativeId)) = [("acme", "alpha"), ("globex", "alpha")] ∧
    T'.initiatives.map (·.organizationId) = ["acme"] ∧
    (Handler.serve (sampleCreateRequest.handle samplePlugin sampleContext) default S.db).1 = .ok response ∧
    (Handler.serve (sampleCreateRequest.handle samplePlugin sampleContext) default T').1 = .ok response ∧
    (Handler.serve (sampleCreateRequest.handle samplePlugin sampleContext) default S.db).2.toFacts.about "globex"
      "alpha" = S.db.toFacts.about "globex" "alpha" ∧
    ∃ x ∈ S.commits, Committed.Fresh x ∧ x.call.op.organizationId = "acme" ∧
      x.result.respond samplePlugin.accepts = some response := by
  have hrun : ((System.initial ⟨0, 0⟩).schedule Call.code 2 sampleTenants).bind (fun S =>
      (S.schedule Call.code 2 []).map fun S' =>
        (S'.db.initiatives.map fun r => (r.organizationId, r.initiativeId),
          (S'.db.command (sampleMutation sampleCreateRequest).key).isSome,
          (Handler.serve (sampleCreateRequest.handle samplePlugin sampleContext) default S'.db).1.toOption.isSome,
          (S'.db.toFacts.of "acme").initiatives.map (·.organizationId))) =
      some ([("acme", "alpha"), ("globex", "alpha")], true, true, ["acme"]) := by
    decide +kernel
  obtain ⟨S, S', h, h', hfacts⟩ := @System.scheduled (Admitted samplePlugin) _ _ _ _ _ _ _ hrun (by decide +kernel)
    (Txn.starts_append admitted_sampleTenants Txn.starts_nil)
  simp only [Prod.mk.injEq] at hfacts
  obtain ⟨hrows, hstored, hanswer, hown⟩ := hfacts
  obtain ⟨hothers, hsame, hreplay⟩ := tenant_isolation (h.trans h') sampleContext sampleCreateRequest default
  obtain ⟨response, hresponse⟩ : ∃ response,
      (Handler.serve (sampleCreateRequest.handle samplePlugin sampleContext) default S'.db).1 = .ok response := by
    cases hr : (Handler.serve (sampleCreateRequest.handle samplePlugin sampleContext) default S'.db).1 with
    | error e => rw [hr] at hanswer; cases hanswer
    | ok response => exact ⟨response, rfl⟩
  -- the state without what is not the organization's
  refine ⟨S', { S'.db.toFacts.of "acme" with commands := S'.db.receipts (CommandKey.by "planner" "ann") }, response,
    hrows, hown, hresponse, ?_, hothers "globex" "alpha" (by decide), ?_⟩
  · rw [← hresponse]
    refine (hsame _ ?_ ?_).1
    · exact Facts.of_of _ _
    · intro auth hauth
      obtain rfl := Except.ok.inj hauth
      simp only [Tables.receipts, List.filter_filter, Bool.and_self]
  · refine hreplay _ _ response _ (by rfl) rfl (fun x _ context q j' _ _ hj' => digest_sampleCreate rfl hj') ?_
      (Prod.ext hresponse rfl)
    exact Option.isSome_iff_ne_none.mp hstored

end Portfolio
