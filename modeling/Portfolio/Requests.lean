/-
# What a handler issues

Each mutating handler turns a request that has passed its checks into one call
of the storage layer: the values of the request, its dates and its timestamp
parsed, under the hash of its JSON. `Request.Sends` has one case for each; what
is known of an issued call is read off it: no text of it holds a NUL, and its
values are ones the columns of the schema take, but for the range of a date
(`Op.Valid`).

Key definitions: `validCallers`, `Configured`, `Request.Sends`, `Op.texts`,
`Op.Valid`, `Op.observedAt`.
Key theorems: `sends_of_mutation`, `Sends.texts`, `Sends.valid`,
`observedAt_of_mutation`.
-/
import Portfolio.Authorization

namespace Portfolio

open Txn Txn.Prog

/-! ### The configuration -/

def maxCallers : ℕ := 64

def validCallers (values : List String) : Bool :=
  !values.isEmpty && decide (values.length ≤ maxCallers) && values.all validId &&
    decide (values.dedup.length = values.length)

/-- The callers of the configuration have passed its checks. -/
structure ProjectPortfolioPlugin.Configured (plugin : ProjectPortfolioPlugin) : Prop where
  portfolioCallers : validCallers plugin.portfolioCallers = true
  adminCallers : validCallers plugin.adminCallers = true

/-! ### What is issued -/

/-- The handler of the request, its checks passed, issues the call. -/
inductive Request.Sends (plugin : ProjectPortfolioPlugin) (context : Context) : Request → Call → Prop
  | createInitiative {r : CreateInitiativeRequest} {auth : Authorized} {dates : Option Date × Option Date}
      (hauth : (Request.createInitiative r).authorize plugin context = .ok auth)
      (hdates : parseDateWindow r.targetStart r.targetDate = some dates)
      (hvalid : (validIdempotencyKey r.idempotencyKey && validOpaqueId r.initiativeId && validText r.name 240 &&
        validOptionalText r.summary maxTextBytes && r.ownerSubject.all validOpaqueId) = true) :
      Sends plugin context (.createInitiative r)
        ⟨auth.command r.idempotencyKey (plugin.digest r.toJson),
          .createInitiative ⟨r.organizationId, r.initiativeId, r.name, r.summary, r.ownerSubject, dates.1, dates.2⟩⟩
  | updateInitiative {r : UpdateInitiativeRequest} {auth : Authorized} {expected : ℤ}
      {dates : Option Date × Option Date} (hauth : (Request.updateInitiative r).authorize plugin context = .ok auth)
      (hexpected : parseRevision r.expectedRevision = some expected)
      (hdates : parseDateWindow r.targetStart r.targetDate = some dates)
      (hvalid : (validIdempotencyKey r.idempotencyKey && validOpaqueId r.initiativeId &&
        r.name.all (fun value => validText value 240) && validOptionalText r.summary maxTextBytes &&
        r.ownerSubject.all validOpaqueId) = true) :
      Sends plugin context (.updateInitiative r)
        ⟨auth.command r.idempotencyKey (plugin.digest r.toJson), .updateInitiative r.organizationId r.initiativeId
          expected ⟨r.name, r.summary, r.ownerSubject, dates.1, dates.2⟩⟩
  | addInitiativeUpdate {r : AddInitiativeUpdateRequest} {auth : Authorized} {expected : ℤ}
      (hauth : (Request.addInitiativeUpdate r).authorize plugin context = .ok auth)
      (hexpected : parseRevision r.expectedRevision = some expected)
      (hvalid : (validIdempotencyKey r.idempotencyKey && validOpaqueId r.initiativeId && validOpaqueId r.updateId &&
        validText r.summary maxTextBytes && decide (0 ≤ r.progress ∧ r.progress ≤ 100)) = true) :
      Sends plugin context (.addInitiativeUpdate r)
        ⟨auth.command r.idempotencyKey (plugin.digest r.toJson), .addUpdate r.organizationId r.initiativeId r.updateId
          expected r.health.text r.summary r.progress⟩
  | archiveInitiative {r : ArchiveInitiativeRequest} {auth : Authorized} {expected : ℤ}
      (hauth : (Request.archiveInitiative r).authorize plugin context = .ok auth)
      (hexpected : validAdminMutation r.idempotencyKey r.initiativeId r.expectedRevision = some expected) :
      Sends plugin context (.archiveInitiative r)
        ⟨auth.command r.idempotencyKey (plugin.digest r.toJson),
          .archiveInitiative r.organizationId r.initiativeId expected⟩
  | attachProject {r : AttachProjectRequest} {auth : Authorized} {expected : ℤ} {snapshot : ProjectSnapshot}
      (hauth : (Request.attachProject r).authorize plugin context = .ok auth)
      (hexpected : validAdminMutation r.idempotencyKey r.initiativeId r.expectedInitiativeRevision = some expected)
      (hsnapshot : plugin.parseSnapshot r.projectId r.nameSnapshot r.statusCategory r.health r.progress r.targetStart
        r.targetDate r.snapshotRevision r.observedAt = some snapshot)
      (hvalid : 0 ≤ r.position ∧ r.position ≤ 10000) :
      Sends plugin context (.attachProject r)
        ⟨auth.command r.idempotencyKey (plugin.digest r.toJson),
          .attachProject r.organizationId r.initiativeId expected snapshot r.position⟩
  | updateProjectSnapshot {r : UpdateProjectSnapshotRequest} {auth : Authorized} {expected : ℤ}
      {snapshot : ProjectSnapshot} (hauth : (Request.updateProjectSnapshot r).authorize plugin context = .ok auth)
      (hexpected : validAdminMutation r.idempotencyKey r.initiativeId r.expectedMembershipRevision = some expected)
      (hsnapshot : plugin.parseSnapshot r.projectId r.nameSnapshot r.statusCategory r.health r.progress r.targetStart
        r.targetDate r.snapshotRevision r.observedAt = some snapshot) :
      Sends plugin context (.updateProjectSnapshot r)
        ⟨auth.command r.idempotencyKey (plugin.digest r.toJson),
          .updateProjectSnapshot r.organizationId r.initiativeId expected snapshot⟩
  | detachProject {r : DetachProjectRequest} {auth : Authorized} {expected membership : ℤ}
      (hauth : (Request.detachProject r).authorize plugin context = .ok auth)
      (hexpected : validAdminMutation r.idempotencyKey r.initiativeId r.expectedInitiativeRevision = some expected)
      (hmembership : ((parseRevision r.expectedMembershipRevision).filter fun _ => validOpaqueId r.projectId) =
        some membership) :
      Sends plugin context (.detachProject r)
        ⟨auth.command r.idempotencyKey (plugin.digest r.toJson),
          .detachProject r.organizationId r.initiativeId r.projectId expected membership⟩
  | reorderProjects {r : ReorderProjectsRequest} {auth : Authorized} {expected : ℤ} {items : List ReorderInput}
      (hauth : (Request.reorderProjects r).authorize plugin context = .ok auth)
      (hexpected : validAdminMutation r.idempotencyKey r.initiativeId r.expectedInitiativeRevision = some expected)
      (hitems : r.items.mapM ProjectPortfolioPlugin.reorderInput = some items) :
      Sends plugin context (.reorderProjects r)
        ⟨auth.command r.idempotencyKey (plugin.digest r.toJson),
          .reorderProjects r.organizationId r.initiativeId expected items⟩

/-- **A handler issues what it has checked.** -/
theorem handle_sends (plugin : ProjectPortfolioPlugin) (context : Context) (q : Request) :
    (q.handle plugin context).Asks fun _ s _ => ∀ c wrap, s.call = some (c, wrap) → q.Sends plugin context c := by
  have hone : ∀ {β : Type} {s : Storage β} {c : Call} {wrap : β → Record}, s.call = some (c, wrap) →
      q.Sends plugin context c → ∀ c' wrap', s.call = some (c', wrap') → q.Sends plugin context c' := by
    intro β s c wrap hs h c' wrap' hs'
    obtain ⟨rfl, -⟩ := Prod.mk.inj (Option.some.inj (hs.symm.trans hs'))
    exact h
  have hread : ∀ {β : Type} {s : Storage β}, s.call = none →
      ∀ c wrap, s.call = some (c, wrap) → q.Sends plugin context c := by
    intro β s hs c wrap hs'
    rw [hs] at hs'
    cases hs'
  cases q with
  | createInitiative r =>
    refine asks_as (asks_authorized fun auth hauth => asks_orInvalid fun dates hdates => asks_valid fun hvalid =>
      asks_prepared (asks_stored (hone rfl ?_)))
    exact .createInitiative hauth hdates hvalid
  | getInitiative r =>
    exact asks_as (asks_authorized fun _ _ => asks_valid fun _ => asks_prepared (asks_stored (hread rfl)))
  | listInitiatives r =>
    exact asks_as (asks_authorized fun _ _ => asks_orInvalid fun _ _ => asks_valid fun _ =>
      asks_prepared (asks_stored_pure (hread rfl)))
  | updateInitiative r =>
    refine asks_as (asks_authorized fun auth hauth => asks_orInvalid fun expected hexpected =>
      asks_orInvalid fun dates hdates => asks_valid fun hvalid => asks_prepared (asks_stored (hone rfl ?_)))
    exact .updateInitiative hauth hexpected hdates hvalid
  | listInitiativeProjects r =>
    exact asks_as (asks_authorized fun _ _ => asks_valid fun _ => asks_prepared (asks_stored_pure (hread rfl)))
  | addInitiativeUpdate r =>
    refine asks_as (asks_authorized fun auth hauth => asks_orInvalid fun expected hexpected => asks_valid fun hvalid =>
      asks_prepared (asks_stored (hone rfl ?_)))
    exact .addInitiativeUpdate hauth hexpected hvalid
  | listInitiativeUpdates r =>
    exact asks_as (asks_authorized fun _ _ => asks_orInvalid fun _ _ => asks_valid fun _ =>
      asks_prepared (asks_stored_pure (hread rfl)))
  | readRollup r =>
    exact asks_as (asks_authorized fun _ _ => asks_valid fun _ => asks_prepared (asks_stored (hread rfl)))
  | archiveInitiative r =>
    refine asks_as (asks_authorized fun auth hauth => asks_orInvalid fun expected hexpected =>
      asks_prepared (asks_stored (hone rfl ?_)))
    exact .archiveInitiative hauth hexpected
  | attachProject r =>
    refine asks_as (asks_authorized fun auth hauth => asks_orInvalid fun expected hexpected =>
      asks_orInvalid fun snapshot hsnapshot => asks_valid fun hvalid => asks_prepared (asks_stored (hone rfl ?_)))
    exact .attachProject hauth hexpected hsnapshot (of_decide_eq_true hvalid)
  | updateProjectSnapshot r =>
    refine asks_as (asks_authorized fun auth hauth => asks_orInvalid fun expected hexpected =>
      asks_orInvalid fun snapshot hsnapshot => asks_prepared (asks_stored (hone rfl ?_)))
    exact .updateProjectSnapshot hauth hexpected hsnapshot
  | detachProject r =>
    refine asks_as (asks_authorized fun auth hauth => asks_orInvalid fun expected hexpected =>
      asks_orInvalid fun membership hmembership => asks_prepared (asks_stored (hone rfl ?_)))
    exact .detachProject hauth hexpected hmembership
  | reorderProjects r =>
    refine asks_as (asks_authorized fun auth hauth => asks_orInvalid fun expected hexpected =>
      asks_orInvalid fun items hitems => asks_prepared (asks_stored (hone rfl ?_)))
    exact .reorderProjects hauth hexpected hitems

section
variable {plugin : ProjectPortfolioPlugin} {context : Context} {q : Request} {c : Call}

theorem sends_of_mutation (h : Handler.mutation (q.handle plugin context) = some c) : q.Sends plugin context c := by
  rcases handle_sends plugin context q with ⟨e, he⟩ | ⟨β, s, map, answer, hsends, he⟩
  · rw [he] at h
    cases h
  · rw [he] at h
    obtain ⟨⟨c', wrap⟩, hcall, rfl⟩ := Option.map_eq_some_iff.mp h
    exact hsends c' wrap hcall

end

/-! ### Its texts -/

/-- The texts of an operation. -/
def Op.texts : Op → List String
  | .createInitiative v => [v.organizationId, v.initiativeId, v.name] ++ v.summary.toList ++ v.ownerSubject.toList
  | .updateInitiative o i _ patch =>
    [o, i] ++ (patch.name.toList ++ patch.summary.toList ++ patch.ownerSubject.toList)
  | .addUpdate o i u _ health summary _ => [o, i, u, health, summary]
  | .archiveInitiative o i _ => [o, i]
  | .attachProject o i _ s _ => [o, i] ++ Sql.snapshotBinds s
  | .updateProjectSnapshot o i _ s => [o, i] ++ Sql.snapshotBinds s
  | .detachProject o i p _ _ => [o, i, p]
  | .reorderProjects o i _ items => [o, i] ++ items.map (·.projectId)

/-- The texts of a receipt's key. -/
def CommandKey.texts (k : CommandKey) : List String :=
  [k.callerInstance, k.actorSubject, k.operation, k.idempotencyKey]

/-- None of the texts holds a NUL. -/
def Clean (texts : List String) : Prop := ∀ s ∈ texts, hasNul s = false

theorem clean_append {ss ts : List String} : Clean (ss ++ ts) ↔ Clean ss ∧ Clean ts := List.forall_mem_append

@[simp] theorem clean_nil : Clean [] := fun _ h => (List.not_mem_nil h).elim

@[simp] theorem clean_cons {s : String} {ss : List String} : Clean (s :: ss) ↔ hasNul s = false ∧ Clean ss :=
  List.forall_mem_cons

theorem Clean.any {ss : List String} (h : Clean ss) : ss.any hasNul = false := by
  rw [List.any_eq_false]
  exact fun s hs => by simp [h s hs]

theorem hasNul_of_all {p : Char → Bool} {value : String} (h : value.toList.all p = true)
    (hp : p (Char.ofNat 0) = false) : hasNul value = false := by
  rw [hasNul, Bool.eq_false_iff]
  intro hmem
  have := List.all_eq_true.mp h _ (List.contains_iff_mem.mp hmem)
  rw [hp] at this
  cases this

theorem hasNul_of_validBoundedOpaque {value : String} {max : ℕ} (h : validBoundedOpaque value max = true) :
    hasNul value = false := by
  simp only [validBoundedOpaque, Bool.and_eq_true, Bool.not_eq_true'] at h
  exact h.1.2

theorem hasNul_of_validText {value : String} {max : ℕ} (h : validText value max = true) : hasNul value = false := by
  simp only [validText, Bool.and_eq_true, Bool.not_eq_true'] at h
  exact h.2

theorem hasNul_of_validId {value : String} (h : validId value = true) : hasNul value = false := by
  simp only [validId, Bool.and_eq_true] at h
  exact hasNul_of_all h.2 (by decide)

theorem hasNul_of_validIdempotencyKey {value : String} (h : validIdempotencyKey value = true) :
    hasNul value = false := by
  simp only [validIdempotencyKey, Bool.and_eq_true] at h
  exact hasNul_of_validId h.1

theorem hasNul_health (health : Health) : hasNul health.text = false := by cases health <;> decide

theorem hasNul_status (status : Status) : hasNul status.text = false := by cases status <;> decide

theorem hasNul_name (op : Op) : hasNul op.name = false := by
  cases op <;> simp only [Op.name] <;> decide

theorem clean_of_optional {value : Option String} {p : String → Bool} (h : value.all p = true)
    (hp : ∀ s, p s = true → hasNul s = false) : Clean value.toList := by
  cases value with
  | none => exact clean_nil
  | some s => exact clean_cons.mpr ⟨hp s h, clean_nil⟩

section
variable {plugin : ProjectPortfolioPlugin} {context : Context} {q : Request} {c : Call} {auth : Authorized}

theorem validAdminMutation_ok {key initiativeId revision : String} {n : ℤ}
    (h : validAdminMutation key initiativeId revision = some n) :
    validIdempotencyKey key = true ∧ validOpaqueId initiativeId = true ∧ parseRevision revision = some n := by
  unfold validAdminMutation at h
  split at h
  · rename_i hvalid
    rw [Bool.and_eq_true] at hvalid
    exact ⟨hvalid.1, hvalid.2, h⟩
  · cases h

/-- The key of a receipt of a configured plugin. -/
theorem clean_key (hconf : plugin.Configured) (hauth : q.authorize plugin context = .ok auth) {key : String}
    (hkey : hasNul key = false) (op : Op) : Clean (CommandKey.texts ⟨auth.caller, auth.actor, op.name, key⟩) := by
  have hchecked := authorize_ok hauth
  have hcaller : validId auth.caller = true := by
    have hmem := hchecked.caller.2
    have hvalid : validCallers (q.callers plugin) = true := by
      unfold Request.callers
      split
      · exact hconf.adminCallers
      · exact hconf.portfolioCallers
    simp only [validCallers, Bool.and_eq_true, List.all_eq_true] at hvalid
    exact hvalid.1.2 _ hmem
  refine clean_cons.mpr ⟨hasNul_of_validId hcaller, clean_cons.mpr ⟨?_, clean_cons.mpr ⟨hasNul_name op, ?_⟩⟩⟩
  · exact hasNul_of_validBoundedOpaque hchecked.ids.2
  · exact clean_cons.mpr ⟨hkey, clean_nil⟩

theorem clean_organization (hauth : q.authorize plugin context = .ok auth) : hasNul q.organizationId = false :=
  hasNul_of_validBoundedOpaque (authorize_ok hauth).ids.1

theorem parseSnapshot_ok {p name revision observedAt : String} {status : Status} {health : Health} {progress : ℤ}
    {start target : Option String} {s : ProjectSnapshot}
    (h : plugin.parseSnapshot p name status health progress start target revision observedAt = some s) :
    (validOpaqueId p = true ∧ validText name 240 = true ∧ validBoundedOpaque revision 128 = true ∧
      (0 ≤ progress ∧ progress ≤ 100)) ∧
    ∃ dates t, parseDateWindow start target = some dates ∧ plugin.parseRfc3339 observedAt = some t ∧
      s = ⟨p, name, status.text, health.text, progress, dates.1, dates.2, revision, t⟩ := by
  obtain ⟨⟨first, last⟩, hdates, h⟩ := Option.bind_eq_some_iff.mp h
  simp only [Option.ite_none_left_eq_some] at h
  obtain ⟨hvalid, h⟩ := h
  obtain ⟨t, ht, h⟩ := Option.bind_eq_some_iff.mp h
  refine ⟨?_, (first, last), t, hdates, ht, (Option.some.inj h).symm⟩
  simpa [and_assoc] using hvalid

theorem clean_snapshot {p name revision observedAt : String} {status : Status} {health : Health} {progress : ℤ}
    {start target : Option String} {s : ProjectSnapshot}
    (h : plugin.parseSnapshot p name status health progress start target revision observedAt = some s) :
    Clean (Sql.snapshotBinds s) := by
  obtain ⟨⟨hp, hname, hrevision, -⟩, dates, t, -, -, rfl⟩ := parseSnapshot_ok h
  simp only [Sql.snapshotBinds, clean_cons, clean_nil, and_true]
  exact ⟨hasNul_of_validBoundedOpaque hp, hasNul_of_validText hname, hasNul_status status, hasNul_health health,
    hasNul_of_validBoundedOpaque hrevision⟩

theorem reorderInput_ok {item : ReorderProjectsRequestItemsItem} {input : ReorderInput}
    (h : ProjectPortfolioPlugin.reorderInput item = some input) :
    validOpaqueId input.projectId = true ∧ 0 ≤ input.position ∧ input.position ≤ 10000 := by
  obtain ⟨projectId, hid, h1⟩ := Option.bind_eq_some_iff.mp h
  obtain ⟨_, -, h2⟩ := Option.bind_eq_some_iff.mp h1
  obtain ⟨position, hp, h3⟩ := Option.bind_eq_some_iff.mp h2
  obtain rfl := Option.some.inj h3
  obtain ⟨rfl, hvalid⟩ := Option.guard_eq_some_iff.mp hid
  obtain ⟨rfl, hbound⟩ := Option.guard_eq_some_iff.mp hp
  exact ⟨hvalid, of_decide_eq_true hbound⟩

/-- **No text of an issued call holds a NUL.** -/
theorem Request.Sends.texts (hconf : plugin.Configured) (h : q.Sends plugin context c) :
    Clean c.op.texts ∧ Clean c.key.texts := by
  cases h with
  | createInitiative hauth hdates hvalid =>
    simp only [Bool.and_eq_true] at hvalid
    obtain ⟨⟨⟨⟨hkey, hi⟩, hname⟩, hsummary⟩, howner⟩ := hvalid
    refine ⟨clean_append.mpr ⟨clean_append.mpr ⟨?_, ?_⟩, ?_⟩,
        clean_key hconf hauth (hasNul_of_validIdempotencyKey hkey) _⟩
    · simp only [clean_cons, clean_nil, and_true]
      exact ⟨clean_organization hauth, hasNul_of_validBoundedOpaque hi, hasNul_of_validText hname⟩
    · exact clean_of_optional hsummary fun _ => hasNul_of_validText
    · exact clean_of_optional howner fun _ => hasNul_of_validBoundedOpaque
  | updateInitiative hauth hexpected hdates hvalid =>
    simp only [Bool.and_eq_true] at hvalid
    obtain ⟨⟨⟨⟨hkey, hi⟩, hname⟩, hsummary⟩, howner⟩ := hvalid
    refine ⟨clean_append.mpr ⟨?_, clean_append.mpr ⟨clean_append.mpr ⟨?_, ?_⟩, ?_⟩⟩,
      clean_key hconf hauth (hasNul_of_validIdempotencyKey hkey) _⟩
    · simp only [clean_cons, clean_nil, and_true]
      exact ⟨clean_organization hauth, hasNul_of_validBoundedOpaque hi⟩
    · exact clean_of_optional hname fun _ => hasNul_of_validText
    · exact clean_of_optional hsummary fun _ => hasNul_of_validText
    · exact clean_of_optional howner fun _ => hasNul_of_validBoundedOpaque
  | @addInitiativeUpdate r _ _ hauth hexpected hvalid =>
    simp only [Bool.and_eq_true] at hvalid
    obtain ⟨⟨⟨⟨hkey, hi⟩, hu⟩, hsummary⟩, -⟩ := hvalid
    refine ⟨?_, clean_key hconf hauth (hasNul_of_validIdempotencyKey hkey) _⟩
    simp only [Op.texts, clean_cons, clean_nil, and_true]
    exact ⟨clean_organization hauth, hasNul_of_validBoundedOpaque hi, hasNul_of_validBoundedOpaque hu,
      hasNul_health r.health, hasNul_of_validText hsummary⟩
  | archiveInitiative hauth hexpected =>
    obtain ⟨hkey, hi, -⟩ := validAdminMutation_ok hexpected
    refine ⟨?_, clean_key hconf hauth (hasNul_of_validIdempotencyKey hkey) _⟩
    simp only [Op.texts, clean_cons, clean_nil, and_true]
    exact ⟨clean_organization hauth, hasNul_of_validBoundedOpaque hi⟩
  | attachProject hauth hexpected hsnapshot hvalid =>
    obtain ⟨hkey, hi, -⟩ := validAdminMutation_ok hexpected
    refine ⟨clean_append.mpr ⟨?_, clean_snapshot hsnapshot⟩,
      clean_key hconf hauth (hasNul_of_validIdempotencyKey hkey) _⟩
    simp only [clean_cons, clean_nil, and_true]
    exact ⟨clean_organization hauth, hasNul_of_validBoundedOpaque hi⟩
  | updateProjectSnapshot hauth hexpected hsnapshot =>
    obtain ⟨hkey, hi, -⟩ := validAdminMutation_ok hexpected
    refine ⟨clean_append.mpr ⟨?_, clean_snapshot hsnapshot⟩,
      clean_key hconf hauth (hasNul_of_validIdempotencyKey hkey) _⟩
    simp only [clean_cons, clean_nil, and_true]
    exact ⟨clean_organization hauth, hasNul_of_validBoundedOpaque hi⟩
  | detachProject hauth hexpected hmembership =>
    obtain ⟨hkey, hi, -⟩ := validAdminMutation_ok hexpected
    obtain ⟨-, hp⟩ := Option.filter_eq_some_iff.mp hmembership
    refine ⟨?_, clean_key hconf hauth (hasNul_of_validIdempotencyKey hkey) _⟩
    simp only [Op.texts, clean_cons, clean_nil, and_true]
    exact ⟨clean_organization hauth, hasNul_of_validBoundedOpaque hi, hasNul_of_validBoundedOpaque hp⟩
  | reorderProjects hauth hexpected hitems =>
    obtain ⟨hkey, hi, -⟩ := validAdminMutation_ok hexpected
    refine ⟨clean_append.mpr ⟨?_, fun s hs => ?_⟩, clean_key hconf hauth (hasNul_of_validIdempotencyKey hkey) _⟩
    · simp only [clean_cons, clean_nil, and_true]
      exact ⟨clean_organization hauth, hasNul_of_validBoundedOpaque hi⟩
    · obtain ⟨item, hitem, rfl⟩ := List.mem_map.mp hs
      obtain ⟨_, -, hinput⟩ := Json.mem_of_mapM hitems item hitem
      exact hasNul_of_validBoundedOpaque (reorderInput_ok hinput).1

/-! ### Its values -/

/-- The values of a snapshot are ones the columns take, but for the range of a date. -/
structure ProjectSnapshot.Valid (s : ProjectSnapshot) : Prop where
  status : statusCheck s.statusCategory = true
  health : healthCheck s.health = true
  progress : progressCheck s.progress = true
  window : windowCheck s.targetStart s.targetDate = true

/-- The values of an operation are ones the columns take, but for the range of a date. -/
def Op.Valid : Op → Prop
  | .createInitiative v => windowCheck v.targetStart v.targetDate = true
  | .updateInitiative _ _ _ patch => windowCheck patch.targetStart patch.targetDate = true
  | .addUpdate _ _ _ _ health _ progress => healthCheck health = true ∧ progressCheck progress = true
  | .attachProject _ _ _ s position => s.Valid ∧ 0 ≤ position ∧ position ≤ 10000
  | .updateProjectSnapshot _ _ _ s => s.Valid
  | .reorderProjects _ _ _ items => ∀ item ∈ items, 0 ≤ item.position ∧ item.position ≤ 10000
  | .archiveInitiative .. => True
  | .detachProject .. => True

/-- The instant an operation says its project was observed at. -/
def Op.observedAt : Op → Option OffsetDateTime
  | .attachProject _ _ _ s _ => some s.observedAt
  | .updateProjectSnapshot _ _ _ s => some s.observedAt
  | _ => none

theorem healthCheck_text (health : Health) : healthCheck health.text = true := by cases health <;> decide

theorem statusCheck_text (status : Status) : statusCheck status.text = true := by cases status <;> decide

theorem windowCheck_of_parse {start target : Option String} {dates : Option Date × Option Date}
    (h : parseDateWindow start target = some dates) : windowCheck dates.1 dates.2 = true := by
  obtain ⟨first, -, h⟩ := Option.bind_eq_some_iff.mp h
  obtain ⟨last, -, h⟩ := Option.bind_eq_some_iff.mp h
  cases first with
  | none =>
    obtain rfl := Option.some.inj h
    rfl
  | some first =>
    cases last with
    | none =>
      obtain rfl := Option.some.inj h
      rfl
    | some last =>
      simp only [Option.ite_none_left_eq_some] at h
      obtain ⟨horder, h⟩ := h
      obtain rfl := Option.some.inj h
      simpa [windowCheck] using horder

theorem valid_of_parseSnapshot {p name revision observedAt : String} {status : Status} {health : Health} {progress : ℤ}
    {start target : Option String} {s : ProjectSnapshot}
    (h : plugin.parseSnapshot p name status health progress start target revision observedAt = some s) : s.Valid := by
  obtain ⟨⟨-, -, -, hprogress⟩, dates, t, hdates, -, rfl⟩ := parseSnapshot_ok h
  exact ⟨statusCheck_text status, healthCheck_text health, progressCheck_iff.mpr hprogress,
    windowCheck_of_parse hdates⟩

/-- **The values of an issued call are ones the columns take**, but for the range of a date. -/
theorem Request.Sends.valid (h : q.Sends plugin context c) : c.op.Valid := by
  cases h with
  | createInitiative hauth hdates => exact windowCheck_of_parse hdates
  | updateInitiative hauth hexpected hdates => exact windowCheck_of_parse hdates
  | @addInitiativeUpdate r _ _ hauth hexpected hvalid =>
    rw [Bool.and_eq_true] at hvalid
    exact ⟨healthCheck_text r.health, hvalid.2⟩
  | archiveInitiative => trivial
  | attachProject hauth hexpected hsnapshot hvalid => exact ⟨valid_of_parseSnapshot hsnapshot, hvalid⟩
  | updateProjectSnapshot hauth hexpected hsnapshot => exact valid_of_parseSnapshot hsnapshot
  | detachProject => trivial
  | reorderProjects hauth hexpected hitems =>
    intro item hitem
    obtain ⟨_, -, hinput⟩ := Json.mem_of_mapM hitems item hitem
    exact (reorderInput_ok hinput).2

/-- The instant of a call is what a field of the hashed JSON parses to. -/
theorem Request.Sends.observedAt (h : q.Sends plugin context c) {j : Json} (hj : q.json = some j) :
    c.op.observedAt = (Json.req "observed_at" Json.decStr j).bind plugin.parseRfc3339 := by
  have hsome : ∀ {p name revision observedAt : String} {status : Status} {health : Health} {progress : ℤ}
      {start target : Option String} {s : ProjectSnapshot},
      plugin.parseSnapshot p name status health progress start target revision observedAt = some s →
        some s.observedAt = plugin.parseRfc3339 observedAt := by
    intro p name revision observedAt status health progress start target s h
    obtain ⟨-, dates, t, -, ht, rfl⟩ := parseSnapshot_ok h
    exact ht.symm
  cases h with
  | attachProject _ _ hsnapshot =>
    obtain rfl := Option.some.inj hj
    exact hsome hsnapshot
  | updateProjectSnapshot _ _ hsnapshot =>
    obtain rfl := Option.some.inj hj
    exact hsome hsnapshot
  | createInitiative | updateInitiative | addInitiativeUpdate | archiveInitiative | detachProject | reorderProjects =>
    obtain rfl := Option.some.inj hj
    rfl

end

end Portfolio
