/-
# The authority of the two capabilities

`lenso.project-portfolio@1` writes what an initiative says of itself and
`lenso.project-portfolio-admin@1` what belongs to it and whether it is open.
Each operation writes the initiative's row, so neither capability leaves the
table alone; what one of them cannot reach is a set of columns: the membership
rows and the columns of `InitiativeRow.standing` for the first, the updates and
the columns of `InitiativeRow.authored` for the second. A read writes nothing.

Key definitions: `InitiativeRow.standing`, `InitiativeRow.authored`, `Requested`.
Key theorems: `Fresh.ordinary`, `Fresh.admin`, `authority_split`.
-/
import Portfolio.Statements

namespace Portfolio

open Txn Txn.Prog

/-- The columns only an admin operation may change, with the key. -/
def InitiativeRow.standing (r : InitiativeRow) : (String × String) × Bool × Option OffsetDateTime :=
  (r.key, r.archived, r.archivedAt)

/-- The row without the columns an admin operation may change: the flag and its time, the revision and
the time of the last change. -/
def InitiativeRow.authored (r : InitiativeRow) : InitiativeRow :=
  { r with archived := false, archivedAt := none, revision := 0, updatedAt := 0 }

/-- A handler of the admin capability, or of the other one, issues the call. -/
def Requested (plugin : ProjectPortfolioPlugin) (admin : Bool) (c : Call) : Prop :=
  ∃ context, ∃ q : Request, q.isAdmin = admin ∧ Handler.mutation (q.handle plugin context) = some c

/-- The operation is one of the admin capability. -/
def Op.isAdmin : Op → Bool
  | .createInitiative _ => false
  | .updateInitiative .. => false
  | .addUpdate .. => false
  | _ => true

/-- The operations of the admin capability. -/
def adminOperations : List String :=
  ["archive_initiative", "attach_project", "update_project_snapshot", "detach_project", "reorder_projects"]

theorem Op.isAdmin_iff : ∀ op : Op, op.isAdmin = true ↔ op.name ∈ adminOperations
  | .createInitiative _ => by simp [isAdmin, name, adminOperations]
  | .updateInitiative .. => by simp [isAdmin, name, adminOperations]
  | .addUpdate .. => by simp [isAdmin, name, adminOperations]
  | .archiveInitiative .. => by simp [isAdmin, name, adminOperations]
  | .attachProject .. => by simp [isAdmin, name, adminOperations]
  | .updateProjectSnapshot .. => by simp [isAdmin, name, adminOperations]
  | .detachProject .. => by simp [isAdmin, name, adminOperations]
  | .reorderProjects .. => by simp [isAdmin, name, adminOperations]

theorem Request.isAdmin_iff (q : Request) : q.isAdmin = true ↔ q.operation ∈ adminOperations := by
  cases q <;> simp [isAdmin, operation, adminOperations]

/-- The capability of a call is that of the request it is issued for. -/
theorem Issued.isAdmin {plugin : ProjectPortfolioPlugin} {context : Context} {q : Request} {c : Call}
    (h : Issued plugin context q c) : c.op.isAdmin = q.isAdmin := by
  rw [Bool.eq_iff_iff, Op.isAdmin_iff, Request.isAdmin_iff, h.operation]

theorem isAdmin_of_requested {plugin : ProjectPortfolioPlugin} {admin : Bool} {c : Call}
    (h : Requested plugin admin c) : c.op.isAdmin = admin := by
  obtain ⟨context, q, hq, hc⟩ := h
  rw [(issued_of_mutation hc).isAdmin, hq]

/-! ### The rows of initiatives -/

/-- No two initiatives have one key. -/
def Facts.Keyed (F : Facts) : Prop := Table.Unique InitiativeRow.key F.initiatives

/-- A fresh success appends the row of a new initiative or sets that of its own. -/
theorem Fresh.initiatives {actor : String} {op : Op} {F F' : Facts} {r : Record} (h : Fresh actor op F r F') :
    (∃ row, (∀ x ∈ F.initiatives, x.key ≠ row.key) ∧ F'.initiatives = F.initiatives ++ [row] ∧ op.creates = true) ∨
      ∃ row row', row ∈ F.initiatives ∧ F'.initiatives = Table.put InitiativeRow.key row' F.initiatives ∧
        row'.key = row.key ∧ row'.rowSeq = row.rowSeq ∧
        (op.isAdmin = false → row'.standing = row.standing) ∧ (op.isAdmin = true → row'.authored = row.authored) := by
  cases h with
  | @createInitiative v _ rowSeq t r hnew =>
    refine Or.inl ⟨_, fun x hx he => ?_, rfl, rfl⟩
    have hat : InitiativeRow.at v.organizationId v.initiativeId x = true :=
      decide_eq_true (Prod.mk.inj he)
    have hmem := List.mem_filter.mpr ⟨hx, hat⟩
    rw [List.head?_eq_none_iff.mp hnew] at hmem
    exact List.not_mem_nil hmem
  | updateInitiative hrow | addUpdate hrow =>
    exact Or.inr ⟨_, _, (initiative_mem hrow.found).1, rfl, rfl, rfl, fun _ => rfl, nofun⟩
  | archiveInitiative hrow | attachProject hrow | updateProjectSnapshot hrow | detachProject hrow
  | reorderProjects hrow =>
    exact Or.inr ⟨_, _, (initiative_mem hrow.found).1, rfl, rfl, rfl, nofun, fun _ => rfl⟩

theorem Fresh.keyed {actor : String} {op : Op} {F F' : Facts} {r : Record} (h : Fresh actor op F r F')
    (hF : F.Keyed) : F'.Keyed := by
  unfold Facts.Keyed
  rcases h.initiatives with ⟨row, hnew, he, -⟩ | ⟨row, row', -, he, -⟩ <;> rw [he]
  · exact Table.Unique.append hF hnew
  · exact Table.Unique.put _ hF

theorem keyed_of_history {T : Tables} {cs : List Committed} (h : History Tables.empty cs T) : T.toFacts.Keyed :=
  h.preserves List.nodup_nil fun _ _ _ _ _ hF hf => hf.keyed hF

/-! ### What each capability leaves alone -/

/-- An operation of the ordinary capability leaves the memberships and every initiative's standing. -/
theorem Fresh.ordinary {actor : String} {op : Op} {F F' : Facts} {r : Record} (h : Fresh actor op F r F')
    (hF : F.Keyed) (hop : op.isAdmin = false) :
    F'.projects = F.projects ∧
      F.initiatives.map InitiativeRow.standing <+: F'.initiatives.map InitiativeRow.standing := by
  constructor
  · cases h with
    | createInitiative | updateInitiative | addUpdate => rfl
    | archiveInitiative | attachProject | updateProjectSnapshot | detachProject | reorderProjects => cases hop
  · rcases h.initiatives with ⟨row, -, he, -⟩ | ⟨row, row', hrow, he, hk, -, hstanding, -⟩ <;> rw [he]
    · rw [List.map_append]
      exact List.prefix_append _ _
    · exact ⟨[], (List.append_nil _).trans (Table.map_put hF hrow hk (hstanding hop)).symm⟩

/-- An operation of the admin capability leaves the updates and what every initiative says of itself. -/
theorem Fresh.admin {actor : String} {op : Op} {F F' : Facts} {r : Record} (h : Fresh actor op F r F')
    (hF : F.Keyed) (hop : op.isAdmin = true) :
    F'.updates = F.updates ∧
      F'.initiatives.map InitiativeRow.authored = F.initiatives.map InitiativeRow.authored := by
  constructor
  · cases h with
    | createInitiative | updateInitiative | addUpdate => cases hop
    | archiveInitiative | attachProject | updateProjectSnapshot | detachProject | reorderProjects => rfl
  · rcases h.initiatives with ⟨row, -, -, hc⟩ | ⟨row, row', hrow, he, hk, -, -, hauthored⟩
    · cases op <;> cases hc
      cases hop
    · rw [he, Table.map_put hF hrow hk (hauthored hop)]

/-- A read writes nothing, and leaves the tables as they are. -/
theorem read_leaves {plugin : ProjectPortfolioPlugin} {context : Context} {q : Request} (hq : q.json = none)
    (t : ℕ → Tick) (T : Tables) :
    ((q.handle plugin context).Calls fun _ s => s.code.Calls fun _ st => st.Silent) ∧
      (Handler.serve (q.handle plugin context) t T).2 = T := by
  rcases handle_asks plugin context q with ⟨e, he⟩ | ⟨β, s, map, answer, hfor, he⟩
  · rw [he]
    exact ⟨trivial, rfl⟩
  · have hcall : s.call = none := by
      have hsome := hfor.mutation
      rw [hq] at hsome
      cases hs : s.call with
      | none => rfl
      | some x => rw [hs] at hsome; cases hsome
    rw [he]
    constructor
    · refine Calls.bind (calls_perform.mpr (read_silent hcall)) fun a => ?_
      cases answer a <;> trivial
    · rw [serve_asks, Storage.serve, hcall]
      exact (read_silent hcall).run_silent t T

/-- **The authority split.** From any reachable state: while only calls of the ordinary capability commit,
no membership row changes and no initiative loses or changes its flag; while only calls of the admin
capability commit, no initiative is made, no update is added, and nothing of an initiative changes but its
flag, the flag's time, its revision and the time of its last change; and a read changes nothing. -/
theorem authority_split {plugin : ProjectPortfolioPlugin} {w : Sequences} {S S' : System} {cs : List Committed}
    (h : Txn.Steps Call.code (Admitted plugin) (System.initial w) S)
    (h' : Txn.Steps Call.code (Admitted plugin) S S') (hcs : S'.commits = S.commits ++ cs) :
    ((∀ x ∈ cs, Requested plugin false x.call) → S'.db.projects = S.db.projects ∧
      S.db.initiatives.map InitiativeRow.standing <+: S'.db.initiatives.map InitiativeRow.standing) ∧
    ((∀ x ∈ cs, Requested plugin true x.call) → S'.db.updates = S.db.updates ∧
      S'.db.initiatives.map InitiativeRow.authored = S.db.initiatives.map InitiativeRow.authored) ∧
    (∀ (context : Context) (q : Request) (t : ℕ → Tick), q.json = none →
      ((q.handle plugin context).Calls fun _ s => s.code.Calls fun _ st => st.Silent) ∧
        (Handler.serve (q.handle plugin context) t S.db).2 = S.db) := by
  obtain ⟨ds, hds, hhistory⟩ := later_history h h'
  obtain rfl := List.append_cancel_left (hds.symm.trans hcs)
  have hkeyed := keyed_of_history (reachable_inv h).chain
  refine ⟨fun hordinary => ?_, fun hadmin => ?_, fun context q t hq => read_leaves hq t S.db⟩
  · refine (hhistory.preserves (I := fun F => F.Keyed ∧ F.projects = S.db.projects ∧
      S.db.initiatives.map InitiativeRow.standing <+: F.initiatives.map InitiativeRow.standing)
      ⟨hkeyed, rfl, List.prefix_rfl⟩ fun x hx F F' r hF hf => ?_).2
    obtain ⟨hk, hprojects, hstanding⟩ := hF
    obtain ⟨h1, h2⟩ := hf.ordinary hk (isAdmin_of_requested (hordinary x hx))
    exact ⟨hf.keyed hk, h1.trans hprojects, hstanding.trans h2⟩
  · refine (hhistory.preserves (I := fun F => F.Keyed ∧ F.updates = S.db.updates ∧
      F.initiatives.map InitiativeRow.authored = S.db.initiatives.map InitiativeRow.authored)
      ⟨hkeyed, rfl, rfl⟩ fun x hx F F' r hF hf => ?_).2
    obtain ⟨hk, hupdates, hauthored⟩ := hF
    obtain ⟨h1, h2⟩ := hf.admin hk (isAdmin_of_requested (hadmin x hx))
    exact ⟨hf.keyed hk, h1.trans hupdates, h2.trans hauthored⟩

/-- An attach between two states leaves what the initiative says of itself. -/
theorem authority_split_attached : ∃ S S' : System, S.db.projects = [] ∧ S'.db.projects.map (·.position) = [0] ∧
    S'.db.updates = S.db.updates ∧
    S'.db.initiatives.map InitiativeRow.authored = S.db.initiatives.map InitiativeRow.authored := by
  have hrun : ((System.initial ⟨0, 0⟩).schedule Call.code 2
      (Txn.attempt 0 (sampleMutation sampleCreateRequest) (sampleTicks 1 6))).bind (fun S => (S.schedule Call.code 2
        (Txn.attempt 1 (sampleMutation sampleAttachRequest) (sampleTicks 1 9))).map fun S' =>
          (S.db.projects, S'.db.projects.map (·.position), (S'.commits.drop S.commits.length).map (·.call))) =
      some ([], [0], [sampleMutation sampleAttachRequest]) := by decide +kernel
  obtain ⟨S, S', h, h', hfacts⟩ := @System.scheduled (Admitted samplePlugin) _ _ _ _ _ _ _ hrun (by decide +kernel)
    admitted_sampleMembership_self
  obtain ⟨hnone, hfacts⟩ := Prod.mk.inj hfacts
  obtain ⟨hpositions, hcalls⟩ := Prod.mk.inj hfacts
  obtain ⟨cs, hcs, -⟩ := later_history h h'
  have hadmin : ∀ x ∈ cs, Requested samplePlugin true x.call := by
    intro x hx
    have hmem : x.call ∈ (S'.commits.drop S.commits.length).map (·.call) := by
      rw [hcs, List.drop_left]
      exact List.mem_map_of_mem hx
    rw [hcalls, List.mem_singleton] at hmem
    exact ⟨sampleContext, sampleAttachRequest, rfl, by rw [hmem]; decide +kernel⟩
  obtain ⟨hupdates, hauthored⟩ := (authority_split h h' hcs).2.1 hadmin
  exact ⟨S, S', hnone, hpositions, hupdates, hauthored⟩

end Portfolio
