/-
# The numbers of the rows

An initiative and an update get the `row_seq` their transaction drew from the
sequence of their table. No two rows of a table have one number, and none has
a number from before the run: the attempts own what they draw (`Txn.Draws`),
however they overlap. For updates `Sequence` says more, that the numbers of
one initiative are in the order of the commits; for initiatives that is not so.

Key definitions: `Serial`, `Call.drawn`, `Facts.serials`, `InitiativeRow.entry`.
Key theorems: `draws_of_calls`, `serials_of_run`, `owned_of_steps`,
`rowSeqs_nodup`, `lt_rowSeq_of_steps`.
-/
import Portfolio.Authority
import Portfolio.Statements
import Portfolio.Updates
import Portfolio.Txn.Draws

namespace Portfolio

open Txn Txn.Prog

/-- A value of one of the two sequences. -/
inductive Serial
  | initiative (n : ℤ)
  | update (n : ℤ)

/-- The value is drawn already, or none that is drawn. -/
def Serial.Used (w : Sequences) : Serial → Prop
  | .initiative n => n ≤ w.initiatives ∨ bigint n = false
  | .update n => n ≤ w.updates ∨ bigint n = false

/-- A row has the value. -/
def Facts.serials (F : Facts) : Serial → Prop
  | .initiative n => ∃ r ∈ F.initiatives, r.rowSeq = n
  | .update n => ∃ u ∈ F.updates, u.rowSeq = n

/-- What an attempt has drawn: a create draws in its third statement, an update in its fourth. -/
def Call.drawn (c : Call) (ticks : List Tick) : Option Serial :=
  match c.op with
  | .createInitiative _ => ticks[2]?.map fun t => .initiative t.rowSeq
  | .addUpdate .. => ticks[3]?.map fun t => .update t.rowSeq
  | _ => none

/-! ### Which statements draw -/

/-- No statement takes a value back. -/
theorem Sql.For.grows {o actor : String} {mine : CommandKey → Bool} {β : Type} {st : Sql β}
    (h : st.For o mine actor) {w w' : Sequences} {t : Tick} (hw : st.offer w t = some w') :
    w.initiatives ≤ w'.initiatives ∧ w.updates ≤ w'.updates := by
  cases h with
  | nextInitiativeSeq | nextUpdateSeq =>
    obtain ⟨⟨hlt, -⟩, hw'⟩ := Option.ite_none_right_eq_some.mp hw
    obtain rfl := Option.some.inj hw'
    exact ⟨by simp <;> omega, by simp <;> omega⟩
  | _ =>
    obtain rfl : w = w' := Option.some.inj hw
    exact ⟨le_refl _, le_refl _⟩

theorem Serial.Used.mono {w w' : Sequences} (h : w.initiatives ≤ w'.initiatives ∧ w.updates ≤ w'.updates) :
    ∀ {n : Serial}, n.Used w → n.Used w'
  | .initiative _, hn => hn.imp_left fun hn => le_trans hn h.1
  | .update _, hn => hn.imp_left fun hn => le_trans hn h.2

/-- The statements of a call are the storage layer's. -/
theorem Call.statements (c : Call) : c.code.For c.op.organizationId (fun _ => true) c.command.actor := by
  have hstored : ∀ {α : Type} {s : Storage α} {wrap : α → Record}, s.call = some (c, wrap) →
      s.organizationId = c.op.organizationId → c.code.For c.op.organizationId (fun _ => true) c.command.actor := by
    intro α s wrap hs ho
    rw [code_of_call hs]
    refine (storage_statements ho fun c' wrap' hc => ?_).bind fun _ => trivial
    obtain rfl : c = c' := congrArg Prod.fst (Option.some.inj (hs.symm.trans hc))
    exact ⟨rfl, rfl⟩
  obtain ⟨c, op⟩ := c
  cases op with
  | createInitiative v => exact @hstored _ (.createInitiative c v) _ rfl rfl
  | updateInitiative o i expected patch => exact @hstored _ (.updateInitiative c o i expected patch) _ rfl rfl
  | addUpdate o i u expected health summary progress =>
    exact @hstored _ (.addUpdate c o i u expected health summary progress) _ rfl rfl
  | archiveInitiative o i expected => exact @hstored _ (.archiveInitiative c o i expected) _ rfl rfl
  | attachProject o i expected s position => exact @hstored _ (.attachProject c o i expected s position) _ rfl rfl
  | updateProjectSnapshot o i expected s => exact @hstored _ (.updateProjectSnapshot c o i expected s) _ rfl rfl
  | detachProject o i p expected expectedMembership =>
    exact @hstored _ (.detachProject c o i p expected expectedMembership) _ rfl rfl
  | reorderProjects o i expected items => exact @hstored _ (.reorderProjects c o i expected items) _ rfl rfl

section
variable {α β γ : Type} {c : Command} {operation : String} {codec : Codec α} {body : Tx α} {wrap : α → Record}
  {t₀ t₁ t₂ : Tick} {st : Sql β} {k : Except DbError β → Tx Record} {ts : List Tick}

theorem not_follows_throw {e : StorageError} : ¬ (Prog.throw e : Tx Record).Follows ts (.call st k) := by
  intro h
  cases ts with
  | nil => exact nomatch h
  | cons => exact h.elim

/-- After two statements a command that goes on is in its body. -/
theorem follows_command
    (h : (command c operation codec body >>= fun a => pure (wrap a)).Follows (t₀ :: t₁ :: ts) (.call st k)) :
    ((body >>= fun record => finishCommand c operation (codec.enc record) >>= fun _ => pure record) >>=
      fun a => pure (wrap a)).Follows ts (.call st k) := by
  obtain ⟨s₀, h⟩ := h
  rcases hs : ((Sql.selectCommand (c.receipt operation)).run t₀ s₀).1 with e | existing
  · simp only [hs] at h
    exact h.elim
  simp only [hs] at h
  rcases existing with _ | row
  · obtain ⟨s₁, h⟩ := h
    rcases hi : ((Sql.insertCommand (c.receipt operation) c.hash).run t₁ s₁).1 with e | _
    · simp only [hi] at h
      cases e <;> exact absurd h not_follows_throw
    · simp only [hi] at h
      exact h
  · -- a receipt was there: the command refuses or answers it
    simp only [Prog.bind] at h
    by_cases hhash : row.requestHash = c.hash
    · cases hj : row.responseJson with
      | none =>
        simp only [hhash, hj, ne_eq, not_true_eq_false, if_false] at h
        exact h.elim
      | some response =>
        cases hdec : codec.dec response <;> simp only [hhash, hj, hdec, ne_eq, not_true_eq_false, if_false] at h
        · exact h.elim
        · exact h.elim
    · simp only [ne_eq, hhash, not_false_eq_true, if_true] at h
      exact h.elim

theorem requireMutableRevision_cases (current : LockedInitiative) (expected : ℤ) :
    requireMutableRevision current expected = .ret () ∨ ∃ e, requireMutableRevision current expected = .throw e := by
  unfold requireMutableRevision
  split
  · exact Or.inr ⟨_, rfl⟩
  · split
    · exact Or.inr ⟨_, rfl⟩
    · exact Or.inl rfl

variable {w w' : Sequences}

/-- The third statement of a create draws its number. -/
theorem create_draws {v : InitiativeCreate} (h : (Call.code ⟨c, .createInitiative v⟩).Follows [t₀, t₁] (.call st k))
    {t : Tick} (hw : st.offer w t = some w') :
    ¬ (Serial.initiative t.rowSeq).Used w ∧ (Serial.initiative t.rowSeq).Used w' := by
  have h : Prog.call st k = _ := follows_command h
  cases h
  obtain ⟨⟨hlt, hfits⟩, hw'⟩ := Option.ite_none_right_eq_some.mp hw
  obtain rfl := Option.some.inj hw'
  exact ⟨not_or.mpr ⟨not_le.mpr hlt, by simp [hfits]⟩, .inl (le_refl _)⟩

/-- The fourth statement of an update draws its number. -/
theorem addUpdate_draws {o i u health summary : String} {expected progress : ℤ}
    (h : (Call.code ⟨c, .addUpdate o i u expected health summary progress⟩).Follows [t₀, t₁, t₂] (.call st k))
    {t : Tick} (hw : st.offer w t = some w') :
    ¬ (Serial.update t.rowSeq).Used w ∧ (Serial.update t.rowSeq).Used w' := by
  obtain ⟨s₂, h⟩ := follows_command h
  rcases hs : ((Sql.selectInitiativeForUpdate o i).run t₂ s₂).1 with e | row
  · simp only [hs] at h
    exact absurd h not_follows_throw
  rcases row with _ | row
  · simp only [hs] at h
    exact absurd h not_follows_throw
  simp only [hs, orRefuse, Prog.pure_eq, Prog.ret_bind, Prog.bind] at h
  rcases requireMutableRevision_cases ⟨row.revision, row.archived⟩ expected with hr | ⟨e, hr⟩
  swap
  · simp only [hr, Prog.throw_bind, Prog.bind] at h
    exact absurd h not_follows_throw
  simp only [hr, Prog.ret_bind] at h
  have h : Prog.call st k = _ := h
  cases h
  obtain ⟨⟨hlt, hfits⟩, hw'⟩ := Option.ite_none_right_eq_some.mp hw
  obtain rfl := Option.some.inj hw'
  exact ⟨not_or.mpr ⟨not_le.mpr hlt, by simp [hfits]⟩, .inl (le_refl _)⟩

end

/-- What the attempts draw is new. -/
theorem draws_of_calls : Txn.Draws Call.code Call.drawn Serial.Used where
  begins c := by cases c with | mk c op => cases op <;> rfl
  kept {c _ _ _ _ _ _ _} h hw _ := Serial.Used.mono ((h.calls c.statements).1.grows hw)
  draws {c ts β st k t w w'} h hw n hn := by
    obtain ⟨c, op⟩ := c
    cases op with
    | createInitiative v =>
      match ts, h, hn with
      | [], _, hn | [_], _, hn => exact nomatch hn
      | [_, _], h, hn =>
        obtain rfl := Option.some.inj hn
        exact Or.inr (create_draws h hw)
      | _ :: _ :: _ :: _, _, hn => exact Or.inl hn
    | addUpdate o i u expected health summary progress =>
      match ts, h, hn with
      | [], _, hn | [_], _, hn | [_, _], _, hn => exact nomatch hn
      | [_, _, _], h, hn =>
        obtain rfl := Option.some.inj hn
        exact Or.inr (addUpdate_draws h hw)
      | _ :: _ :: _ :: _ :: _, _, hn => exact Or.inl hn
    | _ => exact nomatch hn

/-! ### Which commits number a row -/

/-- A fact of a tick that holds whatever ticks come later is one of the ticks given. -/
theorem rowSeq_of_forall {m : ℤ} : ∀ {ts : List Tick} {n : ℕ},
    (∀ rest, (thenTicks ts rest n).rowSeq = m) → ts[n]?.map (·.rowSeq) = some m
  | [], n, h => by
    have h0 := h fun _ => default
    have h1 := h fun _ => { (default : Tick) with rowSeq := m + 1 }
    simp at h1
  | t :: _, 0, h => congrArg some (h fun _ => default)
  | _ :: _, _ + 1, h => by
    rw [List.getElem?_cons_succ]
    exact rowSeq_of_forall h

/-- A mutation that ends well changes nothing, or its body has run behind two statements. -/
theorem facts_of_command {α : Type} {c : Command} {operation : String} {codec : Codec α} {body : Tx α}
    {wrap : α → Record} {t t' : ℕ → Tick} {T T' : Tables} {r : Record}
    (h : (command c operation codec body >>= fun a => pure (wrap a)).run t T = (.ok r, t', T')) :
    T' = T ∨ ∃ a t₁ T₁ T₂, T₁.toFacts = T.toFacts ∧ T'.toFacts = T₂.toFacts ∧
      body.run (fun n => t (n + 2)) T₁ = (.ok a, t₁, T₂) := by
  obtain ⟨a, t₁, T₁, h1, h2⟩ := run_bind_ok.mp h
  obtain ⟨-, -, rfl⟩ := ret_ok h2
  obtain ⟨x, t₂, T₂, h3, h4⟩ := run_bind_ok.mp h1
  obtain ⟨existing, t₃, T₃, h5, h6⟩ := run_bind_ok.mp h3
  obtain ⟨ws, hb, rfl, rfl⟩ := sql_ok h5
  obtain ⟨rfl, rfl⟩ := Prod.mk.inj (Except.ok.inj hb)
  rcases admitCommand_ok h3 with ⟨row, j, a', hrow, hh, hj, ha, rfl, rfl⟩ | ⟨hnone, rfl, rfl⟩
  · obtain ⟨-, -, rfl⟩ := ret_ok h4
    exact Or.inl rfl
  · rw [hnone] at h6
    obtain ⟨_, ws, -, h7⟩ := attempt_ok (fun e => by cases e <;> exact ⟨_, rfl⟩) h6
    obtain ⟨-, rfl, -⟩ := ret_ok h7
    obtain ⟨record, t₄, T₄, h8, h9⟩ := run_bind_ok.mp h4
    obtain ⟨u, t₅, T₅, h10, h11⟩ := run_bind_ok.mp h9
    obtain ⟨-, -, rfl⟩ := ret_ok h11
    exact Or.inr ⟨record, t₄, { T with commands := T.commands ++ [c.admitted operation] }, T₄, rfl,
      finishCommand_facts h10, h8⟩

section
variable {c : Call} {ticks : List Tick} {T T' : Tables} {r : Record}

/-- The row a create leaves has the number its attempt drew. -/
theorem drawn_of_create {row : InitiativeRow} (h : ∀ rest, c.code.run (thenTicks ticks rest) T = (.ok r, rest, T'))
    (hop : c.op.creates = true) (hrow : T'.initiatives = T.initiatives ++ [row]) :
    c.drawn ticks = some (.initiative row.rowSeq) := by
  obtain ⟨c, op⟩ := c
  cases op with
  | createInitiative v =>
    have hseq : ticks[2]?.map (·.rowSeq) = some row.rowSeq := by
      refine rowSeq_of_forall fun rest => ?_
      rcases facts_of_command (h rest) with rfl | ⟨a, t₁, T₁, T₂, hT₁, hT', hbody⟩
      · simp at hrow
      · obtain ⟨-, -, -, rfl⟩ := createInitiativeBody_row hbody
        rw [hT', hT₁] at hrow
        exact congrArg (fun r : InitiativeRow => r.rowSeq) (List.singleton_inj.mp (List.append_cancel_left hrow))
    obtain ⟨t, ht, hseq⟩ := Option.map_eq_some_iff.mp hseq
    simp only [Call.drawn, ht, Option.map_some, hseq]
  | _ => cases hop

/-- The row an update leaves has the number its attempt drew. -/
theorem drawn_of_addUpdate {row : UpdateRow} (h : ∀ rest, c.code.run (thenTicks ticks rest) T = (.ok r, rest, T'))
    (hop : c.op.reports = true) (hrow : T'.updates = T.updates ++ [row]) :
    c.drawn ticks = some (.update row.rowSeq) := by
  obtain ⟨c, op⟩ := c
  cases op with
  | addUpdate o i u expected health summary progress =>
    have hseq : ticks[3]?.map (·.rowSeq) = some row.rowSeq := by
      refine rowSeq_of_forall fun rest => ?_
      rcases facts_of_command (h rest) with rfl | ⟨a, t₁, T₁, T₂, hT₁, hT', hbody⟩
      · simp at hrow
      · obtain ⟨-, -, update, hupdates, hseq⟩ := addUpdateBody_row hbody
        rw [hT', hupdates, hT₁] at hrow
        rw [← List.singleton_inj.mp (List.append_cancel_left hrow), hseq]
    obtain ⟨t, ht, hseq⟩ := Option.map_eq_some_iff.mp hseq
    simp only [Call.drawn, ht, Option.map_some, hseq]
  | _ => cases hop

/-- A number that a commit brings into the tables is one its attempt drew. -/
theorem serials_of_run (h : ∀ rest, c.code.run (thenTicks ticks rest) T = (.ok r, rest, T')) (n : Serial)
    (hn : T'.serials n) : T.serials n ∨ c.drawn ticks = some n := by
  cases Call.outcome (h fun _ => default) with
  | replay _ _ _ _ _ _ hT =>
    rw [hT] at hn
    exact Or.inl hn
  | fresh _ hf =>
    cases n with
    | initiative n =>
      obtain ⟨x, hx, rfl⟩ := hn
      rcases hf.initiatives with ⟨row, -, he, hop⟩ | ⟨row, row', hrow, he, -, hseq, -⟩
      · rw [he] at hx
        rcases List.mem_append.mp hx with hx | hx
        · exact Or.inl ⟨x, hx, rfl⟩
        · obtain rfl := List.mem_singleton.mp hx
          exact Or.inr (drawn_of_create h hop he)
      · rw [he] at hx
        rcases (Table.mem_put _).mp hx with hx | hx
        · exact Or.inl ⟨x, hx.1, rfl⟩
        · rw [hx.1]
          exact Or.inl ⟨row, hrow, hseq.symm⟩
    | update n =>
      obtain ⟨x, hx, rfl⟩ := hn
      rcases hf.updates with he | ⟨u, he, -, hop⟩
      · rw [he] at hx
        exact Or.inl ⟨x, hx, rfl⟩
      · rw [he] at hx
        rcases List.mem_append.mp hx with hx | hx
        · exact Or.inl ⟨x, hx, rfl⟩
        · obtain rfl := List.mem_singleton.mp hx
          exact Or.inr (drawn_of_addUpdate h hop he)

end

/-! ### The rows of a run -/

/-- What a listing orders an initiative by, and its key. -/
def InitiativeRow.entry (r : InitiativeRow) : ℤ × String × String := (r.rowSeq, r.key)

/-- An initiative keeps its number, and a new one comes last in the table. -/
theorem Fresh.entries {actor : String} {op : Op} {F F' : Facts} {r : Record} (h : Fresh actor op F r F')
    (hF : F.Keyed) : F.initiatives.map InitiativeRow.entry <+: F'.initiatives.map InitiativeRow.entry := by
  rcases h.initiatives with ⟨row, -, he, -⟩ | ⟨row, row', hrow, he, hk, hseq, -⟩ <;> rw [he]
  · rw [List.map_append]
    exact List.prefix_append _ _
  · exact ⟨[], (List.append_nil _).trans (Table.map_put hF hrow hk (Prod.ext hseq hk)).symm⟩

theorem entries_kept {T T' : Tables} {cs : List Committed} (h : History T cs T') (hT : T.toFacts.Keyed) :
    T.initiatives.map InitiativeRow.entry <+: T'.initiatives.map InitiativeRow.entry := by
  refine (h.preserves (I := fun F => F.Keyed ∧ T.initiatives.map InitiativeRow.entry <+:
    F.initiatives.map InitiativeRow.entry) ⟨hT, List.prefix_rfl⟩ fun x _ F F' r hF hf => ?_).2
  exact ⟨hf.keyed hF.1, hF.2.trans (hf.entries hF.1)⟩

section
variable {ok : Call → Prop} {w : Sequences} {S : System}

/-- The numbers of the rows are their attempts'. -/
theorem owned_of_steps (h : Txn.Steps Call.code ok (System.initial w) S) :
    Owned Call.code Call.drawn Serial.Used (fun T => T.toFacts.serials) w S := by
  have hempty : ∀ n, ¬ Tables.empty.toFacts.serials n := by
    intro n hn
    cases n <;> obtain ⟨x, hx, -⟩ := hn <;> cases hx
  exact Txn.Steps.owned draws_of_calls (fun c _ => c.probed) (fun _ _ _ _ _ hrun => serials_of_run hrun)
    (Txn.inv_initial Call.code ok _ _) (owned_initial hempty) h

/-- All numbers are from the run. -/
theorem lt_rowSeq_of_steps (h : Txn.Steps Call.code ok (System.initial w) S) :
    (∀ r ∈ S.db.initiatives, w.initiatives < r.rowSeq) ∧ ∀ u ∈ S.db.updates, w.updates < u.rowSeq := by
  have hspent := (owned_of_steps h).spent
  exact ⟨fun r hr => not_le.mp (not_or.mp (hspent (.initiative r.rowSeq) ⟨r, hr, rfl⟩).2).1,
    fun u hu => not_le.mp (not_or.mp (hspent (.update u.rowSeq) ⟨u, hu, rfl⟩).2).1⟩

/-- **No two initiatives have one number**, in every reachable system. -/
theorem rowSeqs_nodup (h : Txn.Steps Call.code ok (System.initial w) S) :
    (S.db.initiatives.map fun r => r.rowSeq).Nodup := by
  have hchain := (reachable_inv h).chain
  have hown := owned_of_steps h
  refine (hchain.preserves Call.code (I := fun T => T.toFacts.Keyed ∧ (T.initiatives.map fun r => r.rowSeq).Nodup)
    ⟨List.nodup_nil, List.nodup_nil⟩ fun x hx hI => ?_).2
  have hrun := fun rest => hchain.run Call.code hx rest
  cases Call.outcome (hrun fun _ => default) with
  | replay _ _ _ _ _ _ hT =>
    rw [hT]
    exact hI
  | fresh _ hf =>
    refine ⟨hf.keyed hI.1, ?_⟩
    rcases hf.initiatives with ⟨row, -, he, hop⟩ | ⟨row, row', hrow, he, hk, hseq, -⟩
    · -- the row of a create has the number it drew, which no row had
      rw [he, List.map_append, List.nodup_append]
      refine ⟨hI.2, List.nodup_singleton _, fun n hn m hm => ?_⟩
      obtain rfl := List.mem_singleton.mp hm
      obtain ⟨y, hy, rfl⟩ := List.mem_map.mp hn
      intro heq
      exact (hown.fresh x hx _ (drawn_of_create hrun hop he)).2 ⟨y, hy, heq⟩
    · rw [he, Table.map_put hI.1 hrow hk hseq]
      exact hI.2

end

end Portfolio
