/-
# Exactly-once commands

A receipt is stored with the effect it stands for, in one transaction, and its
key admits no second one. So the receipts and the commits of a history say the
same (`Receipts`): each receipt holds the record of a commit, and each commit
has its receipt, with its hash and its record. Attempts that fail or are
dropped are not in it, whatever statement they reached.

Key definitions: `Receipts`.
Key theorems: `receipts_of_history`, `effective_at_most_once`, `exactly_once`.
-/
import Portfolio.History

namespace Portfolio

open Txn

/-- The receipts of the tables are those of the commits. -/
structure Receipts (cs : List Committed) (T : Tables) : Prop where
  unique : Table.Unique CommandRow.key T.commands
  /-- Each receipt is that of a commit whose body ran. -/
  issued : ∀ row ∈ T.commands, ∃ x ∈ cs, x.Fresh ∧
    row = ⟨x.call.key, x.call.command.hash, some x.result.toJson⟩
  /-- Each commit finds its receipt, and its record in it. -/
  stored : ∀ x ∈ cs, ∃ row j, T.command x.call.key = some row ∧ row.requestHash = x.call.command.hash ∧
    row.responseJson = some j ∧ x.call.op.decode j = some x.result

/-- A receipt is read by its operation's name alone. -/
theorem decode_congr {op op' : Op} (h : op.name = op'.name) (j : Json) : op.decode j = op'.decode j := by
  cases op <;> cases op' <;> first | rfl | (simp [Op.name] at h)

theorem name_of_key {c c' : Call} (h : c.key = c'.key) : c.op.name = c'.op.name :=
  congrArg CommandKey.operation h

theorem command_append_of_some {T : Tables} {k : CommandKey} {row row' : CommandRow}
    (h : T.command k = some row) : Tables.command { T with commands := T.commands ++ [row'] } k = some row := by
  rw [Tables.command] at h ⊢
  rw [List.filter_append, List.head?_append, h, Option.some_or]

theorem command_append_of_none {T : Tables} {k : CommandKey} {row : CommandRow}
    (h : T.command k = none) (hk : row.key = k) :
    Tables.command { T with commands := T.commands ++ [row] } k = some row := by
  have hempty : T.commands.filter (CommandRow.has k) = [] := List.head?_eq_none_iff.mp h
  simp [Tables.command, hempty, CommandRow.has, hk]

/-- The receipts of a history. -/
theorem receipts_of_history {cs : List Committed} {T : Tables} (h : History Tables.empty cs T) :
    Receipts cs T := by
  induction h with
  | nil => exact ⟨List.nodup_nil, fun row hrow => (List.not_mem_nil hrow).elim,
      fun x hx => (List.not_mem_nil hx).elim⟩
  | @snoc s' cs x h hb hx ih =>
    have ho : Outcome x.call x.before x.result x.after := by
      rw [hb]
      exact Call.outcome (hx fun _ => default)
    cases ho with
    | replay row j hrow hh hj hr hT =>
      rw [hT, hb]
      rw [hb] at hrow
      refine ⟨ih.unique, fun row' hrow' => ?_, fun y hy => ?_⟩
      · obtain ⟨y, hy, hrest⟩ := ih.issued row' hrow'
        exact ⟨y, List.mem_append_left _ hy, hrest⟩
      · rcases List.mem_append.mp hy with hy | hy
        · exact ih.stored y hy
        · obtain rfl := List.mem_singleton.mp hy
          exact ⟨row, j, hrow, hh, hj, hr⟩
    | fresh hnone hf hr hT =>
      rw [hb] at hnone hT
      have hcommand : ∀ k, x.after.command k =
          Tables.command { s' with commands := s'.commands ++
            [⟨x.call.key, x.call.command.hash, some x.result.toJson⟩] } k := by
        intro k
        rw [Tables.command, Tables.command, hT]
      refine ⟨?_, fun row' hrow' => ?_, fun y hy => ?_⟩
      · rw [hT]
        refine ih.unique.append fun row hrow he => ?_
        have hempty := List.filter_eq_nil_iff.mp (List.head?_eq_none_iff.mp hnone) row hrow
        simp [CommandRow.has, he] at hempty
      · rw [hT] at hrow'
        rcases List.mem_append.mp hrow' with hrow' | hrow'
        · obtain ⟨y, hy, hrest⟩ := ih.issued row' hrow'
          exact ⟨y, List.mem_append_left _ hy, hrest⟩
        · refine ⟨x, List.mem_append_right _ (List.mem_singleton_self x), ?_, List.mem_singleton.mp hrow'⟩
          rw [Committed.Fresh, hb]
          exact hnone
      · rw [hcommand]
        rcases List.mem_append.mp hy with hy | hy
        · obtain ⟨row, j, hrow, hrest⟩ := ih.stored y hy
          exact ⟨row, j, command_append_of_some hrow, hrest⟩
        · obtain rfl := List.mem_singleton.mp hy
          exact ⟨_, _, command_append_of_none hnone rfl, rfl, rfl, hr⟩

section
variable {cs : List Committed} {T : Tables}

/-- Two commits with one key carry one hash and return one record. -/
theorem Receipts.agree (h : Receipts cs T) {x y : Committed} (hx : x ∈ cs) (hy : y ∈ cs)
    (hk : x.call.key = y.call.key) :
    x.result = y.result ∧ x.call.command.hash = y.call.command.hash := by
  obtain ⟨row, j, hrow, hh, hj, hr⟩ := h.stored x hx
  obtain ⟨row', j', hrow', hh', hj', hr'⟩ := h.stored y hy
  rw [hk, hrow'] at hrow
  obtain rfl := Option.some.inj hrow
  rw [hj'] at hj
  obtain rfl := Option.some.inj hj
  rw [decode_congr (name_of_key hk), hr'] at hr
  exact ⟨(Option.some.inj hr).symm, hh.symm.trans hh'⟩

/-- A replay returns the record of a fresh success that carries the stored hash. -/
theorem Receipts.replayed (h : Receipts cs T) {c : Call} {row : CommandRow} {j : Json} {r : Record}
    (hrow : T.command c.key = some row) (hj : row.responseJson = some j) (hr : c.op.decode j = some r) :
    ∃ x ∈ cs, x.Fresh ∧ x.call.command.hash = row.requestHash ∧ x.result = r := by
  obtain ⟨hmem, hkey⟩ := command_mem hrow
  obtain ⟨x, hx, hfresh, rfl⟩ := h.issued row hmem
  change x.call.key = c.key at hkey
  obtain ⟨row', j', hrow', -, hj', hr'⟩ := h.stored x hx
  rw [hkey, hrow] at hrow'
  obtain rfl := Option.some.inj hrow'
  rw [hj] at hj'
  obtain rfl := Option.some.inj hj'
  rw [decode_congr (name_of_key hkey), hr] at hr'
  exact ⟨x, hx, hfresh, rfl, (Option.some.inj hr').symm⟩

/-- A receipt that was not there is that of a commit since. -/
theorem Receipts.issued_since {ds : List Committed} {T' : Tables} {k : CommandKey} {row : CommandRow}
    (h : Receipts cs T) (h' : Receipts (cs ++ ds) T') (hnone : T.command k = none) (hrow : T'.command k = some row) :
    ∃ x ∈ ds, x.Fresh ∧ x.call.key = k := by
  obtain ⟨hmem, hkey⟩ := command_mem hrow
  obtain ⟨x, hx, hfresh, rfl⟩ := h'.issued row hmem
  change x.call.key = k at hkey
  rcases List.mem_append.mp hx with hx | hx
  · -- an earlier one would have left its receipt
    obtain ⟨row', -, hrow', -⟩ := h.stored x hx
    rw [hkey, hnone] at hrow'
    cases hrow'
  · exact ⟨x, hx, hfresh, hkey⟩

/-- A key whose receipt is stored has no fresh success any more. -/
theorem not_fresh_of_before {ds : List Committed} {x y : Committed}
    (h : History Tables.empty (cs ++ x :: ds) T) (hy : y ∈ cs) (hk : y.call.key = x.call.key) : ¬ x.Fresh := by
  obtain ⟨row, j, hrow, -⟩ := (receipts_of_history (h.around Call.code).1).stored y hy
  rw [Committed.Fresh, ← hk, hrow]
  exact Option.some_ne_none row

theorem fresh_of_effective {x : Committed} (h : Outcome x.call x.before x.result x.after) (hx : x.Effective) :
    x.Fresh := by
  by_contra hf
  exact hx (by rw [after_of_not_fresh h hf])

/-- Among the commits with one key at most one is a fresh success. -/
theorem fresh_at_most_once (h : History Tables.empty cs T) (k : CommandKey) :
    (cs.filter fun x => decide (x.call.key = k) && decide x.Fresh).length ≤ 1 := by
  refine length_filter_le_one fun before x after y hcs hy hyk => ?_
  subst hcs
  simp only [Bool.and_eq_true, decide_eq_true_eq] at hyk
  by_cases hk : x.call.key = k
  · simp [not_fresh_of_before h hy (hyk.1.trans hk.symm)]
  · simp [hk]

/-- Each commit has the fresh success whose record it returns. -/
theorem Receipts.origin (h : Receipts cs T) {x : Committed} (hx : x ∈ cs) :
    ∃ y ∈ cs, y.Fresh ∧ y.call.key = x.call.key ∧ y.call.command.hash = x.call.command.hash ∧
      y.result = x.result := by
  obtain ⟨row, j, hrow, hh, hj, hr⟩ := h.stored x hx
  obtain ⟨hmem, hkey⟩ := command_mem hrow
  obtain ⟨y, hy, hfresh, rfl⟩ := h.issued row hmem
  exact ⟨y, hy, hfresh, hkey, hh, (h.agree hy hx hkey).1⟩

end

theorem filter_sublist_of_imp {α : Type*} {p q : α → Bool} : ∀ {l : List α},
    (∀ a ∈ l, p a = true → q a = true) → (l.filter p).Sublist (l.filter q)
  | [], _ => List.Sublist.refl _
  | a :: l, h => by
    have ih := filter_sublist_of_imp fun b hb => h b (List.mem_cons_of_mem _ hb)
    cases hp : p a with
    | true =>
      rw [List.filter_cons_of_pos hp, List.filter_cons_of_pos (h a List.mem_cons_self hp)]
      exact ih.cons_cons a
    | false =>
      rw [List.filter_cons_of_neg (by simp [hp])]
      exact ih.trans ((List.sublist_cons_self a l).filter q)

/-- A stored receipt with its answer does not put a call off. -/
theorem next_command {α β : Type} {c : Command} {operation : String} {codec : Codec α} {body : Tx α}
    {wrap : α → β} {t : Tick} {T : Tables}
    (h : ∀ row, T.command (c.receipt operation) = some row → row.responseJson ≠ none) :
    (command c operation codec body >>= fun r => pure (wrap r)).next t T ≠ .throw (.domain .operationInProgress) := by
  rw [command, admitCommand, Prog.bind_assoc, Prog.bind_assoc, next_perform_bind, Sql.selectCommand]
  rcases Sql.of_run [(c.receipt operation).callerInstance, (c.receipt operation).actorSubject,
    (c.receipt operation).operation, (c.receipt operation).idempotencyKey] _
    (fun _ T => .ok (T.command (c.receipt operation), [])) t T with ⟨e, he⟩ | ⟨b, ws, -, -, hb, hrun⟩
  · rw [he]
    simp
  · rw [hrun]
    obtain ⟨rfl, -⟩ := Prod.mk.inj (Except.ok.inj hb)
    cases hrow : T.command (c.receipt operation) with
    | none => simp [Prog.attempt]
    | some row =>
      obtain ⟨response, hj⟩ := Option.ne_none_iff_exists'.mp (h row hrow)
      simp only [hj]
      split
      · simp [refuse]
      · cases codec.dec response <;> simp

/-- **Exactly-once commands.** Whatever the interleaving of attempts, failed and dropped ones
included: of the commits with one key at most one changes the facts; two attempts that return under
one key return one record and carry one hash, and the receipt still decodes to that record; no
committed receipt is without its answer, so the first statement of a call never meets one that is in
progress. -/
theorem exactly_once {ok : Call → Prop} {w : Sequences} {S : System}
    (h : Txn.Steps Call.code ok (System.initial w) S) :
    (∀ k, (S.commits.filter fun x => decide (x.call.key = k) && decide (Committed.Effective x)).length ≤ 1) ∧
    (∀ i j c c' a a', S.threads i = .committed c a → S.threads j = .committed c' a' → c.key = c'.key →
      a = a' ∧ c.command.hash = c'.command.hash) ∧
    (∀ i c a, S.threads i = .committed c a → ∃ row json, S.db.command c.key = some row ∧
      row.requestHash = c.command.hash ∧ row.responseJson = some json ∧ c.op.decode json = some a) ∧
    (∀ row ∈ S.db.commands, row.responseJson ≠ none) ∧
    (∀ (c : Call) (t : Tick), c.code.next t S.db ≠ .throw (.domain .operationInProgress)) := by
  have hinv := reachable_inv h
  have hr := receipts_of_history hinv.chain
  have hanswer : ∀ row ∈ S.db.commands, row.responseJson ≠ none := by
    intro row hrow
    obtain ⟨x, -, -, rfl⟩ := hr.issued row hrow
    exact Option.some_ne_none _
  refine ⟨fun k => ?_, fun i j c c' a a' hi hj hk => ?_, fun i c a hi => ?_, hanswer, fun c t => ?_⟩
  · refine le_trans (List.Sublist.length_le ?_) (fresh_at_most_once hinv.chain k)
    have himp : ∀ x ∈ S.commits, Committed.Effective x → Committed.Fresh x := fun x hx =>
      fresh_of_effective (outcome_of_mem hinv.chain hx)
    exact filter_sublist_of_imp fun x hx hxk => by
      simp only [Bool.and_eq_true, decide_eq_true_eq] at hxk ⊢
      exact ⟨hxk.1, himp x hx hxk.2⟩
  · obtain ⟨x, hx, -, rfl, rfl⟩ := (hinv.committed i c a).mp hi
    obtain ⟨y, hy, -, rfl, rfl⟩ := (hinv.committed j c' a').mp hj
    exact hr.agree hx hy hk
  · obtain ⟨x, hx, -, rfl, rfl⟩ := (hinv.committed i c a).mp hi
    exact hr.stored x hx
  · have hrow : ∀ row, S.db.command c.key = some row → row.responseJson ≠ none := fun row hrow =>
      hanswer row (command_mem hrow).1
    obtain ⟨c, op⟩ := c
    cases op <;> exact next_command hrow

/-- A create that is dropped after its INSERT, made again, and repeated. -/
def retried : List (ℕ × Txn.Move Tick Call) :=
  [(0, .start (sampleCreate "alpha"))] ++ (sampleTicks 1 4).map (fun t => (0, .exec t)) ++ [(0, .drop)] ++
    Txn.attempt 1 (sampleCreate "alpha") (sampleTicks 2 6) ++ Txn.attempt 2 (sampleCreate "alpha") (sampleTicks 2 1)

/-- Both that return get one record, and one of them was effective. -/
theorem exactly_once_retried : ∃ (S : System) (a : Record),
    S.threads 1 = .committed (sampleCreate "alpha") a ∧ S.threads 2 = .committed (sampleCreate "alpha") a ∧
    (S.commits.filter fun x =>
      decide (x.call.key = (sampleCreate "alpha").key) && decide (Committed.Effective x)).length ≤ 1 ∧
    S.commits.length = 2 ∧ S.db.initiatives.length = 1 := by
  have hrun : ((System.initial ⟨0, 0⟩).schedule Call.code 3 retried).bind (fun S =>
      (S.schedule Call.code 3 []).map fun S' => (S'.commits.map fun x => (x.thread, x.call),
        S'.db.initiatives.length)) =
      some ([(1, sampleCreate "alpha"), (2, sampleCreate "alpha")], 1) := by decide +kernel
  obtain ⟨S, S', h, h', hfacts⟩ := @System.scheduled (fun _ => True) _ _ _ _ _ _ _ hrun (by decide)
    fun _ _ _ _ => trivial
  obtain ⟨hcommits, hrows⟩ := Prod.mk.inj hfacts
  obtain ⟨honce, hagree, -⟩ := exactly_once (h.trans h')
  obtain ⟨a, h1⟩ := returned_of_mem (reachable_inv (h.trans h')) (i := 1) (c := sampleCreate "alpha")
    (by simp [hcommits])
  obtain ⟨b, h2⟩ := returned_of_mem (reachable_inv (h.trans h')) (i := 2) (c := sampleCreate "alpha")
    (by simp [hcommits])
  obtain ⟨rfl, -⟩ := hagree 1 2 _ _ a b h1 h2 rfl
  have hlength : S'.commits.length = 2 := by simpa using congrArg List.length hcommits
  exact ⟨S', a, h1, h2, honce _, hlength, hrows⟩

end Portfolio
