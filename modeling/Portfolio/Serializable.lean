/-
# Serializability

Whatever the interleaving, the committed calls one after another, each in one
piece and in the order of their commits, give the committed tables and every
record, if each runs with the ticks it was given: its clock values and the
value of the sequence it drew. It drew that value before its commit, so the
order of `row_seq` need not be the order of the commits
(`sequence_not_in_commit_order`).

Of the calls that ask for one revision of one initiative at most one is a
fresh success; and if the hash of a request stands for the request, the
replays do not add one with another key.

Key definitions: `Faithful`, `SameSequence`.
Key theorems: `fresh_of_revision_at_most_once`, `serializable`.
-/
import Portfolio.ExactlyOnce
import Portfolio.Revisions

namespace Portfolio

open Txn Txn.Prog

/-- The hash of a request stands for the request: of the admissible calls, those under one key with
one hash are of one operation. -/
def Faithful (ok : Call → Prop) : Prop :=
  ∀ c c', ok c → ok c' → c.key = c'.key → c.command.hash = c'.command.hash → c.op = c'.op

section
variable {cs ds : List Committed} {T T' : Tables} {x y : Committed} {o i : String} {n : ℤ}

/-- After a fresh success the revision it asked for is gone. -/
theorem not_fresh_of_revision (h : History T (cs ++ x :: ds) T') (hy : y ∈ cs) (hyf : y.Fresh)
    (hyon : y.call.op.On o i) (hyn : y.call.op.expected = some n) (hxon : x.call.op.On o i)
    (hxn : x.call.op.expected = some n) : ¬ x.Fresh := by
  intro hxf
  obtain ⟨rfl, rfl⟩ := hxon
  have hx := (fresh_of_fresh (outcome_of_mem h (by simp)) hxf).expected hxn
  obtain ⟨before, after, rfl⟩ := List.append_of_mem hy
  have hb := (h.around Call.code).1
  have hyo := outcome_of_mem hb hy
  have hye := (fresh_of_fresh hyo hyf).expected hyn
  have hya := (revision_of_commit hyo ⟨hyf, hyon⟩).1
  rw [hyon.1, hyon.2] at hye
  -- from the commit of `y` on the version is above `n`
  have hle := Versioned.run_le (version_path (hb.around Call.code).2 x.call.op.organizationId x.call.op.initiativeId)
  simp only [Facts.version, hya, hye, hx, nextRevision, Option.getD_some] at hle
  omega

/-- Of the calls that ask for one revision of an initiative at most one is a fresh success. -/
theorem fresh_of_revision_at_most_once (h : History T cs T') (o i : String) (n : ℤ) :
    (cs.filter fun x => decide x.Fresh && decide (x.call.op.On o i) &&
      decide (x.call.op.expected = some n)).length ≤ 1 := by
  refine length_filter_le_one fun before x after y hcs hy hyp => ?_
  subst hcs
  simp only [Bool.and_eq_true, decide_eq_true_eq] at hyp
  obtain ⟨⟨hyf, hyon⟩, hyn⟩ := hyp
  by_cases hx : x.call.op.On o i ∧ x.call.op.expected = some n
  · simp [not_fresh_of_revision h hy hyf hyon hyn hx.1 hx.2]
  · rcases not_and_or.mp hx with hx | hx <;> simp [hx]

theorem eq_of_length_le_one {α : Type*} {l : List α} {a b : α} (h : l.length ≤ 1) (ha : a ∈ l) (hb : b ∈ l) :
    a = b := by
  match l, h with
  | [c], _ => rw [List.mem_singleton.mp ha, List.mem_singleton.mp hb]

/-- Two commits that ask for one revision of an initiative have one key. -/
theorem key_of_revision {ok : Call → Prop} (hok : Faithful ok) (h : History Tables.empty cs T)
    (hall : ∀ x ∈ cs, ok x.call) (hx : x ∈ cs) (hy : y ∈ cs) (hxon : x.call.op.On o i) (hyon : y.call.op.On o i)
    (hxn : x.call.op.expected = some n) (hyn : y.call.op.expected = some n) : x.call.key = y.call.key := by
  obtain ⟨x', hx', hxf, hxk, hxh, -⟩ := (receipts_of_history h).origin hx
  obtain ⟨y', hy', hyf, hyk, hyh, -⟩ := (receipts_of_history h).origin hy
  have hxop := hok _ _ (hall x' hx') (hall x hx) hxk hxh
  have hyop := hok _ _ (hall y' hy') (hall y hy) hyk hyh
  have hlen := fresh_of_revision_at_most_once h o i n
  have hmem : ∀ {z : Committed}, z ∈ cs → z.Fresh → z.call.op.On o i → z.call.op.expected = some n →
      z ∈ cs.filter fun x => decide x.Fresh && decide (x.call.op.On o i) &&
        decide (x.call.op.expected = some n) := by
    intro z hz hzf hzon hzn
    refine List.mem_filter.mpr ⟨hz, ?_⟩
    simp [hzf, hzon, hzn]
  have hxy : x' = y' := eq_of_length_le_one hlen (hmem hx' hxf (hxop ▸ hxon) (hxop ▸ hxn))
    (hmem hy' hyf (hyop ▸ hyon) (hyop ▸ hyn))
  rw [← hxk, ← hyk, hxy]

end

/-- Two creates, of which the second draws later and commits first. -/
def overtaken : List (ℕ × Move Tick Call) :=
  [(0, .start (sampleCreate "alpha"))] ++ (sampleTicks 1 3).map (fun t => (0, .exec t)) ++
    Txn.attempt 1 (sampleCreate "beta") (sampleTicks 2 6) ++
    (sampleTicks 1 3).map (fun t => (0, .exec t)) ++ [(0, .commit)]

/-- Where they lead. -/
theorem overtaken_run {ok : Call → Prop} (hok : ∀ i, ok (sampleCreate i)) :
    ∃ S : System, Txn.Steps Call.code ok (System.initial ⟨0, 0⟩) S ∧
      S.commits.map (fun x => x.call) = [sampleCreate "beta", sampleCreate "alpha"] ∧
      (S.db.initiative "acme" "alpha").map (fun r => r.rowSeq) = some 1 ∧
      (S.db.initiative "acme" "beta").map (fun r => r.rowSeq) = some 2 := by
  have hrun : ((System.initial ⟨0, 0⟩).schedule Call.code 2 overtaken).bind (fun S =>
      (S.schedule Call.code 2 []).map fun S' => (S'.commits.map fun x => x.call,
        (S'.db.initiative "acme" "alpha").map (fun r => r.rowSeq),
        (S'.db.initiative "acme" "beta").map fun r => r.rowSeq)) =
      some ([sampleCreate "beta", sampleCreate "alpha"], some 1, some 2) := by decide +kernel
  have hstarts : ∀ x ∈ overtaken, ∀ c, x.2 = .start c → c = sampleCreate "alpha" ∨ c = sampleCreate "beta" := by
    simp [overtaken, Txn.attempt, sampleTicks, List.replicate]
  have hadmitted : ∀ x ∈ overtaken ++ [], ∀ c, x.2 = .start c → ok c := by
    intro x hx c hc
    rcases hstarts x (by simpa using hx) c hc with rfl | rfl
    · exact hok "alpha"
    · exact hok "beta"
  obtain ⟨S, S', h, h', hfacts⟩ := System.scheduled hrun (by decide) hadmitted
  obtain ⟨hcalls, hseq⟩ := Prod.mk.inj hfacts
  exact ⟨S', h.trans h', hcalls, Prod.mk.inj hseq⟩

/-- **Concurrent mutations are serializable in commit order.** What a run commits, from any
reachable system on, is what its committed calls leave and return when they run in one piece one
after another, in commit order, each with the ticks it was given; and each call that returned is one
of them, once. Of those that ask for one revision of one initiative at most one is a fresh success,
and where hashes stand for requests all that return have one key. -/
theorem serializable {ok : Call → Prop} {w : Sequences} {S S' : System}
    (h : Txn.Steps Call.code ok (System.initial w) S) (h' : Txn.Steps Call.code ok S S') :
    (∃ cs, S'.commits = S.commits ++ cs ∧ ∀ rest,
      serially Call.code (cs.map fun x => (x.call, thenTicks x.ticks rest)) S.db =
        (cs.map fun x => .ok x.result, S'.db)) ∧
    (∀ i c a, S'.threads i = .committed c a ↔ ∃ x ∈ S'.commits, x.thread = i ∧ x.call = c ∧ x.result = a) ∧
    (S'.commits.map fun x => x.thread).Nodup ∧
    (∀ o i n, (S'.commits.filter fun x => decide (Committed.Fresh x) && decide (x.call.op.On o i) &&
      decide (x.call.op.expected = some n)).length ≤ 1) ∧
    (Faithful ok → ∀ j k c c' a a' o i n, S'.threads j = .committed c a → S'.threads k = .committed c' a' →
      c.op.On o i → c'.op.On o i → c.op.expected = some n → c'.op.expected = some n → c.key = c'.key) := by
  obtain ⟨cs, hcs, hlater⟩ := later_history h h'
  have hinv := reachable_inv (h.trans h')
  refine ⟨⟨cs, hcs, hlater.serially Call.code⟩, hinv.committed, hinv.once,
    fresh_of_revision_at_most_once hinv.chain, fun hok j k c c' a a' o i n hj hk hon hon' hn hn' => ?_⟩
  obtain ⟨x, hx, -, rfl, -⟩ := (hinv.committed j c a).mp hj
  obtain ⟨y, hy, -, rfl, -⟩ := (hinv.committed k c' a').mp hk
  exact key_of_revision hok hinv.chain hinv.admitted hx hy hon hon' hn hn'

/-- An initiative is archived at its first revision, and the archive is repeated. -/
def repeated : List (ℕ × Move Tick Call) :=
  Txn.attempt 0 (sampleCreate "alpha") (sampleTicks 1 6) ++
    (Txn.attempt 1 (sampleArchive "alpha" 1) (sampleTicks 1 5) ++
      Txn.attempt 2 (sampleArchive "alpha" 1) (sampleTicks 1 1))

/-- Two creates that run into each other, the second committing first, are as if in that order; two archives at one
revision that both return have one key. -/
theorem serializable_overtaken : (∃ S : System,
    S.commits.map (fun x => x.call) = [sampleCreate "beta", sampleCreate "alpha"] ∧
    ∀ rest, serially Call.code (S.commits.map fun x => (x.call, thenTicks x.ticks rest)) Tables.empty =
      (S.commits.map fun x => .ok x.result, S.db)) ∧
    ∃ (S : System) (c c' : Call) (a a' : Record), S.threads 1 = .committed c a ∧ S.threads 2 = .committed c' a' ∧
      (c.op.expected = some 1 ∧ c'.op.expected = some 1) ∧ c.key = c'.key := by
  constructor
  · obtain ⟨S, h, hcalls, -⟩ := @overtaken_run (fun c => ∃ i, c = sampleCreate i) fun i => ⟨i, rfl⟩
    obtain ⟨⟨cs, hcs, hserial⟩, -⟩ := serializable .refl h
    obtain rfl : S.commits = cs := hcs
    exact ⟨S, hcalls, hserial⟩
  · have hrun : ((System.initial ⟨0, 0⟩).schedule Call.code 3 repeated).bind (fun S =>
        (S.schedule Call.code 3 []).map fun S' => S'.commits.map fun x => (x.thread, x.call)) =
        some [(0, sampleCreate "alpha"), (1, sampleArchive "alpha" 1), (2, sampleArchive "alpha" 1)] :=
            by decide +kernel
    have hstarts : ∀ x ∈ repeated ++ [], ∀ c, x.2 = .start c → c = sampleCreate "alpha" ∨ c = sampleArchive "alpha" 1 :=
      Txn.starts_append (Txn.starts_append (Txn.starts_attempt (Or.inl rfl))
        (Txn.starts_append (Txn.starts_attempt (Or.inr rfl)) (Txn.starts_attempt (Or.inr rfl)))) Txn.starts_nil
    obtain ⟨S, S', h, h', hcalls⟩ := System.scheduled hrun (by decide) hstarts
    obtain ⟨-, hcommitted, -, -, hone⟩ := serializable h h'
    have hmem : ∀ i c, (i, c) ∈ [(0, sampleCreate "alpha"), (1, sampleArchive "alpha" 1),
        (2, sampleArchive "alpha" 1)] →
        ∃ a, S'.threads i = .committed c a := by
      intro i c hic
      rw [← hcalls] at hic
      obtain ⟨x, hx, he⟩ := List.mem_map.mp hic
      obtain ⟨rfl, rfl⟩ := Prod.mk.inj he
      exact ⟨x.result, (hcommitted _ _ _).mpr ⟨x, hx, rfl, rfl, rfl⟩⟩
    obtain ⟨a, ha⟩ := hmem 1 (sampleArchive "alpha" 1) (by simp)
    obtain ⟨a', ha'⟩ := hmem 2 (sampleArchive "alpha" 1) (by simp)
    have hfaithful : Faithful fun c => c = sampleCreate "alpha" ∨ c = sampleArchive "alpha" 1 := by
      rintro c c' (rfl | rfl) (rfl | rfl) hk -
      · rfl
      · exact absurd hk (by decide)
      · exact absurd hk (by decide)
      · rfl
    exact ⟨S', _, _, a, a', ha, ha', ⟨rfl, rfl⟩,
      hone hfaithful 1 2 _ _ a a' "acme" "alpha" 1 ha ha' ⟨rfl, rfl⟩ ⟨rfl, rfl⟩ rfl rfl⟩

/-! ### The sequence and the commits -/

section
variable {α β : Type} {c : Command} {operation : String} {t t' : ℕ → Tick} {T T' : Tables}

theorem still_perform {binds : List String} {locks : Tables → List Lock}
    {body : Tick → Tables → Except DbError (β × List Write)} (err : DbError → StorageError) :
    (perform (Sql.of binds locks body) err).Still := by
  intro t T w
  refine ⟨rfl, ?_⟩
  cases ((Sql.of binds locks body).run t T).1 <;> trivial

theorem still_select {binds : List String} {answer : Tables → β} (err : DbError → StorageError) :
    (perform (Sql.select binds answer) err).Still := still_perform err

theorem still_attempt {binds : List String} {locks : Tables → List Lock}
    {body : Tick → Tables → Except DbError (β × List Write)} {f : Except DbError β → Tx α} (hf : ∀ r, (f r).Still) :
    (attempt (Sql.of binds locks body) >>= f).Still := fun _ _ _ => ⟨rfl, hf _⟩

theorem still_admitCommand (codec : Codec α) : (admitCommand c operation codec).Still := by
  refine (still_perform _).bind fun existing => ?_
  rcases existing with _ | row
  · refine still_attempt fun r => ?_
    rcases r with e | _
    · cases e <;> trivial
    · trivial
  · simp only
    split
    · trivial
    split
    · trivial
    split <;> trivial

theorem still_readInitiative (o i : String) : (readInitiative o i).Still := by
  refine Prog.Still.bind (still_select _) fun row => ?_
  rcases row with _ | ⟨row, projectCount⟩
  · trivial
  · show (formatted (initiativeFromRow row projectCount)).Still
    cases initiativeFromRow row projectCount <;> trivial

/-- In one piece a create appends its row, with a value drawn from the world it runs in. -/
theorem create_serial {v : InitiativeCreate} {ts : List Tick} {w w' : Sequences} {r : Record}
    (hnone : T.command (c.receipt "create_initiative") = none)
    (h : (Call.code ⟨c, .createInitiative v⟩).exec ts T w = some (.ok r, T', w')) :
    (∃ row, T'.initiatives = T.initiatives ++ [row] ∧ row.organizationId = v.organizationId ∧
      row.initiativeId = v.initiativeId ∧ w.initiatives < row.rowSeq ∧ row.rowSeq = w'.initiatives) ∧
      ∃ row, T'.commands = T.commands ++ [row] ∧ row.key = c.receipt "create_initiative" := by
  have hout := Call.outcome (exec_run h fun _ => default)
  refine ⟨?_, ?_⟩
  swap
  · cases hout with
    | replay row j hrow => exact absurd (hnone.symm.trans hrow) (by simp)
    | fresh _ _ _ hT => exact ⟨_, hT, rfl⟩
  obtain ⟨r, ts₀, ts₀', T₀, w₀, -, h, hret⟩ := exec_bind_ok h
  obtain rfl : w' = w₀ := Prog.Still.world (p := Prog.ret (Record.initiative r)) trivial hret
  obtain ⟨-, -, rfl⟩ := ret_ok (exec_run hret fun _ => default)
  obtain ⟨x, ts₁, ts₂, T₁, w₁, -, h1, h2⟩ := exec_bind_ok h
  obtain rfl := (still_admitCommand _).world h1
  rcases admitCommand_ok (exec_run h1 fun _ => default) with ⟨row, j, a, hrow, -⟩ | ⟨-, rfl, rfl⟩
  · rw [hnone] at hrow
    cases hrow
  obtain ⟨record, ts₃, ts₄, T₂, w₂, -, h3, h4⟩ := exec_bind_ok h2
  obtain ⟨u, ts₅, ts₆, T₃, w₃, -, h5, h6⟩ := exec_bind_ok h4
  have hfacts := finishCommand_facts (exec_run h5 fun _ => default)
  obtain rfl : w₃ = w₂ := (still_perform _).world h5
  obtain rfl : w' = w₃ := Prog.Still.world (p := Prog.ret record) trivial h6
  obtain ⟨-, -, rfl⟩ := ret_ok (exec_run h6 fun _ => default)
  obtain ⟨-, -, -, hT⟩ := createInitiativeBody_row (exec_run h3 fun _ => default)
  obtain ⟨t, us, w₄, rfl, hw, h7⟩ := exec_call h3
  obtain ⟨⟨hlt, -⟩, hw₄⟩ := Option.ite_none_right_eq_some.mp hw
  obtain rfl := Option.some.inj hw₄
  have hw' : w' = { w₁ with initiatives := t.rowSeq } := by
    refine Prog.Still.world ?_ h7
    by_cases hf : t.fault = true
    · simp only [Sql.nextInitiativeSeq, Sql.nextval, hf]
      trivial
    · simp only [Sql.nextInitiativeSeq, Sql.nextval, hf]
      refine Prog.Still.bind (p := Prog.ret t.rowSeq) trivial fun rowSeq => still_attempt fun r => ?_
      rcases r with e | _
      · cases e <;> trivial
      · exact still_readInitiative _ _
  exact ⟨_, by rw [hfacts, hT], rfl, rfl, hlt, congrArg Sequences.initiatives hw'.symm⟩

end

/-- The same initiatives, with values of the sequence in the same order: but for gaps, the same. -/
def SameSequence (T T' : Tables) : Prop :=
  ∃ f : ℤ → ℤ, StrictMono f ∧ ∀ o i,
    (T'.initiative o i).map (fun r => r.rowSeq) = ((T.initiative o i).map fun r => r.rowSeq).map f

/-- The order of the sequence is not that of the commits: no serial run of the commits, in their
order, draws the values of this run, gaps aside. -/
theorem sequence_not_in_commit_order :
    ∃ S : System, Txn.Steps Call.code (fun _ => True) (System.initial ⟨0, 0⟩) S ∧
      ∀ T w, Txn.Serial Call.code Tables.empty ⟨0, 0⟩ (S.commits.map fun x => x.call) T w →
        ¬ SameSequence S.db T := by
  obtain ⟨S, hsteps, hcalls, halpha, hbeta⟩ := @overtaken_run (fun _ => True) fun _ => trivial
  refine ⟨S, hsteps, fun T w h => ?_⟩
  rw [hcalls] at h
  -- in the serial run beta's row comes first and draws first
  cases h with
  | @cons _ T₁ _ _ w₁ _ _ _ _ _ h1 h =>
    cases h with
    | cons h2 h =>
      cases h
      obtain ⟨⟨beta, hbeta₁, hbo, hbi, -, hbw⟩, receipt, hcommands, hkey⟩ :=
        create_serial (c := (sampleCreate "beta").command) rfl h1
      have hnone : T₁.command ((sampleCreate "alpha").key) = none := by
        have hne : receipt.key ≠ (sampleCreate "alpha").key := by
          rw [hkey]
          decide
        simp [Tables.command, hcommands, Tables.empty, CommandRow.has, hne]
      obtain ⟨⟨alpha, halpha₁, hao, hai, hlt, -⟩, -⟩ := create_serial hnone h2
      rw [hbeta₁] at halpha₁
      rintro ⟨f, hf, hsame⟩
      have hTalpha : T.initiative "acme" "alpha" = some alpha := by
        rw [Facts.initiative, halpha₁]
        simp [Tables.empty, InitiativeRow.at, hao, hai, hbi]
      have hTbeta : T.initiative "acme" "beta" = some beta := by
        rw [Facts.initiative, halpha₁]
        simp [Tables.empty, InitiativeRow.at, hao, hai, hbo, hbi]
      have h3 := hsame "acme" "alpha"
      have h4 := hsame "acme" "beta"
      rw [hTalpha, halpha, Option.map_some, Option.map_some] at h3
      rw [hTbeta, hbeta, Option.map_some, Option.map_some] at h4
      have hdraws : beta.rowSeq < alpha.rowSeq := hbw ▸ hlt
      rw [Option.some.inj h3, Option.some.inj h4] at hdraws
      exact absurd (hf (show (1 : ℤ) < 2 by decide)) (not_lt_of_gt hdraws)

end Portfolio
