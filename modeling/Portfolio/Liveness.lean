/-
# Every attempt ends

A mutation issues a bounded number of statements (`Op.statements`), whatever the
database answers: eight at most, nine for an attach, and for a reorder one for
each of its items and seven. It locks in order, so no attempts wait in a circle.
Whatever state the attempts have reached, then, and however their statements
come to run, no run without new attempts is longer than the statements they have
left; somebody can always go on; and all that are open can be brought to their
end, none of them dropped.

A sequence that has come to the end of `bigint` draws no more: `Supply` counts
what is left.

Key definitions: `Op.statements`, `Supply`.
Key theorems: `Call.within`, `Call.supplied`, `every_attempt_ends`.
-/
import Portfolio.Deadlock
import Portfolio.Numbers
import Portfolio.Rendering
import Portfolio.Txn.Ending

namespace Portfolio

open Txn Txn.Prog

/-- The most statements the operation issues. -/
def Op.statements : Op → ℕ
  | .createInitiative _ => 6
  | .updateInitiative .. => 6
  | .addUpdate .. => 8
  | .archiveInitiative .. => 5
  | .attachProject .. => 9
  | .updateProjectSnapshot .. => 8
  | .detachProject .. => 6
  | .reorderProjects _ _ _ items => items.length + 7

section
variable {α β : Type} {o i : String} {n : ℕ}

theorem within_orRefuse {failure : DomainFailure} {a : Option α} {f : α → Tx β} (hf : ∀ a, (f a).Within n) :
    (orRefuse failure a >>= f).Within n := by
  cases a with
  | none => trivial
  | some a => exact hf a

theorem within_fetched {operation : String} {a : Option α} {f : α → Tx β} (hf : ∀ a, (f a).Within n) :
    (fetched operation a >>= f).Within n := by
  cases a with
  | none => trivial
  | some a => exact hf a

theorem within_formatted {a : Option α} : (formatted a).Within n := by
  cases a <;> trivial

theorem within_lockInitiative {f : LockedInitiative → Tx β} (hf : ∀ current, (f current).Within n) :
    (lockInitiative o i >>= f).Within (n + 1) := by
  rw [lockInitiative, bind_assoc]
  refine within_perform_bind fun row => ?_
  rw [bind_assoc]
  exact within_orRefuse fun row => hf _

/-- What a mutation issues once its initiative is locked at the revision it expects. -/
theorem within_locked {expected : ℤ} {f : LockedInitiative → Tx β} (hf : ∀ current, (f current).Within n) :
    (lockInitiative o i >>= fun current => requireMutableRevision current expected >>= fun _ => f current).Within
      (n + 1) := by
  refine within_lockInitiative fun current => ?_
  unfold requireMutableRevision
  split
  · trivial
  split
  · trivial
  exact hf current

theorem within_bumpInitiative {f : ℤ → Tx β} (hf : ∀ revision, (f revision).Within n) :
    (bumpInitiative o i >>= f).Within (n + 1) := by
  rw [bumpInitiative, bind_assoc]
  refine within_perform_bind fun row => ?_
  rw [bind_assoc]
  exact within_fetched fun row => hf _

theorem within_readInitiative : (readInitiative o i).Within 1 :=
  within_perform_bind fun _ => within_orRefuse fun _ => within_formatted

theorem within_readProject {operation p : String} {revision : ℤ} : (readProject operation o i p revision).Within 1 :=
  within_perform_bind fun _ => within_fetched fun _ => within_formatted

theorem within_writeOrder : ∀ {items : List ReorderInput}
    {f : List ReorderItemRecord → Tx β}, (∀ output, (f output).Within n) →
    (writeOrder o i items >>= f).Within (items.length + n)
  | [], f, hf => by
    rw [List.length_nil, Nat.zero_add]
    exact hf []
  | item :: items, f, hf => by
    rw [List.length_cons, Nat.add_right_comm, writeOrder, bind_assoc]
    refine within_perform_bind fun revision => ?_
    rw [bind_assoc]
    refine within_fetched fun revision => ?_
    rw [bind_assoc]
    exact within_writeOrder fun output => hf _

/-! ### The mutations -/

theorem within_createInitiativeBody {v : InitiativeCreate} : (createInitiativeBody v).Within 3 := by
  refine within_perform_bind fun rowSeq => within_attempt_bind fun r => ?_
  rcases r with e | _
  · cases e <;> trivial
  · exact within_readInitiative

theorem within_updateInitiativeBody {expected : ℤ} {patch : InitiativePatch} :
    (updateInitiativeBody o i expected patch).Within 3 :=
  within_locked fun _ => within_perform_bind fun _ => within_readInitiative

theorem within_archiveInitiativeBody {expected : ℤ} : (archiveInitiativeBody o i expected).Within 2 :=
  within_locked fun _ => within_perform_bind fun _ => within_fetched fun _ => within_formatted

theorem within_addUpdateBody {actor update : String} {expected : ℤ} {health summary : String} {progress : ℤ} :
    (addUpdateBody actor o i update expected health summary progress).Within 5 := by
  refine within_locked fun current => within_perform_bind fun rowSeq => within_attempt_bind fun r => ?_
  rcases r with e | _
  · cases e <;> trivial
  · exact within_perform_bind fun _ => within_perform_bind fun _ => within_fetched fun _ => within_formatted

theorem within_attachProjectBody {expected position : ℤ} {s : ProjectSnapshot} :
    (attachProjectBody o i expected s position).Within 6 := by
  refine within_locked fun _ => within_perform_bind fun existing => ?_
  split
  · trivial
  refine within_perform_bind fun count => ?_
  split
  · trivial
  refine within_attempt_bind fun r => ?_
  rcases r with e | _
  · cases e <;> trivial
  · exact within_bumpInitiative fun _ => within_readProject

theorem within_updateProjectSnapshotBody {expected : ℤ} {s : ProjectSnapshot} :
    (updateProjectSnapshotBody o i expected s).Within 5 := by
  refine within_lockInitiative fun initiative => ?_
  split
  · trivial
  refine within_perform_bind fun found => within_orRefuse fun revision => ?_
  split
  · trivial
  exact within_perform_bind fun _ => within_bumpInitiative fun _ => within_readProject

theorem within_detachProjectBody {p : String} {expected expectedMembership : ℤ} :
    (detachProjectBody o i p expected expectedMembership).Within 3 := by
  refine within_locked fun _ => within_perform_bind fun deleted => ?_
  split
  · refine within_perform_bind fun found => ?_
    split <;> trivial
  · exact within_bumpInitiative fun _ => trivial

theorem within_reorderProjectsBody {expected : ℤ} {items : List ReorderInput} :
    (reorderProjectsBody o i expected items).Within (items.length + 4) := by
  refine within_locked fun _ => within_perform_bind fun current => ?_
  split
  · trivial
  refine within_perform_bind fun _ => Within.mono (within_writeOrder fun output => ?_) (Nat.le_refl _)
  exact within_bumpInitiative fun _ => trivial

theorem within_admitCommand {c : Command} {operation : String} {codec : Codec α} :
    (admitCommand c operation codec).Within 2 := by
  refine within_perform_bind fun existing => ?_
  rcases existing with _ | row
  · refine within_attempt_bind fun r => ?_
    rcases r with e | _
    · cases e <;> trivial
    · trivial
  · simp only
    split
    · trivial
    split
    · trivial
    split <;> trivial

/-- A mutation issues three statements besides those of its body: two for its receipt before it, one after. -/
theorem within_command {c : Command} {operation : String} {codec : Codec α} {body : Tx α} {wrap : α → β}
    (hbody : body.Within n) :
    Within (command c operation codec body >>= fun r => (pure (wrap r) : Tx β)) (n + 3) := by
  have hcommand : (command c operation codec body).Within (2 + (n + 1)) := by
    refine within_admitCommand.bind fun replay => ?_
    rcases replay with _ | replay
    · exact hbody.bind fun record => within_perform_bind fun _ => trivial
    · trivial
  exact (hcommand.bind fun _ => within_ret _ 0).mono (by omega)

end

/-- A mutation issues no more statements than its operation does. -/
theorem Call.within (c : Call) : c.code.Within c.op.statements := by
  obtain ⟨c, op⟩ := c
  cases op with
  | createInitiative v => exact within_command within_createInitiativeBody
  | updateInitiative o i expected patch => exact within_command within_updateInitiativeBody
  | addUpdate o i update expected health summary progress => exact within_command within_addUpdateBody
  | archiveInitiative o i expected => exact within_command within_archiveInitiativeBody
  | attachProject o i expected snapshot position => exact within_command within_attachProjectBody
  | updateProjectSnapshot o i expected snapshot => exact within_command within_updateProjectSnapshotBody
  | detachProject o i p expected expectedMembership => exact within_command within_detachProjectBody
  | reorderProjects o i expected items => exact within_command within_reorderProjectsBody

/-! ### What the sequences can still give -/

/-- Each of the sequences can still be drawn from so many times. -/
def Supply (m : ℕ) (w : Sequences) : Prop :=
  (0 ≤ w.initiatives ∧ w.initiatives + m ≤ 9223372036854775807) ∧
    (0 ≤ w.updates ∧ w.updates + m ≤ 9223372036854775807)

theorem Supply.less {m : ℕ} {w : Sequences} (h : Supply (m + 1) w) : Supply m w := by
  obtain ⟨⟨h1, h2⟩, h3, h4⟩ := h
  exact ⟨⟨h1, by omega⟩, h3, by omega⟩

/-- A tick with the value of its sequences, of a server that is there. -/
def drawing (rowSeq : ℤ) : Tick := { (default : Tick) with rowSeq }

theorem healthy_drawing (rowSeq : ℤ) : (drawing rowSeq).Healthy := by
  refine ⟨rfl, ?_⟩
  show Printable (default : Tick).timestamps
  decide

/-- The next value of a sequence, where there is one. -/
theorem draw_next {n : ℤ} {m : ℕ} (h : 0 ≤ n ∧ n + (m + 1 : ℕ) ≤ 9223372036854775807) :
    (n < n + 1 ∧ bigint (n + 1) = true) ∧ 0 ≤ n + 1 ∧ n + 1 + m ≤ 9223372036854775807 := by
  have hbigint : bigint (n + 1) = true := decide_eq_true (by omega)
  exact ⟨⟨by omega, hbigint⟩, by omega, by omega⟩

/-- Every statement of the storage layer can be answered while there is something to draw. -/
theorem Sql.For.supplied {β : Type} {o actor : String} {mine : CommandKey → Bool} {st : Sql β}
    (h : Sql.For o mine actor st) : Supplied Tick.Healthy Supply st := by
  intro m w hm
  have hless := hm.less
  cases h with
  | nextInitiativeSeq =>
    obtain ⟨hdraw, hleft⟩ := draw_next hm.1
    exact ⟨drawing (w.initiatives + 1), { w with initiatives := w.initiatives + 1 }, healthy_drawing _, if_pos hdraw,
      hleft, hless.2⟩
  | nextUpdateSeq =>
    obtain ⟨hdraw, hleft⟩ := draw_next hm.2
    exact ⟨drawing (w.updates + 1), { w with updates := w.updates + 1 }, healthy_drawing _, if_pos hdraw, hless.1,
        hleft⟩
  | _ => exact ⟨default, w, healthy_drawing _, rfl, hless⟩

theorem Call.supplied (c : Call) : c.code.Calls fun _ st => Supplied Tick.Healthy Supply st :=
  c.statements.mono fun _ _ (h : Sql.For _ _ _ _) => h.supplied

/-! ### The attempts -/

/-- **Every attempt ends.** In every reachable state an attempt has issued no more statements than its operation does.
From there on a run in which no attempt begins takes at most a step for each statement that is left to the open ones,
and one for the end of each; as long as the sequences are not at their end, an open attempt somewhere can commit, fail
or run its statement, so none waits for ever; and they can all be brought to their end without dropping one. -/
theorem every_attempt_ends {ok : Call → Prop} {w : Sequences} {S : System}
    (h : Txn.Steps Call.code ok (System.initial w) S) :
    (∀ i c ticks p log held, S.threads i = .active c ticks p log held → ticks.length ≤ c.op.statements) ∧
    (∃ n, S.Below n) ∧ ∀ n, S.Below n →
      (∀ (run : ℕ → System) (k : ℕ), run 0 = S →
        (∀ j < k, Txn.Step Call.code (fun _ => False) (run j) (run (j + 1))) →
            k ≤ S.left (fun c => c.op.statements) n) ∧
      (∀ S', Txn.Steps Call.code (fun _ => False) S S' → Supply 1 S'.world → (∃ i, (S'.threads i).Open) →
        ∃ S'', Txn.Step Call.code (fun _ => False) S' S'' ∧ ∀ i c, (S'.threads i).Of c → (S''.threads i).Of c) ∧
      (Supply (S.left (fun c => c.op.statements) n) S.world →
        ∃ S', Txn.Steps Call.code (fun _ => False) S S' ∧ ∀ i c ticks p log held,
          S.threads i = .active c ticks p log held →
          (∃ r, S'.threads i = .committed c r) ∨ ∃ e, S'.threads i = .failed c e) := by
  have hwithin : ∀ c, ok c → c.code.Within c.op.statements := fun c _ => c.within
  have hsupplied : ∀ c, ok c → c.code.Calls fun _ st => Supplied Tick.Healthy Supply st := fun c _ => c.supplied
  have hclimbs : ∀ c, ok c → Tx.Climbs c.code [] fun _ _ => True := fun c _ => c.climbs
  have hprobed : ∀ c, ok c → c.code.Probed := fun c _ => c.probed
  have hless : ∀ m w, Supply (m + 1) w → Supply m w := fun _ _ => Supply.less
  have hmetered := h.metered hwithin
  refine ⟨fun i c ticks p log held hi => (hmetered i c ticks p log held hi).1, h.below, fun n hn =>
    ⟨fun run k h0 hrun => ?_, fun S' hsettling hdraws hopen => ?_, fun hdraws => ?_⟩⟩
  · subst h0
    have hbounded := (settling_bounded run hn hmetered k hrun).1
    omega
  · obtain ⟨S'', hst, -, hof⟩ :=
      exists_advance hsupplied hclimbs hprobed hless (h.trans hsettling.of_settling) hdraws hopen
    exact ⟨S'', hst, hof⟩
  · obtain ⟨S', hsettling, hclosed, hof⟩ :=
      settles hwithin hsupplied hclimbs hprobed hless h hn (Nat.le_refl _) hdraws
    refine ⟨S', hsettling, fun i c ticks p log held hi => (hof i c ?_).ended (hclosed i)⟩
    rw [hi]
    rfl

/-- The call of an open attempt. -/
def sampleOpen (S : System) (i : ℕ) : Option Call :=
  match S.threads i with
  | .active c _ _ _ _ => some c
  | _ => none

/-- Two creates of one initiative, one of which waits for the other, both end. -/
theorem every_attempt_ends_blocked : ∃ S S' : System, Waits S (fun _ => default) (fun _ => []) 1 0 ∧
    Txn.Steps Call.code (fun _ => False) S S' ∧
    ((∃ r, S'.threads 1 = .committed (sampleRival "alpha") r) ∨
      ∃ e, S'.threads 1 = .failed (sampleRival "alpha") e) := by
  have hrun : ((System.initial ⟨0, 0⟩).schedule Call.code 2 sampleBlocked).map (fun S =>
      (((S.threads 1).wants default S.db, (S.threads 0).held,
        decide (Lock.initiative "acme" "alpha" ∈ (S.threads 1).held)),
        sampleOpen S 1, ((S.threads 0).left fun c => c.op.statements, (S.threads 1).left fun c => c.op.statements),
        S.world.initiatives, S.world.updates)) =
      some (([.initiative "acme" "alpha"], [.command ((sampleCreate "alpha").key), .initiative "acme" "alpha"], false),
        some (sampleRival "alpha"), (3, 4), 2, 0) := by
    decide +kernel
  obtain ⟨S, hS, hfacts⟩ := Option.map_eq_some_iff.mp hrun
  obtain ⟨h, hn⟩ := @Txn.schedule_steps _ _ _ _ _ _ _ _ _ _ _ _ (fun _ => True) 2 _ _ S (fun _ _ => rfl)
    (by decide +kernel) (fun _ _ _ _ => trivial) hS
  simp only [Prod.mk.injEq] at hfacts
  obtain ⟨⟨hwants, hheld, hnot⟩, hopen, ⟨h0, h1⟩, hinitiatives, hupdates⟩ := hfacts
  have hwaits : Waits S (fun _ => default) (fun _ => []) 1 0 :=
    ⟨.initiative "acme" "alpha", by simp [hwants], of_decide_eq_false hnot, List.not_mem_nil, Or.inl (by simp [hheld])⟩
  have hleft : S.left (fun c => c.op.statements) 2 = 7 := by
    rw [Sys.left, Finset.sum_range_succ, Finset.sum_range_one, h0, h1]
  obtain ⟨S', hsettling, hends⟩ := ((every_attempt_ends h).2.2 2 hn).2.2 (by
    rw [hleft, Supply, hinitiatives, hupdates]
    decide)
  refine ⟨S, S', hwaits, hsettling, ?_⟩
  cases hth : S.threads 1 with
  | active c ticks p log held =>
    rw [sampleOpen, hth] at hopen
    obtain rfl := Option.some.inj hopen
    exact hends 1 _ ticks p log held hth
  | idle | committed | failed | dropped =>
    rw [sampleOpen, hth] at hopen
    cases hopen

end Portfolio
