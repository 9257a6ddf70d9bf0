import Mathlib.Data.Bool.Count
import FunaiChain.Settlement.Records
import FunaiChain.Settlement.Votes
import FunaiChain.Settlement.Reservations

/-!
# FunaiChain.Settlement.Locked

Reservations that outlive their task, or their expire block.

Settling a task releases its reservation, and so does the forced end of an audit.
An audit that overturns a success pays nobody and releases nothing, a fraud proof
marks the task whatever is reserved for it, and a row of a reserve batch is checked
against the dedup record only, so it can be made for a marked task.  A run that takes
none of the three keeps every finished task unlocked (`finished_unlocked`).

`HandleFrozenBalanceTimeouts` walks the index that `StoreFrozenTaskMeta` writes, and
no message writes it (`WellFormed.unindexed`).  So the only freezes an EndBlock
releases are those of the audits that time out, and not even those when the task is
marked (`reservations_expire_iff`).
-/

namespace FunaiChain.Settlement

variable {env : Env} {height : Int} {params : Params} {third : Bool} {l : Ledger}

section
variable {fees : Int → Int} {v v' : TaskView} {votes : List MsgSecondVerificationResult}
  {c x : Int} {ar : SecondVerificationRecord} {lab : Label} {msg : MsgSecondVerificationResult}
  {l' : Ledger}

/-! ## finished tasks -/

/-- The statuses that end a task. -/
def TaskStatus.isTerminal : TaskStatus → Bool
  | .settled | .failSettled | .failed | .fraud => true
  | _ => false

namespace TaskView

/-- The record of the task is final, or the task is marked as fraud. -/
def Finished (v : TaskView) : Prop :=
  v.marked = true ∨ v.record.any (·.status.isTerminal) = true

/-- A finished task holds no reservation. -/
def Unlocked (v : TaskView) : Prop := v.Finished → v.frozen = none

theorem Unlocked.of_free (h : v.frozen = none) : v.Unlocked := fun _ => h

/-- Only record, mark and reservation are looked at. -/
theorem Unlocked.congr (h : v.Unlocked) (hmarked : v'.marked = v.marked)
    (hrecord : v'.record = v.record) (hfrozen : v'.frozen = v.frozen) : v'.Unlocked := by
  unfold Unlocked Finished at *
  rw [hmarked, hrecord, hfrozen]
  exact h

end TaskView

section Task
variable {account : Addr → Bool} {t : TaskId} {apt : SecondVerificationPendingTask}

/-- The settlement of a claimed task does nothing to a marked one, and releases
any other. -/
theorem TaskAudited.releases {settled : Bool}
    (h : TaskAudited env height account apt v v' settled) (hapt : apt.Claimed env account) :
    (v' = v ∧ v.marked = true ∧ settled = true) ∨ v'.frozen = none := by
  cases h with
  | marked mark => exact .inl ⟨rfl, mark, rfl⟩
  | stuck _ missing =>
    obtain ⟨u, w, hu, hw, haccount⟩ := hapt
    rw [missing u w hu hw] at haccount
    contradiction
  | refused | charged => exact .inr rfl

theorem TaskView.frozen_releaseFor (hapt : apt.Claimed env account) (v : TaskView) :
    (v.releaseFor env account apt).frozen = none := by
  obtain ⟨u, w, hu, -, haccount⟩ := hapt
  unfold TaskView.releaseFor
  rw [hu, Option.any_some, if_pos haccount]

/-- A judgment that overturns no success under a reservation. -/
theorem TaskJudged.unlocked (h : TaskJudged env height params account ar apt v v')
    (hapt : apt.Claimed env account)
    (hpasses : apt.originalStatus = .success → auditPasses params ar.results = false →
    v.frozen = none) (hv : v.Unlocked) : v'.Unlocked := by
  cases h with
  | escalated => exact hv.congr rfl rfl rfl
  | tokenFraud step =>
    have hfree := TaskView.frozen_releaseFor hapt v
    obtain ⟨rfl, -, -⟩ | hfrozen := step.releases hapt
    · exact .of_free hfree
    · exact .of_free hfrozen
  | overturned status fail => exact .of_free (hpasses status fail)
  | settled step =>
    obtain ⟨rfl, -, -⟩ | hfrozen := step.releases hapt
    · exact hv.congr rfl rfl rfl
    · exact .of_free hfrozen
  | retained step =>
    obtain ⟨-, -, hsettled⟩ | hfrozen := step.releases hapt
    · contradiction
    · exact .of_free hfrozen

theorem TaskTimeout.unlocked (h : TaskTimeout env height account third apt v v')
    (hapt : apt.Claimed env account) (hv : v.Unlocked) : v'.Unlocked := by
  cases h with
  | settled step =>
    obtain ⟨rfl, -, -⟩ | hfrozen := step.releases hapt
    · cases third <;> exact hv.congr rfl rfl rfl
    · cases third <;> exact .of_free hfrozen
  | failed step =>
    obtain ⟨-, -, hsettled⟩ | hfrozen := step.releases hapt
    · contradiction
    · cases third <;> exact .of_free hfrozen

theorem TaskTurns.unlocked (h : TaskTurns env height account third apt v v')
    (hapt : apt.Claimed env account) (hv : v.Unlocked) : v'.Unlocked := by
  induction h with
  | nil => exact hv
  | cons turn _ ih => exact ih (turn.unlocked hapt hv)

/-- The steps that keep a task unlocked: no proof of fraud while it is
reserved, no reservation once it is marked, and no vote that overturns it
while it is reserved. -/
structure TaskView.Allows (params : Params) (height : Int) (t : TaskId) (v : TaskView)
    (lab : Label) : Prop where
  fraud : ∀ msg, lab = .fraud msg → msg.taskId = t → v.frozen = none
  reserve : ∀ row, lab = .reserve row → row.taskId = t → v.marked = false
  vote : ∀ msg, lab = .vote msg → msg.taskId = t → ∀ apt, v.second = some apt →
    Votable height params apt v.votes msg →
    params.secondVerifierCount ≤ lenUInt32 (addVote height msg v.votes).results →
    apt.originalStatus = .success →
    auditPasses params (addVote height msg v.votes).results = false → v.frozen = none

theorem TaskStep.unlocked (h : TaskStep env height params account t v lab v')
    (hclaimed : ∀ third apt, v.pending third = some apt → apt.Claimed env account)
    (hallows : v.Allows params height t lab) (hv : v.Unlocked) : v'.Unlocked := by
  cases h with
  | idle => exact hv
  | reserved row task _ _ _ unsettled =>
    -- an unmarked task without record is not finished
    intro hfinished
    obtain hmark | hrecord := hfinished
    · exact nomatch (hallows.reserve row rfl task).symm.trans hmark
    · grind
  | parked _ _ _ _ is_open =>
    intro hfinished
    obtain hmark | hrecord := hfinished
    · exact nomatch is_open.unmarked.symm.trans hmark
    · simp [recordOf, TaskStatus.isTerminal] at hrecord
  | refused | unpaid | charged => exact .of_free rfl
  | voted => exact hv.congr rfl rfl rfl
  | judged msg task apt pending complete step votable =>
    exact step.unlocked (hclaimed false apt pending)
      (fun hs hf => hallows.vote msg rfl task apt pending votable complete hs hf)
      (hv.congr rfl rfl rfl)
  | fraud msg task => exact .of_free (hallows.fraud msg rfl task)
  | cleanup =>
    intro hfinished
    apply hv
    obtain hmark | hrecord := hfinished
    · exact .inl hmark
    · refine .inr ?_
      cases hst : v.record with
      | none => simp [hst] at hrecord
      | some => grind
  | swept third apt pending turns => exact turns.unlocked (hclaimed third apt pending) hv

end Task

/-! ## votes that cannot overturn -/

/-- The results of a record, none if there is no record. -/
def resultsOf (ar : Option SecondVerificationRecord) : List Bool := ar.elim [] (·.results)

theorem results_addVote (height : Int) (msg : MsgSecondVerificationResult)
    (ar : Option SecondVerificationRecord) :
    (addVote height msg ar).results = resultsOf ar ++ [msg.pass] := by
  cases ar <;> rfl

/-- The votes on a task that fail it. -/
def failVotes (t : TaskId) (votes : List MsgSecondVerificationResult) : Nat :=
  votes.countP fun msg => decide (msg.taskId = t) && !msg.pass

theorem failVotes_cons (t : TaskId) (msg : MsgSecondVerificationResult)
    (votes : List MsgSecondVerificationResult) : failVotes t (msg :: votes) =
      failVotes t votes + if msg.taskId = t ∧ msg.pass = false then 1 else 0 := by
  unfold failVotes
  rw [List.countP_cons]
  simp

/-- A complete record with few enough failing votes passes. -/
theorem auditPasses_of_fails {results : List Bool}
    (hlen : results.length ≤ params.secondVerifierCount.toNat)
    (hcomplete : params.secondVerifierCount ≤ lenUInt32 results)
    (hfails : results.count false + params.secondVerificationMatchThreshold.toNat ≤
    params.secondVerifierCount.toNat) : auditPasses params results = true := by
  have hcount := List.count_true_add_count_false results
  have hwide := params.secondVerifierCount.toNat_lt
  rw [UInt32.le_iff_toNat_le, toNat_lenUInt32 hlen] at hcomplete
  unfold auditPasses
  rw [decide_eq_true_eq, UInt32.le_iff_toNat_le, UInt32.toNat_ofNat', Nat.mod_eq_of_lt (by omega)]
  omega

/-- A reserved task that was reported as a success cannot be overturned by the
failing votes it has and `fails` more. -/
def TaskView.Upheld (params : Params) (fails : Nat) (v : TaskView) : Prop :=
  v.frozen.isSome = true → ∀ apt ∈ v.second, apt.originalStatus = .success →
    (resultsOf v.votes).count false + fails + params.secondVerificationMatchThreshold.toNat ≤
      params.secondVerifierCount.toNat

instance (params : Params) (fails : Nat) (v : TaskView) : Decidable (v.Upheld params fails) :=
  inferInstanceAs (Decidable (_ → ∀ apt ∈ v.second, _ → _))

section Votes
variable {account : Addr → Bool} {t : TaskId}

/-- A judged task has left the second queue or its reservation. -/
theorem TaskJudged.closes {apt : SecondVerificationPendingTask}
    (h : TaskJudged env height params account ar apt v v') (hapt : apt.Claimed env account) :
    v'.frozen = none ∨ v'.second = none := by
  cases h with
  | escalated => exact .inr rfl
  | tokenFraud step =>
    obtain ⟨rfl, -, -⟩ | hfrozen := step.releases hapt
    · exact .inr rfl
    · exact .inl hfrozen
  | overturned | settled => exact .inr rfl
  | retained step =>
    obtain ⟨-, -, hsettled⟩ | hfrozen := step.releases hapt
    · contradiction
    · exact .inl hfrozen

/-- A vote uses up what it costs. -/
theorem TaskStep.upheld (h : TaskStep env height params account t v (.vote msg) v')
    (hclaimed : ∀ third apt, v.pending third = some apt → apt.Claimed env account)
    (hv : v.Upheld params (failVotes t (msg :: votes))) : v'.Upheld params (failVotes t votes) := by
  rw [failVotes_cons] at hv
  cases h with
  | idle =>
    intro hfrozen apt hapt hstatus
    have hfails := hv hfrozen apt hapt hstatus
    omega
  | voted _ task =>
    intro hfrozen apt' hapt hstatus
    have hfails := hv hfrozen apt' hapt hstatus
    have hcount : (resultsOf (some (addVote height msg v.votes))).count false =
        (resultsOf v.votes).count false + if msg.pass = false then 1 else 0 := by
      show (addVote height msg v.votes).results.count false = _
      rw [results_addVote, List.count_append]
      cases msg.pass <;> rfl
    dsimp only
    simp only [task, true_and] at hfails
    omega
  | judged _ _ apt pending _ step =>
    intro hfrozen apt' hapt hstatus
    obtain hnone | hnone := step.closes (hclaimed false apt pending)
    · grind
    · grind

/-- An upheld task allows the vote. -/
theorem TaskView.Upheld.allows (hcount : params.secondVerifierCount ≠ 0)
    (htallied : ∀ ar, v.votes = some ar → ar.Tallied params)
    (hv : msg.taskId = t → v.Upheld params (failVotes t (msg :: votes))) :
    v.Allows params height t (.vote msg) where
  fraud := by simp
  reserve := by simp
  vote := by
    rintro _ ⟨⟩ htask apt hapt hvotable hcomplete hstatus hfail
    by_contra hheld
    have hfrozen : v.frozen.isSome = true := Option.isSome_iff_ne_none.mpr hheld
    have hfails := hv htask hfrozen apt hapt hstatus
    rw [failVotes_cons] at hfails
    have hroom := voters_lt_of_incomplete hcount htallied hvotable.incomplete
    have hnext := tallied_addVote htallied hroom hvotable.unvoted height
    have hpasses : auditPasses params (addVote height msg v.votes).results = true := by
      refine auditPasses_of_fails (hnext.results ▸ hnext.bounded) hcomplete ?_
      rw [results_addVote, List.count_append]
      simp only [htask, true_and] at hfails
      cases hpass : msg.pass
      · grind
      · simp
        omega
    rw [hpasses] at hfail
    contradiction

end Votes

/-! ## steps and runs -/

theorem LedgerStep.unlocked (h : LedgerStep env height params fees l lab l' x c)
    (hclaimed : l.Claimed env) (hallows : ∀ t, (l.view t).Allows params height t lab)
    (hl : ∀ t, (l.view t).Unlocked) (t : TaskId) : (l'.view t).Unlocked :=
  (h.task t).unlocked (fun third apt hapt => hclaimed third t apt (Ledger.pending_view .. ▸ hapt))
    (hallows t) (hl t)

/-- Fraud proofs are only about tasks that hold no reservation, rows of a
reserve batch are not about tasks marked as fraud, and the results of audits
cannot overturn a success that holds a reservation. -/
@[mk_iff]
structure ReleasesFirst (c : Chain) (ev : Event) : Prop where
  fraud : ∀ msg ∈ ev.frauds, (c.state.ledger.view msg.taskId).frozen = none
  reserve : ∀ row ∈ ev.rows, (c.state.ledger.view row.taskId).marked = false
  vote : ∀ msg ∈ ev.votes, (c.state.ledger.view msg.taskId).Upheld c.state.params
    (failVotes msg.taskId ev.votes)

instance (c : Chain) (ev : Event) : Decidable (ReleasesFirst c ev) :=
  decidable_of_iff' _ (releasesFirst_iff ..)

/-- The votes of one transaction. -/
theorem Steps.unlocked_votes (h : Steps env height params fees (votes.map .vote) l l' x c)
    (hcount : params.secondVerifierCount ≠ 0) (hclaimed : l.Claimed env)
    (htallied : l.Tallied params) (hl : ∀ t, (l.view t).Unlocked)
    (hupheld : ∀ msg ∈ votes, (l.view msg.taskId).Upheld params (failVotes msg.taskId votes))
    (t : TaskId) : (l'.view t).Unlocked := by
  -- what is upheld counts the failing votes still to come
  induction votes generalizing l x c with
  | nil =>
    rw [h.eq_of_nil]
    exact hl t
  | cons msg votes ih =>
    cases h with
    | cons step rest =>
      refine ih rest (step.claimed hclaimed) (step.tallied hcount htallied) ?_ ?_
      · refine step.unlocked hclaimed (fun t => ?_) hl
        have hfirst : msg.taskId = t → (l.view t).Upheld params (failVotes t (msg :: votes)) :=
          fun htask => htask ▸ hupheld msg (.head _)
        exact TaskView.Upheld.allows hcount (htallied t) hfirst
      · intro msg' hmsg'
        exact (step.task msg'.taskId).upheld
          (fun third apt hapt => hclaimed third _ apt (Ledger.pending_view .. ▸ hapt))
          (hupheld msg' (.tail _ hmsg'))

/-- A row of a reserve batch marks no task. -/
theorem TaskStep.marked_of_reserve {account : Addr → Bool} {t : TaskId} {row : ReserveEntry}
    (h : TaskStep env height params account t v (.reserve row) v') : v'.marked = v.marked := by
  cases h with
  | idle | reserved => rfl

/-- **An event that releases first keeps finished tasks unlocked.** -/
theorem Performed.unlocked {c c' : Chain} {ev : Event} {y : Int} (hp : Performed env ev c c' x y)
    (hwf : WellFormed env c.state) (hclaimed : c.state.ledger.Claimed env)
    (htallied : c.state.ledger.Tallied c.state.params) (hev : ReleasesFirst c ev)
    (hc : ∀ t, (c.state.ledger.view t).Unlocked) (t : TaskId) :
    (c'.state.ledger.view t).Unlocked := by
  by_cases hvotes : ∃ msg, Label.vote msg ∈ ev.script env c.ctx
  · obtain ⟨msg, hmsg⟩ := hvotes
    have hsteps := hp.steps
    rw [Event.issues hmsg] at hsteps
    exact hsteps.unlocked_votes (Params.secondVerifierCount_ne_zero hwf.params) hclaimed htallied hc
      hev.vote t
  · -- kept by a step that is no vote, where a fraud proof finds nothing frozen
    let I (l : Ledger) : Prop := (∀ t, (l.view t).Unlocked) ∧ l.Claimed env ∧
      ∀ row ∈ ev.rows, (l.view row.taskId).marked = false
    have hkept : ∀ lab ∈ ev.script env c.ctx, ∀ l l' x y, I l →
        (∀ msg, lab = .fraud msg → (l.view msg.taskId).frozen = none) →
        LedgerStep env c.ctx.height c.state.params c.state.book.fees l lab l' x y → I l' := by
      rintro lab hlab l l' x y ⟨hunlocked, hclaimed, hrows⟩ hfraud hstep
      refine ⟨hstep.unlocked hclaimed (fun t => ⟨?_, ?_, ?_⟩) hunlocked, hstep.claimed hclaimed,
        fun row hrow => ?_⟩
      · grind
      · rintro row rfl rfl
        exact hrows row (Event.issues hlab)
      · grind
      · obtain ⟨row', -, rfl⟩ := Event.reserve_of_mem hrow hlab
        rw [(hstep.task row.taskId).marked_of_reserve]
        exact hrows row hrow
    have hstart : I c.state.ledger := ⟨hc, hclaimed, hev.reserve⟩
    have hall : I c'.state.ledger := by
      refine hp.steps.invariant_head (I := I) hstart ?_ ?_
      · intro lab l' x y hhead
        have hlab := List.mem_of_head? hhead
        refine hkept lab hlab _ _ _ _ hstart ?_
        rintro msg rfl
        exact hev.fraud msg (Event.issues hlab)
      · intro lab htail l l' x y hl
        exact hkept lab (List.mem_of_mem_tail htail) _ _ _ _ hl
          fun msg hmsg => absurd hmsg ((Event.mem_tail_script htail).2 msg)
    exact hall.1 t

/-- **No funds stay locked by a finished task**, in a run whose fraud proofs,
reservations and overturning votes find nothing reserved. -/
theorem finished_unlocked {c₀ c : Chain} (hgenesis : AtGenesis env c₀)
    (run : Run env ReleasesFirst c₀ c) (t : TaskId)
    (hfinished : (∃ st, c.state.ledger.getSettledTask t = some st ∧
        (st.status = .settled ∨ st.status = .failSettled ∨ st.status = .failed ∨
          st.status = .fraud)) ∨ c.state.hasFraudMark t = true) :
    c.state.ledger.frozenBalance.get t = none := by
  have hall : c.state.ledger.Claimed env ∧ c.state.ledger.Tallied c.state.params ∧
      ∀ t, (c.state.ledger.view t).Unlocked := by
    refine run.preserves hgenesis (I := fun c => c.state.ledger.Claimed env ∧
      c.state.ledger.Tallied c.state.params ∧ ∀ t, (c.state.ledger.view t).Unlocked)
      ⟨Run.claimed (P := fun _ _ => True) hgenesis .start,
        hgenesis.initial.tallied, fun t => ?_⟩ ?_
    · rw [hgenesis.initial.view]
      exact .of_free rfl
    · intro c ev c' x y hwf hc hev hp
      refine ⟨?_, hp.tallied hwf hc.2.1, fun t => hp.unlocked hwf hc.1 hc.2.1 hev hc.2.2 t⟩
      exact hp.steps.invariant hc.1 fun _ _ _ _ _ _ hl hstep => hstep.claimed hl
  refine hall.2.2 t ?_
  obtain ⟨st, hst, hstatus⟩ | hmark := hfinished
  · refine .inr ?_
    have hrecord : (c.state.ledger.view t).record = some st := hst
    rw [hrecord, Option.any_some]
    obtain h | h | h | h := hstatus <;> rw [h] <;> rfl
  · exact .inl hmark

/-- A task is reserved, drawn for audit, upheld by its votes and settled: its
reservation is gone. -/
theorem finished_unlocked_devnet :
    ∃ c st, Run devEnv ReleasesFirst (devnet .default [("user", 1000)]) c ∧
      c.state.ledger.getSettledTask [16] = some st ∧ st.status = .settled ∧
      c.state.ledger.frozenBalance.get [16] = none := by
  refine exists_pair_and_of (Run.exists_of_exec [devReserve [devRow [16] "user" 100 0],
      devBatch [devEntry [16] "user" 100 0], devRegister ["a", "b", "c"], devVote "a" [16] true,
      devVote "b" [16] false, devVote "c" [16] true] (by decide +kernel)) ?_
  intro c st run hst hstatus
  exact finished_unlocked atGenesis_user run [16] (.inl ⟨st, hst, .inl hstatus⟩)

/-- An audit overturns a success and leaves the reservation of the failed task;
a fraud proof marks a task that stays reserved. -/
theorem finished_locked : AtGenesis devEnv (devnet .default [("user", 1000)]) ∧
      (∃ c, Run devEnv (fun _ _ => True) (devnet .default [("user", 1000)]) c ∧
        (∃ st ∈ c.state.ledger.getSettledTask [16], st.status = .failed) ∧
        c.state.ledger.frozenBalance.get [16] = some 100) ∧
      ∃ c, Run devEnv (fun _ _ => True) (devnet .default [("user", 1000)]) c ∧
        c.state.hasFraudMark (devHash 9) = true ∧
        c.state.ledger.frozenBalance.get (devHash 9) = some 100 := by
  refine ⟨atGenesis_user, ?_, ?_⟩
  · exact Run.exists_of_exec [devReserve [devRow [16] "user" 100 0],
      devBatch [devEntry [16] "user" 100 0], devRegister ["a", "b", "c"], devVote "a" [16] false,
      devVote "b" [16] false, devVote "c" [16] false] (by decide +kernel)
  · exact Run.exists_of_exec [devReserve [devRow (devHash 9) "user" 100 0],
      devFraud "user" (devHash 9)] (by decide +kernel)

end

variable {settled : Bool} {t : TaskId} {timeout : Int} {ctx : Ctx} {s s' : State}

/-! ## overdue freezes -/

namespace TaskView

/-- The task holds a freeze, and its reservation expired before `height`. -/
def Overdue (height : Int) (v : TaskView) : Prop :=
  v.frozen.isSome = true ∧ ∃ r ∈ v.reservation, 0 < r.expireBlock ∧ r.expireBlock < height

instance (height : Int) (v : TaskView) : Decidable (v.Overdue height) :=
  inferInstanceAs (Decidable (_ ∧ ∃ r ∈ v.reservation, _))

/-- The task waits for an audit. -/
def Waits (v : TaskView) : Prop := ∃ third, (v.pending third).isSome = true

instance (v : TaskView) : Decidable v.Waits :=
  inferInstanceAs (Decidable (∃ _, _))

end TaskView

/-- The sweep of a tier takes the task. -/
def Ledger.Taken (l : Ledger) (third : Bool) (cutoff : Int) (t : TaskId) : Prop :=
  0 < cutoff ∧ ∃ turn ∈ sweepTurns (l.queue third) cutoff, turn.1.taskId = t

instance (l : Ledger) (third : Bool) (cutoff : Int) (t : TaskId) :
    Decidable (l.Taken third cutoff t) :=
  inferInstanceAs (Decidable (_ ∧ ∃ turn ∈ sweepTurns (l.queue third) cutoff, _))

theorem Ledger.Taken.waits {cutoff : Int} (h : l.Taken third cutoff t) :
    ((l.view t).pending third).isSome = true := by
  obtain ⟨-, turn, hturn, rfl⟩ := h
  rw [Ledger.pending_view, Ledger.pendingAt, mem_sweepTurns hturn]
  rfl

theorem Ledger.taken_congr {l' : Ledger} (h : l'.queue third = l.queue third) (cutoff : Int)
    (t : TaskId) : l'.Taken third cutoff t ↔ l.Taken third cutoff t := by
  unfold Taken
  rw [h]

/-! ## what the sweep of a tier does to a task it takes -/

section Task
variable {account : Addr → Bool} {v v' : TaskView} {apt : SecondVerificationPendingTask}

/-- A taken task leaves the queue, and its reservation unless it is marked. -/
structure TaskView.Drained (third : Bool) (v v' : TaskView) : Prop where
  left : v'.pending third = none
  other : v'.pending (!third) = v.pending (!third)
  marked : v'.marked = v.marked
  reservation : v'.reservation = v.reservation
  frozen : v'.frozen = if v.marked = true then v.frozen else none

theorem TaskView.Drained.trans {v'' : TaskView} (h : v.Drained third v')
    (h' : v'.Drained third v'') : v.Drained third v'' where
  left := h'.left
  other := h'.other.trans h.other
  marked := h'.marked.trans h.marked
  reservation := h'.reservation.trans h.reservation
  frozen := by
    rw [h'.frozen, h.marked, h.frozen]
    split <;> rfl

theorem TaskAudited.frozen_eq (h : TaskAudited env height account apt v v' settled)
    (hapt : apt.Claimed env account) : v'.frozen = if v.marked = true then v.frozen else none := by
  have hmarked := h.effect.2.2.1
  obtain ⟨rfl, hmark, -⟩ | hfrozen := h.releases hapt
  · rw [if_pos hmark]
  · cases h with
    | marked mark => rw [if_pos mark]
    | stuck => rw [hfrozen, ite_self]
    | refused unmarked | charged unmarked => rw [unmarked, if_neg (by simp)]

/-- Settling and leaving the queue. -/
theorem TaskAudited.drained {v₁ : TaskView} (h : TaskAudited env height account apt v v₁ settled)
    (hapt : apt.Claimed env account) (hleft : v'.pending third = none)
    (hother : v'.pending (!third) = v₁.pending (!third)) (hmarked : v'.marked = v₁.marked)
    (hlog : v'.log = v₁.log) (hfrozen : v'.frozen = v₁.frozen) : v.Drained third v' where
  left := hleft
  other := hother.trans h.pending
  marked := hmarked.trans h.effect.2.2.1
  reservation := (TaskView.reservation_congr hlog).trans h.holds.reservation
  frozen := hfrozen.trans (h.frozen_eq hapt)

theorem TaskTimeout.drained (h : TaskTimeout env height account third apt v v')
    (hapt : apt.Claimed env account) : v.Drained third v' := by
  cases h with
  | settled step | failed step => cases third <;> exact step.drained hapt rfl rfl rfl rfl rfl

theorem TaskTurns.drained {v₀ : TaskView} (h : TaskTurns env height account third apt v v')
    (hapt : apt.Claimed env account) (hv : v₀.Drained third v) : v₀.Drained third v' := by
  induction h with
  | nil => exact hv
  | cons turn _ ih => exact ih (hv.trans (turn.drained hapt))

end Task

section Sweep
variable {l' : Ledger} {out : Int}

theorem Sweep.drained {turns : List (SecondVerificationPendingTask × HeightKey)}
    {apt : SecondVerificationPendingTask} (h : Sweep env height params third turns l l' out)
    (hturns : ∀ turn ∈ turns, turn.1.taskId = t → turn.1 = apt)
    (hapt : apt.Claimed env l.hasAccount) (htaken : ∃ turn ∈ turns, turn.1.taskId = t) :
    (l.view t).Drained third (l'.view t) := by
  induction h with
  | nil => grind
  | @cons turn turns l l₁ l₂ x y step rest ih =>
    have hrest : ∀ turn ∈ turns, turn.1.taskId = t → turn.1 = apt :=
      fun turn hturn => hturns turn (.tail _ hturn)
    have hapt₁ : apt.Claimed env l₁.hasAccount := step.hasAccount ▸ hapt
    by_cases ht : turn.1.taskId = t
    · -- the first turn of the task; the later ones find it drained
      have hturn := step.task ht
      rw [hturns turn List.mem_cons_self ht] at hturn
      exact (rest.task hrest).drained hapt₁ (hturn.drained hapt)
    · rw [← step.view_of_ne ht]
      refine ih hrest hapt₁ ?_
      obtain ⟨turn', hmem, ht'⟩ := htaken
      obtain rfl | hmem := List.mem_cons.mp hmem
      · exact absurd ht' ht
      · exact ⟨turn', hmem, ht'⟩

theorem SweepStep.drained (h : SweepStep env height params third timeout l l' out)
    (hl : l.Claimed env) (htaken : l.Taken third (height - timeout) t) :
    (l.view t).Drained third (l'.view t) := by
  obtain ⟨apt, hapt⟩ := Option.isSome_iff_exists.mp htaken.waits
  rw [Ledger.pending_view] at hapt
  cases h with
  | early young => exact absurd htaken.1 (Int.not_lt.mpr young)
  | swept _ turns =>
    refine turns.drained (fun turn hturn ht => ?_) (hl third t apt hapt) htaken.2
    exact Option.some.inj ((l.pendingAt_of_turn hturn ht).symm.trans hapt)

theorem SweepStep.view_of_not_taken (h : SweepStep env height params third timeout l l' out)
    (htaken : ¬ l.Taken third (height - timeout) t) : l'.view t = l.view t := by
  cases h with
  | early => rfl
  | swept old turns =>
    exact turns.view_of_not_mem fun turn hturn ht => htaken ⟨old, turn, hturn, ht⟩

/-- What the sweep of one tier does to a task that it takes, or not. -/
structure TaskView.Tier (taken : Prop) (third : Bool) (v v' : TaskView) : Prop where
  reservation : v'.reservation = v.reservation
  marked : v'.marked = v.marked
  other : v'.pending (!third) = v.pending (!third)
  pending : (v'.pending third).isSome = true ↔ (v.pending third).isSome = true ∧ ¬ taken
  frozen : v'.frozen.isSome = true ↔ v.frozen.isSome = true ∧ (v.marked = true ∨ ¬ taken)

theorem SweepStep.tier {l₀ : Ledger} (h : SweepStep env height params third timeout l l' out)
    (hl : l.Claimed env) (hqueue : l.queue third = l₀.queue third) :
    (l.view t).Tier (l₀.Taken third (height - timeout) t) third (l'.view t) := by
  rw [← Ledger.taken_congr hqueue]
  by_cases ht : l.Taken third (height - timeout) t
  · have hdrained := h.drained hl ht
    refine ⟨hdrained.reservation, hdrained.marked, hdrained.other, by simp [hdrained.left, ht], ?_⟩
    rw [hdrained.frozen]
    cases (l.view t).marked <;> simp [ht]
  · rw [h.view_of_not_taken ht]
    exact ⟨rfl, rfl, rfl, by simp [ht], by simp [ht]⟩

end Sweep

/-! ## what a block does -/

/-- What the two sweeps of a block do to a task: `taken` says which of them
take it. -/
structure TaskView.Swept (taken : Bool → Prop) (v v' : TaskView) : Prop where
  reservation : v'.reservation = v.reservation
  pending : ∀ third, (v'.pending third).isSome = true ↔
    (v.pending third).isSome = true ∧ ¬ taken third
  frozen : v'.frozen.isSome = true ↔
    v.frozen.isSome = true ∧ (v.marked = true ∨ ∀ third, ¬ taken third)

namespace TaskView.Swept

variable {taken : Bool → Prop} {v v₁ v' : TaskView}

/-- The sweep of the second tier, then that of the third. -/
theorem of_tiers (hsecond : v.Tier (taken false) false v₁) (hthird : v₁.Tier (taken true) true v') :
    v.Swept taken v' := by
  have hsecond' : v₁.pending true = v.pending true := hsecond.other
  have hthird' : v'.pending false = v₁.pending false := hthird.other
  refine ⟨hthird.reservation.trans hsecond.reservation, Bool.forall_bool.mpr ⟨?_, ?_⟩, ?_⟩
  · rw [hthird', hsecond.pending]
  · rw [hthird.pending, hsecond']
  · rw [hthird.frozen, hsecond.frozen, hsecond.marked, Bool.forall_bool, and_assoc, or_and_left]

/-- After the block the task is not overdue or waits, exactly if before the
block it was not overdue or waited for an audit that releases it or goes on. -/
theorem overdue_waits (h : v.Swept taken v')
    (hlisted : ∀ third, taken third → (v.pending third).isSome = true) :
    (v'.Overdue height → v'.Waits) ↔ (v.Overdue height →
    ∃ third, (v.pending third).isSome = true ∧ (v.marked = true → ¬ taken third)) := by
  constructor
  · rintro hafter ⟨hfrozen, hexpired⟩
    by_cases hkept : v.marked = true ∨ ∀ third, ¬ taken third
    · obtain ⟨third, hwaits⟩ := hafter ⟨h.frozen.mpr ⟨hfrozen, hkept⟩, h.reservation ▸ hexpired⟩
      obtain ⟨hwaits, htaken⟩ := (h.pending third).mp hwaits
      exact ⟨third, hwaits, fun _ => htaken⟩
    · grind
  · rintro hbefore ⟨hfrozen, hexpired⟩
    obtain ⟨hfrozen, hkept⟩ := h.frozen.mp hfrozen
    obtain ⟨third, hwaits, hmark⟩ := hbefore ⟨hfrozen, h.reservation ▸ hexpired⟩
    refine ⟨third, (h.pending third).mpr ⟨hwaits, ?_⟩⟩
    exact hkept.elim hmark fun hnone => hnone third

end TaskView.Swept

/-- The payout of the fund changes no task. -/
theorem TaskStep.view_of_fund {account : Addr → Bool} {v v' : TaskView} {epoch : Int}
    (h : TaskStep env height params account t v (.fund epoch) v') : v' = v := by
  cases h
  rfl

theorem closeEpoch_view (h : closeEpoch env ctx s = .ok s') (t : TaskId) :
    s'.ledger.view t = s.ledger.view t := by
  obtain ⟨x, hp⟩ := closeEpoch_performs.get h
  refine hp.steps.invariant (I := fun l => l.view t = s.ledger.view t) rfl ?_
  intro lab hlab l l' x c hl hstep
  obtain ⟨rfl, -⟩ := Ctx.mem_closing hlab
  exact (hstep.task t).view_of_fund.trans hl

/-- **What EndBlock does to a task.**  The sweep over expired reservations finds
nothing. -/
theorem endBlock_swept (hwf : WellFormed env s) (hclaimed : s.ledger.Claimed env)
    (h : endBlock env ctx s = .ok s') (t : TaskId) : (s.ledger.view t).Swept
    (fun third => s.ledger.Taken third (ctx.height - s.params.timeoutOf third) t)
    (s'.ledger.view t) := by
  obtain ⟨s₂, hsweeps, h⟩ := bind_eq_ok.mp h
  obtain ⟨s₁, hsecond, hthird⟩ := bind_eq_ok.mp hsweeps
  obtain ⟨s₃, hfrozen, hclose⟩ := bind_eq_ok.mp h
  have hclean : LedgerStep env ctx.height s.params (fun _ => 0) s.ledger .cleanup
      (cleanupExpiredTasks ctx s).ledger 0 0 := .cleanup
  have hqueue : ∀ third, (cleanupExpiredTasks ctx s).ledger.queue third = s.ledger.queue third := by
    intro third
    cases third <;> rfl
  obtain ⟨l₁, x, hstep₁, hmove₁⟩ :=
    (sweepQueue_cases (hclean.denominated hwf.denominated)).get hsecond
  have hsweep₁ : LedgerStep env ctx.height s.params (fun _ => 0)
      (cleanupExpiredTasks ctx s).ledger (.sweep false) l₁ x 0 := .sweep hstep₁
  have hdenom₁ := hsweep₁.denominated (hclean.denominated hwf.denominated)
  rw [← hmove₁.ledger] at hdenom₁
  obtain ⟨l₂, y, hstep₂, hmove₂⟩ := (sweepQueue_cases hdenom₁).get hthird
  rw [hmove₁.ledger, hmove₁.params] at hstep₂
  have hsweep₂ : LedgerStep env ctx.height s.params (fun _ => 0) l₁ (.sweep true) l₂ y 0 :=
    .sweep hstep₂
  -- nothing is indexed, so the sweep over expired reservations does nothing
  have hindex : s₂.ledger.frozenTaskIndex = ∅ := by
    rw [hmove₂.ledger, hsweep₂.frozenTaskIndex, hsweep₁.frozenTaskIndex, hclean.frozenTaskIndex]
    exact hwf.unindexed
  obtain rfl := (handleFrozenBalanceTimeouts_of_empty hindex).get hfrozen
  have hclaimed₀ := hclean.claimed hclaimed
  have hswept : ((cleanupExpiredTasks ctx s).ledger.view t).Swept
      (fun third => s.ledger.Taken third (ctx.height - s.params.timeoutOf third) t)
      (l₂.view t) :=
    .of_tiers (hstep₁.tier hclaimed₀ (hqueue false))
      (hstep₂.tier (hsweep₁.claimed hclaimed₀) (hstep₁.queue_other.trans (hqueue true)))
  rw [closeEpoch_view hclose, hmove₂.ledger]
  -- the clean-up looks at dedup records only
  refine ⟨hswept.reservation, fun third => ?_, hswept.frozen⟩
  cases third with
  | false => exact hswept.pending false
  | true => exact hswept.pending true

/-! ## blocks of a run -/

/-- Every overdue freeze is that of a task that waits for an audit, and for a
marked task the audit does not time out in this block. -/
def OverdueAudited (height : Int) (s : State) : Prop :=
  ∀ t, (s.ledger.view t).Overdue height → ∃ third, ((s.ledger.view t).pending third).isSome = true ∧
      ((s.ledger.view t).marked = true →
        ¬ s.ledger.Taken third (height - s.params.timeoutOf third) t)

-- only the tasks listed under `FrozenBalanceKey` can be overdue
instance (height : Int) (s : State) : Decidable (OverdueAudited height s) :=
  decidable_of_iff
    (∀ r ∈ s.ledger.frozenBalance.entries, (s.ledger.view r.1).Overdue height →
      ∃ third, ((s.ledger.view r.1).pending third).isSome = true ∧
        ((s.ledger.view r.1).marked = true →
          ¬ s.ledger.Taken third (height - s.params.timeoutOf third) r.1))
    ⟨fun h t ht => by
        obtain ⟨n, hn⟩ := Option.isSome_iff_exists.mp ht.1
        exact h (t, n) (Table.mem_entries.mpr hn) ht,
      fun h r _ => h r.1⟩

/-- **When reservations expire.**  In every run, under any params, a block ends
with no overdue freeze but those of tasks that wait for an audit, exactly if it
began so: an expired reservation is only released by the timeout of an audit. -/
theorem reservations_expire_iff {c₀ c c' : Chain} {next : Ctx} (hgenesis : AtGenesis env c₀)
    (run : Run env (fun _ _ => True) c₀ c) (hend : c.step env (.endBlock next) = some c') :
    (∀ t, (c'.state.ledger.view t).Overdue c.ctx.height → (c'.state.ledger.view t).Waits) ↔
      OverdueAudited c.ctx.height c.state := by
  have hwf := run.wellFormed hgenesis
  simp only [Chain.step] at hend
  split at hend
  · split at hend
    · next s hs =>
      cases hend
      refine forall_congr' fun t => ?_
      exact (endBlock_swept hwf (run.claimed hgenesis) hs t).overdue_waits
        fun third htaken => htaken.waits
    · contradiction
  · contradiction

/-- The freeze of a task that waits for audit is overdue and stays; nothing else
is overdue when the block ends. -/
theorem reservations_expire_devnet :
    ∃ c c', Run devEnv (fun _ _ => True) (devnet .default [("user", 1000)]) c ∧
      c.step devEnv (devEndBlock 11) = some c' ∧ (c.state.ledger.view [16]).Overdue c.ctx.height ∧
      ∀ t, (c'.state.ledger.view t).Overdue c.ctx.height → (c'.state.ledger.view t).Waits := by
  refine exists_pair_and_imp (q := fun c => (c.step devEnv (devEndBlock 11)).isSome = true ∧
      (c.state.ledger.view [16]).Overdue c.ctx.height ∧ OverdueAudited c.ctx.height c.state)
    (Run.exists_of_exec [devReserve [devRow [16] "user" 100 5],
      devBatch [devEntry [16] "user" 100 0], devEndBlock 10] (by decide +kernel)) ?_
  rintro c run ⟨hstep, hoverdue, hbefore⟩
  obtain ⟨c', hc'⟩ := Option.isSome_iff_exists.mp hstep
  exact ⟨c', hc', hoverdue, (reservations_expire_iff atGenesis_user run hc').mpr hbefore⟩

/-- A reservation that expires at block 5 is held after block 10, by a task that
nobody audits, with and without per-token billing. -/
theorem reservation_outlives_expiry : (AtGenesis devEnv (devnet .default [("user", 1000)]) ∧
      AtGenesis devEnv (devnet devBilling [("user", 1000)])) ∧
    ∀ params ∈ [Params.default, devBilling], ∃ c c',
      Run devEnv (fun _ _ => True) (devnet params [("user", 1000)]) c ∧ c.ctx.height = 10 ∧
        c.step devEnv (devEndBlock 11) = some c' ∧
        (c'.state.ledger.view [255]).Overdue 10 ∧ ¬ (c'.state.ledger.view [255]).Waits := by
  refine ⟨⟨atGenesis_user, atGenesis_devnet (by decide) (by decide)⟩, fun params hparams => ?_⟩
  have hcases : params = Params.default ∨ params = devBilling := by simpa using hparams
  obtain rfl | rfl := hcases <;>
    exact exists_pair_and_imp (Run.exists_of_exec
      [devReserve [devRow [255] "user" 100 5], devEndBlock 10] (by decide +kernel)) fun _ _ h => h

end FunaiChain.Settlement
