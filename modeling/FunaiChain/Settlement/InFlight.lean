import FunaiChain.Settlement.Devnet

/-!
# FunaiChain.Settlement.InFlight

Tasks under audit.  A task that is drawn for audit gets a dedup record with
status `pendingSecondVerification` and an entry in the second queue; it may
move on to the third.  `TaskView.InFlight` says that the record and the
queues agree.

They do in every run in which the clean-up spares the records of tasks under
audit and no fraud proof names such a task (`in_flight_consistent`).  The
clean-up only looks at the age of a record, and its buffer is shorter than
the timeout of an audit; and a fraud proof leaves a pending record in place
that the end of the audit then does not touch (`in_flight_differs`).
-/

namespace FunaiChain.Settlement

open TaskView

variable {env : Env} {height : Int} {params : Params} {fees : Int → Int} {account : Addr → Bool}
  {t : TaskId} {v v' : TaskView}
variable {apt : SecondVerificationPendingTask} {settled third : Bool} {lab : Label} {c : Chain}
  {ev : Event}

/-! ## the invariant -/

namespace TaskView

/-- The dedup record says that the task is under audit. -/
def RecordPending (v : TaskView) : Prop :=
  ∃ st, v.record = some st ∧ st.status = .pendingSecondVerification

/-- The task waits in one of the queues. -/
def Queued (v : TaskView) : Prop := v.second.isSome ∨ v.third.isSome

/-- Record and queues agree, no task waits in both queues, and none that waits
is marked as fraud. -/
structure InFlight (v : TaskView) : Prop where
  agree : v.RecordPending ↔ v.Queued
  once : v.second = none ∨ v.third = none
  unmarked : v.Queued → v.marked = false

/-- The task waits in no queue, and its record says so. -/
structure Closed (v : TaskView) : Prop where
  second : v.second = none
  third : v.third = none
  record : ¬ v.RecordPending

theorem Closed.inFlight (h : v.Closed) : v.InFlight := by
  have hqueued : ¬ v.Queued := by simp [Queued, h.second, h.third]
  exact ⟨⟨fun hr => absurd hr h.record, fun hq => absurd hq hqueued⟩, .inl h.second,
    fun hq => absurd hq hqueued⟩

/-- A task that is not queued is closed. -/
theorem InFlight.closed (h : v.InFlight) (hsecond : v.second = none) (hthird : v.third = none) :
    v.Closed :=
  ⟨hsecond, hthird, fun hr => by simpa [Queued, hsecond, hthird] using h.agree.mp hr⟩

theorem InFlight.congr (h : v.InFlight) (hrecord : v'.record = v.record)
    (hsecond : v'.second = v.second) (hthird : v'.third = v.third)
    (hmarked : v'.marked = v.marked) : v'.InFlight := by
  obtain ⟨hagree, honce, hunmarked⟩ := h
  refine ⟨?_, by rwa [hsecond, hthird], ?_⟩
  · rwa [RecordPending, Queued, hrecord, hsecond, hthird]
  · rwa [Queued, hsecond, hthird, hmarked]

theorem not_recordPending_of_none (h : v.record = none) : ¬ v.RecordPending := by
  rintro ⟨st, hst, -⟩
  simp [h] at hst

theorem not_recordPending_of_status {st : SettledTaskID} (h : v.record = some st)
    (hstatus : st.status ≠ .pendingSecondVerification) : ¬ v.RecordPending := by
  rintro ⟨st', hst', hpending⟩
  cases h.symm.trans hst'
  exact hstatus hpending

end TaskView

theorem chargedStatus_ne_pending (asSuccess : Bool) :
    chargedStatus asSuccess ≠ .pendingSecondVerification := by
  cases asSuccess <;> simp [chargedStatus]

/-! ## steps keep record and queues in agreement -/

/-- After the settlement of an audited task its record says that it is over,
if it did before or the settlement went through. -/
theorem TaskAudited.not_recordPending (h : TaskAudited env height account apt v v' settled)
    (hunmarked : v.marked = false) (hover : settled = true ∨ ¬ v.RecordPending) :
    ¬ v'.RecordPending := by
  cases h with
  | marked mark => simp [mark] at hunmarked
  | stuck => simpa using hover
  | refused => simpa [TaskView.RecordPending] using hover
  | charged _ asSuccess =>
    exact not_recordPending_of_status (by rfl) (chargedStatus_ne_pending asSuccess)

/-- A judgment of a task in the second queue. -/
theorem TaskJudged.inFlight {ar : SecondVerificationRecord}
    (h : TaskJudged env height params account ar apt v v') (hpending : v.second = some apt)
    (hv : v.InFlight) : v'.InFlight := by
  have hqueued : v.Queued := .inl (by simp [hpending])
  have hthird : v.third = none := hv.once.resolve_left (by simp [hpending])
  have hunmarked := hv.unmarked hqueued
  cases h with
  | escalated =>
    refine ⟨⟨fun _ => .inr rfl, fun _ => ?_⟩, .inl rfl, fun _ => hunmarked⟩
    exact hv.agree.mpr hqueued
  | tokenFraud step =>
    obtain ⟨hsecond', hthird', -⟩ := step.effect
    have hthird₀ : (v.releaseFor env account apt).third = none := by
      rw [releaseFor_frame]
      exact hthird
    have hunmarked₀ : (v.releaseFor env account apt).marked = false := by
      rw [releaseFor_frame]
      exact hunmarked
    refine TaskView.Closed.inFlight ⟨hsecond', hthird'.trans hthird₀, ?_⟩
    exact step.not_recordPending hunmarked₀
      (.inr (not_recordPending_of_status (by rfl) (by simp [auditRecordOf])))
  | overturned =>
    exact TaskView.Closed.inFlight ⟨rfl, hthird,
      not_recordPending_of_status (by rfl) (by simp [auditRecordOf])⟩
  | settled step =>
    obtain ⟨-, hthird', -⟩ := step.effect
    exact TaskView.Closed.inFlight ⟨rfl, hthird'.trans hthird,
      step.not_recordPending hunmarked (.inl rfl)⟩
  | retained step =>
    obtain ⟨hsecond', hthird', hmarked', -, hrecord⟩ := step.effect
    obtain ⟨hrecord, -⟩ | ⟨hsettled, -⟩ := hrecord
    · exact hv.congr hrecord hsecond' hthird' hmarked'
    · simp at hsettled

namespace TaskView

/-- The task waits nowhere but in the queue of a tier, unmarked. -/
structure OnlyIn (v : TaskView) (third : Bool) : Prop where
  other : v.pending (!third) = none
  unmarked : v.marked = false

theorem InFlight.onlyIn (h : v.InFlight) (hpending : v.pending third = some apt) :
    v.OnlyIn third := by
  cases third with
  | false =>
    have hpending : v.second = some apt := hpending
    exact ⟨h.once.resolve_left (by simp [hpending]), h.unmarked (.inl (by simp [hpending]))⟩
  | true =>
    have hpending : v.third = some apt := hpending
    exact ⟨h.once.resolve_right (by simp [hpending]), h.unmarked (.inr (by simp [hpending]))⟩

theorem OnlyIn.closed (h : v.OnlyIn third) (hrecord : ¬ v.RecordPending) :
    (v.setPending third none).Closed := by
  cases third with
  | false => exact ⟨rfl, h.other, hrecord⟩
  | true => exact ⟨h.other, rfl, hrecord⟩

end TaskView

theorem TaskAudited.onlyIn (h : TaskAudited env height account apt v v' settled)
    (hv : v.OnlyIn third) : v'.OnlyIn third :=
  ⟨h.pending.trans hv.other, h.effect.2.2.1.trans hv.unmarked⟩

/-- A turn of the sweep closes the task. -/
theorem TaskTimeout.closed (h : TaskTimeout env height account third apt v v')
    (hv : v.OnlyIn third) : v'.OnlyIn third ∧ v'.Closed := by
  cases h with
  | @settled v₁ step =>
    have honly := step.onlyIn hv
    have hclosed := honly.closed (step.not_recordPending hv.unmarked (.inl rfl))
    refine ⟨?_, hclosed⟩
    cases third <;> exact ⟨honly.other, honly.unmarked⟩
  | @failed v₁ step =>
    have honly : TaskView.OnlyIn
        { v₁ with record := some (auditRecordOf height apt .failed Coin.zero) } third := by
      have h₁ := step.onlyIn hv
      cases third <;> exact ⟨h₁.other, h₁.unmarked⟩
    have hclosed := honly.closed
      (not_recordPending_of_status (by rfl) (by simp [auditRecordOf]))
    refine ⟨?_, hclosed⟩
    cases third <;> exact ⟨honly.other, honly.unmarked⟩

theorem TaskTurns.closed (h : TaskTurns env height account third apt v v') (hv : v.OnlyIn third) :
    v' = v ∨ v'.Closed := by
  induction h with
  | nil => exact .inl rfl
  | cons turn _ ih =>
    obtain ⟨honly, hclosed⟩ := turn.closed hv
    obtain rfl | h := ih honly
    · exact .inr hclosed
    · exact .inr h

/-- What a step must not disturb: the clean-up spares the record of the task
while it is under audit, and no fraud proof names it then. -/
structure TaskView.Undisturbed (height : Int) (params : Params) (t : TaskId) (v : TaskView)
    (lab : Label) : Prop where
  cleanup : lab = .cleanup → ∀ st, v.record = some st → st.status = .pendingSecondVerification →
    expiredRecord (height - params.taskCleanupBuffer) st = false
  fraud : ∀ msg, lab = .fraud msg → msg.taskId = t → v.second = none ∧ v.third = none

/-- **A step in the life of a task keeps record and queues in agreement.** -/
theorem TaskStep.inFlight (h : TaskStep env height params account t v lab v')
    (hlab : v.Undisturbed height params t lab) (hv : v.InFlight) : v'.InFlight := by
  have hclosed : v.record = none → v.Closed := fun hnone => by
    have hqueued : ¬ v.Queued := fun hq =>
      not_recordPending_of_none hnone (hv.agree.mpr hq)
    simp only [TaskView.Queued, not_or, Option.not_isSome_iff_eq_none] at hqueued
    exact hv.closed hqueued.1 hqueued.2
  cases h with
  | idle => exact hv
  | reserved | refused | voted => exact hv.congr rfl rfl rfl rfl
  | parked _ _ _ _ is_open =>
    refine ⟨⟨fun _ => .inl rfl, fun _ => ⟨_, rfl, rfl⟩⟩, .inr ?_, fun _ => is_open.unmarked⟩
    exact (hclosed is_open.unsettled).third
  | unpaid _ _ _ _ is_open =>
    have hc := hclosed is_open.unsettled
    exact TaskView.Closed.inFlight ⟨hc.second, hc.third,
      not_recordPending_of_status (by rfl) (by simp [recordOf])⟩
  | charged _ _ _ _ is_open asSuccess =>
    have hc := hclosed is_open.unsettled
    exact TaskView.Closed.inFlight ⟨hc.second, hc.third,
      not_recordPending_of_status (by rfl) (chargedStatus_ne_pending asSuccess)⟩
  | judged _ _ _ pending _ step =>
    exact step.inFlight pending (hv.congr rfl rfl rfl rfl)
  | fraud msg task =>
    obtain ⟨hsecond, hthird⟩ := hlab.fraud msg rfl task
    refine TaskView.Closed.inFlight ⟨hsecond, hthird, ?_⟩
    rintro ⟨st, hst, hstatus⟩
    obtain ⟨st₀, hst₀, rfl⟩ := Option.map_eq_some_iff.mp hst
    refine (hv.closed hsecond hthird).record ⟨st₀, hst₀, ?_⟩
    unfold revoke at hstatus
    split at hstatus
    · simp at hstatus
    · exact hstatus
  | cleanup =>
    have hagree : ∀ st, (v.record.filter fun st =>
        !expiredRecord (height - params.taskCleanupBuffer) st) = some st →
        v.record = some st := fun st hst => (Option.filter_eq_some_iff.mp hst).1
    refine ⟨⟨?_, ?_⟩, hv.once, hv.unmarked⟩
    · rintro ⟨st, hst, hstatus⟩
      exact hv.agree.mp ⟨st, hagree st hst, hstatus⟩
    · intro hqueued
      obtain ⟨st, hst, hstatus⟩ := hv.agree.mpr hqueued
      refine ⟨st, Option.filter_eq_some_iff.mpr ⟨hst, ?_⟩, hstatus⟩
      simp [hlab.cleanup rfl st hst hstatus]
  | swept _ _ pending turns =>
    obtain rfl | hc := turns.closed (hv.onlyIn pending)
    · exact hv
    · exact hc.inFlight

/-! ## runs -/

namespace Ledger

/-- Record and queues agree for every task. -/
def InFlight (l : Ledger) : Prop := ∀ t, (l.view t).InFlight

theorem InFlight.step {l l' : Ledger} {x c : Int} (hl : l.InFlight)
    (h : LedgerStep env height params fees l lab l' x c)
    (hlab : ∀ t, (l.view t).Undisturbed height params t lab) : l'.InFlight :=
  fun t => (h.task t).inFlight (hlab t) (hl t)

end Ledger

/-- At the end of a block no record of a task under audit is old enough to be
cleaned up, and no fraud proof names a task under audit. -/
@[mk_iff]
structure AuditsSpared (c : Chain) (ev : Event) : Prop where
  cleanup : ev.isEndBlock = true → ∀ r ∈ c.state.ledger.settledTasks.entries,
    r.2.status = .pendingSecondVerification →
      expiredRecord (c.ctx.height - c.state.params.taskCleanupBuffer) r.2 = false
  fraud : ∀ msg ∈ ev.frauds, ∀ third, c.state.ledger.pendingAt third msg.taskId = none

instance (c : Chain) (ev : Event) : Decidable (AuditsSpared c ev) :=
  decidable_of_iff' _ (auditsSpared_iff ..)

theorem AuditsSpared.undisturbed (h : AuditsSpared c ev) (hlab : lab ∈ ev.script env c.ctx)
    (t : TaskId) : (c.state.ledger.view t).Undisturbed c.ctx.height c.state.params t lab where
  cleanup := by
    rintro rfl st hst hstatus
    obtain ⟨next, rfl⟩ := Event.cleanup_mem hlab
    exact h.cleanup rfl (t, st) (Table.mem_entries.mpr hst) hstatus
  fraud := by
    rintro msg rfl rfl
    exact ⟨h.fraud msg (Event.issues hlab) false, h.fraud msg (Event.issues hlab) true⟩

theorem Performed.inFlight {c' : Chain} {x y : Int} (hp : Performed env ev c c' x y)
    (hev : AuditsSpared c ev) (hc : c.state.ledger.InFlight) : c'.state.ledger.InFlight := by
  refine hp.steps.invariant_head hc ?_ ?_
  · intro lab l' x y hhead hstep
    exact hc.step hstep (hev.undisturbed (List.mem_of_head? hhead))
  · intro lab hlab l l' x y hl hstep
    obtain ⟨hcleanup, hfraud⟩ := Event.mem_tail_script hlab
    exact hl.step hstep fun t =>
      ⟨fun hc => absurd hc hcleanup, fun msg hmsg => absurd hmsg (hfraud msg)⟩

theorem Ledger.Initial.inFlight {l : Ledger} (h : l.Initial) : l.InFlight := by
  intro t
  rw [h.view]
  exact TaskView.Closed.inFlight ⟨rfl, rfl, not_recordPending_of_none rfl⟩

/-- **In-flight consistency** in a run that spares the tasks under audit: a task
has a record with status `pendingSecondVerification` if and only if exactly
one of the two queues holds an entry for it. -/
theorem in_flight_consistent {c₀ c : Chain} (hgenesis : AtGenesis env c₀)
    (run : Run env AuditsSpared c₀ c) (t : TaskId) :
    (∃ st, c.state.ledger.getSettledTask t = some st ∧ st.status = .pendingSecondVerification) ↔
      (c.state.ledger.pendingAt false t).isSome ≠ (c.state.ledger.pendingAt true t).isSome := by
  have hall : c.state.ledger.InFlight :=
    run.preserves hgenesis (I := fun c => c.state.ledger.InFlight) hgenesis.initial.inFlight
      fun _ _ _ _ _ _ hc hev hp => hp.inFlight hev hc
  have hagree := (hall t).agree
  have honce : c.state.ledger.pendingAt false t = none ∨ c.state.ledger.pendingAt true t = none :=
    (hall t).once
  have hqueued : (c.state.ledger.view t).Queued ↔
      (c.state.ledger.pendingAt false t).isSome ≠ (c.state.ledger.pendingAt true t).isSome := by
    obtain hnone | hnone := honce
    all_goals simp [TaskView.Queued, Ledger.view, hnone, Option.isSome_iff_ne_none]
  exact hagree.trans hqueued

/-- A task that is drawn for audit waits in the second queue. -/
theorem in_flight_consistent_devnet :
    ∃ c st, Run devEnv AuditsSpared (devnet .default [("user", 1000)]) c ∧
      c.state.ledger.getSettledTask [16] = some st ∧ st.status = .pendingSecondVerification ∧
      (c.state.ledger.pendingAt false [16]).isSome ≠
        (c.state.ledger.pendingAt true [16]).isSome := by
  refine exists_pair_and_of (Run.exists_of_exec
    [devBatch [devEntry [16] "user" 100 5000], devEndBlock 2] (by decide +kernel)) ?_
  intro c st run hst hstatus
  exact (in_flight_consistent atGenesis_user run [16]).mp ⟨st, hst, hstatus⟩

/-- The clean-up forgets the record of a task that still waits for its audit;
and after a fraud proof the end of the audit leaves a pending record of a
task that no longer waits. -/
theorem in_flight_differs : AtGenesis devEnv (devnet .default [("user", 1000)]) ∧
      (∃ c, Run devEnv (fun _ _ => True) (devnet .default [("user", 1000)]) c ∧
        c.state.ledger.getSettledTask (devHash 16) = none ∧
        (c.state.ledger.pendingAt false (devHash 16)).isSome ∧
        c.state.ledger.pendingAt true (devHash 16) = none) ∧
      ∃ c, Run devEnv (fun _ _ => True) (devnet .default [("user", 1000)]) c ∧
        (∃ st ∈ c.state.ledger.getSettledTask (devHash 16),
          st.status = .pendingSecondVerification) ∧
        c.state.ledger.pendingAt false (devHash 16) = none ∧
        c.state.ledger.pendingAt true (devHash 16) = none :=
  ⟨atGenesis_user, Run.exists_of_exec
      [devBatch [devEntry (devHash 16) "user" 100 5000], devEndBlock 1500, devEndBlock 1501]
      (by decide +kernel),
    Run.exists_of_exec
      [devBatch [devEntry (devHash 16) "user" 100 0], devFraud "user" (devHash 16),
        devEndBlock 10000, devEndBlock 10001]
      (by decide +kernel)⟩

end FunaiChain.Settlement
