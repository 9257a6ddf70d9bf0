import FunaiChain.Settlement.Dedup

/-!
# FunaiChain.Settlement.TimeoutIndex

The timeout index of an audit queue is coherent when its keys are exactly the
heights and ids of the tasks that wait (`AuditQueue.Coherent`).  On a coherent
queue the sweep pairs every task with its own key, although it zips a filtered
list of tasks with an unfiltered list of keys, and it takes exactly the tasks
that are due (`Coherent.sweep`).

Two kinds of entries break coherence when they are drawn for audit.

* An entry of a task that still waits but whose dedup record was cleaned up:
  `SetSecondVerificationPending` overwrites the waiting entry and leaves the
  key of the old height behind (`timeout_key_stale`).
* An entry with an empty task id: the sweep skips its key, and from there on
  pairs every task with the key before its own.
-/

namespace FunaiChain.Settlement

open AuditQueue

variable {l l' : Ledger} {apt : SecondVerificationPendingTask} {cutoff height : Int} {third : Bool}
  {t : TaskId} {account : Addr → Bool} {v v' : TaskView} {env : Env} {params : Params} {c : Chain}

/-- When every key is mapped, zipping the results with the keys pairs each key
with its own result. -/
theorem mem_zip_filterMap {α β : Type} {f : α → Option β} {l : List α}
    (h : ∀ a ∈ l, (f a).isSome) (p : β × α) :
    p ∈ (l.filterMap f).zip l ↔ p.2 ∈ l ∧ f p.2 = some p.1 := by
  induction l with
  | nil => simp
  | cons a _ ih => grind

/-! ## coherent queues -/

namespace AuditQueue

variable {q : AuditQueue third}

/-- The keys of the timeout index are those of the waiting tasks, and the sweep
can see them: ids are not empty and heights are positive. -/
structure Coherent (q : AuditQueue third) : Prop where
  keys : ∀ k, (q.timeouts.get k).isSome ↔
    ∃ apt, q.pending.get k.taskId = some apt ∧ apt.submittedAt = k.height
  named : ∀ t apt, q.pending.get t = some apt → t ≠ []
  dated : ∀ t apt, q.pending.get t = some apt → 0 < apt.submittedAt

theorem coherent_empty : (empty : AuditQueue third).Coherent where
  keys := fun k => by
    have hkey : (empty : AuditQueue third).timeouts.get k = none := Table.get_empty k
    have hpending : (empty : AuditQueue third).pending.get k.taskId = none :=
      Table.get_empty _
    simp [hkey, hpending]
  named := fun t apt h => by
    have hpending : (empty : AuditQueue third).pending.get t = none := Table.get_empty _
    contradiction
  dated := fun t apt h => by
    have hpending : (empty : AuditQueue third).pending.get t = none := Table.get_empty _
    contradiction

namespace Coherent

/-- A task that does not wait yet may be queued. -/
theorem push (hq : q.Coherent) (htier : apt.isThirdVerification = third)
    (hnew : q.pending.get apt.taskId = none) (hname : apt.taskId ≠ [])
    (hdate : 0 < apt.submittedAt) : (q.push apt htier).Coherent where
  keys := fun k => by
    rw [timeouts_push, pending_push]
    by_cases ht : apt.taskId = k.taskId
    · -- the task had no key before
      have hnone : (q.timeouts.get k).isSome = false := by
        rw [Bool.eq_false_iff]
        intro hk
        obtain ⟨apt', hapt', -⟩ := (hq.keys k).mp hk
        rw [← ht, hnew] at hapt'
        contradiction
      rw [if_pos ht]
      by_cases hd : apt.submittedAt = k.height
      · simp_all
      · grind
    · have hkey : (⟨apt.submittedAt, apt.taskId⟩ : HeightKey) ≠ k :=
        fun he => ht (congrArg HeightKey.taskId he)
      rw [if_neg hkey, if_neg ht]
      exact hq.keys k
  named := fun t apt' h => by
    rw [pending_push] at h
    split at h
    · next ht => exact ht ▸ hname
    · exact hq.named t apt' h
  dated := fun t apt' h => by
    rw [pending_push] at h
    split at h
    · exact Option.some.inj h ▸ hdate
    · exact hq.dated t apt' h

theorem delete (hq : q.Coherent) (t : TaskId) : (q.delete t).Coherent where
  keys := fun k => by
    rw [timeouts_delete, pending_delete]
    by_cases ht : t = k.taskId
    · subst ht
      rw [if_pos rfl]
      constructor
      · intro hk
        split at hk
        · cases hk
        · next hother =>
          obtain ⟨apt, hapt, hd⟩ := (hq.keys k).mp hk
          exact absurd ⟨apt, hapt, by rw [hd]⟩ hother
      · rintro ⟨apt, hapt, -⟩
        contradiction
    · rw [if_neg ht, if_neg]
      · exact hq.keys k
      · rintro ⟨apt, -, he⟩
        exact ht (congrArg HeightKey.taskId he)
  named := fun u apt h => by
    rw [pending_delete] at h
    split at h
    · cases h
    · exact hq.named u apt h
  dated := fun u apt h => by
    rw [pending_delete] at h
    split at h
    · cases h
    · exact hq.dated u apt h

end Coherent

/-! ## the sweep of a coherent queue -/

/-- The key under which a waiting task is indexed. -/
def keyOf (apt : SecondVerificationPendingTask) : HeightKey := ⟨apt.submittedAt, apt.taskId⟩

theorem mem_dueKeys {k : HeightKey} :
    k ∈ dueKeys q cutoff ↔ (q.timeouts.get k).isSome ∧ 0 ≤ k.height ∧ k.height ≤ cutoff := by
  simp [dueKeys, Table.mem_entries, Option.isSome_iff_exists]

/-- With the right key the two deletions of the sweep are those of
`DeleteSecondVerificationPending`. -/
theorem finish_keyOf (h : q.pending.get apt.taskId = some apt) :
    q.finish apt.taskId (keyOf apt) = q.delete apt.taskId := by
  unfold finish delete
  rw [h]
  rfl

namespace Coherent

variable (hq : q.Coherent)
include hq

/-- The turns of the sweep are the tasks that are due, each with its own
key. -/
theorem mem_sweepTurns_iff {turn : SecondVerificationPendingTask × HeightKey} :
    turn ∈ sweepTurns q cutoff ↔ q.pending.get turn.1.taskId = some turn.1 ∧
    turn.1.submittedAt ≤ cutoff ∧ turn.2 = keyOf turn.1 := by
  have hfound : ∀ k ∈ dueKeys q cutoff,
      (if k.taskId.isEmpty then none else q.pending.get k.taskId) = q.pending.get k.taskId ∧
        (q.pending.get k.taskId).isSome := by
    intro k hk
    obtain ⟨apt, hapt, -⟩ := (hq.keys k).mp (mem_dueKeys.mp hk).1
    have hname := hq.named _ apt hapt
    rw [if_neg (by simpa using hname), hapt]
    exact ⟨rfl, rfl⟩
  have hall : ∀ k ∈ dueKeys q cutoff,
      (if k.taskId.isEmpty then none else q.pending.get k.taskId).isSome := by
    intro k hk
    rw [(hfound k hk).1]
    exact (hfound k hk).2
  rw [sweepTurns, dueTasks, mem_zip_filterMap hall]
  constructor
  · rintro ⟨hk, hapt⟩
    rw [(hfound _ hk).1] at hapt
    obtain ⟨hkey, -, hdue⟩ := mem_dueKeys.mp hk
    obtain ⟨apt, hapt', hd⟩ := (hq.keys _).mp hkey
    cases hapt.symm.trans hapt'
    have htask := (q.pending.lawful _ _ hapt).1
    refine ⟨htask.symm ▸ hapt, hd ▸ hdue, ?_⟩
    unfold keyOf
    rw [hd, htask]
  · rintro ⟨hapt, hdue, hkey⟩
    have hdate := hq.dated _ _ hapt
    have hmem : turn.2 ∈ dueKeys q cutoff := by
      rw [hkey]
      exact mem_dueKeys.mpr ⟨(hq.keys _).mpr ⟨turn.1, hapt, rfl⟩, hdate.le, hdue⟩
    refine ⟨hmem, ?_⟩
    rw [(hfound _ hmem).1, hkey]
    exact hapt

/-- A waiting task has one key. -/
theorem unique (k k' : HeightKey) (hk : (q.timeouts.get k).isSome)
    (hk' : (q.timeouts.get k').isSome) (ht : k.taskId = t) (ht' : k'.taskId = t) : k = k' := by
  obtain ⟨apt, hapt, hd⟩ := (hq.keys k).mp hk
  obtain ⟨apt', hapt', hd'⟩ := (hq.keys k').mp hk'
  rw [ht] at hapt
  rw [ht', hapt] at hapt'
  cases hapt'
  cases k
  cases k'
  simp_all

/-- No task has two turns. -/
theorem sweepTurns_distinct (cutoff : Int) :
    (sweepTurns q cutoff).Pairwise fun a b => a.1.taskId ≠ b.1.taskId := by
  rw [List.pairwise_iff_forall_sublist]
  intro a b hab he
  have hpairs : (sweepTurns q cutoff).Pairwise
      fun x y => ¬ (x.1.taskId = a.1.taskId ∧ y.1.taskId = a.1.taskId) :=
    sweepTurns_pairwise hq.unique
  exact List.pairwise_iff_forall_sublist.mp hpairs hab ⟨rfl, he.symm⟩

/-- Finishing waiting tasks with their own keys, one after the other. -/
theorem finishAll {turns : List (SecondVerificationPendingTask × HeightKey)}
    (hdistinct : turns.Pairwise fun a b => a.1.taskId ≠ b.1.taskId)
    (hturns : ∀ turn ∈ turns, q.pending.get turn.1.taskId = some turn.1 ∧ turn.2 = keyOf turn.1) :
    (q.finishAll turns).Coherent ∧ ∀ t, (q.finishAll turns).pending.get t =
      if ∃ turn ∈ turns, turn.1.taskId = t then none else q.pending.get t := by
  induction turns generalizing q with
  | nil => exact ⟨hq, fun t => by simp [finishAll]⟩
  | cons turn turns ih =>
    obtain ⟨hhead, htail⟩ := List.pairwise_cons.mp hdistinct
    obtain ⟨hpending, hkey⟩ := hturns turn (.head _)
    have hfinish : q.finishAll (turn :: turns) = (q.delete turn.1.taskId).finishAll turns := by
      rw [← finish_keyOf hpending, ← hkey]
      rfl
    -- the other tasks still wait after the first is taken out
    have hrest : ∀ turn' ∈ turns,
        (q.delete turn.1.taskId).pending.get turn'.1.taskId = some turn'.1 ∧
          turn'.2 = keyOf turn'.1 := by
      intro turn' hmem
      rw [pending_delete, if_neg (hhead turn' hmem)]
      exact hturns turn' (.tail _ hmem)
    obtain ⟨hcoherent, hget⟩ := ih (hq.delete turn.1.taskId) htail hrest
    rw [hfinish]
    refine ⟨hcoherent, fun t => ?_⟩
    rw [hget, pending_delete]
    by_cases ht : turn.1.taskId = t
    · rw [if_pos ht, ite_self, if_pos ⟨turn, .head _, ht⟩]
    · simp only [List.mem_cons, exists_eq_or_imp, ht, false_or, ↓reduceIte]

/-- **The sweep of a coherent queue** takes exactly the tasks that are due. -/
theorem sweep (cutoff : Int) : (q.finishAll (sweepTurns q cutoff)).Coherent ∧
    ∀ t, (q.finishAll (sweepTurns q cutoff)).pending.get t =
    (q.pending.get t).filter fun apt => cutoff < apt.submittedAt := by
  obtain ⟨hcoherent, hget⟩ := hq.finishAll (hq.sweepTurns_distinct cutoff)
    fun turn hturn => ⟨(hq.mem_sweepTurns_iff.mp hturn).1, (hq.mem_sweepTurns_iff.mp hturn).2.2⟩
  refine ⟨hcoherent, fun t => ?_⟩
  rw [hget]
  cases hapt : q.pending.get t with
  | none => simp_all
  | some apt =>
    have htask := (q.pending.lawful _ _ hapt).1
    by_cases hdue : apt.submittedAt ≤ cutoff
    · have hturn : (apt, keyOf apt) ∈ sweepTurns q cutoff :=
        hq.mem_sweepTurns_iff.mpr ⟨htask.symm ▸ hapt, hdue, rfl⟩
      rw [if_pos ⟨_, hturn, htask⟩, Option.filter_some_neg (by simpa using hdue)]
    · rw [if_neg]
      · rw [Option.filter_some_pos (by simpa using hdue)]
      · rintro ⟨turn, hturn, rfl⟩
        obtain ⟨hpending, hold, -⟩ := hq.mem_sweepTurns_iff.mp hturn
        cases hpending.symm.trans hapt
        exact hdue hold

end Coherent

end AuditQueue

/-! ## coherent ledgers -/

namespace Ledger

/-- Both queues are coherent, and no task waits in both. -/
structure Indexed (l : Ledger) : Prop where
  coherent : ∀ third, (l.queue third).Coherent
  apart : ∀ t, l.pendingAt false t = none ∨ l.pendingAt true t = none

theorem Indexed.congr (hl : l.Indexed) (h : ∀ third, l'.queue third = l.queue third) :
    l'.Indexed where
  coherent := fun third => (h third).symm ▸ hl.coherent third
  apart := fun t => by
    unfold pendingAt
    rw [h, h]
    exact hl.apart t

/-- A sweep keeps the queues coherent. -/
theorem Indexed.swept (hl : l.Indexed)
    (hqueue : l'.queue third = (l.queue third).finishAll (sweepTurns (l.queue third) cutoff))
    (hother : l'.queue (!third) = l.queue (!third)) : l'.Indexed := by
  obtain ⟨hcoherent, hget⟩ := (hl.coherent third).sweep cutoff
  have hgone : ∀ tier t, l.pendingAt tier t = none → l'.pendingAt tier t = none := by
    intro tier t hnone
    unfold pendingAt at hnone ⊢
    by_cases htier : tier = third
    · subst htier
      rw [hqueue, hget, hnone]
      rfl
    · obtain rfl : tier = !third := Bool.eq_not_of_ne htier
      rw [hother]
      exact hnone
  constructor
  · intro tier
    by_cases htier : tier = third
    · grind
    · obtain rfl : tier = !third := Bool.eq_not_of_ne htier
      rw [hother]
      exact hl.coherent _
  · intro t
    exact (hl.apart t).imp (hgone false t) (hgone true t)

theorem Initial.indexed (h : l.Initial) : l.Indexed := by
  have hqueues : ∀ third, l.queue third = .empty := by
    intro third
    rw [h.only]
    cases third <;> rfl
  constructor
  · intro third
    rw [hqueues]
    exact coherent_empty
  · intro t
    left
    unfold pendingAt
    rw [hqueues]
    exact Table.get_empty t

end Ledger

/-- A task without dedup record waits in no queue. -/
def TaskView.Unqueued (v : TaskView) : Prop :=
  v.record = none → v.second = none ∧ v.third = none

instance (v : TaskView) : Decidable v.Unqueued :=
  inferInstanceAs (Decidable (_ → _))

section Steps
variable {lab : Label}

/-- **A step keeps the queues coherent**, when an entry has an id and is not
about a task that waits without record. -/
theorem QueueStep.indexed (h : QueueStep env height l lab l') (hl : l.Indexed)
    (hheight : 0 < height)
    (hentry : ∀ e, lab = .entry e → e.taskId ≠ [] ∧ (l.view e.taskId).Unqueued) : l'.Indexed := by
  cases h with
  | same queues => exact hl.congr queues
  | parked e label _ _ adm step =>
    obtain ⟨hname, hunqueued⟩ := hentry e label
    obtain ⟨hsecond, hthird⟩ := hunqueued adm.unsettled
    subst step
    constructor
    · intro third
      cases third with
      | false =>
        exact (hl.coherent false).push (pendingOf_second height e) hsecond hname hheight
      | true => exact hl.coherent true
    · intro t
      by_cases ht : e.taskId = t
      · exact .inr (ht ▸ hthird)
      · have hget : (park height l e).pendingAt false t = l.pendingAt false t := by
          show (park height l e).second.pending.get t = l.second.pending.get t
          rw [second_park, pending_push, if_neg (by exact ht)]
        rw [hget]
        exact hl.apart t
  | escalated apt pending _ second third =>
    have hthird : l.pendingAt true apt.taskId = none :=
      (hl.apart apt.taskId).resolve_left (by simp [pending])
    have hcoherent := hl.coherent false
    constructor
    · intro tier
      cases tier with
      | false =>
        show l'.second.Coherent
        rw [second]
        exact hcoherent.delete apt.taskId
      | true =>
        show l'.third.Coherent
        rw [third]
        exact (hl.coherent true).push (thirdPendingOf_third height apt) hthird
          (hcoherent.named _ _ pending) hheight
    · intro t
      show l'.second.pending.get t = none ∨ l'.third.pending.get t = none
      rw [second, third, pending_delete, pending_push]
      by_cases ht : apt.taskId = t
      · exact .inl (if_pos ht)
      · rw [if_neg ht, if_neg (by exact ht)]
        exact hl.apart t
  | closed t second third =>
    constructor
    · intro tier
      cases tier with
      | false =>
        show l'.second.Coherent
        rw [second]
        exact (hl.coherent false).delete t
      | true =>
        show l'.third.Coherent
        rw [third]
        exact hl.coherent true
    · intro u
      show l'.second.pending.get u = none ∨ l'.third.pending.get u = none
      rw [second, third, pending_delete]
      obtain hnone | hnone := hl.apart u
      · left
        rw [show l.second.pending.get u = none from hnone, ite_self]
      · exact .inr hnone
  | swept _ _ queue other => exact hl.swept queue other

/-- An entry leaves no task waiting without record. -/
theorem TaskStep.unqueued {e : SettlementEntry}
    (h : TaskStep env height params account t v (.entry e) v') (hv : v.Unqueued) : v'.Unqueued := by
  cases h with
  | idle => exact hv
  | parked | unpaid | charged => exact fun hnone => nomatch hnone
  | refused => exact hv

end Steps

/-! ## finalised tasks -/

/-- What the sweep does to a task that is due: it leaves its queue; unless it is
marked as fraud, its record gets a final status at this height; and at most
one payment is made for it. -/
structure Finalised (height : Int) (third : Bool) (v v' : TaskView) : Prop where
  gone : v'.pending third = none
  marked : v.marked = true → v' = v.setPending third none
  final : v.marked = false → ∃ st, v'.record = some st ∧ st.settledAt = height ∧
    (st.status = .settled ∨ st.status = .failSettled ∨ st.status = .failed)
  once : v'.log = v.log ∨ ∃ p, v'.log = (height, .settled p) :: v.log

theorem chargedStatus_final (asSuccess : Bool) :
    chargedStatus asSuccess = .settled ∨ chargedStatus asSuccess = .failSettled := by
  cases asSuccess
  · exact .inr rfl
  · exact .inl rfl

theorem TaskTimeout.finalised (h : TaskTimeout env height account third apt v v') :
    Finalised height third v v' := by
  cases h with
  | settled step =>
    cases step with
    | marked mark =>
      refine ⟨by cases third <;> rfl, fun _ => rfl, fun hn => ?_, .inl (by cases third <;> rfl)⟩
      rw [mark] at hn
      contradiction
    | charged unmarked asSuccess p _ recorded =>
      refine ⟨by cases third <;> rfl, fun hm => ?_, fun _ => ?_, .inr ⟨p, by cases third <;> rfl⟩⟩
      · grind
      · have hstatus := chargedStatus_final asSuccess
        exact ⟨auditRecordOf height apt (chargedStatus asSuccess) recorded,
          by cases third <;> rfl, rfl, hstatus.imp_right .inl⟩
  | failed step =>
    have hfinal : ∀ v₁ : TaskView, v.marked = false → v₁.log = v.log → Finalised height third v
          ({ v₁ with record := some (auditRecordOf height apt .failed Coin.zero) }.setPending
            third none) := by
      intro v₁ unmarked hlog
      refine ⟨by cases third <;> rfl, fun hm => ?_, fun _ => ?_,
        .inl (by cases third <;> exact hlog)⟩
      · grind
      · exact ⟨auditRecordOf height apt .failed Coin.zero, by cases third <;> rfl, rfl,
          .inr (.inr rfl)⟩
    cases step with
    | stuck unmarked => exact hfinal v unmarked rfl
    | refused unmarked => exact hfinal _ unmarked rfl

/-- What the sweep of one tier does to a coherent ledger. -/
structure TierSwept (height cutoff : Int) (third : Bool) (l l' : Ledger) : Prop where
  indexed : l'.Indexed
  pending : ∀ t, l'.pendingAt third t =
    (l.pendingAt third t).filter fun apt => cutoff < apt.submittedAt
  other : ∀ t, l'.pendingAt (!third) t = l.pendingAt (!third) t
  due : ∀ t apt, l.pendingAt third t = some apt → apt.submittedAt ≤ cutoff →
    Finalised height third (l.view t) (l'.view t)
  rest : ∀ t, (∀ apt, l.pendingAt third t = some apt → cutoff < apt.submittedAt) →
    l'.view t = l.view t

theorem SweepStep.tierSwept {timeout out : Int}
    (h : SweepStep env height params third timeout l l' out) (hl : l.Indexed) :
    TierSwept height (height - timeout) third l l' := by
  cases h with
  | early =>
    -- heights are positive, so nothing is due
    have hyoung : ∀ t apt, l.pendingAt third t = some apt → height - timeout < apt.submittedAt := by
      intro t apt hapt
      have hdate := (hl.coherent third).dated t apt hapt
      omega
    refine ⟨hl, fun t => ?_, fun _ => rfl, fun t apt hapt hdue => ?_, fun _ _ => rfl⟩
    · cases hapt : l.pendingAt third t with
      | none => rfl
      | some apt => rw [Option.filter_some_pos (by simpa using hyoung t apt hapt)]
    · exact absurd (hyoung t apt hapt) (Int.not_lt.mpr hdue)
  | swept _ turns =>
    have hq := hl.coherent third
    obtain ⟨hqueue, hother⟩ := turns.queue
    have hpending : ∀ t, l'.pendingAt third t =
        (l.pendingAt third t).filter fun apt => height - timeout < apt.submittedAt := by
      intro t
      unfold Ledger.pendingAt
      rw [hqueue]
      exact (hq.sweep (height - timeout)).2 t
    refine ⟨hl.swept hqueue hother, hpending, fun t => ?_, fun t apt hapt hdue => ?_,
      fun t hrest => ?_⟩
    · unfold Ledger.pendingAt
      rw [hother]
    · have honce : (sweepTurns (l.queue third) (height - timeout)).Pairwise
          fun a b => ¬ (a.1.taskId = t ∧ b.1.taskId = t) := sweepTurns_pairwise hq.unique
      obtain hsame | hturn := turns.task_once (fun turn hturn ht =>
        Option.some.inj ((l.pendingAt_of_turn hturn ht).symm.trans hapt)) honce
      · -- a task that is due does not stay
        have hgone := hpending t
        rw [hapt, Option.filter_some_neg (by simpa using hdue), ← Ledger.pending_view, hsame,
          Ledger.pending_view, hapt] at hgone
        contradiction
      · exact hturn.finalised
    · refine turns.view_of_not_mem fun turn hturn ht => ?_
      obtain ⟨hapt, hdue, -⟩ := hq.mem_sweepTurns_iff.mp hturn
      rw [ht] at hapt
      exact absurd (hrest _ hapt) (Int.not_lt.mpr hdue)

/-! ## runs -/

/-- The entries of a batch have task ids, and none is about a task that waits
for an audit without dedup record. -/
def QueuesSpared (c : Chain) (ev : Event) : Prop :=
  ∀ e ∈ ev.entries, e.taskId ≠ [] ∧ (c.state.ledger.view e.taskId).Unqueued

instance (c : Chain) (ev : Event) : Decidable (QueuesSpared c ev) :=
  inferInstanceAs (Decidable (∀ e ∈ ev.entries, _ ∧ _))

theorem Performed.indexed {c' : Chain} {ev : Event} {x y : Int} (hp : Performed env ev c c' x y)
    (hheight : 0 < c.ctx.height) (hev : QueuesSpared c ev) (hc : c.state.ledger.Indexed) :
    c'.state.ledger.Indexed := by
  -- along a batch the tasks of its entries stay out of the queues, unless recorded
  have hboth : c'.state.ledger.Indexed ∧
      ∀ e ∈ ev.entries, (c'.state.ledger.view e.taskId).Unqueued := by
    refine hp.steps.invariant (I := fun l => l.Indexed ∧
      ∀ e ∈ ev.entries, (l.view e.taskId).Unqueued) ⟨hc, fun e he => (hev e he).2⟩ ?_
    intro lab hlab l l' x y hl hstep
    refine ⟨hstep.queues.indexed hl.1 hheight ?_, fun e he => ?_⟩
    · rintro e rfl
      have he := Event.issues hlab
      exact ⟨(hev e he).1, hl.2 e he⟩
    · obtain ⟨e', -, rfl⟩ := Event.entry_of_mem he hlab
      exact (hstep.task e.taskId).unqueued (hl.2 e he)
  exact hboth.1

theorem Run.indexed {c₀ : Chain} (hgenesis : AtGenesis env c₀) (run : Run env QueuesSpared c₀ c) :
    0 < c.ctx.height ∧ c.state.ledger.Indexed := by
  refine run.preserves hgenesis (I := fun c => 0 < c.ctx.height ∧ c.state.ledger.Indexed)
    ⟨hgenesis.height, hgenesis.initial.indexed⟩ ?_
  intro c ev c' x y _ hc hev hp
  exact ⟨hc.1.trans_le hp.height_le, hp.indexed hc.1 hev hc.2⟩

/-- What the timeout sweeps do in a block: in each tier exactly the tasks that
are due are finalised and taken from the queue with their keys. -/
structure SweptExactly (height : Int) (params : Params) (l l' : Ledger) : Prop where
  pending : ∀ third t, l'.pendingAt third t = (l.pendingAt third t).filter
    fun apt => height - params.timeoutOf third < apt.submittedAt
  keys : ∀ third k, l'.hasKey third k = true ↔
    l.hasKey third k = true ∧ height - params.timeoutOf third < k.height
  due : ∀ third t apt, l.pendingAt third t = some apt →
    apt.submittedAt ≤ height - params.timeoutOf third →
    Finalised height third (l.view t) (l'.view t)
  rest : ∀ t, (∀ third apt, l.pendingAt third t = some apt →
    height - params.timeoutOf third < apt.submittedAt) → l'.view t = l.view t

/-- The keys of coherent queues follow the pending tasks. -/
theorem Ledger.Indexed.hasKey_iff (hl : l.Indexed) (third : Bool) (k : HeightKey) :
    l.hasKey third k = true ↔
    ∃ apt, l.pendingAt third k.taskId = some apt ∧ apt.submittedAt = k.height :=
  (hl.coherent third).keys k

theorem TierSwept.exactly {l₁ l₂ : Ledger} (hl : l.Indexed)
    (h : TierSwept height (height - params.timeoutOf false) false l l₁)
    (h' : TierSwept height (height - params.timeoutOf true) true l₁ l₂) :
    SweptExactly height params l l₂ := by
  have hpending : ∀ third t, l₂.pendingAt third t = (l.pendingAt third t).filter
      fun apt => height - params.timeoutOf third < apt.submittedAt := by
    intro third t
    cases third with
    | false => exact (h'.other t).trans (h.pending t)
    | true =>
      rw [h'.pending t]
      exact congrArg (Option.filter _) (h.other t)
  refine ⟨hpending, fun third k => ?_, fun third t apt hapt hdue => ?_, fun t hrest => ?_⟩
  · rw [h'.indexed.hasKey_iff, hl.hasKey_iff, hpending]
    constructor
    · rintro ⟨apt, hapt, hd⟩
      obtain ⟨hold, hlate⟩ := Option.filter_eq_some_iff.mp hapt
      exact ⟨⟨apt, hold, hd⟩, hd ▸ of_decide_eq_true hlate⟩
    · grind
  · cases third with
    | false =>
      -- the task does not wait in the third queue
      have hthird : l₁.pendingAt true t = none :=
        (h.other t).trans ((hl.apart t).resolve_left (by simp [hapt]))
      rw [h'.rest t fun apt' hapt' => by rw [hthird] at hapt'; contradiction]
      exact h.due t apt hapt hdue
    | true =>
      have hsecond : l.pendingAt false t = none := (hl.apart t).resolve_right (by simp [hapt])
      have hsame : l₁.view t = l.view t :=
        h.rest t fun apt' hapt' => by rw [hsecond] at hapt'; contradiction
      rw [← hsame]
      exact h'.due t apt ((h.other t).trans hapt) hdue
  · have hsame : l₁.view t = l.view t := h.rest t (hrest false)
    rw [← hsame]
    exact h'.rest t fun apt hapt => hrest true apt ((h.other t).symm.trans hapt)

/-- `HandleSecondVerificationTimeouts` on a coherent ledger. -/
theorem handleSecondVerificationTimeouts_exact {ctx : Ctx} {s s' : State}
    (hdenom : s.ledger.Denominated) (hl : s.ledger.Indexed)
    (h : handleSecondVerificationTimeouts env ctx s = .ok s') :
    SweptExactly ctx.height s.params s.ledger s'.ledger := by
  obtain ⟨s₁, hsecond, hthird⟩ := bind_eq_ok.mp h
  obtain ⟨l₁, x, hstep, hmove⟩ := (sweepQueue_cases hdenom).get hsecond
  have hswept := hstep.tierSwept hl
  have hsweep : LedgerStep env ctx.height s.params (fun _ => 0) s.ledger (.sweep false) l₁ x 0 :=
    .sweep hstep
  have hdenom₁ : s₁.ledger.Denominated := hmove.ledger ▸ hsweep.denominated hdenom
  obtain ⟨l₂, y, hstep', hmove'⟩ := (sweepQueue_cases hdenom₁).get hthird
  rw [hmove.ledger, hmove.params] at hstep'
  have hswept' := hstep'.tierSwept hswept.indexed
  rw [hmove'.ledger]
  exact hswept.exactly hl hswept'

/-- **The timeout index is coherent, and the sweep is exact.**  In every state of
a run that spares the queues, the keys of both indexes are those of the tasks
that wait; and at any height the sweeps that EndBlock runs on such a state
take exactly the tasks that are due. -/
theorem timeout_index_coherent {c₀ c : Chain} (hgenesis : AtGenesis env c₀)
    (run : Run env QueuesSpared c₀ c) : (∀ third k, c.state.ledger.hasKey third k = true ↔
      ∃ apt, c.state.ledger.pendingAt third k.taskId = some apt ∧ apt.submittedAt = k.height) ∧
    ∀ ctx s s', (s = c.state ∨ s = cleanupExpiredTasks ctx c.state) →
      handleSecondVerificationTimeouts env ctx s = .ok s' →
        SweptExactly ctx.height s.params s.ledger s'.ledger := by
  obtain ⟨-, hl⟩ := run.indexed hgenesis
  have hdenom := (run.wellFormed hgenesis).denominated
  refine ⟨hl.hasKey_iff, fun ctx s s' hs h => ?_⟩
  obtain rfl | rfl := hs
  · exact handleSecondVerificationTimeouts_exact hdenom hl h
  · -- the clean-up looks at dedup records only
    refine handleSecondVerificationTimeouts_exact (hdenom.congr rfl) (hl.congr ?_) h
    intro third
    cases third <;> rfl

/-- Two tasks are drawn for audit at different heights: when the first times
out, the second and its key stay. -/
theorem timeout_index_devnet :
    ∃ c s', Run devEnv QueuesSpared (devnet .default [("user", 1000)]) c ∧
      handleSecondVerificationTimeouts devEnv ⟨8641, [], []⟩ c.state = .ok s' ∧
      (c.state.ledger.hasKey false ⟨1, [16]⟩ = true ∧
        c.state.ledger.hasKey false ⟨2, [17]⟩ = true) ∧
      ¬ s'.ledger.hasKey false ⟨1, [16]⟩ = true ∧ s'.ledger.hasKey false ⟨2, [17]⟩ = true := by
  obtain ⟨c, run, hkeys, htimeout, s', hs', -⟩ :
      ∃ c, Run devEnv QueuesSpared (devnet .default [("user", 1000)]) c ∧
      ((c.state.ledger.hasKey false ⟨1, [16]⟩ = true ∧
        c.state.ledger.hasKey false ⟨2, [17]⟩ = true) ∧
        c.state.params.timeoutOf false = 8640 ∧
        ∃ s', handleSecondVerificationTimeouts devEnv ⟨8641, [], []⟩ c.state = .ok s' ∧ True) :=
    Run.exists_of_exec [devBatch [devEntry [16] "user" 100 0], devEndBlock 2,
      devBatch [devEntry [17] "user" 100 0]] (by decide +kernel)
  have hexact := ((timeout_index_coherent atGenesis_user run).2 _ _ s' (.inl rfl) hs').keys
  refine ⟨c, s', run, hs', hkeys, fun hkey => ?_, (hexact false _).mpr ⟨hkeys.2, ?_⟩⟩
  · grind
  · rw [htimeout]
    decide

/-- A task that waits loses its dedup record to the clean-up and is drawn for
audit again: the key of its first entry stays in the index, and the sweep takes
the new entry by it, long before it is due. -/
theorem timeout_key_stale : AtGenesis devEnv (devnet .default [("user", 1000)]) ∧
      ∃ c s', Run devEnv (fun _ _ => True) (devnet .default [("user", 1000)]) c ∧
        c.state.ledger.hasKey false ⟨1, [16]⟩ = true ∧
        (c.state.ledger.pendingAt false [16]).map (·.submittedAt) = some 1500 ∧
        handleSecondVerificationTimeouts devEnv ⟨8641, [], []⟩ c.state = .ok s' ∧
        s'.ledger.pendingAt false [16] = none ∧ s'.ledger.hasKey false ⟨1500, [16]⟩ = true := by
  refine ⟨atGenesis_user, exists_pair_and_imp (Run.exists_of_exec
    [devBatch [devEntry [16] "user" 100 5000], devEndBlock 1400, devEndBlock 1500,
      devBatch [devEntry [16] "user" 100 5000]] ?_) fun _ _ h => h⟩
  decide +kernel

end FunaiChain.Settlement
