import FunaiChain.Settlement.Devnet

/-!
# FunaiChain.Settlement.Dedup

How often a task is charged.  A task is charged once as long as the dedup
record outlives every entry that is still accepted for it.  The clean-up does
not see to that: it goes by the height at which the task was settled, not by
the expiry of its entries, so a task with a late expiry can be charged again
(`charged_twice`).

`Ledger.Once` is the invariant behind the positive half: it ties the record,
the queues, the keys of the timeout index and the log of one task together.
-/

namespace FunaiChain.Settlement

open TaskView

variable {settled third : Bool} {t : TaskId} {l l' : Ledger} {lab : Label} {k : HeightKey}
  {bound bound' buffer expiry height height' out x y : Int} {c c' : Chain} {ev : Event}
  {turns : List (SecondVerificationPendingTask × HeightKey)} {apt : SecondVerificationPendingTask}
  {account : Addr → Bool} {q : AuditQueue third}

/-! ## timeout keys -/

theorem AuditQueue.timeouts_of_finishAll (h : ((q.finishAll turns).timeouts.get k).isSome) :
    (q.timeouts.get k).isSome := by
  induction turns generalizing q with
  | nil => exact h
  | cons _ _ ih =>
    have hfinish := ih h
    rw [timeouts_finish] at hfinish
    split at hfinish
    · cases hfinish
    · exact hfinish

theorem AuditQueue.timeouts_of_delete (h : ((q.delete t).timeouts.get k).isSome) :
    (q.timeouts.get k).isSome := by
  rw [timeouts_delete] at h
  split at h
  · cases h
  · exact h

namespace Ledger

/-- Is there a key of the timeout index of a tier? -/
def hasKey (l : Ledger) (third : Bool) (k : HeightKey) : Bool :=
  ((l.queue third).timeouts.get k).isSome

end Ledger

variable {env : Env} {params : Params}

/-- Where a new key comes from: an entry was drawn for audit, or a task moved to
the third tier. -/
inductive NewKey (env : Env) (height : Int) (l : Ledger) (lab : Label) (l' : Ledger) :
    Bool → HeightKey → Prop
  | parked (e : SettlementEntry) (label : lab = .entry e) (u w : Addr)
      (adm : Admissible env height l e u w) (step : l' = park height l e) :
      NewKey env height l lab l' false ⟨height, e.taskId⟩
  | escalated (apt : SecondVerificationPendingTask)
      (pending : l.pendingAt false apt.taskId = some apt)
      (record : l'.getSettledTask apt.taskId = l.getSettledTask apt.taskId)
      (gone : l'.pendingAt false apt.taskId = none) :
      NewKey env height l lab l' true ⟨height, apt.taskId⟩

/-- **A key of the timeout index is old, or a task was queued just now.** -/
theorem LedgerStep.hasKey {fees : Int → Int} {counted : Int}
    (h : LedgerStep env height params fees l lab l' out counted) (hk : l'.hasKey third k = true) :
    l.hasKey third k = true ∨ NewKey env height l lab l' third k := by
  unfold Ledger.hasKey at hk ⊢
  cases h.queues with
  | same queues => grind
  | parked e label u w adm step =>
    cases third with
    | true =>
      subst step
      exact .inl hk
    | false =>
      have hk : ((l'.second).timeouts.get k).isSome := hk
      rw [step, second_park, AuditQueue.timeouts_push] at hk
      split at hk
      · next he =>
        subst he
        exact .inr (.parked e label u w adm step)
      · exact .inl hk
  | escalated apt pending record second third₀ =>
    cases third with
    | false =>
      have hk : ((l'.second).timeouts.get k).isSome := hk
      rw [second] at hk
      exact .inl (AuditQueue.timeouts_of_delete hk)
    | true =>
      have hk : ((l'.third).timeouts.get k).isSome := hk
      rw [third₀, AuditQueue.timeouts_push] at hk
      split at hk
      · next he =>
        subst he
        have hgone : l'.pendingAt false apt.taskId = none := by
          show l'.second.pending.get apt.taskId = none
          rw [second, AuditQueue.pending_delete, if_pos rfl]
        exact .inr (.escalated apt pending record hgone)
      · exact .inl hk
  | closed _ second third₀ =>
    cases third with
    | false =>
      have hk : ((l'.second).timeouts.get k).isSome := hk
      rw [second] at hk
      exact .inl (AuditQueue.timeouts_of_delete hk)
    | true =>
      have hk : ((l'.third).timeouts.get k).isSome := hk
      rw [third₀] at hk
      exact .inl hk
  | swept tier _ queue other =>
    by_cases htier : third = tier
    · subst htier
      rw [queue] at hk
      exact .inl (AuditQueue.timeouts_of_finishAll hk)
    · obtain rfl : third = !tier := Bool.eq_not_of_ne htier
      rw [other] at hk
      exact .inl hk

/-! ## a sweep with one key for the task -/

/-- A task with at most one key has at most one turn. -/
theorem sweepTurns_pairwise {cutoff : Int}
    (hunique : ∀ k k', (q.timeouts.get k).isSome → (q.timeouts.get k').isSome → k.taskId = t →
    k'.taskId = t → k = k') :
    (sweepTurns q cutoff).Pairwise fun a b => ¬ (a.1.taskId = t ∧ b.1.taskId = t) := by
  have hmem : ∀ k ∈ dueKeys q cutoff, (q.timeouts.get k).isSome := by
    intro k hk
    obtain ⟨⟨k', u⟩, hku, rfl⟩ := List.mem_map.mp (List.mem_of_mem_filter hk)
    rw [Table.mem_entries.mp hku]
    rfl
  have hkeys : (dueKeys q cutoff).Pairwise fun k k' => ¬ (k.taskId = t ∧ k'.taskId = t) := by
    have hnodup : (dueKeys q cutoff).Nodup := q.timeouts.nodup_keys.filter _
    refine hnodup.imp_of_mem fun hk hk' hne ht => ?_
    exact hne (hunique _ _ (hmem _ hk) (hmem _ hk') ht.1 ht.2)
  have htasks : (dueTasks q (dueKeys q cutoff)).Pairwise
      fun a b => ¬ (a.taskId = t ∧ b.taskId = t) := by
    refine List.Pairwise.filterMap _ (fun k k' hne a ha b hb ht => hne ?_) hkeys
    have htask : ∀ {k : HeightKey} {a},
        (if k.taskId.isEmpty then none else q.pending.get k.taskId) = some a →
        a.taskId = k.taskId := by
      intro k a ha
      split at ha
      · cases ha
      · exact (q.pending.lawful _ _ ha).1
    exact ⟨(htask ha).symm.trans ht.1, (htask hb).symm.trans ht.2⟩
  have hlen : (dueTasks q (dueKeys q cutoff)).length ≤ (dueKeys q cutoff).length :=
    List.length_filterMap_le _ _
  have hfst : (sweepTurns q cutoff).map Prod.fst = dueTasks q (dueKeys q cutoff) :=
    List.map_fst_zip hlen
  rw [← hfst, List.pairwise_map] at htasks
  exact htasks

theorem Sweep.task_once (h : Sweep env height params third turns l l' out)
    (hturns : ∀ turn ∈ turns, turn.1.taskId = t → turn.1 = apt)
    (honce : turns.Pairwise fun a b => ¬ (a.1.taskId = t ∧ b.1.taskId = t)) : l'.view t = l.view t ∨
    TaskTimeout env height l.hasAccount third apt (l.view t) (l'.view t) := by
  induction h with
  | nil => exact .inl rfl
  | @cons turn turns l l₁ l₂ x y step rest ih =>
    obtain ⟨hhead, htail⟩ := List.pairwise_cons.mp honce
    by_cases ht : turn.1.taskId = t
    · have hrest := rest.view_of_not_mem fun turn' hturn' ht' => hhead turn' hturn' ⟨ht, ht'⟩
      have happ := step.task ht
      rw [hturns turn List.mem_cons_self ht] at happ
      rw [hrest]
      exact .inr happ
    · have hrest := ih (fun turn' hturn' => hturns turn' (.tail _ hturn')) htail
      rwa [step.view_of_ne ht, step.hasAccount] at hrest

theorem SweepStep.task_once {timeout : Int} (h : SweepStep env height params third timeout l l' out)
    (hunique : ∀ k k', l.hasKey third k = true → l.hasKey third k' = true →
    k.taskId = t → k'.taskId = t → k = k') :
    l'.view t = l.view t ∨ ∃ apt, (l.view t).pending third = some apt ∧
    TaskTimeout env height l.hasAccount third apt (l.view t) (l'.view t) := by
  cases h with
  | early => exact .inl rfl
  | swept _ turns =>
    have honce : (sweepTurns (l.queue third) (height - timeout)).Pairwise
        fun a b => ¬ (a.1.taskId = t ∧ b.1.taskId = t) := sweepTurns_pairwise hunique
    cases hapt : l.pendingAt third t with
    | none =>
      left
      exact turns.view_of_not_mem fun turn hturn ht =>
        nomatch hapt.symm.trans (l.pendingAt_of_turn hturn ht)
    | some apt =>
      obtain hview | hturn := turns.task_once (fun turn hturn ht =>
        Option.some.inj ((l.pendingAt_of_turn hturn ht).symm.trans hapt)) honce
      · exact .inl hview
      · exact .inr ⟨apt, (l.pending_view third t).trans hapt, hturn⟩

/-! ## the invariant of one task -/

namespace Effect

def isPayment : Effect → Bool
  | .settled _ => true
  | _ => false

end Effect

/-- An expiry that the clean-up respects, seen from a height: none, or one at
most a block beyond the buffer. -/
def Timely (expiry buffer height : Int) : Prop :=
  expiry = 0 ∨ 0 < expiry ∧ expiry ≤ height + buffer + 1

instance (expiry buffer height : Int) : Decidable (Timely expiry buffer height) :=
  inferInstanceAs (Decidable (_ ∨ _))

theorem Timely.mono (h : Timely expiry buffer height) (hle : height ≤ height') :
    Timely expiry buffer height' := by
  unfold Timely at *
  omega

namespace TaskView

/-- How often the task was charged. -/
def charges (v : TaskView) : Nat := v.log.countP fun e => e.2.isPayment

/-- The record of the task is there, or its entries have expired before
`bound`. -/
def Traced (expiry bound : Int) (v : TaskView) : Prop :=
  v.record.isSome ∨ 0 < expiry ∧ expiry < bound

/-- The invariant of one task: charged at most once, and not at all while it
waits for an audit or has left no trace. -/
structure Once (expiry buffer height bound : Int) (v : TaskView) : Prop where
  once : v.charges ≤ 1
  waiting : ∀ third apt, v.pending third = some apt →
    v.charges = 0 ∧ apt.expireBlock = expiry ∧ Timely expiry buffer height
  apart : v.second = none ∨ v.third = none
  untraced : ¬ v.Traced expiry bound → v.second = none ∧ v.third = none ∧ v.charges = 0
  recorded : ∀ st, v.record = some st → st.expireBlock = expiry ∧ Timely expiry buffer st.settledAt

/-- A record that stays until its entries have expired. -/
def InTime (expiry buffer : Int) (r : Option SettledTaskID) : Prop :=
  ∀ st, r = some st → st.expireBlock = expiry ∧ Timely expiry buffer st.settledAt

theorem InTime.some {st : SettledTaskID} (hexpiry : st.expireBlock = expiry)
    (htimely : Timely expiry buffer st.settledAt) : InTime expiry buffer (some st) := by
  intro st' hst
  rw [← Option.some.inj hst]
  exact ⟨hexpiry, htimely⟩

variable {v v' : TaskView}

theorem Once.mono (h : v.Once expiry buffer height bound) (hheight : height ≤ height')
    (hbound : bound ≤ bound') : v.Once expiry buffer height' bound' where
  once := h.once
  waiting := fun third apt hapt =>
    ⟨(h.waiting third apt hapt).1, (h.waiting third apt hapt).2.1,
      (h.waiting third apt hapt).2.2.mono hheight⟩
  apart := h.apart
  untraced := fun hn => h.untraced fun ht => hn (ht.imp_right fun hb => ⟨hb.1, by omega⟩)
  recorded := h.recorded

/-- The invariant does not look at reservation, mark and votes, nor at the log
beyond the payments. -/
theorem Once.congr (h : v.Once expiry buffer height bound) (hrecord : v'.record = v.record)
    (hsecond : v'.second = v.second) (hthird : v'.third = v.third)
    (hcharges : v'.charges = v.charges) : v'.Once expiry buffer height bound where
  once := hcharges ▸ h.once
  waiting := by
    intro third apt hapt
    rw [hcharges]
    refine h.waiting third apt ?_
    cases third with
    | false => exact hsecond.symm.trans hapt
    | true => exact hthird.symm.trans hapt
  apart := by rw [hsecond, hthird]; exact h.apart
  untraced := by
    rw [hsecond, hthird, hcharges, Traced, hrecord]
    exact h.untraced
  recorded := hrecord ▸ h.recorded

/-- A task that waits nowhere, charged at most once, with a trace. -/
theorem Once.of_final (hsecond : v'.second = none) (hthird : v'.third = none)
    (hcharges : v'.charges ≤ 1) (htraced : v'.Traced expiry bound)
    (hrecorded : InTime expiry buffer v'.record) : v'.Once expiry buffer height bound where
  once := hcharges
  waiting := by
    intro third apt hapt
    cases third with
    | false => exact nomatch hsecond.symm.trans hapt
    | true => exact nomatch hthird.symm.trans hapt
  apart := .inl hsecond
  untraced := fun hn => absurd htraced hn
  recorded := hrecorded

/-- A task that waits has left a trace. -/
theorem Once.traced (h : v.Once expiry buffer height bound) (third : Bool)
    (hapt : v.pending third = some apt) : v.Traced expiry bound := by
  by_contra hn
  obtain ⟨hsecond, hthird, -⟩ := h.untraced hn
  cases third with
  | false => exact nomatch hsecond.symm.trans hapt
  | true => exact nomatch hthird.symm.trans hapt

/-- An entry that is looked at is about a task without trace. -/
theorem Open.untraced {e : SettlementEntry} {u w : Addr}
    (h : v.Open env height account e u w) (he : e.expireBlock = expiry) :
    ¬ v.Traced expiry height := by
  intro ht
  obtain ht | ht := ht
  · rw [h.unsettled] at ht
    contradiction
  · exact h.unexpired (he ▸ ht)

end TaskView

section Steps
variable {v v' : TaskView}

/-- The settlement of a waiting task, from a view `v` that differs from the
waiting one in its record at most. -/
theorem TaskAudited.once (h : TaskAudited env height account apt v v' settled)
    (hcharges : v.charges = 0) (htraced : v.Traced expiry bound)
    (hexpiry : apt.expireBlock = expiry) (htimely : Timely expiry buffer height)
    (hrecorded : TaskView.InTime expiry buffer v.record) :
    v'.charges ≤ 1 ∧ v'.Traced expiry bound ∧ TaskView.InTime expiry buffer v'.record := by
  obtain ⟨-, -, -, -, ⟨hrecord, hlog⟩ | ⟨-, asSuccess, recorded, p, hrecord, hlog⟩⟩ := h.effect
  · rw [charges, hlog, TaskView.Traced, hrecord]
    exact ⟨by unfold charges at hcharges; omega, htraced, hrecorded⟩
  · rw [hrecord]
    refine ⟨?_, .inl (by rw [hrecord]; rfl), .some hexpiry htimely⟩
    unfold charges at hcharges ⊢
    rw [hlog, List.countP_cons, hcharges]
    simp [Effect.isPayment]

theorem TaskTimeout.once (h : TaskTimeout env height account third apt v v')
    (hapt : v.pending third = some apt) (hv : v.Once expiry buffer height bound) :
    v'.Once expiry buffer height bound := by
  obtain ⟨hcharges, hexpiry, htimely⟩ := hv.waiting third apt hapt
  have htraced := hv.traced third hapt
  -- the other tier is empty, so dropping this one empties both
  have hempty : ∀ v₁ : TaskView, v₁.second = v.second → v₁.third = v.third →
      (v₁.setPending third none).second = none ∧ (v₁.setPending third none).third = none := by
    intro v₁ h2 h3
    cases third with
    | false =>
      refine ⟨rfl, h3.trans (hv.apart.resolve_left ?_)⟩
      intro hn
      exact nomatch hn.symm.trans hapt
    | true =>
      refine ⟨h2.trans (hv.apart.resolve_right ?_), rfl⟩
      intro hn
      exact nomatch hn.symm.trans hapt
  have hset : ∀ v₁ : TaskView, (v₁.setPending third none).record = v₁.record ∧
      (v₁.setPending third none).charges = v₁.charges := by
    intro v₁
    cases third <;> exact ⟨rfl, rfl⟩
  cases h with
  | @settled v₁ step =>
    obtain ⟨h2, h3, -⟩ := step.effect
    obtain ⟨hc, ht, hr⟩ := step.once hcharges htraced hexpiry htimely hv.recorded
    refine .of_final (hempty v₁ h2 h3).1 (hempty v₁ h2 h3).2 ?_ ?_ ?_
    · rw [(hset v₁).2]; exact hc
    · rw [TaskView.Traced, (hset v₁).1]; exact ht
    · rw [(hset v₁).1]; exact hr
  | @failed v₁ step =>
    obtain ⟨h2, h3, -⟩ := step.effect
    obtain ⟨hc, -, -⟩ := step.once hcharges htraced hexpiry htimely hv.recorded
    have hnone := hempty
      { v₁ with record := some (auditRecordOf height apt .failed Coin.zero) } h2 h3
    refine .of_final hnone.1 hnone.2 ?_ ?_ ?_
    · rw [(hset _).2]; exact hc
    · rw [TaskView.Traced, (hset _).1]; exact .inl rfl
    · rw [(hset _).1]
      exact .some hexpiry htimely

theorem TaskJudged.once {ar : SecondVerificationRecord}
    (h : TaskJudged env height params account ar apt v v') (hapt : v.second = some apt)
    (hv : v.Once expiry buffer height bound) : v'.Once expiry buffer height bound := by
  obtain ⟨hcharges, hexpiry, htimely⟩ := hv.waiting false apt hapt
  have htraced := hv.traced false hapt
  have hthird : v.third = none := hv.apart.resolve_left fun hn =>
    absurd (hn.symm.trans hapt) (by simp)
  have hfailed : TaskView.InTime expiry buffer
    (some (auditRecordOf height apt .failed Coin.zero)) := .some hexpiry htimely
  cases h with
  | escalated =>
    refine ⟨hv.once, ?_, .inl rfl, fun hn => absurd htraced hn, hv.recorded⟩
    intro third apt' hapt'
    cases third with
    | false => exact absurd hapt' (by simp [pending])
    | true =>
      rw [← Option.some.inj hapt']
      exact ⟨hcharges, hexpiry, htimely⟩
  | tokenFraud step =>
    obtain ⟨h2, h3, -⟩ := step.effect
    rw [releaseFor_frame] at step h3
    obtain ⟨hc, ht, hr⟩ := step.once hcharges (.inl rfl) hexpiry htimely hfailed
    exact .of_final h2 (h3.trans hthird) hc ht hr
  | overturned =>
    exact .of_final rfl hthird (Nat.le_trans (Nat.le_of_eq hcharges) (by decide)) (.inl rfl)
      hfailed
  | settled step =>
    obtain ⟨-, h3, -⟩ := step.effect
    obtain ⟨hc, ht, hr⟩ := step.once hcharges htraced hexpiry htimely hv.recorded
    exact .of_final rfl (h3.trans hthird) hc ht hr
  | retained step =>
    obtain ⟨h2, h3, -, -, ⟨hrecord, hlog⟩ | ⟨hfalse, -⟩⟩ := step.effect
    · exact hv.congr hrecord h2 h3 (by rw [charges, hlog]; rfl)
    · contradiction

/-- Entries of the task carry its expiry, and the expiry is timely. -/
def EntryTimely (expiry buffer height bound : Int) (t : TaskId) (lab : Label) : Prop :=
  ∀ e, lab = .entry e → e.taskId = t →
    bound = height ∧ e.expireBlock = expiry ∧ Timely expiry buffer height

theorem TaskAudited.traced (h : TaskAudited env height account apt v v' settled)
    (ht : v.Traced expiry bound) : v'.Traced expiry bound := by
  obtain ⟨-, -, -, -, ⟨hrecord, -⟩ | ⟨-, asSuccess, recorded, p, hrecord, -⟩⟩ := h.effect
  · rwa [TaskView.Traced, hrecord]
  · exact .inl (by rw [hrecord]; rfl)

theorem TaskTurns.traced (h : TaskTurns env height account third apt v v')
    (ht : v.Traced expiry bound) : v'.Traced expiry bound := by
  induction h with
  | nil => exact ht
  | cons turn _ ih =>
    apply ih
    cases turn with
    | settled step => cases third <;> exact step.traced ht
    | failed => cases third <;> exact .inl rfl

/-- What the clean-up removes has expired. -/
theorem TaskView.Once.traced_cleanup (hv : v.Once expiry buffer height bound)
    (hbound : height < bound) (ht : v.Traced expiry bound) :
    (v.record.filter fun st => !expiredRecord (height - buffer) st).isSome ∨
    0 < expiry ∧ expiry < bound := by
  obtain hsome | hexpired := ht
  · obtain ⟨st, hst⟩ := Option.isSome_iff_exists.mp hsome
    obtain ⟨hexpiry, htimely⟩ := hv.recorded st hst
    by_cases hold : expiredRecord (height - buffer) st = true
    · right
      simp only [expiredRecord, Bool.and_eq_true, decide_eq_true_eq] at hold
      unfold Timely at htimely
      omega
    · grind
  · exact .inr hexpired

/-- A trace of a task stays. -/
theorem TaskStep.traced (h : TaskStep env height params account t v lab v')
    (hv : v.Once expiry params.taskCleanupBuffer height bound)
    (hcleanup : lab = .cleanup → height < bound) (ht : v.Traced expiry bound) :
    v'.Traced expiry bound := by
  cases h with
  | idle | reserved | refused | voted => exact ht
  | parked => exact .inl rfl
  | unpaid | charged => exact .inl rfl
  | judged _ _ _ _ _ step =>
    cases step with
    | escalated => exact ht
    | tokenFraud step => exact step.traced (.inl rfl)
    | overturned => exact .inl rfl
    | settled step | retained step => exact step.traced ht
  | fraud =>
    refine ht.imp_left fun hsome => ?_
    simpa using hsome
  | cleanup => exact hv.traced_cleanup (hcleanup rfl) ht
  | swept _ _ _ turns => exact turns.traced ht

theorem TaskStep.once (h : TaskStep env height params account t v lab v')
    (hsweep : ∀ third, lab ≠ .sweep third)
    (hentry : EntryTimely expiry params.taskCleanupBuffer height bound t lab)
    (hcleanup : lab = .cleanup → height < bound)
    (hv : v.Once expiry params.taskCleanupBuffer height bound) :
    v'.Once expiry params.taskCleanupBuffer height bound := by
  cases h with
  | idle => exact hv
  | reserved | refused | voted => exact hv.congr rfl rfl rfl rfl
  | parked e task _ _ is_open =>
    obtain ⟨rfl, hexpiry, htimely⟩ := hentry e rfl task
    obtain ⟨hsecond, hthird, hcharges⟩ := hv.untraced (is_open.untraced hexpiry)
    refine ⟨hv.once, ?_, .inr hthird, fun hn => absurd (.inl rfl) hn,
      TaskView.InTime.some hexpiry htimely⟩
    intro third apt hapt
    cases third with
    | false =>
      rw [← Option.some.inj hapt]
      exact ⟨hcharges, hexpiry, htimely⟩
    | true => exact nomatch hthird.symm.trans hapt
  | unpaid e task _ _ is_open =>
    obtain ⟨rfl, hexpiry, htimely⟩ := hentry e rfl task
    obtain ⟨hsecond, hthird, hcharges⟩ := hv.untraced (is_open.untraced hexpiry)
    exact .of_final hsecond hthird hv.once (.inl rfl) (.some hexpiry htimely)
  | charged e task _ _ is_open =>
    obtain ⟨rfl, hexpiry, htimely⟩ := hentry e rfl task
    obtain ⟨hsecond, hthird, hcharges⟩ := hv.untraced (is_open.untraced hexpiry)
    refine .of_final hsecond hthird ?_ (.inl rfl) (.some hexpiry htimely)
    unfold charges at hcharges ⊢
    rw [List.countP_cons, hcharges]
    simp [Effect.isPayment]
  | judged _ _ _ pending _ step =>
    exact step.once pending (hv.congr rfl rfl rfl rfl)
  | fraud =>
    refine ⟨hv.once, hv.waiting, hv.apart, fun hn => hv.untraced fun ht => hn ?_, ?_⟩
    · exact ht.imp_left fun hsome => by simpa using hsome
    · intro st hst
      obtain ⟨st₀, hst₀, rfl⟩ := Option.map_eq_some_iff.mp hst
      have hrecorded := hv.recorded st₀ hst₀
      unfold revoke
      split <;> exact hrecorded
  | cleanup =>
    refine ⟨hv.once, hv.waiting, hv.apart, fun hn => hv.untraced fun ht => hn ?_, ?_⟩
    · exact hv.traced_cleanup (hcleanup rfl) ht
    · exact fun st hst => hv.recorded st (Option.filter_eq_some_iff.mp hst).1
  | swept third => exact absurd rfl (hsweep third)

end Steps

/-! ## the invariant of the ledger -/

namespace Ledger

/-- How often the log notes a payment for a task. -/
def charges (l : Ledger) (t : TaskId) : Nat := (l.view t).charges

/-- The invariant of one task in the ledger: its view, and its keys in the
timeout index, of which there is at most one for each tier. -/
structure Once (expiry buffer height bound : Int) (t : TaskId) (l : Ledger) : Prop where
  view : (l.view t).Once expiry buffer height bound
  keyTraced : ∀ third k, l.hasKey third k = true → k.taskId = t → (l.view t).Traced expiry bound
  keyUnique : ∀ third k k', l.hasKey third k = true → l.hasKey third k' = true →
    k.taskId = t → k'.taskId = t → k = k'
  noThird : (l.view t).second.isSome → ∀ k, l.hasKey true k = true → k.taskId ≠ t

theorem Once.mono (h : l.Once expiry buffer height bound t) (hheight : height ≤ height')
    (hbound : bound ≤ bound') : l.Once expiry buffer height' bound' t where
  view := h.view.mono hheight hbound
  keyTraced := fun third k hk ht =>
    (h.keyTraced third k hk ht).imp_right fun hb => ⟨hb.1, by omega⟩
  keyUnique := h.keyUnique
  noThird := h.noThird

end Ledger

section LedgerOnce
variable {fees : Int → Int} {counted : Int}

theorem LedgerStep.once_view (h : LedgerStep env height params fees l lab l' out counted)
    (hentry : EntryTimely expiry params.taskCleanupBuffer height bound t lab)
    (hcleanup : lab = .cleanup → height < bound)
    (hl : l.Once expiry params.taskCleanupBuffer height bound t) :
    (l'.view t).Once expiry params.taskCleanupBuffer height bound := by
  by_cases hsweep : ∃ third, lab = .sweep third
  · obtain ⟨third, rfl⟩ := hsweep
    cases h with
    | idle => exact hl.view
    | sweep step =>
      obtain hview | ⟨apt, hapt, hturn⟩ := step.task_once (hl.keyUnique third)
      · exact hview ▸ hl.view
      · exact hturn.once hapt hl.view
  · exact (h.task t).once (fun third he => hsweep ⟨third, he⟩) hentry hcleanup hl.view

/-- Only an entry that is drawn for audit puts a task into the second queue. -/
theorem TaskStep.second_isSome {v v' : TaskView} (h : TaskStep env height params account t v lab v')
    (hs : v'.second.isSome) :
    v.second.isSome ∨ ∃ e u w, lab = .entry e ∧ e.taskId = t ∧ v.Open env height account e u w := by
  cases h with
  | idle | reserved | refused | unpaid | charged | voted | fraud | cleanup => exact .inl hs
  | parked e task u w is_open => exact .inr ⟨e, u, w, rfl, task, is_open⟩
  | judged _ _ _ pending => exact .inl (by rw [pending]; rfl)
  | swept third _ pending turns =>
    left
    clear pending
    induction turns with
    | nil => exact hs
    | cons turn _ ih =>
      have hs := ih hs
      cases turn with
      | settled step | failed step =>
        obtain ⟨h2, -⟩ := step.effect
        cases third with
        | false => simp [setPending] at hs
        | true => exact h2 ▸ hs

/-- **Every step keeps the invariant.** -/
theorem LedgerStep.once (h : LedgerStep env height params fees l lab l' out counted)
    (hentry : EntryTimely expiry params.taskCleanupBuffer height bound t lab)
    (hcleanup : lab = .cleanup → height < bound)
    (hl : l.Once expiry params.taskCleanupBuffer height bound t) :
    l'.Once expiry params.taskCleanupBuffer height bound t := by
  have htraced := (h.task t).traced hl.view hcleanup
  -- a task whose entry is looked at has no key
  have hfresh : ∀ e u w, lab = .entry e → e.taskId = t →
      (l.view t).Open env height l.hasAccount e u w →
      ∀ third k, l.hasKey third k = true → k.taskId ≠ t := by
    intro e u w hlab ht is_open third k hk hkt
    obtain ⟨rfl, hexpiry, -⟩ := hentry e hlab ht
    exact is_open.untraced hexpiry (hl.keyTraced third k hk hkt)
  have hnew : ∀ third k, NewKey env height l lab l' third k → k.taskId = t →
      k = ⟨height, t⟩ ∧ ∀ k', l.hasKey third k' = true → k'.taskId ≠ t := by
    intro third k hk hkt
    cases hk with
    | parked e label u w adm =>
      subst hkt
      exact ⟨rfl, hfresh e u w label rfl adm.view_open false⟩
    | escalated _ pending =>
      subst hkt
      exact ⟨rfl, hl.noThird (by rw [Ledger.view]; exact Option.isSome_of_eq_some pending)⟩
  refine ⟨h.once_view hentry hcleanup hl, ?_, ?_, ?_⟩
  · intro third k hk hkt
    obtain hk | hk := h.hasKey hk
    · exact htraced (hl.keyTraced third k hk hkt)
    · cases hk with
      | parked _ _ _ _ _ step =>
        subst hkt
        refine .inl ?_
        rw [step, Ledger.view_park, if_pos rfl]
        rfl
      | escalated _ pending =>
        subst hkt
        exact htraced (hl.view.traced false pending)
  · intro third k k' hk hk' hkt hkt'
    obtain hk | hk := h.hasKey hk <;> obtain hk' | hk' := h.hasKey hk'
    · exact hl.keyUnique third k k' hk hk' hkt hkt'
    · exact absurd hkt ((hnew third k' hk' hkt').2 k hk)
    · exact absurd hkt' ((hnew third k hk hkt).2 k' hk')
    · rw [(hnew third k hk hkt).1, (hnew third k' hk' hkt').1]
  · intro hs k hk hkt
    obtain hk | hk := h.hasKey hk
    · obtain hs | ⟨e, u, w, hlab, ht, is_open⟩ := (h.task t).second_isSome hs
      · exact hl.noThird hs k hk hkt
      · exact hfresh e u w hlab ht is_open true k hk hkt
    · cases hk with
      | escalated _ _ _ gone =>
        subst hkt
        rw [Ledger.view, gone] at hs
        contradiction

end LedgerOnce

/-! ## runs -/

/-- The batches name one expiry for each task, and one that the clean-up
respects. -/
def TimelyBatches (expiry : TaskId → Int) (c : Chain) (ev : Event) : Prop :=
  ∀ e ∈ ev.entries, e.expireBlock = expiry e.taskId ∧
    Timely e.expireBlock c.state.params.taskCleanupBuffer c.ctx.height

instance (expiry : TaskId → Int) (c : Chain) (ev : Event) : Decidable (TimelyBatches expiry c ev) :=
  inferInstanceAs (Decidable (∀ e ∈ ev.entries, _))

theorem Ledger.Initial.once (h : l.Initial) (expiry buffer height bound : Int) (t : TaskId) :
    l.Once expiry buffer height bound t := by
  have hkey : ∀ third k, l.hasKey third k = false := by
    intro third k
    rw [h.only]
    cases third <;> rfl
  refine ⟨?_, fun third k hk => ?_, fun third k k' hk => ?_, fun _ k hk => ?_⟩
  · rw [h.view]
    refine ⟨by decide, fun third apt hapt => ?_, .inl rfl, fun _ => ⟨rfl, rfl, rfl⟩, by simp⟩
    cases third <;> simp [pending] at hapt
  all_goals
    rw [hkey] at hk
    contradiction

theorem TimelyBatches.entryTimely {expiry : TaskId → Int} (h : TimelyBatches expiry c ev)
    (hlab : lab ∈ ev.script env c.ctx) (hbound : ∀ e, lab = .entry e → bound = c.ctx.height)
    (t : TaskId) :
    EntryTimely (expiry t) c.state.params.taskCleanupBuffer c.ctx.height bound t lab := by
  intro e he ht
  obtain ⟨hexpiry, htimely⟩ := h e (by subst he; exact Event.issues hlab)
  rw [ht] at hexpiry
  exact ⟨hbound e he, hexpiry, hexpiry ▸ htimely⟩

/-- The rule for invariants that speak of the height of the block and of the
bound before which entries have expired.  Within EndBlock the bound is already
that of the next block. -/
theorem Performed.bounded {I : Int → Int → Ledger → Prop} (h : Performed env ev c c' x y)
    (hmono : ∀ {height height' bound bound' : Int} {l : Ledger}, height ≤ height' →
    bound ≤ bound' → I height bound l → I height' bound' l)
    (hstep : ∀ lab ∈ ev.script env c.ctx, ∀ bound l l' x y,
    (∀ e, lab = .entry e → bound = c.ctx.height) → (lab = .cleanup → c.ctx.height < bound) →
    I c.ctx.height bound l →
    LedgerStep env c.ctx.height c.state.params c.state.book.fees l lab l' x y →
    I c.ctx.height bound l') (hc : I c.ctx.height c.ctx.height c.state.ledger) :
    I c'.ctx.height c'.ctx.height c'.state.ledger := by
  by_cases hend : ∃ next, ev = .endBlock next
  · obtain ⟨next, rfl⟩ := hend
    obtain ⟨hlt, hctx⟩ := h.advances next rfl
    rw [hctx]
    have hstart : I c.ctx.height (c.ctx.height + 1) c.state.ledger :=
      hmono (Int.le_refl _) (by omega) hc
    refine hmono (by omega) (by omega) (h.steps.invariant hstart ?_)
    intro lab hlab l l' x y hl hledger
    refine hstep lab hlab _ l l' x y (fun e he => ?_) (fun _ => by omega) hl hledger
    subst he
    simpa using Event.mem_endBlock hlab
  · rw [h.stays fun next he => hend ⟨next, he⟩]
    refine h.steps.invariant hc fun lab hlab l l' x y hl hledger => ?_
    exact hstep lab hlab _ l l' x y (fun _ _ => rfl)
      (fun he => absurd (Event.cleanup_mem (he ▸ hlab)) hend) hl hledger

/-- Every event keeps the invariant, at the height of the block it leads to. -/
theorem Performed.once {expiry : TaskId → Int} (h : Performed env ev c c' x y)
    (htimely : TimelyBatches expiry c ev)
    (hc : c.state.ledger.Once (expiry t) c.state.params.taskCleanupBuffer c.ctx.height
    c.ctx.height t) :
    c'.state.ledger.Once (expiry t) c'.state.params.taskCleanupBuffer c'.ctx.height
    c'.ctx.height t := by
  rw [h.params]
  refine h.bounded (I := fun height bound l =>
    l.Once (expiry t) c.state.params.taskCleanupBuffer height bound t)
    (fun hheight hbound hl => hl.mono hheight hbound) ?_ hc
  intro lab hlab bound l l' x y hbound hcleanup hl hstep
  exact hstep.once (htimely.entryTimely hlab hbound t) hcleanup hl

/-- **No double charge** in a run whose batches name one timely expiry for each
task: no task is charged, and no worker paid for it, more than once. -/
theorem charged_at_most_once {expiry : TaskId → Int} {c₀ c : Chain}
    (hgenesis : AtGenesis env c₀) (run : Run env (TimelyBatches expiry) c₀ c) (t : TaskId) :
    c.state.ledger.charges t ≤ 1 := by
  have hinv : c.state.ledger.Once (expiry t) c.state.params.taskCleanupBuffer c.ctx.height
      c.ctx.height t :=
    run.preserves hgenesis (hgenesis.initial.once ..)
      (I := fun c => c.state.ledger.Once (expiry t) c.state.params.taskCleanupBuffer c.ctx.height
        c.ctx.height t)
      fun c ev c' x y _ hc htimely hp => hp.once htimely hc
  exact hinv.view.once

/-- An entry that expires in time and is submitted again before and after a
block: one charge. -/
theorem charged_once_devnet :
    ∃ c, Run devEnv (TimelyBatches fun _ => 500) (devnet .default [("user", 1000)]) c ∧
      c.state.ledger.charges [255] = 1 ∧ ∀ t, c.state.ledger.charges t ≤ 1 := by
  refine exists_and_of (Run.exists_of_exec
    [devBatch [devEntry [255] "user" 100 500], devBatch [devEntry [255] "user" 100 500],
      devEndBlock 2, devBatch [devEntry [255] "user" 100 500]] (by decide +kernel)) ?_
  exact fun c run _ => charged_at_most_once atGenesis_user run

/-- The clean-up at height 1003 forgets a task settled at height 1, though its
entry expires at 5000 only: submitted again, it is charged again. -/
theorem charged_twice : AtGenesis devEnv (devnet .default [("user", 1000)]) ∧
      ∃ c, Run devEnv (fun _ _ => True) (devnet .default [("user", 1000)]) c ∧
        c.state.ledger.charges [255] = 2 :=
  ⟨atGenesis_user, Run.exists_of_exec
      [devBatch [devEntry [255] "user" 100 5000], devEndBlock 1003, devEndBlock 1004,
        devBatch [devEntry [255] "user" 100 5000]] (by decide +kernel)⟩

end FunaiChain.Settlement
