import FunaiChain.Settlement.Counters
import FunaiChain.Settlement.Dedup
import Mathlib.Data.Finset.Card

/-!
# FunaiChain.Settlement.Verifications

The verification count of an account against the tasks it verified: those that
are settled or fail-settled and list the account in their record.

An admitted entry counts its rows before it is settled.  So the count is right
only while every entry either names nobody or is settled at once, with every
account named once (`EntryCredited`); then the counter moves together with the
set of tasks (`Credited`).  Audited tasks are settled later and never counted,
and every other step of the module settles no task of a listed verifier
(`Steps.verifiedBy_subset`).
-/

namespace FunaiChain.Settlement

open Ledger TaskView

variable {env : Env} {ctx : Ctx} {height : Int} {params : Params} {a : Addr} {t : TaskId}
variable {bound c height' x : Int} {lab : Label} {expiry : TaskId → Int} {U : Finset TaskId}

/-! ## the tasks of a verifier -/

/-- Is the task settled or fail-settled, with the account among its
verifiers? -/
def SettledTaskID.verifiedBy (env : Env) (a : Addr) (st : SettledTaskID) : Bool :=
  (st.status == .settled || st.status == .failSettled) &&
    (accounts env st.originalVerifiers).contains a

/-- The settled and fail-settled tasks that list the account. -/
def Ledger.verifiedBy (env : Env) (a : Addr) (l : Ledger) : Finset TaskId :=
  ((l.settledTasks.entries.filter fun r => r.2.verifiedBy env a).map Prod.fst).toFinset

def TaskView.VerifiedBy (env : Env) (a : Addr) (v : TaskView) : Prop :=
  ∃ st, v.record = some st ∧ st.verifiedBy env a = true

theorem Ledger.mem_verifiedBy {l : Ledger} :
    t ∈ l.verifiedBy env a ↔ (l.view t).VerifiedBy env a := by
  simp only [verifiedBy, List.mem_toFinset, List.mem_map, List.mem_filter]
  constructor
  · rintro ⟨⟨t, st⟩, ⟨hentry, hst⟩, rfl⟩
    exact ⟨st, Table.mem_entries.mp hentry, hst⟩
  · rintro ⟨st, hrecord, hst⟩
    exact ⟨(t, st), ⟨Table.mem_entries.mpr hrecord, hst⟩, rfl⟩

theorem TaskView.not_verifiedBy {v : TaskView} {st : SettledTaskID} (hrecord : v.record = some st)
    (hst : st.verifiedBy env a = false) : ¬ v.VerifiedBy env a := by
  rintro ⟨st', hst', hverified⟩
  cases hrecord.symm.trans hst'
  rw [hst] at hverified
  contradiction

/-- An audited task that does not list the account. -/
def Uninvolved (env : Env) (a : Addr) (apt : SecondVerificationPendingTask) : Prop :=
  a ∉ accounts env apt.verifierAddresses

theorem Uninvolved.record {apt : SecondVerificationPendingTask} (h : Uninvolved env a apt)
    (status : TaskStatus) (fee : Coin) :
    (auditRecordOf height apt status fee).verifiedBy env a = false := by
  have hnot : (accounts env apt.verifierAddresses).contains a = false :=
    Bool.eq_false_iff.mpr fun hcontains => h (List.contains_iff_mem.mp hcontains)
  rw [SettledTaskID.verifiedBy, auditRecordOf, hnot, Bool.and_false]

/-! ## steps that settle nothing of the account -/

section Quiet
variable {account : Addr → Bool} {apt : SecondVerificationPendingTask} {v v' : TaskView}

theorem TaskAudited.verifiedBy {settled : Bool}
    (h : TaskAudited env height account apt v v' settled) (hapt : Uninvolved env a apt)
    (hv' : v'.VerifiedBy env a) : v.VerifiedBy env a := by
  obtain ⟨-, -, -, -, ⟨hrecord, -⟩ | ⟨-, asSuccess, recorded, p, hrecord, -⟩⟩ := h.effect
  · rwa [TaskView.VerifiedBy, hrecord] at hv'
  · exact absurd hv' (not_verifiedBy hrecord (hapt.record ..))

theorem TaskJudged.verifiedBy {ar : SecondVerificationRecord}
    (h : TaskJudged env height params account ar apt v v') (hapt : Uninvolved env a apt)
    (hv' : v'.VerifiedBy env a) : v.VerifiedBy env a := by
  cases h with
  | escalated => exact hv'
  | tokenFraud step =>
    exact absurd (step.verifiedBy hapt hv') (not_verifiedBy rfl (hapt.record ..))
  | overturned => exact absurd hv' (not_verifiedBy rfl (hapt.record ..))
  | settled step | retained step => exact step.verifiedBy hapt hv'

theorem TaskTurns.verifiedBy {third : Bool} (h : TaskTurns env height account third apt v v')
    (hapt : Uninvolved env a apt) (hv' : v'.VerifiedBy env a) : v.VerifiedBy env a := by
  induction h with
  | nil => exact hv'
  | cons turn _ ih =>
    have hv₁ := ih hv'
    cases turn with
    | settled step =>
      refine step.verifiedBy hapt ?_
      cases third <;> exact hv₁
    | failed =>
      cases third <;>
        exact absurd hv₁ (not_verifiedBy rfl (hapt.record ..))

/-- **A step that is no entry** makes no task one of the account's. -/
theorem TaskStep.verifiedBy (h : TaskStep env height params account t v lab v')
    (hlab : ∀ e, lab ≠ .entry e)
    (hpending : ∀ third apt, v.pending third = some apt → Uninvolved env a apt)
    (hv' : v'.VerifiedBy env a) : v.VerifiedBy env a := by
  cases h with
  | idle | reserved => exact hv'
  | parked e | refused e | unpaid e | charged e => exact absurd rfl (hlab e)
  | voted => exact hv'
  | judged _ _ apt pending _ step =>
    exact step.verifiedBy (hpending false apt pending) hv'
  | fraud =>
    obtain ⟨st, hst, hverified⟩ := hv'
    obtain ⟨st₀, hst₀, rfl⟩ := Option.map_eq_some_iff.mp hst
    unfold revoke at hverified
    split at hverified
    · simp [SettledTaskID.verifiedBy] at hverified
    · exact ⟨st₀, hst₀, hverified⟩
  | cleanup =>
    obtain ⟨st, hst, hverified⟩ := hv'
    exact ⟨st, (Option.filter_eq_some_iff.mp hst).1, hverified⟩
  | swept third apt pending turns => exact turns.verifiedBy (hpending third apt pending) hv'

end Quiet

section Ledgers
variable {l l' : Ledger} {fees : Int → Int}

theorem Steps.verifiedBy_subset {labs : List Label} (h : Steps env height params fees labs l l' x c)
    (hlabs : ∀ e, Label.entry e ∉ labs) (hl : l.AllPending (Uninvolved env a)) :
    l'.AllPending (Uninvolved env a) ∧ l'.verifiedBy env a ⊆ l.verifiedBy env a := by
  refine h.invariant (I := fun l' => l'.AllPending (Uninvolved env a) ∧
    l'.verifiedBy env a ⊆ l.verifiedBy env a) ⟨hl, fun _ => id⟩ ?_
  intro lab hlab l₁ l₂ x c ⟨hpending, hsubset⟩ hstep
  have hno : ∀ e, lab ≠ .entry e := fun e he => hlabs e (he ▸ hlab)
  refine ⟨hstep.allPending (fun e he => absurd he (hno e)) (fun apt hapt => hapt) hpending, ?_⟩
  intro t ht
  refine hsubset (mem_verifiedBy.mpr ?_)
  refine (hstep.task t).verifiedBy hno (fun third apt hapt => ?_) (mem_verifiedBy.mp ht)
  rw [pending_view] at hapt
  exact hpending third t apt hapt

/-- The tasks keep their invariant, and those of a set their trace. -/
structure Deduped (expiry : TaskId → Int) (buffer height bound : Int) (U : Finset TaskId)
    (l : Ledger) : Prop where
  once : ∀ t, l.Once (expiry t) buffer height bound t
  traced : ∀ t ∈ U, (l.view t).Traced (expiry t) bound

theorem Deduped.mono {buffer bound' : Int} (h : Deduped expiry buffer height bound U l)
    (hheight : height ≤ height') (hbound : bound ≤ bound') :
    Deduped expiry buffer height' bound' U l where
  once := fun t => (h.once t).mono hheight hbound
  traced := fun t ht => (h.traced t ht).imp_right fun hb => ⟨hb.1, by omega⟩

theorem LedgerStep.deduped (h : LedgerStep env height params fees l lab l' x c)
    (hentry : ∀ t, EntryTimely (expiry t) params.taskCleanupBuffer height bound t lab)
    (hcleanup : lab = .cleanup → height < bound)
    (hl : Deduped expiry params.taskCleanupBuffer height bound U l) :
    Deduped expiry params.taskCleanupBuffer height bound U l' where
  once := fun t => h.once (hentry t) hcleanup (hl.once t)
  traced := fun t ht => (h.task t).traced (hl.once t).view hcleanup (hl.traced t ht)

end Ledgers

/-! ## an entry of a batch -/

/-- The accounts that the rows of an entry name. -/
def namedVerifiers (env : Env) (entry : SettlementEntry) : List Addr :=
  accounts env (entry.verifierResults.map (·.address))

/-- An entry that is settled at once, with every account named once: it is not
audited, and the payouts of a success or of a per-request fail go through.  A
per-token fail is settled in any case. -/
structure CountedOnce (env : Env) (ctx : Ctx) (s : State) (entry : SettlementEntry) (u w : Addr) :
    Prop where
  unaudited : ¬ Audited env ctx s entry
  distinct : (namedVerifiers env entry).Nodup
  success : entry.status = .success → ∀ fee, actualFee s.params entry = .ok fee →
    Payable env s (min fee.amount (s.ledger.balanceOf u)) w
      (entry.verifierResults.map (·.address))
  fail : entry.status ≠ .success → entry.isPerToken = false →
    Payable env s (min (failFee s.params entry.fee.amount) (s.ledger.balanceOf u)) w
      (entry.verifierResults.map (·.address))

/-- An entry whose rows are counted for what they verified: it is not admitted,
names nobody, or is settled at once. -/
def EntryCredited (env : Env) (ctx : Ctx) (s : State) (entry : SettlementEntry) : Prop :=
  ∀ u w, admitEntry env ctx.height s.ledger entry = some (u, w) →
    namedVerifiers env entry = [] ∨ CountedOnce env ctx s entry u w

/-- The entries of a batch, each in the state that it is settled in. -/
def EntriesCredited (env : Env) (ctx : Ctx) : BatchAcc → List SettlementEntry → Prop
  | _, [] => True
  | acc, entry :: rest =>
      EntryCredited env ctx acc.state entry ∧
        ∀ acc', settleEntry env ctx acc entry = .ok acc' → EntriesCredited env ctx acc' rest

section Entries
variable {acc acc' : BatchAcc} {entry : SettlementEntry} {u w : Addr} {s s' : State}
  {ia : InferenceAccount} {fee : Coin}

theorem settleFailPerRequest_record :
    OnValue (fun o => ∀ s' ∈ o, ∃ recorded, s'.getSettledTask entry.taskId =
    some (recordOf ctx.height entry .failSettled recorded))
    (settleFailPerRequest env ctx s entry u w ia) := by
  refine .after fun _ _ => .after fun _ _ => .after fun ⟨payable, _⟩ _ => .after fun _ _ =>
    .after fun r _ => ?_
  cases r with
  | error => exact .none
  | ok =>
    refine .after fun s₂ _ => .some ⟨payable, ?_⟩
    exact (getSettledTask_set ..).trans (if_pos rfl)

theorem settleFailPerToken_record (h : settleFailPerToken env ctx s entry u w ia fee = .ok s') :
    s'.getSettledTask entry.taskId = some (recordOf ctx.height entry .failSettled Coin.zero) := by
  obtain hmove | ⟨p, -, -, -, -, hmove⟩ := settleFailPerToken_cases.get h
  all_goals
    rw [State.getSettledTask, hmove.ledger]
    exact (getSettledTask_set ..).trans (if_pos rfl)

/-- The payouts of an entry that is counted once are not refused. -/
theorem CountedOnce.not_refused (hcounted : CountedOnce env ctx acc.state entry u w)
    (billed : Billed env ctx acc entry u w s ia fee) :
    ¬ PayoutRefused env ctx entry u w s ia fee := by
  rintro (⟨hstatus, hnone⟩ | ⟨hstatus, hper, hnone⟩)
  · have hpay := hcounted.success hstatus fee billed.hfee
    rw [billed.balanceOf] at hpay
    exact (settleSuccess_accepted billed.denom
      (hpay.congr billed.params billed.moduleBalance)).get hnone rfl
  · have hpay := hcounted.fail hstatus hper
    rw [billed.balanceOf, ← billed.params] at hpay
    have hfee := billed.hfee
    rw [actualFee, if_neg (by simp [hper])] at hfee
    have hdenom : entry.fee.denom = defaultDenom := Except.ok.inj hfee ▸ billed.denom
    exact (settleFail_accepted (fun _ => of_decide_eq_true) (fun _ => hdenom)
      (hpay.congr billed.params billed.moduleBalance)).get hnone rfl

/-- **An entry that is counted once** is settled, and its rows are counted. -/
theorem CountedOnce.settled (hcounted : CountedOnce env ctx acc.state entry u w)
    (hadm : admitEntry env ctx.height acc.state.ledger entry = some (u, w))
    (h : settleEntry env ctx acc entry = .ok acc') :
    (∃ asSuccess recorded, acc'.state.getSettledTask entry.taskId =
    some (recordOf ctx.height entry (chargedStatus asSuccess) recorded)) ∧
    KeepsCounts (fun _ => True) (countVerifiers env acc.state entry) acc'.state := by
  have hkeeps : KeepsCounts (fun _ => True) (countVerifiers env acc.state entry) acc'.state := by
    obtain ⟨hnone | haudit, -⟩ | ⟨-, -, hkeeps⟩ := settleEntry_counts (P := fun _ => True)
      (fun _ _ _ _ => trivial) h
    · grind
    · exact absurd haudit hcounted.unaudited
    · exact hkeeps
  refine ⟨?_, hkeeps⟩
  have hsame : ∀ {u' w' : Addr}, admitEntry env ctx.height acc.state.ledger entry = some (u', w') →
      u' = u ∧ w' = w := by
    intro u' w' hadm'
    rw [hadm] at hadm'
    exact (Prod.mk.inj (Option.some.inj hadm')).imp Eq.symm Eq.symm
  cases settleEntry_path h with
  | rejected reject => grind
  | audited _ _ _ audited => exact absurd audited hcounted.unaudited
  | refused _ _ _ _ _ billed refused =>
    obtain ⟨rfl, rfl⟩ := hsame billed.admitted
    exact absurd refused (hcounted.not_refused billed)
  | success _ _ _ _ _ billed _ _ settled =>
    obtain ⟨recorded, hrecord⟩ := settleSuccess_record billed.denom settled
    exact ⟨true, recorded, hrecord⟩
  | fail _ _ _ _ _ _ _ settled =>
    obtain hper | hrequest := settled
    · exact ⟨false, _, settleFailPerToken_record hper⟩
    · obtain ⟨recorded, hrecord⟩ := settleFailPerRequest_record.get hrequest _ rfl
      exact ⟨false, recorded, hrecord⟩

end Entries

/-! ## the tasks of an entry -/

section EntryTasks
variable {account : Addr → Bool} {v v' : TaskView} {acc acc' : BatchAcc}
  {entry : SettlementEntry} {u w : Addr}

/-- **An entry and a task**: it changes neither the record nor the queues, or
it is the entry of the task and writes its record. -/
theorem TaskStep.of_entry (h : TaskStep env height params account t v (.entry entry) v') :
    (v'.record = v.record ∧ ∀ third, v'.pending third = v.pending third) ∨
    entry.taskId = t ∧ v.record = none ∧ ∃ status fee,
    v'.record = some (recordOf height entry status fee) ∧
    ∀ third apt, v'.pending third = some apt → v.pending third = some apt ∨
    status = .pendingSecondVerification ∧ apt = pendingOf height entry := by
  cases h with
  | idle => exact .inl ⟨rfl, fun _ => rfl⟩
  | parked _ task _ _ is_open =>
    refine .inr ⟨task, is_open.unsettled, _, _, rfl, fun third apt hapt => ?_⟩
    cases third with
    | false => exact .inr ⟨rfl, (Option.some.inj hapt).symm⟩
    | true => exact .inl hapt
  | refused => exact .inl ⟨rfl, fun third => by cases third <;> rfl⟩
  | unpaid _ task _ _ is_open | charged _ task _ _ is_open =>
    exact .inr ⟨task, is_open.unsettled, _, _, rfl, fun third apt hapt => .inl (by
      cases third <;> exact hapt)⟩

theorem settleEntry_task (h : settleEntry env ctx acc entry = .ok acc') (t : TaskId) :
    TaskStep env ctx.height acc.state.params acc.state.ledger.hasAccount t
    (acc.state.ledger.view t) (.entry entry) (acc'.state.ledger.view t) := by
  obtain ⟨l', out, counted, hstep, hmove, -⟩ := settleEntry_cases.get h
  rw [hmove.ledger]
  exact hstep.task t

/-- A record written for an entry lists the verifiers of the entry. -/
theorem verifiedBy_recordOf (status : TaskStatus) (fee : Coin) :
    (recordOf height entry status fee).verifiedBy env a =
    ((status == .settled || status == .failSettled) && (namedVerifiers env entry).contains a) :=
  rfl

/-- An entry that does not name the account settles no task of it. -/
theorem verifiedBy_settleEntry (h : settleEntry env ctx acc entry = .ok acc')
    (ha : a ∉ namedVerifiers env entry) :
    acc'.state.ledger.verifiedBy env a = acc.state.ledger.verifiedBy env a := by
  ext t
  rw [mem_verifiedBy, mem_verifiedBy]
  obtain ⟨hrecord, -⟩ | ⟨-, hnone, status, fee, hrecord, -⟩ := (settleEntry_task h t).of_entry
  · rw [TaskView.VerifiedBy, TaskView.VerifiedBy, hrecord]
  · have hnot : (recordOf ctx.height entry status fee).verifiedBy env a = false := by
      rw [verifiedBy_recordOf]
      simp [ha]
    refine iff_of_false (not_verifiedBy hrecord hnot) ?_
    rintro ⟨st, hst, -⟩
    exact nomatch hnone.symm.trans hst

/-- An entry that is counted once settles its task for each account it names. -/
theorem CountedOnce.verifiedBy (hcounted : CountedOnce env ctx acc.state entry u w)
    (hadm : admitEntry env ctx.height acc.state.ledger entry = some (u, w))
    (h : settleEntry env ctx acc entry = .ok acc') (ha : a ∈ namedVerifiers env entry) :
    acc'.state.ledger.verifiedBy env a = insert entry.taskId (acc.state.ledger.verifiedBy env a) ∧
    entry.taskId ∉ acc.state.ledger.verifiedBy env a := by
  obtain ⟨⟨asSuccess, recorded, hsettled⟩, -⟩ := hcounted.settled hadm h
  have hverified : (acc'.state.ledger.view entry.taskId).VerifiedBy env a := by
    refine ⟨_, hsettled, ?_⟩
    rw [verifiedBy_recordOf]
    cases asSuccess <;> simp [chargedStatus, ha]
  refine ⟨?_, ?_⟩
  · ext t
    rw [Finset.mem_insert, mem_verifiedBy, mem_verifiedBy]
    by_cases ht : t = entry.taskId
    · grind
    · obtain ⟨hrecord, -⟩ | ⟨ht', -⟩ := (settleEntry_task h t).of_entry
      · rw [TaskView.VerifiedBy, TaskView.VerifiedBy, hrecord, or_iff_right ht]
      · exact absurd ht'.symm ht
  · rw [mem_verifiedBy]
    rintro ⟨st, hst, -⟩
    have hnone : (acc.state.ledger.view entry.taskId).record = none :=
      (admitEntry_eq_some hadm).unsettled
    exact nomatch hnone.symm.trans hst

end EntryTasks

/-! ## credit -/

/-- The count of an account is the size of a set of tasks, none of which can be
settled again; and no task that waits for an audit lists the account. -/
structure Credited (env : Env) (expiry : TaskId → Int) (a : Addr) (height : Int) (s : State)
    (U : Finset TaskId) : Prop where
  count : (s.book.verifierEpochCount.get a).getD 0 = UInt64.ofNat U.card
  deduped : Deduped expiry s.params.taskCleanupBuffer height height U s.ledger
  pending : s.ledger.AllPending (Uninvolved env a)

section Credit
variable {acc acc' : BatchAcc} {entry : SettlementEntry} {u w : Addr}

theorem rowsOf_eq_count (vs : List VerifierResult) :
    rowsOf env a vs = (accounts env (vs.map (·.address))).count a := by
  induction vs with
  | nil => rfl
  | cons v _ ih =>
    rw [rowsOf_cons, ih]
    cases hv : env.accAddressFromBech32 v.address with
    | none => simp [accounts, hv]
    | some => simp [accounts, hv, List.count_cons]

/-- What an entry adds to the count of an account. -/
theorem count_countVerifiers (s : State) (entry : SettlementEntry) (a : Addr) :
    ((countVerifiers env s entry).book.verifierEpochCount.get a).getD 0 =
    (s.book.verifierEpochCount.get a).getD 0 +
    UInt64.ofNat ((namedVerifiers env entry).count a) := by
  rw [verifierEpochCount_countVerifiers, rowsOf_eq_count, ← namedVerifiers]
  split
  · next hzero => simp [hzero]
  · rfl

theorem settleEntry_of_rejected (hadm : admitEntry env ctx.height acc.state.ledger entry = none)
    (h : settleEntry env ctx acc entry = .ok acc') : acc' = acc := by
  unfold settleEntry at h
  rw [hadm] at h
  exact (Except.ok.inj h).symm

/-- The task of an entry that is counted once joins the set. -/
theorem Credited.countedOnce (hs : Credited env expiry a ctx.height acc.state U)
    (hdeduped : Deduped expiry acc'.state.params.taskCleanupBuffer ctx.height ctx.height U
    acc'.state.ledger) (hcounted : CountedOnce env ctx acc.state entry u w)
    (hexpiry : entry.expireBlock = expiry entry.taskId)
    (hadm : admitEntry env ctx.height acc.state.ledger entry = some (u, w))
    (h : settleEntry env ctx acc entry = .ok acc') (ha : a ∈ namedVerifiers env entry) :
    acc.state.ledger.verifiedBy env a ⊆ acc'.state.ledger.verifiedBy env a ∧
    Credited env expiry a ctx.height acc'.state
    (U ∪ (acc'.state.ledger.verifiedBy env a \ acc.state.ledger.verifiedBy env a)) := by
  obtain ⟨hverified, hnew⟩ := hcounted.verifiedBy hadm h ha
  obtain ⟨⟨asSuccess, recorded, hsettled⟩, hkeeps⟩ := hcounted.settled hadm h
  -- an admitted entry is about a task without trace
  have hfresh : entry.taskId ∉ U := fun hmem =>
    (admitEntry_eq_some hadm).view_open.untraced hexpiry (hs.deduped.traced _ hmem)
  have hunion : U ∪ (acc'.state.ledger.verifiedBy env a \ acc.state.ledger.verifiedBy env a) =
      insert entry.taskId U := by
    rw [hverified, Finset.insert_sdiff_of_notMem _ hnew, Finset.sdiff_self,
      Finset.union_insert, Finset.union_empty]
  rw [hunion]
  refine ⟨hverified ▸ Finset.subset_insert .., ?_, ⟨hdeduped.once, fun t ht => ?_⟩, ?_⟩
  · rw [hkeeps.verifications, count_countVerifiers, List.count_eq_one_of_mem hcounted.distinct ha,
      hs.count, Finset.card_insert_of_notMem hfresh, UInt64.ofNat_add]
  · obtain rfl | ht := Finset.mem_insert.mp ht
    · exact .inl (Option.isSome_of_eq_some hsettled)
    · exact hdeduped.traced t ht
  · intro third t apt hapt
    rw [← pending_view] at hapt
    obtain ⟨-, hsame⟩ | ⟨rfl, -, status, fee, hrecord, hpending⟩ := (settleEntry_task h t).of_entry
    · rw [hsame, pending_view] at hapt
      exact hs.pending third t apt hapt
    · obtain hold | ⟨rfl, -⟩ := hpending third apt hapt
      · rw [pending_view] at hold
        exact hs.pending third entry.taskId apt hold
      · -- the task was settled, so it was not put off
        have hstatus := congrArg SettledTaskID.status
          (Option.some.inj (hrecord.symm.trans hsettled))
        cases asSuccess <;> simp [recordOf, chargedStatus] at hstatus

/-- **An entry keeps the credit**: its task joins the set for every account that
it names. -/
theorem Credited.turn (hs : Credited env expiry a ctx.height acc.state U)
    (hcredited : EntryCredited env ctx acc.state entry)
    (hexpiry : entry.expireBlock = expiry entry.taskId)
    (htimely : Timely entry.expireBlock acc.state.params.taskCleanupBuffer ctx.height)
    (h : settleEntry env ctx acc entry = .ok acc') :
    acc.state.ledger.verifiedBy env a ⊆ acc'.state.ledger.verifiedBy env a ∧
    Credited env expiry a ctx.height acc'.state
    (U ∪ (acc'.state.ledger.verifiedBy env a \ acc.state.ledger.verifiedBy env a)) := by
  have hdeduped : Deduped expiry acc'.state.params.taskCleanupBuffer ctx.height ctx.height U
      acc'.state.ledger := by
    obtain ⟨l', out, counted, hstep, hmove, -⟩ := settleEntry_cases.get h
    rw [hmove.ledger, hmove.params]
    have hentry : LedgerStep env ctx.height acc.state.params (fun _ => 0) acc.state.ledger
      (.entry entry) l' out counted := .entry hstep
    refine hentry.deduped ?_ (by simp) hs.deduped
    rintro t e he rfl
    obtain rfl := Label.entry.inj he
    exact ⟨rfl, hexpiry, hexpiry ▸ htimely⟩
  by_cases ha : a ∈ namedVerifiers env entry
  · cases hadm : admitEntry env ctx.height acc.state.ledger entry with
    | none =>
      obtain rfl := settleEntry_of_rejected hadm h
      rw [Finset.sdiff_self, Finset.union_empty]
      exact ⟨fun _ => id, hs⟩
    | some r =>
      obtain ⟨u, w⟩ := r
      have hcounted : CountedOnce env ctx acc.state entry u w :=
        (hcredited u w hadm).resolve_left (List.ne_nil_of_mem ha)
      exact hs.countedOnce hdeduped hcounted hexpiry hadm h ha
  · rw [verifiedBy_settleEntry h ha, Finset.sdiff_self, Finset.union_empty]
    refine ⟨fun _ => id, ?_, hdeduped, ?_⟩
    · rw [← hs.count]
      obtain ⟨-, hkeeps⟩ | ⟨-, -, hkeeps⟩ := settleEntry_counts (P := fun _ => True)
        (fun _ _ _ _ => trivial) h
      · rw [hkeeps.verifications]
      · rw [hkeeps.verifications, count_countVerifiers, List.count_eq_zero.mpr ha]
        simp
    · intro third t apt hapt
      rw [← pending_view] at hapt
      obtain ⟨-, hsame⟩ | ⟨-, -, status, fee, -, hpending⟩ := (settleEntry_task h t).of_entry
      · rw [hsame, pending_view] at hapt
        exact hs.pending third t apt hapt
      · obtain hold | ⟨-, rfl⟩ := hpending third apt hapt
        · rw [pending_view] at hold
          exact hs.pending third t apt hold
        · exact ha

/-- The entries of a batch, one after the other. -/
theorem Credited.entries {entries : List SettlementEntry}
    (hs : Credited env expiry a ctx.height acc.state U)
    (hcredited : EntriesCredited env ctx acc entries)
    (htimely : ∀ e ∈ entries, e.expireBlock = expiry e.taskId ∧
    Timely e.expireBlock acc.state.params.taskCleanupBuffer ctx.height)
    (h : entries.foldlM (settleEntry env ctx) acc = .ok acc') :
    acc.state.ledger.verifiedBy env a ⊆ acc'.state.ledger.verifiedBy env a ∧
    Credited env expiry a ctx.height acc'.state
    (U ∪ (acc'.state.ledger.verifiedBy env a \ acc.state.ledger.verifiedBy env a)) := by
  induction entries generalizing acc U with
  | nil => simp_all
  | cons entry _ ih =>
    obtain ⟨acc₁, hentry, h⟩ := bind_eq_ok.mp h
    obtain ⟨hexpiry, hbuffer⟩ := htimely entry (.head _)
    obtain ⟨hsubset, hs₁⟩ := hs.turn hcredited.1 hexpiry hbuffer hentry
    have hparams : acc₁.state.params = acc.state.params := by
      obtain ⟨l', out, counted, -, hmove, -⟩ := settleEntry_cases.get hentry
      exact hmove.params
    obtain ⟨hsubset', hs₂⟩ := ih hs₁ (hcredited.2 acc₁ hentry)
      (fun e he => hparams ▸ htimely e (.tail _ he)) h
    refine ⟨hsubset.trans hsubset', ?_⟩
    rwa [Finset.union_assoc, Finset.union_comm (acc₁.state.ledger.verifiedBy env a \ _),
      Finset.sdiff_union_sdiff_cancel hsubset' hsubset] at hs₂

end Credit

/-! ## events -/

/-- A batch of settlements is credited entry by entry. -/
def MsgCredited (env : Env) (ctx : Ctx) (s : State) : Msg → Prop
  | .batchSettlement msg => EntriesCredited env ctx ⟨s, 0, 0, 0⟩ msg.entries
  | _ => True

section Events
variable {s s' : State}

theorem Credited.congr (hs : Credited env expiry a height s U) (hheight : height = height')
    (hparams : s'.params = s.params) (hledger : s'.ledger = s.ledger)
    (hcount : s'.book.verifierEpochCount.get a = s.book.verifierEpochCount.get a) :
    Credited env expiry a height' s' U where
  count := hcount ▸ hs.count
  deduped := by
    rw [hparams, hledger, ← hheight]
    exact hs.deduped
  pending := hledger ▸ hs.pending

/-- **An event that is no batch** settles no task of the account and keeps the
credit. -/
theorem Performed.credited {c c' : Chain} {ev : Event} {y : Int} (h : Performed env ev c c' x y)
    (hentries : ev.entries = [])
    (hcount : c'.state.book.verifierEpochCount.get a = c.state.book.verifierEpochCount.get a)
    (hc : Credited env expiry a c.ctx.height c.state U) :
    c'.state.ledger.verifiedBy env a ⊆ c.state.ledger.verifiedBy env a ∧
    Credited env expiry a c'.ctx.height c'.state U := by
  have hnone : ∀ e, Label.entry e ∉ ev.script env c.ctx := by
    intro e he
    have hmem : e ∈ ev.entries := Event.issues he
    rw [hentries] at hmem
    contradiction
  have htimely : TimelyBatches expiry c ev := by
    intro e he
    rw [hentries] at he
    contradiction
  obtain ⟨hpending, hsubset⟩ := h.steps.verifiedBy_subset hnone hc.pending
  refine ⟨hsubset, hcount ▸ hc.count, ?_, hpending⟩
  rw [h.params]
  refine h.bounded (I := fun height bound l =>
    Deduped expiry c.state.params.taskCleanupBuffer height bound U l)
    (fun hheight hbound hl => hl.mono hheight hbound) ?_ hc.deduped
  intro lab hlab bound l l' x y hbound hcleanup hl hstep
  exact hstep.deduped (htimely.entryTimely hlab hbound) hcleanup hl

/-- **A message keeps the credit**, with the tasks that it settled. -/
theorem Credited.deliver {msg : Msg} (hwf : WellFormed env s)
    (hs : Credited env expiry a ctx.height s U)
    (htimely : TimelyBatches expiry ⟨ctx, s⟩ (.tx msg)) (hcredited : MsgCredited env ctx s msg) :
    Credited env expiry a ctx.height (deliver env ctx s msg)
    (U ∪ ((deliver env ctx s msg).ledger.verifiedBy env a \ s.ledger.verifiedBy env a)) := by
  obtain hsame | ⟨hother, hkept⟩ | ⟨m, batchId, rfl, hbatch⟩ :=
    @deliver_counts env ctx (fun _ => True) s (fun _ _ _ _ => trivial) (fun _ _ _ _ => trivial)
      hwf.toOrderly msg
  · simp_all
  · have hentries : (Event.tx msg).entries = [] := by
      cases msg with
      | batchSettlement m => exact absurd rfl (hother m)
      | _ => rfl
    obtain ⟨x, y, hp⟩ : ∃ x y, Performed env (.tx msg) ⟨ctx, s⟩ _ x y :=
      Chain.step_performed hwf rfl
    obtain ⟨hsubset, hc'⟩ := hp.credited hentries (by rw [hkept.verifications]) hs
    rw [Finset.sdiff_eq_empty_iff_subset.mpr hsubset, Finset.union_empty]
    exact hc'
  · obtain ⟨acc, hloop, hclose⟩ := processBatchSettlement_eq_ok.get hbatch _ rfl
    obtain ⟨hledger, hparams, -, -⟩ := closeBatch_spec.get hclose
    have hentries := (hs.entries hcredited htimely hloop).2
    rw [hledger]
    exact hentries.congr rfl hparams hledger
      (by rw [((keeps_closeBatch (P := fun _ => True)).get hclose).verifications])

/-- **The end of a block** keeps the credit. -/
theorem Credited.endBlock {next : Int} (hwf : WellFormed env s)
    (hs : Credited env expiry a ctx.height s U) (hnext : ctx.height < next)
    (h : endBlock env ctx s = .ok s') : s'.ledger.verifiedBy env a ⊆ s.ledger.verifiedBy env a ∧
    Credited env expiry a next s' U := by
  have hkept := (keeps_endBlock (P := fun _ => True) fun _ _ _ _ => trivial).get h
  have hstep : Chain.step env ⟨ctx, s⟩ (.endBlock { ctx with height := next }) =
      some ⟨{ ctx with height := next }, s'⟩ := by
    simp [Chain.step, hnext, h]
  obtain ⟨x, y, hp⟩ := Chain.step_performed (c := ⟨ctx, s⟩) hwf hstep
  exact hp.credited rfl (by rw [hkept.verifications]) hs

/-- Counters that are cleared agree with no task. -/
theorem Credited.cleared (hs : Credited env expiry a height s U) (hparams : s'.params = s.params)
    (hledger : s'.ledger = s.ledger) (hcount : s'.book.verifierEpochCount.get a = none) :
    Credited env expiry a height s' ∅ where
  count := by rw [hcount]; rfl
  deduped := by
    rw [hparams, hledger]
    exact ⟨hs.deduped.once, by simp⟩
  pending := hledger ▸ hs.pending

/-- At genesis nothing is settled and nothing counted. -/
theorem AtGenesis.credited {c : Chain} (h : AtGenesis env c) (expiry : TaskId → Int) (a : Addr) :
    Credited env expiry a c.ctx.height c.state ∅ where
  count := by
    obtain ⟨gs, -, -, hgs⟩ := h.genesis
    rw [hgs, (counters_initGenesis gs c.state.world).1, Table.get_empty]
    rfl
  deduped := ⟨fun t => h.initial.once .., by simp⟩
  pending := h.initial.allPending _

end Events

end FunaiChain.Settlement
