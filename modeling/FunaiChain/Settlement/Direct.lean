import FunaiChain.Settlement.Balance
import FunaiChain.Settlement.Devnet

/-!
# FunaiChain.Settlement.Direct

The ways an entry can take through `ProcessBatchSettlement` (`settleEntry_path`):
it is not looked at, it is put off for an audit, its payout is refused, or it is
settled at once.

* An entry is only forced into an audit when no verifier reports an output count at
  all and the worker does.  `ResolveTokenCounts` computes `LowConfidence`, but nobody
  reads it, so per-token entries are paid on fewer than three checks
  (`token_checks_iff`, `unchecked_payout`).
* An entry is settled in a cached context, which is dropped when a payout fails.  But
  the verifications are counted, the token counts tracked and the reservation
  released before that, so a skipped entry leaves no trace only when there was
  nothing to count, to track or to release (`skipped_traceless_iff`).
-/

namespace FunaiChain.Settlement

variable {env : Env} {ctx : Ctx} {entry : SettlementEntry} {w : Addr} {s : State}

section
variable {acc acc' : BatchAcc} {u : Addr} {ia : InferenceAccount} {fee : Coin}

/-! ## the ways of an entry -/

/-- The entry is forced into an audit or drawn for it. -/
def Audited (env : Env) (ctx : Ctx) (s : State) (entry : SettlementEntry) : Prop :=
  forceSecondVerification s.params entry = true ∨ ∃ rate, auditRate s entry = .ok rate ∧
      shouldTriggerSecondVerification env ctx entry.taskId rate = true

/-- An entry that is settled without audit has come to its payout: `s` is the
state with its verifications counted, its token counts tracked and its
reservation released, and `fee` is its fee. -/
structure Billed (env : Env) (ctx : Ctx) (acc : BatchAcc) (entry : SettlementEntry) (u w : Addr)
    (s : State) (ia : InferenceAccount) (fee : Coin) : Prop where
  admitted : admitEntry env ctx.height acc.state.ledger entry = some (u, w)
  unaudited : ¬ Audited env ctx acc.state entry
  tracked : ∃ s₁, trackTokens env ctx (countVerifiers env acc.state entry) entry w = .ok s₁ ∧
    s = s₁.mapLedger (·.release u entry.taskId)
  account : s.getInferenceAccount u = some ia
  hfee : actualFee acc.state.params entry = .ok fee

/-- The payout of a success or of a per-request fail was refused. -/
def PayoutRefused (env : Env) (ctx : Ctx) (entry : SettlementEntry) (u w : Addr) (s : State)
    (ia : InferenceAccount) (fee : Coin) : Prop :=
  (entry.status = .success ∧ settleSuccess env ctx s entry u w ia fee = .ok none) ∨
  (entry.status ≠ .success ∧ entry.isPerToken = false ∧
    settleFailPerRequest env ctx s entry u w ia = .ok none)

section
variable (env : Env) (ctx : Ctx) (acc : BatchAcc) (entry : SettlementEntry)

/-- The ways of an entry, with the accumulator it leaves. -/
inductive EntryPath : BatchAcc → Prop
  | rejected (reject : admitEntry env ctx.height acc.state.ledger entry = none) : EntryPath acc
  | audited (u w : Addr)
      (admitted : admitEntry env ctx.height acc.state.ledger entry = some (u, w))
      (audited : Audited env ctx acc.state entry) :
      EntryPath { acc with state := acc.state.mapLedger (park ctx.height · entry) }
  | refused (u w : Addr) (s : State) (ia : InferenceAccount) (fee : Coin)
      (billed : Billed env ctx acc entry u w s ia fee)
      (refused : PayoutRefused env ctx entry u w s ia fee) :
      EntryPath { acc with state := s }
  | success {acc' : BatchAcc} (u w : Addr) (s : State) (ia : InferenceAccount) (fee : Coin)
      (billed : Billed env ctx acc entry u w s ia fee) (status : entry.status = .success)
      (paid : Int)
      (settled : settleSuccess env ctx s entry u w ia fee = .ok (some (acc'.state, paid))) :
      EntryPath acc'
  | fail {acc' : BatchAcc} (u w : Addr) (s : State) (ia : InferenceAccount) (fee : Coin)
      (billed : Billed env ctx acc entry u w s ia fee) (status : entry.status ≠ .success)
      (settled : settleFailPerToken env ctx s entry u w ia fee = .ok acc'.state ∨
        settleFailPerRequest env ctx s entry u w ia = .ok (some acc'.state)) :
      EntryPath acc'

end

theorem settleDirect_path (billed : Billed env ctx acc entry u w s ia fee) :
    OnValue (EntryPath env ctx acc entry) (settleDirect env ctx acc s entry u w fee) := by
  unfold settleDirect
  rw [billed.account]
  refine .ite (fun hstatus => .after fun r hsettle => ?_) fun hstatus => .ite (fun _ => ?_)
    fun hper => .after fun r hsettle => ?_
  · cases r with
    | none => exact .ok (.refused u w s ia fee billed (.inl ⟨hstatus, hsettle⟩))
    | some r => exact .after fun _ _ => .ok (.success u w s ia fee billed hstatus r.2 hsettle)
  · exact .after fun s₁ hsettle => .after fun _ _ =>
      .ok (.fail u w s ia fee billed hstatus (.inl hsettle))
  · cases r with
    | none =>
      exact .ok (.refused u w s ia fee billed (.inr ⟨hstatus, by simpa using hper, hsettle⟩))
    | some => exact .after fun _ _ => .ok (.fail u w s ia fee billed hstatus (.inr hsettle))

/-- Bookkeeping before the payout does not change what is released. -/
theorem quiet_tracked {s₁ : State}
    (h : trackTokens env ctx (countVerifiers env acc.state entry) entry w = .ok s₁) :
    State.Quiet env acc.state s₁ :=
  (quiet_countVerifiers acc.state entry).trans (quiet_trackTokens.get h)

/-- **Every entry takes one of the ways.** -/
theorem settleEntry_path (h : settleEntry env ctx acc entry = .ok acc') :
    EntryPath env ctx acc entry acc' := by
  refine OnValue.get (Q := EntryPath env ctx acc entry) ?_ h
  unfold settleEntry
  split
  · next hreject => exact .ok (.rejected hreject)
  next u w hadm =>
  refine .after fun rate hrate => .ite (fun haudit => .ok ?_) fun haudit => ?_
  · exact .audited u w hadm ((Bool.or_eq_true_iff.mp haudit).imp_right fun hdrawn =>
      ⟨rate, hrate, hdrawn⟩)
  refine .after fun s₁ htrack => .after fun fee hfee => .after fun ⟨l, r⟩ hunfreeze => ?_
  obtain rfl := unfreezeBalance_eq hunfreeze
  have hunaudited : ¬ Audited env ctx acc.state entry := by
    rintro (hforced | ⟨rate', hrate', hdrawn⟩)
    · exact haudit (Bool.or_eq_true_iff.mpr (.inl hforced))
    · grind
  cases hia : (s₁.mapLedger (·.release u entry.taskId)).getInferenceAccount u with
  | none =>
    unfold settleDirect
    simp only [State.mapLedger] at hia
    simp only [hia]
    exact .error
  | some =>
    exact settleDirect_path
      ⟨hadm, hunaudited, ⟨s₁, htrack, rfl⟩, hia, (quiet_tracked htrack).params ▸ hfee⟩

/-! ## what the ways leave -/

namespace Billed

variable (h : Billed env ctx acc entry u w s ia fee)
include h

theorem admissible : Admissible env ctx.height acc.state.ledger entry u w :=
  admitEntry_eq_some h.admitted

theorem ledger : s.ledger = acc.state.ledger.release u entry.taskId := by
  obtain ⟨s₁, htrack, rfl⟩ := h.tracked
  rw [← (quiet_tracked htrack).ledger]
  rfl

theorem params : s.params = acc.state.params := by
  obtain ⟨s₁, htrack, rfl⟩ := h.tracked
  exact (quiet_tracked htrack).params

theorem moduleBalance : s.moduleBalance env = acc.state.moduleBalance env := by
  obtain ⟨s₁, htrack, rfl⟩ := h.tracked
  exact (quiet_tracked htrack).moduleBalance_eq

theorem denom : fee.denom = defaultDenom := (actualFee_spec h.admissible.denom h.hfee).1

theorem balanceOf : acc.state.ledger.balanceOf u = ia.balance.amount := by
  rw [← acc.state.ledger.balanceOf_release u entry.taskId, ← h.ledger]
  exact Ledger.balanceOf_of_get h.account

end Billed

/-- A release leaves the dedup records alone. -/
theorem Ledger.getSettledTask_release (l : Ledger) (a : Addr) (u t : TaskId) :
    (l.release a u).getSettledTask t = l.getSettledTask t := by
  have hview := congrArg TaskView.record (l.view_release a u t)
  split at hview
  · exact hview
  · exact hview

/-- An entry drawn for audit has a record that says so. -/
theorem getSettledTask_park : (s.mapLedger (park ctx.height · entry)).getSettledTask entry.taskId =
    some (recordOf ctx.height entry .pendingSecondVerification entry.fee) :=
  (Ledger.getSettledTask_set ..).trans (if_pos rfl)

theorem Billed.getSettledTask (billed : Billed env ctx acc entry u w s ia fee) (t : TaskId) :
    s.getSettledTask t = acc.state.getSettledTask t := by
  rw [State.getSettledTask, billed.ledger, Ledger.getSettledTask_release]
  rfl

/-- A success that goes through writes the record of a settled task. -/
theorem settleSuccess_record {s' : State} {paid : Int} (hdenom : fee.denom = defaultDenom)
    (h : settleSuccess env ctx s entry u w ia fee = .ok (some (s', paid))) :
    ∃ recorded, s'.getSettledTask entry.taskId =
    some (recordOf ctx.height entry .settled recorded) := by
  obtain ⟨p, -, -, -, -, -, hmove, -⟩ := (settleSuccess_moves hdenom).get h _ rfl
  refine ⟨⟨fee.denom, paid⟩, ?_⟩
  rw [State.getSettledTask, hmove.ledger]
  exact (Ledger.getSettledTask_set ..).trans (if_pos rfl)

/-! ## payouts on few checks -/

/-- The rows that report a non-zero count. -/
def countRows (count : VerifierResult → UInt32) (entry : SettlementEntry) : Nat :=
  entry.verifierResults.countP fun v => 0 < count v

/-- At least three rows report an output count and at least three an input
count. -/
def TokensChecked (entry : SettlementEntry) : Prop :=
  3 ≤ countRows (·.verifiedOutputTokens) entry ∧ 3 ≤ countRows (·.verifiedInputTokens) entry

instance (entry : SettlementEntry) : Decidable (TokensChecked entry) :=
  inferInstanceAs (Decidable (_ ∧ _))

/-- The task was settled as a success between two states. -/
def SettledBetween (t : TaskId) (s s' : State) : Prop :=
  s.getSettledTask t = none ∧ ∃ st, s'.getSettledTask t = some st ∧ st.status = .settled

/-- The payouts of an entry are accepted: of its fee, or of what the balance of
its user covers of it. -/
def EntryPayable (env : Env) (ctx : Ctx) (s : State) (entry : SettlementEntry) : Prop :=
  ∀ u w fee, admitEntry env ctx.height s.ledger entry = some (u, w) →
    actualFee s.params entry = .ok fee →
    Payable env s (min fee.amount (s.ledger.balanceOf u)) w
      (entry.verifierResults.map (·.address))

/-- An entry that is admitted, not audited and payable is settled. -/
theorem settled_of_unaudited (hstatus : entry.status = .success)
    (hpay : EntryPayable env ctx acc.state entry) (h : settleEntry env ctx acc entry = .ok acc')
    (hadm : admitEntry env ctx.height acc.state.ledger entry ≠ none)
    (hunaudited : ¬ Audited env ctx acc.state entry) :
    SettledBetween entry.taskId acc.state acc'.state := by
  cases settleEntry_path h with
  | rejected reject => exact absurd reject hadm
  | audited _ _ _ audited => exact absurd audited hunaudited
  | refused u w _ _ fee billed refused =>
    obtain ⟨-, hnone⟩ | ⟨hfail, -, -⟩ := refused
    · have hp := hpay u w fee billed.admitted billed.hfee
      rw [billed.balanceOf] at hp
      exact absurd rfl ((settleSuccess_accepted billed.denom
        (hp.congr billed.params billed.moduleBalance)).get hnone)
    · exact absurd hstatus hfail
  | success _ _ _ _ _ billed _ _ settled =>
    obtain ⟨recorded, hrecord⟩ := settleSuccess_record billed.denom settled
    exact ⟨billed.admissible.unsettled, _, hrecord, rfl⟩
  | fail _ _ _ _ _ _ status => exact absurd hstatus status

/-- An entry that is settled was billed and its payout was not refused. -/
theorem success_of_settled (hstatus : entry.status = .success)
    (h : settleEntry env ctx acc entry = .ok acc')
    (hsettled : SettledBetween entry.taskId acc.state acc'.state) :
    ∃ u w s ia fee paid, Billed env ctx acc entry u w s ia fee ∧
    settleSuccess env ctx s entry u w ia fee = .ok (some (acc'.state, paid)) := by
  obtain ⟨hnone, st, hst, hsettled⟩ := hsettled
  cases settleEntry_path h with
  | rejected => exact nomatch hnone.symm.trans hst
  | audited =>
    rw [← Option.some.inj (getSettledTask_park.symm.trans hst)] at hsettled
    contradiction
  | refused _ _ _ _ _ billed =>
    rw [billed.getSettledTask, hnone] at hst
    cases hst
  | success u w s ia fee billed _ paid settled => exact ⟨u, w, s, ia, fee, paid, billed, settled⟩
  | fail _ _ _ _ _ _ status => exact absurd hstatus status

/-- **Which payouts are checked.**  With per-token billing, a per-token success
whose payouts are accepted is settled on three checks of each count, if it is
settled at all, exactly when it is not admitted, or no verifier reports an
output count and the worker does, or it is drawn for an audit, or three rows
report each count. -/
theorem token_checks_iff (hbilling : acc.state.params.perTokenBillingEnabled = true)
    (hper : entry.isPerToken = true) (hstatus : entry.status = .success)
    (hpay : EntryPayable env ctx acc.state entry) (h : settleEntry env ctx acc entry = .ok acc') :
    (SettledBetween entry.taskId acc.state acc'.state → TokensChecked entry) ↔
      admitEntry env ctx.height acc.state.ledger entry = none ∨
        ((∀ v ∈ entry.verifierResults, v.verifiedOutputTokens = 0) ∧ 0 < entry.workerOutputTokens) ∨
        (∃ rate, auditRate acc.state entry = .ok rate ∧
          shouldTriggerSecondVerification env ctx entry.taskId rate = true) ∨
        TokensChecked entry := by
  -- when a per-token entry is forced into an audit
  have hforced : forceSecondVerification acc.state.params entry = true ↔
      (∀ v ∈ entry.verifierResults, v.verifiedOutputTokens = 0) ∧ 0 < entry.workerOutputTokens := by
    simp [forceSecondVerification, hbilling, hper]
  constructor
  · intro hchecked
    by_cases hadm : admitEntry env ctx.height acc.state.ledger entry = none
    · exact .inl hadm
    by_cases haudit : Audited env ctx acc.state entry
    · obtain haudit | haudit := haudit
      · exact .inr (.inl (hforced.mp haudit))
      · exact .inr (.inr (.inl haudit))
    · exact .inr (.inr (.inr (hchecked (settled_of_unaudited hstatus hpay h hadm haudit))))
  · intro hcond hsettled
    obtain ⟨u, w, s, ia, fee, paid, billed, -⟩ := success_of_settled hstatus h hsettled
    obtain hnone | haudit | haudit | hchecked := hcond
    · exact nomatch hnone.symm.trans billed.admitted
    · exact absurd (.inl (hforced.mpr haudit)) billed.unaudited
    · exact absurd (.inr haudit) billed.unaudited
    · exact hchecked

/-! ## on the devnet -/

/-- A per-token entry of ten input and twenty output tokens at one coin each,
with rows of verifiers and the counts they report. -/
def devTokens (t : TaskId) (rows : List (String × UInt32 × UInt32)) : SettlementEntry :=
  { devEntry t "user" 0 0 with
    feePerInputToken := 1
    feePerOutputToken := 1
    maxFee := ⟨defaultDenom, 100⟩
    workerInputTokens := 10
    workerOutputTokens := 20
    verifierResults := rows.map fun r => ⟨r.1, true, [], [], r.2.1, r.2.2⟩ }

theorem devEnv_accepts {a : Addr} (h : devEnv.signs a = true) : devEnv.Accepts a where
  unblocked := by
    simp only [devEnv, Bool.and_eq_true, bne_iff_ne, Bool.or_eq_false_iff,
      beq_eq_false_iff_ne] at h ⊢
    exact h
  unrestricted := fun _ _ => rfl

/-- An entry whose counts three verifiers checked. -/
def devChecked : SettlementEntry := devTokens [255] [("x", 10, 20), ("y", 10, 20), ("z", 10, 20)]

/-- The devnet with billing, before a batch. -/
def devBillingAcc : BatchAcc := ⟨(devnet devBilling [("user", 1000)]).state, 0, 0, 0⟩

theorem devChecked_payable : EntryPayable devEnv ⟨1, [], []⟩ devBillingAcc.state devChecked := by
  intro u w fee hadm hfee
  have hadm' : admitEntry devEnv 1 devBillingAcc.state.ledger devChecked =
      some (devAddr "user", devAddr "worker") := by decide +kernel
  have hfee' : actualFee devBillingAcc.state.params devChecked = .ok ⟨defaultDenom, 30⟩ := by
    decide +kernel
  cases hadm'.symm.trans hadm
  cases hfee'.symm.trans hfee
  refine ⟨by decide +kernel, devEnv_accepts (by decide), ?_, by decide +kernel, by decide +kernel,
    by decide +kernel⟩
  intro v hv a ha
  have hv : v ∈ ["x", "y", "z"] := hv
  simp only [List.mem_cons, List.not_mem_nil, or_false] at hv
  obtain rfl | rfl | rfl := hv <;> obtain rfl := Option.some.inj ha
  all_goals exact devEnv_accepts (by decide)

theorem devChecked_settles :
    ∃ acc', settleEntry devEnv ⟨1, [], []⟩ devBillingAcc devChecked = .ok acc' ∧
    SettledBetween [255] devBillingAcc.state acc'.state := by
  have hrun : ∃ acc', settleEntry devEnv ⟨1, [], []⟩ devBillingAcc devChecked = .ok acc' ∧
      ∃ st ∈ acc'.state.getSettledTask [255], st.status = .settled := by decide +kernel
  obtain ⟨acc', hacc', st, hst, hsettled⟩ := hrun
  exact ⟨acc', hacc', by decide +kernel, st, hst, hsettled⟩

/-- Three verifiers checked both counts of an entry that is settled. -/
theorem token_checks_devnet :
    ∃ acc', settleEntry devEnv ⟨1, [], []⟩ devBillingAcc devChecked = .ok acc' ∧
      SettledBetween [255] devBillingAcc.state acc'.state ∧
      (SettledBetween [255] devBillingAcc.state acc'.state → TokensChecked devChecked) := by
  obtain ⟨acc', hacc', hsettled⟩ := devChecked_settles
  have hiff := token_checks_iff rfl rfl rfl devChecked_payable hacc'
  exact ⟨acc', hacc', hsettled, hiff.mpr (.inr (.inr (.inr (by decide))))⟩

/-- One verifier checked the output count and none the input count; the worker
is paid for both. -/
theorem unchecked_payout : AtGenesis devEnv (devnet devBilling [("user", 1000)]) ∧
      ¬ TokensChecked (devTokens [255] [("x", 0, 20)]) ∧
      ∃ c, Run devEnv (fun _ _ => True) (devnet devBilling [("user", 1000)]) c ∧
        (c.state.getSettledTask [255]).map (fun st => (st.status, st.fee.amount)) =
          some (.settled, 30) ∧ c.state.ledger.balanceOf (devAddr "user") = 970 := by
  refine ⟨atGenesis_devnet (by decide) (by decide), by decide, ?_⟩
  exact Run.exists_of_exec [devBatch [devTokens [255] [("x", 0, 20)]]] (by decide +kernel)

end

open State
variable {s' : State} {addr : Addr} {dishonest : Bool}

/-! ## verification counts -/

/-- The rows whose address decodes to an account. -/
def rowsOf (env : Env) (a : Addr) (vs : List VerifierResult) : Nat :=
  vs.countP fun v => env.accAddressFromBech32 v.address = some a

theorem rowsOf_cons (a : Addr) (v : VerifierResult) (vs : List VerifierResult) :
    rowsOf env a (v :: vs) =
      rowsOf env a vs + if env.accAddressFromBech32 v.address = some a then 1 else 0 := by
  simp [rowsOf, List.countP_cons]

theorem countVerifiers_nil
    (h : ∀ v ∈ entry.verifierResults, env.accAddressFromBech32 v.address = none) :
    countVerifiers env s entry = s := by
  unfold countVerifiers
  generalize entry.verifierResults = vs at h
  induction vs generalizing s with
  | nil => rfl
  | cons v _ ih =>
    have hbook : incrementVerifierEpochCount env s.book v.address = s.book := by
      rw [incrementVerifierEpochCount, h v (.head _)]
    rw [List.foldl_cons, hbook]
    exact ih fun v hv => h v (.tail _ hv)

/-- The count of an account grows by the number of its rows. -/
theorem verifierEpochCount_countVerifiers (s : State) (entry : SettlementEntry) (a : Addr) :
    (countVerifiers env s entry).book.verifierEpochCount.get a =
      if rowsOf env a entry.verifierResults = 0 then s.book.verifierEpochCount.get a
      else some ((s.book.verifierEpochCount.get a).getD 0 +
        UInt64.ofNat (rowsOf env a entry.verifierResults)) := by
  unfold countVerifiers
  generalize entry.verifierResults = vs
  induction vs generalizing s with
  | nil => rfl
  | cons v _ ih =>
    rw [List.foldl_cons, ih]
    cases haddr : env.accAddressFromBech32 v.address with
    | none => simp [rowsOf_cons, haddr, incrementVerifierEpochCount]
    | some b =>
      have hget : (incrementVerifierEpochCount env s.book v.address).verifierEpochCount.get a =
          if b = a then some ((s.book.verifierEpochCount.get b).getD 0 + 1)
          else s.book.verifierEpochCount.get a := by
        rw [incrementVerifierEpochCount, haddr]
        exact Table.get_put ..
      rw [rowsOf_cons, haddr, hget]
      by_cases hb : b = a
      · subst hb
        simp only [if_true, Option.getD_some]
        split
        · next hzero => simp [hzero]
        · rw [UInt64.ofNat_add, UInt64.add_assoc, UInt64.add_comm 1]
          rfl
      · simp [hb]

/-- Counting verifications changes nothing only when no row decodes.  The rows
of an entry are fewer than the counter can hold. -/
theorem countVerifiers_eq_self (hlen : entry.verifierResults.length < 2 ^ 64)
    (h : (countVerifiers env s entry).book.verifierEpochCount = s.book.verifierEpochCount) :
    ∀ v ∈ entry.verifierResults, env.accAddressFromBech32 v.address = none := by
  intro v hv
  cases haddr : env.accAddressFromBech32 v.address with
  | none => rfl
  | some a =>
    have hpos : 0 < rowsOf env a entry.verifierResults :=
      List.countP_pos_iff.mpr ⟨v, hv, by simpa using haddr⟩
    have hle : rowsOf env a entry.verifierResults ≤ entry.verifierResults.length :=
      List.countP_le_length
    have hget := @verifierEpochCount_countVerifiers env s entry a
    rw [h, if_neg (by omega)] at hget
    cases hold : s.book.verifierEpochCount.get a with
    | none => simp [hold] at hget
    | some n =>
      rw [hold, Option.getD_some] at hget
      have hn := congrArg UInt64.toNat (Option.some.inj hget)
      have hlt := n.toNat_lt
      rw [UInt64.toNat_add, UInt64.toNat_ofNat'] at hn
      omega

/-! ## token counts -/

/-- The pair updates touch the mismatch records only. -/
theorem updateTokenMismatchPairs_frame (params : Params) (b : Book) (entry : SettlementEntry)
    (resolved : UInt32) :
    updateTokenMismatchPairs params b entry resolved =
      { b with
        tokenMismatch := (updateTokenMismatchPairs params b entry resolved).tokenMismatch } := by
  unfold updateTokenMismatchPairs
  generalize entry.verifierResults = vs
  induction vs generalizing b with
  | nil => rfl
  | cons _ _ ih =>
    rw [List.foldl_cons, ih]
    rfl

/-- An update of a stored worker that changes it changes the store. -/
theorem World.updateWorker_ne {w w' : World} {f : Worker → Worker}
    {hf : ∀ worker, (f worker).address = worker.address} (hreg : (w.workers.get addr).isSome)
    (hne : ∀ worker, w'.workers.get addr ≠ some (f worker)) : w.updateWorker addr f hf ≠ w' := by
  intro h
  unfold World.updateWorker at h
  split at h
  · next hnone => simp [hnone] at hreg
  · grind

/-- Jailing changes nothing for a worker that is unknown or tombstoned, and
only then. -/
theorem World.jailWorker_eq_self {host : Host} {height : Int} {w : World} :
    w.jailWorker host height addr = .ok w ↔
    ∀ worker, w.workers.get addr = some worker → worker.tombstoned = true := by
  constructor
  · intro h worker hworker
    by_contra htomb
    unfold World.jailWorker at h
    rw [hworker] at h
    dsimp only at h
    rw [if_neg htomb] at h
    split at h
    · -- the third jailing tombstones
      obtain ⟨w₁, hslash, h⟩ := bind_eq_ok.mp h
      have hreg := (World.frame_slashWorkerInternal.get hslash).registered addr
      refine World.updateWorker_ne (by simp [hreg, hworker]) (fun worker' hget => ?_)
        (Except.ok.inj h)
      cases hworker.symm.trans hget
      exact htomb rfl
    · -- the others raise the jail count
      have hget := congrArg (fun w => w.workers.get worker.address) (Except.ok.inj h)
      have haddr := World.address_of_get hworker
      simp only [World.setWorker, Table.get_set_self, haddr, hworker] at hget
      have hcount := congrArg Worker.jailCount (Option.some.inj hget)
      simp at hcount
  · intro h
    unfold World.jailWorker
    split
    · rfl
    · next worker hworker => rw [if_pos (h worker hworker)]

/-- Raising the worker's dishonest count would change nothing: the first
count is already at the threshold, which clears it, and there is no worker to
jail. -/
structure Unpunished (s : State) (w : Addr) : Prop where
  fresh : s.book.dishonestCount.get w = none
  atThreshold : s.params.dishonestJailThreshold ≤ 1
  tombstoned : ∀ worker, s.world.workers.get w = some worker → worker.tombstoned = true

theorem incrementDishonestCount_eq_self :
    s.incrementDishonestCount env ctx w = .ok s ↔ Unpunished s w := by
  constructor
  · intro h
    unfold incrementDishonestCount at h
    dsimp only at h
    split at h
    · next hthreshold =>
      obtain ⟨s₁, hjail, h⟩ := bind_eq_ok.mp h
      obtain ⟨world, hworld, hs₁⟩ := bind_eq_ok.mp hjail
      cases hs₁
      have hself := Except.ok.inj h
      have hfresh : s.book.dishonestCount.get w = none := by
        rw [← hself]
        exact Table.get_erase_self ..
      have hsame : world = s.world := congrArg State.world hself
      rw [hsame] at hworld
      refine ⟨hfresh, ?_, World.jailWorker_eq_self.mp hworld⟩
      simpa [getDishonestCount, hfresh, setDishonestCount] using hthreshold
    · have hget : (s.setDishonestCount w (s.getDishonestCount w + 1)).book.dishonestCount.get w =
          some (s.getDishonestCount w + 1) := Table.get_set_self _ _ _ trivial
      rw [Except.ok.inj h] at hget
      have hcount : s.getDishonestCount w = s.getDishonestCount w + 1 := by
        nth_rewrite 1 [getDishonestCount]
        simp [hget]
      simp at hcount
  · intro h
    have hcount : s.getDishonestCount w + 1 = 1 := by
      simp [getDishonestCount, h.fresh]
    have hjail : s.world.jailWorker env.toHost ctx.height w = .ok s.world :=
      World.jailWorker_eq_self.mpr h.tombstoned
    have hclear : (s.book.dishonestCount.put w 1).erase w = s.book.dishonestCount := by
      apply Table.ext_get
      intro a
      rw [Table.get_erase]
      split
      · next ha => rw [← ha, h.fresh]
      · next ha => exact Table.get_set_of_ne _ _ _ ha
    unfold incrementDishonestCount
    rw [hcount]
    simp only [setDishonestCount, jailWorker, hjail, h.atThreshold, if_true, resetDishonestCount]
    change Except.ok { s with book := { s.book with
      dishonestCount := (s.book.dishonestCount.put w 1).erase w } } = _
    rw [hclear]

/-- Raising a dishonest count touches the counts and the worker store only. -/
theorem noteDishonest_frame (h : noteDishonest env ctx s dishonest w = .ok s') : s' = { s with
      book := { s.book with dishonestCount := s'.book.dishonestCount }, world := s'.world } := by
  unfold noteDishonest incrementDishonestCount at h
  split at h
  · dsimp only at h
    split at h
    · obtain ⟨s₁, hjail, h⟩ := bind_eq_ok.mp h
      obtain ⟨world, -, hs₁⟩ := bind_eq_ok.mp hjail
      cases hs₁
      cases h
      rfl
    · cases h
      rfl
  · cases h
    rfl

/-- Nothing is tracked for the entry: the worker is not marked, or marking it
changes nothing, and the records of its pairs come back from their updates as
they were. -/
structure Untracked (s : State) (entry : SettlementEntry) (w : Addr) : Prop where
  unmarked : (resolveTokenCounts entry s.params.tokenCountTolerance
    s.params.tokenCountTolerancePct).workerDishonest = true → Unpunished s w
  pairs : updateTokenMismatchPairs s.params s.book entry (resolveTokenCounts entry
    s.params.tokenCountTolerance s.params.tokenCountTolerancePct).outputTokens = s.book

theorem noteDishonest_eq_self :
    noteDishonest env ctx s dishonest w = .ok s ↔ (dishonest = true → Unpunished s w) := by
  cases dishonest with
  | false => simp [noteDishonest]
  | true => simpa [noteDishonest] using incrementDishonestCount_eq_self

/-- Tracking the token counts changes nothing exactly when nothing is tracked. -/
theorem trackTokens_eq_self : trackTokens env ctx s entry w = .ok s ↔
    (entry.isPerToken = true → s.params.perTokenBillingEnabled = true → Untracked s entry w) := by
  unfold trackTokens
  cases hper : entry.isPerToken && s.params.perTokenBillingEnabled with
  | false => grind
  | true =>
    obtain ⟨htoken, hbilling⟩ := Bool.and_eq_true_iff.mp hper
    simp only [if_true, htoken, hbilling, forall_const]
    constructor
    · intro h
      obtain ⟨s₁, hnote, h⟩ := bind_eq_ok.mp h
      have hself := Except.ok.inj h
      have hframe := updateTokenMismatchPairs_frame s₁.params s₁.book entry
        (resolveTokenCounts entry s.params.tokenCountTolerance
          s.params.tokenCountTolerancePct).outputTokens
      -- the pairs are written next to the dishonest counts
      have hcount : s₁.book.dishonestCount = s.book.dishonestCount :=
        (congrArg Book.dishonestCount hframe).symm.trans
          (congrArg (fun s => s.book.dishonestCount) hself)
      have hworld : s₁.world = s.world := congrArg (fun s => s.world) hself
      have hs₁ : s₁ = s := by
        rw [noteDishonest_frame hnote, hcount, hworld]
      subst hs₁
      exact ⟨noteDishonest_eq_self.mp hnote, congrArg State.book hself⟩
    · intro h
      rw [noteDishonest_eq_self.mpr h.unmarked, ok_bind, h.pairs]
      rfl

/-- Tracking leaves the verification counts alone. -/
theorem verifierEpochCount_trackTokens (h : trackTokens env ctx s entry w = .ok s') :
    s'.book.verifierEpochCount = s.book.verifierEpochCount := by
  unfold trackTokens at h
  split at h
  · obtain ⟨s₁, hnote, h⟩ := bind_eq_ok.mp h
    cases h
    exact (congrArg Book.verifierEpochCount (updateTokenMismatchPairs_frame ..)).trans
      (congrArg (fun s => s.book.verifierEpochCount) (noteDishonest_frame hnote))
  · cases h
    rfl

/-! ## the entry -/

/-- There is nothing an entry could leave behind. -/
structure Traceless (env : Env) (s : State) (entry : SettlementEntry) (w : Addr) : Prop where
  unreserved : s.ledger.frozenBalance.get entry.taskId = none
  uncounted : ∀ v ∈ entry.verifierResults, env.accAddressFromBech32 v.address = none
  untracked : entry.isPerToken = true → s.params.perTokenBillingEnabled = true → Untracked s entry w

/-- A release changes nothing only when there was nothing to release. -/
theorem Ledger.unreserved_of_release {l : Ledger} {a : Addr} {t : TaskId}
    (hia : (l.getInferenceAccount a).isSome) (h : l.release a t = l) :
    l.frozenBalance.get t = none := by
  obtain ⟨-, hnone | hnone⟩ | ⟨n, ia, -, -, hr⟩ := l.release_cases a t
  · exact hnone
  · simp [hnone] at hia
  · rw [← h, hr]
    exact Table.get_erase_self ..

section
variable {acc acc' : BatchAcc} {u : Addr} {ia : InferenceAccount} {fee : Coin}

/-- The payout of a billed entry. -/
theorem Billed.settleDirect (billed : Billed env ctx acc entry u w s ia fee)
    (h : settleEntry env ctx acc entry = .ok acc') :
    settleDirect env ctx acc s entry u w fee = .ok acc' := by
  unfold settleEntry at h
  rw [billed.admitted] at h
  obtain ⟨rate, hrate, h⟩ := bind_eq_ok.mp h
  split at h
  · next haudit =>
    obtain hforced | hdrawn := Bool.or_eq_true_iff.mp haudit
    · exact absurd (.inl hforced) billed.unaudited
    · exact absurd (.inr ⟨rate, hrate, hdrawn⟩) billed.unaudited
  · obtain ⟨s₁, htrack, h⟩ := bind_eq_ok.mp h
    obtain ⟨s₂, htrack', hs⟩ := billed.tracked
    cases htrack.symm.trans htrack'
    obtain ⟨fee', hfee, h⟩ := bind_eq_ok.mp h
    rw [(quiet_tracked htrack).params, billed.hfee] at hfee
    cases hfee
    obtain ⟨⟨l, r⟩, hunfreeze, h⟩ := bind_eq_ok.mp h
    obtain rfl := unfreezeBalance_eq hunfreeze
    rw [hs]
    exact h

/-- An entry whose payout is refused leaves the state that the payout met. -/
theorem settleEntry_refused (billed : Billed env ctx acc entry u w s ia fee)
    (hrefused : PayoutRefused env ctx entry u w s ia fee)
    (h : settleEntry env ctx acc entry = .ok acc') : acc' = { acc with state := s } := by
  have hdirect := billed.settleDirect h
  unfold FunaiChain.Settlement.settleDirect at hdirect
  rw [billed.account] at hdirect
  obtain ⟨hstatus, hnone⟩ | ⟨hstatus, hper, hnone⟩ := hrefused
  · simp_all
  · simp_all

/-- **What a skipped entry leaves behind.**  An entry that is skipped because
its payout was refused leaves the state as it was exactly when it held no
reservation, none of its rows names an account, and nothing is tracked for it. -/
theorem skipped_traceless_iff (hlen : entry.verifierResults.length < 2 ^ 63)
    (billed : Billed env ctx acc entry u w s ia fee)
    (hrefused : PayoutRefused env ctx entry u w s ia fee)
    (h : settleEntry env ctx acc entry = .ok acc') :
    acc'.state = acc.state ↔ Traceless env acc.state entry w := by
  obtain rfl := settleEntry_refused billed hrefused h
  obtain ⟨s₁, htrack, hs⟩ := billed.tracked
  have hledger := (quiet_tracked htrack).ledger
  constructor
  · intro hself
    change s = acc.state at hself
    have hcounted : ∀ v ∈ entry.verifierResults, env.accAddressFromBech32 v.address = none := by
      refine countVerifiers_eq_self (s := acc.state) (by omega) ?_
      rw [← verifierEpochCount_trackTokens htrack, ← hself, hs]
      rfl
    have hs₁ : s₁ = acc.state := by
      have hother : s₁ = { s with ledger := s₁.ledger } := by
        rw [hs]
        rfl
      rw [hother, hself, hledger]
    rw [countVerifiers_nil hcounted, hs₁] at htrack
    refine ⟨?_, hcounted, trackTokens_eq_self.mp htrack⟩
    apply Ledger.unreserved_of_release (a := u)
    · obtain ⟨ia, hia⟩ := billed.admissible.account
      simp [hia]
    · rw [← billed.ledger, hself]
  · intro hnone
    have htrack' : trackTokens env ctx (countVerifiers env acc.state entry) entry w =
        .ok acc.state := by
      rw [countVerifiers_nil hnone.uncounted]
      exact trackTokens_eq_self.mpr hnone.untracked
    cases htrack.symm.trans htrack'
    rw [hs, mapLedger, Ledger.release_eq_self hnone.unreserved]

/-- A success that is looked at and leaves no record was refused. -/
theorem refused_of_unrecorded (hstatus : entry.status = .success)
    (h : settleEntry env ctx acc entry = .ok acc')
    (hadm : admitEntry env ctx.height acc.state.ledger entry = some (u, w))
    (hnone : acc'.state.getSettledTask entry.taskId = none) :
    ∃ s ia fee, Billed env ctx acc entry u w s ia fee ∧
    PayoutRefused env ctx entry u w s ia fee := by
  cases settleEntry_path h with
  | rejected reject => exact nomatch reject.symm.trans hadm
  | audited => exact nomatch getSettledTask_park.symm.trans hnone
  | refused _ _ s ia fee billed refused =>
    cases billed.admitted.symm.trans hadm
    exact ⟨s, ia, fee, billed, refused⟩
  | success _ _ _ _ _ billed _ _ settled =>
    obtain ⟨recorded, hrecord⟩ := settleSuccess_record billed.denom settled
    exact nomatch hrecord.symm.trans hnone
  | fail _ _ _ _ _ _ status => exact absurd hstatus status

end

/-! ## on the devnet -/

/-- The devnet before a batch. -/
def devAcc : BatchAcc := ⟨(devnet .default [("user", 1000)]).state, 0, 0, 0⟩

/-- A success of a worker that may not be paid, with rows of verifiers. -/
def devUnpayable (verifiers : List String) : SettlementEntry :=
  { devEntry [255] "user" 100 0 with
    workerAddress := "\x00"
    verifierResults := verifiers.map fun v => ⟨v, true, [], [], 0, 0⟩ }

/-- Without rows and without a reservation the entry leaves nothing. -/
theorem skipped_traceless_devnet :
    ∃ acc', settleEntry devEnv ⟨1, [], []⟩ devAcc (devUnpayable []) = .ok acc' ∧ (∃ s ia fee,
        Billed devEnv ⟨1, [], []⟩ devAcc (devUnpayable []) (devAddr "user") [0] s ia fee ∧
        PayoutRefused devEnv ⟨1, [], []⟩ (devUnpayable []) (devAddr "user") [0] s ia fee) ∧
      acc'.state = devAcc.state := by
  have hrun : ∃ acc', settleEntry devEnv ⟨1, [], []⟩ devAcc (devUnpayable []) = .ok acc' ∧
      acc'.state.getSettledTask [255] = none := by decide +kernel
  obtain ⟨acc', hacc', hnone⟩ := hrun
  have hskipped := refused_of_unrecorded rfl hacc' (u := devAddr "user") (w := [0])
    (by decide +kernel) hnone
  refine ⟨acc', hacc', hskipped, ?_⟩
  obtain ⟨s, ia, fee, billed, refused⟩ := hskipped
  refine (skipped_traceless_iff (by decide) billed refused hacc').mpr
    ⟨by decide +kernel, fun v hv => ?_, fun hper => ?_⟩
  · contradiction
  · contradiction

/-- A refused entry counts a verification of its verifier. -/
theorem skipped_entry_traced :
    ∃ acc', settleEntry devEnv ⟨1, [], []⟩ devAcc (devUnpayable ["x"]) = .ok acc' ∧ (∃ s ia fee,
        Billed devEnv ⟨1, [], []⟩ devAcc (devUnpayable ["x"]) (devAddr "user") [0] s ia fee ∧
        PayoutRefused devEnv ⟨1, [], []⟩ (devUnpayable ["x"]) (devAddr "user") [0] s ia fee) ∧
      devAcc.state.book.verifierEpochCount.get (devAddr "x") = none ∧
      acc'.state.book.verifierEpochCount.get (devAddr "x") = some 1 := by
  have hrun : ∃ acc', settleEntry devEnv ⟨1, [], []⟩ devAcc (devUnpayable ["x"]) = .ok acc' ∧
      acc'.state.getSettledTask [255] = none ∧
      acc'.state.book.verifierEpochCount.get (devAddr "x") = some 1 := by decide +kernel
  obtain ⟨acc', hacc', hnone, hcount⟩ := hrun
  exact ⟨acc', hacc', refused_of_unrecorded rfl hacc' (by decide +kernel) hnone,
    by decide +kernel, hcount⟩

end FunaiChain.Settlement
