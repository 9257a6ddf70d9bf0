import FunaiChain.P2p.Proposer

/-!
# FunaiChain.P2p.Settling

What the proposer clears against what the keeper settles.  An entry passes the gates of
`ProcessBatchSettlement` that do not look at the chain when some height and some ledger
admit it (`Settleable`).  The proposer clears a task whose request it never saw, and one
with two results after the timeout; the gates refuse both (`cleared_settleable_iff`).
-/

namespace FunaiChain.P2p

open Settlement (TaskId SettlementEntry Ledger admitEntry defaultDenom devHash)

variable {env : Env} {p : Proposer} {now : UInt64} {blockHash : Bytes}

/-! ## the gates -/

/-- The entry passes every gate that does not depend on the state of the chain. -/
def Settleable (env : Settlement.Env) (e : SettlementEntry) : Prop :=
  ∃ height l, (admitEntry env height l e).isSome = true

/-- The gates one by one. -/
theorem settleable_iff {env : Settlement.Env} {e : SettlementEntry} :
    Settleable env e ↔ e.nominal.denom = defaultDenom ∧ e.userSigHash ≠ [] ∧ e.workerSigHash ≠ [] ∧
    3 ≤ e.verifySigHashes.length ∧ (∀ h ∈ e.verifySigHashes, h ≠ []) ∧
    (env.accAddressFromBech32 e.userAddress).isSome = true ∧
    (env.accAddressFromBech32 e.workerAddress).isSome = true := by
  constructor
  · rintro ⟨height, l, h⟩
    obtain ⟨⟨u, w⟩, hr⟩ := Option.isSome_iff_exists.mp h
    have hadm := Settlement.admitEntry_eq_some hr
    rw [hadm.user, hadm.worker]
    refine ⟨hadm.denom, ?_, ?_, ?_, ?_, rfl, rfl⟩ <;> grind [admitEntry]
  · rintro ⟨hdenom, huser, hworker, hthree, hhashes, hu, hw⟩
    obtain ⟨u, hu⟩ := Option.isSome_iff_exists.mp hu
    obtain ⟨w, hw⟩ := Option.isSome_iff_exists.mp hw
    -- a fresh ledger with an account of the user, in the block of the expiry
    refine ⟨e.expireBlock, Ledger.empty.setInferenceAccount ⟨u, Coin.zero, Coin.zero⟩, ?_⟩
    have haccount := Ledger.getInferenceAccount_set .empty ⟨u, Coin.zero, Coin.zero⟩ u
    have hsettled : (Ledger.empty.setInferenceAccount
      ⟨u, Coin.zero, Coin.zero⟩).getSettledTask e.taskId = none := Table.get_empty _
    have hmark : (Ledger.empty.setInferenceAccount
      ⟨u, Coin.zero, Coin.zero⟩).hasFraudMark e.taskId = false := rfl
    unfold admitEntry
    rw [hu, hw]
    grind

/-! ## the proposer -/

/-- The evidence lets its task settle: the signed request of a user whose key gives an
address, a signed receipt of such a worker, and three signed results. -/
def TaskEvidence.Signed (env : Env) (ev : TaskEvidence) (receipt : InferReceipt) : Prop :=
  (∃ r, ev.request = some r ∧ r.userSignature ≠ [] ∧
    (env.chain.accAddressFromBech32 (env.pubkeyToBech32 r.userPubkey)).isSome = true) ∧
  receipt.workerSig ≠ [] ∧
  (env.chain.accAddressFromBech32 (env.pubkeyToBech32 receipt.workerPubkey)).isSome = true ∧
  3 ≤ (ev.verifiers.filter fun v => !v.signature.isEmpty).length

instance (ev : TaskEvidence) (receipt : InferReceipt) : Decidable (ev.Signed env receipt) :=
  inferInstanceAs (Decidable (_ ∧ _))

/-- **An entry can settle exactly if its evidence is signed.** -/
theorem settleable_settlementEntry (hsha : ∀ b, (env.chain.sha256 b).length = 32)
    {ev : TaskEvidence} {receipt : InferReceipt} :
    Settleable env.chain (p.settlementEntry env ev receipt) ↔ ev.Signed env receipt := by
  have hne : ∀ b, env.chain.sha256 b ≠ [] := fun b h => by simpa [h] using hsha b
  have hhashes : ∀ h ∈ (p.settlementEntry env ev receipt).verifySigHashes, h ≠ [] := by
    intro h hh
    obtain ⟨v, -, rfl⟩ := List.mem_map.mp hh
    exact hne _
  have hworker : (p.settlementEntry env ev receipt).workerSigHash ≠ [] ↔
      receipt.workerSig ≠ [] := by simp [Proposer.settlementEntry, hne]
  have hcount : (p.settlementEntry env ev receipt).verifySigHashes.length =
      (ev.verifiers.filter fun v => !v.signature.isEmpty).length := List.length_map _
  rw [settleable_iff, hworker, hcount]
  cases hr : ev.request with
  | none =>
    constructor
    · rintro ⟨-, huser, -⟩
      simp [Proposer.settlementEntry, hr] at huser
    · rintro ⟨⟨r, hr', -⟩, -⟩
      cases hr.symm.trans hr'
  | some r =>
    have hdenom : (p.settlementEntry env ev receipt).nominal.denom = defaultDenom := by
      simp only [SettlementEntry.nominal, SettlementEntry.isPerToken, Proposer.settlementEntry, hr,
        Option.elim_some]
      cases hper : r.isPerToken <;> simp_all [InferRequest.isPerToken]
    have huser : (p.settlementEntry env ev receipt).userSigHash ≠ [] ↔ r.userSignature ≠ [] := by
      simp [Proposer.settlementEntry, hr, hne]
    have haddress : (p.settlementEntry env ev receipt).userAddress =
        env.pubkeyToBech32 r.userPubkey := by simp [Proposer.settlementEntry, hr]
    rw [huser, haddress]
    constructor
    · rintro ⟨-, husig, hwsig, hthree, -, hu, hw⟩
      exact ⟨⟨r, hr, husig, hu⟩, hwsig, hw, hthree⟩
    · rintro ⟨⟨r', hr', husig, hu⟩, hwsig, hw, hthree⟩
      cases hr.symm.trans hr'
      exact ⟨hdenom, husig, hwsig, hthree, hhashes, hu, hw⟩

/-- **What a pass over the pending tasks clears can settle** exactly if the evidence of its
task is signed. -/
theorem cleared_settleable_iff (hsha : ∀ b, (env.chain.sha256 b).length = 32)
    {order audits : List TaskId} {p' : Proposer} {e : SettlementEntry}
    (h : p.processPending env now blockHash order = .ok (p', audits)) (he : e ∈ p'.clearedTasks) :
    e ∈ p.clearedTasks ∨ ∃ ev receipt, p.pendingTasks.get e.taskId = some ev ∧
      ev.receipt = some receipt ∧ (Settleable env.chain e ↔ ev.Signed env receipt) := by
  -- the evidence that is left is what it was
  refine (foldlM_invariant (P := fun acc : Proposer × List TaskId =>
    (∀ key ev, acc.1.pendingTasks.get key = some ev → p.pendingTasks.get key = some ev) ∧
      ∀ e ∈ acc.1.clearedTasks, e ∈ p.clearedTasks ∨ ∃ ev receipt,
        p.pendingTasks.get e.taskId = some ev ∧ ev.receipt = some receipt ∧
          (Settleable env.chain e ↔ ev.Signed env receipt))
    ?_ ⟨fun _ _ h => h, fun _ h => .inl h⟩ h).2 e he
  rintro ⟨q, _⟩ ⟨q', _⟩ key hkey ⟨hleft, hcleared⟩ hturn
  have herase : ∀ key a ev, (q.pendingTasks.erase key).get a = some ev →
      p.pendingTasks.get a = some ev := by
    intro key a ev hget
    rw [Table.get_erase] at hget
    split at hget
    · cases hget
    · exact hleft a ev hget
  cases (Proposer.processTask_moves hkey).get hturn with
  | note message => exact absurd rfl (message _ _ _)
  | tune => exact ⟨hleft, hcleared⟩
  | expires | audits => exact ⟨herase _, hcleared⟩
  | @clears _ _ _ _ ev receipt found received =>
    obtain rfl := Table.law_of_get found receipt received
    refine ⟨herase _, List.forall_mem_append.mpr ⟨hcleared, ?_⟩⟩
    rw [List.forall_mem_singleton]
    exact .inr ⟨ev, receipt, hleft _ _ found, received, settleable_settlementEntry hsha⟩

/-! ## a node whose keys have addresses -/

def devKeyed : Env := { devEnv with hexEncode := fun _ => "a", keyAddress := fun _ => "a" }

/-- A signed request and a signed receipt, and the results of some verifiers. -/
def devEvidence (verifiers : List UInt8) : List Event :=
  let req : InferRequest := ⟨[], [], 100, 0, 0, [1], [1], 0, 0⟩
  .request req :: .receipt 0 { devReceipt (req.taskId devKeyed) with workerSig := [1] } ::
    verifiers.map fun k => .verifyResult (devResult (req.taskId devKeyed) k)

/-- With three signed results the task is cleared, and the chain would settle its entry. -/
theorem cleared_settleable_devnet :
    ∃ n, Trace (Node.step devKeyed) (fun _ _ => True) (.new "" 0) (devEvidence [1, 2, 3]) n ∧
      ∃ r, n.proposer.processPending devKeyed 0 [] [devHash 1] = .ok r ∧
        ∃ e ∈ r.1.clearedTasks, Settleable devKeyed.chain e := by
  obtain ⟨n, hrun, ⟨⟨p', audits⟩, h, hids, ev, hev, receipt, hr, hsigned⟩, hold⟩ :
      ∃ n, Trace (Node.step devKeyed) (fun _ _ => True) (.new "" 0) (devEvidence [1, 2, 3]) n ∧
        (∃ r, n.proposer.processPending devKeyed 0 [] [devHash 1] = .ok r ∧
          r.1.clearedTasks.map (·.taskId) = [devHash 1] ∧
          ∃ ev, n.proposer.pendingTasks.get (devHash 1) = some ev ∧
            ∃ receipt, ev.receipt = some receipt ∧ ev.Signed devKeyed receipt) ∧
        n.proposer.clearedTasks = [] := by decide +kernel
  obtain ⟨e, he, hid⟩ := List.mem_map.mp (hids ▸ List.mem_singleton_self _)
  refine ⟨n, hrun, _, h, e, he, ?_⟩
  have hsha : ∀ b, (devKeyed.chain.sha256 b).length = 32 := by
    simp [devKeyed, devEnv, Settlement.devEnv]
  obtain hmem | ⟨ev', receipt', hev', hr', hiff⟩ := cleared_settleable_iff hsha h he
  · grind
  · grind

/-- **A task with two results is cleared after the timeout, and no chain settles it.** -/
theorem two_results_never_settle : ∃ n, Trace (Node.step devKeyed) (fun _ _ => True) (.new "" 0)
        (devEvidence [1, 2] ++ [.processPending 300000 [] [devHash 1]]) n ∧
      ∃ e ∈ n.cleared, ¬ Settleable devKeyed.chain e := by
  refine exists_and_imp (q := fun n => ∃ e ∈ n.cleared, e.verifySigHashes.length < 3)
    (by decide +kernel) ?_
  rintro n hrun ⟨e, he, hfew⟩
  exact ⟨e, he, fun h => absurd (settleable_iff.mp h).2.2.2.1 (by omega)⟩

end FunaiChain.P2p
