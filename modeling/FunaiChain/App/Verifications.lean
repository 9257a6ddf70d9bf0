import FunaiChain.App.Halting
import FunaiChain.Settlement.Verifications

/-!
# FunaiChain.App.Verifications

The verification counts that the rewards are paid by, against the tasks that
were verified: those that were settled or fail-settled since the counters were
last cleared (`CreditRun`).

The counts agree with the tasks in runs whose batches are credited entry by
entry (`verifier_credit`).  They do not agree in general: an entry counts its
rows before its payout can be refused, a row counts as often as it is written,
and an audited task is settled without counting anybody
(`uncredited_verifications`).
-/

namespace FunaiChain.App

open Settlement (Credited TaskId devAddr)

variable {env : Env} {a : Addr} {P : Chain → Event env → Prop} {c₀ c c' : Chain}
  {T : Finset TaskId}

/-! ## runs with the tasks of an account -/

/-- Does the event clear the counters? -/
def Event.clearsCounters (c : Chain) : Event env → Bool
  | .block _ _ _ =>
      (Settlement.endBlock env.toEnv c.ctx c.state.settlement).toOption.any fun settlement =>
        clears c.ctx { c.state with settlement := settlement }
  | _ => false

/-- The settled and fail-settled tasks that list the account. -/
def State.verifiedBy (env : Env) (a : Addr) (s : State) : Finset TaskId :=
  s.settlement.ledger.verifiedBy env.toEnv a

/-- What an event makes of the tasks since the counters were last cleared, from
those before it. -/
def nextTasks (a : Addr) (ev : Event env) (c c' : Chain) (T : Finset TaskId) : Finset TaskId :=
  if ev.clearsCounters c then ∅
  else T ∪ (c'.state.verifiedBy env a \ c.state.verifiedBy env a)

theorem nextTasks_of_subset {ev : Event env} (hclears : ev.clearsCounters c = false)
    (hsubset : c'.state.verifiedBy env a ⊆ c.state.verifiedBy env a) :
    nextTasks a ev c c' T = T := by
  rw [nextTasks, hclears, Finset.sdiff_eq_empty_iff_subset.mpr hsubset, Finset.union_empty]
  rfl

/-- The runs whose every event meets a condition, with the tasks of an account
that were settled since the counters were last cleared. -/
inductive CreditRun (env : Env) (P : Chain → Event env → Prop) (a : Addr) (c₀ : Chain) :
    Chain → Finset TaskId → Prop
  | start : CreditRun env P a c₀ c₀ ∅
  | step {c c' : Chain} {T : Finset TaskId} (run : CreditRun env P a c₀ c T) (ev : Event env)
      (cond : P c ev) (next : c.step env ev = some c') :
      CreditRun env P a c₀ c' (nextTasks a ev c c' T)

theorem CreditRun.run (h : CreditRun env P a c₀ c T) : Run env P c₀ c := by
  induction h with
  | start => exact .start
  | step _ ev cond next ih => exact .step ih ev cond next

/-- Every run determines the tasks of every account. -/
theorem Run.credit (h : Run env P c₀ c) (a : Addr) : ∃ T, CreditRun env P a c₀ c T := by
  induction h with
  | start => exact ⟨∅, .start⟩
  | step _ ev cond next ih =>
    obtain ⟨T, hrun⟩ := ih
    exact ⟨_, .step hrun ev cond next⟩

/-- The chain and the tasks that a list of events leads to. -/
def Chain.execTasks (env : Env) (a : Addr) (c : Chain) (T : Finset TaskId) :
    List (Event env) → Option (Chain × Finset TaskId)
  | [] => some (c, T)
  | ev :: evs => (c.step env ev).bind fun c' => c'.execTasks env a (nextTasks a ev c c' T) evs

theorem CreditRun.of_exec {evs : List (Event env)} (hP : ∀ c ev, P c ev)
    (run : CreditRun env P a c₀ c T) {r : Chain × Finset TaskId}
    (h : c.execTasks env a T evs = some r) : CreditRun env P a c₀ r.1 r.2 := by
  induction evs generalizing c T with
  | nil =>
    cases h
    exact run
  | cons ev _ ih =>
    obtain ⟨c', hstep, h⟩ := Option.bind_eq_some_iff.mp h
    exact ih (.step run ev (hP c ev) hstep) h

/-- A property found by executing events is a property of a reachable state and
its tasks. -/
theorem CreditRun.exists_of_exec {q : Chain → Finset TaskId → Prop} [∀ c T, Decidable (q c T)]
    (evs : List (Event env)) (h : (c₀.execTasks env a ∅ evs).any (fun r => q r.1 r.2) = true) :
    ∃ c T, CreditRun env (fun _ _ => True) a c₀ c T ∧ q c T := by
  cases hr : c₀.execTasks env a ∅ evs with
  | none => simp [hr] at h
  | some r =>
    exact ⟨r.1, r.2, .of_exec (fun _ _ => trivial) .start hr, by simpa [hr] using h⟩

/-! ## credit along a run -/

/-- Batches name one timely expiry for each task and are credited entry by
entry. -/
def CreditedBatches (env : Env) (expiry : TaskId → Int) (c : Chain) : Event env → Prop
  | .tx msg =>
      Settlement.TimelyBatches expiry c.settlement (.tx msg) ∧
        Settlement.MsgCredited env.toEnv c.ctx c.state.settlement msg
  | _ => True

theorem clearsCounters_block {settlement : Settlement.State} (ctx : Settlement.Ctx)
    (info : BlockInfo env) (order : MapOrder)
    (h : Settlement.endBlock env.toEnv c.ctx c.state.settlement = .ok settlement) :
    (Event.block ctx info order).clearsCounters c =
      clears c.ctx { c.state with settlement := settlement } := by
  rw [Event.clearsCounters, h]
  rfl

variable {expiry : TaskId → Int}

/-- **The credit of a run**: the count of every account is that of its tasks. -/
theorem CreditRun.credited (hgenesis : AtGenesis env c₀)
    (run : CreditRun env (CreditedBatches env expiry) a c₀ c T) :
    Credited env.toEnv expiry a c.ctx.height c.state.settlement T := by
  induction run with
  | start => exact hgenesis.settlement.credited expiry a
  | @step c c' T run ev cond next ih =>
    have hwf := run.run.wellFormed hgenesis
    cases ev with
    | tx =>
      cases next
      exact ih.deliver hwf cond.1 cond.2
    | outside =>
      cases next
      rw [nextTasks_of_subset]
      · exact ih.congr rfl rfl rfl rfl
      · rfl
      · exact fun _ => id
    | block ctx info order =>
      obtain ⟨settlement, s, hheight, hsettlement, hreward, rfl⟩ := Chain.of_step_block next
      obtain ⟨hsubset, hended⟩ := ih.endBlock hwf hheight hsettlement
      have hrewarded := rewardEndBlock_rewarded hreward
      have hclears := clearsCounters_block ctx info order hsettlement
      cases hcleared : clears c.ctx { c.state with settlement := settlement } with
      | true =>
        rw [nextTasks, if_pos (hclears.trans hcleared), settlement_accumulateBlockSigners]
        refine hended.cleared hrewarded.params hrewarded.ledger ?_
        rw [hrewarded.book, if_pos hcleared]
        exact Table.get_empty ..
      | false =>
        rw [nextTasks_of_subset (hclears.trans hcleared)]
        · rw [settlement_accumulateBlockSigners]
          refine hended.congr rfl hrewarded.params hrewarded.ledger ?_
          rw [hrewarded.book, if_neg (by simp [hcleared])]
        · rw [State.verifiedBy, settlement_accumulateBlockSigners, hrewarded.ledger]
          exact hsubset

/-- **Verifier credit** in a run whose batches are credited entry by entry: when
the rewards are computed, after the settlement module ended the block, the count
of every account is the number of tasks that were settled or fail-settled since
the counters were last cleared and list the account. -/
theorem verifier_credit (hgenesis : AtGenesis env c₀)
    (run : CreditRun env (CreditedBatches env expiry) a c₀ c T) {settlement : Settlement.State}
    (hend : Settlement.endBlock env.toEnv c.ctx c.state.settlement = .ok settlement) :
    ((settlement.book.verifierEpochCount.get a).getD 0).toNat =
      (T ∪ (settlement.ledger.verifiedBy env.toEnv a \ c.state.verifiedBy env a)).card %
        2 ^ 64 := by
  obtain ⟨hsubset, hended⟩ := (run.credited hgenesis).endBlock (run.run.wellFormed hgenesis)
    (Int.lt_succ c.ctx.height) hend
  rw [State.verifiedBy, Finset.sdiff_eq_empty_iff_subset.mpr hsubset, Finset.union_empty,
    hended.count, UInt64.toNat_ofNat']

/-! ## on the devnet -/

/-- The devnet pays everybody but the module accounts. -/
theorem devEnv_pays {b : Addr} (h : devModule b = false) : devEnv.toEnv.Accepts b :=
  ⟨h, fun _ _ => rfl⟩

/-- An entry with two verifiers that is settled at once. -/
theorem devVerified_credited : Settlement.EntryCredited devEnv.toEnv ⟨100, [], []⟩
    (devChain 100 [("user", 1000)]).state.settlement (devVerified [255] ["x", "y"]) := by
  intro u w hadm
  have hadm' : Settlement.admitEntry devEnv.toEnv 100
      (devChain 100 [("user", 1000)]).state.settlement.ledger (devVerified [255] ["x", "y"]) =
        some (devAddr "user", devAddr "worker") := by decide +kernel
  cases hadm'.symm.trans hadm
  refine .inr ⟨?_, by decide +kernel, fun _ fee hfee => ?_, fun hfail => absurd rfl hfail⟩
  · have hforced : Settlement.forceSecondVerification Settlement.Params.default
        (devVerified [255] ["x", "y"]) = false := by decide +kernel
    have hrate' : Settlement.auditRate (devChain 100 [("user", 1000)]).state.settlement
        (devVerified [255] ["x", "y"]) = .ok 100 := by decide +kernel
    have hdrawn : Settlement.shouldTriggerSecondVerification devEnv.toEnv ⟨100, [], []⟩ [255] 100 =
        false := by decide +kernel
    rintro (h | ⟨rate, hrate, h⟩)
    · exact absurd (hforced.symm.trans h) (by decide)
    · cases hrate'.symm.trans hrate
      exact absurd (hdrawn.symm.trans h) (by decide)
  · have hfee' : Settlement.actualFee (devChain 100 [("user", 1000)]).state.settlement.params
        (devVerified [255] ["x", "y"]) = .ok ⟨Settlement.defaultDenom, 100⟩ := by decide +kernel
    cases hfee'.symm.trans hfee
    refine ⟨by decide +kernel, devEnv_pays (by decide), ?_, by decide +kernel, by decide +kernel,
      by decide +kernel⟩
    intro v hv b hb
    have hv : v ∈ ["x", "y"] := hv
    simp only [List.mem_cons, List.not_mem_nil, or_false] at hv
    obtain rfl | rfl := hv <;> obtain rfl := Option.some.inj hb
    all_goals exact devEnv_pays (by decide)

/-- Two verifiers of a task that is settled, at the last block of an epoch. -/
theorem verifier_credit_devnet : ∃ c T settlement,
      CreditRun devEnv (CreditedBatches devEnv fun _ => 0) (devAddr "x")
        (devChain 100 [("user", 1000)]) c T ∧
      Settlement.endBlock devEnv.toEnv c.ctx c.state.settlement = .ok settlement ∧
      epochEnds c.ctx { c.state with settlement := settlement } = true ∧ T = {[255]} ∧
      ((settlement.book.verifierEpochCount.get (devAddr "x")).getD 0).toNat =
        (T ∪ (settlement.ledger.verifiedBy devEnv.toEnv (devAddr "x") \
          c.state.verifiedBy devEnv (devAddr "x"))).card % 2 ^ 64 := by
  have hgenesis : AtGenesis devEnv (devChain 100 [("user", 1000)]) :=
    atGenesis_devChain (by decide) (by decide)
  have hcond : CreditedBatches devEnv (fun _ => 0) (devChain 100 [("user", 1000)])
      (devBatch [devVerified [255] ["x", "y"]]) :=
    ⟨by decide +kernel, devVerified_credited, fun _ _ => trivial⟩
  have hrun := CreditRun.step (P := CreditedBatches devEnv fun _ => 0) (a := devAddr "x") .start
    (devBatch [devVerified [255] ["x", "y"]]) hcond rfl
  have hend : ∃ settlement, Settlement.endBlock devEnv.toEnv ⟨100, [], []⟩
      (Settlement.deliver devEnv.toEnv ⟨100, [], []⟩
        (devChain 100 [("user", 1000)]).state.settlement
        (devMsg [devVerified [255] ["x", "y"]])) = .ok settlement ∧
      (epochEnds ⟨100, [], []⟩ { (devChain 100 [("user", 1000)]).state with
        settlement := settlement } = true) := by decide +kernel
  obtain ⟨settlement, hend, hboundary⟩ := hend
  exact ⟨_, _, settlement, hrun, hend, hboundary, by decide +kernel,
    verifier_credit hgenesis hrun hend⟩

/-- What the rewards of a block are computed from: the state that the settlement
module leaves, the count of an account and its tasks. -/
def boundary (env : Env) (a : Addr) (c : Chain) (T : Finset TaskId) :
    Option (Bool × Nat × Finset TaskId) :=
  match Settlement.endBlock env.toEnv c.ctx c.state.settlement with
  | .error _ => none
  | .ok settlement =>
      some (epochEnds c.ctx { c.state with settlement := settlement },
        ((settlement.book.verifierEpochCount.get a).getD 0).toNat,
        T ∪ (settlement.ledger.verifiedBy env.toEnv a \ c.state.verifiedBy env a))

/-- Rows that are counted twice and an entry that is skipped give extra credit;
a task that is audited and settled at its timeout gives none. -/
theorem uncredited_verifications : AtGenesis devEnv (devChain 100 [("user", 1000)]) ∧
    (∃ c T, CreditRun devEnv (fun _ _ => True) (devAddr "x") (devChain 100 [("user", 1000)]) c T ∧
      boundary devEnv (devAddr "x") c T = some (true, 3, {[255]})) ∧
    ∃ c T, CreditRun devEnv (fun _ _ => True) (devAddr "x") (devChain 100 [("user", 1000)]) c T ∧
      boundary devEnv (devAddr "x") c T = some (true, 0, {[16]}) := by
  refine ⟨atGenesis_devChain (by decide) (by decide), ?_, ?_⟩
  · exact CreditRun.exists_of_exec
      [devBatch [devVerified [255] ["x", "x"], devVerified [254] ["x", "\x00"]]]
      (by decide +kernel)
  · exact CreditRun.exists_of_exec [devBatch [devVerified [16] ["x"]], devBlock 20000]
      (by decide +kernel)

end FunaiChain.App
