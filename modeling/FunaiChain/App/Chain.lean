import FunaiChain.App.Epoch
import FunaiChain.Reward.Order
import FunaiChain.Settlement.Records

/-!
# FunaiChain.App.Chain

Runs of the application: transactions of the settlement module, changes made by other
modules, and blocks.

At the end of a block the settlement module runs first and the reward module last; an
error or a panic of either halts the chain.  The next block begins by counting the
validators that signed.  In an epoch's last block the reward module mints and clears
the counters, which for the settlement module is a change from outside: every run of
the application is a run of the settlement chain (`Run.settlement`).  So the ledger is
sound while the whole application runs (`ledger_sound`).

A devnet is that of `Settlement.Devnet` with a third module account, addresses written
as the characters of their bytes, and validators everywhere but at the module accounts.
-/

namespace FunaiChain.App

section
open Settlement (Ctx Msg)
variable {c c₀ : Chain} {s s' : State} {order : MapOrder}

/-! ## the signers of a block -/

/-- What a validator did with the last block. -/
structure Vote where
  validator : Addr
  blockIDFlag : Int

/-- What consensus tells a block: the votes, unless there is no comet info, and
the proposer. -/
structure BlockInfo (env : Env) where
  votes : Option (List Vote)
  proposer : Addr
  voters : ∀ v ∈ votes.getD [], env.validates v.validator = true
  proposes : proposer ≠ [] → env.validates proposer = true

def incrementBlockSignerCount (signers : Store String UInt64) (validatorAddr : String) :
    Store String UInt64 :=
  signers.put validatorAddr ((signers.get validatorAddr).getD 0 + 1)

section Step
variable (env : Env)

/-- `AccumulateBlockSigners`: the validators whose flag is `BlockIDFlagCommit`,
or the proposer when there are none. -/
def accumulateBlockSigners (info : BlockInfo env) (s : State) : State :=
  match info.votes with
  | none => s
  | some votes =>
      let signed := votes.filter fun v => v.blockIDFlag = 2
      let signers := signed.foldl
        (fun signers v => incrementBlockSignerCount signers (env.addressString v.validator))
        s.blockSigners
      let signers :=
        if signed.isEmpty && !info.proposer.isEmpty then
          incrementBlockSignerCount signers (env.addressString info.proposer)
        else signers
      { s with blockSigners := signers }

/-! ## events -/

/-- A change made by other modules.  The counters are not among it: besides the
settlement module only the callbacks write them. -/
structure Outside where
  /-- The new balances; for the settlement account what it receives. -/
  balances : Addr → String → Nat
  workers : Table Addr Worker fun a w => w.address = a
  workerParams : WorkerParams
  supply : Int

/-- The change as the settlement module sees it. -/
def Outside.settlement (o : Outside) (b : Settlement.Book) : Settlement.Outside where
  balances := o.balances
  workers := o.workers
  workerParams := o.workerParams
  verifierEpochCount := b.verifierEpochCount
  secondVerifierEpochCount := b.secondVerifierEpochCount
  verifierEpochFee := b.verifierEpochFee
  secondVerifierEpochFee := b.secondVerifierEpochFee

structure Chain where
  ctx : Ctx
  state : State

/-- The chain of the settlement module. -/
def Chain.settlement (c : Chain) : Settlement.Chain := ⟨c.ctx, c.state.settlement⟩

inductive Event
  | tx (msg : Msg)
  | outside (o : Outside)
  /-- The end of the current block, and the next one. -/
  | block (next : Ctx) (info : BlockInfo env) (order : MapOrder)

/-- The end of a block: the settlement module, then the reward module.  The
answer is `none` when the chain halts. -/
def endBlock (ctx : Ctx) (order : MapOrder) (s : State) : Option State :=
  match Settlement.endBlock env.toEnv ctx s.settlement with
  | .error _ => none
  | .ok settlement => (rewardEndBlock env ctx order { s with settlement := settlement }).toOption

/-- One event; `none` when the chain halts or the next height is not higher. -/
def Chain.step (c : Chain) : Event env → Option Chain
  | .tx msg =>
      some { c with state := { c.state with
        settlement := Settlement.deliver env.toEnv c.ctx c.state.settlement msg } }
  | .outside o =>
      some { c with state := { c.state with
        settlement := Settlement.applyOutside env.toEnv c.state.settlement
          (o.settlement c.state.settlement.book)
        supply := o.supply } }
  | .block next info order =>
      if c.ctx.height < next.height then
        (endBlock env c.ctx order c.state).map fun s => ⟨next, accumulateBlockSigners env info s⟩
      else none

/-- The runs whose every event meets a condition on the chain before it. -/
abbrev Run (env : Env) (P : Chain → Event env → Prop) (c₀ : Chain) : Chain → Prop :=
  FunaiChain.Run (Chain.step env) P c₀

/-- A chain at its genesis: valid parameters, and only validators among the
signers of the first block. -/
structure AtGenesis (c : Chain) : Prop where
  settlement : Settlement.AtGenesis env.toEnv c.settlement
  params : c.state.rewardParams.validate = .ok ()
  signers : ∀ t n, c.state.blockSigners.get t = some n →
    ∃ a, env.validates a = true ∧ t = env.addressString a

end Step

variable {env : Env} {ctx : Ctx}

/-! ## the end of a block -/

/-- What the two modules do in a block. -/
theorem Chain.of_step_block {next : Ctx} {info : BlockInfo env} {c' : Chain}
    (h : c.step env (.block next info order) = some c') :
    ∃ settlement s, c.ctx.height < next.height ∧
      Settlement.endBlock env.toEnv c.ctx c.state.settlement = .ok settlement ∧
      rewardEndBlock env c.ctx order { c.state with settlement := settlement } = .ok s ∧
      c' = ⟨next, accumulateBlockSigners env info s⟩ := by
  simp only [Chain.step] at h
  split at h
  · next hheight =>
    obtain ⟨s, hblock, rfl⟩ := Option.map_eq_some_iff.mp h
    unfold endBlock at hblock
    split at hblock
    · cases hblock
    · next settlement hend =>
      exact ⟨settlement, s, hheight, hend, eq_ok_of_toOption hblock, rfl⟩
  · contradiction

/-- The epoch's counters are cleared in this block. -/
def clears (ctx : Ctx) (s : State) : Bool := epochEnds ctx s && verificationsCounted ctx s

/-- **What the reward EndBlock does to the settlement module**: it may give coins
to any account, and it clears the counters that it has used. -/
structure Rewarded (ctx : Ctx) (s s' : State) : Prop where
  params : s'.settlement.params = s.settlement.params
  ledger : s'.settlement.ledger = s.settlement.ledger
  book : s'.settlement.book =
    if clears ctx s then clearVerifierSecondVerifierEpochCounts s.settlement.book
    else s.settlement.book
  workers : s'.settlement.world.workers = s.settlement.world.workers
  workerParams : s'.settlement.world.workerParams = s.settlement.world.workerParams
  balance : ∀ a d, s.settlement.world.bank.balance a d ≤ s'.settlement.world.bank.balance a d
  rewardParams : s'.rewardParams = s.rewardParams
  signers : s'.blockSigners = if epochEnds ctx s then ∅ else s.blockSigners

theorem rewardEndBlock_rewarded (h : rewardEndBlock env ctx order s = .ok s') :
    Rewarded ctx s s' := by
  cases hends : epochEnds ctx s with
  | false =>
    simp only [rewardEndBlock, hends, Bool.not_false, if_true] at h
    cases h
    exact ⟨rfl, rfl, by simp [clears, hends], rfl, rfl, fun _ _ => le_refl _, rfl, by simp [hends]⟩
  | true =>
    rw [rewardEndBlock_eq order hends] at h
    obtain ⟨r, hdistribute, h⟩ := bind_eq_ok.mp h
    cases h
    have hclears : clears ctx s = verificationsCounted ctx s := by simp [clears, hends]
    have hparams : r.params = s.rewardParams := by
      obtain ⟨r₁, hpaid, rfl⟩ := Reward.distributeRewards_spec hdistribute
      exact hpaid.params
    exact ⟨rfl, rfl, by rw [hclears]; rfl, rfl, rfl,
      fun a d => Reward.distributeRewards_balance_le hdistribute a d, hparams,
      by rw [if_pos hends]; rfl⟩

theorem settlement_accumulateBlockSigners (info : BlockInfo env) (s : State) :
    (accumulateBlockSigners env info s).settlement = s.settlement := by
  unfold accumulateBlockSigners
  split <;> rfl

/-! ## the settlement chain inside the application -/

/-- The reward module as a change from outside. -/
def rewardsOutside (env : Env) (s s' : State) : Settlement.Outside where
  balances := fun a d =>
    if a = env.settlementAccount then
      s'.settlement.world.bank.balance a d - s.settlement.world.bank.balance a d
    else s'.settlement.world.bank.balance a d
  workers := s.settlement.world.workers
  workerParams := s.settlement.world.workerParams
  verifierEpochCount := s'.settlement.book.verifierEpochCount
  secondVerifierEpochCount := s'.settlement.book.secondVerifierEpochCount
  verifierEpochFee := s'.settlement.book.verifierEpochFee
  secondVerifierEpochFee := s'.settlement.book.secondVerifierEpochFee

theorem Rewarded.outside (h : Rewarded ctx s s')
    (hsigned : ∀ a, (s.settlement.world.workers.get a).isSome → env.signs a = true) :
    Settlement.applyOutside env.toEnv s.settlement (rewardsOutside env s s') = s'.settlement := by
  have hworkers : s.settlement.world.workers.filter (fun a _ => env.signs a) =
      s.settlement.world.workers :=
    Table.filter_eq_self fun a w hw => hsigned a (by rw [hw]; rfl)
  have hbank : (fun a d => if a = env.settlementAccount then
      s.settlement.world.bank.balance a d + (rewardsOutside env s s').balances a d
      else (rewardsOutside env s s').balances a d) = s'.settlement.world.bank.balance := by
    funext a d
    have hle := h.balance a d
    simp only [rewardsOutside]
    split
    · omega
    · rfl
  have hbook : { s.settlement.book with
      verifierEpochCount := s'.settlement.book.verifierEpochCount
      secondVerifierEpochCount := s'.settlement.book.secondVerifierEpochCount
      verifierEpochFee := s'.settlement.book.verifierEpochFee
      secondVerifierEpochFee := s'.settlement.book.secondVerifierEpochFee } =
      s'.settlement.book := by
    rw [h.book]
    split <;> rfl
  unfold Settlement.applyOutside
  rw [hbank]
  dsimp only [rewardsOutside]
  rw [hworkers, hbook, ← h.params, ← h.ledger, ← h.workers, ← h.workerParams]

/-- **The settlement chain**: every run of the application is one of its runs. -/
theorem Run.settlement {P : Chain → Event env → Prop}
    {Q : Settlement.Chain → Settlement.Event → Prop}
    (htx : ∀ c msg, P c (.tx msg) → Q c.settlement (.tx msg))
    (hend : ∀ c next, Q c (.endBlock next)) (hout : ∀ c o, Q c (.outside o))
    (hgenesis : AtGenesis env c₀) (run : Run env P c₀ c) :
    Settlement.Run env.toEnv Q c₀.settlement c.settlement := by
  induction run with
  | start => exact .start
  | @step c c' run ev cond next ih =>
    cases ev with
    | tx msg =>
      cases next
      exact .step ih (.tx msg) (htx c msg cond) rfl
    | outside =>
      cases next
      exact .step ih (.outside _) (hout _ _) rfl
    | block ctx =>
      obtain ⟨settlement, s, hheight, hsettlement, hreward, rfl⟩ := Chain.of_step_block next
      have hended : Settlement.Run env.toEnv Q c₀.settlement ⟨ctx, settlement⟩ := by
        refine .step ih (.endBlock ctx) (hend _ _) ?_
        simp [Settlement.Chain.step, Chain.settlement, hheight, hsettlement]
      have hwf := hended.wellFormed hgenesis.settlement
      have hrewarded := (rewardEndBlock_rewarded hreward).outside hwf.signed
      refine .step hended (.outside (rewardsOutside env
        { c.state with settlement := settlement } s)) (hout _ _) ?_
      simp [Settlement.Chain.step, hrewarded, Chain.settlement, settlement_accumulateBlockSigners]

theorem Run.wellFormed {P : Chain → Event env → Prop} (hgenesis : AtGenesis env c₀)
    (run : Run env P c₀ c) : Settlement.WellFormed env.toEnv c.state.settlement :=
  (run.settlement (Q := fun _ _ => True) (fun _ _ _ => trivial) (fun _ _ => trivial)
    (fun _ _ => trivial) hgenesis).wellFormed hgenesis.settlement

end

section
open Settlement (devAddr)
variable {a : Addr}

/-- The account of the reward module. -/
def devRewardAccount : Addr := [2]

/-- The module accounts. -/
def devModule (a : Addr) : Bool :=
  a == Settlement.devSettlementAccount || a == Settlement.devWorkerAccount || a == devRewardAccount

def devString (a : Addr) : String := String.ofList (a.map fun b => Char.ofNat b.toNat)

theorem devAddr_devString (a : Addr) : devAddr (devString a) = a := by
  have hsmall : ∀ n < 256, (Char.ofNat n).toNat = n := by decide +kernel
  have hbyte : ∀ b : UInt8, UInt8.ofNat (Char.ofNat b.toNat).toNat = b := fun b => by
    rw [hsmall _ b.toNat_lt, UInt8.ofNat_toNat]
  rw [devAddr, devString, String.toList_ofList, List.map_map]
  exact List.map_id'' (fun b => hbyte b) a

theorem devString_eq_empty (h : devString a = "") : a = [] := by
  rw [← devAddr_devString a, h]
  rfl

/-- The addresses of the devnet, read and written. -/
theorem devAddr_decodes {b : Addr}
    (h : Settlement.devEnv.accAddressFromBech32 (devString a) = some b) : b = a := by
  change (if devString a = "" then none else some (devAddr (devString a))) = some b at h
  split at h
  · cases h
  · rw [devAddr_devString] at h
    exact (Option.some.inj h).symm

theorem devString_decodes (h : a ≠ []) :
    Settlement.devEnv.accAddressFromBech32 (devString a) = some a := by
  change (if devString a = "" then none else some (devAddr (devString a))) = some a
  rw [if_neg fun he => h (devString_eq_empty he), devAddr_devString]

theorem devAddr_ne_nil {t : String} (h : Settlement.devEnv.accAddressFromBech32 t = some a) :
    a ≠ [] := by
  change (if t = "" then none else some (devAddr t)) = some a at h
  split at h
  · cases h
  next ht =>
  cases h
  intro hnil
  exact ht (String.toList_eq_nil_iff.mp (List.map_eq_nil_iff.mp hnil))

def devEnv : Env where
  toEnv := { Settlement.devEnv with
    blockedAddr := devModule
    signs := fun a => a != [] && !devModule a
    settlement_blocked := by decide }
  rewardAccount := devRewardAccount
  reward_blocked := by decide
  reward_differs := by decide
  addressString := devString
  workerString := devString
  decode_addressString := fun _ _ h => devAddr_decodes h
  encodable := fun _ _ h => devString_decodes (devAddr_ne_nil h)
  decode_workerString := fun a h => devString_decodes (by simpa using (Bool.and_eq_true_iff.mp h).1)
  validates := fun a => a != [] && !devModule a
  validator_account := fun a h => by
    obtain ⟨hne, hmodule⟩ := Bool.and_eq_true_iff.mp h
    exact ⟨devString_decodes (by simpa using hne), by simpa using hmodule⟩

/-- The bank of the devnet refuses nothing but blocked recipients. -/
theorem devEnv_willing : Reward.Willing devEnv.reward := fun _ _ _ _ => rfl

/-! ## genesis and events -/

/-- The application at a height, with the accounts of a devnet. -/
def devChain (height : Int) (accounts : List (String × Nat)) : Chain where
  ctx := ⟨height, [], []⟩
  state := {
    settlement := (Settlement.devnet .default accounts).state
    workerSnapshots := ∅
    epochContributions := ∅
    blockSigners := ∅
    rewardParams := .default
    rewardRecords := ∅
    supply := 0 }

theorem atGenesis_devChain {height : Int} {accounts : List (String × Nat)} (hheight : 0 < height)
    (hnodup : (accounts.map fun a => devAddr a.1).Nodup) :
    AtGenesis devEnv (devChain height accounts) where
  settlement := {
    height := hheight
    genesis := (Settlement.atGenesis_devnet Settlement.Params.default_valid hnodup).genesis
    signed := by
      intro a ha
      change (Settlement.devWorkers.get a).isSome at ha
      rw [Settlement.get_devWorkers] at ha
      split at ha
      · next he => rw [← he]; decide
      · simp at ha }
  params := Reward.Params.default_valid
  signers := by
    intro t n ht
    have hempty : (∅ : Store String UInt64).get t = some n := ht
    contradiction

/-- The order of the keys, and the opposite one. -/
def forwards : MapOrder := ⟨id, fun _ => .refl _⟩
def backwards : MapOrder := ⟨List.reverse, List.reverse_perm⟩

/-- A settlement batch signed by the worker. -/
def devMsg (entries : List Settlement.SettlementEntry) : Settlement.Msg :=
  .batchSettlement {
    proposer := "worker"
    merkleRoot := (Settlement.computeMerkleRoot devEnv.toEnv entries).getD []
    entries := entries
    proposerSig := [1]
    resultCount := Settlement.lenUInt32 entries }

def devBatch (entries : List Settlement.SettlementEntry) : Event devEnv := .tx (devMsg entries)

/-- The end of the block, with the next one at a height and without votes. -/
def devBlock (next : Int) : Event devEnv :=
  .block ⟨next, [], []⟩ ⟨none, [], by simp, by simp⟩ forwards

end

variable {env : Env} {c₀ c : Chain}

/-- **The records of an application are sound.**  In every run from genesis the addresses of all
records and pending audits decode, no record is from the future, the user of a pending audit has
an account, and a settled record is backed by a logged payment of its fee. -/
theorem ledger_sound {P : Chain → Event env → Prop} (hgenesis : AtGenesis env c₀)
    (run : Run env P c₀ c) :
    c.state.settlement.ledger.Genuine env.toEnv c.ctx.height ∧
      c.state.settlement.ledger.Claimed env.toEnv ∧
      c.state.settlement.ledger.Backed c₀.state.settlement.params := by
  have hrun := run.settlement (Q := fun _ _ => True) (fun _ _ _ => trivial)
    (fun _ _ => trivial) (fun _ _ => trivial) hgenesis
  obtain ⟨hparams, hbacked⟩ := hrun.backed hgenesis.settlement
  exact ⟨(hrun.genuine hgenesis.settlement).2, hrun.claimed hgenesis.settlement, hparams ▸ hbacked⟩

/-- A settled task, after the rewards of its epoch. -/
theorem ledger_sound_devnet : ∃ c, Run devEnv (fun _ _ => True) (devChain 99 [("user", 1000)]) c ∧
    (c.state.settlement.ledger.getSettledTask [255]).isSome = true ∧
      c.state.settlement.ledger.Backed (devChain 99 [("user", 1000)]).state.settlement.params := by
  refine exists_and_of (Run.exists_of_exec [devBatch [Settlement.devEntry [255] "user" 100 0],
    devBlock 100] (by decide +kernel)) fun c hrun _ => ?_
  exact (ledger_sound (atGenesis_devChain (by decide) (by decide)) hrun).2.2

end FunaiChain.App
