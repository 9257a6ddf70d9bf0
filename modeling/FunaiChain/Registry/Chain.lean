import FunaiChain.Registry.Keeper
import FunaiChain.Lib.Trace
import FunaiChain.App.Chain

/-!
# FunaiChain.Registry.Chain

The runs of the worker module: transactions with the messages of the three modules,
calls of the keeper by settlement, transfers between other accounts, and the ends of
blocks.  The validators are those that applying all updates of the EndBlocks so far
gives, where a power of zero removes a key.

On a devnet an address is the characters of its string, and whoever has an address of
20 bytes signs; a score is the negated stake, so that more stake ranks first; no string
is a bech32 key.
-/

namespace FunaiChain.Registry

open Modelreg (ModelId)

/-! ## transactions -/

inductive Msg
  | registerWorker (msg : MsgRegisterWorker)
  | exitWorker (msg : MsgExitWorker)
  | updateModels (msg : MsgUpdateModels)
  | addStake (msg : MsgStake)
  | unjail (msg : MsgUnjail)
  | proposeModel (msg : Modelreg.MsgModelProposal)
  | updateModelStats (msg : Modelreg.MsgUpdateModelStats)
  | declareInstalled (msg : Modelreg.MsgDeclareInstalled)
  | submitVRFProof (creator : String) (proof value : Bytes)
  | leaderHeartbeat (creator : String) (modelId : ModelId)
  deriving DecidableEq

/-- The account that must sign; what the authority sends is executed by governance. -/
def Msg.signer : Msg → Option String
  | .registerWorker msg => some msg.creator
  | .exitWorker msg => some msg.creator
  | .updateModels msg => some msg.creator
  | .addStake msg => some msg.creator
  | .unjail msg => some msg.creator
  | .proposeModel msg => some msg.creator
  | .updateModelStats _ => none
  | .declareInstalled msg => some msg.creator
  | .submitVRFProof _ _ _ => none
  | .leaderHeartbeat creator _ => some creator

section Execution
variable (env : Env)

/-- The signer reads as an account in whose name messages arrive. -/
def checkSigner (msg : Msg) : Except Fault Unit :=
  match msg.signer with
  | none => .ok ()
  | some creator => do
      let a ← creatorAddress env creator
      ensure (env.signs a) .unsigned

variable (block : Vrf.Block) (s : State)

/-- A message of the model registry. -/
def modelregMsg (r : Except Modelreg.Err Modelreg.State) : Except Fault State := do
  let m ← r.mapError .modelreg
  return { s with modelreg := m }

/-- A message of the VRF module. -/
def vrfMsg (r : Except Vrf.Err Vrf.State) : Except Fault State := do
  let v ← r.mapError .vrf
  return { s with vrf := v }

/-- `ValidateBasic` and the handler of a message. -/
def handle : Msg → Except Fault State
  | .registerWorker msg => do
      msg.validateBasic env
      registerWorker env block.height s msg
  | .exitWorker msg => exitWorker env block.height s msg
  | .updateModels msg => do
      msg.validateBasic env
      updateModels env s msg
  | .addStake msg => do
      msg.validateBasic env
      addStake env block.height s msg
  | .unjail msg => unjail env block.height s msg
  | .proposeModel msg => modelregMsg s do
      msg.validateBasic env.toModelreg
      Modelreg.proposeModel env.toModelreg block.height s.modelreg msg
  | .updateModelStats msg => modelregMsg s do
      msg.validateBasic env.toModelreg
      Modelreg.updateModelStats env.toModelreg block.height s.modelreg msg
  | .declareInstalled msg => do
      (msg.validateBasic env.toModelreg).mapError .modelreg
      let refreshed ← (Modelreg.declareInstalled env.toModelreg s.workerKeeper block.height
        s.modelreg msg).mapError .modelreg
      let m ← refreshed.mapError .panicked
      return { s with modelreg := m }
  | .submitVRFProof creator proof value => vrfMsg s do
      Vrf.validateVRFProof proof value
      Vrf.submitVRFProof env.toVrf block s.vrf creator value
  | .leaderHeartbeat creator modelId => do
      let a ← creatorAddress env creator
      vrfMsg s do
        ensure (modelId != []) (.invalidModelId "model id cannot be empty")
        Vrf.updateLeaderHeartbeat block s.vrf modelId a

/-- A transaction: the signer, then the message. -/
def deliver (msg : Msg) : Except Fault State := do
  checkSigner env msg
  handle env block s msg

/-! ## calls of the keeper by settlement -/

inductive Call
  | jailWorker (addr : Addr)
  | slashWorker (addr : Addr) (percent : UInt32)
  | slashWorkerTo (addr : Addr) (percent : UInt32) (recipient : Addr)
  | tombstoneWorker (addr : Addr)
  /-- A fraud proof: the clawback from the worker, then the slash and the tombstone. -/
  | fraudProof (addr : Addr) (clawback : Option (Addr × Coin)) (reporter : Option Addr)
  | incrementSuccessStreak (addr : Addr)
  | updateWorkerStats (addr : Addr) (feeEarned : Coin)
  | reputationOnAccept (addr : Addr)
  | updateAvgLatency (addr : Addr) (latencyMs : UInt32)
  | recordModelTask (modelID : ModelId) (fee latencyMs : UInt64)
  deriving DecidableEq

/-- A transfer that leaves the account of the worker module alone; a refused one
changes nothing. -/
def transfer (b : Bank) (src dst : Addr) (c : Coin) : Bank :=
  if src = env.workerAccount ∨ dst = env.workerAccount ∨ c.amount < 0 then b
  else (env.sendCoins b src dst c).getD b

/-- The clawback of a fraud proof; only a positive coin is sent. -/
def clawback (b : Bank) (addr : Addr) : Option (Addr × Coin) → Bank
  | none => b
  | some (refund, coin) =>
      if coin.amount ≤ 0 then b else (env.sendCoins b addr refund coin).getD b

def perform : Call → Exec State
  | .jailWorker addr => jailWorker env block.height s addr
  | .slashWorker addr percent => slashWorker env block.height s addr percent
  | .slashWorkerTo addr percent recipient =>
      slashWorkerTo env block.height s addr percent recipient
  | .tombstoneWorker addr => tombstoneWorker env block.height s addr
  | .fraudProof addr refund reporter => do
      let s := { s with world := { s.world with bank := clawback env s.world.bank addr refund } }
      let s ← slashWorkerInternal env block.height s addr 5 reporter
      tombstoneWorker env block.height s addr
  | .incrementSuccessStreak addr =>
      .ok { s with world := s.world.incrementSuccessStreak addr }
  | .updateWorkerStats addr feeEarned => do
      let w ← World.updateWorkerStats block.height s.world addr feeEarned
      return { s with world := w }
  | .reputationOnAccept addr => .ok { s with world := s.world.reputationOnAccept addr }
  | .updateAvgLatency addr latencyMs =>
      .ok { s with world := s.world.updateAvgLatency addr latencyMs }
  | .recordModelTask modelID fee latencyMs =>
      .ok { s with modelreg := Modelreg.recordModelTask s.modelreg modelID fee latencyMs }

/-! ## runs -/

/-- The chain: the stores, the current block and the validators. -/
structure Chain where
  state : State
  block : Vrf.Block
  validators : Store Bytes Int

inductive Event
  | tx (msg : Msg)
  | call (c : Call)
  | transfer (src dst : Addr) (c : Coin)
  /-- The EndBlock, and the beginning of the next block. -/
  | nextBlock (headerHash : Bytes)
  deriving DecidableEq

/-- An update of the validators: a power of zero removes the key. -/
def applyUpdate (validators : Store Bytes Int) (u : ValidatorUpdate) : Store Bytes Int :=
  if u.power = 0 then validators.erase u.pubkey else validators.put u.pubkey u.power

/-- What a transaction leaves: nothing of a failed one. -/
def settled {ε : Type} (r : Except ε State) : State := r.toOption.getD s

namespace Chain

/-- The block after the EndBlock. -/
def finish (c : Chain) : Exec Chain := do
  let (s, updates) ← endBlock env c.block c.state
  return { c with state := s, validators := updates.foldl applyUpdate c.validators }

/-- The beginning of the next block. -/
def begin (c : Chain) (headerHash : Bytes) : Exec Chain := do
  let block : Vrf.Block := ⟨c.block.height + 1, headerHash⟩
  let s ← beginBlock env block c.state
  return { c with state := s, block := block }

/-- One event. -/
def exec (c : Chain) : Event → Exec Chain
  | .tx msg => .ok { c with state := settled c.state (deliver env c.block c.state msg) }
  | .call call => .ok { c with state := settled c.state (perform env c.block c.state call) }
  | .transfer src dst coin =>
      .ok { c with state := { c.state with world := { c.state.world with
        bank := Registry.transfer env c.state.world.bank src dst coin } } }
  | .nextBlock headerHash => do
      let c ← c.finish env
      c.begin env headerHash

end Chain

/-- The runs whose steps meet a condition: events one after the other, none of which
stops the chain. -/
abbrev RunWith (ok : Chain → Event → Prop) : Chain → List Event → Chain → Prop :=
  Trace (Chain.exec env) ok

/-- All runs. -/
abbrev Run : Chain → List Event → Chain → Prop := RunWith env fun _ _ => True

end Execution

section Devnet
open Settlement (defaultDenom devAddr devSettlementAccount devWorkerAccount)
open App (devString devAddr_devString)

def devEnv : Env where
  accAddressFromBech32 := fun s => if s = "" then none else some (devAddr s)
  settlementAccount := devSettlementAccount
  workerAccount := devWorkerAccount
  blockedAddr := fun a => a == devSettlementAccount || a == devWorkerAccount
  sendRefused := fun _ _ _ _ => false
  signs := fun a => a.length == 20
  settlement_blocked := Settlement.devEnv.settlement_blocked
  accounts_differ := fun h => absurd h (by decide)
  sha256 := fun b => (b ++ List.replicate 32 0).take 32
  floatRatio := fun a b => if b ≤ a then 1 else 0
  floatGE := fun a b => b ≤ a
  floatUnit := fun a => a ≤ 1
  score := fun _ _ w => -w.stake
  addressText := devString
  addressText_inj := fun a b h => by rw [← devAddr_devString a, h, devAddr_devString]
  authority := "gov"
  bech32Payload := fun _ => none
  worker_blocked := by decide
  signer_length := fun a h => by simpa using h
  bech32_length := fun s b h => by contradiction

/-- Every account that signs holds coins; a registration costs 100 of them, a jailing
lasts one or two blocks, an exit takes two, and two successes take a jailing off. -/
def devChain (height : Int) : Chain where
  state :=
    { world :=
        { bank := ⟨fun a d => if a.length = 20 ∧ d = defaultDenom then 1000 else 0⟩
          workers := Table.empty
          workerParams := ⟨1, 2, 5, 2⟩ }
      profiles := Table.empty
      modelIndex := Table.empty
      params := ⟨⟨defaultDenom, 100⟩, 2, 0⟩
      modelreg := ⟨Table.empty, Table.empty, Table.empty, ⟨1, 1, 1⟩⟩
      vrf := ⟨Table.empty, Table.empty, none, none, Vrf.Params.default⟩ }
  block := ⟨height, []⟩
  validators := Table.empty

theorem devChain_workers (height : Int) (a : Addr) :
    (devChain height).state.world.workers.get a = none := Table.get_empty a

theorem devChain_installed (height : Int) (key : Bytes) :
    (devChain height).state.modelreg.installed.has key = false :=
  congrArg Option.isSome (Table.get_empty key)

/-- The compressed key with this last byte. -/
def devKey (b : UInt8) : Bytes := 2 :: (List.replicate 31 0 ++ [b])

/-- A registration under a raw key. -/
def devRegister (creator : String) (b : UInt8) (models : List ModelId) : Event :=
  .tx (.registerWorker ⟨creator, devKey b, models, [b]⟩)

/-- A model that anyone may propose. -/
def devProposal : Modelreg.MsgModelProposal :=
  ⟨"alice@worker.example", "Model", "model", "w", "q", "r", 1, ⟨defaultDenom, 1⟩⟩

def devModel : ModelId := Modelreg.computeModelId devEnv.toModelreg "w" "q" "r"

/-- A worker registers for the model, which is proposed, and declares it installed. -/
def devDeclared (creator : String) (b : UInt8) : List Event :=
  [devRegister creator b [devModel], .tx (.proposeModel devProposal),
    .tx (.declareInstalled ⟨creator, devModel⟩)]

end Devnet

end FunaiChain.Registry
