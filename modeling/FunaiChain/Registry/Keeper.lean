import FunaiChain.Modelreg.Index
import FunaiChain.Vrf.Keeper
import FunaiChain.Settlement.State

/-!
# FunaiChain.Registry.Keeper

The keeper and the message server of `x/worker`, with the callbacks into the model
registry, and what happens at the ends of a block.

The records of the workers live in a `World`, as settlement sees them; the fields that
only this module uses stand beside them in a `Profile`.  A stored text has gone through
JSON, which replaces what is not UTF-8.

Slashing, jailing and tombstoning are written out again here, because they notify the
model registry between their writes.  That they do to the records what
`FunaiChain.Worker.Keeper` says is proved in `FunaiChain.Registry.Refinement`.  A
transaction that fails or panics leaves no trace; a panic in a block hook stops the
chain.
-/

namespace FunaiChain.Registry

open Modelreg (ModelId)

section
variable {p : Profile} {b : Addr}

/-! ## types -/

/-- The fields of `types.Worker` that settlement does not use. -/
structure Profile where
  supportedModels : List ModelId
  exitRequestedAt : Int
  operatorId : String
  deriving DecidableEq, Repr

def Profile.unset : Profile := ⟨[], 0, ""⟩

/-- The parameters of registration and exit; the others are with the records. -/
structure EntryParams where
  minStake : Coin
  exitWaitPeriod : Int
  coldStartFreeBlocks : Int
  deriving DecidableEq, Repr

/-- The registered errors of the worker module. -/
inductive Sentinel
  | workerAlreadyRegistered
  | workerNotFound
  | insufficientStake
  | workerNotActive
  | workerTombstoned
  | invalidModels
  | exitWaitPeriod
  | workerNotJailed
  | jailPeriodNotElapsed
  | workerJailed
  deriving DecidableEq, Repr

abbrev Err := ModuleErr Sentinel

/-- `Params.Validate`. -/
def validate (wp : WorkerParams) (p : EntryParams) : Except Sentinel Unit := do
  ensure (p.minStake.isValid && !p.minStake.isZero) .insufficientStake
  ensure (0 < p.exitWaitPeriod) .exitWaitPeriod
  ensure (0 ≤ p.coldStartFreeBlocks) .exitWaitPeriod
  ensure (0 < wp.jail1Duration && 0 < wp.jail2Duration) .exitWaitPeriod
  ensure (wp.slashFraudPercent != 0 && wp.slashFraudPercent ≤ 100) .insufficientStake
  ensure (wp.jailDecayInterval != 0) .insufficientStake

/-- The stores of the three modules. -/
structure State where
  world : World
  profiles : Store Addr Profile
  modelIndex : Store Bytes Unit
  params : EntryParams
  modelreg : Modelreg.State
  vrf : Vrf.State

/-- What the modules use from outside, and what the application guarantees. -/
structure Env extends toModelreg : Modelreg.Env, toVrf : Vrf.Env where
  /-- The payload of `bech32.DecodeAndConvert`. -/
  bech32Payload : Bytes → Option Bytes
  /-- `blockedAddresses` of the application lists every module account. -/
  worker_blocked : blockedAddr workerAccount = true
  /-- Addresses are 20 bytes, those of keys and those of modules. -/
  signer_length : ∀ a, signs a = true → a.length = 20
  /-- The text of a payload is longer than the payload. -/
  bech32_length : ∀ s b, bech32Payload s = some b → b.length < s.length

namespace State

/-! ## records -/

variable (s : State) (addr : Addr)

/-- The other fields of a worker. -/
def profile : Profile := (s.profiles.get addr).getD .unset

/-- `SetWorker` of a changed record whose profile stays. -/
def setWorker (worker : Worker) : State :=
  { s with world := s.world.setWorker worker }

/-- `SetWorker` of a record with its profile. -/
def putWorker (worker : Worker) (p : Profile) : State :=
  { s with
    world := s.world.setWorker worker
    profiles := s.profiles.put worker.address p }

/-- `DeleteWorker`. -/
def deleteWorker : State :=
  { s with
    world := { s.world with workers := s.world.workers.erase addr }
    profiles := s.profiles.erase addr }

/-- `GetAllWorkers`, in the order of the store. -/
def getAllWorkers : List Worker := s.world.workers.entries.map Prod.snd

/-! ## the index of models -/

/-- `ModelIndexIteratorPrefix`. -/
def modelIndexIteratorPrefix (modelID : ModelId) : Bytes := [0x02] ++ modelID ++ [0x00]

/-- `ModelIndexKey`. -/
def modelIndexKey (modelID : ModelId) (addr : Addr) : Bytes := [0x02] ++ modelID ++ [0x00] ++ addr

/-- `SetModelIndices`. -/
def setModelIndices (models : List ModelId) : State :=
  { s with modelIndex := models.foldl (fun t m => t.put (modelIndexKey m addr) ()) s.modelIndex }

/-- `RemoveModelIndices`. -/
def removeModelIndices (models : List ModelId) : State :=
  { s with modelIndex := models.foldl (fun t m => t.erase (modelIndexKey m addr)) s.modelIndex }

/-- `GetWorkersByModel`. -/
def getWorkersByModel (modelID : ModelId) : List Worker :=
  let start := modelIndexIteratorPrefix modelID
  ((s.modelIndex.entries.map Prod.fst).filter fun key => start.isPrefixOf key).filterMap
    fun key => s.world.workers.get (key.drop start.length)

end State

namespace State

/-! ## what the model registry asks -/

variable (s : State) (addr : Addr)

/-- `IsWorkerActive`. -/
def isWorkerActive : Bool := (s.world.workers.get addr).any isActive

/-- `GetWorkerStake`. -/
def getWorkerStake : Int :=
  match s.world.workers.get addr with
  | none => 0
  | some worker => worker.stake.amount

/-- `GetWorkerOperatorId`. -/
def getWorkerOperatorId : String :=
  if s.world.workers.has addr then (s.profile addr).operatorId else ""

/-- `WorkerSupportsModel`. -/
def workerSupportsModel (modelId : ModelId) : Bool :=
  s.world.workers.has addr && (s.profile addr).supportedModels.contains modelId

/-- `GetActiveWorkerStake`. -/
def getActiveWorkerStake : Exec Int :=
  s.getAllWorkers.foldlM
    (fun total worker =>
      if isActive worker then MathInt.add total worker.stake.amount else .ok total) 0

/-- The worker keeper as the model registry sees it. -/
def workerKeeper : Modelreg.WorkerKeeper where
  isWorkerActive := s.isWorkerActive
  getWorkerStake := s.getWorkerStake
  getWorkerOperatorId := s.getWorkerOperatorId
  getActiveWorkerStake := s.getActiveWorkerStake
  workerSupportsModel := s.workerSupportsModel

/-! ## what is where after a write -/

section Writes
variable {s : State} {worker : Worker} {a : Addr}

theorem get_setWorker : (s.setWorker worker).world.workers.get a =
    if worker.address = a then some worker else s.world.workers.get a :=
  World.get_setWorker s.world worker a

theorem get_putWorker : (s.putWorker worker p).world.workers.get a =
    if worker.address = a then some worker else s.world.workers.get a :=
  World.get_setWorker s.world worker a

theorem get_deleteWorker :
    (s.deleteWorker b).world.workers.get a = if b = a then none else s.world.workers.get a :=
  Table.get_erase s.world.workers b a

theorem profile_putWorker :
    (s.putWorker worker p).profile a = if worker.address = a then p else s.profile a := by
  simp only [profile, putWorker, Table.get_put]
  split
  · rfl
  · rfl

theorem profile_deleteWorker :
    (s.deleteWorker b).profile a = if b = a then .unset else s.profile a := by
  simp only [profile, deleteWorker, Table.get_erase]
  split
  · rfl
  · rfl

end Writes

end State

end

/-- Why a message is not executed. -/
inductive Fault
  | worker (e : Err)
  | modelreg (e : Modelreg.Err)
  | vrf (e : Vrf.Err)
  | panicked (p : Panic)
  | unsigned
  deriving DecidableEq, Repr

/-- `sdk.NewCoins` of one coin that is not zero. -/
def newCoins (c : Coin) : Exec Coin := Coin.new c.denom c.amount

/-- A text that was stored as JSON and read again. -/
def stored (text : Bytes) : Bytes := Utf8.bytes (Utf8.repair text)

/-! ## jailing and slashing -/

section Keeper
variable (env : Env)
variable (height : Int) (s : State) (addr : Addr) (percent : UInt32)

/-- `OnWorkerStateChange` of the model registry. -/
def onWorkerStateChange : Exec State := do
  let m ← Modelreg.onWorkerStateChange env.toModelreg s.workerKeeper height s.modelreg addr
  return { s with modelreg := m }

/-- `OnWorkerRemoved` of the model registry. -/
def onWorkerRemoved : Exec State := do
  let m ← Modelreg.onWorkerRemoved env.toModelreg s.workerKeeper height s.modelreg addr
  return { s with modelreg := m }

/-- `slashWorkerInternal`. -/
def slashWorkerInternal (recipient : Option Addr) : Exec State :=
  match s.world.workers.get addr with
  | none => .ok s
  | some worker =>
      if worker.stake.isZero then .ok s
      else do
        let slashAmount ← MathInt.share worker.stake.amount percent 100
        if slashAmount = 0 then return s
        let slashCoin ← Coin.new worker.stake.denom slashAmount
        match World.moveSlashed env.toHost s.world.bank recipient slashCoin with
        | none => return s
        | some bank =>
            let stake ← worker.stake.sub slashCoin
            let s := { s with world := { s.world with bank := bank } }
            onWorkerStateChange env height (s.setWorker { worker with stake := stake }) addr

def slashWorker : Exec State :=
  slashWorkerInternal env height s addr percent none

def slashWorkerTo (recipient : Addr) : Exec State :=
  slashWorkerInternal env height s addr percent (some recipient)

/-- The record of a worker that is banned for good. -/
def entomb (worker : Worker) : Worker :=
  { worker with tombstoned := true, status := .jailed, jailed := true, jailUntil := 0 }

/-- `TombstoneWorker`. -/
def tombstoneWorker : Exec State :=
  match s.world.workers.get addr with
  | none => .ok s
  | some worker =>
      if worker.tombstoned then .ok s
      else onWorkerStateChange env height (s.setWorker (entomb worker)) addr

/-- `JailWorker`; the third branch reads the record again after the slash. -/
def jailWorker : Exec State :=
  match s.world.workers.get addr with
  | none => .ok s
  | some worker =>
      if worker.tombstoned then .ok s
      else
        let jailCount := worker.jailCount + 1
        if 3 ≤ jailCount then do
          let s ← slashWorker env height s addr s.world.workerParams.slashFraudPercent
          match s.world.workers.get addr with
          | none => return s
          | some worker => onWorkerStateChange env height (s.setWorker (entomb worker)) addr
        else
          let jailDuration :=
            if jailCount = 1 then s.world.workerParams.jail1Duration
            else s.world.workerParams.jail2Duration
          onWorkerStateChange env height (s.setWorker { worker with
            jailCount := jailCount, successStreak := 0, jailed := true, status := .jailed,
            jailUntil := height + jailDuration }) addr

/-- `UnjailWorker`. -/
def unjailWorker : Except Fault State :=
  match s.world.workers.get addr with
  | none => .error (.worker (.of .workerNotFound))
  | some worker => do
      ensure worker.jailed (.worker (.of .workerNotJailed))
      ensure (!worker.tombstoned) (.worker (.of .workerTombstoned))
      ensure (decide (worker.jailUntil ≤ height)) (.worker (.of .jailPeriodNotElapsed))
      (onWorkerStateChange env height
        (s.setWorker { worker with jailed := false, status := .active, jailUntil := 0 })
        addr).mapError .panicked

end Keeper

/-! ## messages -/

structure MsgRegisterWorker where
  creator : String
  pubkey : Bytes
  supportedModels : List ModelId
  operatorId : Bytes
  deriving DecidableEq, Repr

structure MsgExitWorker where
  creator : String
  deriving DecidableEq, Repr

structure MsgUpdateModels where
  creator : String
  supportedModels : List ModelId
  deriving DecidableEq, Repr

structure MsgStake where
  creator : String
  amount : Coin
  deriving DecidableEq, Repr

structure MsgUnjail where
  creator : String
  deriving DecidableEq, Repr

section Server
variable (env : Env)

/-- `decodeBech32SecpPubkey`: the payload without its type bytes. -/
def decodeBech32SecpPubkey (s : Bytes) : Option Bytes :=
  match env.bech32Payload s with
  | none => none
  | some payload =>
      let prefixLen := Settlement.aminoSecp256k1PubkeyPrefix.length
      if payload.length = prefixLen + Settlement.compressedSecp256k1PubkeyLen ∧
          payload.take prefixLen = Settlement.aminoSecp256k1PubkeyPrefix then
        some (payload.drop prefixLen)
      else none

/-- `DecodeWorkerPubkey` of the bytes of a Go string. -/
def decodeWorkerPubkey (s : Bytes) : Option Bytes :=
  if s = [] then none
  else
    (Settlement.asPubkey (Base64.decode s)).orElse fun _ =>
    (Settlement.asPubkey (Hex.decode? s)).orElse fun _ =>
    (decodeBech32SecpPubkey env s).orElse fun _ =>
    Settlement.asPubkey (some s)

/-- The creator of a message must read as an address. -/
def creatorAddress (creator : String) : Except Fault Addr :=
  match env.accAddressFromBech32 creator with
  | none => .error (.worker (.errorf "invalid creator address"))
  | some a => .ok a

/-- The list of models in a message. -/
def validateModels (models : List ModelId) : Except Fault Unit := do
  ensure (!models.isEmpty)
    (.worker (.wrap .invalidModels "at least one supported model is required"))
  ensure (models.all (· != [])) (.worker (.wrap .invalidModels "model id cannot be empty"))

variable (height : Int) (s : State) (msg : MsgRegisterWorker)

def MsgRegisterWorker.validateBasic : Except Fault Unit := do
  let _ ← creatorAddress env msg.creator
  ensure (msg.pubkey != []) (.worker (.wrap .invalidModels "pubkey cannot be empty"))
  ensure (decodeWorkerPubkey env msg.pubkey).isSome (.worker (.wrap .invalidModels
    "pubkey is not a valid 33-byte secp256k1 compressed key (raw/hex/base64)"))
  validateModels msg.supportedModels

def MsgUpdateModels.validateBasic (msg : MsgUpdateModels) : Except Fault Unit := do
  let _ ← creatorAddress env msg.creator
  validateModels msg.supportedModels

def MsgStake.validateBasic (msg : MsgStake) : Except Fault Unit := do
  let _ ← creatorAddress env msg.creator
  ensure (msg.amount.isValid && !msg.amount.isZero)
    (.worker (.wrap .insufficientStake "amount must be positive and valid"))

/-- The deposit of a registration: what is sent and kept as the stake. -/
def depositStake (creatorAddr : Addr) : Except Fault (Bank × Coin) := do
  let zero ← (Coin.new s.params.minStake.denom 0).mapError .panicked
  if height ≤ s.params.coldStartFreeBlocks then return (s.world.bank, zero)
  let stakeCoins ← (newCoins s.params.minStake).mapError .panicked
  match env.sendCoins s.world.bank creatorAddr env.workerAccount stakeCoins with
  | none => .error (.worker (.of .insufficientStake))
  | some bank => return (bank, s.params.minStake)

/-- The record of a registration. -/
def newWorker (addr : Addr) (pubkey : Bytes) (stake : Coin) (feeDenom : String) : Worker where
  address := addr
  pubkey := Utf8.repair pubkey
  stake := stake
  status := .active
  jailCount := 0
  jailed := false
  jailUntil := 0
  tombstoned := false
  successStreak := 0
  totalTasks := 0
  totalFeeEarned := ⟨feeDenom, 0⟩
  lastActiveBlock := height
  reputationScore := 0
  consecutiveRejects := 0
  avgLatencyMs := 0

/-- The profile of a registration. -/
def newProfile : Profile :=
  ⟨msg.supportedModels.map stored, 0, Utf8.repair msg.operatorId⟩

/-- `RegisterWorker`. -/
def registerWorker : Except Fault State := do
  let creatorAddr ← creatorAddress env msg.creator
  ensure (s.world.workers.get creatorAddr).isNone (.worker (.of .workerAlreadyRegistered))
  let (bank, stake) ← depositStake env height s creatorAddr
  let worker := newWorker height creatorAddr msg.pubkey stake s.params.minStake.denom
  let s := { s with world := { s.world with bank := bank } }
  return (s.putWorker worker (newProfile msg)).setModelIndices creatorAddr msg.supportedModels

/-- `ExitWorker`. -/
def exitWorker (msg : MsgExitWorker) : Except Fault State := do
  let creatorAddr ← creatorAddress env msg.creator
  match s.world.workers.get creatorAddr with
  | none => .error (.worker (.of .workerNotFound))
  | some worker => do
      ensure (!worker.jailed) (.worker (.of .workerJailed))
      ensure (!worker.tombstoned) (.worker (.of .workerTombstoned))
      ensure (worker.status == .active) (.worker (.of .workerNotActive))
      return s.putWorker { worker with status := .exiting }
        { s.profile creatorAddr with exitRequestedAt := height }

/-- `UpdateModels`. -/
def updateModels (msg : MsgUpdateModels) : Except Fault State := do
  let creatorAddr ← creatorAddress env msg.creator
  match s.world.workers.get creatorAddr with
  | none => .error (.worker (.of .workerNotFound))
  | some worker => do
      ensure (isActive worker) (.worker (.of .workerNotActive))
      let s := s.removeModelIndices creatorAddr (s.profile creatorAddr).supportedModels
      let s := s.putWorker worker
        { s.profile creatorAddr with supportedModels := msg.supportedModels.map stored }
      return s.setModelIndices creatorAddr msg.supportedModels

/-- `AddStake`. -/
def addStake (msg : MsgStake) : Except Fault State := do
  let creatorAddr ← creatorAddress env msg.creator
  match s.world.workers.get creatorAddr with
  | none => .error (.worker (.of .workerNotFound))
  | some worker => do
      ensure (!worker.tombstoned) (.worker (.of .workerTombstoned))
      let coins ← (newCoins msg.amount).mapError .panicked
      match env.sendCoins s.world.bank creatorAddr env.workerAccount coins with
      | none => .error (.worker (.of .insufficientStake))
      | some bank => do
          let stake ← (worker.stake.add msg.amount).mapError .panicked
          let s := { s with world := { s.world with bank := bank } }
          (onWorkerStateChange env height (s.setWorker { worker with stake := stake })
            creatorAddr).mapError .panicked

/-- `Unjail`. -/
def unjail (msg : MsgUnjail) : Except Fault State := do
  let creatorAddr ← creatorAddress env msg.creator
  unjailWorker env height s creatorAddr

end Server

/-! ## the end of a block -/

section Blocks
variable (env : Env)
variable (block : Vrf.Block) (s : State) (vrf : Vrf.State) (worker : Worker)

/-- The bank after the stake of a leaving worker is sent back, if the send is not
refused. -/
def returnStake : Exec (Option Bank) :=
  if worker.stake.isZero then .ok (some s.world.bank)
  else do
    let coins ← newCoins worker.stake
    return env.sendCoinsFromModuleToAccount s.world.bank env.workerAccount worker.address coins

/-- One turn of the loop of `ProcessExitingWorkers`, on a record as it was before the
loop. -/
def processExitingWorker (height : Int) (s : State) (e : Worker × Profile) : Exec State :=
  if e.1.status ≠ .exiting then .ok s
  else if e.2.exitRequestedAt = 0 then .ok s
  else if height - e.2.exitRequestedAt < s.params.exitWaitPeriod then .ok s
  else do
    match ← returnStake env s e.1 with
    | none => return s
    | some bank => do
        let s ← onWorkerRemoved env height { s with world := { s.world with bank := bank } }
          e.1.address
        return (s.removeModelIndices e.1.address e.2.supportedModels).deleteWorker e.1.address

/-- `ProcessExitingWorkers`. -/
def processExitingWorkers (height : Int) (s : State) : Exec State :=
  (s.getAllWorkers.map fun w => (w, s.profile w.address)).foldlM (processExitingWorker env height) s

/-- `abci.ValidatorUpdate` with a key of type `secp256k1`. -/
structure ValidatorUpdate where
  pubkey : Bytes
  power : Int
  deriving DecidableEq, Repr

/-- An eligible worker, with its key as it is stored and its power. -/
structure Candidate where
  address : Addr
  pubkey : String
  power : Int
  deriving DecidableEq, Repr

/-- The workers that `EndBlock` collects. -/
def isEligible : Bool := isActive worker && worker.pubkey != ""

/-- The power of a worker: its stake, and one where there is none. -/
def candidate : Exec Candidate := do
  let power ← Modelreg.int64 worker.stake.amount
  return ⟨worker.address, worker.pubkey, if power ≤ 0 then 1 else power⟩

/-- The workers that a rotation selects, by address. -/
def selectedAddrs (eligible : List Addr) : Exec (State × List Addr) :=
  if eligible = [] then .ok (s, eligible)
  else do
    match ← Vrf.selectCommittee env.toVrf block s.vrf eligible with
    | .error _ => return (s, eligible)
    | .ok (vrf, committee) =>
        let s := { s with vrf := vrf }
        if committee.members = [] then return (s, eligible)
        else return (s, committee.members.map Vrf.CommitteeMember.address)

/-- The update of a selected worker: its stored key, cast to bytes. -/
def validatorUpdate (candidates : List Candidate) (addr : Addr) : Option ValidatorUpdate :=
  (candidates.find? fun c => c.address == addr).map fun c => ⟨Utf8.bytes c.pubkey, c.power⟩

/-- The rotation of the validators. -/
def rotateValidators : Exec (State × List ValidatorUpdate) := do
  let candidates ← (s.getAllWorkers.filter isEligible).mapM candidate
  let (s, selected) ← selectedAddrs env block s (candidates.map Candidate.address)
  return (s, selected.filterMap (validatorUpdate candidates))

/-- `EndBlock` of the worker module. -/
def endBlock : Exec (State × List ValidatorUpdate) := do
  let s ← processExitingWorkers env block.height s
  if block.height % 120 ≠ 0 then return (s, [])
  else rotateValidators env block s

/-! ## the beginning of a block -/

/-- The workers that `IsActive` accepts. -/
def State.activeWorkers : List Worker := s.getAllWorkers.filter isActive

/-- `GetActiveModelIds`; Go leaves the order of the models open. -/
def State.activeModelIds : List ModelId :=
  (s.activeWorkers.flatMap fun w => (s.profile w.address).supportedModels).dedup

/-- `GetOnlineWorkersByModel`. -/
def State.onlineWorkersByModel (modelID : ModelId) : List Addr :=
  s.activeWorkers.flatMap fun w =>
    ((s.profile w.address).supportedModels.filter (· == modelID)).map fun _ => w.address

/-- A worker in the store of the VRF module: the bytes of its key that read as
hexadecimal digits. -/
def syncWorker : Vrf.State :=
  let pubkey := (Hex.decode (Utf8.bytes worker.pubkey)).1
  if pubkey = [] then vrf
  else { vrf with statuses := vrf.statuses.put worker.address ⟨pubkey, worker.stake.amount⟩ }

/-- `BeginBlock` of the VRF module with the callbacks of the application. -/
def beginBlockVrf : Exec State := do
  let vrf := Vrf.checkLeaderTimeouts env.toVrf block s.vrf s.activeModelIds s.onlineWorkersByModel
  let vrf := s.activeWorkers.foldl syncWorker vrf
  let vrf ← Vrf.handleCommitteeRotation env.toVrf block vrf (s.activeWorkers.map Worker.address)
  return { s with vrf := vrf }

def reputationDecayStep : UInt32 := 50

/-- The hourly step of a score towards its initial value. -/
def decayReputation : Worker :=
  let score := if worker.reputationScore = 0 then reputationInitial else worker.reputationScore
  { worker with
    reputationScore :=
      if reputationInitial < score then
        if reputationInitial ≤ score - reputationDecayStep then score - reputationDecayStep
        else reputationInitial
      else if score < reputationInitial then
        if score + reputationDecayStep ≤ reputationInitial then score + reputationDecayStep
        else reputationInitial
      else score }

/-- `ReputationDecayAll`. -/
def reputationDecayAll : State :=
  s.activeWorkers.foldl (fun s worker => s.setWorker (decayReputation worker)) s

/-- The beginning of a block: the VRF module, then the worker module. -/
def beginBlock : Exec State := do
  let s ← beginBlockVrf env block s
  return if block.height % 720 = 0 then reputationDecayAll s else s

end Blocks

end FunaiChain.Registry
