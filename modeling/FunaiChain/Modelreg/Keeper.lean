import FunaiChain.Sdk
import FunaiChain.Lib.Encoding
import Mathlib.Data.List.Dedup

/-!
# FunaiChain.Modelreg.Keeper

The model registry `x/modelreg`: the stored models, the alias index, the
reverse index of installations, the statistics of a model and the messages of the
module.  What the keeper asks of the worker module is the interface
`WorkerKeeper`, so nothing here depends on how workers are stored.

The reverse index is kept under its byte keys, `0x03 | address | 0x00 | model`,
and read back from them as the iterators do.  A ratio is a `float64`, given by its
bits; how two integers are divided and how two ratios are compared comes with the
environment.
-/

namespace FunaiChain.Modelreg

/-! ## types -/

/-- A model id is a Go string: its bytes go into keys and JSON, valid UTF-8 or not.  The
other texts of a message are valid, which the decoder of proto3 strings ensures. -/
abbrev ModelId := Bytes

/-- The bits of a `float64`; all zero is the number zero. -/
abbrev Float64 := UInt64

inductive ModelStatus
  | proposed
  | active
  deriving DecidableEq, Repr

/-- A registered model, without the statistics that no function here reads. -/
structure Model where
  modelId : ModelId
  name : String
  aliasName : String
  epsilon : UInt32
  status : ModelStatus
  proposerAddress : String
  weightHash : String
  quantConfigHash : String
  runtimeImageHash : String
  installedStakeRatio : Float64
  workerCount : UInt32
  operatorCount : UInt32
  suggestedPrice : Coin
  activatedAt : Int
  createdAt : Int
  avgFee : UInt64
  avgLatencyMs : UInt64
  totalTasks24h : UInt64
  deriving DecidableEq, Repr

/-- The thresholds of an activation. -/
structure Params where
  activationStakeRatio : Float64
  minEligibleWorkers : UInt32
  minUniqueOperators : UInt32
  deriving DecidableEq, Repr

/-- The stores of the module. -/
structure State where
  models : Table ModelId Model fun id m => m.modelId = id
  aliases : Store String ModelId
  installed : Store Bytes Unit
  params : Params

/-- What the module uses from outside: addresses, hashing and floating-point
numbers. -/
structure Env extends Host where
  sha256 : Bytes → Bytes
  /-- `float64(a) / float64(b)` of two `int64`. -/
  floatRatio : Int → Int → Float64
  /-- `a >= b`. -/
  floatGE : Float64 → Float64 → Bool
  /-- `0 <= a && a <= 1`. -/
  floatUnit : Float64 → Bool
  /-- The address that may set the statistics, the governance module's. -/
  authority : String

/-- What the module asks of the worker module. -/
structure WorkerKeeper where
  isWorkerActive : Addr → Bool
  getWorkerStake : Addr → Int
  getWorkerOperatorId : Addr → String
  getActiveWorkerStake : Exec Int
  workerSupportsModel : Addr → ModelId → Bool

/-- The registered errors of the module. -/
inductive Sentinel
  | modelNotFound
  | modelAlreadyExists
  | invalidModelId
  | invalidEpsilon
  | invalidAlias
  | aliasAlreadyTaken
  | unauthorized
  deriving DecidableEq, Repr

abbrev Err := ModuleErr Sentinel

namespace State

def empty (params : Params) : State := ⟨∅, ∅, ∅, params⟩

variable (s : State) (workerAddr : Addr) (modelID : ModelId)

def getModel : Option Model := s.models.get modelID

def setModel (model : Model) : State :=
  { s with models := s.models.set model.modelId model rfl }

/-! ## the reverse index -/

/-- `WorkerInstalledModelPrefix`. -/
def workerInstalledModelPrefix : Bytes := [0x03]

/-- `WorkerInstalledModelIteratorPrefix`. -/
def workerInstalledModelIteratorPrefix (workerAddr : Bytes) : Bytes :=
  workerInstalledModelPrefix ++ workerAddr ++ [0x00]

/-- `WorkerInstalledModelKey`. -/
def workerInstalledModelKey (workerAddr : Bytes) (modelID : ModelId) : Bytes :=
  workerInstalledModelPrefix ++ workerAddr ++ [0x00] ++ modelID

def setWorkerInstalledModel : State :=
  { s with installed := s.installed.put (workerInstalledModelKey workerAddr modelID) () }

def hasWorkerInstalledModel : Bool :=
  s.installed.has (workerInstalledModelKey workerAddr modelID)

def removeWorkerInstalledModel : State :=
  { s with installed := s.installed.erase (workerInstalledModelKey workerAddr modelID) }

/-- The keys that `KVStorePrefixIterator` goes through. -/
def installedKeys (start : Bytes) : List Bytes :=
  (s.installed.entries.map Prod.fst).filter fun key => start.isPrefixOf key

/-- `GetWorkerInstalledModels`. -/
def getWorkerInstalledModels : List ModelId :=
  let start := workerInstalledModelIteratorPrefix workerAddr
  (s.installedKeys start).map fun key => key.drop start.length

/-- `RemoveAllWorkerInstalledModels`. -/
def removeAllWorkerInstalledModels : State × List ModelId :=
  let modelIDs := s.getWorkerInstalledModels workerAddr
  (modelIDs.foldl (fun s modelID => s.removeWorkerInstalledModel workerAddr modelID) s, modelIDs)

/-- The address in a key whose model is `modelID`: what stands before the first
zero byte, if what follows it is the model. -/
def installedAddr (key : Bytes) : Option Addr :=
  let rest := key.drop workerInstalledModelPrefix.length
  match rest.findIdx? (· == 0x00) with
  | none => none
  | some sepIdx => if rest.drop (sepIdx + 1) = modelID then some (rest.take sepIdx) else none

/-- `GetInstalledWorkersByModel`. -/
def getInstalledWorkersByModel : List Addr :=
  (s.installedKeys workerInstalledModelPrefix).filterMap (installedAddr modelID)

end State

/-! ## statistics -/

/-- The sums of a refresh. -/
structure Tally where
  installedStake : Int
  workerCount : UInt32
  opSet : List String
  deriving DecidableEq, Repr

/-- `Int.Int64`. -/
def int64 (x : Int) : Exec Int :=
  if -2 ^ 63 ≤ x ∧ x < 2 ^ 63 then .ok x else .error .intOverflow

section Keeper
variable (env : Env) (wk : WorkerKeeper)
variable (height : Int) (s : State) (modelID : ModelId)

/-- `CheckAndActivateModel`. -/
def checkAndActivateModel : State :=
  match s.getModel modelID with
  | none => s
  | some model =>
      if model.status = .active then s
      else if env.floatGE model.installedStakeRatio s.params.activationStakeRatio ∧
          s.params.minEligibleWorkers ≤ model.workerCount ∧
          s.params.minUniqueOperators ≤ model.operatorCount then
        s.setModel { model with status := .active, activatedAt := height }
      else s

/-- One turn of the loop of `RefreshModelStats`. -/
def tallyWorker (t : Tally) (addr : Addr) : Exec Tally :=
  if !wk.isWorkerActive addr then .ok t
  else do
    let installedStake ← MathInt.add t.installedStake (wk.getWorkerStake addr)
    let opID := wk.getWorkerOperatorId addr
    return ⟨installedStake, t.workerCount + 1,
      if opID ≠ "" then t.opSet.insert opID else t.opSet⟩

/-- The ratio of a refresh. -/
def stakeRatio (installedStake totalStake : Int) : Exec Float64 :=
  if 0 < totalStake then do
    let installed ← int64 installedStake
    let total ← int64 totalStake
    return env.floatRatio installed total
  else .ok 0

/-- `RefreshModelStats`. -/
def refreshModelStats : Exec State :=
  match s.getModel modelID with
  | none => .ok s
  | some model => do
      let installedAddrs := s.getInstalledWorkersByModel modelID
      let totalStake ← wk.getActiveWorkerStake
      let t ← installedAddrs.foldlM (tallyWorker wk) ⟨0, 0, []⟩
      let ratio ← stakeRatio env t.installedStake totalStake
      let s := s.setModel { model with
        installedStakeRatio := ratio
        workerCount := t.workerCount
        operatorCount := UInt32.ofNat t.opSet.length }
      return checkAndActivateModel env height s modelID

/-- `OnWorkerStateChange`. -/
def onWorkerStateChange (workerAddr : Addr) : Exec State :=
  (s.getWorkerInstalledModels workerAddr).foldlM (refreshModelStats env wk height) s

/-- `OnWorkerRemoved`. -/
def onWorkerRemoved (workerAddr : Addr) : Exec State :=
  let (s, modelIDs) := s.removeAllWorkerInstalledModels workerAddr
  modelIDs.foldlM (refreshModelStats env wk height) s

/-- `RecordModelTask`: running averages in 64-bit arithmetic. -/
def recordModelTask (fee latencyMs : UInt64) : State :=
  match s.getModel modelID with
  | none => s
  | some model =>
      let total := model.totalTasks24h + 1
      let model := { model with totalTasks24h := total }
      if 0 < total then
        let prev := total - 1
        s.setModel { model with
          avgFee := (model.avgFee * prev + fee) / total
          avgLatencyMs :=
            if 0 < latencyMs then (model.avgLatencyMs * prev + latencyMs) / total
            else model.avgLatencyMs }
      else s.setModel model

end Keeper

/-! ## messages -/

structure MsgModelProposal where
  creator : String
  name : String
  aliasName : String
  weightHash : String
  quantConfigHash : String
  runtimeImageHash : String
  epsilon : UInt32
  suggestedPrice : Coin
  deriving DecidableEq, Repr

structure MsgUpdateModelStats where
  authority : String
  modelId : ModelId
  installedStakeRatio : Float64
  workerCount : UInt32
  operatorCount : UInt32
  deriving DecidableEq, Repr

structure MsgDeclareInstalled where
  creator : String
  modelId : ModelId
  deriving DecidableEq, Repr

/-- A character that an alias may start and end with. -/
def aliasEdge (c : Char) : Bool := ('a' ≤ c && c ≤ 'z') || ('0' ≤ c && c ≤ '9')

/-- `^[a-z0-9][a-z0-9\-]*[a-z0-9]$` -/
def aliasRegex (cs : List Char) : Bool :=
  2 ≤ cs.length && cs.head?.any aliasEdge && cs.getLast?.any aliasEdge &&
    cs.all fun c => aliasEdge c || c == '-'

/-- `ValidateAlias`. -/
def validateAlias (s : String) : Except String Unit := do
  let n := s.toUTF8.size
  ensure (3 ≤ n && n ≤ 64) ("alias must be 3-64 characters, got " ++ toString n)
  ensure (aliasRegex s.toList) ("alias must contain only lowercase letters, digits, and hyphens " ++
    "(cannot start/end with hyphen)")

/-- Eight bytes, the most significant one first. -/
def lenPrefix (n : Nat) : Bytes :=
  (List.range 8).map fun i => UInt8.ofNat (n / 2 ^ (8 * (7 - i)))

/-- `writeLenPrefixed`: the length, then the bytes. -/
def writeLenPrefixed (s : String) : Bytes :=
  lenPrefix (Utf8.bytes s).length ++ Utf8.bytes s

section Server
variable (env : Env) (wk : WorkerKeeper)

/-- `ComputeModelId`. -/
def computeModelId (weightHash quantConfigHash runtimeImageHash : String) : ModelId :=
  Hex.encode (env.sha256 (writeLenPrefixed weightHash ++ writeLenPrefixed quantConfigHash ++
    writeLenPrefixed runtimeImageHash))

/-- The creator of a message must read as an address. -/
def creatorAddress (creator : String) : Except Err Addr :=
  match env.accAddressFromBech32 creator with
  | none => .error (.errorf "invalid creator address")
  | some a => .ok a

def MsgModelProposal.validateBasic (msg : MsgModelProposal) : Except Err Unit := do
  let _ ← creatorAddress env msg.creator
  ensure (msg.name != "") (.wrap .invalidModelId "name cannot be empty")
  ensure (msg.aliasName != "") (.wrap .invalidAlias "alias cannot be empty")
  (validateAlias msg.aliasName).mapError (ModuleErr.wrap .invalidAlias)
  ensure (msg.weightHash != "") (.wrap .invalidModelId "weight_hash cannot be empty")
  ensure (msg.quantConfigHash != "") (.wrap .invalidModelId "quant_config_hash cannot be empty")
  ensure (msg.runtimeImageHash != "") (.wrap .invalidModelId "runtime_image_hash cannot be empty")
  ensure (1 ≤ msg.epsilon)
    (.wrap .invalidEpsilon "epsilon must be >= 1 (representing min 0.0001)")
  ensure (msg.epsilon ≤ 1000) (.wrap .invalidEpsilon
    ("epsilon must be <= 1000 (representing max 0.1), got " ++ toString msg.epsilon.toNat))

def MsgUpdateModelStats.validateBasic (msg : MsgUpdateModelStats) : Except Err Unit := do
  if (env.accAddressFromBech32 msg.authority).isNone then
    .error (.errorf "invalid authority address")
  ensure (msg.modelId != []) (.wrap .invalidModelId "model_id cannot be empty")
  ensure (env.floatUnit msg.installedStakeRatio)
    (.wrap .invalidModelId "installed_stake_ratio must be in [0, 1]")

def MsgDeclareInstalled.validateBasic (msg : MsgDeclareInstalled) : Except Err Unit := do
  let _ ← creatorAddress env msg.creator
  ensure (msg.modelId != []) (.wrap .modelNotFound "model_id cannot be empty")

variable (height : Int) (s : State)

/-- `ProposeModel`. -/
def proposeModel (msg : MsgModelProposal) : Except Err State := do
  let _ ← creatorAddress env msg.creator
  let modelId := computeModelId env msg.weightHash msg.quantConfigHash msg.runtimeImageHash
  ensure (s.getModel modelId).isNone (.of .modelAlreadyExists)
  ensure (!s.aliases.has msg.aliasName) (.of .aliasAlreadyTaken)
  let s := s.setModel {
    modelId := modelId
    name := msg.name
    aliasName := msg.aliasName
    epsilon := msg.epsilon
    status := .proposed
    proposerAddress := msg.creator
    weightHash := msg.weightHash
    quantConfigHash := msg.quantConfigHash
    runtimeImageHash := msg.runtimeImageHash
    installedStakeRatio := 0
    workerCount := 0
    operatorCount := 0
    suggestedPrice := msg.suggestedPrice
    activatedAt := 0
    createdAt := height
    avgFee := 0
    avgLatencyMs := 0
    totalTasks24h := 0 }
  return { s with aliases := s.aliases.put msg.aliasName modelId }

/-- `UpdateModelStats` of the message server. -/
def updateModelStats (msg : MsgUpdateModelStats) : Except Err State := do
  ensure (env.authority == "" || msg.authority == env.authority)
    (.wrap .unauthorized ("invalid authority: expected " ++ env.authority ++ ", got " ++
      msg.authority))
  match s.getModel msg.modelId with
  | none => .error (.of .modelNotFound)
  | some model =>
      let s := s.setModel { model with
        installedStakeRatio := msg.installedStakeRatio
        workerCount := msg.workerCount
        operatorCount := msg.operatorCount }
      return checkAndActivateModel env height s msg.modelId

/-- `DeclareInstalled`; a refresh may panic. -/
def declareInstalled (msg : MsgDeclareInstalled) : Except Err (Exec State) := do
  ensure (s.getModel msg.modelId).isSome (.of .modelNotFound)
  let creatorAddr ← creatorAddress env msg.creator
  ensure (wk.isWorkerActive creatorAddr)
    (.wrap .modelNotFound "creator is not an active worker")
  ensure (wk.workerSupportsModel creatorAddr msg.modelId)
    (.wrap .modelNotFound ("creator did not declare model_id in SupportedModels — register the " ++
      "model in MsgRegisterWorker first"))
  if s.hasWorkerInstalledModel creatorAddr msg.modelId then return .ok s
  let s := s.setWorkerInstalledModel creatorAddr msg.modelId
  return refreshModelStats env wk height s msg.modelId

end Server

end FunaiChain.Modelreg
