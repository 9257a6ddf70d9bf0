import FunaiChain.Lib.Trace
import FunaiChain.Registry.Chain

/-!
# FunaiChain.P2p.Proposer

The proposer of `p2p/proposer`: it collects the evidence of each task from the messages
of the network, turns finished tasks into settlement entries or audits, and submits both
in batches that stay queued until they are committed.

A task is keyed by its id, where the source uses the hex text of the id.  The clock and
the order in which the tasks are visited are given with the event.  The log of a `Node`
is not read by the proposer.

What its events do, one move at a time, is `Proposer.Moves`; `step_rule` is the rule that
follows for the invariants of a node.
-/

namespace FunaiChain.P2p

section
open Settlement (TaskId SettlementEntry MsgBatchSettlement SecondVerificationBatchEntry
  MsgSecondVerificationResultBatch beUInt32 beValue defaultDenom
  maxSecondVerificationBatchEntries)
open Vrf (RankedWorker rankWorkers)

/-- What a node uses from outside. -/
structure Env where
  chain : Settlement.Env
  vrf : Vrf.Env
  hexEncode : Bytes → String
  /-- The bech32 address of a compressed key. -/
  keyAddress : Bytes → String
  /-- The text of a model id. -/
  modelText : Bytes → String
  /-- The proposer's signature on a Merkle root. -/
  signMerkleRoot : Bytes → Bytes

variable (env : Env)

/-- `pubkeyToBech32`. -/
def Env.pubkeyToBech32 (key : Bytes) : String :=
  if key.length = 33 then env.keyAddress key else env.hexEncode key

/-! ## messages -/

structure InferRequest where
  modelId : Bytes
  promptHash : Bytes
  maxFee : UInt64
  expireBlock : UInt64
  timestamp : UInt64
  userPubkey : Bytes
  userSignature : Bytes
  feePerInputToken : UInt64
  feePerOutputToken : UInt64
  deriving DecidableEq, Repr

namespace InferRequest

/-- `TaskId`. -/
def taskId (r : InferRequest) : TaskId :=
  env.chain.sha256 (r.userPubkey ++ r.modelId ++ r.promptHash ++
    beUInt32 (r.timestamp >>> 32).toUInt32 ++ beUInt32 r.timestamp.toUInt32)

def isPerToken (r : InferRequest) : Bool := 0 < r.feePerInputToken && 0 < r.feePerOutputToken

end InferRequest

/-- The five logits are given by their bits. -/
structure InferReceipt where
  taskId : TaskId
  workerPubkey : Bytes
  workerLogits : List UInt32
  resultHash : Bytes
  finalSeed : Bytes
  sampledTokens : List UInt32
  workerSig : Bytes
  inputTokenCount : UInt32
  outputTokenCount : UInt32
  inferenceLatencyMs : UInt32
  deriving DecidableEq, Repr

/-- `InferReceipt.SignBytes`. -/
def InferReceipt.signBytes (r : InferReceipt) : Bytes :=
  env.chain.sha256 (r.taskId ++ r.workerPubkey ++ r.resultHash ++ r.finalSeed ++
    r.workerLogits.flatMap beUInt32 ++ r.sampledTokens.flatMap beUInt32 ++
    beUInt32 r.inputTokenCount ++ beUInt32 r.outputTokenCount ++ beUInt32 r.inferenceLatencyMs)

structure VerifyResult where
  taskId : TaskId
  verifierAddr : Bytes
  pass : Bool
  logitsMatch : UInt8
  samplingMatch : UInt8
  logitsHash : Bytes
  signature : Bytes
  verifiedInputTokens : UInt32
  verifiedOutputTokens : UInt32
  deriving DecidableEq, Repr

/-- `VerifyResult.SignBytes`. -/
def VerifyResult.signBytes (r : VerifyResult) : Bytes :=
  env.chain.sha256 (r.taskId ++ r.verifierAddr ++ [if r.pass then 1 else 0] ++
    [r.logitsMatch, r.samplingMatch] ++ r.logitsHash ++ beUInt32 r.verifiedInputTokens ++
    beUInt32 r.verifiedOutputTokens)

/-- The signature of a result is checked against the key that it names. -/
def VerifyResult.signed (r : VerifyResult) : Bool :=
  env.chain.verifySignature r.verifierAddr (env.chain.sha256 (r.signBytes env)) r.signature

structure SecondVerificationResponse where
  taskId : TaskId
  pass : Bool
  secondVerifierAddr : Bytes
  logitsHash : Bytes
  signature : Bytes
  verifiedInputTokens : UInt32
  verifiedOutputTokens : UInt32
  deriving DecidableEq, Repr

/-! ## state -/

structure TaskEvidence where
  receipt : Option InferReceipt
  verifiers : List VerifyResult
  request : Option InferRequest
  output : String
  acceptedAtMs : UInt64
  receivedAt : UInt64
  deriving DecidableEq, Repr

def TaskEvidence.empty : TaskEvidence := ⟨none, [], none, "", 0, 0⟩

/-- Only the first three results are kept. -/
def TaskEvidence.addResult (ev : TaskEvidence) (result : VerifyResult) : TaskEvidence :=
  { ev with verifiers :=
      if ev.verifiers.length < 3 then ev.verifiers ++ [result] else ev.verifiers }

/-- The receipt of a task carries its id. -/
def TaskEvidence.Keyed (key : TaskId) (ev : TaskEvidence) : Prop :=
  ∀ r, ev.receipt = some r → r.taskId = key

structure ReadyAuditEntry where
  taskId : TaskId
  epoch : Int
  responses : List SecondVerificationResponse
  deriving DecidableEq, Repr

/-- The batch entries of an audit. -/
def ReadyAuditEntry.entries (ra : ReadyAuditEntry) : List SecondVerificationBatchEntry :=
  ra.responses.map fun resp => ⟨ra.taskId, env.pubkeyToBech32 resp.secondVerifierAddr, ra.epoch,
    resp.pass, resp.logitsHash, resp.verifiedInputTokens, resp.verifiedOutputTokens,
    resp.signature⟩

structure Proposer where
  address : String
  auditRate : UInt32
  pendingTasks : Table TaskId TaskEvidence TaskEvidence.Keyed
  /-- The responses collected for each audit. -/
  pendingAudits : Store TaskId (List SecondVerificationResponse)
  clearedTasks : List SettlementEntry
  readyAudits : List ReadyAuditEntry
  auditBatchInFlight : Nat
  activeWorkers : List RankedWorker
  batchLimitOverride : Nat
  currentEpoch : Int

namespace Proposer

/-- `New`. -/
def new (address : String) (auditRate : UInt32) : Proposer :=
  ⟨address, auditRate, ∅, ∅, [], [], 0, [], 0, 0⟩

/-! ## evidence -/

variable (p : Proposer) (now : UInt64) (receipt : InferReceipt)

/-- The evidence of a task, which the first message on it creates. -/
def evidence (key : TaskId) : TaskEvidence :=
  (p.pendingTasks.get key).getD .empty

theorem keyed_evidence (key : TaskId) : (p.evidence key).Keyed key := by
  unfold evidence
  cases h : p.pendingTasks.get key with
  | none => simp [TaskEvidence.Keyed, TaskEvidence.empty]
  | some ev => exact Table.law_of_get h

/-- `AddReceipt`. -/
def addReceipt : Proposer :=
  { p with
    pendingTasks := p.pendingTasks.set receipt.taskId
      { p.evidence receipt.taskId with receipt := some receipt, receivedAt := now }
      (fun _ h => congrArg _ (Option.some.inj h).symm) }

/-- A message that leaves the receipt of its task alone. -/
def note (key : TaskId) (f : TaskEvidence → TaskEvidence) (hf : ∀ ev, (f ev).receipt = ev.receipt) :
    Proposer :=
  { p with
    pendingTasks := p.pendingTasks.set key (f (p.evidence key))
      (fun r h => p.keyed_evidence key r (hf _ ▸ h)) }

/-- `AddRequest`. -/
def addRequest (req : InferRequest) : Proposer :=
  p.note (req.taskId env) ({ · with request := some req }) fun _ => rfl

variable (ev : TaskEvidence) (taskId : TaskId)

/-- `OnAssignTask`: the first observation is kept. -/
def onAssignTask : Proposer :=
  p.note taskId (fun ev => { ev with
    acceptedAtMs := if ev.acceptedAtMs = 0 then now else ev.acceptedAtMs }) fun _ => rfl

/-- `AddOutput`. -/
def addOutput (output : String) : Proposer :=
  p.note taskId ({ · with output := output }) fun _ => rfl

/-- The workers that may verify a receipt.  The source means to leave out the
executor, but compares the text of an address with the bytes of a key. -/
def candidates : List RankedWorker :=
  (p.activeWorkers.filter fun w =>
    Utf8.bytes (env.vrf.addressText w.address) != receipt.workerPubkey).map fun w =>
      ⟨w.address, w.pubkey, w.stake, 0, 0⟩

/-- The keys of the 21 candidates that are ranked first. -/
def topVerifiers : List Bytes :=
  ((rankWorkers env.vrf (receipt.taskId ++ receipt.resultHash) (p.candidates env receipt)
    .verification).take 21).map (·.pubkey)

/-- The check of the ranking, which needs a receipt and three candidates. -/
def legitimate (key : Bytes) : Bool :=
  match ev.receipt with
  | none => true
  | some receipt =>
      p.activeWorkers.isEmpty || (p.candidates env receipt).length < 3 ||
        (p.topVerifiers env receipt).contains key

inductive Reject
  | unknownTask
  | missingSignature
  | badSignature
  | duplicate
  | notCandidate
  deriving DecidableEq, Repr

/-- `AddVerifyResult`. -/
def addVerifyResult (result : VerifyResult) : Except Reject Proposer :=
  match p.pendingTasks.get result.taskId with
  | none => .error .unknownTask
  | some ev => do
      ensure (!(result.signature.isEmpty || result.verifierAddr.length != 33)) .missingSignature
      ensure (result.signed env) .badSignature
      ensure (!(ev.verifiers.map (·.verifierAddr)).contains result.verifierAddr) .duplicate
      ensure (p.legitimate env ev result.verifierAddr) .notCandidate
      return p.note result.taskId (·.addResult result) fun _ => rfl

/-! ## finished tasks -/

/-- A fault of the process. -/
inductive Fault
  | sliceBounds
  deriving DecidableEq, Repr

/-- `shouldAudit`. -/
def shouldAudit (blockHash : Bytes) : Bool :=
  beValue (env.chain.sha256 (taskId ++ blockHash)) < 2 ^ 256 * p.auditRate.toNat / 1000

/-- The position of the worker in the ranking for the dispatch; zero where it is
not found. -/
def dispatchRank (ranked : List RankedWorker) (workerAddr : String) : UInt32 :=
  match ranked.findIdx? fun w => env.pubkeyToBech32 w.pubkey = workerAddr with
  | some i => UInt32.ofNat i
  | none => 0

/-- The ranking for the dispatch sorts the list of workers in place. -/
def rankForDispatch : List RankedWorker :=
  if ev.request.isSome then rankWorkers env.vrf taskId p.activeWorkers .dispatch
  else p.activeWorkers

/-- The settlement entry of a finished task; without a request it names no user
and no fee. -/
def settlementEntry (receipt : InferReceipt) : SettlementEntry where
  taskId := receipt.taskId
  userAddress := ev.request.elim "" fun r => env.pubkeyToBech32 r.userPubkey
  workerAddress := env.pubkeyToBech32 receipt.workerPubkey
  verifierResults := ev.verifiers.map fun v => ⟨env.pubkeyToBech32 v.verifierAddr, v.pass,
    v.signature, v.logitsHash, v.verifiedInputTokens, v.verifiedOutputTokens⟩
  fee := ev.request.elim Coin.zero fun r =>
    if r.isPerToken then Coin.zero else ⟨defaultDenom, r.maxFee.toNat⟩
  status := if ev.verifiers.all (·.pass) then .success else .fail
  expireBlock := ev.request.elim 0 fun r => r.expireBlock.toInt64.toInt
  modelId := ev.request.elim "" fun r => env.modelText r.modelId
  latencyMs := if 0 < ev.acceptedAtMs && ev.acceptedAtMs < ev.receivedAt then
    ev.receivedAt - ev.acceptedAtMs else 0
  userSigHash := ev.request.elim [] fun r =>
    if r.userSignature.isEmpty then [] else env.chain.sha256 r.userSignature
  workerSigHash := if receipt.workerSig.isEmpty then [] else env.chain.sha256 receipt.workerSig
  verifySigHashes := (ev.verifiers.filter fun v => !v.signature.isEmpty).map fun v =>
    env.chain.sha256 v.signature
  resultCount := 0
  feePerInputToken := ev.request.elim 0 fun r => if r.isPerToken then r.feePerInputToken else 0
  feePerOutputToken := ev.request.elim 0 fun r => if r.isPerToken then r.feePerOutputToken else 0
  maxFee := ev.request.elim Coin.zero fun r =>
    if r.isPerToken then ⟨defaultDenom, r.maxFee.toNat⟩ else Coin.zero
  workerInputTokens := receipt.inputTokenCount
  workerOutputTokens := receipt.outputTokenCount
  dispatchRank := if ev.request.isSome then
    dispatchRank env (p.rankForDispatch env ev receipt.taskId)
      (env.pubkeyToBech32 receipt.workerPubkey) else 0
  acceptedAtMs := ev.acceptedAtMs
  receiptAtMs := ev.receivedAt

/-- Five minutes of nanoseconds have gone by since the receipt arrived. -/
def timedOut : Bool :=
  300000000000 ≤ (now - ev.receivedAt).toInt64 * 1000000

/-- One turn of the loop of `ProcessPending`, with the audits to dispatch.  The
report on a task that timed out cuts sixteen digits from its key. -/
def processTask (blockHash : Bytes) (acc : Proposer × List TaskId) (key : TaskId) :
    Except Fault (Proposer × List TaskId) :=
  let (p, audits) := acc
  match p.pendingTasks.get key with
  | none => .ok acc
  | some ev =>
    match ev.receipt with
    | none => .ok acc
    | some receipt =>
      let rest := p.pendingTasks.erase key
      if ev.verifiers.length < 3 && !timedOut now ev then .ok acc
      else if ev.verifiers.length < 3 && key.length < 8 then .error .sliceBounds
      else if ev.verifiers.length < 2 then .ok ({ p with pendingTasks := rest }, audits)
      else if p.shouldAudit env receipt.taskId blockHash then
        .ok ({ p with pendingTasks := rest, pendingAudits := p.pendingAudits.put key [] },
          if ev.request.isSome then audits ++ [key] else audits)
      else .ok ({ p with
          pendingTasks := rest
          clearedTasks := p.clearedTasks ++ [p.settlementEntry env ev receipt]
          activeWorkers := p.rankForDispatch env ev receipt.taskId }, audits)

/-- `ProcessPending`; a map is visited in any order of its keys. -/
def processPending (blockHash : Bytes) (order : List TaskId) :
    Except Fault (Proposer × List TaskId) :=
  order.foldlM (processTask env now blockHash) (p, [])

/-! ## settlement batches -/

def maxBatchEntries : Nat := 1300
def minBatchLimit : Nat := 64

def effectiveBatchLimit : Nat :=
  if 0 < p.batchLimitOverride then p.batchLimitOverride else maxBatchEntries

/-- `SetBatchLimit`. -/
def setBatchLimit (n : Int) : Proposer :=
  { p with batchLimitOverride := if n ≤ 0 then 0 else max n.toNat minBatchLimit }

/-- `ShrinkBatchLimit`. -/
def shrinkBatchLimit : Proposer :=
  { p with batchLimitOverride := max (p.effectiveBatchLimit / 2) minBatchLimit }

/-- `BuildBatch`. -/
def buildBatch : Option MsgBatchSettlement :=
  if p.clearedTasks.isEmpty then none
  else
    let entries := p.clearedTasks.take p.effectiveBatchLimit
    let root := (Settlement.computeMerkleRoot env.chain entries).getD []
    some ⟨p.address, root, entries, env.signMerkleRoot root, UInt32.ofNat entries.length⟩

/-- `CommitBatch`. -/
def commitBatch : Proposer :=
  { p with clearedTasks := if p.clearedTasks.length ≤ p.effectiveBatchLimit then []
      else p.clearedTasks.drop p.effectiveBatchLimit }

/-! ## audits -/

/-- `CollectSecondVerificationResponse`; the third response makes the audit ready. -/
def collectSecondVerificationResponse (resp : SecondVerificationResponse) : Proposer :=
  let responses := (p.pendingAudits.get resp.taskId).getD []
  if 3 ≤ responses.length ||
      (responses.map (·.secondVerifierAddr)).contains resp.secondVerifierAddr then p
  else if responses.length < 2 then
    { p with pendingAudits := p.pendingAudits.put resp.taskId (responses ++ [resp]) }
  else
    { p with
      readyAudits := p.readyAudits ++ [⟨resp.taskId, p.currentEpoch, responses ++ [resp]⟩]
      pendingAudits := p.pendingAudits.erase resp.taskId }

/-- `SetCurrentEpoch`. -/
def setCurrentEpoch (epoch : Int) : Proposer :=
  { p with currentEpoch := max p.currentEpoch epoch }

/-- The audits that fit into a batch, in order, when `used` entries are taken. -/
def fitting (used : Nat) : List ReadyAuditEntry → List ReadyAuditEntry
  | [] => []
  | ra :: rest =>
      if maxSecondVerificationBatchEntries < used + ra.responses.length then []
      else ra :: fitting (used + ra.responses.length) rest

/-- `BuildAuditBatch`. -/
def buildAuditBatch : Proposer × Option MsgSecondVerificationResultBatch :=
  if p.readyAudits.isEmpty || p.address = "" then (p, none)
  else
    let taken := fitting 0 p.readyAudits
    let entries := taken.flatMap (·.entries env)
    if entries.isEmpty then (p, none)
    else ({ p with auditBatchInFlight := taken.length }, some ⟨p.address, entries⟩)

theorem buildAuditBatch_cases : p.buildAuditBatch env = (p, none) ∨
    p.buildAuditBatch env = ({ p with auditBatchInFlight := (fitting 0 p.readyAudits).length },
      some ⟨p.address, (fitting 0 p.readyAudits).flatMap (·.entries env)⟩) := by
  grind [buildAuditBatch]

/-- `CommitAuditBatch`. -/
def commitAuditBatch : Proposer :=
  { p with
    auditBatchInFlight := 0
    readyAudits := if p.auditBatchInFlight ≤ p.readyAudits.length then
      p.readyAudits.drop p.auditBatchInFlight else p.readyAudits }

end Proposer

/-! ## runs -/

inductive Event
  | receipt (now : UInt64) (receipt : InferReceipt)
  | request (req : InferRequest)
  | assignTask (now : UInt64) (taskId : TaskId)
  | output (taskId : TaskId) (output : String)
  | verifyResult (result : VerifyResult)
  | setActiveWorkers (workers : List RankedWorker)
  | processPending (now : UInt64) (blockHash : Bytes) (order : List TaskId)
  | setBatchLimit (n : Int)
  | shrinkBatchLimit
  | buildBatch
  | commitBatch
  | response (resp : SecondVerificationResponse)
  | setCurrentEpoch (epoch : Int)
  | buildAuditBatch
  | commitAuditBatch
  deriving DecidableEq

/-- The proposer and the log of its batches: those that were built last and are not yet
committed, what was ever cleared or completed, the entries and the batches that were
committed, and the audits that the commits took from the queue. -/
structure Node where
  proposer : Proposer
  batch : Option MsgBatchSettlement
  cleared : List SettlementEntry
  committed : List SettlementEntry
  auditBatch : Option MsgSecondVerificationResultBatch
  completed : List ReadyAuditEntry
  sent : List MsgSecondVerificationResultBatch
  removed : List ReadyAuditEntry

namespace Node

def new (address : String) (auditRate : UInt32) : Node :=
  ⟨.new address auditRate, none, [], [], none, [], [], []⟩

/-- The proposer goes on, and the log with what it queued. -/
def update (n : Node) (p : Proposer) : Node :=
  { n with
    proposer := p
    cleared := n.cleared ++ p.clearedTasks.drop n.proposer.clearedTasks.length
    completed := n.completed ++ p.readyAudits.drop n.proposer.readyAudits.length }

def step (n : Node) : Event → Except Proposer.Fault Node
  | .receipt now receipt => .ok (n.update (n.proposer.addReceipt now receipt))
  | .request req => .ok (n.update (n.proposer.addRequest env req))
  | .assignTask now taskId => .ok (n.update (n.proposer.onAssignTask now taskId))
  | .output taskId output => .ok (n.update (n.proposer.addOutput taskId output))
  | .verifyResult result =>
      match n.proposer.addVerifyResult env result with
      | .ok p => .ok (n.update p)
      | .error _ => .ok n
  | .setActiveWorkers workers => .ok (n.update { n.proposer with activeWorkers := workers })
  | .processPending now blockHash order => do
      let r ← n.proposer.processPending env now blockHash order
      return n.update r.1
  | .setBatchLimit k => .ok (n.update (n.proposer.setBatchLimit k))
  | .shrinkBatchLimit => .ok (n.update n.proposer.shrinkBatchLimit)
  | .buildBatch => .ok { n with batch := n.proposer.buildBatch env }
  | .commitBatch => .ok { n with
      proposer := n.proposer.commitBatch
      batch := none
      committed := n.committed ++ n.batch.elim [] (·.entries) }
  | .response resp => .ok (n.update (n.proposer.collectSecondVerificationResponse resp))
  | .setCurrentEpoch epoch => .ok (n.update (n.proposer.setCurrentEpoch epoch))
  | .buildAuditBatch =>
      let (p, msg) := n.proposer.buildAuditBatch env
      .ok { n with proposer := p, auditBatch := msg }
  | .commitAuditBatch =>
      let p := n.proposer.commitAuditBatch
      .ok { n with
        proposer := p
        auditBatch := none
        sent := n.sent ++ n.auditBatch.toList
        removed := n.removed ++
          n.proposer.readyAudits.take (n.proposer.readyAudits.length - p.readyAudits.length) }

end Node

end

open Settlement (TaskId)
open Vrf (RankedWorker)
variable {env : Env}

/-- A move of the proposer on an event; `ProcessPending` makes one for each task that it
takes. -/
inductive Proposer.Moves (env : Env) (p : Proposer) : Event → Proposer → Prop
  | receipt {now : UInt64} {receipt : InferReceipt} :
      Moves env p (.receipt now receipt) (p.addReceipt now receipt)
  /-- A request, an assignment or an output. -/
  | note {event : Event} {key : TaskId} {f : TaskEvidence → TaskEvidence}
      (message : ∀ now blockHash order, event ≠ .processPending now blockHash order)
      (receipt_eq : ∀ ev, (f ev).receipt = ev.receipt)
      (verifiers_eq : ∀ ev, (f ev).verifiers = ev.verifiers) :
      Moves env p event (p.note key f receipt_eq)
  | result {result : VerifyResult} {ev : TaskEvidence}
      (found : p.pendingTasks.get result.taskId = some ev)
      (fresh : result.verifierAddr ∉ ev.verifiers.map (·.verifierAddr))
      (legit : p.legitimate env ev result.verifierAddr = true) :
      Moves env p (.verifyResult result) (p.note result.taskId (·.addResult result) fun _ => rfl)
  | tune {event : Event} {workers : List RankedWorker} {limit : Nat} {epoch : Int} :
      Moves env p event { p with
        activeWorkers := workers, batchLimitOverride := limit, currentEpoch := epoch }
  | expires {now : UInt64} {blockHash : Bytes} {order : List TaskId} {key : TaskId}
      {ev : TaskEvidence} (found : p.pendingTasks.get key = some ev)
      (few : ev.verifiers.length < 2) :
      Moves env p (.processPending now blockHash order)
        { p with pendingTasks := p.pendingTasks.erase key }
  | audits {now : UInt64} {blockHash : Bytes} {order : List TaskId} {key : TaskId}
      {ev : TaskEvidence} {receipt : InferReceipt} (mem : key ∈ order)
      (found : p.pendingTasks.get key = some ev) (received : ev.receipt = some receipt)
      (drawn : p.shouldAudit env receipt.taskId blockHash = true) :
      Moves env p (.processPending now blockHash order) { p with
        pendingTasks := p.pendingTasks.erase key
        pendingAudits := p.pendingAudits.put key [] }
  | clears {now : UInt64} {blockHash : Bytes} {order : List TaskId} {key : TaskId}
      {ev : TaskEvidence} {receipt : InferReceipt} (found : p.pendingTasks.get key = some ev)
      (received : ev.receipt = some receipt) :
      Moves env p (.processPending now blockHash order) { p with
        pendingTasks := p.pendingTasks.erase key
        clearedTasks := p.clearedTasks ++ [p.settlementEntry env ev receipt]
        activeWorkers := p.rankForDispatch env ev receipt.taskId }
  | collects {resp : SecondVerificationResponse} :
      Moves env p (.response resp) { p with
        pendingAudits := p.pendingAudits.put resp.taskId
          ((p.pendingAudits.get resp.taskId).getD [] ++ [resp]) }
  | completes {resp : SecondVerificationResponse} :
      Moves env p (.response resp) { p with
        readyAudits := p.readyAudits ++ [⟨resp.taskId, p.currentEpoch,
          (p.pendingAudits.get resp.taskId).getD [] ++ [resp]⟩]
        pendingAudits := p.pendingAudits.erase resp.taskId }

/-- The events that build or commit a batch. -/
def Event.batches : Event → Bool
  | .buildBatch | .commitBatch | .buildAuditBatch | .commitAuditBatch => true
  | _ => false

namespace Proposer

variable {p p' : Proposer} {event : Event}

/-- Entries and audits are only appended. -/
theorem Moves.appends (h : p.Moves env event p') :
    p.clearedTasks <+: p'.clearedTasks ∧ p.readyAudits <+: p'.readyAudits := by
  cases h with
  | clears => exact ⟨List.prefix_append _ _, List.prefix_rfl⟩
  | completes => exact ⟨List.prefix_rfl, List.prefix_append _ _⟩
  | _ => exact ⟨List.prefix_rfl, List.prefix_rfl⟩

theorem get_note {key a : TaskId} {f : TaskEvidence → TaskEvidence}
    {hf : ∀ ev, (f ev).receipt = ev.receipt} : (p.note key f hf).pendingTasks.get a =
      if key = a then some (f (p.evidence key)) else p.pendingTasks.get a :=
  p.pendingTasks.get_set key a _ fun r h => p.keyed_evidence key r (hf _ ▸ h)

theorem get_addReceipt {now : UInt64} {receipt : InferReceipt} {a : TaskId} :
    (p.addReceipt now receipt).pendingTasks.get a =
      if receipt.taskId = a then
        some { p.evidence receipt.taskId with receipt := some receipt, receivedAt := now }
      else p.pendingTasks.get a :=
  p.pendingTasks.get_set _ a _ fun _ h => congrArg _ (Option.some.inj h).symm

/-- A receipt comes from evidence that is stored. -/
theorem get_of_receipt {key : TaskId} (h : (p.evidence key).receipt.isSome = true) :
    p.pendingTasks.get key = some (p.evidence key) := by
  unfold evidence at h ⊢
  cases hget : p.pendingTasks.get key with
  | none => simp [hget, TaskEvidence.empty] at h
  | some ev => rfl

theorem addVerifyResult_moves {result : VerifyResult} :
    OnValue (p.Moves env (.verifyResult result)) (p.addVerifyResult env result) := by
  unfold addVerifyResult
  cases hfound : p.pendingTasks.get result.taskId with
  | none => exact .error
  | some ev =>
    exact .ensure fun _ => .ensure fun _ => .ensure fun hfresh => .ensure fun hlegit =>
      .ok (.result hfound (by simpa using hfresh) hlegit)

theorem processTask_moves {now : UInt64} {blockHash : Bytes} {order : List TaskId}
    {audits : List TaskId} {key : TaskId} (hkey : key ∈ order) :
    OnValue (fun r => p.Moves env (.processPending now blockHash order) r.1)
    (processTask env now blockHash (p, audits) key) := by
  dsimp only [processTask]
  cases hfound : p.pendingTasks.get key with
  | none => exact .ok .tune
  | some ev =>
    dsimp only
    cases hreceipt : ev.receipt with
    | none => exact .ok .tune
    | some receipt =>
      exact .either (.ok .tune) <| .either .error <|
        .ite (fun hfew => .ok (.expires hfound hfew)) fun _ =>
        .ite (fun hdrawn => .ok (.audits hkey hfound hreceipt hdrawn))
          fun _ => .ok (.clears hfound hreceipt)

theorem collectSecondVerificationResponse_moves {resp : SecondVerificationResponse} :
    p.Moves env (.response resp) (p.collectSecondVerificationResponse resp) := by
  unfold collectSecondVerificationResponse
  dsimp only
  split
  · exact .tune
  · split
    · exact .collects
    · exact .completes

end Proposer

namespace Node

variable {n : Node} {p p' : Proposer} {event : Event}

theorem update_self : n.update n.proposer = n := by
  simp [update]

theorem update_update (h : n.proposer.clearedTasks <+: p.clearedTasks ∧
    n.proposer.readyAudits <+: p.readyAudits)
    (h' : p.clearedTasks <+: p'.clearedTasks ∧ p.readyAudits <+: p'.readyAudits) :
    (n.update p).update p' = n.update p' := by
  obtain ⟨⟨cs, hcs⟩, rs, hrs⟩ := h
  obtain ⟨⟨cs', hcs'⟩, rs', hrs'⟩ := h'
  simp only [update, ← hcs', ← hrs', ← hcs, ← hrs, List.append_assoc, List.drop_left]
  simp only [← List.append_assoc, List.drop_left]

/-- **The rule for invariants**: what every move keeps, and the building and the commits of
the batches.  Only `ProcessPending` makes more than one move. -/
theorem step_rule {P : Node → Prop} (hn : P n)
    (hmove : ∀ m p, P m → ((∀ now blockHash order, event ≠ .processPending now blockHash order) →
    m = n) → m.proposer.Moves env event p → P (m.update p))
    (hbatch : event.batches = true → OnValue P (n.step env event)) :
    OnValue P (n.step env event) := by
  cases event with
  | buildBatch | commitBatch | buildAuditBatch | commitAuditBatch => exact hbatch rfl
  | receipt => exact hmove _ _ hn (fun _ => rfl) .receipt
  | request | assignTask | output =>
    refine hmove _ _ hn (fun _ => rfl) (.note ?_ ?_ ?_)
    · nofun
    all_goals exact fun _ => rfl
  | setActiveWorkers | setBatchLimit | shrinkBatchLimit | setCurrentEpoch =>
    exact hmove _ _ hn (fun _ => rfl) .tune
  | response => exact hmove _ _ hn (fun _ => rfl) Proposer.collectSecondVerificationResponse_moves
  | verifyResult result =>
    rw [step]
    cases htaken : n.proposer.addVerifyResult env result with
    | error => exact hn
    | ok => exact hmove _ _ hn (fun _ => rfl) (Proposer.addVerifyResult_moves.get htaken)
  | processPending now blockHash order =>
    -- each turn of the loop moves the node on
    refine .after fun r hr => .ok (foldlM_invariant (P := fun acc =>
      (n.proposer.clearedTasks <+: acc.1.clearedTasks ∧
        n.proposer.readyAudits <+: acc.1.readyAudits) ∧ P (n.update acc.1))
      (fun acc acc' key hkey hacc hturn => ?_) ?_ hr).2
    · have hmoves := (Proposer.processTask_moves hkey).get hturn
      refine ⟨⟨hacc.1.1.trans hmoves.appends.1, hacc.1.2.trans hmoves.appends.2⟩, ?_⟩
      rw [← update_update hacc.1 hmoves.appends]
      exact hmove _ _ hacc.2 (fun h => absurd rfl (h _ _ _)) hmoves
    · exact ⟨⟨List.prefix_rfl, List.prefix_rfl⟩, update_self.symm ▸ hn⟩

end Node

/-! ## a small node

Every signature is good. -/

def devEnv : Env :=
  ⟨Settlement.devEnv, Registry.devEnv.toVrf, fun _ => "", fun _ => "", fun _ => "", id⟩

def devReceipt (t : TaskId) : InferReceipt :=
  ⟨t, [], List.replicate 5 0, [], [], List.replicate 5 0, [], 0, 0, 0⟩

def devResult (t : TaskId) (k : UInt8) : VerifyResult :=
  ⟨t, List.replicate 33 k, true, 0, 0, [], [1], 0, 0⟩

/-- The messages that finish a task. -/
def devTask (t : TaskId) : List Event :=
  .receipt 0 (devReceipt t) :: [1, 2, 3].map fun k => .verifyResult (devResult t k)

end FunaiChain.P2p
