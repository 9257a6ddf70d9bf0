import FunaiChain.P2p.Proposer

/-!
# FunaiChain.P2p.Verifier

The verifier of `p2p/verifier`, and the second verification that reuses it.

Worker and verifier compare logits at five positions.  A hash is hashed again as long as
the position it gives is used; when the search ends, the positions differ and each is that
of a token (`positions_distinct`).

An audit request repacks the evidence of a task without the signature of its worker, which
is the first thing that the verifier asks for: no audit passes (`audit_never_passes`).  The
answers do not arrive either: the node looks a second verifier up under the bytes of its
key, which no address of a request can hold (`vote_never_collected`).
-/

namespace FunaiChain.P2p

section
variable (env : Env) (outputLen : Nat)

/-- The search for a free position, which need not end: `none` when the fuel is used up. -/
def freePosition (used : List Nat) : (fuel : Nat) → Bytes → Option Nat
  | 0, _ => none
  | fuel + 1, h =>
      let pos := Settlement.beValue (h.take 4) % outputLen
      if pos ∈ used then freePosition used fuel (env.chain.sha256 h) else some pos

/-- The loop over the positions, with the used ones and those chosen so far. -/
def choosePositions (fuel : Nat) (seed : Bytes) :
    List UInt8 → List Nat × List Nat → Option (List Nat × List Nat)
  | [], acc => some acc
  | i :: is, (used, positions) => do
      let pos ← freePosition env outputLen used fuel (env.chain.sha256 (seed ++ [i]))
      choosePositions fuel seed is (pos :: used, positions ++ [pos])

/-- `SelectLogitsPositions`. -/
def selectLogitsPositions (fuel : Nat) (taskId resultHash : Bytes) (outputLen : Int) :
    Option (List Nat) :=
  if outputLen ≤ 0 then some (List.replicate 5 0)
  else if outputLen ≤ 5 then some ((List.range 5).map (· % outputLen.toNat))
  else (choosePositions env outputLen.toNat fuel (env.chain.sha256 (taskId ++ resultHash))
    [0, 1, 2, 3, 4] ([], [])).map (·.2)

structure TopTokenInfo where
  id : Int
  text : String
  /-- The bits of a float. -/
  logprob : UInt32

structure TokenInfo where
  id : Int
  logprob : UInt32
  topTokens : List TopTokenInfo

/-- The best tokens at a position, the token itself when none are given. -/
def TokenInfo.topK (t : TokenInfo) : List TopTokenInfo :=
  if t.topTokens.isEmpty then [⟨t.id, "", t.logprob⟩] else t.topTokens

variable (tokens : List TokenInfo) (positions : List Nat)

/-- `ExtractLogitsAtPositions`. -/
def extractLogitsAtPositions : List UInt32 × List UInt32 :=
  (positions.map fun pos => tokens[pos]?.elim 0 (·.logprob),
    positions.map fun pos => tokens[pos]?.elim 0 (UInt32.ofInt ·.id))

/-- `ExtractTopKAtPositions`. -/
def extractTopKAtPositions : List (List TopTokenInfo) :=
  positions.map fun pos => tokens[pos]?.elim [] (·.topK)

variable {env outputLen tokens positions} {used : List Nat} {fuel pos : Nat}

theorem freePosition_spec (hlen : 0 < outputLen) {h : Bytes}
    (hfree : freePosition env outputLen used fuel h = some pos) : pos ∉ used ∧ pos < outputLen := by
  induction fuel generalizing h with
  | zero => cases hfree
  | succ fuel ih =>
    rw [freePosition] at hfree
    split at hfree
    · exact ih hfree
    · next hunused =>
      obtain rfl := Option.some.inj hfree
      exact ⟨hunused, Nat.mod_lt _ hlen⟩

/-- Every turn adds a position that was not used; the used positions are those chosen. -/
theorem choosePositions_spec (hlen : 0 < outputLen) {seed : Bytes} {is : List UInt8}
    {used' positions' : List Nat} (hused : ∀ x, x ∈ used ↔ x ∈ positions)
    (hdistinct : positions.Nodup) (hrange : ∀ x ∈ positions, x < outputLen)
    (h : choosePositions env outputLen fuel seed is (used, positions) = some (used', positions')) :
    positions'.length = positions.length + is.length ∧ positions'.Nodup ∧
    ∀ x ∈ positions', x < outputLen := by
  induction is generalizing used positions with
  | nil =>
    cases h
    exact ⟨rfl, hdistinct, hrange⟩
  | cons i is ih =>
    obtain ⟨pos, hpos, hrest⟩ := Option.bind_eq_some_iff.mp h
    obtain ⟨hfresh, hlt⟩ := freePosition_spec hlen hpos
    obtain ⟨hlength, hspec⟩ := ih (by simp [hused, or_comm])
      (List.nodup_append.mpr ⟨hdistinct, by simp, by simp; grind⟩) (by simp; grind) hrest
    exact ⟨by simp at hlength ⊢; omega, hspec⟩

/-- **The sampled positions are distinct and in range**, and what is read there belongs to five
tokens of the output. -/
theorem positions_distinct {taskId resultHash : Bytes} {outputLen : Int} (hlen : 5 < outputLen)
    (h : selectLogitsPositions env fuel taskId resultHash outputLen = some positions) :
    positions.length = 5 ∧ positions.Nodup ∧ (∀ pos ∈ positions, (pos : Int) < outputLen) ∧
      ∀ tokens : List TokenInfo, tokens.length = outputLen → ∃ read : List TokenInfo,
        positions.map (tokens[·]?) = read.map some ∧ extractLogitsAtPositions tokens positions =
          (read.map (·.logprob), read.map (UInt32.ofInt ·.id)) ∧
        extractTopKAtPositions tokens positions = read.map (·.topK) := by
  rw [selectLogitsPositions, if_neg (by omega), if_neg (by omega)] at h
  obtain ⟨⟨_, chosen⟩, hchosen, rfl⟩ := Option.map_eq_some_iff.mp h
  obtain ⟨hlength, hdistinct, hrange⟩ :=
    choosePositions_spec (by omega) (by simp) List.nodup_nil (by simp) hchosen
  refine ⟨hlength, hdistinct, fun pos hpos => ?_, fun tokens htokens => ?_⟩
  · grind
  · have hreal : ∀ pos ∈ chosen, pos < tokens.length := fun pos hpos => by
      have hlt := hrange pos hpos
      omega
    have hread : chosen.map (tokens[·]?) =
        (chosen.pmap (fun pos h => tokens[pos]) hreal).map some := by
      rw [List.map_pmap, ← List.pmap_eq_map fun _ _ => trivial]
      exact List.pmap_congr_left _ fun pos _ _ h => List.getElem?_eq_getElem h
    have helim {α : Type} (a : α) (f : TokenInfo → α) := congrArg (List.map (·.elim a f)) hread
    simp only [List.map_map] at helim
    exact ⟨_, hread, congrArg₂ Prod.mk (helim 0 _) (helim 0 _), helim [] _⟩

/-- With the hash that turns its input round, the search ends at once. -/
theorem positions_distinct_reverse : ∃ positions,
    selectLogitsPositions { devEnv with chain := { devEnv.chain with sha256 := List.reverse } } 1 []
      [] 6 = some positions ∧ positions.Nodup := by
  obtain ⟨positions, h⟩ := Option.isSome_iff_exists.mp (show (selectLogitsPositions { devEnv with
    chain := { devEnv.chain with sha256 := List.reverse } } 1 [] [] 6).isSome by decide +kernel)
  exact ⟨positions, h, (positions_distinct (by decide) h).2.1⟩

end

open Settlement (TaskId beUInt32 batchEntrySigned decodeWorkerPubkey)
open Vrf (RankedWorker rankWorkers)
variable (env : Env)

/-! ## payloads -/

/-- What an audit reads of a request beside the fields of the settlement. -/
structure PromptedRequest extends InferRequest where
  prompt : String
  temperature : UInt16
  topP : UInt16

/-- Floats are given by their bits. -/
structure VerifyPayload where
  taskId : TaskId
  prompt : String
  output : String
  workerLogits : List UInt32
  resultHash : Bytes
  temperature : UInt32
  topP : UInt32
  finalSeed : Bytes
  sampledTokens : List UInt32
  inputTokenCount : UInt32
  outputTokenCount : UInt32
  inferenceLatencyMs : UInt32
  userSeed : Bytes
  dispatchBlockHash : Bytes
  workerAddress : String
  workerPubkey : Bytes
  workerSig : Bytes

/-- The receipt that the signature of a payload is checked on. -/
def VerifyPayload.receipt (p : VerifyPayload) : InferReceipt :=
  ⟨p.taskId, p.workerPubkey, p.workerLogits, p.resultHash, p.finalSeed, p.sampledTokens,
    p.workerSig, p.inputTokenCount, p.outputTokenCount, p.inferenceLatencyMs⟩

/-- `verifyWorkerPayloadSignature`. -/
def VerifyPayload.signed (p : VerifyPayload) : Bool :=
  !p.workerSig.isEmpty && !p.workerPubkey.isEmpty &&
    env.chain.verifySignature p.workerPubkey (p.receipt.signBytes env) p.workerSig

/-- What teacher forcing returns: of each token its id, its logit and the best tokens. -/
structure Forced where
  tokenCount : Nat
  tokens : List (UInt32 × UInt32 × List (UInt32 × UInt32))

/-- The inference engine and the functions on floats. -/
structure Engine where
  tokenize : String → Option (List UInt32)
  teacherForce : String → String → UInt32 → Option Forced
  selectLogitsPositions : Bytes → Bytes → Nat → List Nat
  extractLogits : Forced → List Nat → List UInt32
  isLogitsDegenerate : List UInt32 → Bool
  compareLogits : List UInt32 → List UInt32 → UInt8
  /-- Matches and exemptions. -/
  verifySampling : VerifyPayload → Forced → List Nat → UInt8 × UInt8
  /-- The float of a number of ten-thousandths. -/
  tenThousandths : UInt16 → UInt32

variable (eng : Engine)

/-- The payload that the worker sends out with its receipt, in `HandleTask`. -/
def InferReceipt.payload (receipt : InferReceipt) (r : PromptedRequest) (output : String)
    (userSeed blockHash : Bytes) (address : String) : VerifyPayload :=
  ⟨receipt.taskId, r.prompt, output, receipt.workerLogits, receipt.resultHash,
    eng.tenThousandths r.temperature, eng.tenThousandths r.topP, receipt.finalSeed,
    receipt.sampledTokens, receipt.inputTokenCount, receipt.outputTokenCount,
    receipt.inferenceLatencyMs, userSeed, blockHash, address, receipt.workerPubkey,
    receipt.workerSig⟩

/-! ## the verifier -/

structure Verifier where
  pubkey : Bytes
  /-- The signature with the private key, empty without one. -/
  sign : Bytes → Bytes
  activeWorkers : List RankedWorker

namespace Verifier

/-- `vrfRank`. -/
def vrfRank (v : Verifier) (p : VerifyPayload) : Option Nat :=
  let candidates := v.activeWorkers.filter fun w => env.vrf.addressText w.address != p.workerAddress
  if v.activeWorkers.isEmpty || candidates.length < 3 then some 0
  else ((rankWorkers env.vrf (p.taskId ++ p.resultHash) candidates .verification).take 21).findIdx?
    fun w => w.pubkey == v.pubkey

/-- `makeResult`. -/
def makeResult (v : Verifier) (taskId : TaskId) (pass : Bool) (logitsMatch samplingMatch : UInt8)
    (verifierLogits : List UInt32) (inputTokens outputTokens : UInt32) : VerifyResult :=
  let r : VerifyResult := ⟨taskId, v.pubkey, pass, logitsMatch, samplingMatch,
    env.chain.sha256 (verifierLogits.flatMap beUInt32 ++ taskId ++ v.pubkey), [], inputTokens,
    outputTokens⟩
  { r with signature := v.sign (env.chain.sha256 (r.signBytes env)) }

inductive Refusal
  | notEligible
  | teacherForcing
  | sliceBounds
  deriving DecidableEq, Repr

/-- `HandleVerifyRequest`, without the wait of the verifiers behind the first three. -/
def handleVerifyRequest (v : Verifier) (p : VerifyPayload) : Except Refusal VerifyResult :=
  let fail := v.makeResult env p.taskId false 0 0 (List.replicate 5 0)
  let warm := 0 < p.temperature && p.temperature ≤ 0x7F800000
  let inputTokens := (eng.tokenize p.prompt).elim 0 fun ts => UInt32.ofNat ts.length
  if v.vrfRank env p = none then .error .notEligible
  else if !p.signed env then .ok (fail 0 0)
  else if env.chain.sha256 (Utf8.bytes p.output) != p.resultHash then .ok (fail 0 0)
  else if !(p.userSeed.isEmpty && p.dispatchBlockHash.isEmpty) &&
      env.chain.sha256 (p.userSeed ++ p.dispatchBlockHash ++ p.taskId) != p.finalSeed then
    .ok (fail 0 0)
  else match eng.teacherForce p.prompt p.output p.outputTokenCount with
  | none => .error .teacherForcing
  | some forced =>
    let positions := eng.selectLogitsPositions p.taskId p.resultHash forced.tokenCount
    let logits := eng.extractLogits forced positions
    let outputTokens := UInt32.ofNat forced.tokenCount
    -- the reports cut eight bytes from the id
    if p.taskId.length < 8 then .error .sliceBounds
    else if forced.tokenCount = 0 then .ok (fail inputTokens 0)
    else if warm && (eng.tokenize p.output).any (fun ts =>
        (positions.zip p.sampledTokens).any fun x => ts[x.1]?.any (· != x.2)) then
      .ok (fail inputTokens outputTokens)
    else if eng.isLogitsDegenerate p.workerLogits || eng.isLogitsDegenerate logits then
      .ok (fail inputTokens outputTokens)
    else
      let logitsMatch := eng.compareLogits p.workerLogits logits
      let (samplingMatch, exempt) :=
        if warm && !p.finalSeed.isEmpty then eng.verifySampling p forced positions else (5, 0)
      let pass := if p.temperature <<< 1 = 0 then 4 ≤ logitsMatch
        else (5 - logitsMatch) + (5 - samplingMatch - exempt) ≤ 2
      .ok (v.makeResult env p.taskId pass logitsMatch samplingMatch logits inputTokens outputTokens)

/-- A result without a good signature of the worker does not pass. -/
theorem not_pass_of_unsigned {v : Verifier} {p : VerifyPayload} (h : p.signed env = false) :
    OnValue (fun r => r.pass = false) (v.handleVerifyRequest env eng p) := by
  unfold handleVerifyRequest
  refine .either .error <| .ite (fun _ => ?_) fun hsigned => ?_
  · exact .ok rfl
  · exact absurd h (by simpa using hsigned)

end Verifier

/-! ## second verification -/

structure AuditRequest where
  taskId : TaskId
  prompt : String
  output : String
  workerLogits : List UInt32
  sampledTokens : List UInt32
  finalSeed : Bytes
  temperature : UInt16
  topP : UInt16
  workerPubkey : Bytes
  inputTokenCount : UInt32
  outputTokenCount : UInt32

/-- `buildAuditRequest`, on the evidence and the whole request. -/
def buildAuditRequest (taskId : TaskId) (ev : TaskEvidence) (request : Option PromptedRequest) :
    Option AuditRequest :=
  match ev.receipt, request with
  | some receipt, some r => some ⟨taskId, r.prompt, ev.output, receipt.workerLogits,
      receipt.sampledTokens, receipt.finalSeed, r.temperature, r.topP, receipt.workerPubkey,
      receipt.inputTokenCount, receipt.outputTokenCount⟩
  | _, _ => none

/-- The payload of an audit: what the source does not set is empty. -/
def AuditRequest.payload (req : AuditRequest) : VerifyPayload :=
  ⟨req.taskId, req.prompt, req.output, req.workerLogits, [], eng.tenThousandths req.temperature, 0,
    req.finalSeed, req.sampledTokens, req.inputTokenCount, req.outputTokenCount, 0, [], [], "",
    req.workerPubkey, []⟩

/-- `SecondVerificationResponse.SignBytes`. -/
def SecondVerificationResponse.signBytes (r : SecondVerificationResponse) : Bytes :=
  env.chain.sha256 (r.taskId ++ [if r.pass then 1 else 0] ++ r.secondVerifierAddr ++ r.logitsHash ++
    beUInt32 r.verifiedInputTokens ++ beUInt32 r.verifiedOutputTokens)

/-- `handleAuditRequest`. -/
def Verifier.handleAuditRequest (v : Verifier) (req : AuditRequest) :
    Option SecondVerificationResponse :=
  match v.handleVerifyRequest env eng (req.payload eng) with
  | .error _ => none
  | .ok result =>
      let r : SecondVerificationResponse := ⟨req.taskId, result.pass, v.pubkey, result.logitsHash,
        [], result.verifiedInputTokens, result.verifiedOutputTokens⟩
      some { r with signature := v.sign (env.chain.sha256 (r.signBytes env)) }

/-- **No audit passes**: a second verifier that answers says that the work is bad. -/
theorem audit_never_passes (v : Verifier) (taskId : TaskId) (ev : TaskEvidence)
    (request : Option PromptedRequest) :
    ((buildAuditRequest taskId ev request).bind (v.handleAuditRequest env eng)).map (·.pass) ≠
      some true := by
  cases buildAuditRequest taskId ev request with
  | none => nofun
  | some req =>
    have hfail := Verifier.not_pass_of_unsigned env eng (v := v) (p := req.payload eng) rfl
    simp only [Option.bind_some, Verifier.handleAuditRequest]
    cases hr : v.handleVerifyRequest env eng (req.payload eng) with
    | error => nofun
    | ok result => simp [hfail.get hr]

/-- An engine that agrees with every worker. -/
def devEngine : Engine :=
  ⟨fun _ => none, fun _ _ _ => some ⟨1, []⟩, fun _ _ _ => List.replicate 5 0,
    fun _ _ => List.replicate 5 0, fun _ => false, fun _ _ => 5, fun _ _ _ => (5, 0), fun _ => 0⟩

/-- **Work that passes its verification fails its audit**, by the same verifier. -/
theorem honest_work_fails_audit :
    ∃ (v : Verifier) (ev : TaskEvidence) (r : PromptedRequest) (receipt : InferReceipt),
      ev.receipt = some receipt ∧ (v.handleVerifyRequest devEnv devEngine
        (receipt.payload devEngine r ev.output [] [] "")).toOption.map (·.pass) = some true ∧
      ((buildAuditRequest receipt.taskId ev (some r)).bind
        (v.handleAuditRequest devEnv devEngine)).map (·.pass) = some false := by
  let receipt : InferReceipt := { devReceipt (Settlement.devHash 1) with
    workerPubkey := [1], workerSig := [1], resultHash := devEnv.chain.sha256 (Utf8.bytes "") }
  exact ⟨⟨[], id, []⟩, { TaskEvidence.empty with receipt := some receipt },
    ⟨⟨[], [], 0, 0, 0, [], [], 0, 0⟩, "", 0, 0⟩, receipt, rfl, by decide +kernel, by decide +kernel⟩

/-! ## collecting the votes -/

def isHexDigit (b : UInt8) : Bool :=
  48 ≤ b && b ≤ 57 || 65 ≤ b && b ≤ 70 || 97 ≤ b && b ≤ 102

/-- Every `%` is followed by two hexadecimal digits. -/
def escaped : Bytes → Bool
  | [] => true
  | 37 :: a :: b :: rest => isHexDigit a && isHexDigit b && escaped rest
  | 37 :: _ => false
  | _ :: rest => escaped rest

/-- What `net/url` accepts at the end of a path: no control character before a `#`, and no bad
escape before a `?` or in the fragment. -/
def parsesInPath (text : Bytes) : Bool :=
  let beforeFragment := text.takeWhile (· != 35)
  beforeFragment.all (fun b => 32 ≤ b && b != 127) &&
    escaped (beforeFragment.takeWhile (· != 63)) && escaped (text.dropWhile (· != 35))

/-- `GetWorkerPubkey` of the client: `answer` is the text that the chain sends for the worker
of a path. -/
def getWorkerPubkey (answer : Bytes → String) (workerAddr : Bytes) : Option Bytes :=
  if !parsesInPath workerAddr || answer workerAddr = "" then none
  else env.chain.hexDecode (answer workerAddr)

/-- `handleSecondVerificationResponse`. -/
def Proposer.handleSecondVerificationResponse (p : Proposer) (answer : Bytes → String)
    (resp : SecondVerificationResponse) : Proposer :=
  if resp.signature.isEmpty || resp.secondVerifierAddr.isEmpty then p
  else match getWorkerPubkey env answer resp.secondVerifierAddr with
  | none => p
  | some key =>
      if key.length = 33 &&
          env.chain.verifySignature key (env.chain.sha256 (resp.signBytes env)) resp.signature then
        p.collectSecondVerificationResponse resp
      else p

/-- A compressed key of the curve: the first byte tells the sign. -/
def Compressed (key : Bytes) : Prop := key.length = 33 ∧ (key.head? = some 2 ∨ key.head? = some 3)

/-- **No vote of a second verifier is collected.**  The chain would take it: on the entry of a
response it checks the signature that the second verifier made. -/
theorem vote_never_collected {resp : SecondVerificationResponse}
    (hkey : Compressed resp.secondVerifierAddr) (p : Proposer) (answer : Bytes → String) :
    p.handleSecondVerificationResponse env answer resp = p ∧
    ∀ epoch, ∀ e ∈ (⟨resp.taskId, epoch, [resp]⟩ : ReadyAuditEntry).entries env,
      (e.taskId, e.pass, e.verifiedInputTokens, e.verifiedOutputTokens) =
        (resp.taskId, resp.pass, resp.verifiedInputTokens, resp.verifiedOutputTokens) ∧
      ∀ s a text, env.chain.accAddressFromBech32 e.secondVerifier = some a →
        s.world.getWorkerPubkey a = some text →
        decodeWorkerPubkey env.chain text = some resp.secondVerifierAddr →
          batchEntrySigned env.chain s e = env.chain.verifySignature resp.secondVerifierAddr
            (env.chain.sha256 (resp.signBytes env)) resp.signature := by
  constructor
  · obtain ⟨-, hhead⟩ := hkey
    have hlookup : getWorkerPubkey env answer resp.secondVerifierAddr = none := by
      cases hk : resp.secondVerifierAddr with
      | nil => simp [hk] at hhead
      | cons b rest =>
        rw [hk] at hhead
        have hcontrol : parsesInPath (b :: rest) = false := by
          obtain hb | hb := hhead <;> cases Option.some.inj hb <;> simp [parsesInPath]
        simp [getWorkerPubkey, hcontrol]
    unfold Proposer.handleSecondVerificationResponse
    rw [hlookup]
    exact ite_self p
  · intro epoch e he
    obtain rfl := List.mem_singleton.mp he
    refine ⟨rfl, fun s a text haddr htext hdecode => ?_⟩
    simp only [batchEntrySigned, haddr, htext, hdecode]
    rfl

/-- The node of the registered worker: its key has the worker's address. -/
def devAuditor : Env := { devEnv with keyAddress := fun _ => "worker" }

def devVote : SecondVerificationResponse := ⟨[1], true, List.replicate 33 2, [], [1], 0, 0⟩

/-- The response of the registered worker changes nothing. -/
theorem vote_never_collected_devnet :
    (Proposer.new "p" 0).handleSecondVerificationResponse devAuditor (fun _ => "key") devVote =
      .new "p" 0 :=
  (vote_never_collected devAuditor (by unfold Compressed; decide) _ _).1

/-- **A vote that the chain would take is lost.** -/
theorem registered_vote_lost :
    (∃ e ∈ (⟨devVote.taskId, 0, [devVote]⟩ : ReadyAuditEntry).entries devAuditor,
      batchEntrySigned devAuditor.chain (Settlement.devnet .default []).state e = true) ∧
    ((Proposer.new "p" 0).handleSecondVerificationResponse devAuditor (fun _ => "key")
      devVote).pendingAudits.get devVote.taskId = none ∧
    (((Proposer.new "p" 0).collectSecondVerificationResponse devVote).pendingAudits.get
      devVote.taskId).isSome = true := by
  decide +kernel

end FunaiChain.P2p
