import FunaiChain.Modelreg.Keeper
import Mathlib.Data.List.Sort

/-!
# FunaiChain.Vrf.Keeper

The module `x/vrf`: the keys and stakes it knows of the workers, the ranking of
workers by score, the leaders of the models, the committee and the seed.

A score is a `big.Float` computed from the seed and the worker alone; it is a
rational number here, given by the environment.  Ties are broken by the text of
the address, so that a ranking does not depend on the order of its input
(`ranking_order_free`).
-/

namespace FunaiChain.Vrf

open Modelreg (ModelId Float64)

/-! ## types -/

/-- The exponents of the stake. -/
inductive VRFAlpha
  | dispatch
  | verification
  | secondThirdVerification
  deriving DecidableEq, Repr

/-- A worker in a ranking; the selections below leave reputation and latency unset. -/
structure RankedWorker where
  address : Addr
  pubkey : Bytes
  stake : Int
  reputation : Float64
  avgLatencyMs : UInt32
  deriving DecidableEq, Repr

/-- What the module knows of a worker: the fields that the application fills in. -/
structure WorkerStatus where
  pubkey : Bytes
  stake : Int
  deriving DecidableEq, Repr

structure LeaderInfo where
  address : Addr
  modelId : ModelId
  startBlock : Int
  endBlock : Int
  lastHeartbeat : Int
  deriving DecidableEq, Repr

structure CommitteeMember where
  address : Addr
  vrfHash : Bytes
  deriving DecidableEq, Repr

structure CommitteeInfo where
  members : List CommitteeMember
  rotationBlock : Int
  epoch : UInt64
  deriving DecidableEq, Repr

structure VRFSeed where
  value : Bytes
  blockHeight : Int
  deriving DecidableEq, Repr

structure Params where
  leaderEpochDuration : Int
  heartbeatInterval : Int
  leaderTimeoutBlocks : Int
  committeeSize : UInt64
  committeeRotation : Int
  consensusThreshold : UInt64
  timeoutProofPercent : UInt64
  deriving DecidableEq, Repr

namespace Params

/-- `DefaultParams`. -/
def default : Params where
  leaderEpochDuration := 6
  heartbeatInterval := 1
  leaderTimeoutBlocks := 1
  committeeSize := 100
  committeeRotation := 120
  consensusThreshold := 70
  timeoutProofPercent := 70

end Params

/-- The stores of the module. -/
structure State where
  statuses : Store Addr WorkerStatus
  leaders : Table ModelId LeaderInfo fun id l => l.modelId = id
  committee : Option CommitteeInfo
  seed : Option VRFSeed
  params : Params

/-- What the module uses from outside. -/
structure Env where
  sha256 : Bytes → Bytes
  /-- The score of `RankWorkers` for a role, a seed and a worker. -/
  score : VRFAlpha → Bytes → RankedWorker → ℚ
  /-- The bech32 text of an address. -/
  addressText : Addr → String
  addressText_inj : ∀ a b, addressText a = addressText b → a = b
  /-- The address that may change the seed. -/
  authority : String

/-- The block that a function runs in. -/
structure Block where
  height : Int
  headerHash : Bytes
  deriving DecidableEq, Repr

inductive Err
  | noEligibleWorkers
  | noRegisteredPubkey (modelId : ModelId)
  | leaderNotFound
  | notLeader
  | unauthorized (expected got : String)
  | invalidVRFProof (text : String)
  | invalidModelId (text : String)
  deriving DecidableEq, Repr

def State.empty (params : Params) : State := ⟨∅, ∅, none, none, params⟩

/-- The text that the first seed is. -/
def genesisSeed : VRFSeed := ⟨Utf8.bytes "funai-genesis-seed-v1", 0⟩

/-- `GetCurrentSeed`. -/
def State.getCurrentSeed (s : State) : VRFSeed := s.seed.getD genesisSeed

/-! ## ranking -/

section Ranking
variable (env : Env)

/-- The order of `RankWorkers`: the lower score first, then the lower address. -/
def RanksBefore (alpha : VRFAlpha) (seed : Bytes) (a b : RankedWorker) : Prop :=
  env.score alpha seed a < env.score alpha seed b ∨
    env.score alpha seed a = env.score alpha seed b ∧
      env.addressText a.address ≤ env.addressText b.address

instance (alpha : VRFAlpha) (seed : Bytes) : DecidableRel (RanksBefore env alpha seed) :=
  fun _ _ => inferInstanceAs (Decidable (_ < _ ∨ _ = _ ∧ _ ≤ _))

/-- `RankWorkers`. -/
def rankWorkers (seed : Bytes) (workers : List RankedWorker) (alpha : VRFAlpha) :
    List RankedWorker :=
  workers.insertionSort (RanksBefore env alpha seed)

variable (block : Block) (onlineWorkers : ModelId → List Addr) (s : State) (modelId : ModelId)

/-- A worker that can be ranked: one whose key the module knows.  A stake that is not
positive counts as one. -/
def State.rankedWorker (addr : Addr) : Option RankedWorker :=
  match s.statuses.get addr with
  | none => none
  | some ws =>
      if ws.pubkey = [] then none
      else some ⟨addr, ws.pubkey, if 0 < ws.stake then ws.stake else 1, 0, 0⟩

/-- The block hash, or the seed where there is none. -/
def State.entropy (block : Block) : Bytes :=
  if block.headerHash = [] then s.getCurrentSeed.value else block.headerHash

/-! ## the committee -/

/-- `int(n)` of a `uint64`. -/
def asInt (n : UInt64) : Int := n.toBitVec.toInt

/-- `SelectCommittee`. -/
def selectCommittee (eligibleWorkers : List Addr) : Exec (Except Err (State × CommitteeInfo)) :=
  let committeeSize : Int :=
    if (eligibleWorkers.length : Int) < asInt s.params.committeeSize then eligibleWorkers.length
    else asInt s.params.committeeSize
  if committeeSize = 0 then .ok (.error .noEligibleWorkers)
  else
    let seedBytes := env.sha256 (s.entropy block)
    let ranked := eligibleWorkers.filterMap s.rankedWorker
    if ranked = [] then .ok (.error .noEligibleWorkers)
    else
      let ranked := rankWorkers env seedBytes ranked .dispatch
      let members := (ranked.take committeeSize.toNat).map fun r =>
        ⟨r.address, env.sha256 (seedBytes ++ r.pubkey)⟩
      if s.params.committeeRotation = 0 then .error .divisionByZero
      else
        let epoch := UInt64.ofInt block.height / UInt64.ofInt s.params.committeeRotation
        let committee := ⟨members, block.height, epoch⟩
        .ok (.ok ({ s with committee := some committee }, committee))

/-- `HandleCommitteeRotation`: a committee that cannot be selected is left as it is. -/
def handleCommitteeRotation (eligibleWorkers : List Addr) : Exec State :=
  let due := match s.committee with
    | none => true
    | some committee =>
        decide (s.params.committeeRotation ≤ block.height - committee.rotationBlock)
  if due then do
    match ← selectCommittee env block s eligibleWorkers with
    | .ok (s', _) => return s'
    | .error _ => return s
  else .ok s

/-! ## leaders -/

def State.setLeaderInfo (leader : LeaderInfo) : State :=
  { s with leaders := s.leaders.set leader.modelId leader rfl }

/-- `SelectLeader`. -/
def selectLeader (onlineWorkers : List Addr) : Except Err (State × Addr) :=
  if onlineWorkers = [] then .error .noEligibleWorkers
  else
    let seedBytes := env.sha256 (modelId ++ [0] ++ s.entropy block)
    match rankWorkers env seedBytes (onlineWorkers.filterMap s.rankedWorker) .dispatch with
    | [] => .error (.noRegisteredPubkey modelId)
    | leader :: _ =>
        .ok (s.setLeaderInfo ⟨leader.address, modelId, block.height,
          block.height + s.params.leaderEpochDuration, block.height⟩, leader.address)

/-- An election whose error is ignored. -/
def reelect (onlineWorkers : List Addr) : State :=
  match selectLeader env block s modelId onlineWorkers with
  | .ok (s', _) => s'
  | .error _ => s

/-- One turn of the loop of `CheckLeaderTimeouts`. -/
def checkLeaderTimeout : State :=
  match s.leaders.get modelId with
  | none => s
  | some leader =>
      if leader.endBlock ≤ block.height ∨
          s.params.leaderTimeoutBlocks < block.height - leader.lastHeartbeat then
        reelect env block s modelId (onlineWorkers modelId)
      else s

/-- `CheckLeaderTimeouts`. -/
def checkLeaderTimeouts (activeModelIds : List ModelId) (onlineWorkers : ModelId → List Addr) :
    State :=
  activeModelIds.foldl (checkLeaderTimeout env block onlineWorkers) s

/-- `UpdateLeaderHeartbeat`. -/
def updateLeaderHeartbeat (sender : Addr) : Except Err State :=
  match s.leaders.get modelId with
  | none => .error .leaderNotFound
  | some leader =>
      if leader.address ≠ sender then .error .notLeader
      else .ok (s.setLeaderInfo { leader with lastHeartbeat := block.height })

/-! ## the seed -/

/-- The first 32 bytes, filled up with zeros. -/
def seedBytes32 (value : Bytes) : Bytes := (value ++ List.replicate 32 0).take 32

/-- `UpdateSeed`. -/
def updateSeed (vrfValues : List Bytes) : State :=
  let mixed := vrfValues.foldl
    (fun acc value => acc.zipWith (· ^^^ ·) (env.sha256 value))
    (seedBytes32 s.getCurrentSeed.value)
  { s with seed := some ⟨env.sha256 mixed, block.height⟩ }

/-- `MsgSubmitVRFProof.ValidateBasic`, without the creator. -/
def validateVRFProof (proof value : Bytes) : Except Err Unit := do
  ensure (proof != []) (.invalidVRFProof "proof cannot be empty")
  ensure (value != []) (.invalidVRFProof "value cannot be empty")

/-- `SubmitVRFProof`: only the authority may change the seed. -/
def submitVRFProof (creator : String) (value : Bytes) : Except Err State := do
  ensure (creator == env.authority) (.unauthorized env.authority creator)
  return updateSeed env block s [value]

/-! ## the order in which the workers are listed -/

variable {env} {alpha : VRFAlpha} {seed : Bytes} {a b : RankedWorker} {s : State} {addr : Addr}
  {workers ranked : List RankedWorker} {eligible eligible' : List Addr}

instance : Std.Total (RanksBefore env alpha seed) where
  total a b := by
    rcases Std.lt_trichotomy (env.score alpha seed a) (env.score alpha seed b) with hlt | heq | hgt
    · exact .inl (.inl hlt)
    · exact (String.le_total _ _).imp (fun h => .inr ⟨heq, h⟩) fun h => .inr ⟨heq.symm, h⟩
    · exact .inr (.inl hgt)

instance : IsTrans RankedWorker (RanksBefore env alpha seed) where
  trans a b c := by
    rintro (hab | ⟨hab, hab'⟩) (hbc | ⟨hbc, hbc'⟩)
    · exact .inl (hab.trans hbc)
    · exact .inl (hbc ▸ hab)
    · exact .inl (hab ▸ hbc)
    · exact .inr ⟨hab.trans hbc, String.le_trans hab' hbc'⟩

/-- Two workers that may stand in either order have one address. -/
theorem RanksBefore.address_eq (hab : RanksBefore env alpha seed a b)
    (hba : RanksBefore env alpha seed b a) : a.address = b.address := by
  apply env.addressText_inj
  rcases hab with hab | ⟨hab, hab'⟩ <;> rcases hba with hba | ⟨hba, hba'⟩
  · exact absurd hba hab.not_gt
  · exact absurd hba hab.ne'
  · exact absurd hab hba.ne'
  · exact String.le_antisymm hab' hba'

theorem perm_rankWorkers : (rankWorkers env seed workers alpha).Perm workers :=
  List.perm_insertionSort _ _

theorem pairwise_rankWorkers :
    (rankWorkers env seed workers alpha).Pairwise (RanksBefore env alpha seed) :=
  List.pairwise_insertionSort _ _

/-- A ranking is the only sorted arrangement of its workers, so that it does not matter which
sort makes it. -/
theorem eq_rankWorkers (hone : ∀ a ∈ workers, ∀ b ∈ workers, a.address = b.address → a = b)
    (hperm : ranked.Perm workers) (hsorted : ranked.Pairwise (RanksBefore env alpha seed)) :
    ranked = rankWorkers env seed workers alpha := by
  refine List.Perm.eq_of_pairwise (fun a b ha hb hab hba => ?_) hsorted pairwise_rankWorkers
    (hperm.trans perm_rankWorkers.symm)
  exact hone a (hperm.subset ha) b (perm_rankWorkers.subset hb) (hab.address_eq hba)

theorem rankedWorker_address (h : s.rankedWorker addr = some a) : a.address = addr := by
  unfold State.rankedWorker at h
  split at h <;> grind

/-- The order of the listing does not matter to a ranking. -/
theorem rankWorkers_filterMap (hperm : eligible'.Perm eligible) :
    rankWorkers env seed (eligible'.filterMap s.rankedWorker) alpha =
    rankWorkers env seed (eligible.filterMap s.rankedWorker) alpha := by
  refine eq_rankWorkers (fun a ha b hb h => ?_)
    (perm_rankWorkers.trans (hperm.filterMap _)) pairwise_rankWorkers
  obtain ⟨x, -, hx⟩ := List.mem_filterMap.mp ha
  obtain ⟨y, -, hy⟩ := List.mem_filterMap.mp hb
  rw [← rankedWorker_address hx, h, rankedWorker_address hy, hy] at hx
  exact (Option.some.inj hx).symm

/-- Rankings and selections do not depend on the order in which the workers are listed. -/
theorem ranking_order_free (env : Env) :
    (∀ (seed : Bytes) (alpha : VRFAlpha) (workers workers' : List RankedWorker),
      (workers.map RankedWorker.address).Nodup → workers'.Perm workers →
        rankWorkers env seed workers' alpha = rankWorkers env seed workers alpha ∧
        (rankWorkers env seed workers alpha).Perm workers ∧
        (rankWorkers env seed workers alpha).Pairwise (RanksBefore env alpha seed) ∧
        ∀ ranked, ranked.Perm workers → ranked.Pairwise (RanksBefore env alpha seed) →
          ranked = rankWorkers env seed workers alpha) ∧
    ∀ (block : Block) (s : State) (eligible eligible' : List Addr), eligible'.Perm eligible →
      selectCommittee env block s eligible' = selectCommittee env block s eligible ∧
      ∀ modelId, selectLeader env block s modelId eligible' =
        selectLeader env block s modelId eligible := by
  refine ⟨fun seed alpha workers workers' hnodup hperm => ?_, fun block s _ _ hperm => ?_⟩
  · have hone : ∀ a ∈ workers, ∀ b ∈ workers, a.address = b.address → a = b :=
      fun _ ha _ hb => List.inj_on_of_nodup_map hnodup ha hb
    exact ⟨eq_rankWorkers hone (perm_rankWorkers.trans hperm) pairwise_rankWorkers,
      perm_rankWorkers, pairwise_rankWorkers, fun _ => eq_rankWorkers hone⟩
  · have hnil := (hperm.filterMap s.rankedWorker).length_eq
    constructor
    · simp only [selectCommittee, hperm.length_eq, rankWorkers_filterMap hperm,
        ← List.length_eq_zero_iff, hnil]
    · intro modelId
      simp only [selectLeader, rankWorkers_filterMap hperm, ← List.length_eq_zero_iff,
        hperm.length_eq]

end Ranking

end FunaiChain.Vrf
