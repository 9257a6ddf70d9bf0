import FunaiChain.Sdk

/-!
# FunaiChain.Worker.Keeper

The part of `x/worker` that settlement calls: jailing, slashing and
tombstoning a worker, and the statistics written after a settled task.  The
worker store and the bank live in a `World`; every call here returns the new
world or panics.

Registration, staking, exit and the validator set are other messages of that
module; towards settlement they appear as arbitrary changes of the worker
store (`FunaiChain.Settlement.Chain`).  The callbacks into the model registry
write statistics of that module only, and panic when the active stake does not
fit an `int64`, which a `Sound` world excludes.  They are written out in
`FunaiChain.Registry.Keeper`.
-/

namespace FunaiChain

variable {w w' : World} {addr : Addr} {worker : Worker} {recipient : Option Addr} {percent : UInt32}
  {height : Int} {fee : Coin}

inductive WorkerStatus
  | active
  | jailed
  | exiting
  | exited
  deriving DecidableEq, Repr

/-- The fields of `types.Worker` that the calls below read or write. -/
structure Worker where
  address : Addr
  pubkey : String
  stake : Coin
  status : WorkerStatus
  jailCount : UInt32
  jailed : Bool
  jailUntil : Int
  tombstoned : Bool
  successStreak : UInt32
  totalTasks : UInt64
  totalFeeEarned : Coin
  lastActiveBlock : Int
  reputationScore : UInt32
  consecutiveRejects : UInt32
  avgLatencyMs : UInt32
  deriving DecidableEq, Repr

/-- `IsActive`. -/
def isActive (worker : Worker) : Bool :=
  worker.status == .active && !worker.jailed && !worker.tombstoned

/-- The stake of a worker while it is active. -/
def Worker.activeStake (worker : Worker) : Int :=
  if isActive worker then worker.stake.amount else 0

/-- The worker parameters that jailing and slashing read. -/
structure WorkerParams where
  jail1Duration : Int
  jail2Duration : Int
  slashFraudPercent : UInt32
  jailDecayInterval : UInt32
  deriving DecidableEq, Repr

namespace WorkerParams

/-- `DefaultParams`. -/
def default : WorkerParams where
  jail1Duration := 120
  jail2Duration := 720
  slashFraudPercent := 5
  jailDecayInterval := 1000

end WorkerParams

/-- The bank and the worker store. -/
structure World where
  bank : Bank
  workers : Table Addr Worker fun a w => w.address = a
  workerParams : WorkerParams

def reputationInitial : UInt32 := 10000
def reputationMax : UInt32 := 12000
def reputationAcceptDelta : UInt32 := 100

namespace World

/-- `SetWorker`: the key is the worker's own address. -/
def setWorker (w : World) (worker : Worker) : World :=
  { w with workers := w.workers.set worker.address worker rfl }

theorem address_of_get (h : w.workers.get addr = some worker) : worker.address = addr :=
  w.workers.lawful addr worker h

/-- A listed worker is stored under its address. -/
theorem get_of_mem (h : worker ∈ w.workers.entries.map Prod.snd) :
    w.workers.get worker.address = some worker :=
  Table.get_of_mem w.workers.lawful h

variable (w addr)

def getWorkerPubkey : Option String :=
  (w.workers.get addr).map Worker.pubkey

/-- `GetSuccessStreak`: zero for an unknown worker. -/
def getSuccessStreak : UInt32 :=
  match w.workers.get addr with
  | none => 0
  | some worker => worker.successStreak

/-- Change a stored worker; nothing happens when it is not found. -/
def updateWorker (f : Worker → Worker) (hf : ∀ worker, (f worker).address = worker.address) :
    World :=
  match h : w.workers.get addr with
  | none => w
  | some worker =>
      have law : (f worker).address = addr := (hf worker).trans (address_of_get h)
      { w with workers := w.workers.set addr (f worker) law }

theorem get_setWorker (worker : Worker) (b : Addr) : (w.setWorker worker).workers.get b =
      if worker.address = b then some worker else w.workers.get b :=
  Table.get_set w.workers worker.address b worker rfl

theorem get_updateWorker (f : Worker → Worker)
    (hf : ∀ worker, (f worker).address = worker.address) (b : Addr) :
    (w.updateWorker addr f hf).workers.get b =
      if addr = b then (w.workers.get addr).map f else w.workers.get b := by
  unfold updateWorker
  grind

variable {w addr}

theorem updateWorker_of_none (h : w.workers.get addr = none) (f : Worker → Worker)
    (hf : ∀ worker, (f worker).address = worker.address) : w.updateWorker addr f hf = w := by
  unfold updateWorker
  split
  · rfl
  · next hget => simp [h] at hget

/-- Changing a stored worker is writing the changed record. -/
theorem updateWorker_of_get (h : w.workers.get addr = some worker) (f : Worker → Worker)
    (hf : ∀ worker, (f worker).address = worker.address) :
    w.updateWorker addr f hf = w.setWorker (f worker) := by
  have haddr : (f worker).address = addr := (hf worker).trans (address_of_get h)
  unfold updateWorker
  split
  · next hget => simp [h] at hget
  · next worker' hget =>
    cases h.symm.trans hget
    have hrows : w.workers.set addr (f worker) haddr = (w.setWorker (f worker)).workers :=
      Table.ext_get fun b => by rw [Table.get_set, get_setWorker, haddr]
    exact congrArg (fun workers => { w with workers := workers }) hrows

variable (host : Host)

/-- Where slashed coins go: to the recipient, or nowhere (`BurnCoins`). -/
def moveSlashed (b : Bank) (recipient : Option Addr) (c : Coin) : Option Bank :=
  match recipient with
  | some r => host.sendCoinsFromModuleToAccount b host.workerAccount r c
  | none => b.debit host.workerAccount c

section
variable (height : Int) (w : World) (addr : Addr)

/-- `slashWorkerInternal`: the slashed share of the stake is sent to the
recipient, or burned when there is none.  A failing send leaves the stake. -/
def slashWorkerInternal (percent : UInt32) (recipient : Option Addr) : Exec World :=
  match w.workers.get addr with
  | none => .ok w
  | some worker =>
      if worker.stake.isZero then .ok w
      else do
        let slashAmount ← MathInt.share worker.stake.amount percent 100
        if slashAmount = 0 then return w
        let slashCoin ← Coin.new worker.stake.denom slashAmount
        match moveSlashed host w.bank recipient slashCoin with
        | none => return w
        | some bank =>
            let stake ← worker.stake.sub slashCoin
            return { w with bank := bank }.setWorker { worker with stake := stake }

def slashWorker (percent : UInt32) : Exec World :=
  slashWorkerInternal host w addr percent none

/-- `TombstoneWorker`. -/
def tombstoneWorker : World :=
  match w.workers.get addr with
  | none => w
  | some worker =>
      if worker.tombstoned then w
      else w.setWorker
        { worker with tombstoned := true, status := .jailed, jailed := true, jailUntil := 0 }

/-- `JailWorker`: the first two jailings are timed, the third slashes and
tombstones.  The third branch reads the worker again after the slash, so the
raised jail count and the cleared streak of that branch are not stored. -/
def jailWorker : Exec World :=
  match w.workers.get addr with
  | none => .ok w
  | some worker =>
      if worker.tombstoned then .ok w
      else
        let jailCount := worker.jailCount + 1
        if 3 ≤ jailCount then do
          let w ← slashWorker host w addr w.workerParams.slashFraudPercent
          return w.updateWorker addr
            (fun worker => { worker with
              tombstoned := true, status := .jailed, jailed := true, jailUntil := 0 })
            fun _ => rfl
        else
          let jailDuration :=
            if jailCount = 1 then w.workerParams.jail1Duration else w.workerParams.jail2Duration
          .ok (w.setWorker { worker with
            jailCount := jailCount, successStreak := 0, jailed := true, status := .jailed,
            jailUntil := height + jailDuration })

/-- `IncrementSuccessStreak`. -/
def incrementSuccessStreak : World :=
  w.updateWorker addr
    (fun worker =>
      let streak := worker.successStreak + 1
      if w.workerParams.jailDecayInterval ≤ streak then
        { worker with
          jailCount := if 0 < worker.jailCount then worker.jailCount - 1 else worker.jailCount
          successStreak := 0 }
      else { worker with successStreak := streak })
    fun worker => by dsimp only; split <;> rfl

/-- `UpdateWorkerStats`. -/
def updateWorkerStats (feeEarned : Coin) : Exec World :=
  match w.workers.get addr with
  | none => .ok w
  | some worker => do
      let total ← worker.totalFeeEarned.add feeEarned
      return w.setWorker { worker with
        totalTasks := worker.totalTasks + 1
        totalFeeEarned := total
        lastActiveBlock := height }

/-- `ReputationOnAccept`; a zero score is an uninitialised one. -/
def reputationOnAccept : World :=
  w.updateWorker addr
    (fun worker =>
      let score :=
        (if worker.reputationScore = 0 then reputationInitial else worker.reputationScore)
          + reputationAcceptDelta
      { worker with
        reputationScore := if reputationMax < score then reputationMax else score
        consecutiveRejects := 0 })
    fun _ => rfl

/-- `UpdateAvgLatency`: a moving average in 32-bit arithmetic. -/
def updateAvgLatency (latencyMs : UInt32) : World :=
  if latencyMs = 0 then w
  else w.updateWorker addr
    (fun worker => { worker with
      avgLatencyMs :=
        if worker.avgLatencyMs = 0 then latencyMs else (worker.avgLatencyMs * 4 + latencyMs) / 5 })
    fun _ => rfl

end

/-! ## what the calls leave alone

None of the calls above touches the settlement account or registers or
removes a worker.
-/

/-- The settlement account and the set of registered workers are the same. -/
structure Frame (w w' : World) : Prop where
  settlementBalance : ∀ d,
    w'.bank.balance host.settlementAccount d = w.bank.balance host.settlementAccount d
  registered : ∀ a, (w'.workers.get a).isSome = (w.workers.get a).isSome

namespace Frame

variable {host}

theorem refl (w : World) : Frame host w w := ⟨fun _ => rfl, fun _ => rfl⟩

theorem trans {w'' : World} (h : Frame host w w') (h' : Frame host w' w'') : Frame host w w'' :=
  ⟨fun d => (h'.settlementBalance d).trans (h.settlementBalance d),
    fun a => (h'.registered a).trans (h.registered a)⟩

end Frame

variable {host}

theorem frame_setWorker {worker' : Worker} (h : w.workers.get addr = some worker)
    (ha : worker'.address = worker.address) : Frame host w (w.setWorker worker') := by
  refine ⟨fun _ => rfl, fun a => ?_⟩
  have hk : worker'.address = addr := ha.trans (address_of_get h)
  simp only [setWorker, Table.get_set]
  split
  · next he => rw [← he, hk, h]; rfl
  · rfl

theorem frame_updateWorker (w : World) (addr : Addr) (f : Worker → Worker)
    (hf : ∀ worker, (f worker).address = worker.address) :
    Frame host w (w.updateWorker addr f hf) := by
  unfold updateWorker
  split
  · exact Frame.refl w
  · next worker h =>
    refine ⟨fun _ => rfl, fun a => ?_⟩
    simp only [Table.get_set]
    split
    · next he => rw [← he, h]; rfl
    · rfl

/-- Slashed coins leave the worker account for an account that may be paid, or
are burned; neither is the settlement account. -/
theorem settlementBalance_moveSlashed {b b' : Bank} {c : Coin} (hc : 0 ≤ c.amount)
    (h : moveSlashed host b recipient c = some b') (d : String) :
    b'.balance host.settlementAccount d = b.balance host.settlementAccount d := by
  have hsrc : ¬ (host.settlementAccount = host.workerAccount ∧ d = c.denom) :=
    fun e => host.accounts_differ e.1.symm
  cases recipient with
  | some dst =>
    obtain ⟨hb, hs⟩ := Host.sendCoinsFromModuleToAccount_eq_some h
    have hdst : host.settlementAccount ≠ dst := by
      rintro rfl
      rw [host.settlement_blocked] at hb
      contradiction
    have := Bank.balance_sendCoins hc hs host.settlementAccount d
    rw [if_neg hsrc, if_neg (fun e => hdst e.1)] at this
    omega
  | none =>
    simp only [moveSlashed, Bank.debit] at h
    split at h
    · rw [← Option.some.inj h]
      exact if_neg hsrc
    · contradiction

/-- **A slash** does nothing, or moves coins and lowers the stake. -/
theorem slashWorkerInternal_spec :
    OnValue (fun w' => w' = w ∨ ∃ worker bank stake amount, w.workers.get addr = some worker ∧
      0 ≤ amount ∧ moveSlashed host w.bank recipient ⟨worker.stake.denom, amount⟩ = some bank ∧
      w' = { w with bank := bank }.setWorker { worker with stake := stake })
      (slashWorkerInternal host w addr percent recipient) := by
  unfold slashWorkerInternal
  split
  · exact .ok (.inl rfl)
  next worker hw =>
  refine .either (.ok (.inl rfl)) <| .after fun amount _ => .either (.ok (.inl rfl)) <|
    .after fun coin hcoin => ?_
  obtain ⟨-, hnn, rfl⟩ := Coin.new_eq_ok.mp hcoin
  split
  · exact .ok (.inl rfl)
  · next bank hmoved =>
    exact .after fun stake _ => .ok (.inr ⟨worker, bank, stake, amount, hw, hnn, hmoved, rfl⟩)

theorem frame_slashWorkerInternal :
    OnValue (Frame host w) (slashWorkerInternal host w addr percent recipient) := by
  refine slashWorkerInternal_spec.mono ?_
  rintro w' (rfl | ⟨worker, bank, stake, amount, hw, hnn, hmoved, rfl⟩)
  · exact Frame.refl _
  · have hbank : Frame host w { w with bank := bank } :=
      ⟨settlementBalance_moveSlashed hnn hmoved, fun _ => rfl⟩
    exact hbank.trans (frame_setWorker (w := { w with bank := bank }) hw rfl)

theorem frame_tombstoneWorker (w : World) (addr : Addr) :
    Frame host w (w.tombstoneWorker addr) := by
  unfold tombstoneWorker
  split
  · exact Frame.refl w
  · next worker hw =>
    split
    · exact Frame.refl w
    · exact frame_setWorker hw rfl

/-- No jailing touches the settlement account or removes a record. -/
theorem frame_jailWorker : OnValue (Frame host w) (jailWorker host height w addr) := by
  unfold jailWorker
  split
  · exact .ok (Frame.refl w)
  next worker hw =>
  refine .either (.ok (Frame.refl w)) <| .either ?_ <| .ok (frame_setWorker hw rfl)
  exact frame_slashWorkerInternal.bind fun w₁ hs => .ok (hs.trans (frame_updateWorker w₁ addr _ _))

theorem frame_updateWorkerStats : OnValue (Frame host w) (updateWorkerStats height w addr fee) := by
  unfold updateWorkerStats
  split
  · exact .ok (Frame.refl w)
  · next worker hw => exact .after fun _ _ => .ok (frame_setWorker hw rfl)

theorem frame_updateAvgLatency (w : World) (addr : Addr) (latencyMs : UInt32) :
    Frame host w (w.updateAvgLatency addr latencyMs) := by
  unfold updateAvgLatency
  split
  · exact Frame.refl w
  · exact frame_updateWorker w addr _ _

end World

/-! ## when the calls return

The calls panic only on amounts that no longer fit and on coins of another
denom, here and in the callbacks.  `Sound` is what rules that out: `room` is how
much the recorded earnings may still grow.
-/

/-- A record that can be slashed, and can take `room` more of earnings. -/
@[mk_iff]
structure Worker.Sound (denom : String) (room : Int) (worker : Worker) : Prop where
  stakeDenom : validDenom worker.stake.denom = true
  stake_nonneg : 0 ≤ worker.stake.amount
  stake_lt : worker.stake.amount * 100 < 2 ^ 256
  earnedDenom : worker.totalFeeEarned.denom = denom
  earned_nonneg : 0 ≤ worker.totalFeeEarned.amount
  earned_lt : worker.totalFeeEarned.amount + room < 2 ^ 256

instance (denom : String) (room : Int) (worker : Worker) : Decidable (worker.Sound denom room) :=
  decidable_of_iff' _ (Worker.sound_iff ..)

namespace World

/-- The stake of the active workers. -/
def activeStake (w : World) : Int := w.workers.sum fun _ worker => worker.activeStake

/-- Every record is sound, no slash takes more than the stake, and the active stake is an
`int64`, as the callbacks need it. -/
@[mk_iff]
structure Sound (denom : String) (room : Int) (w : World) : Prop where
  percent : w.workerParams.slashFraudPercent.toNat ≤ 100
  worker : ∀ a worker, w.workers.get a = some worker → worker.Sound denom room
  staked : w.activeStake < 2 ^ 63

instance (denom : String) (room : Int) (w : World) : Decidable (w.Sound denom room) :=
  decidable_of_iff' _ (sound_iff ..)

variable {host : Host} {denom : String} {room : Int}

/-- A jailed worker has no active stake. -/
theorem activeStake_jailed {worker' : Worker} (hs : worker.Sound denom room)
    (hjailed : worker'.jailed = true) : worker'.activeStake ≤ worker.activeStake := by
  have hnn := hs.stake_nonneg
  have hzero : worker'.activeStake = 0 := by simp [Worker.activeStake, isActive, hjailed]
  rw [hzero, Worker.activeStake]
  split <;> omega

variable (h : w.Sound denom room)
include h

theorem Sound.mono {room' : Int} (hle : room' ≤ room) : w.Sound denom room' where
  percent := h.percent
  worker := by
    intro a worker hw
    have hs := h.worker a worker hw
    exact { hs with earned_lt := by have := hs.earned_lt; omega }
  staked := h.staked

/-- A record is replaced by a sound one with no more active stake. -/
theorem Sound.setWorker {old : Worker} (hfound : w.workers.get addr = some old)
    (haddr : worker.address = old.address) (hworker : worker.Sound denom room)
    (hstake : worker.activeStake ≤ old.activeStake) :
    (w.setWorker worker).Sound denom room where
  percent := h.percent
  worker := by
    intro a worker' hw
    simp only [World.setWorker, Table.get_set] at hw
    split at hw
    · cases hw
      exact hworker
    · exact h.worker a worker' hw
  staked := by
    have hstaked := h.staked
    unfold activeStake at *
    rw [World.setWorker, Table.sum_set, Table.part, haddr.trans (address_of_get hfound), hfound]
    dsimp only
    omega

variable (height : Int) (addr : Addr)

theorem Sound.updateWorker {f : Worker → Worker}
    (hf : ∀ worker, (f worker).address = worker.address)
    (hsound : ∀ worker, worker.Sound denom room →
    (f worker).Sound denom room ∧ (f worker).activeStake ≤ worker.activeStake) :
    (w.updateWorker addr f hf).Sound denom room := by
  cases hw : w.workers.get addr with
  | none => exact (updateWorker_of_none hw f hf).symm ▸ h
  | some worker =>
    obtain ⟨hworker, hstake⟩ := hsound worker (h.worker addr worker hw)
    rw [updateWorker_of_get hw]
    exact h.setWorker hw (hf worker) hworker hstake

/-- A share of at most the whole stake can be taken. -/
theorem slashWorker_yields (hpercent : percent.toNat ≤ 100) :
    Yields (slashWorker host w addr percent) (Sound denom room) := by
  unfold slashWorker slashWorkerInternal
  split
  · exact yields_ok h
  next worker hw =>
  split
  · exact yields_ok h
  have hs := h.worker addr worker hw
  have hmul : 0 ≤ worker.stake.amount * percent.toNat :=
    Int.mul_nonneg hs.stake_nonneg (Int.natCast_nonneg _)
  have hle : worker.stake.amount * percent.toNat ≤ worker.stake.amount * 100 :=
    Int.mul_le_mul_of_nonneg_left (by omega) hs.stake_nonneg
  have hfits : MathInt.Fits (worker.stake.amount * percent.toNat) :=
    MathInt.fits_of_nonneg hmul (by have := hs.stake_lt; omega)
  rw [MathInt.share_eq_ok.mpr ⟨by decide, hfits, rfl⟩, ok_bind, Int.tdiv_eq_ediv_of_nonneg hmul]
  generalize hamount : worker.stake.amount * percent.toNat / 100 = amount
  have hnn := hs.stake_nonneg
  have hlt := hs.stake_lt
  split
  · exact yields_ok h
  · rw [Coin.new_eq_ok.mpr ⟨hs.stakeDenom, (by omega : 0 ≤ amount), rfl⟩, ok_bind]
    split
    · exact yields_ok h
    · next bank _ =>
      have hsub : MathInt.Fits (worker.stake.amount - amount) :=
        MathInt.fits_of_nonneg (by omega) (by omega)
      have hstake : worker.stake.sub ⟨worker.stake.denom, amount⟩ =
          .ok ⟨worker.stake.denom, worker.stake.amount - amount⟩ :=
        Coin.sub_eq_ok.mpr ⟨rfl, hsub, by dsimp only; omega, rfl⟩
      rw [hstake, ok_bind]
      have hbank : { w with bank := bank }.Sound denom room := ⟨h.percent, h.worker, h.staked⟩
      refine yields_ok (hbank.setWorker hw rfl ?_ ?_)
      · exact { hs with
          stake_nonneg := by dsimp only; omega
          stake_lt := by dsimp only; omega }
      · unfold Worker.activeStake isActive
        dsimp only
        split <;> omega

/-- A jailing of a sound record returns, and the records stay sound. -/
theorem jailWorker_yields : Yields (jailWorker host height w addr) (Sound denom room) := by
  unfold jailWorker
  split
  · exact yields_ok h
  next worker hw =>
  split
  · exact yields_ok h
  dsimp only
  split
  · refine (slashWorker_yields h addr h.percent).bind fun w₁ h₁ => yields_ok ?_
    exact h₁.updateWorker addr _ fun _ hs => ⟨{ hs with }, activeStake_jailed hs rfl⟩
  · have hs := h.worker addr worker hw
    exact yields_ok (h.setWorker hw rfl { hs with } (activeStake_jailed hs rfl))

theorem Sound.incrementSuccessStreak : (w.incrementSuccessStreak addr).Sound denom room := by
  refine h.updateWorker addr _ fun worker hs => ?_
  dsimp only
  split <;> exact ⟨{ hs with }, Int.le_refl _⟩

/-- The statistics of a task use up its fee. -/
theorem updateWorkerStats_yields (hdenom : fee.denom = denom) (hnn : 0 ≤ fee.amount)
    (hle : fee.amount ≤ room) :
    Yields (updateWorkerStats height w addr fee) (Sound denom (room - fee.amount)) := by
  have hmono : w.Sound denom (room - fee.amount) := h.mono (by omega)
  unfold updateWorkerStats
  split
  · exact yields_ok hmono
  · next worker hw =>
    have hs := h.worker addr worker hw
    have hearned := hs.earned_nonneg
    have hlt := hs.earned_lt
    have hfits : MathInt.Fits (worker.totalFeeEarned.amount + fee.amount) :=
      MathInt.fits_of_nonneg (by omega) (by omega)
    rw [Coin.add_eq_ok.mpr ⟨hs.earnedDenom.trans hdenom.symm, hfits, rfl⟩, ok_bind]
    refine yields_ok (hmono.setWorker hw rfl ?_ (Int.le_refl _))
    exact { hs with
      earned_nonneg := by dsimp only; omega
      earned_lt := by dsimp only; omega }

end World

end FunaiChain
