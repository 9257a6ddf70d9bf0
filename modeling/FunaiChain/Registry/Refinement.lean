import FunaiChain.Registry.Machine

/-!
# FunaiChain.Registry.Refinement

Every event of the worker module is a sequence of steps of the abstract machine.

The proofs go function by function: one lemma says what a call that returned has
done, in terms of the labels of `FunaiChain.Registry.Machine`.
-/

namespace FunaiChain.Registry

open State

variable {env : Env} {block : Vrf.Block} {ev : Event}
variable {s s' : State} {a : Addr} {height : Int} {w w' : Worker} {b b' bank : Bank} {lab : Label}
  {c : Coin} {recipient : Option Addr} {percent : UInt32} {creator : String} {m : Modelreg.State}
  {msg : Msg} {updates : List ValidatorUpdate}

/-! ## the bank -/

namespace Label

variable {src dst x : Addr} {d : String}

/-- No coin moves. -/
theorem paid_refl (hzero : lab.coin.amount = 0) (b : Bank) : lab.Paid env b b where
  nonneg := Int.le_of_eq hzero.symm
  balance := fun x d => by simp [amountOf, hzero]
  away := fun _ _ => .inl hzero

/-- A send that goes through. -/
theorem paid_sendCoins (hpayer : lab.payer env = some src) (hpayee : lab.payee env = some dst)
    (hc : 0 ≤ lab.coin.amount) (haway : ∀ r, lab.outgo = some r → r ≠ env.workerAccount)
    (h : b.sendCoins src dst lab.coin = some b') : lab.Paid env b b' where
  nonneg := hc
  balance := fun x d => by
    rw [Bank.balance_sendCoins hc h x d, hpayer, hpayee, amountOf]
    grind
  away := fun r hr => .inr (haway r hr)

/-- The module pays an account, which is not blocked. -/
theorem paid_fromModule (hpayer : lab.payer env = some env.workerAccount)
    (hpayee : lab.payee env = some a) (houtgo : lab.outgo = some a) (hc : 0 ≤ lab.coin.amount)
    (h : env.sendCoinsFromModuleToAccount b env.workerAccount a lab.coin = some b') :
    lab.Paid env b b' := by
  obtain ⟨hblocked, hsend⟩ := Host.sendCoinsFromModuleToAccount_eq_some h
  refine paid_sendCoins hpayer hpayee hc ?_ hsend
  rintro _ hr rfl
  rw [Option.some.inj (houtgo.symm.trans hr), env.worker_blocked] at hblocked
  contradiction

/-- A slash pays the recipient or nobody. -/
theorem paid_moveSlashed (a : Addr) (percent : UInt32) (hc : 0 ≤ c.amount)
    (h : World.moveSlashed env.toHost b recipient c = some b') :
    (Label.slash a percent recipient c).Paid env b b' := by
  cases recipient with
  | some => exact paid_fromModule rfl rfl rfl hc h
  | none =>
    simp only [World.moveSlashed, Bank.debit] at h
    split at h
    · rw [← Option.some.inj h]
      refine ⟨hc, fun x d => ?_, fun r hr => by cases hr⟩
      simp only [payer, payee, coin, amountOf]
      grind
    · contradiction

namespace Paid

variable (h : lab.Paid env b b')
include h

/-- Who gains is paid, and not by themselves. -/
theorem gains (hgain : b.balance x d < b'.balance x d) :
    lab.payee env = some x ∧ lab.payer env ≠ some x := by
  have hbalance := h.balance x d
  have hnonneg := h.nonneg
  unfold amountOf at hbalance
  grind

/-- Who loses pays, and not to themselves. -/
theorem loses (hfall : b'.balance x d < b.balance x d) :
    lab.payer env = some x ∧ lab.payee env ≠ some x := by
  have hbalance := h.balance x d
  have hnonneg := h.nonneg
  unfold amountOf at hbalance
  grind

/-- What the account of the module receives, as long as it does not act itself. -/
theorem flow (hforeign : lab.Foreign env) (d : String) :
    (b'.balance env.workerAccount d : Int) = b.balance env.workerAccount d + lab.inflow d := by
  have hbalance := h.balance env.workerAccount d
  have haway := h.away
  cases lab <;>
    simp only [payer, payee, coin, inflow, Foreign, outgo, amountOf, reduceCtorEq, if_false,
      if_true, Option.some.injEq] at * <;> grind

end Paid

end Label

/-! ## one record -/

theorem onWorkerStateChange_eq_ok (h : onWorkerStateChange env height s a = .ok s') :
    ∃ m, Modelreg.onWorkerStateChange env.toModelreg s.workerKeeper height s.modelreg a = .ok m ∧
      s' = { s with modelreg := m } := by
  obtain ⟨m, hm, h⟩ := bind_eq_ok.mp h
  cases h
  exact ⟨m, hm, rfl⟩

theorem onWorkerRemoved_eq_ok (h : onWorkerRemoved env height s a = .ok s') :
    ∃ m, Modelreg.onWorkerRemoved env.toModelreg s.workerKeeper height s.modelreg a = .ok m ∧
      s' = { s with modelreg := m } := by
  obtain ⟨m, hm, h⟩ := bind_eq_ok.mp h
  cases h
  exact ⟨m, hm, rfl⟩

/-- The labels after whose writes the model registry is notified. -/
def Label.notifies (a : Addr) : Label → Prop
  | .stake b _ | .unjail b | .jail b | .tombstone b | .slash b _ _ _ => b = a
  | _ => False

/-- The record of one account is replaced, with what the label says of the rest. -/
theorem Step.of_entry {e : Option (Worker × Profile)} (haddr : lab.addr = some a)
    (hentry : ∀ b, s'.entry b = if a = b then e else s.entry b)
    (hchange : Change block.height s.world.workerParams s.params lab (s.entry a) e)
    (hkept : s'.world.workerParams = s.world.workerParams ∧ s'.params = s.params ∧ s'.vrf = s.vrf)
    (hpaid : lab.Paid env s.world.bank s'.world.bank)
    (htold : Told env block.height s s' lab) (hindex : s'.modelIndex = s.reindexed lab)
    (hsigned : ∀ b, lab.signer = some b → env.signs b = true) : Step env block s lab s' where
  change := fun b hb => by
    cases haddr.symm.trans hb
    rw [hentry, if_pos rfl]
    exact hchange
  others := fun b hb => by rw [hentry, if_neg fun e => hb (haddr.trans (congrArg some e))]
  workerParams := hkept.1
  params := hkept.2.1
  bank := hpaid
  told := htold
  index := hindex
  vrf := fun _ => hkept.2.2
  signed := hsigned

/-- The entries after the record of an account is written. -/
theorem State.entry_setWorker_of_get (hfound : s.world.workers.get a = some w)
    (haddr : w'.address = w.address) (b : Addr) :
    (s.setWorker w').entry b = if a = b then some (w', s.profile a) else s.entry b := by
  rw [entry_setWorker, haddr.trans (World.address_of_get hfound)]
  by_cases hab : a = b
  · rw [if_pos hab, if_pos hab, hab]
  · rw [if_neg hab, if_neg hab]

/-- A record is written, and the model registry is notified. -/
theorem step_notified (hlab : lab.notifies a) (hfound : s.world.workers.get a = some w)
    (h : onWorkerStateChange env block.height
      ({ s with world := { s.world with bank := bank } }.setWorker w') a = .ok s')
    (haddr : w'.address = w.address)
    (hchange : Change block.height s.world.workerParams s.params lab (some (w, s.profile a))
      (some (w', s.profile a)))
    (hpaid : lab.Paid env s.world.bank bank)
    (hsigned : ∀ b, lab.signer = some b → env.signs b = true) : Step env block s lab s' := by
  obtain ⟨m, hm, rfl⟩ := onWorkerStateChange_eq_ok h
  have hlabel : lab.addr = some a ∧ s.reindexed lab = s.modelIndex := by
    cases lab <;> simp_all [Label.notifies, Label.addr, reindexed]
  have hentry := entry_setWorker_of_get
    (s := { s with world := { s.world with bank := bank } }) hfound haddr
  refine .of_entry hlabel.1 hentry (by rwa [entry_of_get hfound]) ⟨rfl, rfl, rfl⟩ hpaid ?_
    hlabel.2.symm hsigned
  cases lab <;> simp only [Label.notifies] at hlab
  all_goals
    subst hlab
    exact hm

/-! ## jailing and slashing -/

/-- A slash takes the share, or nothing. -/
theorem slashWorkerInternal_step :
    OnValue (fun s' => s' = s ∨ ∃ c, Step env block s (.slash a percent recipient c) s')
    (slashWorkerInternal env block.height s a percent recipient) := by
  unfold slashWorkerInternal
  cases hfound : s.world.workers.get a with
  | none => exact .inl rfl
  | some w =>
    refine .either (.inl rfl) <| .after fun x hx => .either (.inl rfl) <| .after fun c hc => ?_
    obtain ⟨-, -, hx⟩ := MathInt.share_eq_ok.mp hx
    obtain ⟨-, hnn, rfl⟩ := Coin.new_eq_ok.mp hc
    cases hmoved : World.moveSlashed env.toHost s.world.bank recipient ⟨w.stake.denom, x⟩ with
    | none => exact .inl rfl
    | some =>
      refine .after fun stake hstake => .of_forall fun s' h => ?_
      obtain ⟨-, -, hle, rfl⟩ := Coin.sub_eq_ok.mp hstake
      exact .inr ⟨_, step_notified rfl hfound h rfl (.slash a percent x recipient hx hnn hle)
        (Label.paid_moveSlashed a percent hnn hmoved) nofun⟩

theorem tombstoneWorker_step : OnValue (fun s' => s' = s ∨ Step env block s (.tombstone a) s')
    (tombstoneWorker env block.height s a) := by
  unfold tombstoneWorker
  cases hfound : s.world.workers.get a with
  | none => exact .inl rfl
  | some =>
    refine .ite (fun _ => .inl rfl) fun hstanding => .of_forall fun s' h => ?_
    exact .inr (step_notified rfl hfound h rfl
      (.tombstone a (by simpa using hstanding)) (Label.paid_refl rfl _) nofun)

/-- A jailing: nothing for an unknown or banned worker, a timed one, or the ban with a
slash before it. -/
theorem jailWorker_cases :
    OnValue (fun s' => (s' = s ∧ ∀ w, s.world.workers.get a = some w → w.tombstoned = true) ∨
    Step env block s (.jail a) s' ∨
    ∃ s₁, (s₁ = s ∨ ∃ percent c, Step env block s (.slash a percent none c) s₁) ∧
    Step env block s₁ (.tombstone a) s') (jailWorker env block.height s a) := by
  unfold jailWorker
  cases hfound : s.world.workers.get a with
  | none => exact .inl ⟨rfl, by simp⟩
  | some w =>
    refine .ite (fun hbanned => .inl ⟨rfl, fun _ hw => Option.some.inj hw ▸ hbanned⟩)
      fun hstanding => ?_
    have hstanding : w.tombstoned = false := by simpa using hstanding
    refine .ite (fun _ => slashWorkerInternal_step.bind fun s₁ hs₁ => ?_) fun htimed =>
      .of_forall fun s' h => ?_
    · -- the record that is read again is still not banned
      have hagain : ∃ w₁, s₁.world.workers.get a = some w₁ ∧ w₁.tombstoned = false := by
        obtain rfl | ⟨c, hstep⟩ := hs₁
        · exact ⟨w, hfound, hstanding⟩
        · have hchange := hstep.change a rfl
          rw [entry_of_get hfound] at hchange
          generalize hentry : s₁.entry a = e at hchange
          cases hchange with
          | slash => exact ⟨_, (entry_eq_some.mp hentry).1, hstanding⟩
      obtain ⟨w₁, hfound₁, hstanding₁⟩ := hagain
      simp only [hfound₁]
      refine .of_forall fun s' h => .inr (.inr ⟨s₁, hs₁.imp id fun ⟨c, hc⟩ => ⟨_, c, hc⟩, ?_⟩)
      exact step_notified rfl hfound₁ h rfl (.tombstone a hstanding₁)
        (Label.paid_refl rfl _) nofun
    · exact .inr (.inl (step_notified rfl hfound h rfl
        (.jail a hstanding htimed _) (Label.paid_refl rfl _) nofun))

theorem unjailWorker_step (ha : env.signs a = true) :
    OnValue (Step env block s (.unjail a)) (unjailWorker env block.height s a) := by
  unfold unjailWorker
  cases hfound : s.world.workers.get a with
  | none => exact .error
  | some w =>
    refine .ensure fun hjailed => .ensure fun hstanding => .ensure fun helapsed =>
      .of_forall fun s' h => ?_
    exact step_notified rfl hfound (mapError_eq_ok.mp h) rfl
      (.unjail a hjailed (by simpa using hstanding) (by simpa using helapsed))
      (Label.paid_refl rfl _) (fun _ hb => Option.some.inj hb ▸ ha)

/-! ## what settlement sees of the calls

The records and the bank after a call are those that `FunaiChain.Worker.Keeper`
computes, which is what the model of settlement uses.
-/

theorem slashWorkerInternal_world :
    OnValue (fun s' => World.slashWorkerInternal env.toHost s.world a percent recipient =
    .ok s'.world) (slashWorkerInternal env height s a percent recipient) := by
  unfold slashWorkerInternal World.slashWorkerInternal
  cases s.world.workers.get a with
  | none => exact .ok rfl
  | some =>
    refine .ite (fun hzero => .ok (if_pos hzero)) fun hzero => .after fun x hx => ?_
    simp only [if_neg hzero, hx, ok_bind]
    refine .ite (fun hnone => .ok (if_pos hnone)) fun hsome => .after fun c hc => ?_
    simp only [if_neg hsome, hc, ok_bind]
    cases World.moveSlashed env.toHost s.world.bank recipient c with
    | none => exact .ok rfl
    | some =>
      refine .after fun stake hstake => .of_forall fun s' h => ?_
      obtain ⟨m, -, rfl⟩ := onWorkerStateChange_eq_ok h
      simp only [hstake, ok_bind]
      rfl

theorem tombstoneWorker_world : OnValue (fun s' => s'.world = s.world.tombstoneWorker a)
    (tombstoneWorker env height s a) := by
  unfold tombstoneWorker World.tombstoneWorker
  cases s.world.workers.get a with
  | none => exact .ok rfl
  | some =>
    refine .ite (fun hbanned => .ok (if_pos hbanned).symm) fun hstanding =>
      .of_forall fun s' h => ?_
    obtain ⟨m, -, rfl⟩ := onWorkerStateChange_eq_ok h
    exact (if_neg hstanding).symm

theorem jailWorker_world :
    OnValue (fun s' => World.jailWorker env.toHost height s.world a = .ok s'.world)
    (jailWorker env height s a) := by
  unfold jailWorker World.jailWorker
  cases s.world.workers.get a with
  | none => exact .ok rfl
  | some =>
    refine .ite (fun hbanned => .ok (if_pos hbanned)) fun hstanding => ?_
    simp only [if_neg hstanding]
    refine .ite (fun hthird => slashWorkerInternal_world.bind fun s₁ hworld => ?_)
      fun htimed => .of_forall fun s' h => ?_
    · simp only [if_pos hthird, World.slashWorker, hworld, ok_bind, pure_eq_ok]
      cases hagain : s₁.world.workers.get a with
      | none => exact .ok (congrArg Except.ok (World.updateWorker_of_none hagain ..))
      | some =>
        refine .of_forall fun s' h => ?_
        obtain ⟨m, -, rfl⟩ := onWorkerStateChange_eq_ok h
        exact congrArg Except.ok (World.updateWorker_of_get hagain ..)
    · obtain ⟨m, -, rfl⟩ := onWorkerStateChange_eq_ok h
      exact if_neg htimed

/-! ## messages of the worker module -/

theorem creatorAddress_eq_ok :
    creatorAddress env creator = .ok a ↔ env.accAddressFromBech32 creator = some a := by
  unfold creatorAddress
  cases env.accAddressFromBech32 creator <;> simp

/-- The deposit of a registration. -/
theorem depositStake_spec (msg : MsgRegisterWorker) :
    OnValue (fun r => r.2.denom = s.params.minStake.denom ∧ 0 ≤ r.2.amount ∧
    (r.2.amount = 0 ∨ r.2 = s.params.minStake) ∧
    (Label.register a msg r.2).Paid env s.world.bank r.1) (depositStake env height s a) := by
  refine .after fun zero hzero => .either ?_ <| .after fun coins hcoins => ?_
  · obtain ⟨-, -, rfl⟩ := Coin.new_eq_ok.mp (mapError_eq_ok.mp hzero)
    exact ⟨rfl, Int.le_refl _, .inl rfl, Label.paid_refl rfl _⟩
  · obtain ⟨-, hnn, rfl⟩ := Coin.new_eq_ok.mp (mapError_eq_ok.mp hcoins)
    cases hsend : env.sendCoins s.world.bank a env.workerAccount
        ⟨s.params.minStake.denom, s.params.minStake.amount⟩ with
    | none => exact .error
    | some =>
      exact ⟨rfl, hnn, .inr rfl, Label.paid_sendCoins rfl rfl hnn nofun
        (Host.sendCoins_eq_some hsend)⟩

theorem registerWorker_step {msg : MsgRegisterWorker}
    (hcreator : env.accAddressFromBech32 msg.creator = some a) (ha : env.signs a = true) :
    OnValue (fun s' => ∃ stake, Step env block s (.register a msg stake) s')
    (registerWorker env block.height s msg) := by
  rw [registerWorker, creatorAddress_eq_ok.mpr hcreator, ok_bind]
  refine .ensure fun hvacant => (depositStake_spec msg).bind ?_
  rintro ⟨bank, stake⟩ ⟨hdenom, hnn, hamount, hpaid⟩
  have hvacant : s.entry a = none := entry_eq_none.mpr (by simpa using hvacant)
  have hentry : ∀ b, entry ((putWorker { s with world := { s.world with bank := bank } }
      (newWorker block.height a msg.pubkey stake s.params.minStake.denom)
      (newProfile msg)).setModelIndices a msg.supportedModels) b =
      if a = b then some (newWorker block.height a msg.pubkey stake s.params.minStake.denom,
        newProfile msg) else s.entry b := fun _ => entry_putWorker
  refine ⟨stake, .of_entry rfl hentry ?_ ⟨rfl, rfl, rfl⟩ hpaid rfl rfl
    fun _ hb => Option.some.inj hb ▸ ha⟩
  rw [hvacant]
  exact .register a msg stake hdenom hnn hamount

theorem exitWorker_step {msg : MsgExitWorker}
    (hcreator : env.accAddressFromBech32 msg.creator = some a) (ha : env.signs a = true) :
    OnValue (Step env block s (.exit a)) (exitWorker env block.height s msg) := by
  rw [exitWorker, creatorAddress_eq_ok.mpr hcreator, ok_bind]
  cases hfound : s.world.workers.get a with
  | none => exact .error
  | some w =>
    refine .ensure fun hfree => .ensure fun hstanding => .ensure fun hactive => ?_
    obtain rfl : w.address = a := World.address_of_get hfound
    refine .of_entry rfl (fun b => entry_putWorker) ?_ ⟨rfl, rfl, rfl⟩
      (Label.paid_refl rfl _) rfl rfl fun _ hb => Option.some.inj hb ▸ ha
    rw [entry_of_get hfound]
    exact .exit _ (by simpa using hfree) (by simpa using hstanding) (by simpa using hactive)

theorem updateModels_step {msg : MsgUpdateModels}
    (hcreator : env.accAddressFromBech32 msg.creator = some a) (ha : env.signs a = true) :
    OnValue (Step env block s (.update a msg.supportedModels)) (updateModels env s msg) := by
  rw [updateModels, creatorAddress_eq_ok.mpr hcreator, ok_bind]
  cases hfound : s.world.workers.get a with
  | none => exact .error
  | some w =>
    refine .ensure fun hactive => ?_
    obtain rfl : w.address = a := World.address_of_get hfound
    refine .of_entry rfl (fun b => entry_putWorker) ?_ ⟨rfl, rfl, rfl⟩
      (Label.paid_refl rfl _) rfl rfl fun _ hb => Option.some.inj hb ▸ ha
    rw [entry_of_get hfound]
    exact .update _ msg.supportedModels hactive

theorem addStake_step {msg : MsgStake} (hcreator : env.accAddressFromBech32 msg.creator = some a)
    (ha : env.signs a = true) (hamount : (msg.amount.isValid && !msg.amount.isZero) = true) :
    OnValue (Step env block s (.stake a msg.amount)) (addStake env block.height s msg) := by
  rw [addStake, creatorAddress_eq_ok.mpr hcreator, ok_bind]
  cases hfound : s.world.workers.get a with
  | none => exact .error
  | some w =>
    refine .ensure fun hstanding => .after fun coins hcoins => ?_
    obtain ⟨-, hnn, rfl⟩ := Coin.new_eq_ok.mp (mapError_eq_ok.mp hcoins)
    have hpositive : 0 < msg.amount.amount := by
      simp [Coin.isValid, Coin.isZero] at hamount
      omega
    cases hsend : env.sendCoins s.world.bank a env.workerAccount
        ⟨msg.amount.denom, msg.amount.amount⟩ with
    | none => exact .error
    | some =>
      refine .after fun stake hstake => .of_forall fun s' h => ?_
      obtain ⟨hdenom, -, rfl⟩ := Coin.add_eq_ok.mp (mapError_eq_ok.mp hstake)
      exact step_notified rfl hfound (mapError_eq_ok.mp h) rfl
        (.stake a msg.amount (by simpa using hstanding) hdenom hpositive)
        (Label.paid_sendCoins rfl rfl hnn (fun _ h => by cases h) (Host.sendCoins_eq_some hsend))
        (fun _ hb => Option.some.inj hb ▸ ha)

/-! ## messages of the other modules -/

/-- A step of the model registry alone. -/
theorem step_modelreg (haddr : lab.addr = none) (hindex : s.reindexed lab = s.modelIndex)
    (hcoin : lab.coin.amount = 0) (hsigned : ∀ a, lab.signer = some a → env.signs a = true)
    (htold : Told env block.height s { s with modelreg := m } lab) :
    Step env block s lab { s with modelreg := m } where
  change := fun a ha => by
    rw [haddr] at ha
    contradiction
  others := fun _ _ => rfl
  workerParams := rfl
  params := rfl
  bank := Label.paid_refl hcoin _
  told := htold
  index := hindex.symm
  vrf := fun _ => rfl
  signed := hsigned

/-- A step of the VRF module alone. -/
theorem step_vrf (s : State) (v : Vrf.State) : Step env block s .vrf { s with vrf := v } where
  change := nofun
  others := fun _ _ => rfl
  workerParams := rfl
  params := rfl
  bank := Label.paid_refl rfl _
  told := rfl
  index := rfl
  vrf := fun hne => absurd rfl hne
  signed := nofun

/-- A transfer that goes through. -/
theorem step_transfer {src dst : Addr} (s : State) (hc : 0 ≤ c.amount)
    (h : env.sendCoins s.world.bank src dst c = some bank) :
    Step env block s (.transfer src dst c) { s with world := { s.world with bank := bank } } where
  change := nofun
  others := fun _ _ => rfl
  workerParams := rfl
  params := rfl
  bank := Label.paid_sendCoins rfl rfl hc nofun (Host.sendCoins_eq_some h)
  told := rfl
  index := rfl
  vrf := fun _ => rfl
  signed := nofun

/-- What a declaration that returned has found, and what it writes. -/
theorem declareInstalled_spec {menv : Modelreg.Env} {wk : Modelreg.WorkerKeeper}
    {msg : Modelreg.MsgDeclareInstalled}
    (hcreator : menv.accAddressFromBech32 msg.creator = some a) :
    OnValue (fun r => (m.getModel msg.modelId).isSome = true ∧ wk.isWorkerActive a = true ∧
    wk.workerSupportsModel a msg.modelId = true ∧
    (r = .ok m ∨ r = Modelreg.refreshModelStats menv wk height
    (m.setWorkerInstalledModel a msg.modelId) msg.modelId))
    (Modelreg.declareInstalled menv wk height m msg) := by
  unfold Modelreg.declareInstalled Modelreg.creatorAddress
  rw [hcreator]
  refine .ensure fun hmodel => .after fun a' ha => .ensure fun hactive =>
    .ensure fun hsupports => ?_
  cases ha
  exact .either ⟨hmodel, hactive, hsupports, .inl rfl⟩ <| ⟨hmodel, hactive, hsupports, .inr rfl⟩

/-! ## transactions -/

/-- The label that a message stands for. -/
def Msg.Stands (env : Env) : Msg → Label → Prop
  | .registerWorker msg, lab => ∃ a stake, env.accAddressFromBech32 msg.creator = some a ∧
      (decodeWorkerPubkey env msg.pubkey).isSome = true ∧ lab = .register a msg stake
  | .exitWorker msg, lab => ∃ a, env.accAddressFromBech32 msg.creator = some a ∧ lab = .exit a
  | .updateModels msg, lab => ∃ a, env.accAddressFromBech32 msg.creator = some a ∧
      lab = .update a msg.supportedModels
  | .addStake msg, lab => ∃ a, env.accAddressFromBech32 msg.creator = some a ∧
      lab = .stake a msg.amount
  | .unjail msg, lab => ∃ a, env.accAddressFromBech32 msg.creator = some a ∧ lab = .unjail a
  | .proposeModel msg, lab => lab = .propose msg
  | .updateModelStats msg, lab => lab = .govern msg
  | .declareInstalled msg, lab => ∃ a, env.accAddressFromBech32 msg.creator = some a ∧
      lab = .declare a msg.modelId
  | .submitVRFProof _ _ _, lab => lab = .vrf
  | .leaderHeartbeat _ _, lab => lab = .vrf

/-- A signed message arrives in the name of an account of `signs`. -/
theorem checkSigner_eq_ok {u : Unit} (hsigner : msg.signer = some creator)
    (h : checkSigner env msg = .ok u) :
    ∃ a, env.accAddressFromBech32 creator = some a ∧ env.signs a = true := by
  unfold checkSigner at h
  rw [hsigner] at h
  obtain ⟨a, ha, h⟩ := bind_eq_ok.mp h
  exact ⟨a, creatorAddress_eq_ok.mp ha, ensure_eq_ok.mp h⟩

/-- **A transaction is at most one step.** -/
theorem deliver_step :
    OnValue (fun s' => s' = s ∨ ∃ lab, msg.Stands env lab ∧ Step env block s lab s')
    (deliver env block s msg) := by
  refine .after fun u hcheck => ?_
  cases msg with
  | registerWorker =>
    obtain ⟨a, hcreator, ha⟩ := checkSigner_eq_ok rfl hcheck
    refine .after fun _ hvalid => (registerWorker_step hcreator ha).mono fun s' ⟨stake, hstep⟩ => ?_
    obtain ⟨_, -, hvalid⟩ := bind_eq_ok.mp hvalid
    obtain ⟨_, -, hvalid⟩ := bind_eq_ok.mp hvalid
    obtain ⟨_, hkey, -⟩ := bind_eq_ok.mp hvalid
    exact .inr ⟨_, ⟨a, stake, hcreator, ensure_eq_ok.mp hkey, rfl⟩, hstep⟩
  | exitWorker =>
    obtain ⟨a, hcreator, ha⟩ := checkSigner_eq_ok rfl hcheck
    exact (exitWorker_step hcreator ha).mono fun s' hstep => .inr ⟨_, ⟨a, hcreator, rfl⟩, hstep⟩
  | updateModels =>
    obtain ⟨a, hcreator, ha⟩ := checkSigner_eq_ok rfl hcheck
    exact .after fun _ _ => (updateModels_step hcreator ha).mono fun s' hstep =>
      .inr ⟨_, ⟨a, hcreator, rfl⟩, hstep⟩
  | addStake =>
    obtain ⟨a, hcreator, ha⟩ := checkSigner_eq_ok rfl hcheck
    refine .after fun _ hvalid => ?_
    obtain ⟨_, -, hvalid⟩ := bind_eq_ok.mp hvalid
    exact (addStake_step hcreator ha (ensure_eq_ok.mp hvalid)).mono fun s' hstep =>
      .inr ⟨_, ⟨a, hcreator, rfl⟩, hstep⟩
  | unjail =>
    obtain ⟨a, hcreator, ha⟩ := checkSigner_eq_ok rfl hcheck
    rw [handle, unjail, creatorAddress_eq_ok.mpr hcreator, ok_bind]
    exact (unjailWorker_step ha).mono fun s' hstep => .inr ⟨_, ⟨a, hcreator, rfl⟩, hstep⟩
  | proposeModel | updateModelStats =>
    refine .after fun m hm => ?_
    obtain ⟨_, -, hm⟩ := bind_eq_ok.mp (mapError_eq_ok.mp hm)
    exact .inr ⟨_, rfl, step_modelreg rfl rfl rfl nofun hm⟩
  | declareInstalled =>
    obtain ⟨a, hcreator, ha⟩ := checkSigner_eq_ok rfl hcheck
    refine .after fun _ _ => .after fun r hr => .after fun m hm => ?_
    have hm := mapError_eq_ok.mp hm
    obtain ⟨hmodel, hactive, hsupports, rfl | rfl⟩ :=
      (declareInstalled_spec hcreator).get (mapError_eq_ok.mp hr)
    · cases hm
      exact .inl rfl
    · exact .inr ⟨_, ⟨a, hcreator, rfl⟩, step_modelreg rfl rfl rfl
        (fun _ hb => Option.some.inj hb ▸ ha) ⟨hmodel, hactive, hsupports, hm⟩⟩
  | submitVRFProof => exact .after fun v _ => .inr ⟨_, rfl, step_vrf s v⟩
  | leaderHeartbeat => exact .after fun _ _ => .after fun v _ => .inr ⟨_, rfl, step_vrf s v⟩

/-! ## calls of the keeper -/

/-- A record is written and nobody is notified. -/
theorem step_setWorker (hlab : lab = .success a ∨ lab = .note a)
    (hfound : s.world.workers.get a = some w) (haddr : w'.address = w.address)
    (hchange : Change block.height s.world.workerParams s.params lab (some (w, s.profile a))
    (some (w', s.profile a))) : Step env block s lab (s.setWorker w') := by
  rw [← entry_of_get hfound] at hchange
  obtain rfl | rfl := hlab
  all_goals
    exact .of_entry rfl (entry_setWorker_of_get hfound haddr) hchange ⟨rfl, rfl, rfl⟩
      (Label.paid_refl rfl _) rfl rfl nofun

/-- The success streak of a worker that is found. -/
theorem incrementSuccessStreak_step (hfound : s.world.workers.get a = some w) :
    Step env block s (.success a) { s with world := s.world.incrementSuccessStreak a } := by
  unfold World.incrementSuccessStreak
  rw [World.updateWorker_of_get hfound]
  refine step_setWorker (.inl rfl) hfound ?_ ?_
  · dsimp only
    split <;> rfl
  · dsimp only
    split
    · next hdecay => exact .success a hdecay
    · next hshort => exact .streak a hshort

/-- Steps with labels of a kind. -/
def Does (env : Env) (block : Vrf.Block) (kind : Label → Prop) (s s' : State) : Prop :=
  ∃ labs, Steps env block s labs s' ∧ ∀ lab ∈ labs, kind lab

namespace Does

variable {kind kind' : Label → Prop} {s'' : State}

theorem refl (s : State) : Does env block kind s s := ⟨[], .nil s, by simp⟩

theorem single (h : Step env block s lab s') (hlab : kind lab) : Does env block kind s s' :=
  ⟨[lab], .cons h (.nil _), by simpa using hlab⟩

theorem of_eq_or (hlab : kind lab) : s' = s ∨ Step env block s lab s' → Does env block kind s s'
  | .inl h => h ▸ refl s'
  | .inr h => single h hlab

theorem trans (h : Does env block kind s s') (h' : Does env block kind s' s'') :
    Does env block kind s s'' := by
  obtain ⟨labs, hsteps, hlabs⟩ := h
  obtain ⟨labs', hsteps', hlabs'⟩ := h'
  exact ⟨labs ++ labs', hsteps.append hsteps', List.forall_mem_append.mpr ⟨hlabs, hlabs'⟩⟩

theorem mono (h : Does env block kind s s') (himp : ∀ lab, kind lab → kind' lab) :
    Does env block kind' s s' := by
  obtain ⟨labs, hsteps, hlabs⟩ := h
  exact ⟨labs, hsteps, fun lab hlab => himp lab (hlabs lab hlab)⟩

end Does

/-- Statistics of a worker, if it is found. -/
theorem updateWorker_note {f : Worker → Worker} {hf : ∀ w, (f w).address = w.address}
    {kind : Label → Prop} (hkind : kind (.note a))
    (h : s' = { s with world := s.world.updateWorker a f hf })
    (hchange : ∀ w p, Change block.height s.world.workerParams s.params (.note a)
      (some (w, p)) (some (f w, p))) : Does env block kind s s' := by
  subst h
  cases hfound : s.world.workers.get a with
  | none =>
    rw [World.updateWorker_of_none hfound f hf]
    exact .refl s
  | some w =>
    rw [World.updateWorker_of_get hfound]
    exact .single (step_setWorker (.inr rfl) hfound (hf w) (hchange w _)) hkind

/-- The labels that a call stands for. -/
def Call.Stands : Call → Label → Prop
  | .jailWorker a, lab =>
      lab = .jail a ∨ (∃ percent c, lab = .slash a percent none c) ∨ lab = .tombstone a
  | .slashWorker a percent, lab => ∃ c, lab = .slash a percent none c
  | .slashWorkerTo a percent recipient, lab => ∃ c, lab = .slash a percent (some recipient) c
  | .tombstoneWorker a, lab => lab = .tombstone a
  | .fraudProof a refund reporter, lab => (∃ r c, refund = some (r, c) ∧ lab = .transfer a r c) ∨
      (∃ c, lab = .slash a 5 reporter c) ∨ lab = .tombstone a
  | .incrementSuccessStreak a, lab => lab = .success a
  | .updateWorkerStats a _, lab => lab = .note a
  | .reputationOnAccept a, lab => lab = .note a
  | .updateAvgLatency a _, lab => lab = .note a
  | .recordModelTask m fee latencyMs, lab => lab = .task m fee latencyMs

/-- A slash among the labels of a call. -/
theorem slashWorkerInternal_does {kind : Label → Prop}
    (hkind : ∀ c, kind (.slash a percent recipient c)) :
    OnValue (Does env block kind s)
    (slashWorkerInternal env block.height s a percent recipient) := by
  refine slashWorkerInternal_step.mono ?_
  rintro s' (rfl | ⟨c, hstep⟩)
  · exact .refl _
  · exact .single hstep (hkind c)

/-- The clawback of a fraud proof is a transfer, if it goes through. -/
theorem clawback_does {kind : Label → Prop} {refund : Option (Addr × Coin)}
    (hkind : ∀ r c, refund = some (r, c) → kind (.transfer a r c)) : Does env block kind s
    { s with world := { s.world with bank := clawback env s.world.bank a refund } } := by
  match refund with
  | none => exact .refl s
  | some (r, c) =>
    unfold clawback
    dsimp only
    split
    · exact .refl s
    · next hpos =>
      cases hsend : env.sendCoins s.world.bank a r c with
      | none => exact .refl s
      | some => exact .single (step_transfer s (by omega) hsend) (hkind r c rfl)

/-- **A call of the keeper is a sequence of steps.** -/
theorem perform_steps {call : Call} :
    OnValue (Does env block call.Stands s) (perform env block s call) := by
  cases call with
  | jailWorker =>
    refine jailWorker_cases.mono ?_
    rintro s' (⟨rfl, -⟩ | hstep | ⟨s₁, rfl | ⟨percent, c, hslash⟩, hstep⟩)
    · exact .refl _
    · exact .single hstep (.inl rfl)
    · exact .single hstep (.inr (.inr rfl))
    · exact (Does.single hslash (.inr (.inl ⟨percent, c, rfl⟩))).trans
        (.single hstep (.inr (.inr rfl)))
  | slashWorker | slashWorkerTo => exact slashWorkerInternal_does fun c => ⟨c, rfl⟩
  | tombstoneWorker => exact tombstoneWorker_step.mono fun _ => .of_eq_or rfl
  | fraudProof a refund reporter =>
    have hslashes : ∀ c, (Call.fraudProof a refund reporter).Stands
        (.slash a 5 reporter c) := fun c => .inr (.inl ⟨c, rfl⟩)
    refine (slashWorkerInternal_does hslashes).bind fun s₂ hslash => ?_
    refine tombstoneWorker_step.mono fun s' htomb => ?_
    refine Does.trans ?_ (hslash.trans (.of_eq_or (.inr (.inr rfl)) htomb))
    exact clawback_does fun r c hrefund => .inl ⟨r, c, hrefund, rfl⟩
  | incrementSuccessStreak a =>
    refine .ok ?_
    cases hfound : s.world.workers.get a with
    | none =>
      unfold World.incrementSuccessStreak
      rw [World.updateWorker_of_none hfound]
      exact .refl _
    | some => exact .single (incrementSuccessStreak_step hfound) rfl
  | updateWorkerStats a fee =>
    refine .after fun w' hw' => .ok ?_
    unfold World.updateWorkerStats at hw'
    split at hw'
    · cases hw'
      exact .refl s
    · next hfound =>
      obtain ⟨total, -, hw'⟩ := bind_eq_ok.mp hw'
      cases hw'
      exact .single (step_setWorker (.inr rfl) hfound rfl (.note a _ _ _ _ _ _)) rfl
  | reputationOnAccept a => exact .ok (updateWorker_note rfl rfl fun _ _ => .note a _ _ _ _ _ _)
  | updateAvgLatency a =>
    unfold perform World.updateAvgLatency
    refine .ok ?_
    split
    · exact .refl _
    · exact updateWorker_note rfl rfl fun _ _ => .note a _ _ _ _ _ _
  | recordModelTask m fee latencyMs =>
    have hstep : Step env block s (.task m fee latencyMs) { s with
        modelreg := Modelreg.recordModelTask s.modelreg m fee latencyMs } :=
      step_modelreg rfl rfl rfl (fun _ h => by cases h) rfl
    exact .ok (.single hstep rfl)

/-! ## the ends of a block -/

/-- The records of a list are those in the store, each once. -/
structure Snapshot (s : State) (es : List (Worker × Profile)) : Prop where
  distinct : (es.map fun e => e.1.address).Nodup
  entry : ∀ e ∈ es, s.entry e.1.address = some e

namespace Snapshot

variable {e : Worker × Profile} {es : List (Worker × Profile)}

/-- A step about the first record leaves the others. -/
theorem tail (h : Snapshot s (e :: es))
    (hothers : ∀ a, a ≠ e.1.address → s'.entry a = s.entry a) : Snapshot s' es := by
  obtain ⟨hfirst, hdistinct⟩ := List.nodup_cons.mp h.distinct
  refine ⟨hdistinct, fun e' he' => ?_⟩
  have hne : e'.1.address ≠ e.1.address := fun heq =>
    hfirst (List.mem_map.mpr ⟨e', he', heq⟩)
  rw [hothers _ hne]
  exact h.entry e' (.tail _ he')

end Snapshot

/-- The stored workers with their profiles. -/
theorem snapshot_getAllWorkers (s : State) :
    Snapshot s (s.getAllWorkers.map fun w => (w, s.profile w.address)) := by
  constructor
  · rw [List.map_map]
    exact Table.nodup_values s.world.workers.lawful
  · intro e he
    obtain ⟨w, hw, rfl⟩ := List.mem_map.mp he
    exact entry_of_get (World.get_of_mem hw)

theorem snapshot_activeWorkers (s : State) :
    Snapshot s (s.activeWorkers.map fun w => (w, s.profile w.address)) := by
  have hall := snapshot_getAllWorkers s
  have hsub : List.Sublist s.activeWorkers s.getAllWorkers := List.filter_sublist
  exact ⟨hall.distinct.sublist ((hsub.map _).map _),
    fun e he => hall.entry e ((hsub.map _).subset he)⟩

/-- The stake of a leaving worker is sent back. -/
theorem returnStake_paid :
    OnValue (fun o => ∀ bank ∈ o, (Label.remove w.address w.stake).Paid env s.world.bank bank)
    (returnStake env s w) := by
  refine .ite (fun hzero => .some ?_) fun _ => .after fun coins hcoins => ?_
  · exact Label.paid_refl (by simpa [Coin.isZero, Label.coin] using hzero) _
  · obtain ⟨-, hnn, rfl⟩ := Coin.new_eq_ok.mp hcoins
    exact fun bank hbank => Label.paid_fromModule rfl rfl rfl hnn hbank

/-- A worker whose time has come is paid and removed. -/
theorem processExitingWorker_step {e : Worker × Profile} (hentry : s.entry e.1.address = some e) :
    OnValue (fun s' => s' = s ∨ Step env block s (.remove e.1.address e.1.stake) s')
    (processExitingWorker env block.height s e) := by
  obtain ⟨hfound, hprofile⟩ := entry_eq_some.mp hentry
  refine .ite (fun _ => .inl rfl) fun hexiting => .ite (fun _ => .inl rfl) fun hrequested =>
    .ite (fun _ => .inl rfl) fun hwaited => ?_
  refine returnStake_paid.bind_option (.inl rfl) fun bank hpaid => .after fun s₁ hremoved => ?_
  obtain ⟨m, hm, rfl⟩ := onWorkerRemoved_eq_ok hremoved
  refine .inr (.of_entry rfl (fun b => entry_deleteWorker) ?_ ⟨rfl, rfl, rfl⟩ hpaid hm ?_ nofun)
  · rw [hentry]
    exact .remove e.1.address (by simpa using hexiting) hrequested (by omega)
  · rw [reindexed, hprofile]
    rfl

/-- The labels of a block's ends. -/
def Label.blockwise : Label → Prop
  | .remove _ _ | .vrf | .note _ => True
  | _ => False

/-- The loop of `ProcessExitingWorkers`. -/
theorem foldlM_processExitingWorker_steps {es : List (Worker × Profile)} (hsnap : Snapshot s es) :
    OnValue (Does env block (fun lab => ∃ a c, lab = .remove a c) s)
    (es.foldlM (processExitingWorker env block.height) s) := by
  induction es generalizing s with
  | nil => exact .ok (.refl s)
  | cons e _ ih =>
    refine (processExitingWorker_step (hsnap.entry e (.head _))).bind ?_
    rintro s₁ (rfl | hstep)
    · exact ih (hsnap.tail fun _ _ => rfl)
    · have hothers : ∀ a, a ≠ e.1.address → s₁.entry a = s.entry a := fun a ha =>
        hstep.others a fun he => ha (Option.some.inj he).symm
      exact (ih (hsnap.tail hothers)).mono fun _ => (Does.single hstep ⟨_, _, rfl⟩).trans

theorem processExitingWorkers_steps :
    OnValue (Does env block (fun lab => ∃ a c, lab = .remove a c) s)
    (processExitingWorkers env block.height s) :=
  foldlM_processExitingWorker_steps (snapshot_getAllWorkers s)

/-- A rotation writes the store of the VRF module only. -/
theorem rotateValidators_vrf :
    OnValue (fun r => ∃ v, r.1 = { s with vrf := v }) (rotateValidators env block s) := by
  have hselected : ∀ eligible, OnValue (fun r => ∃ v, r.1 = { s with vrf := v })
      (selectedAddrs env block s eligible) := by
    refine fun eligible => .either ⟨s.vrf, rfl⟩ <| .after fun r _ => ?_
    cases r with
    | error => exact ⟨s.vrf, rfl⟩
    | ok => exact .either ⟨_, rfl⟩ <| ⟨_, rfl⟩
  exact .after fun candidates _ => (hselected _).bind fun r hr => .ok hr

/-- **The EndBlock removes workers and rotates the validators.** -/
theorem endBlock_steps :
    OnValue (fun r => Does env block Label.blockwise s r.1) (endBlock env block s) := by
  refine processExitingWorkers_steps.bind fun s₁ hexits => ?_
  have hremoved : Does env block Label.blockwise s s₁ := by
    refine hexits.mono ?_
    rintro _ ⟨a, c, rfl⟩
    trivial
  refine .either (.ok hremoved) <| rotateValidators_vrf.mono ?_
  rintro ⟨s', updates⟩ ⟨v, rfl⟩
  exact hremoved.trans (.single (step_vrf s₁ v) trivial)

/-- What the selections of BeginBlock and the turns of the hourly decay do, BeginBlock
does. -/
theorem beginBlock_rule {R : State → State → Prop} (hrefl : ∀ s, R s s)
    (htrans : ∀ s s₁ s₂, R s s₁ → R s₁ s₂ → R s s₂) (hvrf : ∀ s v, R s { s with vrf := v })
    (hdecay : ∀ s w, s.world.workers.get w.address = some w → R s (s.setWorker (decayReputation w)))
    {block' : Vrf.Block} {s : State} : OnValue (R s) (beginBlock env block' s) := by
  have hloop : ∀ {ws : List Worker} {s : State},
      Snapshot s (ws.map fun w => (w, s.profile w.address)) →
      R s (ws.foldl (fun s worker => s.setWorker (decayReputation worker)) s) := by
    intro ws s hsnap
    induction ws generalizing s with
    | nil => exact hrefl s
    | cons w _ ih =>
      have hentry := hsnap.entry _ (.head _)
      have hothers : ∀ a, a ≠ w.address →
          (s.setWorker (decayReputation w)).entry a = s.entry a := by
        intro a ha
        rw [entry_setWorker, if_neg fun he => ha he.symm]
      exact htrans _ _ _ (hdecay s w (entry_eq_some.mp hentry).1)
        (ih (hsnap.tail hothers))
  refine .bind (.after fun v _ => .ok ⟨v, rfl⟩) fun s₁ (hsel : ∃ v, s₁ = { s with vrf := v }) =>
    .ok ?_
  obtain ⟨v, rfl⟩ := hsel
  split
  · exact htrans _ _ _ (hvrf s v) (hloop (snapshot_activeWorkers { s with vrf := v }))
  · exact hvrf s v

theorem beginBlock_steps {block' : Vrf.Block} :
    OnValue (Does env block Label.blockwise s) (beginBlock env block' s) :=
  beginBlock_rule .refl (fun _ _ _ => .trans) (fun s v => .single (step_vrf s v) trivial)
    fun _ w hfound => .single (step_setWorker (.inr rfl) hfound rfl
      (.note w.address _ _ _ _ _ _)) trivial

/-! ## events -/

/-- The labels that an event stands for. -/
def Event.Stands (env : Env) : Event → Label → Prop
  | .tx msg, lab => msg.Stands env lab
  | .call k, lab => k.Stands lab
  | .transfer src dst c, lab => src ≠ env.workerAccount ∧ dst ≠ env.workerAccount ∧
      lab = .transfer src dst c
  | .nextBlock _, lab => lab.blockwise

/-- Where a label comes from, for the labels that one kind of event stands for. -/
def Event.Causes (env : Env) (ev : Event) : Label → Prop
  | .register a msg _ =>
      ev = .tx (.registerWorker msg) ∧ env.accAddressFromBech32 msg.creator = some a
  | .exit a => ∃ msg, ev = .tx (.exitWorker msg) ∧ env.accAddressFromBech32 msg.creator = some a
  | .unjail a => ∃ msg, ev = .tx (.unjail msg) ∧ env.accAddressFromBech32 msg.creator = some a
  | .update a models => ∃ msg, ev = .tx (.updateModels msg) ∧
      env.accAddressFromBech32 msg.creator = some a ∧ models = msg.supportedModels
  | .jail a => ev = .call (.jailWorker a)
  | .success a => ev = .call (.incrementSuccessStreak a)
  | .remove _ _ => ∃ headerHash, ev = .nextBlock headerHash
  | _ => True

theorem Event.Stands.causes (h : ev.Stands env lab) : ev.Causes env lab := by
  cases ev with
  | tx msg =>
    cases msg with
    | registerWorker =>
      obtain ⟨a, stake, hcreator, -, rfl⟩ := h
      exact ⟨rfl, hcreator⟩
    | exitWorker msg | unjail msg =>
      obtain ⟨a, hcreator, rfl⟩ := h
      exact ⟨msg, rfl, hcreator⟩
    | updateModels msg =>
      obtain ⟨a, hcreator, rfl⟩ := h
      exact ⟨msg, rfl, hcreator, rfl⟩
    | addStake | declareInstalled =>
      obtain ⟨a, -, rfl⟩ := h
      trivial
    | _ =>
      obtain rfl := h
      trivial
  | call k =>
    cases k with
    | jailWorker => obtain rfl | ⟨_, _, rfl⟩ | rfl := h <;> trivial
    | fraudProof => obtain ⟨_, _, -, rfl⟩ | ⟨_, rfl⟩ | rfl := h <;> trivial
    | slashWorker | slashWorkerTo =>
      obtain ⟨_, rfl⟩ := h
      trivial
    | _ =>
      obtain rfl := h
      trivial
  | transfer =>
    obtain ⟨-, -, rfl⟩ := h
    trivial
  | nextBlock =>
    cases lab with
    | remove => exact ⟨_, rfl⟩
    | vrf | note => trivial
    | _ => exact h.elim

/-- The two halves of a block boundary. -/
theorem Chain.exec_nextBlock {c c' : Chain} {headerHash : Bytes}
    (h : c.exec env (.nextBlock headerHash) = .ok c') :
    ∃ s₁ updates block', endBlock env c.block c.state = .ok (s₁, updates) ∧
    beginBlock env block' s₁ = .ok c'.state ∧
    c'.validators = updates.foldl applyUpdate c.validators := by
  obtain ⟨c₁, hfinish, hbegin⟩ := bind_eq_ok.mp h
  obtain ⟨⟨s₁, updates⟩, hend, hfinish⟩ := bind_eq_ok.mp hfinish
  cases hfinish
  obtain ⟨s₂, hnext, hbegin⟩ := bind_eq_ok.mp hbegin
  cases hbegin
  exact ⟨s₁, updates, _, hend, hnext, rfl⟩

/-- **Every event is a sequence of steps.** -/
theorem Chain.exec_steps {c c' : Chain} (h : c.exec env ev = .ok c') :
    Does env c.block (ev.Stands env) c.state c'.state := by
  cases ev with
  | tx msg =>
    cases h
    cases hr : deliver env c.block c.state msg with
    | error => exact .refl _
    | ok =>
      obtain rfl | ⟨lab, hlab, hstep⟩ := deliver_step.get hr
      · exact .refl _
      · exact .single hstep hlab
  | call call =>
    cases h
    cases hr : perform env c.block c.state call with
    | error => exact .refl _
    | ok => exact perform_steps.get hr
  | transfer src dst coin =>
    cases h
    unfold Registry.transfer
    split
    · exact .refl _
    · next hother =>
      simp only [not_or, Int.not_lt] at hother
      obtain ⟨hsrc, hdst, hc⟩ := hother
      cases hsend : env.sendCoins c.state.world.bank src dst coin with
      | none => exact .refl _
      | some => exact .single (step_transfer _ hc hsend) ⟨hsrc, hdst, rfl⟩
  | nextBlock =>
    obtain ⟨s₁, updates, _, hend, hnext, -⟩ := exec_nextBlock h
    exact (endBlock_steps.get hend).trans (beginBlock_steps.get hnext)

end FunaiChain.Registry
