import FunaiChain.Registry.Lifecycle

/-!
# FunaiChain.Registry.Stakes

The account of the worker module against the stakes in the records.

* one record: what a `Change` adds to its stake is what the label says the account
  receives (`Change.held`);
* one step: the records of the others stay, so the sum over all of them follows
  (`Step.staked`);
* a run: the difference between the account and the sum is constant (`RunWith.surplus`),
  as long as the account itself is no worker and gets no refund: its own registration
  is a send to itself, with no coins behind the stake (`own_stake_lowers_surplus`).

The stakes stay valid coins, which makes the share that a slash takes the rounded-down
one.
-/

namespace FunaiChain.Registry

open Settlement (devAddr defaultDenom)

variable {env : Env} {block : Vrf.Block}
variable {lab : Label} {s s' : State} {w : Worker} {percent : UInt32} {wp : WorkerParams}
  {ep : EntryParams} {c c₀ : Chain} {a : Addr} {height : Int} {e e' : Option (Worker × Profile)}
  {evs : List Event} {recipient : Option Addr}

/-! ## the sum of the stakes -/

/-- The stakes of all records in one denom. -/
def State.staked (s : State) (d : String) : Int :=
  s.world.workers.sum fun _ w => Label.amountOf w.stake d

/-- What the account of the module holds beyond the stakes. -/
def State.surplus (env : Env) (s : State) (d : String) : Int :=
  s.world.bank.balance env.workerAccount d - s.staked d

/-- The stake in a record, if there is one. -/
def held (e : Option (Worker × Profile)) (d : String) : Int :=
  match e with
  | some (w, _) => Label.amountOf w.stake d
  | none => 0

theorem part_eq_held (s : State) (a : Addr) (d : String) :
    s.world.workers.part (fun _ w => Label.amountOf w.stake d) a = held (s.entry a) d := by
  unfold Table.part
  rw [State.get_eq_entry]
  cases s.entry a <;> rfl

theorem amountOf_add (d d' : String) (x y : Int) :
    Label.amountOf ⟨d, x + y⟩ d' = Label.amountOf ⟨d, x⟩ d' + Label.amountOf ⟨d, y⟩ d' := by
  unfold Label.amountOf
  split <;> simp

theorem amountOf_sub (d d' : String) (x y : Int) :
    Label.amountOf ⟨d, x - y⟩ d' = Label.amountOf ⟨d, x⟩ d' - Label.amountOf ⟨d, y⟩ d' := by
  unfold Label.amountOf
  split <;> simp

/-- What a record gains, the account receives. -/
theorem Change.held (h : Change height wp ep lab e e') (d : String) :
    held e' d = held e d + lab.inflow d := by
  cases h with
  | register => simp [Registry.held, Label.inflow, newWorker]
  | stake _ c _ denom =>
    obtain ⟨cd, ca⟩ := c
    obtain rfl : _ = cd := denom
    simp [Registry.held, Label.inflow, amountOf_add]
  | slash =>
    simp only [Registry.held, Label.inflow, amountOf_sub]
    rfl
  | remove => simp [Registry.held, Label.inflow]
  | _ => simp [Registry.held, Label.inflow, entomb]

theorem inflow_of_addr_none (h : lab.addr = none) (d : String) : lab.inflow d = 0 := by
  cases lab <;> first | rfl | contradiction

/-- The sum of the stakes changes by what the account receives. -/
theorem Step.staked (h : Step env block s lab s') (d : String) :
    s'.staked d = s.staked d + lab.inflow d := by
  have hothers : ∀ b, lab.addr ≠ some b → s'.world.workers.get b = s.world.workers.get b := by
    intro b hb
    rw [State.get_eq_entry, State.get_eq_entry, h.others b hb]
  cases haddr : lab.addr with
  | none =>
    have hsame : s'.world.workers = s.world.workers :=
      Table.ext_get fun b => hothers b (by simp [haddr])
    rw [State.staked, State.staked, hsame, inflow_of_addr_none haddr]
    simp
  | some a =>
    have hsum := Table.sum_of_agree (fun _ w => Label.amountOf w.stake d)
      (fun b hb => hothers b (by simpa [haddr] using Ne.symm hb))
    rw [part_eq_held, part_eq_held, (h.change a haddr).held d] at hsum
    rw [State.staked, State.staked, hsum]
    omega

theorem Step.surplus (h : Step env block s lab s') (hforeign : lab.Foreign env) (d : String) :
    s'.surplus env d = s.surplus env d := by
  have hflow := h.bank.flow hforeign d
  have hstaked := h.staked d
  unfold State.surplus
  omega

/-- The account of the module neither registers nor stakes, and is neither the worker nor
the user of a proven fraud. -/
def Event.Foreign (env : Env) : Event → Prop
  | .tx (.registerWorker msg) => env.accAddressFromBech32 msg.creator ≠ some env.workerAccount
  | .tx (.addStake msg) => env.accAddressFromBech32 msg.creator ≠ some env.workerAccount
  | .call (.fraudProof a refund _) =>
      a ≠ env.workerAccount ∧ refund.map Prod.fst ≠ some env.workerAccount
  | _ => True

instance (ev : Event) : Decidable (ev.Foreign env) := by
  unfold Event.Foreign
  split <;> infer_instance

theorem Event.Foreign.label {ev : Event} (h : ev.Foreign env) (hlab : ev.Stands env lab) :
    lab.Foreign env := by
  cases lab with
  | register =>
    obtain ⟨rfl, hcreator⟩ := hlab.causes
    rintro rfl
    exact h hcreator
  | stake =>
    cases ev with
    | tx msg =>
      cases msg with
      | addStake =>
        obtain ⟨_, hcreator, he⟩ := hlab
        cases he
        rintro rfl
        exact h hcreator
      | _ => simp [Event.Stands, Msg.Stands] at hlab
    | call k => cases k <;> simp [Event.Stands, Call.Stands] at hlab
    | transfer => simp [Event.Stands] at hlab
    | nextBlock => exact hlab.elim
  | transfer =>
    cases ev with
    | tx msg => cases msg <;> simp [Event.Stands, Msg.Stands] at hlab
    | call k =>
      cases k with
      | fraudProof =>
        obtain ⟨_, _, rfl, he⟩ | ⟨_, he⟩ | he := hlab <;> cases he
        exact ⟨h.1, fun hdst => h.2 (congrArg some hdst)⟩
      | _ => simp [Event.Stands, Call.Stands] at hlab
    | transfer =>
      obtain ⟨hsrc, hdst, he⟩ := hlab
      cases he
      exact ⟨hsrc, hdst⟩
    | nextBlock => exact hlab.elim
  | _ => trivial

/-- **No run changes what the account holds beyond the stakes**, as long as the account
does not act itself. -/
theorem RunWith.surplus (h : RunWith env (fun _ ev => ev.Foreign env) c₀ evs c) (d : String) :
    c.state.surplus env d = c₀.state.surplus env d := by
  refine Trace.invariant (P := fun c => c.state.surplus env d = c₀.state.surplus env d) ?_ rfl h
  intro c₁ c₂ ev hP hforeign hexec
  obtain ⟨labs, hsteps, hlabs⟩ := Chain.exec_steps hexec
  exact hsteps.invariant (P := fun s => s.surplus env d = c₀.state.surplus env d)
    (fun _ _ lab hlab hP hstep => (hstep.surplus (hforeign.label (hlabs lab hlab)) d).trans hP) hP

/-! ## the stakes are coins -/

/-- The stored stakes are valid coins. -/
def State.Coins (s : State) : Prop :=
  ∀ a w, s.world.workers.get a = some w → w.stake.isValid = true

theorem isValid_iff {c : Coin} : c.isValid = true ↔ validDenom c.denom = true ∧ 0 ≤ c.amount := by
  simp [Coin.isValid]

theorem Change.coins (h : Change height wp ep lab e e')
    (hdenom : validDenom ep.minStake.denom = true)
    (he : ∀ w p, e = some (w, p) → w.stake.isValid = true) :
    ∀ w p, e' = some (w, p) → w.stake.isValid = true := by
  intro w' p' hw'
  cases h with
  | register _ _ _ denom nonneg =>
    cases hw'
    exact isValid_iff.mpr ⟨denom ▸ hdenom, nonneg⟩
  | stake | slash =>
    cases hw'
    obtain ⟨hd, hnn⟩ := isValid_iff.mp (he _ _ rfl)
    exact isValid_iff.mpr ⟨hd, by dsimp only; omega⟩
  | remove => contradiction
  | _ =>
    have hbefore := he _ _ rfl
    cases hw'
    exact hbefore

theorem Step.coins (h : Step env block s lab s')
    (hdenom : validDenom s.params.minStake.denom = true) (hs : s.Coins) : s'.Coins := by
  intro a w hfound
  have hentry := State.entry_of_get hfound
  by_cases ha : lab.addr = some a
  · refine (h.change a ha).coins hdenom (fun w p hw => ?_) w _ hentry
    exact hs a w (State.entry_eq_some.mp hw).1
  · rw [h.others a ha] at hentry
    exact hs a w (State.entry_eq_some.mp hentry).1

theorem Chain.exec_coins {c' : Chain} {ev : Event} (h : c.exec env ev = .ok c')
    (hdenom : validDenom c.state.params.minStake.denom = true) (hs : c.state.Coins) :
    c'.state.Coins := by
  obtain ⟨labs, hsteps, -⟩ := exec_steps h
  have hboth : c'.state.params = c.state.params ∧ c'.state.Coins :=
    hsteps.invariant (P := fun s => s.params = c.state.params ∧ s.Coins)
      (fun _ _ _ _ hP hstep => ⟨hstep.params.trans hP.1,
        hstep.coins (hP.1.symm ▸ hdenom) hP.2⟩) ⟨rfl, hs⟩
  exact hboth.2

theorem Run.coins (h : Run env c₀ evs c) (hdenom : validDenom c₀.state.params.minStake.denom = true)
    (hs : c₀.state.Coins) : c.state.Coins := by
  have hboth : c.state.params = c₀.state.params ∧ c.state.Coins :=
    Trace.invariant (P := fun c => c.state.params = c₀.state.params ∧ c.state.Coins)
      (fun _ _ _ hP _ hexec => ⟨(Chain.exec_params hexec).1.trans hP.1,
        Chain.exec_coins hexec (hP.1.symm ▸ hdenom) hP.2⟩) ⟨rfl, hs⟩ h
  exact hboth.2

/-- Accepted parameters name a stake that is a coin, and a slash of at most all of it. -/
theorem validate_eq_ok (h : validate wp ep = .ok ()) :
    validDenom ep.minStake.denom = true ∧ wp.slashFraudPercent ≤ 100 ∧
    0 < wp.jailDecayInterval := by
  obtain ⟨_, hstake, h⟩ := bind_eq_ok.mp h
  obtain ⟨_, -, h⟩ := bind_eq_ok.mp h
  obtain ⟨_, -, h⟩ := bind_eq_ok.mp h
  obtain ⟨_, -, h⟩ := bind_eq_ok.mp h
  obtain ⟨_, hpercent, h⟩ := bind_eq_ok.mp h
  have hstake := ensure_eq_ok.mp hstake
  have hpercent := ensure_eq_ok.mp hpercent
  have hdecay := ensure_eq_ok.mp h
  simp only [Bool.and_eq_true, Coin.isValid, decide_eq_true_eq] at hstake hpercent
  refine ⟨hstake.1.1, hpercent.2, ?_⟩
  simpa [UInt32.lt_iff_toNat_lt, Nat.pos_iff_ne_zero, ← UInt32.toNat_inj] using hdecay

/-! ## slashes -/

/-- The share of a stake that a slash takes. -/
def slashShare (w : Worker) (percent : UInt32) : Coin :=
  ⟨w.stake.denom, w.stake.amount * percent.toNat / 100⟩

/-- A slash was carried out: the share is gone from the record and from the account, and
nothing else. -/
structure Slashed (env : Env) (s : State) (a : Addr) (w : Worker) (percent : UInt32)
    (s' : State) : Prop where
  record : s'.world.workers.get a = some { w with
    stake := ⟨w.stake.denom, w.stake.amount - (slashShare w percent).amount⟩ }
  others : ∀ b, b ≠ a → s'.world.workers.get b = s.world.workers.get b
  account : ∀ d, (s'.world.bank.balance env.workerAccount d : Int) =
    s.world.bank.balance env.workerAccount d - Label.amountOf (slashShare w percent) d

/-- A share of nothing is taken from everyone. -/
theorem slashed_of_zero (hfound : s.world.workers.get a = some w)
    (hzero : (slashShare w percent).amount = 0) : Slashed env s a w percent s where
  record := by rw [hzero, Int.sub_zero, hfound]
  others := fun _ _ => rfl
  account := fun d => by simp [Label.amountOf, hzero]

theorem tdiv_share {x : Int} (hx : 0 ≤ x) (percent : UInt32) :
    (x * percent.toNat).tdiv 100 = x * percent.toNat / 100 :=
  Int.tdiv_eq_ediv_of_nonneg (Int.mul_nonneg hx (Int.natCast_nonneg _))

/-- **A slash takes exactly its share, or nothing when the bank refuses.** -/
theorem slashWorkerInternal_slashed (hfound : s.world.workers.get a = some w)
    (hnn : 0 ≤ w.stake.amount) : OnValue (fun s' => Slashed env s a w percent s' ∨
    World.moveSlashed env.toHost s.world.bank recipient (slashShare w percent) = none ∧ s' = s)
    (slashWorkerInternal env block.height s a percent recipient) := by
  unfold slashWorkerInternal
  simp only [hfound]
  refine .ite (fun hzero => .ok (.inl (slashed_of_zero hfound ?_))) fun _ => .after fun x hx => ?_
  · have hzero : w.stake.amount = 0 := by simpa [Coin.isZero] using hzero
    simp [slashShare, hzero]
  obtain ⟨-, -, hx⟩ := MathInt.share_eq_ok.mp hx
  rw [tdiv_share hnn] at hx
  obtain rfl : x = (slashShare w percent).amount := hx
  refine .ite (fun hzero => .ok (.inl (slashed_of_zero hfound hzero))) fun _ =>
    .after fun c hc => ?_
  obtain ⟨-, hshare, rfl⟩ := Coin.new_eq_ok.mp hc
  cases hmoved : World.moveSlashed env.toHost s.world.bank recipient
      ⟨w.stake.denom, (slashShare w percent).amount⟩ with
  | none => exact .ok (.inr ⟨hmoved, rfl⟩)
  | some =>
    refine .after fun stake hstake => .of_forall fun s' h => .inl ?_
    obtain ⟨-, -, hle, rfl⟩ := Coin.sub_eq_ok.mp hstake
    obtain ⟨m, -, rfl⟩ := onWorkerStateChange_eq_ok h
    have haddr := World.address_of_get hfound
    exact
      { record := State.get_setWorker.trans (if_pos haddr)
        others := fun b hb => State.get_setWorker.trans (if_neg (by rw [haddr]; exact Ne.symm hb))
        account := fun d => (Label.paid_moveSlashed a percent hshare hmoved).flow trivial d }

theorem slashShare_le (hnn : 0 ≤ w.stake.amount) (hpercent : percent ≤ 100) :
    0 ≤ (slashShare w percent).amount ∧ (slashShare w percent).amount ≤ w.stake.amount := by
  have hle : (percent.toNat : Int) ≤ 100 := by
    have := UInt32.le_iff_toNat_le.mp hpercent
    simp only [UInt32.reduceToNat] at this
    omega
  have hprod : w.stake.amount * percent.toNat ≤ w.stake.amount * 100 :=
    Int.mul_le_mul_of_nonneg_left hle hnn
  have hprod₀ : 0 ≤ w.stake.amount * percent.toNat := Int.mul_nonneg hnn (Int.natCast_nonneg _)
  unfold slashShare
  dsimp only
  omega

theorem fits_sub_slashShare (hnn : 0 ≤ w.stake.amount) (hpercent : percent ≤ 100)
    (hfits : MathInt.Fits (w.stake.amount * percent.toNat))
    (hne : (slashShare w percent).amount ≠ 0) :
    MathInt.Fits (w.stake.amount - (slashShare w percent).amount) := by
  obtain ⟨h0, hle⟩ := slashShare_le hnn hpercent
  have hpos : (1 : Int) ≤ percent.toNat := by
    by_contra hlt
    have hzero : (percent.toNat : Int) = 0 := by omega
    simp [slashShare, hzero] at hne
  have hprod : w.stake.amount * 1 ≤ w.stake.amount * percent.toNat :=
    Int.mul_le_mul_of_nonneg_left hpos hnn
  unfold MathInt.Fits at *
  omega

/-- A slash of at most the whole stake panics only if the product does not fit, or over
the new record in the model registry. -/
theorem slashWorkerInternal_error {e : Panic} (hfound : s.world.workers.get a = some w)
    (hcoin : w.stake.isValid = true) (hpercent : percent ≤ 100)
    (h : slashWorkerInternal env block.height s a percent recipient = .error e) :
    ¬ MathInt.Fits (w.stake.amount * percent.toNat) ∨ ∃ bank, onWorkerStateChange env block.height
        (State.setWorker { s with world := { s.world with bank := bank } } { w with
          stake := ⟨w.stake.denom, w.stake.amount - (slashShare w percent).amount⟩ }) a =
            .error e := by
  obtain ⟨hdenom, hnn⟩ := isValid_iff.mp hcoin
  obtain ⟨h0, hle⟩ := slashShare_le hnn hpercent
  refine or_iff_not_imp_left.mpr fun hfits => ?_
  have hfits := Classical.not_not.mp hfits
  unfold slashWorkerInternal at h
  simp only [hfound] at h
  split at h
  · cases h
  · have hshare : MathInt.share w.stake.amount percent 100 = .ok (slashShare w percent).amount :=
      MathInt.share_eq_ok.mpr ⟨by decide, hfits, (tdiv_share hnn percent).symm⟩
    have hnew : Coin.new w.stake.denom (slashShare w percent).amount =
        .ok (slashShare w percent) := Coin.new_eq_ok.mpr ⟨hdenom, h0, rfl⟩
    rw [hshare, ok_bind] at h
    split at h
    · cases h
    next hne =>
    rw [hnew, ok_bind] at h
    have hsub : w.stake.sub (slashShare w percent) =
        .ok ⟨w.stake.denom, w.stake.amount - (slashShare w percent).amount⟩ :=
      Coin.sub_eq_ok.mpr ⟨rfl, fits_sub_slashShare hnn hpercent hfits hne, hle, rfl⟩
    split at h
    · cases h
    · next bank hmoved =>
      rw [hsub, ok_bind] at h
      exact ⟨bank, h⟩

/-! ## conservation -/

/-- What holds of the stakes after a run. -/
structure Conserved (env : Env) (c₀ c : Chain) : Prop where
  /-- The account holds the stakes and what it held beyond them at the start. -/
  balance : ∀ d, (c.state.world.bank.balance env.workerAccount d : Int) =
    c₀.state.surplus env d + c.state.staked d
  /-- A slash of these records, by whoever calls it and whatever the bank holds then,
  takes exactly the share of one worker, or nothing when the bank refuses. -/
  slashed : ∀ s a percent recipient s', s.world.workers = c.state.world.workers →
    slashWorkerInternal env c.block.height s a percent recipient = .ok s' →
    match s.world.workers.get a with
    | none => s' = s
    | some w => Slashed env s a w percent s' ∨
        World.moveSlashed env.toHost s.world.bank recipient (slashShare w percent) = none ∧ s' = s
  /-- It ends so, up to an overflow of the product or a panic in the model registry. -/
  returns : ∀ s a w percent recipient e, s.world.workers = c.state.world.workers →
    s.world.workers.get a = some w → percent ≤ 100 →
    slashWorkerInternal env c.block.height s a percent recipient = .error e →
    ¬ MathInt.Fits (w.stake.amount * percent.toNat) ∨ ∃ bank, onWorkerStateChange env c.block.height
        (State.setWorker { s with world := { s.world with bank := bank } } { w with
          stake := ⟨w.stake.denom, w.stake.amount - (slashShare w percent).amount⟩ }) a = .error e

/-- **Stake conservation**: under accepted parameters, from records whose stakes are
coins, in every run in which the account of the module does not act itself. -/
theorem run_conserved {c₀ c : Chain} {evs : List Event}
    (hparams : validate c₀.state.world.workerParams c₀.state.params = .ok ())
    (hcoins : c₀.state.Coins) (h : RunWith env (fun _ ev => ev.Foreign env) c₀ evs c) :
    Conserved env c₀ c := by
  have hs : c.state.Coins :=
    Run.coins (h.mono fun _ _ _ => trivial) (validate_eq_ok hparams).1 hcoins
  exact
    { balance := fun d => by
        have hsurplus := RunWith.surplus h d
        unfold State.surplus at *
        omega
      slashed := by
        intro s a percent recipient s' hworkers hslash
        cases hfound : s.world.workers.get a with
        | none =>
          unfold slashWorkerInternal at hslash
          rw [hfound] at hslash
          exact (Except.ok.inj hslash).symm
        | some w =>
          have hcoin := hs a w (hworkers ▸ hfound)
          exact (slashWorkerInternal_slashed hfound (isValid_iff.mp hcoin).2).get hslash
      returns := fun s a w percent recipient e hworkers hfound hpercent hslash =>
        slashWorkerInternal_error hfound (hs a w (hworkers ▸ hfound)) hpercent hslash }

/-- Of two workers one adds stake and is slashed, and a fraud of the other is proved. -/
def devSlashes : List Event :=
  [devRegister "alice@worker.example" 1 [[65]], devRegister "bobby@worker.example" 2 [[65]],
    .tx (.addStake ⟨"alice@worker.example", ⟨defaultDenom, 50⟩⟩),
    .call (.slashWorker (devAddr "alice@worker.example") 5),
    .call (.fraudProof (devAddr "bobby@worker.example") none
      (some (devAddr "alice@worker.example")))]

/-- The account holds what is staked, 238 of both. -/
theorem devSlashes_conserved :
    ∃ c, validate (devChain 1).state.world.workerParams (devChain 1).state.params = .ok () ∧
      (devChain 1).state.Coins ∧
      RunWith devEnv (fun _ ev => ev.Foreign devEnv) (devChain 1) devSlashes c ∧
      (c.state.world.bank.balance devEnv.workerAccount defaultDenom == 238 &&
        c.state.staked defaultDenom == 238) = true ∧ Conserved devEnv (devChain 1) c := by
  have hparams : validate (devChain 1).state.world.workerParams (devChain 1).state.params =
      .ok () := by decide +kernel
  have hcoins : (devChain 1).state.Coins := by
    intro a w hfound
    contradiction
  rw [exists_and_left, exists_and_left]
  refine ⟨hparams, hcoins, exists_and_of (by decide +kernel) fun c hrun _ => ?_⟩
  exact run_conserved hparams hcoins hrun

/-- The devnet whose worker account is 20 bytes long, like those of keys. -/
def openEnv : Env :=
  { devEnv with
    workerAccount := devAddr "chest@worker.example"
    blockedAddr := fun a =>
      a == Settlement.devSettlementAccount || a == devAddr "chest@worker.example"
    settlement_blocked := by decide
    accounts_differ := by decide
    worker_blocked := by decide }

/-- A registration in the name of the account of the module: a record with a stake of
100, and no coins for it. -/
theorem own_stake_lowers_surplus :
    validate (devChain 1).state.world.workerParams (devChain 1).state.params = .ok () ∧
      ∃ c, Run openEnv (devChain 1) [devRegister "chest@worker.example" 1 [[65]]] c ∧
        c.state.world.bank.balance openEnv.workerAccount defaultDenom = 1000 ∧
        c.state.staked defaultDenom = 100 ∧
        (devChain 1).state.surplus openEnv defaultDenom = 1000 ∧
        c.state.surplus openEnv defaultDenom = 900 := by
  decide +kernel

end FunaiChain.Registry
