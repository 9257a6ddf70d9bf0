import FunaiChain.Settlement.EndBlock
import FunaiChain.Lib.Trace

/-!
# FunaiChain.Settlement.Chain

The module inside the application: genesis, the delivery of transactions,
the end of a block and runs of these.

* A transaction is delivered when its stateless checks pass, in the name of any
  account that messages arrive for (`Env.signs`).  An error or a panic of the
  handler discards every write (`deliver`).
* EndBlock is not protected: if it panics the chain halts (`Chain.step` is
  `none`).
* Other modules may change bank balances, the worker store and the epoch
  counters at any time (`Outside`), but take nothing from the settlement
  account and register only workers that messages arrive for.
-/

namespace FunaiChain.Settlement

/-! ## genesis -/

structure GenesisState where
  params : Params
  inferenceAccounts : List InferenceAccount
  batchRecords : List BatchRecord

namespace GenesisState

/-- The checks of `Validate`: the parameters, distinct addresses, valid
balances. -/
def validate (gs : GenesisState) : Bool :=
  gs.params.validate.isNone &&
    decide ((gs.inferenceAccounts.map (·.address)).Nodup) &&
    gs.inferenceAccounts.all (·.balance.isValid)

end GenesisState

/-- `InitGenesis`. -/
def initGenesis (gs : GenesisState) (w : World) : State where
  params := gs.params
  ledger := gs.inferenceAccounts.foldl Ledger.setInferenceAccount Ledger.empty
  book := gs.batchRecords.foldl
    (fun b br =>
      { b with
        batchRecords := b.batchRecords.set br.batchId br rfl
        batchCounter := if 0 < br.batchId then some br.batchId else b.batchCounter })
    Book.empty
  world := w

/-! ## transactions -/

section Handlers
variable (env : Env)

/-- The handler with a decoded creator. -/
def withCreator (s : State) (creator : String)
    (f : Addr → Exec (State × Except Err Unit)) : Exec (State × Except Err Unit) :=
  match env.accAddressFromBech32 creator with
  | none => .ok (s, .error (.errorf "invalid creator address"))
  | some a => f a

/-- The message server. -/
def handle (ctx : Ctx) (s : State) : Msg → Exec (State × Except Err Unit)
  | .deposit msg =>
      withCreator env s msg.creator fun a => processDeposit env s a msg.amount
  | .withdraw msg =>
      withCreator env s msg.creator fun a => processWithdraw env s a msg.amount
  | .batchSettlement msg => do
      let (s, r) ← processBatchSettlement env ctx s msg
      return (s, r.map fun _ => ())
  | .batchReserve msg => do
      let (s, r) ← processBatchReserve env ctx s msg
      return (s, r.map fun _ => ())
  | .fraudProof msg => processFraudProof env ctx s msg
  | .secondVerificationResult msg => processSecondVerificationResult env ctx s msg
  | .secondVerificationResultBatch msg => do
      let (s, _) ← processSecondVerificationResultBatch env ctx s msg
      return (s, .ok ())

/-- May this message reach its handler?  Messages arrive in the names of `signs`. -/
def admitted (msg : Msg) : Bool :=
  (msg.validateBasic env.toHost).isOk &&
    (env.accAddressFromBech32 msg.signer).any env.signs

/-- A transaction of one message: only a handler that succeeds changes the
state. -/
def deliver (ctx : Ctx) (s : State) (msg : Msg) : State :=
  if admitted env msg then
    match handle env ctx s msg with
    | .ok (s', .ok ()) => s'
    | _ => s
  else s

end Handlers

/-! ## the chain -/

structure Chain where
  ctx : Ctx
  state : State

/-- A change made by other modules. -/
structure Outside where
  /-- The new balances; for the settlement account what it receives. -/
  balances : Addr → String → Nat
  workers : Table Addr Worker fun a w => w.address = a
  workerParams : WorkerParams
  verifierEpochCount : Store Addr UInt64
  secondVerifierEpochCount : Store Addr UInt64
  verifierEpochFee : Store Addr Int
  secondVerifierEpochFee : Store Addr Int

inductive Event
  | tx (msg : Msg)
  /-- The end of the current block, and the next one. -/
  | endBlock (next : Ctx)
  | outside (o : Outside)

section Step
variable (env : Env)

/-- The state after a change made by other modules. -/
def applyOutside (s : State) (o : Outside) : State :=
  { s with
    world := {
      bank := ⟨fun a d => if a = env.settlementAccount then
        s.world.bank.balance a d + o.balances a d else o.balances a d⟩
      workers := o.workers.filter fun a _ => env.signs a
      workerParams := o.workerParams }
    book := { s.book with
      verifierEpochCount := o.verifierEpochCount
      secondVerifierEpochCount := o.secondVerifierEpochCount
      verifierEpochFee := o.verifierEpochFee
      secondVerifierEpochFee := o.secondVerifierEpochFee } }

/-- One event; `none` when the chain halts or the next height is not higher. -/
def Chain.step (c : Chain) : Event → Option Chain
  | .tx msg => some { c with state := deliver env c.ctx c.state msg }
  | .endBlock next =>
      if c.ctx.height < next.height then
        match endBlock env c.ctx c.state with
        | .ok s => some ⟨next, s⟩
        | .error _ => none
      else none
  | .outside o => some { c with state := applyOutside env c.state o }

theorem signs_applyOutside {env : Env} {s : State} {o : Outside} {a : Addr}
    (ha : ((applyOutside env s o).world.workers.get a).isSome) : env.signs a = true := by
  rw [show (applyOutside env s o).world.workers.get a = _ from Table.get_filter ..] at ha
  obtain ⟨w, hw⟩ := Option.isSome_iff_exists.mp ha
  exact (Option.filter_eq_some_iff.mp hw).2

/-- The runs whose every event meets a condition on the chain before it. -/
abbrev Run (env : Env) (P : Chain → Event → Prop) (c₀ : Chain) : Chain → Prop :=
  FunaiChain.Run (Chain.step env) P c₀

/-- A chain at its genesis: valid parameters, positive height, balances in the
default denom with nothing frozen, and workers that can send messages. -/
structure AtGenesis (c : Chain) : Prop where
  height : 0 < c.ctx.height
  genesis : ∃ gs : GenesisState, gs.validate = true ∧ (∀ ia ∈ gs.inferenceAccounts,
      ia.balance.denom = defaultDenom ∧ ia.frozenBalance = Coin.zero) ∧
    c.state = initGenesis gs c.state.world
  signed : ∀ a, (c.state.world.workers.get a).isSome → env.signs a = true

end Step

end FunaiChain.Settlement
