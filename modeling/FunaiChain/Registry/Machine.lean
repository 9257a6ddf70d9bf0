import FunaiChain.Registry.Chain

/-!
# FunaiChain.Registry.Machine

The abstract machine under the worker module: labelled steps, each of which says
what happens to the record of one worker (`Change`), in the bank (`Label.Paid`), in
the model registry (`Told`) and in the index of models.

That every event of the chain is a sequence of such steps is proved in
`FunaiChain.Registry.Refinement`.  The invariants of the later modules are proved
once per label; none of them looks at a handler again.
-/

namespace FunaiChain.Registry

open Modelreg (ModelId)

variable {s s' : State} {a : Addr} {w : Worker} {p : Profile} {labs : List Label}

/-! ## labels -/

/-- What a step is about. -/
inductive Label
  | register (a : Addr) (msg : MsgRegisterWorker) (stake : Coin)
  | exit (a : Addr)
  | update (a : Addr) (models : List ModelId)
  | stake (a : Addr) (c : Coin)
  | unjail (a : Addr)
  | jail (a : Addr)
  | tombstone (a : Addr)
  | slash (a : Addr) (percent : UInt32) (recipient : Option Addr) (c : Coin)
  | success (a : Addr)
  | note (a : Addr)
  | remove (a : Addr) (c : Coin)
  | declare (a : Addr) (m : ModelId)
  | propose (msg : Modelreg.MsgModelProposal)
  | govern (msg : Modelreg.MsgUpdateModelStats)
  | task (m : ModelId) (fee latencyMs : UInt64)
  | vrf
  | transfer (src dst : Addr) (c : Coin)

namespace Label

/-- The worker whose record changes. -/
def addr : Label → Option Addr
  | .register a _ _ | .exit a | .update a _ | .stake a _ | .unjail a | .jail a | .tombstone a
  | .slash a _ _ _ | .success a | .note a | .remove a _ => some a
  | _ => none

/-- The account that asked for the step. -/
def signer : Label → Option Addr
  | .register a _ _ | .exit a | .update a _ | .stake a _ | .unjail a | .declare a _ => some a
  | _ => none

/-- A coin as an amount of one denom. -/
def amountOf (c : Coin) (d : String) : Int := if c.denom = d then c.amount else 0

/-- What the account of the worker module receives. -/
def inflow (d : String) : Label → Int
  | .register _ _ c | .stake _ c => amountOf c d
  | .slash _ _ _ c | .remove _ c => -amountOf c d
  | _ => 0

/-- The coin that moves. -/
def coin : Label → Coin
  | .register _ _ c | .stake _ c | .slash _ _ _ c | .remove _ c | .transfer _ _ c => c
  | _ => ⟨"", 0⟩

/-- The account to which the module pays the coin. -/
def outgo : Label → Option Addr
  | .slash _ _ recipient _ => recipient
  | .remove a _ => some a
  | _ => none

variable (env : Env)

/-- The account that the coin comes from. -/
def payer : Label → Option Addr
  | .register a _ _ | .stake a _ => some a
  | .slash _ _ _ _ | .remove _ _ => some env.workerAccount
  | .transfer src _ _ => some src
  | _ => none

/-- The account that the coin goes to. -/
def payee : Label → Option Addr
  | .register _ _ _ | .stake _ _ => some env.workerAccount
  | .slash _ _ recipient _ => recipient
  | .remove a _ => some a
  | .transfer _ dst _ => some dst
  | _ => none

/-- What happens in the bank: the coin goes from the payer to the payee, and the module
pays nothing to itself. -/
structure Paid (lab : Label) (b b' : Bank) : Prop where
  nonneg : 0 ≤ lab.coin.amount
  balance : ∀ x d, (b'.balance x d : Int) = b.balance x d
    - (if lab.payer env = some x then amountOf lab.coin d else 0)
    + (if lab.payee env = some x then amountOf lab.coin d else 0)
  away : ∀ r, lab.outgo = some r → lab.coin.amount = 0 ∨ r ≠ env.workerAccount

/-- The account of the module acts neither as a worker nor in a transfer. -/
def Foreign : Label → Prop
  | .register a _ _ | .stake a _ => a ≠ env.workerAccount
  | .transfer src dst _ => src ≠ env.workerAccount ∧ dst ≠ env.workerAccount
  | _ => True

end Label

/-! ## records -/

namespace State

/-- The record of a worker with its profile. -/
def entry (s : State) (a : Addr) : Option (Worker × Profile) :=
  (s.world.workers.get a).map fun w => (w, s.profile a)

theorem entry_eq_some :
    s.entry a = some (w, p) ↔ s.world.workers.get a = some w ∧ s.profile a = p := by
  unfold entry
  cases s.world.workers.get a <;> simp

theorem entry_of_get (h : s.world.workers.get a = some w) :
    s.entry a = some (w, s.profile a) := entry_eq_some.mpr ⟨h, rfl⟩

theorem get_eq_entry (s : State) (a : Addr) : s.world.workers.get a = (s.entry a).map Prod.fst := by
  unfold entry
  cases s.world.workers.get a <;> rfl

theorem entry_eq_none : s.entry a = none ↔ s.world.workers.get a = none := by
  unfold entry
  cases s.world.workers.get a <;> simp

theorem entry_setWorker :
    (s.setWorker w).entry a = if w.address = a then some (w, s.profile a) else s.entry a := by
  unfold entry
  rw [get_setWorker]
  split <;> rfl

theorem entry_putWorker :
    (s.putWorker w p).entry a = if w.address = a then some (w, p) else s.entry a := by
  unfold entry
  rw [get_putWorker, profile_putWorker]
  split <;> rfl

theorem entry_deleteWorker {b : Addr} :
    (s.deleteWorker b).entry a = if b = a then none else s.entry a := by
  unfold entry
  rw [get_deleteWorker, profile_deleteWorker]
  split <;> rfl

end State

section
variable (height : Int) (wp : WorkerParams) (ep : EntryParams)

/-- What can happen to the record of a worker. -/
inductive Change : Label → Option (Worker × Profile) → Option (Worker × Profile) → Prop
  | register (a : Addr) (msg : MsgRegisterWorker) (stake : Coin)
      (denom : stake.denom = ep.minStake.denom) (nonneg : 0 ≤ stake.amount)
      (amount : stake.amount = 0 ∨ stake = ep.minStake) :
      Change (.register a msg stake) none
        (some (newWorker height a msg.pubkey stake ep.minStake.denom, newProfile msg))
  | exit (a : Addr) {w : Worker} {p : Profile} (free : w.jailed = false)
      (standing : w.tombstoned = false) (active : w.status = .active) :
      Change (.exit a) (some (w, p))
        (some ({ w with status := .exiting }, { p with exitRequestedAt := height }))
  | update (a : Addr) (models : List ModelId) {w : Worker} {p : Profile}
      (active : isActive w = true) :
      Change (.update a models) (some (w, p))
        (some (w, { p with supportedModels := models.map stored }))
  | stake (a : Addr) (c : Coin) {w : Worker} {p : Profile} (standing : w.tombstoned = false)
      (denom : w.stake.denom = c.denom) (positive : 0 < c.amount) :
      Change (.stake a c) (some (w, p))
        (some ({ w with stake := ⟨w.stake.denom, w.stake.amount + c.amount⟩ }, p))
  | unjail (a : Addr) {w : Worker} {p : Profile} (jailed : w.jailed = true)
      (standing : w.tombstoned = false) (elapsed : w.jailUntil ≤ height) :
      Change (.unjail a) (some (w, p))
        (some ({ w with jailed := false, status := .active, jailUntil := 0 }, p))
  | jail (a : Addr) {w : Worker} {p : Profile} (standing : w.tombstoned = false)
      (timed : ¬ 3 ≤ w.jailCount + 1) (jailUntil : Int) :
      Change (.jail a) (some (w, p)) (some ({ w with
          jailCount := w.jailCount + 1, successStreak := 0, jailed := true, status := .jailed,
          jailUntil := jailUntil }, p))
  | tombstone (a : Addr) {w : Worker} {p : Profile} (standing : w.tombstoned = false) :
      Change (.tombstone a) (some (w, p)) (some (entomb w, p))
  | slash (a : Addr) (percent : UInt32) (x : Int) {w : Worker} {p : Profile}
      (recipient : Option Addr) (amount : x = (w.stake.amount * percent.toNat).tdiv 100)
      (nonneg : 0 ≤ x) (covered : x ≤ w.stake.amount) :
      Change (.slash a percent recipient ⟨w.stake.denom, x⟩) (some (w, p))
        (some ({ w with stake := ⟨w.stake.denom, w.stake.amount - x⟩ }, p))
  | success (a : Addr) {w : Worker} {p : Profile}
      (decayed : wp.jailDecayInterval ≤ w.successStreak + 1) :
      Change (.success a) (some (w, p)) (some ({ w with
          jailCount := if 0 < w.jailCount then w.jailCount - 1 else w.jailCount
          successStreak := 0 }, p))
  | streak (a : Addr) {w : Worker} {p : Profile}
      (short : ¬ wp.jailDecayInterval ≤ w.successStreak + 1) :
      Change (.success a) (some (w, p)) (some ({ w with successStreak := w.successStreak + 1 }, p))
  | note (a : Addr) {w : Worker} {p : Profile} (totalTasks : UInt64) (totalFeeEarned : Coin)
      (lastActiveBlock : Int) (reputationScore consecutiveRejects avgLatencyMs : UInt32) :
      Change (.note a) (some (w, p)) (some ({ w with
          totalTasks := totalTasks, totalFeeEarned := totalFeeEarned,
          lastActiveBlock := lastActiveBlock, reputationScore := reputationScore,
          consecutiveRejects := consecutiveRejects, avgLatencyMs := avgLatencyMs }, p))
  | remove (a : Addr) {w : Worker} {p : Profile} (exiting : w.status = .exiting)
      (requested : p.exitRequestedAt ≠ 0)
      (waited : ep.exitWaitPeriod ≤ height - p.exitRequestedAt) :
      Change (.remove a w.stake) (some (w, p)) none

end

/-! ## steps -/

section Steps
variable (env : Env)

/-- What happens in the model registry. -/
def Told (height : Int) (s s' : State) : Label → Prop
  | .stake a _ | .unjail a | .jail a | .tombstone a | .slash a _ _ _ =>
      Modelreg.onWorkerStateChange env.toModelreg s'.workerKeeper height s.modelreg a =
        .ok s'.modelreg
  | .remove a _ =>
      Modelreg.onWorkerRemoved env.toModelreg s.workerKeeper height s.modelreg a = .ok s'.modelreg
  | .declare a m =>
      (s.modelreg.getModel m).isSome = true ∧ s.isWorkerActive a = true ∧
        s.workerSupportsModel a m = true ∧
        Modelreg.refreshModelStats env.toModelreg s.workerKeeper height
          (s.modelreg.setWorkerInstalledModel a m) m = .ok s'.modelreg
  | .propose msg =>
      Modelreg.proposeModel env.toModelreg height s.modelreg msg = .ok s'.modelreg
  | .govern msg =>
      Modelreg.updateModelStats env.toModelreg height s.modelreg msg = .ok s'.modelreg
  | .task m fee latencyMs => s'.modelreg = Modelreg.recordModelTask s.modelreg m fee latencyMs
  | _ => s'.modelreg = s.modelreg

/-- The index of models after a step. -/
def State.reindexed (s : State) : Label → Store Bytes Unit
  | .register a msg _ => (s.setModelIndices a msg.supportedModels).modelIndex
  | .update a models =>
      ((s.removeModelIndices a (s.profile a).supportedModels).setModelIndices a models).modelIndex
  | .remove a _ => (s.removeModelIndices a (s.profile a).supportedModels).modelIndex
  | _ => s.modelIndex

/-- A step: the record of the worker it is about changes, the others stay; the bank
moves the coin of the label; the model registry is told. -/
structure Step (block : Vrf.Block) (s : State) (lab : Label) (s' : State) : Prop where
  change : ∀ a, lab.addr = some a →
    Change block.height s.world.workerParams s.params lab (s.entry a) (s'.entry a)
  others : ∀ a, lab.addr ≠ some a → s'.entry a = s.entry a
  workerParams : s'.world.workerParams = s.world.workerParams
  params : s'.params = s.params
  bank : lab.Paid env s.world.bank s'.world.bank
  told : Told env block.height s s' lab
  index : s'.modelIndex = s.reindexed lab
  vrf : lab ≠ .vrf → s'.vrf = s.vrf
  signed : ∀ a, lab.signer = some a → env.signs a = true

/-- Steps one after the other. -/
inductive Steps (block : Vrf.Block) : State → List Label → State → Prop
  | nil (s : State) : Steps block s [] s
  | cons {s s₁ s₂ : State} {lab : Label} {labs : List Label}
      (step : Step env block s lab s₁) (rest : Steps block s₁ labs s₂) :
      Steps block s (lab :: labs) s₂

namespace Steps

variable {env} {block : Vrf.Block}

theorem append {s₁ s₂ : State} {labs' : List Label} (h : Steps env block s labs s₁)
    (h' : Steps env block s₁ labs' s₂) : Steps env block s (labs ++ labs') s₂ := by
  induction h with
  | nil => exact h'
  | cons step _ ih => exact .cons step (ih h')

/-- What every step keeps, a sequence keeps.  The steps may use that their label comes
from the list. -/
theorem invariant {P : State → Prop}
    (hstep : ∀ s s' lab, lab ∈ labs → P s → Step env block s lab s' → P s') (hs : P s)
    (h : Steps env block s labs s') : P s' := by
  induction h with
  | nil => exact hs
  | cons step _ ih => grind

end Steps

end Steps

end FunaiChain.Registry
