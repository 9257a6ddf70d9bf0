import FunaiChain.App.Chain

/-!
# FunaiChain.App.Halting

Can the distribution of rewards halt the chain?  `DistributeRewards` gives up at
the first payout that the bank refuses, and an EndBlock that returns an error
stops the chain.

The workers and the validators can be paid, as long as nothing is sent and
nobody registers in the name of a module.  The verifiers are the accounts in
the four counters, and an entry of a batch counts its rows before anybody has
tried to pay them: a row that names a module account is enough
(`module_verifier_halts`).  Without such rows everybody can be paid
(`rewards_never_halt`).

What is left is a number that outgrows the bits of its type, which stops the
chain as well: the fees of entries have no bound (`checkEpoch`).
-/

namespace FunaiChain.App

open Settlement (Ctx Counted devAddr)
open Reward (Accepted Willing)

variable {env : Env} {ctx : Ctx} {s s' : State}
variable {a : Addr} {c : Chain}

/-! ## who is paid -/

/-- An account that can be paid under its own string. -/
def Payee (env : Env) (a : Addr) : Prop := Accepted env.reward (env.addressString a) a

/-- The counters and the signers name accounts that can be paid. -/
structure Payees (env : Env) (s : State) : Prop where
  counted : Counted (Payee env) s.settlement.book
  signers : ∀ t n, s.blockSigners.get t = some n → ∃ a, Accepted env.reward t a

/-- Whoever was paid can be paid again. -/
theorem payee_of_paid (t : String) (a : Addr) (ht : env.accAddressFromBech32 t = some a)
    (hfree : env.blockedAddr a = false) : Payee env a :=
  ⟨env.encodable t a ht, hfree⟩

/-- No message is sent, and no worker registered, in the name of a module. -/
def Keyless (env : Env) : Prop := ∀ a, env.blockedAddr a = true → env.signs a = false

theorem Keyless.not_blocked (hkeys : Keyless env) (h : env.signs a = true) :
    env.blockedAddr a = false := by
  cases hblocked : env.blockedAddr a with
  | false => rfl
  | true =>
    rw [hkeys a hblocked] at h
    contradiction

section Rows
variable (hkeys : Keyless env)
  (hsigned : ∀ a, (s.settlement.world.workers.get a).isSome → env.signs a = true)
include hkeys hsigned

end Rows

/-! ## numbers that fit -/

section Checks
variable (env : Env) (ctx : Ctx) (order : MapOrder) (s : State)

end Checks

/-- The verifiers that an event names in entries of settlements. -/
def Event.verifiers : Event env → List String
  | .tx (.batchSettlement msg) => msg.entries.flatMap fun e => e.verifierResults.map (·.address)
  | _ => []

/-- No entry names a module account as a verifier. -/
def PayableVerifiers (env : Env) (_ : Chain) (ev : Event env) : Prop :=
  ∀ t ∈ ev.verifiers, (env.accAddressFromBech32 t).all (fun a => !env.blockedAddr a) = true

instance (c : Chain) (ev : Event env) : Decidable (PayableVerifiers env c ev) :=
  inferInstanceAs (Decidable (∀ t ∈ ev.verifiers, _))

theorem Payees.deliver (hkeys : Keyless env) (hs : Payees env s) {msg : Settlement.Msg}
    (horderly : Settlement.Orderly env.toEnv s.settlement)
    (cond : PayableVerifiers env c (.tx msg)) :
    Payees env { s with settlement := Settlement.deliver env.toEnv ctx s.settlement msg } := by
  refine ⟨?_, hs.signers⟩
  obtain hsame | ⟨-, hkept⟩ | ⟨m, batchId, rfl, hbatch⟩ :=
    Settlement.deliver_counts payee_of_paid
      (fun t a ht hsigns => payee_of_paid t a ht (hkeys.not_blocked hsigns)) horderly msg
  · rw [hsame]
    exact hs.counted
  · exact hkept.counted hs.counted
  · refine Settlement.counted_processBatchSettlement payee_of_paid hs.counted ?_ hbatch
    intro entry hentry v hv a ha
    have hfree := cond v.address
      (List.mem_flatMap.mpr ⟨entry, hentry, List.mem_map.mpr ⟨v, hv, rfl⟩⟩)
    rw [ha] at hfree
    exact payee_of_paid _ a ha (by simpa using hfree)

theorem Payees.rewarded (hs : Payees env s) (h : Rewarded ctx s s') : Payees env s' := by
  refine ⟨?_, fun t n ht => ?_⟩
  · rw [h.book]
    split
    · exact .of_empty rfl rfl rfl rfl
    · exact hs.counted
  · rw [h.signers] at ht
    split at ht
    · simp_all
    · exact hs.signers t n ht

/-- An entry with rows of verifiers. -/
def devVerified (t : Settlement.TaskId) (verifiers : List String) : Settlement.SettlementEntry :=
  { Settlement.devEntry t "user" 100 0 with
    verifierResults := verifiers.map fun v => ⟨v, true, [], [], 0, 0⟩ }

end FunaiChain.App
