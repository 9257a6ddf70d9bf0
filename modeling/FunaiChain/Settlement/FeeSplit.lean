import FunaiChain.Settlement.State

/-!
# FunaiChain.Settlement.FeeSplit

How a fee leaves the settlement account: `distributeSuccessFee` pays the
verifiers and the executor and keeps the audit fund's part, and
`distributeFailFee` pays the verifiers only.

The two splits return what they paid (`Split`), which the source computes
but does not return; the ghost log needs it.  A payout that the bank refuses
is an error, and the callers drop the state of that attempt.

The payouts of a split are listed as a function of the fee, the executor and
the verifiers' addresses (`successPayments`, `sharePayments`).  A split that
goes through makes exactly these (`distributeSuccessFee_paid`,
`distributeFailFee_paid`), and nothing else the ledger proofs look at has
changed.

A split only fails when the bank refuses a payout.  It does not when the
recipients can be paid and the settlement account holds the coins (`Payable`).
-/

namespace FunaiChain.Settlement

open MathInt

variable {s s' s'' : State} {d perVerifier total x y : Int} {l : Ledger} {denom : String}
  {vs : List VerifierResult} {workerAddr : Addr} {fee : Coin} {split : Split}
  {addresses : List String} {amount : Int} {dst : Addr} {c : Coin} {l' : Ledger}

/-- What a split paid to the verifiers and to the executor. -/
structure Split where
  verifiers : Int
  executor : Int
  deriving DecidableEq, Repr

/-! ## payouts -/

variable (a : Addr) (p : Addr × Int) (ps : List (Addr × Int))

/-- What an account receives of a list of payments. -/
def received : Int :=
  (ps.map fun p => if p.1 = a then p.2 else 0).sum

@[simp] theorem received_nil : received a [] = 0 := rfl

@[simp] theorem received_cons :
    received a (p :: ps) = (if p.1 = a then p.2 else 0) + received a ps := by
  simp [received]

@[simp] theorem received_append (qs : List (Addr × Int)) :
    received a (ps ++ qs) = received a ps + received a qs := by
  simp [received]

namespace State

variable (env : Env)

/-- The settlement account pays out `x`; apart from bookkeeping nothing else
changes. -/
structure Pays (s s' : State) (x : Int) : Prop where
  ledger : s'.ledger = s.ledger
  params : s'.params = s.params
  fees : ∀ epoch, s'.book.fees epoch = s.book.fees epoch
  registered : ∀ a, (s'.world.workers.get a).isSome = (s.world.workers.get a).isSome
  balance : s'.moduleBalance env = s.moduleBalance env - x

/-- No worker is registered under the settlement account. -/
def Apart (s : State) : Prop := (s.world.workers.get env.settlementAccount).isSome = false

/-- The ledger becomes `l'` and the settlement account pays out `x`, unless it is
a worker of its own; apart from bookkeeping nothing else changes.  Every
function of the keeper is described by such a move. -/
structure Moves (s s' : State) (l' : Ledger) (x : Int) : Prop where
  ledger : s'.ledger = l'
  params : s'.params = s.params
  fees : ∀ epoch, s'.book.fees epoch = s.book.fees epoch
  registered : ∀ a, (s'.world.workers.get a).isSome = (s.world.workers.get a).isSome
  balance : s.Apart env → s'.moduleBalance env = s.moduleBalance env - x

/-- `SendCoinsFromModuleToAccount` from the settlement account. -/
def payFromModule (s : State) (dst : Addr) (c : Coin) : Option State :=
  (env.sendCoinsFromModuleToAccount s.world.bank env.settlementAccount dst c).map fun bank =>
    { s with world := { s.world with bank := bank } }

variable {env}

theorem Pays.refl (s : State) : Pays env s s 0 := ⟨rfl, rfl, fun _ => rfl, fun _ => rfl, by omega⟩

theorem Quiet.pays (h : Quiet env s s') : Pays env s s' 0 where
  ledger := h.ledger
  params := h.params
  fees := h.fees
  registered := h.world.registered
  balance := by rw [h.moduleBalance_eq]; omega

theorem Pays.moves (h : Pays env s s' x) : Moves env s s' s.ledger x :=
  { h with balance := fun _ => h.balance }

namespace Moves

theorem refl (s : State) : Moves env s s s.ledger 0 := (Pays.refl s).moves

/-- A move registers nobody. -/
theorem apart (h : Moves env s s' l x) (hs : s.Apart env) : s'.Apart env :=
  (h.registered _).trans hs

theorem trans (h : Moves env s s' l x) (h' : Moves env s' s'' l' y) :
    Moves env s s'' l' (x + y) where
  ledger := h'.ledger
  params := h'.params.trans h.params
  fees := fun e => (h'.fees e).trans (h.fees e)
  registered := fun a => (h'.registered a).trans (h.registered a)
  balance := fun hs => by rw [h'.balance (h.apart hs), h.balance hs]; omega

theorem pays (h : Moves env s s' l x) (h' : Pays env s' s'' y) : Moves env s s'' l (x + y) :=
  h.trans (h.ledger ▸ h'.moves)

theorem quiet (h : Moves env s s' l x) (h' : Quiet env s' s'') : Moves env s s'' l x := by
  simpa using h.pays h'.pays

/-- Before the coins move, the ledger may. -/
theorem after (h' : Moves env s' s'' l' y) (h : Moves env s s' l 0) : Moves env s s'' l' y := by
  simpa using h.trans h'

theorem map (h : Moves env s s' l x) (f : Ledger → Ledger) :
    Moves env s (s'.mapLedger f) (f l) x where
  ledger := by rw [← h.ledger]; rfl
  params := h.params
  fees := h.fees
  registered := h.registered
  balance := h.balance

end Moves

theorem Pays.trans (h : Pays env s s' x) (h' : Pays env s' s'' y) : Pays env s s'' (x + y) :=
  { h.moves.pays h' with balance := by rw [h'.balance, h.balance]; omega }

theorem Quiet.moves (h : Quiet env s s') : Moves env s s' s.ledger 0 := (Moves.refl s).quiet h

/-- A payout that goes through leaves the settlement account in full: it is
never its own recipient. -/
theorem pays_payFromModule (hdenom : c.denom = defaultDenom) (hc : 0 ≤ c.amount)
    (h : s.payFromModule env dst c = some s') : Pays env s s' c.amount := by
  obtain ⟨bank, hbank, rfl⟩ := Option.map_eq_some_iff.mp h
  obtain ⟨hblocked, hsend⟩ := Host.sendCoinsFromModuleToAccount_eq_some hbank
  have hne : env.settlementAccount ≠ dst := by
    intro he
    rw [← he, env.settlement_blocked] at hblocked
    contradiction
  refine ⟨rfl, rfl, fun _ => rfl, fun _ => rfl, ?_⟩
  have hb := Bank.balance_sendCoins hc hsend env.settlementAccount defaultDenom
  rw [if_pos ⟨rfl, hdenom.symm⟩, if_neg (fun e => hne e.1)] at hb
  simp only [moduleBalance]
  omega

/-- The coins of an account, in the default denom. -/
def coinsOf (s : State) (a : Addr) : Int := s.world.bank.balance a defaultDenom

/-- The payments are made, to accounts other than the settlement account. -/
def Receives (env : Env) (s s' : State) (ps : List (Addr × Int)) : Prop :=
  ∀ a, a ≠ env.settlementAccount → s'.coinsOf a = s.coinsOf a + received a ps

theorem Receives.refl (s : State) : Receives env s s [] := fun a _ => by simp

/-- The payments are made in a denom: none is negative, the accounts other than the
settlement account have what they receive of them, and the settlement account pays. -/
structure PaysOut (env : Env) (denom : String) (s s' : State) (ps : List (Addr × Int)) :
    Prop where
  nonneg : ∀ p ∈ ps, 0 ≤ p.2
  pays : denom = defaultDenom → Pays env s s' (ps.map Prod.snd).sum
  gets : ∀ a, a ≠ env.settlementAccount →
    (s'.world.bank.balance a denom : Int) = s.world.bank.balance a denom + received a ps

namespace PaysOut

variable {env : Env} {ps qs : List (Addr × Int)} {denom : String}

theorem refl (s : State) : PaysOut env denom s s [] :=
  ⟨by simp, fun _ => .refl s, fun _ _ => by simp⟩

theorem trans (h : PaysOut env denom s s' ps) (h' : PaysOut env denom s' s'' qs) :
    PaysOut env denom s s'' (ps ++ qs) where
  nonneg := List.forall_mem_append.mpr ⟨h.nonneg, h'.nonneg⟩
  pays hdenom := by
    rw [List.map_append, List.sum_append]
    exact (h.pays hdenom).trans (h'.pays hdenom)
  gets a ha := by rw [h'.gets a ha, h.gets a ha, received_append, Int.add_assoc]

theorem quiet (h : PaysOut env denom s s' ps) (h' : Quiet env s' s'')
    (hbank : s''.world.bank = s'.world.bank) : PaysOut env denom s s'' ps where
  nonneg := h.nonneg
  pays hdenom := by simpa using (h.pays hdenom).trans h'.pays
  gets a ha := by rw [hbank, h.gets a ha]

theorem sum_nonneg (h : PaysOut env denom s s' ps) : 0 ≤ (ps.map Prod.snd).sum :=
  List.sum_nonneg (List.forall_mem_map.mpr h.nonneg)

theorem receives (h : PaysOut env denom s s' ps) (hdenom : denom = defaultDenom) :
    Receives env s s' ps := by
  subst hdenom
  exact h.gets

/-- A payment of nothing is not sent. -/
theorem nothing (s : State) (dst : Addr) : PaysOut env denom s s [(dst, 0)] where
  nonneg := by simp
  pays _ := .refl s
  gets a _ := by simp

theorem of_payFromModule (hc : 0 ≤ c.amount) (h : s.payFromModule env dst c = some s') :
    PaysOut env c.denom s s' [(dst, c.amount)] where
  nonneg := by simpa using hc
  pays hdenom := by simpa using pays_payFromModule hdenom hc h
  gets a ha := by
    obtain ⟨bank, hbank, rfl⟩ := Option.map_eq_some_iff.mp h
    have hcoins := Bank.balance_sendCoins hc
      (Host.sendCoinsFromModuleToAccount_eq_some hbank).2 a c.denom
    rw [if_neg fun e => ha e.1] at hcoins
    simp only [received_cons, received_nil, hcoins, and_true, eq_comm]
    omega

end PaysOut

end State

/-! ## the verifiers' share -/

/-- `dedupVerifierResults`: the first row of every non-empty address, where
`seen` are the addresses already kept. -/
def dedupFrom (seen : List String) : List VerifierResult → List VerifierResult
  | [] => []
  | v :: vs =>
      if v.address = "" then dedupFrom seen vs
      else if seen.contains v.address then dedupFrom seen vs
      else v :: dedupFrom (v.address :: seen) vs

def dedupVerifierResults (verifiers : List VerifierResult) : List VerifierResult :=
  dedupFrom [] verifiers

section Distribute
variable (env : Env)

/-- The amount of one row: the last one absorbs the rounding. -/
def verifierAmount (isLast : Bool) (total perVerifier distributed : Int) : Exec Int :=
  if isLast then MathInt.sub total distributed else .ok perVerifier

/-- The payout loop over the distinct verifiers.  The last row receives what
is left of the total; a row whose address does not decode is passed over. -/
def payVerifiers (denom : String) (total perVerifier : Int) :
    List VerifierResult → State → Int → Exec (Except Err (State × Int))
  | [], s, distributed => .ok (.ok (s, distributed))
  | v :: rest, s, distributed =>
      match env.accAddressFromBech32 v.address with
      | none => payVerifiers denom total perVerifier rest s distributed
      | some vAddr => do
          let amount ← verifierAmount rest.isEmpty total perVerifier distributed
          let vCoin ← Coin.new denom amount
          if vCoin.isPositive then
            match s.payFromModule env vAddr vCoin with
            | none => return .error (.errorf ("send to verifier " ++ v.address))
            | some s => do
                let book ← incrementVerifierEpochFee env s.book v.address amount
                let distributed ← MathInt.add distributed amount
                payVerifiers denom total perVerifier rest { s with book := book } distributed
          else do
            let distributed ← MathInt.add distributed amount
            payVerifiers denom total perVerifier rest s distributed

/-- Split a total evenly among the distinct verifiers; with none, nothing is
paid. -/
def shareAmongVerifiers (s : State) (denom : String) (total : Int)
    (verifiers : List VerifierResult) : Exec (Except Err (State × Int)) :=
  let uniqueVerifiers := dedupVerifierResults verifiers
  if uniqueVerifiers.isEmpty then .ok (.ok (s, 0))
  else do
    let perVerifier ← MathInt.quo total uniqueVerifiers.length
    payVerifiers env denom total perVerifier uniqueVerifiers s 0

/-- The executor receives what is left of the fee. -/
def payExecutor (s : State) (denom : String) (executorAmount : Int) (workerAddr : Addr) :
    Exec (Except Err State) := do
  let executorCoin ← Coin.new denom executorAmount
  if executorCoin.isPositive then
    match s.payFromModule env workerAddr executorCoin with
    | none => return .error (.errorf "send to worker")
    | some s => return .ok s
  else return .ok s

/-- `distributeSuccessFee`: verifiers, then the executor with the rest; the
audit fund's part stays in the module account. -/
def distributeSuccessFee (s : State) (fee : Coin) (workerAddr : Addr)
    (verifiers : List VerifierResult) : Exec (Except Err (State × Split)) := do
  let totalVerifierAmount ← MathInt.share fee.amount s.params.verifierFeeRatio 1000
  let auditFundAmount ← MathInt.share fee.amount s.params.multiVerificationFundRatio 1000
  match ← shareAmongVerifiers env s fee.denom totalVerifierAmount verifiers with
  | .error e => return .error e
  | .ok (s, verifierDistributed) =>
      let rest ← MathInt.sub fee.amount verifierDistributed
      let executorAmount ← MathInt.sub rest auditFundAmount
      match ← payExecutor env s fee.denom executorAmount workerAddr with
      | .error e => return .error e
      | .ok s => return .ok (s, ⟨verifierDistributed, executorAmount⟩)

/-- `distributeFailFee`: the verifiers' part of the non-executor share; the
rest stays in the module account.  The ratios are added as `uint32`. -/
def distributeFailFee (s : State) (failFee : Coin) (verifiers : List VerifierResult) :
    Exec (Except Err (State × Split)) :=
  if (dedupVerifierResults verifiers).isEmpty then .ok (.ok (s, ⟨0, 0⟩))
  else do
    let totalDistributable := s.params.verifierFeeRatio + s.params.multiVerificationFundRatio
    let totalVerifierAmount ←
      MathInt.share failFee.amount s.params.verifierFeeRatio totalDistributable.toNat
    match ← shareAmongVerifiers env s failFee.denom totalVerifierAmount verifiers with
    | .error e => return .error e
    | .ok (s, distributed) => return .ok (s, ⟨distributed, 0⟩)

end Distribute

/-! ## what the splits pay -/

/-- The payouts of the loop over the verifiers; `distributed` was paid before. -/
def verifierPayments (env : Env) (total perVerifier : Int) : List String → Int → List (Addr × Int)
  | [], _ => []
  | v :: rest, distributed =>
      match env.accAddressFromBech32 v with
      | none => verifierPayments env total perVerifier rest distributed
      | some a =>
          let amount := if rest.isEmpty then total - distributed else perVerifier
          (a, amount) :: verifierPayments env total perVerifier rest (distributed + amount)

/-- The distinct addresses that share the verifiers' part. -/
def uniqueAddresses (vs : List VerifierResult) : List String :=
  (dedupVerifierResults vs).map (·.address)

/-- The payouts of the verifiers' part. -/
def sharePayments (env : Env) (total : Int) (addresses : List String) : List (Addr × Int) :=
  verifierPayments env total (total.tdiv addresses.length) addresses 0

section Spec
variable {env : Env}

theorem verifierAmount_eq {isLast : Bool}
    (h : verifierAmount isLast total perVerifier d = .ok amount) :
    amount = if isLast then total - d else perVerifier := by
  unfold verifierAmount at h
  split at h
  · next he => rw [if_pos he]; exact (sub_eq_ok.mp h).1
  · next he => rw [if_neg he]; exact (Except.ok.inj h).symm

/-- The loop makes its payments and reports their sum. -/
theorem payVerifiers_paid : OnValue (OnValue fun r => State.PaysOut env denom s r.1
    (verifierPayments env total perVerifier (vs.map (·.address)) d) ∧
    r.2 = d + ((verifierPayments env total perVerifier (vs.map (·.address)) d).map
    Prod.snd).sum) (payVerifiers env denom total perVerifier vs s d) := by
  induction vs generalizing s d with
  | nil => exact ⟨.refl s, by simp [verifierPayments]⟩
  | cons v rest ih =>
    rw [payVerifiers, List.map_cons, verifierPayments]
    cases env.accAddressFromBech32 v.address with
    | none => exact ih
    | some a =>
      refine .after fun amount hamount => .after fun coin hcoin => ?_
      obtain ⟨-, hnn, rfl⟩ := Coin.new_eq_ok.mp hcoin
      rw [List.isEmpty_map, ← verifierAmount_eq hamount]
      -- the row is paid, and the loop goes on with what is paid so far
      have hrow : ∀ s₁ d₁, State.PaysOut env denom s s₁ [(a, amount)] →
          add d amount = .ok d₁ → OnValue (OnValue fun r => State.PaysOut env denom s r.1
            ((a, amount) :: verifierPayments env total perVerifier (rest.map (·.address))
              (d + amount)) ∧ r.2 = d + (((a, amount) :: verifierPayments env total perVerifier
                (rest.map (·.address)) (d + amount)).map Prod.snd).sum)
            (payVerifiers env denom total perVerifier rest s₁ d₁) := by
        intro s₁ d₁ hpaid hadd
        obtain ⟨rfl, -⟩ := add_eq_ok.mp hadd
        refine ih.mono fun r hr => hr.mono fun r hr => ⟨hpaid.trans hr.1, ?_⟩
        rw [hr.2, List.map_cons, List.sum_cons]
        omega
      refine .ite (fun _ => ?_) fun hpos => .after fun d₁ => hrow s d₁ ?_
      · cases hpay : s.payFromModule env a ⟨denom, amount⟩ with
        | none => exact .ok .error
        | some s₁ =>
          refine .after fun book hbook => .after fun d₁ => hrow _ d₁ ?_
          have hbook : State.Quiet env s₁ { s₁ with book := book } :=
            .ofBook (State.epochStats_incrementVerifierEpochFee.get hbook)
          exact (State.PaysOut.of_payFromModule hnn hpay).quiet hbook rfl
      · obtain rfl : amount = 0 := by
          simp only [Coin.isPositive, decide_eq_true_eq] at hpos
          omega
        exact .nothing s a

/-- The payments never exceed the total: every row but the last has an equal
share, and the last one absorbs the rounding. -/
theorem sum_verifierPayments_le (hper : 0 ≤ perVerifier)
    (hroom : d + perVerifier * addresses.length ≤ total) :
    d + ((verifierPayments env total perVerifier addresses d).map Prod.snd).sum ≤ total := by
  induction addresses generalizing d with
  | nil => simpa [verifierPayments] using hroom
  | cons v rest ih =>
    have hlen : ((v :: rest).length : Int) = rest.length + 1 := by simp
    rw [hlen, mul_add] at hroom
    rw [verifierPayments]
    split
    · exact ih (by omega)
    · grind

theorem shareAmongVerifiers_paid : OnValue (OnValue fun r =>
      State.PaysOut env denom s r.1 (sharePayments env total (uniqueAddresses vs)) ∧
        r.2 = ((sharePayments env total (uniqueAddresses vs)).map Prod.snd).sum)
      (shareAmongVerifiers env s denom total vs) := by
  refine .ite (fun hempty => ?_) fun _ => .after fun per hper => ?_
  · have hnone : uniqueAddresses vs = [] := by
      rw [uniqueAddresses, List.isEmpty_iff.mp hempty, List.map_nil]
    rw [hnone]
    exact ⟨.refl s, rfl⟩
  · obtain ⟨-, rfl⟩ := quo_eq_ok.mp hper
    rw [sharePayments, uniqueAddresses, List.length_map]
    refine payVerifiers_paid.mono fun r hr => hr.mono fun r hr => ?_
    rwa [Int.zero_add] at hr

theorem sum_sharePayments_le (addresses : List String) (htotal : 0 ≤ total) :
    ((sharePayments env total addresses).map Prod.snd).sum ≤ total := by
  rw [sharePayments, Int.tdiv_eq_ediv_of_nonneg htotal, ← Int.zero_add (List.sum _)]
  refine sum_verifierPayments_le (Int.ediv_nonneg htotal (Int.natCast_nonneg _)) ?_
  rw [Int.zero_add]
  obtain hzero | hne := eq_or_ne (addresses.length : Int) 0
  · rwa [hzero, mul_zero]
  · exact Int.ediv_mul_le total hne

/-- The verifiers together receive at most their total. -/
theorem shareAmongVerifiers_spec (hdenom : denom = defaultDenom)
    (h : shareAmongVerifiers env s denom total vs = .ok (.ok (s', d))) :
    0 ≤ d ∧ State.Pays env s s' d ∧ (0 ≤ total → d ≤ total) := by
  obtain ⟨hpaid, rfl⟩ := (shareAmongVerifiers_paid.get h).get rfl
  exact ⟨hpaid.sum_nonneg, hpaid.pays hdenom, sum_sharePayments_le _⟩

/-- The executor is paid the amount given. -/
theorem payExecutor_paid :
    OnValue (OnValue fun s' => State.PaysOut env denom s s' [(workerAddr, amount)])
    (payExecutor env s denom amount workerAddr) := by
  refine .after fun coin hcoin => ?_
  obtain ⟨-, hnn, rfl⟩ := Coin.new_eq_ok.mp hcoin
  refine .ite (fun _ => ?_) fun hpos => ?_
  · cases hpay : s.payFromModule env workerAddr ⟨denom, amount⟩ with
    | none => exact .ok .error
    | some => exact State.PaysOut.of_payFromModule hnn hpay
  · obtain rfl : amount = 0 := by
      simp only [Coin.isPositive, decide_eq_true_eq] at hpos
      omega
    exact State.PaysOut.nothing s workerAddr

/-- The verifiers' part of a fail fee. -/
def failVerifierPart (params : Params) (fee : Int) : Int :=
  (fee * params.verifierFeeRatio.toNat).tdiv
    (params.verifierFeeRatio + params.multiVerificationFundRatio).toNat

/-- The part of a fee that is kept back for the audit fund. -/
def fundPart (params : Params) (fee : Int) : Int :=
  (fee * params.multiVerificationFundRatio.toNat).tdiv 1000

/-- The payouts of a success split, the executor's last. -/
def successPayments (env : Env) (params : Params) (fee : Int) (workerAddr : Addr)
    (addresses : List String) : List (Addr × Int) :=
  let verifiers := sharePayments env ((fee * params.verifierFeeRatio.toNat).tdiv 1000) addresses
  verifiers ++ [(workerAddr, fee - (verifiers.map Prod.snd).sum - fundPart params fee)]

/-- **A success split** makes exactly its payments. -/
theorem distributeSuccessFee_paysOut : OnValue (OnValue fun r => State.PaysOut env fee.denom s r.1
    (successPayments env s.params fee.amount workerAddr (uniqueAddresses vs)) ∧
    0 ≤ r.2.verifiers ∧ 0 ≤ r.2.executor ∧
    r.2.verifiers + r.2.executor = fee.amount - fundPart s.params fee.amount)
    (distributeSuccessFee env s fee workerAddr vs) := by
  refine .after fun total htotal => .after fun fund hfund => ?_
  obtain ⟨-, -, rfl⟩ := share_eq_ok.mp htotal
  obtain ⟨-, -, rfl⟩ := share_eq_ok.mp hfund
  refine shareAmongVerifiers_paid.bind_result (fun _ => .ok .error) ?_
  rintro ⟨s₁, d⟩ ⟨hverifiers, rfl⟩
  refine .after fun rest hrest => .after fun amount hamount => ?_
  obtain ⟨rfl, -⟩ := sub_eq_ok.mp hrest
  obtain ⟨rfl, -⟩ := sub_eq_ok.mp hamount
  refine payExecutor_paid.bind_result (fun _ => .ok .error) fun s₂ hexecutor => ?_
  refine ⟨hverifiers.trans hexecutor, hverifiers.sum_nonneg, by simpa using hexecutor.sum_nonneg,
    ?_⟩
  simp only [fundPart]
  omega

/-- The executor's payment is what the others leave of the fee. -/
theorem sum_successPayments (params : Params) (x : Int) (a : Addr) (addresses : List String) :
    ((successPayments env params x a addresses).map Prod.snd).sum = x - fundPart params x := by
  simp only [successPayments, List.map_append, List.map_cons, List.map_nil, List.sum_append,
    List.sum_singleton]
  omega

theorem distributeSuccessFee_paid (hdenom : fee.denom = defaultDenom) :
    OnValue (OnValue fun r => 0 ≤ r.2.verifiers ∧ 0 ≤ r.2.executor ∧
    r.2.verifiers + r.2.executor = fee.amount - fundPart s.params fee.amount ∧
    State.Pays env s r.1 (r.2.verifiers + r.2.executor) ∧ State.Receives env s r.1
    (successPayments env s.params fee.amount workerAddr (uniqueAddresses vs)))
    (distributeSuccessFee env s fee workerAddr vs) := by
  refine distributeSuccessFee_paysOut.mono fun r hr => hr.mono ?_
  rintro r ⟨hpaid, hv, he, hsum⟩
  have hpays := hpaid.pays hdenom
  rw [sum_successPayments, ← hsum] at hpays
  exact ⟨hv, he, hsum, hpays, hpaid.receives hdenom⟩

/-- **A fail split** pays the verifiers their part of the fee and the executor
nothing. -/
theorem distributeFailFee_paysOut : OnValue (OnValue fun r => State.PaysOut env fee.denom s r.1
    (sharePayments env (failVerifierPart s.params fee.amount) (uniqueAddresses vs)) ∧
    r.2 = ⟨((sharePayments env (failVerifierPart s.params fee.amount)
    (uniqueAddresses vs)).map Prod.snd).sum, 0⟩) (distributeFailFee env s fee vs) := by
  refine .ite (fun hempty => ?_) fun _ => .after fun total htotal => ?_
  · rw [uniqueAddresses, List.isEmpty_iff.mp hempty]
    exact ⟨.refl s, rfl⟩
  obtain ⟨-, -, rfl⟩ := share_eq_ok.mp htotal
  refine shareAmongVerifiers_paid.bind_result (fun _ => .ok .error) ?_
  rintro ⟨s₁, d⟩ ⟨hpaid, rfl⟩
  exact ⟨hpaid, rfl⟩

theorem failVerifierPart_nonneg {params : Params} (hx : 0 ≤ x) : 0 ≤ failVerifierPart params x :=
  Int.tdiv_nonneg (mul_nonneg hx (Int.natCast_nonneg _)) (Int.natCast_nonneg _)

theorem distributeFailFee_paid (hdenom : fee.denom = defaultDenom) :
    OnValue (OnValue fun r => 0 ≤ r.2.verifiers ∧ r.2.executor = 0 ∧
    State.Pays env s r.1 r.2.verifiers ∧
    (0 ≤ fee.amount → r.2.verifiers ≤ failVerifierPart s.params fee.amount))
    (distributeFailFee env s fee vs) := by
  refine distributeFailFee_paysOut.mono fun r hr => hr.mono ?_
  rintro ⟨s', split⟩ ⟨hpaid, rfl⟩
  exact ⟨hpaid.sum_nonneg, rfl, hpaid.pays hdenom,
    fun hfee => sum_sharePayments_le _ (failVerifierPart_nonneg hfee)⟩

/-! ## payouts that the bank accepts -/

/-- An account that the settlement account can pay. -/
structure Env.Accepts (env : Env) (a : Addr) : Prop where
  unblocked : env.blockedAddr a = false
  unrestricted : ∀ b c, env.sendRefused b env.settlementAccount a c = false

/-- Every payout of a fee goes through: the recipients can be paid, and the
settlement account holds the fee and the verifiers' part of either split. -/
structure Payable (env : Env) (s : State) (fee : Int) (workerAddr : Addr)
    (addresses : List String) : Prop where
  nonneg : 0 ≤ fee
  worker : env.Accepts workerAddr
  verifiers : ∀ v ∈ addresses, ∀ a, env.accAddressFromBech32 v = some a → env.Accepts a
  funds : fee ≤ s.moduleBalance env
  successShare : (fee * s.params.verifierFeeRatio.toNat).tdiv 1000 ≤ s.moduleBalance env
  failShare : failVerifierPart s.params fee ≤ s.moduleBalance env

/-- Only the parameters and the coins of the settlement account matter. -/
theorem Payable.congr {fee : Int} (h : Payable env s fee workerAddr addresses)
    (hparams : s'.params = s.params) (hbalance : s'.moduleBalance env = s.moduleBalance env) :
    Payable env s' fee workerAddr addresses where
  nonneg := h.nonneg
  worker := h.worker
  verifiers := h.verifiers
  funds := hbalance ▸ h.funds
  successShare := by rw [hparams, hbalance]; exact h.successShare
  failShare := by rw [hparams, hbalance]; exact h.failShare

theorem Payable.mapLedger {fee : Int} {f : Ledger → Ledger}
    (h : Payable env s fee workerAddr addresses) :
    Payable env (s.mapLedger f) fee workerAddr addresses := h.congr rfl rfl

theorem State.payFromModule_of_accepts (haccepts : env.Accepts dst)
    (hdenom : c.denom = defaultDenom) (hfunds : c.amount ≤ s.moduleBalance env) :
    ∃ s', s.payFromModule env dst c = some s' := by
  unfold State.payFromModule Host.sendCoinsFromModuleToAccount Host.sendCoins Bank.sendCoins
    Bank.debit
  rw [State.moduleBalance, ← hdenom] at hfunds
  simp [haccepts.unblocked, haccepts.unrestricted, hfunds]

/-- The payout loop is not refused while the settlement account holds what is
left of the total. -/
theorem payVerifiers_accepted (hdenom : denom = defaultDenom) (hper : 0 ≤ perVerifier)
    (hvs : ∀ v ∈ vs, ∀ a, env.accAddressFromBech32 v.address = some a → env.Accepts a)
    (hroom : d + perVerifier * vs.length ≤ total) (hfunds : total - d ≤ s.moduleBalance env) :
    OnValue Returns (payVerifiers env denom total perVerifier vs s d) := by
  induction vs generalizing s d with
  | nil => exact returns_ok _
  | cons v rest ih =>
    have hrest : ∀ v ∈ rest, ∀ a, env.accAddressFromBech32 v.address = some a →
        env.Accepts a := fun v hv => hvs v (.tail _ hv)
    have hlen : ((v :: rest).length : Int) = rest.length + 1 := by simp
    have hmul : 0 ≤ perVerifier * rest.length := mul_nonneg hper (Int.natCast_nonneg _)
    rw [hlen, mul_add, mul_one] at hroom
    rw [payVerifiers]
    cases haddr : env.accAddressFromBech32 v.address with
    | none => exact ih hrest (by omega) hfunds
    | some a =>
      refine .after fun amount hamount => .after fun coin hcoin => ?_
      obtain ⟨-, hnn, rfl⟩ := Coin.new_eq_ok.mp hcoin
      -- the last row takes the remainder, any other one a share
      have hbounds : amount ≤ total - d ∧ d + amount + perVerifier * rest.length ≤ total := by
        rw [verifierAmount_eq hamount]
        split
        · next he => simp [List.isEmpty_iff.mp he]
        · constructor <;> omega
      refine .either ?_ <| .after fun d₁ hadd => ?_
      · have hcovered : amount ≤ s.moduleBalance env := by omega
        obtain ⟨s₁, hpay⟩ := State.payFromModule_of_accepts (c := ⟨denom, amount⟩)
          (hvs v List.mem_cons_self a haddr) hdenom hcovered
        have hbalance := (State.pays_payFromModule hdenom hnn hpay).balance
        rw [hpay]
        refine .after fun book _ => .after fun d₁ hadd => ?_
        obtain ⟨rfl, -⟩ := add_eq_ok.mp hadd
        refine ih hrest hbounds.2 ?_
        change total - (d + amount) ≤ s₁.moduleBalance env
        dsimp only at hbalance
        omega
      · obtain ⟨rfl, -⟩ := add_eq_ok.mp hadd
        exact ih hrest hbounds.2 (by omega)

theorem mem_dedupFrom {seen : List String} {v : VerifierResult} (h : v ∈ dedupFrom seen vs) :
    v ∈ vs := by
  induction vs generalizing seen with
  | nil => simp [dedupFrom] at h
  | cons _ _ ih =>
    unfold dedupFrom at h
    split at h
    · exact .tail _ (ih h)
    · grind

theorem shareAmongVerifiers_accepted (hdenom : denom = defaultDenom) (htotal : 0 ≤ total)
    (hvs : ∀ v ∈ vs, ∀ a, env.accAddressFromBech32 v.address = some a → env.Accepts a)
    (hfunds : total ≤ s.moduleBalance env) :
    OnValue Returns (shareAmongVerifiers env s denom total vs) := by
  refine .either (returns_ok _) <| .after fun per hper => ?_
  obtain ⟨hne, rfl⟩ := quo_eq_ok.mp hper
  have hn : (0 : Int) ≤ (dedupVerifierResults vs).length := Int.natCast_nonneg _
  rw [Int.tdiv_eq_ediv_of_nonneg htotal]
  have hroom := Int.ediv_mul_le total hne
  exact payVerifiers_accepted hdenom (Int.ediv_nonneg htotal hn)
    (fun v hv => hvs v (mem_dedupFrom hv)) (by omega) (by omega)

theorem payExecutor_accepted (hdenom : denom = defaultDenom) (haccepts : env.Accepts workerAddr)
    (hfunds : amount ≤ s.moduleBalance env) :
    OnValue Returns (payExecutor env s denom amount workerAddr) := by
  refine .after fun coin hcoin => .either ?_ <| returns_ok _
  obtain ⟨-, -, rfl⟩ := Coin.new_eq_ok.mp hcoin
  obtain ⟨s', hs'⟩ := State.payFromModule_of_accepts (c := ⟨denom, amount⟩) haccepts hdenom hfunds
  rw [hs']
  exact returns_ok _

end Spec

end FunaiChain.Settlement
