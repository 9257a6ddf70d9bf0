import FunaiChain.Lib.Exec
import FunaiChain.Lib.Table

/-!
# FunaiChain.Sdk

What the modules use of the Cosmos SDK: byte strings and addresses, the
256-bit integers of `cosmossdk.io/math`, `sdk.Coin` and the bank keeper.
These packages are not part of the repository; the definitions follow their
documented behaviour, and an operation that panics there stops with a
`Panic` here.

* `MathInt` — `Add`, `Sub` and `Mul` panic once a result needs more than
  256 bits, `Quo` truncates towards zero and panics on a zero divisor,
  `Uint64` panics out of range;
* `Coin` — `NewCoin` panics on an invalid denom or a negative amount, the
  binary operations panic on different denoms, `Sub` panics below zero;
* `Bank` — a send moves the coins exactly or fails without an effect.
-/

namespace FunaiChain

variable {a b x : Int}

abbrev Bytes := List UInt8

/-- `sdk.AccAddress`. -/
abbrev Addr := Bytes

/-- The reasons for which a call panics. -/
inductive Panic
  | intOverflow
  | divisionByZero
  | uint64OutOfBound
  | invalidDenom
  | negativeCoin
  | differentDenoms
  | nilPointer
  | indexOutOfRange
  deriving DecidableEq, Repr

/-- An execution that returns or panics. -/
abbrev Exec := Except Panic

/-- An error: the cause that a module registered, if any, and the text around it. -/
structure ModuleErr (Sentinel : Type) where
  cause : Option Sentinel
  text : String
  deriving DecidableEq, Repr

namespace ModuleErr

variable {Sentinel : Type}

def of (c : Sentinel) : ModuleErr Sentinel := ⟨some c, ""⟩

/-- `sdkerrors.Wrap` of a registered error. -/
def wrap (c : Sentinel) (text : String) : ModuleErr Sentinel := ⟨some c, text⟩

/-- `fmt.Errorf`, and wraps of errors of other packages. -/
def errorf (text : String) : ModuleErr Sentinel := ⟨none, text⟩

end ModuleErr

/-! ## math.Int -/

namespace MathInt

/-- The values that 256 bits and a sign can hold. -/
def Fits (x : Int) : Prop := x.natAbs < 2 ^ 256

instance (x : Int) : Decidable (Fits x) := inferInstanceAs (Decidable (x.natAbs < 2 ^ 256))

theorem fits_of_nonneg (h : 0 ≤ x) (hlt : x < 2 ^ 256) : Fits x := by
  unfold Fits
  omega

/-- A result is kept only within the 256 bits of `math.Int`. -/
def checked (x : Int) : Exec Int :=
  if Fits x then .ok x else .error .intOverflow

def add (a b : Int) : Exec Int := checked (a + b)

def sub (a b : Int) : Exec Int := checked (a - b)

def mul (a b : Int) : Exec Int := checked (a * b)

/-- `Quo` and `QuoRaw`: division truncated towards zero. -/
def quo (a b : Int) : Exec Int :=
  if b = 0 then .error .divisionByZero else .ok (a.tdiv b)

/-- `Int.Uint64`. -/
def uint64 (a : Int) : Exec UInt64 :=
  if 0 ≤ a ∧ a < 2 ^ 64 then .ok (UInt64.ofNat a.toNat) else .error .uint64OutOfBound

/-- `NewIntFromUint64`. -/
def ofUInt64 (n : UInt64) : Int := n.toNat

/-- `MulRaw(int64(ratio)).QuoRaw(d)`: a share of an amount, rounded towards
zero. -/
def share (a : Int) (ratio : UInt32) (d : Int) : Exec Int := do
  quo (← mul a ratio.toNat) d

theorem checked_eq_ok {y : Int} : checked x = .ok y ↔ y = x ∧ Fits x := by
  unfold checked
  split
  · next h => simp [h, eq_comm]
  · next h => simp [h]

theorem add_eq_ok {c : Int} : add a b = .ok c ↔ c = a + b ∧ Fits (a + b) := checked_eq_ok

theorem sub_eq_ok {c : Int} : sub a b = .ok c ↔ c = a - b ∧ Fits (a - b) := checked_eq_ok

theorem mul_eq_ok {c : Int} : mul a b = .ok c ↔ c = a * b ∧ Fits (a * b) := checked_eq_ok

theorem quo_eq_ok {c : Int} : quo a b = .ok c ↔ b ≠ 0 ∧ c = a.tdiv b := by
  unfold quo
  split
  · next h => simp [h]
  · next h => simp [h, eq_comm]

theorem ofUInt64_nonneg (n : UInt64) : 0 ≤ ofUInt64 n := Int.natCast_nonneg _

theorem ofUInt64_lt (n : UInt64) : ofUInt64 n < 2 ^ 64 := by
  have := n.toNat_lt
  unfold ofUInt64
  omega

/-- `Uint64` returns exactly on the values a `uint64` holds. -/
theorem uint64_eq_ok {n : UInt64} : uint64 a = .ok n ↔ 0 ≤ a ∧ a < 2 ^ 64 ∧ ofUInt64 n = a := by
  unfold uint64 ofUInt64
  split
  · next h =>
    have hto : (UInt64.ofNat a.toNat).toNat = a.toNat := by simp_all
    constructor
    · grind
    · rintro ⟨-, -, hn⟩
      have : UInt64.ofNat a.toNat = n := by
        apply UInt64.toNat_inj.mp
        omega
      rw [this]
  · grind

/-- A share is the exact product divided, rounded towards zero. -/
theorem share_eq_ok {r : UInt32} {d c : Int} :
    share a r d = .ok c ↔ d ≠ 0 ∧ Fits (a * r.toNat) ∧ c = (a * r.toNat).tdiv d := by
  unfold share
  rw [bind_eq_ok]
  constructor
  · rintro ⟨p, hp, hq⟩
    obtain ⟨rfl, hlt⟩ := mul_eq_ok.mp hp
    obtain ⟨hd, rfl⟩ := quo_eq_ok.mp hq
    exact ⟨hd, hlt, rfl⟩
  · rintro ⟨hd, hlt, rfl⟩
    exact ⟨_, mul_eq_ok.mpr ⟨rfl, hlt⟩, quo_eq_ok.mpr ⟨hd, rfl⟩⟩

end MathInt

/-! ## sdk.Coin -/

structure Coin where
  denom : String
  amount : Int
  deriving DecidableEq, Repr

variable {c d e : Coin}

/-- The denom check of the SDK, `[a-zA-Z][a-zA-Z0-9/:._-]{2,127}`. -/
def validDenom (s : String) : Bool :=
  match s.toList with
  | [] => false
  | c :: cs =>
      c.isAlpha && cs.all (fun c => c.isAlphanum || "/:._-".toList.contains c) &&
        2 ≤ cs.length && cs.length ≤ 127

namespace Coin

/-- The zero value `sdk.Coin{}`, as it reads back from the JSON store. -/
def zero : Coin := ⟨"", 0⟩

/-- `sdk.NewCoin`. -/
def new (denom : String) (amount : Int) : Exec Coin :=
  if validDenom denom = false then .error .invalidDenom
  else if amount < 0 then .error .negativeCoin
  else .ok ⟨denom, amount⟩

variable (c d)

/-- `sdk.NewCoins` of one coin: an invalid one panics. -/
def coins : Exec Coin := new c.denom c.amount

def isValid : Bool := validDenom c.denom && 0 ≤ c.amount

def isZero : Bool := c.amount = 0

def isPositive : Bool := 0 < c.amount

/-- `Coin.IsGTE`. -/
def isGTE : Exec Bool :=
  if c.denom = d.denom then .ok (decide (d.amount ≤ c.amount)) else .error .differentDenoms

/-- `Coin.IsLT`. -/
def isLT : Exec Bool :=
  if c.denom = d.denom then .ok (decide (c.amount < d.amount)) else .error .differentDenoms

/-- `Coin.Add`. -/
def add : Exec Coin :=
  if c.denom = d.denom then do
    let amount ← MathInt.add c.amount d.amount
    return ⟨c.denom, amount⟩
  else .error .differentDenoms

/-- `Coin.Sub`. -/
def sub : Exec Coin :=
  if c.denom = d.denom then do
    let amount ← MathInt.sub c.amount d.amount
    if amount < 0 then .error .negativeCoin else .ok ⟨c.denom, amount⟩
  else .error .differentDenoms

variable {c d}

theorem new_eq_ok {d : String} : new d a = .ok c ↔ validDenom d = true ∧ 0 ≤ a ∧ c = ⟨d, a⟩ := by
  unfold new
  split
  · next h => simp [h]
  · grind

theorem isGTE_eq_ok {b : Bool} :
    c.isGTE d = .ok b ↔ c.denom = d.denom ∧ b = decide (d.amount ≤ c.amount) := by
  unfold isGTE
  split <;> simp_all [eq_comm]

theorem isLT_eq_ok {b : Bool} :
    c.isLT d = .ok b ↔ c.denom = d.denom ∧ b = decide (c.amount < d.amount) := by
  unfold isLT
  split <;> simp_all [eq_comm]

theorem add_eq_ok : c.add d = .ok e ↔ c.denom = d.denom ∧ MathInt.Fits (c.amount + d.amount) ∧
    e = ⟨c.denom, c.amount + d.amount⟩ := by
  unfold add
  split
  · next h =>
    rw [bind_eq_ok]
    simp only [MathInt.add_eq_ok, pure_eq_ok, Except.ok.injEq, h, true_and]
    constructor
    · rintro ⟨a, ⟨rfl, hlt⟩, rfl⟩; exact ⟨hlt, rfl⟩
    · rintro ⟨hlt, rfl⟩; exact ⟨_, ⟨rfl, hlt⟩, rfl⟩
  · next h => simp [h]

theorem sub_eq_ok : c.sub d = .ok e ↔ c.denom = d.denom ∧ MathInt.Fits (c.amount - d.amount) ∧
    d.amount ≤ c.amount ∧ e = ⟨c.denom, c.amount - d.amount⟩ := by
  unfold sub
  split
  · next h =>
    rw [bind_eq_ok]
    simp only [MathInt.sub_eq_ok, h, true_and]
    grind
  · next h => simp [h]

end Coin

/-! ## the bank keeper -/

/-- Balances by address and denom; none is ever negative. -/
structure Bank where
  balance : Addr → String → Nat

variable {b' : Bank} {dst src : Addr}

namespace Bank

/-- Give coins to an account. -/
def credit (b : Bank) (a : Addr) (c : Coin) : Bank :=
  ⟨fun x d => if x = a ∧ d = c.denom then b.balance x d + c.amount.toNat else b.balance x d⟩

/-- Take coins from an account, or fail when they are not there. -/
def debit (b : Bank) (a : Addr) (c : Coin) : Option Bank :=
  if c.amount ≤ b.balance a c.denom then
    some ⟨fun x d => if x = a ∧ d = c.denom then b.balance x d - c.amount.toNat
      else b.balance x d⟩
  else none

/-- `SendCoins` of one coin. -/
def sendCoins (b : Bank) (src dst : Addr) (c : Coin) : Option Bank :=
  (b.debit src c).map fun b => b.credit dst c

/-- Coins just credited can be taken again. -/
theorem debit_credit (b : Bank) (a : Addr) (hc : 0 ≤ c.amount) :
    (b.credit a c).debit a c = some b := by
  have hle : c.amount ≤ (b.credit a c).balance a c.denom := by
    simp only [credit, and_self, if_true]
    omega
  rw [debit, if_pos hle]
  congr 1
  cases b
  simp only [credit, mk.injEq]
  funext x d
  split
  · omega
  · rfl

/-- Coins just credited can be sent on. -/
theorem sendCoins_credit (b : Bank) (src dst : Addr) (hc : 0 ≤ c.amount) :
    (b.credit src c).sendCoins src dst c = some (b.credit dst c) := by
  rw [sendCoins, debit_credit b src hc]
  rfl

/-- A send that succeeds moves the coins exactly. -/
theorem balance_sendCoins {b : Bank} (hc : 0 ≤ c.amount) (h : b.sendCoins src dst c = some b')
    (x : Addr) (d : String) : (b'.balance x d : Int) = b.balance x d
      - (if x = src ∧ d = c.denom then c.amount else 0)
      + (if x = dst ∧ d = c.denom then c.amount else 0) := by
  unfold sendCoins debit at h
  split at h
  · next hle =>
    rw [Option.map_some, Option.some.injEq] at h
    subst h
    simp only [credit]
    grind
  · simp at h

end Bank

/-! ## the application around the modules -/

/-- What the application provides to its modules: the bech32 codec of
addresses, the module accounts, and the rules of the bank keeper.  A send may
be refused for reasons outside the model (vesting, send restrictions). -/
structure Host where
  accAddressFromBech32 : String → Option Addr
  settlementAccount : Addr
  workerAccount : Addr
  /-- The recipients that sends from a module account are refused for. -/
  blockedAddr : Addr → Bool
  sendRefused : Bank → Addr → Addr → Coin → Bool
  /-- The accounts in whose name messages arrive.  The application sets no ante handler,
  so nothing ties them to keys, and module accounts may be among them. -/
  signs : Addr → Bool
  /-- `blockedAddresses` of the application lists every module account. -/
  settlement_blocked : blockedAddr settlementAccount = true
  accounts_differ : workerAccount ≠ settlementAccount

namespace Host

variable (host : Host)

def sendCoins (b : Bank) (src dst : Addr) (c : Coin) : Option Bank :=
  if host.sendRefused b src dst c then none else b.sendCoins src dst c

/-- `SendCoinsFromModuleToAccount` of one coin. -/
def sendCoinsFromModuleToAccount (b : Bank) (src dst : Addr) (c : Coin) : Option Bank :=
  if host.blockedAddr dst then none else host.sendCoins b src dst c

variable {host}

theorem sendCoins_eq_some {b : Bank} (h : host.sendCoins b src dst c = some b') :
    b.sendCoins src dst c = some b' := by
  unfold sendCoins at h
  split at h
  · cases h
  · exact h

theorem sendCoinsFromModuleToAccount_eq_some {b : Bank}
    (h : host.sendCoinsFromModuleToAccount b src dst c = some b') :
    host.blockedAddr dst = false ∧ b.sendCoins src dst c = some b' := by
  unfold sendCoinsFromModuleToAccount at h
  split at h
  · cases h
  · next hb => exact ⟨by simpa using hb, sendCoins_eq_some h⟩

end Host

end FunaiChain
