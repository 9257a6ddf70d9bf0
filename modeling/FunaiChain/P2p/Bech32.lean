import Mathlib.Data.Nat.Digits.Lemmas
import FunaiChain.Lib.Exec
import FunaiChain.Lib.Encoding

/-!
# FunaiChain.P2p.Bech32

The decoding of addresses in the chain client.  `convertBits` regroups the bits of its input; the
accumulator overflows on long inputs, but its live bits do not (`Groups.Holds`).  The checksum is
dropped without a look, so every text of an address decodes to it (`bech32_inverts`).
-/

namespace FunaiChain.P2p

inductive Bech32Error
  | addressTooShort
  | noSeparator
  | invalidCharacter (c : Char)
  | dataTooShort
  | invalidPadding
  deriving DecidableEq, Repr

/-- The accumulator of 32 bits, how many of its bits are live, and the result. -/
structure Groups where
  acc : Nat
  bits : Nat
  result : List UInt8

section ConvertBits
variable (fromBits toBits : Nat)

/-- The inner loop of `convertBits`, which takes the full groups off. -/
def Groups.drain (g : Groups) : Groups :=
  if 0 < toBits ∧ toBits ≤ g.bits then
    Groups.drain { g with
      bits := g.bits - toBits
      result := g.result ++ [UInt8.ofNat ((g.acc >>> (g.bits - toBits)) &&& (2 ^ toBits - 1))] }
  else g
termination_by g.bits

/-- One turn of the outer loop. -/
def Groups.push (g : Groups) (b : UInt8) : Groups :=
  Groups.drain toBits { g with
    acc := (g.acc <<< fromBits) % 2 ^ 32 ||| b.toNat
    bits := g.bits + fromBits }

def convertBits (data : List UInt8) (pad : Bool) : Except Bech32Error (List UInt8) :=
  let g := data.foldl (Groups.push fromBits toBits) ⟨0, 0, []⟩
  if pad then
    if 0 < g.bits then
      .ok (g.result ++
        [UInt8.ofNat (((g.acc <<< (toBits - g.bits)) % 2 ^ 32) &&& (2 ^ toBits - 1))])
    else .ok g.result
  else if fromBits ≤ g.bits then .error .invalidPadding
  else .ok g.result

end ConvertBits

/-- The characters of the data part, by their values. -/
def charset : List Char := "qpzry9x8gf2tvdw0s3jn54khce6mua7l".toList

def charValue (c : Char) : Except Bech32Error UInt8 :=
  match charset.idxOf? c with
  | none => .error (.invalidCharacter c)
  | some idx => .ok (UInt8.ofNat idx)

/-- `bech32Decode`: the last six characters, the checksum, are dropped. -/
def bech32Decode (data : List Char) : Except Bech32Error (List UInt8) := do
  let result ← data.mapM charValue
  if result.length < 6 then .error .dataTooShort else .ok (result.take (result.length - 6))

/-- `addressFromBech32`: the data part stands behind the last separator. -/
def addressFromBech32 (addr : String) : Except Bech32Error (List UInt8) :=
  if (Utf8.bytes addr).length < 3 then .error .addressTooShort
  else if (addr.toList.reverse.dropWhile (· != '1')).length ≤ 1 then .error .noSeparator
  else do
    let decoded ← bech32Decode (addr.toList.reverse.takeWhile (· != '1')).reverse
    convertBits 5 8 decoded false

/-! ## regrouping -/

/-- The number that digits of `n` bits stand for. -/
def digitsValue (n : Nat) (ds : List UInt8) : Nat :=
  Nat.ofDigits (2 ^ n) (ds.reverse.map UInt8.toNat)

theorem digitsValue_append (n : Nat) (ds : List UInt8) (d : UInt8) :
    digitsValue n (ds ++ [d]) = d.toNat + 2 ^ n * digitsValue n ds := by
  simp [digitsValue, Nat.ofDigits_cons]

/-- Bytes are known by their number and their value. -/
theorem eq_of_digitsValue {ds es : List UInt8} (hlen : ds.length = es.length)
    (h : digitsValue 8 ds = digitsValue 8 es) : ds = es := by
  have hbytes (l : List UInt8) : ∀ d ∈ l.reverse.map UInt8.toNat, d < 2 ^ 8 := by
    simpa using fun d _ => d.toNat_lt
  have hmap :=
    Nat.ofDigits_inj_of_len_eq (by decide) (by simpa using hlen) (hbytes ds) (hbytes es) h
  exact List.reverse_injective (List.map_injective_iff.mpr (fun _ _ => UInt8.toNat_inj.mp) hmap)

namespace Groups

/-- The groups and the live bits are the number `v` of `w` bits. -/
structure Holds (toBits : Nat) (g : Groups) (v w : Nat) : Prop where
  value : digitsValue toBits g.result * 2 ^ g.bits + g.acc % 2 ^ g.bits = v
  width : g.result.length * toBits + g.bits = w
  digits : ∀ d ∈ g.result, d.toNat < 2 ^ toBits

variable {g : Groups} {data : List UInt8} {b : UInt8} {toBits k v w : Nat}

theorem push_zero (hpos : 0 < toBits) (hbits : g.bits ≤ toBits) :
    g.push (toBits - g.bits) toBits 0 = ⟨(g.acc <<< (toBits - g.bits)) % 2 ^ 32, 0, g.result ++
    [UInt8.ofNat (((g.acc <<< (toBits - g.bits)) % 2 ^ 32) &&& (2 ^ toBits - 1))]⟩ := by
  rw [push, drain, if_pos ⟨hpos, by simp; omega⟩, drain, if_neg (by simp; omega)]
  simp [Nat.add_sub_of_le hbits]

/-- The digit that is shifted in stands below the live bits; what the accumulator loses at the
top was not live. -/
theorem shiftIn_mod {a n : Nat} (hb : b.toNat < 2 ^ k) (hn : n + k ≤ 32) :
    ((a <<< k) % 2 ^ 32 ||| b.toNat) % 2 ^ (n + k) = a % 2 ^ n * 2 ^ k + b.toNat := by
  have hhigh : (a <<< k) % 2 ^ 32 = (a % 2 ^ (32 - k)) <<< k := by
    rw [Nat.shiftLeft_eq, Nat.shiftLeft_eq, ← Nat.mul_mod_mul_right, ← pow_add]
    congr 2
    omega
  have hdiv (q : Nat) : (q * 2 ^ k + b.toNat) / 2 ^ k = q := by
    rw [Nat.mul_comm, Nat.mul_add_div (Nat.two_pow_pos _), Nat.div_eq_of_lt hb, Nat.add_zero]
  rw [hhigh, ← Nat.shiftLeft_add_eq_or_of_lt hb, Nat.shiftLeft_eq, Nat.add_comm n, pow_add,
    Nat.mod_mul, Nat.mul_add_mod_of_lt hb, hdiv,
    Nat.mod_mod_of_dvd _ (pow_dvd_pow 2 (by omega)), Nat.mul_comm, Nat.add_comm]

variable (hto : 0 < toBits ∧ toBits ≤ 8)
include hto

theorem Holds.drain (h : g.Holds toBits v w) :
    (g.drain toBits).Holds toBits v w ∧ (g.drain toBits).bits < toBits := by
  induction g using Groups.drain.induct toBits with
  | case1 g hfull ih =>
    have hdigit : (UInt8.ofNat ((g.acc >>> (g.bits - toBits)) &&& (2 ^ toBits - 1))).toNat =
        g.acc / 2 ^ (g.bits - toBits) % 2 ^ toBits := by
      rw [Nat.and_two_pow_sub_one_eq_mod, Nat.shiftRight_eq_div_pow]
      exact UInt8.toNat_ofNat_of_lt' ((Nat.mod_lt _ (Nat.two_pow_pos _)).trans_le
        (Nat.pow_le_pow_right (by omega) hto.2))
    have hsplit : g.bits = (g.bits - toBits) + toBits := by omega
    rw [Groups.drain, if_pos hfull]
    refine ih ⟨?_, ?_, ?_⟩
    · rw [← h.value, digitsValue_append, hdigit]
      conv_rhs => rw [hsplit, pow_add, Nat.mod_mul]
      ring
    · have hwidth := h.width
      simp only [List.length_append, List.length_singleton, Nat.add_mul, Nat.one_mul]
      omega
    · simp only [List.forall_mem_append, List.forall_mem_singleton, hdigit]
      exact ⟨h.digits, Nat.mod_lt _ (Nat.two_pow_pos _)⟩
  | case2 g hfull =>
    rw [Groups.drain, if_neg hfull]
    exact ⟨h, by omega⟩

theorem Holds.push (hb : b.toNat < 2 ^ k) (hbits : g.bits + k ≤ 32) (h : g.Holds toBits v w) :
    (g.push k toBits b).Holds toBits (v * 2 ^ k + b.toNat) (w + k) ∧
    (g.push k toBits b).bits < toBits := by
  refine Holds.drain hto ⟨?_, ?_, h.digits⟩
  · rw [shiftIn_mod hb hbits, ← h.value, pow_add]
    ring
  · rw [← h.width, Nat.add_assoc]

theorem holds_foldl (hk : k ≤ 8) (hdata : ∀ b ∈ data, b.toNat < 2 ^ k) :
    (data.foldl (Groups.push k toBits) ⟨0, 0, []⟩).Holds toBits (digitsValue k data)
    (data.length * k) ∧ (data.foldl (Groups.push k toBits) ⟨0, 0, []⟩).bits < toBits := by
  induction data using List.reverseRecOn with
  | nil => exact ⟨⟨rfl, by simp, by simp⟩, hto.1⟩
  | append_singleton data b ih =>
    rw [List.forall_mem_append, List.forall_mem_singleton] at hdata
    obtain ⟨h, hbits⟩ := ih hdata.1
    rw [List.foldl_append, digitsValue_append, Nat.add_comm, Nat.mul_comm, List.length_append,
      Nat.add_mul]
    simpa using h.push hto hdata.2 (by omega)

end Groups

/-- The bits of `b` in groups of five, with fewer than five zeros behind them. -/
structure Quintets (b q : List UInt8) : Prop where
  digits : ∀ d ∈ q, d.toNat < 32
  padding : ∃ k < 5, digitsValue 5 q = digitsValue 8 b * 2 ^ k ∧ q.length * 5 = b.length * 8 + k

variable {b q : List UInt8}

theorem convertBits_pad (b : List UInt8) : ∃ q, convertBits 8 5 b true = .ok q ∧ Quintets b q := by
  obtain ⟨h, hbits⟩ := Groups.holds_foldl (show 0 < 5 ∧ 5 ≤ 8 by decide) (k := 8) (by decide)
    fun d (_ : d ∈ b) => d.toNat_lt
  unfold convertBits
  generalize b.foldl (Groups.push 8 5) ⟨0, 0, []⟩ = g at h hbits
  rw [if_pos rfl]
  split
  · -- the last group is filled up with zeros
    have hfilled := (h.push (by decide) (b := 0) (Nat.two_pow_pos (5 - g.bits)) (by omega)).1
    rw [Groups.push_zero (by decide) hbits.le] at hfilled
    exact ⟨_, rfl, hfilled.digits, 5 - g.bits, by omega, by simpa [Nat.mod_one] using hfilled.value,
      hfilled.width⟩
  · next hzero =>
    obtain ⟨hvalue, hwidth, hdigits⟩ := h
    obtain hzero : g.bits = 0 := by omega
    rw [hzero] at hvalue hwidth
    exact ⟨_, rfl, hdigits, 0, by decide, by simpa [Nat.mod_one] using hvalue, hwidth⟩

/-- What was regrouped into fives comes back. -/
theorem convertBits_of_quintets (h : Quintets b q) : convertBits 5 8 q false = .ok b := by
  obtain ⟨k, hk, hvalue, hlength⟩ := h.padding
  obtain ⟨⟨hgroups, hwidth, -⟩, hbits⟩ :=
    Groups.holds_foldl (show 0 < 8 ∧ 8 ≤ 8 by decide) (k := 5) (by decide) h.digits
  unfold convertBits
  generalize q.foldl (Groups.push 5 8) ⟨0, 0, []⟩ = g at hgroups hwidth hbits
  obtain rfl : g.bits = k := by omega
  have hsame : digitsValue 8 g.result = digitsValue 8 b := by
    have hlive := Nat.mod_lt g.acc (Nat.two_pow_pos g.bits)
    rw [hvalue] at hgroups
    rw [← Nat.mul_div_cancel (digitsValue 8 b) (Nat.two_pow_pos g.bits), ← hgroups, Nat.mul_comm,
      Nat.mul_add_div (Nat.two_pow_pos _), Nat.div_eq_of_lt hlive, Nat.add_zero]
  rw [if_neg (by decide), if_neg (by omega), eq_of_digitsValue (by omega) hsame]

/-! ## texts -/

/-- The character of five bits. -/
def symbol (d : UInt8) : Char := charset.getD d.toNat '1'

/-- A bech32 text: the prefix, the separator, the groups of five bits and the checksum. -/
def bech32Form (hrp : String) (q checksum : List UInt8) : String :=
  hrp ++ String.ofList ('1' :: (q ++ checksum).map symbol)

theorem symbol_of_lt {d : UInt8} (hd : d.toNat < 32) :
    charValue (symbol d) = .ok d ∧ symbol d ≠ '1' := by
  have hall : ∀ n < 32, charset.idxOf? (charset.getD n '1') = some n ∧
      charset.getD n '1' ≠ '1' := by decide
  obtain ⟨hindex, hne⟩ := hall _ hd
  refine ⟨?_, hne⟩
  rw [charValue, symbol, hindex]
  exact congrArg _ UInt8.ofNat_toNat

theorem mapM_charValue {ds : List UInt8} (hds : ∀ d ∈ ds, d.toNat < 32) :
    (ds.map symbol).mapM charValue = .ok ds := by
  induction ds with
  | nil => rfl
  | cons d ds ih =>
    obtain ⟨hd, hds⟩ := List.forall_mem_cons.mp hds
    rw [List.map_cons, List.mapM_cons, (symbol_of_lt hd).1, ih hds]
    rfl

/-- The checksum is not looked at. -/
theorem addressFromBech32_form {hrp : String} {checksum : List UInt8} (hhrp : hrp ≠ "")
    (h : Quintets b q) (hlen : checksum.length = 6) (hsum : ∀ d ∈ checksum, d.toNat < 32) :
    addressFromBech32 (bech32Form hrp q checksum) = .ok b := by
  have hds : ∀ d ∈ q ++ checksum, d.toNat < 32 := List.forall_mem_append.mpr ⟨h.digits, hsum⟩
  have hchars : (bech32Form hrp q checksum).toList.reverse =
      ((q ++ checksum).map symbol).reverse ++ '1' :: hrp.toList.reverse := by
    simp [bech32Form]
  have hdata : ∀ c ∈ ((q ++ checksum).map symbol).reverse, (c != '1') = true := by
    intro c hc
    obtain ⟨d, hd, rfl⟩ := List.mem_map.mp (List.mem_reverse.mp hc)
    simpa using (symbol_of_lt (hds d hd)).2
  have hbytes := Utf8.length_le_length_encode (bech32Form hrp q checksum).toList
  rw [← Utf8.bytes_ofList, String.ofList_toList, ← List.length_reverse, hchars] at hbytes
  simp only [List.length_append, List.length_reverse, List.length_map, List.length_cons, hlen]
    at hbytes
  rw [addressFromBech32, if_neg (by omega), hchars, List.takeWhile_append_of_pos hdata,
    List.dropWhile_append_of_pos hdata, List.takeWhile_cons_of_neg (by decide),
    List.dropWhile_cons_of_neg (by decide), if_neg (by simpa using hhrp), List.append_nil,
    List.reverse_reverse, bech32Decode, mapM_charValue hds]
  simpa [hlen] using convertBits_of_quintets h

/-- **The decoding inverts the standard encoding**: the groups of every byte string go back to it,
and so does every text that carries them, whatever its checksum is. -/
theorem bech32_inverts (b : List UInt8) : ∃ q, Quintets b q ∧ convertBits 8 5 b true = .ok q ∧
    convertBits 5 8 q false = .ok b ∧ ∀ hrp checksum, hrp ≠ "" → checksum.length = 6 →
      (∀ d ∈ checksum, d.toNat < 32) → addressFromBech32 (bech32Form hrp q checksum) = .ok b := by
  obtain ⟨q, hpad, hq⟩ := convertBits_pad b
  exact ⟨q, hq, hpad, convertBits_of_quintets hq, fun _ _ hhrp => addressFromBech32_form hhrp hq⟩

/-- The byte zero, under a checksum of zeros. -/
theorem bech32_inverts_zero : ∃ q, convertBits 8 5 [0] true = .ok q ∧
    addressFromBech32 (bech32Form "funai" q (List.replicate 6 0)) = .ok [0] := by
  obtain ⟨q, -, hpad, -, hform⟩ := bech32_inverts [0]
  exact ⟨q, hpad, hform "funai" _ (by decide) rfl (by simp)⟩

end FunaiChain.P2p
