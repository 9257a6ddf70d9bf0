import Mathlib.Data.List.Basic
import Mathlib.Tactic.Linarith

/-!
# FunaiChain.Lib.Encoding

Texts of byte strings, as bytes.

* A format that only carries valid UTF-8 replaces every byte that does not belong
  to an encoded character by U+FFFD (`Utf8.repair`).  A string survives exactly
  when it was valid; in any case its first byte is kept or becomes the first byte
  of the replacement.
* `Hex.decode` reads pairs of digits and stops at the first byte that is none: it
  returns what it has read so far and whether that was everything.
* `Base64.decode` reads the standard alphabet in groups of four with padding, and
  skips line breaks.
-/

namespace FunaiChain

variable {b : List UInt8}

namespace Utf8

variable (c : Char) (cs : List Char)

/-- The bytes of characters. -/
def encode : List UInt8 := cs.flatMap String.utf8EncodeChar

/-- The bytes of a string. -/
def bytes (s : String) : List UInt8 := s.toUTF8.data.toList

/-- The character that bytes begin with. -/
def decodeChar? (b : List UInt8) : Option Char := b.toByteArray.utf8DecodeChar? 0

/-- The characters of bytes, with U+FFFD for a byte that begins none; `fuel` is at
least the number of bytes. -/
def repairChars : (fuel : Nat) → List UInt8 → List Char
  | 0, _ => []
  | _, [] => []
  | fuel + 1, b :: bs =>
      match decodeChar? (b :: bs) with
      | some c => c :: repairChars fuel ((b :: bs).drop c.utf8Size)
      | none => Char.ofNat 0xFFFD :: repairChars fuel bs

/-- The string that is stored for given bytes. -/
def repair (b : List UInt8) : String := String.ofList (repairChars b.length b)

/-- Are the bytes those of some characters? -/
def Valid (b : List UInt8) : Prop := ∃ cs, b = encode cs

/-! ## encoding -/

theorem encode_cons : encode (c :: cs) = String.utf8EncodeChar c ++ encode cs := rfl

theorem bytes_ofList : bytes (String.ofList cs) = encode cs := by
  exact List.toList_data_toByteArray

theorem valid_bytes (s : String) : Valid (bytes s) :=
  ⟨s.toList, by rw [← bytes_ofList, String.ofList_toList]⟩

/-- An encoded character is read back, whatever follows. -/
theorem decodeChar?_encodeChar (b : List UInt8) :
    decodeChar? (String.utf8EncodeChar c ++ b) = some c := by
  rw [decodeChar?, List.toByteArray_append]
  exact ByteArray.utf8DecodeChar?_utf8EncodeChar_append

/-- What is read stands at the beginning. -/
theorem eq_of_decodeChar? {c : Char} (h : decodeChar? b = some c) :
    ∃ rest, b = String.utf8EncodeChar c ++ rest := by
  obtain ⟨rest, hrest⟩ := ByteArray.exists_of_utf8DecodeChar?_eq_some h
  have hdata := congrArg (fun x : ByteArray => x.data.toList) hrest
  refine ⟨rest.data.toList, ?_⟩
  simpa only [List.toList_data_toByteArray, ByteArray.data_append, Array.toList_append] using hdata

/-! ## replacing what is not valid -/

theorem repairChars_encode (fuel : Nat) (h : cs.length ≤ fuel) :
    repairChars fuel (encode cs) = cs := by
  induction cs generalizing fuel with
  | nil => cases fuel <;> rfl
  | cons c cs ih =>
    obtain ⟨fuel, rfl⟩ : ∃ n, fuel = n + 1 := ⟨fuel - 1, by simp at h; omega⟩
    have hdrop : (String.utf8EncodeChar c ++ encode cs).drop c.utf8Size = encode cs := by simp_all
    obtain ⟨b, bs, hb⟩ := List.exists_cons_of_ne_nil (String.utf8EncodeChar_ne_nil (c := c))
    have hdecode := decodeChar?_encodeChar c (encode cs)
    rw [hb, List.cons_append] at hdecode hdrop
    rw [encode_cons, hb, List.cons_append, repairChars, hdecode]
    simp [hdrop, ih fuel (by simpa using h)]

/-- Every character takes at least one byte. -/
theorem length_le_length_encode : cs.length ≤ (encode cs).length := by
  induction cs with
  | nil => exact Nat.le_refl _
  | cons c =>
    have hpos := List.length_pos_iff.mpr (String.utf8EncodeChar_ne_nil (c := c))
    rw [encode_cons, List.length_append, List.length_cons]
    omega

/-- **A string survives exactly when it was valid.** -/
theorem bytes_repair_eq_iff (b : List UInt8) : bytes (repair b) = b ↔ Valid b := by
  constructor
  · intro h
    rw [← h]
    exact valid_bytes _
  · rintro ⟨cs, rfl⟩
    rw [repair, repairChars_encode cs _ (length_le_length_encode cs), bytes_ofList]

/-- The first byte is kept, or becomes that of the replacement character. -/
theorem head_bytes_repair (b : UInt8) (bs : List UInt8) :
    ∃ b' bs', bytes (repair (b :: bs)) = b' :: bs' ∧ (b' = b ∨ b' = 0xEF) := by
  rw [repair, bytes_ofList, List.length_cons, repairChars]
  cases hc : decodeChar? (b :: bs) with
  | none => exact ⟨0xEF, _, rfl, .inr rfl⟩
  | some c =>
    obtain ⟨rest, hrest⟩ := eq_of_decodeChar? hc
    obtain ⟨b', bs', hb⟩ := List.exists_cons_of_ne_nil (String.utf8EncodeChar_ne_nil (c := c))
    rw [hb, List.cons_append, List.cons.injEq] at hrest
    exact ⟨b', _, by rw [encode_cons, hb, List.cons_append], .inl hrest.1.symm⟩

/-- A replacement is not shorter than what it replaces. -/
theorem length_le_encode_repairChars (fuel : Nat) (b : List UInt8) (h : b.length ≤ fuel) :
    b.length ≤ (encode (repairChars fuel b)).length := by
  induction fuel generalizing b with
  | zero => exact (Nat.le_zero.mp h).symm ▸ Nat.zero_le _
  | succ _ ih =>
    cases b with
    | nil => exact Nat.zero_le _
    | cons x b =>
      rw [List.length_cons] at h
      rw [repairChars]
      cases hc : decodeChar? (x :: b) with
      | none =>
        have hrest := ih b (by omega)
        have hlen : (String.utf8EncodeChar (Char.ofNat 0xFFFD)).length = 3 := by decide
        rw [encode_cons, List.length_append, hlen, List.length_cons]
        omega
      | some c =>
        have hpos := c.utf8Size_pos
        have hrest := ih ((x :: b).drop c.utf8Size) (by
          rw [List.length_drop, List.length_cons]
          omega)
        rw [List.length_drop, List.length_cons] at hrest
        rw [encode_cons, List.length_append, String.length_utf8EncodeChar, List.length_cons]
        omega

theorem length_le_bytes_repair (b : List UInt8) : b.length ≤ (bytes (repair b)).length := by
  rw [repair, bytes_ofList]
  exact length_le_encode_repairChars b.length b (Nat.le_refl _)

/-- A replacement is not ASCII. -/
theorem valid_of_ascii_repairChars (fuel : Nat) (b : List UInt8) (hfuel : b.length ≤ fuel)
    (h : ∀ x ∈ encode (repairChars fuel b), x < 128) : Valid b := by
  induction fuel generalizing b with
  | zero => exact ⟨[], List.length_eq_zero_iff.mp (Nat.le_zero.mp hfuel)⟩
  | succ _ ih =>
    cases b with
    | nil => exact ⟨[], rfl⟩
    | cons x b =>
      rw [repairChars] at h
      cases hc : decodeChar? (x :: b) with
      | none => exact absurd (h 0xEF (by rw [hc]; exact .head _)) (by decide)
      | some c =>
        obtain ⟨rest, hrest⟩ := eq_of_decodeChar? hc
        have hlen := congrArg List.length hrest
        have hpos := c.utf8Size_pos
        simp only [List.length_append, String.length_utf8EncodeChar] at hlen
        rw [hc] at h
        simp only [hrest, encode_cons, ← String.length_utf8EncodeChar, List.drop_left] at h
        obtain ⟨cs, rfl⟩ := ih rest (by omega) fun y hy => h y (List.mem_append_right _ hy)
        exact ⟨c :: cs, hrest⟩

/-- Bytes below 128 are valid. -/
theorem valid_of_ascii (h : ∀ x ∈ b, x < 128) : Valid b := by
  induction b with
  | nil => exact ⟨[], rfl⟩
  | cons x _ ih =>
    obtain ⟨cs, rfl⟩ := ih fun y hy => h y (.tail _ hy)
    have hx : x.toNat < 128 := UInt8.lt_iff_toNat_lt.mp (h x (.head _))
    have hone : ∀ n : Nat, n < 128 → String.utf8EncodeChar (Char.ofNat n) = [UInt8.ofNat n] := by
      decide +kernel
    refine ⟨Char.ofNat x.toNat :: cs, ?_⟩
    rw [encode_cons, hone x.toNat hx, UInt8.ofNat_toNat]
    rfl

end Utf8

variable {text : List UInt8} {c : UInt8} {n : Nat}

/-! ## hexadecimal -/

namespace Hex

/-- A digit in lower case. -/
def digit (n : Nat) : UInt8 := UInt8.ofNat (if n < 10 then 48 + n else 87 + n)

/-- The value of a digit in either case. -/
def value (c : UInt8) : Option Nat :=
  if 48 ≤ c ∧ c ≤ 57 then some (c.toNat - 48)
  else if 97 ≤ c ∧ c ≤ 102 then some (c.toNat - 87)
  else if 65 ≤ c ∧ c ≤ 70 then some (c.toNat - 55)
  else none

variable (b)

def encode : List UInt8 :=
  b.flatMap fun x => [digit (x.toNat / 16), digit (x.toNat % 16)]

/-- The bytes before the first error, and whether there was none. -/
def decode : List UInt8 → List UInt8 × Bool
  | [] => ([], true)
  | [_] => ([], false)
  | p :: q :: rest =>
      match value p, value q with
      | some m, some n => (UInt8.ofNat (m * 16 + n) :: (decode rest).1, (decode rest).2)
      | _, _ => ([], false)

/-- The bytes of a text without errors. -/
def decode? (text : List UInt8) : Option (List UInt8) :=
  if (decode text).2 then some (decode text).1 else none

theorem value_digit : ∀ n : Nat, n < 16 → value (digit n) = some n := by decide

/-- A digit is an ASCII byte. -/
theorem lt_of_value (h : value c = some n) : c < 128 := by
  unfold value at h
  split_ifs at h with hc hc hc
  all_goals exact UInt8.lt_of_le_of_lt hc.2 (by decide)

theorem encode_cons (x : UInt8) (b : List UInt8) :
    encode (x :: b) = digit (x.toNat / 16) :: digit (x.toNat % 16) :: encode b := rfl

theorem length_encode : (encode b).length = 2 * b.length := by
  induction b with
  | nil => rfl
  | cons _ _ ih => rw [encode_cons, List.length_cons, List.length_cons, ih, List.length_cons]; omega

/-- **Hexadecimal texts are read back.** -/
theorem decode_encode : decode (encode b) = (b, true) := by
  induction b with
  | nil => rfl
  | cons x _ ih =>
    have hx : x.toNat < 256 := x.toNat_lt
    have hsum : x.toNat / 16 * 16 + x.toNat % 16 = x.toNat := Nat.div_add_mod' _ _
    rw [encode_cons, decode, value_digit _ (by omega), value_digit _ (by omega)]
    simp [ih, hsum]

/-- There are no line breaks among the digits. -/
theorem encode_plain : ∀ c ∈ encode b, (c != 10 && c != 13) = true := by
  have hdigit : ∀ n : Nat, n < 16 → (digit n != 10 && digit n != 13) = true := by decide
  intro c hc
  obtain ⟨x, -, hx⟩ := List.mem_flatMap.mp hc
  have hlt := x.toNat_lt
  obtain rfl | hx := List.mem_cons.mp hx
  · exact hdigit _ (by omega)
  · grind

theorem decode?_encode : decode? (encode b) = some b := by
  rw [decode?, decode_encode]
  rfl

variable {b}

/-- What a text without errors looks like: two ASCII bytes for each byte. -/
theorem decode?_eq_some (h : decode? text = some b) :
    text.length = 2 * b.length ∧ ∀ c ∈ text, c < 128 := by
  unfold decode? at h
  split at h
  · next hok =>
    obtain rfl := Option.some.inj h
    clear h
    induction text using decode.induct with
    | case1 => exact ⟨rfl, by simp⟩
    | case2 => simp [decode] at hok
    | case3 _ _ _ _ _ hq hp ih =>
      simp only [decode, hp, hq] at hok ⊢
      obtain ⟨hlength, hascii⟩ := ih hok
      refine ⟨by simp only [List.length_cons, hlength]; omega, fun c hc => ?_⟩
      obtain rfl | hc := List.mem_cons.mp hc
      · exact lt_of_value hp
      · obtain rfl | hc := List.mem_cons.mp hc
        · exact lt_of_value hq
        · exact hascii c hc
    | case4 _ _ _ hnone =>
      rw [decode] at hok
      split at hok
      · next m n hp hq => exact (hnone m n hp hq).elim
      · contradiction
  · contradiction

/-- A text that does not begin with a digit is not read at all. -/
theorem decode_of_value_none (h : value c = none) : (decode (c :: text)).1 = [] := by
  cases text with
  | nil => rfl
  | cons => simp [decode, h]

end Hex

/-! ## base64 -/

namespace Base64

/-- A character of the standard alphabet. -/
def char (n : Nat) : UInt8 :=
  UInt8.ofNat (if n < 26 then 65 + n else if n < 52 then 71 + n else if n < 62 then n - 4
    else if n = 62 then 43 else 47)

def value (c : UInt8) : Option Nat :=
  if 65 ≤ c ∧ c ≤ 90 then some (c.toNat - 65)
  else if 97 ≤ c ∧ c ≤ 122 then some (c.toNat - 71)
  else if 48 ≤ c ∧ c ≤ 57 then some (c.toNat + 4)
  else if c = 43 then some 62
  else if c = 47 then some 63
  else none

/-- The padding character. -/
def pad : UInt8 := 61

def encode : List UInt8 → List UInt8
  | [] => []
  | [x] => [char (x.toNat / 4), char (x.toNat % 4 * 16), pad, pad]
  | [x, y] =>
      [char (x.toNat / 4), char (x.toNat % 4 * 16 + y.toNat / 16), char (y.toNat % 16 * 4), pad]
  | x :: y :: z :: rest =>
      char (x.toNat / 4) :: char (x.toNat % 4 * 16 + y.toNat / 16) ::
        char (y.toNat % 16 * 4 + z.toNat / 64) :: char (z.toNat % 64) :: encode rest

/-- The bytes that the values of a group begin with. -/
def byte₁ (m n : Nat) : UInt8 := UInt8.ofNat (m * 4 + n / 16)
def byte₂ (n o : Nat) : UInt8 := UInt8.ofNat (n % 16 * 16 + o / 4)
def byte₃ (o p : Nat) : UInt8 := UInt8.ofNat (o % 4 * 64 + p)

/-- Groups of four characters; padding ends the text. -/
def decodeGroups : List UInt8 → Option (List UInt8)
  | [] => some []
  | a :: b :: c :: d :: rest => do
      let m ← value a
      let n ← value b
      if c = pad then (if d = pad ∧ rest = [] then some [byte₁ m n] else none)
      else do
        let o ← value c
        if d = pad then (if rest = [] then some [byte₁ m n, byte₂ n o] else none)
        else do
          let p ← value d
          let tail ← decodeGroups rest
          return byte₁ m n :: byte₂ n o :: byte₃ o p :: tail
  | _ => none

/-- The standard decoder, which skips line breaks. -/
def decode (text : List UInt8) : Option (List UInt8) :=
  decodeGroups (text.filter fun c => c != 10 && c != 13)

theorem value_char : ∀ n : Nat, n < 64 → value (char n) = some n := by decide

theorem char_ne_pad : ∀ n : Nat, n < 64 → char n ≠ pad := by decide

/-- A character of the alphabet is ASCII and no line break. -/
theorem char_plain : ∀ n : Nat, n < 64 →
    char n < 128 ∧ (char n != 10 && char n != 13) = true := by decide

theorem lt_of_value (h : value c = some n) : c < 128 := by
  unfold value at h
  split_ifs at h with hc hc hc hc hc
  iterate 3 exact UInt8.lt_of_le_of_lt hc.2 (by decide)
  all_goals
    rw [hc]
    decide

/-- Three bytes in a group of four. -/
theorem group {x y z : UInt8} : byte₁ (x.toNat / 4) (x.toNat % 4 * 16 + y.toNat / 16) = x ∧
    byte₂ (x.toNat % 4 * 16 + y.toNat / 16) (y.toNat % 16 * 4 + z.toNat / 64) = y ∧
    byte₃ (y.toNat % 16 * 4 + z.toNat / 64) (z.toNat % 64) = z := by
  have hx := x.toNat_lt
  have hy := y.toNat_lt
  have hz := z.toNat_lt
  have h₁ : x.toNat / 4 * 4 + (x.toNat % 4 * 16 + y.toNat / 16) / 16 = x.toNat := by omega
  have h₂ : (x.toNat % 4 * 16 + y.toNat / 16) % 16 * 16 +
      (y.toNat % 16 * 4 + z.toNat / 64) / 4 = y.toNat := by omega
  have h₃ : (y.toNat % 16 * 4 + z.toNat / 64) % 4 * 64 + z.toNat % 64 = z.toNat := by omega
  refine ⟨?_, ?_, ?_⟩
  · rw [byte₁, h₁, UInt8.ofNat_toNat]
  · rw [byte₂, h₂, UInt8.ofNat_toNat]
  · rw [byte₃, h₃, UInt8.ofNat_toNat]

/-- The characters of an encoded text are ASCII, and none is a line break. -/
theorem encode_plain (b : List UInt8) : ∀ c ∈ encode b, c < 128 ∧ (c != 10 && c != 13) = true := by
  have hpad : pad < 128 ∧ (pad != 10 && pad != 13) = true := by decide
  induction b using encode.induct with
  | case1 => simp [encode]
  | case2 x =>
    have hx := x.toNat_lt
    simp only [encode, List.forall_mem_cons]
    exact ⟨char_plain _ (by omega), char_plain _ (by omega), hpad, hpad, by simp⟩
  | case3 x y =>
    have hx := x.toNat_lt
    have hy := y.toNat_lt
    simp only [encode, List.forall_mem_cons]
    exact ⟨char_plain _ (by omega), char_plain _ (by omega), char_plain _ (by omega), hpad,
      by simp⟩
  | case4 x y z _ ih =>
    have hx := x.toNat_lt
    have hy := y.toNat_lt
    have hz := z.toNat_lt
    simp only [encode, List.forall_mem_cons]
    exact ⟨char_plain _ (by omega), char_plain _ (by omega), char_plain _ (by omega),
      char_plain _ (by omega), ih⟩

theorem decodeGroups_encode (b : List UInt8) : decodeGroups (encode b) = some b := by
  induction b using encode.induct with
  | case1 => rfl
  | case2 x =>
    have hx := x.toNat_lt
    obtain ⟨h₁, -, -⟩ := @group x 0 0
    rw [encode, decodeGroups, value_char _ (by omega), value_char _ (by omega)]
    simpa using h₁
  | case3 x y =>
    have hx := x.toNat_lt
    have hy := y.toNat_lt
    obtain ⟨h₁, h₂, -⟩ := @group x y 0
    have hne := char_ne_pad (y.toNat % 16 * 4) (by omega)
    rw [encode, decodeGroups, value_char _ (by omega), value_char _ (by omega)]
    simp only [Option.bind_eq_bind, Option.bind_some, hne, if_false, if_true]
    rw [value_char _ (by omega), Option.bind_some, h₁]
    simpa using h₂
  | case4 x y z _ ih =>
    have hx := x.toNat_lt
    have hy := y.toNat_lt
    have hz := z.toNat_lt
    obtain ⟨h₁, h₂, h₃⟩ := @group x y z
    have hne₁ := char_ne_pad (y.toNat % 16 * 4 + z.toNat / 64) (by omega)
    have hne₂ := char_ne_pad (z.toNat % 64) (by omega)
    rw [encode, decodeGroups, value_char _ (by omega), value_char _ (by omega)]
    simp only [Option.bind_eq_bind, Option.bind_some, hne₁, hne₂, if_false]
    rw [value_char _ (by omega), value_char _ (by omega), ih]
    simp only [Option.bind_some, h₁, h₂, h₃]
    rfl

/-- **Base64 texts are read back.** -/
theorem decode_encode (b : List UInt8) : decode (encode b) = some b := by
  rw [decode, List.filter_eq_self.mpr fun c hc => (encode_plain b c hc).2, decodeGroups_encode]

/-- What a text that is read looks like: groups of four characters, at most three bytes
for each, all ASCII. -/
theorem decodeGroups_eq_some (h : decodeGroups text = some b) :
    4 * b.length ≤ 3 * text.length ∧ text.length % 4 = 0 ∧ ∀ c ∈ text, c < 128 := by
  have hpad : pad < 128 := by decide
  induction text using decodeGroups.induct generalizing b with
  | case1 =>
    cases h
    simp
  | case2 _ _ _ _ _ ih =>
    rw [decodeGroups] at h
    simp only [Option.bind_eq_bind, Option.bind_eq_some_iff] at h
    obtain ⟨m, hm, n, hn, h⟩ := h
    have ha := lt_of_value hm
    have hb := lt_of_value hn
    simp only [List.forall_mem_cons]
    split at h
    · grind
    · simp only [Option.bind_eq_some_iff] at h
      obtain ⟨o, ho, h⟩ := h
      have hc := lt_of_value ho
      split at h
      · grind
      · simp only [Option.bind_eq_some_iff] at h
        obtain ⟨p, hp, tail, htail, h⟩ := h
        cases h
        obtain ⟨hlength, hgroups, hrest⟩ := ih htail
        simp only [List.length_cons]
        exact ⟨by omega, by omega, ha, hb, hc, lt_of_value hp, hrest⟩
  | case3 _ hnil hcons =>
    rw [decodeGroups.eq_3 _ hnil hcons] at h
    contradiction

theorem decode_eq_some (h : decode text = some b) :
    4 * b.length ≤ 3 * text.length ∧ ∀ c ∈ text, c < 128 := by
  obtain ⟨hlength, -, hascii⟩ := decodeGroups_eq_some h
  have hle := List.length_filter_le (fun c : UInt8 => c != 10 && c != 13) text
  refine ⟨by omega, fun c hc => ?_⟩
  by_cases hplain : (c != 10 && c != 13) = true
  · exact hascii c (List.mem_filter.mpr ⟨hc, hplain⟩)
  · -- a line break is ASCII as well
    simp only [Bool.and_eq_true, bne_iff_ne, not_and_or, not_not] at hplain
    obtain rfl | rfl := hplain <;> decide

/-- A text without line breaks is read in groups of four characters. -/
theorem length_of_decode (hplain : ∀ c ∈ text, (c != 10 && c != 13) = true)
    (h : decode text = some b) : text.length % 4 = 0 := by
  rw [decode, List.filter_eq_self.mpr hplain] at h
  exact (decodeGroups_eq_some h).2.1

end Base64

end FunaiChain
