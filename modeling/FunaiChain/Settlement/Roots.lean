import FunaiChain.Lib.Merkle
import FunaiChain.Settlement.Devnet

/-!
# FunaiChain.Settlement.Roots

Whether the signed root commits to the entries of a batch.  The tree of
`da_client.go` is the tree of `Lib.Merkle` over the encodings of the entries
(`merkleRoot_of_climbs`), so the root of a list determines the list exactly
when the list is `Committed`: an odd level duplicates its last node, and a
batch may be extended by what that duplicates.
-/

namespace FunaiChain.Settlement

open Merkle (Climbs Involved Involved₂ Faithful Committed)
open Merkle

variable {env : Env}
variable {n : Nat} {v : Bytes} {xs : List Bytes} {γ : Type}

/-! ## the tree of a batch -/

/-- The value hashed for the node over two values. -/
def nodeBytes (env : Env) (x y : Bytes) : Bytes := env.sha256 x ++ env.sha256 y

theorem hashLevel_map (xs : List Bytes) :
    hashLevel env (xs.map env.sha256) = (up (nodeBytes env) xs).map env.sha256 := by
  induction xs using pairs.induct with
  | case1 | case2 => rfl
  | case3 _ _ _ ih =>
    simp only [List.map_cons, hashLevel, ih]
    rfl

/-- With a level of fuel for each level of the tree, the loop ends at the top. -/
theorem hashLevels_of_climbs {fuel : Nat} (h : Climbs (nodeBytes env) xs n v) (hfuel : n ≤ fuel) :
    hashLevels env fuel (xs.map env.sha256) = some (env.sha256 v) := by
  induction h generalizing fuel with
  | top => cases fuel <;> rfl
  | @up xs n v hlen _ ih =>
    cases fuel with
    | zero => omega
    | succ fuel =>
      match xs, hlen with
      | x :: y :: rest, _ =>
        have hlevels : hashLevels env (fuel + 1) ((x :: y :: rest).map env.sha256) =
            hashLevels env fuel (hashLevel env ((x :: y :: rest).map env.sha256)) := rfl
        rw [hlevels, hashLevel_map]
        exact ih (by omega)

/-- **The root** is the hash of the top of the tree. -/
theorem merkleRoot_of_climbs (h : Climbs (nodeBytes env) xs n v) :
    merkleRoot env (xs.map env.sha256) = some (env.sha256 v) := by
  obtain ⟨m, w, hclimbs, hlt⟩ : ∃ m w, Climbs (nodeBytes env) xs m w ∧ m < xs.length :=
    exists_climbs h.ne_nil
  obtain ⟨rfl, rfl⟩ := h.unique hclimbs
  refine hashLevels_of_climbs h ?_
  rw [List.length_map]
  omega

/-! ## what is assumed -/

section Batch
variable {encode : γ → Bytes} {a b : List γ}

/-- The root over a list of entries. -/
def rootOf (env : Env) (encode : γ → Bytes) (entries : List γ) : Option Bytes :=
  merkleRoot env (entries.map fun e => env.sha256 (encode e))

/-- The values hashed for the roots of two lists. -/
def Hashed (env : Env) (encode : γ → Bytes) (a b : List γ) : Bytes → Prop :=
  Involved₂ (nodeBytes env) (a.map encode) (b.map encode)

/-- **What is assumed** of two lists: the hash has no collision on the values
involved, and the encoding none on the entries.  A hash is 32 bytes long; an
encoded entry spells out the names of its fields and is longer than two
hashes. -/
structure Encoded (env : Env) (encode : γ → Bytes) (a b : List γ) : Prop where
  sha256_inj : ∀ x y, Hashed env encode a b x → Hashed env encode a b y →
    env.sha256 x = env.sha256 y → x = y
  encode_inj : ∀ e ∈ a ++ b, ∀ e' ∈ a ++ b, encode e = encode e' → e = e'
  sha256_length : ∀ x, (env.sha256 x).length = 32
  encode_length : ∀ e ∈ a ++ b, (encode e).length ≠ 64

theorem Encoded.faithful (h : Encoded env encode a b) :
    Faithful (nodeBytes env) (Hashed env encode a b) := by
  intro x y z w hx hy hz hw hnode
  obtain ⟨hfst, hsnd⟩ := List.append_inj hnode ((h.sha256_length x).trans (h.sha256_length z).symm)
  exact ⟨h.sha256_inj x z hx hz hfst, h.sha256_inj y w hy hw hsnd⟩

theorem rootOf_eq (entries : List γ) :
    rootOf env encode entries = merkleRoot env ((entries.map encode).map env.sha256) := by
  rw [List.map_map]
  rfl

theorem rootOf_nil : rootOf env encode [] = none := rfl

theorem rootOf_ne_nil (env : Env) (encode : γ → Bytes) (h : a ≠ []) :
    ∃ n v, Climbs (nodeBytes env) (a.map encode) n v ∧
    rootOf env encode a = some (env.sha256 v) := by
  obtain ⟨n, v, hclimbs, -⟩ : ∃ n v, Climbs (nodeBytes env) (a.map encode) n v ∧
      n < (a.map encode).length := exists_climbs (by simpa using h)
  exact ⟨n, v, hclimbs, by rw [rootOf_eq, merkleRoot_of_climbs hclimbs]⟩

/-- The top is one of the values hashed. -/
theorem involved_of_climbs (h : Climbs (nodeBytes env) xs n v) : Involved (nodeBytes env) xs v := by
  induction h with
  | top v => exact .leaf (List.mem_singleton_self v)
  | up hlen _ ih => exact .up hlen ih

/-- Entries that encode differently are committed to as their encodings are. -/
theorem committed_map (hinj : ∀ e ∈ a, ∀ e' ∈ a, encode e = encode e' → e = e')
    (h : Committed a) : Committed (a.map encode) where
  length := by
    rw [List.length_map]
    exact h.length
  ends := by
    intro zs B k hzs hB heq
    obtain ⟨left, right, rfl, hleft, hright⟩ := List.map_eq_append_iff.mp heq
    obtain ⟨first, block, rfl, hfirst, hblock⟩ := List.map_eq_append_iff.mp hleft
    have hsame : block = right := by
      refine eq_of_map_eq (hblock.trans hright.symm) fun e he e' he' => ?_
      exact hinj e (by simp [he]) e' (by simp [he'])
    subst hsame
    refine h.ends first block k ?_ ?_ rfl
    · grind
    · rw [← hB, ← hblock, List.length_map]

/-- A committed list is determined by its root. -/
theorem eq_of_rootOf_eq (h : Encoded env encode a b) (hcommitted : Committed a)
    (hroot : rootOf env encode a = rootOf env encode b) : a = b := by
  have hmem : ∀ e ∈ a, e ∈ a ++ b := fun e he => List.mem_append_left _ he
  have ha : a ≠ [] := by
    rintro rfl
    obtain ⟨n, hn⟩ := hcommitted.length
    have := Nat.two_pow_pos n
    rw [List.length_nil] at hn
    omega
  obtain ⟨n, v, hclimbs, hv⟩ := rootOf_ne_nil env encode ha
  have hb : b ≠ [] := by
    rintro rfl
    rw [hv, rootOf_nil] at hroot
    contradiction
  obtain ⟨m, w, hclimbs', hw⟩ := rootOf_ne_nil env encode hb
  obtain rfl : v = w := by
    refine h.sha256_inj v w (.inl (involved_of_climbs hclimbs)) (.inr (involved_of_climbs hclimbs'))
      ?_
    rw [hv, hw] at hroot
    exact Option.some.inj hroot
  have hencoded : a.map encode = b.map encode := by
    refine eq_of_climbs (committed_map ?_ hcommitted) hclimbs hclimbs' h.faithful ?_
    · exact fun e he e' he' => h.encode_inj e (hmem e he) e' (hmem e' he')
    · -- an encoding is not as long as a node
      intro x hx y z _ _ hnode
      rw [← List.map_append] at hx
      obtain ⟨e, he, rfl⟩ := List.mem_map.mp hx
      refine h.encode_length e he ?_
      rw [hnode, nodeBytes, List.length_append, h.sha256_length, h.sha256_length]
  refine eq_of_map_eq hencoded fun e he e' he' => ?_
  exact h.encode_inj e (hmem e he) e' (List.mem_append_right _ he')

/-- Twins have one root. -/
theorem rootOf_eq_of_twins (h : Merkle.Twins (nodeBytes env) (a.map encode) (b.map encode)) :
    rootOf env encode a = rootOf env encode b := by
  obtain ⟨n, v, ha, hb⟩ := h.top
  rw [rootOf_eq, rootOf_eq, merkleRoot_of_climbs ha, merkleRoot_of_climbs hb]

/-- What is assumed of a list holds of the list with a twin over its entries. -/
theorem Encoded.twin (h : Encoded env encode a a)
    (htwins : Merkle.Twins (nodeBytes env) (a.map encode) (b.map encode))
    (hsub : ∀ e ∈ b, e ∈ a) : Encoded env encode a b := by
  have hhashed : ∀ x, Hashed env encode a b x → Hashed env encode a a x := by
    rintro x (hx | hx)
    · exact .inl hx
    · exact .inl ((htwins.involved x).mpr hx)
  have hmem : ∀ e ∈ a ++ b, e ∈ a ++ a := by grind
  exact ⟨fun x y hx hy => h.sha256_inj x y (hhashed x hx) (hhashed y hy),
    fun e he e' he' => h.encode_inj e (hmem e he) e' (hmem e' he'), h.sha256_length,
    fun e he => h.encode_length e (hmem e he)⟩

/-- A list that is not committed has another with its root. -/
theorem exists_same_root (h : Encoded env encode a a) (ha : a ≠ []) (hnot : ¬ Committed a) :
    ∃ b, Encoded env encode a b ∧ rootOf env encode a = rootOf env encode b ∧ a ≠ b := by
  obtain ⟨zs, B, k, hzs, hB, hdvd, hshape⟩ := exists_block ha hnot
  have hne : zs ++ B ≠ zs ++ B ++ B := by
    intro heq
    have hlen := congrArg List.length heq
    simp only [List.length_append, hB] at hlen
    omega
  have htwins :
      Merkle.Twins (nodeBytes env) ((zs ++ B).map encode) ((zs ++ B ++ B).map encode) := by
    simp only [List.map_append]
    refine twins_append (k := k) (by simpa using hzs) ?_ ?_
    · rw [List.length_map, hB]
    · grind
  obtain rfl | rfl := hshape
  · have hsub : ∀ e ∈ zs ++ B ++ B, e ∈ zs ++ B := by
      intro e he
      exact (List.mem_append.mp he).elim id fun he => List.mem_append_right _ he
    exact ⟨_, h.twin htwins hsub, rootOf_eq_of_twins htwins, hne⟩
  · have hsub : ∀ e ∈ zs ++ B, e ∈ zs ++ B ++ B := fun e he => List.mem_append_left _ he
    exact ⟨_, h.twin htwins.symm hsub, rootOf_eq_of_twins htwins.symm, hne.symm⟩

/-- **The root determines its list** exactly when the list is empty or
committed. -/
theorem committed_iff (h : Encoded env encode a a) :
    (∀ b, Encoded env encode a b → rootOf env encode a = rootOf env encode b → a = b) ↔
    a = [] ∨ Committed a := by
  constructor
  · intro hall
    by_contra hnot
    push Not at hnot
    obtain ⟨b, hencoded, hroot, hne⟩ := exists_same_root h hnot.1 hnot.2
    exact hne (hall b hencoded hroot)
  · rintro (rfl | hcommitted) b hencoded hroot
    · by_contra hb
      obtain ⟨n, v, -, hv⟩ := rootOf_ne_nil env encode (Ne.symm hb)
      rw [hv, rootOf_nil] at hroot
      contradiction
    · exact eq_of_rootOf_eq hencoded hcommitted hroot

end Batch

/-! ## the two kinds of batches -/

/-- **The signed root commits to the batch** exactly when the batch is empty, or
has a power of two many entries and does not end in a block of entries written
twice; likewise for reserve batches. -/
theorem root_commits (env : Env) : (∀ a, Encoded env env.marshalEntry a a →
      ((∀ b, Encoded env env.marshalEntry a b →
          computeMerkleRoot env a = computeMerkleRoot env b → a = b) ↔ a = [] ∨ Committed a)) ∧
    ∀ a, Encoded env env.marshalReserveEntry a a → ((∀ b, Encoded env env.marshalReserveEntry a b →
          computeReserveMerkleRoot env a = computeReserveMerkleRoot env b → a = b) ↔
        a = [] ∨ Committed a) :=
  ⟨fun _ h => committed_iff h, fun _ h => committed_iff h⟩

/-! ## on small batches -/

/-- A digest that keeps the length and the first bytes that are not zero. -/
def devDigest (b : Bytes) : Bytes :=
  (UInt8.ofNat b.length :: b.filter (· ≠ 0) ++ List.replicate 32 0).take 32

/-- The devnet with this digest. -/
def digestEnv : Env := { devEnv with sha256 := devDigest }

/-- What is assumed can be checked on the levels of the two trees. -/
theorem encoded_digestEnv {encode : γ → Bytes} {a b : List γ} {m : Nat} {w : Bytes}
    (ha : Climbs (nodeBytes digestEnv) (a.map encode) n v)
    (hb : Climbs (nodeBytes digestEnv) (b.map encode) m w)
    (hsha : ∀ x ∈ values (nodeBytes digestEnv) n (a.map encode) ++
    values (nodeBytes digestEnv) m (b.map encode),
    ∀ y ∈ values (nodeBytes digestEnv) n (a.map encode) ++
    values (nodeBytes digestEnv) m (b.map encode), devDigest x = devDigest y → x = y)
    (hencode : ∀ e ∈ a ++ b, ∀ e' ∈ a ++ b, encode e = encode e' → e = e')
    (hlen : ∀ e ∈ a ++ b, (encode e).length ≠ 64) : Encoded digestEnv encode a b where
  sha256_inj := by
    have hvalues : ∀ x, Hashed digestEnv encode a b x →
        x ∈ values (nodeBytes digestEnv) n (a.map encode) ++
          values (nodeBytes digestEnv) m (b.map encode) := by
      rintro x (hx | hx)
      · exact List.mem_append_left _ (ha.mem_values hx)
      · exact List.mem_append_right _ (hb.mem_values hx)
    exact fun x y hx hy => hsha x (hvalues x hx) y (hvalues y hy)
  encode_inj := hencode
  sha256_length := by
    intro x
    change (devDigest x).length = 32
    simp [devDigest]
  encode_length := hlen

/-- Two entries are committed to. -/
theorem committed_pair (x y : γ) : Committed [x, y] where
  length := ⟨1, rfl⟩
  ends := by
    intro zs B k hzs hB heq
    have hlen := congrArg List.length heq
    have hpos := List.length_pos_iff.mpr hzs
    have hblock := Nat.two_pow_pos k
    simp only [List.length_append, List.length_cons, List.length_nil, hB] at hlen
    omega

/-- The entry and the reserve row of a task. -/
def rootEntry (t : UInt8) : SettlementEntry := devEntry [t] "user" 100 0

def rootRow (t : UInt8) : ReserveEntry := devRow [t] "user" 100 0

/-- The root over tasks 1 and 2 has no other list. -/
theorem root_commits_pair :
    (∀ b, Encoded digestEnv digestEnv.marshalEntry [rootEntry 1, rootEntry 2] b →
      computeMerkleRoot digestEnv [rootEntry 1, rootEntry 2] = computeMerkleRoot digestEnv b →
      [rootEntry 1, rootEntry 2] = b) ∧
    ∀ b, Encoded digestEnv digestEnv.marshalReserveEntry [rootRow 1, rootRow 2] b →
      computeReserveMerkleRoot digestEnv [rootRow 1, rootRow 2] =
        computeReserveMerkleRoot digestEnv b → [rootRow 1, rootRow 2] = b := by
  have hclimbs : Climbs (nodeBytes digestEnv) [[1], [2]] 1 (nodeBytes digestEnv [1] [2]) :=
    .up (by decide) (.top _)
  obtain ⟨hentries, hrows⟩ := root_commits digestEnv
  constructor
  · have hencoded : Encoded digestEnv digestEnv.marshalEntry [rootEntry 1, rootEntry 2]
        [rootEntry 1, rootEntry 2] :=
      encoded_digestEnv hclimbs hclimbs (by decide +kernel) (by decide +kernel)
        (by decide +kernel)
    exact (hentries _ hencoded).mpr (.inr (committed_pair _ _))
  · have hencoded : Encoded digestEnv digestEnv.marshalReserveEntry [rootRow 1, rootRow 2]
        [rootRow 1, rootRow 2] :=
      encoded_digestEnv hclimbs hclimbs (by decide +kernel) (by decide +kernel)
        (by decide +kernel)
    exact (hrows _ hencoded).mpr (.inr (committed_pair _ _))

/-- **Two batches with one root**: the last of three entries may be written
twice, under every assumption. -/
theorem root_of_two_batches :
    (Encoded digestEnv digestEnv.marshalEntry [rootEntry 1, rootEntry 2, rootEntry 3]
        [rootEntry 1, rootEntry 2, rootEntry 3, rootEntry 3] ∧
      computeMerkleRoot digestEnv [rootEntry 1, rootEntry 2, rootEntry 3] =
        computeMerkleRoot digestEnv [rootEntry 1, rootEntry 2, rootEntry 3, rootEntry 3] ∧
      [rootEntry 1, rootEntry 2, rootEntry 3] ≠
        [rootEntry 1, rootEntry 2, rootEntry 3, rootEntry 3]) ∧
    Encoded digestEnv digestEnv.marshalReserveEntry [rootRow 1, rootRow 2, rootRow 3]
        [rootRow 1, rootRow 2, rootRow 3, rootRow 3] ∧
      computeReserveMerkleRoot digestEnv [rootRow 1, rootRow 2, rootRow 3] =
        computeReserveMerkleRoot digestEnv [rootRow 1, rootRow 2, rootRow 3, rootRow 3] ∧
      [rootRow 1, rootRow 2, rootRow 3] ≠ [rootRow 1, rootRow 2, rootRow 3, rootRow 3] := by
  have hthree : Climbs (nodeBytes digestEnv) [[1], [2], [3]] 2 _ :=
    .up (by decide) (.up (by decide) (.top _))
  have hfour : Climbs (nodeBytes digestEnv) [[1], [2], [3], [3]] 2 _ :=
    .up (by decide) (.up (by decide) (.top _))
  refine ⟨⟨?_, rfl, by simp⟩, ?_, rfl, by simp⟩
  all_goals
    exact encoded_digestEnv hthree hfour (by decide +kernel) (by decide +kernel) (by decide +kernel)

end FunaiChain.Settlement
