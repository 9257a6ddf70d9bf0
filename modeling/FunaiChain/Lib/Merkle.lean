import Mathlib.Data.List.Basic
import Mathlib.Data.Nat.Factorization.Basic
import Mathlib.Tactic.Push

/-!
# FunaiChain.Lib.Merkle

Binary trees over a list of leaves in which an odd last node is paired with
itself.  The tree is described by the values that are hashed: `node a b` is
the value hashed for the node over `a` and `b`, and `Climbs node xs n v` says
that `v` is the value at the top, `n` levels above the leaves `xs`.

Two lists can have one top.  `Committed xs` singles out the lists that are
the only one with theirs:

* `eq_of_climbs` — a committed list is determined by its top;
* `exists_block`, `twins_append` — any other list shares its tree with one in
  which a last block is written once more, or once less.

`node` need not be injective: it is asked to be so on the values that the two
trees involve (`Faithful`).
-/

namespace FunaiChain.Merkle

variable {β : Type} {xs ys : List β} {v : β}
variable {k m n : Nat}

/-- A map determines its list where it is injective. -/
theorem eq_of_map_eq {α : Type} {f : α → β} {xs ys : List α} (h : xs.map f = ys.map f)
    (hinj : ∀ x ∈ xs, ∀ y ∈ ys, f x = f y → x = y) : xs = ys := by
  induction xs generalizing ys with
  | nil => exact (List.map_eq_nil_iff.mp h.symm).symm
  | cons x _ ih =>
    cases ys with
    | nil => simp at h
    | cons y => grind

/-! ## one level -/

/-- Neighbours in pairs; an odd last element is paired with itself. -/
def pairs : List β → List (β × β)
  | [] => []
  | [a] => [(a, a)]
  | a :: b :: rest => (a, b) :: pairs rest

theorem length_pairs (xs : List β) : (pairs xs).length = (xs.length + 1) / 2 := by
  induction xs using pairs.induct with
  | case1 | case2 => simp [pairs]
  | case3 _ _ _ ih =>
    simp only [pairs, List.length_cons, ih]
    omega

theorem pairs_eq_nil (h : pairs xs = []) : xs = [] := by
  have hlen := congrArg List.length h
  rw [length_pairs, List.length_nil] at hlen
  exact List.length_eq_zero_iff.mp (by omega)

theorem pairs_append (ys : List β) (h : 2 ∣ xs.length) :
    pairs (xs ++ ys) = pairs xs ++ pairs ys := by
  induction xs using pairs.induct with
  | case1 => rfl
  | case2 => simp at h
  | case3 _ _ rest ih =>
    have hrest : 2 ∣ rest.length := by grind
    simp [pairs, ih hrest]

theorem mem_of_mem_pairs {p : β × β} (h : p ∈ pairs xs) : p.1 ∈ xs ∧ p.2 ∈ xs := by
  induction xs using pairs.induct with
  | case1 => simp [pairs] at h
  | case2 =>
    obtain rfl := List.mem_singleton.mp h
    simp
  | case3 _ _ _ ih =>
    simp only [pairs, List.mem_cons] at h
    obtain rfl | h := h
    · simp
    · grind

/-- **The fibre of a level**: the pairs determine the list, up to an odd last
element written twice. -/
theorem eq_of_pairs_eq (h : pairs xs = pairs ys) :
    xs = ys ∨ (∃ zs a, xs = zs ++ [a] ∧ ys = zs ++ [a, a]) ∨
    ∃ zs a, ys = zs ++ [a] ∧ xs = zs ++ [a, a] := by
  induction xs using pairs.induct generalizing ys with
  | case1 =>
    match ys with
    | [] => exact .inl rfl
    | [_] => simp [pairs] at h
    | _ :: _ :: _ => simp [pairs] at h
  | case2 a =>
    match ys with
    | [] => simp [pairs] at h
    | [b] =>
      obtain ⟨rfl, -⟩ : a = b ∧ a = b := by simpa [pairs] using h
      exact .inl rfl
    | b :: c :: rest =>
      simp only [pairs, List.cons.injEq, Prod.mk.injEq] at h
      obtain ⟨⟨rfl, rfl⟩, hrest⟩ := h
      obtain rfl := pairs_eq_nil hrest.symm
      exact .inr (.inl ⟨[], _, rfl, rfl⟩)
  | case3 a b _ ih =>
    match ys with
    | [] => simp [pairs] at h
    | [c] =>
      simp only [pairs, List.cons.injEq, Prod.mk.injEq] at h
      obtain ⟨⟨rfl, rfl⟩, hrest⟩ := h
      obtain rfl := pairs_eq_nil hrest
      exact .inr (.inr ⟨[], _, rfl, rfl⟩)
    | c :: d :: rest' =>
      simp only [pairs, List.cons.injEq, Prod.mk.injEq] at h
      obtain ⟨⟨rfl, rfl⟩, h⟩ := h
      obtain rfl | ⟨zs, x, rfl, rfl⟩ | ⟨zs, x, rfl, rfl⟩ := ih h
      · exact .inl rfl
      · exact .inr (.inl ⟨a :: b :: zs, x, rfl, rfl⟩)
      · exact .inr (.inr ⟨a :: b :: zs, x, rfl, rfl⟩)

section Tree
variable (node : β → β → β)

/-- The level above. -/
def up (xs : List β) : List β := (pairs xs).map fun p => node p.1 p.2

variable {node}

theorem length_up (xs : List β) : (up node xs).length = (xs.length + 1) / 2 := by
  rw [up, List.length_map, length_pairs]

theorem up_append (ys : List β) (h : 2 ∣ xs.length) :
    up node (xs ++ ys) = up node xs ++ up node ys := by
  rw [up, pairs_append ys h, List.map_append]
  rfl

/-! ## the tree -/

variable (node)

/-- The top of the tree over a list, with its height. -/
inductive Climbs : List β → Nat → β → Prop
  | top (v : β) : Climbs [v] 0 v
  | up {xs : List β} {n : Nat} {v : β} (hlen : 2 ≤ xs.length) (h : Climbs (up node xs) n v) :
      Climbs xs (n + 1) v

/-- The values that are hashed for the tree over a list. -/
inductive Involved : List β → β → Prop
  | leaf {xs : List β} {v : β} (h : v ∈ xs) : Involved xs v
  | up {xs : List β} {v : β} (hlen : 2 ≤ xs.length) (h : Involved (up node xs) v) : Involved xs v

/-- The node values determine their halves, among some values. -/
def Faithful (S : β → Prop) : Prop :=
  ∀ a b c d, S a → S b → S c → S d → node a b = node c d → a = c ∧ b = d

variable {node}

theorem Faithful.mono {S T : β → Prop} (h : Faithful node T) (hsub : ∀ v, S v → T v) :
    Faithful node S :=
  fun a b c d ha hb hc hd => h a b c d (hsub a ha) (hsub b hb) (hsub c hc) (hsub d hd)

theorem Climbs.ne_nil (h : Climbs node xs n v) : xs ≠ [] := by
  cases h with
  | top => simp
  | up hlen =>
    rintro rfl
    simp at hlen

/-- The top and the height are unique. -/
theorem Climbs.unique {w : β} (h : Climbs node xs n v) (h' : Climbs node xs m w) :
    n = m ∧ v = w := by
  induction h generalizing m with
  | top =>
    cases h' with
    | top => exact ⟨rfl, rfl⟩
    | up hlen => simp at hlen
  | up hlen _ ih =>
    cases h' with
    | top => simp at hlen
    | up _ h' => grind

/-- Every list with an element has a top, and no more levels than elements. -/
theorem exists_climbs (h : xs ≠ []) : ∃ n v, Climbs node xs n v ∧ n < xs.length := by
  induction hlen : xs.length using Nat.strong_induction_on generalizing xs with
  | _ _ ih =>
    subst hlen
    match xs with
    | [] => exact absurd rfl h
    | [v] => exact ⟨0, v, .top v, by simp⟩
    | a :: b :: rest =>
      have hup : (up node (a :: b :: rest)).length = _ := length_up (a :: b :: rest)
      simp only [List.length_cons] at hup
      have hne : up node (a :: b :: rest) ≠ [] := by grind
      obtain ⟨n, v, hclimbs, hlt⟩ := ih _ (by simp only [List.length_cons]; omega) hne rfl
      refine ⟨n + 1, v, .up (by simp) hclimbs, ?_⟩
      simp only [List.length_cons]
      omega

/-- Below a level that is not the last there is another. -/
theorem Climbs.lower (h : Climbs node xs (n + (k + 1)) v) :
    ∃ ys, Climbs node ys n v ∧ (∀ y, Involved node ys y → Involved node xs y) ∧
    ∀ y ∈ ys, ∃ a b, Involved node xs a ∧ Involved node xs b ∧ y = node a b := by
  induction k generalizing xs with
  | zero =>
    cases h with
    | up hlen h =>
      refine ⟨Merkle.up node xs, h, fun y hy => .up hlen hy, fun y hy => ?_⟩
      obtain ⟨p, hp, rfl⟩ := List.mem_map.mp hy
      obtain ⟨hfst, hsnd⟩ := mem_of_mem_pairs hp
      exact ⟨p.1, p.2, .leaf hfst, .leaf hsnd, rfl⟩
  | succ _ ih =>
    cases h with
    | up hlen h =>
      obtain ⟨ys, hys, hinvolved, hnodes⟩ := ih h
      refine ⟨ys, hys, fun y hy => .up hlen (hinvolved y hy), fun y hy => ?_⟩
      obtain ⟨a, b, ha, hb, rfl⟩ := hnodes y hy
      exact ⟨a, b, .up hlen ha, .up hlen hb, rfl⟩

/-- The values of the first levels. -/
def values (node : β → β → β) : Nat → List β → List β
  | 0, xs => xs
  | n + 1, xs => xs ++ values node n (up node xs)

/-- A tree involves the values of its levels. -/
theorem Climbs.mem_values {w : β} (h : Climbs node xs n v)
    (hw : Involved node xs w) : w ∈ values node n xs := by
  induction h with
  | top =>
    cases hw with
    | leaf hmem => exact hmem
    | up hlen => simp at hlen
  | up _ _ ih =>
    cases hw with
    | leaf hmem => exact List.mem_append_left _ hmem
    | up _ hw => exact List.mem_append_right _ (ih hw)

/-! ## equal tops -/

/-- The values that two trees involve. -/
def Involved₂ (node : β → β → β) (xs ys : List β) (v : β) : Prop :=
  Involved node xs v ∨ Involved node ys v

theorem Faithful.up (h : Faithful node (Involved₂ node xs ys)) (hxs : 2 ≤ xs.length)
    (hys : 2 ≤ ys.length) : Faithful node (Involved₂ node (up node xs) (Merkle.up node ys)) :=
  h.mono fun _ hv => hv.imp (.up hxs) (.up hys)

/-- Trees of one height with one top have one first leaf. -/
theorem head_eq_of_climbs (hxs : Climbs node xs n v) (hys : Climbs node ys n v)
    (hfaithful : Faithful node (Involved₂ node xs ys)) : xs.head? = ys.head? := by
  induction hxs generalizing ys with
  | top =>
    cases hys
    rfl
  | @up xs n v hlen hup ih =>
    cases hys with
    | up hlen' hup' =>
      have hhead := ih hup' (hfaithful.up hlen hlen')
      match xs, ys with
      | a :: b :: _, c :: d :: _ =>
        have hnode : node a b = node c d := by simpa [up, pairs] using hhead
        have hac := (hfaithful a b c d (.inl (.leaf (by simp))) (.inl (.leaf (by simp)))
          (.inr (.leaf (by simp))) (.inr (.leaf (by simp))) hnode).1
        simp [hac]
      | [_], _ => simp at hlen
      | [], _ => simp at hlen
      | _ :: _ :: _, [_] => simp at hlen'
      | _ :: _ :: _, [] => simp at hlen'

/-- Where no leaf is a node, trees with one top have one height. -/
theorem height_eq_of_climbs (hxs : Climbs node xs n v) (hys : Climbs node ys m v)
    (hfaithful : Faithful node (Involved₂ node xs ys))
    (hleaf : ∀ x ∈ xs ++ ys, ∀ a b, Involved₂ node xs ys a → Involved₂ node xs ys b →
    x ≠ node a b) : n = m := by
  -- the first leaf of the lower tree would be a node of the other
  have hlower : ∀ {ps qs : List β} {i j : Nat}, Climbs node ps i v → Climbs node qs j v →
      (∀ p, Involved₂ node ps qs p → Involved₂ node xs ys p) → (∀ p ∈ ps, p ∈ xs ++ ys) →
      j ≤ i := by
    intro ps qs i j hps hqs hsub hmem
    by_contra hlt
    obtain ⟨k, rfl⟩ : ∃ k, j = i + (k + 1) := ⟨j - i - 1, by omega⟩
    obtain ⟨rs, hrs, hinvolved, hnodes⟩ := hqs.lower
    have hhead := head_eq_of_climbs hps hrs
      (hfaithful.mono fun p hp => hsub p (hp.imp_right (hinvolved p)))
    obtain ⟨p, ps', rfl⟩ := List.exists_cons_of_ne_nil hps.ne_nil
    obtain ⟨r, rs', rfl⟩ := List.exists_cons_of_ne_nil hrs.ne_nil
    obtain rfl : p = r := by simpa using hhead
    obtain ⟨a, b, ha, hb, rfl⟩ := hnodes p (.head _)
    exact hleaf _ (hmem _ (.head _)) a b (hsub a (.inr ha)) (hsub b (.inr hb)) rfl
  have hle := hlower hxs hys (fun p hp => hp) fun p hp => List.mem_append_left _ hp
  have hge := hlower hys hxs (fun p hp => hp.symm) fun p hp => List.mem_append_right _ hp
  omega

/-- Equal levels above: equal pairs. -/
theorem pairs_eq_of_up_eq (h : up node xs = up node ys)
    (hfaithful : Faithful node fun v => v ∈ xs ∨ v ∈ ys) : pairs xs = pairs ys := by
  refine eq_of_map_eq h fun p hp q hq hnode => ?_
  obtain ⟨hp₁, hp₂⟩ := mem_of_mem_pairs hp
  obtain ⟨hq₁, hq₂⟩ := mem_of_mem_pairs hq
  obtain ⟨hfst, hsnd⟩ := hfaithful _ _ _ _ (.inl hp₁) (.inl hp₂) (.inr hq₁) (.inr hq₂) hnode
  exact Prod.ext hfst hsnd

/-! ## committed lists -/

/-- A power of two many elements, not ending in a block of two to the `k`
elements written twice, unless the list is that block twice. -/
structure Committed (xs : List β) : Prop where
  length : ∃ n, xs.length = 2 ^ n
  ends : ∀ zs B k, zs ≠ [] → B.length = 2 ^ k → xs ≠ zs ++ B ++ B

/-- **A list that is not committed** ends, after blocks of two to the `k + 1`, in a
block of half the size, written once or twice. -/
theorem exists_block (hxs : xs ≠ []) (h : ¬ Committed xs) :
    ∃ zs B k, zs ≠ [] ∧ B.length = 2 ^ k ∧ 2 ^ (k + 1) ∣ zs.length ∧
    (xs = zs ++ B ∨ xs = zs ++ B ++ B) := by
  have hpos := List.length_pos_iff.mpr hxs
  by_cases hpow : ∃ n, xs.length = 2 ^ n
  · have hends : ∃ zs B k, zs ≠ [] ∧ B.length = 2 ^ k ∧ xs = zs ++ B ++ B := by
      by_contra hnot
      push Not at hnot
      exact h ⟨hpow, hnot⟩
    obtain ⟨zs, B, k, hzs, hB, rfl⟩ := hends
    obtain ⟨n, hn⟩ := hpow
    have hzsPos := List.length_pos_iff.mpr hzs
    simp only [List.length_append, hB] at hn
    have hlt : k + 1 < n := (Nat.pow_lt_pow_iff_right Nat.one_lt_two).mp (by omega)
    have hsub : zs.length = 2 ^ n - 2 ^ (k + 1) := by omega
    refine ⟨zs, B, k, hzs, hB, ?_, .inr rfl⟩
    rw [hsub]
    exact Nat.dvd_sub (Nat.pow_dvd_pow 2 hlt.le) (Nat.dvd_refl _)
  · -- the number of elements is an odd multiple of a power of two, and not that power
    obtain ⟨k, m, ⟨c, rfl⟩, hm⟩ := Nat.exists_eq_two_pow_mul_odd (Nat.ne_of_gt hpos)
    have hc : 0 < c := by grind
    have hblocks : 2 ^ k * (2 * c + 1) = 2 ^ (k + 1) * c + 2 ^ k := by grind
    have hzsPos : 0 < 2 ^ (k + 1) * c := Nat.mul_pos (Nat.two_pow_pos _) hc
    have hzs : (xs.take (2 ^ (k + 1) * c)).length = 2 ^ (k + 1) * c := by grind
    refine ⟨xs.take (2 ^ (k + 1) * c), xs.drop (2 ^ (k + 1) * c), k, ?_, ?_, ⟨c, hzs⟩,
      .inl (List.take_append_drop ..).symm⟩
    · exact List.length_pos_iff.mp (by omega)
    · grind

/-- Among lists of one length the level above determines the level. -/
theorem eq_of_up_eq (hlen : xs.length = ys.length) (h : up node xs = up node ys)
    (hfaithful : Faithful node fun v => v ∈ xs ∨ v ∈ ys) : xs = ys := by
  obtain heq | ⟨zs, a, rfl, rfl⟩ | ⟨zs, a, rfl, rfl⟩ :=
    eq_of_pairs_eq (pairs_eq_of_up_eq h hfaithful)
  · exact heq
  · simp at hlen
  · simp at hlen

/-- A list that goes up to three parts has three parts. -/
theorem exists_split_of_up {zs B C : List β} (hxs : 2 ∣ xs.length)
    (h : up node xs = zs ++ (B ++ C)) :
    ∃ zs' B' C', xs = zs' ++ (B' ++ C') ∧ zs'.length = 2 * zs.length ∧
    B'.length = 2 * B.length ∧ C'.length = 2 * C.length ∧ up node B' = B ∧ up node C' = C := by
  have hcount := congrArg List.length h
  rw [length_up, List.length_append, List.length_append] at hcount
  obtain ⟨zs', rest, hrest, hzs'⟩ : ∃ zs' rest, xs = zs' ++ rest ∧ zs'.length = 2 * zs.length :=
    ⟨xs.take (2 * zs.length), xs.drop (2 * zs.length), (List.take_append_drop ..).symm,
      by rw [List.length_take]; omega⟩
  subst hrest
  rw [List.length_append] at hcount hxs
  obtain ⟨B', C', hsplit, hB'⟩ : ∃ B' C', rest = B' ++ C' ∧ B'.length = 2 * B.length :=
    ⟨rest.take (2 * B.length), rest.drop (2 * B.length), (List.take_append_drop ..).symm,
      by rw [List.length_take]; omega⟩
  subst hsplit
  rw [List.length_append] at hcount hxs
  have hC' : C'.length = 2 * C.length := by omega
  rw [up_append _ ⟨_, hzs'⟩, up_append _ ⟨_, hB'⟩] at h
  obtain ⟨-, h⟩ := List.append_inj h (by rw [length_up]; omega)
  obtain ⟨hB, hC⟩ := List.append_inj h (by rw [length_up]; omega)
  exact ⟨zs', B', C', rfl, hzs', hB', hC', hB, hC⟩

/-- The level above a committed list is committed. -/
theorem Committed.up (h : Committed xs) (hlen : 2 ≤ xs.length)
    (hfaithful : Faithful node (Involved node xs)) : 2 ∣ xs.length ∧ Committed (up node xs) := by
  obtain ⟨n, hn⟩ := h.length
  cases n with
  | zero => omega
  | succ n =>
    have heven : 2 ∣ xs.length := ⟨2 ^ n, by omega⟩
    refine ⟨heven, ⟨n, by rw [length_up]; omega⟩, ?_⟩
    intro zs B k hzs hB heq
    rw [List.append_assoc] at heq
    obtain ⟨zs', B', C', rfl, hzs', hB', hC', hupB, hupC⟩ := exists_split_of_up heven heq
    have hsame : B' = C' := by
      refine eq_of_up_eq (hB'.trans hC'.symm) (hupB.trans hupC.symm) (hfaithful.mono ?_)
      intro v hv
      exact .leaf (List.mem_append_right _ (List.mem_append.mpr hv))
    subst hsame
    refine h.ends zs' B' (k + 1) ?_ ?_ (List.append_assoc ..).symm
    · grind
    · grind

/-- **A committed list is determined by its top**, among trees of its height. -/
theorem eq_of_climbs_height (hcommitted : Committed xs) (hxs : Climbs node xs n v)
    (hys : Climbs node ys n v) (hfaithful : Faithful node (Involved₂ node xs ys)) : xs = ys := by
  induction hxs generalizing ys with
  | top =>
    cases hys
    rfl
  | @up xs n v hlen hup ih =>
    cases hys with
    | up hlen' hup' =>
      obtain ⟨heven, hcommitted'⟩ := hcommitted.up hlen (hfaithful.mono fun _ => .inl)
      have hlevel := ih hcommitted' hup' (hfaithful.up hlen hlen')
      have hleaves : Faithful node fun v => v ∈ xs ∨ v ∈ ys :=
        hfaithful.mono fun _ hv => hv.imp .leaf .leaf
      obtain heq | ⟨zs, a, rfl, rfl⟩ | ⟨zs, a, rfl, rfl⟩ :=
        eq_of_pairs_eq (pairs_eq_of_up_eq hlevel hleaves)
      · exact heq
      · -- the other list is longer by one and has as many pairs, so this one is odd
        have hcount := congrArg List.length hlevel
        rw [length_up, length_up] at hcount
        simp only [List.length_append, List.length_cons, List.length_nil] at hcount heven
        omega
      · have hzs : zs ≠ [] := by
          rintro rfl
          simp at hlen'
        exact absurd (by simp) (hcommitted.ends zs [a] 0 hzs rfl)

/-- **A committed list is determined by its top**, where no leaf is a node. -/
theorem eq_of_climbs (hcommitted : Committed xs) (hxs : Climbs node xs n v)
    (hys : Climbs node ys m v) (hfaithful : Faithful node (Involved₂ node xs ys))
    (hleaf : ∀ x ∈ xs ++ ys, ∀ a b, Involved₂ node xs ys a → Involved₂ node xs ys b →
    x ≠ node a b) : xs = ys := by
  obtain rfl := height_eq_of_climbs hxs hys hfaithful hleaf
  exact eq_of_climbs_height hcommitted hxs hys hfaithful

/-! ## twins -/

/-- Two lists with one tree. -/
structure Twins (node : β → β → β) (xs ys : List β) : Prop where
  top : ∃ n v, Climbs node xs n v ∧ Climbs node ys n v
  involved : ∀ v, Involved node xs v ↔ Involved node ys v

theorem Twins.symm (h : Twins node xs ys) : Twins node ys xs where
  top := by
    obtain ⟨n, v, hxs, hys⟩ := h.top
    exact ⟨n, v, hys, hxs⟩
  involved := fun v => (h.involved v).symm

/-- What lists involve when they have the same elements and their levels above
involve the same. -/
theorem twins_of_up (hxs : 2 ≤ xs.length) (hys : 2 ≤ ys.length) (hmem : ∀ v, v ∈ xs ↔ v ∈ ys)
    (h : Twins node (up node xs) (up node ys)) : Twins node xs ys where
  top := by
    obtain ⟨n, v, hupx, hupy⟩ := h.top
    exact ⟨n + 1, v, .up hxs hupx, .up hys hupy⟩
  involved := by
    have hinvolved : ∀ {zs : List β} (v : β), 2 ≤ zs.length →
        (Involved node zs v ↔ v ∈ zs ∨ Involved node (up node zs) v) := by
      intro zs v hzs
      constructor
      · rintro (hv | ⟨-, hv⟩)
        · exact .inl hv
        · exact .inr hv
      · rintro (hv | hv)
        · exact .leaf hv
        · exact .up hzs hv
    intro v
    rw [hinvolved v hxs, hinvolved v hys, hmem v, h.involved v]

theorem twins_refl (h : xs ≠ []) : Twins node xs xs where
  top := by
    obtain ⟨n, v, hclimbs, -⟩ : ∃ n v, Climbs node xs n v ∧ n < xs.length := exists_climbs h
    exact ⟨n, v, hclimbs, hclimbs⟩
  involved := fun _ => Iff.rfl

/-- **Padding is not committed to**: after blocks of two to the `k + 1`, a last
block of half the size may be written once or twice. -/
theorem twins_append {zs B : List β} (hzs : zs ≠ []) (hB : B.length = 2 ^ k)
    (hdvd : 2 ^ (k + 1) ∣ zs.length) : Twins node (zs ++ B) (zs ++ B ++ B) := by
  induction k generalizing zs B with
  | zero =>
    obtain ⟨b, rfl⟩ := List.length_eq_one_iff.mp hB
    have hpos := List.length_pos_iff.mpr hzs
    have hup : up node (zs ++ [b]) = up node (zs ++ [b] ++ [b]) := by
      rw [List.append_assoc, up_append _ hdvd, up_append _ hdvd]
      rfl
    refine twins_of_up (by simp; omega) (by simp) (by simp) ?_
    rw [hup]
    refine twins_refl fun hnil => ?_
    have hlen := congrArg List.length hnil
    rw [length_up] at hlen
    simp at hlen
  | succ k ih =>
    have hpos := List.length_pos_iff.mpr hzs
    have heven : 2 ∣ zs.length := Nat.dvd_trans ⟨2 ^ (k + 1), by rw [Nat.pow_succ']⟩ hdvd
    have hevenB : 2 ∣ (zs ++ B).length := by grind
    obtain ⟨c, hc⟩ := hdvd
    have hpow : 2 ^ (k + 1 + 1) = 2 * 2 ^ (k + 1) := Nat.pow_succ'
    have hlen : 2 ≤ B.length := by grind
    refine twins_of_up (by rw [List.length_append]; omega)
      (by rw [List.length_append]; omega) (by simp) ?_
    rw [up_append _ hevenB, up_append _ heven]
    refine ih (B := up node B) ?_ ?_ ?_
    · intro hnil
      have hlen := congrArg List.length hnil
      rw [length_up, List.length_nil] at hlen
      omega
    · rw [length_up, hB, Nat.pow_succ']
      omega
    · refine ⟨c, ?_⟩
      rw [length_up, hc, hpow, Nat.mul_assoc]
      omega

end Tree

end FunaiChain.Merkle
