import Mathlib.Algebra.Order.BigOperators.Group.List
import Mathlib.Data.List.Nodup
import Mathlib.Tactic.Linarith

/-!
# FunaiChain.Lib.Table

Ordered tables whose rows satisfy a law tying a key to its value, built on
`Std.ExtTreeMap`.  A row that breaks the law cannot be written, so whatever
reads a table may use the law of every row it finds, with no invariant to
carry.  Tables with equal rows are equal.

The second half is about sums over the rows of a table (`Table.sum`): how a
write or an erasure changes them, which is what conservation arguments over
a store of balances need.
-/

namespace FunaiChain

open Std

/-- A table from keys to values whose every row satisfies `Law`. -/
structure Table (K V : Type) [Ord K] [TransOrd K] (Law : K → V → Prop) where
  rows : ExtTreeMap K V
  lawful : ∀ k v, rows[k]? = some v → Law k v

/-- A table with no law on its rows. -/
abbrev Store (K V : Type) [Ord K] [TransOrd K] := Table K V fun _ _ => True

namespace Table

variable {K V : Type} [Ord K] [TransOrd K] {Law : K → V → Prop}

/-- The empty table. -/
def empty : Table K V Law := ⟨∅, by simp⟩

instance : EmptyCollection (Table K V Law) := ⟨empty⟩

variable (t : Table K V Law) (k : K)

/-- The value stored under a key. -/
def get : Option V := t.rows[k]?

/-- Is there a row under this key? -/
def has : Bool := (t.get k).isSome

/-- The rows in key order. -/
def entries : List (K × V) := t.rows.toList

/-- Is there no row at all? -/
def isEmpty : Bool := t.entries.isEmpty

@[simp] theorem get_empty : (∅ : Table K V Law).get k = none := ExtTreeMap.getElem?_empty

/-- A stored row satisfies the law of the table. -/
theorem law_of_get {t : Table K V Law} {k : K} {v : V} (h : t.get k = some v) : Law k v :=
  t.lawful k v h

section Lawful
variable [LawfulEqOrd K]
variable (t : Table K V Law) (f : V → V) (h : ∀ k v, Law k v → Law k (f v))

/-- Write a row that satisfies the law. -/
def set (k : K) (v : V) (h : Law k v) : Table K V Law :=
  ⟨t.rows.insert k v, fun a w hw => by
    rw [ExtTreeMap.getElem?_insert] at hw
    split at hw
    · next hka =>
        rw [← LawfulEqOrd.eq_of_compare hka, ← Option.some.inj hw]
        exact h
    · exact t.lawful a w hw⟩

/-- Remove the row under a key. -/
def erase (k : K) : Table K V Law :=
  ⟨t.rows.erase k, fun a w hw => by
    rw [ExtTreeMap.getElem?_erase] at hw
    split at hw
    · cases hw
    · exact t.lawful a w hw⟩

/-- Keep the rows that pass a test. -/
def filter (p : K → V → Bool) : Table K V Law :=
  ⟨t.rows.filter p, fun a w hw => by
    rw [ExtTreeMap.getElem?_filter'] at hw
    exact t.lawful a w (Option.filter_eq_some_iff.mp hw).1⟩

/-- Change every row, within the law. -/
def mapValues : Table K V Law :=
  ⟨t.rows.map fun _ v => f v, fun a w hw => by
    rw [ExtTreeMap.getElem?_map] at hw
    obtain ⟨v, hv, rfl⟩ := Option.map_eq_some_iff.mp hw
    exact h a v (t.lawful a v hv)⟩

/-- Write a row of a table that has no law. -/
def put {V : Type} (t : Store K V) (k : K) (v : V) : Store K V := t.set k v trivial

theorem ext_get {t t' : Table K V Law} (h : ∀ k, t.get k = t'.get k) : t = t' := by
  obtain ⟨m, hm⟩ := t
  obtain ⟨m', hm'⟩ := t'
  have : m = m' := ExtTreeMap.ext_getElem? fun k => h k
  subst this
  rfl

theorem get_filter (p : K → V → Bool) (a : K) : (t.filter p).get a = (t.get a).filter (p a) := by
  simp [get, filter]

theorem get_mapValues (a : K) : (t.mapValues f h).get a = (t.get a).map f := by
  simp [get, mapValues, ExtTreeMap.getElem?_map]

theorem entries_mapValues :
    (t.mapValues f h).entries = t.entries.map fun r => (r.1, f r.2) := ExtTreeMap.toList_map

theorem entries_filter (p : K → V → Bool) :
    (t.filter p).entries = t.entries.filter fun r => p r.1 r.2 := ExtTreeMap.toList_filter

theorem filter_eq_self {t : Table K V Law} {p : K → V → Bool}
    (h : ∀ k v, t.get k = some v → p k v = true) : t.filter p = t := by
  refine ext_get fun k => ?_
  rw [get_filter]
  cases hk : t.get k with
  | none => rfl
  | some v => simp [Option.filter, h k v hk]

theorem mem_entries {t : Table K V Law} {k : K} {v : V} : (k, v) ∈ t.entries ↔ t.get k = some v :=
  ExtTreeMap.mem_toList_iff_getElem?_eq_some

theorem eq_empty_of_isEmpty {t : Table K V Law} (h : t.isEmpty = true) : t = ∅ := by
  have hnil : t.entries = [] := List.isEmpty_iff.mp h
  refine ext_get fun k => ?_
  cases hk : t.get k with
  | none => rfl
  | some =>
    have hmem := mem_entries.mpr hk
    rw [hnil] at hmem
    contradiction

/-- A property of all rows can be decided by going through them. -/
instance decidableForallRows (t : Table K V Law) (p : K → V → Prop) [∀ k v, Decidable (p k v)] :
    Decidable (∀ k v, t.get k = some v → p k v) :=
  decidable_of_iff (∀ r ∈ t.entries, p r.1 r.2)
    ⟨fun h k v hk => h (k, v) (mem_entries.mpr hk), fun h r hr => h r.1 r.2 (mem_entries.mp hr)⟩

/-- No key occurs twice among the rows. -/
theorem nodup_keys : (t.entries.map Prod.fst).Nodup := by
  rw [List.Nodup, List.pairwise_map]
  exact ExtTreeMap.distinct_keys_toList.imp fun h heq => h (Std.compare_eq_iff_eq.mpr heq)

theorem nodup_entries : t.entries.Nodup :=
  List.Nodup.of_map Prod.fst t.nodup_keys

section Values
variable {t : Table K V Law} {f : V → K} (hf : ∀ k v, t.get k = some v → f v = k)
include hf

/-- Values that know their keys are stored under them. -/
theorem get_of_mem {v : V} (h : v ∈ t.entries.map Prod.snd) : t.get (f v) = some v := by
  obtain ⟨⟨k, v⟩, hmem, rfl⟩ := List.mem_map.mp h
  have hget := mem_entries.mp hmem
  rwa [hf k v hget]

theorem nodup_values : ((t.entries.map Prod.snd).map f).Nodup := by
  have hkeys : (t.entries.map Prod.snd).map f = t.entries.map Prod.fst := by
    rw [List.map_map]
    exact List.map_congr_left fun r hr => hf r.1 r.2 (mem_entries.mp hr)
  exact hkeys ▸ t.nodup_keys

end Values

/-- The sum of an integer reading of the rows. -/
def sum (f : K → V → Int) : Int :=
  (t.entries.map fun r => f r.1 r.2).sum

/-- What the row under a key, if any, contributes to a sum. -/
def part (f : K → V → Int) (k : K) : Int :=
  match t.get k with
  | some v => f k v
  | none => 0

theorem sum_congr {t : Table K V Law} {f g : K → V → Int}
    (h : ∀ k v, t.get k = some v → f k v = g k v) : t.sum f = t.sum g := by
  unfold sum
  congr 1
  refine List.map_congr_left ?_
  rintro ⟨k, v⟩ hkv
  exact h k v (mem_entries.mp hkv)

omit [LawfulEqOrd K] in
theorem sum_nonneg {t : Table K V Law} {f : K → V → Int} (h : ∀ k v, 0 ≤ f k v) : 0 ≤ t.sum f := by
  refine List.sum_nonneg fun x hx => ?_
  obtain ⟨r, -, rfl⟩ := List.mem_map.mp hx
  exact h r.1 r.2

variable [DecidableEq K]

@[grind =] theorem get_set (t : Table K V Law) (k a : K) (v : V) (h : Law k v) :
    (t.set k v h).get a = if k = a then some v else t.get a := by
  simp [get, set, ExtTreeMap.getElem?_insert]

@[simp] theorem get_set_self (t : Table K V Law) (k : K) (v : V) (h : Law k v) :
    (t.set k v h).get k = some v := by
  simp [get_set]

theorem get_set_of_ne (t : Table K V Law) {k a : K} (v : V) (h : Law k v) (hne : k ≠ a) :
    (t.set k v h).get a = t.get a := by
  simp [get_set, hne]

@[grind =] theorem get_erase (t : Table K V Law) (k a : K) :
    (t.erase k).get a = if k = a then none else t.get a := by
  simp [get, erase, ExtTreeMap.getElem?_erase]

@[simp] theorem get_erase_self (t : Table K V Law) (k : K) : (t.erase k).get k = none := by
  simp [get_erase]

@[grind =] theorem get_put {V : Type} (t : Store K V) (k a : K) (v : V) :
    (t.put k v).get a = if k = a then some v else t.get a :=
  get_set t k a v trivial

/-! ## sums over the rows -/

/-- The rows split into the one under `k` and the others. -/
theorem entries_perm_erase {t : Table K V Law} {k : K} {v : V} (h : t.get k = some v) :
    t.entries.Perm ((k, v) :: (t.erase k).entries) := by
  have hnd : ((k, v) :: (t.erase k).entries).Nodup := by
    refine List.nodup_cons.mpr ⟨?_, nodup_entries _⟩
    rw [mem_entries, get_erase_self]
    simp
  refine (List.perm_ext_iff_of_nodup t.nodup_entries hnd).mpr ?_
  rintro ⟨a, w⟩
  rw [List.mem_cons, mem_entries, mem_entries, get_erase]
  by_cases hka : k = a <;> grind

/-- The rows under a key: the one, if it is there. -/
theorem filter_entries_key (t : Table K V Law) (k : K) :
    t.entries.filter (fun r => r.1 = k) = ((t.get k).map fun v => (k, v)).toList := by
  cases h : t.get k with
  | none =>
    refine List.filter_eq_nil_iff.mpr fun r hr hk => ?_
    obtain ⟨k', v⟩ := r
    obtain rfl : k' = k := by simpa using hk
    rw [mem_entries, h] at hr
    contradiction
  | some =>
    have hothers : (t.erase k).entries.filter (fun r => r.1 = k) = [] := by
      refine List.filter_eq_nil_iff.mpr fun r hr hk => ?_
      obtain ⟨k', v'⟩ := r
      obtain rfl : k' = k := by simpa using hk
      rw [mem_entries, get_erase_self] at hr
      contradiction
    have hperm := (entries_perm_erase h).filter (fun r => r.1 = k)
    rw [List.filter_cons_of_pos (by simp), hothers] at hperm
    exact List.perm_singleton.mp hperm

theorem sum_erase (t : Table K V Law) (f : K → V → Int) (k : K) :
    (t.erase k).sum f = t.sum f - t.part f k := by
  cases h : t.get k with
  | none =>
    have : t.erase k = t := ext_get fun a => by
      rw [get_erase]
      split
      · next hka => rw [← hka, h]
      · rfl
    rw [this, part, h]
    simp
  | some =>
    have hp := ((entries_perm_erase h).map fun r => f r.1 r.2).sum_eq
    rw [List.map_cons, List.sum_cons] at hp
    rw [part, h, sum, sum, hp]
    simp only []
    omega

theorem sum_set (t : Table K V Law) (f : K → V → Int) (k : K) (v : V) (h : Law k v) :
    (t.set k v h).sum f = t.sum f - t.part f k + f k v := by
  have he : (t.set k v h).erase k = t.erase k := ext_get fun a => by
    rw [get_erase, get_erase, get_set]
    split <;> rfl
  have h1 := sum_erase (t.set k v h) f k
  have h2 := sum_erase t f k
  rw [he] at h1
  have h3 : (t.set k v h).part f k = f k v := by rw [part, get_set_self]
  omega

/-- The sums of two tables that agree but for one key differ by what is under it. -/
theorem sum_of_agree {t t' : Table K V Law} (f : K → V → Int) {k : K}
    (h : ∀ a, a ≠ k → t'.get a = t.get a) : t'.sum f = t.sum f - t.part f k + t'.part f k := by
  have he : t'.erase k = t.erase k := ext_get fun a => by
    rw [get_erase, get_erase]
    split
    · rfl
    · next hka => exact h a (Ne.symm hka)
  have h1 := sum_erase t' f k
  have h2 := sum_erase t f k
  rw [he] at h1
  omega

/-- A row contributes at most the whole of a sum without negative parts. -/
theorem part_le_sum {t : Table K V Law} {f : K → V → Int} (h : ∀ k v, 0 ≤ f k v) (k : K) :
    t.part f k ≤ t.sum f := by
  have hrest : 0 ≤ (t.erase k).sum f := sum_nonneg h
  rw [sum_erase] at hrest
  omega

end Lawful

@[simp] theorem sum_empty (f : K → V → Int) : (∅ : Table K V Law).sum f = 0 := by
  have : (∅ : Table K V Law).entries = [] := ExtTreeMap.toList_eq_nil_iff.mpr rfl
  rw [sum, this]
  rfl

end Table

end FunaiChain
