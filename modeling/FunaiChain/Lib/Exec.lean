import Mathlib.Tactic.Linarith

/-!
# FunaiChain.Lib.Exec

Executions that either return or stop with a fault, as `Except ε`: what a
successful `bind` went through, and what a successful loop over a list keeps.
A loop is a `List.foldlM`, so one rule per shape of loop argument is enough.

Two executions agree up to a relation when they stop with the same fault or
return related values (`Agree`).  Its rules follow the way an execution is
written: a common first half (`same`), related first halves (`bind`), a branch
(`ite`) and a loop (`foldlM`).
-/

namespace FunaiChain

variable {ε α β σ : Type}

section
variable {e : ε} {P : σ → Prop} {xs : List α}

/-! ## taking an execution apart -/

/-- A successful `bind` ran its first half and handed the result on. -/
theorem bind_eq_ok {x : Except ε α} {f : α → Except ε β} {b : β} :
    (x >>= f) = .ok b ↔ ∃ a, x = .ok a ∧ f a = .ok b := by
  cases x with
  | error | ok => simp [bind, Except.bind]

@[simp] theorem ok_bind (a : α) (f : α → Except ε β) : (Except.ok a >>= f) = f a := rfl

@[simp] theorem error_bind (e : ε) (f : α → Except ε β) :
    ((Except.error e : Except ε α) >>= f) = .error e := rfl

@[simp] theorem pure_eq_ok (a : α) : (pure a : Except ε α) = .ok a := rfl

/-- Go on only under a condition. -/
def ensure (c : Bool) (e : ε) : Except ε Unit := if c then .ok () else .error e

theorem ensure_eq_ok {c : Bool} {u : Unit} : ensure c e = .ok u ↔ c = true := by
  cases c <;> simp [ensure]

@[simp] theorem mapError_eq_ok {ε' : Type} {f : ε → ε'} {x : Except ε α} {a : α} :
    x.mapError f = .ok a ↔ x = .ok a := by
  cases x <;> simp [Except.mapError]

/-- An execution returns when it returns some value. -/
def Returns (x : Except ε α) : Prop := ∃ a, x = .ok a

theorem Returns.bind {x : Except ε α} {f : α → Except ε β} (hx : Returns x)
    (hf : ∀ a, x = .ok a → Returns (f a)) : Returns (x >>= f) := by
  obtain ⟨a, ha⟩ := hx
  obtain ⟨b, hb⟩ := hf a ha
  exact ⟨b, bind_eq_ok.mpr ⟨a, ha, hb⟩⟩

theorem returns_ok (a : α) : Returns (.ok a : Except ε α) := ⟨a, rfl⟩

/-- An execution stops with a fault. -/
def Stops (x : Except ε α) (e : ε) : Prop := x = .error e

instance [DecidableEq ε] (x : Except ε α) (e : ε) : Decidable (Stops x e) :=
  match x with
  | .ok _ => .isFalse (by simp [Stops])
  | .error e' => decidable_of_iff (e' = e) (by simp [Stops])

/-- An execution returns a value with a property. -/
def Yields (x : Except ε α) (Q : α → Prop) : Prop := ∃ a, x = .ok a ∧ Q a

namespace Yields

variable {x : Except ε α} {Q R : α → Prop}

/-- What the first half yields is what the second half may use. -/
theorem bind {f : α → Except ε β} {S : β → Prop} (hx : Yields x Q)
    (hf : ∀ a, Q a → Yields (f a) S) : Yields (x >>= f) S := by
  obtain ⟨a, rfl, ha⟩ := hx
  exact hf a ha

theorem mono (h : Yields x Q) (himp : ∀ a, Q a → R a) : Yields x R := by
  obtain ⟨a, ha, hQ⟩ := h
  exact ⟨a, ha, himp a hQ⟩

/-- An execution that returns also has what is known of its results. -/
theorem and_of (h : Yields x Q) (hspec : ∀ a, x = .ok a → R a) : Yields x fun a => Q a ∧ R a := by
  obtain ⟨a, ha, hQ⟩ := h
  exact ⟨a, ha, hQ, hspec a ha⟩

theorem returns (h : Yields x Q) : Returns x := by
  obtain ⟨a, ha, -⟩ := h
  exact ⟨a, ha⟩

end Yields

theorem yields_ok {a : α} {Q : α → Prop} (h : Q a) : Yields (.ok a : Except ε α) Q := ⟨a, rfl, h⟩

/-- A property of the value, when there is one. -/
def OnValue (Q : α → Prop) : Except ε α → Prop
  | .ok a => Q a
  | .error _ => True

namespace OnValue

variable {x : Except ε α} {f : α → Except ε β} {Q R : α → Prop} {S : β → Prop} {a : α}

theorem ok (h : Q a) : OnValue Q (Except.ok a : Except ε α) := h

theorem error : OnValue Q (.error e) := trivial

theorem none : OnValue (fun o => ∀ a ∈ o, Q a) (.ok .none : Except ε (Option α)) := by
  simp [OnValue]

theorem some (h : Q a) : OnValue (fun o => ∀ a ∈ o, Q a) (.ok (.some a) : Except ε (Option α)) := by
  simpa [OnValue] using h

theorem of_forall (h : ∀ a, x = .ok a → Q a) : OnValue Q x := by
  cases x with
  | error => trivial
  | ok a => exact h a rfl

/-- The property of a value that was returned. -/
theorem get (h : OnValue Q x) (hx : x = .ok a) : Q a := by
  subst hx
  exact h

theorem bind (hx : OnValue Q x) (hf : ∀ a, Q a → OnValue S (f a)) : OnValue S (x >>= f) := by
  cases x with
  | error => trivial
  | ok a => exact hf a hx

/-- Of the first half it is only known that it returned. -/
theorem after (hf : ∀ a, x = .ok a → OnValue S (f a)) : OnValue S (x >>= f) := by
  cases x with
  | error => trivial
  | ok a => exact hf a rfl

theorem mono (h : OnValue Q x) (himp : ∀ a, Q a → R a) : OnValue R x := by
  cases x with
  | error => trivial
  | ok a => exact himp a h

theorem ite {c : Prop} [Decidable c] {y : Except ε α} (hthen : c → OnValue Q x)
    (helse : ¬ c → OnValue Q y) : OnValue Q (if c then x else y) := by
  split
  · next hc => exact hthen hc
  · next hc => exact helse hc

/-- A branch, whatever decides it. -/
theorem either {c : Prop} [Decidable c] {y : Except ε α} (hx : OnValue Q x) (hy : OnValue Q y) :
    OnValue Q (if c then x else y) := ite (fun _ => hx) fun _ => hy

/-- Behind a check its condition holds. -/
theorem ensure {c : Bool} {f : Unit → Except ε β} (hf : c = true → OnValue S (f ())) :
    OnValue S (ensure c e >>= f) :=
  after fun _ hc => hf (ensure_eq_ok.mp hc)

/-- Behind a lookup its value was found. -/
theorem lookup {o : Option α} (hf : ∀ a, o = .some a → OnValue S (f a)) :
    OnValue S (o.elim (.error e) .ok >>= f) := by
  cases o with
  | none => trivial
  | some a => exact hf a rfl

/-- The loop rule. -/
theorem foldlM {f : σ → α → Except ε σ} {s : σ} (xs : List α)
    (hturn : ∀ s x, P s → OnValue P (f s x)) (hs : P s) : OnValue P (xs.foldlM f s) := by
  induction xs generalizing s with
  | nil => exact hs
  | cons x _ ih =>
    exact (hturn s x hs).bind fun s' hs' => ih hs'

/-- The first half may refuse. -/
theorem bind_result {ρ : Type} {x : Except ε (Except ρ α)} {f : Except ρ α → Except ε β}
    (hx : OnValue (OnValue Q) x) (herror : ∀ e, OnValue S (f (.error e)))
    (hok : ∀ a, Q a → OnValue S (f (.ok a))) : OnValue S (x >>= f) := by
  refine hx.bind fun r hr => ?_
  cases r with
  | error e => exact herror e
  | ok a => exact hok a hr

/-- The first half may return nothing. -/
theorem bind_option {x : Except ε (Option α)} {f : Option α → Except ε β}
    (hx : OnValue (fun o => ∀ a ∈ o, Q a) x) (hnone : OnValue S (f .none))
    (hsome : ∀ a, Q a → OnValue S (f (.some a))) : OnValue S (x >>= f) := by
  refine hx.bind fun o ho => ?_
  cases o with
  | none => exact hnone
  | some a => exact hsome a (ho a rfl)

end OnValue

/-- Of a value found by a test, what follows from the test. -/
theorem exists_and_imp {R q T : α → Prop} (h : ∃ a, R a ∧ q a) (hT : ∀ a, R a → q a → T a) :
    ∃ a, R a ∧ T a := by
  obtain ⟨a, hR, hq⟩ := h
  exact ⟨a, hR, hT a hR hq⟩

theorem exists_pair_and_imp {R q : α → Prop} {T : α → β → Prop} (h : ∃ a, R a ∧ q a)
    (hT : ∀ a, R a → q a → ∃ b, T a b) : ∃ a b, R a ∧ T a b := by
  obtain ⟨a, hR, hq⟩ := h
  obtain ⟨b, hb⟩ := hT a hR hq
  exact ⟨a, b, hR, hb⟩

/-- The test is a part of what is stated. -/
theorem exists_and_of {R q T : α → Prop} (h : ∃ a, R a ∧ q a) (hT : ∀ a, R a → q a → T a) :
    ∃ a, R a ∧ q a ∧ T a :=
  exists_and_imp h fun a hR hq => ⟨hq, hT a hR hq⟩

theorem exists_pair_and_of {R : α → Prop} {p q T : α → β → Prop}
    (h : ∃ a, R a ∧ ∃ b, p a b ∧ q a b) (hT : ∀ a b, R a → p a b → q a b → T a b) :
    ∃ a b, R a ∧ p a b ∧ q a b ∧ T a b :=
  exists_pair_and_imp h fun a hR ⟨b, hp, hq⟩ => ⟨b, hp, hq, hT a b hR hp hq⟩

/-- A property of what an execution returns is found by running it. -/
instance decidableExistsOk {q : α → Prop} [DecidablePred q] :
    (x : Except ε α) → Decidable (∃ a, x = .ok a ∧ q a)
  | .ok a => decidable_of_iff (q a) ⟨fun h => ⟨a, rfl, h⟩, fun ⟨_, h, hq⟩ => Except.ok.inj h ▸ hq⟩
  | .error _ => .isFalse fun ⟨_, h, _⟩ => nomatch h

instance decidableExistsSome {q : α → Prop} [DecidablePred q] :
    (o : Option α) → Decidable (∃ a, o = some a ∧ q a)
  | some a => decidable_of_iff (q a)
    ⟨fun h => ⟨a, rfl, h⟩, fun ⟨_, h, hq⟩ => Option.some.inj h ▸ hq⟩
  | none => .isFalse fun ⟨_, h, _⟩ => nomatch h

instance decidableExistsAnd {p : Prop} {q : α → Prop} [Decidable p] [Decidable (∃ a, q a)] :
    Decidable (∃ a, p ∧ q a) :=
  decidable_of_iff (p ∧ ∃ a, q a) exists_and_left.symm

theorem eq_ok_of_toOption {x : Except ε α} {a : α} (h : x.toOption = some a) : x = .ok a := by
  cases x with
  | error => contradiction
  | ok => rw [Option.some.inj h]

/-- What follows a computation only sees its value. -/
theorem toOption_bind_congr {x y : Except ε α} (h : x.toOption = y.toOption)
    (f : α → Except ε β) : (x >>= f).toOption = (y >>= f).toOption := by
  cases x with
  | ok => rw [eq_ok_of_toOption h.symm]
  | error =>
    cases y with
    | ok => contradiction
    | error => rfl

/-! ## loops -/

/-- The loop rule: what every turn keeps, a successful loop keeps.  The
turns may use that their element comes from the list. -/
theorem foldlM_invariant {f : σ → α → Except ε σ} {s s' : σ}
    (hstep : ∀ s s' x, x ∈ xs → P s → f s x = .ok s' → P s') (hs : P s)
    (h : xs.foldlM f s = .ok s') : P s' := by
  induction xs generalizing s with
  | nil => simp_all
  | cons x _ ih =>
    rw [List.foldlM_cons, bind_eq_ok] at h
    obtain ⟨t, ht, h⟩ := h
    have hP : P t := hstep s t x List.mem_cons_self hs ht
    exact ih (fun s s' y hy => hstep s s' y (.tail _ hy)) hP h

/-- The loop rule for `Yields`.  The invariant may speak of the elements that
are still to come, so that each turn can use up what was set aside for it. -/
theorem foldlM_yields {f : σ → α → Except ε σ} {P : List α → σ → Prop} {s : σ}
    (hturn : ∀ x xs s, P (x :: xs) s → Yields (f s x) (P xs)) (hs : P xs s) :
    Yields (xs.foldlM f s) (P []) := by
  induction xs generalizing s with
  | nil => exact yields_ok hs
  | cons x xs ih =>
    exact (hturn x xs s hs).bind fun _ hP => ih hP

end

variable {γ δ τ : Type} {f : α → Except ε γ} {T : σ → τ → Prop}

/-- The executions stop with the same fault or return related values. -/
inductive Agree (R : α → β → Prop) : Except ε α → Except ε β → Prop
  | error (e : ε) : Agree R (.error e) (.error e)
  | ok {a : α} {b : β} (related : R a b) : Agree R (.ok a) (.ok b)

/-- One execution from two states. -/
abbrev AgreeOn (R : α → α → Prop) (f : σ → Except ε α) (s t : σ) : Prop := Agree R (f s) (f t)

/-- Related first components and the same second one. -/
def Beside (R : α → β → Prop) (p : α × γ) (q : β × γ) : Prop := R p.1 q.1 ∧ p.2 = q.2

namespace Agree

variable {R : α → β → Prop} {S : γ → δ → Prop} {x : Except ε α} {y : Except ε β}

theorem bind {g : β → Except ε δ} (h : Agree R x y) (hfg : ∀ a b, R a b → Agree S (f a) (g b)) :
    Agree S (x >>= f) (y >>= g) := by
  cases h with
  | error e => exact .error e
  | ok related => exact hfg _ _ related

/-- Executions with the same first half. -/
theorem same {g : α → Except ε δ} (hfg : ∀ a, Agree S (f a) (g a)) :
    Agree S (x >>= f) (x >>= g) := by
  cases x with
  | error e => exact .error e
  | ok a => exact hfg a

theorem ite {c : Prop} [Decidable c] {x' : Except ε α} {y' : Except ε β}
    (hthen : c → Agree R x y) (helse : ¬ c → Agree R x' y') :
    Agree R (if c then x else x') (if c then y else y') := by
  grind

theorem either {c : Prop} [Decidable c] {x' : Except ε α} {y' : Except ε β} (h : Agree R x y)
    (h' : Agree R x' y') : Agree R (if c then x else x') (if c then y else y') :=
  ite (fun _ => h) fun _ => h'

/-- The loop rule: turns that keep the relation. -/
theorem foldlM {f : σ → α → Except ε σ} {g : τ → α → Except ε τ} {s : σ} {t : τ} (xs : List α)
    (hturn : ∀ s t x, T s t → Agree T (f s x) (g t x)) (h : T s t) :
    Agree T (xs.foldlM f s) (xs.foldlM g t) := by
  induction xs generalizing s t with
  | nil => exact .ok h
  | cons x _ ih =>
    exact (hturn s t x h).bind fun s' t' h' => ih h'

/-- Two executions of which the first halves return pairs. -/
theorem bind_pair {κ : Type} {x : Except ε (α × κ)} {y : Except ε (β × κ)}
    {f : α × κ → Except ε γ} {g : β × κ → Except ε δ} (h : Agree (Beside R) x y)
    (hfg : ∀ a b c, R a b → Agree S (f (a, c)) (g (b, c))) : Agree S (x >>= f) (y >>= g) := by
  cases h with
  | error e => exact .error e
  | @ok p q related =>
    obtain ⟨a, c⟩ := p
    obtain ⟨b, _⟩ := q
    obtain ⟨hab, rfl⟩ := related
    exact hfg a b c hab

/-- Two executions of which the first halves return pairs or refuse. -/
theorem bind_result {κ ρ : Type} {x : Except ε (Except ρ (α × κ))} {y : Except ε (Except ρ (β × κ))}
    {f : Except ρ (α × κ) → Except ε γ} {g : Except ρ (β × κ) → Except ε δ}
    (h : Agree (Agree (Beside R)) x y) (herror : ∀ e, Agree S (f (.error e)) (g (.error e)))
    (hok : ∀ a b c, R a b → Agree S (f (.ok (a, c))) (g (.ok (b, c)))) :
    Agree S (x >>= f) (y >>= g) := by
  refine h.bind fun r r' hr => ?_
  cases hr with
  | error e => exact herror e
  | @ok p q related =>
    obtain ⟨a, c⟩ := p
    obtain ⟨b, _⟩ := q
    obtain ⟨hab, rfl⟩ := related
    exact hok a b c hab

/-- Two executions of which the first halves may return nothing. -/
theorem bind_option {x : Except ε (Option α)} {y : Except ε (Option β)}
    {f : Option α → Except ε γ} {g : Option β → Except ε δ} (h : Agree (Option.Rel R) x y)
    (hnone : Agree S (f none) (g none))
    (hsome : ∀ a b, R a b → Agree S (f (some a)) (g (some b))) : Agree S (x >>= f) (y >>= g) := by
  refine h.bind fun r r' hr => ?_
  cases hr with
  | none => exact hnone
  | some related => exact hsome _ _ related

/-- What is read off related values alike is the same for both executions. -/
theorem map_eq {f : α → γ} {g : β → γ} (h : Agree R x y) (hfg : ∀ a b, R a b → f a = g b) :
    x.map f = y.map g := by
  cases h with
  | error => rfl
  | ok related => exact congrArg Except.ok (hfg _ _ related)

end Agree

/-- Related options are both there or both missing. -/
theorem rel_cases {R : α → β → Prop} {o : Option α} {o' : Option β} (h : Option.Rel R o o') :
    (o = none ∧ o' = none) ∨ ∃ a b, o = some a ∧ o' = some b ∧ R a b := by
  cases h with
  | none => exact .inl ⟨rfl, rfl⟩
  | some h => exact .inr ⟨_, _, rfl, rfl, h⟩

/-- Executions that agree stop with one fault or return related values. -/
theorem agree_cases {R : α → β → Prop} {x : Except ε α} {y : Except ε β} (h : Agree R x y) :
    (∃ e, x = .error e ∧ y = .error e) ∨ ∃ a b, x = .ok a ∧ y = .ok b ∧ R a b := by
  cases h with
  | error e => exact .inl ⟨e, rfl, rfl⟩
  | ok related => exact .inr ⟨_, _, rfl, rfl, related⟩

/-- The rule for plain loops. -/
theorem foldl_related {f : σ → α → σ} {g : τ → α → τ} {s : σ} {t : τ} (xs : List α)
    (hturn : ∀ s t x, T s t → T (f s x) (g t x)) (h : T s t) : T (xs.foldl f s) (xs.foldl g t) := by
  induction xs generalizing s t with
  | nil => exact h
  | cons x _ ih => exact ih (hturn s t x h)

end FunaiChain
