import FunaiChain.Lib.Exec
import Mathlib.Data.List.Basic

/-!
# FunaiChain.Lib.Trace

Runs of a machine given by a step function.  A `Trace` lists its events, and a step
may stop with a fault; a `Run` only says which states are reached.  `invariant` is
the rule for what every event keeps, `Trace.measure_le` the one for what an event adds
at most one to.  Both can be computed (`execTrace`, `execRun`).

`Streak.Tally` is about two counters with resets: strikes, and a streak of
successes that a strike interrupts.  A full streak, of `n` successes, starts again
and takes one strike off, if there is one.  Whoever stays within `b` strikes pays
`n` successes for each further one (`Tally.bound`), and no strike falls among the
successes that pay (`Uninterrupted`).
-/

namespace FunaiChain

section
variable {σ ε π : Type} (step : σ → ε → Except π σ) (ok : σ → ε → Prop) {evs : List ε} {s s' : σ}

/-- The runs whose events meet a condition, and none of which stops the machine. -/
inductive Trace : σ → List ε → σ → Prop
  | nil (s : σ) : Trace s [] s
  | cons {s s₁ s₂ : σ} {ev : ε} {evs : List ε} (meets : ok s ev) (next : step s ev = .ok s₁)
      (rest : Trace s₁ evs s₂) : Trace s (ev :: evs) s₂

/-- A run that is computed, as long as the events meet the condition. -/
def execTrace [∀ s ev, Decidable (ok s ev)] (s : σ) : List ε → Option σ
  | [] => some s
  | ev :: evs =>
      if ok s ev then
        match step s ev with
        | .ok s' => execTrace s' evs
        | .error _ => none
      else none

namespace Trace

variable {step} {ok}

/-- What every event keeps, a run keeps. -/
theorem invariant {P : σ → Prop} (hstep : ∀ s s' ev, P s → ok s ev → step s ev = .ok s' → P s')
    (hs : P s) (h : Trace step ok s evs s') : P s' := by
  induction h with
  | nil => exact hs
  | cons meets next _ ih => exact ih (hstep _ _ _ hs meets next)

/-- A weaker condition. -/
theorem mono {ok' : σ → ε → Prop} (hok : ∀ s ev, ok s ev → ok' s ev)
    (h : Trace step ok s evs s') : Trace step ok' s evs s' := by
  induction h with
  | nil => exact .nil _
  | cons meets next _ ih => exact .cons (hok _ _ meets) next ih

/-- A run is cut where its events are. -/
theorem of_append {evs' : List ε} (h : Trace step ok s (evs ++ evs') s') :
    ∃ s₁, Trace step ok s evs s₁ ∧ Trace step ok s₁ evs' s' := by
  induction evs generalizing s with
  | nil => exact ⟨s, .nil s, h⟩
  | cons _ _ ih =>
    cases h with
    | cons meets next rest =>
      obtain ⟨s₁, hfirst, hrest⟩ := ih rest
      exact ⟨s₁, .cons meets next hfirst, hrest⟩

/-- The last event of a run. -/
theorem of_snoc {ev : ε} (h : Trace step ok s (evs ++ [ev]) s') :
    ∃ s₁, Trace step ok s evs s₁ ∧ ok s₁ ev ∧ step s₁ ev = .ok s' := by
  obtain ⟨s₁, hfirst, hlast⟩ := h.of_append
  cases hlast with
  | cons meets next rest =>
    cases rest
    exact ⟨s₁, hfirst, meets, next⟩

/-- A number that an event raises by at most one. -/
theorem measure_le {m : σ → Nat} (hstep : ∀ s s' ev, step s ev = .ok s' → m s' ≤ m s + 1)
    (h : Trace step ok s evs s') : m s' ≤ m s + evs.length := by
  induction h with
  | nil => exact Nat.le_refl _
  | cons _ next => grind

theorem of_execTrace [∀ s ev, Decidable (ok s ev)] (h : execTrace step ok s evs = some s') :
    Trace step ok s evs s' := by
  induction evs generalizing s with
  | nil =>
    obtain rfl := Option.some.inj h
    exact .nil s
  | cons _ _ ih =>
    rw [execTrace] at h
    split at h
    · next hok =>
      split at h
      · next s₁ hnext => exact .cons hok hnext (ih h)
      · contradiction
    · contradiction

theorem execTrace_eq [∀ s ev, Decidable (ok s ev)] (h : Trace step ok s evs s') :
    execTrace step ok s evs = some s' := by
  induction h with
  | nil => rfl
  | cons meets next _ ih => rw [execTrace, if_pos meets, next, ← ih]

/-- What holds at the end of a run is found by computing it. -/
instance [∀ s ev, Decidable (ok s ev)] {s : σ} {evs : List ε} {q : σ → Prop} [DecidablePred q] :
    Decidable (∃ s', Trace step ok s evs s' ∧ q s') :=
  decidable_of_iff (∃ s', execTrace step ok s evs = some s' ∧ q s')
    (exists_congr fun _ => and_congr_left' ⟨.of_execTrace, execTrace_eq⟩)

end Trace

end

section
variable {σ ε : Type} {step : σ → ε → Option σ} {P : σ → ε → Prop} {s s₀ : σ}

/-- The states that are reached by events, each of which meets a condition on the
state before it; `none` is a machine that stops. -/
inductive Run (step : σ → ε → Option σ) (P : σ → ε → Prop) (s₀ : σ) : σ → Prop
  | start : Run step P s₀ s₀
  | step {s s' : σ} (run : Run step P s₀ s) (ev : ε) (cond : P s ev)
      (next : step s ev = some s') : Run step P s₀ s'

/-- The state that a list of events leads to, while each of them meets a condition. -/
def execRun (step : σ → ε → Option σ) (P : σ → ε → Prop) [∀ s ev, Decidable (P s ev)] (s : σ) :
    List ε → Option σ
  | [] => some s
  | ev :: evs => if P s ev then (step s ev).bind fun s => execRun step P s evs else none

/-- Executing events is a run. -/
theorem Run.of_exec [∀ s ev, Decidable (P s ev)] {s' : σ} {evs : List ε}
    (run : Run step P s₀ s) (h : execRun step P s evs = some s') : Run step P s₀ s' := by
  induction evs generalizing s with
  | nil =>
    cases h
    exact run
  | cons ev _ ih =>
    simp only [execRun] at h
    split at h
    · next hP =>
      obtain ⟨s₁, hstep, h⟩ := Option.bind_eq_some_iff.mp h
      exact ih (.step run ev hP hstep) h
    · contradiction

/-- A property found by executing events is a property of a reachable state. -/
theorem Run.exists_of_exec [∀ s ev, Decidable (P s ev)] {q : σ → Prop} [DecidablePred q]
    (evs : List ε) (h : (execRun step P s₀ evs).any (fun s => q s) = true) :
    ∃ s, Run step P s₀ s ∧ q s := by
  cases hs : execRun step P s₀ evs with
  | none => simp [hs] at h
  | some s => exact ⟨s, .of_exec .start hs, by simpa [hs] using h⟩

/-- **The induction rule for runs.**  An invariant of the start that every
conditioned event keeps holds at the end. -/
theorem Run.invariant {I : σ → Prop} (run : Run step P s₀ s) (hstart : I s₀)
    (hstep : ∀ s ev s', I s → P s ev → step s ev = some s' → I s') : I s := by
  induction run with
  | start => exact hstart
  | step _ ev cond next ih => exact hstep _ ev _ ih cond next

/-- A run under a condition is one under every weaker condition. -/
theorem Run.mono {Q : σ → ε → Prop} (run : Run step P s₀ s) (h : ∀ s ev, P s ev → Q s ev) :
    Run step Q s₀ s := by
  induction run with
  | start => exact .start
  | step _ ev cond next ih => exact .step ih ev (h _ ev cond) next

end

namespace Streak

/-- What happened, in order. -/
inductive Mark
  | strike
  | success
  /-- A strike was taken off, by the success before. -/
  | decay
  deriving DecidableEq, Repr

/-- Right before each decay are `n` successes and nothing else. -/
def Uninterrupted (n : Nat) (ms : List Mark) : Prop :=
  ∀ before after, ms = before ++ .decay :: after →
    ∃ start, before = start ++ List.replicate n .success

theorem uninterrupted_nil (n : Nat) : Uninterrupted n [] := by
  intro before after h
  simp at h

theorem Uninterrupted.snoc {n : Nat} {ms : List Mark} {m : Mark} (h : Uninterrupted n ms)
    (hm : m = .decay → ∃ start, ms = start ++ List.replicate n .success) :
    Uninterrupted n (ms ++ [m]) := by
  intro before after hsplit
  obtain rfl | ⟨after', m', rfl⟩ := List.eq_nil_or_concat after
  · simp_all
  · have hsplit' : ms ++ [m] = (before ++ .decay :: after') ++ [m'] := by simpa using hsplit
    obtain ⟨hfirst, -⟩ := List.append_inj' hsplit' rfl
    exact h before after' hfirst

/-- The counters that a list of marks leads to. -/
structure Tally (n strikes streak : Nat) (ms : List Mark) : Prop where
  strikes : ms.count .strike = strikes + ms.count .decay
  below : streak < n ∨ streak = 0
  successes : n * ms.count .decay + streak ≤ ms.count .success
  current : ∃ start, ms = start ++ List.replicate streak .success
  blocks : Uninterrupted n ms

namespace Tally

variable {n strikes streak : Nat} {ms : List Mark}

theorem nil (n : Nat) : Tally n 0 0 [] where
  strikes := rfl
  below := .inr rfl
  successes := by simp
  current := ⟨[], rfl⟩
  blocks := uninterrupted_nil n

section
variable (h : Tally n strikes streak ms)
include h

/-- A strike ends the streak. -/
theorem strike : Tally n (strikes + 1) 0 (ms ++ [.strike]) where
  strikes := by
    have := h.strikes
    simp
    omega
  below := .inr rfl
  successes := by
    have := h.successes
    simp
    omega
  current := ⟨_, (List.append_nil _).symm⟩
  blocks := h.blocks.snoc (by simp)

/-- A success in a streak that is not full yet. -/
theorem success (hshort : streak + 1 < n) : Tally n strikes (streak + 1) (ms ++ [.success]) where
  strikes := by simpa using h.strikes
  below := .inl hshort
  successes := by
    have := h.successes
    simp
    omega
  current := by
    obtain ⟨start, rfl⟩ := h.current
    exact ⟨start, by rw [List.append_assoc, ← List.replicate_succ']⟩
  blocks := h.blocks.snoc (by simp)

/-- The success that fills a streak when there is no strike to take off. -/
theorem full : Tally n strikes 0 (ms ++ [.success]) where
  strikes := by simpa using h.strikes
  below := .inr rfl
  successes := by
    have := h.successes
    simp
    omega
  current := ⟨_, (List.append_nil _).symm⟩
  blocks := h.blocks.snoc (by simp)

end

/-- The success that fills a streak and takes a strike off. -/
theorem decay (h : Tally n (strikes + 1) streak ms) (hfull : n ≤ streak + 1) :
    Tally n strikes 0 (ms ++ [.success] ++ [.decay]) where
  strikes := by
    have := h.strikes
    simp
    omega
  below := .inr rfl
  successes := by
    have := h.successes
    simp only [List.count_append, List.count_singleton, Nat.mul_add]
    simp
    omega
  current := ⟨_, (List.append_nil _).symm⟩
  blocks := by
    refine h.full.blocks.snoc fun _ => ?_
    obtain ⟨start, rfl⟩ := h.current
    refine ⟨start ++ List.replicate (streak + 1 - n) .success, ?_⟩
    rw [List.append_assoc, List.append_assoc, List.replicate_append_replicate,
      ← List.replicate_succ', show streak + 1 - n + n = streak + 1 by omega]

/-- **Whoever stays within `b` strikes pays `n` successes for each further one.** -/
theorem bound {b : Nat} (h : Tally n strikes streak ms) (hb : strikes ≤ b) :
    (ms.count .strike - b) * n ≤ ms.count .success := by
  have hstrikes := h.strikes
  have hsuccesses := h.successes
  have hdecays : ms.count .strike - b ≤ ms.count .decay := by omega
  calc (ms.count .strike - b) * n ≤ ms.count .decay * n := Nat.mul_le_mul_right n hdecays
    _ = n * ms.count .decay := Nat.mul_comm _ _
    _ ≤ ms.count .success := by omega

end Tally

end Streak

end FunaiChain
