import FunaiChain.Registry.Refinement

/-!
# FunaiChain.Registry.Lifecycle

The states of a worker: `Status`, `Jailed`, `Tombstoned` and `ExitRequestedAt` are
separate fields, written by eight functions.

* `Worker.Consistent` — the flags agree with the status;
* `Banned` — a tombstoned worker stays one, its stake only shrinks, and no coin of it
  comes back, unless a slash of its own stake names it as the recipient
  (`tombstoned_worker_paid`);
* `Requested` — where in a run a leaving worker asked to leave.

Each is proved for one `Change` of one record, carried along the steps of an event,
and along runs.
-/

namespace FunaiChain.Registry

open Settlement (devAddr defaultDenom)
open State

variable {env : Env} {block : Vrf.Block}
variable {a : Addr} {s s' : State} {lab : Label} {c c' c₀ : Chain} {ev : Event} {w w' : Worker}
  {labs : List Label} {p p' : Profile} {h height x : Int} {wp : WorkerParams} {ep : EntryParams}
  {evs : List Event} {e e' : Option (Worker × Profile)} {d : String}

/-! ## flags -/

/-- The flags of a record agree: jailed exactly in the status `Jailed`, and tombstoned
only when jailed. -/
structure Consistent (w : Worker) : Prop where
  jailed : w.jailed = true ↔ w.status = .jailed
  tombstoned : w.tombstoned = true → w.jailed = true

/-- All stored records are consistent. -/
def State.Consistent (s : State) : Prop :=
  ∀ a w p, s.entry a = some (w, p) → Registry.Consistent w

theorem Change.consistent (h : Change height wp ep lab e e')
    (he : ∀ w p, e = some (w, p) → Consistent w) : ∀ w p, e' = some (w, p) → Consistent w := by
  intro w' p' hw'
  cases h with
  | register =>
    cases hw'
    exact ⟨by simp [newWorker], by simp [newWorker]⟩
  | exit _ free standing =>
    cases hw'
    exact ⟨by simp [free], by simp [standing]⟩
  | update => grind
  | stake | slash | success | streak | note =>
    cases hw'
    exact ⟨(he _ _ rfl).jailed, (he _ _ rfl).tombstoned⟩
  | unjail _ _ standing =>
    cases hw'
    exact ⟨by simp, by simp [standing]⟩
  | jail =>
    cases hw'
    exact ⟨by simp, by simp⟩
  | tombstone =>
    cases hw'
    exact ⟨by simp [entomb], by simp [entomb]⟩
  | remove => contradiction

theorem Step.consistent (h : Step env block s lab s') (hs : s.Consistent) : s'.Consistent := by
  intro a w p hentry
  by_cases ha : lab.addr = some a
  · exact (h.change a ha).consistent (hs a) w p hentry
  · rw [h.others a ha] at hentry
    exact hs a w p hentry

theorem Steps.consistent (h : Steps env block s labs s') (hs : s.Consistent) : s'.Consistent :=
  h.invariant (fun _ _ _ _ hs hstep => hstep.consistent hs) hs

theorem Chain.exec_consistent (h : c.exec env ev = .ok c') (hs : c.state.Consistent) :
    c'.state.Consistent := by
  obtain ⟨labs, hsteps, -⟩ := exec_steps h
  exact hsteps.consistent hs

/-! ## the ban -/

/-- The worker is banned, and its stake is at most `x`. -/
def Banned (a : Addr) (x : Int) (s : State) : Prop :=
  ∃ w p, s.entry a = some (w, p) ∧ w.tombstoned = true ∧ w.stake.amount ≤ x

theorem Change.banned (h : Change height wp ep lab (some (w, p)) e') (hw : Consistent w)
    (hbanned : w.tombstoned = true) :
    ∃ w' p', e' = some (w', p') ∧ w'.tombstoned = true ∧ w'.stake.amount ≤ w.stake.amount := by
  cases h with
  | exit _ _ standing | stake _ _ standing | unjail _ _ standing | jail _ standing
  | tombstone _ standing => simp [hbanned] at standing
  | update _ _ active => simp [isActive, hbanned] at active
  | slash => exact ⟨_, _, rfl, hbanned, by dsimp only; omega⟩
  | success | streak | note => exact ⟨_, _, rfl, hbanned, Int.le_refl _⟩
  | remove a exiting =>
    -- a banned worker is jailed, so it is not leaving
    rw [hw.jailed.mp (hw.tombstoned hbanned)] at exiting
    contradiction

theorem Step.banned (h : Step env block s lab s') (hs : s.Consistent) (hbanned : Banned a x s) :
    Banned a x s' := by
  obtain ⟨w, p, hentry, htomb, hx⟩ := hbanned
  by_cases ha : lab.addr = some a
  · have hchange := h.change a ha
    rw [hentry] at hchange
    obtain ⟨w', p', hentry', htomb', hle⟩ := hchange.banned (hs a w p hentry) htomb
    exact ⟨w', p', hentry', htomb', hle.trans hx⟩
  · exact ⟨w, p, (h.others a ha).trans hentry, htomb, hx⟩

theorem Chain.exec_banned (h : c.exec env ev = .ok c') (hs : c.state.Consistent)
    (hbanned : Banned a x c.state) : Banned a x c'.state := by
  obtain ⟨labs, hsteps, -⟩ := exec_steps h
  have hboth : c'.state.Consistent ∧ Banned a x c'.state :=
    hsteps.invariant (P := fun s => s.Consistent ∧ Banned a x s)
      (fun _ _ _ _ hP hstep => ⟨hstep.consistent hP.1, hstep.banned hP.1 hP.2⟩) ⟨hs, hbanned⟩
  exact hboth.2

/-- An account that is registered cannot register. -/
theorem deliver_registered {msg : MsgRegisterWorker} (hfound : s.world.workers.get a = some w)
    (hcreator : env.accAddressFromBech32 msg.creator = some a) (s' : State) :
    deliver env block s (.registerWorker msg) ≠ .ok s' := by
  intro h
  obtain ⟨_, -, h⟩ := bind_eq_ok.mp h
  obtain ⟨_, -, h⟩ := bind_eq_ok.mp h
  obtain ⟨a', ha', h⟩ := bind_eq_ok.mp h
  cases hcreator.symm.trans (creatorAddress_eq_ok.mp ha')
  obtain ⟨_, hvacant, -⟩ := bind_eq_ok.mp h
  have := ensure_eq_ok.mp hvacant
  rw [hfound] at this
  contradiction

/-! ## the way out of jail -/

/-- The worker is jailed. -/
def Jailed (a : Addr) (s : State) : Prop := ∃ w p, s.entry a = some (w, p) ∧ w.jailed = true

theorem Change.jailed (h : Change height wp ep lab (some (w, p)) e') (hw : Consistent w)
    (hjailed : w.jailed = true) : (∃ a, lab = .unjail a ∧ w.jailUntil ≤ height) ∨
    ∃ w' p', e' = some (w', p') ∧ w'.jailed = true := by
  cases h with
  | exit _ free => simp [hjailed] at free
  | update _ _ active => simp [isActive, hjailed] at active
  | stake | slash | success | streak | note => exact .inr ⟨_, _, rfl, hjailed⟩
  | unjail a _ _ elapsed => exact .inl ⟨a, rfl, elapsed⟩
  | jail | tombstone => exact .inr ⟨_, _, rfl, rfl⟩
  | remove _ exiting =>
    rw [hw.jailed.mp hjailed] at exiting
    contradiction

/-- A jailed worker stays jailed, unless the step is its unjailing. -/
theorem Step.jailed (h : Step env block s lab s') (hs : s.Consistent)
    (hentry : s.entry a = some (w, p)) (hjailed : w.jailed = true) :
    (lab = .unjail a ∧ w.jailUntil ≤ block.height) ∨ Jailed a s' := by
  by_cases ha : lab.addr = some a
  · have hchange := h.change a ha
    rw [hentry] at hchange
    obtain ⟨b, rfl, helapsed⟩ | ⟨w', p', hentry', hjailed'⟩ :=
      hchange.jailed (hs a w p hentry) hjailed
    · cases ha
      exact .inl ⟨rfl, helapsed⟩
    · exact .inr ⟨w', p', hentry', hjailed'⟩
  · exact .inr ⟨w, p, (h.others a ha).trans hentry, hjailed⟩

theorem Steps.jailed (h : Steps env block s labs s') (hs : s.Consistent) (hlabs : .unjail a ∉ labs)
    (hjailed : Jailed a s) : Jailed a s' := by
  have hboth : s'.Consistent ∧ Jailed a s' := by
    refine h.invariant (P := fun s => s.Consistent ∧ Jailed a s)
      (fun s s' lab hlab hP hstep => ⟨hstep.consistent hP.1, ?_⟩) ⟨hs, hjailed⟩
    obtain ⟨w, p, hentry, hj⟩ := hP.2
    obtain ⟨rfl, -⟩ | hstays := hstep.jailed hP.1 hentry hj
    · exact absurd hlab hlabs
    · exact hstays
  exact hboth.2

/-- A message is at most one step. -/
theorem Chain.exec_tx {msg : Msg} (h : c.exec env (.tx msg) = .ok c') :
    c'.state = c.state ∨ ∃ lab, msg.Stands env lab ∧ Step env c.block c.state lab c'.state := by
  cases h
  cases hr : deliver env c.block c.state msg with
  | error => exact .inl rfl
  | ok => exact deliver_step.get hr

/-- **A jailed worker becomes active only by its own `Unjail`, at `JailUntil` or
later.** -/
theorem Chain.exec_released (h : c.exec env ev = .ok c') (hs : c.state.Consistent)
    (hfound : c.state.world.workers.get a = some w) (hjailed : w.jailed = true)
    (hfound' : c'.state.world.workers.get a = some w') (hactive : isActive w' = true) :
    ∃ msg, ev = .tx (.unjail msg) ∧ env.accAddressFromBech32 msg.creator = some a ∧
    w.jailUntil ≤ c.block.height := by
  have hentry := entry_of_get hfound
  have hbefore : Jailed a c.state := ⟨w, _, hentry, hjailed⟩
  have hnot : ¬ Jailed a c'.state := by
    rintro ⟨w₁, p₁, hentry₁, hj⟩
    cases hfound'.symm.trans (entry_eq_some.mp hentry₁).1
    simp [isActive, hj] at hactive
  obtain ⟨labs, hsteps, hlabs⟩ := exec_steps h
  by_cases hmem : .unjail a ∈ labs
  · obtain ⟨msg, rfl, hcreator⟩ := (hlabs _ hmem).causes
    obtain hsame | ⟨lab, -, hstep⟩ := exec_tx h
    · grind
    · obtain ⟨-, helapsed⟩ | hstays := hstep.jailed hs hentry hjailed
      · exact ⟨msg, rfl, hcreator, helapsed⟩
      · exact absurd hstays hnot
  · exact absurd (hsteps.jailed hs hmem hbefore) hnot

/-! ## the way out -/

/-- The worker asked to leave at height `h`. -/
def Leaving (a : Addr) (h : Int) (s : State) : Prop :=
  ∃ w p, s.entry a = some (w, p) ∧ w.status = .exiting ∧ p.exitRequestedAt = h

theorem Change.leaving (h : Change height wp ep lab e (some (w', p')))
    (hexiting : w'.status = .exiting) :
    (∃ a w p, lab = .exit a ∧ e = some (w, p) ∧ isActive w = true ∧ p'.exitRequestedAt = height) ∨
    ∃ w p, e = some (w, p) ∧ w.status = .exiting ∧ p.exitRequestedAt = p'.exitRequestedAt := by
  cases h with
  | register => simp [newWorker] at hexiting
  | exit a free standing active =>
    exact .inl ⟨a, _, _, rfl, rfl, by simp [isActive, free, standing, active], rfl⟩
  | update _ _ active => simp [isActive, hexiting] at active
  | stake | slash | success | streak | note => exact .inr ⟨_, _, rfl, hexiting, rfl⟩
  | unjail | jail => simp at hexiting
  | tombstone => simp [entomb] at hexiting

/-- A leaving worker was leaving before, or asks now and is active. -/
theorem Step.leaving (hstep : Step env block s lab s') (hleaving : Leaving a h s') :
    Leaving a h s ∨ lab = .exit a ∧ h = block.height ∧
    ∃ w, s.world.workers.get a = some w ∧ isActive w = true := by
  obtain ⟨w', p', hentry', hexiting, rfl⟩ := hleaving
  by_cases ha : lab.addr = some a
  · have hchange := hstep.change a ha
    rw [hentry'] at hchange
    obtain ⟨b, w, p, rfl, hentry, hactive, hheight⟩ | ⟨w, p, hentry, hwas, hsame⟩ :=
      hchange.leaving hexiting
    · cases ha
      exact .inr ⟨rfl, hheight, w, (entry_eq_some.mp hentry).1, hactive⟩
    · exact .inl ⟨w, p, hentry, hwas, hsame⟩
  · rw [hstep.others a ha] at hentry'
    exact .inl ⟨w', p', hentry', hexiting, rfl⟩

theorem Steps.leaving (hsteps : Steps env block s labs s') (hlabs : .exit a ∉ labs)
    (hleaving : Leaving a h s') : Leaving a h s := by
  induction hsteps with
  | nil => exact hleaving
  | cons step _ ih =>
    rw [List.mem_cons, not_or] at hlabs
    obtain hwas | ⟨rfl, -⟩ := step.leaving (ih hlabs.2 hleaving)
    · exact hwas
    · exact absurd rfl hlabs.1

/-- The worker `a` asked for its exit at height `h`, as an active worker, and the message
was accepted. -/
structure Asks (env : Env) (a : Addr) (h : Int) (c : Chain) (ev : Event) (c' : Chain) : Prop where
  message : ∃ msg, ev = .tx (.exitWorker msg) ∧ env.accAddressFromBech32 msg.creator = some a
  active : ∃ w, c.state.world.workers.get a = some w ∧ isActive w = true
  height : c.block.height = h
  accepted : Leaving a h c'.state

theorem Chain.exec_leaving (hexec : c.exec env ev = .ok c') (hleaving : Leaving a h c'.state) :
    Leaving a h c.state ∨ Asks env a h c ev c' := by
  obtain ⟨labs, hsteps, hlabs⟩ := exec_steps hexec
  by_cases hmem : .exit a ∈ labs
  · obtain ⟨msg, rfl, hcreator⟩ := (hlabs _ hmem).causes
    obtain hsame | ⟨lab, -, hstep⟩ := exec_tx hexec
    · grind
    · obtain hwas | ⟨-, hheight, hactive⟩ := hstep.leaving hleaving
      · exact .inl hwas
      · exact .inr ⟨⟨msg, rfl, hcreator⟩, hactive, hheight.symm, hleaving⟩
  · exact .inl (hsteps.leaving hmem hleaving)

/-- Somewhere in the run from `c₀` along `evs`, the worker asked for its exit. -/
def Requested (env : Env) (c₀ : Chain) (evs : List Event) (a : Addr) (h : Int) : Prop :=
  ∃ before ev after c c', evs = before ++ ev :: after ∧ Run env c₀ before c ∧
    c.exec env ev = .ok c' ∧ Asks env a h c ev c'

theorem Requested.snoc (hreq : Requested env c₀ evs a h) (ev : Event) :
    Requested env c₀ (evs ++ [ev]) a h := by
  obtain ⟨before, asked, after, c, c', rfl, hrun, hexec, hasks⟩ := hreq
  exact ⟨before, asked, after ++ [ev], c, c', by simp, hrun, hexec, hasks⟩

/-- Whoever is leaving asked for it in the run. -/
theorem Run.requested (hempty : ∀ a, c₀.state.world.workers.get a = none) (hrun : Run env c₀ evs c)
    (hleaving : Leaving a h c.state) : Requested env c₀ evs a h := by
  induction evs using List.reverseRecOn generalizing c with
  | nil =>
    cases hrun
    obtain ⟨w, p, hentry, -⟩ := hleaving
    rw [entry_eq_none.mpr (hempty a)] at hentry
    contradiction
  | append_singleton evs ev ih =>
    obtain ⟨c₁, hfirst, -, hexec⟩ := Trace.of_snoc hrun
    obtain hwas | hasks := Chain.exec_leaving hexec hleaving
    · exact (ih hfirst hwas).snoc ev
    · exact ⟨evs, ev, [], c₁, c, rfl, hfirst, hexec, hasks⟩

/-! ## removals and payments -/

/-- A record that disappears was that of a leaving worker whose wait is over. -/
theorem Change.removed (h : Change height wp ep lab (some (w, p)) none) :
    (∃ a, lab = .remove a w.stake) ∧ w.status = .exiting ∧
    ep.exitWaitPeriod ≤ height - p.exitRequestedAt := by
  cases h with
  | remove a exiting _ waited => exact ⟨⟨a, rfl⟩, exiting, waited⟩

theorem Step.removed (h : Step env block s lab s') (hentry : s.entry a = some (w, p))
    (hgone : s'.entry a = none) : lab = .remove a w.stake ∧
    ∃ at', Leaving a at' s ∧ s.params.exitWaitPeriod ≤ block.height - at' := by
  by_cases ha : lab.addr = some a
  · have hchange := h.change a ha
    rw [hentry, hgone] at hchange
    obtain ⟨⟨b, rfl⟩, hexiting, hwaited⟩ := hchange.removed
    cases ha
    exact ⟨rfl, _, ⟨w, p, hentry, hexiting, rfl⟩, hwaited⟩
  · rw [h.others a ha, hentry] at hgone
    contradiction

/-- In steps without exits, a record disappears only if its worker was leaving from the
start. -/
theorem Steps.removed (h : Steps env block s labs s') (hlabs : .exit a ∉ labs)
    (hentry : s.entry a = some (w, p)) (hgone : s'.entry a = none) : (∃ c, .remove a c ∈ labs) ∧
    ∃ at', Leaving a at' s ∧ s.params.exitWaitPeriod ≤ block.height - at' := by
  induction h generalizing w p with
  | nil => grind
  | @cons s s₁ s₂ lab labs step rest ih =>
    rw [List.mem_cons, not_or] at hlabs
    cases hnext : s₁.entry a with
    | none =>
      obtain ⟨rfl, hleaving⟩ := step.removed hentry hnext
      exact ⟨⟨w.stake, .head _⟩, hleaving⟩
    | some =>
      obtain ⟨⟨c, hc⟩, at', hleaving, hwaited⟩ := ih hlabs.2 hnext hgone
      obtain hwas | ⟨rfl, -⟩ := step.leaving hleaving
      · exact ⟨⟨c, .tail _ hc⟩, at', hwas, step.params ▸ hwaited⟩
      · exact absurd rfl hlabs.1

/-- An account that loses coins in some steps pays in one of them. -/
theorem Steps.loses (h : Steps env block s labs s')
    (hfall : s'.world.bank.balance a d < s.world.bank.balance a d) :
    ∃ lab ∈ labs, lab.payer env = some a ∧ lab.payee env ≠ some a := by
  by_contra hnone
  have hle : s.world.bank.balance a d ≤ s'.world.bank.balance a d :=
    h.invariant (P := fun s' => s.world.bank.balance a d ≤ s'.world.bank.balance a d)
      (fun s₁ s₂ lab hlab hle hstep => hle.trans (Nat.not_lt.mp fun hlt =>
        hnone ⟨lab, hlab, hstep.bank.loses hlt⟩)) (Nat.le_refl _)
  omega

/-- An account with a banned worker that gains coins in some steps is paid in one of
them, and not for leaving. -/
theorem Steps.gains (h : Steps env block s labs s') (hs : s.Consistent) (hbanned : Banned a x s)
    (hgain : s.world.bank.balance a d < s'.world.bank.balance a d) :
    ∃ lab ∈ labs, (lab.payee env = some a ∧ lab.payer env ≠ some a) ∧ ∀ c, lab ≠ .remove a c := by
  by_contra hnone
  have hkept : (s'.Consistent ∧ Banned a x s') ∧
      s'.world.bank.balance a d ≤ s.world.bank.balance a d := by
    refine h.invariant (P := fun s' => (s'.Consistent ∧ Banned a x s') ∧
      s'.world.bank.balance a d ≤ s.world.bank.balance a d) ?_ ⟨⟨hs, hbanned⟩, Nat.le_refl _⟩
    rintro s₁ s₂ lab hlab ⟨⟨hs₁, hbanned₁⟩, hle⟩ hstep
    have hbanned₂ := hstep.banned hs₁ hbanned₁
    refine ⟨⟨hstep.consistent hs₁, hbanned₂⟩, (Nat.not_lt.mp fun hlt => ?_).trans hle⟩
    refine hnone ⟨lab, hlab, hstep.bank.gains hlt, ?_⟩
    -- the record of a banned worker is still there after the step
    rintro c rfl
    obtain ⟨w, p, hentry, -⟩ := hbanned₂
    have hchange := hstep.change a rfl
    rw [hentry] at hchange
    generalize s₁.entry a = e at hchange
    cases hchange
  omega

/-- The ends of a block neither register a worker nor touch a stake. -/
theorem Step.blockwise_stake (h : Step env block s lab s') (hlab : lab.blockwise)
    (hentry' : s'.entry a = some (w', p')) :
    ∃ w p, s.entry a = some (w, p) ∧ w.stake = w'.stake := by
  by_cases ha : lab.addr = some a
  · have hchange := h.change a ha
    rw [hentry'] at hchange
    generalize s.entry a = e at hchange
    cases hchange with
    | note => exact ⟨_, _, rfl, rfl⟩
    | _ => exact hlab.elim
  · rw [h.others a ha] at hentry'
    exact ⟨w', p', hentry', rfl⟩

theorem Steps.blockwise_none (h : Steps env block s labs s') (hlabs : ∀ lab ∈ labs, lab.blockwise)
    (hnone : s.entry a = none) : s'.entry a = none := by
  refine h.invariant (P := fun s => s.entry a = none) (fun s₁ s₂ lab hlab hnone hstep => ?_) hnone
  cases hentry : s₂.entry a with
  | none => rfl
  | some =>
    obtain ⟨w, p, hentry₁, -⟩ := hstep.blockwise_stake (hlabs lab hlab) hentry
    rw [hnone] at hentry₁
    contradiction

/-- **What the ends of a block pay out of the account of the module is the stake of
workers that they remove.** -/
theorem Steps.blockwise_paid (h : Steps env block s labs s') (hlabs : ∀ lab ∈ labs, lab.blockwise)
    (hfall : s'.world.bank.balance env.workerAccount d < s.world.bank.balance env.workerAccount d) :
    ∃ a w p, s.entry a = some (w, p) ∧ w.stake.denom = d ∧ s'.entry a = none := by
  induction h with
  | nil => exact absurd hfall (Nat.lt_irrefl _)
  | @cons s s₁ s₂ lab labs step rest ih =>
    obtain ⟨hlab, hothers⟩ := List.forall_mem_cons.mp hlabs
    by_cases hrest : s₂.world.bank.balance env.workerAccount d <
        s₁.world.bank.balance env.workerAccount d
    · obtain ⟨a, w, p, hentry, hdenom, hgone⟩ := ih hothers hrest
      obtain ⟨w₀, p₀, hentry₀, hstake⟩ := step.blockwise_stake hlab hentry
      exact ⟨a, w₀, p₀, hentry₀, by rw [hstake, hdenom], hgone⟩
    · -- the first step itself pays, so it is a removal
      have hforeign : lab.Foreign env := by
        cases lab <;> trivial
      have hflow := step.bank.flow hforeign d
      have hneg : lab.inflow d < 0 := by omega
      cases lab with
      | remove a =>
        have hchange := step.change a rfl
        cases hentry : s.entry a with
        | none =>
          rw [hentry] at hchange
          generalize s₁.entry a = e' at hchange
          cases hchange
        | some wp =>
          obtain ⟨w, p⟩ := wp
          have hdenom : w.stake.denom = d ∧ s₁.entry a = none := by
            rw [hentry] at hchange
            generalize s₁.entry a = e' at hchange
            cases hchange with
            | remove =>
              refine ⟨?_, rfl⟩
              by_contra hne
              simp [Label.inflow, Label.amountOf, hne] at hneg
          exact ⟨a, w, p, hentry, hdenom.1, rest.blockwise_none hothers hdenom.2⟩
      | note | vrf => exact absurd hneg (Int.lt_irrefl 0)
      | _ => exact hlab.elim

/-- The events that slash: the calls that jail, slash or prove a fraud. -/
def Event.slashes : Event → Bool
  | .call (.jailWorker _) | .call (.slashWorker _ _) | .call (.slashWorkerTo _ _ _)
  | .call (.fraudProof _ _ _) => true
  | _ => false

theorem Event.stands_slash {percent : UInt32} {recipient : Option Addr} {c : Coin}
    (h : ev.Stands env (.slash a percent recipient c)) : ev.slashes = true := by
  cases ev with
  | tx msg => cases msg <;> simp [Event.Stands, Msg.Stands] at h
  | call k => cases k <;> first | rfl | simp [Event.Stands, Call.Stands] at h
  | transfer => simp [Event.Stands] at h
  | nextBlock => exact h.elim

/-- Only the clawback of a fraud proof takes coins from the account of the module. -/
theorem Event.slashes_of_transfer {dst : Addr} {c : Coin}
    (h : ev.Stands env (.transfer env.workerAccount dst c)) : ev.slashes = true := by
  cases ev with
  | tx msg => cases msg <;> simp [Event.Stands, Msg.Stands] at h
  | call k => cases k <;> first | rfl | simp [Event.Stands, Call.Stands] at h
  | transfer =>
    obtain ⟨hsrc, -, he⟩ := h
    cases he
    exact absurd rfl hsrc
  | nextBlock => exact h.elim

/-- **A record is deleted only at the end of a block, for a worker that is leaving and
has waited.** -/
theorem Chain.exec_removed (h : c.exec env ev = .ok c')
    (hfound : c.state.world.workers.get a = some w) (hgone : c'.state.world.workers.get a = none) :
    (∃ headerHash, ev = .nextBlock headerHash) ∧ ∃ at', Leaving a at' c.state ∧
    c.state.params.exitWaitPeriod ≤ c.block.height - at' := by
  have hentry := entry_of_get hfound
  have hnone := entry_eq_none.mpr hgone
  obtain ⟨labs, hsteps, hlabs⟩ := exec_steps h
  by_cases hmem : .exit a ∈ labs
  · obtain ⟨msg, rfl, -⟩ := (hlabs _ hmem).causes
    obtain hsame | ⟨lab, ⟨b, -, rfl⟩, hstep⟩ := exec_tx h
    · grind
    · obtain ⟨hremove, -⟩ := hstep.removed hentry hnone
      contradiction
  · obtain ⟨⟨coin, hremove⟩, hleaving⟩ := hsteps.removed hmem hentry hnone
    exact ⟨(hlabs _ hremove).causes, hleaving⟩

/-- **The account of the module pays only by a slash, or the stake of a worker that is
removed at the end of a block.** -/
theorem Chain.exec_paid (h : c.exec env ev = .ok c')
    (hfall : c'.state.world.bank.balance env.workerAccount d <
    c.state.world.bank.balance env.workerAccount d) :
    ev.slashes = true ∨ ∃ a w, c.state.world.workers.get a = some w ∧ w.stake.denom = d ∧
    c'.state.world.workers.get a = none := by
  obtain ⟨labs, hsteps, hlabs⟩ := exec_steps h
  obtain ⟨lab, hmem, hpayer, hpayee⟩ := hsteps.loses hfall
  cases lab with
  | register | stake => exact absurd rfl hpayee
  | slash => exact .inl (Event.stands_slash (hlabs _ hmem))
  | remove =>
    obtain ⟨headerHash, rfl⟩ := (hlabs _ hmem).causes
    obtain ⟨b, w, p, hentry, hdenom, hgone⟩ := hsteps.blockwise_paid hlabs hfall
    exact .inr ⟨b, w, (entry_eq_some.mp hentry).1, hdenom, entry_eq_none.mp hgone⟩
  | transfer src =>
    cases hpayer
    exact .inl (Event.slashes_of_transfer (hlabs _ hmem))
  | _ => cases hpayer

/-- The slashes whose recipient is the slashed worker. -/
def Event.refunds (a : Addr) : Event → Prop
  | .call (.slashWorkerTo b _ recipient) => b = a ∧ recipient = a
  | .call (.fraudProof b _ reporter) => b = a ∧ reporter = some a
  | _ => False

/-- The events in which others pay an account: a transfer, or the fraud of another
worker. -/
def Event.gives (a : Addr) : Event → Prop
  | .transfer _ dst _ => dst = a
  | .call (.slashWorkerTo b _ recipient) => b ≠ a ∧ recipient = a
  | .call (.fraudProof b refund reporter) => b ≠ a ∧ (reporter = some a ∨ ∃ c, refund = some (a, c))
  | _ => False

/-- A label that pays an account other than the module's, and not for leaving, comes from
an event that does. -/
theorem Event.Stands.gives (h : ev.Stands env lab)
    (hpaid : lab.payee env = some a ∧ lab.payer env ≠ some a) (hne : a ≠ env.workerAccount)
    (hremove : ∀ c, lab ≠ .remove a c) : ev.refunds a ∨ ev.gives a := by
  obtain ⟨hpayee, hpayer⟩ := hpaid
  cases lab with
  | register | stake => exact absurd (Option.some.inj hpayee).symm hne
  | remove =>
    cases hpayee
    exact absurd rfl (hremove _)
  | slash b _ recipient =>
    obtain rfl : recipient = some a := hpayee
    cases ev with
    | tx msg => cases msg <;> simp [Event.Stands, Msg.Stands] at h
    | call k =>
      cases k with
      | slashWorkerTo =>
        obtain ⟨_, he⟩ := h
        cases he
        exact (em (b = a)).imp (fun hb => ⟨hb, rfl⟩) fun hb => ⟨hb, rfl⟩
      | fraudProof =>
        obtain ⟨_, _, -, he⟩ | ⟨_, he⟩ | he := h <;> cases he
        exact (em (b = a)).imp (fun hb => ⟨hb, rfl⟩) fun hb => ⟨hb, .inl rfl⟩
      | _ => simp [Event.Stands, Call.Stands] at h
    | transfer => simp [Event.Stands] at h
    | nextBlock => exact h.elim
  | transfer src dst coin =>
    obtain rfl : dst = a := Option.some.inj hpayee
    cases ev with
    | tx msg => cases msg <;> simp [Event.Stands, Msg.Stands] at h
    | call k =>
      cases k with
      | fraudProof =>
        obtain ⟨_, _, hrefund, he⟩ | ⟨_, he⟩ | he := h <;> cases he
        exact .inr ⟨fun hsrc => hpayer (congrArg some hsrc), .inr ⟨coin, hrefund⟩⟩
      | _ => simp [Event.Stands, Call.Stands] at h
    | transfer =>
      obtain ⟨-, -, he⟩ := h
      cases he
      exact .inr rfl
    | nextBlock => exact h.elim
  | _ => cases hpayee

/-- **A banned worker is paid only by others, or by a slash that names it.** -/
theorem Chain.exec_gains (h : c.exec env ev = .ok c') (hs : c.state.Consistent)
    (hbanned : Banned a x c.state) (hne : a ≠ env.workerAccount)
    (hgain : c.state.world.bank.balance a d < c'.state.world.bank.balance a d) :
    ev.refunds a ∨ ev.gives a := by
  obtain ⟨labs, hsteps, hlabs⟩ := exec_steps h
  obtain ⟨lab, hmem, hpaid, hremove⟩ := hsteps.gains hs hbanned hgain
  exact (hlabs lab hmem).gives hpaid hne hremove

/-! ## the state machine -/

/-- What holds of the workers after a run. -/
structure Orderly (env : Env) (c₀ : Chain) (evs : List Event) (c : Chain) : Prop where
  /-- The flags agree with the status. -/
  flags : ∀ a w, c.state.world.workers.get a = some w →
    (w.jailed = true ↔ w.status = .jailed) ∧ (w.tombstoned = true → w.jailed = true)
  /-- Whoever is tombstoned stays registered, inactive and tombstoned whatever happens
  next, gets no stake back into its record or out of it by leaving, and cannot register. -/
  banned : ∀ a w, c.state.world.workers.get a = some w → w.tombstoned = true →
    ∀ evs' c', Run env c evs' c' →
      (∃ w', c'.state.world.workers.get a = some w' ∧ w'.tombstoned = true ∧
        isActive w' = false ∧ w'.stake.amount ≤ w.stake.amount) ∧
      ∀ msg s', env.accAddressFromBech32 msg.creator = some a →
        deliver env c'.block c'.state (.registerWorker msg) ≠ .ok s'
  /-- Whoever is tombstoned gets no coins but from others, as long as no slash of its own
  stake names it as the recipient; the account is not that of the module. -/
  unpaid : ∀ ev c' a w d, c.exec env ev = .ok c' → c.state.world.workers.get a = some w →
    w.tombstoned = true → a ≠ env.workerAccount → ¬ ev.refunds a →
    c.state.world.bank.balance a d < c'.state.world.bank.balance a d → ev.gives a
  /-- Out of jail leads only the worker's own `Unjail`, not before `JailUntil`. -/
  released : ∀ ev c' a w w', c.exec env ev = .ok c' →
    c.state.world.workers.get a = some w → w.jailed = true →
    c'.state.world.workers.get a = some w' → isActive w' = true →
    ∃ msg, ev = .tx (.unjail msg) ∧ env.accAddressFromBech32 msg.creator = some a ∧
      w.jailUntil ≤ c.block.height
  /-- A record disappears only at the end of a block, `ExitWaitPeriod` blocks or more
  after its worker asked for it while active. -/
  removed : ∀ ev c' a w, c.exec env ev = .ok c' → c.state.world.workers.get a = some w →
    c'.state.world.workers.get a = none →
    (∃ headerHash, ev = .nextBlock headerHash) ∧
      ∃ at', Requested env c₀ evs a at' ∧ c₀.state.params.exitWaitPeriod ≤ c.block.height - at'
  /-- Stake leaves the account of the module only by a slash, whose recipient is who it
  compensates, or with a record that disappears. -/
  paid : ∀ ev c' d, c.exec env ev = .ok c' → c'.state.world.bank.balance env.workerAccount d <
      c.state.world.bank.balance env.workerAccount d →
    ev.slashes = true ∨ ∃ a w, c.state.world.workers.get a = some w ∧ w.stake.denom = d ∧
      c'.state.world.workers.get a = none

theorem Chain.exec_params (h : c.exec env ev = .ok c') : c'.state.params = c.state.params ∧
    c'.state.world.workerParams = c.state.world.workerParams := by
  obtain ⟨labs, hsteps, -⟩ := exec_steps h
  exact hsteps.invariant (P := fun s => s.params = c.state.params ∧
    s.world.workerParams = c.state.world.workerParams)
    (fun _ _ _ _ hP hstep => ⟨hstep.params.trans hP.1, hstep.workerParams.trans hP.2⟩) ⟨rfl, rfl⟩

theorem Run.params (h : Run env c₀ evs c) : c.state.params = c₀.state.params ∧
    c.state.world.workerParams = c₀.state.world.workerParams := by
  refine Trace.invariant (P := fun c => c.state.params = c₀.state.params ∧
    c.state.world.workerParams = c₀.state.world.workerParams) ?_ ⟨rfl, rfl⟩ h
  intro c₁ c₂ ev hP _ hexec
  obtain ⟨hparams, hworker⟩ := Chain.exec_params hexec
  exact ⟨hparams.trans hP.1, hworker.trans hP.2⟩

theorem Run.consistent (h : Run env c₀ evs c) (hs : c₀.state.Consistent) : c.state.Consistent :=
  Trace.invariant (P := fun c => c.state.Consistent)
    (fun _ _ _ hs _ hexec => Chain.exec_consistent hexec hs) hs h

theorem Run.banned (h : Run env c₀ evs c) (hs : c₀.state.Consistent)
    (hbanned : Banned a x c₀.state) : Banned a x c.state := by
  have hboth : c.state.Consistent ∧ Banned a x c.state :=
    Trace.invariant (P := fun c => c.state.Consistent ∧ Banned a x c.state)
      (fun _ _ _ hP _ hexec => ⟨Chain.exec_consistent hexec hP.1,
        Chain.exec_banned hexec hP.1 hP.2⟩) ⟨hs, hbanned⟩ h
  exact hboth.2

/-- **The worker state machine**: from an empty set of workers, every run is orderly. -/
theorem run_orderly {c₀ c : Chain} {evs : List Event}
    (hempty : ∀ a, c₀.state.world.workers.get a = none) (h : Run env c₀ evs c) :
    Orderly env c₀ evs c := by
  have hs₀ : c₀.state.Consistent := by
    intro a w p hentry
    rw [entry_eq_none.mpr (hempty a)] at hentry
    contradiction
  have hs := Run.consistent h hs₀
  have hparams := (Run.params h).1
  exact
    { flags := fun a w hfound =>
        have hw := hs a w _ (entry_of_get hfound)
        ⟨hw.jailed, hw.tombstoned⟩
      banned := by
        intro a w hfound htomb evs' c' hrun
        have hbanned : Banned a w.stake.amount c.state :=
          ⟨w, _, entry_of_get hfound, htomb, Int.le_refl _⟩
        obtain ⟨w', p', hentry', htomb', hle⟩ := Run.banned hrun hs hbanned
        have hfound' := (entry_eq_some.mp hentry').1
        refine ⟨⟨w', hfound', htomb', by simp [isActive, htomb'], hle⟩, ?_⟩
        intro msg s' hcreator
        exact deliver_registered hfound' hcreator s'
      unpaid := by
        intro ev c' a w d hexec hfound htomb hne hself hgain
        have hbanned : Banned a w.stake.amount c.state :=
          ⟨w, _, entry_of_get hfound, htomb, Int.le_refl _⟩
        exact (Chain.exec_gains hexec hs hbanned hne hgain).resolve_left hself
      released := fun ev c' a w w' hexec hfound hjailed hfound' hactive =>
        Chain.exec_released hexec hs hfound hjailed hfound' hactive
      removed := by
        intro ev c' a w hexec hfound hgone
        obtain ⟨hblock, at', hleaving, hwaited⟩ := Chain.exec_removed hexec hfound hgone
        exact ⟨hblock, at', Run.requested hempty h hleaving, hparams ▸ hwaited⟩
      paid := fun ev c' d hexec hfall => Chain.exec_paid hexec hfall }

/-- A worker is jailed, comes back and asks to leave; another is tombstoned. -/
def devLives : List Event :=
  [devRegister "alice@worker.example" 1 [[65]], devRegister "bobby@worker.example" 2 [[65]],
    .call (.jailWorker (devAddr "alice@worker.example")), .nextBlock [],
    .tx (.unjail ⟨"alice@worker.example"⟩),
    .call (.tombstoneWorker (devAddr "bobby@worker.example")),
    .tx (.exitWorker ⟨"alice@worker.example"⟩)]

/-- One worker is leaving and the other is tombstoned, both by the rules. -/
theorem devLives_orderly : ∃ c, (∀ a, (devChain 1).state.world.workers.get a = none) ∧
      Run devEnv (devChain 1) devLives c ∧
      ((c.state.world.workers.get (devAddr "alice@worker.example")).any
          (fun w => w.status == .exiting) &&
        (c.state.world.workers.get (devAddr "bobby@worker.example")).any
          (fun w => w.tombstoned)) = true ∧ Orderly devEnv (devChain 1) devLives c := by
  rw [exists_and_left]
  refine ⟨devChain_workers 1, exists_and_of (by decide +kernel) fun c hrun _ => ?_⟩
  exact run_orderly (devChain_workers 1) hrun

/-- A worker is tombstoned and then proves a fraud of its own, as the user of another of
its tasks: a twentieth of its stake comes back. -/
theorem tombstoned_worker_paid :
    ∃ c, Run devEnv (devChain 1) [devRegister "alice@worker.example" 1 [[65]],
        .call (.fraudProof (devAddr "alice@worker.example") none none)] c ∧
      (∃ w, c.state.world.workers.get (devAddr "alice@worker.example") = some w ∧
        w.tombstoned = true ∧ w.stake.amount = 95) ∧
      c.state.world.bank.balance (devAddr "alice@worker.example") defaultDenom = 900 ∧
      ∃ c', c.exec devEnv (.call (.fraudProof (devAddr "alice@worker.example") none
          (some (devAddr "alice@worker.example")))) = .ok c' ∧
        c'.state.world.bank.balance (devAddr "alice@worker.example") defaultDenom = 904 := by
  decide +kernel

end FunaiChain.Registry
