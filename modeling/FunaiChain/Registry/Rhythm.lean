import FunaiChain.Lib.Trace
import FunaiChain.Registry.Lifecycle

/-!
# FunaiChain.Registry.Rhythm

`JailCount` and `SuccessStreak` of one registration are the counters of
`FunaiChain.Lib.Streak`: a jailing is a strike, and `JailDecayInterval` successes in a
row take one off.  Only `JailWorker` and `IncrementSuccessStreak` touch them
(`Change.steady`), so the marks that a run leaves on a worker keep a `Tally` with its
record (`Run.rhythm`) for as long as the worker is not tombstoned.
-/

namespace FunaiChain.Registry

open Settlement (devAddr)
open Streak (Mark Tally Uninterrupted)

variable {env : Env} {block : Vrf.Block} {a : Addr}
variable {w w' : Worker} {ms : List Mark} {c c' : Chain} {ev : Event} {n : Nat} {interval : UInt32}
  {lab : Label}

/-! ## the marks of a run -/

/-- The strikes of a worker. -/
def State.jailCount (s : State) (a : Addr) : UInt32 :=
  match s.world.workers.get a with
  | none => 0
  | some worker => worker.jailCount

/-- What an event leaves on a worker: a jailing that was carried out, a recorded success,
and the decay of `JailCount` by it. -/
def Chain.mark (env : Env) (a : Addr) (c : Chain) (ev : Event) (c' : Chain) : List Mark :=
  match ev with
  | .call (.jailWorker b) =>
      if b = a ∧ (c.state.world.workers.get a).any (fun w => !w.tombstoned) = true ∧
          (jailWorker env c.block.height c.state b).isOk = true then [.strike] else []
  | .call (.incrementSuccessStreak b) =>
      if b = a then
        .success :: (if c'.state.jailCount a < c.state.jailCount a then [.decay] else [])
      else []
  | _ => []

def Chain.marks (env : Env) (a : Addr) (c : Chain) : List Event → List Mark
  | [] => []
  | ev :: evs =>
      match c.exec env ev with
      | .error _ => []
      | .ok c' => c.mark env a ev c' ++ c'.marks env a evs

/-! ## what leaves the counters alone -/

/-- The counters stay, and a ban is not lifted. -/
structure Steady (w w' : Worker) : Prop where
  jailCount : w'.jailCount = w.jailCount
  successStreak : w'.successStreak = w.successStreak
  tombstoned : w.tombstoned = true → w'.tombstoned = true

theorem Steady.refl (w : Worker) : Steady w w := ⟨rfl, rfl, id⟩

theorem Steady.trans {w'' : Worker} (h : Steady w w') (h' : Steady w' w'') : Steady w w'' :=
  ⟨h'.jailCount.trans h.jailCount, h'.successStreak.trans h.successStreak,
    fun ht => h'.tombstoned (h.tombstoned ht)⟩

/-- The labels that may touch the counters of a worker. -/
def Label.counts (a : Addr) : Label → Prop
  | .register b _ _ | .jail b | .success b => b = a
  | _ => False

theorem Change.steady {height : Int} {wp : WorkerParams} {ep : EntryParams}
    {e : Option (Worker × Profile)} {p' : Profile} (h : Change height wp ep lab e (some (w', p')))
    (haddr : lab.addr = some a) (hlab : ¬ lab.counts a) : ∃ w p, e = some (w, p) ∧ Steady w w' := by
  cases h with
  | register | jail | success | streak => exact absurd (Option.some.inj haddr) hlab
  | tombstone => exact ⟨_, _, rfl, rfl, rfl, fun _ => rfl⟩
  | _ => exact ⟨_, _, rfl, rfl, rfl, id⟩

theorem Steps.steady {s s' : State} {labs : List Label} (h : Steps env block s labs s')
    (hlabs : ∀ lab ∈ labs, ¬ lab.counts a) (hfound : s.world.workers.get a = some w)
    (hfound' : s'.world.workers.get a = some w') : Steady w w' := by
  have hall : ∀ w' p', s'.entry a = some (w', p') → Steady w w' := by
    refine h.invariant (P := fun s => ∀ w' p', s.entry a = some (w', p') → Steady w w') ?_ ?_
    · intro s₁ s₂ lab hlab hP hstep w₂ p₂ hentry
      by_cases haddr : lab.addr = some a
      · have hchange := hstep.change a haddr
        rw [hentry] at hchange
        obtain ⟨w₁, p₁, hentry₁, hsteady⟩ := hchange.steady haddr (hlabs lab hlab)
        exact (hP w₁ p₁ hentry₁).trans hsteady
      · rw [hstep.others a haddr] at hentry
        exact hP w₂ p₂ hentry
    · intro w₁ p₁ hentry
      cases hfound.symm.trans (State.entry_eq_some.mp hentry).1
      exact .refl w
  exact hall w' _ (State.entry_of_get hfound')

/-- The events that may touch the counters of a worker. -/
theorem Event.stands_counts (h : ev.Stands env lab) (hlab : lab.counts a) :
    ev = .call (.jailWorker a) ∨ ev = .call (.incrementSuccessStreak a) ∨
    ∃ msg, ev = .tx (.registerWorker msg) ∧ env.accAddressFromBech32 msg.creator = some a := by
  have hcauses := h.causes
  cases lab with
  | register b msg =>
    obtain rfl : b = a := hlab
    exact .inr (.inr ⟨msg, hcauses⟩)
  | jail b =>
    obtain rfl : b = a := hlab
    exact .inl hcauses
  | success b =>
    obtain rfl : b = a := hlab
    exact .inr (.inl hcauses)
  | _ => exact hlab.elim

/-- Other events leave no mark. -/
theorem Chain.mark_eq_nil (hjail : ev ≠ .call (.jailWorker a))
    (hsuccess : ev ≠ .call (.incrementSuccessStreak a)) : c.mark env a ev c' = [] := by
  cases ev with
  | call k =>
    cases k with
    | jailWorker => exact if_neg fun h => hjail (by rw [h.1])
    | incrementSuccessStreak => exact if_neg fun h => hsuccess (by rw [h])
    | _ => rfl
  | _ => rfl

/-- Other events leave the counters. -/
theorem Chain.exec_steady (h : c.exec env ev = .ok c') (hjail : ev ≠ .call (.jailWorker a))
    (hsuccess : ev ≠ .call (.incrementSuccessStreak a))
    (hfound : c.state.world.workers.get a = some w)
    (hfound' : c'.state.world.workers.get a = some w') : Steady w w' := by
  obtain ⟨labs, hsteps, hlabs⟩ := exec_steps h
  by_cases hcounts : ∃ lab ∈ labs, lab.counts a
  · obtain ⟨lab, hmem, hlab⟩ := hcounts
    obtain hev | hev | ⟨msg, rfl, hcreator⟩ := Event.stands_counts (hlabs lab hmem) hlab
    · exact absurd hev hjail
    · exact absurd hev hsuccess
    · -- the account is registered, so its registration is refused
      cases h
      cases hr : deliver env c.block c.state (.registerWorker msg) with
      | error =>
        rw [hr] at hfound'
        cases hfound.symm.trans hfound'
        exact .refl w
      | ok s' => exact absurd hr (deliver_registered hfound hcreator s')
  · exact hsteps.steady (fun lab hmem hlab => hcounts ⟨lab, hmem, hlab⟩) hfound hfound'

/-! ## one event -/

/-- The record and the marks of a worker that is not banned tally, and it has two strikes
at most. -/
def Rhythm (n : Nat) (w : Worker) (ms : List Mark) : Prop :=
  w.tombstoned = true ∨ w.jailCount.toNat ≤ 2 ∧ Tally n w.jailCount.toNat w.successStreak.toNat ms

theorem Rhythm.steady (h : Rhythm n w ms) (hsteady : Steady w w') : Rhythm n w' ms := by
  obtain hbanned | htally := h
  · exact .inl (hsteady.tombstoned hbanned)
  · exact .inr (by rwa [hsteady.jailCount, hsteady.successStreak])

theorem toNat_succ {x : UInt32} (h : x.toNat < n) (hn : n < 2 ^ 32) :
    (x + 1).toNat = x.toNat + 1 := by
  rw [UInt32.toNat_add]
  exact Nat.mod_eq_of_lt (by simp only [UInt32.reduceToNat]; omega)

theorem Rhythm.jail (h : Rhythm n w ms) (hstanding : w.tombstoned = false)
    (htimed : ¬ 3 ≤ w.jailCount + 1) (hcount : w'.jailCount = w.jailCount + 1)
    (hstreak : w'.successStreak = 0) : Rhythm n w' (ms ++ [.strike]) := by
  obtain hbanned | ⟨hle, htally⟩ := h
  · grind
  · have hsucc := toNat_succ (x := w.jailCount) (n := 3) (by omega) (by decide)
    rw [UInt32.le_iff_toNat_le, hsucc] at htimed
    simp only [UInt32.reduceToNat] at htimed
    refine .inr ?_
    rw [hcount, hstreak, hsucc]
    exact ⟨by omega, htally.strike⟩

/-- A streak never outgrows the interval, so its counter does not wrap. -/
theorem toNat_streak (h : w.successStreak.toNat < interval.toNat ∨ w.successStreak.toNat = 0) :
    (w.successStreak + 1).toNat = w.successStreak.toNat + 1 := by
  obtain hlt | hzero := h
  · exact toNat_succ hlt interval.toNat_lt
  · exact toNat_succ (n := 1) (by omega) (by decide)

theorem Rhythm.streak (h : Rhythm interval.toNat w ms) (hshort : ¬ interval ≤ w.successStreak + 1)
    (hcount : w'.jailCount = w.jailCount) (hstreak : w'.successStreak = w.successStreak + 1)
    (hban : w'.tombstoned = w.tombstoned) : Rhythm interval.toNat w' (ms ++ [.success]) := by
  obtain hbanned | ⟨hle, htally⟩ := h
  · exact .inl (hban.trans hbanned)
  · have hsucc := toNat_streak htally.below
    rw [UInt32.le_iff_toNat_le, hsucc] at hshort
    refine .inr ?_
    rw [hcount, hstreak, hsucc]
    exact ⟨hle, htally.success (by omega)⟩

/-- A full streak takes a strike off, if there is one. -/
theorem Rhythm.success (h : Rhythm interval.toNat w ms) (hfull : interval ≤ w.successStreak + 1)
    (hcount : w'.jailCount = if 0 < w.jailCount then w.jailCount - 1 else w.jailCount)
    (hstreak : w'.successStreak = 0) (hban : w'.tombstoned = w.tombstoned) :
    Rhythm interval.toNat w'
      (ms ++ .success :: if w'.jailCount < w.jailCount then [.decay] else []) := by
  obtain hbanned | ⟨hle, htally⟩ := h
  · exact .inl (hban.trans hbanned)
  · have hsucc := toNat_streak htally.below
    rw [UInt32.le_iff_toNat_le, hsucc] at hfull
    refine .inr ?_
    rw [hstreak, hcount]
    by_cases hpos : 0 < w.jailCount
    · have hone : 1 ≤ w.jailCount.toNat := by
        simpa [UInt32.lt_iff_toNat_lt, Nat.one_le_iff_ne_zero, Nat.pos_iff_ne_zero] using hpos
      have hpred : (w.jailCount - 1).toNat = w.jailCount.toNat - 1 :=
        UInt32.toNat_sub_of_le _ _ (UInt32.le_iff_toNat_le.mpr hone)
      have hlt : w.jailCount - 1 < w.jailCount := by grind
      rw [if_pos hpos, if_pos hlt, hpred]
      have htally' : Tally interval.toNat (w.jailCount.toNat - 1 + 1) w.successStreak.toNat ms := by
        rwa [Nat.sub_add_cancel hone]
      refine ⟨by omega, ?_⟩
      have hdecayed := htally'.decay hfull
      rwa [List.append_assoc] at hdecayed
    · rw [if_neg hpos, if_neg (UInt32.lt_irrefl _)]
      exact ⟨hle, htally.full⟩

section Events
variable (hfound : c.state.world.workers.get a = some w)
  (hfound' : c'.state.world.workers.get a = some w')

include hfound hfound'

theorem Chain.exec_jail_rhythm (h : c.exec env (.call (.jailWorker a)) = .ok c')
    (hrhythm : Rhythm n w ms) : Rhythm n w' (ms ++ c.mark env a (.call (.jailWorker a)) c') := by
  cases h
  have hperform : perform env c.block c.state (.jailWorker a) =
      jailWorker env c.block.height c.state a := rfl
  simp only [hperform] at hfound'
  simp only [Chain.mark, hfound]
  cases hr : jailWorker env c.block.height c.state a with
  | error =>
    rw [hr] at hfound'
    cases hfound.symm.trans hfound'
    simpa [Except.isOk, Except.toBool] using hrhythm
  | ok s' =>
    rw [hr] at hfound'
    replace hfound' : s'.world.workers.get a = some w' := hfound'
    have hentry' := State.entry_of_get hfound'
    obtain ⟨rfl, hbanned⟩ | hstep | ⟨s₁, -, hstep⟩ := jailWorker_cases.get hr
    · grind
    · have hchange := hstep.change a rfl
      rw [State.entry_of_get hfound, hentry'] at hchange
      generalize he : (w', s'.profile a) = e' at hchange
      cases hchange with
      | jail _ standing timed =>
        obtain ⟨rfl, -⟩ := Prod.mk.inj he
        simpa [standing, Except.isOk, Except.toBool] using
          hrhythm.jail standing timed rfl rfl
    · have hchange := hstep.change a rfl
      rw [hentry'] at hchange
      generalize s₁.entry a = e at hchange
      cases hchange with
      | tombstone => exact .inl rfl

theorem Chain.exec_success_rhythm (h : c.exec env (.call (.incrementSuccessStreak a)) = .ok c')
    (hrhythm : Rhythm c.state.world.workerParams.jailDecayInterval.toNat w ms) :
    Rhythm c.state.world.workerParams.jailDecayInterval.toNat w'
    (ms ++ c.mark env a (.call (.incrementSuccessStreak a)) c') := by
  cases h
  let s' : State := { c.state with world := c.state.world.incrementSuccessStreak a }
  have hstep : Step env c.block c.state (.success a) s' := incrementSuccessStreak_step hfound
  have hchange := hstep.change a rfl
  have hentry' : s'.entry a = some (w', s'.profile a) := State.entry_of_get hfound'
  have hmark : ∀ c₁ : Chain, c₁.state.world.workers.get a = some w' →
      c.mark env a (.call (.incrementSuccessStreak a)) c₁ =
        .success :: (if w'.jailCount < w.jailCount then [.decay] else []) := by
    intro c₁ hc₁
    simp [Chain.mark, State.jailCount, hfound, hc₁]
  rw [hmark _ hfound']
  rw [State.entry_of_get hfound, hentry'] at hchange
  generalize he : (w', s'.profile a) = e' at hchange
  cases hchange with
  | success _ decayed =>
    cases he
    exact hrhythm.success decayed rfl rfl rfl
  | streak _ short =>
    cases he
    have hnext : Rhythm _ { w with successStreak := w.successStreak + 1 } (ms ++ [.success]) :=
      hrhythm.streak short rfl rfl rfl
    simpa using hnext

/-- What one event does to a worker, its marks tell. -/
theorem Chain.exec_rhythm (h : c.exec env ev = .ok c')
    (hrhythm : Rhythm c.state.world.workerParams.jailDecayInterval.toNat w ms) :
    Rhythm c.state.world.workerParams.jailDecayInterval.toNat w' (ms ++ c.mark env a ev c') := by
  by_cases hjail : ev = .call (.jailWorker a)
  · subst hjail
    exact exec_jail_rhythm hfound hfound' h hrhythm
  by_cases hsuccess : ev = .call (.incrementSuccessStreak a)
  · subst hsuccess
    exact exec_success_rhythm hfound hfound' h hrhythm
  · rw [mark_eq_nil hjail hsuccess, List.append_nil]
    exact hrhythm.steady (exec_steady h hjail hsuccess hfound hfound')

end Events

/-! ## runs -/

/-- The runs during one registration of a worker. -/
abbrev Registered (env : Env) (a : Addr) : Chain → List Event → Chain → Prop :=
  RunWith env fun c _ => c.state.world.workers.has a = true

theorem Registered.rhythm {evs : List Event} (h : Registered env a c evs c')
    (hfound : c.state.world.workers.get a = some w)
    (hfound' : c'.state.world.workers.get a = some w')
    (hrhythm : Rhythm c.state.world.workerParams.jailDecayInterval.toNat w ms) :
    Rhythm c.state.world.workerParams.jailDecayInterval.toNat w' (ms ++ c.marks env a evs) := by
  induction h generalizing w ms with
  | nil =>
    cases hfound.symm.trans hfound'
    simpa [Chain.marks] using hrhythm
  | @cons c c₁ c₂ ev evs meets step rest ih =>
    -- the worker is still there after the event: the next one needs it, or the end
    obtain ⟨w₁, hfound₁⟩ : ∃ w₁, c₁.state.world.workers.get a = some w₁ := by
      cases rest with
      | nil => exact ⟨w', hfound'⟩
      | cons meets₁ => exact Option.isSome_iff_exists.mp meets₁
    have hnext := Chain.exec_rhythm hfound hfound₁ step hrhythm
    have hparams : c₁.state.world.workerParams = c.state.world.workerParams :=
      (Chain.exec_params step).2
    rw [← hparams] at hnext
    have hend := ih hfound₁ hfound' hnext
    rw [hparams, List.append_assoc] at hend
    simpa [Chain.marks, step] using hend

/-- A new registration has no marks. -/
theorem rhythm_registered {c₀ : Chain} {msg : MsgRegisterWorker}
    (hvacant : c₀.state.world.workers.get a = none)
    (hcreator : env.accAddressFromBech32 msg.creator = some a)
    (h : c₀.exec env (.tx (.registerWorker msg)) = .ok c)
    (hfound : c.state.world.workers.get a = some w) (n : Nat) : Rhythm n w [] := by
  have hentry := State.entry_of_get hfound
  obtain hsame | ⟨lab, ⟨b, stake, hb, -, rfl⟩, hstep⟩ := Chain.exec_tx h
  · grind
  · cases hcreator.symm.trans hb
    have hchange := hstep.change a rfl
    rw [hentry] at hchange
    generalize he : (w, c.state.profile a) = e', c₀.state.entry a = e at hchange
    cases hchange with
    | register =>
      obtain ⟨rfl, -⟩ := Prod.mk.inj he
      exact .inr ⟨by simp [newWorker], by simpa [newWorker] using Tally.nil n⟩

/-- **No cheap rhythm-cheating**: in every run during one registration, a worker that is
not tombstoned in the end paid `JailDecayInterval` successes for each jailing after the
second, and the successes that paid for one decay were not interrupted by a jailing. -/
theorem no_cheap_rhythm {c₀ c₁ c : Chain} {evs : List Event} {msg : MsgRegisterWorker}
    {w : Worker} (hvacant : c₀.state.world.workers.get a = none)
    (hcreator : env.accAddressFromBech32 msg.creator = some a)
    (hregister : c₀.exec env (.tx (.registerWorker msg)) = .ok c₁)
    (hrun : Registered env a c₁ evs c) (hfound : c.state.world.workers.get a = some w)
    (hstanding : w.tombstoned = false) :
    let n := c₁.state.world.workerParams.jailDecayInterval.toNat
    let ms := c₁.marks env a evs
    (ms.count .strike - 2) * n ≤ ms.count .success ∧
      ms.count .strike ≤ 2 + ms.count .decay ∧ Uninterrupted n ms := by
  intro n ms
  obtain ⟨w₁, hfound₁⟩ : ∃ w₁, c₁.state.world.workers.get a = some w₁ := by
    cases hrun with
    | nil => exact ⟨w, hfound⟩
    | cons meets => exact Option.isSome_iff_exists.mp meets
  have hnew := rhythm_registered hvacant hcreator hregister hfound₁ n
  obtain hbanned | ⟨hle, htally⟩ := Registered.rhythm hrun hfound₁ hfound hnew
  · grind
  · have hstrikes : ms.count .strike = w.jailCount.toNat + ms.count .decay := htally.strikes
    exact ⟨htally.bound hle, by omega, htally.blocks⟩

/-- The registration of a worker. -/
def devAlice : MsgRegisterWorker := ⟨"alice@worker.example", devKey 1, [[65]], [1]⟩

/-- The chain after it. -/
def devRegistered : Chain :=
  { devChain 1 with
    state := settled (devChain 1).state
      (deliver devEnv (devChain 1).block (devChain 1).state (.registerWorker devAlice)) }

/-- Two jailings, two successes that take one of them off, and a third jailing. -/
def devRhythm : List Event :=
  let a := devAddr "alice@worker.example"
  [.call (.jailWorker a), .call (.jailWorker a), .call (.incrementSuccessStreak a),
    .call (.incrementSuccessStreak a), .call (.jailWorker a)]

/-- The worker is jailed three times and not tombstoned, thanks to the decay between. -/
theorem devRhythm_bound :
    ∃ c w, Registered devEnv (devAddr "alice@worker.example") devRegistered devRhythm c ∧
      c.state.world.workers.get (devAddr "alice@worker.example") = some w ∧ w.tombstoned = false ∧
      devRegistered.marks devEnv (devAddr "alice@worker.example") devRhythm =
        [.strike, .strike, .success, .success, .decay, .strike] ∧
      Uninterrupted 2 (devRegistered.marks devEnv (devAddr "alice@worker.example") devRhythm) := by
  refine exists_pair_and_of (by decide +kernel) fun c w hrun hfound hstanding => ?_
  have hmarks : devRegistered.marks devEnv (devAddr "alice@worker.example") devRhythm =
      [.strike, .strike, .success, .success, .decay, .strike] := by decide +kernel
  have hcreator : devEnv.accAddressFromBech32 devAlice.creator =
      some (devAddr "alice@worker.example") := by decide +kernel
  have hregister : (devChain 1).exec devEnv (.tx (.registerWorker devAlice)) =
      .ok devRegistered := rfl
  have hresult :=
    no_cheap_rhythm (devChain_workers 1 _) hcreator hregister hrun hfound hstanding
  exact ⟨hmarks, hresult.2.2⟩

end FunaiChain.Registry
