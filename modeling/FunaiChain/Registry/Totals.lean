import FunaiChain.Registry.Refinement

/-!
# FunaiChain.Registry.Totals

The totals of a worker: the tasks that settlement credited to it, and the fees.

Only `UpdateWorkerStats` adds to them, and only a registration sets them, to zero;
whatever else happens to a worker leaves them alone (`Chain.exec_totals`).
-/

namespace FunaiChain.Registry

variable {env : Env} {block : Vrf.Block}
variable {w' : Worker} {s s' : State} {a b : Addr} {lab : Label} {c c' : Chain} {height : Int}
  {msg : Msg} {ev : Event} {fee : Coin}

/-- The worker that an event credits a task to, with the fee: the worker must be found,
and it must be possible to add up its fees. -/
def Chain.credit (c : Chain) : Event → Option (Addr × Int)
  | .call (.updateWorkerStats a fee) =>
      if c.state.world.workers.has a = true ∧
          (c.state.world.updateWorkerStats c.block.height a fee).isOk = true then
        some (a, fee.amount)
      else none
  | _ => none

/-- The fees that an event credits to a worker, at most one. -/
def Chain.credits (c : Chain) (ev : Event) (a : Addr) : List Int :=
  match c.credit ev with
  | some (b, fee) => if b = a then [fee] else []
  | none => []

theorem Chain.credits_cases (c : Chain) (ev : Event) (a : Addr) : c.credits ev a = [] ∨
    ∃ fee, ev = .call (.updateWorkerStats a fee) ∧ c.credits ev a = [fee.amount] := by
  unfold Chain.credits Chain.credit
  grind

/-- Every worker that is there was there before, with these totals. -/
def State.KeepsTotals (s s' : State) : Prop :=
  ∀ a w', s'.world.workers.get a = some w' → ∃ w, s.world.workers.get a = some w ∧
    w'.totalTasks = w.totalTasks ∧ w'.totalFeeEarned = w.totalFeeEarned

namespace State.KeepsTotals

variable {s'' : State}

theorem refl (s : State) : s.KeepsTotals s := fun _ w hw => ⟨w, hw, rfl, rfl⟩

theorem trans (h : s.KeepsTotals s') (h' : s'.KeepsTotals s'') : s.KeepsTotals s'' := by
  intro a w'' hw''
  obtain ⟨w', hw', htasks', hfee'⟩ := h' a w'' hw''
  obtain ⟨w, hw, htasks, hfee⟩ := h a w' hw'
  exact ⟨w, hw, htasks'.trans htasks, hfee'.trans hfee⟩

/-- A record is written over another one with the same totals. -/
theorem setWorker {w : Worker} (hfound : s.world.workers.get w'.address = some w)
    (htasks : w'.totalTasks = w.totalTasks) (hfee : w'.totalFeeEarned = w.totalFeeEarned) :
    s.KeepsTotals (s.setWorker w') := by
  intro a w'' hw''
  rw [State.get_setWorker] at hw''
  split at hw''
  · grind
  · exact ⟨w'', hw'', rfl, rfl⟩

/-- A record is changed, its totals are not. -/
theorem updateWorker {f : Worker → Worker} {hf : ∀ w, (f w).address = w.address}
    (htasks : ∀ w, (f w).totalTasks = w.totalTasks)
    (hfee : ∀ w, (f w).totalFeeEarned = w.totalFeeEarned) :
    s.KeepsTotals { s with world := s.world.updateWorker a f hf } := by
  cases hfound : s.world.workers.get a with
  | none =>
    rw [World.updateWorker_of_none hfound]
    exact refl s
  | some w =>
    rw [World.updateWorker_of_get hfound]
    have haddress : (f w).address = a := (hf w).trans (World.address_of_get hfound)
    exact setWorker (by rwa [haddress]) (htasks w) (hfee w)

end State.KeepsTotals

/-! ## steps -/

/-- The labels of steps that cannot change totals. -/
def Label.quiet : Label → Prop
  | .register _ _ _ | .note _ => False
  | _ => True

theorem Change.totals {wp : WorkerParams} {ep : EntryParams} {e : Option (Worker × Profile)}
    {p' : Profile} (h : Change height wp ep lab e (some (w', p'))) (hlab : lab.quiet) :
    ∃ w p, e = some (w, p) ∧ w'.totalTasks = w.totalTasks ∧
    w'.totalFeeEarned = w.totalFeeEarned := by
  cases h with
  | register | note => contradiction
  | exit | update | stake | unjail | jail | tombstone | slash | success | streak =>
    exact ⟨_, _, rfl, rfl, rfl⟩

theorem Step.keepsTotals (h : Step env block s lab s') (hlab : lab.quiet) : s.KeepsTotals s' := by
  intro a w' hw'
  have hentry' := State.entry_of_get hw'
  by_cases ha : lab.addr = some a
  · have hchange := h.change a ha
    rw [hentry'] at hchange
    obtain ⟨w, p, hentry, htotals⟩ := hchange.totals hlab
    exact ⟨w, (State.entry_eq_some.mp hentry).1, htotals⟩
  · rw [h.others a ha] at hentry'
    exact ⟨w', (State.entry_eq_some.mp hentry').1, rfl, rfl⟩

theorem Steps.keepsTotals {labs : List Label} (h : Steps env block s labs s')
    (hlabs : ∀ lab ∈ labs, lab.quiet) : s.KeepsTotals s' :=
  h.invariant (P := fun s' => s.KeepsTotals s')
    (fun _ _ lab hlab hP hstep => hP.trans (hstep.keepsTotals (hlabs lab hlab))) (.refl s)

/-! ## events -/

/-- Of the messages only a registration is not quiet. -/
theorem Msg.stands_quiet (h : msg.Stands env lab) :
    lab.quiet ∨ ∃ m a stake, msg = .registerWorker m ∧ lab = .register a m stake ∧
    env.accAddressFromBech32 m.creator = some a := by
  cases msg with
  | registerWorker m =>
    obtain ⟨a, stake, hcreator, -, rfl⟩ := h
    exact .inr ⟨m, a, stake, rfl, rfl, hcreator⟩
  | exitWorker | updateModels | addStake | unjail | declareInstalled =>
    obtain ⟨a, -, rfl⟩ := h
    exact .inl trivial
  | proposeModel | updateModelStats | submitVRFProof | leaderHeartbeat =>
    obtain rfl := h
    exact .inl trivial

theorem deliver_totals (h : deliver env block s msg = .ok s')
    (hw' : s'.world.workers.get a = some w') :
    (∃ w, s.world.workers.get a = some w ∧ w'.totalTasks = w.totalTasks ∧
    w'.totalFeeEarned = w.totalFeeEarned) ∨
    s.world.workers.get a = none ∧ w'.totalTasks = 0 ∧ w'.totalFeeEarned.amount = 0 ∧
    env.signs a = true ∧ ∃ m, msg = .registerWorker m ∧
    env.accAddressFromBech32 m.creator = some a := by
  obtain rfl | ⟨lab, hlab, hstep⟩ := deliver_step.get h
  · exact .inl ⟨w', hw', rfl, rfl⟩
  obtain hquiet | ⟨m, b, stake, rfl, rfl, hcreator⟩ := Msg.stands_quiet hlab
  · exact .inl (hstep.keepsTotals hquiet a w' hw')
  by_cases hb : b = a
  · subst hb
    have hchange := hstep.change b rfl
    rw [State.entry_of_get hw'] at hchange
    generalize hentry : s.entry b = e, s'.profile b = p' at hchange
    cases hchange with
    | register =>
      exact .inr ⟨State.entry_eq_none.mp hentry, rfl, rfl, hstep.signed b rfl, m, rfl, hcreator⟩
  · have hentry := hstep.others a (by simpa [Label.addr] using hb)
    rw [State.entry_of_get hw'] at hentry
    exact .inl ⟨w', (State.entry_eq_some.mp hentry.symm).1, rfl, rfl⟩

/-- The calls that cannot change totals. -/
theorem perform_keepsTotals {call : Call} (h : perform env block s call = .ok s')
    (hcall : ∀ a fee, call ≠ .updateWorkerStats a fee) : s.KeepsTotals s' := by
  have hquiet : (∀ lab, call.Stands lab → lab.quiet) → s.KeepsTotals s' := by
    intro hstands
    obtain ⟨labs, hsteps, hlabs⟩ := perform_steps.get h
    exact hsteps.keepsTotals fun lab hlab => hstands lab (hlabs lab hlab)
  cases call with
  | updateWorkerStats a fee => exact absurd rfl (hcall a fee)
  | reputationOnAccept =>
    cases h
    exact .updateWorker (fun _ => rfl) fun _ => rfl
  | updateAvgLatency =>
    cases h
    unfold World.updateAvgLatency
    split
    · exact .refl s
    · exact .updateWorker (fun _ => rfl) fun _ => rfl
  | jailWorker =>
    refine hquiet fun lab hlab => ?_
    obtain rfl | ⟨percent, c, rfl⟩ | rfl := hlab <;> trivial
  | slashWorker | slashWorkerTo =>
    refine hquiet fun lab hlab => ?_
    obtain ⟨c, rfl⟩ := hlab
    trivial
  | fraudProof =>
    refine hquiet fun lab hlab => ?_
    obtain ⟨_, _, -, rfl⟩ | ⟨c, rfl⟩ | rfl := hlab <;> trivial
  | tombstoneWorker | incrementSuccessStreak | recordModelTask =>
    refine hquiet fun lab hlab => ?_
    obtain rfl := hlab
    trivial

theorem endBlock_keepsTotals : OnValue (fun r => s.KeepsTotals r.1) (endBlock env block s) := by
  refine processExitingWorkers_steps.bind fun s₁ ⟨labs, hsteps, hlabs⟩ => ?_
  have hremoved : s.KeepsTotals s₁ := hsteps.keepsTotals fun lab hlab => by
    obtain ⟨a, c, rfl⟩ := hlabs lab hlab
    trivial
  refine .either (.ok hremoved) <| rotateValidators_vrf.mono ?_
  rintro ⟨s', updates⟩ ⟨v, rfl⟩
  exact hremoved.trans (.refl s₁)

/-- The hourly decay writes scores. -/
theorem beginBlock_keepsTotals : OnValue s.KeepsTotals (beginBlock env block s) :=
  beginBlock_rule .refl (fun _ _ _ => .trans) (fun s _ => .refl s)
    fun _ _ hfound => .setWorker hfound rfl rfl

/-- A worker whose record is as it was, in an event that credits it nothing. -/
theorem totals_of_keeps (h : c.state.KeepsTotals c'.state) (hnone : c.credits ev a = [])
    (hw' : c'.state.world.workers.get a = some w') : ∃ w, c.state.world.workers.get a = some w ∧
    w'.totalTasks = w.totalTasks + UInt64.ofNat (c.credits ev a).length ∧
    w'.totalFeeEarned.amount = w.totalFeeEarned.amount + (c.credits ev a).sum := by
  obtain ⟨w, hw, htasks, hfee⟩ := h a w' hw'
  refine ⟨w, hw, ?_, ?_⟩
  · simp_all
  · grind

/-- What `UpdateWorkerStats` writes. -/
theorem get_updateWorkerStats {world world' : World}
    (h : world.updateWorkerStats height b fee = .ok world') (hw' : world'.workers.get a = some w') :
    ∃ w, world.workers.get a = some w ∧
      if b = a then
        w'.totalTasks = w.totalTasks + 1 ∧
          w'.totalFeeEarned.amount = w.totalFeeEarned.amount + fee.amount
      else w' = w := by
  unfold World.updateWorkerStats at h
  cases hfound : world.workers.get b with
  | none => grind
  | some worker =>
    simp only [hfound] at h
    obtain ⟨total, htotal, h⟩ := bind_eq_ok.mp h
    cases h
    obtain ⟨-, -, rfl⟩ := Coin.add_eq_ok.mp htotal
    rw [World.get_setWorker] at hw'
    have haddress : worker.address = b := World.address_of_get hfound
    grind

/-- `UpdateWorkerStats` adds one task and its fee to the worker it is about. -/
theorem updateWorkerStats_totals (h : c.exec env (.call (.updateWorkerStats b fee)) = .ok c')
    (hw' : c'.state.world.workers.get a = some w') : ∃ w, c.state.world.workers.get a = some w ∧
    w'.totalTasks = w.totalTasks +
    UInt64.ofNat (c.credits (.call (.updateWorkerStats b fee)) a).length ∧
    w'.totalFeeEarned.amount = w.totalFeeEarned.amount +
    (c.credits (.call (.updateWorkerStats b fee)) a).sum := by
  cases h
  cases hr : c.state.world.updateWorkerStats c.block.height b fee with
  | error =>
    have hsame : settled c.state (perform env c.block c.state (.updateWorkerStats b fee)) =
        c.state := by
      simp [perform, hr, settled, Except.toOption]
    refine totals_of_keeps ?_
      (by simp [Chain.credits, Chain.credit, hr, Except.isOk, Except.toBool]) hw'
    rw [hsame]
    exact .refl c.state
  | ok world =>
    have hnew : settled c.state (perform env c.block c.state (.updateWorkerStats b fee)) =
        { c.state with world := world } := by
      simp [perform, hr, settled, Except.toOption]
    rw [hnew] at hw'
    obtain ⟨w, hw, htotals⟩ := get_updateWorkerStats hr hw'
    have hhas : c.state.world.workers.has a = true := by rw [Table.has, hw]; rfl
    refine ⟨w, hw, ?_⟩
    by_cases hb : b = a
    · subst hb
      simpa [Chain.credits, Chain.credit, hhas, hr, Except.isOk, Except.toBool] using htotals
    · rw [if_neg hb] at htotals
      obtain hnone | ⟨_, hev, -⟩ := c.credits_cases (.call (.updateWorkerStats b fee)) a
      · simp [hnone, htotals]
      · grind

/-- **The totals of a worker after an event**: those before with what the event credits,
or zero where the worker has just registered. -/
theorem Chain.exec_totals (h : c.exec env ev = .ok c')
    (hw' : c'.state.world.workers.get a = some w') : (∃ w, c.state.world.workers.get a = some w ∧
    w'.totalTasks = w.totalTasks + UInt64.ofNat (c.credits ev a).length ∧
    w'.totalFeeEarned.amount = w.totalFeeEarned.amount + (c.credits ev a).sum) ∨
    c.state.world.workers.get a = none ∧ w'.totalTasks = 0 ∧ w'.totalFeeEarned.amount = 0 ∧
    env.signs a = true ∧ ∃ m, ev = .tx (.registerWorker m) ∧
    env.accAddressFromBech32 m.creator = some a := by
  cases ev with
  | tx msg =>
    cases h
    cases hr : deliver env c.block c.state msg with
    | error =>
      rw [hr] at hw'
      exact .inl ⟨w', hw', (UInt64.add_zero _).symm, (Int.add_zero _).symm⟩
    | ok =>
      rw [hr] at hw'
      obtain ⟨w, hw, htasks, hfee⟩ | ⟨hnone, htasks, hfee, hsigns, m, rfl, hcreator⟩ :=
        deliver_totals hr hw'
      · exact .inl ⟨w, hw, by rw [htasks]; exact (UInt64.add_zero _).symm,
          by rw [hfee]; exact (Int.add_zero _).symm⟩
      · exact .inr ⟨hnone, htasks, hfee, hsigns, m, rfl, hcreator⟩
  | call call =>
    cases h
    by_cases hcall : ∃ b fee, call = .updateWorkerStats b fee
    · obtain ⟨b, fee, rfl⟩ := hcall
      exact .inl (updateWorkerStats_totals rfl hw')
    · have hnone : c.credits (.call call) a = [] :=
        (c.credits_cases _ a).resolve_right fun ⟨_, hev, _⟩ => hcall ⟨_, _, Event.call.inj hev⟩
      refine .inl (totals_of_keeps ?_ hnone hw')
      cases hr : perform env c.block c.state call with
      | error => exact .refl c.state
      | ok => exact perform_keepsTotals hr fun b fee he => hcall ⟨b, fee, he⟩
  | transfer =>
    cases h
    exact .inl (totals_of_keeps (.refl c.state) rfl hw')
  | nextBlock =>
    obtain ⟨s₁, updates, _, hend, hnext, -⟩ := exec_nextBlock h
    have hkeeps := (endBlock_keepsTotals.get hend).trans (beginBlock_keepsTotals.get hnext)
    exact .inl (totals_of_keeps hkeeps rfl hw')

end FunaiChain.Registry
