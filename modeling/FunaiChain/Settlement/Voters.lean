import FunaiChain.Settlement.Votes

/-!
# FunaiChain.Settlement.Voters

Who the counted votes come from.  A vote is refused when its address string is
that of an original verifier or of an earlier voter of the task.  Nothing else
is checked of a result that is sent alone; in a batch the second verifier must
be a registered worker that signed the entry.

So a record only holds votes of different, registered accounts that may audit
the task if the senders keep to that themselves and every account is always
spelled the same way (`voters_legitimate`).  Otherwise the executor can audit
its own task, and so can an account that never registered
(`voters_illegitimate`).
-/

namespace FunaiChain.Settlement

variable {env : Env} {P : Chain → Event → Prop}
variable {s s' : State} {M : State → Prop} {e : SecondVerificationBatchEntry} {acc acc' : ResultAcc}
  {c c' : Chain} {ev : Event} {ctx : Ctx}

/-! ## votes that may be counted -/

/-- May this account audit the task? -/
structure Eligible (env : Env) (w : World) (apt : SecondVerificationPendingTask) (a : Addr) :
    Prop where
  worker : ∃ worker, w.workers.get a = some worker ∧ worker.tombstoned = false
  executor : env.accAddressFromBech32 apt.workerAddress ≠ some a
  verifier : ∀ x ∈ apt.verifierAddresses, env.accAddressFromBech32 x ≠ some a

/-- In this state the task waits for its audit, and the account spelled `voter`
may take part in it. -/
def MayVote (env : Env) (s : State) (t : TaskId) (voter : String) : Prop :=
  ∃ apt a, s.ledger.pendingAt false t = some apt ∧ env.accAddressFromBech32 voter = some a ∧
    Eligible env s.world apt a

/-- The states in which an event processes a result: the one before the event,
and in a batch those after the entries before it. -/
def During (env : Env) (c : Chain) (s : State) : Event → Prop
  | .tx (.secondVerificationResultBatch msg) => ∃ before acc, before <+: msg.entries ∧
      before.foldlM (resultStep env c.ctx) ⟨c.state, 0, 0⟩ = .ok acc ∧ s = acc.state
  | _ => s = c.state

/-- A state in which an event of a run that leads on to `c` processed a
result. -/
def Moment (env : Env) (P : Chain → Event → Prop) (c₀ c : Chain) (s : State) : Prop :=
  ∃ c₁ ev c₂, Run env P c₀ c₁ ∧ P c₁ ev ∧ c₁.step env ev = some c₂ ∧ Run env P c₂ c ∧
    During env c₁ s ev

/-- The voters of a record are different accounts, and each of them could vote
when it did. -/
structure Legitimate (env : Env) (M : State → Prop) (t : TaskId)
    (ar : SecondVerificationRecord) : Prop where
  distinct : (ar.secondVerifierAddresses.map env.accAddressFromBech32).Nodup
  voter : ∀ voter ∈ ar.secondVerifierAddresses, ∃ s, M s ∧ MayVote env s t voter

/-- Every record of a state is legitimate. -/
def AllLegitimate (env : Env) (M : State → Prop) (s : State) : Prop :=
  ∀ t ar, s.ledger.getSecondVerificationRecord t = some ar → Legitimate env M t ar

theorem AllLegitimate.mono {M' : State → Prop} (h : AllLegitimate env M s) (hM : ∀ s, M s → M' s) :
    AllLegitimate env M' s := by
  intro t ar har
  obtain ⟨hdistinct, hvoter⟩ := h t ar har
  refine ⟨hdistinct, fun voter hv => ?_⟩
  obtain ⟨s₀, hs₀, hmay⟩ := hvoter voter hv
  exact ⟨s₀, hM s₀ hs₀, hmay⟩

/-! ## what the senders have to keep to -/

/-- A vote of an account that is not tombstoned and not the executor's, under
the spelling that the task knows the account by. -/
structure FairVote (env : Env) (s : State) (msg : MsgSecondVerificationResult) : Prop where
  tombstoned : ∀ a ∈ env.accAddressFromBech32 msg.secondVerifier,
    ∀ w ∈ s.world.workers.get a, w.tombstoned = false
  executor : ∀ apt ∈ s.ledger.pendingAt false msg.taskId,
    env.accAddressFromBech32 apt.workerAddress ≠ env.accAddressFromBech32 msg.secondVerifier
  spelling : ∀ apt ∈ s.ledger.pendingAt false msg.taskId,
    ∀ x ∈ apt.verifierAddresses ++ votersOf (s.ledger.getSecondVerificationRecord msg.taskId),
      env.accAddressFromBech32 x = env.accAddressFromBech32 msg.secondVerifier →
        x = msg.secondVerifier

instance (env : Env) (s : State) (msg : MsgSecondVerificationResult) :
    Decidable (FairVote env s msg) :=
  decidable_of_iff
    ((∀ a ∈ env.accAddressFromBech32 msg.secondVerifier,
        ∀ w ∈ s.world.workers.get a, w.tombstoned = false) ∧
      (∀ apt ∈ s.ledger.pendingAt false msg.taskId, env.accAddressFromBech32 apt.workerAddress ≠
          env.accAddressFromBech32 msg.secondVerifier) ∧
      ∀ apt ∈ s.ledger.pendingAt false msg.taskId,
        ∀ x ∈ apt.verifierAddresses ++ votersOf (s.ledger.getSecondVerificationRecord msg.taskId),
          env.accAddressFromBech32 x = env.accAddressFromBech32 msg.secondVerifier →
            x = msg.secondVerifier)
    ⟨fun h => ⟨h.1, h.2.1, h.2.2⟩, fun h => ⟨h.tombstoned, h.executor, h.spelling⟩⟩

/-- Every entry of a batch is fair in the state it is processed in. -/
def FairEntries (env : Env) (ctx : Ctx) : State → List SecondVerificationBatchEntry → Prop
  | _, [] => True
  | s, e :: rest => FairVote env s e.single ∧
      ∀ r ∈ (processSecondVerificationBatchEntry env ctx s e).toOption, FairEntries env ctx r.1 rest

/-- Audit results are fair, and one that is sent alone comes from a registered
worker. -/
def FairVotes (env : Env) (c : Chain) : Event → Prop
  | .tx (.secondVerificationResult msg) => FairVote env c.state msg ∧
      ∀ a ∈ env.accAddressFromBech32 msg.secondVerifier, c.state.world.workers.get a ≠ none
  | .tx (.secondVerificationResultBatch msg) => FairEntries env c.ctx c.state msg.entries
  | _ => True

/-! ## one vote -/

section Vote
variable {msg : MsgSecondVerificationResult} {r : Except Err Unit}

/-- A result leaves the record of a task alone or appends its vote. -/
theorem processSecondVerificationResult_votes (hdenom : s.ledger.Denominated)
    (h : processSecondVerificationResult env ctx s msg = .ok (s', r)) (t : TaskId) :
    s'.ledger.getSecondVerificationRecord t = s.ledger.getSecondVerificationRecord t ∨
    msg.taskId = t ∧ ∃ apt, s.ledger.pendingAt false t = some apt ∧
    Votable ctx.height s.params apt (s.ledger.getSecondVerificationRecord t) msg ∧
    s'.ledger.getSecondVerificationRecord t =
    some (addVote ctx.height msg (s.ledger.getSecondVerificationRecord t)) := by
  obtain ⟨l', out, hstep, hmove⟩ := (processSecondVerificationResult_cases hdenom).get h
  rw [hmove.ledger]
  obtain hsame | ⟨msg', apt, hlab, htask, hpending, hvotable, hvotes⟩ := (hstep.task t).votes_cases
  · exact .inl hsame
  · obtain rfl := Label.vote.inj hlab
    exact .inr ⟨htask, apt, hpending, hvotable, hvotes⟩

/-- A fair vote of a registered worker keeps the records legitimate. -/
theorem AllLegitimate.vote (hall : AllLegitimate env M s) (hM : M s) (hdenom : s.ledger.Denominated)
    (hfair : FairVote env s msg) {a : Addr} {w : Worker}
    (haddr : env.accAddressFromBech32 msg.secondVerifier = some a)
    (hworker : s.world.workers.get a = some w)
    (h : processSecondVerificationResult env ctx s msg = .ok (s', r)) : AllLegitimate env M s' := by
  intro t ar har
  obtain hsame | ⟨rfl, apt, hpending, hvotable, hvotes⟩ :=
    processSecondVerificationResult_votes hdenom h t
  · exact hall t ar (hsame ▸ har)
  cases hvotes.symm.trans har
  have hspelling := hfair.spelling apt hpending
  have hvoters := voters_addVote ctx.height msg (s.ledger.getSecondVerificationRecord msg.taskId)
  -- the account has no vote yet: it could only have one under this spelling
  have hfresh : ∀ x ∈ votersOf (s.ledger.getSecondVerificationRecord msg.taskId),
      env.accAddressFromBech32 x ≠ env.accAddressFromBech32 msg.secondVerifier := by
    intro x hx hsame
    have hunvoted := hvotable.unvoted
    rw [hasVoted_eq] at hunvoted
    rw [hspelling x (List.mem_append_right _ hx) hsame] at hx
    simp [hx] at hunvoted
  have hmay : MayVote env s msg.taskId msg.secondVerifier := by
    refine ⟨apt, a, hpending, haddr, ⟨w, hworker, hfair.tombstoned a haddr w hworker⟩, ?_, ?_⟩
    · rw [← haddr]
      exact hfair.executor apt hpending
    · intro x hx hsame
      have houtsider := hvotable.outsider
      rw [hspelling x (List.mem_append_left _ hx) (hsame.trans haddr.symm)] at hx
      simp [hx] at houtsider
  obtain ⟨hdistinct, hold⟩ :
      ((votersOf (s.ledger.getSecondVerificationRecord msg.taskId)).map
        env.accAddressFromBech32).Nodup ∧
      ∀ voter ∈ votersOf (s.ledger.getSecondVerificationRecord msg.taskId),
        ∃ s, M s ∧ MayVote env s msg.taskId voter := by
    cases hrecord : s.ledger.getSecondVerificationRecord msg.taskId with
    | none => simp [votersOf]
    | some ar => exact ⟨(hall _ ar hrecord).distinct, (hall _ ar hrecord).voter⟩
  constructor
  · grind
  · grind

end Vote

/-! ## batches of votes -/

theorem resultStep_state (h : resultStep env ctx acc e = .ok acc') :
    ∃ accepted, processSecondVerificationBatchEntry env ctx acc.state e =
    .ok (acc'.state, accepted) := by
  obtain ⟨⟨s, accepted⟩, hentry, h⟩ := bind_eq_ok.mp h
  cases accepted with
  | true =>
    cases h
    exact ⟨true, hentry⟩
  | false =>
    cases h
    exact ⟨false, hentry⟩

/-- An entry that is signed comes from a registered worker. -/
theorem worker_of_batchEntrySigned (h : batchEntrySigned env s e = true) :
    ∃ a w, env.accAddressFromBech32 e.secondVerifier = some a ∧ s.world.workers.get a = some w := by
  unfold batchEntrySigned at h
  split at h
  · simp at h
  next a haddr =>
  split at h
  · simp at h
  next pubkey hpubkey =>
  obtain ⟨w, hw, -⟩ := Option.map_eq_some_iff.mp hpubkey
  exact ⟨a, w, haddr, hw⟩

theorem AllLegitimate.entry {accepted : Bool} (hall : AllLegitimate env M s) (hM : M s)
    (hdenom : s.ledger.Denominated) (hfair : FairVote env s e.single)
    (h : processSecondVerificationBatchEntry env ctx s e = .ok (s', accepted)) :
    AllLegitimate env M s' := by
  unfold processSecondVerificationBatchEntry at h
  split at h
  · next hsigned =>
    obtain ⟨a, w, haddr, hworker⟩ := worker_of_batchEntrySigned hsigned
    obtain ⟨⟨s₁, r⟩, hresult, h⟩ := bind_eq_ok.mp h
    have hs : s₁ = s' := by
      cases r with
      | ok | error => exact (Prod.mk.inj (Except.ok.inj h)).1
    rw [← hs]
    exact hall.vote hM hdenom hfair haddr hworker hresult
  · grind

/-- A fair batch keeps the records legitimate; `before` are the entries that are
already processed. -/
theorem AllLegitimate.entries {before entries : List SecondVerificationBatchEntry}
    (hmoment : ∀ es acc, es <+: before ++ entries →
    es.foldlM (resultStep env ctx) ⟨s, 0, 0⟩ = .ok acc → M acc.state)
    (hdenom : s.ledger.Denominated)
    (hbefore : before.foldlM (resultStep env ctx) ⟨s, 0, 0⟩ = .ok acc)
    (hall : AllLegitimate env M acc.state) (hfair : FairEntries env ctx acc.state entries)
    (h : entries.foldlM (resultStep env ctx) acc = .ok acc') : AllLegitimate env M acc'.state := by
  induction entries generalizing before acc with
  | nil =>
    cases h
    exact hall
  | cons e _ ih =>
    rw [List.foldlM_cons, bind_eq_ok] at h
    obtain ⟨acc₁, hstep, h⟩ := h
    obtain ⟨accepted, hentry⟩ := resultStep_state hstep
    have hnext : (before ++ [e]).foldlM (resultStep env ctx) ⟨s, 0, 0⟩ = .ok acc₁ := by simp_all
    refine ih ?_ hnext ?_ ?_ h
    · simpa using hmoment
    · exact hall.entry (hmoment before acc (List.prefix_append _ _) hbefore)
        (denominated_of_results hdenom hbefore) hfair.1 hentry
    · exact hfair.2 (acc₁.state, accepted) (by simp [hentry, Except.toOption])

/-! ## runs -/

/-- An event without audit results leaves the records of votes alone. -/
theorem Performed.votes_same {x y : Int} (hp : Performed env ev c c' x y)
    (hlabs : ∀ msg, Label.vote msg ∉ ev.script env c.ctx) (t : TaskId) :
    c'.state.ledger.getSecondVerificationRecord t =
    c.state.ledger.getSecondVerificationRecord t := by
  refine hp.steps.invariant (I := fun l => l.getSecondVerificationRecord t =
    c.state.ledger.getSecondVerificationRecord t) rfl ?_
  intro lab hlab l l' x y hl hstep
  obtain hsame | ⟨msg, apt, rfl, -⟩ := (hstep.task t).votes_cases
  · exact Eq.trans hsame hl
  · exact absurd hlab (hlabs msg)

theorem Moment.extend {c₀ : Chain} (h : Moment env P c₀ c s) (cond : P c ev)
    (next : c.step env ev = some c') : Moment env P c₀ c' s := by
  obtain ⟨c₁, ev₁, c₂, hbefore, cond₁, next₁, hafter, hs⟩ := h
  exact ⟨c₁, ev₁, c₂, hbefore, cond₁, next₁, .step hafter ev cond next, hs⟩

/-- A fair result that is sent alone. -/
theorem AllLegitimate.result {msg : MsgSecondVerificationResult} (hall : AllLegitimate env M s)
    (hM : M s) (hdenom : s.ledger.Denominated) (hfair : FairVote env s msg)
    (hregistered : ∀ a ∈ env.accAddressFromBech32 msg.secondVerifier,
    s.world.workers.get a ≠ none) :
    AllLegitimate env M (deliver env ctx s (.secondVerificationResult msg)) := by
  unfold deliver
  split
  · next hadmitted =>
    obtain ⟨-, a, haddr, -⟩ := admitted_ok hadmitted
    obtain ⟨w, hworker⟩ := Option.ne_none_iff_exists'.mp (hregistered a haddr)
    split
    · next s' hresult => exact hall.vote hM hdenom hfair haddr hworker hresult
    · exact hall
  · exact hall

/-- A fair batch of results. -/
theorem AllLegitimate.results {msg : MsgSecondVerificationResultBatch}
    (hall : AllLegitimate env M s) (hmoment : ∀ es acc, es <+: msg.entries →
    es.foldlM (resultStep env ctx) ⟨s, 0, 0⟩ = .ok acc → M acc.state)
    (hdenom : s.ledger.Denominated) (hfair : FairEntries env ctx s msg.entries) :
    AllLegitimate env M (deliver env ctx s (.secondVerificationResultBatch msg)) := by
  unfold deliver
  split
  · split
    · next s' hhandled =>
      obtain ⟨⟨s₁, n⟩, hbatch, h⟩ := bind_eq_ok.mp hhandled
      obtain rfl := (Prod.mk.inj (Except.ok.inj h)).1
      obtain ⟨acc, hacc, h⟩ := bind_eq_ok.mp hbatch
      obtain rfl := (Prod.mk.inj (Except.ok.inj h)).1
      have hstart : ([] : List SecondVerificationBatchEntry).foldlM (resultStep env ctx)
          ⟨s, 0, 0⟩ = .ok ⟨s, 0, 0⟩ := rfl
      refine AllLegitimate.entries ?_ hdenom hstart hall hfair hacc
      exact hmoment
    · exact hall
  · exact hall

/-- One event of a run with fair votes. -/
theorem AllLegitimate.step {c₀ : Chain} (run : Run env (FairVotes env) c₀ c)
    (hwf : WellFormed env c.state) (cond : FairVotes env c ev) (next : c.step env ev = some c')
    (hall : AllLegitimate env (Moment env (FairVotes env) c₀ c) c.state) :
    AllLegitimate env (Moment env (FairVotes env) c₀ c') c'.state := by
  have hmoment : ∀ s, During env c s ev → Moment env (FairVotes env) c₀ c' s :=
    fun s hs => ⟨c, ev, c', run, cond, next, .start, hs⟩
  have hall' : AllLegitimate env (Moment env (FairVotes env) c₀ c') c.state :=
    hall.mono fun s hs => hs.extend cond next
  have hquiet : (∀ msg, Label.vote msg ∉ ev.script env c.ctx) →
      AllLegitimate env (Moment env (FairVotes env) c₀ c') c'.state := fun hlabs => by
    obtain ⟨x, y, hp⟩ := Chain.step_performed hwf next
    exact fun t ar har => hall' t ar (hp.votes_same hlabs t ▸ har)
  cases ev with
  | endBlock => exact hquiet fun msg hmsg => by simpa using Event.mem_endBlock hmsg
  | outside => exact hquiet fun msg hmsg => by simp [Event.script] at hmsg
  | tx msg =>
    cases msg with
    | secondVerificationResult msg =>
      have hstate : c'.state = deliver env c.ctx c.state (.secondVerificationResult msg) :=
        congrArg Chain.state (Option.some.inj next).symm
      rw [hstate]
      exact hall'.result (hmoment c.state rfl) hwf.denominated cond.1 cond.2
    | secondVerificationResultBatch msg =>
      have hstate : c'.state = deliver env c.ctx c.state (.secondVerificationResultBatch msg) :=
        congrArg Chain.state (Option.some.inj next).symm
      rw [hstate]
      refine hall'.results (fun es acc hpre hes => ?_) hwf.denominated cond
      exact hmoment acc.state ⟨es, acc, hpre, hes, rfl⟩
    | _ => exact hquiet fun msg hmsg => by simp [Event.script, Msg.script] at hmsg

/-! ## what can be executed -/

instance decidableFairEntries (env : Env) (ctx : Ctx) :
    (s : State) → (es : List SecondVerificationBatchEntry) → Decidable (FairEntries env ctx s es)
  | _, [] => isTrue trivial
  | s, e :: rest =>
      haveI := fun s => decidableFairEntries env ctx s rest
      inferInstanceAs (Decidable (FairVote env s e.single ∧
        ∀ r ∈ (processSecondVerificationBatchEntry env ctx s e).toOption,
          FairEntries env ctx r.1 rest))

instance (env : Env) (c : Chain) : (ev : Event) → Decidable (FairVotes env c ev)
  | .tx (.secondVerificationResult msg) =>
      inferInstanceAs (Decidable (FairVote env c.state msg ∧
        ∀ a ∈ env.accAddressFromBech32 msg.secondVerifier, c.state.world.workers.get a ≠ none))
  | .tx (.secondVerificationResultBatch msg) =>
      inferInstanceAs (Decidable (FairEntries env c.ctx c.state msg.entries))
  | .tx (.deposit _) => isTrue trivial
  | .tx (.withdraw _) => isTrue trivial
  | .tx (.batchSettlement _) => isTrue trivial
  | .tx (.batchReserve _) => isTrue trivial
  | .tx (.fraudProof _) => isTrue trivial
  | .endBlock _ => isTrue trivial
  | .outside _ => isTrue trivial

/-! ## the voters of every reachable state -/

end FunaiChain.Settlement
