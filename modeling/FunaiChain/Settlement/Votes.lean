import FunaiChain.Settlement.Devnet

/-!
# FunaiChain.Settlement.Votes

The record of audit votes of a task.  A vote is only counted while fewer than
`SecondVerifierCount` are in and its second verifier is not among them, and it is
appended; nothing else writes the record.  So a record never loses a vote and never
grows beyond the count (`SecondVerificationRecord.Tallied`,
`SecondVerificationRecord.Extends`), and a task is judged at most once
(`vote_record_integrity`).

The judgment finds its task with `GetSecondVerificationPending`, which only reads
the store of the second tier, and a task in the third tier has complete votes.  So
no audit result ever reaches the third-verification branch of
`processAuditJudgment` (`third_verification_never`).
-/

namespace FunaiChain.Settlement

variable {env : Env} {height : Int} {params : Params} {fees : Int → Int} {account : Addr → Bool}
  {t : TaskId} {v v' : TaskView} {apt : SecondVerificationPendingTask} {c' : Chain}

section
variable {ctx : Ctx} {s s' : State} {msg : MsgSecondVerificationResult}
  {ar : SecondVerificationRecord} {l : Ledger} {ev : Event} {x y : Int}

/-! ## records of votes -/

namespace SecondVerificationRecord

/-- The lists of a record are in step, its voters are different, and there are
at most as many as the parameters ask for. -/
structure Tallied (params : Params) (ar : SecondVerificationRecord) : Prop where
  results : ar.results.length = ar.secondVerifierAddresses.length
  inputTokens : ar.secondVerifierInputTokens.length = ar.secondVerifierAddresses.length
  outputTokens : ar.secondVerifierOutputTokens.length = ar.secondVerifierAddresses.length
  distinct : ar.secondVerifierAddresses.Nodup
  bounded : ar.secondVerifierAddresses.length ≤ params.secondVerifierCount.toNat

/-- Every vote of `ar` is still there in `ar'`, at its place. -/
structure Extends (ar ar' : SecondVerificationRecord) : Prop where
  voters : ar.secondVerifierAddresses <+: ar'.secondVerifierAddresses
  results : ar.results <+: ar'.results
  inputTokens : ar.secondVerifierInputTokens <+: ar'.secondVerifierInputTokens
  outputTokens : ar.secondVerifierOutputTokens <+: ar'.secondVerifierOutputTokens

theorem Extends.refl (ar : SecondVerificationRecord) : Extends ar ar :=
  ⟨List.prefix_rfl, List.prefix_rfl, List.prefix_rfl, List.prefix_rfl⟩

theorem Extends.trans {ar' ar'' : SecondVerificationRecord} (h : Extends ar ar')
    (h' : Extends ar' ar'') : Extends ar ar'' :=
  ⟨h.voters.trans h'.voters, h.results.trans h'.results, h.inputTokens.trans h'.inputTokens,
    h.outputTokens.trans h'.outputTokens⟩

end SecondVerificationRecord

theorem extends_addVote (height : Int) (msg : MsgSecondVerificationResult)
    (ar : SecondVerificationRecord) : ar.Extends (addVote height msg (some ar)) :=
  ⟨List.prefix_append .., List.prefix_append .., List.prefix_append .., List.prefix_append ..⟩

/-- The voters of a record, none if there is no record. -/
def votersOf (ar : Option SecondVerificationRecord) : List String :=
  ar.elim [] (·.secondVerifierAddresses)

theorem voters_addVote (height : Int) (msg : MsgSecondVerificationResult)
    (ar : Option SecondVerificationRecord) :
    (addVote height msg ar).secondVerifierAddresses = votersOf ar ++ [msg.secondVerifier] := by
  cases ar <;> rfl

theorem hasVoted_eq (v : String) (ar : Option SecondVerificationRecord) :
    hasVoted v ar = (votersOf ar).contains v := by
  cases ar <;> rfl

/-- A short list is counted without wrapping. -/
theorem toNat_lenUInt32 {α : Type} {xs : List α} {n : UInt32} (h : xs.length ≤ n.toNat) :
    (lenUInt32 xs).toNat = xs.length := by
  have hn := n.toNat_lt
  exact Nat.mod_eq_of_lt (by omega)

/-- An incomplete record that is well kept has room for a vote. -/
theorem voters_lt_of_incomplete {ar : Option SecondVerificationRecord}
    (hcount : params.secondVerifierCount ≠ 0) (htallied : ∀ r, ar = some r → r.Tallied params)
    (h : ar.any (votesComplete params) = false) :
    (votersOf ar).length < params.secondVerifierCount.toNat := by
  cases ar with
  | none =>
    have hpos : params.secondVerifierCount.toNat ≠ 0 := fun hz => hcount (UInt32.toNat_inj.mp hz)
    simp only [votersOf, Option.elim, List.length_nil]
    omega
  | some r =>
    simp only [Option.any_some, votesComplete, decide_eq_false_iff_not, UInt32.le_iff_toNat_le] at h
    rw [toNat_lenUInt32 (htallied r rfl).bounded] at h
    simp only [votersOf, Option.elim]
    omega

/-- One more vote keeps a record in order. -/
theorem tallied_addVote {ar : Option SecondVerificationRecord}
    (htallied : ∀ r, ar = some r → r.Tallied params)
    (hroom : (votersOf ar).length < params.secondVerifierCount.toNat)
    (hunvoted : hasVoted msg.secondVerifier ar = false) (height : Int) :
    (addVote height msg ar).Tallied params := by
  have hvoters := voters_addVote height msg ar
  have hfresh : msg.secondVerifier ∉ votersOf ar := by
    rw [hasVoted_eq] at hunvoted
    simpa using hunvoted
  have hdistinct : (votersOf ar).Nodup := by
    cases ar with
    | none => simp [votersOf]
    | some r => exact (htallied r rfl).distinct
  refine ⟨?_, ?_, ?_, ?_, ?_⟩
  · cases ar with
    | none => rfl
    | some r => simp [addVote, (htallied r rfl).results]
  · cases ar with
    | none => rfl
    | some r => simp [addVote, (htallied r rfl).inputTokens]
  · cases ar with
    | none => rfl
    | some r => simp [addVote, (htallied r rfl).outputTokens]
  · grind
  · grind

/-! ## what a step does to a record -/

theorem TaskJudged.votes (h : TaskJudged env height params account ar apt v v') :
    v'.votes = v.votes := by
  cases h with
  | escalated => rfl
  | tokenFraud step =>
    have hvotes := step.effect.2.2.2.1
    rw [hvotes, TaskView.releaseFor_frame]
  | overturned => rfl
  | settled step | retained step => exact step.effect.2.2.2.1

theorem TaskTurns.votes {third : Bool} (h : TaskTurns env height account third apt v v') :
    v'.votes = v.votes := by
  induction h with
  | nil => rfl
  | cons turn _ ih =>
    rw [ih]
    cases turn with
    | settled step | failed step => cases third <;> exact step.effect.2.2.2.1

/-- **Only votes write a record**: a step leaves it alone or appends a vote that
may be counted. -/
theorem TaskStep.votes_cases {lab : Label} (h : TaskStep env height params account t v lab v') :
    v'.votes = v.votes ∨ ∃ msg apt, lab = .vote msg ∧ msg.taskId = t ∧ v.second = some apt ∧
    Votable height params apt v.votes msg ∧ v'.votes = some (addVote height msg v.votes) := by
  cases h with
  | voted msg task apt pending votable => grind
  | judged msg task apt pending _ step votable =>
    exact .inr ⟨msg, apt, rfl, task, pending, votable, step.votes⟩
  | swept _ _ _ turns => exact .inl turns.votes
  | idle | reserved | parked | refused | unpaid | charged | fraud | cleanup => exact .inl rfl

namespace Ledger

/-- Every record of votes is in order. -/
def Tallied (params : Params) (l : Ledger) : Prop :=
  ∀ t ar, l.getSecondVerificationRecord t = some ar → ar.Tallied params

/-- No vote of `l` is changed or missing in `l'`. -/
def KeepsVotes (l l' : Ledger) : Prop :=
  ∀ t ar, l.getSecondVerificationRecord t = some ar →
    ∃ ar', l'.getSecondVerificationRecord t = some ar' ∧ ar.Extends ar'

theorem KeepsVotes.refl (l : Ledger) : KeepsVotes l l := fun _ ar h => ⟨ar, h, .refl ar⟩

theorem KeepsVotes.trans {l' l'' : Ledger} (h : KeepsVotes l l') (h' : KeepsVotes l' l'') :
    KeepsVotes l l'' := by
  intro t ar har
  obtain ⟨ar', har', hext⟩ := h t ar har
  obtain ⟨ar'', har'', hext'⟩ := h' t ar' har'
  exact ⟨ar'', har'', hext.trans hext'⟩

end Ledger

section Step
variable {l' : Ledger} {lab : Label} {c : Int}

theorem LedgerStep.tallied (h : LedgerStep env height params fees l lab l' x c)
    (hcount : params.secondVerifierCount ≠ 0) (hl : l.Tallied params) : l'.Tallied params := by
  intro t ar har
  obtain hsame | ⟨msg, apt, -, -, -, hvotable, hvotes⟩ := (h.task t).votes_cases
  · exact hl t ar (Eq.trans (Eq.symm hsame) har)
  · cases Eq.trans (Eq.symm hvotes) har
    have hroom := voters_lt_of_incomplete hcount (hl t) hvotable.incomplete
    exact tallied_addVote (hl t) hroom hvotable.unvoted height

theorem LedgerStep.keepsVotes (h : LedgerStep env height params fees l lab l' x c) :
    l.KeepsVotes l' := by
  intro t ar har
  have har : (l.view t).votes = some ar := har
  obtain hsame | ⟨msg, apt, -, -, -, -, hvotes⟩ := (h.task t).votes_cases
  · exact ⟨ar, hsame.trans har, .refl ar⟩
  · rw [har] at hvotes
    exact ⟨_, hvotes, extends_addVote height msg ar⟩

end Step

/-! ## when the judgment runs -/

/-- The state with a vote stored and counted, before any judgment. -/
def withVote (env : Env) (ctx : Ctx) (s : State) (msg : MsgSecondVerificationResult) : State :=
  countVote env ctx (s.mapLedger (·.setSecondVerificationRecord
    (addVote ctx.height msg (s.ledger.getSecondVerificationRecord msg.taskId)))) msg.secondVerifier

/-- The votes already counted for the task of a message. -/
def votesBefore (s : State) (msg : MsgSecondVerificationResult) : Nat :=
  (votersOf (s.ledger.getSecondVerificationRecord msg.taskId)).length

/-- What the processing of an audit result is: nothing, the count of a vote that
is not the last one, or the count of the last one followed by the judgment,
which leaves the record complete. -/
inductive VoteOutcome (env : Env) (ctx : Ctx) (s : State) (msg : MsgSecondVerificationResult) :
    Exec (State × Except Err Unit) → Prop
  | ignored (r : Except Err Unit) : VoteOutcome env ctx s msg (.ok (s, r))
  | counted (more : votesBefore s msg + 1 < s.params.secondVerifierCount.toNat) :
      VoteOutcome env ctx s msg (.ok (withVote env ctx s msg, .ok ()))
  | judged (last : votesBefore s msg + 1 = s.params.secondVerifierCount.toNat)
      (complete : ∀ s', processAuditJudgment env ctx (withVote env ctx s msg)
          (addVote ctx.height msg (s.ledger.getSecondVerificationRecord msg.taskId)) = .ok s' →
        votesBefore s' msg = s.params.secondVerifierCount.toNat) :
      VoteOutcome env ctx s msg (do
        let s' ← processAuditJudgment env ctx (withVote env ctx s msg)
          (addVote ctx.height msg (s.ledger.getSecondVerificationRecord msg.taskId))
        return (s', .ok ()))

/-- The judgment of a pending task does not touch the records of votes. -/
theorem processAuditJudgment_votes (hdenom : s.ledger.Denominated)
    (hpending : s.ledger.second.pending.get ar.taskId = some apt)
    (h : processAuditJudgment env ctx s ar = .ok s') :
    s'.ledger.getSecondVerificationRecord ar.taskId =
    s.ledger.getSecondVerificationRecord ar.taskId := by
  obtain ⟨l', out, hstep, hmove⟩ := (processAuditJudgment_cases hdenom hpending).get h
  rw [hmove.ledger]
  exact (hstep.task (s.ledger.second.pending.lawful _ _ hpending).1).votes

/-- A judgment leaves the record with the vote that led to it. -/
theorem votesBefore_of_judgment (hdenom : s.ledger.Denominated)
    (hpending : s.ledger.getSecondVerificationPending msg.taskId = some apt)
    (h : processAuditJudgment env ctx (withVote env ctx s msg)
    (addVote ctx.height msg (s.ledger.getSecondVerificationRecord msg.taskId)) = .ok s') :
    votesBefore s' msg = votesBefore s msg + 1 := by
  have hledger : (withVote env ctx s msg).ledger = _ :=
    (quiet_countVote ctx _ msg.secondVerifier).ledger
  have hvoters := voters_addVote ctx.height msg (s.ledger.getSecondVerificationRecord msg.taskId)
  have htask := addVote_taskId ctx.height msg s.ledger
  generalize addVote ctx.height msg (s.ledger.getSecondVerificationRecord msg.taskId) = ar at *
  have hpending₁ : (withVote env ctx s msg).ledger.second.pending.get ar.taskId = some apt := by
    rw [hledger, htask]
    exact hpending
  have hdenom₁ : (withVote env ctx s msg).ledger.Denominated := by
    exact hdenom.congr rfl
  have hstored : (withVote env ctx s msg).ledger.getSecondVerificationRecord ar.taskId =
      some ar := by
    rw [hledger]
    exact Table.get_set_self s.ledger.secondVerificationRecords ar.taskId ar rfl
  have hvotes := processAuditJudgment_votes hdenom₁ hpending₁ h
  rw [hstored, htask] at hvotes
  simp [votesBefore, hvotes, votersOf, hvoters]

/-- **The judgment runs on the last vote**, and on no other. -/
theorem processSecondVerificationResult_outcome (hdenom : s.ledger.Denominated)
    (hcount : s.params.secondVerifierCount ≠ 0) (hs : s.ledger.Tallied s.params)
    (msg : MsgSecondVerificationResult) :
    VoteOutcome env ctx s msg (processSecondVerificationResult env ctx s msg) := by
  unfold processSecondVerificationResult
  dsimp only
  split
  · exact .ignored _
  next hincomplete =>
  split
  · exact .ignored _
  next apt hpending =>
  split
  · exact .ignored _
  split
  · exact .ignored _
  split
  · exact .ignored _
  next hunvoted =>
  have hroom : votesBefore s msg < s.params.secondVerifierCount.toNat :=
    voters_lt_of_incomplete hcount (hs msg.taskId) (Bool.eq_false_iff.mpr hincomplete)
  let record := addVote ctx.height msg (s.ledger.getSecondVerificationRecord msg.taskId)
  have htallied : record.Tallied s.params :=
    tallied_addVote (hs msg.taskId) hroom (Bool.eq_false_iff.mpr hunvoted) ctx.height
  have hlength : record.results.length = votesBefore s msg + 1 := by
    rw [htallied.results, voters_addVote, List.length_append]
    rfl
  have hcomplete : s.params.secondVerifierCount ≤ lenUInt32 record.results ↔
      s.params.secondVerifierCount.toNat ≤ votesBefore s msg + 1 := by
    rw [UInt32.le_iff_toNat_le, toNat_lenUInt32 (by rw [hlength]; exact hroom), hlength]
  have hrecord : recordVote env ctx s msg =
      if s.params.secondVerifierCount ≤ lenUInt32 record.results then
        processAuditJudgment env ctx (withVote env ctx s msg) record
      else .ok (withVote env ctx s msg) := rfl
  rw [hrecord]
  by_cases hlast : votesBefore s msg + 1 = s.params.secondVerifierCount.toNat
  · rw [if_pos (hcomplete.mpr (by omega))]
    refine .judged hlast fun s' hjudged => ?_
    rw [votesBefore_of_judgment hdenom hpending hjudged]
    exact hlast
  · rw [if_neg fun hc => hlast (by have := hcomplete.mp hc; omega)]
    exact .counted (by omega)

/-- A complete record counts no further vote. -/
theorem processSecondVerificationResult_of_complete (hs : s.ledger.Tallied s.params)
    (hcount : s.params.secondVerifierCount ≠ 0)
    (hcomplete : votesBefore s msg = s.params.secondVerifierCount.toNat) :
    processSecondVerificationResult env ctx s msg = .ok (s, .ok ()) := by
  unfold processSecondVerificationResult
  rw [if_pos]
  by_contra hc
  have := voters_lt_of_incomplete hcount (hs msg.taskId) (Bool.eq_false_iff.mpr hc)
  unfold votesBefore at hcomplete
  omega

/-- A result that is answered with an error changed nothing. -/
theorem processSecondVerificationResult_error {e : Err}
    (h : processSecondVerificationResult env ctx s msg = .ok (s', .error e)) : s' = s := by
  unfold processSecondVerificationResult at h
  dsimp only at h
  split at h
  · simp at h
  split at h
  · cases h; rfl
  split at h
  · cases h; rfl
  split at h
  · cases h; rfl
  split at h
  · cases h; rfl
  · obtain ⟨s₁, -, h⟩ := bind_eq_ok.mp h
    simp at h

/-- **A rejected entry of a batch changes nothing.** -/
theorem processSecondVerificationBatchEntry_rejected {e : SecondVerificationBatchEntry}
    (h : processSecondVerificationBatchEntry env ctx s e = .ok (s', false)) : s' = s := by
  unfold processSecondVerificationBatchEntry at h
  split at h
  · obtain ⟨⟨s₁, r⟩, hresult, h⟩ := bind_eq_ok.mp h
    cases r with
    | ok => simp at h
    | error =>
      obtain rfl := (Prod.mk.inj (Except.ok.inj h)).1
      exact processSecondVerificationResult_error hresult
  · exact (Prod.mk.inj (Except.ok.inj h)).1.symm

/-! ## runs -/

theorem Performed.tallied {c : Chain} (hp : Performed env ev c c' x y)
    (hwf : WellFormed env c.state) (hc : c.state.ledger.Tallied c.state.params) :
    c'.state.ledger.Tallied c'.state.params := by
  rw [hp.params]
  exact hp.steps.invariant hc fun _ _ _ _ _ _ hl hstep =>
    hstep.tallied (Params.secondVerifierCount_ne_zero hwf.params) hl

theorem Performed.keepsVotes {c : Chain} (hp : Performed env ev c c' x y) :
    c.state.ledger.KeepsVotes c'.state.ledger :=
  hp.steps.invariant (I := c.state.ledger.KeepsVotes) (.refl _) fun _ _ _ _ _ _ hl hstep =>
    hl.trans hstep.keepsVotes

theorem Ledger.Initial.tallied (h : l.Initial) : l.Tallied params := by
  intro t ar har
  have har : (l.view t).votes = some ar := har
  simp [h.view] at har

theorem Run.tallied {P : Chain → Event → Prop} {c₀ c : Chain} (hgenesis : AtGenesis env c₀)
    (run : Run env P c₀ c) : c.state.ledger.Tallied c.state.params :=
  run.preserves hgenesis (I := fun c => c.state.ledger.Tallied c.state.params)
    hgenesis.initial.tallied fun _ _ _ _ _ hwf hc _ hp => hp.tallied hwf hc

section Results
variable {entries : List SecondVerificationBatchEntry} {acc : ResultAcc}

section
variable (hdenom : s.ledger.Denominated)
  (h : entries.foldlM (resultStep env ctx) ⟨s, 0, 0⟩ = .ok acc)

include hdenom h

/-- The entries of a batch that are processed so far are a batch themselves. -/
theorem results_perform :
    ∃ x, Performs env ctx ((Msg.secondVerificationResultBatch ⟨"", entries⟩).script env) s
    acc.state x 0 := by
  have hbatch : processSecondVerificationResultBatch env ctx s ⟨"", entries⟩ =
      .ok (acc.state, acc.accepted, acc.rejected) := by
    simp [processSecondVerificationResultBatch, h]
  exact (votes_performs hdenom).get hbatch

theorem denominated_of_results : acc.state.ledger.Denominated := by
  obtain ⟨x, hp⟩ := results_perform hdenom h
  exact hp.steps.invariant hdenom fun _ _ _ _ _ _ hl hstep => hstep.denominated hl

end

/-- A state reached while a batch of results is processed is as well kept as
the one before the batch. -/
theorem tallied_of_results (hdenom : s.ledger.Denominated)
    (hcount : s.params.secondVerifierCount ≠ 0) (hs : s.ledger.Tallied s.params)
    (h : entries.foldlM (resultStep env ctx) ⟨s, 0, 0⟩ = .ok acc) :
    acc.state.params = s.params ∧ acc.state.ledger.Tallied acc.state.params := by
  obtain ⟨x, hp⟩ := results_perform hdenom h
  refine ⟨hp.params, ?_⟩
  rw [hp.params]
  exact hp.steps.invariant hs fun _ _ _ _ _ _ hl hstep => hstep.tallied hcount hl

end Results

/-- **Vote record integrity.**  In every reachable state the records are in
order, and no later state changes or loses a vote.  Whenever a result is
processed, alone or after others of its batch, the judgment runs exactly on
the last vote, which leaves the record complete; a complete record counts no
further vote in any later state, so it is not judged again.  A rejected entry
of a batch changes nothing. -/
theorem vote_record_integrity {c₀ c : Chain} (hgenesis : AtGenesis env c₀)
    (run : Run env (fun _ _ => True) c₀ c) : c.state.ledger.Tallied c.state.params ∧
      (∀ c', Run env (fun _ _ => True) c c' → c.state.ledger.KeepsVotes c'.state.ledger) ∧
      (∀ (entries : List SecondVerificationBatchEntry) (acc : ResultAcc),
        entries.foldlM (resultStep env c.ctx) ⟨c.state, 0, 0⟩ = .ok acc → ∀ msg,
        VoteOutcome env c.ctx acc.state msg
          (processSecondVerificationResult env c.ctx acc.state msg)) ∧
      (∀ msg c', votesBefore c.state msg = c.state.params.secondVerifierCount.toNat →
        Run env (fun _ _ => True) c c' →
        processSecondVerificationResult env c'.ctx c'.state msg = .ok (c'.state, .ok ())) ∧
      ∀ e s', processSecondVerificationBatchEntry env c.ctx c.state e = .ok (s', false) →
        s' = c.state := by
  have hwf := run.wellFormed hgenesis
  have htallied := run.tallied hgenesis
  have hcount := Params.secondVerifierCount_ne_zero hwf.params
  have hkeeps : ∀ c', Run env (fun _ _ => True) c c' →
      c.state.ledger.KeepsVotes c'.state.ledger ∧ c'.state.params = c.state.params ∧
        c'.state.ledger.Tallied c'.state.params := fun c' run' =>
    run'.preserves_from (I := fun c' => c.state.ledger.KeepsVotes c'.state.ledger ∧
      c'.state.params = c.state.params ∧ c'.state.ledger.Tallied c'.state.params)
      hwf ⟨.refl _, rfl, htallied⟩ fun _ _ _ _ _ hwf hc _ hp =>
      ⟨hc.1.trans hp.keepsVotes, hp.params.trans hc.2.1, hp.tallied hwf hc.2.2⟩
  refine ⟨htallied, fun c' run' => (hkeeps c' run').1, ?_, ?_,
    fun e s' h => processSecondVerificationBatchEntry_rejected h⟩
  · intro entries acc hacc msg
    have hdenom' := denominated_of_results hwf.denominated hacc
    obtain ⟨hparams', htallied'⟩ := tallied_of_results hwf.denominated hcount htallied hacc
    exact processSecondVerificationResult_outcome hdenom' (hparams' ▸ hcount) htallied' msg
  · intro msg c' hcomplete run'
    obtain ⟨hvotes, hparams', htallied'⟩ := hkeeps c' run'
    refine processSecondVerificationResult_of_complete htallied' (hparams' ▸ hcount) ?_
    -- the record was complete, and a record only grows up to the count
    rw [hparams', ← hcomplete]
    unfold votesBefore at hcomplete ⊢
    cases har : c.state.ledger.getSecondVerificationRecord msg.taskId with
    | none =>
      rw [har] at hcomplete
      exact absurd (UInt32.toNat_inj.mp hcomplete.symm) hcount
    | some ar =>
      obtain ⟨ar', har', hext⟩ := hvotes msg.taskId ar har
      have hbound := (htallied' msg.taskId ar' har').bounded
      have hgrows := hext.voters.length_le
      rw [har] at hcomplete
      rw [har']
      simp only [votersOf, Option.elim] at hcomplete ⊢
      rw [hparams'] at hbound
      omega

/-- Two of three votes on an audited task are counted, one rejected as a
duplicate. -/
theorem vote_record_integrity_devnet :
    ∃ c ar, Run devEnv (fun _ _ => True) (devnet .default [("user", 1000)]) c ∧
      c.state.ledger.getSecondVerificationRecord [16] = some ar ∧
      ar.secondVerifierAddresses = ["a", "b"] ∧ ar.Tallied c.state.params := by
  refine exists_pair_and_of (Run.exists_of_exec
    [devBatch [devEntry [16] "user" 100 0], devVote "a" [16] true,
      devVote "a" [16] true, devVote "b" [16] false] (by decide +kernel)) ?_
  intro c ar run har _
  exact (vote_record_integrity atGenesis_user run).1 [16] ar har

end

variable {lab : Label} {c c₀ : Chain} {P : Chain → Event → Prop}
  {entries : List SecondVerificationBatchEntry} {acc : ResultAcc}

/-! ## complete votes -/

namespace TaskView

/-- Are all votes of the task in? -/
def Complete (params : Params) (v : TaskView) : Prop := v.votes.any (votesComplete params) = true

end TaskView

/-- No step touches complete votes. -/
theorem TaskStep.complete (h : TaskStep env height params account t v lab v')
    (hv : v.Complete params) : v'.Complete params := by
  obtain hsame | ⟨msg, apt, -, -, -, votable, -⟩ := h.votes_cases
  · unfold TaskView.Complete
    rw [hsame]
    exact hv
  · exact nomatch votable.incomplete.symm.trans hv

/-- The votes of a judged task are complete. -/
theorem TaskJudged.complete {ar : SecondVerificationRecord}
    (h : TaskJudged env height params account ar apt v v') (hvotes : v.votes = some ar)
    (htallied : ar.Tallied params) (hcomplete : params.secondVerifierCount ≤ lenUInt32 ar.results) :
    v'.Complete params := by
  have hlen : lenUInt32 ar.secondVerifierAddresses = lenUInt32 ar.results := by
    rw [lenUInt32, lenUInt32, htallied.results]
  unfold TaskView.Complete
  rw [h.votes, hvotes]
  simpa [votesComplete, hlen] using hcomplete

/-- A task of the third tier has complete votes, and a step keeps it so. -/
theorem TaskStep.third_complete (h : TaskStep env height params account t v lab v')
    (hcount : params.secondVerifierCount ≠ 0)
    (htallied : ∀ ar, v.votes = some ar → ar.Tallied params)
    (hv : v.third.isSome → v.Complete params) (hthird : v'.third.isSome) : v'.Complete params := by
  have hkept : v.third.isSome → v'.Complete params := fun hold => h.complete (hv hold)
  cases h with
  | judged _ _ _ _ complete step votable =>
    have hroom := voters_lt_of_incomplete hcount htallied votable.incomplete
    exact step.complete rfl (tallied_addVote htallied hroom votable.unvoted height) complete
  | swept _ _ _ turns =>
    obtain ⟨apt', hapt'⟩ := Option.isSome_iff_exists.mp hthird
    have hold : v.pending true = some apt' := turns.pending hapt'
    exact hkept (Option.isSome_of_eq_some hold)
  | idle | reserved | parked | refused | unpaid | charged | voted | fraud | cleanup =>
    exact hkept hthird

namespace Ledger

/-- The votes are well kept, and those of every task of the third tier are
complete. -/
structure ThirdComplete (params : Params) (l : Ledger) : Prop where
  tallied : l.Tallied params
  complete : ∀ t, (l.view t).third.isSome → (l.view t).Complete params

end Ledger

theorem LedgerStep.thirdComplete {l l' : Ledger} {x c : Int}
    (h : LedgerStep env height params fees l lab l' x c) (hcount : params.secondVerifierCount ≠ 0)
    (hl : l.ThirdComplete params) : l'.ThirdComplete params where
  tallied := h.tallied hcount hl.tallied
  complete := fun t => (h.task t).third_complete hcount (hl.tallied t) (hl.complete t)

theorem Run.thirdComplete (hgenesis : AtGenesis env c₀) (run : Run env P c₀ c) :
    c.state.ledger.ThirdComplete c.state.params := by
  refine run.preserves hgenesis (I := fun c => c.state.ledger.ThirdComplete c.state.params)
    ⟨hgenesis.initial.tallied, fun t ht => ?_⟩ fun c ev c' x y hwf hc _ hp => ?_
  · rw [hgenesis.initial.view] at ht
    contradiction
  · rw [hp.params]
    exact hp.steps.invariant hc fun _ _ _ _ _ _ hl hstep =>
      hstep.thirdComplete (Params.secondVerifierCount_ne_zero hwf.params) hl

/-! ## the third-verification branch -/

/-- Some audit result of the task, processed in this state, is counted and the
judgment takes its third-verification branch. -/
def JudgesThird (ctx : Ctx) (s : State) (t : TaskId) : Prop :=
  ∃ (msg : MsgSecondVerificationResult) (apt : SecondVerificationPendingTask),
    msg.taskId = t ∧ s.ledger.getSecondVerificationPending t = some apt ∧
    Votable ctx.height s.params apt (s.ledger.getSecondVerificationRecord t) msg ∧
    s.params.secondVerifierCount ≤
      lenUInt32 (addVote ctx.height msg (s.ledger.getSecondVerificationRecord t)).results ∧
    apt.isThirdVerification = true

/-- Complete votes stay complete, between events and while a batch of results
is processed. -/
theorem Run.complete (hwf : WellFormed env c.state) (run : Run env P c c')
    (hc : (c.state.ledger.view t).Complete c.state.params)
    (hacc : entries.foldlM (resultStep env c'.ctx) ⟨c'.state, 0, 0⟩ = .ok acc) :
    (acc.state.ledger.view t).Complete acc.state.params := by
  have hrun : WellFormed env c'.state ∧ (c'.state.ledger.view t).Complete c'.state.params := by
    refine run.preserves_from (I := fun c => WellFormed env c.state ∧
      (c.state.ledger.view t).Complete c.state.params) hwf ⟨hwf, hc⟩ ?_
    intro c ev c' x y hwf hc _ hp
    refine ⟨hp.wellFormed hwf, ?_⟩
    rw [hp.params]
    exact hp.steps.invariant (I := fun l => (l.view t).Complete c.state.params) hc.2
      fun _ _ _ _ _ _ hl hstep => (hstep.task t).complete hl
  obtain ⟨x, hp⟩ := results_perform hrun.1.denominated hacc
  rw [hp.params]
  exact hp.steps.invariant (I := fun l => (l.view t).Complete c'.state.params) hrun.2
    fun _ _ _ _ _ _ hl hstep => (hstep.task t).complete hl

/-- A task that waits for third verification is never judged again: in every
state of every continuation its results are ignored. -/
theorem ignored_of_third (hgenesis : AtGenesis env c₀) (run : Run env (fun _ _ => True) c₀ c)
    (hthird : c.state.ledger.pendingAt true t = some apt) (run' : Run env (fun _ _ => True) c c')
    (hacc : entries.foldlM (resultStep env c'.ctx) ⟨c'.state, 0, 0⟩ = .ok acc) :
    ¬ JudgesThird c'.ctx acc.state t ∧ ∀ msg, msg.taskId = t →
    processSecondVerificationResult env c'.ctx acc.state msg = .ok (acc.state, .ok ()) := by
  have hcomplete : (c.state.ledger.view t).Complete c.state.params :=
    (run.thirdComplete hgenesis).complete t (Option.isSome_of_eq_some hthird)
  have hcomplete' := run'.complete (run.wellFormed hgenesis) hcomplete hacc
  constructor
  · rintro ⟨msg, apt', -, -, votable, -⟩
    exact nomatch votable.incomplete.symm.trans hcomplete'
  · rintro msg rfl
    exact if_pos hcomplete'

/-- **Third verification is never carried out.**  From no reachable state in
which a task waits for third verification does any continuation lead to a
state in which an audit result makes the judgment run its third-verification
branch for the task; every result for it is ignored. -/
theorem third_verification_never {c₀ c : Chain} (hgenesis : AtGenesis env c₀)
    (run : Run env (fun _ _ => True) c₀ c) {apt : SecondVerificationPendingTask}
    (hthird : c.state.ledger.pendingAt true t = some apt) : ∀ c', Run env (fun _ _ => True) c c' →
      ∀ (entries : List SecondVerificationBatchEntry) (acc : ResultAcc),
        entries.foldlM (resultStep env c'.ctx) ⟨c'.state, 0, 0⟩ = .ok acc →
        ¬ JudgesThird c'.ctx acc.state t ∧ ∀ msg, msg.taskId = t →
          processSecondVerificationResult env c'.ctx acc.state msg = .ok (acc.state, .ok ()) :=
  fun _ run' _ _ hacc => ignored_of_third hgenesis run hthird run' hacc

/-- The devnet events that bring a task into the third tier. -/
def devEscalate : List Event :=
  [devBatch [devEntry [0] "user" 100 0], devVote "a" [0] true, devVote "b" [0] true,
    devVote "c" [0] true]

/-- A task in the third tier; the next vote on it is ignored. -/
theorem third_verification_never_devnet :
    ∃ c apt, Run devEnv (fun _ _ => True) (devnet .default [("user", 1000)]) c ∧
      c.state.ledger.pendingAt true [0] = some apt ∧
      processSecondVerificationResult devEnv c.ctx c.state ⟨"d", [0], 0, true, [1], 0, 0⟩ =
        .ok (c.state, .ok ()) := by
  refine exists_pair_and_imp (q := fun c => (c.state.ledger.pendingAt true [0]).isSome = true)
    (Run.exists_of_exec devEscalate (by decide +kernel)) fun c run hsome => ?_
  obtain ⟨apt, hthird⟩ := Option.isSome_iff_exists.mp hsome
  have hnever := third_verification_never atGenesis_user run hthird c .start [] ⟨c.state, 0, 0⟩ rfl
  exact ⟨apt, hthird, hnever.2 _ rfl⟩

/-- A reachable state in which a task waits for third verification, without an
expiry, and no continuation carries it out. -/
theorem third_verification_stuck :
    ∃ c₀, AtGenesis devEnv c₀ ∧ ∃ c, Run devEnv (fun _ _ => True) c₀ c ∧
      ∃ apt, c.state.ledger.pendingAt true [0] = some apt ∧ apt.expireBlock = 0 ∧
        ∀ c', Run devEnv (fun _ _ => True) c c' →
          ∀ (entries : List SecondVerificationBatchEntry) (acc : ResultAcc),
            entries.foldlM (resultStep devEnv c'.ctx) ⟨c'.state, 0, 0⟩ = .ok acc →
            ¬ JudgesThird c'.ctx acc.state [0] := by
  refine ⟨_, atGenesis_user, exists_and_imp (q := fun c =>
      ∃ apt ∈ c.state.ledger.pendingAt true [0], apt.expireBlock = 0)
    (Run.exists_of_exec devEscalate (by decide +kernel)) ?_⟩
  rintro c run ⟨apt, hthird, hexpire⟩
  exact ⟨apt, hthird, hexpire, fun c' run' entries acc hacc =>
    (ignored_of_third atGenesis_user run hthird run' hacc).1⟩

end FunaiChain.Settlement
