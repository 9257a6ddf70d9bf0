import Mathlib.Data.List.Infix

/-!
# FunaiChain.P2p.Client

The sequence numbers of the chain client.  The number of the account is queried once and then
counted by the client itself, before the transaction is built; only an error that mentions the
sequence makes it query again.  A call that takes a number and ends in another way, while the
chain does not count its transaction, therefore burns it (`Client.number_burned`).
-/

namespace FunaiChain.P2p

/-- The cache of a client, and the sequence of its account on the chain. -/
structure Client where
  seqInitialized : Bool
  cachedAccNum : UInt64
  cachedSeq : UInt64
  sequence : UInt64

/-- How a broadcast ends once it has a sequence number. -/
inductive Outcome
  /-- The transaction cannot be built or is too large. -/
  | failed
  /-- An error before inclusion. -/
  | rejected (error : String)
  /-- Inclusion, with the error of a transaction that fails.  Whether the account's sequence
  advances is up to the application: a failure before the signature is counted leaves it. -/
  | included (advanced : Bool) (error : Option String)

/-- `strings.Contains` for the word that an error of the sequence holds. -/
def mentionsSequence (error : String) : Bool := "sequence".toList <:+: error.toList

/-- A call: what `QueryAccountInfo` returns if it is asked, and how the call ends.  The query may
fail, and it reads an answer without the two fields as two zeros. -/
abbrev Call := Option (UInt64 × UInt64) × Outcome

namespace Client

variable (c : Client)

/-- `getNextSequence`. -/
def getNextSequence (answer : Option (UInt64 × UInt64)) : Client × Option (UInt64 × UInt64) :=
  if c.seqInitialized then
    ({ c with cachedSeq := c.cachedSeq + 1 }, some (c.cachedAccNum, c.cachedSeq))
  else match answer with
  | none => (c, none)
  | some (accNum, seq) =>
      ({ c with seqInitialized := true, cachedAccNum := accNum, cachedSeq := seq + 1 },
        some (accNum, seq))

/-- The client resets itself on an error that mentions the sequence. -/
def resetOn (error : String) : Client :=
  if mentionsSequence error then { c with seqInitialized := false } else c

/-- `BroadcastSettlement`, `BroadcastBatchReserve`, `BroadcastAuditBatch` and
`BroadcastFraudProof`, with the account number and the sequence that are signed. -/
def broadcast (call : Call) : Client × Option (UInt64 × UInt64) :=
  match c.getNextSequence call.1 with
  | (c, none) => (c, none)
  | (c, some signed) =>
      (match call.2 with
      | .failed => c
      | .rejected error => c.resetOn error
      | .included advanced error => error.elim id (fun e c => c.resetOn e)
          { c with sequence := if advanced then c.sequence + 1 else c.sequence }, some signed)

/-- The client after calls, one after the other. -/
def run (calls : List Call) : Client :=
  calls.foldl (fun c call => (c.broadcast call).1) c

/-- The next call signs with the sequence of the chain. -/
def InSync : Prop := c.seqInitialized = true → c.cachedSeq = c.sequence

end Client

/-- The outcome is an inclusion that the chain counts, or an error that the client takes for one
of the sequence. -/
def Outcome.Told : Outcome → Prop
  | .failed => False
  | .rejected error => mentionsSequence error
  | .included advanced error => advanced ∨ error.any mentionsSequence

/-- The query of a call, if it is made and answers, tells the sequence of the chain. -/
def Client.Answers (c : Client) (call : Call) : Prop :=
  c.seqInitialized = false → ∀ answer ∈ call.1, answer.2 = c.sequence

/-- The queries tell the sequence, and no call takes a number and is then not told about it. -/
def Client.Spares (c : Client) : List Call → Prop
  | [] => True
  | call :: calls => c.Answers call ∧
      ((c.seqInitialized || call.1.isSome) = true → call.2.Told) ∧
      (c.broadcast call).1.Spares calls

namespace Client

variable {c : Client} {call : Call}

theorem inSync_resetOn (error : String) :
    (c.resetOn error).InSync ↔ mentionsSequence error = true ∨ c.InSync := by
  unfold resetOn
  split <;> simp [*, InSync]

/-- The number that is signed, and the cache one ahead of it. -/
theorem getNextSequence_cases (hc : c.InSync) (hanswers : c.Answers call) :
    (c.seqInitialized || call.1.isSome) = false ∧ c.getNextSequence call.1 = (c, none) ∨
      (c.seqInitialized || call.1.isSome) = true ∧ ∃ accNum, c.getNextSequence call.1 =
        ({ c with seqInitialized := true, cachedAccNum := accNum, cachedSeq := c.sequence + 1 },
          some (accNum, c.sequence)) := by
  unfold getNextSequence
  cases hinit : c.seqInitialized with
  | true => exact .inr ⟨rfl, c.cachedAccNum, by simp [hc hinit, ← hinit]⟩
  | false =>
    cases hanswer : call.1 with
    | none => simp
    | some answer => simp [← hanswers hinit answer hanswer]

/-- A call that takes a number keeps the client in step exactly when it is told. -/
theorem inSync_broadcast_iff (hc : c.InSync) (hanswers : c.Answers call) :
    (c.broadcast call).1.InSync ↔ ((c.seqInitialized || call.1.isSome) = true → call.2.Told) := by
  obtain ⟨answer, outcome⟩ := call
  unfold broadcast
  obtain ⟨hnumber, hnone⟩ | ⟨hnumber, accNum, hsome⟩ := getNextSequence_cases hc hanswers
  · simp [hnone, hnumber, hc]
  · simp only [hsome, hnumber, forall_const]
    cases outcome with
    | failed => simp [InSync, Outcome.Told]
    | rejected error =>
      rw [inSync_resetOn]
      simp [InSync, Outcome.Told]
    | included advanced error =>
      -- the cache is one ahead of the number, and so is the chain if it counts
      have hcounts : c.sequence + 1 = (if advanced then c.sequence + 1 else c.sequence) ↔
          advanced = true := by
        cases advanced <;> simp
      cases error with
      | none => simp [InSync, Outcome.Told, hcounts]
      | some error =>
        dsimp only [Option.elim_some]
        rw [inSync_resetOn]
        simp [InSync, Outcome.Told, hcounts, or_comm]

/-- What a run of such calls keeps. -/
theorem InSync.run {calls : List Call} (hc : c.InSync) (h : c.Spares calls) :
    (c.run calls).InSync := by
  induction calls generalizing c with
  | nil => exact hc
  | cons call calls ih => exact ih ((inSync_broadcast_iff hc h.1).mpr h.2.1) h.2.2

/-- **Every call signs with the sequence of the chain**, when the queries tell it and no call
before it burned a number. -/
theorem signs_current_sequence (c : Client) (calls : List Call) (call : Call)
    {signed : UInt64 × UInt64} (hfresh : c.seqInitialized = false) (hspares : c.Spares calls)
    (hanswers : (c.run calls).Answers call)
    (h : ((c.run calls).broadcast call).2 = some signed) : signed.2 = (c.run calls).sequence := by
  have hsync : (c.run calls).InSync := InSync.run (by simp [InSync, hfresh]) hspares
  unfold broadcast at h
  obtain ⟨-, hnone⟩ | ⟨-, accNum, hsome⟩ := getNextSequence_cases hsync hanswers
  · simp [hnone] at h
  · rw [hsome] at h
    obtain rfl := Option.some.inj h
    rfl

/-- A fresh client of an account with number 7 and sequence 4. -/
def devClient : Client := ⟨false, 0, 0, 4⟩

/-- A transaction is included, the next one refused for its sequence, and after a new query
another one included that fails. -/
def devCalls : List Call :=
  [(some (7, 4), .included true none),
    (none, .rejected "account sequence mismatch"),
    (some (7, 5), .included true (some "out of gas"))]

/-- The call after these signs with the sequence 6 of the chain. -/
theorem signs_current_sequence_devnet : ∃ signed,
    ((devClient.run devCalls).broadcast (none, .failed)).2 = some signed ∧ signed = (7, 6) ∧
      signed.2 = (devClient.run devCalls).sequence := by
  have hspares : devClient.Spares devCalls := by
    simp only [devCalls, Spares, Answers, Outcome.Told, Option.mem_some, forall_eq']
    decide +kernel
  have hanswers : (devClient.run devCalls).Answers (none, .failed) := fun _ _ h => by cases h
  have hsigned : ((devClient.run devCalls).broadcast (none, .failed)).2 = some (7, 6) := by
    decide +kernel
  exact ⟨_, hsigned, rfl, signs_current_sequence _ _ _ rfl hspares hanswers hsigned⟩

/-- A transaction that is too large burns its number. -/
theorem number_burned : ((devClient.broadcast (some (7, 4), .failed)).1.broadcast
    (none, .included true none)).2 = some (7, 5) ∧
      (devClient.broadcast (some (7, 4), .failed)).1.sequence = 4 := ⟨rfl, rfl⟩

end Client

end FunaiChain.P2p
