import FunaiChain.Settlement.Chain

/-!
# FunaiChain.Settlement.Machine

The abstract machine under the keeper: labelled steps of the ledger
(`LedgerStep`), sequences of them (`Steps`), and the sequence of labels that
an event of the chain stands for (`Event.script`).  A step also tells what
leaves the settlement account and what is counted for the fund of the epoch.

That every event executes its script is proved in
`FunaiChain.Settlement.Refinement`.  The invariants of the later modules are
proved once per label and carried along scripts and runs; none of them looks
at a handler again.
-/

namespace FunaiChain.Settlement

variable {ctx : Ctx} {env : Env} {ev : Event} {lab : Label} {l l' : Ledger} {c x : Int}
  {labs labs' : List Label} {I : Ledger → Prop} {e : SettlementEntry} {row : ReserveEntry}

/-! ## labelled steps -/

/-- What a step of the ledger is about. -/
inductive Label
  | deposit (a : Addr) (x : Int)
  | withdraw (a : Addr) (x : Int)
  | reserve (row : ReserveEntry)
  | entry (e : SettlementEntry)
  | vote (msg : MsgSecondVerificationResult)
  | fraud (msg : MsgFraudProof)
  | cleanup
  | sweep (third : Bool)
  | fund (epoch : Int)

namespace Params

/-- The timeout of a tier of verification. -/
def timeoutOf (p : Params) (third : Bool) : Int :=
  if third then p.thirdVerificationTimeout else p.secondVerificationTimeout

end Params

section
variable (env : Env) (height : Int) (params : Params) (fees : Int → Int) (l : Ledger)

/-- A step of the ledger with its label, what leaves the settlement account and
what is counted for the fund.  `fees` are the fees counted before the event
that the step belongs to. -/
inductive LedgerStep : Label → Ledger → Int → Int → Prop
  /-- The step was refused. -/
  | idle (lab : Label) : LedgerStep lab l 0 0
  | deposit (a : Addr) (x : Int) (pos : 0 < x) : LedgerStep (.deposit a x) (l.credit a x) (-x) 0
  | withdraw (a : Addr) (x : Int) (pos : 0 < x) (ia : InferenceAccount)
      (account : l.getInferenceAccount a = some ia)
      (covered : x + ia.frozenAmount ≤ ia.balance.amount) :
      LedgerStep (.withdraw a x) (l.debit ia x) x 0
  | reserve (row : ReserveEntry) (u : Addr) (ia : InferenceAccount) (n : UInt64)
      (reservable : Reservable env height l row u ia n) :
      LedgerStep (.reserve row) ((l.freeze ia row.taskId n).note height
          (.reserved row.taskId u (MathInt.ofUInt64 n) row.expireBlock)) 0 0
  | entry {e : SettlementEntry} {l' : Ledger} {out counted : Int}
      (step : EntryStep env height params e l l' out counted) :
      LedgerStep (.entry e) l' out counted
  | vote {msg : MsgSecondVerificationResult} {l' : Ledger} {out : Int}
      (step : VoteStep env height params msg l l' out) :
      LedgerStep (.vote msg) l' out 0
  | fraud {msg : MsgFraudProof} {l' : Ledger} {out : Int} (step : FraudStep msg l l' out) :
      LedgerStep (.fraud msg) l' out 0
  | cleanup : LedgerStep .cleanup (l.cleanup (height - params.taskCleanupBuffer)) 0 0
  | sweep {third : Bool} {l' : Ledger} {out : Int}
      (step : SweepStep env height params third (params.timeoutOf third) l l' out) :
      LedgerStep (.sweep third) l' out 0
  | fund {epoch : Int} {l' : Ledger} {out : Int}
      (step : FundStep height params epoch (fees epoch) l l' out) :
      LedgerStep (.fund epoch) l' out 0

end

/-! ## sequences of steps -/

section
variable (env : Env) (height : Int) (params : Params) (fees : Int → Int)

/-- Steps one after the other, with the totals of what they pay and count. -/
inductive Steps : List Label → Ledger → Ledger → Int → Int → Prop
  | nil (l : Ledger) : Steps [] l l 0 0
  | cons {lab : Label} {labs : List Label} {l l₁ l₂ : Ledger} {x y c d : Int}
      (step : LedgerStep env height params fees l lab l₁ x c)
      (rest : Steps labs l₁ l₂ y d) : Steps (lab :: labs) l l₂ (x + y) (c + d)

end

namespace Steps

variable {height : Int} {params : Params} {fees : Int → Int}

/-- A sequence of one step. -/
theorem single (h : LedgerStep env height params fees l lab l' x c) :
    Steps env height params fees [lab] l l' x c := by
  have := Steps.cons h (.nil l')
  rwa [Int.add_zero, Int.add_zero] at this

/-- A sequence in which every step was refused. -/
theorem idle (labs : List Label) (l : Ledger) : Steps env height params fees labs l l 0 0 := by
  induction labs with
  | nil => exact .nil l
  | cons lab _ ih => exact .cons (.idle lab) ih

theorem eq_of_nil (h : Steps env height params fees [] l l' x c) : l' = l := by
  cases h
  rfl

/-- The first step of a sequence, and the rest. -/
theorem of_cons (h : Steps env height params fees (lab :: labs) l l' x c) :
    ∃ l₁ y z d d', LedgerStep env height params fees l lab l₁ y d ∧
    Steps env height params fees labs l₁ l' z d' := by
  cases h with
  | cons step rest => exact ⟨_, _, _, _, _, step, rest⟩

theorem append {l₁ l₂ : Ledger} {y d : Int} (h : Steps env height params fees labs l l₁ x c)
    (h' : Steps env height params fees labs' l₁ l₂ y d) :
    Steps env height params fees (labs ++ labs') l l₂ (x + y) (c + d) := by
  induction h with
  | nil => simpa using h'
  | cons step _ ih =>
    rw [Int.add_assoc, Int.add_assoc]
    exact .cons step (ih h')

/-- A sequence can be cut where its labels can. -/
theorem of_append (h : Steps env height params fees (labs ++ labs') l l' x c) :
    ∃ l₁ y z d d', Steps env height params fees labs l l₁ y d ∧
    Steps env height params fees labs' l₁ l' z d' ∧ x = y + z ∧ c = d + d' := by
  induction labs generalizing l x c with
  | nil => exact ⟨l, 0, x, 0, c, .nil l, h, by omega, by omega⟩
  | cons _ _ ih =>
    cases h with
    | cons step rest =>
      obtain ⟨l₁, y, z, d, d', h₁, h₂, hx, hc⟩ := ih rest
      exact ⟨l₁, _, z, _, d', .cons step h₁, h₂, by omega, by omega⟩

/-- **The induction rule for sequences.**  What every step keeps holds at the
end; the steps may use that their label is in the list. -/
theorem invariant (h : Steps env height params fees labs l l' x c) (hl : I l)
    (hstep : ∀ lab ∈ labs, ∀ l l' x c, I l →
    LedgerStep env height params fees l lab l' x c → I l') : I l' := by
  induction h with
  | nil => exact hl
  | cons step _ ih => grind

/-- The rule for sequences whose first step is taken under a condition of its
own. -/
theorem invariant_head (h : Steps env height params fees labs l l' x c) (hl : I l)
    (hfirst : ∀ lab l' x c, labs.head? = some lab →
    LedgerStep env height params fees l lab l' x c → I l')
    (hrest : ∀ lab ∈ labs.tail, ∀ l l' x c, I l →
    LedgerStep env height params fees l lab l' x c → I l') : I l' := by
  cases h with
  | nil => exact hl
  | cons step rest => exact rest.invariant (hfirst _ _ _ _ rfl step) hrest

end Steps

/-! ## scripts -/

/-- The steps that a message may take. -/
def Msg.script (env : Env) : Msg → List Label
  | .deposit msg =>
      (env.accAddressFromBech32 msg.creator).toList.map (.deposit · msg.amount.amount)
  | .withdraw msg =>
      (env.accAddressFromBech32 msg.creator).toList.map (.withdraw · msg.amount.amount)
  | .batchSettlement msg => msg.entries.map .entry
  | .batchReserve msg => msg.entries.map .reserve
  | .fraudProof msg => [.fraud msg]
  | .secondVerificationResult msg => [.vote msg]
  | .secondVerificationResultBatch msg => msg.entries.map (.vote ·.single)

/-- The epoch whose fund is paid out at an epoch boundary. -/
def Ctx.closingEpoch (ctx : Ctx) : Int := ctx.height.tdiv 100 - 1

/-- The payout of the fund, at an epoch boundary. -/
def Ctx.closing (ctx : Ctx) : List Label :=
  if ctx.height.tmod 100 = 0 ∧ 0 ≤ ctx.closingEpoch then [.fund ctx.closingEpoch] else []

theorem Ctx.mem_closing (h : lab ∈ ctx.closing) :
    lab = .fund ctx.closingEpoch ∧ ctx.height = 100 * (ctx.closingEpoch + 1) := by
  unfold closing at h
  split at h
  · next hboundary =>
    refine ⟨List.mem_singleton.mp h, ?_⟩
    have := Int.tmod_add_mul_tdiv ctx.height 100
    unfold closingEpoch
    omega
  · simp at h

/-- The steps that an event may take in a block. -/
def Event.script (env : Env) (ctx : Ctx) : Event → List Label
  | .tx msg => msg.script env
  | .endBlock _ => [.cleanup, .sweep false, .sweep true] ++ ctx.closing
  | .outside _ => []

/-- What an EndBlock may do. -/
theorem Event.mem_endBlock {next : Ctx} (h : lab ∈ (Event.endBlock next).script env ctx) :
    lab = .cleanup ∨ (∃ third, lab = .sweep third) ∨ lab = .fund ctx.closingEpoch := by
  obtain h | h := List.mem_append.mp h
  · grind
  · exact .inr (.inr (Ctx.mem_closing h).1)

/-- The entries of a settlement batch; none for any other event. -/
def Event.entries : Event → List SettlementEntry
  | .tx (.batchSettlement msg) => msg.entries
  | _ => []

/-- A settlement batch only executes entries. -/
theorem Event.entry_of_mem (he : e ∈ ev.entries) (h : lab ∈ ev.script env ctx) :
    ∃ e' ∈ ev.entries, lab = .entry e' := by
  unfold Event.entries at he
  split at he
  · obtain ⟨e', he', rfl⟩ := List.mem_map.mp h
    exact ⟨e', he', rfl⟩
  · simp at he

/-- The rows of a reserve batch; none for any other event. -/
def Event.rows : Event → List ReserveEntry
  | .tx (.batchReserve msg) => msg.entries
  | _ => []

/-- A reserve batch only executes rows. -/
theorem Event.reserve_of_mem (hrow : row ∈ ev.rows) (h : lab ∈ ev.script env ctx) :
    ∃ row' ∈ ev.rows, lab = .reserve row' := by
  unfold Event.rows at hrow
  split at hrow
  · obtain ⟨row', hrow', rfl⟩ := List.mem_map.mp h
    exact ⟨row', hrow', rfl⟩
  · simp at hrow

/-- The fraud proof of a transaction; none for any other event. -/
def Event.frauds : Event → List MsgFraudProof
  | .tx (.fraudProof msg) => [msg]
  | _ => []

/-- The audit results of a transaction; none for any other event. -/
def Event.votes : Event → List MsgSecondVerificationResult
  | .tx (.secondVerificationResult msg) => [msg]
  | .tx (.secondVerificationResultBatch msg) => msg.entries.map (·.single)
  | _ => []

/-- What the event of a label is: the message that the label is about.  With an audit
result nothing else is executed. -/
def Event.Issues (ev : Event) : Label → Prop
  | .deposit .. => ∃ msg, ev = .tx (.deposit msg)
  | .withdraw .. => ∃ msg, ev = .tx (.withdraw msg)
  | .entry e => e ∈ ev.entries
  | .reserve row => row ∈ ev.rows
  | .fraud msg => msg ∈ ev.frauds
  | .vote _ => ∀ env ctx, ev.script env ctx = ev.votes.map .vote
  | .cleanup | .sweep _ | .fund _ => True

theorem Event.issues (h : lab ∈ ev.script env ctx) : ev.Issues lab := by
  cases ev with
  | tx msg =>
    cases msg with
    | deposit | withdraw =>
      obtain ⟨_, -, rfl⟩ := List.mem_map.mp h
      exact ⟨_, rfl⟩
    | batchSettlement | batchReserve =>
      obtain ⟨_, hmem, rfl⟩ := List.mem_map.mp h
      exact hmem
    | fraudProof =>
      obtain rfl := List.mem_singleton.mp h
      exact .head _
    | secondVerificationResult =>
      obtain rfl := List.mem_singleton.mp h
      exact fun _ _ => rfl
    | secondVerificationResultBatch =>
      obtain ⟨_, -, rfl⟩ := List.mem_map.mp h
      exact fun _ _ => (List.map_map ..).symm
  | endBlock => obtain rfl | ⟨_, rfl⟩ | rfl := Event.mem_endBlock h <;> trivial
  | outside => cases h

/-- Clean-up and fraud proofs only come first in a script. -/
theorem Event.mem_tail_script (h : lab ∈ (ev.script env ctx).tail) :
    lab ≠ .cleanup ∧ ∀ msg, lab ≠ .fraud msg := by
  cases ev with
  | tx msg =>
    have hmem := List.mem_of_mem_tail h
    cases msg with
    | fraudProof | secondVerificationResult => simp [Event.script, Msg.script] at h
    | _ =>
      obtain ⟨_, -, rfl⟩ := List.mem_map.mp hmem
      simp
  | endBlock =>
    have hsweep : lab ∈ [.sweep false, .sweep true] ++ ctx.closing := h
    obtain hmem | hmem := List.mem_append.mp hsweep
    · grind
    · simp [(Ctx.mem_closing hmem).1]
  | outside => simp [Event.script] at h

def Event.isEndBlock : Event → Bool
  | .endBlock _ => true
  | _ => false

theorem Event.cleanup_mem (h : Label.cleanup ∈ ev.script env ctx) :
    ∃ next, ev = .endBlock next := by
  cases ev with
  | tx msg => cases msg <;> simp [Event.script, Msg.script] at h
  | endBlock next => exact ⟨next, rfl⟩
  | outside => simp [Event.script] at h

end FunaiChain.Settlement
