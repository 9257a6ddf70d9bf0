import FunaiChain.Settlement.Balance
import FunaiChain.Settlement.Devnet
import FunaiChain.Settlement.Lockstep

/-!
# FunaiChain.Settlement.Genesis

Exporting the module and starting it again from the export.  `ExportGenesis`
writes the parameters, the accounts and the batch records; every other store
starts empty.  Whether the chain goes on as before is stated by what can be seen
from outside (`Chain.answers`): how each transaction ends, and the accounts and
the world after each event.

A chain at rest (`Quiescent`) has nothing in the stores that are not exported, so
the restarted chain is alike (`Quiescent.alike`) and answers the same.  A chain
that still remembers a settled task does not: after a restart the same batch
charges its user again.
-/

namespace FunaiChain.Settlement

open Ledger

variable {env : Env}
variable {now : Int} {c c' : Chain}

/-! ## export -/

/-- `ExportGenesis`. -/
def exportGenesis (s : State) : GenesisState where
  params := s.params
  inferenceAccounts := s.ledger.inferenceAccounts.entries.map (·.2)
  batchRecords := s.book.batchRecords.entries.map (·.2)

/-- The chain after an export and a new start of the module. -/
def Chain.restarted (c : Chain) : Chain :=
  ⟨c.ctx, initGenesis (exportGenesis c.state) c.state.world⟩

/-- Of accounts with distinct addresses each one is read back. -/
theorem getInferenceAccount_setAll {ias : List InferenceAccount}
    (hnodup : (ias.map (·.address)).Nodup) (l : Ledger) (a : Addr) : (∀ ia ∈ ias, ia.address = a →
    (ias.foldl setInferenceAccount l).getInferenceAccount a = some ia) ∧
    (a ∉ ias.map (·.address) → (ias.foldl setInferenceAccount l).getInferenceAccount a =
    l.getInferenceAccount a) := by
  induction ias generalizing l with
  | nil => exact ⟨by simp, fun _ => rfl⟩
  | cons ia _ ih =>
    rw [List.map_cons, List.nodup_cons] at hnodup
    obtain ⟨hin, hout⟩ := ih hnodup.2 (l.setInferenceAccount ia)
    rw [getInferenceAccount_set] at hout
    refine ⟨fun ia' hia' ha => ?_, fun ha => ?_⟩
    · grind
    · grind

/-- The exported accounts come back as they were, and nothing else does. -/
theorem ledger_initGenesis_export (s : State) (w : World) :
    (initGenesis (exportGenesis s) w).ledger =
      { empty with inferenceAccounts := s.ledger.inferenceAccounts } := by
  have hframe : ∀ (ias : List InferenceAccount) (l : Ledger),
      ias.foldl setInferenceAccount l = { l with
        inferenceAccounts := (ias.foldl setInferenceAccount l).inferenceAccounts } := by
    intro ias
    induction ias with
    | nil => exact fun _ => rfl
    | cons ia _ ih => exact fun l => ih (l.setInferenceAccount ia)
  have hkeys : ((exportGenesis s).inferenceAccounts.map (·.address)).Nodup :=
    Table.nodup_values fun _ _ => address_of_get
  have haccounts : ((exportGenesis s).inferenceAccounts.foldl setInferenceAccount
      empty).inferenceAccounts = s.ledger.inferenceAccounts := by
    refine Table.ext_get fun a => ?_
    obtain ⟨hin, hout⟩ := getInferenceAccount_setAll hkeys empty a
    cases hget : s.ledger.inferenceAccounts.get a with
    | some ia =>
      have hmem : ia ∈ (exportGenesis s).inferenceAccounts :=
        List.mem_map_of_mem (f := Prod.snd) (Table.mem_entries.mpr hget)
      exact hin ia hmem (address_of_get hget)
    | none =>
      refine (hout fun hmem => ?_).trans (Table.get_empty a)
      obtain ⟨ia, hia, rfl⟩ := List.mem_map.mp hmem
      cases hget.symm.trans (Table.get_of_mem (fun _ _ => address_of_get) hia)
  rw [initGenesis, hframe, haccounts]

/-- Of the bookkeeping only the batch records and their counter come back. -/
theorem book_initGenesis (gs : GenesisState) (w : World) :
    ∃ records counter, (initGenesis gs w).book =
      { Book.empty with batchRecords := records, batchCounter := counter } := by
  refine List.foldlRecOn (motive := fun b : Book => ∃ records counter,
    b = { Book.empty with batchRecords := records, batchCounter := counter }) _ _ ⟨_, _, rfl⟩ ?_
  rintro b ⟨records, counter, rfl⟩ br -
  exact ⟨_, _, rfl⟩

/-! ## what can be seen from outside -/

/-- The reply to a transaction: how its handler ends, if it is reached. -/
def Chain.reply (env : Env) (c : Chain) : Event → Option (Exec (Except Err Unit))
  | .tx msg =>
      if admitted env msg then some ((handle env c.ctx c.state msg).map Prod.snd) else none
  | _ => none

/-- What an event shows: the reply, and the accounts and the world after it
unless the chain halts. -/
structure Observation where
  reply : Option (Exec (Except Err Unit))
  after : Option ((Table Addr InferenceAccount fun a ia => ia.address = a) × World)

/-- What a sequence of events shows. -/
def Chain.answers (env : Env) : Chain → List Event → List Observation
  | _, [] => []
  | c, ev :: evs =>
      match c.step env ev with
      | none => [⟨c.reply env ev, none⟩]
      | some c' =>
          ⟨c.reply env ev, some (c'.state.ledger.inferenceAccounts, c'.state.world)⟩ ::
            c'.answers env evs

/-! ## chains at rest -/

/-- Nothing is in the stores that an export leaves out: no task, vote, audit or
reservation is kept, the rates are the initial ones, and neither the current nor
the closing epoch has been counted in. -/
@[mk_iff]
structure Quiescent (c : Chain) : Prop where
  settledTasks : c.state.ledger.settledTasks.isEmpty = true
  fraudMarks : c.state.ledger.fraudMarks.isEmpty = true
  votes : c.state.ledger.secondVerificationRecords.isEmpty = true
  second : c.state.ledger.second.pending.isEmpty = true
  secondTimeouts : c.state.ledger.second.timeouts.isEmpty = true
  third : c.state.ledger.third.pending.isEmpty = true
  thirdTimeouts : c.state.ledger.third.timeouts.isEmpty = true
  frozenBalance : c.state.ledger.frozenBalance.isEmpty = true
  secondRate : c.state.book.getCurrentSecondVerificationRate = defaultSecondVerificationBaseRate
  thirdRate : c.state.book.getCurrentThirdVerificationRate = defaultThirdVerificationBaseRate
  stats : ∀ e stats, c.state.book.epochStats.get e = some stats →
    c.ctx.closingEpoch ≤ e → stats = defaultEpochStats e
  verifierFee : c.state.book.verifierEpochFee.isEmpty = true
  secondVerifierFee : c.state.book.secondVerifierEpochFee.isEmpty = true
  dishonest : c.state.book.dishonestCount.isEmpty = true
  mismatch : c.state.book.tokenMismatch.isEmpty = true

instance (c : Chain) : Decidable (Quiescent c) := decidable_of_iff' _ (quiescent_iff ..)

namespace Quiescent

/-- An empty queue is the one the module starts with. -/
theorem queue_empty {third : Bool} {q : AuditQueue third} (hpending : q.pending.isEmpty = true)
    (htimeouts : q.timeouts.isEmpty = true) : q = .empty := by
  obtain ⟨pending, timeouts⟩ := q
  obtain rfl := Table.eq_empty_of_isEmpty hpending
  obtain rfl := Table.eq_empty_of_isEmpty htimeouts
  rfl

/-- The ledger holds accounts and the log of the past. -/
theorem ledger_eq (h : Quiescent c) (hindex : c.state.ledger.frozenTaskIndex = ∅) :
    { empty with inferenceAccounts := c.state.ledger.inferenceAccounts } =
      { c.state.ledger with log := [] } := by
  simp [empty, Table.eq_empty_of_isEmpty h.settledTasks,
    Table.eq_empty_of_isEmpty h.fraudMarks, Table.eq_empty_of_isEmpty h.votes,
    Table.eq_empty_of_isEmpty h.frozenBalance, queue_empty h.second h.secondTimeouts,
    queue_empty h.third h.thirdTimeouts, hindex]

/-- What is read of the bookkeeping is what a new start reads. -/
theorem book_alike (h : Quiescent c) (records) (counter : Option UInt64) :
    Book.Alike c.ctx.closingEpoch c.state.book
      { Book.empty with batchRecords := records, batchCounter := counter } where
  stats := by
    intro epoch hepoch
    have hstart : Book.getEpochStats { Book.empty with
        batchRecords := records, batchCounter := counter } epoch = defaultEpochStats epoch := by
      simp [Book.getEpochStats, Book.empty]
    rw [hstart, Book.getEpochStats]
    cases hget : c.state.book.epochStats.get epoch with
    | none => rfl
    | some stats => exact (h.stats epoch stats hget hepoch).symm
  secondRate := h.secondRate.symm
  thirdRate := h.thirdRate.symm
  verifierFee := (Table.eq_empty_of_isEmpty h.verifierFee).symm
  secondVerifierFee := (Table.eq_empty_of_isEmpty h.secondVerifierFee).symm
  dishonest := (Table.eq_empty_of_isEmpty h.dishonest).symm
  mismatch := (Table.eq_empty_of_isEmpty h.mismatch).symm

/-- **A chain at rest and its restart are alike.** -/
theorem alike (h : Quiescent c) (hindex : c.state.ledger.frozenTaskIndex = ∅) :
    c.Alike c.ctx.closingEpoch c.restarted where
  ctx := rfl
  state := by
    obtain ⟨records, counter, hbook⟩ := book_initGenesis (exportGenesis c.state) c.state.world
    refine ⟨[], _, h.book_alike records counter, ?_⟩
    have hledger := ledger_initGenesis_export c.state c.state.world
    rw [h.ledger_eq hindex] at hledger
    calc c.restarted.state
        = ⟨c.state.params, (initGenesis (exportGenesis c.state) c.state.world).ledger,
            (initGenesis (exportGenesis c.state) c.state.world).book, c.state.world⟩ := rfl
      _ = _ := by rw [hledger, hbook]
  now := Int.le_refl _

end Quiescent

/-! ## the restarted chain -/

theorem Alike.inferenceAccounts {s s' : State} (h : Alike now s s') :
    s'.ledger.inferenceAccounts = s.ledger.inferenceAccounts := by
  obtain ⟨log, book, -, rfl⟩ := h
  rfl

/-- Alike chains reply alike. -/
theorem Chain.Alike.reply (h : c.Alike now c') (ev : Event) : c.reply env ev = c'.reply env ev := by
  have hepoch : now ≤ c.ctx.epoch := Int.le_of_lt (Int.lt_of_le_of_lt h.now c.ctx.closingEpoch_lt)
  cases ev with
  | tx msg =>
    simp only [Chain.reply, h.ctx]
    have hagree : Agree (Beside (Settlement.Alike now)) (handle env c.ctx c.state msg)
        (handle env c.ctx c'.state msg) := h.state.handle hepoch msg
    rw [hagree.map_eq fun _ _ hp => hp.2]
  | endBlock | outside => rfl

/-- **Alike chains answer alike**, whatever happens. -/
theorem Chain.Alike.answers (h : c.Alike now c') (evs : List Event) :
    c.answers env evs = c'.answers env evs := by
  induction evs generalizing c c' with
  | nil => rfl
  | cons ev _ ih =>
    have hrel : Option.Rel (Chain.Alike now) (c.step env ev) (c'.step env ev) := h.step ev
    simp only [Chain.answers, h.reply ev]
    obtain ⟨hstep, hstep'⟩ | ⟨d, d', hstep, hstep', hd⟩ := rel_cases hrel
    · rw [hstep, hstep']
    · simp [hstep, hstep', ih hd, hd.state.inferenceAccounts, hd.state.world]

/-- **A restart changes nothing for a chain at rest**: whatever is submitted from
then on is answered and charged as without the restart. -/
theorem restart_at_rest {c₀ c : Chain} (hgenesis : AtGenesis env c₀)
    (run : Run env (fun _ _ => True) c₀ c) (hquiescent : Quiescent c) (evs : List Event) :
    c.answers env evs = c.restarted.answers env evs := by
  have hwf : WellFormed env c.state := run.wellFormed hgenesis
  exact (hquiescent.alike hwf.unindexed).answers evs

/-- A task is settled and forgotten again: the chain is at rest, with a smaller
balance than at its start. -/
theorem restart_at_rest_devnet : ∃ c,
    Run devEnv (fun _ _ => True) (devnet .default [("user", 1000)]) c ∧
      c.state.ledger.balanceOf (devAddr "user") = 900 ∧
      c.answers devEnv [devBatch [devEntry [255] "user" 100 5000]] =
        c.restarted.answers devEnv [devBatch [devEntry [255] "user" 100 5000]] := by
  refine exists_and_imp
    (q := fun c => c.state.ledger.balanceOf (devAddr "user") = 900 ∧ Quiescent c)
    (Run.exists_of_exec [devBatch [devEntry [255] "user" 100 500], devEndBlock 1600,
      devEndBlock 1700] (by decide +kernel)) ?_
  rintro c run ⟨hbalance, hquiescent⟩
  exact ⟨hbalance, restart_at_rest atGenesis_user run hquiescent _⟩

/-- The balance of a user in what an event shows. -/
def Observation.balanceOf (o : Observation) (a : Addr) : Option Int :=
  o.after.bind fun after => (after.1.get a).map fun ia => ia.balance.amount

/-- **A restart forgets what was settled**: the batch that was paid is refused by
the chain itself and charged a second time by the restarted one. -/
theorem restart_forgets : ∃ c evs,
    Run devEnv (fun _ _ => True) (devnet .default [("user", 1000)]) c ∧
      c.answers devEnv evs ≠ c.restarted.answers devEnv evs := by
  have hrun : ∃ c, Run devEnv (fun _ _ => True) (devnet .default [("user", 1000)]) c ∧
      (c.answers devEnv [devBatch [devEntry [255] "user" 100 5000]]).map
          (fun o => o.balanceOf (devAddr "user")) ≠
        (c.restarted.answers devEnv [devBatch [devEntry [255] "user" 100 5000]]).map
          (fun o => o.balanceOf (devAddr "user")) :=
    Run.exists_of_exec [devBatch [devEntry [255] "user" 100 5000]] (by decide +kernel)
  obtain ⟨c, run, hne⟩ := hrun
  exact ⟨c, _, run, fun he => hne (congrArg _ he)⟩

end FunaiChain.Settlement
