import FunaiChain.P2p.Proposer

/-!
# FunaiChain.P2p.Tasks

What becomes of the tasks of a proposer.

* `CommitBatch` computes again how much to drop, so it removes the batch that was sent
  only while the limit and the queue have not moved apart; `CommitAuditBatch` drops the
  number that `BuildAuditBatch` remembered, and the audit queue is exact in every run.
* A task finishes once, as long as no message of a finished task comes again
  (`finished_once`), and no finished task is lost, as long as none is drawn for audit and
  the commits are in step with their batches (`finished_kept`).
* A task without a receipt is passed over however old it is, and nothing takes a quiet
  audit away (`stale_entries_gone_iff`).
-/

namespace FunaiChain.P2p

section
open Settlement (TaskId MsgBatchSettlement maxSecondVerificationBatchEntries)
open Node
open Proposer hiding new
variable {env : Env} {n n' : Node} {evs : List Event} {p : Proposer} {msg : MsgBatchSettlement}
  {ev : Event}

/-! ## settlement batches -/

/-- Between commits entries are only appended. -/
theorem step_appends (hev : ev ≠ .commitBatch) :
    OnValue (fun n' => n.proposer.clearedTasks <+: n'.proposer.clearedTasks) (n.step env ev) := by
  refine step_rule List.prefix_rfl (fun m p hm _ hmove => hm.trans hmove.appends.1) fun _ => ?_
  cases ev with
  | commitBatch => contradiction
  | buildAuditBatch =>
    obtain h | h := buildAuditBatch_cases env n.proposer
    all_goals
      rw [step, h]
      exact List.prefix_rfl
  | buildBatch | commitAuditBatch => exact List.prefix_rfl
  | _ => contradiction

theorem entries_of_buildBatch (h : p.buildBatch env = some msg) :
    msg.entries = p.clearedTasks.take p.effectiveBatchLimit := by
  unfold buildBatch at h
  split at h
  · cases h
  · rw [← Option.some.inj h]

theorem clearedTasks_commitBatch (p : Proposer) :
    p.commitBatch.clearedTasks = p.clearedTasks.drop p.effectiveBatchLimit := by
  grind [commitBatch, List.drop_eq_nil_of_le]

/-- The limit is the length of the batch, or the batch is all that is queued and the limit
is not below it. -/
def Proposer.InStep (p : Proposer) (msg : MsgBatchSettlement) : Prop :=
  p.effectiveBatchLimit = msg.entries.length ∨
    p.clearedTasks.length = msg.entries.length ∧ msg.entries.length ≤ p.effectiveBatchLimit
  deriving Decidable

/-- What a commit does to a batch at the head of the queue. -/
theorem clearedTasks_eq_iff (hbatch : msg.entries <+: p.clearedTasks) :
    p.clearedTasks = msg.entries ++ p.commitBatch.clearedTasks ↔ p.InStep msg := by
  obtain ⟨rest, hrest⟩ := hbatch
  rw [Proposer.InStep, clearedTasks_commitBatch, ← hrest, List.append_cancel_left_eq]
  -- the rest of the queue is what the limit cuts off just when it has that length
  constructor
  · grind
  · rintro (h | ⟨h, hlimit⟩)
    · rw [h, List.drop_left]
    · obtain rfl : rest = [] := by simpa using h
      rw [List.append_nil, List.drop_eq_nil_of_le hlimit]

/-- **A commit removes the batch that was built and nothing else** just when the limit and
the queue are in step with it. -/
theorem commitBatch_exact {msg : MsgBatchSettlement} (hbuild : n.proposer.buildBatch env = some msg)
    (hrun : Trace (step env) (fun _ ev => ev ≠ .commitBatch) n evs n') :
    n'.proposer.clearedTasks = msg.entries ++ n'.proposer.commitBatch.clearedTasks ↔
      n'.proposer.InStep msg := by
  have hqueue : n.proposer.clearedTasks <+: n'.proposer.clearedTasks :=
    hrun.invariant (P := fun m => n.proposer.clearedTasks <+: m.proposer.clearedTasks)
      (fun _ _ _ hm hev hnext => hm.trans ((step_appends hev).get hnext)) List.prefix_rfl
  refine clearedTasks_eq_iff (.trans ?_ hqueue)
  rw [entries_of_buildBatch hbuild]
  exact List.take_prefix _ _

/-- As many tasks as the least limit allows in a batch. -/
def devTasks : List TaskId := (List.range minBatchLimit).map fun k => [UInt8.ofNat k]

/-- A full batch; before its commit another task finishes, which stays in the queue. -/
theorem commitBatch_exact_full : ∃ n, Trace (step devEnv) (fun _ _ => True) (.new "p" 0)
        (.setBatchLimit 1 :: devTasks.flatMap devTask ++ [.processPending 0 [] devTasks]) n ∧
      ∃ msg, n.proposer.buildBatch devEnv = some msg ∧
        ∃ n', Trace (step devEnv) (fun _ ev => ev ≠ .commitBatch) n
            (devTask [255] ++ [.processPending 0 [] [[255]]]) n' ∧
          n'.proposer.clearedTasks = msg.entries ++ n'.proposer.commitBatch.clearedTasks ∧
          n'.proposer.commitBatch.clearedTasks.length = 1 := by
  obtain ⟨n, hbefore, msg, hbuild, n', hrun, hstep, hleft⟩ :
      ∃ n, Trace (step devEnv) (fun _ _ => True) (.new "p" 0)
          (.setBatchLimit 1 :: devTasks.flatMap devTask ++ [.processPending 0 [] devTasks]) n ∧
        ∃ msg, n.proposer.buildBatch devEnv = some msg ∧
          ∃ n', Trace (step devEnv) (fun _ ev => ev ≠ .commitBatch) n
              (devTask [255] ++ [.processPending 0 [] [[255]]]) n' ∧
            n'.proposer.InStep msg ∧ n'.proposer.commitBatch.clearedTasks.length = 1 := by
    decide +kernel
  exact ⟨n, hbefore, msg, hbuild, n', hrun, (commitBatch_exact hbuild hrun).mpr hstep, hleft⟩

/-- A task that finishes after the batch was built is dropped by the commit. -/
theorem commitBatch_drops_unsent : ∃ n, Trace (step devEnv) (fun _ _ => True) (.new "p" 0)
        (devTask [1] ++ [.processPending 0 [] [[1]]]) n ∧
      ∃ msg, n.proposer.buildBatch devEnv = some msg ∧
        ∃ n', Trace (step devEnv) (fun _ ev => ev ≠ .commitBatch) n
            (devTask [2] ++ [.processPending 0 [] [[2]]]) n' ∧
          (∃ e ∈ n'.proposer.clearedTasks, e ∉ msg.entries) ∧
          n'.proposer.commitBatch.clearedTasks = [] := by
  decide +kernel

/-! ## audit batches -/

theorem length_flatMap_fitting (env : Env) (used : Nat) (ras : List ReadyAuditEntry)
    (hused : used ≤ maxSecondVerificationBatchEntries) :
    used + ((fitting used ras).flatMap (·.entries env)).length ≤
    maxSecondVerificationBatchEntries := by
  induction ras generalizing used with
  | nil => exact hused
  | cons ra rest ih =>
    rw [fitting]
    split
    · exact hused
    · next hfits =>
      have := ih (used + ra.responses.length) (by omega)
      have hlength : (ra.entries env).length = ra.responses.length := List.length_map _
      rw [List.flatMap_cons, List.length_append]
      omega

theorem fitting_prefix (used : Nat) (ras : List ReadyAuditEntry) : fitting used ras <+: ras := by
  induction ras generalizing used with
  | nil => exact List.prefix_rfl
  | cons ra rest ih =>
    rw [fitting]
    split
    · exact List.nil_prefix
    · exact (List.prefix_cons_inj ra).mpr (ih _)

/-- The audit queue and its log: `groups` are the audits of the batches that were
committed. -/
structure AuditQueue (env : Env) (n : Node) (groups : List (List ReadyAuditEntry)) : Prop where
  completed : n.completed = groups.flatten ++ n.proposer.readyAudits
  removed : n.removed = groups.flatten
  sent : n.sent.map (·.entries) = groups.map (·.flatMap (·.entries env))
  /-- The remembered number is that of the audits in the batch. -/
  inFlight : ∀ msg ∈ n.auditBatch, ∃ taken, taken <+: n.proposer.readyAudits ∧
    taken.length = n.proposer.auditBatchInFlight ∧ msg.entries = taken.flatMap (·.entries env)
  small : ∀ msg ∈ n.sent ++ n.auditBatch.toList,
    msg.entries.length ≤ maxSecondVerificationBatchEntries

namespace AuditQueue

variable {groups : List (List ReadyAuditEntry)}

/-- Audits that are appended to the queue leave the batch at its head. -/
theorem update (h : AuditQueue env n groups) (hready : n.proposer.readyAudits <+: p.readyAudits)
    (hflight : p.auditBatchInFlight = n.proposer.auditBatchInFlight) :
    AuditQueue env (n.update p) groups where
  completed := by
    obtain ⟨more, hmore⟩ := hready
    rw [Node.update, h.completed, ← hmore, List.drop_left, List.append_assoc]
  removed := h.removed
  sent := h.sent
  inFlight msg hmsg := by
    obtain ⟨taken, htaken, hlength, hentries⟩ := h.inFlight msg hmsg
    exact ⟨taken, htaken.trans hready, hlength.trans hflight.symm, hentries⟩
  small := h.small

theorem build (h : AuditQueue env n groups) :
    OnValue (fun n' => AuditQueue env n' groups) (n.step env .buildAuditBatch) := by
  obtain hbuilt | hbuilt := buildAuditBatch_cases env n.proposer
  all_goals rw [step, hbuilt]
  · exact ⟨h.completed, h.removed, h.sent, by simp, fun msg hmsg => h.small msg (by grind)⟩
  · refine ⟨h.completed, h.removed, h.sent, ?_, ?_⟩
    · rintro _ ⟨⟩
      exact ⟨_, fitting_prefix 0 _, rfl, rfl⟩
    · intro msg hmsg
      obtain hmsg | hmsg := List.mem_append.mp hmsg
      · exact h.small msg (List.mem_append_left _ hmsg)
      · obtain rfl : msg = _ := by simpa using hmsg
        simpa using length_flatMap_fitting env 0 n.proposer.readyAudits (Nat.zero_le _)

/-- A commit takes the audits of its batch. -/
theorem commit (h : AuditQueue env n groups) (hbatch : n.auditBatch ≠ none) :
    OnValue (fun n' => ∃ groups, AuditQueue env n' groups) (n.step env .commitAuditBatch) := by
  obtain ⟨msg, hmsg⟩ := Option.ne_none_iff_exists'.mp hbatch
  obtain ⟨taken, ⟨rest, hrest⟩, hlength, hentries⟩ := h.inFlight msg hmsg
  have hready : n.proposer.commitAuditBatch.readyAudits = rest := by
    rw [commitAuditBatch, ← hlength, ← hrest]
    simp
  refine .ok ⟨groups ++ [taken], ?_, ?_, ?_, by simp, ?_⟩
  · simp [hready, h.completed, ← hrest]
  · simp [hready, h.removed, ← hrest]
  · simp [h.sent, hmsg, hentries]
  · simpa using h.small

theorem step (h : AuditQueue env n groups) (hev : ev = .commitAuditBatch → n.auditBatch ≠ none) :
    OnValue (fun n' => ∃ groups, AuditQueue env n' groups) (n.step env ev) := by
  refine step_rule ⟨groups, h⟩ (fun m p ⟨groups, h⟩ _ hmove => ⟨groups, ?_⟩) fun _ => ?_
  · exact h.update hmove.appends.2 (by cases hmove <;> rfl)
  · cases ev with
    | commitAuditBatch => exact h.commit (hev rfl)
    | buildAuditBatch => exact h.build.mono fun _ h => ⟨groups, h⟩
    | buildBatch | commitBatch =>
      exact ⟨groups, h.completed, h.removed, h.sent, h.inFlight, h.small⟩
    | _ => contradiction

end AuditQueue

/-- **The audit queue is exact**: in every run in which a commit follows a batch that was
built, the audits are queued and taken in the order in which they were completed, and those
that were taken are the audits of the batches that were sent, each whole in one of them; no
batch is too long. -/
theorem auditQueue_exact {address : String} {auditRate : UInt32}
    (hrun : Trace (step env) (fun n ev => ev = .commitAuditBatch → n.auditBatch ≠ none)
      (.new address auditRate) evs n) : n.completed = n.removed ++ n.proposer.readyAudits ∧
      (∃ groups : List (List ReadyAuditEntry), n.removed = groups.flatten ∧
        n.sent.map (·.entries) = groups.map (·.flatMap (·.entries env))) ∧
      ∀ msg ∈ n.sent ++ n.auditBatch.toList,
        msg.entries.length ≤ maxSecondVerificationBatchEntries := by
  obtain ⟨groups, h⟩ : ∃ groups, AuditQueue env n groups :=
    hrun.invariant (P := fun n => ∃ groups, AuditQueue env n groups)
      (fun _ _ _ ⟨_, h⟩ hev hnext => (h.step hev).get hnext) ⟨[], rfl, rfl, rfl, by simp [new],
        by simp [new]⟩
  exact ⟨h.removed ▸ h.completed, ⟨groups, h.removed, h.sent⟩, h.small⟩

/-- An audit with its three responses, sent in a batch. -/
theorem auditQueue_exact_single : ∃ n : Node, n.removed ≠ [] ∧
    n.completed = n.removed ++ n.proposer.readyAudits := by
  obtain ⟨n, hrun, hremoved⟩ : ∃ n, Trace (step devEnv)
      (fun n ev => ev = .commitAuditBatch → n.auditBatch ≠ none) (.new "p" 0)
      ([1, 2, 3].map (fun k => .response ⟨[1], true, [k], [], [], 0, 0⟩) ++
        [.buildAuditBatch, .commitAuditBatch]) n ∧ n.removed ≠ [] := by decide +kernel
  exact ⟨n, hremoved, (auditQueue_exact hrun).1⟩

end

section
open Settlement (TaskId)
open Node
open Proposer hiding new
variable {env : Env} {n n' : Node} {evs : List Event} {p : Proposer} {key : TaskId}
  {f : TaskEvidence → TaskEvidence} {event ev : Event}

/-! ## tasks finish once -/

/-- The tasks that were ever cleared, and those whose audits were ever completed. -/
def Node.finished (n : Node) : List TaskId :=
  n.cleared.map (·.taskId) ++ n.completed.map (·.taskId)

/-- A receipt is for a task that is neither finished nor under audit, and a response for one
that is under audit. -/
def Event.novel (n : Node) : Event → Bool
  | .receipt _ r => r.taskId ∉ n.finished ∧ n.proposer.pendingAudits.get r.taskId = none
  | .response resp => (n.proposer.pendingAudits.get resp.taskId).isSome
  | _ => true

structure Node.Once (n : Node) : Prop where
  nodup : n.finished.Nodup
  received : ∀ key ev, n.proposer.pendingTasks.get key = some ev → ev.receipt.isSome = true →
    key ∉ n.finished ∧ n.proposer.pendingAudits.get key = none
  audited : ∀ key, (n.proposer.pendingAudits.get key).isSome = true → key ∉ n.finished

namespace Node.Once

/-- Nothing finishes. -/
theorem update (h : n.Once) (hcleared : p.clearedTasks = n.proposer.clearedTasks)
    (hready : p.readyAudits = n.proposer.readyAudits)
    (hreceived : ∀ key ev, p.pendingTasks.get key = some ev → ev.receipt.isSome = true →
    key ∉ n.finished ∧ p.pendingAudits.get key = none)
    (haudited : ∀ key, (p.pendingAudits.get key).isSome = true → key ∉ n.finished) :
    (n.update p).Once := by
  have hfinished : (n.update p).finished = n.finished := by
    simp [finished, Node.update, hcleared, hready]
  exact ⟨hfinished ▸ h.nodup, hfinished ▸ hreceived, hfinished ▸ haudited⟩

/-- A task finishes that was not finished before. -/
theorem finish (h : n.Once) (hperm : List.Perm (n.update p).finished (key :: n.finished))
    (hkey : key ∉ n.finished)
    (hreceived : ∀ a ev, p.pendingTasks.get a = some ev → ev.receipt.isSome = true →
    a ≠ key ∧ a ∉ n.finished ∧ p.pendingAudits.get a = none)
    (haudited : ∀ a, (p.pendingAudits.get a).isSome = true → a ≠ key ∧ a ∉ n.finished) :
    (n.update p).Once where
  nodup := hperm.nodup_iff.mpr (List.nodup_cons.mpr ⟨hkey, h.nodup⟩)
  received a ev hget hr := by
    have := hreceived a ev hget hr
    rw [hperm.mem_iff, List.mem_cons, not_or]
    exact ⟨⟨this.1, this.2.1⟩, this.2.2⟩
  audited a ha := by
    rw [hperm.mem_iff, List.mem_cons, not_or]
    exact haudited a ha

/-- A message that keeps the receipt. -/
theorem note (h : n.Once) (hf : ∀ ev, (f ev).receipt = ev.receipt) :
    (n.update (n.proposer.note key f hf)).Once := by
  refine h.update rfl rfl (fun a ev hget hreceipt => ?_) h.audited
  rw [get_note] at hget
  split at hget
  · next heq =>
    cases hget
    rw [hf] at hreceipt
    exact heq ▸ h.received _ _ (get_of_receipt hreceipt) hreceipt
  · exact h.received a ev hget hreceipt

theorem moves (h : n.Once)
    (hevent : (∀ now blockHash order, event ≠ .processPending now blockHash order) →
    event.novel n = true) (hmove : n.proposer.Moves env event p) : (n.update p).Once := by
  cases hmove with
  | receipt =>
    have hnew := of_decide_eq_true (hevent (by simp))
    refine h.update rfl rfl (fun key ev hget hreceipt => ?_) h.audited
    rw [get_addReceipt] at hget
    split at hget
    · next heq => exact heq ▸ hnew
    · exact h.received key ev hget hreceipt
  | note _ hreceipt => exact h.note hreceipt
  | result => refine h.note ?_
  | tune => exact h.update rfl rfl h.received h.audited
  | expires =>
    refine h.update rfl rfl (fun key ev hget => h.received key ev ?_) h.audited
    grind
  | @audits _ _ _ key ev receipt _ found received =>
    have hkey := h.received _ _ found (received ▸ rfl)
    refine h.update rfl rfl (fun a ev hget hreceipt => ?_) fun a ha => ?_
    · have := h.received a ev
      grind
    · have := h.audited a
      grind
  | @clears _ _ _ key ev receipt found received =>
    obtain ⟨hkey, haudit⟩ := h.received _ _ found (received ▸ rfl)
    obtain rfl : receipt.taskId = key := Table.law_of_get found receipt received
    refine h.finish ?_ hkey (fun a ev hget hr => ?_) fun a ha => ?_
    · simp only [finished, Node.update, List.drop_left, List.drop_length, List.append_nil,
        List.map_append, List.map_cons, List.map_nil, List.append_assoc]
      exact List.perm_middle
    · have := h.received a ev
      grind
    · have := h.audited a
      grind
  | @collects resp =>
    have hunder : (n.proposer.pendingAudits.get resp.taskId).isSome = true := hevent (by simp)
    refine h.update rfl rfl (fun a ev hget hreceipt => ?_) fun a ha => ?_
    · have := h.received a ev hget hreceipt
      grind
    · have := h.audited a
      grind
  | @completes resp =>
    have hunder : (n.proposer.pendingAudits.get resp.taskId).isSome = true := hevent (by simp)
    refine h.finish ?_ (h.audited _ hunder) (fun a ev hget hr => ?_) fun a ha => ?_
    · simp only [finished, Node.update, List.drop_left, List.drop_length, List.append_nil,
        List.map_append, List.map_cons, List.map_nil, ← List.append_assoc]
      exact List.perm_append_singleton _ _
    · have := h.received a ev hget hr
      grind
    · have := h.audited a
      grind

end Node.Once

/-- **A proposer finishes each task once**, in every run in which receipts and responses
come for tasks that wait for them. -/
theorem finished_once {address : String} {auditRate : UInt32}
    (hrun : Trace (step env) (fun n ev => ev.novel n = true) (.new address auditRate) evs n) :
    (n.cleared.map (·.taskId) ++ n.completed.map (·.taskId)).Nodup := by
  have hnew : (Node.new address auditRate).Once :=
    ⟨List.nodup_nil, by simp [new, Proposer.new], by simp [new, Proposer.new]⟩
  refine (hrun.invariant (P := Node.Once) (fun m m' ev hm hev hnext => ?_) hnew).nodup
  refine (step_rule hm (fun m₁ p h₁ hsame hmove => h₁.moves (fun h => hsame h ▸ hev) hmove)
    fun hbatch => ?_).get hnext
  cases ev with
  | buildAuditBatch =>
    obtain h | h := buildAuditBatch_cases env m.proposer
    all_goals
      rw [step, h]
      exact ⟨hm.nodup, hm.received, hm.audited⟩
  | buildBatch | commitBatch | commitAuditBatch => exact ⟨hm.nodup, hm.received, hm.audited⟩
  | _ => contradiction

/-- One task, cleared once. -/
theorem finished_once_single : ∃ n : Node, n.finished = [[1]] ∧ n.finished.Nodup := by
  obtain ⟨n, hrun, hone⟩ : ∃ n, Trace (step devEnv) (fun n ev => ev.novel n = true) (.new "p" 0)
      (devTask [1] ++ [.processPending 0 [] [[1]]]) n ∧ n.finished = [[1]] := by decide +kernel
  exact ⟨n, hone, finished_once hrun⟩

/-- The messages of a task that come again clear it again. -/
theorem replayed_task_cleared_twice : ∃ n, Trace (step devEnv) (fun _ _ => True) (.new "p" 0)
        (devTask [1] ++ .processPending 0 [] [[1]] :: devTask [1] ++
          [.processPending 0 [] [[1]]]) n ∧ n.cleared.map (·.taskId) = [[1], [1]] := by
  decide +kernel

/-! ## no finished task is lost -/

/-- A receipt and three results. -/
def TaskEvidence.Complete (ev : TaskEvidence) : Prop :=
  ev.receipt.isSome = true ∧ 3 ≤ ev.verifiers.length
  deriving Decidable

/-- No complete task is drawn for audit, and a commit is in step with its batch. -/
def Event.careful (env : Env) (n : Node) : Event → Bool
  | .processPending _ blockHash order => order.all fun key =>
      (n.proposer.pendingTasks.get key).all fun ev =>
        !(ev.Complete && n.proposer.shouldAudit env key blockHash)
  | .commitBatch => n.batch.any fun msg => n.proposer.InStep msg
  | _ => true

/-- The batch that waits for its commit is at the head of the queue. -/
def Node.BatchAtHead (n : Node) : Prop :=
  ∀ msg ∈ n.batch, msg.entries <+: n.proposer.clearedTasks

/-- Where a complete task can be. -/
def Node.Has (n : Node) (key : TaskId) : Prop :=
  (∃ ev, n.proposer.pendingTasks.get key = some ev ∧ ev.Complete) ∨
    (∃ e ∈ n.proposer.clearedTasks, e.taskId = key) ∨ ∃ e ∈ n.committed, e.taskId = key

theorem batchAtHead_step (h : n.BatchAtHead) : OnValue Node.BatchAtHead (n.step env ev) := by
  refine step_rule h (fun m p hm _ hmove msg hmsg => (hm msg hmsg).trans hmove.appends.1)
    fun _ => ?_
  cases ev with
  | commitBatch => simp [step, OnValue, BatchAtHead]
  | buildBatch => exact fun msg hmsg => entries_of_buildBatch hmsg ▸ List.take_prefix _ _
  | buildAuditBatch =>
    obtain hp | hp := buildAuditBatch_cases env n.proposer
    all_goals
      rw [step, hp]
      exact h
  | commitAuditBatch => exact h
  | _ => contradiction

/-- More evidence leaves a complete task complete. -/
theorem Node.Has.note {a : TaskId} {hf : ∀ ev, (f ev).receipt = ev.receipt}
    (hmore : ∀ ev, ev.verifiers.length ≤ (f ev).verifiers.length) (h : n.Has key) :
    (n.update (n.proposer.note a f hf)).Has key := by
  obtain ⟨ev, hget, hev⟩ | h := h
  · refine .inl ?_
    rw [Node.update, get_note]
    split
    · next heq =>
      subst heq
      refine ⟨_, rfl, ?_, ?_⟩
      · simpa [evidence, hget, hf] using hev.1
      · have := hmore ev
        simpa [evidence, hget] using hev.2.trans this
    · exact ⟨ev, hget, hev⟩
  · exact .inr h

theorem Node.Has.moves (h : n.Has key) (hmove : n.proposer.Moves env event p)
    (hdraw : ∀ now blockHash order ev, event = .processPending now blockHash order → key ∈ order →
    n.proposer.pendingTasks.get key = some ev → ev.Complete →
    n.proposer.shouldAudit env key blockHash = false) : (n.update p).Has key := by
  cases hmove with
  | note _ _ hverifiers => exact h.note fun ev => by rw [hverifiers]
  | result =>
    refine h.note fun ev => ?_
    grind [TaskEvidence.addResult]
  | @receipt now r =>
    obtain ⟨ev, hget, hev⟩ | h := h
    · refine .inl ?_
      rw [Node.update, get_addReceipt]
      split
      · next heq =>
        subst heq
        exact ⟨_, rfl, rfl, by simpa [evidence, hget] using hev.2⟩
      · exact ⟨ev, hget, hev⟩
    · exact .inr h
  | tune | collects | completes => exact h
  | @expires _ _ _ a ev found few =>
    obtain ⟨ev', hget, hev⟩ | h := h
    · refine .inl ⟨ev', ?_, hev⟩
      have := hev.2
      simp only [Node.update]
      grind
    · exact .inr h
  | @audits _ _ _ a ev receipt mem found received drawn =>
    obtain ⟨ev', hget, hev⟩ | h := h
    · refine .inl ⟨ev', ?_, hev⟩
      have hkey := Table.law_of_get found receipt received
      have := hdraw _ _ _ ev' rfl
      simp only [Node.update]
      grind
    · exact .inr h
  | @clears _ _ _ a ev receipt found received =>
    obtain ⟨ev', hget, hev⟩ | ⟨e, he, hkey⟩ | h := h
    · by_cases ha : a = key
      · exact .inr (.inl ⟨_, List.mem_append_right _ (.head _),
          (Table.law_of_get found receipt received).trans ha⟩)
      · refine .inl ⟨ev', ?_, hev⟩
        simpa [Node.update, Table.get_erase, ha] using hget
    · exact .inr (.inl ⟨e, List.mem_append_left _ he, hkey⟩)
    · exact .inr (.inr h)

theorem Node.Has.commit (h : n.Has key) (hhead : n.BatchAtHead)
    (hev : Event.commitBatch.careful env n = true) :
    OnValue (·.Has key) (n.step env .commitBatch) := by
  obtain ⟨msg, hmsg, hstep⟩ := Option.any_eq_true _ _ |>.mp hev
  have hqueue := (clearedTasks_eq_iff (hhead msg hmsg)).mpr (of_decide_eq_true hstep)
  obtain h | ⟨e, he, hkey⟩ | ⟨e, he, hkey⟩ := h
  · exact .inl h
  · -- an entry of the queue is in the batch or stays
    rw [hqueue] at he
    obtain he | he := List.mem_append.mp he
    · exact .inr (.inr ⟨e, List.mem_append_right _ (by rwa [hmsg]), hkey⟩)
    · exact .inr (.inl ⟨e, he, hkey⟩)
  · exact .inr (.inr ⟨e, List.mem_append_left _ he, hkey⟩)

theorem Node.Has.step (h : n.Has key) (hhead : n.BatchAtHead) (hev : ev.careful env n = true) :
    OnValue (·.Has key) (n.step env ev) := by
  -- while the tasks are processed, the evidence of a task is the one at the start
  let Same (m : Node) := ∀ now blockHash order, ev = .processPending now blockHash order →
    m.proposer.auditRate = n.proposer.auditRate ∧ ∀ e,
      m.proposer.pendingTasks.get key = some e → n.proposer.pendingTasks.get key = some e
  refine (step_rule (P := fun m => m.Has key ∧ Same m) ⟨h, fun _ _ _ _ => ⟨rfl, fun _ => id⟩⟩
    (fun m p hm _ hmove => ⟨hm.1.moves hmove ?_, ?_⟩) fun _ => ?_).mono fun _ h => h.1
  · rintro now blockHash order e rfl hkey hget hcomplete
    obtain ⟨hrate, hsame⟩ := hm.2 _ _ _ rfl
    have := List.all_eq_true.mp hev key hkey
    simpa [hsame e hget, hcomplete, shouldAudit, hrate] using this
  · rintro now blockHash order rfl
    obtain ⟨hrate, hsame⟩ := hm.2 _ _ _ rfl
    cases hmove with
    | note hmessage => exact absurd rfl (hmessage _ _ _)
    | tune => exact ⟨hrate, hsame⟩
    | expires | audits | clears =>
      refine ⟨hrate, fun e he => hsame e ?_⟩
      simp only [Node.update] at he
      grind
  · cases ev with
    | commitBatch => exact (h.commit hhead hev).mono fun _ h => ⟨h, fun _ _ _ he => by cases he⟩
    | buildAuditBatch =>
      obtain hp | hp := buildAuditBatch_cases env n.proposer
      all_goals
        rw [Node.step, hp]
        exact ⟨h, fun _ _ _ he => by cases he⟩
    | buildBatch | commitAuditBatch => exact ⟨h, fun _ _ _ he => by cases he⟩
    | _ => contradiction

/-- **No finished task is lost**, with or without its request, in every run in which no
complete task is drawn for audit and every commit is in step with its batch. -/
theorem finished_kept {address : String} {auditRate : UInt32} {evs₀ : List Event}
    {key : TaskId} {ev : TaskEvidence}
    (hbefore : Trace (step env) (fun n ev => ev.careful env n = true)
      (.new address auditRate) evs₀ n)
    (hev : n.proposer.pendingTasks.get key = some ev) (hreceipt : ev.receipt.isSome = true)
    (hresults : 3 ≤ ev.verifiers.length)
    (hrun : Trace (step env) (fun n ev => ev.careful env n = true) n evs n') :
    (n'.proposer.pendingTasks.get key).isSome = true ∨
      (∃ e ∈ n'.proposer.clearedTasks, e.taskId = key) ∨ ∃ e ∈ n'.committed, e.taskId = key := by
  have hhead : n.BatchAtHead := hbefore.invariant
    (fun _ _ _ h _ hnext => (batchAtHead_step h).get hnext) (by simp [BatchAtHead, new])
  have hhas : n'.BatchAtHead ∧ n'.Has key := hrun.invariant
    (P := fun n => n.BatchAtHead ∧ n.Has key)
    (fun _ _ _ h hev hnext => ⟨(batchAtHead_step h.1).get hnext, (h.2.step h.1 hev).get hnext⟩)
    ⟨hhead, .inl ⟨ev, hev, hreceipt, hresults⟩⟩
  refine hhas.2.imp_left fun hpending => ?_
  obtain ⟨ev, hget, -⟩ := hpending
  simp [hget]

/-- A request whose task id is the key of its user. -/
def devRequest (t : TaskId) : InferRequest := ⟨[], [], 0, 0, 0, t, [], 0, 0⟩

def devTaskId : TaskId := List.replicate 32 1

/-- A task that was cleared, built into a batch and committed is still on record. -/
theorem finished_kept_single : ∃ n : Node, n.proposer.clearedTasks = [] ∧
    ((n.proposer.pendingTasks.get devTaskId).isSome = true ∨
      (∃ e ∈ n.proposer.clearedTasks, e.taskId = devTaskId) ∨
        ∃ e ∈ n.committed, e.taskId = devTaskId) := by
  obtain ⟨n, hbefore, ev, hev, ⟨hreceipt, hresults⟩, n', hrun, hcleared⟩ :
      ∃ n, Trace (step devEnv) (fun n ev => ev.careful devEnv n = true) (.new "p" 0)
          (.request (devRequest devTaskId) :: devTask devTaskId) n ∧
        ∃ ev, n.proposer.pendingTasks.get devTaskId = some ev ∧ ev.Complete ∧
          ∃ n', Trace (step devEnv) (fun n ev => ev.careful devEnv n = true) n
              [.processPending 0 [] [devTaskId], .buildBatch, .commitBatch] n' ∧
            n'.proposer.clearedTasks = [] := by decide +kernel
  exact ⟨n', hcleared, finished_kept hbefore hev hreceipt hresults hrun⟩

/-- A task that is drawn for audit leaves the proposer without a settlement entry. -/
theorem audited_task_lost : ∃ n, Trace (step devEnv) (fun _ _ => True) (.new "p" 1000)
        (.request (devRequest devTaskId) :: devTask devTaskId) n ∧
      ∃ ev, n.proposer.pendingTasks.get devTaskId = some ev ∧
        (ev.Complete ∧ ev.request.isSome = true) ∧
        ∃ n', Trace (step devEnv) (fun _ _ => True) n (.processPending 0 [] [devTaskId] ::
            [1, 2, 3].map (fun k => .response ⟨devTaskId, true, [k], [], [], 0, 0⟩) ++
              [.buildAuditBatch, .commitAuditBatch]) n' ∧
          n'.proposer.pendingTasks.get devTaskId = none ∧ n'.cleared = [] ∧
          n'.proposer.pendingAudits.get devTaskId = none ∧ n'.proposer.readyAudits = [] := by
  decide +kernel

end

open Settlement (TaskId)

/-- The task has its receipt, and three results or no more time. -/
def TaskEvidence.finished (now : UInt64) (ev : TaskEvidence) : Bool :=
  ev.receipt.isSome && (3 ≤ ev.verifiers.length || Proposer.timedOut now ev)

/-- Nothing came since `TaskTimeout` before now. -/
def Stale (now seen : UInt64) : Prop := seen.toNat + 300000 < now.toNat
  deriving Decidable

namespace Proposer

variable (env : Env) (now : UInt64) (blockHash : Bytes) (p p' : Proposer) (key : TaskId)

/-- This call moves the task to the audits. -/
def drawn : Bool :=
  (p.pendingTasks.get key).any fun ev => ev.finished now && 2 ≤ ev.verifiers.length &&
    ev.receipt.any fun receipt => p.shouldAudit env receipt.taskId blockHash

/-- What is pending under a key. -/
def pending : Option TaskEvidence × Option (List SecondVerificationResponse) :=
  (p.pendingTasks.get key, p.pendingAudits.get key)

/-- What a turn of the loop leaves of it. -/
def visited : Option TaskEvidence × Option (List SecondVerificationResponse) :=
  ((p.pendingTasks.get key).filter (!·.finished now),
    if p.drawn env now blockHash key then some [] else p.pendingAudits.get key)

/-- The turns for some keys. -/
structure Visits (keys : List TaskId) : Prop where
  auditRate : p'.auditRate = p.auditRate
  pending : ∀ a, p'.pending a = if a ∈ keys then p.visited env now blockHash a else p.pending a

variable {env now blockHash p key} {audits keys : List TaskId}

theorem processTask_visits : OnValue (fun r => Visits env now blockHash p r.1 [key])
    (processTask env now blockHash (p, audits) key) := by
  have hkept (h : (p.pendingTasks.get key).all (!·.finished now)) :
      Visits env now blockHash p p [key] := by
    refine ⟨rfl, fun a => ?_⟩
    split
    · cases hfound : p.pendingTasks.get a <;> simp_all [pending, visited, drawn, Option.filter]
    · rfl
  dsimp only [processTask]
  cases hfound : p.pendingTasks.get key with
  | none => exact .ok (hkept (by simp [hfound]))
  | some ev =>
    dsimp only
    cases hreceipt : ev.receipt with
    | none => exact .ok (hkept (by simp [hfound, TaskEvidence.finished, hreceipt]))
    | some receipt =>
      refine .ite (fun hwaits => .ok (hkept ?_)) fun hdone => .either .error ?_
      · simpa [hfound, TaskEvidence.finished, hreceipt] using hwaits
      have hfinished : ev.finished now := by
        simp [TaskEvidence.finished, hreceipt]
        grind
      have hvisited : p.visited env now blockHash key = (none,
          if 2 ≤ ev.verifiers.length ∧ p.shouldAudit env receipt.taskId blockHash then some []
          else p.pendingAudits.get key) := by
        simp [visited, drawn, hfound, hfinished, hreceipt, Option.filter]
      refine .ite (fun hfew => .ok ⟨rfl, fun a => ?_⟩) fun henough =>
        .ite (fun hdraw => .ok ⟨rfl, fun a => ?_⟩) fun hpass => .ok ⟨rfl, fun a => ?_⟩
      all_goals grind [pending]

/-- The loop visits every key once. -/
theorem processPending_visits (hnodup : keys.Nodup) :
    OnValue (fun r => Visits env now blockHash p r.1 keys)
    (keys.foldlM (processTask env now blockHash) (p, audits)) := by
  induction keys generalizing p audits with
  | nil => exact .ok ⟨rfl, by simp⟩
  | cons key keys ih =>
    obtain ⟨hkey, hnodup⟩ := List.nodup_cons.mp hnodup
    refine processTask_visits.bind fun r hr => (ih hnodup).mono fun r' hr' =>
      ⟨hr'.auditRate.trans hr.auditRate, fun a => ?_⟩
    have hvisited (hsame : r.1.pending a = p.pending a) :
        r.1.visited env now blockHash a = p.visited env now blockHash a := by
      obtain ⟨htask, haudit⟩ := Prod.mk.inj hsame
      unfold visited drawn shouldAudit
      rw [htask, haudit, hr.auditRate]
    grind [hr.pending a, hr'.pending a]

/-- **Quiet entries are gone** after `ProcessPending` exactly when the quiet tasks were finished
and the quiet audits are started anew, whenever the last message on each key came. -/
theorem stale_entries_gone_iff (p : Proposer) (order : List TaskId)
    (horder : order.Perm (p.pendingTasks.entries.map Prod.fst))
    (taskSeen auditSeen : TaskId → UInt64) {r : Proposer × List TaskId}
    (h : p.processPending env now blockHash order = .ok r) :
    ((∀ key, (r.1.pendingTasks.get key).isSome → ¬ Stale now (taskSeen key)) ∧
      ∀ key, (r.1.pendingAudits.get key).isSome →
        ¬ Stale now (if p.drawn env now blockHash key then now else auditSeen key)) ↔
    (∀ key ev, p.pendingTasks.get key = some ev → Stale now (taskSeen key) → ev.finished now) ∧
      ∀ key, (p.pendingAudits.get key).isSome → Stale now (auditSeen key) →
        p.drawn env now blockHash key := by
  have hvisits : Visits env now blockHash p r.1 order :=
    (processPending_visits (horder.nodup_iff.mpr p.pendingTasks.nodup_keys)).get h
  have hafter (a : TaskId) : r.1.pending a = p.visited env now blockHash a := by
    rw [hvisits.pending, ite_eq_left_iff, horder.mem_iff]
    intro ha
    have hnone : p.pendingTasks.get a = none := by
      by_contra hsome
      obtain ⟨ev, hev⟩ := Option.ne_none_iff_exists'.mp hsome
      exact ha (List.mem_map.mpr ⟨_, Table.mem_entries.mpr hev, rfl⟩)
    simp [pending, visited, drawn, hnone]
  refine and_congr (forall_congr' fun key => ?_) (forall_congr' fun key => ?_)
  · rw [(Prod.mk.inj (hafter key)).1]
    cases p.pendingTasks.get key <;> simp [Option.filter]
    grind
  · rw [(Prod.mk.inj (hafter key)).2]
    cases p.drawn env now blockHash key <;> simp [Stale]

/-- When the last message on a task of the next run came. -/
def devSeen (key : TaskId) : UInt64 := if key = [2] then 300000 else 0

/-- A task with its results waits since the start, and another one was assigned just now: the
first is gone after the call, the second stays. -/
theorem stale_entries_gone_devnet : ∃ n, Trace (Node.step devEnv) (fun _ _ => True) (.new "p" 0)
        (devTask [1] ++ [.assignTask 300000 [2]]) n ∧
      (n.proposer.pendingTasks.get [1]).isSome ∧ Stale 300001 (devSeen [1]) ∧
      ∃ r, n.proposer.processPending devEnv 300001 [] [[1], [2]] = .ok r ∧
        (r.1.pendingTasks.get [2]).isSome ∧
        ∀ key, (r.1.pendingTasks.get key).isSome → ¬ Stale 300001 (devSeen key) := by
  obtain ⟨n, hrun, hwaits, horder, hfinished, haudits, r, hr, hstays⟩ :
      ∃ n, Trace (Node.step devEnv) (fun _ _ => True) (.new "p" 0)
          (devTask [1] ++ [.assignTask 300000 [2]]) n ∧
        (n.proposer.pendingTasks.get [1]).isSome ∧
        [[1], [2]].Perm (n.proposer.pendingTasks.entries.map Prod.fst) ∧
        (∀ t ∈ n.proposer.pendingTasks.entries, Stale 300001 (devSeen t.1) →
          t.2.finished 300001 = true) ∧ n.proposer.pendingAudits.entries = [] ∧
        ∃ r, n.proposer.processPending devEnv 300001 [] [[1], [2]] = .ok r ∧
          (r.1.pendingTasks.get [2]).isSome := by decide +kernel
  refine ⟨n, hrun, hwaits, by decide, r, hr, hstays, ?_⟩
  refine ((stale_entries_gone_iff n.proposer _ horder devSeen (fun _ => 0) hr).mpr ⟨?_, ?_⟩).1
  · exact fun key ev hev => hfinished (key, ev) (Table.mem_entries.mpr hev)
  · intro key haudit
    obtain ⟨responses, hresponses⟩ := Option.isSome_iff_exists.mp haudit
    have hmem := Table.mem_entries.mpr hresponses
    rw [haudits] at hmem
    contradiction

/-- A task that was assigned and never heard of again stays. -/
theorem assigned_stays :
    (((new "" 0).onAssignTask 0 [1]).processPending devEnv 300001 [] [[1]]).toOption.any
      (fun r => (r.1.pendingTasks.get [1]).isSome) = true ∧ Stale 300001 0 :=
  ⟨by decide +kernel, by simp [Stale]⟩

end Proposer

end FunaiChain.P2p
