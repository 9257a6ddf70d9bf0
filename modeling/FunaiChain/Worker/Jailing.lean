import FunaiChain.Worker.Keeper
import Mathlib.Data.List.Count

/-!
# FunaiChain.Worker.Jailing

How far a worker is on its way to the tombstone.  `JailWorker` raises a
jail count by one, and the third jailing tombstones; so `offences` counts a
tombstone as three.

`JailedOnly L` relates two worlds between which the accounts of `L` were
jailed, each at most as often as `L` names it, and nobody else was.  It
composes over appended lists (`JailedOnly.trans`), so each function of the
settlement keeper gets one lemma that names the accounts it jails.
-/

namespace FunaiChain

variable {w w' w'' : World} {a b : Addr} {height : Int} {worker worker' : Worker} {L : List Addr}
  {percent : UInt32} {recipient : Option Addr}

namespace Worker

/-- The jailings behind a record, a tombstone counted as the third. -/
def offences (worker : Worker) : Nat :=
  if worker.tombstoned then 3 else worker.jailCount.toNat

/-- The record of a worker that was not jailed in between; a run of successes
may have lowered its count. -/
structure Eased (worker worker' : Worker) : Prop where
  jailCount : worker'.jailCount ≤ worker.jailCount
  jailed : worker'.jailed = worker.jailed
  jailUntil : worker'.jailUntil = worker.jailUntil
  tombstoned : worker'.tombstoned = worker.tombstoned

namespace Eased

theorem refl (worker : Worker) : Eased worker worker := ⟨UInt32.le_refl _, rfl, rfl, rfl⟩

theorem trans {w₁ w₂ w₃ : Worker} (h : Eased w₁ w₂) (h' : Eased w₂ w₃) : Eased w₁ w₃ where
  jailCount := UInt32.le_trans h'.jailCount h.jailCount
  jailed := h'.jailed.trans h.jailed
  jailUntil := h'.jailUntil.trans h.jailUntil
  tombstoned := h'.tombstoned.trans h.tombstoned

theorem offences_le (h : Eased worker worker') : worker'.offences ≤ worker.offences := by
  have hcount := UInt32.le_iff_toNat_le.mp h.jailCount
  unfold Worker.offences
  rw [h.tombstoned]
  split <;> omega

end Eased

end Worker

namespace World

/-- The jailings behind an account; none when it is not registered. -/
def offences (w : World) (a : Addr) : Nat :=
  match w.workers.get a with
  | none => 0
  | some worker => worker.offences

theorem offences_of_get (h : w.workers.get a = some worker) : w.offences a = worker.offences := by
  simp [offences, h]

theorem offences_of_none (h : w.workers.get a = none) : w.offences a = 0 := by
  simp [offences, h]

/-- **One offence, one jail**: no account's jail count rises by more than
one. -/
def OneJail (w w' : World) : Prop := ∀ a, w'.offences a ≤ w.offences a + 1

/-- An account was not jailed between two worlds. -/
def Spares (w w' : World) (a : Addr) : Prop :=
  ∀ worker, w.workers.get a = some worker →
    ∃ worker', w'.workers.get a = some worker' ∧ worker.Eased worker'

/-- The accounts of a list were jailed, each at most as often as it is listed,
and nobody else was. -/
structure JailedOnly (L : List Addr) (w w' : World) : Prop where
  rise : ∀ a, w'.offences a ≤ w.offences a + L.count a
  spared : ∀ a, a ∉ L → w.Spares w' a

/-! ## composition -/

namespace Spares

theorem refl (w : World) (a : Addr) : w.Spares w a := fun worker h => ⟨worker, h, .refl worker⟩

theorem trans (h : w.Spares w' a) (h' : w'.Spares w'' a) : w.Spares w'' a := by
  intro worker hw
  obtain ⟨worker₁, hw₁, he₁⟩ := h worker hw
  obtain ⟨worker₂, hw₂, he₂⟩ := h' worker₁ hw₁
  exact ⟨worker₂, hw₂, he₁.trans he₂⟩

end Spares

namespace JailedOnly

variable {L' : List Addr}

/-- Nobody was jailed by a change that leaves the worker records alone. -/
theorem of_workers (h : w'.workers = w.workers) : JailedOnly [] w w' where
  rise := by
    intro a
    simp only [offences, h]
    omega
  spared := by
    intro a _ worker hw
    exact ⟨worker, by rw [h]; exact hw, .refl worker⟩

theorem refl (w : World) : JailedOnly [] w w := of_workers rfl

theorem trans (h : JailedOnly L w w') (h' : JailedOnly L' w' w'') : JailedOnly (L ++ L') w w'' where
  rise := by
    intro a
    have h₁ := h.rise a
    have h₂ := h'.rise a
    rw [List.count_append]
    omega
  spared := by
    intro a ha
    rw [List.mem_append, not_or] at ha
    exact (h.spared a ha.1).trans (h'.spared a ha.2)

/-- Naming more accounts, or an account more often, says less. -/
theorem mono (h : JailedOnly L w w') (hsub : ∀ a, L.count a ≤ L'.count a) : JailedOnly L' w w' where
  rise := by
    intro a
    have := h.rise a
    have := hsub a
    omega
  spared := by
    intro a ha
    refine h.spared a fun hmem => ha ?_
    have hpos := List.count_pos_iff.mpr hmem
    have := hsub a
    exact List.count_pos_iff.mp (by omega)

/-- Accounts that are named once are jailed at most once. -/
theorem oneJail (h : JailedOnly L w w') (hnodup : L.Nodup) : w.OneJail w' := by
  intro a
  have := h.rise a
  have := List.nodup_iff_count_le_one.mp hnodup a
  omega

end JailedOnly

/-! ## what the calls do -/

variable {host : Host}

/-- A change of one record that does not jail its worker. -/
theorem jailedOnly_of_eased (hget : w.workers.get a = some worker)
    (hget' : w'.workers.get a = some worker') (heased : worker.Eased worker')
    (hother : ∀ b, b ≠ a → w'.workers.get b = w.workers.get b) : JailedOnly [] w w' := by
  have hspares : ∀ b, w.Spares w' b := by
    intro b wb hb
    by_cases hba : b = a
    · grind
    · exact ⟨wb, by rw [hother b hba, hb], .refl wb⟩
  refine ⟨fun b => ?_, fun b _ => hspares b⟩
  cases hb : w.workers.get b with
  | none =>
    have hba : b ≠ a := by grind
    rw [offences_of_none ((hother b hba).trans hb)]
    omega
  | some wb =>
    obtain ⟨wb', hb', he⟩ := hspares b wb hb
    rw [offences_of_get hb, offences_of_get hb']
    have := he.offences_le
    omega

theorem jailedOnly_setWorker (hget : w.workers.get a = some worker)
    (haddr : worker'.address = worker.address) (heased : worker.Eased worker') :
    JailedOnly [] w (w.setWorker worker') := by
  have hkey : worker'.address = a := haddr.trans (address_of_get hget)
  have hget' : (w.setWorker worker').workers.get a = some worker' := by
    rw [get_setWorker, if_pos hkey]
  refine jailedOnly_of_eased hget hget' heased fun b hb => ?_
  rw [get_setWorker, if_neg (by rw [hkey]; exact hb.symm)]

theorem jailedOnly_updateWorker (w : World) (a : Addr) (f : Worker → Worker)
    (hf : ∀ worker, (f worker).address = worker.address)
    (heased : ∀ worker : Worker, worker.Eased (f worker)) :
    JailedOnly [] w (w.updateWorker a f hf) := by
  cases hget : w.workers.get a with
  | none =>
    refine .of_workers (Table.ext_get fun b => ?_)
    rw [get_updateWorker]
    split
    · next he => rw [← he, hget]; rfl
    · rfl
  | some worker =>
    have hget' : (w.updateWorker a f hf).workers.get a = some (f worker) := by
      rw [get_updateWorker, if_pos rfl, hget]
      rfl
    refine jailedOnly_of_eased hget hget' (heased worker) fun b hb => ?_
    rw [get_updateWorker, if_neg hb.symm]

/-- A slash takes coins; it leaves the counts alone. -/
theorem jailedOnly_slashWorkerInternal :
    OnValue (JailedOnly [] w) (slashWorkerInternal host w a percent recipient) := by
  refine slashWorkerInternal_spec.mono ?_
  rintro w' (rfl | ⟨worker, bank, stake, amount, hget, -, -, rfl⟩)
  · exact .refl _
  · have hbank : JailedOnly [] w { w with bank := bank } := .of_workers rfl
    have hset : JailedOnly [] { w with bank := bank }
        ({ w with bank := bank }.setWorker { worker with stake := stake }) :=
      jailedOnly_setWorker hget rfl ⟨UInt32.le_refl _, rfl, rfl, rfl⟩
    exact hbank.trans hset

theorem jailedOnly_incrementSuccessStreak (w : World) (a : Addr) :
    JailedOnly [] w (w.incrementSuccessStreak a) := by
  refine jailedOnly_updateWorker w a _ _ fun worker => ?_
  dsimp only
  split
  · refine ⟨?_, rfl, rfl, rfl⟩
    split
    · grind
    · exact UInt32.le_refl _
  · exact ⟨UInt32.le_refl _, rfl, rfl, rfl⟩

theorem jailedOnly_updateWorkerStats {fee : Coin} :
    OnValue (JailedOnly [] w) (updateWorkerStats height w a fee) := by
  unfold updateWorkerStats
  split
  · exact .ok (.refl w)
  · next worker hget =>
    exact .after fun _ _ => .ok (jailedOnly_setWorker hget rfl ⟨UInt32.le_refl _, rfl, rfl, rfl⟩)

theorem jailedOnly_reputationOnAccept (w : World) (a : Addr) :
    JailedOnly [] w (w.reputationOnAccept a) :=
  jailedOnly_updateWorker w a _ _ fun _ => ⟨UInt32.le_refl _, rfl, rfl, rfl⟩

theorem jailedOnly_updateAvgLatency (w : World) (a : Addr) (latencyMs : UInt32) :
    JailedOnly [] w (w.updateAvgLatency a latencyMs) := by
  unfold updateAvgLatency
  split
  · exact .refl w
  · exact jailedOnly_updateWorker w a _ _ fun _ => ⟨UInt32.le_refl _, rfl, rfl, rfl⟩

/-! ## jailing -/

/-- A slash leaves the records of the others alone. -/
theorem get_slashWorkerInternal_of_ne (hne : b ≠ a) :
    OnValue (fun w' => w'.workers.get b = w.workers.get b)
    (slashWorkerInternal host w a percent recipient) := by
  refine slashWorkerInternal_spec.mono ?_
  rintro w' (rfl | ⟨worker, bank, stake, amount, hget, -, -, rfl⟩)
  · rfl
  · exact (get_setWorker ..).trans (if_neg (by rw [address_of_get hget]; exact hne.symm))

/-- What a jailing does to the record it finds. -/
inductive Jailing (worker worker' : Worker) : Prop
  | tombstoned (h : worker.tombstoned = true) (hkept : worker' = worker)
  | third (h : worker.tombstoned = false) (hcount : 3 ≤ worker.jailCount + 1)
      (htomb : worker'.tombstoned = true)
  | timed (h : worker.tombstoned = false) (hcount : ¬ 3 ≤ worker.jailCount + 1)
      (hraised : worker'.jailCount = worker.jailCount + 1) (htomb : worker'.tombstoned = false)

/-- **A jailing** changes the record of one account. -/
theorem jailWorker_cases : OnValue (fun w' => (∀ b, b ≠ a → w'.workers.get b = w.workers.get b) ∧
    (w.workers.get a = none → w' = w) ∧ ∀ worker, w.workers.get a = some worker →
    ∃ worker', w'.workers.get a = some worker' ∧ Jailing worker worker')
    (jailWorker host height w a) := by
  unfold jailWorker
  cases hget : w.workers.get a with
  | none => exact .ok ⟨fun _ _ => rfl, fun _ => rfl, by simp⟩
  | some worker =>
    refine .ite (fun htomb => .ok ⟨fun _ _ => rfl, nofun, ?_⟩) fun htomb => ?_
    · rintro _ ⟨⟩
      exact ⟨worker, hget, .tombstoned htomb rfl⟩
    replace htomb : worker.tombstoned = false := by simpa using htomb
    refine .ite (fun hcount => .after fun w₁ hslash => .ok ⟨fun b hb => ?_, nofun, ?_⟩)
      fun hcount => .ok ⟨fun b hb => ?_, nofun, ?_⟩
    · rw [get_updateWorker, if_neg hb.symm]
      exact (get_slashWorkerInternal_of_ne hb).get hslash
    · rintro _ ⟨⟩
      obtain ⟨worker₁, hget₁, -⟩ := (jailedOnly_slashWorkerInternal.get hslash).spared a
        List.not_mem_nil worker hget
      refine ⟨{ worker₁ with
        tombstoned := true, status := .jailed, jailed := true, jailUntil := 0 }, ?_,
        .third htomb hcount rfl⟩
      rw [get_updateWorker, if_pos rfl, hget₁]
      rfl
    · exact (get_setWorker ..).trans (if_neg (by rw [address_of_get hget]; exact hb.symm))
    · rintro _ ⟨⟩
      exact ⟨_, (get_setWorker ..).trans (if_pos (address_of_get hget)),
        .timed htomb hcount rfl htomb⟩

namespace Jailing

/-- A jailing raises the count by at most one. -/
theorem offences_le (h : Jailing worker worker') : worker'.offences ≤ worker.offences + 1 := by
  cases h with
  | tombstoned _ hkept =>
    subst hkept
    omega
  | third h hcount htomb =>
    have hle := UInt32.le_iff_toNat_le.mp hcount
    have hadd : (worker.jailCount + 1).toNat ≤ worker.jailCount.toNat + 1 := by
      exact Nat.mod_le _ _
    have h3 : (3 : UInt32).toNat = 3 := rfl
    simp only [Worker.offences, h, htomb, if_true, Bool.false_eq_true, if_false]
    omega
  | timed h _ hraised htomb =>
    simp only [Worker.offences, h, htomb, Bool.false_eq_true, if_false, hraised]
    exact Nat.mod_le _ _

/-- A record that is tombstoned, or still has a jailing to come before it. -/
def Regular (worker : Worker) : Prop := worker.tombstoned = true ∨ worker.jailCount.toNat ≤ 2

/-- A jailing of such a record raises the count by one, up to the tombstone. -/
theorem offences_eq (h : Jailing worker worker') (hregular : Regular worker) :
    Regular worker' ∧ worker'.offences = min 3 (worker.offences + 1) := by
  have h3 : (3 : UInt32).toNat = 3 := rfl
  have hadd : ∀ c : UInt32, c.toNat ≤ 2 → (c + 1).toNat = c.toNat + 1 := by
    intro c hc
    rw [UInt32.toNat_add, show (1 : UInt32).toNat = 1 from rfl]
    exact Nat.mod_eq_of_lt (by omega)
  cases h with
  | tombstoned h hkept =>
    subst hkept
    refine ⟨.inl h, ?_⟩
    simp only [Worker.offences, h, if_true]
    omega
  | third h hcount htomb =>
    obtain h' | hle := hregular
    · rw [h] at h'
      cases h'
    have hcount := UInt32.le_iff_toNat_le.mp hcount
    rw [hadd _ hle] at hcount
    refine ⟨.inl htomb, ?_⟩
    simp only [Worker.offences, h, htomb, if_true, Bool.false_eq_true, if_false]
    omega
  | timed h hcount hraised htomb =>
    obtain h' | hle := hregular
    · rw [h] at h'
      cases h'
    rw [UInt32.le_iff_toNat_le, hadd _ hle] at hcount
    refine ⟨.inr ?_, ?_⟩
    · grind
    · simp only [Worker.offences, h, htomb, Bool.false_eq_true, if_false, hraised, hadd _ hle]
      omega

/-- Two jailings of a record that has at most one to go. -/
theorem offences_le_of_two {worker'' : Worker} (h : Jailing worker worker')
    (h' : Jailing worker' worker'')
    (hcount : worker.tombstoned = false → 2 ≤ worker.jailCount.toNat) :
    worker''.offences ≤ worker.offences + 1 := by
  cases h with
  | tombstoned _ hkept =>
    subst hkept
    exact h'.offences_le
  | third ht _ htomb =>
    -- the second jailing finds a tombstone
    cases h' with
    | tombstoned _ hkept =>
      have hcount := hcount ht
      rw [hkept]
      simp only [Worker.offences, htomb, ht, if_true, Bool.false_eq_true, if_false]
      omega
    | third ht' | timed ht' => rw [htomb] at ht'; contradiction
  | timed ht hle hraised htomb =>
    -- only a count that wraps around is raised here
    have hcount := hcount ht
    have hle' := h'.offences_le
    rw [UInt32.le_iff_toNat_le, UInt32.toNat_add, show (1 : UInt32).toNat = 1 from rfl,
      show (3 : UInt32).toNat = 3 from rfl] at hle
    have hlt := worker.jailCount.toNat_lt
    have hzero : worker'.jailCount.toNat = 0 := by
      rw [hraised, UInt32.toNat_add, show (1 : UInt32).toNat = 1 from rfl]
      omega
    simp only [Worker.offences, htomb, ht, Bool.false_eq_true, if_false] at hle' ⊢
    omega

end Jailing

/-- **A jailing** is one of its account and of nobody else. -/
theorem jailedOnly_jailWorker : OnValue (JailedOnly [a] w) (jailWorker host height w a) := by
  refine jailWorker_cases.mono ?_
  rintro w' ⟨hother, hnone, hsome⟩
  constructor
  · intro b
    by_cases hb : b = a
    · subst hb
      rw [List.count_singleton_self]
      cases hget : w.workers.get b with
      | none =>
        rw [hnone hget]
        omega
      | some worker =>
        obtain ⟨worker', hget', hjail⟩ := hsome worker hget
        rw [offences_of_get hget, offences_of_get hget']
        exact hjail.offences_le
    · simp only [offences, hother b hb]
      omega
  · intro b hb worker hget
    have hne : b ≠ a := fun he => hb (by simp [he])
    exact ⟨worker, by rw [hother b hne]; exact hget, .refl worker⟩

/-- A jailing of a regular record, exactly. -/
theorem offences_jailWorker (hget : w.workers.get a = some worker)
    (hregular : Jailing.Regular worker) (h : jailWorker host height w b = .ok w') :
    ∃ worker', w'.workers.get a = some worker' ∧ Jailing.Regular worker' ∧
    worker'.offences = min 3 (worker.offences + [b].count a) := by
  obtain ⟨hother, -, hsome⟩ := jailWorker_cases.get h
  by_cases hb : a = b
  · subst hb
    obtain ⟨worker', hget', hjail⟩ := hsome worker hget
    obtain ⟨hregular', hoff⟩ := hjail.offences_eq hregular
    exact ⟨worker', hget', hregular', by rw [hoff, List.count_singleton_self]⟩
  · refine ⟨worker, by rw [hother a hb]; exact hget, hregular, ?_⟩
    rw [List.count_singleton, if_neg (by simpa using fun h => hb h.symm)]
    obtain h | hle := hregular
    · simp [Worker.offences, h]
    · unfold Worker.offences
      split <;> omega

/-! ## several jailings -/

/-- Jail the accounts of a list, one after the other. -/
def jailAll (host : Host) (height : Int) (w : World) (L : List Addr) : Exec World :=
  L.foldlM (jailWorker host height) w

theorem jailAll_nil : jailAll host height w [] = .ok w := rfl

theorem jailAll_cons : jailAll host height w (a :: L) =
    (jailWorker host height w a >>= fun w => jailAll host height w L) := List.foldlM_cons

theorem jailAll_singleton : jailAll host height w [a] = jailWorker host height w a := by
  rw [jailAll_cons]
  cases jailWorker host height w a <;> rfl

theorem jailAll_append {L' : List Addr} : jailAll host height w (L ++ L') =
    (jailAll host height w L >>= fun w => jailAll host height w L') := List.foldlM_append

theorem jailedOnly_jailAll : OnValue (JailedOnly L w) (jailAll host height w L) := by
  induction L generalizing w with
  | nil => exact .ok (.refl w)
  | cons _ _ ih =>
    exact jailedOnly_jailWorker.bind fun w₁ hjail => ih.mono fun _ => hjail.trans

/-- The count of a regular record after several jailings, exactly. -/
theorem offences_jailAll (hget : w.workers.get a = some worker) (hregular : Jailing.Regular worker)
    (h : jailAll host height w L = .ok w') : w'.offences a = min 3 (w.offences a + L.count a) := by
  induction L generalizing w worker with
  | nil =>
    cases h
    rw [offences_of_get hget, List.count_nil]
    obtain ht | hle := hregular
    · simp [Worker.offences, ht]
    · unfold Worker.offences
      split <;> omega
  | cons b L ih =>
    obtain ⟨w₁, hjail, h⟩ := bind_eq_ok.mp h
    obtain ⟨worker₁, hget₁, hregular₁, hoff⟩ := offences_jailWorker hget hregular hjail
    have hcount : (b :: L).count a = [b].count a + L.count a := by grind
    rw [ih hget₁ hregular₁ h, offences_of_get hget₁, hoff, offences_of_get hget, hcount]
    omega

/-- Coins moved, and then an account was jailed. -/
def Jails (host : Host) (height : Int) (a : Addr) (w w' : World) : Prop :=
  ∃ w₁ : World, w₁.workers = w.workers ∧ jailWorker host height w₁ a = .ok w'

theorem Jails.jailedOnly (h : Jails host height a w w') : JailedOnly [a] w w' := by
  obtain ⟨w₁, hworkers, hjail⟩ := h
  exact (JailedOnly.of_workers hworkers).trans (jailedOnly_jailWorker.get hjail)

/-- A worker with two jailings to go before its third. -/
structure Vulnerable (w : World) (a : Addr) : Prop where
  registered : ∃ worker, w.workers.get a = some worker ∧ worker.tombstoned = false ∧
    worker.jailCount.toNat ≤ 1

/-- **Two jailings of one account** break the rule exactly when it can still be
jailed twice. -/
theorem oneJail_iff_of_jails (h : Jails host height a w w') (h' : Jails host height a w' w'') :
    w.OneJail w'' ↔ ¬ w.Vulnerable a := by
  obtain ⟨w₁, hworkers₁, hjail₁⟩ := h
  obtain ⟨w₂, hworkers₂, hjail₂⟩ := h'
  obtain ⟨hother₁, hnone₁, hsome₁⟩ := jailWorker_cases.get hjail₁
  obtain ⟨hother₂, hnone₂, hsome₂⟩ := jailWorker_cases.get hjail₂
  rw [hworkers₁] at hother₁ hnone₁ hsome₁
  rw [hworkers₂] at hother₂ hnone₂ hsome₂
  constructor
  · rintro hone ⟨worker, hget, htomb, hle⟩
    obtain ⟨worker₁, hget₁, hcase₁⟩ := hsome₁ worker hget
    obtain ⟨worker₂, hget₂, hcase₂⟩ := hsome₂ worker₁ hget₁
    obtain ⟨hregular₁, hoff₁⟩ := hcase₁.offences_eq (.inr (by omega))
    obtain ⟨-, hoff₂⟩ := hcase₂.offences_eq hregular₁
    have hrise := hone a
    rw [offences_of_get hget, offences_of_get hget₂, hoff₂, hoff₁] at hrise
    have hoff : worker.offences = worker.jailCount.toNat := by simp [Worker.offences, htomb]
    omega
  · intro hsafe b
    by_cases hb : b = a
    · subst hb
      cases hget : w.workers.get b with
      | none =>
        have hnone' : w''.workers.get b = none := by grind
        rw [offences_of_none hnone']
        omega
      | some worker =>
        obtain ⟨worker₁, hget₁, hcase₁⟩ := hsome₁ worker hget
        obtain ⟨worker₂, hget₂, hcase₂⟩ := hsome₂ worker₁ hget₁
        rw [offences_of_get hget, offences_of_get hget₂]
        refine hcase₁.offences_le_of_two hcase₂ fun htomb => ?_
        by_contra hle
        exact hsafe ⟨worker, hget, htomb, by omega⟩
    · simp only [offences, hother₂ b hb, hother₁ b hb]
      omega

/-! ## worlds in which jailing returns -/

/-- No worker has a stake that a third jailing could slash. -/
def Stakeless (w : World) : Prop :=
  ∀ a worker, w.workers.get a = some worker → worker.stake.isZero = true

theorem Stakeless.setWorker (h : w.Stakeless) (hworker : worker.stake.isZero = true) :
    (w.setWorker worker).Stakeless := by
  intro b worker' hget
  rw [get_setWorker] at hget
  split at hget
  · cases hget
    exact hworker
  · exact h b worker' hget

/-- Without stakes a jailing cannot panic. -/
theorem jailWorker_returns (hstake : w.Stakeless) (height : Int) (a : Addr) :
    Yields (jailWorker host height w a) Stakeless := by
  unfold jailWorker
  split
  · exact yields_ok hstake
  next worker hget =>
  split
  · exact yields_ok hstake
  dsimp only
  split
  · have hslash : slashWorker host w a w.workerParams.slashFraudPercent = .ok w := by
      unfold slashWorker slashWorkerInternal
      simp [hget, hstake a worker hget]
    rw [hslash, ok_bind]
    refine yields_ok fun b worker' hget' => ?_
    rw [get_updateWorker] at hget'
    split at hget'
    · rw [hget] at hget'
      cases hget'
      exact hstake a worker hget
    · exact hstake b worker' hget'
  · exact yields_ok (hstake.setWorker (hstake a worker hget))

theorem jailAll_returns (hstake : w.Stakeless) (height : Int) (L : List Addr) :
    Yields (jailAll host height w L) Stakeless := by
  exact foldlM_yields (P := fun _ => Stakeless)
    (fun a _ _ hstake => jailWorker_returns hstake height a) hstake

end World

end FunaiChain
