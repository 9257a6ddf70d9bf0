import FunaiChain.Modelreg.Keeper

/-!
# FunaiChain.Modelreg.Identity

Who a model is.  A proposal writes the model under its id and the id under its alias, in
two stores; updates of the statistics rewrite the model and leave its name alone.  So the
two stores stay inverse to each other, and every id is computed from the hashes that are
stored under it.

`ComputeModelId` writes each hash behind its length in eight bytes.  The length of a Go
string fits an `int`, so the three texts can be read back, and ids differ unless `sha256`
collides.
-/

namespace FunaiChain.Modelreg

open State

variable {env : Env} {wk : WorkerKeeper} {height : Int} {s s' : State} {m : ModelId}
  {model model' : Model}

/-! ## the encoding -/

/-- The length of every Go string. -/
def Sized (t : String) : Prop := (Utf8.bytes t).length < 2 ^ 63

/-- The eight bytes of a length determine it. -/
theorem lenPrefix_inj {n k : Nat} (hn : n < 2 ^ 64) (hk : k < 2 ^ 64)
    (h : lenPrefix n = lenPrefix k) : n = k := by
  have hbyte : ∀ i < 8, n / 2 ^ (8 * (7 - i)) % 256 = k / 2 ^ (8 * (7 - i)) % 256 := by
    intro i hi
    have hi' := congrArg (fun l : Bytes => (l.getD i 0).toNat) h
    simpa [lenPrefix, List.getD, hi] using hi'
  have hhigh : n / 2 ^ 32 = k / 2 ^ 32 := by
    have h0 := hbyte 0 (by omega)
    have h1 := hbyte 1 (by omega)
    have h2 := hbyte 2 (by omega)
    have h3 := hbyte 3 (by omega)
    omega
  have hlow : n % 2 ^ 32 = k % 2 ^ 32 := by
    have h4 := hbyte 4 (by omega)
    have h5 := hbyte 5 (by omega)
    have h6 := hbyte 6 (by omega)
    have h7 := hbyte 7 (by omega)
    omega
  omega

theorem bytes_inj {t t' : String} (h : Utf8.bytes t = Utf8.bytes t') : t = t' := by
  exact String.toByteArray_inj.mp (ByteArray.ext (Array.toList_inj.mp h))

/-- A text can be read off the front of what is written. -/
theorem writeLenPrefixed_append_inj {t t' : String} {rest rest' : Bytes} (ht : Sized t)
    (ht' : Sized t') (h : writeLenPrefixed t ++ rest = writeLenPrefixed t' ++ rest') :
    t = t' ∧ rest = rest' := by
  unfold Sized at ht ht'
  simp only [writeLenPrefixed, List.append_assoc] at h
  obtain ⟨hlen, h⟩ := List.append_inj h (by simp [lenPrefix])
  have hlength := lenPrefix_inj (by omega) (by omega) hlen
  obtain ⟨hbytes, hrest⟩ := List.append_inj h hlength
  exact ⟨bytes_inj hbytes, hrest⟩

/-- What `ComputeModelId` hashes. -/
def idBytes (weightHash quantConfigHash runtimeImageHash : String) : Bytes :=
  writeLenPrefixed weightHash ++ writeLenPrefixed quantConfigHash ++
    writeLenPrefixed runtimeImageHash

/-- What is hashed determines the three texts. -/
theorem idBytes_inj {w q r w' q' r' : String} (hw : Sized w) (hq : Sized q) (hr : Sized r)
    (hw' : Sized w') (hq' : Sized q') (hr' : Sized r') (h : idBytes w q r = idBytes w' q' r') :
    w = w' ∧ q = q' ∧ r = r' := by
  simp only [idBytes, List.append_assoc] at h
  obtain ⟨rfl, hrest⟩ := writeLenPrefixed_append_inj hw hw' h
  obtain ⟨rfl, hlast⟩ := writeLenPrefixed_append_inj hq hq' hrest
  have hlast := congrArg (· ++ ([] : Bytes)) hlast
  exact ⟨rfl, rfl, (writeLenPrefixed_append_inj hr hr' hlast).1⟩

theorem encode_inj {b b' : Bytes} (h : Hex.encode b = Hex.encode b') : b = b' := by
  have hdecoded := congrArg Hex.decode h
  rw [Hex.decode_encode, Hex.decode_encode] at hdecoded
  exact (Prod.mk.inj hdecoded).1

/-- `sha256` does not collide on the texts that ids are computed from. -/
def CollisionFree (env : Env) : Prop :=
  ∀ w q r w' q' r', env.sha256 (idBytes w q r) = env.sha256 (idBytes w' q' r') →
    idBytes w q r = idBytes w' q' r'

/-! ## what identifies a model -/

/-- The alias and the hashes of a model. -/
def Model.identity (model : Model) : String × String × String × String :=
  (model.aliasName, model.weightHash, model.quantConfigHash, model.runtimeImageHash)

/-- The stores correspond, and ids are those of the hashes. -/
structure Identified (env : Env) (s : State) : Prop where
  aliases : ∀ a m, s.aliases.get a = some m ↔
    ∃ model, s.getModel m = some model ∧ model.aliasName = a
  ids : ∀ m model, s.getModel m = some model →
    m = computeModelId env model.weightHash model.quantConfigHash model.runtimeImageHash

/-- The stores of names are the same. -/
structure SameNames (s s' : State) : Prop where
  aliases : s'.aliases = s.aliases
  models : ∀ m, (s'.getModel m).map Model.identity = (s.getModel m).map Model.identity

namespace SameNames

theorem refl (s : State) : SameNames s s := ⟨rfl, fun _ => rfl⟩

theorem trans {s'' : State} (h : SameNames s s') (h' : SameNames s' s'') : SameNames s s'' :=
  ⟨h'.aliases.trans h.aliases, fun m => (h'.models m).trans (h.models m)⟩

/-- A model that is rewritten with its alias and hashes. -/
theorem setModel (h : s.getModel m = some model) (hid : model'.modelId = model.modelId)
    (hnames : model'.identity = model.identity) : SameNames s (s.setModel model') := by
  refine ⟨rfl, fun k => ?_⟩
  have hm : model.modelId = m := Table.law_of_get (t := s.models) h
  unfold State.setModel getModel
  rw [Table.get_set, hid, hm]
  split
  · next hk =>
    subst hk
    rw [getModel] at h
    rw [h, Option.map_some, Option.map_some, hnames]
  · rfl

/-- A model with its names, in the other state. -/
theorem find (h : SameNames s s') (hm : s'.getModel m = some model') :
    ∃ model, s.getModel m = some model ∧ model.identity = model'.identity := by
  have hnames := h.models m
  rw [hm, Option.map_some] at hnames
  exact Option.map_eq_some_iff.mp hnames.symm

theorem symm (h : SameNames s s') : SameNames s' s := ⟨h.aliases.symm, fun m => (h.models m).symm⟩

theorem identified (h : SameNames s s') (hs : Identified env s) : Identified env s' := by
  refine ⟨fun a m => ?_, fun m model' hm => ?_⟩
  · rw [h.aliases, hs.aliases]
    constructor
    · rintro ⟨model, hm, rfl⟩
      obtain ⟨model', hm', hnames⟩ := h.symm.find hm
      exact ⟨model', hm', congrArg Prod.fst hnames⟩
    · rintro ⟨model', hm', rfl⟩
      obtain ⟨model, hm, hnames⟩ := h.find hm'
      exact ⟨model, hm, congrArg Prod.fst hnames⟩
  · obtain ⟨model, hmodel, hnames⟩ := h.find hm
    have hid := hs.ids m model hmodel
    simp only [Model.identity, Prod.mk.injEq] at hnames
    rw [hnames.2.1, hnames.2.2.1, hnames.2.2.2] at hid
    exact hid

end SameNames

/-! ## the functions of the keeper -/

theorem checkAndActivateModel_names (s : State) (m : ModelId) :
    SameNames s (checkAndActivateModel env height s m) := by
  unfold checkAndActivateModel
  split
  · exact .refl s
  · next model hmodel =>
    split
    · exact .refl s
    · split
      · exact .setModel hmodel rfl rfl
      · exact .refl s

theorem updateModelStats_names {msg : MsgUpdateModelStats}
    (h : updateModelStats env height s msg = .ok s') : SameNames s s' := by
  obtain ⟨_, -, h⟩ := bind_eq_ok.mp h
  split at h
  · cases h
  · next model hmodel =>
    cases h
    refine SameNames.trans ?_ (checkAndActivateModel_names _ _)
    exact .setModel hmodel rfl rfl

theorem refreshModelStats_names (h : refreshModelStats env wk height s m = .ok s') :
    SameNames s s' := by
  unfold refreshModelStats at h
  split at h
  · cases h
    exact .refl s
  · next model hmodel =>
    obtain ⟨total, -, h⟩ := bind_eq_ok.mp h
    obtain ⟨t, -, h⟩ := bind_eq_ok.mp h
    obtain ⟨ratio, -, h⟩ := bind_eq_ok.mp h
    cases h
    refine SameNames.trans ?_ (checkAndActivateModel_names _ _)
    exact .setModel hmodel rfl rfl

theorem recordModelTask_names (s : State) (m : ModelId) (fee latencyMs : UInt64) :
    SameNames s (recordModelTask s m fee latencyMs) := by
  unfold recordModelTask
  split
  · exact .refl s
  · next model hmodel =>
    dsimp only
    split
    · exact .setModel hmodel rfl rfl
    · exact .setModel hmodel rfl rfl

/-- **A proposal** adds one model and its alias, both of them new. -/
theorem proposeModel_identified {msg : MsgModelProposal}
    (h : proposeModel env height s msg = .ok s') (hs : Identified env s) : Identified env s' := by
  obtain ⟨_, -, h⟩ := bind_eq_ok.mp h
  obtain ⟨_, hnew, h⟩ := bind_eq_ok.mp h
  obtain ⟨_, hfree, h⟩ := bind_eq_ok.mp h
  cases h
  have hnew : s.getModel (computeModelId env msg.weightHash msg.quantConfigHash
      msg.runtimeImageHash) = none := Option.isNone_iff_eq_none.mp (ensure_eq_ok.mp hnew)
  have hfree : s.aliases.get msg.aliasName = none := by
    simpa [Table.has] using ensure_eq_ok.mp hfree
  generalize hid : computeModelId env msg.weightHash msg.quantConfigHash msg.runtimeImageHash = id
    at hnew ⊢
  refine ⟨fun a m => ?_, fun m model hm => ?_⟩
  · dsimp only [getModel, setModel]
    rw [Table.get_put, Table.get_set]
    by_cases ha : msg.aliasName = a
    · -- the alias was free, so only the new model has it
      subst ha
      rw [if_pos rfl, Option.some.injEq]
      constructor
      · simp_all
      · rintro ⟨model, hm, halias⟩
        by_cases hne : id = m
        · exact hne
        · rw [if_neg hne] at hm
          have := (hs.aliases _ _).mpr ⟨model, hm, halias⟩
          rw [hfree] at this
          contradiction
    · rw [if_neg ha, hs.aliases]
      by_cases hm : id = m
      · grind
      · rw [if_neg hm]
        rfl
  · dsimp only [getModel, setModel] at hm
    rw [Table.get_set] at hm
    split at hm
    · grind
    · exact hs.ids m model hm

/-! ## reachable registries -/

/-- A proposal, an update of the statistics, or a change of the installations that updates
are computed from. -/
inductive Step (env : Env) (s : State) : State → Prop
  | propose {s' : State} (height : Int) (msg : MsgModelProposal)
      (accepted : proposeModel env height s msg = .ok s') : Step env s s'
  | update {s' : State} (height : Int) (msg : MsgUpdateModelStats)
      (accepted : updateModelStats env height s msg = .ok s') : Step env s s'
  | refresh {s' : State} (wk : WorkerKeeper) (height : Int) (m : ModelId)
      (returns : refreshModelStats env wk height s m = .ok s') : Step env s s'
  | record (m : ModelId) (fee latencyMs : UInt64) :
      Step env s (recordModelTask s m fee latencyMs)
  | install (installed : Store Bytes Unit) : Step env s { s with installed := installed }

/-- The states that an empty registry can get to. -/
inductive Reachable (env : Env) : State → Prop
  | empty (params : Params) : Reachable env (.empty params)
  | step {s s' : State} (reached : Reachable env s) (next : Step env s s') : Reachable env s'

/-- Every step keeps models and aliases in correspondence. -/
theorem Step.identified (h : Step env s s') (hs : Identified env s) : Identified env s' := by
  cases h with
  | propose _ _ accepted => exact proposeModel_identified accepted hs
  | update _ _ accepted => exact (updateModelStats_names accepted).identified hs
  | refresh _ _ _ returns => exact (refreshModelStats_names returns).identified hs
  | record m fee latencyMs => exact (recordModelTask_names s m fee latencyMs).identified hs
  | install => exact ⟨hs.aliases, hs.ids⟩

theorem Reachable.identified (h : Reachable env s) : Identified env s := by
  induction h with
  | empty =>
    refine ⟨fun a m => ?_, fun m model hm => ?_⟩
    · simp [State.empty, getModel, Table.get_empty]
    · simp [State.empty, getModel, Table.get_empty] at hm
  | step _ next ih => exact next.identified ih

/-- **The identity of models**: aliases and models correspond one to one, a model stands
under the id of its own hashes, and different hashes have different ids. -/
theorem models_identified (hfree : CollisionFree env) (h : Reachable env s) :
    (∀ a m, s.aliases.get a = some m ↔ ∃ model, s.getModel m = some model ∧ model.aliasName = a) ∧
    (∀ m model, s.getModel m = some model →
      model.modelId = m ∧ m = computeModelId env model.weightHash model.quantConfigHash
        model.runtimeImageHash) ∧
    ∀ w q r w' q' r', Sized w → Sized q → Sized r → Sized w' → Sized q' → Sized r' →
      computeModelId env w q r = computeModelId env w' q' r' → w = w' ∧ q = q' ∧ r = r' := by
  have hs := h.identified
  refine ⟨hs.aliases, fun m model hm => ⟨Table.law_of_get (t := s.models) hm, hs.ids m model hm⟩,
    fun w q r w' q' r' hw hq hr hw' hq' hr' hsame => ?_⟩
  exact idBytes_inj hw hq hr hw' hq' hr' (hfree _ _ _ _ _ _ (encode_inj hsame))

/-- An environment that hashes a text to itself. -/
def plainEnv : Env where
  accAddressFromBech32 := fun t => if t = "" then none else some [1]
  settlementAccount := [2]
  workerAccount := [3]
  blockedAddr := fun a => a == [2] || a == [3]
  sendRefused := fun _ _ _ _ => false
  signs := fun a => a == [1]
  settlement_blocked := by decide
  accounts_differ := by decide
  sha256 := id
  floatRatio := fun _ _ => 0
  floatGE := fun _ _ => true
  floatUnit := fun _ => true
  authority := "gov"

/-- A registry with one model, and two triples with the same concatenation. -/
theorem models_identified_plain : ∃ s, Reachable plainEnv s ∧ (s.aliases.get "tiny").isSome = true ∧
      (computeModelId plainEnv "ABC" "DE" "FG" = computeModelId plainEnv "AB" "CDE" "FG" →
        "ABC" = "AB" ∧ "DE" = "CDE" ∧ "FG" = "FG") := by
  have hproposed : ∃ s, proposeModel plainEnv 1 (.empty ⟨0, 0, 0⟩)
      ⟨"alice", "Tiny", "tiny", "ABC", "DE", "FG", 1, ⟨"ufai", 1⟩⟩ = .ok s ∧
      (s.aliases.get "tiny").isSome = true := by decide +kernel
  obtain ⟨s, hs, hsome⟩ := hproposed
  have hreach : Reachable plainEnv s := .step (.empty _) (.propose 1 _ hs)
  have hfree : CollisionFree plainEnv := fun _ _ _ _ _ _ h => h
  refine ⟨s, hreach, hsome, (models_identified hfree hreach).2.2 _ _ _ _ _ _ ?_ ?_ ?_ ?_ ?_ ?_⟩
  all_goals unfold Sized; decide +kernel

end FunaiChain.Modelreg
