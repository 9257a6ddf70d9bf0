import FunaiChain.Registry.Validators

/-!
# FunaiChain.Registry.Pubkeys

The keys of the validators.  A worker registers a key as a text that
`DecodeWorkerPubkey` accepts: base64, hexadecimal, bech32 or the raw bytes.  The text is
stored as a JSON string; the application reads it as hexadecimal into the store of the
VRF module (`State.synced`), and the rotation casts it to bytes.

So the key in an update is right only for a raw key that is valid UTF-8, and a worker is
known to the VRF module only if its text begins with hexadecimal digits.  For each key
there is a text that does and one that does not (`syncedKey_hex`, `plainText_unsynced`),
so among two workers the text decides who is selected (`not_blind_of_pair`).
`updates_wellFormed_iff` says exactly when nothing of this shows.
-/

namespace FunaiChain.Registry

open Settlement (asPubkey compressedSecp256k1PubkeyLen devAddr)

variable {env : Env} {block : Vrf.Block}
variable {key text : Bytes} {s s' : State} {a : Addr} {keys texts : Addr → Bytes}
  {vrf : Vrf.State} {w : Worker}

/-! ## texts of a key -/

/-- The bytes that the application reads from a stored text. -/
def syncedKey (text : Bytes) : Bytes := (Hex.decode (stored text)).1

theorem orElse_eq_some {o : Option Bytes} {f : Unit → Option Bytes} {b : Bytes}
    (h : o.orElse f = some b) : o = some b ∨ f () = some b := by
  cases o with
  | none => exact .inr h
  | some => exact .inl h

/-- How a text was read. -/
theorem decodeWorkerPubkey_cases (h : decodeWorkerPubkey env text = some key) :
    asPubkey (Base64.decode text) = some key ∨ asPubkey (Hex.decode? text) = some key ∨
    decodeBech32SecpPubkey env text = some key ∨ asPubkey (some text) = some key := by
  unfold decodeWorkerPubkey at h
  split at h
  · cases h
  · obtain h | h := orElse_eq_some h
    · exact .inl h
    · obtain h | h := orElse_eq_some h
      · exact .inr (.inl h)
      · exact .inr (.inr (orElse_eq_some h))

theorem asPubkey_eq_some {b : Option Bytes} :
    asPubkey b = some key ↔ b = some key ∧ key.length = 33 := by
  simp [asPubkey, compressedSecp256k1PubkeyLen]

theorem asPubkey_eq_none {b : Option Bytes} (h : ∀ x, b = some x → x.length ≠ 33) :
    asPubkey b = none := by
  cases hb : asPubkey b with
  | none => rfl
  | some x =>
    obtain ⟨hx, hlength⟩ := asPubkey_eq_some.mp hb
    exact absurd hlength (h x hx)

/-- A bech32 text carries its key behind five type bytes. -/
theorem payload_of_decodeBech32 (h : decodeBech32SecpPubkey env text = some key) :
    ∃ payload, env.bech32Payload text = some payload ∧ payload.length = 38 ∧
    payload.drop 5 = key := by
  unfold decodeBech32SecpPubkey at h
  split at h
  · cases h
  · next payload hpayload =>
    dsimp only at h
    split at h
    · next hlength => exact ⟨payload, hpayload, hlength.1, Option.some.inj h⟩
    · contradiction

theorem length_of_decodeWorkerPubkey (h : decodeWorkerPubkey env text = some key) :
    key.length = 33 := by
  obtain h | h | h | h := decodeWorkerPubkey_cases h
  · exact (asPubkey_eq_some.mp h).2
  · exact (asPubkey_eq_some.mp h).2
  · obtain ⟨payload, -, hlength, rfl⟩ := payload_of_decodeBech32 h
    rw [List.length_drop, hlength]
  · exact (asPubkey_eq_some.mp h).2

theorem decodeBech32_length (h : decodeBech32SecpPubkey env text = some key) :
    38 < text.length := by
  obtain ⟨payload, hpayload, hlength, -⟩ := payload_of_decodeBech32 h
  exact hlength ▸ env.bech32_length text payload hpayload

/-- The raw bytes of a key are accepted as they are. -/
theorem decode_raw (h : key.length = 33) : decodeWorkerPubkey env key = some key := by
  have hbase64 : asPubkey (Base64.decode key) = none := asPubkey_eq_none fun x hx => by
      have := (Base64.decode_eq_some hx).1
      omega
  have hhex : asPubkey (Hex.decode? key) = none := asPubkey_eq_none fun x hx => by
      have := (Hex.decode?_eq_some hx).1
      omega
  have hbech32 : decodeBech32SecpPubkey env key = none := by
    cases hb : decodeBech32SecpPubkey env key with
    | none => rfl
    | some =>
      have := decodeBech32_length hb
      omega
  have hne : key ≠ [] := List.ne_nil_of_length_pos (by omega)
  rw [decodeWorkerPubkey, if_neg hne, hbase64, hhex, hbech32, asPubkey_eq_some.mpr ⟨rfl, h⟩]
  rfl

/-- Hexadecimal digits are not read as base64: their number is not divisible by four. -/
theorem decode_hex (h : key.length = 33) : decodeWorkerPubkey env (Hex.encode key) = some key := by
  have hlength : (Hex.encode key).length = 66 := by rw [Hex.length_encode, h]
  have hbase64 : Base64.decode (Hex.encode key) = none := by
    cases hb : Base64.decode (Hex.encode key) with
    | none => rfl
    | some =>
      have := Base64.length_of_decode (Hex.encode_plain key) hb
      omega
  have hne : Hex.encode key ≠ [] := List.ne_nil_of_length_pos (by omega)
  rw [decodeWorkerPubkey, if_neg hne, hbase64, Hex.decode?_encode, asPubkey_eq_some.mpr ⟨rfl, h⟩]
  rfl

theorem decode_base64 (h : key.length = 33) :
    decodeWorkerPubkey env (Base64.encode key) = some key := by
  have hne : Base64.encode key ≠ [] := by
    intro hnil
    have hdecode := Base64.decode_encode key
    rw [hnil] at hdecode
    cases hdecode
    contradiction
  rw [decodeWorkerPubkey, if_neg hne, Base64.decode_encode, asPubkey_eq_some.mpr ⟨rfl, h⟩]
  rfl

theorem stored_of_ascii (h : ∀ x ∈ text, x < 128) : stored text = text :=
  (Utf8.bytes_repair_eq_iff text).mpr (Utf8.valid_of_ascii h)

/-- A stored hexadecimal text is read completely. -/
theorem syncedKey_hex (key : Bytes) : syncedKey (Hex.encode key) = key := by
  have hascii := (Hex.decode?_eq_some (Hex.decode?_encode key)).2
  rw [syncedKey, stored_of_ascii hascii, Hex.decode_encode]

/-- The base64 text of a key that begins with a hexadecimal digit does not. -/
theorem base64_head_not_hex (c : UInt8) (h : (Hex.value c).isSome = true) :
    Hex.value (Base64.char (c.toNat / 4)) = none := by
  have hall : ∀ n < 256, (Hex.value (UInt8.ofNat n)).isSome = true →
      Hex.value (Base64.char (n / 4)) = none := by decide +kernel
  exact hall c.toNat c.toNat_lt (by rwa [UInt8.ofNat_toNat])

/-- A text of the key that the application does not read: the raw bytes, or base64 where
those begin with a digit. -/
def plainText (key : Bytes) : Bytes :=
  if syncedKey key = [] then key else Base64.encode key

theorem decode_plainText (h : key.length = 33) :
    decodeWorkerPubkey env (plainText key) = some key := by
  unfold plainText
  split
  · exact decode_raw h
  · exact decode_base64 h

theorem head_base64 (c : UInt8) (key : Bytes) :
    ∃ rest, Base64.encode (c :: key) = Base64.char (c.toNat / 4) :: rest := by
  rcases key with _ | ⟨d, _ | ⟨e, key⟩⟩
  · exact ⟨_, rfl⟩
  · exact ⟨_, rfl⟩
  · exact ⟨_, rfl⟩

theorem plainText_unsynced (key : Bytes) : syncedKey (plainText key) = [] := by
  unfold plainText
  split
  · assumption
  next hsynced =>
  -- what was read begins with a digit, so the key does
  obtain ⟨c, key, rfl⟩ := List.exists_cons_of_ne_nil fun hnil => hsynced (congrArg syncedKey hnil)
  have hdigit : (Hex.value c).isSome = true := by
    by_contra hnot
    have hnone : Hex.value c = none := by simpa using hnot
    refine hsynced ?_
    obtain ⟨b, bs, hb, rfl | rfl⟩ := Utf8.head_bytes_repair c key
    · rw [syncedKey, stored, hb, Hex.decode_of_value_none hnone]
    · rw [syncedKey, stored, hb, Hex.decode_of_value_none (by decide)]
  obtain ⟨rest, hrest⟩ := head_base64 c key
  have hascii := (Base64.decode_eq_some (Base64.decode_encode (c :: key))).2
  rw [syncedKey, stored_of_ascii hascii, hrest,
    Hex.decode_of_value_none (base64_head_not_hex c hdigit)]

/-- **A stored text is the key itself only for raw keys that are valid UTF-8.** -/
theorem stored_eq_key_iff (h : decodeWorkerPubkey env text = some key) :
    stored text = key ↔ text = key ∧ Utf8.Valid text := by
  have hkey := length_of_decodeWorkerPubkey h
  have hle := Utf8.length_le_bytes_repair text
  constructor
  · intro hstored
    have hshort : text.length ≤ 33 := by
      rw [← hkey, ← hstored]
      exact hle
    have hraw : text = key := by
      obtain h | h | h | h := decodeWorkerPubkey_cases h
      · have := (Base64.decode_eq_some (asPubkey_eq_some.mp h).1).1
        omega
      · have := (Hex.decode?_eq_some (asPubkey_eq_some.mp h).1).1
        omega
      · have := decodeBech32_length h
        omega
      · exact Option.some.inj (asPubkey_eq_some.mp h).1
    refine ⟨hraw, (Utf8.bytes_repair_eq_iff text).mp ?_⟩
    rw [hraw]
    rwa [hraw] at hstored
  · rintro ⟨rfl, hvalid⟩
    exact (Utf8.bytes_repair_eq_iff text).mpr hvalid

section ReadBack

-- a bech32 text is ASCII
variable (hbech32 : ∀ t b, env.bech32Payload t = some b → ∀ x ∈ t, x < 128)
include hbech32

/-- Only the raw key is a text that need not be ASCII. -/
theorem ascii_or_raw (h : decodeWorkerPubkey env text = some key) :
    (∀ x ∈ text, x < 128) ∨ text = key := by
  obtain h | h | h | h := decodeWorkerPubkey_cases h
  · exact .inl (Base64.decode_eq_some (asPubkey_eq_some.mp h).1).2
  · exact .inl (Hex.decode?_eq_some (asPubkey_eq_some.mp h).1).2
  · obtain ⟨payload, hpayload, -⟩ := payload_of_decodeBech32 h
    exact .inl (hbech32 text payload hpayload)
  · exact .inr (Option.some.inj (asPubkey_eq_some.mp h).1)

/-- **A stored text is read as its key exactly when it is valid UTF-8.** -/
theorem decode_stored_iff (h : decodeWorkerPubkey env text = some key) :
    decodeWorkerPubkey env (stored text) = some key ↔ Utf8.Valid text := by
  constructor
  · intro hstored
    obtain hascii | rfl := ascii_or_raw hbech32 h
    · exact Utf8.valid_of_ascii hascii
    · obtain hascii | hsame := ascii_or_raw hbech32 hstored
      · rw [stored, Utf8.repair, Utf8.bytes_ofList] at hascii
        exact Utf8.valid_of_ascii_repairChars _ _ (Nat.le_refl _) hascii
      · exact (Utf8.bytes_repair_eq_iff _).mp hsame
  · intro hvalid
    rwa [stored, (Utf8.bytes_repair_eq_iff text).mpr hvalid]

omit hbech32 in
/-- A registration stores the text, and only another one replaces it. -/
theorem pubkey_later {c c₁ c₂ : Chain} {msg : MsgRegisterWorker} {evs : List Event}
    (hcreator : env.accAddressFromBech32 msg.creator = some a)
    (h : deliver env c.block c.state (.registerWorker msg) = .ok c₁.state)
    (later : RunWith env (fun _ ev => ∀ m, ev = .tx (.registerWorker m) →
    env.accAddressFromBech32 m.creator ≠ some a) c₁ evs c₂)
    (hread : c₂.state.world.workers.get a = some w) : w.pubkey = Utf8.repair msg.pubkey := by
  refine later.invariant (P := fun c => ∀ p w, c.state.entry a = some (w, p) →
    w.pubkey = Utf8.repair msg.pubkey) ?_ ?_ _ w (State.entry_of_get hread)
  · intro c c' ev hc hother hexec
    obtain ⟨labs, hsteps, hlabs⟩ := Chain.exec_steps hexec
    refine hsteps.invariant (P := fun s => ∀ p w, s.entry a = some (w, p) →
      w.pubkey = Utf8.repair msg.pubkey) (fun s s' lab hlab hs hstep p w hentry => ?_) hc
    by_cases ha : lab.addr = some a
    · have hchange := hstep.change a ha
      rw [hentry] at hchange
      generalize he : s.entry a = e at hchange
      cases hchange with
      | register =>
        obtain ⟨rfl, hcreator'⟩ := (hlabs _ hlab).causes
        cases ha
        exact absurd hcreator' (hother _ rfl)
      | _ =>
        have hkept := hs _ _ he
        exact hkept
    · exact hs p w (hstep.others a ha ▸ hentry)
  · intro p w hentry
    obtain ⟨u, hcheck, h⟩ := bind_eq_ok.mp h
    obtain ⟨b, hb, hsigns⟩ := checkSigner_eq_ok rfl hcheck
    cases hcreator.symm.trans hb
    obtain ⟨_, -, h⟩ := bind_eq_ok.mp h
    obtain ⟨stake, hstep⟩ := OnValue.get (registerWorker_step hcreator hsigns) h
    have hchange := hstep.change a rfl
    rw [hentry] at hchange
    generalize c.state.entry a = before at hchange
    cases hchange
    rfl

end ReadBack

/-- **A registered key stays usable** exactly when its text is valid UTF-8. -/
theorem registered_key_usable_iff
    (hbech32 : ∀ t b, env.bech32Payload t = some b → ∀ x ∈ t, x < 128) {c d e : Chain}
    {msg : MsgRegisterWorker} {evs : List Event} {t : String}
    (hkey : decodeWorkerPubkey env msg.pubkey = some key)
    (hcreator : env.accAddressFromBech32 msg.creator = some a)
    (h : deliver env c.block c.state (.registerWorker msg) = .ok d.state)
    (later : RunWith env (fun _ ev => ∀ m, ev = .tx (.registerWorker m) →
      env.accAddressFromBech32 m.creator ≠ some a) d evs e)
    (hread : e.state.world.getWorkerPubkey a = some t) :
    decodeWorkerPubkey env (Utf8.bytes t) = some key ↔ Utf8.Valid msg.pubkey := by
  obtain ⟨w, hget, rfl⟩ := Option.map_eq_some_iff.mp hread
  rw [pubkey_later hcreator h later hget]
  exact decode_stored_iff hbech32 hkey

/-- The key of the devnet whose last byte is one is read back. -/
theorem registered_key_usable_devnet : ∃ s, deliver devEnv (devChain 1).block (devChain 1).state
      (.registerWorker ⟨"alice@worker.example", devKey 1, [[65]], [1]⟩) = .ok s ∧
    ∃ t, s.world.getWorkerPubkey (devAddr "alice@worker.example") = some t ∧
      decodeWorkerPubkey devEnv (Utf8.bytes t) = some (devKey 1) := by
  obtain ⟨s, hs, t, ht, -⟩ : ∃ s, deliver devEnv (devChain 1).block (devChain 1).state
      (.registerWorker ⟨"alice@worker.example", devKey 1, [[65]], [1]⟩) = .ok s ∧
      ∃ t, s.world.getWorkerPubkey (devAddr "alice@worker.example") = some t ∧ True := by
    decide +kernel
  have hascii : Utf8.Valid (devKey 1) := Utf8.valid_of_ascii (by decide +kernel)
  exact ⟨s, hs, t, ht, (registered_key_usable_iff (fun _ _ h => by cases h) (c := devChain 1)
    (d := { devChain 1 with state := s }) (decode_raw rfl) rfl hs (.nil _) ht).mpr hascii⟩

/-- **A raw key that is not valid UTF-8 is lost**: its registration is accepted, and what
is read back is no key. -/
theorem raw_key_lost : ∃ c, Run devEnv (devChain 1)
      [devRegister "alice@worker.example" 200 [[65]]] c ∧
    decodeWorkerPubkey devEnv (devKey 200) = some (devKey 200) ∧
    ∃ t, c.state.world.getWorkerPubkey (devAddr "alice@worker.example") = some t ∧
      decodeWorkerPubkey devEnv (Utf8.bytes t) = none := by
  decide +kernel

/-! ## workers registered with texts -/

variable (env s keys texts)

/-- The record of a worker that registered with this text. -/
def rekey (w : Worker) : Worker :=
  { w with pubkey := Utf8.repair (texts w.address) }

theorem rekey_address (a : Addr) (w : Worker) (h : w.address = a) : (rekey texts w).address = a := h

/-- The workers of a state, registered with these texts; the VRF module has not heard of
them. -/
def State.registered : State :=
  { s with
    world :=
      { s.world with workers := s.world.workers.mapValues (rekey texts) (rekey_address texts) }
    vrf := { s.vrf with statuses := ∅ } }

/-- The active workers are told to the VRF module. -/
def State.synced : State := { s with vrf := s.activeWorkers.foldl syncWorker s.vrf }

/-- The texts are accepted, for these keys. -/
def Accepted : Prop :=
  ∀ a w, s.world.workers.get a = some w → decodeWorkerPubkey env (texts a) = some (keys a)

/-- The addresses of the active workers. -/
def State.actives : List Addr := s.activeWorkers.map Worker.address

theorem State.get_registered (a : Addr) :
    (s.registered texts).world.workers.get a = (s.world.workers.get a).map (rekey texts) :=
  Table.get_mapValues _ _ (rekey_address texts) a

theorem activeWorkers_registered :
    (s.registered texts).activeWorkers = s.activeWorkers.map (rekey texts) := by
  unfold State.activeWorkers State.getAllWorkers State.registered
  dsimp only
  rw [Table.entries_mapValues, List.map_map, List.filter_map, List.filter_map, List.map_map]
  rfl

variable {env s keys texts}

/-- An accepted text is not empty after it is stored. -/
theorem repair_ne_empty (h : decodeWorkerPubkey env text = some key) : Utf8.repair text ≠ "" := by
  intro hempty
  have hle := Utf8.length_le_bytes_repair text
  rw [hempty] at hle
  obtain rfl : text = [] := List.length_eq_zero_iff.mp (Nat.le_zero.mp hle)
  contradiction

/-- Among accepted texts the eligible workers are the active ones. -/
theorem eligible_registered (h : Accepted env s keys texts) :
    (s.registered texts).eligible = s.activeWorkers.map (rekey texts) := by
  rw [← activeWorkers_registered]
  refine List.filter_congr fun w hw => ?_
  obtain ⟨⟨a, w⟩, hmem, rfl⟩ := List.mem_map.mp hw
  have hget := Table.mem_entries.mp hmem
  rw [State.get_registered, Option.map_eq_some_iff] at hget
  obtain ⟨w, hget, rfl⟩ := hget
  have hne : Utf8.repair (texts w.address) ≠ "" := by
    rw [World.address_of_get hget]
    exact repair_ne_empty (h a w hget)
  simpa [isEligible, rekey] using fun _ => hne

theorem eligible_synced (s : State) : s.synced.eligible = s.eligible := rfl

/-! ### what the VRF module knows -/

theorem params_foldl_syncWorker (ws : List Worker) (vrf : Vrf.State) :
    (ws.foldl syncWorker vrf).params = vrf.params := by
  induction ws generalizing vrf with
  | nil => rfl
  | cons _ _ ih =>
    rw [List.foldl_cons, ih]
    unfold syncWorker
    dsimp only
    split
    · rfl
    · rfl

/-- A worker is in the store if it was there, or one of these was written under its
address. -/
theorem isSome_rankedWorker_foldl {ws : List Worker} :
    ((ws.foldl syncWorker vrf).rankedWorker a).isSome = true ↔ (vrf.rankedWorker a).isSome = true ∨
    ∃ w ∈ ws, w.address = a ∧ (Hex.decode (Utf8.bytes w.pubkey)).1 ≠ [] := by
  induction ws generalizing vrf with
  | nil => simp
  | cons w _ ih =>
    rw [List.foldl_cons, ih]
    unfold syncWorker
    dsimp only
    split
    · next hnone => simp [hnone]
    · next hsome =>
      simp only [List.exists_mem_cons_iff, ← or_assoc]
      refine or_congr_left ?_
      unfold Vrf.State.rankedWorker
      dsimp only
      rw [Table.get_put]
      by_cases ha : w.address = a
      · simp [ha, hsome]
      · simp [ha]

/-- **The VRF module knows the workers whose texts begin with hexadecimal digits.** -/
theorem isSome_rankedWorker_synced :
    ((s.registered texts).synced.vrf.rankedWorker a).isSome = true ↔
    a ∈ s.actives ∧ syncedKey (texts a) ≠ [] := by
  have hempty : (s.registered texts).vrf.rankedWorker a = none := by
    simp [State.registered, Vrf.State.rankedWorker]
  unfold State.synced
  dsimp only
  rw [isSome_rankedWorker_foldl, hempty, activeWorkers_registered]
  constructor
  · rintro (h | ⟨w, hw, rfl, hsynced⟩)
    · contradiction
    · obtain ⟨w', hw', rfl⟩ := List.mem_map.mp hw
      exact ⟨List.mem_map.mpr ⟨w', hw', rfl⟩, hsynced⟩
  · rintro ⟨ha, hsynced⟩
    obtain ⟨w, hw, rfl⟩ := List.mem_map.mp ha
    exact .inr ⟨rekey texts w, List.mem_map_of_mem hw, rfl, hsynced⟩

/-! ## the updates of registered workers -/

variable (env block s)

/-- The workers that the end of the block selects: nobody between two rotations. -/
def State.picked : List Worker :=
  if block.height % 120 = 0 then s.selected env block else []

/-- Whether a worker is selected does not depend on the text that it registered with. -/
def Blind (keys : Addr → Bytes) : Prop :=
  ∀ texts, Accepted env s keys texts → ∀ a text, decodeWorkerPubkey env text = some (keys a) →
    (a ∈ ((s.registered texts).synced.picked env block).map Worker.address ↔
      a ∈ ((s.registered (Function.update texts a text)).synced.picked env block).map
        Worker.address)

/-- Updates are well formed: they carry the keys of selected workers, one of each, no two
carry the same key, and the texts of the keys did not matter. -/
structure WellFormed (env : Env) (block : Vrf.Block) (s : State) (keys texts : Addr → Bytes)
    (updates : List ValidatorUpdate) : Prop where
  carried : updates.map ValidatorUpdate.pubkey =
    ((s.registered texts).synced.picked env block).map fun w => keys w.address
  distinct : (((s.registered texts).synced.picked env block).map Worker.address).Nodup
  unique : (updates.map ValidatorUpdate.pubkey).Nodup
  blind : Blind env block s keys

/-- Where nothing goes wrong: there is no rotation, or the active workers registered with
different raw keys that are valid UTF-8, and there is only one of them or the committee has
no seats. -/
def Benign (keys texts : Addr → Bytes) : Prop :=
  block.height % 120 ≠ 0 ∨
    (∀ a ∈ s.actives, texts a = keys a ∧ Utf8.Valid (texts a)) ∧ (s.actives.map keys).Nodup ∧
      (s.actives.length ≤ 1 ∨ Vrf.asInt s.vrf.params.committeeSize ≤ 0)

variable {env block s}

/-! ### who is selected -/

theorem addresses_selected (h : Accepted env s keys texts) :
    ((s.registered texts).synced.selected env block).map Worker.address =
    chosen env block (s.registered texts).synced.vrf s.actives := by
  rw [map_address_selected, eligible_synced, eligible_registered h, List.map_map]
  rfl

theorem params_synced (s : State) (texts : Addr → Bytes) :
    (s.registered texts).synced.vrf.params = s.vrf.params :=
  params_foldl_syncWorker _ _

/-- Two workers register in hexadecimal, all others in a text without digits. -/
def pairTexts (keys : Addr → Bytes) (x y : Addr) (a : Addr) : Bytes :=
  if a = x ∨ a = y then Hex.encode (keys a) else plainText (keys a)

section
variable (h : Accepted env s keys texts)
include h

/-- One worker, or a committee without seats: all active workers are selected, whatever
their texts are. -/
theorem addresses_of_few (hfew : s.actives.length ≤ 1 ∨ Vrf.asInt s.vrf.params.committeeSize ≤ 0) :
    ((s.registered texts).synced.selected env block).map Worker.address = s.actives := by
  rw [addresses_selected h]
  obtain hone | hseats := hfew
  · exact chosen_of_single hone
  · exact chosen_of_no_seats (by rwa [params_synced])

/-- With seats, a worker whose text begins with digits keeps those out whose do not. -/
theorem not_selected (hseats : 0 < Vrf.asInt s.vrf.params.committeeSize) {b : Addr}
    (hb : b ∈ s.actives) (hsynced : syncedKey (texts b) ≠ []) (hplain : syncedKey (texts a) = []) :
    a ∉ ((s.registered texts).synced.selected env block).map Worker.address := by
  rw [addresses_selected h]
  intro ha
  have hknown := known_of_mem_chosen (by rwa [params_synced]) hb
    (isSome_rankedWorker_synced.mpr ⟨hb, hsynced⟩) ha
  exact (isSome_rankedWorker_synced.mp hknown).2 hplain

theorem decode_of_active (ha : a ∈ s.actives) :
    decodeWorkerPubkey env (texts a) = some (keys a) := by
  obtain ⟨w, hw, rfl⟩ := List.mem_map.mp ha
  exact h _ w (World.get_of_mem (List.mem_filter.mp hw).1)

theorem accepted_pairTexts (x y : Addr) : Accepted env s keys (pairTexts keys x y) := by
  intro a w hget
  have hlength := length_of_decodeWorkerPubkey (h a w hget)
  unfold pairTexts
  split
  · exact decode_hex hlength
  · exact decode_plainText hlength

theorem accepted_update (htext : decodeWorkerPubkey env text = some (keys a)) :
    Accepted env s keys (Function.update texts a text) := by
  intro b w hget
  by_cases hb : b = a
  · grind
  · rw [Function.update_of_ne hb]
    exact h b w hget

/-- **Two workers and a seat: the text decides.**  Of two that registered in hexadecimal
one is selected, and it would not have been with another text. -/
theorem not_blind_of_pair (hheight : block.height % 120 = 0)
    (hseats : 0 < Vrf.asInt s.vrf.params.committeeSize) {x y : Addr} (hx : x ∈ s.actives)
    (hy : y ∈ s.actives) (hne : x ≠ y) : ¬Blind env block s keys := by
  intro hblind
  have hpicked : ∀ s : State, s.picked env block = s.selected env block := fun s => if_pos hheight
  have hpair := accepted_pairTexts h x y
  have hhex : ∀ a ∈ s.actives, a = x ∨ a = y → syncedKey (pairTexts keys x y a) ≠ [] := by
    intro a ha hxy hnil
    rw [pairTexts, if_pos hxy, syncedKey_hex] at hnil
    have hlength := length_of_decodeWorkerPubkey (decode_of_active h ha)
    rw [hnil] at hlength
    contradiction
  -- somebody is selected, and it is one of the two
  obtain ⟨a, ha⟩ : ∃ a, a ∈ ((s.registered (pairTexts keys x y)).synced.selected env block).map
      Worker.address := by
    rw [addresses_selected hpair]
    exact List.exists_mem_of_ne_nil _ (chosen_ne_nil (List.ne_nil_of_mem hx))
  have hactive : a ∈ s.actives := by
    rw [addresses_selected hpair] at ha
    exact mem_of_mem_chosen ha
  -- with another text of its key it would have been kept out by the other one
  have hplain : decodeWorkerPubkey env (plainText (keys a)) = some (keys a) :=
    decode_plainText (length_of_decodeWorkerPubkey (decode_of_active h hactive))
  have hstays := (hblind _ hpair a _ hplain).mp (by rwa [hpicked])
  rw [hpicked] at hstays
  obtain ⟨b, hb, hba, hbxy⟩ : ∃ b ∈ s.actives, b ≠ a ∧ (b = x ∨ b = y) := by grind
  refine not_selected (accepted_update hpair hplain) hseats hb ?_ ?_ hstays
  · grind
  · rw [Function.update_self, plainText_unsynced]

end

/-! ### exactly when updates are well formed -/

theorem endBlock_picked {updates : List ValidatorUpdate}
    (h : endBlock env block s = .ok (s', updates)) :
    updates = (s.picked env block).map updateOf := by
  unfold State.picked
  split
  · next hheight => exact (endBlock_updates hheight).get h
  · next hheight =>
    obtain ⟨s₁, -, h⟩ := bind_eq_ok.mp h
    rw [if_pos hheight] at h
    rw [← (Prod.mk.inj (Except.ok.inj h)).2]
    rfl

/-- The record of a selected worker. -/
theorem rekey_of_selected (h : Accepted env s keys texts)
    (hw : w ∈ (s.registered texts).synced.selected env block) :
    w.address ∈ s.actives ∧ Utf8.bytes w.pubkey = stored (texts w.address) := by
  have hmem := mem_eligible_of_selected hw
  rw [eligible_synced, eligible_registered h] at hmem
  obtain ⟨w', hw', rfl⟩ := List.mem_map.mp hmem
  exact ⟨List.mem_map.mpr ⟨w', hw', rfl⟩, rfl⟩

/-- Where all are selected, the updates carry the keys exactly if each stored text is its
key. -/
theorem carried_iff (h : Accepted env s keys texts)
    (hall : ((s.registered texts).synced.selected env block).map Worker.address = s.actives) :
    (((s.registered texts).synced.selected env block).map updateOf).map ValidatorUpdate.pubkey =
    ((s.registered texts).synced.selected env block).map (fun w => keys w.address) ↔
    ∀ a ∈ s.actives, texts a = keys a ∧ Utf8.Valid (texts a) := by
  rw [List.map_map, List.map_inj_left]
  constructor
  · intro hcarried a ha
    have hmem := ha
    rw [← hall] at hmem
    obtain ⟨w, hw, rfl⟩ := List.mem_map.mp hmem
    refine (stored_eq_key_iff (decode_of_active h ha)).mp ?_
    rw [← (rekey_of_selected h hw).2]
    exact hcarried w hw
  · intro htexts w hw
    obtain ⟨hactive, hstored⟩ := rekey_of_selected h hw
    exact hstored.trans ((stored_eq_key_iff (decode_of_active h hactive)).mpr (htexts _ hactive))

/-- **Updates are well formed exactly where nothing can go wrong.** -/
theorem updates_wellFormed_iff {s s' : State} {keys texts : Addr → Bytes}
    {updates : List ValidatorUpdate} (haccepted : Accepted env s keys texts)
    (h : endBlock env block (s.registered texts).synced = .ok (s', updates)) :
    WellFormed env block s keys texts updates ↔ Benign block s keys texts := by
  obtain rfl := endBlock_picked h
  unfold Benign
  by_cases hheight : block.height % 120 = 0
  · have hpicked : ∀ s : State, s.picked env block = s.selected env block := fun s => if_pos hheight
    constructor
    · rintro ⟨hcarried, -, hunique, hblind⟩
      have hfew : s.actives.length ≤ 1 ∨ Vrf.asInt s.vrf.params.committeeSize ≤ 0 := by
        by_contra hmany
        obtain ⟨hlength, hseats⟩ : 1 < s.actives.length ∧
            0 < Vrf.asInt s.vrf.params.committeeSize := by omega
        have hnodup : s.actives.Nodup := by
          have := nodup_eligible (s.registered texts)
          rwa [eligible_registered haccepted, List.map_map] at this
        obtain ⟨x, y, rest, hlist⟩ : ∃ x y rest, s.actives = x :: y :: rest := by
          match hactives : s.actives with
          | [] => simp [hactives] at hlength
          | [x] => simp [hactives] at hlength
          | x :: y :: rest => exact ⟨x, y, rest, rfl⟩
        have hne : x ≠ y := by grind
        exact not_blind_of_pair haccepted hheight hseats (by simp [hlist]) (by simp [hlist]) hne
          hblind
      have hall : ((s.registered texts).synced.selected env block).map Worker.address =
          s.actives := addresses_of_few haccepted hfew
      rw [hpicked] at hcarried hunique
      refine .inr ⟨(carried_iff haccepted hall).mp hcarried, ?_, hfew⟩
      rw [hcarried] at hunique
      rw [← hall, List.map_map]
      exact hunique
    · rintro (hno | ⟨htexts, hnodup, hfew⟩)
      · contradiction
      have hall : ((s.registered texts).synced.selected env block).map Worker.address =
          s.actives := addresses_of_few haccepted hfew
      have hcarried := (carried_iff haccepted hall).mpr htexts
      refine ⟨by rwa [hpicked], ?_, ?_, ?_⟩
      · grind
      · grind
      · intro texts' haccepted' a text htext
        rw [hpicked, hpicked, addresses_of_few haccepted' hfew,
          addresses_of_few (accepted_update haccepted' htext) hfew]
  · have hpicked : ∀ s : State, s.picked env block = [] := fun s => if_neg hheight
    refine ⟨fun _ => .inl hheight, fun _ => ⟨?_, ?_, ?_, ?_⟩⟩
    · simp [hpicked]
    · simp [hpicked]
    · simp [hpicked]
    · intro texts' _ a text _
      simp [hpicked]

/-- The keys of two workers. -/
def devKeys (a : Addr) : Bytes :=
  if a = devAddr "alice@worker.example" then devKey 1 else devKey 2

/-- One worker registers under its raw key, and a block passes. -/
def devAlone : List Event := [devRegister "alice@worker.example" 1 [[65]], .nextBlock []]

theorem accepted_of_all (h : s.world.workers.entries.all (fun r =>
      decodeWorkerPubkey env (texts r.1) == some (keys r.1)) = true) :
    Accepted env s keys texts := by
  intro a w hget
  exact beq_iff_eq.mp (List.all_eq_true.mp h (a, w) (Table.mem_entries.mpr hget))

/-- A lone worker with a plain key: the updates of the rotation are well formed. -/
theorem devAlone_wellFormed : ∃ c s' updates, Run devEnv (devChain 119) devAlone c ∧
    Accepted devEnv c.state devKeys devKeys ∧
    endBlock devEnv c.block (c.state.registered devKeys).synced = .ok (s', updates) ∧
    WellFormed devEnv c.block c.state devKeys devKeys updates := by
  obtain ⟨c, hrun, hactives, hall, r, hexec, -⟩ : ∃ c, Run devEnv (devChain 119) devAlone c ∧
      c.state.actives = [devAddr "alice@worker.example"] ∧
      (c.state.world.workers.entries.all fun r =>
        decodeWorkerPubkey devEnv (devKeys r.1) == some (devKeys r.1)) = true ∧
      ∃ r, endBlock devEnv c.block (c.state.registered devKeys).synced = .ok r ∧ True := by
    decide +kernel
  have haccepted : Accepted devEnv c.state devKeys devKeys := accepted_of_all hall
  refine ⟨c, r.1, r.2, hrun, haccepted, hexec, (updates_wellFormed_iff haccepted hexec).mpr ?_⟩
  refine .inr ⟨fun a ha => ⟨rfl, ?_⟩, ?_, ?_⟩
  · rw [hactives] at ha
    obtain rfl := List.mem_singleton.mp ha
    exact Utf8.valid_of_ascii (by decide +kernel)
  · grind
  · grind

/-- The texts of two workers: one in hexadecimal, one in base64. -/
def devTexts (a : Addr) : Bytes :=
  if a = devAddr "alice@worker.example" then Hex.encode (devKey 1) else Base64.encode (devKey 2)

/-- Two workers register under these texts, and a block passes. -/
def devMixed : List Event :=
  [.tx (.registerWorker ⟨"alice@worker.example", Hex.encode (devKey 1), [[65]], [1]⟩),
    .tx (.registerWorker ⟨"bobby@worker.example", Base64.encode (devKey 2), [[65]], [2]⟩),
    .nextBlock []]

/-- **A text goes out as a key**: at the rotation the one update carries the 66 digits of
the first worker, and the second worker is not selected. -/
theorem mixed_texts_malformed : ∃ c s' updates, Run devEnv (devChain 119) devMixed c ∧
    Accepted devEnv c.state devKeys devTexts ∧ c.state.actives.length = 2 ∧
    endBlock devEnv c.block c.state = .ok (s', updates) ∧ updates = [⟨Hex.encode (devKey 1), 100⟩] ∧
    ¬WellFormed devEnv c.block c.state devKeys devTexts updates := by
  obtain ⟨c, hrun, hall, hlength, ⟨r, hexec, hupdates⟩, hpicked⟩ :
      ∃ c, Run devEnv (devChain 119) devMixed c ∧
      (c.state.world.workers.entries.all fun r =>
        decodeWorkerPubkey devEnv (devTexts r.1) == some (devKeys r.1)) = true ∧
      c.state.actives.length = 2 ∧
      (∃ r, endBlock devEnv c.block c.state = .ok r ∧ r.2 = [⟨Hex.encode (devKey 1), 100⟩]) ∧
      ((c.state.registered devTexts).synced.picked devEnv c.block).map
        (fun w => devKeys w.address) = [devKey 1] := by decide +kernel
  refine ⟨c, r.1, r.2, hrun, accepted_of_all hall, hlength, hexec, hupdates, fun hformed => ?_⟩
  have hcarried := hformed.carried
  rw [hupdates, hpicked] at hcarried
  exact absurd hcarried (by decide)

end FunaiChain.Registry
