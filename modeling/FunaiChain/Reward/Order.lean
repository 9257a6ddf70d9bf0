import FunaiChain.Reward.Mints

/-!
# FunaiChain.Reward.Order

How a pool depends on the order of its rows.  Every row but the last takes its
share and the last takes what is left, so the amounts depend on the order only
through which row comes last (`plan_perm`); the order of the mints themselves
does not matter (`payAll_perm`).

`pool_order_free` says exactly when a verification pool is paid out in the
same way in every order.
-/

namespace FunaiChain.Reward

variable {env : Env} {epoch : Int}
variable {mints mints' : List Mint} {a : Addr} {s : State} {m : Mint} {ρ : Type} {params : Params}
  {contribs order : List VerificationContribution}

/-! ## the bank -/

/-- The bank refuses a send to a blocked address, and no other. -/
def Willing (env : Env) : Prop := ∀ b src dst c, env.sendRefused b src dst c = false

/-- An address that cannot be paid: it does not decode, or is blocked. -/
def Refused (env : Env) (address : String) : Prop := ∀ a, ¬ Accepted env address a

section Willing
variable (hbank : Willing env)
include hbank

theorem sendCoins_of_willing (b : Bank) (src dst : Addr) (c : Coin) :
    env.sendCoins b src dst c = b.sendCoins src dst c := by
  rw [Host.sendCoins, hbank b src dst c]
  rfl

theorem mintAndSend_of_accepted (s : State) {address : String} {amount : Int} (hamount : 0 ≤ amount)
    (ha : Accepted env address a) : mintAndSend env s address amount = .ok (s.minted a amount) := by
  have hsend := s.bank.sendCoins_credit env.rewardAccount a (c := ⟨bondDenom, amount⟩) hamount
  unfold mintAndSend
  simp only [ha.1, State.mintCoins, Host.sendCoinsFromModuleToAccount, ha.2,
    sendCoins_of_willing hbank, Bool.false_eq_true, if_false, hsend]
  rfl

theorem mintFund_returns (s : State) (amount : Int) : ∃ s', mintFund env s amount = .ok s' := by
  unfold mintFund
  split
  · next hpos =>
    have hsend := s.bank.sendCoins_credit env.rewardAccount env.settlementAccount
      (c := ⟨bondDenom, amount⟩) hpos.le
    simp only [State.mintCoins, sendCoins_of_willing hbank, hsend]
    exact ⟨_, rfl⟩
  · exact ⟨s, rfl⟩

/-- Mints that the bank accepts one by one are executed. -/
theorem payAll_returns (epoch : Int) (s : State) (hpos : ∀ m ∈ mints, 0 < m.amount)
    (haccepted : ∀ m ∈ mints, ∃ a, Accepted env m.address a) :
    ∃ s', payAll env epoch s mints = .ok s' := by
  induction mints generalizing s with
  | nil => exact ⟨s, rfl⟩
  | cons m _ ih =>
    obtain ⟨a, ha⟩ := haccepted m (.head _)
    have hreward : reward env epoch s m.address m.amount =
        .ok ((s.minted a m.amount).setRewardRecord ⟨epoch, m.address, ⟨bondDenom, m.amount⟩⟩) := by
      rw [reward, mintAndSend_of_accepted hbank s (hpos m (.head _)).le ha]
      rfl
    rw [payAll_cons, hreward, ok_bind]
    exact ih _ (fun m hm => hpos m (.tail _ hm)) (fun m hm => haccepted m (.tail _ hm))

end Willing

/-! ## the order of mints -/

theorem received_perm (h : mints.Perm mints') (a : Addr) :
    received env mints a = received env mints' a :=
  (h.map _).sum_eq

/-- With one mint to every string the last record is the only one. -/
theorem recordOf_perm (h : mints.Perm mints') (hnodup : (mints.map (·.address)).Nodup)
    (address : String) : recordOf epoch address mints = recordOf epoch address mints' := by
  induction h with
  | nil => rfl
  | cons _ _ ih =>
    rw [List.map_cons, List.nodup_cons] at hnodup
    simp [recordOf, ih hnodup.2]
  | swap m m' =>
    simp only [List.map_cons, List.nodup_cons, List.mem_cons, not_or] at hnodup
    obtain ⟨⟨hne, -⟩, -⟩ := hnodup
    simp only [recordOf, Option.or_assoc]
    congr 1
    by_cases hm : m.address = address
    · grind
    · simp [hm]
  | trans h _ ih ih' => grind

theorem Paid.unique {s₁ s₂ : State} (h : mints.Perm mints') (hnodup : (mints.map (·.address)).Nodup)
    (h₁ : Paid env epoch s mints s₁) (h₂ : Paid env epoch s mints' s₂) : s₁ = s₂ := by
  have hparams : s₁.params = s₂.params := h₁.params.trans h₂.params.symm
  have hrecords : s₁.records = s₂.records := Table.ext_get fun k => by
    rw [h₁.records, h₂.records, recordOf_perm h hnodup]
  have hbalance : ∀ a d, s₁.bank.balance a d = s₂.bank.balance a d := by
    intro a d
    have hfirst := h₁.balance a d
    have hsecond := h₂.balance a d
    rw [received_perm h] at hfirst
    omega
  have hbank : s₁.bank = s₂.bank := by
    cases hb₁ : s₁.bank
    cases hb₂ : s₂.bank
    rw [hb₁, hb₂] at hbalance
    rw [Bank.mk.injEq]
    exact funext fun a => funext fun d => hbalance a d
  have hsupply : s₁.supply = s₂.supply := by
    rw [h₁.supply, h₂.supply, (h.map _).sum_eq]
  cases s₁
  cases s₂
  simp_all

/-- **The order of mints does not matter** when every string is minted to
once. -/
theorem payAll_perm (hbank : Willing env) (s : State) (h : mints.Perm mints')
    (hnodup : (mints.map (·.address)).Nodup) (hpos : ∀ m ∈ mints, 0 < m.amount) :
    (payAll env epoch s mints).toOption = (payAll env epoch s mints').toOption := by
  have hpos' : ∀ m ∈ mints', 0 < m.amount := fun m hm => hpos m (h.mem_iff.mpr hm)
  cases hpay : payAll env epoch s mints with
  | ok =>
    have hpaid := payAll_spec hpos hpay
    obtain ⟨s₂, hpay'⟩ := payAll_returns hbank epoch s hpos'
      fun m hm => hpaid.accepted m (h.mem_iff.mpr hm)
    rw [hpay', hpaid.unique h hnodup (payAll_spec hpos' hpay')]
  | error =>
    cases hpay' : payAll env epoch s mints' with
    | error => rfl
    | ok =>
      have hpaid := payAll_spec hpos' hpay'
      obtain ⟨s₁, hok⟩ := payAll_returns hbank epoch s hpos
        fun m hm => hpaid.accepted m (h.mem_iff.mp hm)
      rw [hok] at hpay
      contradiction

/-! ## the last row -/

section Last
variable (pool : Int) (addressOf : ρ → String) (share : ρ → Int)

/-- What a row that is not the last takes. -/
def portion (row : ρ) : Int := max 0 (share row)

/-- What is left of a pool when every row has taken its portion. -/
def dust (rows : List ρ) : Int := pool - (rows.map (portion share)).sum

theorem portion_of_pos {share : ρ → Int} {row : ρ} (h : 0 < share row) :
    portion share row = share row := max_eq_right h.le

theorem portion_of_not_pos {share : ρ → Int} {row : ρ} (h : ¬ 0 < share row) :
    portion share row = 0 := max_eq_left (by omega)

theorem portion_nonneg (share : ρ → Int) (row : ρ) : 0 ≤ portion share row := le_max_left 0 _

theorem dust_perm {rows rows' : List ρ} (h : rows.Perm rows') :
    dust pool share rows = dust pool share rows' := by
  rw [dust, dust, (h.map _).sum_eq]

/-- The rows before the last take their portions, the last takes the rest. -/
theorem plan_concat (totalDistributed : Int) (rows : List ρ) (last : ρ) :
    plan pool addressOf share totalDistributed (rows ++ [last]) =
      (rows.filter fun row => 0 < share row).map (fun row => ⟨addressOf row, share row⟩) ++
        if 0 < dust pool share rows - totalDistributed then
          [⟨addressOf last, dust pool share rows - totalDistributed⟩]
        else [] := by
  induction rows generalizing totalDistributed with
  | nil => simp [plan, allocOf, dust]
  | cons row rows ih =>
    have hempty : (rows ++ [last]).isEmpty = false := by simp
    simp only [List.cons_append, plan, allocOf, hempty, Bool.false_eq_true, if_false, ih]
    by_cases hpos : 0 < share row
    · have hdust : dust pool share rows - (totalDistributed + share row) =
          dust pool share (row :: rows) - totalDistributed := by
        simp only [dust, List.map_cons, List.sum_cons, portion_of_pos hpos]
        omega
      simp [hpos, hdust]
    · have hdust : dust pool share rows = dust pool share (row :: rows) := by
        simp only [dust, List.map_cons, List.sum_cons, portion_of_not_pos hpos]
        omega
      simp [hpos, hdust]

variable [DecidableEq ρ]

/-- The amount of a row when `last` comes last. -/
def amountEndingIn (rows : List ρ) (last row : ρ) : Int :=
  portion share row + if row = last then dust pool share rows else 0

/-- The mints of a pool when `last` comes last. -/
def mintsEndingIn (rows : List ρ) (last : ρ) : List Mint :=
  (rows.filter fun row => 0 < amountEndingIn pool share rows last row).map fun row =>
    ⟨addressOf row, amountEndingIn pool share rows last row⟩

/-- **A pool depends on the order of its rows through the last one only.** -/
theorem plan_perm {front rows : List ρ} {last : ρ} (h : (front ++ [last]).Perm rows)
    (hnodup : rows.Nodup) : (plan pool addressOf share 0 (front ++ [last])).Perm
    (mintsEndingIn pool addressOf share rows last) := by
  have hlast : last ∉ front := by grind
  have hfront : ∀ row ∈ front, amountEndingIn pool share rows last row = portion share row := by
    intro row hmem
    have hne : row ≠ last := fun heq => hlast (heq ▸ hmem)
    rw [amountEndingIn, if_neg hne, Int.add_zero]
  have hamount : amountEndingIn pool share rows last last = dust pool share front := by
    rw [amountEndingIn, if_pos rfl, ← dust_perm pool share h]
    simp only [dust, List.map_append, List.map_cons, List.map_nil, List.sum_append,
      List.sum_cons, List.sum_nil]
    omega
  refine List.Perm.trans (List.Perm.of_eq ?_) ((h.filter _).map _)
  rw [plan_concat, List.filter_append, List.map_append, Int.sub_zero]
  congr 1
  · have hpositive : ∀ row ∈ front,
        decide (0 < amountEndingIn pool share rows last row) = decide (0 < share row) := by
      intro row hmem
      rw [hfront row hmem, portion]
      exact decide_eq_decide.mpr (by omega)
    rw [List.filter_congr hpositive]
    refine List.map_congr_left fun row hmem => ?_
    obtain ⟨hmem, hpos⟩ := List.mem_filter.mp hmem
    rw [hfront row hmem, portion_of_pos (of_decide_eq_true hpos)]
  · grind

end Last

/-! ## a pool of rows with different accounts -/

section Pool
variable [DecidableEq ρ] {pool : Int} {addressOf : ρ → String} {share : ρ → Int} {rows : List ρ}

/-- Every row has an account of its own. -/
structure Distinct (env : Env) (addressOf : ρ → String) (rows : List ρ) : Prop where
  strings : (rows.map addressOf).Nodup
  accounts : ∀ row ∈ rows, ∀ row' ∈ rows, ∀ a, env.accAddressFromBech32 (addressOf row) = some a →
    env.accAddressFromBech32 (addressOf row') = some a → row = row'

/-- **A pool that is paid out in the same way in every order**: there is one
row at most, or the portions exhaust the pool, or some row that cannot be
paid is due something whichever row comes last. -/
def OrderFree (env : Env) (pool : Int) (addressOf : ρ → String) (share : ρ → Int)
    (rows : List ρ) : Prop :=
  rows.length ≤ 1 ∨ dust pool share rows = 0 ∨
    ∀ last ∈ rows, ∃ row ∈ rows, Refused env (addressOf row) ∧
      0 < amountEndingIn pool share rows last row

theorem mem_mintsEndingIn {last : ρ} : m ∈ mintsEndingIn pool addressOf share rows last ↔
    ∃ row ∈ rows, 0 < amountEndingIn pool share rows last row ∧
    ⟨addressOf row, amountEndingIn pool share rows last row⟩ = m := by
  simp [mintsEndingIn, and_assoc]

theorem mintsEndingIn_pos {last : ρ} (h : m ∈ mintsEndingIn pool addressOf share rows last) :
    0 < m.amount := by
  obtain ⟨row, -, hpos, rfl⟩ := mem_mintsEndingIn.mp h
  exact hpos

theorem mintsEndingIn_nodup (pool : Int) (share : ρ → Int) (h : (rows.map addressOf).Nodup)
    (last : ρ) : ((mintsEndingIn pool addressOf share rows last).map (·.address)).Nodup := by
  have hmap : (mintsEndingIn pool addressOf share rows last).map (·.address) =
      (rows.filter fun row => 0 < amountEndingIn pool share rows last row).map addressOf := by
    rw [mintsEndingIn, List.map_map]
    rfl
  rw [hmap]
  exact h.sublist (List.filter_sublist.map _)

/-- What the account of a row receives when `last` comes last. -/
theorem received_mintsEndingIn (hrows : Distinct env addressOf rows) {row : ρ} (hrow : row ∈ rows)
    (ha : env.accAddressFromBech32 (addressOf row) = some a) (last : ρ) :
    received env (mintsEndingIn pool addressOf share rows last) a =
    max 0 (amountEndingIn pool share rows last row) := by
  have hsum : ∀ rows' : List ρ, received env ((rows'.filter fun row =>
        0 < amountEndingIn pool share rows last row).map fun row =>
          ⟨addressOf row, amountEndingIn pool share rows last row⟩) a =
      (rows'.map fun row => if env.accAddressFromBech32 (addressOf row) = some a then
        max 0 (amountEndingIn pool share rows last row) else 0).sum := by
    intro rows'
    induction rows' with
    | nil => rfl
    | cons row' _ ih =>
      by_cases hpos : 0 < amountEndingIn pool share rows last row'
      · simp only [received, List.filter_cons, hpos, decide_true, if_true, List.map_cons,
          List.sum_cons, max_eq_right hpos.le] at ih ⊢
        rw [ih]
      · grind
  have hnodup : rows.Nodup := List.Nodup.of_map addressOf hrows.strings
  rw [mintsEndingIn, hsum, List.sum_map_eq_nsmul_single row,
    List.count_eq_one_of_mem hnodup hrow, if_pos ha, one_nsmul]
  intro row' hne hrow'
  exact if_neg fun hdecode => hne (hrows.accounts row' hrow' row hrow a hdecode ha)

/-- What an account gets of a pool that ends in `last`. -/
theorem balance_endingIn (hrows : Distinct env addressOf rows) {s' : State} {last row : ρ}
    (hrow : row ∈ rows) (ha : env.accAddressFromBech32 (addressOf row) = some a)
    (hpay : payAll env epoch s (mintsEndingIn pool addressOf share rows last) = .ok s') :
    (s'.bank.balance a bondDenom : Int) =
    s.bank.balance a bondDenom + max 0 (amountEndingIn pool share rows last row) := by
  have hbalance := (payAll_spec (fun m => mintsEndingIn_pos) hpay).balance a bondDenom
  rw [if_pos rfl, received_mintsEndingIn hrows hrow ha] at hbalance
  exact hbalance

/-- With something left over, some row gets different amounts in two orders. -/
theorem exists_shifted (hpool : 0 < pool) (hlength : 1 < rows.length) (hnodup : rows.Nodup)
    (hdust : dust pool share rows ≠ 0) {x : ρ} (hx : x ∈ rows) : ∃ y ∈ rows, ∃ row ∈ rows,
    max 0 (amountEndingIn pool share rows x row) ≠
    max 0 (amountEndingIn pool share rows y row) := by
  have hother : ∃ y ∈ rows, y ≠ x := by
    by_contra hall
    push Not at hall
    have hle : rows.length ≤ [x].length := hnodup.length_le_of_subset
      fun y hy => List.mem_singleton.mpr (hall y hy)
    rw [List.length_singleton] at hle
    omega
  obtain ⟨y, hy, hne⟩ := hother
  have hself : ∀ row : ρ, amountEndingIn pool share rows row row =
      portion share row + dust pool share rows := by
    intro row
    rw [amountEndingIn, if_pos rfl]
  have hnot : ∀ {last row : ρ}, row ≠ last →
      amountEndingIn pool share rows last row = portion share row := by
    intro last row h
    rw [amountEndingIn, if_neg h, Int.add_zero]
  by_cases hpos : 0 < dust pool share rows
  · refine ⟨y, hy, x, hx, ?_⟩
    have := portion_nonneg share x
    rw [hself, hnot hne.symm]
    omega
  · -- the portions are more than the pool, so some row takes a portion
    have htaken : ∃ row ∈ rows, 0 < portion share row := by
      by_contra hall
      push Not at hall
      have hzero : (rows.map (portion share)).sum = 0 := List.sum_eq_zero fun p hp => by
        obtain ⟨row, hrow, rfl⟩ := List.mem_map.mp hp
        exact le_antisymm (hall row hrow) (portion_nonneg share row)
      rw [dust, hzero] at hpos
      omega
    obtain ⟨row, hrow, htaken⟩ := htaken
    by_cases hrowx : row = x
    · grind
    · grind

theorem exists_order {last : ρ} (h : last ∈ rows) : ∃ front, (front ++ [last]).Perm rows :=
  ⟨rows.erase last, (List.perm_append_singleton last _).trans (List.perm_cons_erase h).symm⟩

variable (hbank : Willing env) (hrows : Distinct env addressOf rows)
include hbank hrows

/-- The outcome of an order is the one that its last row gives. -/
theorem payAll_endingIn (epoch pool : Int) (share : ρ → Int) (s : State) {front : List ρ} {last : ρ}
    (h : (front ++ [last]).Perm rows) :
    (payAll env epoch s (plan pool addressOf share 0 (front ++ [last]))).toOption =
    (payAll env epoch s (mintsEndingIn pool addressOf share rows last)).toOption := by
  have hperm := plan_perm pool addressOf share h (List.Nodup.of_map addressOf hrows.strings)
  have hnodup := mintsEndingIn_nodup pool share hrows.strings last
  refine payAll_perm hbank s hperm ?_ fun m hm => (mem_plan _ _ _ hm).1
  exact (hperm.map _).nodup_iff.mpr hnodup

theorem exists_last (s : State) {order : List ρ} (h : order.Perm rows) (hnil : rows ≠ []) :
    ∃ last ∈ rows, (payAll env epoch s (plan pool addressOf share 0 order)).toOption =
    (payAll env epoch s (mintsEndingIn pool addressOf share rows last)).toOption := by
  obtain rfl | ⟨front, last, rfl⟩ := List.eq_nil_or_concat' order
  · exact absurd (List.nil_perm.mp h) hnil
  · exact ⟨last, h.mem_iff.mp (by simp), payAll_endingIn hbank hrows epoch pool share s h⟩

/-- A pool that is free of the order has one outcome. -/
theorem payAll_of_orderFree (hfree : OrderFree env pool addressOf share rows) (s : State)
    {order order' : List ρ} (h : order.Perm rows) (h' : order'.Perm rows) :
    (payAll env epoch s (plan pool addressOf share 0 order)).toOption =
    (payAll env epoch s (plan pool addressOf share 0 order')).toOption := by
  by_cases hnil : rows = []
  · simp_all
  obtain ⟨last, hlast, hpay⟩ := exists_last hbank hrows s h hnil
  obtain ⟨last', hlast', hpay'⟩ := exists_last hbank hrows s h' hnil
  rw [hpay, hpay']
  obtain hone | hdust | hrefused := hfree
  · obtain ⟨x, rfl⟩ := List.length_eq_one_iff.mp (le_antisymm hone (List.length_pos_iff.mpr hnil))
    rw [List.mem_singleton.mp hlast, List.mem_singleton.mp hlast']
  · have hamount : ∀ x y : ρ, amountEndingIn pool share rows x y = portion share y := by
      intro x y
      rw [amountEndingIn, hdust, ite_self, Int.add_zero]
    simp [mintsEndingIn, hamount]
  · have hfails : ∀ x ∈ rows,
        (payAll env epoch s (mintsEndingIn pool addressOf share rows x)).toOption = none := by
      intro x hx
      cases hpay : payAll env epoch s (mintsEndingIn pool addressOf share rows x) with
      | error => rfl
      | ok =>
        obtain ⟨row, hrow, hno, hpos⟩ := hrefused x hx
        have hmem : ⟨addressOf row, amountEndingIn pool share rows x row⟩ ∈
            mintsEndingIn pool addressOf share rows x :=
          mem_mintsEndingIn.mpr ⟨row, hrow, hpos, rfl⟩
        obtain ⟨a, ha⟩ := (payAll_spec (fun m => mintsEndingIn_pos) hpay).accepted _ hmem
        exact absurd ha (hno a)
    rw [hfails last hlast, hfails last' hlast']

/-- A pool that is not free of the order has two: one order is paid out, and
another is not or leaves some account with a different balance. -/
theorem exists_orders_of_not_orderFree (epoch : Int) (hpool : 0 < pool)
    (hfree : ¬ OrderFree env pool addressOf share rows) (s : State) :
    ∃ order order', order.Perm rows ∧ order'.Perm rows ∧
    ∃ s₁, payAll env epoch s (plan pool addressOf share 0 order) = .ok s₁ ∧
    ∀ s₂, payAll env epoch s (plan pool addressOf share 0 order') = .ok s₂ →
    ∃ a, s₁.bank.balance a bondDenom ≠ s₂.bank.balance a bondDenom := by
  simp only [OrderFree, Refused, not_or, not_forall, not_exists, not_and, not_le] at hfree
  obtain ⟨hlength, hdust, x, hx, haccepted⟩ := hfree
  have haccepted : ∀ m ∈ mintsEndingIn pool addressOf share rows x,
      ∃ a, Accepted env m.address a := by
    intro m hm
    obtain ⟨row, hrow, hpos, rfl⟩ := mem_mintsEndingIn.mp hm
    by_contra hno
    exact haccepted row hrow (fun a ha => hno ⟨a, ha⟩) hpos
  obtain ⟨s₁, hpay⟩ := payAll_returns hbank epoch s (fun m => mintsEndingIn_pos) haccepted
  obtain ⟨y, hy, row, hrow, hshifted⟩ := exists_shifted hpool hlength
    (List.Nodup.of_map addressOf hrows.strings) hdust hx
  obtain ⟨front, hfront⟩ := exists_order hx
  obtain ⟨front', hfront'⟩ := exists_order hy
  refine ⟨_, _, hfront, hfront', s₁, ?_, fun s₂ hpay' => ?_⟩
  · have hsame := payAll_endingIn hbank hrows epoch pool share s hfront
    rw [hpay] at hsame
    exact eq_ok_of_toOption hsame
  · have hsame := payAll_endingIn hbank hrows epoch pool share s hfront'
    rw [hpay'] at hsame
    have hpay' := eq_ok_of_toOption hsame.symm
    -- the row gets something in one of the two orders, and both are paid
    have hpaid : ∃ a, Accepted env (addressOf row) a := by
      by_cases hpos : 0 < amountEndingIn pool share rows x row
      · exact haccepted _ (mem_mintsEndingIn.mpr ⟨row, hrow, hpos, rfl⟩)
      · have hpos' : 0 < amountEndingIn pool share rows y row := by omega
        exact (payAll_spec (fun m => mintsEndingIn_pos) hpay').accepted _
          (mem_mintsEndingIn.mpr ⟨row, hrow, hpos', rfl⟩)
    obtain ⟨a, ha, -⟩ := hpaid
    have hbalance := balance_endingIn hrows hrow ha hpay
    have hbalance' := balance_endingIn hrows hrow ha hpay'
    exact ⟨a, by omega⟩

end Pool

/-! ## the verification pool -/

theorem totalOf_perm {rows rows' : List ρ} (count : ρ → UInt64) (h : rows.Perm rows') :
    totalOf count rows = totalOf count rows' := by
  have : Std.Commutative (α := UInt64) (· + ·) := ⟨UInt64.add_comm⟩
  have : Std.Associative (α := UInt64) (· + ·) := ⟨UInt64.add_assoc⟩
  exact (h.map count).foldr_op_eq

theorem plan_map {σ : Type} (pool : Int) (addressOf : ρ → String) (share : ρ → Int) (f : σ → ρ)
    (totalDistributed : Int) (rows : List σ) :
    plan pool addressOf share totalDistributed (rows.map f) =
    plan pool (fun row => addressOf (f row)) (fun row => share (f row)) totalDistributed rows := by
  induction rows generalizing totalDistributed with
  | nil => rfl
  | cons _ _ ih => simp [plan, allocOf, ih]

/-- The share of a verifier among the rows of a pool. -/
def verificationShare (params : Params) (pool : Int) (contribs : List VerificationContribution)
    (c : VerificationContribution) : Int :=
  shareOf (verificationWeight params (contribs.map (·.fee)).sum (totalOf (·.count) contribs) c) pool

/-- The shares do not depend on the order. -/
theorem verificationMints_perm {pool : Int} (h : order.Perm contribs)
    (hcount : totalOf (·.count) contribs ≠ 0) : verificationMints params pool order =
    plan pool (·.workerAddress) (verificationShare params pool contribs) 0 order := by
  rw [verificationMints, totalOf_perm _ h, if_neg hcount, (h.map _).sum_eq]
  rfl

theorem verificationMints_nil_of_count {pool : Int} (h : order.Perm contribs)
    (hcount : totalOf (·.count) contribs = 0) : verificationMints params pool order = [] := by
  rw [verificationMints, totalOf_perm _ h, if_pos hcount]

section Distribution
variable {height : Int} {contributions : List WorkerContribution}
  {contribs' : List VerificationContribution} {signers : List ConsensusSignerInfo}
  {onlineWorkers : List OnlineWorkerStake}

theorem verifierReward_zero (params : Params) : verifierReward params 0 = 0 := by
  simp [verifierReward, shareOf, Dec.mulInt, Dec.truncateInt]

/-- An epoch with a verification pool pays two pools and then the fund. -/
theorem distributeRewards_pools (hsome : contributions ≠ [])
    (hpool : 0 < verifierReward s.params (calculateEpochReward s.params height)) :
    distributeRewards env s height contributions contribs signers onlineWorkers = (do
      let s₁ ← payAll env (epochOf s.params height) s (contributionMints s.params
        (inferenceReward s.params (calculateEpochReward s.params height)) contributions)
      let s₂ ← payAll env (epochOf s.params height) s₁ (verificationMints s.params
        (verifierReward s.params (calculateEpochReward s.params height)) contribs)
      mintFund env s₂ (epochFund s.params height contributions)) := by
  have hreward : calculateEpochReward s.params height ≠ 0 := by
    intro hzero
    rw [hzero, verifierReward_zero] at hpool
    omega
  have hempty : contributions.isEmpty = false := by simpa using hsome
  have hmints : epochMints s.params height contributions contribs signers onlineWorkers =
      contributionMints s.params
          (inferenceReward s.params (calculateEpochReward s.params height)) contributions ++
        verificationMints s.params
          (verifierReward s.params (calculateEpochReward s.params height)) contribs := by
    simp only [epochMints, hreward, hempty, if_false, Bool.not_false, if_true, poolMints, hpool,
      true_and]
    cases contribs with
    | nil | cons => rfl
  rw [distributeRewards_eq, hmints, payAll_append, bind_assoc]

/-- Without a verification pool its rows do not matter. -/
theorem distributeRewards_of_no_pool (h : contributions = [] ∨
    ¬ 0 < verifierReward s.params (calculateEpochReward s.params height)) :
    distributeRewards env s height contributions contribs signers onlineWorkers =
    distributeRewards env s height contributions contribs' signers onlineWorkers := by
  have hmints : epochMints s.params height contributions contribs signers onlineWorkers =
      epochMints s.params height contributions contribs' signers onlineWorkers := by
    unfold epochMints
    obtain rfl | hpool := h
    · simp
    · simp [poolMints, hpool]
  rw [distributeRewards_eq, distributeRewards_eq, hmints]

end Distribution

end FunaiChain.Reward
