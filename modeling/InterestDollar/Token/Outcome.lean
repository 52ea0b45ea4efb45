import InterestDollar.Token.Moves

/-!
# What each function of the token does

For every function of the contract, when it returns and with which storage, in
terms of the moves. A caller reads a successful call through these lemmas and
never unfolds the function. The guards are collected in `TransferFits` and its
companions, so that a proof that a call succeeds fills in named fields.

The rate of a transfer's two parties is the one in force before the call:
migrating an account freezes the rate it already had.
-/

namespace InterestDollar

namespace Ledger

open Checked FixedPoint

/-- `balanceOf` does not overflow or divide by zero on the account. -/
def BalanceFits (s : Ledger) (a : Address) : Prop :=
  s.creditBalances a ≠ 0 →
    s.creditBalances a * fullScale < wordBound ∧ 0 < s.creditsPerToken a

theorem balanceOf_eq_ok {s : Ledger} {a : Address} {b : ℕ} :
    s.balanceOf a = .ok b ↔ s.BalanceFits a ∧ b = s.balance a := by
  by_cases h : s.creditBalances a = 0
  · simp [balanceOf, BalanceFits, balance, h, eq_comm]
  · simp [balanceOf, BalanceFits, balance, h, StableMath.divPrecisely_eq_ok, and_assoc]

/-- The arithmetic of the migration of an account, should it need one. -/
def MigrationFits (isContract : Address → Bool) (s : Ledger) (a : Address) : Prop :=
  s.NeedsMigration isContract a →
    s.BalanceFits a ∧ s.nonRebasingSupply + s.balance a < wordBound ∧
      s.creditBalances a ≤ s.rebasingCredits

theorem MigrationFits.of_frozen {isContract : Address → Bool} {s : Ledger} {a : Address}
    (h : s.Frozen a) : s.MigrationFits isContract a :=
  fun hm => absurd h hm.2.2

theorem setFrozenRate_balanceOf {s : Ledger} {a : Address} (h : ¬ s.Frozen a) {b : ℕ} :
    (s.setFrozenRate a s.rebasingCreditsPerToken).balanceOf a = .ok b ↔
      s.BalanceFits a ∧ b = s.balance a := by
  have hcredits : (s.setFrozenRate a s.rebasingCreditsPerToken).creditBalances =
      s.creditBalances := rfl
  rw [balanceOf_eq_ok]
  simp only [BalanceFits, balance, setFrozenRate_creditsPerToken h, hcredits]

theorem ensureRebasingMigration_eq_ok {s s' : Ledger} {a : Address} (h : ¬ s.Frozen a) :
    s.ensureRebasingMigration a = .ok s' ↔
      (s.BalanceFits a ∧ s.nonRebasingSupply + s.balance a < wordBound ∧
        s.creditBalances a ≤ s.rebasingCredits) ∧ s' = s.freeze a := by
  have hz : s.nonRebasingCreditsPerToken a = 0 := not_not.mp h
  simp only [ensureRebasingMigration, hz, if_true, bind_eq_ok, pure_eq_ok,
    setFrozenRate_balanceOf h, SafeMath.add_eq_ok, SafeMath.sub_eq_ok]
  constructor
  · rintro ⟨b, ⟨hfit, rfl⟩, n, ⟨hn, rfl⟩, r, ⟨hr, rfl⟩, rfl⟩
    exact ⟨⟨hfit, hn, hr⟩, rfl⟩
  · rintro ⟨⟨hfit, hn, hr⟩, rfl⟩
    exact ⟨_, ⟨hfit, rfl⟩, _, ⟨hn, rfl⟩, _, ⟨hr, rfl⟩, rfl⟩

theorem isNonRebasingAccount_eq_ok {isContract : Address → Bool} {s : Ledger} {a : Address}
    {p : Ledger × Bool} :
    s.isNonRebasingAccount isContract a = .ok p ↔
      s.MigrationFits isContract a ∧
        p = (s.migrate isContract a, decide ((s.migrate isContract a).Frozen a)) := by
  have hfrozen : ∀ t : Ledger, decide (0 < t.nonRebasingCreditsPerToken a) = decide (t.Frozen a) :=
    fun t => decide_eq_decide.mpr Nat.pos_iff_ne_zero
  simp only [isNonRebasingAccount, bind_eq_ok, pure_eq_ok, hfrozen]
  by_cases hcode : isContract a = true ∧ s.rebaseState a = .notSet
  · by_cases hf : s.Frozen a
    · have hstay : s.ensureRebasingMigration a = .ok s := if_neg hf
      simp only [if_pos hcode, hstay, migrate_of_frozen hf, Except.ok.injEq, exists_eq_left']
      simp only [MigrationFits.of_frozen hf, true_and]
      exact eq_comm
    · have hm : s.NeedsMigration isContract a := ⟨hcode.1, hcode.2, hf⟩
      simp only [if_pos hcode, ensureRebasingMigration_eq_ok hf, MigrationFits, migrate, hm,
        forall_const]
      constructor
      · rintro ⟨t, ⟨hfit, rfl⟩, rfl⟩
        exact ⟨hfit, rfl⟩
      · rintro ⟨hfit, rfl⟩
        exact ⟨_, ⟨hfit, rfl⟩, rfl⟩
  · have hm : ¬ s.NeedsMigration isContract a := fun h => hcode ⟨h.1, h.2.1⟩
    simp only [if_neg hcode, pure_eq_ok, exists_eq_left', MigrationFits, migrate, hm,
      false_imp_iff, true_and]
    exact eq_comm

/-! ## Transfers -/

/-- The ledger after both parties of a transfer have been migrated. -/
def settle (isContract : Address → Bool) (s : Ledger) (fromAcc toAcc : Address) : Ledger :=
  (s.migrate isContract toAcc).migrate isContract fromAcc

section Settle

variable {isContract : Address → Bool} {s : Ledger} {fromAcc toAcc : Address}

@[simp] theorem settle_totalSupply :
    (s.settle isContract fromAcc toAcc).totalSupply = s.totalSupply := by
  simp [settle]

@[simp] theorem settle_creditBalances :
    (s.settle isContract fromAcc toAcc).creditBalances = s.creditBalances := by
  simp [settle]

@[simp] theorem settle_rate :
    (s.settle isContract fromAcc toAcc).rebasingCreditsPerToken = s.rebasingCreditsPerToken := by
  simp [settle]

@[simp] theorem settle_creditsPerToken :
    (s.settle isContract fromAcc toAcc).creditsPerToken = s.creditsPerToken := by
  simp [settle]

@[simp] theorem settle_balance :
    (s.settle isContract fromAcc toAcc).balance = s.balance := by
  simp [settle]

/-- Storing an allowance and migrating the parties commute. -/
theorem setAllowance_settle {a b : Address} {k : ℕ} (isContract : Address → Bool)
    (fromAcc toAcc : Address) :
    (s.setAllowance a b k).settle isContract fromAcc toAcc =
      (s.settle isContract fromAcc toAcc).setAllowance a b k := by
  have hmigrate : ∀ (t : Ledger) (x : Address), (t.setAllowance a b k).migrate isContract x =
      (t.migrate isContract x).setAllowance a b k := by
    intro t x
    by_cases hm : t.NeedsMigration isContract x
    · have hm' : (t.setAllowance a b k).NeedsMigration isContract x := hm
      rw [migrate, migrate, if_pos hm, if_pos hm']
      rfl
    · have hm' : ¬ (t.setAllowance a b k).NeedsMigration isContract x := hm
      rw [migrate, migrate, if_neg hm, if_neg hm']
  rw [settle, hmigrate, hmigrate, settle]

/-- Migrating the sender after the recipient does not change what the recipient
is. -/
theorem frozen_to_settle (isContract : Address → Bool) (fromAcc toAcc : Address)
    (hrate : 0 < s.rebasingCreditsPerToken) :
    (s.migrate isContract toAcc).Frozen toAcc ↔
      (s.settle isContract fromAcc toAcc).Frozen toAcc := by
  by_cases heq : fromAcc = toAcc
  · subst heq
    unfold settle
    by_cases hm : s.NeedsMigration isContract fromAcc
    · have hf : (s.migrate isContract fromAcc).Frozen fromAcc := by
        rw [migrate, if_pos hm]
        exact freeze_frozen hrate
      rw [migrate_of_frozen hf]
    · have hstay : s.migrate isContract fromAcc = s := if_neg hm
      rw [hstay, hstay]
  · unfold settle
    generalize s.migrate isContract toAcc = t
    unfold migrate
    split_ifs
    · simp [Frozen, freeze, setFrozenRate, Function.update_of_ne (Ne.symm heq)]
    · rfl

end Settle

/-- Everything a transfer of `v` checks once both parties are migrated. -/
structure MoveFits (m : Ledger) (fromAcc toAcc : Address) (v : ℕ) : Prop where
  credited : v * m.creditsPerToken toAcc < wordBound
  deducted : v * m.creditsPerToken fromAcc < wordBound
  enough : m.creditsFor fromAcc v ≤ m.creditBalances fromAcc
  received :
    Function.update m.creditBalances fromAcc
      (m.creditBalances fromAcc - m.creditsFor fromAcc v) toAcc + m.creditsFor toAcc v < wordBound
  intoFrozen : m.Frozen toAcc → ¬ m.Frozen fromAcc →
    m.nonRebasingSupply + v < wordBound ∧ m.creditsFor fromAcc v ≤ m.rebasingCredits
  outOfFrozen : ¬ m.Frozen toAcc → m.Frozen fromAcc →
    v ≤ m.nonRebasingSupply ∧ m.rebasingCredits + m.creditsFor toAcc v < wordBound

/-- Taking from one place and then adding to another is adding first and then
taking, where what is taken is there. -/
theorem update_sub_add_comm (g : Address → ℕ) {f t : Address} {kf kt : ℕ} (h : kf ≤ g f) :
    Function.update (Function.update g f (g f - kf)) t
        (Function.update g f (g f - kf) t + kt) =
      Function.update (Function.update g t (g t + kt)) f
        (Function.update g t (g t + kt) f - kf) := by
  by_cases heq : f = t
  · subst heq
    simp only [Function.update_self, Function.update_idem]
    congr 1
    omega
  · rw [Function.update_of_ne (Ne.symm heq), Function.update_of_ne heq, Function.update_comm heq]

/-- The credits a transfer stores are those of crediting the recipient and
debiting the sender. -/
theorem transfer_credits (m : Ledger) (fromAcc toAcc : Address) (v : ℕ)
    (h : m.creditsFor fromAcc v ≤ m.creditBalances fromAcc) :
    Function.update
        (Function.update m.creditBalances fromAcc
          (m.creditBalances fromAcc - m.creditsFor fromAcc v)) toAcc
        (Function.update m.creditBalances fromAcc
          (m.creditBalances fromAcc - m.creditsFor fromAcc v) toAcc + m.creditsFor toAcc v) =
      ((m.credit toAcc v).debit fromAcc v).creditBalances :=
  update_sub_add_comm m.creditBalances h

/-- Two accounts that are not frozen turn an amount into the same credits. -/
theorem creditsFor_eq_of_not_frozen {m : Ledger} {a b : Address} (ha : ¬ m.Frozen a)
    (hb : ¬ m.Frozen b) (v : ℕ) : m.creditsFor a v = m.creditsFor b v := by
  rw [creditsFor, creditsFor, creditsPerToken_of_not_frozen ha, creditsPerToken_of_not_frozen hb]

/-- Between two accounts of one kind the two tally updates of a transfer cancel,
so the contract makes none. -/
theorem credit_debit_of_frozen_iff {m : Ledger} {fromAcc toAcc : Address} {v : ℕ}
    (h : m.Frozen toAcc ↔ m.Frozen fromAcc) :
    (m.credit toAcc v).debit fromAcc v =
      { m with creditBalances := ((m.credit toAcc v).debit fromAcc v).creditBalances } := by
  by_cases hf : m.Frozen fromAcc
  · rw [debit_of_frozen (s := m.credit toAcc v) hf, credit_of_frozen (h.mpr hf)]
    simp
  · have ht : ¬ m.Frozen toAcc := fun ht => hf (h.mp ht)
    have hsame : (m.credit toAcc v).creditsFor fromAcc v = m.creditsFor toAcc v :=
      creditsFor_eq_of_not_frozen hf ht v
    rw [debit_of_not_frozen (s := m.credit toAcc v) hf, hsame, credit_of_not_frozen ht]
    simp

theorem credit_debit_into_frozen {m : Ledger} {fromAcc toAcc : Address} {v : ℕ}
    (ht : m.Frozen toAcc) (hf : ¬ m.Frozen fromAcc) :
    (m.credit toAcc v).debit fromAcc v =
      { m with
        creditBalances := ((m.credit toAcc v).debit fromAcc v).creditBalances
        nonRebasingSupply := m.nonRebasingSupply + v
        rebasingCredits := m.rebasingCredits - m.creditsFor fromAcc v } := by
  rw [debit_of_not_frozen (s := m.credit toAcc v) hf, credit_of_frozen ht]
  rfl

theorem credit_debit_out_of_frozen {m : Ledger} {fromAcc toAcc : Address} {v : ℕ}
    (ht : ¬ m.Frozen toAcc) (hf : m.Frozen fromAcc) :
    (m.credit toAcc v).debit fromAcc v =
      { m with
        creditBalances := ((m.credit toAcc v).debit fromAcc v).creditBalances
        nonRebasingSupply := m.nonRebasingSupply - v
        rebasingCredits := m.rebasingCredits + m.creditsFor toAcc v } := by
  rw [debit_of_frozen (s := m.credit toAcc v) hf, credit_of_not_frozen ht]

/-- A transfer migrates both parties, credits the recipient and debits the
sender. Between two accounts of one kind the two tally updates cancel, which is
why the contract makes none. -/
theorem executeTransfer_eq_ok {isContract : Address → Bool} {s s' : Ledger}
    {fromAcc toAcc : Address} {v : ℕ} (hrate : 0 < s.rebasingCreditsPerToken) :
    s.executeTransfer isContract fromAcc toAcc v = .ok s' ↔
      s.MigrationFits isContract toAcc ∧
        (s.migrate isContract toAcc).MigrationFits isContract fromAcc ∧
          MoveFits (s.settle isContract fromAcc toAcc) fromAcc toAcc v ∧
            s' = ((s.settle isContract fromAcc toAcc).credit toAcc v).debit fromAcc v := by
  have hto := frozen_to_settle isContract fromAcc toAcc hrate
  have hset : (s.migrate isContract toAcc).migrate isContract fromAcc =
      s.settle isContract fromAcc toAcc := rfl
  simp only [executeTransfer, isNonRebasingAccount_eq_ok, bind_eq_ok,
    StableMath.mulTruncate_eq_ok, SafeMath.subOr_eq_ok, SafeMath.add_eq_ok, and_assoc,
    exists_and_left, exists_eq_left, hset, hto, setCredits]
  generalize s.settle isContract fromAcc toAcc = m
  refine and_congr_right fun _ => and_congr_right fun _ => ?_
  have hcredits := transfer_credits m fromAcc toAcc v
  simp only [creditsFor] at hcredits
  by_cases ht : m.Frozen toAcc
  · by_cases hf : m.Frozen fromAcc
    · simp only [ht, hf, decide_true, Bool.not_true, Bool.and_false, Bool.false_and, if_false,
        pure_eq_ok, Bool.false_eq_true]
      rw [credit_debit_of_frozen_iff ⟨fun _ => hf, fun _ => ht⟩]
      constructor
      · rintro ⟨hvt, hvf, henough, hrec, rfl⟩
        exact ⟨⟨hvt, hvf, henough, hrec, fun _ h => absurd hf h, fun h => absurd ht h⟩,
          by rw [hcredits henough]⟩
      · rintro ⟨⟨hvt, hvf, henough, hrec, -, -⟩, rfl⟩
        exact ⟨hvt, hvf, henough, hrec, by rw [← hcredits henough]⟩
    · simp only [ht, hf, decide_true, decide_false, Bool.not_false, Bool.and_self, if_true,
        bind_eq_ok, SafeMath.add_eq_ok, SafeMath.sub_eq_ok, pure_eq_ok, and_assoc,
        exists_and_left, exists_eq_left]
      rw [credit_debit_into_frozen ht hf]
      constructor
      · rintro ⟨hvt, hvf, henough, hrec, hn, hr, rfl⟩
        exact ⟨⟨hvt, hvf, henough, hrec, fun _ _ => ⟨hn, hr⟩, fun h => absurd ht h⟩,
          by rw [hcredits henough]; rfl⟩
      · rintro ⟨⟨hvt, hvf, henough, hrec, hinto, -⟩, rfl⟩
        obtain ⟨hn, hr⟩ := hinto ht hf
        exact ⟨hvt, hvf, henough, hrec, hn, hr, by rw [← hcredits henough]; rfl⟩
  · by_cases hf : m.Frozen fromAcc
    · simp only [ht, hf, decide_true, decide_false, Bool.not_false, Bool.not_true, Bool.and_self,
        if_true, if_false, Bool.false_eq_true, bind_eq_ok,
        SafeMath.add_eq_ok, SafeMath.sub_eq_ok, pure_eq_ok, and_assoc, exists_and_left,
        exists_eq_left]
      rw [credit_debit_out_of_frozen ht hf]
      constructor
      · rintro ⟨hvt, hvf, henough, hrec, hn, hr, rfl⟩
        exact ⟨⟨hvt, hvf, henough, hrec, fun h => absurd h ht, fun _ _ => ⟨hn, hr⟩⟩,
          by rw [hcredits henough]; rfl⟩
      · rintro ⟨⟨hvt, hvf, henough, hrec, -, hout⟩, rfl⟩
        obtain ⟨hn, hr⟩ := hout ht hf
        exact ⟨hvt, hvf, henough, hrec, hn, hr, by rw [← hcredits henough]; rfl⟩
    · simp only [ht, hf, decide_false, Bool.not_false, Bool.and_true, Bool.and_false, if_false,
        pure_eq_ok, Bool.false_eq_true]
      rw [credit_debit_of_frozen_iff ⟨fun h => absurd h ht, fun h => absurd h hf⟩]
      constructor
      · rintro ⟨hvt, hvf, henough, hrec, rfl⟩
        exact ⟨⟨hvt, hvf, henough, hrec, fun h => absurd h ht, fun _ h => absurd h hf⟩,
          by rw [hcredits henough]⟩
      · rintro ⟨⟨hvt, hvf, henough, hrec, -, -⟩, rfl⟩
        exact ⟨hvt, hvf, henough, hrec, by rw [← hcredits henough]⟩

theorem transfer_eq_ok {msg : Msg} {s s' : Ledger} {toAcc : Address} {v : ℕ} :
    s.transfer msg toAcc v = .ok s' ↔
      toAcc ≠ 0 ∧ s.BalanceFits msg.sender ∧ v ≤ s.balance msg.sender ∧
        s.executeTransfer msg.isContract msg.sender toAcc v = .ok s' := by
  simp only [transfer, bind_eq_ok, require_eq_ok, balanceOf_eq_ok, and_assoc, exists_and_left,
    exists_eq_left, exists_const]

theorem transferFrom_eq_ok {msg : Msg} {s s' : Ledger} {fromAcc toAcc : Address} {v : ℕ} :
    s.transferFrom msg fromAcc toAcc v = .ok s' ↔
      toAcc ≠ 0 ∧ s.BalanceFits fromAcc ∧ v ≤ s.balance fromAcc ∧
        v ≤ s.allowances fromAcc msg.sender ∧
          (s.setAllowance fromAcc msg.sender (s.allowances fromAcc msg.sender - v)).executeTransfer
            msg.isContract fromAcc toAcc v = .ok s' := by
  simp only [transferFrom, bind_eq_ok, require_eq_ok, balanceOf_eq_ok, SafeMath.sub_eq_ok,
    and_assoc, exists_and_left, exists_eq_left, exists_const]

/-! ## Allowances -/

theorem approve_eq_ok {msg : Msg} {s s' : Ledger} {spender : Address} {value : ℕ} :
    s.approve msg spender value = .ok s' ↔ s' = s.setAllowance msg.sender spender value := by
  simp only [approve, pure_eq_ok]
  exact eq_comm

theorem increaseAllowance_eq_ok {msg : Msg} {s s' : Ledger} {spender : Address} {v : ℕ} :
    s.increaseAllowance msg spender v = .ok s' ↔
      s.allowances msg.sender spender + v < wordBound ∧
        s' = s.setAllowance msg.sender spender (s.allowances msg.sender spender + v) := by
  simp only [increaseAllowance, bind_eq_ok, SafeMath.add_eq_ok, and_assoc, exists_and_left,
    exists_eq_left, pure_eq_ok]
  exact and_congr_right fun _ => eq_comm

/-- An allowance never falls below zero: taking more than it is clears it. -/
theorem decreaseAllowance_eq_ok {msg : Msg} {s s' : Ledger} {spender : Address} {v : ℕ} :
    s.decreaseAllowance msg spender v = .ok s' ↔
      s' = s.setAllowance msg.sender spender (s.allowances msg.sender spender - v) := by
  by_cases hle : s.allowances msg.sender spender ≤ v
  · simp only [decreaseAllowance, if_pos hle, Nat.sub_eq_zero_of_le hle, pure_eq_ok]
    exact eq_comm
  · simp only [decreaseAllowance, if_neg hle, bind_eq_ok, SafeMath.sub_eq_ok, and_assoc,
      exists_and_left, exists_eq_left, pure_eq_ok]
    simp only [(not_le.mp hle).le, true_and]
    exact eq_comm

/-! ## Minting and burning -/

/-- Everything a mint of `v` checks once the account is migrated. -/
structure MintFits (m : Ledger) (a : Address) (v : ℕ) : Prop where
  credited : v * m.creditsPerToken a < wordBound
  received : m.creditBalances a + m.creditsFor a v < wordBound
  frozenTally : m.Frozen a → m.nonRebasingSupply + v < wordBound
  rebasingTally : ¬ m.Frozen a → m.rebasingCredits + m.creditsFor a v < wordBound
  supply : m.totalSupply + v < maxSupply

theorem maxSupply_lt_wordBound : maxSupply < wordBound := by
  unfold maxSupply wordBound
  exact (Nat.sub_le _ _).trans_lt (Nat.pow_lt_pow_right (by omega) (by omega))

theorem mintTo_eq_ok {isContract : Address → Bool} {s s' : Ledger} {a : Address} {v : ℕ} :
    s.mintTo isContract a v = .ok s' ↔
      a ≠ 0 ∧ s.MigrationFits isContract a ∧ MintFits (s.migrate isContract a) a v ∧
        s' = ((s.migrate isContract a).credit a v).addSupply v := by
  simp only [mintTo, bind_eq_ok, require_eq_ok, isNonRebasingAccount_eq_ok,
    StableMath.mulTruncate_eq_ok, SafeMath.add_eq_ok, and_assoc, exists_and_left, exists_eq_left,
    exists_const, decide_eq_true_eq, setCredits, pure_eq_ok]
  generalize s.migrate isContract a = m
  refine and_congr_right fun _ => and_congr_right fun _ => ?_
  by_cases hf : m.Frozen a
  · simp only [hf, if_true, bind_eq_ok, SafeMath.add_eq_ok, pure_eq_ok, and_assoc,
      exists_and_left, exists_eq_left, exists_eq_left', credit_of_frozen hf, addSupply]
    constructor
    · rintro ⟨hv, hrec, hn, -, hsup, rfl⟩
      exact ⟨⟨hv, hrec, fun _ => hn, fun h => absurd hf h, hsup⟩, rfl⟩
    · rintro ⟨⟨hv, hrec, hn, -, hsup⟩, rfl⟩
      exact ⟨hv, hrec, hn hf, hsup.trans maxSupply_lt_wordBound, hsup, rfl⟩
  · simp only [hf, if_false, bind_eq_ok, SafeMath.add_eq_ok, pure_eq_ok, and_assoc,
      exists_and_left, exists_eq_left, exists_eq_left', credit_of_not_frozen hf, addSupply]
    constructor
    · rintro ⟨hv, hrec, hr, -, hsup, rfl⟩
      exact ⟨⟨hv, hrec, fun h => absurd h hf, fun _ => hr, hsup⟩, rfl⟩
    · rintro ⟨⟨hv, hrec, -, hr, hsup⟩, rfl⟩
      exact ⟨hv, hrec, hr hf, hsup.trans maxSupply_lt_wordBound, hsup, rfl⟩

theorem mint_eq_ok {msg : Msg} {s s' : Ledger} {a : Address} {v : ℕ} :
    s.mint msg a v = .ok s' ↔
      s.vaultAddress = msg.sender ∧ s.mintTo msg.isContract a v = .ok s' := by
  simp only [mint, onlyVault, bind_eq_ok, require_eq_ok, exists_and_left, exists_const]

/-- The unchecked comparison of a burn never holds by wrapping around: credits
an amount stands for are far below the largest word. -/
theorem burnCredits_eq_ok {current k c v rate : ℕ} (hk : k = shares fullScale rate v)
    (hfit : v * rate < wordBound) :
    burnCredits current k = .ok c ↔ k ≤ current ∧ c = if current = k + 1 then 0 else current - k := by
  have hsmall : k < wordBound - 1 := by
    have hmul : k * fullScale < wordBound := hk ▸ (shares_mul_le v).trans_lt hfit
    have hscale : 2 ≤ fullScale := by unfold fullScale; norm_num
    have hle : k * 2 ≤ k * fullScale := Nat.mul_le_mul_left _ hscale
    have hbig : 2 < wordBound := by unfold wordBound; norm_num
    omega
  unfold burnCredits decrement
  rcases Nat.lt_trichotomy current k with hlt | heq | hgt
  · have hno : ¬ (current = k ∨ (if current = 0 then wordBound - 1 else current - 1) = k) := by
      split_ifs <;> omega
    rw [if_neg hno, if_neg (by omega)]
    simp [hlt.not_ge]
  · simp [heq, eq_comm]
  · have hpos : current ≠ 0 := by omega
    by_cases hdust : current = k + 1
    · simp [hdust, eq_comm]
    · have hno : ¬ (current = k ∨ (if current = 0 then wordBound - 1 else current - 1) = k) := by
        rw [if_neg hpos]
        omega
      rw [if_neg hno, if_pos hgt, if_neg hdust]
      simp [hgt.le, eq_comm]

/-- Everything a burn of `v` checks once the account is migrated. -/
structure BurnFits (m : Ledger) (a : Address) (v : ℕ) : Prop where
  deducted : v * m.creditsPerToken a < wordBound
  enough : m.creditsFor a v ≤ m.creditBalances a
  frozenTally : m.Frozen a → v ≤ m.nonRebasingSupply
  rebasingTally : ¬ m.Frozen a → m.creditsFor a v ≤ m.rebasingCredits
  supply : v ≤ m.totalSupply

/-- A burn debits the account and drops a credit that is left alone. -/
theorem dropDust_debit {m : Ledger} {a : Address} {v : ℕ}
    (h : m.creditsFor a v ≤ m.creditBalances a) :
    (m.debit a v).dropDust a =
      { m.debit a v with
        creditBalances := Function.update m.creditBalances a
          (if m.creditBalances a = m.creditsFor a v + 1 then 0
           else m.creditBalances a - m.creditsFor a v) } := by
  have hiff : (m.debit a v).creditBalances a = 1 ↔
      m.creditBalances a = m.creditsFor a v + 1 := by
    rw [debit_creditBalances_self]
    omega
  unfold dropDust
  by_cases hd : m.creditBalances a = m.creditsFor a v + 1
  · rw [if_pos (hiff.mpr hd), if_pos hd]
    simp only [setCredits, debit, Function.update_idem]
  · rw [if_neg (mt hiff.mp hd), if_neg hd]
    rfl

theorem burnFrom_eq_ok {isContract : Address → Bool} {s s' : Ledger} {a : Address} {v : ℕ} :
    s.burnFrom isContract a v = .ok s' ↔
      a ≠ 0 ∧ (v = 0 ∧ s' = s ∨
        v ≠ 0 ∧ s.MigrationFits isContract a ∧ BurnFits (s.migrate isContract a) a v ∧
          s' = (((s.migrate isContract a).debit a v).dropDust a).subSupply v) := by
  by_cases hv : v = 0
  · simp only [burnFrom, hv, bind_eq_ok, require_eq_ok, exists_and_left, exists_const, if_true,
      pure_eq_ok, true_and, ne_eq, not_true_eq_false, false_and, or_false]
    exact and_congr_right fun _ => eq_comm
  simp only [burnFrom, hv, if_false, bind_eq_ok, require_eq_ok, isNonRebasingAccount_eq_ok,
    StableMath.mulTruncate_eq_ok, and_assoc, exists_and_left, exists_eq_left, exists_const,
    decide_eq_true_eq, setCredits, pure_eq_ok, false_and, false_or, ne_eq, not_false_eq_true,
    true_and]
  generalize s.migrate isContract a = m
  refine and_congr_right fun _ => and_congr_right fun _ => ?_
  have hcredits : v * m.creditsPerToken a < wordBound → ∀ c,
      burnCredits (m.creditBalances a) (m.creditsFor a v) = .ok c ↔ _ :=
    fun hfit c => burnCredits_eq_ok rfl hfit
  by_cases hf : m.Frozen a
  · simp only [hf, if_true, bind_eq_ok, SafeMath.sub_eq_ok, pure_eq_ok, and_assoc,
      exists_and_left, exists_eq_left, exists_eq_left', subSupply]
    constructor
    · rintro ⟨hd, c, hc, hn, hsup, rfl⟩
      obtain ⟨henough, rfl⟩ := (hcredits hd c).mp hc
      refine ⟨⟨hd, henough, fun _ => hn, fun h => absurd hf h, hsup⟩, ?_⟩
      rw [dropDust_debit henough, debit_of_frozen hf]
    · rintro ⟨⟨hd, henough, hn, -, hsup⟩, rfl⟩
      refine ⟨hd, _, (hcredits hd _).mpr ⟨henough, rfl⟩, hn hf, hsup, ?_⟩
      rw [dropDust_debit henough, debit_of_frozen hf]
  · simp only [hf, if_false, bind_eq_ok, SafeMath.sub_eq_ok, pure_eq_ok, and_assoc,
      exists_and_left, exists_eq_left, exists_eq_left', subSupply]
    constructor
    · rintro ⟨hd, c, hc, hr, hsup, rfl⟩
      obtain ⟨henough, rfl⟩ := (hcredits hd c).mp hc
      refine ⟨⟨hd, henough, fun h => absurd h hf, fun _ => hr, hsup⟩, ?_⟩
      rw [dropDust_debit henough, debit_of_not_frozen hf]
      rfl
    · rintro ⟨⟨hd, henough, -, hr, hsup⟩, rfl⟩
      refine ⟨hd, _, (hcredits hd _).mpr ⟨henough, rfl⟩, hr hf, hsup, ?_⟩
      rw [dropDust_debit henough, debit_of_not_frozen hf]
      rfl

theorem burn_eq_ok {msg : Msg} {s s' : Ledger} {a : Address} {v : ℕ} :
    s.burn msg a v = .ok s' ↔
      s.vaultAddress = msg.sender ∧ s.burnFrom msg.isContract a v = .ok s' := by
  simp only [burn, onlyVault, bind_eq_ok, require_eq_ok, exists_and_left, exists_const]

/-! ## Opting in and out -/

/-- Everything an opt-in checks once the account is migrated. -/
structure OptInFits (m : Ledger) (a : Address) : Prop where
  frozen : m.Frozen a
  product : m.creditBalances a * m.rebasingCreditsPerToken < wordBound
  fits : m.BalanceFits a
  frozenTally : m.balance a ≤ m.nonRebasingSupply
  rebasingTally : m.rebasingCredits + m.convertedCredits a < wordBound

theorem rebaseOptIn_eq_ok {msg : Msg} {s s' : Ledger} :
    s.rebaseOptIn msg = .ok s' ↔
      s.MigrationFits msg.isContract msg.sender ∧
        OptInFits (s.migrate msg.isContract msg.sender) msg.sender ∧
          s' = (s.migrate msg.isContract msg.sender).optIn msg.sender := by
  simp only [rebaseOptIn, bind_eq_ok, require_eq_ok, isNonRebasingAccount_eq_ok,
    balanceOf_eq_ok, SafeMath.mul_eq_ok, SafeMath.div_eq_ok, SafeMath.sub_eq_ok,
    SafeMath.add_eq_ok, and_assoc, exists_and_left, exists_eq_left, exists_const,
    decide_eq_true_eq, setCredits, setFrozenRate, Function.update_self, pure_eq_ok]
  generalize s.migrate msg.isContract msg.sender = m
  generalize msg.sender = a
  refine and_congr_right fun _ => ?_
  constructor
  · intro ⟨hf, hproduct, _, hfits, hn, hr, heq⟩
    exact ⟨⟨hf, hproduct, hfits, hn, hr⟩, heq.symm⟩
  · intro ⟨⟨hf, hproduct, hfits, hn, hr⟩, heq⟩
    have hpos : 0 < m.creditsPerToken a := by
      rw [creditsPerToken_of_frozen hf]
      exact Nat.pos_of_ne_zero hf
    exact ⟨hf, hproduct, hpos, hfits, hn, hr, heq.symm⟩

/-- Everything an opt-out checks once the account is migrated. -/
structure OptOutFits (m : Ledger) (a : Address) : Prop where
  notFrozen : ¬ m.Frozen a
  fits : m.BalanceFits a
  frozenTally : m.nonRebasingSupply + m.balance a < wordBound
  rebasingTally : m.creditBalances a ≤ m.rebasingCredits

theorem rebaseOptOut_eq_ok {msg : Msg} {s s' : Ledger} :
    s.rebaseOptOut msg = .ok s' ↔
      s.MigrationFits msg.isContract msg.sender ∧
        OptOutFits (s.migrate msg.isContract msg.sender) msg.sender ∧
          s' = (s.migrate msg.isContract msg.sender).optOut msg.sender := by
  simp only [rebaseOptOut, bind_eq_ok, require_eq_ok, isNonRebasingAccount_eq_ok,
    balanceOf_eq_ok, SafeMath.sub_eq_ok, SafeMath.add_eq_ok, and_assoc, exists_and_left,
    exists_eq_left, exists_const, decide_eq_false_iff_not, setFrozenRate, pure_eq_ok]
  generalize s.migrate msg.isContract msg.sender = m
  generalize msg.sender = a
  refine and_congr_right fun _ => ?_
  constructor
  · intro ⟨hf, hfits, hn, hr, heq⟩
    exact ⟨⟨hf, hfits, hn, hr⟩, heq.symm⟩
  · intro ⟨⟨hf, hfits, hn, hr⟩, heq⟩
    exact ⟨hf, hfits, hn, hr, heq.symm⟩

/-! ## Rebases -/

/-- The supply a rebase aims at, capped. -/
def cappedSupply (newTotalSupply : ℕ) : ℕ := min newTotalSupply maxSupply

/-- The rate a rebase to a supply sets. -/
def rebasedRate (s : Ledger) (newTotalSupply : ℕ) : ℕ :=
  s.rateFor (cappedSupply newTotalSupply - s.nonRebasingSupply)

/-- Everything a rebase to a new supply checks. -/
structure RebaseFits (s : Ledger) (newTotalSupply : ℕ) : Prop where
  covers : s.nonRebasingSupply ≤ cappedSupply newTotalSupply
  credits : s.rebasingCredits * fullScale < wordBound
  someLeft : 0 < cappedSupply newTotalSupply - s.nonRebasingSupply
  rate : 0 < s.rebasedRate newTotalSupply
  total : worth fullScale (s.rebasedRate newTotalSupply) s.rebasingCredits +
    s.nonRebasingSupply < wordBound

theorem changeSupply_eq_ok {msg : Msg} {s s' : Ledger} {newTotalSupply : ℕ} :
    s.changeSupply msg newTotalSupply = .ok s' ↔
      s.vaultAddress = msg.sender ∧ 0 < s.totalSupply ∧
        (s.totalSupply = newTotalSupply ∧ s' = s ∨
          s.totalSupply ≠ newTotalSupply ∧ RebaseFits s newTotalSupply ∧
            s' = s.setRate (s.rebasedRate newTotalSupply)) := by
  have hcap : (if newTotalSupply > maxSupply then maxSupply else newTotalSupply) =
      cappedSupply newTotalSupply := by
    unfold cappedSupply
    split_ifs <;> omega
  simp only [changeSupply, onlyVault, bind_eq_ok, require_eq_ok, exists_and_left, exists_const,
    hcap]
  refine and_congr_right fun _ => and_congr_right fun _ => ?_
  by_cases heq : s.totalSupply = newTotalSupply
  · simp only [heq, if_true, pure_eq_ok, true_and, ne_eq, not_true_eq_false, false_and, or_false]
    exact eq_comm
  · simp only [heq, if_false, bind_eq_ok, SafeMath.sub_eq_ok, SafeMath.add_eq_ok,
      StableMath.divPrecisely_eq_ok, require_eq_ok, pure_eq_ok, and_assoc, exists_and_left,
      exists_eq_left, exists_const, false_and, false_or, ne_eq, not_false_eq_true, true_and]
    constructor
    · rintro ⟨hcovers, hcredits, hleft, hrate, -, -, htotal, h⟩
      exact ⟨⟨hcovers, hcredits, hleft, hrate, htotal⟩, h.symm⟩
    · rintro ⟨⟨hcovers, hcredits, hleft, hrate, htotal⟩, h⟩
      exact ⟨hcovers, hcredits, hleft, hrate, hcredits, hrate, htotal, h.symm⟩

end Ledger

end InterestDollar
