import InterestDollar.Strategy.Payout

/-!
# What a strategy has been paid

The platforms keep the books of what they have paid a strategy of each token, less what it has
given them. With standard tokens, what was paid of a token is with the strategy or, once the
strategy has sent it on, with the vault. A coin is cleared by a call of the strategy that
leaves none of it, or in which none was paid.
-/

namespace InterestDollar

open Checked

section

variable {ω : Type} (P : Platform ω) (paid : ω → Address → ℤ) (b : AbstractStrategy)
  (token : Address) (w w' : ω)

/-- A token that nothing was done with, as far as the strategy and the vault are concerned. -/
structure Untouched : Prop where
  own : P.held w' token b.self = P.held w token b.self
  vault : P.held w' token b.vaultAddress = P.held w token b.vaultAddress
  unpaid : paid w' token = paid w token

/-- What was paid went to the strategy, and the vault has what it had. -/
structure Settles : Prop where
  own : (P.held w' token b.self : ℤ) - P.held w token b.self = paid w' token - paid w token
  vault : P.held w' token b.vaultAddress = P.held w token b.vaultAddress

/-- What was paid is with the strategy or the vault. -/
def Delivered : Prop :=
  ((P.held w' token b.vaultAddress : ℤ) - P.held w token b.vaultAddress) +
    (P.held w' token b.self - P.held w token b.self) = paid w' token - paid w token

/-- The strategy has nothing of a token left, or nothing was done with it. -/
def Cleared : Prop := P.held w' token b.self = 0 ∨ Untouched P paid b token w w'

end

variable {ω : Type} {P : Platform ω} {paid : ω → Address → ℤ} {b : AbstractStrategy}
  {token : Address} {w w₁ w' : ω}

theorem Untouched.refl (w : ω) : Untouched P paid b token w w := ⟨rfl, rfl, rfl⟩

theorem Untouched.trans (h : Untouched P paid b token w w₁) (h' : Untouched P paid b token w₁ w') :
    Untouched P paid b token w w' :=
  ⟨h'.own.trans h.own, h'.vault.trans h.vault, h'.unpaid.trans h.unpaid⟩

theorem Untouched.settles (h : Untouched P paid b token w w') : Settles P paid b token w w' where
  own := by rw [h.own, h.unpaid, sub_self, sub_self]
  vault := h.vault

theorem Settles.trans (h : Settles P paid b token w w₁) (h' : Settles P paid b token w₁ w') :
    Settles P paid b token w w' where
  own := by
    have h₁ := h.own
    have h₂ := h'.own
    omega
  vault := h'.vault.trans h.vault

theorem Settles.delivered (h : Settles P paid b token w w') : Delivered P paid b token w w' := by
  rw [Delivered, h.vault, h.own, sub_self, zero_add]

theorem Delivered.refl (w : ω) : Delivered P paid b token w w :=
  (Untouched.refl w).settles.delivered

theorem Delivered.trans (h : Delivered P paid b token w w₁) (h' : Delivered P paid b token w₁ w') :
    Delivered P paid b token w w' := by
  unfold Delivered at h h' ⊢
  omega

theorem Untouched.cleared (h : Untouched P paid b token w w') : Cleared P paid b token w w' :=
  .inr h

theorem Cleared.refl (w : ω) : Cleared P paid b token w w := .inr (.refl w)

theorem Cleared.trans (h : Cleared P paid b token w w₁) (h' : Cleared P paid b token w₁ w') :
    Cleared P paid b token w w' := by
  rcases h' with hnone | huntouched
  · exact .inl hnone
  · rcases h with hnone | h
    · exact .inl (huntouched.own.trans hnone)
    · exact .inr (h.trans huntouched)

/-- If some of the token was paid, the strategy has none of it. -/
theorem Cleared.held_eq_zero (h : Cleared P paid b token w w')
    (hpaid : paid w' token ≠ paid w token) : P.held w' token b.self = 0 :=
  h.resolve_right fun huntouched => hpaid huntouched.unpaid

/-- Standard tokens: what the strategy sends to the vault is what the vault gets, no transfer
and no allowance touches anything else, and neither is a payment. -/
structure StandardTokens (P : Platform ω) (paid : ω → Address → ℤ) (b : AbstractStrategy) :
    Prop where
  own {w w' : ω} {token : Address} {amount : ℕ} :
    P.safeTransfer w b.self token b.vaultAddress amount = .ok w' →
      P.held w' token b.self + amount = P.held w token b.self
  vault {w w' : ω} {token : Address} {amount : ℕ} :
    P.safeTransfer w b.self token b.vaultAddress amount = .ok w' →
      P.held w' token b.vaultAddress = P.held w token b.vaultAddress + amount
  unpaid {w w' : ω} {token : Address} {amount : ℕ} :
    P.safeTransfer w b.self token b.vaultAddress amount = .ok w' → paid w' token = paid w token
  others {w w' : ω} {token : Address} {amount : ℕ} (other : Address) : other ≠ token →
    P.safeTransfer w b.self token b.vaultAddress amount = .ok w' →
      Untouched P paid b other w w'
  approve {w w' : ω} {token spender : Address} {amount : ℕ} (other : Address) :
    P.safeApprove w b.self token spender amount = .ok w' → Untouched P paid b other w w'

section

variable {amount : ℕ}

theorem StandardTokens.sendToVault_delivered (h : StandardTokens P paid b) (other : Address)
    (hs : b.sendToVault P w token amount = .ok w') : Delivered P paid b other w w' := by
  have hs := (callAt_eq_ok.mp hs).2
  by_cases heq : other = token
  · subst heq
    have hown := h.own hs
    have hvault := h.vault hs
    have hunpaid := h.unpaid hs
    unfold Delivered
    omega
  · exact (h.others other heq hs).settles.delivered

theorem ownBalance_eq_ok {balance : ℕ} (h : b.ownBalance P w token = .ok balance) :
    balance = P.held w token b.self :=
  (amountOf_eq (callAt_eq_ok.mp h).2).symm

/-- The strategy sends all that it has of a token. -/
theorem StandardTokens.sendAllToVault (h : StandardTokens P paid b)
    (hs : b.sendAllToVault P w token = .ok w') :
    P.held w' token b.self = 0 ∧ (∀ other, Delivered P paid b other w w') ∧
      ∀ other, other ≠ token → Untouched P paid b other w w' := by
  obtain ⟨balance, hbalance, hs⟩ := bind_eq_ok.mp hs
  have hbalance := ownBalance_eq_ok hbalance
  have hown := h.own (callAt_eq_ok.mp hs).2
  refine ⟨by omega, fun other => h.sendToVault_delivered other hs, fun other hne => ?_⟩
  exact h.others other hne (callAt_eq_ok.mp hs).2

theorem StandardTokens.safeApproveMax {spender : Address} (h : StandardTokens P paid b)
    (other : Address) (hs : b.safeApproveMax P w token spender = .ok w') :
    Untouched P paid b other w w' := by
  obtain ⟨w₁, h₁, h₂⟩ := bind_eq_ok.mp hs
  exact (h.approve other (callAt_eq_ok.mp h₁).2).trans (h.approve other (callAt_eq_ok.mp h₂).2)

end

/-- The tokens of plain platforms are standard for a strategy that is not the vault. -/
theorem standardTokens_of_plain {P : Platform PlainPlatform} {b : AbstractStrategy}
    (hheld : ∀ w token holder, P.held w token holder = w.balances token holder)
    (htransfer : ∀ w caller token recipient amount,
      P.safeTransfer w caller token recipient amount =
        w.lift (w.move token caller recipient amount))
    (happrove : ∀ w caller token spender amount,
      P.safeApprove w caller token spender amount = .ok w)
    (hself : b.self ≠ b.vaultAddress) :
    StandardTokens P (fun w token => w.paid b.self token) b := by
  have hmoved : ∀ {w w' : PlainPlatform} {token : Address} {amount : ℕ},
      P.safeTransfer w b.self token b.vaultAddress amount = .ok w' →
        amount ≤ w.balances token b.self ∧ w' = { w with
          toPlainWorld := (w.take token b.self amount).give token b.vaultAddress amount } := by
    intro w w' token amount h
    rw [htransfer] at h
    obtain ⟨world, hmove, rfl⟩ := PlainPlatform.lift_eq_ok.mp h
    obtain ⟨hle, rfl⟩ := PlainWorld.move_eq_ok.mp hmove
    exact ⟨hle, rfl⟩
  constructor
  · intro w w' token amount h
    obtain ⟨hle, rfl⟩ := hmoved h
    rw [hheld, hheld]
    simpa [PlainWorld.give, PlainWorld.take, hself] using Nat.sub_add_cancel hle
  · intro w w' token amount h
    obtain ⟨-, rfl⟩ := hmoved h
    rw [hheld, hheld]
    simp [PlainWorld.give, PlainWorld.take, hself.symm]
  · intro w w' token amount h
    obtain ⟨-, rfl⟩ := hmoved h
    rfl
  · intro w w' token amount other hne h
    obtain ⟨-, rfl⟩ := hmoved h
    have hsame : ((w.take token b.self amount).give token b.vaultAddress amount).balances other =
        w.balances other := by
      simp [PlainWorld.give, PlainWorld.take, hne]
    refine ⟨?_, ?_, rfl⟩ <;> rw [hheld, hheld] <;> exact congrFun hsame _
  · intro w w' token spender amount other h
    rw [happrove] at h
    cases h
    exact .refl w

theorem standardTokens_calls (m : PlainMarket) {b : AbstractStrategy}
    (hself : b.self ≠ b.vaultAddress) :
    StandardTokens (PlainPlatform.calls m) (fun w token => w.paid b.self token) b :=
  standardTokens_of_plain (fun _ _ _ => rfl) (fun _ _ _ _ _ => rfl) (fun _ _ _ _ _ => rfl) hself

/-! ## Calls of a strategy -/

section

variable {coins : List Address} {rewards : Address → Prop}

/-- What a call of a strategy does that leaves at most rewards behind: whatever was paid of the
coins and the reward token is delivered, and every coin that is no reward is cleared. -/
structure Clears (P : Platform ω) (paid : ω → Address → ℤ) (b : AbstractStrategy)
    (coins : List Address) (rewards : Address → Prop) (w w' : ω) : Prop where
  delivered : ∀ token ∈ b.rewardTokenAddress :: coins, Delivered P paid b token w w'
  cleared : ∀ coin ∈ coins, ¬ rewards coin → Cleared P paid b coin w w'

theorem Clears.refl (w : ω) : Clears P paid b coins rewards w w :=
  ⟨fun _ _ => .refl w, fun _ _ _ => .refl w⟩

theorem Clears.trans (h : Clears P paid b coins rewards w w₁)
    (h' : Clears P paid b coins rewards w₁ w') : Clears P paid b coins rewards w w' where
  delivered token hmem := (h.delivered token hmem).trans (h'.delivered token hmem)
  cleared coin hmem hnot := (h.cleared coin hmem hnot).trans (h'.cleared coin hmem hnot)

/-- A platform pays of these tokens what its books say, and nothing of a coin that is not due. -/
structure Pays (P : Platform ω) (paid : ω → Address → ℤ) (b : AbstractStrategy)
    (coins : List Address) (due : Address → Prop) (w w' : ω) : Prop where
  settles : ∀ token ∈ b.rewardTokenAddress :: coins, Settles P paid b token w w'
  others : ∀ coin ∈ coins, ¬ due coin → Untouched P paid b coin w w'

theorem Pays.clears (h : Pays P paid b coins rewards w w') :
    Clears P paid b coins rewards w w' where
  delivered token hmem := (h.settles token hmem).delivered
  cleared coin hmem hnot := (h.others coin hmem hnot).cleared

theorem pays_of_untouched
    (h : ∀ token ∈ b.rewardTokenAddress :: coins, Untouched P paid b token w w') :
    Pays P paid b coins rewards w w' where
  settles token hmem := (h token hmem).settles
  others coin hmem _ := h coin (List.mem_cons_of_mem _ hmem)

theorem Pays.mono {due : Address → Prop} (h : Pays P paid b coins rewards w w')
    (hdue : ∀ coin, rewards coin → due coin) : Pays P paid b coins due w w' :=
  ⟨h.settles, fun coin hmem hnot => h.others coin hmem (mt (hdue coin) hnot)⟩

theorem Pays.trans (h : Pays P paid b coins rewards w w₁)
    (h' : Pays P paid b coins rewards w₁ w') : Pays P paid b coins rewards w w' where
  settles token hmem := (h.settles token hmem).trans (h'.settles token hmem)
  others coin hmem hnot := (h.others coin hmem hnot).trans (h'.others coin hmem hnot)

/-- A platform pays one token of these, and no other. -/
structure PaysOnly (P : Platform ω) (paid : ω → Address → ℤ) (b : AbstractStrategy)
    (coins : List Address) (token : Address) (w w' : ω) : Prop where
  settles : Settles P paid b token w w'
  others : ∀ other ∈ b.rewardTokenAddress :: coins, other ≠ token → Untouched P paid b other w w'

theorem PaysOnly.settles_of_mem (h : PaysOnly P paid b coins token w w') {other : Address}
    (hmem : other ∈ b.rewardTokenAddress :: coins) : Settles P paid b other w w' := by
  by_cases heq : other = token
  · exact heq ▸ h.settles
  · exact (h.others other hmem heq).settles

/-- Platforms pay several tokens, of the coins besides rewards at most one that is not cleared
then, and the strategy sends all it has of that one on. -/
theorem StandardTokens.clears_sendAllToVault (h : StandardTokens P paid b)
    (hpays : ∀ other ∈ b.rewardTokenAddress :: coins, Settles P paid b other w w₁)
    (hothers : ∀ other ∈ coins, other ≠ token → ¬ rewards other → Cleared P paid b other w w₁)
    (hs : b.sendAllToVault P w₁ token = .ok w') : Clears P paid b coins rewards w w' := by
  obtain ⟨hnone, hdelivered, huntouched⟩ := h.sendAllToVault hs
  constructor
  · exact fun other hmem => (hpays other hmem).delivered.trans (hdelivered other)
  · intro coin hmem hnot
    by_cases heq : coin = token
    · exact .inl (heq ▸ hnone)
    · exact (hothers coin hmem heq hnot).trans (huntouched coin heq).cleared

/-- What is due is one token and rewards, and the strategy sends all it has of the one on. -/
theorem Pays.clears_sendAllToVault
    (h : Pays P paid b coins (fun coin => coin = token ∨ rewards coin) w w₁)
    (htokens : StandardTokens P paid b) (hs : b.sendAllToVault P w₁ token = .ok w') :
    Clears P paid b coins rewards w w' :=
  htokens.clears_sendAllToVault h.settles
    (fun other hmem hne hnot => (h.others other hmem (not_or.mpr ⟨hne, hnot⟩)).cleared) hs

theorem PaysOnly.clears (h : PaysOnly P paid b coins token w w₁) (htokens : StandardTokens P paid b)
    (hs : b.sendAllToVault P w₁ token = .ok w') : Clears P paid b coins rewards w w' :=
  htokens.clears_sendAllToVault (fun _ hmem => h.settles_of_mem hmem)
    (fun other hmem hne _ => (h.others other (List.mem_cons_of_mem _ hmem) hne).cleared) hs

/-- A loop over assets each of which is cleared. -/
theorem clears_foldlM {f : ω → Address → Except Failure ω} {l : List Address}
    (hf : ∀ w, ∀ asset ∈ l, Ensures (f w asset) (Clears P paid b coins rewards w)) (w : ω) :
    Ensures (l.foldlM f w) (Clears P paid b coins rewards w) :=
  ensures_foldlM_mem (fun w₁ asset hasset h w' hs => h.trans (hf w₁ asset hasset w' hs)) (.refl w)

end

/-! ## Payments of plain platforms -/

section

variable {P : Platform PlainPlatform} {b : AbstractStrategy} {coins : List Address}
  {w w' : PlainPlatform} {token platform : Address} {amount : ℕ}

theorem pays_of_pay (hheld : ∀ w token holder, P.held w token holder = w.balances token holder)
    (hvault : b.vaultAddress ≠ platform) (hself : b.vaultAddress ≠ b.self)
    (h : w.pay token platform b.self amount = .ok w') :
    Pays P (fun w token => w.paid b.self token) b coins (· = token) w w' := by
  obtain ⟨-, rfl⟩ := PlainPlatform.pay_eq_ok.mp h
  refine ⟨fun other _ => ⟨?_, ?_⟩, fun coin _ hne => ⟨?_, ?_, ?_⟩⟩
  · simp [hheld, PlainPlatform.payOut_balances_self, PlainPlatform.payOut_paid_self]
  · rw [hheld, hheld, PlainPlatform.payOut_balances_of_ne hvault hself]
  · rw [hheld, hheld, PlainPlatform.payOut_balances_of_eq_zero (PlainPlatform.only_of_ne hne)]
  · rw [hheld, hheld, PlainPlatform.payOut_balances_of_ne hvault hself]
  · rw [PlainPlatform.payOut_paid_self, PlainPlatform.only_of_ne hne, add_zero]

theorem pays_of_payRewards {m : PlainMarket}
    (hheld : ∀ w token holder, P.held w token holder = w.balances token holder)
    (hvault : b.vaultAddress ≠ platform) (hself : b.vaultAddress ≠ b.self)
    (h : PlainPlatform.payRewards m w platform b.self = .ok w') :
    Pays P (fun w token => w.paid b.self token) b coins (· = m.rewardToken) w w' := by
  obtain ⟨w₁, hpay, h⟩ := bind_eq_ok.mp h
  cases pure_eq_ok.mp h
  have hpays : Pays P (fun w token => w.paid b.self token) b coins (· = m.rewardToken) w w₁ :=
    pays_of_pay hheld hvault hself hpay
  refine ⟨fun other hmem => ⟨?_, ?_⟩, fun coin hmem hne => ⟨?_, ?_, ?_⟩⟩
  · simpa only [hheld] using (hpays.settles other hmem).own
  · simpa only [hheld] using (hpays.settles other hmem).vault
  · simpa only [hheld] using (hpays.others coin hmem hne).own
  · simpa only [hheld] using (hpays.others coin hmem hne).vault
  · exact (hpays.others coin hmem hne).unpaid

/-- A token that is burnt is none of the coins and no reward. -/
theorem pays_of_burn {due : Address → Prop} {holder : Address}
    (hheld : ∀ w token holder, P.held w token holder = w.balances token holder)
    (htoken : token ∉ b.rewardTokenAddress :: coins)
    (h : w.burn token holder amount = .ok w') :
    Pays P (fun w token => w.paid b.self token) b coins due w w' := by
  obtain ⟨-, rfl⟩ := PlainPlatform.burn_eq_ok.mp h
  refine pays_of_untouched fun other hmem => ?_
  have hsame : (w.take token holder amount).balances other = w.balances other :=
    PlainPlatform.take_balances_of_token_ne fun heq => htoken (heq ▸ hmem)
  refine ⟨?_, ?_, rfl⟩ <;> rw [hheld, hheld] <;> exact congrFun hsame _

end

end InterestDollar
