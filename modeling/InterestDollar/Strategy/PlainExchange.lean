import InterestDollar.Strategy.OwnOperations

/-!
# A plain exchange

Plain platforms with an exchange that has one pool. It takes the amounts that it is given, in the
proportion of the pool, and pays the share of the LP tokens that it gets back, rounded down. The
lending market and the staking contract pay what they are asked for, and all three behave as the
Aave strategy's operations assume.
-/

namespace InterestDollar

open Checked FixedPoint

namespace PlainPlatform

/-- What the pool gives of a token for an amount of LP tokens. -/
def pairShare (m : PlainMarket) (w : PlainPlatform) (tokenA tokenB : Address) (liquidity : ℕ)
    (token : Address) : ℕ :=
  if token = tokenA ∨ token = tokenB then
    shares (w.supply m.lpPair) (w.balances token m.lpPair) liquidity
  else 0

/-- The LP tokens for an amount of a token of the pool. -/
def liquidityFor (m : PlainMarket) (w : PlainPlatform) (token : Address) (amount : ℕ) : ℕ :=
  amount * w.supply m.lpPair / w.balances token m.lpPair

/-- Plain platforms with an exchange. -/
def exchange (m : PlainMarket) : Platform PlainPlatform :=
  { calls m with
    redeemAToken := fun w caller aToken amount => do
      let w ← w.burn aToken caller amount
      return w.payOut aToken caller (only (m.underlying aToken) amount)
    addLiquidity := fun w caller _ tokenA tokenB amountA amountB _ _ recipient _ => do
      let liquidity := min (liquidityFor m w tokenA amountA) (liquidityFor m w tokenB amountB)
      let w ← w.lift (w.move tokenA caller m.lpPair amountA)
      let w ← w.lift (w.move tokenB caller m.lpPair amountB)
      return w.create m.lpPair recipient liquidity
    removeLiquidity := fun w caller _ tokenA tokenB liquidity _ _ recipient _ => do
      let amounts := pairShare m w tokenA tokenB liquidity
      let w ← w.burn m.lpPair caller liquidity
      return w.payOut m.lpPair recipient amounts
    unstake := fun w caller staking amount => do
      let w ← w.burn staking caller amount
      return w.payOut staking caller (only m.lpPair amount) }

variable {m : PlainMarket} {w w' : PlainPlatform} {token caller : Address} {amount : ℕ}

/-- What is burnt is paid for, up to the balance. -/
theorem burn_then {f : PlainPlatform → PlainPlatform} (h : amount ≤ w.balances token caller) :
    (do
      let w ← w.burn token caller amount
      return f w) = .ok (f { w with
        toPlainWorld := w.take token caller amount
        supply := Function.update w.supply token (w.supply token - amount) }) :=
  bind_eq_ok.mpr ⟨_, burn_eq_ok.mpr ⟨h, rfl⟩, rfl⟩

theorem pairShare_of_ne {tokenA tokenB : Address} {liquidity : ℕ} (hA : token ≠ tokenA)
    (hB : token ≠ tokenB) : pairShare m w tokenA tokenB liquidity token = 0 :=
  if_neg (not_or.mpr ⟨hA, hB⟩)

/-- A token that a call changes neither the balances nor the supply of. -/
theorem exchange_keeps (hbalances : w'.balances token = w.balances token)
    (hsupply : w'.supply token = w.supply token) : (exchange m).Keeps token w w' where
  balanceOf := funext fun holder => congrArg Except.ok (congrFun hbalances holder)
  totalSupply := congrArg Except.ok hsupply

/-! ## What is assumed -/

theorem exchange_redeemsAtPar {aToken account : Address} (hne : aToken ≠ m.underlying aToken)
    (haccount : account ≠ aToken) :
    RedeemsAtPar (exchange m) caller aToken (m.underlying aToken) account := by
  intro w amount _ hle
  refine ⟨_, burn_then hle, ?_⟩
  constructor
  · refine congrArg Except.ok ?_
    rw [payOut_balances_of_eq_zero (only_of_ne hne)]
    exact take_balances_self
  · intro holder hholder
    refine congrArg Except.ok ?_
    rw [payOut_balances_of_eq_zero (only_of_ne hne)]
    exact take_balances_of_ne hholder aToken
  · refine payOut_balances_self.trans ?_
    rw [only_self, take_balances_of_token_ne hne.symm]
    rfl
  · intro hcaller
    refine (payOut_balances_of_ne haccount hcaller).trans ?_
    exact take_balances_of_ne hcaller _
  · intro token haToken hasset
    refine exchange_keeps ?_ (Function.update_of_ne haToken ..)
    rw [payOut_balances_of_eq_zero (only_of_ne hasset)]
    exact take_balances_of_token_ne haToken

theorem exchange_sends (m : PlainMarket) (caller token account : Address) :
    Sends (exchange m) caller token account := by
  intro w amount _ hle
  refine ⟨_, lift_eq_ok.mpr ⟨_, PlainWorld.move_eq_ok.mpr ⟨hle, rfl⟩, rfl⟩, ?_, ?_⟩
  · change ((w.take token caller amount).give token account amount).balances token account = _
    by_cases heq : account = caller
    · rw [if_pos heq, heq]
      simp only [PlainWorld.give, PlainWorld.take, Function.update_self]
      exact Nat.sub_add_cancel hle
    · rw [if_neg heq]
      simp only [PlainWorld.give, PlainWorld.take, Function.update_self,
        Function.update_of_ne heq]
      rfl
  · intro other hne
    refine exchange_keeps ?_ rfl
    simp only [PlainWorld.give, PlainWorld.take, Function.update_of_ne hne]

theorem exchange_keepsStake {staking : Address} (hpool : staking ≠ m.lpPair)
    (hcaller : staking ≠ caller) : KeepsStake (exchange m) caller staking m.lpPair where
  takes {w w' amount} h := by
    obtain ⟨w₁, hlift, h⟩ := bind_eq_ok.mp h
    obtain ⟨world, hmove, rfl⟩ := lift_eq_ok.mp hlift
    obtain ⟨hle, rfl⟩ := PlainWorld.move_eq_ok.mp hmove
    cases pure_eq_ok.mp h
    change (create _ staking caller amount).balances m.lpPair caller + amount =
      w.balances m.lpPair caller
    rw [create_balances_of_token_ne hpool.symm]
    simp only [PlainWorld.give, PlainWorld.take, Function.update_self,
      Function.update_of_ne hcaller.symm]
    exact Nat.sub_add_cancel hle
  returns w {amount} _ hle := by
    refine ⟨_, burn_then hle, ?_⟩
    constructor
    · refine congrArg Except.ok ?_
      rw [payOut_balances_of_eq_zero (only_of_ne hpool)]
      exact take_balances_self
    · refine congrArg Except.ok (payOut_balances_self.trans ?_)
      rw [only_self, take_balances_of_token_ne hpool.symm]
      rfl
    · exact congrArg Except.ok (Function.update_of_ne hpool.symm ..)
    · intro token hstaking hlpPair
      refine exchange_keeps ?_ (Function.update_of_ne hstaking ..)
      rw [payOut_balances_of_eq_zero (only_of_ne hlpPair)]
      exact take_balances_of_token_ne hstaking
    · rfl

theorem exchange_paysShares {tokenA tokenB : Address} (hA : m.lpPair ≠ tokenA)
    (hB : m.lpPair ≠ tokenB) (caller router : Address) :
    PaysShares (exchange m) caller router m.lpPair tokenA tokenB := by
  intro w liquidity deadline _ hle hdue
  refine ⟨_, burn_then hle, ?_⟩
  constructor
  · refine congrArg Except.ok ?_
    rw [payOut_balances_of_eq_zero (pairShare_of_ne hA hB)]
    exact take_balances_self
  · refine congrArg Except.ok (payOut_balances_self.trans ?_)
    rw [pairShare, if_pos (.inl rfl), take_balances_of_token_ne hA.symm]
    rfl
  · refine congrArg Except.ok (payOut_balances_self.trans ?_)
    rw [pairShare, if_pos (.inr rfl), take_balances_of_token_ne hB.symm]
    rfl
  · intro token hlpPair h1 h2
    refine exchange_keeps ?_ (Function.update_of_ne hlpPair ..)
    rw [payOut_balances_of_eq_zero (pairShare_of_ne h1 h2)]
    exact take_balances_of_token_ne hlpPair

/-- A sender has no more of any token than before. -/
theorem move_balances_le {world world' : PlainWorld} {recipient : Address}
    (h : world.move token caller recipient amount = .ok world') (other : Address) :
    world'.balances other caller ≤ world.balances other caller := by
  obtain ⟨hle, rfl⟩ := PlainWorld.move_eq_ok.mp h
  by_cases htoken : other = token
  · subst htoken
    by_cases hrecipient : recipient = caller
    · subst hrecipient
      simp only [PlainWorld.give, PlainWorld.take, Function.update_self]
      exact (Nat.sub_add_cancel hle).le
    · simp only [PlainWorld.give, PlainWorld.take, Function.update_self,
        Function.update_of_ne (Ne.symm hrecipient)]
      exact Nat.sub_le _ _
  · simp only [PlainWorld.give, PlainWorld.take, Function.update_of_ne htoken]
    exact le_rfl

theorem exchange_bringsNone (haTokens : ∀ asset, m.lpPair ≠ m.aToken asset)
    (hunderlying : ∀ aToken, m.lpPair ≠ m.underlying aToken) (hreward : m.lpPair ≠ m.rewardToken)
    (caller : Address) : BringsNone (exchange m) caller m.lpPair where
  lend {w w' lendingPool asset amount referralCode} h := by
    obtain ⟨w₁, hlift, h⟩ := bind_eq_ok.mp h
    obtain ⟨world, hmove, rfl⟩ := lift_eq_ok.mp hlift
    cases pure_eq_ok.mp h
    change (create _ (m.aToken asset) caller amount).balances m.lpPair caller ≤
      w.balances m.lpPair caller
    rw [create_balances_of_token_ne (haTokens asset)]
    exact move_balances_le hmove m.lpPair
  redeem {w w' aToken amount} h := by
    obtain ⟨w₁, hburn, h⟩ := bind_eq_ok.mp h
    obtain ⟨hle, rfl⟩ := burn_eq_ok.mp hburn
    cases pure_eq_ok.mp h
    change (payOut _ _ _ _).balances m.lpPair caller ≤ w.balances m.lpPair caller
    rw [payOut_balances_of_eq_zero (only_of_ne (hunderlying aToken))]
    by_cases heq : m.lpPair = aToken
    · rw [heq]
      exact take_balances_self.trans_le (Nat.sub_le _ _)
    · rw [take_balances_of_token_ne heq]
  transfer {w w' token recipient amount} h := by
    obtain ⟨world, hmove, rfl⟩ := lift_eq_ok.mp h
    exact move_balances_le hmove m.lpPair
  approve h := by
    cases h
    exact le_rfl
  reward {w w' staking} h :=
    (congrFun ((payRewards_eq_ok h).2.2.1 m.lpPair hreward).1 caller).le
  swap _ h := by
    cases h

end PlainPlatform

end InterestDollar
