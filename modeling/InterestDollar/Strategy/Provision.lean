import InterestDollar.FixedPoint.Ratio
import InterestDollar.Strategy.Withdrawal

/-!
# What the Aave strategy gives to the exchange

The strategy offers all of one balance of aTokens and of the other one what that is worth, at the
ratio of the two prices, rounded down. It starts from the first balance, and where the second one
does not reach it starts from the second one, at the inverse of the ratio, which is rounded on its
own. That the first balance reaches then is not checked. It does, since what was missing at the
first ratio is more than any rounding.
-/

namespace InterestDollar

open Checked FixedPoint

namespace AaveStrategy

variable {ω : Type} {P : Platform ω} {s : AaveStrategy} {w : ω} {asset : Address}
  {price1 price2 balance1 balance2 desired1 desired2 : ℕ}

/-- The amounts at two prices: the two ratios, and then the amounts. -/
def liquidityAmounts (price1 price2 balance1 balance2 : ℕ) : Except Revert (ℕ × ℕ) := do
  let price ← priceRatio price1 price2
  let priceInv ← priceRatio price2 price1
  desiredAmounts balance1 balance2 price priceInv

theorem priceRatio_eq_ok {ratio : ℕ} (h : priceRatio price1 price2 = .ok ratio) :
    0 < price2 ∧ ratio = worth (10 ^ 18) price2 price1 := by
  obtain ⟨product, hproduct, h⟩ := bind_eq_ok.mp h
  obtain ⟨-, rfl⟩ := SafeMath.mul_eq_ok.mp hproduct
  exact SafeMath.div_eq_ok.mp h

/-- All of the first balance and its worth of the second one, which has that, or all of the second
one, which has not, and its worth of the first one. -/
theorem liquidityAmounts_eq_ok
    (h : liquidityAmounts price1 price2 balance1 balance2 = .ok (desired1, desired2)) :
    0 < price1 ∧ 0 < price2 ∧
      ((desired1 = balance1 ∧ desired2 = atRatio (10 ^ 18) price1 price2 balance1 ∧
          desired2 ≤ balance2) ∨
        (desired2 = balance2 ∧ desired1 = atRatio (10 ^ 18) price2 price1 balance2 ∧
          balance2 < atRatio (10 ^ 18) price1 price2 balance1)) := by
  obtain ⟨price, hprice, h⟩ := bind_eq_ok.mp h
  obtain ⟨priceInv, hpriceInv, h⟩ := bind_eq_ok.mp h
  obtain ⟨hpos2, rfl⟩ := priceRatio_eq_ok hprice
  obtain ⟨hpos1, rfl⟩ := priceRatio_eq_ok hpriceInv
  refine ⟨hpos1, hpos2, ?_⟩
  obtain ⟨product, hproduct, h⟩ := bind_eq_ok.mp h
  obtain ⟨worth2, hworth2, h⟩ := bind_eq_ok.mp h
  obtain ⟨-, rfl⟩ := SafeMath.mul_eq_ok.mp hproduct
  obtain ⟨-, rfl⟩ := SafeMath.div_eq_ok.mp hworth2
  split_ifs at h with hshort
  · obtain ⟨product, hproduct, h⟩ := bind_eq_ok.mp h
    obtain ⟨worth1, hworth1, h⟩ := bind_eq_ok.mp h
    obtain ⟨-, rfl⟩ := SafeMath.mul_eq_ok.mp hproduct
    obtain ⟨-, rfl⟩ := SafeMath.div_eq_ok.mp hworth1
    cases pure_eq_ok.mp h
    exact .inr ⟨rfl, rfl, hshort⟩
  · cases pure_eq_ok.mp h
    exact .inl ⟨rfl, rfl, not_lt.mp hshort⟩

/-- An amount is worth what another one is, up to the roundings: no more, and short of it by less
than the price of a unit and of what one step of the ratio is for the other amount. -/
def WorthAs (price1 amount1 price2 amount2 : ℕ) : Prop :=
  amount2 * price2 ≤ amount1 * price1 ∧
    amount1 * price1 * 10 ^ 18 <
      amount2 * price2 * 10 ^ 18 + amount1 * price2 + price2 * 10 ^ 18

theorem worthAs_atRatio (hpos : 0 < price2) (amount : ℕ) :
    WorthAs price1 amount price2 (atRatio (10 ^ 18) price1 price2 amount) :=
  ⟨atRatio_mul_le (by decide), lt_atRatio_mul (by decide) hpos⟩

/-- The amounts are there, one of them is everything, and the other one is worth as much. -/
theorem liquidityAmounts_balanced
    (h : liquidityAmounts price1 price2 balance1 balance2 = .ok (desired1, desired2)) :
    (desired1 ≤ balance1 ∧ desired2 ≤ balance2) ∧
      (desired1 = balance1 ∧ WorthAs price1 desired1 price2 desired2 ∨
        desired1 < balance1 ∧ desired2 = balance2 ∧
          WorthAs price2 desired2 price1 desired1) := by
  obtain ⟨hpos1, hpos2, hfirst | hsecond⟩ := liquidityAmounts_eq_ok h
  · obtain ⟨rfl, rfl, hle⟩ := hfirst
    exact ⟨⟨le_rfl, hle⟩, .inl ⟨rfl, worthAs_atRatio hpos2 desired1⟩⟩
  · obtain ⟨rfl, rfl, hshort⟩ := hsecond
    -- what the second balance is worth is below the first one, which is worth more than it has
    have hlt : atRatio (10 ^ 18) price2 price1 desired2 < balance1 :=
      atRatio_inverse_lt (by decide) hpos2 hshort
    exact ⟨⟨hlt.le, le_rfl⟩, .inr ⟨hlt, rfl, worthAs_atRatio hpos1 desired2⟩⟩

/-- What `_provideLiquidity` reads before it offers anything. -/
structure LiquidityReads (P : Platform ω) (s : AaveStrategy) (w : ω) (asset : Address)
    (aToken1 aToken2 : Address) (price1 price2 balance1 balance2 : ℕ) : Prop where
  router : s.uniswapAddr ≠ 0
  prices : ∃ oracle, callAt s.vaultAddress (P.priceProvider w s.vaultAddress) = .ok oracle ∧
    callAt oracle (P.price w oracle asset) = .ok price1 ∧
    callAt oracle (P.price w oracle (s.rewardLiquidityPair asset)) = .ok price2
  mapped1 : s.getATokenFor asset = .ok aToken1
  mapped2 : s.getATokenFor (s.rewardLiquidityPair asset) = .ok aToken2
  held1 : s.ownBalance P w aToken1 = .ok balance1
  held2 : s.ownBalance P w aToken2 = .ok balance2

/-- From positive balances the function goes on to offer the amounts to the exchange. -/
theorem LiquidityReads.provideLiquidity_eq {aToken1 aToken2 : Address}
    (h : LiquidityReads P s w asset aToken1 aToken2 price1 price2 balance1 balance2)
    (hpos1 : 0 < balance1) (hpos2 : 0 < balance2)
    (hamounts : liquidityAmounts price1 price2 balance1 balance2 = .ok (desired1, desired2)) :
    s.provideLiquidity P w asset = (do
      let deadline ← own (SafeMath.add (P.now w) 1800)
      callAt s.uniswapAddr (P.addLiquidity w s.self s.uniswapAddr aToken1 aToken2 desired1
        desired2 0 0 s.self deadline)) := by
  obtain ⟨oracle, horacle, hprice1, hprice2⟩ := h.prices
  obtain ⟨price, hprice, hamounts⟩ := bind_eq_ok.mp hamounts
  obtain ⟨priceInv, hpriceInv, hamounts⟩ := bind_eq_ok.mp hamounts
  have hrouter : own (require (s.uniswapAddr ≠ 0)
      "AaveStrategy::_provideLiquidity: uniswapAddr is zero") = .ok () :=
    own_require.mpr h.router
  unfold provideLiquidity
  rw [bind_of_eq_ok hrouter]
  dsimp only
  rw [bind_of_eq_ok horacle, bind_of_eq_ok hprice1, bind_of_eq_ok hprice2,
    bind_of_eq_ok (own_eq_ok.mpr hprice), bind_of_eq_ok (own_eq_ok.mpr hpriceInv),
    bind_of_eq_ok h.mapped1, bind_of_eq_ok h.mapped2, bind_of_eq_ok h.held1,
    if_neg hpos1.ne', bind_of_eq_ok h.held2, if_neg hpos2.ne',
    bind_of_eq_ok (own_eq_ok.mpr hamounts)]

/-- What goes to the exchange is within the balances, one of the two amounts is all of its
balance, and the other one is worth what that is worth. -/
theorem provideLiquidity_balanced {aToken1 aToken2 : Address}
    (hreads : LiquidityReads P s w asset aToken1 aToken2 price1 price2 balance1 balance2)
    (hpos1 : 0 < balance1) (hpos2 : 0 < balance2)
    (hamounts : liquidityAmounts price1 price2 balance1 balance2 = .ok (desired1, desired2)) :
    s.provideLiquidity P w asset = (do
      let deadline ← own (SafeMath.add (P.now w) 1800)
      callAt s.uniswapAddr (P.addLiquidity w s.self s.uniswapAddr aToken1 aToken2 desired1
        desired2 0 0 s.self deadline)) ∧
      (desired1 ≤ balance1 ∧ desired2 ≤ balance2) ∧
        (desired1 = balance1 ∨ desired2 = balance2) ∧
          (desired1 = balance1 → WorthAs price1 desired1 price2 desired2) ∧
            (desired1 ≠ balance1 → WorthAs price2 desired2 price1 desired1) := by
  obtain ⟨hwithin, hfirst | hsecond⟩ := liquidityAmounts_balanced hamounts
  · obtain ⟨hall, hworth⟩ := hfirst
    exact ⟨hreads.provideLiquidity_eq hpos1 hpos2 hamounts, hwithin, .inl hall,
      fun _ => hworth, fun hne => absurd hall hne⟩
  · obtain ⟨hlt, hall, hworth⟩ := hsecond
    exact ⟨hreads.provideLiquidity_eq hpos1 hpos2 hamounts, hwithin, .inr hall,
      fun heq => absurd heq hlt.ne, fun _ => hworth⟩

section

open PlainPlatform

/-- The two coins of the pool at prices of two and three dollars, and aTokens of both. -/
def pricedPool : PlainPlatform :=
  { (empty.create 31 21 10).create 32 21 5 with
    prices := fun asset => if asset = 4 then 2 * 10 ^ 18 else 3 * 10 ^ 18 }

/-- The ten aTokens are worth six of the others, of which there are five, and these are worth
seven. -/
theorem provideLiquidity_balanced_short :
    ∃ init, initializedExchange = .ok init ∧
      init.1.provideLiquidity (exchange market) pricedPool 4 = (do
        let deadline ← own (SafeMath.add pricedPool.time 1800)
        callAt init.1.uniswapAddr ((exchange market).addLiquidity pricedPool init.1.self
          init.1.uniswapAddr 31 32 7 5 0 0 init.1.self deadline)) ∧
        WorthAs (3 * 10 ^ 18) 5 (2 * 10 ^ 18) 7 := by
  have hsteps : Returns initializedExchange fun init =>
      (init.1.uniswapAddr ≠ 0 ∧
        callAt init.1.vaultAddress
          ((exchange market).priceProvider pricedPool init.1.vaultAddress) = .ok 7 ∧
        callAt 7 ((exchange market).price pricedPool 7 4) = .ok (2 * 10 ^ 18) ∧
        callAt 7 ((exchange market).price pricedPool 7 (init.1.rewardLiquidityPair 4)) =
          .ok (3 * 10 ^ 18)) ∧
        (init.1.getATokenFor 4 = .ok 31 ∧
          init.1.getATokenFor (init.1.rewardLiquidityPair 4) = .ok 32) ∧
          init.1.ownBalance (exchange market) pricedPool 31 = .ok 10 ∧
            init.1.ownBalance (exchange market) pricedPool 32 = .ok 5 := by
    decide
  obtain ⟨init, hinit, hprices, hmapped, hheld⟩ := hsteps
  obtain ⟨hrouter, horacle, hprice1, hprice2⟩ := hprices
  have hreads : LiquidityReads (exchange market) init.1 pricedPool 4 31 32 (2 * 10 ^ 18)
      (3 * 10 ^ 18) 10 5 :=
    ⟨hrouter, ⟨7, horacle, hprice1, hprice2⟩, hmapped.1, hmapped.2, hheld.1, hheld.2⟩
  have hamounts : liquidityAmounts (2 * 10 ^ 18) (3 * 10 ^ 18) 10 5 = .ok (7, 5) := by decide
  obtain ⟨hcall, -, -, -, hworth⟩ :=
    provideLiquidity_balanced hreads (by decide) (by decide) hamounts
  exact ⟨init, hinit, hcall, hworth (by decide)⟩

end

end AaveStrategy

end InterestDollar
