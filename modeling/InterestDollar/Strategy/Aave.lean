import InterestDollar.Strategy.Abstract
import InterestDollar.Contract.StableMath

/-!
# The Aave strategy

Assets are lent out for aTokens. Where a staking contract is set, the aTokens of an asset and
of its pair go on to a pool of the exchange, and the pool's LP tokens are staked. To withdraw
more than the aTokens at hand, everything is unstaked and taken out of the pool again.
-/

namespace InterestDollar

open Checked

/-- The storage of the strategy. -/
structure AaveStrategy extends AbstractStrategy where
  referralCode : ℕ
  uniswapAddr : Address
  ubeStakingAddress : Address
  rewardPoolAddress : Address
  secondaryRewardTokenAddress : Address
  rewardLiquidityPair : Address → Address

namespace AaveStrategy

variable {ω : Type} (P : Platform ω)

/-- The storage of a contract that was deployed and not initialized yet. -/
def deployed (self governor : Address) : AaveStrategy where
  toAbstractStrategy := AbstractStrategy.deployed self governor
  referralCode := 0
  uniswapAddr := 0
  ubeStakingAddress := 0
  rewardPoolAddress := 0
  secondaryRewardTokenAddress := 0
  rewardLiquidityPair := fun _ => 0

/-! ## The platform -/

/-- `_getATokenFor`. -/
def getATokenFor (s : AaveStrategy) (asset : Address) : Except Failure Address := do
  own (require (s.assetToPToken asset ≠ 0) "aToken does not exist")
  return s.assetToPToken asset

/-- `_getLendingPool`. -/
def getLendingPool (s : AaveStrategy) (w : ω) : Except Failure Address := do
  let lendingPool ← callAt s.platformAddress (P.getLendingPool w s.platformAddress)
  own (require (lendingPool ≠ 0) "Lending pool does not exist")
  return lendingPool

/-- `_getLendingPoolCore`. -/
def getLendingPoolCore (s : AbstractStrategy) (w : ω) : Except Failure Address := do
  let lendingPoolCore ← callAt s.platformAddress (P.getLendingPoolCore w s.platformAddress)
  own (require (lendingPoolCore ≠ 0) "Lending pool core does not exist")
  return lendingPoolCore

/-- `_abstractSetPToken`. -/
def abstractSetPToken (s : AbstractStrategy) (w : ω) (asset _aToken : Address) :
    Except Failure ω := do
  let lendingPoolVault ← getLendingPoolCore P s w
  s.safeApproveMax P w asset lendingPoolVault

def safeApproveAllTokens (s : AaveStrategy) (w : ω) (sender : Address) : Except Failure ω := do
  s.onlyGovernor sender
  let lendingPoolVault ← getLendingPoolCore P s.toAbstractStrategy w
  s.assetsMapped.foldlM (fun w asset => s.safeApproveMax P w asset lendingPoolVault) w

def setPTokenAddress (s : AaveStrategy) (w : ω) (sender asset pToken : Address) :
    Except Failure (AaveStrategy × ω) := do
  s.onlyGovernor sender
  let (base, w) ← s.setPToken (abstractSetPToken P) w asset pToken
  return ({ s with toAbstractStrategy := base }, w)

/-! ## The exchange and the staking contract -/

/-- The pool of the exchange for a pair of assets. -/
def pairFor (s : AaveStrategy) (w : ω) (token1 token2 : Address) : Except Failure Address := do
  let aToken1 ← s.getATokenFor token1
  let aToken2 ← s.getATokenFor token2
  callAt s.uniswapAddr (P.pairFor w s.uniswapAddr aToken1 aToken2)

/-- Lets a spender take any amount of LP tokens. -/
def approveMax (s : AaveStrategy) (w : ω) (lpPair spender : Address) : Except Failure ω := do
  let w ← callAt lpPair (P.approve w s.self lpPair spender 0)
  callAt lpPair (P.approve w s.self lpPair spender maxWord)

/-- Makes two assets the pair of each other, in the order of the source. -/
def setPair (s : AaveStrategy) (token1 token2 : Address) : AaveStrategy :=
  { s with
    rewardLiquidityPair :=
      Function.update (Function.update s.rewardLiquidityPair token1 token2) token2 token1 }

def setRewardPoolAddress (s : AaveStrategy) (w : ω) (sender token1 token2 : Address) :
    Except Failure (AaveStrategy × ω) := do
  s.onlyGovernor sender
  own (require (s.uniswapAddr ≠ 0) "AaveStrategy::_provideLiquidity: uniswapAddr is zero")
  let lpPair ← s.pairFor P w token1 token2
  let w ← s.approveMax P w lpPair s.ubeStakingAddress
  return ({ s.setPair token1 token2 with rewardPoolAddress := lpPair }, w)

/-- The part of `initialize` where a staking contract is given. -/
def initializeLiquidity (s : AaveStrategy) (w : ω) (pTokens : List Address)
    (token1 token2 : Address) : Except Failure (AaveStrategy × ω) :=
  if s.ubeStakingAddress ≠ 0 then do
    let lpPair ← s.pairFor P w token1 token2
    let s := { s with rewardPoolAddress := lpPair }
    let w ← s.approveMax P w lpPair s.ubeStakingAddress
    let w ← s.approveMax P w lpPair s.uniswapAddr
    let w ← pTokens.foldlM
      (fun w pToken => callAt pToken (P.approve w s.self pToken s.uniswapAddr maxWord)) w
    return (s.setPair token1 token2, w)
  else return (s, w)

/-- The storage and the world after `initialize`. -/
def initialized (s : AaveStrategy) (w : ω) (sender platformAddress vaultAddress
    rewardTokenAddress : Address) (assets pTokens : List Address) (ubeStakingAddress
    liquidityToken1Address liquidityToken2Address secondaryRewardTokenAddress : Address) :
    Except Failure (AaveStrategy × ω) := do
  s.onlyGovernor sender
  let (base, w) ← s.initializeWith (abstractSetPToken P) w platformAddress vaultAddress
    rewardTokenAddress assets pTokens
  let uniswapAddr ← callAt vaultAddress (P.uniswapAddr w vaultAddress)
  own (require (uniswapAddr ≠ 0) "AaveStrategy::initialize: uniswapAddr is zero")
  let s := { s with
    toAbstractStrategy := base
    referralCode := 0
    uniswapAddr := uniswapAddr
    ubeStakingAddress := ubeStakingAddress
    secondaryRewardTokenAddress := secondaryRewardTokenAddress }
  s.initializeLiquidity P w pTokens liquidityToken1Address liquidityToken2Address

def setUniswapAddress (s : AaveStrategy) (sender router : Address) :
    Except Failure AaveStrategy := do
  s.onlyGovernor sender
  return { s with uniswapAddr := router }

def setSecondaryRewardTokenAddress (s : AaveStrategy) (sender token : Address) :
    Except Failure AaveStrategy := do
  s.onlyGovernor sender
  return { s with secondaryRewardTokenAddress := token }

def setStakingAddress (s : AaveStrategy) (sender staking : Address) :
    Except Failure AaveStrategy := do
  s.onlyGovernor sender
  return { s with ubeStakingAddress := staking }

/-- One price in another. -/
def priceRatio (price1 price2 : ℕ) : Except Revert ℕ := do
  let product ← SafeMath.mul price1 (10 ^ 18)
  SafeMath.div product price2

/-- The amounts that `_provideLiquidity` gives: all of one balance, and of the other what it is
worth. -/
def desiredAmounts (balance1 balance2 price priceInv : ℕ) : Except Revert (ℕ × ℕ) := do
  let product ← SafeMath.mul balance1 price
  let desired2 ← SafeMath.div product (10 ^ 18)
  if balance2 < desired2 then do
    let product ← SafeMath.mul balance2 priceInv
    let desired1 ← SafeMath.div product (10 ^ 18)
    return (desired1, balance2)
  else return (balance1, desired2)

/-- `_provideLiquidity`. -/
def provideLiquidity (s : AaveStrategy) (w : ω) (asset : Address) : Except Failure ω := do
  own (require (s.uniswapAddr ≠ 0) "AaveStrategy::_provideLiquidity: uniswapAddr is zero")
  let assetPair := s.rewardLiquidityPair asset
  let oracle ← callAt s.vaultAddress (P.priceProvider w s.vaultAddress)
  let price1 ← callAt oracle (P.price w oracle asset)
  let price2 ← callAt oracle (P.price w oracle assetPair)
  let price ← own (priceRatio price1 price2)
  let priceInv ← own (priceRatio price2 price1)
  let aToken1 ← s.getATokenFor asset
  let aToken2 ← s.getATokenFor assetPair
  let balance1 ← s.ownBalance P w aToken1
  if balance1 = 0 then return w
  else do
    let balance2 ← s.ownBalance P w aToken2
    if balance2 = 0 then return w
    else do
      let (desired1, desired2) ← own (desiredAmounts balance1 balance2 price priceInv)
      let deadline ← own (SafeMath.add (P.now w) 1800)
      callAt s.uniswapAddr (P.addLiquidity w s.self s.uniswapAddr aToken1 aToken2 desired1
        desired2 0 0 s.self deadline)

/-- `_removeLiquidity`. -/
def removeLiquidity (s : AaveStrategy) (w : ω) (asset : Address) : Except Failure ω := do
  own (require (s.uniswapAddr ≠ 0) "AaveStrategy::_removeLiquidity: uniswapAddr is zero")
  let aToken1 ← s.getATokenFor asset
  let aToken2 ← s.getATokenFor (s.rewardLiquidityPair asset)
  let liquidity ← s.ownBalance P w s.rewardPoolAddress
  if liquidity ≠ 0 then do
    let deadline ← own (SafeMath.add (P.now w) 1800)
    callAt s.uniswapAddr (P.removeLiquidity w s.self s.uniswapAddr aToken1 aToken2 liquidity 0 0
      s.self deadline)
  else return w

/-- `_stakeLPTokens`. -/
def stakeLPTokens (s : AaveStrategy) (w : ω) : Except Failure ω := do
  let lpAmount ← s.ownBalance P w s.rewardPoolAddress
  if lpAmount ≠ 0 then callAt s.ubeStakingAddress (P.stake w s.self s.ubeStakingAddress lpAmount)
  else return w

/-- `_unstakeLPTokens`. -/
def unstakeLPTokens (s : AaveStrategy) (w : ω) : Except Failure ω := do
  let balance ← s.ownBalance P w s.ubeStakingAddress
  if balance ≠ 0 then callAt s.ubeStakingAddress (P.unstake w s.self s.ubeStakingAddress balance)
  else return w

/-- `_checkLPBalance`: the share of an amount of LP tokens in the pool's aTokens. -/
def lpShare (s : AaveStrategy) (w : ω) (asset : Address) (liquidity : ℕ) : Except Failure ℕ := do
  own (require (s.rewardLiquidityPair asset ≠ 0) "AaveStrategy: Assets not part of LP Pair")
  own (require (liquidity ≠ 0)
    "AaveStrategy::_checkLPBalance: liquidity should be greater than 0")
  let aToken := s.assetToPToken asset
  let balance ← callAt aToken (P.balanceOf w aToken s.rewardPoolAddress)
  let totalSupply ← callAt s.rewardPoolAddress (P.totalSupply w s.rewardPoolAddress)
  if totalSupply ≠ 0 then do
    let product ← own (SafeMath.mul liquidity balance)
    return product / totalSupply
  else return 0

/-- `checkLPBalance`: the share of the LP tokens, staked and not. -/
def checkLPBalance (s : AaveStrategy) (w : ω) (asset : Address) : Except Failure ℕ := do
  let staked ← s.ownBalance P w s.ubeStakingAddress
  let unstaked ← s.ownBalance P w s.rewardPoolAddress
  let lpBalance ← own (SafeMath.add staked unstaked)
  if lpBalance ≠ 0 then s.lpShare P w asset lpBalance else return 0

/-! ## The functions of the vault -/

/-- `_deposit`. -/
def depositAsset (s : AaveStrategy) (w : ω) (asset : Address) (amount : ℕ) :
    Except Failure ω := do
  own (require (0 < amount) "Must deposit something")
  let _ ← s.getATokenFor asset
  let lendingPool ← s.getLendingPool P w
  let w ← callAt lendingPool
    (P.lendingPoolDeposit w s.self lendingPool asset amount s.referralCode)
  if s.ubeStakingAddress ≠ 0 then do
    let w ← s.provideLiquidity P w asset
    s.stakeLPTokens P w
  else return w

def deposit (s : AaveStrategy) (w : ω) (sender asset : Address) (amount : ℕ) :
    Except Failure ω := do
  s.onlyVault sender
  s.depositAsset P w asset amount

def depositAll (s : AaveStrategy) (w : ω) (sender : Address) : Except Failure ω := do
  s.onlyVault sender
  s.assetsMapped.foldlM (fun w asset => do
    let balance ← s.ownBalance P w asset
    if 0 < balance then s.depositAsset P w asset balance else return w) w

def withdraw (s : AaveStrategy) (w : ω) (sender recipient asset : Address) (amount : ℕ) :
    Except Failure ω := do
  s.onlyVault sender
  own (require (0 < amount) "Must withdraw something")
  own (require (recipient ≠ 0) "Must specify recipient")
  let aToken ← s.getATokenFor asset
  let w ←
    (if s.ubeStakingAddress ≠ 0 then do
      let balance ← s.ownBalance P w aToken
      if balance ≤ amount then do
        let w ← s.unstakeLPTokens P w
        s.removeLiquidity P w asset
      else return w
    else return w)
  let w ← callAt aToken (P.redeemAToken w s.self aToken amount)
  callAt asset (P.safeTransfer w s.self asset recipient amount)

/-- The loop of `withdrawAll`. -/
def withdrawAsset (s : AaveStrategy) (w : ω) (asset : Address) : Except Failure ω := do
  let w ←
    (if s.ubeStakingAddress ≠ 0 then do
      let w ← s.unstakeLPTokens P w
      s.removeLiquidity P w asset
    else return w)
  let aToken ← s.getATokenFor asset
  let balance ← s.ownBalance P w aToken
  if 0 < balance then do
    let w ← callAt aToken (P.redeemAToken w s.self aToken balance)
    s.sendAllToVault P w asset
  else return w

def withdrawAll (s : AaveStrategy) (w : ω) (sender : Address) : Except Failure ω := do
  s.onlyVaultOrGovernor sender
  s.assetsMapped.foldlM (s.withdrawAsset P) w

/-- The swap of the secondary reward token for the reward token. -/
def swapSecondary (s : AaveStrategy) (w : ω) : Except Failure ω := do
  let w ← s.safeApproveMax P w s.secondaryRewardTokenAddress s.uniswapAddr
  let celo ← callAt s.vaultAddress (P.celoGoldAddr w s.vaultAddress)
  let amount ← s.ownBalance P w s.secondaryRewardTokenAddress
  let deadline ← own (SafeMath.add (P.now w) 1800)
  callAt s.uniswapAddr (P.swapExactTokensForTokens w s.self s.uniswapAddr amount 0
    [s.secondaryRewardTokenAddress, celo, s.rewardTokenAddress] s.self deadline)

def collectRewardToken (s : AaveStrategy) (w : ω) (sender : Address) : Except Failure ω := do
  s.onlyVault sender
  let w ← callAt s.ubeStakingAddress (P.getReward w s.self s.ubeStakingAddress)
  let w ←
    (if s.secondaryRewardTokenAddress ≠ 0 then do
      let balance ← s.ownBalance P w s.secondaryRewardTokenAddress
      if balance ≠ 0 then s.swapSecondary P w else return w
    else return w)
  s.sendAllToVault P w s.rewardTokenAddress

/-- The source computes the sum of the staked and the unstaked LP tokens and drops it; and it
adds the share to the balance without a check. -/
def checkBalance (s : AaveStrategy) (w : ω) (asset : Address) : Except Failure ℕ := do
  let aToken ← s.getATokenFor asset
  let balance ← s.ownBalance P w aToken
  if s.ubeStakingAddress ≠ 0 then do
    let lpBalance ← s.ownBalance P w s.ubeStakingAddress
    let unstaked ← s.ownBalance P w s.rewardPoolAddress
    let _ ← own (SafeMath.add lpBalance unstaked)
    if lpBalance ≠ 0 then do
      let amountLP ← s.lpShare P w asset lpBalance
      return (balance + amountLP) % wordBound
    else return balance
  else return balance

/-- A function that leaves the storage alone. -/
def operate (s : AaveStrategy) (w : ω) (sender : Address) :
    AbstractStrategy.Operation → Except Failure ω
  | .transferToken asset amount => s.transferToken P w sender asset amount
  | .safeApproveAllTokens => s.safeApproveAllTokens P w sender
  | .deposit asset amount => s.deposit P w sender asset amount
  | .depositAll => s.depositAll P w sender
  | .withdraw recipient asset amount => s.withdraw P w sender recipient asset amount
  | .withdrawAll => s.withdrawAll P w sender
  | .collectRewardToken => s.collectRewardToken P w sender

/-- What unstaking and taking liquidity out each do is done by both together, if it can be
repeated and left out. -/
theorem ensures_takeOut {P} {s : AaveStrategy} {R : ω → ω → Prop} (hrefl : ∀ w, R w w)
    (htrans : ∀ {w w₁ w'}, R w w₁ → R w₁ w' → R w w')
    (hunstake : ∀ {w w' amount}, P.unstake w s.self s.ubeStakingAddress amount = .ok w' → R w w')
    (hremove : ∀ {w w' aToken1 aToken2 liquidity deadline},
      P.removeLiquidity w s.self s.uniswapAddr aToken1 aToken2 liquidity 0 0 s.self deadline =
        .ok w' → R w w') (w : ω) (asset : Address) :
    Ensures (s.unstakeLPTokens P w >>= fun w => s.removeLiquidity P w asset) (R w) := by
  refine ensures_bind (P := R w) ?_ fun w₁ hw₁ => ?_
  · refine ensures_of_bind fun _ _ => ensures_ite (fun _ => ?_) fun _ => ensures_pure (hrefl w)
    exact fun w' h => hunstake (callAt_eq_ok.mp h).2
  · refine ensures_of_bind fun _ _ => ensures_of_bind fun _ _ => ensures_of_bind fun _ _ => ?_
    refine ensures_of_bind fun _ _ => ensures_ite (fun _ => ?_) fun _ => ensures_pure hw₁
    refine ensures_of_bind fun _ _ => ?_
    exact fun w' h => htrans hw₁ (hremove (callAt_eq_ok.mp h).2)

end AaveStrategy

end InterestDollar
