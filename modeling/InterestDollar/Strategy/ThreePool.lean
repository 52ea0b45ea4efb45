import InterestDollar.Strategy.Abstract
import InterestDollar.Contract.StableMath

/-!
# The strategy of the Curve pool

The pool holds three coins and gives one pool token for all of them, which is staked in a gauge.
The strategy tells the pool which coin it means by an index, and takes for it the place of the
asset in its own list.
-/

namespace InterestDollar

open Checked

/-- The storage of the strategy. -/
structure ThreePoolStrategy extends AbstractStrategy where
  crvGaugeAddress : Address
  crvMinterAddress : Address

namespace ThreePoolStrategy

variable {ω : Type} (P : Platform ω)

/-- `maxSlippage`, one percent. -/
def maxSlippage : ℕ := 10 ^ 16

/-- The storage of a contract that was deployed and not initialized yet. -/
def deployed (self governor : Address) : ThreePoolStrategy where
  toAbstractStrategy := AbstractStrategy.deployed self governor
  crvGaugeAddress := 0
  crvMinterAddress := 0

/-- `_abstractSetPToken`, with the gauge that the strategy has. -/
def abstractSetPToken (crvGaugeAddress : Address) (s : AbstractStrategy) (w : ω)
    (asset pToken : Address) : Except Failure ω := do
  let w ← s.safeApproveMax P w asset s.platformAddress
  let w ← s.safeApproveMax P w pToken s.platformAddress
  s.safeApproveMax P w pToken crvGaugeAddress

def safeApproveAllTokens (s : ThreePoolStrategy) (w : ω) : Except Failure ω :=
  s.assetsMapped.foldlM (fun w asset =>
    abstractSetPToken P s.crvGaugeAddress s.toAbstractStrategy w asset (s.assetToPToken asset)) w

def setPTokenAddress (s : ThreePoolStrategy) (w : ω) (sender asset pToken : Address) :
    Except Failure (ThreePoolStrategy × ω) := do
  s.onlyGovernor sender
  let (base, w) ← s.setPToken (abstractSetPToken P s.crvGaugeAddress) w asset pToken
  return ({ s with toAbstractStrategy := base }, w)

/-- The storage and the world after `initialize`. -/
def initialized (s : ThreePoolStrategy) (w : ω) (sender platformAddress vaultAddress
    rewardTokenAddress : Address) (assets pTokens : List Address)
    (crvGaugeAddress crvMinterAddress : Address) : Except Failure (ThreePoolStrategy × ω) := do
  s.onlyGovernor sender
  let (base, w) ← s.initializeWith (abstractSetPToken P crvGaugeAddress) w platformAddress
    vaultAddress rewardTokenAddress assets pTokens
  return ({
    toAbstractStrategy := base
    crvGaugeAddress := crvGaugeAddress
    crvMinterAddress := crvMinterAddress }, w)

/-- The loop of `_getPoolCoinIndex`: it goes over the first places of the list, and past its
end where the list is shorter. -/
def findCoin (asset : Address) : (steps index : ℕ) → List Address → Except Failure ℕ
  | 0, _, _ => .error (.own (.require "Invalid 3pool asset"))
  | _ + 1, _, [] => .error (.own .invalidOpcode)
  | steps + 1, index, mapped :: rest =>
      if mapped = asset then .ok index else findCoin asset steps (index + 1) rest

/-- `_getPoolCoinIndex`. -/
def getPoolCoinIndex (s : ThreePoolStrategy) (asset : Address) : Except Failure ℕ :=
  findCoin asset 3 0 s.assetsMapped

/-- The pool token of the first asset; it is the same for all. -/
def firstPToken (s : ThreePoolStrategy) : Except Failure Address :=
  match s.assetsMapped with
  | [] => .error (.own .invalidOpcode)
  | asset :: _ => .ok (s.assetToPToken asset)

/-- `_getTotalPTokens`: the pool tokens of the strategy, those in the gauge, and all. -/
def getTotalPTokens (s : ThreePoolStrategy) (w : ω) : Except Failure (ℕ × ℕ × ℕ) := do
  let pToken ← s.firstPToken
  let contractPTokens ← s.ownBalance P w pToken
  let gaugePTokens ← s.ownBalance P w s.crvGaugeAddress
  let totalPTokens ← own (SafeMath.add contractPTokens gaugePTokens)
  return (contractPTokens, gaugePTokens, totalPTokens)

/-- `Helpers.getDecimals`. -/
def getDecimals (w : ω) (token : Address) : Except Failure ℕ := do
  let decimals ← callAt token (P.decimals w token)
  own (require (4 ≤ decimals ∧ decimals ≤ 18) "Token must have sufficient decimal places")
  return decimals

/-- An amount less the slippage. -/
def lessSlippage (amount : ℕ) : Except Failure ℕ := do
  let part ← own (SafeMath.sub .memory fullScale maxSlippage)
  own (StableMath.mulTruncate amount part)

/-- The value of an amount in pool tokens. -/
def depositValue (s : ThreePoolStrategy) (w : ω) (asset : Address) (amount : ℕ) :
    Except Failure ℕ := do
  let assetDecimals ← getDecimals P w asset
  let scaled ← own (StableMath.scaleBy amount (18 - (assetDecimals : ℤ)))
  let virtualPrice ← callAt s.platformAddress (P.getVirtualPrice w s.platformAddress)
  own (StableMath.divPrecisely scaled virtualPrice)

/-- Stakes all pool tokens of an address in the gauge. -/
def stakeInGauge (s : ThreePoolStrategy) (w : ω) (pToken : Address) : Except Failure ω := do
  let balance ← s.ownBalance P w pToken
  callAt s.crvGaugeAddress (P.gaugeDeposit w s.self s.crvGaugeAddress balance s.self)

def deposit (s : ThreePoolStrategy) (w : ω) (sender asset : Address) (amount : ℕ) :
    Except Failure ω := do
  s.onlyVault sender
  own (require (0 < amount) "Must deposit something")
  let poolCoinIndex ← s.getPoolCoinIndex asset
  let value ← s.depositValue P w asset amount
  let minMintAmount ← lessSlippage value
  let w ← callAt s.platformAddress (P.addPoolLiquidity w s.self s.platformAddress
    ([0, 0, 0].set poolCoinIndex amount) minMintAmount)
  s.stakeInGauge P w (s.assetToPToken asset)

/-- Adds the balance of an asset to what `depositAll` deposits, and its value to the total. -/
def addBalance (s : ThreePoolStrategy) (w : ω) (totals : List ℕ × ℕ) (asset : Address) :
    Except Failure (List ℕ × ℕ) := do
  let balance ← s.ownBalance P w asset
  if 0 < balance then do
    let poolCoinIndex ← s.getPoolCoinIndex asset
    let value ← s.depositValue P w asset balance
    let total ← own (SafeMath.add totals.2 value)
    return (totals.1.set poolCoinIndex balance, total)
  else return totals

def depositAll (s : ThreePoolStrategy) (w : ω) (sender : Address) : Except Failure ω := do
  s.onlyVault sender
  let (amounts, value) ← s.assetsMapped.foldlM (s.addBalance P w) ([0, 0, 0], 0)
  let minMintAmount ← lessSlippage value
  let w ← callAt s.platformAddress
    (P.addPoolLiquidity w s.self s.platformAddress amounts minMintAmount)
  let pToken ← s.firstPToken
  s.stakeInGauge P w pToken

def withdraw (s : ThreePoolStrategy) (w : ω) (sender recipient asset : Address)
    (amount : ℕ) : Except Failure ω := do
  s.onlyVault sender
  own (require (recipient ≠ 0) "Invalid recipient")
  own (require (0 < amount) "Invalid amount")
  let (contractPTokens, _, totalPTokens) ← s.getTotalPTokens P w
  own (require (0 < totalPTokens) "Insufficient 3CRV balance")
  let poolCoinIndex ← s.getPoolCoinIndex asset
  let maxAmount ← callAt s.platformAddress
    (P.calcWithdrawOneCoin w s.platformAddress totalPTokens poolCoinIndex)
  let product ← own (SafeMath.mul totalPTokens amount)
  let withdrawPTokens ← own (SafeMath.div product maxAmount)
  let w ←
    (if contractPTokens < withdrawPTokens then do
      let missing ← own (SafeMath.sub .memory withdrawPTokens contractPTokens)
      callAt s.crvGaugeAddress (P.gaugeWithdraw w s.self s.crvGaugeAddress missing)
    else return w)
  let assetDecimals ← getDecimals P w asset
  let least ← lessSlippage withdrawPTokens
  let minWithdrawAmount ← own (StableMath.scaleBy least ((assetDecimals : ℤ) - 18))
  let w ← callAt s.platformAddress (P.removeLiquidityOneCoin w s.self s.platformAddress
    withdrawPTokens poolCoinIndex minWithdrawAmount)
  let w ← callAt asset (P.safeTransfer w s.self asset recipient amount)
  let dust ← s.ownBalance P w asset
  if 0 < dust then s.sendToVault P w asset dust else return w

def checkBalance (s : ThreePoolStrategy) (w : ω) (asset : Address) : Except Failure ℕ := do
  own (require (s.assetToPToken asset ≠ 0) "Unsupported asset")
  let (_, _, totalPTokens) ← s.getTotalPTokens P w
  let pToken := s.assetToPToken asset
  let pTokenTotalSupply ← callAt pToken (P.totalSupply w pToken)
  if 0 < pTokenTotalSupply then do
    let poolCoinIndex ← s.getPoolCoinIndex asset
    let curveBalance ← callAt s.platformAddress
      (P.poolBalances w s.platformAddress poolCoinIndex)
    if 0 < curveBalance then do
      let product ← own (SafeMath.mul totalPTokens curveBalance)
      own (SafeMath.div product pTokenTotalSupply)
    else return 0
  else return 0

/-- Sets the least amount of an asset that `withdrawAll` accepts. -/
def setMinimum (s : ThreePoolStrategy) (w : ω) (minimums : List ℕ) (asset : Address) :
    Except Failure (List ℕ) := do
  let virtualBalance ← s.checkBalance P w asset
  let poolCoinIndex ← s.getPoolCoinIndex asset
  let least ← lessSlippage virtualBalance
  return minimums.set poolCoinIndex least

/-- Sends all it has of the pool's coin at an index to the vault. -/
def sendCoin (s : ThreePoolStrategy) (w : ω) (index : ℕ) : Except Failure ω := do
  let coin ← callAt s.platformAddress (P.coins w s.platformAddress index)
  s.sendAllToVault P w coin

/-- The pool gives all three coins, and as many of them are sent to the vault as there are
mapped assets. -/
def withdrawAll (s : ThreePoolStrategy) (w : ω) (sender : Address) : Except Failure ω := do
  s.onlyVaultOrGovernor sender
  let (_, gaugePTokens, totalPTokens) ← s.getTotalPTokens P w
  let w ← callAt s.crvGaugeAddress (P.gaugeWithdraw w s.self s.crvGaugeAddress gaugePTokens)
  let minWithdrawAmounts ← s.assetsMapped.foldlM (s.setMinimum P w) [0, 0, 0]
  let w ← callAt s.platformAddress
    (P.removePoolLiquidity w s.self s.platformAddress totalPTokens minWithdrawAmounts)
  (List.range s.assetsMapped.length).foldlM (s.sendCoin P) w

/-- The balance that is sent is read before the minter pays. -/
def collectRewardToken (s : ThreePoolStrategy) (w : ω) (sender : Address) :
    Except Failure ω := do
  s.onlyVault sender
  let balance ← s.ownBalance P w s.rewardTokenAddress
  let w ← callAt s.crvMinterAddress
    (P.mintReward w s.self s.crvMinterAddress s.crvGaugeAddress)
  s.sendToVault P w s.rewardTokenAddress balance

/-- A function that leaves the storage alone. -/
def operate (s : ThreePoolStrategy) (w : ω) (sender : Address) :
    AbstractStrategy.Operation → Except Failure ω
  | .transferToken asset amount => s.transferToken P w sender asset amount
  | .safeApproveAllTokens => s.safeApproveAllTokens P w
  | .deposit asset amount => s.deposit P w sender asset amount
  | .depositAll => s.depositAll P w sender
  | .withdraw recipient asset amount => s.withdraw P w sender recipient asset amount
  | .withdrawAll => s.withdrawAll P w sender
  | .collectRewardToken => s.collectRewardToken P w sender

end ThreePoolStrategy

end InterestDollar
