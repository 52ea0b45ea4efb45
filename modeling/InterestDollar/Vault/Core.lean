import InterestDollar.Vault.Redeem

/-!
# The functions of the vault

Minting, redeeming, allocating to strategies and rebasing, with the harvest of
rewards that an allocation may trigger. Each takes the system and returns the
system after the call. A call of the vault's own `harvest` is a call from the
vault's address, which its guard lets through.
-/

namespace InterestDollar

open Checked

namespace System

variable {ω : Type} (W : World ω)

def whenNotRebasePaused (s : System ω) : Except Revert Unit :=
  require (s.vault.rebasePaused = false) "Rebasing paused"

def whenNotCapitalPaused (s : System ω) : Except Revert Unit :=
  require (s.vault.capitalPaused = false) "Capital paused"

/-! ## Rebasing -/

/-- The fee part of `_rebase`: mints the trustee's portion of the yield. -/
def collectFee (s : System ω) (vaultValue ousdSupply : ℕ) : Except Revert (System ω) :=
  if s.vault.trusteeAddress ≠ 0 ∧ ousdSupply < vaultValue then do
    let yield ← SafeMath.sub .memory vaultValue ousdSupply
    let product ← SafeMath.mul yield s.vault.trusteeFeeBps
    let fee ← SafeMath.div product 10000
    require (fee < yield) "Fee must not be greater than yield"
    if 0 < fee then s.callOusd W s.vault.self (.mint s.vault.trusteeAddress fee) else return s
  else return s

/-- The last part of `_rebase`: only ratchets the supply upwards. -/
def ratchetSupply (s : System ω) (vaultValue : ℕ) : Except Revert (System ω) :=
  if s.ousd.totalSupply < vaultValue then s.callOusd W s.vault.self (.changeSupply vaultValue)
  else return s

/-- `_rebase`. -/
def rebaseSupply (s : System ω) : Except Revert (System ω) := do
  s.whenNotRebasePaused
  let ousdSupply := s.ousd.totalSupply
  if ousdSupply = 0 then return s
  else do
    let vaultValue ← s.totalValue W
    let s' ← s.collectFee W vaultValue ousdSupply
    let s' ← s'.ratchetSupply W vaultValue
    return s'.recordRebase s.ousd vaultValue

def rebase (s : System ω) : Except Revert (System ω) := do
  s.whenNotRebasePaused
  s.rebaseSupply W

/-! ## Harvesting -/

/-- The swap of `_harvest`: sells a reward token balance for the first asset. -/
def swapRewards (s : System ω) (rewardTokenAddress : Address) (rewardTokenAmount : ℕ) :
    Except Revert (System ω) := do
  let self := s.vault.self
  let router := s.vault.uniswapAddr
  let w ← W.safeApprove s.world self rewardTokenAddress router 0
  let w ← W.safeApprove w self rewardTokenAddress router rewardTokenAmount
  match s.vault.allAssets with
  | [] => .error .invalidOpcode
  | asset :: _ => do
      let deadline ← SafeMath.add (W.now w) 1800
      let w ← W.swapExactTokensForTokens w self router rewardTokenAmount 0
        [rewardTokenAddress, s.vault.celoGoldAddr, asset] self deadline
      return s.setWorld w

/-- `_harvest`. -/
def harvestFrom (s : System ω) (strategy : Address) : Except Revert (System ω) := do
  let rewardTokenAddress ← W.rewardTokenAddress s.world strategy
  if rewardTokenAddress ≠ 0 then do
    let w ← W.collectRewardToken s.world s.vault.self strategy
    let s := s.setWorld w
    if s.vault.uniswapAddr ≠ 0 then do
      let rewardTokenAmount ← W.balanceOf s.world rewardTokenAddress s.vault.self
      if 0 < rewardTokenAmount then s.swapRewards W rewardTokenAddress rewardTokenAmount
      else return s
    else return s
  else return s

def onlyVaultOrGovernorOrStrategist (s : System ω) (sender : Address) : Except Revert Unit :=
  require (sender = s.vault.self ∨ sender = s.vault.strategistAddr ∨ sender = s.vault.governor)
    "Caller is not the Vault, Governor, or Strategist"

/-- `harvest(address)`. -/
def harvestStrategy (s : System ω) (sender strategy : Address) : Except Revert (System ω) := do
  s.onlyVaultOrGovernorOrStrategist sender
  s.harvestFrom W strategy

/-! ## Allocating -/

/-- The part of the vault's funds that goes to strategies; zero where `_allocate`
returns early to let the buffer fill. -/
def vaultBufferModifier (s : System ω) (vaultValue strategiesValue calculatedTotalValue : ℕ) :
    Except Revert ℕ :=
  if strategiesValue = 0 then SafeMath.sub .memory fullScale s.vault.vaultBuffer
  else do
    let product ← SafeMath.mul s.vault.vaultBuffer calculatedTotalValue
    let modifier ← SafeMath.div product vaultValue
    if modifier < fullScale then SafeMath.sub .memory fullScale modifier else return 0

/-- Moves one asset to its default strategy. -/
def allocateAsset (modifier : ℕ) (s : System ω) (asset : Address) : Except Revert (System ω) := do
  let assetBalance ← W.balanceOf s.world asset s.vault.self
  if assetBalance = 0 then return s
  else do
    let allocateAmount ← StableMath.mulTruncate assetBalance modifier
    let depositStrategyAddr := s.vault.assetDefaultStrategies asset
    if depositStrategyAddr ≠ 0 ∧ 0 < allocateAmount then do
      let w ← W.safeTransfer s.world s.vault.self asset depositStrategyAddr allocateAmount
      let w ← W.deposit w s.vault.self depositStrategyAddr asset allocateAmount
      return s.setWorld w
    else return s

/-- Harvests one strategy if its rewards reach the threshold. -/
def harvestIfDue (s : System ω) (strategy : Address) : Except Revert (System ω) := do
  let rewardTokenAddress ← W.rewardTokenAddress s.world strategy
  if rewardTokenAddress ≠ 0 then do
    let liquidationThreshold ← W.rewardLiquidationThreshold s.world strategy
    if liquidationThreshold = 0 then s.harvestStrategy W s.vault.self strategy
    else do
      let rewardTokenAmount ← W.balanceOf s.world rewardTokenAddress strategy
      if liquidationThreshold ≤ rewardTokenAmount then s.harvestStrategy W s.vault.self strategy
      else return s
  else return s

/-- `_allocate`. -/
def allocateFunds (s : System ω) : Except Revert (System ω) := do
  let vaultValue ← s.totalValueInVault W
  if vaultValue = 0 then return s
  else do
    let strategiesValue ← s.totalValueInStrategies W
    let calculatedTotalValue ← SafeMath.add vaultValue strategiesValue
    let modifier ← s.vaultBufferModifier vaultValue strategiesValue calculatedTotalValue
    if modifier = 0 then return s
    else do
      let s ← s.vault.allAssets.foldlM (allocateAsset W modifier) s
      s.vault.allStrategies.foldlM (harvestIfDue W) s

def allocate (s : System ω) : Except Revert (System ω) := do
  s.whenNotCapitalPaused
  s.allocateFunds W

/-! ## Minting -/

/-- Checks the minimum a depositor asked for. -/
def requireMinimum (minimum amount : ℕ) (reason : String) : Except Revert Unit :=
  if 0 < minimum then require (minimum ≤ amount) reason else return

/-- The rebase before a mint, where the deposit is large enough. -/
def rebaseBeforeMint (s : System ω) (unitAdjustedDeposit : ℕ) : Except Revert (System ω) :=
  if s.vault.rebaseThreshold ≤ unitAdjustedDeposit ∧ s.vault.rebasePaused = false then
    s.rebaseSupply W
  else return s

/-- The allocation after a mint, where the deposit is large enough. -/
def allocateAfterMint (s : System ω) (unitAdjustedDeposit : ℕ) : Except Revert (System ω) :=
  if s.vault.autoAllocateThreshold ≤ unitAdjustedDeposit then s.allocateFunds W else return s

/-- Pulls a deposit in. -/
def takeDeposit (sender : Address) (s : System ω) (asset : Address) (amount : ℕ) :
    Except Revert (System ω) := do
  let w ← W.safeTransferFrom s.world s.vault.self asset sender s.vault.self amount
  return s.setWorld w

def mint (s : System ω) (sender asset : Address) (amount minimumOusdAmount : ℕ) :
    Except Revert (System ω) := do
  s.whenNotCapitalPaused
  require (s.vault.assets asset = true) "Asset is not supported"
  require (0 < amount) "Amount must be greater than 0"
  let price ← W.price s.world s.vault.priceProvider asset
  let assetDecimals ← getDecimals W s.world asset
  let unitAdjustedDeposit ← StableMath.scaleBy amount (18 - (assetDecimals : ℤ))
  let priceAdjustedDeposit ← StableMath.mulTruncateScale amount price (10 ^ assetDecimals)
  requireMinimum minimumOusdAmount priceAdjustedDeposit "Mint amount lower than minimum"
  let s ← s.rebaseBeforeMint W unitAdjustedDeposit
  let s ← s.callOusd W s.vault.self (.mint sender priceAdjustedDeposit)
  let s ← s.takeDeposit W sender asset amount
  s.allocateAfterMint W unitAdjustedDeposit

/-- Adds one deposit of `mintMultiple` to the totals, once for every supported
asset with its address. -/
def addDeposit (s : System ω) (assetPrices : List ℕ) (totals : ℕ × ℕ) (deposit : Address × ℕ) :
    Except Revert (ℕ × ℕ) := do
  require (s.vault.assets deposit.1 = true) "Asset is not supported"
  require (0 < deposit.2) "Amount must be greater than 0"
  (s.vault.allAssets.zip assetPrices).foldlM (fun totals (asset, price) =>
    if deposit.1 = asset then do
      let assetDecimals ← getDecimals W s.world asset
      let scaled ← StableMath.scaleBy deposit.2 (18 - (assetDecimals : ℤ))
      let unitAdjustedTotal ← SafeMath.add totals.1 scaled
      let value ← StableMath.mulTruncateScale deposit.2 price (10 ^ assetDecimals)
      let priceAdjustedTotal ← SafeMath.add totals.2 value
      return (unitAdjustedTotal, priceAdjustedTotal)
    else return totals) totals

def mintMultiple (s : System ω) (sender : Address) (assets : List Address) (amounts : List ℕ)
    (minimumOusdAmount : ℕ) : Except Revert (System ω) := do
  s.whenNotCapitalPaused
  require (assets.length = amounts.length) "Parameter length mismatch"
  let assetPrices ← s.getAssetPrices W
  let totals ← (assets.zip amounts).foldlM (s.addDeposit W assetPrices) (0, 0)
  requireMinimum minimumOusdAmount totals.2 "Mint amount lower than minimum"
  let s ← s.rebaseBeforeMint W totals.1
  let s ← s.callOusd W s.vault.self (.mint sender totals.2)
  let s ← (assets.zip amounts).foldlM
    (fun s (asset, amount) => s.takeDeposit W sender asset amount) s
  s.allocateAfterMint W totals.1

/-! ## Redeeming -/

/-- The check of `_redeem` that the supply and the backing are close. -/
def requireBacking (s : System ω) (totalSupply backingValue : ℕ) : Except Revert Unit :=
  if 0 < s.vault.maxSupplyDiff then do
    let diff ← StableMath.divPrecisely totalSupply backingValue
    let distance ←
      (if fullScale < diff then SafeMath.sub .memory diff fullScale
      else SafeMath.sub .memory fullScale diff)
    require (distance ≤ s.vault.maxSupplyDiff) "Backing supply liquidity error"
  else return

/-- Adds what one output is worth, in units, to the total. -/
def addUnits (s : System ω) (unitTotal : ℕ) (entry : Address × ℕ × ℕ) : Except Revert ℕ := do
  let assetDecimals ← getDecimals W s.world entry.1
  let scaled ← StableMath.scaleBy entry.2.1 (18 - (assetDecimals : ℤ))
  let product ← SafeMath.mul scaled entry.2.2
  let units ← SafeMath.div product fullScale
  SafeMath.add unitTotal units

/-- The check of `_redeem` that the outputs are worth the minimum asked for. -/
def requireUnits (s : System ω) (outputs : List ℕ) (minimumUnitAmount : ℕ) :
    Except Revert Unit :=
  if 0 < minimumUnitAmount then do
    let assetPrices ← s.getAssetPrices W
    let unitTotal ←
      (s.vault.allAssets.zip (outputs.zip assetPrices)).foldlM (s.addUnits W) 0
    require (minimumUnitAmount ≤ unitTotal) "Redeem amount lower than minimum"
  else return

/-- The rebase around a redeem, where the amount is large enough. -/
def rebaseForRedeem (s : System ω) (amount : ℕ) : Except Revert (System ω) :=
  if s.vault.rebaseThreshold < amount ∧ s.vault.rebasePaused = false then s.rebaseSupply W
  else return s

/-- `_redeem`. -/
def redeemAmount (s : System ω) (sender : Address) (amount minimumUnitAmount : ℕ) :
    Except Revert (System ω) := do
  require (0 < amount) "Amount must be greater than 0"
  let totalSupply := s.ousd.totalSupply
  let backingValue ← s.totalValue W
  s.requireBacking totalSupply backingValue
  let outputs ← s.calculateRedeemOutputs W amount
  let s ← s.payOutputs W sender outputs
  s.requireUnits W outputs minimumUnitAmount
  let s ← s.callOusd W s.vault.self (.burn sender amount)
  s.rebaseForRedeem W amount

def redeem (s : System ω) (sender : Address) (amount minimumUnitAmount : ℕ) :
    Except Revert (System ω) := do
  s.whenNotCapitalPaused
  let s ← s.rebaseForRedeem W amount
  s.redeemAmount W sender amount minimumUnitAmount

def redeemAll (s : System ω) (sender : Address) (minimumUnitAmount : ℕ) :
    Except Revert (System ω) := do
  s.whenNotCapitalPaused
  let balance ← s.ousd.balanceOf sender
  let s ← s.rebaseForRedeem W balance
  let balance ← s.ousd.balanceOf sender
  s.redeemAmount W sender balance minimumUnitAmount

end System

end InterestDollar
