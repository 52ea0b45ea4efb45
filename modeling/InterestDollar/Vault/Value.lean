import InterestDollar.Vault.System

/-!
# The value the vault counts

What the vault holds itself and through its strategies: as an amount of one
asset (`checkBalance`), and as a value at the oracle's prices (`totalValue`). The
loops of the contract are folds over the lists of assets and of strategies, and
add with overflow checks; on what fits they are sums.
-/

namespace InterestDollar

open Checked

namespace System

variable {ω : Type} (W : World ω) (s : System ω)

/-- `_assetValueFromOracle`. -/
def assetValueFromOracle (asset : Address) (amount : ℕ) : Except Revert ℕ := do
  let assetDecimals ← getDecimals W s.world asset
  let price ← W.price s.world s.vault.priceProvider asset
  StableMath.mulTruncateScale amount price (10 ^ assetDecimals)

/-- Adds the value of a balance to a total. -/
def addValue (asset : Address) (balance value : ℕ) : Except Revert ℕ := do
  let priceAdjustedBalance ← s.assetValueFromOracle W asset balance
  if 0 < priceAdjustedBalance then SafeMath.add value priceAdjustedBalance else return value

/-- `_totalValueInVault`. -/
def totalValueInVault : Except Revert ℕ :=
  s.vault.allAssets.foldlM (fun value asset => do
    let balance ← W.balanceOf s.world asset s.vault.self
    s.addValue W asset balance value) 0

/-- `_totalValueInStrategy`. -/
def totalValueInStrategy (strategy : Address) : Except Revert ℕ :=
  s.vault.allAssets.foldlM (fun value asset => do
    let supported ← W.supportsAsset s.world strategy asset
    if supported then do
      let balance ← W.checkBalance s.world strategy asset
      s.addValue W asset balance value
    else return value) 0

/-- `_totalValueInStrategies`. -/
def totalValueInStrategies : Except Revert ℕ :=
  s.vault.allStrategies.foldlM (fun value strategy => do
    let strategyValue ← s.totalValueInStrategy W strategy
    SafeMath.add value strategyValue) 0

/-- `_totalValue`. -/
def totalValue : Except Revert ℕ := do
  let inVault ← s.totalValueInVault W
  let inStrategies ← s.totalValueInStrategies W
  SafeMath.add inVault inStrategies

/-- `_checkBalance`. -/
def checkBalance (asset : Address) : Except Revert ℕ := do
  let balance ← W.balanceOf s.world asset s.vault.self
  s.vault.allStrategies.foldlM (fun balance strategy => do
    let supported ← W.supportsAsset s.world strategy asset
    if supported then do
      let strategyBalance ← W.checkBalance s.world strategy asset
      SafeMath.add balance strategyBalance
    else return balance) balance

/-- `_getAssetPrices`. -/
def getAssetPrices : Except Revert (List ℕ) :=
  s.vault.allAssets.mapM fun asset => W.price s.world s.vault.priceProvider asset

end System

end InterestDollar
