import InterestDollar.Vault.Value

/-!
# The outputs of a redeem

`calculateRedeemOutputs` gives out every asset in the proportion the vault and
its strategies hold it, scaled down by how much more than a dollar the mix is
worth. `payOutputs` then pays each output from one source: the vault's own
balance where it suffices, else the default strategy of the asset.
-/

namespace InterestDollar

open Checked

/-- What the calculation reads of an asset: the balance held, its decimals and
its price. -/
structure Coin where
  balance : ℕ
  decimals : ℕ
  price : ℕ
  deriving DecidableEq, Repr

namespace System

variable {ω : Type} (W : World ω) (s : System ω)

/-- The amount left after the redeem fee. -/
def afterRedeemFee (amount : ℕ) : Except Revert ℕ :=
  if 0 < s.vault.redeemFeeBps then do
    let product ← SafeMath.mul amount s.vault.redeemFeeBps
    let redeemFee ← SafeMath.div product 10000
    SafeMath.sub .memory amount redeemFee
  else return amount

/-- Reads one asset and adds its balance, scaled to 18 decimals, to the total. -/
def readCoin (acc : List Coin × ℕ) (entry : Address × ℕ) : Except Revert (List Coin × ℕ) := do
  let balance ← s.checkBalance W entry.1
  let decimals ← getDecimals W s.world entry.1
  let scaled ← StableMath.scaleBy balance (18 - (decimals : ℤ))
  let totalBalance ← SafeMath.add acc.2 scaled
  return (acc.1 ++ [⟨balance, decimals, entry.2⟩], totalBalance)

/-- Reads all assets: their coins and the total of the scaled balances. -/
def readCoins (assetPrices : List ℕ) : Except Revert (List Coin × ℕ) :=
  (s.vault.allAssets.zip assetPrices).foldlM (s.readCoin W) ([], 0)

end System

/-- Adds the share of an asset in the total, times its price, to the ratio. A
price below a dollar counts as a dollar. -/
def addRatio (totalBalance totalOutputRatio : ℕ) (coin : Coin) : Except Revert ℕ := do
  let price := if coin.price < fullScale then fullScale else coin.price
  let scaled ← StableMath.scaleBy coin.balance (18 - (coin.decimals : ℤ))
  let product ← SafeMath.mul scaled price
  let ratio ← SafeMath.div product totalBalance
  SafeMath.add totalOutputRatio ratio

/-- The output of one asset. -/
def outputOf (totalBalance factor : ℕ) (coin : Coin) : Except Revert ℕ := do
  let product ← SafeMath.mul coin.balance factor
  SafeMath.div product totalBalance

/-- The outputs for an amount, from what was read of the assets. -/
def outputsFor (coins : List Coin) (totalBalance amount : ℕ) : Except Revert (List ℕ) := do
  let totalOutputRatio ← coins.foldlM (addRatio totalBalance) 0
  let factor ← StableMath.divPrecisely amount totalOutputRatio
  coins.mapM (outputOf totalBalance factor)

namespace System

variable {ω : Type} (W : World ω) (s : System ω)

/-- `_calculateRedeemOutputs`. -/
def calculateRedeemOutputs (amount : ℕ) : Except Revert (List ℕ) := do
  let assetPrices ← s.getAssetPrices W
  let amount ← s.afterRedeemFee amount
  let (coins, totalBalance) ← s.readCoins W assetPrices
  outputsFor coins totalBalance amount

/-- Sends one output of a redeem, from the vault's own balance if it suffices and
else from the default strategy of the asset. -/
def payOutput (recipient : Address) (s : System ω) (asset : Address) (output : ℕ) :
    Except Revert (System ω) :=
  if output = 0 then return s
  else do
    let balance ← W.balanceOf s.world asset s.vault.self
    if output ≤ balance then do
      let w ← W.safeTransfer s.world s.vault.self asset recipient output
      return s.setWorld w
    else
      let strategyAddr := s.vault.assetDefaultStrategies asset
      if strategyAddr ≠ 0 then do
        let w ← W.withdraw s.world s.vault.self strategyAddr recipient asset output
        return s.setWorld w
      else .error (.require "Liquidity error")

/-- The payment loop of `_redeem`. -/
def payOutputs (recipient : Address) (s : System ω) (outputs : List ℕ) :
    Except Revert (System ω) :=
  (s.vault.allAssets.zip outputs).foldlM
    (fun s (asset, output) => s.payOutput W recipient asset output) s

end System

end InterestDollar
