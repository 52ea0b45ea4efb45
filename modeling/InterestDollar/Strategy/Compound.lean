import InterestDollar.Strategy.Abstract
import InterestDollar.Contract.StableMath

/-!
# The Compound strategy

Assets are lent out for cTokens, whose exchange rate rises with the interest. The strategy
has no storage of its own.
-/

namespace InterestDollar

open Checked

/-- The storage of the strategy. -/
structure CompoundStrategy extends AbstractStrategy

namespace CompoundStrategy

variable {ω : Type} (P : Platform ω)

/-- The storage of a contract that was deployed and not initialized yet. -/
def deployed (self governor : Address) : CompoundStrategy where
  toAbstractStrategy := AbstractStrategy.deployed self governor

/-- `_getCTokenFor`. -/
def getCTokenFor (s : CompoundStrategy) (asset : Address) : Except Failure Address := do
  own (require (s.assetToPToken asset ≠ 0) "cToken does not exist")
  return s.assetToPToken asset

/-- `_abstractSetPToken`. -/
def abstractSetPToken (s : AbstractStrategy) (w : ω) (asset cToken : Address) :
    Except Failure ω :=
  s.safeApproveMax P w asset cToken

def safeApproveAllTokens (s : CompoundStrategy) (w : ω) : Except Failure ω :=
  s.assetsMapped.foldlM (fun w asset => s.safeApproveMax P w asset (s.assetToPToken asset)) w

def setPTokenAddress (s : CompoundStrategy) (w : ω) (sender asset pToken : Address) :
    Except Failure (CompoundStrategy × ω) := do
  s.onlyGovernor sender
  let (base, w) ← s.setPToken (abstractSetPToken P) w asset pToken
  return (⟨base⟩, w)

/-- The storage and the world after `initialize`. -/
def initialized (s : CompoundStrategy) (w : ω) (sender platformAddress vaultAddress
    rewardTokenAddress : Address) (assets pTokens : List Address) :
    Except Failure (CompoundStrategy × ω) := do
  s.onlyGovernor sender
  let (base, w) ← s.initializeWith (abstractSetPToken P) w platformAddress vaultAddress
    rewardTokenAddress assets pTokens
  return (⟨base⟩, w)

/-- `_convertUnderlyingToCToken`. -/
def convertUnderlyingToCToken (w : ω) (cToken : Address) (underlying : ℕ) :
    Except Failure ℕ := do
  let exchangeRate ← callAt cToken (P.exchangeRateStored w cToken)
  let product ← own (SafeMath.mul underlying fullScale)
  own (SafeMath.div product exchangeRate)

/-- `_deposit`. -/
def depositAsset (s : CompoundStrategy) (w : ω) (asset : Address) (amount : ℕ) :
    Except Failure ω := do
  own (require (0 < amount) "Must deposit something")
  let cToken ← s.getCTokenFor asset
  let (w, code) ← callAt cToken (P.mintCToken w s.self cToken amount)
  own (require (code = 0) "cToken mint failed")
  return w

def deposit (s : CompoundStrategy) (w : ω) (sender asset : Address) (amount : ℕ) :
    Except Failure ω := do
  s.onlyVault sender
  s.depositAsset P w asset amount

def depositAll (s : CompoundStrategy) (w : ω) (sender : Address) : Except Failure ω := do
  s.onlyVault sender
  s.assetsMapped.foldlM (fun w asset => do
    let balance ← s.ownBalance P w asset
    if 0 < balance then s.depositAsset P w asset balance else return w) w

/-- An amount that is worth less than the smallest unit of the cToken is not withdrawn, and the
call returns. -/
def withdraw (s : CompoundStrategy) (w : ω) (sender recipient asset : Address) (amount : ℕ) :
    Except Failure ω := do
  s.onlyVault sender
  own (require (0 < amount) "Must withdraw something")
  own (require (recipient ≠ 0) "Must specify recipient")
  let cToken ← s.getCTokenFor asset
  let cTokensToRedeem ← convertUnderlyingToCToken P w cToken amount
  if cTokensToRedeem = 0 then return w
  else do
    let (w, code) ← callAt cToken (P.redeemUnderlying w s.self cToken amount)
    own (require (code = 0) "Redeem failed")
    callAt asset (P.safeTransfer w s.self asset recipient amount)

/-- The loop of `withdrawAll`. -/
def withdrawAsset (s : CompoundStrategy) (w : ω) (asset : Address) : Except Failure ω := do
  let cToken ← s.getCTokenFor asset
  let balance ← s.ownBalance P w cToken
  if 0 < balance then do
    let (w, code) ← callAt cToken (P.redeemCToken w s.self cToken balance)
    own (require (code = 0) "Redeem failed")
    s.sendAllToVault P w asset
  else return w

def withdrawAll (s : CompoundStrategy) (w : ω) (sender : Address) : Except Failure ω := do
  s.onlyVaultOrGovernor sender
  s.assetsMapped.foldlM (s.withdrawAsset P) w

def collectRewardToken (s : CompoundStrategy) (w : ω) (sender : Address) :
    Except Failure ω := do
  s.onlyVault sender
  match s.assetsMapped with
  | [] => .error (.own .invalidOpcode)
  | asset :: _ => do
      let cToken ← s.getCTokenFor asset
      let comptroller ← callAt cToken (P.comptroller w cToken)
      let w ← callAt comptroller (P.claimComp w s.self comptroller s.self)
      s.sendAllToVault P w s.rewardTokenAddress

def checkBalance (s : CompoundStrategy) (w : ω) (asset : Address) : Except Failure ℕ := do
  let cToken ← s.getCTokenFor asset
  let cTokenBalance ← s.ownBalance P w cToken
  let exchangeRate ← callAt cToken (P.exchangeRateStored w cToken)
  let product ← own (SafeMath.mul cTokenBalance exchangeRate)
  own (SafeMath.div product fullScale)

end CompoundStrategy

end InterestDollar
