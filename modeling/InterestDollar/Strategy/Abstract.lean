import InterestDollar.Listing.SwapRemove
import InterestDollar.Strategy.Platform

/-!
# What the strategies have in common

The storage that every strategy has and the functions that none overrides. An asset is
supported when it has a platform token, its `pToken`; the supported assets are also listed,
in the order they came in as far as no removal has changed it. A strategy adds to the setting
of a platform token by a function of its own, which is a parameter here.

The guard against reentrancy is left out: what the platforms do is one step of their state.
-/

namespace InterestDollar

open Checked Listing

/-- The storage that every strategy has, and its own address. -/
structure AbstractStrategy where
  self : Address
  governor : Address
  pendingGovernor : Address
  platformAddress : Address
  vaultAddress : Address
  assetToPToken : Address → Address
  assetsMapped : List Address
  rewardTokenAddress : Address
  rewardLiquidationThreshold : ℕ

namespace AbstractStrategy

variable {ω : Type} (P : Platform ω)

/-- The storage of a contract that was deployed and not initialized yet. -/
def deployed (self governor : Address) : AbstractStrategy where
  self := self
  governor := governor
  pendingGovernor := 0
  platformAddress := 0
  vaultAddress := 0
  assetToPToken := fun _ => 0
  assetsMapped := []
  rewardTokenAddress := 0
  rewardLiquidationThreshold := 0

def onlyGovernor (s : AbstractStrategy) (sender : Address) : Except Failure Unit :=
  own (require (sender = s.governor) "Caller is not the Governor")

def onlyVault (s : AbstractStrategy) (sender : Address) : Except Failure Unit :=
  own (require (sender = s.vaultAddress) "Caller is not the Vault")

def onlyVaultOrGovernor (s : AbstractStrategy) (sender : Address) : Except Failure Unit :=
  own (require (sender = s.vaultAddress ∨ sender = s.governor)
    "Caller is not the Vault or Governor")

def supportsAsset (s : AbstractStrategy) (asset : Address) : Bool :=
  decide (s.assetToPToken asset ≠ 0)

/-! ## The platform tokens -/

/-- What `_setPTokenAddress` stores. -/
def storePToken (s : AbstractStrategy) (asset pToken : Address) :
    Except Failure AbstractStrategy := do
  own (require (s.assetToPToken asset = 0) "pToken already set")
  own (require (asset ≠ 0 ∧ pToken ≠ 0) "Invalid addresses")
  return { s with
    assetToPToken := Function.update s.assetToPToken asset pToken
    assetsMapped := s.assetsMapped ++ [asset] }

/-- `_setPTokenAddress`. The parameter is the strategy's own `_abstractSetPToken`. -/
def setPToken (abstractSetPToken : AbstractStrategy → ω → Address → Address → Except Failure ω)
    (s : AbstractStrategy) (w : ω) (asset pToken : Address) :
    Except Failure (AbstractStrategy × ω) := do
  let s ← s.storePToken asset pToken
  let w ← abstractSetPToken s w asset pToken
  return (s, w)

/-- `_initialize`. -/
def initializeWith
    (abstractSetPToken : AbstractStrategy → ω → Address → Address → Except Failure ω)
    (s : AbstractStrategy) (w : ω) (platformAddress vaultAddress rewardTokenAddress : Address)
    (assets pTokens : List Address) : Except Failure (AbstractStrategy × ω) := do
  let s := { s with
    platformAddress := platformAddress
    vaultAddress := vaultAddress
    rewardTokenAddress := rewardTokenAddress }
  own (require (assets.length = pTokens.length) "Invalid input arrays")
  (assets.zip pTokens).foldlM
    (fun (s, w) (asset, pToken) => s.setPToken abstractSetPToken w asset pToken) (s, w)

def removePToken (s : AbstractStrategy) (sender : Address) (assetIndex : ℕ) :
    Except Failure AbstractStrategy := do
  s.onlyGovernor sender
  match s.assetsMapped[assetIndex]? with
  | none => .error (.own (.require "Invalid index"))
  | some asset => return { s with
      assetsMapped := swapRemoveAt assetIndex s.assetsMapped
      assetToPToken := Function.update s.assetToPToken asset 0 }

/-! ## Settings -/

def setRewardTokenAddress (s : AbstractStrategy) (sender rewardTokenAddress : Address) :
    Except Failure AbstractStrategy := do
  s.onlyGovernor sender
  return { s with rewardTokenAddress := rewardTokenAddress }

def setRewardLiquidationThreshold (s : AbstractStrategy) (sender : Address) (threshold : ℕ) :
    Except Failure AbstractStrategy := do
  s.onlyGovernor sender
  return { s with rewardLiquidationThreshold := threshold }

def transferGovernance (s : AbstractStrategy) (sender newGovernor : Address) :
    Except Failure AbstractStrategy := do
  s.onlyGovernor sender
  return { s with pendingGovernor := newGovernor }

def claimGovernance (s : AbstractStrategy) (sender : Address) :
    Except Failure AbstractStrategy := do
  own (require (sender = s.pendingGovernor) "Only the pending Governor can complete the claim")
  own (require (sender ≠ 0) "New Governor is address(0)")
  return { s with governor := sender }

/-- The functions that only store a setting. -/
inductive Setting
  | rewardTokenAddress (address : Address)
  | rewardLiquidationThreshold (threshold : ℕ)
  | pendingGovernor (newGovernor : Address)
  | governor
  deriving DecidableEq

/-- The function of the source that stores a setting. -/
def configure (s : AbstractStrategy) (sender : Address) :
    Setting → Except Failure AbstractStrategy
  | .rewardTokenAddress address => s.setRewardTokenAddress sender address
  | .rewardLiquidationThreshold threshold => s.setRewardLiquidationThreshold sender threshold
  | .pendingGovernor newGovernor => s.transferGovernance sender newGovernor
  | .governor => s.claimGovernance sender

/-! ## Transfers -/

def transferToken (s : AbstractStrategy) (w : ω) (sender asset : Address) (amount : ℕ) :
    Except Failure ω := do
  s.onlyGovernor sender
  callAt asset (P.safeTransfer w s.self asset s.governor amount)

/-- The strategy's own balance of a token. -/
def ownBalance (s : AbstractStrategy) (w : ω) (token : Address) : Except Failure ℕ :=
  callAt token (P.balanceOf w token s.self)

/-- Sends an amount of a token to the vault. -/
def sendToVault (s : AbstractStrategy) (w : ω) (token : Address) (amount : ℕ) :
    Except Failure ω :=
  callAt token (P.safeTransfer w s.self token s.vaultAddress amount)

/-- Sends all it has of a token to the vault. -/
def sendAllToVault (s : AbstractStrategy) (w : ω) (token : Address) : Except Failure ω := do
  let balance ← s.ownBalance P w token
  s.sendToVault P w token balance

/-- Lets a spender take any amount of a token. -/
def safeApproveMax (s : AbstractStrategy) (w : ω) (token spender : Address) :
    Except Failure ω := do
  let w ← callAt token (P.safeApprove w s.self token spender 0)
  callAt token (P.safeApprove w s.self token spender maxWord)

/-- The functions that leave the storage of a strategy alone. -/
inductive Operation
  | transferToken (asset : Address) (amount : ℕ)
  | safeApproveAllTokens
  | deposit (asset : Address) (amount : ℕ)
  | depositAll
  | withdraw (recipient asset : Address) (amount : ℕ)
  | withdrawAll
  | collectRewardToken
  deriving DecidableEq

end AbstractStrategy

end InterestDollar
