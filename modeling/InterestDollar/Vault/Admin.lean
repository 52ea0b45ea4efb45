import InterestDollar.Listing.SwapRemove
import InterestDollar.Vault.Core

/-!
# The configuration of the vault

The functions of the governor and the strategist: the plain settings, the
registries of assets and strategies, the movement of funds between strategies
and the pausing. Two maps and two lists make up the registries: an asset or a
strategy is supported when its map says so, and the loops of the vault go over
the lists.
-/

namespace InterestDollar

open Checked Listing

namespace System

variable {ω : Type} (W : World ω)

def onlyGovernor (s : System ω) (sender : Address) : Except Revert Unit :=
  require (sender = s.vault.governor) "Caller is not the Governor"

def onlyGovernorOrStrategist (s : System ω) (sender : Address) : Except Revert Unit :=
  require (sender = s.vault.strategistAddr ∨ sender = s.vault.governor)
    "Caller is not the Strategist or Governor"

/-! ## Settings -/

/-- The settings that are stored as they are given, by the governor alone. -/
inductive Setting
  | priceProvider (address : Address)
  | redeemFeeBps (bps : ℕ)
  | autoAllocateThreshold (threshold : ℕ)
  | rebaseThreshold (threshold : ℕ)
  | uniswapAddr (address : Address)
  | celoGoldAddr (address : Address)
  | strategistAddr (address : Address)
  | maxSupplyDiff (diff : ℕ)
  | trusteeAddress (address : Address)
  | rebaseUnpaused
  deriving DecidableEq

/-- Stores a setting. -/
def Setting.store (v : Vault) : Setting → Vault
  | .priceProvider address => { v with priceProvider := address }
  | .redeemFeeBps bps => { v with redeemFeeBps := bps }
  | .autoAllocateThreshold threshold => { v with autoAllocateThreshold := threshold }
  | .rebaseThreshold threshold => { v with rebaseThreshold := threshold }
  | .uniswapAddr address => { v with uniswapAddr := address }
  | .celoGoldAddr address => { v with celoGoldAddr := address }
  | .strategistAddr address => { v with strategistAddr := address }
  | .maxSupplyDiff diff => { v with maxSupplyDiff := diff }
  | .trusteeAddress address => { v with trusteeAddress := address }
  | .rebaseUnpaused => { v with rebasePaused := false }

/-- What the functions that only store a setting have in common. -/
def storeSetting (setting : Setting) (s : System ω) (sender : Address) :
    Except Revert (System ω) := do
  s.onlyGovernor sender
  return { s with vault := setting.store s.vault }

def setPriceProvider (s : System ω) (sender priceProvider : Address) :
    Except Revert (System ω) :=
  storeSetting (.priceProvider priceProvider) s sender

def setRedeemFeeBps (s : System ω) (sender : Address) (redeemFeeBps : ℕ) :
    Except Revert (System ω) :=
  storeSetting (.redeemFeeBps redeemFeeBps) s sender

def setVaultBuffer (s : System ω) (sender : Address) (vaultBuffer : ℕ) :
    Except Revert (System ω) := do
  s.onlyGovernorOrStrategist sender
  require (vaultBuffer ≤ fullScale) "Invalid value"
  return { s with vault := { s.vault with vaultBuffer := vaultBuffer } }

def setAutoAllocateThreshold (s : System ω) (sender : Address) (threshold : ℕ) :
    Except Revert (System ω) :=
  storeSetting (.autoAllocateThreshold threshold) s sender

def setRebaseThreshold (s : System ω) (sender : Address) (threshold : ℕ) :
    Except Revert (System ω) :=
  storeSetting (.rebaseThreshold threshold) s sender

def setUniswapAddr (s : System ω) (sender address : Address) : Except Revert (System ω) :=
  storeSetting (.uniswapAddr address) s sender

def setCeloGoldAddr (s : System ω) (sender address : Address) : Except Revert (System ω) :=
  storeSetting (.celoGoldAddr address) s sender

def setStrategistAddr (s : System ω) (sender address : Address) : Except Revert (System ω) :=
  storeSetting (.strategistAddr address) s sender

def setMaxSupplyDiff (s : System ω) (sender : Address) (maxSupplyDiff : ℕ) :
    Except Revert (System ω) :=
  storeSetting (.maxSupplyDiff maxSupplyDiff) s sender

def setTrusteeAddress (s : System ω) (sender address : Address) : Except Revert (System ω) :=
  storeSetting (.trusteeAddress address) s sender

def setTrusteeFeeBps (s : System ω) (sender : Address) (basis : ℕ) :
    Except Revert (System ω) := do
  s.onlyGovernor sender
  require (basis ≤ 5000) "basis cannot exceed 50%"
  return { s with vault := { s.vault with trusteeFeeBps := basis } }

def pauseRebase (s : System ω) (sender : Address) : Except Revert (System ω) := do
  s.onlyGovernorOrStrategist sender
  return { s with vault := { s.vault with rebasePaused := true } }

def unpauseRebase (s : System ω) (sender : Address) : Except Revert (System ω) :=
  storeSetting .rebaseUnpaused s sender

def pauseCapital (s : System ω) (sender : Address) : Except Revert (System ω) := do
  s.onlyGovernorOrStrategist sender
  return { s with vault := { s.vault with capitalPaused := true } }

def unpauseCapital (s : System ω) (sender : Address) : Except Revert (System ω) := do
  s.onlyGovernorOrStrategist sender
  return { s with vault := { s.vault with capitalPaused := false } }

def transferGovernance (s : System ω) (sender newGovernor : Address) :
    Except Revert (System ω) := do
  s.onlyGovernor sender
  return { s with vault := { s.vault with pendingGovernor := newGovernor } }

def claimGovernance (s : System ω) (sender : Address) : Except Revert (System ω) := do
  require (sender = s.vault.pendingGovernor) "Only the pending Governor can complete the claim"
  require (sender ≠ 0) "New Governor is address(0)"
  return { s with vault := { s.vault with governor := sender } }

/-! ## Assets and strategies -/

def supportAsset (s : System ω) (sender asset : Address) : Except Revert (System ω) := do
  s.onlyGovernor sender
  require (s.vault.assets asset = false) "Asset already supported"
  let s := { s with
    vault := { s.vault with
      assets := Function.update s.vault.assets asset true
      allAssets := s.vault.allAssets ++ [asset] } }
  let _ ← W.price s.world s.vault.priceProvider asset
  return s

def approveStrategy (s : System ω) (sender strategy : Address) : Except Revert (System ω) := do
  s.onlyGovernor sender
  require (s.vault.strategies strategy = false) "Strategy already approved"
  return { s with
    vault := { s.vault with
      strategies := Function.update s.vault.strategies strategy true
      allStrategies := s.vault.allStrategies ++ [strategy] } }

def setAssetDefaultStrategy (s : System ω) (sender asset strategy : Address) :
    Except Revert (System ω) := do
  s.onlyGovernorOrStrategist sender
  require (s.vault.strategies strategy = true) "Strategy not approved"
  require (s.vault.assets asset = true) "Asset is not supported"
  let supported ← W.supportsAsset s.world strategy asset
  require (supported = true) "Asset not supported by Strategy"
  return { s with
    vault := { s.vault with
      assetDefaultStrategies := Function.update s.vault.assetDefaultStrategies asset strategy } }

/-- Takes a strategy off the list, and its assets and rewards back. -/
def delistStrategy (s : System ω) (strategy : Address) : Except Revert (System ω) :=
  if strategy ∈ s.vault.allStrategies then do
    let s := { s with
      vault := { s.vault with allStrategies := swapRemove strategy s.vault.allStrategies } }
    let w ← W.withdrawAll s.world s.vault.self strategy
    (s.setWorld w).harvestFrom W strategy
  else return s

def removeStrategy (s : System ω) (sender strategy : Address) : Except Revert (System ω) := do
  s.onlyGovernor sender
  require (s.vault.strategies strategy = true) "Strategy not approved"
  let s ← s.delistStrategy W strategy
  return { s with
    vault := { s.vault with strategies := Function.update s.vault.strategies strategy false } }

/-- Moves one asset from a strategy to another. -/
def moveAsset (strategyFrom strategyTo : Address) (s : System ω) (entry : Address × ℕ) :
    Except Revert (System ω) := do
  let supported ← W.supportsAsset s.world strategyTo entry.1
  require (supported = true) "Asset unsupported"
  let w ← W.withdraw s.world s.vault.self strategyFrom strategyTo entry.1 entry.2
  return s.setWorld w

def reallocate (s : System ω) (sender strategyFrom strategyTo : Address) (assets : List Address)
    (amounts : List ℕ) : Except Revert (System ω) := do
  s.onlyGovernorOrStrategist sender
  require (s.vault.strategies strategyFrom = true) "Invalid from Strategy"
  require (s.vault.strategies strategyTo = true) "Invalid to Strategy"
  require (assets.length = amounts.length) "Parameter length mismatch"
  let s ← (assets.zip amounts).foldlM (moveAsset W strategyFrom strategyTo) s
  let w ← W.depositAll s.world s.vault.self strategyTo
  return s.setWorld w

/-- Takes all assets of a strategy back. -/
def recallAssets (s : System ω) (strategy : Address) : Except Revert (System ω) := do
  let w ← W.withdrawAll s.world s.vault.self strategy
  return s.setWorld w

def withdrawAllFromStrategy (s : System ω) (sender strategy : Address) :
    Except Revert (System ω) := do
  s.onlyGovernorOrStrategist sender
  require (s.vault.strategies strategy = true) "Strategy is not supported"
  s.recallAssets W strategy

def withdrawAllFromStrategies (s : System ω) (sender : Address) : Except Revert (System ω) := do
  s.onlyGovernorOrStrategist sender
  s.vault.allStrategies.foldlM (recallAssets W) s

/-! ## Rewards and stuck tokens -/

/-- `harvest()`. -/
def harvestAll (s : System ω) (sender : Address) : Except Revert (System ω) := do
  s.onlyGovernorOrStrategist sender
  s.vault.allStrategies.foldlM (harvestFrom W) s

def transferToken (s : System ω) (sender asset : Address) (amount : ℕ) :
    Except Revert (System ω) := do
  s.onlyGovernor sender
  require (s.vault.assets asset = false) "Only unsupported assets"
  if asset = W.oUSD then s.callOusd W s.vault.self (.transfer s.vault.governor amount)
  else do
    let w ← W.safeTransfer s.world s.vault.self asset s.vault.governor amount
    return s.setWorld w

end System

end InterestDollar
