import InterestDollar.Token.Ledger

/-!
# The vault and what it calls

The storage of the vault, the token it mints and burns, and the contracts it
calls besides: the assets, the strategies, the price oracle and the exchange
router. These last are parameters. A `World` gives, for an arbitrary state `ω` of
all of them, what each call returns or makes of that state, and a statement about
the vault holds for every world unless it says what it asks of it.

A `System` also records the history of the token: every call made to it, with the
ledger it was made on, and every rebase, with the ledgers before and after. No
function reads the records.
-/

namespace InterestDollar

open Checked

/-- The contracts the vault calls, as they answer in a state of type `ω`. In a
call that changes the state, the first address is the caller. -/
structure World (ω : Type) where
  /-- The address of the vault's own token. -/
  oUSD : Address
  /-- The time of the block. -/
  now : ω → ℕ
  isContract : ω → Address → Bool
  decimals : ω → (token : Address) → Except Revert ℕ
  balanceOf : ω → (token holder : Address) → Except Revert ℕ
  safeTransfer : ω → (caller token recipient : Address) → ℕ → Except Revert ω
  safeTransferFrom : ω → (caller token owner recipient : Address) → ℕ → Except Revert ω
  safeApprove : ω → (caller token spender : Address) → ℕ → Except Revert ω
  price : ω → (priceProvider asset : Address) → Except Revert ℕ
  supportsAsset : ω → (strategy asset : Address) → Except Revert Bool
  checkBalance : ω → (strategy asset : Address) → Except Revert ℕ
  deposit : ω → (caller strategy asset : Address) → ℕ → Except Revert ω
  depositAll : ω → (caller strategy : Address) → Except Revert ω
  withdraw : ω → (caller strategy recipient asset : Address) → ℕ → Except Revert ω
  withdrawAll : ω → (caller strategy : Address) → Except Revert ω
  rewardTokenAddress : ω → (strategy : Address) → Except Revert Address
  rewardLiquidationThreshold : ω → (strategy : Address) → Except Revert ℕ
  collectRewardToken : ω → (caller strategy : Address) → Except Revert ω
  swapExactTokensForTokens : ω → (caller router : Address) → (amountIn amountOutMin : ℕ) →
    (path : List Address) → (recipient : Address) → (deadline : ℕ) → Except Revert ω

/-- The storage of the vault, and its own address. -/
structure Vault where
  self : Address
  governor : Address
  pendingGovernor : Address
  assets : Address → Bool
  allAssets : List Address
  strategies : Address → Bool
  allStrategies : List Address
  priceProvider : Address
  rebasePaused : Bool
  capitalPaused : Bool
  redeemFeeBps : ℕ
  vaultBuffer : ℕ
  autoAllocateThreshold : ℕ
  rebaseThreshold : ℕ
  uniswapAddr : Address
  celoGoldAddr : Address
  strategistAddr : Address
  assetDefaultStrategies : Address → Address
  maxSupplyDiff : ℕ
  trusteeAddress : Address
  trusteeFeeBps : ℕ

namespace Vault

/-- The storage a fresh `initialize` leaves. -/
def initialized (self governor priceProvider : Address) : Vault where
  self := self
  governor := governor
  pendingGovernor := 0
  assets := fun _ => false
  allAssets := []
  strategies := fun _ => false
  allStrategies := []
  priceProvider := priceProvider
  rebasePaused := false
  capitalPaused := true
  redeemFeeBps := 0
  vaultBuffer := 0
  autoAllocateThreshold := 25000 * 10 ^ 18
  rebaseThreshold := 1000 * 10 ^ 18
  uniswapAddr := 0
  celoGoldAddr := 0
  strategistAddr := 0
  assetDefaultStrategies := fun _ => 0
  maxSupplyDiff := 0
  trusteeAddress := 0
  trusteeFeeBps := 0

end Vault

/-- A rebase that went through: the ledger before and after it, and the value of
the vault it was made for. -/
structure RebaseRecord where
  before : Ledger
  vaultValue : ℕ
  after : Ledger

/-- The vault, its token, and everything else. -/
structure System (ω : Type) where
  vault : Vault
  ousd : Ledger
  world : ω
  ousdCalls : List (Ledger × (Msg × Ledger.Call))
  rebases : List RebaseRecord

namespace System

variable {ω : Type}

/-- The system right after the two contracts were initialized. -/
def initialized (self governor priceProvider : Address) (world : ω) : System ω where
  vault := Vault.initialized self governor priceProvider
  ousd := Ledger.initialized self
  world := world
  ousdCalls := []
  rebases := []

/-- A call of the token by an account. -/
def callOusd (W : World ω) (s : System ω) (sender : Address) (call : Ledger.Call) :
    Except Revert (System ω) := do
  let msg : Msg := ⟨sender, W.isContract s.world⟩
  let ousd ← s.ousd.exec (msg, call)
  return { s with ousd := ousd, ousdCalls := (s.ousd, msg, call) :: s.ousdCalls }

/-- The system after a call that changed the rest of the world. -/
def setWorld (s : System ω) (world : ω) : System ω := { s with world := world }

/-- Records a rebase. -/
def recordRebase (s : System ω) (before : Ledger) (vaultValue : ℕ) : System ω :=
  { s with rebases := ⟨before, vaultValue, s.ousd⟩ :: s.rebases }

end System

/-- `Helpers.getDecimals`. -/
def getDecimals {ω : Type} (W : World ω) (w : ω) (token : Address) : Except Revert ℕ := do
  let decimals ← W.decimals w token
  require (4 ≤ decimals ∧ decimals ≤ 18) "Token must have sufficient decimal places"
  return decimals

end InterestDollar
