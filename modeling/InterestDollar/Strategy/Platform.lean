import InterestDollar.Vault.PlainWorld

/-!
# What the strategies call

A strategy invests the assets of the vault on a platform: a lending market, an exchange
with a staking contract, a pool with a gauge. None of these is part of the system. A
`Platform` extends the surroundings of the vault by the calls that the strategies make,
again for an arbitrary state `ω`.

A call of a strategy fails for one of two reasons: the strategy's own code fails, in a check,
in its arithmetic or because it calls the zero address, where there is no code; or a contract
that it calls fails.
-/

namespace InterestDollar

open Checked

/-- The contracts that the vault and the strategies call. In a call that changes the state,
the first address is the caller. -/
structure Platform (ω : Type) extends World ω where
  totalSupply : ω → (token : Address) → Except Revert ℕ
  approve : ω → (caller token spender : Address) → ℕ → Except Revert ω
  /-- `priceProvider()` of the vault. -/
  priceProvider : ω → (vault : Address) → Except Revert Address
  /-- `uniswapAddr()` of the vault. -/
  uniswapAddr : ω → (vault : Address) → Except Revert Address
  /-- `celoGoldAddr()` of the vault. -/
  celoGoldAddr : ω → (vault : Address) → Except Revert Address
  getLendingPool : ω → (provider : Address) → Except Revert Address
  getLendingPoolCore : ω → (provider : Address) → Except Revert Address
  lendingPoolDeposit : ω → (caller pool asset : Address) → (amount referralCode : ℕ) →
    Except Revert ω
  redeemAToken : ω → (caller aToken : Address) → ℕ → Except Revert ω
  pairFor : ω → (router tokenA tokenB : Address) → Except Revert Address
  addLiquidity : ω → (caller router tokenA tokenB : Address) →
    (amountADesired amountBDesired amountAMin amountBMin : ℕ) → (recipient : Address) →
    (deadline : ℕ) → Except Revert ω
  removeLiquidity : ω → (caller router tokenA tokenB : Address) →
    (liquidity amountAMin amountBMin : ℕ) → (recipient : Address) → (deadline : ℕ) →
    Except Revert ω
  stake : ω → (caller staking : Address) → ℕ → Except Revert ω
  /-- `withdraw` of the staking contract. -/
  unstake : ω → (caller staking : Address) → ℕ → Except Revert ω
  getReward : ω → (caller staking : Address) → Except Revert ω
  exchangeRateStored : ω → (cToken : Address) → Except Revert ℕ
  comptroller : ω → (cToken : Address) → Except Revert Address
  claimComp : ω → (caller comptroller holder : Address) → Except Revert ω
  /-- `mint` of a cToken, with the error code it returns. -/
  mintCToken : ω → (caller cToken : Address) → ℕ → Except Revert (ω × ℕ)
  redeemCToken : ω → (caller cToken : Address) → ℕ → Except Revert (ω × ℕ)
  redeemUnderlying : ω → (caller cToken : Address) → ℕ → Except Revert (ω × ℕ)
  coins : ω → (pool : Address) → (index : ℕ) → Except Revert Address
  /-- `balances` of the pool. -/
  poolBalances : ω → (pool : Address) → (index : ℕ) → Except Revert ℕ
  getVirtualPrice : ω → (pool : Address) → Except Revert ℕ
  /-- `add_liquidity` of the pool. -/
  addPoolLiquidity : ω → (caller pool : Address) → (amounts : List ℕ) → (minMintAmount : ℕ) →
    Except Revert ω
  calcWithdrawOneCoin : ω → (pool : Address) → (amount index : ℕ) → Except Revert ℕ
  removeLiquidityOneCoin : ω → (caller pool : Address) → (amount index minAmount : ℕ) →
    Except Revert ω
  /-- `remove_liquidity` of the pool. -/
  removePoolLiquidity : ω → (caller pool : Address) → (amount : ℕ) → (minAmounts : List ℕ) →
    Except Revert ω
  gaugeDeposit : ω → (caller gauge : Address) → (amount : ℕ) → (account : Address) →
    Except Revert ω
  gaugeWithdraw : ω → (caller gauge : Address) → ℕ → Except Revert ω
  /-- `mint` of the minter of rewards. -/
  mintReward : ω → (caller minter gauge : Address) → Except Revert ω

/-- Why a call of a strategy failed: its own code, or a contract that it called. -/
inductive Failure
  | own (reason : Revert)
  | outside (reason : Revert)
  deriving DecidableEq, Repr

/-- What the caller of the strategy sees. -/
def Failure.revert : Failure → Revert
  | .own reason => reason
  | .outside reason => reason

/-- A computation of the strategy's own code. -/
def own {α : Type} (x : Except Revert α) : Except Failure α := x.mapError .own

/-- A call of a contract. At the zero address there is none. -/
def callAt {α : Type} (target : Address) (x : Except Revert α) : Except Failure α :=
  if target = 0 then .error (.own (.require "")) else x.mapError .outside

/-- The largest word, `uint256(-1)`. -/
def maxWord : ℕ := wordBound - 1

section

variable {α : Type} {a : α}

theorem mapError_eq_ok {ε ε' : Type} {f : ε → ε'} {x : Except ε α} :
    x.mapError f = .ok a ↔ x = .ok a := by
  cases x with
  | error e => simp [Except.mapError]
  | ok b => simp [Except.mapError]

theorem own_eq_ok {x : Except Revert α} : own x = .ok a ↔ x = .ok a := mapError_eq_ok

theorem own_require {p : Prop} [Decidable p] {reason : String} {u : Unit} :
    own (require p reason) = .ok u ↔ p :=
  own_eq_ok.trans require_eq_ok

theorem callAt_eq_ok {target : Address} {x : Except Revert α} :
    callAt target x = .ok a ↔ target ≠ 0 ∧ x = .ok a := by
  by_cases h : target = 0
  · simp [callAt, h]
  · simp [callAt, h, mapError_eq_ok]

end

end InterestDollar
