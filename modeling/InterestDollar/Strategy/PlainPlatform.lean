import InterestDollar.Strategy.Surroundings

/-!
# Plain platforms

The simplest platforms for the strategies, over the tokens of a plain world: a lending market
with aTokens at par and cTokens at a fixed rate, a pool with a gauge, and rewards that are paid
when they are claimed. A platform pays out of what it holds itself, and records what it pays.
The exchange and the pool take no liquidity in, and calls for that fail.
-/

namespace InterestDollar

open Checked

/-- The addresses and the rate, which do not change. -/
structure PlainMarket where
  /-- The asset behind an aToken or a cToken. -/
  underlying : Address → Address
  aToken : Address → Address
  exchangeRate : ℕ
  poolToken : Address
  poolCoins : List Address
  rewardToken : Address
  router : Address
  oracle : Address
  lendingPool : Address
  lpPair : Address

/-- The state of the tokens and the platforms. -/
structure PlainPlatform extends PlainWorld where
  supply : Address → ℕ
  pending : Address → ℕ
  /-- What the platforms have paid out, by recipient and token. -/
  paid : Address → Address → ℕ

namespace PlainPlatform

/-- An amount of one token. -/
def only (token : Address) (amount : ℕ) (other : Address) : ℕ :=
  if other = token then amount else 0

/-- After a call of the tokens. -/
def lift (w : PlainPlatform) (x : Except Revert PlainWorld) : Except Revert PlainPlatform :=
  x.map fun world => { w with toPlainWorld := world }

/-- A platform pays amounts of tokens. -/
def payOut (w : PlainPlatform) (platform recipient : Address) (amount : Address → ℕ) :
    PlainPlatform :=
  { w with
    balances := fun token =>
      Function.update
        (Function.update (w.balances token) platform (w.balances token platform - amount token))
        recipient (w.balances token recipient + amount token)
    paid := Function.update w.paid recipient fun token => w.paid recipient token + amount token }

/-- A platform pays an amount of one token, if it has that. -/
def pay (w : PlainPlatform) (token platform recipient : Address) (amount : ℕ) :
    Except Revert PlainPlatform :=
  if amount ≤ w.balances token platform then
    .ok (w.payOut platform recipient (only token amount))
  else .error (.subtractionOverflow .tokenBalance)

/-- Creates an amount of a token. -/
def create (w : PlainPlatform) (token holder : Address) (amount : ℕ) : PlainPlatform :=
  { w with
    toPlainWorld := w.give token holder amount
    supply := Function.update w.supply token (w.supply token + amount) }

/-- Destroys an amount of a token. -/
def burn (w : PlainPlatform) (token holder : Address) (amount : ℕ) :
    Except Revert PlainPlatform :=
  if amount ≤ w.balances token holder then
    .ok { w with
      toPlainWorld := w.take token holder amount
      supply := Function.update w.supply token (w.supply token - amount) }
  else .error (.subtractionOverflow .tokenBalance)

/-- Locks tokens up in a contract, which keeps a balance for the holder. -/
def lock (w : PlainPlatform) (token holder contract : Address) (amount : ℕ) :
    Except Revert PlainPlatform := do
  let w ← w.lift (w.move token holder contract amount)
  return w.create contract holder amount

/-- Takes tokens out of a contract. -/
def unlock (w : PlainPlatform) (token holder contract : Address) (amount : ℕ) :
    Except Revert PlainPlatform := do
  let w ← w.burn contract holder amount
  w.lift (w.move token contract holder amount)

/-- Pays all rewards of a holder. -/
def payRewards (m : PlainMarket) (w : PlainPlatform) (platform holder : Address) :
    Except Revert PlainPlatform := do
  let w' ← w.pay m.rewardToken platform holder (w.pending holder)
  return { w' with pending := Function.update w.pending holder 0 }

/-- What the pool gives of a token for an amount of pool tokens. -/
def poolShare (m : PlainMarket) (w : PlainPlatform) (pool : Address) (amount : ℕ)
    (token : Address) : ℕ :=
  if token ∈ m.poolCoins then w.balances token pool * amount / w.supply m.poolToken else 0

/-- The pool's coin at an index. -/
def coinAt (m : PlainMarket) (index : ℕ) : Except Revert Address :=
  match m.poolCoins[index]? with
  | some coin => .ok coin
  | none => .error .invalidOpcode

/-- What is not offered. -/
def closed {α : Type} : Except Revert α := .error .invalidOpcode

/-- The calls of the vault and the strategies, answered by plain platforms. -/
def calls (m : PlainMarket) : Platform PlainPlatform where
  oUSD := 10
  now w := w.time
  isContract w := w.code
  decimals w token := .ok (w.tokenDecimals token)
  balanceOf w token holder := .ok (w.balances token holder)
  safeTransfer w caller token recipient amount := w.lift (w.move token caller recipient amount)
  safeTransferFrom w _ token owner recipient amount :=
    w.lift (w.move token owner recipient amount)
  safeApprove w _ _ _ _ := .ok w
  price w _ asset := .ok (w.prices asset)
  supportsAsset _ _ _ := .ok false
  checkBalance _ _ _ := closed
  deposit _ _ _ _ _ := closed
  depositAll _ _ _ := closed
  withdraw _ _ _ _ _ _ := closed
  withdrawAll _ _ _ := closed
  rewardTokenAddress _ _ := closed
  rewardLiquidationThreshold _ _ := closed
  collectRewardToken _ _ _ := closed
  swapExactTokensForTokens _ _ _ _ _ _ _ _ := closed
  totalSupply w token := .ok (w.supply token)
  approve w _ _ _ _ := .ok w
  priceProvider _ _ := .ok m.oracle
  uniswapAddr _ _ := .ok m.router
  celoGoldAddr _ _ := .ok 0
  getLendingPool _ _ := .ok m.lendingPool
  getLendingPoolCore _ _ := .ok m.lendingPool
  lendingPoolDeposit w caller _ asset amount _ := do
    let w ← w.lift (w.move asset caller (m.aToken asset) amount)
    return w.create (m.aToken asset) caller amount
  redeemAToken w caller aToken amount := do
    let w ← w.burn aToken caller amount
    w.pay (m.underlying aToken) aToken caller amount
  pairFor _ _ _ _ := .ok m.lpPair
  addLiquidity _ _ _ _ _ _ _ _ _ _ _ := closed
  removeLiquidity _ _ _ _ _ _ _ _ _ _ := closed
  stake w caller staking amount := w.lock m.lpPair caller staking amount
  unstake w caller staking amount := w.unlock m.lpPair caller staking amount
  getReward w caller staking := payRewards m w staking caller
  exchangeRateStored _ _ := .ok m.exchangeRate
  comptroller _ cToken := .ok cToken
  claimComp w _ comptroller holder := payRewards m w comptroller holder
  mintCToken w caller cToken amount := do
    let w ← w.lift (w.move (m.underlying cToken) caller cToken amount)
    return (w.create cToken caller (amount * fullScale / m.exchangeRate), 0)
  redeemCToken w caller cToken amount := do
    let w ← w.burn cToken caller amount
    let w ← w.pay (m.underlying cToken) cToken caller (amount * m.exchangeRate / fullScale)
    return (w, 0)
  redeemUnderlying w caller cToken amount := do
    let w ← w.burn cToken caller (amount * fullScale / m.exchangeRate)
    let w ← w.pay (m.underlying cToken) cToken caller amount
    return (w, 0)
  coins _ _ index := coinAt m index
  poolBalances w pool index := (coinAt m index).map fun coin => w.balances coin pool
  getVirtualPrice _ _ := .ok fullScale
  addPoolLiquidity _ _ _ _ _ := closed
  calcWithdrawOneCoin _ _ _ _ := closed
  removeLiquidityOneCoin _ _ _ _ _ _ := closed
  removePoolLiquidity w caller pool amount minAmounts := do
    let share := poolShare m w pool amount
    require (∀ e ∈ m.poolCoins.zip minAmounts, e.2 ≤ share e.1) ""
    let w ← w.burn m.poolToken caller amount
    return w.payOut pool caller share
  gaugeDeposit w caller gauge amount _ := w.lock m.poolToken caller gauge amount
  gaugeWithdraw w caller gauge amount := w.unlock m.poolToken caller gauge amount
  mintReward w caller minter _ := payRewards m w minter caller

/-- Plain platforms with dollar coins of 18 decimals, which nobody holds any of yet. -/
def empty : PlainPlatform where
  toPlainWorld := PlainWorld.empty [] []
  supply := fun _ => 0
  pending := fun _ => 0
  paid := fun _ _ => 0

/-! ## What the operations do to the balances -/

variable {m : PlainMarket} {w w' : PlainPlatform} {token platform holder recipient : Address}
  {amount : ℕ}

theorem lift_eq_ok {x : Except Revert PlainWorld} :
    w.lift x = .ok w' ↔ ∃ world, x = .ok world ∧ w' = { w with toPlainWorld := world } := by
  cases x with
  | error e => simp [lift, Except.map]
  | ok world => simp [lift, Except.map, eq_comm]

theorem pay_eq_ok : w.pay token platform recipient amount = .ok w' ↔
    amount ≤ w.balances token platform ∧ w' = w.payOut platform recipient (only token amount) := by
  by_cases h : amount ≤ w.balances token platform
  · simp [pay, h, eq_comm]
  · simp [pay, h]

theorem burn_eq_ok : w.burn token holder amount = .ok w' ↔ amount ≤ w.balances token holder ∧
    w' = { w with
      toPlainWorld := w.take token holder amount
      supply := Function.update w.supply token (w.supply token - amount) } := by
  by_cases h : amount ≤ w.balances token holder
  · simp [burn, h, eq_comm]
  · simp [burn, h]

theorem only_self : only token amount token = amount := if_pos rfl

theorem only_of_ne {other : Address} (h : other ≠ token) : only token amount other = 0 := if_neg h

theorem payOut_balances_of_ne {amounts : Address → ℕ} (hplatform : holder ≠ platform)
    (hrecipient : holder ≠ recipient) :
    (w.payOut platform recipient amounts).balances token holder = w.balances token holder := by
  simp [payOut, hplatform, hrecipient]

theorem payOut_balances_self {amounts : Address → ℕ} :
    (w.payOut platform recipient amounts).balances token recipient =
      w.balances token recipient + amounts token := by
  simp [payOut]

theorem payOut_paid_self {amounts : Address → ℕ} :
    (w.payOut platform recipient amounts).paid recipient token =
      w.paid recipient token + amounts token := by
  simp [payOut]

/-- Of a token of which nothing is paid, everybody has what they had. -/
theorem payOut_balances_of_eq_zero {amounts : Address → ℕ} (h : amounts token = 0) :
    (w.payOut platform recipient amounts).balances token = w.balances token := by
  simp [payOut, h]

theorem take_balances_self {world : PlainWorld} :
    (world.take token holder amount).balances token holder =
      world.balances token holder - amount := by
  simp [PlainWorld.take]

theorem take_balances_of_token_ne {world : PlainWorld} {other : Address} (h : other ≠ token) :
    (world.take token holder amount).balances other = world.balances other := by
  simp [PlainWorld.take, h]

theorem create_balances_of_token_ne {other : Address} (h : other ≠ token) :
    (w.create token holder amount).balances other = w.balances other := by
  simp [create, PlainWorld.give, h]

theorem take_balances_of_ne {world : PlainWorld} {account : Address} (h : holder ≠ account)
    (other : Address) : (world.take token account amount).balances other holder =
      world.balances other holder := by
  by_cases heq : other = token
  · simp [PlainWorld.take, heq, h]
  · simp [PlainWorld.take, heq]

/-- Tokens that are unlocked are not paid, and the other tokens stay as they are. -/
theorem unlock_eq_ok {contract : Address} (h : w.unlock token holder contract amount = .ok w') :
    (∀ other, other ≠ token → other ≠ contract → w'.balances other = w.balances other) ∧
      (∀ other, other ≠ contract → w'.supply other = w.supply other) ∧
        w'.paid = w.paid ∧ w'.pending = w.pending := by
  obtain ⟨w₁, hburn, h⟩ := bind_eq_ok.mp h
  obtain ⟨-, rfl⟩ := burn_eq_ok.mp hburn
  obtain ⟨world, hmove, rfl⟩ := lift_eq_ok.mp h
  obtain ⟨-, rfl⟩ := PlainWorld.move_eq_ok.mp hmove
  refine ⟨fun other hne hne' => ?_, fun other hne => Function.update_of_ne hne .., rfl, rfl⟩
  simp [PlainWorld.give, PlainWorld.take, hne, hne']

/-- All rewards of a holder are paid to it, in the reward token. -/
theorem payRewards_eq_ok (h : payRewards m w platform holder = .ok w') :
    w'.balances m.rewardToken holder = w.balances m.rewardToken holder + w.pending holder ∧
      (∀ other, other ≠ platform → other ≠ holder →
        w'.balances m.rewardToken other = w.balances m.rewardToken other) ∧
      (∀ token, token ≠ m.rewardToken → w'.balances token = w.balances token ∧
        w'.paid holder token = w.paid holder token) ∧
      w'.paid holder m.rewardToken = w.paid holder m.rewardToken + w.pending holder := by
  obtain ⟨w₁, hpay, h⟩ := bind_eq_ok.mp h
  obtain ⟨-, rfl⟩ := pay_eq_ok.mp hpay
  cases pure_eq_ok.mp h
  refine ⟨?_, fun other hplatform hholder => ?_, fun token hne => ⟨?_, ?_⟩, ?_⟩
  · rw [payOut_balances_self, only_self]
  · exact payOut_balances_of_ne hplatform hholder
  · exact payOut_balances_of_eq_zero (only_of_ne hne)
  · rw [payOut_paid_self, only_of_ne hne, add_zero]
  · rw [payOut_paid_self, only_self]

/-- Liquidity is taken out of the pool: its share of each token is paid to the caller. -/
theorem removePoolLiquidity_eq_ok {caller pool : Address} {minAmounts : List ℕ}
    (h : (calls m).removePoolLiquidity w caller pool amount minAmounts = .ok w') :
    (∀ token, token ≠ m.poolToken →
      w'.balances token caller = w.balances token caller + poolShare m w pool amount token ∧
        ∀ holder, holder ≠ pool → holder ≠ caller →
          w'.balances token holder = w.balances token holder) ∧
      (∀ token, w'.paid caller token = w.paid caller token + poolShare m w pool amount token) ∧
        w'.pending = w.pending := by
  obtain ⟨_, -, h⟩ := bind_eq_ok.mp h
  obtain ⟨w₁, hburn, h⟩ := bind_eq_ok.mp h
  obtain ⟨-, rfl⟩ := burn_eq_ok.mp hburn
  cases pure_eq_ok.mp h
  refine ⟨fun token hne => ?_, fun token => payOut_paid_self, rfl⟩
  have hburnt : (w.take m.poolToken caller amount).balances token = w.balances token :=
    take_balances_of_token_ne hne
  refine ⟨?_, fun holder hpool hcaller => ?_⟩
  · rw [payOut_balances_self, hburnt]
  · rw [payOut_balances_of_ne hpool hcaller, hburnt]

/-- A redeemed cToken is burnt and paid for: others have what they had. -/
theorem redeemUnderlying_balances_of_ne {caller cToken : Address} {code : ℕ}
    (h : (calls m).redeemUnderlying w caller cToken amount = .ok (w', code))
    (hcaller : holder ≠ caller) (hcToken : holder ≠ cToken) (token : Address) :
    w'.balances token holder = w.balances token holder := by
  obtain ⟨w₁, hburn, h⟩ := bind_eq_ok.mp h
  obtain ⟨w₂, hpay, h⟩ := bind_eq_ok.mp h
  cases pure_eq_ok.mp h
  obtain ⟨-, rfl⟩ := pay_eq_ok.mp hpay
  obtain ⟨-, rfl⟩ := burn_eq_ok.mp hburn
  rw [payOut_balances_of_ne hcToken hcaller]
  exact take_balances_of_ne hcaller token

/-- Three coins, their platform tokens, and a pool of the three. -/
def market : PlainMarket where
  underlying pToken := if pToken = 31 then 4 else if pToken = 32 then 5 else 6
  aToken asset := if asset = 4 then 31 else if asset = 5 then 32 else 33
  exchangeRate := 2 * 10 ^ 26
  poolToken := 41
  poolCoins := [4, 5, 6]
  rewardToken := 44
  router := 50
  oracle := 7
  lendingPool := 51
  lpPair := 52

end PlainPlatform

end InterestDollar
