import InterestDollar.Strategy.Reporting

/-!
# The Aave strategy's own operations

What the strategy calls is assumed to behave as documented: aTokens are redeemed one to one, the
staking contract returns the LP tokens, and the exchange pays the share in the pool, rounded
down.

Then the operations of the strategy leave no LP tokens lying about: a deposit stakes those that
it gets for liquidity, and a withdrawal that unstakes takes all liquidity out. So in a run of own
operations nothing that the strategy has is left out of what it reports.
-/

namespace InterestDollar

open Checked FixedPoint Transition

/-! ## What is assumed of the calls -/

section

variable {ω : Type} (P : Platform ω)

/-- A call leaves a token alone: what everybody has of it, and how much there is. -/
structure Platform.Keeps (token : Address) (w w' : ω) : Prop where
  balanceOf : P.balanceOf w' token = P.balanceOf w token
  totalSupply : P.totalSupply w' token = P.totalSupply w token

/-- An amount of an aToken was redeemed for as much of the asset. -/
structure Redeemed (caller aToken asset account : Address) (amount : ℕ) (w w' : ω) : Prop where
  burnt : P.balanceOf w' aToken caller = .ok (P.held w aToken caller - amount)
  holders : ∀ holder, holder ≠ caller → P.balanceOf w' aToken holder = P.balanceOf w aToken holder
  received : P.held w' asset caller = P.held w asset caller + amount
  account : account ≠ caller → P.held w' asset account = P.held w asset account
  others : ∀ token, token ≠ aToken → token ≠ asset → P.Keeps token w w'

/-- The aTokens of an asset can be redeemed one to one. The account is none that the lending
market pays from. -/
def RedeemsAtPar (caller aToken asset account : Address) : Prop :=
  ∀ w amount, 0 < amount → amount ≤ P.held w aToken caller →
    Returns (P.redeemAToken w caller aToken amount)
      (Redeemed P caller aToken asset account amount w)

/-- An amount of a token was sent to an account. -/
structure Sent (caller asset account : Address) (amount : ℕ) (w w' : ω) : Prop where
  received : P.held w' asset account =
    P.held w asset account + if account = caller then 0 else amount
  others : ∀ token, token ≠ asset → P.Keeps token w w'

/-- The token is a standard one: its holders can send what they have. -/
def Sends (caller asset account : Address) : Prop :=
  ∀ w amount, 0 < amount → amount ≤ P.held w asset caller →
    Returns (P.safeTransfer w caller asset account amount)
      (Sent P caller asset account amount w)

/-- An amount of LP tokens came back from the staking contract. -/
structure Unstaked (caller staking pool : Address) (amount : ℕ) (w w' : ω) : Prop where
  staked : P.balanceOf w' staking caller = .ok (P.held w staking caller - amount)
  returned : P.balanceOf w' pool caller = .ok (P.held w pool caller + amount)
  supply : P.totalSupply w' pool = P.totalSupply w pool
  others : ∀ token, token ≠ staking → token ≠ pool → P.Keeps token w w'
  time : P.now w' = P.now w

/-- The staking contract takes LP tokens in, and returns them. -/
structure KeepsStake (caller staking pool : Address) : Prop where
  takes {w w' : ω} {amount : ℕ} : P.stake w caller staking amount = .ok w' →
    P.held w' pool caller + amount = P.held w pool caller
  returns (w : ω) {amount : ℕ} : 0 < amount → amount ≤ P.held w staking caller →
    Returns (P.unstake w caller staking amount) (Unstaked P caller staking pool amount w)

/-- An amount of LP tokens was given for its share in the pool. -/
structure LiquidityRemoved (caller pool aToken1 aToken2 : Address) (liquidity : ℕ) (w w' : ω) :
    Prop where
  burnt : P.balanceOf w' pool caller = .ok (P.held w pool caller - liquidity)
  first : P.balanceOf w' aToken1 caller = .ok (P.held w aToken1 caller +
    shares (P.issued w pool) (P.held w aToken1 pool) liquidity)
  second : P.balanceOf w' aToken2 caller = .ok (P.held w aToken2 caller +
    shares (P.issued w pool) (P.held w aToken2 pool) liquidity)
  others : ∀ token, token ≠ pool → token ≠ aToken1 → token ≠ aToken2 → P.Keeps token w w'

/-- The exchange pays the share of LP tokens in the pool of two aTokens. -/
def PaysShares (caller router pool aToken1 aToken2 : Address) : Prop :=
  ∀ w liquidity deadline, 0 < liquidity → liquidity ≤ P.held w pool caller → P.now w ≤ deadline →
    Returns (P.removeLiquidity w caller router aToken1 aToken2 liquidity 0 0 caller deadline)
      (LiquidityRemoved P caller pool aToken1 aToken2 liquidity w)

/-- The other calls bring the strategy no LP tokens. -/
structure BringsNone (caller pool : Address) : Prop where
  lend {w w' : ω} {lendingPool asset : Address} {amount referralCode : ℕ} :
    P.lendingPoolDeposit w caller lendingPool asset amount referralCode = .ok w' →
      P.held w' pool caller ≤ P.held w pool caller
  redeem {w w' : ω} {aToken : Address} {amount : ℕ} :
    P.redeemAToken w caller aToken amount = .ok w' → P.held w' pool caller ≤ P.held w pool caller
  transfer {w w' : ω} {token recipient : Address} {amount : ℕ} :
    P.safeTransfer w caller token recipient amount = .ok w' →
      P.held w' pool caller ≤ P.held w pool caller
  approve {w w' : ω} {token spender : Address} {amount : ℕ} :
    P.safeApprove w caller token spender amount = .ok w' →
      P.held w' pool caller ≤ P.held w pool caller
  reward {w w' : ω} {staking : Address} :
    P.getReward w caller staking = .ok w' → P.held w' pool caller ≤ P.held w pool caller
  swap {w w' : ω} {router token1 token2 token3 : Address} {amount deadline : ℕ} :
    token3 ≠ pool → P.swapExactTokensForTokens w caller router amount 0 [token1, token2, token3]
      caller deadline = .ok w' → P.held w' pool caller ≤ P.held w pool caller

end

namespace AaveStrategy

section

variable {ω : Type} (P : Platform ω) (s : AaveStrategy) (w : ω)

/-- What the strategy calls, for a pair of assets and an account that is paid, is as assumed,
and different contracts stand at the different addresses. -/
structure Conventional (asset assetPair account : Address) : Prop where
  bringsNone : BringsNone P s.self s.rewardPoolAddress
  stake : KeepsStake P s.self s.ubeStakingAddress s.rewardPoolAddress
  shares : PaysShares P s.self s.uniswapAddr s.rewardPoolAddress (s.assetToPToken asset)
    (s.assetToPToken assetPair)
  pairShares : PaysShares P s.self s.uniswapAddr s.rewardPoolAddress (s.assetToPToken assetPair)
    (s.assetToPToken asset)
  redeem : RedeemsAtPar P s.self (s.assetToPToken asset) asset account
  send : Sends P s.self asset account
  distinct : [s.self, asset, s.assetToPToken asset, s.assetToPToken assetPair,
    s.rewardPoolAddress, s.ubeStakingAddress].Nodup

/-- Two assets are the pair of each other, and the only ones with a pair; with what an
initialization checks besides. -/
structure PairOf (asset assetPair : Address) : Prop where
  uniswap : s.uniswapAddr ≠ 0
  staking : s.ubeStakingAddress ≠ 0
  mapped : s.assetToPToken asset ≠ 0
  pairMapped : s.assetToPToken assetPair ≠ 0
  pair : s.rewardLiquidityPair asset = assetPair
  pairBack : s.rewardLiquidityPair assetPair = asset
  pairs : ∀ other, s.rewardLiquidityPair other ≠ 0 →
    other = asset ∧ s.rewardLiquidityPair other = assetPair ∨
      other = assetPair ∧ s.rewardLiquidityPair other = asset

end

variable {ω : Type} {P : Platform ω} {s t : AaveStrategy} {w : ω}
  {asset assetPair account : Address}

/-! ## No LP tokens but those that are staked -/

/-- A call that brings no LP tokens leaves none where there were none. -/
theorem ensures_callAt {target : Address} {x : Except Revert ω} (hnone : s.looseLP P w = 0)
    (h : ∀ {w'}, x = .ok w' → P.held w' s.rewardPoolAddress s.self ≤
      P.held w s.rewardPoolAddress s.self) :
    Ensures (callAt target x) fun w' => s.looseLP P w' = 0 :=
  fun _ hx => Nat.eq_zero_of_le_zero ((h (callAt_eq_ok.mp hx).2).trans hnone.le)

theorem ensures_safeApproveMax (hbrings : BringsNone P s.self s.rewardPoolAddress)
    (hnone : s.looseLP P w = 0) (token spender : Address) :
    Ensures (s.safeApproveMax P w token spender) fun w' => s.looseLP P w' = 0 :=
  ensures_bind (ensures_callAt hnone hbrings.approve) fun _ h => ensures_callAt h hbrings.approve

theorem ensures_sendAllToVault (hbrings : BringsNone P s.self s.rewardPoolAddress)
    (hnone : s.looseLP P w = 0) (token : Address) :
    Ensures (s.sendAllToVault P w token) fun w' => s.looseLP P w' = 0 :=
  ensures_of_bind fun _ _ => ensures_callAt hnone hbrings.transfer

/-- All LP tokens are staked. -/
theorem ensures_stakeLPTokens
    (hstake : KeepsStake P s.self s.ubeStakingAddress s.rewardPoolAddress) (w : ω) :
    Ensures (s.stakeLPTokens P w) fun w' => s.looseLP P w' = 0 := by
  refine ensures_of_bind fun lpAmount hlp => ?_
  obtain ⟨-, -, rfl⟩ := ownBalance_iff.mp hlp
  refine ensures_ite (fun _ => ?_) fun hzero => ensures_pure (not_not.mp hzero)
  intro w' h
  have htaken := hstake.takes (callAt_eq_ok.mp h).2
  exact Nat.add_eq_right.mp htaken

/-- Liquidity is taken out for all LP tokens. -/
theorem PairOf.ensures_removeLiquidity (hpair : s.PairOf asset assetPair) (hzero : s.Mapped)
    (hconv : s.Conventional P asset assetPair account) (w : ω) (other : Address) :
    Ensures (s.removeLiquidity P w other) fun w' => s.looseLP P w' = 0 := by
  refine ensures_of_bind fun _ _ => ?_
  refine ensures_of_bind fun aToken1 h1 => ensures_of_bind fun aToken2 h2 => ?_
  obtain ⟨hmapped, rfl⟩ := getATokenFor_eq_ok.mp h1
  obtain ⟨hpairMapped, rfl⟩ := getATokenFor_eq_ok.mp h2
  refine ensures_of_bind fun liquidity hliquidity => ?_
  obtain ⟨-, -, rfl⟩ := ownBalance_iff.mp hliquidity
  refine ensures_ite (fun hsome => ?_) fun hzero => ensures_pure (not_not.mp hzero)
  have hpos : 0 < P.held w s.rewardPoolAddress s.self := Nat.pos_of_ne_zero hsome
  refine ensures_of_bind fun deadline hdeadline => ?_
  obtain ⟨-, rfl⟩ := SafeMath.add_eq_ok.mp (own_eq_ok.mp hdeadline)
  have hdue : P.now w ≤ P.now w + 1800 := Nat.le_add_right _ _
  intro w' h
  have hremoved := (callAt_eq_ok.mp h).2
  have hburnt : P.balanceOf w' s.rewardPoolAddress s.self =
      .ok (P.held w s.rewardPoolAddress s.self - P.held w s.rewardPoolAddress s.self) := by
    have hsome : s.rewardLiquidityPair other ≠ 0 := by
      intro heq
      rw [heq] at hpairMapped
      exact hpairMapped hzero.zero
    rcases hpair.pairs other hsome with ⟨rfl, heq⟩ | ⟨rfl, heq⟩
    · rw [heq] at hremoved
      exact ((hconv.shares w _ _ hpos le_rfl hdue).of_eq_ok hremoved).burnt
    · rw [heq] at hremoved
      exact ((hconv.pairShares w _ _ hpos le_rfl hdue).of_eq_ok hremoved).burnt
  exact (amountOf_eq hburnt).trans (Nat.sub_self _)

theorem ensures_depositAsset (hconv : s.Conventional P asset assetPair account)
    (hnone : s.looseLP P w = 0) (other : Address) (amount : ℕ) :
    Ensures (s.depositAsset P w other amount) fun w' => s.looseLP P w' = 0 := by
  refine ensures_of_bind fun _ _ => ensures_of_bind fun _ _ => ensures_of_bind fun _ _ => ?_
  refine ensures_bind (ensures_callAt hnone hconv.bringsNone.lend) fun w hnone => ?_
  refine ensures_ite (fun _ => ?_) fun _ => ensures_pure hnone
  exact ensures_of_bind fun w _ => ensures_stakeLPTokens hconv.stake w

theorem PairOf.ensures_withdraw (hpair : s.PairOf asset assetPair) (hmapped : s.Mapped)
    (hconv : s.Conventional P asset assetPair account) (hnone : s.looseLP P w = 0)
    (sender recipient other : Address) (amount : ℕ) :
    Ensures (s.withdraw P w sender recipient other amount) fun w' => s.looseLP P w' = 0 := by
  refine ensures_of_bind fun _ _ => ensures_of_bind fun _ _ => ensures_of_bind fun _ _ => ?_
  refine ensures_of_bind fun _ _ => ?_
  refine ensures_bind (P := fun w' => s.looseLP P w' = 0) ?_ fun w hnone => ?_
  · refine ensures_ite (fun _ => ?_) fun _ => ensures_pure hnone
    refine ensures_of_bind fun _ _ => ensures_ite (fun _ => ?_) fun _ => ensures_pure hnone
    exact ensures_of_bind fun w _ => hpair.ensures_removeLiquidity hmapped hconv w other
  · refine ensures_bind (ensures_callAt hnone hconv.bringsNone.redeem) fun w hnone => ?_
    exact ensures_callAt hnone hconv.bringsNone.transfer

theorem PairOf.ensures_withdrawAsset (hpair : s.PairOf asset assetPair) (hmapped : s.Mapped)
    (hconv : s.Conventional P asset assetPair account) (hnone : s.looseLP P w = 0)
    (other : Address) :
    Ensures (s.withdrawAsset P w other) fun w' => s.looseLP P w' = 0 := by
  refine ensures_bind (P := fun w' => s.looseLP P w' = 0) ?_ fun w hnone => ?_
  · refine ensures_ite (fun _ => ?_) fun _ => ensures_pure hnone
    exact ensures_of_bind fun w _ => hpair.ensures_removeLiquidity hmapped hconv w other
  · refine ensures_of_bind fun _ _ => ensures_of_bind fun _ _ => ?_
    refine ensures_ite (fun _ => ?_) fun _ => ensures_pure hnone
    refine ensures_bind (ensures_callAt hnone hconv.bringsNone.redeem) fun w hnone => ?_
    exact ensures_sendAllToVault hconv.bringsNone hnone other

theorem ensures_collectRewardToken (hbrings : BringsNone P s.self s.rewardPoolAddress)
    (hnone : s.looseLP P w = 0) (hreward : s.rewardTokenAddress ≠ s.rewardPoolAddress)
    (sender : Address) :
    Ensures (s.collectRewardToken P w sender) fun w' => s.looseLP P w' = 0 := by
  refine ensures_of_bind fun _ _ => ?_
  refine ensures_bind (ensures_callAt hnone hbrings.reward) fun w hnone => ?_
  refine ensures_bind (P := fun w' => s.looseLP P w' = 0) ?_ fun w hnone =>
    ensures_sendAllToVault hbrings hnone _
  refine ensures_ite (fun _ => ?_) fun _ => ensures_pure hnone
  refine ensures_of_bind fun _ _ => ensures_ite (fun _ => ?_) fun _ => ensures_pure hnone
  refine ensures_bind (ensures_safeApproveMax hbrings hnone _ _) fun w hnone => ?_
  refine ensures_of_bind fun _ _ => ensures_of_bind fun _ _ => ensures_of_bind fun _ _ => ?_
  exact ensures_callAt hnone (hbrings.swap hreward)

/-- The functions that leave the storage alone leave no LP tokens but those that are staked. LP
tokens are not among the rewards. -/
theorem PairOf.ensures_operate (hpair : s.PairOf asset assetPair) (hmapped : s.Mapped)
    (hconv : s.Conventional P asset assetPair account) (hnone : s.looseLP P w = 0)
    (sender : Address) (operation : AbstractStrategy.Operation)
    (hreward : operation = .collectRewardToken → s.rewardTokenAddress ≠ s.rewardPoolAddress) :
    Ensures (s.operate P w sender operation) fun w' => s.looseLP P w' = 0 := by
  cases operation with
  | transferToken token amount =>
      exact ensures_of_bind fun _ _ => ensures_callAt hnone hconv.bringsNone.transfer
  | safeApproveAllTokens =>
      refine ensures_of_bind fun _ _ => ensures_of_bind fun _ _ => ?_
      exact ensures_foldlM
        (fun w token hnone => ensures_safeApproveMax hconv.bringsNone hnone token _) hnone _
  | deposit other amount =>
      exact ensures_of_bind fun _ _ => ensures_depositAsset hconv hnone other amount
  | depositAll =>
      refine ensures_of_bind fun _ _ => ensures_foldlM
        (I := fun w => s.looseLP P w = 0) (fun w other hnone => ?_) hnone _
      refine ensures_of_bind fun balance _ => ensures_ite (fun _ => ?_) fun _ => ensures_pure hnone
      exact ensures_depositAsset hconv hnone other balance
  | withdraw recipient other amount =>
      exact hpair.ensures_withdraw hmapped hconv hnone sender recipient other amount
  | withdrawAll =>
      refine ensures_of_bind fun _ _ => ensures_foldlM
        (I := fun w => s.looseLP P w = 0) (fun w other hnone => ?_) hnone _
      exact hpair.ensures_withdrawAsset hmapped hconv hnone other
  | collectRewardToken =>
      exact ensures_collectRewardToken hconv.bringsNone hnone (hreward rfl) sender

/-! ## Runs -/

/-- A strategy at the addresses of another one, with its pairs and their platform tokens. -/
structure StandsAs (t s : AaveStrategy) : Prop where
  mapped : s.Mapped
  self : s.self = t.self
  uniswap : s.uniswapAddr = t.uniswapAddr
  staking : s.ubeStakingAddress = t.ubeStakingAddress
  rewardPool : s.rewardPoolAddress = t.rewardPoolAddress
  pairs : s.rewardLiquidityPair = t.rewardLiquidityPair
  aTokens : ∀ asset, t.rewardLiquidityPair asset ≠ 0 →
    s.assetToPToken asset = t.assetToPToken asset

theorem StandsAs.aTokens_pair (h : StandsAs t s) (hzero : t.Mapped)
    (hpair : t.PairOf asset assetPair) :
    s.assetToPToken asset = t.assetToPToken asset ∧
      s.assetToPToken assetPair = t.assetToPToken assetPair := by
  have hasset : asset ≠ 0 := by
    rintro rfl
    exact hpair.mapped hzero.zero
  have hassetPair : assetPair ≠ 0 := by
    rintro rfl
    exact hpair.pairMapped hzero.zero
  constructor
  · apply h.aTokens
    rwa [hpair.pair]
  · apply h.aTokens
    rwa [hpair.pairBack]

theorem StandsAs.pairOf (h : StandsAs t s) (hzero : t.Mapped) (hpair : t.PairOf asset assetPair) :
    s.PairOf asset assetPair := by
  obtain ⟨hfirst, hsecond⟩ := h.aTokens_pair hzero hpair
  constructor
  · exact h.uniswap ▸ hpair.uniswap
  · exact h.staking ▸ hpair.staking
  · exact hfirst ▸ hpair.mapped
  · exact hsecond ▸ hpair.pairMapped
  · exact h.pairs ▸ hpair.pair
  · exact h.pairs ▸ hpair.pairBack
  · exact h.pairs ▸ hpair.pairs

theorem StandsAs.conventional (h : StandsAs t s) (hzero : t.Mapped)
    (hpair : t.PairOf asset assetPair) (hconv : t.Conventional P asset assetPair account) :
    s.Conventional P asset assetPair account := by
  obtain ⟨hfirst, hsecond⟩ := h.aTokens_pair hzero hpair
  constructor
  · rw [h.self, h.rewardPool]
    exact hconv.bringsNone
  · rw [h.self, h.staking, h.rewardPool]
    exact hconv.stake
  · rw [h.self, h.uniswap, h.rewardPool, hfirst, hsecond]
    exact hconv.shares
  · rw [h.self, h.uniswap, h.rewardPool, hfirst, hsecond]
    exact hconv.pairShares
  · rw [h.self, hfirst]
    exact hconv.redeem
  · rw [h.self]
    exact hconv.send
  · rw [h.self, hfirst, hsecond, h.rewardPool, h.staking]
    exact hconv.distinct

/-- The steps that keep the pair mapped and do not set other addresses for the exchange, the
staking contract and the pool, and that send in no LP tokens, also not as rewards. -/
def OwnOperation (P : Platform ω) (s : AaveStrategy × ω) : Action ω → Prop
  | .removePToken assetIndex => ∀ asset ∈ s.1.assetsMapped[assetIndex]?,
      s.1.rewardLiquidityPair asset = 0
  | .setUniswapAddress _ => False
  | .setStakingAddress _ => False
  | .setRewardPoolAddress _ _ => False
  | .operate operation => operation = .collectRewardToken →
      s.1.rewardTokenAddress ≠ s.1.rewardPoolAddress
  | .environment w => s.1.looseLP P w ≤ s.1.looseLP P s.2
  | _ => True

/-- Own operations leave the addresses and the pairs as they are. -/
theorem StandsAs.next {s s' : AaveStrategy × ω} {step : Address × Action ω}
    (h : StandsAs t s.1)
    (hmapped : ∀ other, t.rewardLiquidityPair other ≠ 0 → t.assetToPToken other ≠ 0)
    (hown : OwnOperation P s step.2) (hexec : exec P s step = .ok s') : StandsAs t s'.1 := by
  obtain ⟨sender, action⟩ := step
  cases action with
  | setPTokenAddress token pToken =>
      obtain ⟨hnew, ⟨htoken, hpToken⟩, hstored, -⟩ := exec_setPTokenAddress_eq_ok hexec
      rw [hstored]
      exact { h with
        mapped := h.mapped.addPToken hnew htoken hpToken
        aTokens := fun other hother => by
          have hne : other ≠ token := by
            rintro rfl
            exact hmapped other hother ((h.aTokens other hother).symm.trans hnew)
          exact (Function.update_of_ne hne ..).trans (h.aTokens other hother) }
  | removePToken assetIndex =>
      obtain ⟨token, htoken, rfl⟩ := exec_removePToken_eq_ok h.mapped hexec
      exact { h with
        mapped := h.mapped.dropPToken (List.mem_of_getElem? htoken)
        aTokens := fun other hother => by
          have hne : other ≠ token := by
            rintro rfl
            exact hother (h.pairs ▸ hown other htoken)
          exact (Function.update_of_ne hne ..).trans (h.aTokens other hother) }
  | configure setting =>
      obtain ⟨base, hsame, rfl⟩ := exec_configure_eq_ok hexec
      exact { h with
        mapped := h.mapped.of_same hsame
        self := hsame.self.trans h.self
        aTokens := fun other hother =>
          (congrFun hsame.assetToPToken other).trans (h.aTokens other hother) }
  | setUniswapAddress router => exact hown.elim
  | setSecondaryRewardTokenAddress token =>
      cases exec_setSecondaryRewardTokenAddress_eq_ok hexec
      exact { h with }
  | setStakingAddress staking => exact hown.elim
  | setRewardPoolAddress token1 token2 => exact hown.elim
  | operate operation =>
      obtain ⟨w, -, rfl⟩ := exec_operate_eq_ok hexec
      exact h
  | environment w =>
      cases hexec
      exact h

/-- Own operations leave no LP tokens but those that are staked. -/
theorem looseLP_next {s s' : AaveStrategy × ω} {step : Address × Action ω}
    (hnone : s.1.looseLP P s.2 = 0) (hmapped : s.1.Mapped)
    (hpair : s.1.PairOf asset assetPair) (hconv : s.1.Conventional P asset assetPair account)
    (hown : OwnOperation P s step.2) (hexec : exec P s step = .ok s') :
    s'.1.looseLP P s'.2 = 0 := by
  obtain ⟨sender, action⟩ := step
  cases action with
  | setPTokenAddress token pToken =>
      obtain ⟨-, -, hstored, hran⟩ := exec_setPTokenAddress_eq_ok hexec
      obtain ⟨_, -, happrove⟩ := bind_eq_ok.mp hran
      rw [hstored]
      exact ensures_safeApproveMax
        (s := { s.1 with toAbstractStrategy := s.1.addPToken token pToken })
        hconv.bringsNone hnone token _ s'.2 happrove
  | removePToken assetIndex =>
      obtain ⟨token, -, rfl⟩ := exec_removePToken_eq_ok hmapped hexec
      exact hnone
  | configure setting =>
      obtain ⟨base, hsame, rfl⟩ := exec_configure_eq_ok hexec
      rw [looseLP, hsame.self]
      exact hnone
  | setUniswapAddress router => exact hown.elim
  | setSecondaryRewardTokenAddress token =>
      cases exec_setSecondaryRewardTokenAddress_eq_ok hexec
      exact hnone
  | setStakingAddress staking => exact hown.elim
  | setRewardPoolAddress token1 token2 => exact hown.elim
  | operate operation =>
      obtain ⟨w, hoperate, rfl⟩ := exec_operate_eq_ok hexec
      exact hpair.ensures_operate hmapped hconv hnone sender operation hown w hoperate
  | environment w =>
      cases hexec
      have hless : s.1.looseLP P w ≤ s.1.looseLP P s.2 := hown
      exact Nat.eq_zero_of_le_zero (hless.trans hnone.le)

section

variable {init s : AaveStrategy × ω} {trace : List ((AaveStrategy × ω) × (Address × Action ω))}

theorem StandsAs.of_run (hzero : init.1.Mapped)
    (hmapped : ∀ other, init.1.rewardLiquidityPair other ≠ 0 → init.1.assetToPToken other ≠ 0)
    (hrun : Run (fun s step s' => exec P s step = .ok s') init trace s)
    (hown : ∀ e ∈ trace, OwnOperation P e.1 e.2.2) : StandsAs init.1 s.1 :=
  hrun.invariant_of_forall (fun s step => OwnOperation P s step.2) (fun s => StandsAs init.1 s.1)
    ⟨hzero, rfl, rfl, rfl, rfl, rfl, fun _ _ => rfl⟩
    (fun _ _ _ h hown hexec => h.next hmapped hown hexec) hown

/-- In a run of own operations from a state without LP tokens that are not staked, there are none
at any time. -/
theorem looseLP_of_run (hzero : init.1.Mapped) (hpair : init.1.PairOf asset assetPair)
    (hconv : init.1.Conventional P asset assetPair account) (hnone : init.1.looseLP P init.2 = 0)
    (hrun : Run (fun s step s' => exec P s step = .ok s') init trace s)
    (hown : ∀ e ∈ trace, OwnOperation P e.1 e.2.2) : s.1.looseLP P s.2 = 0 := by
  have hmapped : ∀ other, init.1.rewardLiquidityPair other ≠ 0 →
      init.1.assetToPToken other ≠ 0 := by
    intro other hother
    rcases hpair.pairs other hother with ⟨rfl, -⟩ | ⟨rfl, -⟩
    · exact hpair.mapped
    · exact hpair.pairMapped
  have hboth : StandsAs init.1 s.1 ∧ s.1.looseLP P s.2 = 0 := by
    refine hrun.invariant_of_forall (fun s step => OwnOperation P s step.2)
      (fun s => StandsAs init.1 s.1 ∧ s.1.looseLP P s.2 = 0)
      ⟨⟨hzero, rfl, rfl, rfl, rfl, rfl, fun _ _ => rfl⟩, hnone⟩ ?_ hown
    rintro s step s' ⟨hstands, hloose⟩ hown hexec
    refine ⟨hstands.next hmapped hown hexec, ?_⟩
    exact looseLP_next hloose hstands.mapped (hstands.pairOf hzero hpair)
      (hstands.conventional hzero hpair hconv) hown hexec
  exact hboth.2

end

theorem setPair_first (s : AaveStrategy) (token1 token2 : Address) :
    (s.setPair token1 token2).rewardLiquidityPair token1 = token2 := by
  simp only [setPair]
  by_cases heq : token1 = token2
  · rw [heq, Function.update_self]
  · rw [Function.update_of_ne heq, Function.update_self]

theorem setPair_second (s : AaveStrategy) (token1 token2 : Address) :
    (s.setPair token1 token2).rewardLiquidityPair token2 = token1 :=
  Function.update_self ..

theorem setPair_other (s : AaveStrategy) {token1 token2 : Address} (h1 : asset ≠ token1)
    (h2 : asset ≠ token2) :
    (s.setPair token1 token2).rewardLiquidityPair asset = s.rewardLiquidityPair asset :=
  (Function.update_of_ne h2 ..).trans (Function.update_of_ne h1 ..)

/-- Where there was no pair, two assets that are made the pair of each other are the only one. -/
theorem pairOf_setPair {token1 token2 : Address} (hnone : ∀ other, s.rewardLiquidityPair other = 0)
    (huniswap : s.uniswapAddr ≠ 0) (hstaking : s.ubeStakingAddress ≠ 0)
    (h1 : s.assetToPToken token1 ≠ 0) (h2 : s.assetToPToken token2 ≠ 0)
    (hasset : (s.setPair token1 token2).rewardLiquidityPair asset ≠ 0) :
    (s.setPair token1 token2).PairOf asset
      ((s.setPair token1 token2).rewardLiquidityPair asset) := by
  have hfirst := setPair_first s token1 token2
  have hsecond := setPair_second s token1 token2
  have hpairs : ∀ other, (s.setPair token1 token2).rewardLiquidityPair other ≠ 0 →
      other = token1 ∧ (s.setPair token1 token2).rewardLiquidityPair other = token2 ∨
        other = token2 ∧ (s.setPair token1 token2).rewardLiquidityPair other = token1 := by
    intro other hother
    by_cases heq1 : other = token1
    · exact .inl ⟨heq1, heq1 ▸ hfirst⟩
    · by_cases heq2 : other = token2
      · exact .inr ⟨heq2, heq2 ▸ hsecond⟩
      · rw [setPair_other s heq1 heq2] at hother
        exact absurd (hnone other) hother
  rcases hpairs asset hasset with ⟨rfl, heq⟩ | ⟨rfl, heq⟩
  · rw [heq]
    exact ⟨huniswap, hstaking, h1, h2, hfirst, hsecond, hpairs⟩
  · rw [heq]
    exact ⟨huniswap, hstaking, h2, h1, hsecond, hfirst, fun other hother =>
      (hpairs other hother).symm⟩

/-- After an initialization the assets are mapped, and there is one pair at most. -/
theorem pairOf_initialized {init : AaveStrategy × ω} {self governor sender platformAddress
      vaultAddress rewardTokenAddress ubeStakingAddress token1 token2 secondaryRewardTokenAddress :
      Address} {assets pTokens : List Address}
    (h : (deployed self governor).initialized P w sender platformAddress vaultAddress
      rewardTokenAddress assets pTokens ubeStakingAddress token1 token2
      secondaryRewardTokenAddress = .ok init) :
    init.1.Mapped ∧ ∀ asset, init.1.rewardLiquidityPair asset ≠ 0 →
      init.1.PairOf asset (init.1.rewardLiquidityPair asset) := by
  obtain ⟨s, w₁, hbase, -, huniswap, -, hnone, h⟩ := initialized_eq_ok h
  have hmapped : s.Mapped :=
    (AbstractStrategy.initializeWith_eq_ok hbase).mapped
      (AbstractStrategy.mapped_deployed self governor)
  rcases initializeLiquidity_eq_ok h with ⟨-, heq⟩ | ⟨hstaking, lpPair, -, h1, h2, heq⟩
  · rw [heq]
    exact ⟨hmapped, fun asset hasset => absurd (hnone asset) hasset⟩
  · rw [heq]
    exact ⟨hmapped, fun asset hasset =>
      pairOf_setPair hnone huniswap hstaking h1 h2 hasset⟩

end AaveStrategy

end InterestDollar
