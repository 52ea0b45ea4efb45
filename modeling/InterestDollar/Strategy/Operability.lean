import InterestDollar.Strategy.Mapping
import InterestDollar.Strategy.PlainPlatform
import InterestDollar.Transition.Run

/-!
# Configurations in which the Aave strategy works

Where a staking contract is set, the operations of the strategy need its addresses and maps to
fit together: a pool, a router, and for each of its assets a pair that is one of its assets too.
The setters do not keep it so. A run whose steps do never comes to a state in which an
operation is blocked by the strategy's own checks. Collecting rewards needs the staking
contract and the reward token besides.
-/

namespace InterestDollar

open Checked Transition Listing

/-! ## Failures that are not the strategy's -/

/-- A revert in the arithmetic, not in a check. -/
def Revert.Arithmetic (e : Revert) : Prop := ∀ reason, e ≠ .require reason

/-- A failure of a contract that was called, or in the arithmetic. -/
def Failure.Excused (e : Failure) : Prop := ∀ reason, e ≠ .own (.require reason)

/-- The computation does not fail in a check of the strategy or at the zero address. -/
def Unblocked {α : Type} (x : Except Failure α) : Prop := FailsOnly Failure.Excused x

section

variable {α : Type}

theorem unblocked_callAt {target : Address} (h : target ≠ 0) (x : Except Revert α) :
    Unblocked (callAt target x) := by
  intro e he reason hreason
  rw [callAt, if_neg h] at he
  cases x with
  | error r =>
      cases he
      cases hreason
  | ok a => cases he

theorem unblocked_own {x : Except Revert α} (h : FailsOnly Revert.Arithmetic x) :
    Unblocked (own x) := by
  intro e he reason hreason
  cases x with
  | error r =>
      cases he
      exact h r rfl reason (Failure.own.inj hreason)
  | ok a => cases he

theorem unblocked_require {p : Prop} [Decidable p] {reason : String} (h : p) :
    Unblocked (own (require p reason)) :=
  unblocked_own fun _ he => absurd h (require_eq_error.mp he).1

theorem add_arithmetic {a b : ℕ} : FailsOnly Revert.Arithmetic (SafeMath.add a b) := by
  intro e he reason hreason
  cases (SafeMath.add_eq_error.mp he).2.symm.trans hreason

theorem mul_arithmetic {a b : ℕ} : FailsOnly Revert.Arithmetic (SafeMath.mul a b) := by
  intro e he reason hreason
  cases (SafeMath.mul_eq_error.mp he).2.symm.trans hreason

theorem div_arithmetic {a b : ℕ} : FailsOnly Revert.Arithmetic (SafeMath.div a b) := by
  intro e he reason hreason
  cases (SafeMath.div_eq_error.mp he).2.symm.trans hreason

end

namespace AaveStrategy

variable {ω : Type} {P : Platform ω} {s : AaveStrategy} {w : ω} {asset : Address} {amount : ℕ}

theorem priceRatio_arithmetic {price1 price2 : ℕ} :
    FailsOnly Revert.Arithmetic (priceRatio price1 price2) :=
  failsOnly_bind mul_arithmetic fun _ _ => div_arithmetic

theorem desiredAmounts_arithmetic {balance1 balance2 price priceInv : ℕ} :
    FailsOnly Revert.Arithmetic (desiredAmounts balance1 balance2 price priceInv) := by
  refine failsOnly_bind mul_arithmetic fun _ _ => failsOnly_bind div_arithmetic fun _ _ => ?_
  refine failsOnly_ite (fun _ => ?_) fun _ => failsOnly_pure
  exact failsOnly_bind mul_arithmetic fun _ _ =>
    failsOnly_bind div_arithmetic fun _ _ => failsOnly_pure

/-- The router and the pool are set, and each asset of the strategy has a pair that is one of
its assets too. -/
structure Liquid (s : AaveStrategy) : Prop where
  uniswap : s.uniswapAddr ≠ 0
  rewardPool : s.rewardPoolAddress ≠ 0
  pairs : ∀ asset, s.assetToPToken asset ≠ 0 →
    s.assetToPToken (s.rewardLiquidityPair asset) ≠ 0

/-- The addresses fit together as far as they are used. -/
structure Ready (s : AaveStrategy) : Prop where
  mapped : s.Mapped
  vault : s.vaultAddress ≠ 0
  platform : ∀ asset, s.assetToPToken asset ≠ 0 → s.platformAddress ≠ 0
  liquid : s.ubeStakingAddress ≠ 0 → s.Liquid

/-- The contracts that the strategy asks for an address of another one have one. -/
structure Answers (P : Platform ω) : Prop where
  lendingPool : ∀ w provider a, P.getLendingPool w provider = .ok a → a ≠ 0
  priceProvider : ∀ w vault a, P.priceProvider w vault = .ok a → a ≠ 0

/-! ## The operations in a ready state -/

theorem unblocked_ownBalance {t : AbstractStrategy} {token : Address} (h : token ≠ 0) :
    Unblocked (t.ownBalance P w token) :=
  unblocked_callAt h _

theorem unblocked_getATokenFor (h : s.assetToPToken asset ≠ 0) :
    Unblocked (s.getATokenFor asset) :=
  failsOnly_bind (unblocked_require h) fun _ _ => failsOnly_pure

theorem getATokenFor_eq_ok {aToken : Address} :
    s.getATokenFor asset = .ok aToken ↔ s.assetToPToken asset ≠ 0 ∧
      aToken = s.assetToPToken asset := by
  simp only [getATokenFor, bind_eq_ok, own_require, pure_eq_ok]
  constructor
  · rintro ⟨_, hmapped, rfl⟩
    exact ⟨hmapped, rfl⟩
  · rintro ⟨hmapped, rfl⟩
    exact ⟨(), hmapped, rfl⟩

theorem getATokenFor_ne_zero {aToken : Address} (h : s.getATokenFor asset = .ok aToken) :
    aToken ≠ 0 := by
  obtain ⟨hmapped, rfl⟩ := getATokenFor_eq_ok.mp h
  exact hmapped

theorem unblocked_unstake (h : s.ubeStakingAddress ≠ 0) (w : ω) :
    Unblocked (s.unstakeLPTokens P w) := by
  refine failsOnly_bind (unblocked_ownBalance h) fun _ _ => ?_
  exact failsOnly_ite (fun _ => unblocked_callAt h _) fun _ => failsOnly_pure

theorem Liquid.unblocked_stake (h : s.Liquid) (hstaking : s.ubeStakingAddress ≠ 0) (w : ω) :
    Unblocked (s.stakeLPTokens P w) := by
  refine failsOnly_bind (unblocked_ownBalance h.rewardPool) fun _ _ => ?_
  exact failsOnly_ite (fun _ => unblocked_callAt hstaking _) fun _ => failsOnly_pure

theorem Liquid.pair_ne_zero (h : s.Liquid) (hmapped : s.Mapped)
    (hasset : s.assetToPToken asset ≠ 0) : s.rewardLiquidityPair asset ≠ 0 := by
  intro hzero
  have hpair := h.pairs asset hasset
  rw [hzero] at hpair
  exact hpair hmapped.zero

theorem Liquid.unblocked_lpShare (h : s.Liquid) (hmapped : s.Mapped)
    (hasset : s.assetToPToken asset ≠ 0) {liquidity : ℕ} (hliquidity : liquidity ≠ 0) (w : ω) :
    Unblocked (s.lpShare P w asset liquidity) := by
  refine failsOnly_bind (unblocked_require (h.pair_ne_zero hmapped hasset)) fun _ _ => ?_
  refine failsOnly_bind (unblocked_require hliquidity) fun _ _ => ?_
  refine failsOnly_bind (unblocked_callAt hasset _) fun _ _ => ?_
  refine failsOnly_bind (unblocked_callAt h.rewardPool _) fun _ _ => ?_
  refine failsOnly_ite (fun _ => ?_) fun _ => failsOnly_pure
  exact failsOnly_bind (unblocked_own mul_arithmetic) fun _ _ => failsOnly_pure

theorem Ready.unblocked_checkBalance (h : s.Ready) (hasset : s.assetToPToken asset ≠ 0)
    (w : ω) : Unblocked (s.checkBalance P w asset) := by
  refine failsOnly_bind (unblocked_getATokenFor hasset) fun aToken haToken => ?_
  refine failsOnly_bind (unblocked_ownBalance (getATokenFor_ne_zero haToken)) fun _ _ => ?_
  refine failsOnly_ite (fun hstaking => ?_) fun _ => failsOnly_pure
  have hliquid := h.liquid hstaking
  refine failsOnly_bind (unblocked_ownBalance hstaking) fun lpBalance _ => ?_
  refine failsOnly_bind (unblocked_ownBalance hliquid.rewardPool) fun _ _ => ?_
  refine failsOnly_bind (unblocked_own add_arithmetic) fun _ _ => ?_
  refine failsOnly_ite (fun hsome => ?_) fun _ => failsOnly_pure
  exact failsOnly_bind (hliquid.unblocked_lpShare h.mapped hasset hsome w) fun _ _ =>
    failsOnly_pure

theorem Liquid.unblocked_provideLiquidity (h : s.Liquid) (hanswers : Answers P)
    (hvault : s.vaultAddress ≠ 0) (hasset : s.assetToPToken asset ≠ 0) (w : ω) :
    Unblocked (s.provideLiquidity P w asset) := by
  refine failsOnly_bind (unblocked_require h.uniswap) fun _ _ => ?_
  refine failsOnly_bind (unblocked_callAt hvault _) fun oracle horacle => ?_
  have horacle := hanswers.priceProvider _ _ _ (callAt_eq_ok.mp horacle).2
  refine failsOnly_bind (unblocked_callAt horacle _) fun _ _ => ?_
  refine failsOnly_bind (unblocked_callAt horacle _) fun _ _ => ?_
  refine failsOnly_bind (unblocked_own priceRatio_arithmetic) fun _ _ => ?_
  refine failsOnly_bind (unblocked_own priceRatio_arithmetic) fun _ _ => ?_
  refine failsOnly_bind (unblocked_getATokenFor hasset) fun aToken1 haToken1 => ?_
  refine failsOnly_bind (unblocked_getATokenFor (h.pairs asset hasset)) fun aToken2 haToken2 => ?_
  refine failsOnly_bind (unblocked_ownBalance (getATokenFor_ne_zero haToken1)) fun _ _ => ?_
  refine failsOnly_ite (fun _ => failsOnly_pure) fun _ => ?_
  refine failsOnly_bind (unblocked_ownBalance (getATokenFor_ne_zero haToken2)) fun _ _ => ?_
  refine failsOnly_ite (fun _ => failsOnly_pure) fun _ => ?_
  refine failsOnly_bind (unblocked_own desiredAmounts_arithmetic) fun _ _ => ?_
  refine failsOnly_bind (unblocked_own add_arithmetic) fun _ _ => ?_
  exact unblocked_callAt h.uniswap _

theorem Liquid.unblocked_removeLiquidity (h : s.Liquid) (hasset : s.assetToPToken asset ≠ 0)
    (w : ω) : Unblocked (s.removeLiquidity P w asset) := by
  refine failsOnly_bind (unblocked_require h.uniswap) fun _ _ => ?_
  refine failsOnly_bind (unblocked_getATokenFor hasset) fun _ _ => ?_
  refine failsOnly_bind (unblocked_getATokenFor (h.pairs asset hasset)) fun _ _ => ?_
  refine failsOnly_bind (unblocked_ownBalance h.rewardPool) fun _ _ => ?_
  refine failsOnly_ite (fun _ => ?_) fun _ => failsOnly_pure
  refine failsOnly_bind (unblocked_own add_arithmetic) fun _ _ => ?_
  exact unblocked_callAt h.uniswap _

theorem unblocked_getLendingPool (h : s.platformAddress ≠ 0) (hanswers : Answers P) (w : ω) :
    Unblocked (s.getLendingPool P w) := by
  refine failsOnly_bind (unblocked_callAt h _) fun pool hpool => ?_
  have hpool := hanswers.lendingPool _ _ _ (callAt_eq_ok.mp hpool).2
  exact failsOnly_bind (unblocked_require hpool) fun _ _ => failsOnly_pure

theorem getLendingPool_ne_zero {pool : Address} (h : s.getLendingPool P w = .ok pool) :
    pool ≠ 0 := by
  obtain ⟨_, -, h⟩ := bind_eq_ok.mp h
  obtain ⟨_, hne, h⟩ := bind_eq_ok.mp h
  cases pure_eq_ok.mp h
  exact own_require.mp hne

theorem Ready.unblocked_deposit (h : s.Ready) (hanswers : Answers P)
    (hasset : s.assetToPToken asset ≠ 0) (hamount : 0 < amount) (w : ω) :
    Unblocked (s.deposit P w s.vaultAddress asset amount) := by
  refine failsOnly_bind (unblocked_require rfl) fun _ _ => ?_
  refine failsOnly_bind (unblocked_require hamount) fun _ _ => ?_
  refine failsOnly_bind (unblocked_getATokenFor hasset) fun _ _ => ?_
  refine failsOnly_bind (unblocked_getLendingPool (h.platform asset hasset) hanswers w)
    fun pool hpool => ?_
  refine failsOnly_bind (unblocked_callAt (getLendingPool_ne_zero hpool) _) fun w _ => ?_
  refine failsOnly_ite (fun hstaking => ?_) fun _ => failsOnly_pure
  have hliquid := h.liquid hstaking
  exact failsOnly_bind (hliquid.unblocked_provideLiquidity hanswers h.vault hasset w) fun w _ =>
    hliquid.unblocked_stake hstaking w

theorem Ready.unblocked_withdrawAsset (h : s.Ready) (hasset : s.assetToPToken asset ≠ 0)
    (w : ω) : Unblocked (s.withdrawAsset P w asset) := by
  have hassetne : asset ≠ 0 := by
    rintro rfl
    exact hasset h.mapped.zero
  refine failsOnly_bind ?_ fun w _ => ?_
  · refine failsOnly_ite (fun hstaking => ?_) fun _ => failsOnly_pure
    exact failsOnly_bind (unblocked_unstake hstaking w) fun w _ =>
      (h.liquid hstaking).unblocked_removeLiquidity hasset w
  · refine failsOnly_bind (unblocked_getATokenFor hasset) fun aToken haToken => ?_
    have haToken := getATokenFor_ne_zero haToken
    refine failsOnly_bind (unblocked_ownBalance haToken) fun _ _ => ?_
    refine failsOnly_ite (fun _ => ?_) fun _ => failsOnly_pure
    refine failsOnly_bind (unblocked_callAt haToken _) fun w _ => ?_
    exact failsOnly_bind (unblocked_ownBalance hassetne) fun _ _ => unblocked_callAt hassetne _

theorem Ready.unblocked_withdrawAll (h : s.Ready) (w : ω) {sender : Address}
    (hsender : sender = s.vaultAddress ∨ sender = s.governor) :
    Unblocked (s.withdrawAll P w sender) := by
  refine failsOnly_bind (unblocked_require hsender) fun _ _ => ?_
  refine failsOnly_foldlM (fun w asset hasset => ?_) w
  exact h.unblocked_withdrawAsset ((h.mapped.mem_iff asset).mp hasset) w

theorem Ready.unblocked_collectRewardToken (h : s.Ready) (hstaking : s.ubeStakingAddress ≠ 0)
    (hreward : s.rewardTokenAddress ≠ 0) (w : ω) :
    Unblocked (s.collectRewardToken P w s.vaultAddress) := by
  refine failsOnly_bind (unblocked_require rfl) fun _ _ => ?_
  refine failsOnly_bind (unblocked_callAt hstaking _) fun w _ => ?_
  refine failsOnly_bind ?_ fun w _ => ?_
  · refine failsOnly_ite (fun hsecondary => ?_) fun _ => failsOnly_pure
    refine failsOnly_bind (unblocked_ownBalance hsecondary) fun _ _ => ?_
    refine failsOnly_ite (fun _ => ?_) fun _ => failsOnly_pure
    refine failsOnly_bind ?_ fun w _ => ?_
    · exact failsOnly_bind (unblocked_callAt hsecondary _) fun _ _ => unblocked_callAt hsecondary _
    · refine failsOnly_bind (unblocked_callAt h.vault _) fun _ _ => ?_
      refine failsOnly_bind (unblocked_ownBalance hsecondary) fun _ _ => ?_
      refine failsOnly_bind (unblocked_own add_arithmetic) fun _ _ => ?_
      exact unblocked_callAt (h.liquid hstaking).uniswap _
  · exact failsOnly_bind (unblocked_ownBalance hreward) fun _ _ => unblocked_callAt hreward _

/-- What the vault, and the governor, can ask for is not blocked: the balance of an asset of the
strategy, a deposit of one, the withdrawal of everything, and the rewards, where there is a
staking contract and a reward token. -/
structure Operable (P : Platform ω) (s : AaveStrategy × ω) : Prop where
  checkBalance : ∀ asset, s.1.supportsAsset asset = true →
    Unblocked (s.1.checkBalance P s.2 asset)
  deposit : ∀ asset amount, s.1.supportsAsset asset = true → 0 < amount →
    Unblocked (s.1.deposit P s.2 s.1.vaultAddress asset amount)
  withdrawAll : ∀ sender, sender = s.1.vaultAddress ∨ sender = s.1.governor →
    Unblocked (s.1.withdrawAll P s.2 sender)
  collectRewardToken : s.1.ubeStakingAddress ≠ 0 → s.1.rewardTokenAddress ≠ 0 →
    Unblocked (s.1.collectRewardToken P s.2 s.1.vaultAddress)

theorem Ready.operable (h : s.Ready) (hanswers : Answers P) (w : ω) : Operable P (s, w) where
  checkBalance _ hasset := h.unblocked_checkBalance (of_decide_eq_true hasset) w
  deposit _ _ hasset hamount :=
    h.unblocked_deposit hanswers (of_decide_eq_true hasset) hamount w
  withdrawAll _ hsender := h.unblocked_withdrawAll w hsender
  collectRewardToken hstaking hreward := h.unblocked_collectRewardToken hstaking hreward w

/-! ## Configurations -/

/-- The functions that change the storage, those that do not, and changes of the world. -/
inductive Action (ω : Type)
  | setPTokenAddress (asset pToken : Address)
  | removePToken (assetIndex : ℕ)
  | configure (setting : AbstractStrategy.Setting)
  | setUniswapAddress (router : Address)
  | setSecondaryRewardTokenAddress (token : Address)
  | setStakingAddress (staking : Address)
  | setRewardPoolAddress (token1 token2 : Address)
  | operate (operation : AbstractStrategy.Operation)
  | environment (w : ω)

/-- One call by an account, or one change of the world. -/
def exec (P : Platform ω) (s : AaveStrategy × ω) (step : Address × Action ω) :
    Except Failure (AaveStrategy × ω) :=
  match step.2 with
  | .setPTokenAddress asset pToken => s.1.setPTokenAddress P s.2 step.1 asset pToken
  | .removePToken assetIndex => do
      let base ← s.1.removePToken step.1 assetIndex
      return ({ s.1 with toAbstractStrategy := base }, s.2)
  | .configure setting => do
      let base ← s.1.configure step.1 setting
      return ({ s.1 with toAbstractStrategy := base }, s.2)
  | .setUniswapAddress router => do
      let t ← s.1.setUniswapAddress step.1 router
      return (t, s.2)
  | .setSecondaryRewardTokenAddress token => do
      let t ← s.1.setSecondaryRewardTokenAddress step.1 token
      return (t, s.2)
  | .setStakingAddress staking => do
      let t ← s.1.setStakingAddress step.1 staking
      return (t, s.2)
  | .setRewardPoolAddress token1 token2 =>
      s.1.setRewardPoolAddress P s.2 step.1 token1 token2
  | .operate operation => do
      let w ← s.1.operate P s.2 step.1 operation
      return (s.1, w)
  | .environment w => .ok (s.1, w)

/-- While there is a staking contract, the step does not take the router away, gives a platform
token only to an asset whose pair has one, and takes none from the pair of another asset; and
a staking contract is set where the rest is in place. -/
def KeepsReady (s : AaveStrategy) : Action ω → Prop
  | .setPTokenAddress asset _ => s.ubeStakingAddress ≠ 0 →
      s.rewardLiquidityPair asset = asset ∨ s.assetToPToken (s.rewardLiquidityPair asset) ≠ 0
  | .removePToken assetIndex => s.ubeStakingAddress ≠ 0 → ∀ asset ∈ s.assetsMapped[assetIndex]?,
      ∀ other, other ≠ asset → s.assetToPToken other ≠ 0 → s.rewardLiquidityPair other ≠ asset
  | .setUniswapAddress router => s.ubeStakingAddress ≠ 0 → router ≠ 0
  | .setStakingAddress staking => staking ≠ 0 → s.Liquid
  | _ => True

theorem Liquid.addPToken (h : s.Liquid) {pToken : Address} (hpToken : pToken ≠ 0)
    (hpair : s.rewardLiquidityPair asset = asset ∨
      s.assetToPToken (s.rewardLiquidityPair asset) ≠ 0) :
    ({ s with toAbstractStrategy := s.addPToken asset pToken } : AaveStrategy).Liquid where
  uniswap := h.uniswap
  rewardPool := h.rewardPool
  pairs other hother := by
    simp only [AbstractStrategy.addPToken] at hother ⊢
    have hkeep : ∀ a, s.assetToPToken a ≠ 0 →
        Function.update s.assetToPToken asset pToken a ≠ 0 := by
      intro a ha
      by_cases heq : a = asset
      · rw [heq, Function.update_self]
        exact hpToken
      · rwa [Function.update_of_ne heq]
    by_cases heq : other = asset
    · subst heq
      rcases hpair with hself | hmapped
      · rw [hself, Function.update_self]
        exact hpToken
      · exact hkeep _ hmapped
    · rw [Function.update_of_ne heq] at hother
      exact hkeep _ (h.pairs other hother)

theorem Liquid.dropPToken (h : s.Liquid)
    (hfree : ∀ other, other ≠ asset → s.assetToPToken other ≠ 0 →
      s.rewardLiquidityPair other ≠ asset) :
    ({ s with toAbstractStrategy := s.dropPToken asset } : AaveStrategy).Liquid where
  uniswap := h.uniswap
  rewardPool := h.rewardPool
  pairs other hother := by
    simp only [AbstractStrategy.dropPToken] at hother ⊢
    have hne : other ≠ asset := by
      rintro rfl
      exact hother (Function.update_self _ _ _)
    rw [Function.update_of_ne hne] at hother
    rw [Function.update_of_ne (hfree other hne hother)]
    exact h.pairs other hother

theorem approveMax_ne_zero {w' : ω} {lpPair spender : Address}
    (h : s.approveMax P w lpPair spender = .ok w') : lpPair ≠ 0 := by
  obtain ⟨_, happrove, -⟩ := bind_eq_ok.mp h
  exact (callAt_eq_ok.mp happrove).1

theorem pairFor_mapped {token1 token2 lpPair : Address}
    (h : s.pairFor P w token1 token2 = .ok lpPair) :
    s.assetToPToken token1 ≠ 0 ∧ s.assetToPToken token2 ≠ 0 := by
  obtain ⟨_, h1, h⟩ := bind_eq_ok.mp h
  obtain ⟨_, h2, -⟩ := bind_eq_ok.mp h
  exact ⟨(getATokenFor_eq_ok.mp h1).1, (getATokenFor_eq_ok.mp h2).1⟩

theorem abstractSetPToken_ne_zero {t : AbstractStrategy} {aToken : Address} {w' : ω}
    (h : abstractSetPToken P t w asset aToken = .ok w') : t.platformAddress ≠ 0 := by
  obtain ⟨_, hcore, -⟩ := bind_eq_ok.mp h
  obtain ⟨_, hcore, -⟩ := bind_eq_ok.mp hcore
  exact (callAt_eq_ok.mp hcore).1

/-! ## What the steps do to the storage -/

section

variable {s s' : AaveStrategy × ω} {sender : Address}

/-- A setter that is for the governor stores a value. -/
theorem onlyGovernor_pure_eq_ok {α : Type} {t : AbstractStrategy} {a b : α} :
    (do
      t.onlyGovernor sender
      return a : Except Failure α) = .ok b ↔ sender = t.governor ∧ b = a := by
  rw [bind_eq_ok]
  constructor
  · rintro ⟨_, hsender, h⟩
    exact ⟨own_require.mp hsender, (pure_eq_ok.mp h).symm⟩
  · rintro ⟨hsender, rfl⟩
    exact ⟨(), own_require.mpr hsender, rfl⟩

theorem exec_setPTokenAddress_eq_ok {pToken : Address}
    (h : exec P s (sender, .setPTokenAddress asset pToken) = .ok s') :
    s.1.assetToPToken asset = 0 ∧ (asset ≠ 0 ∧ pToken ≠ 0) ∧
      s'.1 = { s.1 with toAbstractStrategy := s.1.addPToken asset pToken } ∧
        abstractSetPToken P (s.1.addPToken asset pToken) s.2 asset pToken = .ok s'.2 := by
  obtain ⟨_, -, h⟩ := bind_eq_ok.mp h
  obtain ⟨⟨base, w⟩, hset, h⟩ := bind_eq_ok.mp h
  cases pure_eq_ok.mp h
  obtain ⟨hnew, hvalid, rfl, hran⟩ := AbstractStrategy.setPToken_eq_ok hset
  exact ⟨hnew, hvalid, rfl, hran⟩

theorem exec_removePToken_eq_ok {assetIndex : ℕ} (hmapped : s.1.Mapped)
    (h : exec P s (sender, .removePToken assetIndex) = .ok s') :
    ∃ asset, s.1.assetsMapped[assetIndex]? = some asset ∧
      s' = ({ s.1 with toAbstractStrategy := s.1.dropPToken asset }, s.2) := by
  obtain ⟨base, hremove, h⟩ := bind_eq_ok.mp h
  cases pure_eq_ok.mp h
  obtain ⟨asset, hasset, rfl, -⟩ := AbstractStrategy.removePToken_eq_ok hmapped hremove
  exact ⟨asset, hasset, rfl⟩

theorem exec_configure_eq_ok {setting : AbstractStrategy.Setting}
    (h : exec P s (sender, .configure setting) = .ok s') :
    ∃ base, AbstractStrategy.SameMapping s.1.toAbstractStrategy base ∧
      s' = ({ s.1 with toAbstractStrategy := base }, s.2) := by
  obtain ⟨base, hconfigure, h⟩ := bind_eq_ok.mp h
  cases pure_eq_ok.mp h
  exact ⟨base, (AbstractStrategy.configure_eq_ok hconfigure).1, rfl⟩

theorem exec_setUniswapAddress_eq_ok {router : Address}
    (h : exec P s (sender, .setUniswapAddress router) = .ok s') :
    s' = ({ s.1 with uniswapAddr := router }, s.2) := by
  obtain ⟨t, hset, h⟩ := bind_eq_ok.mp h
  cases pure_eq_ok.mp h
  rw [(onlyGovernor_pure_eq_ok.mp hset).2]

theorem exec_setSecondaryRewardTokenAddress_eq_ok {token : Address}
    (h : exec P s (sender, .setSecondaryRewardTokenAddress token) = .ok s') :
    s' = ({ s.1 with secondaryRewardTokenAddress := token }, s.2) := by
  obtain ⟨t, hset, h⟩ := bind_eq_ok.mp h
  cases pure_eq_ok.mp h
  rw [(onlyGovernor_pure_eq_ok.mp hset).2]

theorem exec_setStakingAddress_eq_ok {staking : Address}
    (h : exec P s (sender, .setStakingAddress staking) = .ok s') :
    s' = ({ s.1 with ubeStakingAddress := staking }, s.2) := by
  obtain ⟨t, hset, h⟩ := bind_eq_ok.mp h
  cases pure_eq_ok.mp h
  rw [(onlyGovernor_pure_eq_ok.mp hset).2]

theorem setRewardPoolAddress_eq_ok {u t : AaveStrategy} {w w' : ω} {token1 token2 : Address}
    (h : u.setRewardPoolAddress P w sender token1 token2 = .ok (t, w')) :
    ∃ lpPair, u.pairFor P w token1 token2 = .ok lpPair ∧
      u.approveMax P w lpPair u.ubeStakingAddress = .ok w' ∧
        t = { u.setPair token1 token2 with rewardPoolAddress := lpPair } := by
  obtain ⟨_, -, h⟩ := bind_eq_ok.mp h
  obtain ⟨_, -, h⟩ := bind_eq_ok.mp h
  obtain ⟨lpPair, hlpPair, h⟩ := bind_eq_ok.mp h
  obtain ⟨w₁, happrove, h⟩ := bind_eq_ok.mp h
  cases pure_eq_ok.mp h
  exact ⟨lpPair, hlpPair, happrove, rfl⟩

theorem exec_operate_eq_ok {operation : AbstractStrategy.Operation}
    (h : exec P s (sender, .operate operation) = .ok s') :
    ∃ w, s.1.operate P s.2 sender operation = .ok w ∧ s' = (s.1, w) := by
  obtain ⟨w, hoperate, h⟩ := bind_eq_ok.mp h
  cases pure_eq_ok.mp h
  exact ⟨w, hoperate, rfl⟩

end

/-! ## Ready states -/

/-- The assets that are made each other's pair are mapped, and the other assets keep theirs. -/
theorem pairs_setPair {token1 token2 : Address} (h1 : s.assetToPToken token1 ≠ 0)
    (h2 : s.assetToPToken token2 ≠ 0)
    (hothers : ∀ asset, asset ≠ token1 → asset ≠ token2 → s.assetToPToken asset ≠ 0 →
      s.assetToPToken (s.rewardLiquidityPair asset) ≠ 0) (hasset : s.assetToPToken asset ≠ 0) :
    s.assetToPToken ((s.setPair token1 token2).rewardLiquidityPair asset) ≠ 0 := by
  simp only [setPair]
  by_cases heq2 : asset = token2
  · rwa [heq2, Function.update_self]
  · rw [Function.update_of_ne heq2]
    by_cases heq1 : asset = token1
    · rwa [heq1, Function.update_self]
    · rw [Function.update_of_ne heq1]
      exact hothers asset heq1 heq2 hasset

/-- A step that meets the condition keeps a ready state ready. -/
theorem Ready.next {s s' : AaveStrategy × ω} {step : Address × Action ω} (h : s.1.Ready)
    (hkeeps : KeepsReady s.1 step.2) (hexec : exec P s step = .ok s') : s'.1.Ready := by
  obtain ⟨sender, action⟩ := step
  cases action with
  | setPTokenAddress asset pToken =>
      obtain ⟨hnew, ⟨hasset, hpToken⟩, hstored, hran⟩ := exec_setPTokenAddress_eq_ok hexec
      rw [hstored]
      exact {
        mapped := h.mapped.addPToken hnew hasset hpToken
        vault := h.vault
        platform := fun _ _ => abstractSetPToken_ne_zero hran
        liquid := fun hstaking => (h.liquid hstaking).addPToken hpToken (hkeeps hstaking) }
  | removePToken assetIndex =>
      obtain ⟨asset, hasset, rfl⟩ := exec_removePToken_eq_ok h.mapped hexec
      have hmem := List.mem_of_getElem? hasset
      exact {
        mapped := h.mapped.dropPToken hmem
        vault := h.vault
        platform := fun _ _ => h.platform asset ((h.mapped.mem_iff asset).mp hmem)
        liquid := fun hstaking => (h.liquid hstaking).dropPToken (hkeeps hstaking asset hasset) }
  | configure setting =>
      obtain ⟨base, hsame, rfl⟩ := exec_configure_eq_ok hexec
      exact {
        mapped := h.mapped.of_same hsame
        vault := hsame.vaultAddress ▸ h.vault
        platform := by
          rw [hsame.assetToPToken, hsame.platformAddress]
          exact h.platform
        liquid := fun hstaking => {
          uniswap := (h.liquid hstaking).uniswap
          rewardPool := (h.liquid hstaking).rewardPool
          pairs := by
            rw [hsame.assetToPToken]
            exact (h.liquid hstaking).pairs } }
  | setUniswapAddress router =>
      cases exec_setUniswapAddress_eq_ok hexec
      exact { h with
        liquid := fun hstaking => { h.liquid hstaking with uniswap := hkeeps hstaking } }
  | setSecondaryRewardTokenAddress token =>
      cases exec_setSecondaryRewardTokenAddress_eq_ok hexec
      exact { h with liquid := fun hstaking => { h.liquid hstaking with } }
  | setStakingAddress staking =>
      cases exec_setStakingAddress_eq_ok hexec
      exact { h with liquid := fun hstaking => { hkeeps hstaking with } }
  | setRewardPoolAddress token1 token2 =>
      obtain ⟨lpPair, hlpPair, happrove, hstored⟩ := setRewardPoolAddress_eq_ok hexec
      obtain ⟨h1, h2⟩ := pairFor_mapped hlpPair
      rw [hstored]
      exact { h with
        liquid := fun hstaking => {
          uniswap := (h.liquid hstaking).uniswap
          rewardPool := approveMax_ne_zero happrove
          pairs := fun asset hasset => pairs_setPair h1 h2
            (fun other _ _ hother => (h.liquid hstaking).pairs other hother) hasset } }
  | operate operation =>
      obtain ⟨w, -, rfl⟩ := exec_operate_eq_ok hexec
      exact h
  | environment w =>
      cases hexec
      exact h

/-- Where a staking contract is given, the two assets of the pool are mapped, and are made the pair
of each other. -/
theorem initializeLiquidity_eq_ok {init : AaveStrategy × ω} {pTokens : List Address}
    {token1 token2 : Address}
    (h : s.initializeLiquidity P w pTokens token1 token2 = .ok init) :
    s.ubeStakingAddress = 0 ∧ init.1 = s ∨
      s.ubeStakingAddress ≠ 0 ∧ ∃ lpPair, lpPair ≠ 0 ∧ s.assetToPToken token1 ≠ 0 ∧
        s.assetToPToken token2 ≠ 0 ∧
          init.1 = { s with rewardPoolAddress := lpPair }.setPair token1 token2 := by
  by_cases hstaking : s.ubeStakingAddress ≠ 0
  · have h := (if_pos hstaking).symm.trans h
    obtain ⟨lpPair, hlpPair, h⟩ := bind_eq_ok.mp h
    obtain ⟨w₂, happrove, h⟩ := bind_eq_ok.mp h
    obtain ⟨w₃, -, h⟩ := bind_eq_ok.mp h
    obtain ⟨w₄, -, h⟩ := bind_eq_ok.mp h
    cases pure_eq_ok.mp h
    obtain ⟨h1, h2⟩ := pairFor_mapped hlpPair
    exact .inr ⟨hstaking, lpPair, approveMax_ne_zero happrove, h1, h2, rfl⟩
  · have h := (if_neg hstaking).symm.trans h
    cases pure_eq_ok.mp h
    exact .inl ⟨not_not.mp hstaking, rfl⟩

section

variable {init : AaveStrategy × ω} {self governor sender platformAddress vaultAddress
  rewardTokenAddress ubeStakingAddress token1 token2 secondaryRewardTokenAddress : Address}
  {assets pTokens : List Address}

/-- An initialization maps its assets, takes the router from the vault, and sets the pool last. -/
theorem initialized_eq_ok
    (h : (deployed self governor).initialized P w sender platformAddress vaultAddress
      rewardTokenAddress assets pTokens ubeStakingAddress token1 token2
      secondaryRewardTokenAddress = .ok init) :
    ∃ (s : AaveStrategy) (w₁ : ω), AbstractStrategy.initializeWith (abstractSetPToken P)
        (AbstractStrategy.deployed self governor) w platformAddress vaultAddress
        rewardTokenAddress assets pTokens = .ok (s.toAbstractStrategy, w₁) ∧
      vaultAddress ≠ 0 ∧ s.uniswapAddr ≠ 0 ∧ s.ubeStakingAddress = ubeStakingAddress ∧
        (∀ asset, s.rewardLiquidityPair asset = 0) ∧
          s.initializeLiquidity P w₁ pTokens token1 token2 = .ok init := by
  obtain ⟨_, -, h⟩ := bind_eq_ok.mp h
  obtain ⟨⟨base, w₁⟩, hbase, h⟩ := bind_eq_ok.mp h
  obtain ⟨uniswapAddr, hvault, h⟩ := bind_eq_ok.mp h
  obtain ⟨_, huniswap, h⟩ := bind_eq_ok.mp h
  refine ⟨{ deployed self governor with
      toAbstractStrategy := base
      uniswapAddr := uniswapAddr
      ubeStakingAddress := ubeStakingAddress
      secondaryRewardTokenAddress := secondaryRewardTokenAddress }, w₁, hbase, ?_⟩
  exact ⟨(callAt_eq_ok.mp hvault).1, own_require.mp huniswap, rfl, fun _ => rfl, h⟩

/-- An initialization leaves a ready state; with a staking contract, if it is given no assets but
the two of the pool. -/
theorem ready_initialized
    (h : (deployed self governor).initialized P w sender platformAddress vaultAddress
      rewardTokenAddress assets pTokens ubeStakingAddress token1 token2
      secondaryRewardTokenAddress = .ok init)
    (hassets : ubeStakingAddress ≠ 0 → ∀ asset ∈ assets, asset = token1 ∨ asset = token2) :
    init.1.Ready := by
  obtain ⟨s, w₁, hbase, hvault, huniswap, rfl, -, h⟩ := initialized_eq_ok h
  have hfrom := AbstractStrategy.initializeWith_eq_ok hbase
  have hmapped : s.Mapped := hfrom.mapped (AbstractStrategy.mapped_deployed self governor)
  have hlist : s.assetsMapped = assets := hfrom.assetsMapped
  have hplatform : ∀ asset, s.assetToPToken asset ≠ 0 → s.platformAddress ≠ 0 := by
    intro asset hasset
    have hsome : assets ≠ [] := by
      rw [← hlist]
      exact List.ne_nil_of_mem ((hmapped.mem_iff asset).mpr hasset)
    obtain ⟨t, _, _, _, hplatform, hran⟩ := AbstractStrategy.initializeWith_ran hbase hsome
    rw [hfrom.platformAddress, ← hplatform]
    exact abstractSetPToken_ne_zero hran
  have hvault : s.vaultAddress ≠ 0 := hfrom.vaultAddress ▸ hvault
  rcases initializeLiquidity_eq_ok h with ⟨hnone, heq⟩ | ⟨hstaking, lpPair, hlpPair, h1, h2, heq⟩
  · rw [heq]
    exact ⟨hmapped, hvault, hplatform, fun hset => absurd hnone hset⟩
  · rw [heq]
    refine ⟨hmapped, hvault, hplatform, fun _ => ⟨huniswap, hlpPair, ?_⟩⟩
    refine fun asset hasset => pairs_setPair h1 h2 (fun other hne1 hne2 hother => ?_) hasset
    have hmem : other ∈ s.assetsMapped := (hmapped.mem_iff other).mpr hother
    rw [hlist] at hmem
    exact absurd (hassets hstaking other hmem) (not_or.mpr ⟨hne1, hne2⟩)

end

/-- After an initialization, given a staking contract only with the two assets of the pool, in a
run whose steps keep the rest in place while there is a staking contract, no operation is
blocked in any state. -/
theorem operable_of_keepsReady (hanswers : Answers P) {init : AaveStrategy × ω}
    {self governor sender platformAddress vaultAddress rewardTokenAddress ubeStakingAddress
      token1 token2 secondaryRewardTokenAddress : Address} {assets pTokens : List Address}
    (hinit : (deployed self governor).initialized P w sender platformAddress vaultAddress
      rewardTokenAddress assets pTokens ubeStakingAddress token1 token2
      secondaryRewardTokenAddress = .ok init)
    (hassets : ubeStakingAddress ≠ 0 → ∀ asset ∈ assets, asset = token1 ∨ asset = token2)
    {trace : List ((AaveStrategy × ω) × (Address × Action ω))} {s : AaveStrategy × ω}
    (hrun : Run (fun s step s' => exec P s step = .ok s') init trace s)
    (hkeeps : ∀ e ∈ trace, KeepsReady e.1.1 e.2.2) :
    (∀ e ∈ trace, Operable P e.1) ∧ Operable P s := by
  have hready : ∀ {trace s}, Run (fun s step s' => exec P s step = .ok s') init trace s →
      (∀ e ∈ trace, KeepsReady e.1.1 e.2.2) → s.1.Ready := by
    intro trace s hrun hkeeps
    exact hrun.invariant_of_forall (fun s step => KeepsReady s.1 step.2) (fun s => s.1.Ready)
      (ready_initialized hinit hassets) (fun _ _ _ h hkeep hexec => h.next hkeep hexec) hkeeps
  refine ⟨fun e he => ?_, (hready hrun hkeeps).operable hanswers s.2⟩
  obtain ⟨before, hbefore, hsub⟩ := hrun.prefix_of_mem he
  exact (hready hbefore fun x hx => hkeeps x (hsub x hx)).operable hanswers e.1.2

section

open PlainPlatform

/-- Ten units of an asset to deposit. -/
def funded : PlainPlatform := empty.create 4 21 10

/-- A strategy at 21 with governor 8 and vault 9, for the pair of 4 and 5. -/
def initializedPlain (assets : List Address) (staking : Address) :
    Except Failure (AaveStrategy × PlainPlatform) :=
  (deployed 21 8).initialized (calls market) funded 8 70 9 44 assets
    (assets.map market.aToken) staking 4 5 0

/-- The strategy deposits and changes the router. -/
theorem operable_router_changed :
    ∃ init trace s, initializedPlain [4, 5] 60 = .ok init ∧
      Run (fun s step s' => exec (calls market) s step = .ok s') init trace s ∧
        s.1.uniswapAddr = 53 ∧ s.2.balances 31 21 = 10 ∧ Operable (calls market) s := by
  have hsteps : Returns (initializedPlain [4, 5] 60) fun init =>
      Returns (exec (calls market) init (9, .operate (.deposit 4 10))) fun s₁ =>
        Returns (exec (calls market) s₁ (8, .setUniswapAddress 53)) fun s =>
          s.1.uniswapAddr = 53 ∧ s.2.balances 31 21 = 10 := by
    decide
  obtain ⟨init, hinit, s₁, hdeposit, s, hset, hrouter, hbalance⟩ := hsteps
  have hanswers : Answers (calls market) := by
    constructor
    · rintro w provider a ⟨⟩
      decide
    · rintro w vault a ⟨⟩
      decide
  have hassets : ∀ asset ∈ ([4, 5] : List Address), asset = 4 ∨ asset = 5 := by
    simp only [List.mem_cons, List.not_mem_nil, or_false, imp_self, implies_true]
  have hrun : Run (fun s step s' => exec (calls market) s step = .ok s') init
      [(s₁, (8, .setUniswapAddress 53)), (init, (9, .operate (.deposit 4 10)))] s :=
    (Run.nil.cons hdeposit).cons hset
  have hne : (53 : Address) ≠ 0 := by decide
  refine ⟨init, _, s, hinit, hrun, hrouter, hbalance,
    (operable_of_keepsReady hanswers hinit (fun _ => hassets) hrun ?_).2⟩
  exact List.forall_mem_cons.mpr ⟨fun _ => hne, List.forall_mem_singleton.mpr trivial⟩

/-- Four configurations in which a deposit of a supported asset is blocked by a check: without
a router; with a third asset; with one asset of the pair removed; and with a staking contract
set where none was at the beginning. And one without a reward token, in which the rewards
cannot be collected. -/
theorem deposit_blocked :
    (Returns (initializedPlain [4, 5] 60) fun init =>
      Returns (exec (calls market) init (8, .setUniswapAddress 0)) fun s =>
        s.1.supportsAsset 4 = true ∧
          FailsWith
            (.own (.require "AaveStrategy::_provideLiquidity: uniswapAddr is zero"))
            (s.1.deposit (calls market) s.2 9 4 10)) ∧
    (Returns (initializedPlain [4, 5, 6] 60) fun init =>
      Returns (exec (calls market) init (8, .environment (empty.create 6 21 10))) fun s =>
        s.1.supportsAsset 6 = true ∧
          FailsWith (.own (.require "aToken does not exist"))
            (s.1.deposit (calls market) s.2 9 6 10)) ∧
    (Returns (initializedPlain [4, 5] 60) fun init =>
      Returns (exec (calls market) init (8, .removePToken 1)) fun s =>
        s.1.supportsAsset 4 = true ∧
          FailsWith (.own (.require "aToken does not exist"))
            (s.1.deposit (calls market) s.2 9 4 10)) ∧
    (Returns (initializedPlain [4, 5] 0) fun init =>
      Returns (exec (calls market) init (8, .setStakingAddress 60)) fun s =>
        s.1.supportsAsset 4 = true ∧
          FailsWith (.own (.require "aToken does not exist"))
            (s.1.deposit (calls market) s.2 9 4 10)) ∧
    (Returns ((deployed 21 8).initialized (calls market) funded 8 70 9 0 [4, 5]
        ([4, 5].map market.aToken) 60 4 5 0) fun init =>
      FailsWith (.own (.require "")) (init.1.collectRewardToken (calls market) init.2 9)) := by
  refine ⟨?_, ?_, ?_, ?_, ?_⟩
  · decide
  · decide
  · decide
  · decide
  · decide

end

end AaveStrategy

end InterestDollar
