import InterestDollar.Strategy.PlainExchange

/-!
# Withdrawals of what is reported

In a run of its own operations the Aave strategy reports all that it has. A withdrawal of up to as
much pays what it was asked for and lowers what is reported by as much, and what is reported of
the other asset of the pool stays as it was, whether or not the LP tokens are needed for it.
-/

namespace InterestDollar

open Checked FixedPoint Transition

namespace AaveStrategy

variable {ω : Type} {P : Platform ω} {s t : AaveStrategy} {w : ω}
  {asset assetPair account : Address}

/-! ## One withdrawal -/

/-- What holds of the amounts of the tokens, and of the time: what the strategy and the pool have
of an aToken is a word together, and no more LP tokens are staked than there are. -/
structure Bounded (P : Platform ω) (s : AaveStrategy) (w : ω) (asset assetPair : Address) :
    Prop where
  first : s.lent P w asset + s.pooled P w asset < wordBound
  second : s.lent P w assetPair + s.pooled P w assetPair < wordBound
  staked : s.stakedLP P w ≤ P.issued w s.rewardPoolAddress
  time : P.now w + 1800 < wordBound

instance : Decidable (s.Bounded P w asset assetPair) :=
  decidable_of_iff
    (s.lent P w asset + s.pooled P w asset < wordBound ∧
      s.lent P w assetPair + s.pooled P w assetPair < wordBound ∧
        s.stakedLP P w ≤ P.issued w s.rewardPoolAddress ∧ P.now w + 1800 < wordBound)
    ⟨fun h => ⟨h.1, h.2.1, h.2.2.1, h.2.2.2⟩, fun h => ⟨h.1, h.2, h.3, h.4⟩⟩

theorem pooledShare_le (h : s.stakedLP P w ≤ P.issued w s.rewardPoolAddress) :
    s.pooledShare P w asset (s.stakedLP P w) ≤ s.pooled P w asset :=
  Nat.div_le_of_le_mul (Nat.mul_le_mul_right _ h)

/-- What is reported, where the sum does not wrap around. -/
theorem checkBalance_eq_add {value : ℕ} (hstaking : s.ubeStakingAddress ≠ 0)
    (hsum : s.lent P w asset + s.pooled P w asset < wordBound)
    (hstaked : s.stakedLP P w ≤ P.issued w s.rewardPoolAddress)
    (h : s.checkBalance P w asset = .ok value) :
    value = s.lent P w asset + s.pooledShare P w asset (s.stakedLP P w) := by
  obtain ⟨-, -, -, hvalue⟩ := checkBalance_eq_ok.mp h
  by_cases hnone : s.stakedLP P w = 0
  · rw [if_neg fun hboth => hboth.2 hnone] at hvalue
    rw [hvalue, hnone, pooledShare_zero, add_zero]
  · rw [if_pos ⟨hstaking, hnone⟩] at hvalue
    have hle : s.pooledShare P w asset (s.stakedLP P w) ≤ s.pooled P w asset :=
      pooledShare_le hstaked
    rw [hvalue.2.2, Nat.mod_eq_of_lt (by omega)]

/-- With nothing staked, the aTokens are reported. -/
theorem checkBalance_of_unstaked {value : ℕ} (hmapped : s.assetToPToken asset ≠ 0)
    (hpool : s.rewardPoolAddress ≠ 0)
    (hlent : P.balanceOf w (s.assetToPToken asset) s.self = .ok value)
    (hstaked : P.balanceOf w s.ubeStakingAddress s.self = .ok 0)
    (hloose : P.balanceOf w s.rewardPoolAddress s.self = .ok 0) :
    s.checkBalance P w asset = .ok value := by
  have hnone : s.stakedLP P w = 0 := amountOf_eq hstaked
  have hnoneLoose : s.looseLP P w = 0 := amountOf_eq hloose
  refine checkBalance_eq_ok.mpr ⟨hmapped, succeeds_iff.mpr ⟨_, hlent⟩, fun _ => ?_, ?_⟩
  · refine ⟨hpool, succeeds_iff.mpr ⟨_, hstaked⟩, succeeds_iff.mpr ⟨_, hloose⟩, ?_⟩
    rw [hnone, hnoneLoose]
    exact Nat.pos_of_ne_zero (by decide)
  · rw [if_neg fun hboth => hboth.2 hnone]
    exact (amountOf_eq hlent).symm

/-- Two worlds in which the share of an asset is told from the same amounts. -/
structure SameShare (P : Platform ω) (s : AaveStrategy) (asset : Address) (w w' : ω) : Prop where
  staked : P.balanceOf w' s.ubeStakingAddress s.self = P.balanceOf w s.ubeStakingAddress s.self
  loose : P.balanceOf w' s.rewardPoolAddress s.self = P.balanceOf w s.rewardPoolAddress s.self
  pooled : P.balanceOf w' (s.assetToPToken asset) s.rewardPoolAddress =
    P.balanceOf w (s.assetToPToken asset) s.rewardPoolAddress
  issued : P.totalSupply w' s.rewardPoolAddress = P.totalSupply w s.rewardPoolAddress

/-- With an amount less of the aToken, so much less is reported. -/
theorem SameShare.checkBalance_sub {w' : ω} {value amount : ℕ} (h : SameShare P s asset w w')
    (hstaking : s.ubeStakingAddress ≠ 0)
    (hsum : s.lent P w asset + s.pooled P w asset < wordBound)
    (hstaked : s.stakedLP P w ≤ P.issued w s.rewardPoolAddress)
    (hlent : P.balanceOf w' (s.assetToPToken asset) s.self = .ok (s.lent P w asset - amount))
    (hle : amount ≤ s.lent P w asset) (hvalue : s.checkBalance P w asset = .ok value) :
    s.checkBalance P w' asset = .ok (value - amount) := by
  have hstakedLP : s.stakedLP P w' = s.stakedLP P w := congrArg amountOf h.staked
  have hlooseLP : s.looseLP P w' = s.looseLP P w := congrArg amountOf h.loose
  have hpooled : s.pooled P w' asset = s.pooled P w asset := congrArg amountOf h.pooled
  have hissued : P.issued w' s.rewardPoolAddress = P.issued w s.rewardPoolAddress :=
    congrArg amountOf h.issued
  have hshare : s.pooledShare P w' asset (s.stakedLP P w') =
      s.pooledShare P w asset (s.stakedLP P w) := by
    rw [pooledShare, pooledShare, hissued, hpooled, hstakedLP]
  have hless : s.lent P w' asset = s.lent P w asset - amount := amountOf_eq hlent
  have heq := checkBalance_eq_add hstaking hsum hstaked hvalue
  obtain ⟨hmapped, -, hlp, hcase⟩ := checkBalance_eq_ok.mp hvalue
  have hanswers := hlp hstaking
  refine checkBalance_eq_ok.mpr ⟨hmapped, succeeds_iff.mpr ⟨_, hlent⟩, fun _ => ?_, ?_⟩
  · refine ⟨hanswers.pool, h.staked ▸ hanswers.staked, h.loose ▸ hanswers.loose, ?_⟩
    rw [hstakedLP, hlooseLP]
    exact hanswers.sum
  · rw [hstakedLP] at hshare ⊢
    by_cases hnone : s.stakedLP P w = 0
    · rw [if_neg fun hboth => hboth.2 hnone] at hcase ⊢
      rw [hless, hcase]
    · rw [if_pos ⟨hstaking, hnone⟩] at hcase ⊢
      obtain ⟨hpool, hfits, -⟩ := hcase
      refine ⟨⟨hpool.pair, hpool.aToken, hpool.pool, h.pooled ▸ hpool.pooled,
        h.issued ▸ hpool.issued⟩, ?_, ?_⟩
      · rw [hissued, hpooled]
        exact hfits
      · have hpart : s.pooledShare P w asset (s.stakedLP P w) ≤ s.pooled P w asset :=
          pooledShare_le hstaked
        rw [hshare, hless, Nat.mod_eq_of_lt (by omega), heq]
        omega

/-- After unstaking everything and taking all liquidity out, the aTokens are what was reported. -/
structure TakenOut (P : Platform ω) (s : AaveStrategy) (asset assetPair : Address) (w w' : ω) :
    Prop where
  first : P.balanceOf w' (s.assetToPToken asset) s.self =
    .ok (s.lent P w asset + s.pooledShare P w asset (s.stakedLP P w))
  second : P.balanceOf w' (s.assetToPToken assetPair) s.self =
    .ok (s.lent P w assetPair + s.pooledShare P w assetPair (s.stakedLP P w))
  staked : P.balanceOf w' s.ubeStakingAddress s.self = .ok 0
  loose : P.balanceOf w' s.rewardPoolAddress s.self = .ok 0
  asset : P.Keeps asset w w'

theorem unstakeLPTokens_eq (hstaking : s.ubeStakingAddress ≠ 0)
    (h : Succeeds (P.balanceOf w s.ubeStakingAddress s.self)) :
    s.unstakeLPTokens P w =
      if s.stakedLP P w ≠ 0 then callAt s.ubeStakingAddress
        (P.unstake w s.self s.ubeStakingAddress (s.stakedLP P w))
      else .ok w := by
  rw [unstakeLPTokens, ownBalance_iff.mpr ⟨hstaking, h, rfl⟩]
  rfl

/-- Taking liquidity out of the pool of a pair, for all LP tokens that are not staked. -/
theorem PairOf.removeLiquidity_eq (hpair : s.PairOf asset assetPair)
    (hpool : s.rewardPoolAddress ≠ 0) (h : Succeeds (P.balanceOf w s.rewardPoolAddress s.self)) :
    s.removeLiquidity P w asset =
      if s.looseLP P w ≠ 0 then do
        let deadline ← own (SafeMath.add (P.now w) 1800)
        callAt s.uniswapAddr (P.removeLiquidity w s.self s.uniswapAddr (s.assetToPToken asset)
          (s.assetToPToken assetPair) (s.looseLP P w) 0 0 s.self deadline)
      else .ok w := by
  rw [removeLiquidity, hpair.pair, own_require (u := ()) |>.mpr hpair.uniswap,
    getATokenFor_eq_ok.mpr ⟨hpair.mapped, rfl⟩, getATokenFor_eq_ok.mpr ⟨hpair.pairMapped, rfl⟩,
    ownBalance_iff.mpr ⟨hpool, h, rfl⟩]
  rfl

theorem takeOut_of_unstaked (hpair : s.PairOf asset assetPair) (hlp : s.LPAnswers P w)
    (hloose : s.looseLP P w = 0) (hstaked : s.stakedLP P w = 0)
    (hfirst : Succeeds (P.balanceOf w (s.assetToPToken asset) s.self))
    (hsecond : Succeeds (P.balanceOf w (s.assetToPToken assetPair) s.self)) :
    Returns (s.unstakeLPTokens P w >>= fun w => s.removeLiquidity P w asset)
      (TakenOut P s asset assetPair w) := by
  refine ⟨w, bind_eq_ok.mpr ⟨w, ?_, ?_⟩, ?_⟩
  · rw [unstakeLPTokens_eq hpair.staking hlp.staked, if_neg (not_not.mpr hstaked)]
  · rw [hpair.removeLiquidity_eq hlp.pool hlp.loose, if_neg (not_not.mpr hloose)]
  · constructor
    · rw [hstaked, pooledShare_zero, add_zero]
      exact Platform.balanceOf_eq_held hfirst
    · rw [hstaked, pooledShare_zero, add_zero]
      exact Platform.balanceOf_eq_held hsecond
    · rw [Platform.balanceOf_eq_held hlp.staked]
      exact congrArg Except.ok hstaked
    · rw [Platform.balanceOf_eq_held hlp.loose]
      exact congrArg Except.ok hloose
    · exact ⟨rfl, rfl⟩

/-- Unstaking everything and taking all liquidity out goes through. -/
theorem Conventional.takeOut (hconv : s.Conventional P asset assetPair account)
    (hpair : s.PairOf asset assetPair) (hlp : s.LPAnswers P w) (hloose : s.looseLP P w = 0)
    (htime : P.now w + 1800 < wordBound)
    (hfirst : Succeeds (P.balanceOf w (s.assetToPToken asset) s.self))
    (hsecond : Succeeds (P.balanceOf w (s.assetToPToken assetPair) s.self)) :
    Returns (s.unstakeLPTokens P w >>= fun w => s.removeLiquidity P w asset)
      (TakenOut P s asset assetPair w) := by
  by_cases hstaked : s.stakedLP P w = 0
  · exact takeOut_of_unstaked hpair hlp hloose hstaked hfirst hsecond
  have hpos : 0 < s.stakedLP P w := Nat.pos_of_ne_zero hstaked
  obtain ⟨w₁, hunstake, hunstaked⟩ := hconv.stake.returns w hpos le_rfl
  have hreturned : s.looseLP P w₁ = s.stakedLP P w := by
    refine (amountOf_eq hunstaked.returned).trans ?_
    exact (congrArg (· + s.stakedLP P w) hloose).trans (zero_add _)
  have hdue : P.now w₁ ≤ P.now w + 1800 := hunstaked.time ▸ Nat.le_add_right _ _
  obtain ⟨w₂, hremove, hremoved⟩ :=
    hconv.shares w₁ (s.looseLP P w₁) (P.now w + 1800) (hreturned ▸ hpos) le_rfl hdue
  have hdistinct := hconv.distinct
  simp only [List.nodup_cons, List.mem_cons, List.not_mem_nil, or_false, not_or] at hdistinct
  obtain ⟨-, ⟨ha1, ha2, hap, has⟩, ⟨h12, h1p, h1s⟩, ⟨h2p, h2s⟩, hps, -⟩ := hdistinct
  have hkeeps : ∀ token, token ≠ s.ubeStakingAddress → token ≠ s.rewardPoolAddress →
      ∀ holder, P.held w₁ token holder = P.held w token holder := by
    intro token hne hne' holder
    exact congrArg (amountOf <| · holder) (hunstaked.others token hne hne').balanceOf
  have hissued : P.issued w₁ s.rewardPoolAddress = P.issued w s.rewardPoolAddress :=
    congrArg amountOf hunstaked.supply
  refine ⟨w₂, bind_eq_ok.mpr ⟨w₁, ?_, ?_⟩, ?_⟩
  · rw [unstakeLPTokens_eq hpair.staking hlp.staked, if_pos hstaked]
    exact callAt_eq_ok.mpr ⟨hpair.staking, hunstake⟩
  · rw [hpair.removeLiquidity_eq hlp.pool (succeeds_iff.mpr ⟨_, hunstaked.returned⟩),
      if_pos (hreturned ▸ hstaked), hunstaked.time]
    exact bind_eq_ok.mpr ⟨_, own_eq_ok.mpr (SafeMath.add_eq_ok.mpr ⟨htime, rfl⟩),
      callAt_eq_ok.mpr ⟨hpair.uniswap, hremove⟩⟩
  · constructor
    · rw [hremoved.first, hreturned, hissued, hkeeps _ h1s h1p, hkeeps _ h1s h1p]
      rfl
    · rw [hremoved.second, hreturned, hissued, hkeeps _ h2s h2p, hkeeps _ h2s h2p]
      rfl
    · rw [(hremoved.others _ (Ne.symm hps) (Ne.symm h1s) (Ne.symm h2s)).balanceOf,
        hunstaked.staked]
      exact congrArg Except.ok (Nat.sub_self _)
    · rw [hremoved.burnt]
      exact congrArg Except.ok (Nat.sub_self _)
    · have hfirst := hunstaked.others asset has hap
      have hsecond := hremoved.others asset hap ha1 ha2
      exact ⟨hsecond.balanceOf.trans hfirst.balanceOf,
        hsecond.totalSupply.trans hfirst.totalSupply⟩

/-- An amount of the asset was paid to the account, for as much of the aToken. -/
structure Paid (P : Platform ω) (s : AaveStrategy) (asset account : Address) (amount : ℕ)
    (w w' : ω) : Prop where
  lent : P.balanceOf w' (s.assetToPToken asset) s.self = .ok (s.lent P w asset - amount)
  holders : ∀ holder, holder ≠ s.self → P.balanceOf w' (s.assetToPToken asset) holder =
    P.balanceOf w (s.assetToPToken asset) holder
  others : ∀ token, token ≠ s.assetToPToken asset → token ≠ asset → P.Keeps token w w'
  account : P.held w' asset account = P.held w asset account + amount

/-- The end of `withdraw`: what is redeemed is sent on. -/
def redeemTo (P : Platform ω) (s : AaveStrategy) (w : ω) (asset account : Address) (amount : ℕ) :
    Except Failure ω := do
  let w ← callAt (s.assetToPToken asset)
    (P.redeemAToken w s.self (s.assetToPToken asset) amount)
  callAt asset (P.safeTransfer w s.self asset account amount)

theorem Conventional.redeemTo (hconv : s.Conventional P asset assetPair account)
    (hmapped : s.assetToPToken asset ≠ 0) (hasset : asset ≠ 0) {amount : ℕ} (hamount : 0 < amount)
    (hle : amount ≤ s.lent P w asset) :
    Returns (s.redeemTo P w asset account amount) (Paid P s asset account amount w) := by
  obtain ⟨w₁, hredeem, hredeemed⟩ := hconv.redeem w amount hamount hle
  have henough : amount ≤ P.held w₁ asset s.self := by
    rw [hredeemed.received]
    exact Nat.le_add_left _ _
  obtain ⟨w₂, hsend, hsent⟩ := hconv.send w₁ amount hamount henough
  have hne : s.assetToPToken asset ≠ asset := by
    intro heq
    have hdistinct := hconv.distinct
    rw [heq] at hdistinct
    simp at hdistinct
  have hkeeps := hsent.others _ hne
  refine ⟨w₂, bind_eq_ok.mpr ⟨w₁, callAt_eq_ok.mpr ⟨hmapped, hredeem⟩,
    callAt_eq_ok.mpr ⟨hasset, hsend⟩⟩, ?_, fun holder hholder => ?_, fun token h1 h2 => ?_, ?_⟩
  · rw [hkeeps.balanceOf]
    exact hredeemed.burnt
  · rw [hkeeps.balanceOf]
    exact hredeemed.holders holder hholder
  · have hfirst := hredeemed.others token h1 h2
    have hsecond := hsent.others token h2
    exact ⟨hsecond.balanceOf.trans hfirst.balanceOf,
      hsecond.totalSupply.trans hfirst.totalSupply⟩
  · rw [hsent.received]
    by_cases hself : account = s.self
    · rw [if_pos hself, hself, hredeemed.received, add_zero]
    · rw [if_neg hself, hredeemed.account hself]

/-- A payment of the asset leaves the staking contract, the pool and the other aToken alone. -/
theorem Paid.keeps {w' : ω} {amount : ℕ} (h : Paid P s asset account amount w w')
    (hconv : s.Conventional P asset assetPair account) :
    P.Keeps s.ubeStakingAddress w w' ∧ P.Keeps s.rewardPoolAddress w w' ∧
      P.Keeps (s.assetToPToken assetPair) w w' := by
  have hdistinct := hconv.distinct
  simp only [List.nodup_cons, List.mem_cons, List.not_mem_nil, or_false, not_or] at hdistinct
  obtain ⟨-, ⟨-, ha2, hap, has⟩, ⟨h12, h1p, h1s⟩, -⟩ := hdistinct
  exact ⟨h.others _ (Ne.symm h1s) (Ne.symm has), h.others _ (Ne.symm h1p) (Ne.symm hap),
    h.others _ (Ne.symm h12) (Ne.symm ha2)⟩

/-- What a withdrawal is for: the account gets the amount, so much less is reported of the asset,
and as much as before of its pair. -/
structure Honours (P : Platform ω) (s : AaveStrategy) (asset assetPair account : Address)
    (amount value valuePair : ℕ) (w w' : ω) : Prop where
  paid : P.held w' asset account = P.held w asset account + amount
  lowered : s.checkBalance P w' asset = .ok (value - amount)
  unchanged : s.checkBalance P w' assetPair = .ok valuePair

/-- A withdrawal of less than the aTokens at hand leaves the pool alone. -/
theorem Paid.honours {w' : ω} {amount value valuePair : ℕ}
    (h : Paid P s asset account amount w w') (hconv : s.Conventional P asset assetPair account)
    (hpair : s.PairOf asset assetPair) (hbounded : s.Bounded P w asset assetPair)
    (hle : amount ≤ s.lent P w asset) (hvalue : s.checkBalance P w asset = .ok value)
    (hvaluePair : s.checkBalance P w assetPair = .ok valuePair) :
    Honours P s asset assetPair account amount value valuePair w w' := by
  obtain ⟨hstakingKept, hpoolKept, hpairKept⟩ := h.keeps hconv
  have hpool : s.rewardPoolAddress ≠ s.self := by
    intro heq
    have hdistinct := hconv.distinct
    rw [heq] at hdistinct
    simp at hdistinct
  have hsame : SameShare P s asset w w' := {
    staked := congrFun hstakingKept.balanceOf s.self
    loose := congrFun hpoolKept.balanceOf s.self
    pooled := h.holders _ hpool
    issued := hpoolKept.totalSupply }
  have hsamePair : SameShare P s assetPair w w' := {
    hsame with pooled := congrFun hpairKept.balanceOf s.rewardPoolAddress }
  obtain ⟨-, hlentPair, -⟩ := checkBalance_eq_ok.mp hvaluePair
  have hlentPair : P.balanceOf w' (s.assetToPToken assetPair) s.self =
      .ok (s.lent P w assetPair - 0) :=
    (congrFun hpairKept.balanceOf s.self).trans (Platform.balanceOf_eq_held hlentPair)
  constructor
  · exact h.account
  · exact hsame.checkBalance_sub hpair.staking hbounded.first hbounded.staked h.lent hle hvalue
  · exact hsamePair.checkBalance_sub hpair.staking hbounded.second hbounded.staked hlentPair
      (Nat.zero_le _) hvaluePair

/-- After everything was taken out, what was reported of both assets is there in aTokens. -/
theorem TakenOut.honours {w₁ w' : ω} {amount value valuePair : ℕ}
    (h : TakenOut P s asset assetPair w w₁) (hpaid : Paid P s asset account amount w₁ w')
    (hconv : s.Conventional P asset assetPair account) (hpair : s.PairOf asset assetPair)
    (hpool : s.rewardPoolAddress ≠ 0)
    (hvalue : value = s.lent P w asset + s.pooledShare P w asset (s.stakedLP P w))
    (hvaluePair :
      valuePair = s.lent P w assetPair + s.pooledShare P w assetPair (s.stakedLP P w)) :
    Honours P s asset assetPair account amount value valuePair w w' := by
  obtain ⟨hstakingKept, hpoolKept, hpairKept⟩ := hpaid.keeps hconv
  have hlent : s.lent P w₁ asset = value := (amountOf_eq h.first).trans hvalue.symm
  have hstaked : P.balanceOf w' s.ubeStakingAddress s.self = .ok 0 := by
    rw [hstakingKept.balanceOf]
    exact h.staked
  have hloose : P.balanceOf w' s.rewardPoolAddress s.self = .ok 0 := by
    rw [hpoolKept.balanceOf]
    exact h.loose
  constructor
  · have hsame : P.held w₁ asset account = P.held w asset account :=
      congrArg amountOf (congrFun h.asset.balanceOf account)
    rw [hpaid.account, hsame]
  · refine checkBalance_of_unstaked hpair.mapped hpool ?_ hstaked hloose
    rw [← hlent]
    exact hpaid.lent
  · refine checkBalance_of_unstaked hpair.pairMapped hpool ?_ hstaked hloose
    rw [hpairKept.balanceOf, hvaluePair]
    exact h.second

/-- Past its checks, a withdrawal takes everything out where the aTokens at hand are not more than
the amount, and then redeems and sends it. -/
theorem withdraw_eq (hmapped : s.assetToPToken asset ≠ 0) (hstaking : s.ubeStakingAddress ≠ 0)
    (hlent : Succeeds (P.balanceOf w (s.assetToPToken asset) s.self)) (haccount : account ≠ 0)
    {amount : ℕ} (hamount : 0 < amount) :
    s.withdraw P w s.vaultAddress account asset amount = (do
      let w ← (if s.lent P w asset ≤ amount then
          s.unstakeLPTokens P w >>= fun w => s.removeLiquidity P w asset
        else .ok w)
      s.redeemTo P w asset account amount) := by
  have hown : s.ownBalance P w (s.assetToPToken asset) = .ok (s.lent P w asset) :=
    ownBalance_iff.mpr ⟨hmapped, hlent, rfl⟩
  rw [withdraw, AbstractStrategy.onlyVault_eq_ok (u := ()) |>.mpr rfl,
    own_require (u := ()) |>.mpr hamount, own_require (u := ()) |>.mpr haccount,
    getATokenFor_eq_ok.mpr ⟨hmapped, rfl⟩]
  change (if s.ubeStakingAddress ≠ 0 then s.ownBalance P w (s.assetToPToken asset) >>= _
    else _) >>= _ = _
  rw [if_pos hstaking, hown]
  rfl

/-- A withdrawal of up to what is reported, where there are no LP tokens but those that are
staked. The LP tokens are needed from where the amount is all of the aTokens at hand. -/
theorem Conventional.withdraw (hconv : s.Conventional P asset assetPair account)
    (hpair : s.PairOf asset assetPair) (hzero : s.Mapped) (hloose : s.looseLP P w = 0)
    (hbounded : s.Bounded P w asset assetPair) (haccount : account ≠ 0)
    {amount value valuePair : ℕ} (hamount : 0 < amount) (hle : amount ≤ value)
    (hvalue : s.checkBalance P w asset = .ok value)
    (hvaluePair : s.checkBalance P w assetPair = .ok valuePair) :
    Returns (s.withdraw P w s.vaultAddress account asset amount)
      (Honours P s asset assetPair account amount value valuePair w) := by
  have hasset : asset ≠ 0 := by
    rintro rfl
    exact hpair.mapped hzero.zero
  obtain ⟨-, hlent, hlp, -⟩ := checkBalance_eq_ok.mp hvalue
  obtain ⟨-, hlentPair, -⟩ := checkBalance_eq_ok.mp hvaluePair
  have hanswers := hlp hpair.staking
  have hsum := checkBalance_eq_add hpair.staking hbounded.first hbounded.staked hvalue
  have hsumPair := checkBalance_eq_add hpair.staking hbounded.second hbounded.staked hvaluePair
  rw [withdraw_eq hpair.mapped hpair.staking hlent haccount hamount]
  by_cases hneeded : s.lent P w asset ≤ amount
  · obtain ⟨w₁, htakeOut, htakenOut⟩ :=
      hconv.takeOut hpair hanswers hloose hbounded.time hlent hlentPair
    have henough : amount ≤ s.lent P w₁ asset := by
      rw [lent, Platform.held, amountOf_eq htakenOut.first, ← hsum]
      exact hle
    obtain ⟨w', hpay, hpaid⟩ := hconv.redeemTo hpair.mapped hasset hamount henough
    refine ⟨w', bind_eq_ok.mpr ⟨w₁, (if_pos hneeded).trans htakeOut, hpay⟩, ?_⟩
    exact htakenOut.honours hpaid hconv hpair hanswers.pool hsum hsumPair
  · have henough : amount ≤ s.lent P w asset := (not_le.mp hneeded).le
    obtain ⟨w', hpay, hpaid⟩ := hconv.redeemTo hpair.mapped hasset hamount henough
    refine ⟨w', bind_eq_ok.mpr ⟨w, if_neg hneeded, hpay⟩, ?_⟩
    exact hpaid.honours hconv hpair hbounded henough hvalue hvaluePair

/-- In every state that is reached by the strategy's own operations from an initialization that
found no LP tokens, a withdrawal of up to what is reported of an asset pays the amount, lowers what
is reported by it, and leaves what is reported of the pair. -/
theorem withdraw_honours {init : AaveStrategy × ω} {self governor sender platformAddress
      vaultAddress rewardTokenAddress ubeStakingAddress token1 token2 secondaryRewardTokenAddress :
      Address} {assets pTokens : List Address}
    (hinit : (deployed self governor).initialized P w sender platformAddress vaultAddress
      rewardTokenAddress assets pTokens ubeStakingAddress token1 token2
      secondaryRewardTokenAddress = .ok init)
    (hnone : init.1.looseLP P init.2 = 0)
    {trace : List ((AaveStrategy × ω) × (Address × Action ω))} {s : AaveStrategy × ω}
    (hrun : Run (fun s step s' => exec P s step = .ok s') init trace s)
    (hown : ∀ e ∈ trace, OwnOperation P e.1 e.2.2)
    (hpair : s.1.rewardLiquidityPair asset = assetPair)
    (hconv : init.1.Conventional P asset assetPair account)
    (hbounded : s.1.Bounded P s.2 asset assetPair) (haccount : account ≠ 0)
    {amount value valuePair : ℕ} (hamount : 0 < amount) (hle : amount ≤ value)
    (hvalue : s.1.checkBalance P s.2 asset = .ok value)
    (hvaluePair : s.1.checkBalance P s.2 assetPair = .ok valuePair) :
    Returns (s.1.withdraw P s.2 s.1.vaultAddress account asset amount)
      (Honours P s.1 asset assetPair account amount value valuePair s.2) := by
  obtain ⟨hzero, honly⟩ := pairOf_initialized hinit
  have hlast := StandsAs.of_run hzero (fun other hother => (honly other hother).mapped) hrun hown
  obtain ⟨hpairMapped, -⟩ := checkBalance_eq_ok.mp hvaluePair
  have hsome : init.1.rewardLiquidityPair asset ≠ 0 := by
    rw [← hlast.pairs, hpair]
    rintro rfl
    exact hpairMapped hlast.mapped.zero
  have hpairOf : init.1.PairOf asset assetPair := by
    rw [← hpair, hlast.pairs]
    exact honly asset hsome
  have hloose := looseLP_of_run hzero hpairOf hconv hnone hrun hown
  exact (hlast.conventional hzero hpairOf hconv).withdraw (hlast.pairOf hzero hpairOf) hlast.mapped
    hloose hbounded haccount hamount hle hvalue hvaluePair

section

open PlainPlatform

/-- A strategy at 21 with governor 8 and vault 9, for the pair of 4 and 5, at an exchange. -/
def initializedExchange : Except Failure (AaveStrategy × PlainPlatform) :=
  (deployed 21 8).initialized (exchange market) empty 8 70 9 44 [4, 5] [31, 32] 60 4 5 0

/-- A pool in which others have the liquidity, and a strategy with aTokens of one of the assets
and something to deposit of the other. -/
def exchangePool : PlainPlatform :=
  (((((empty.create 4 31 400).create 31 21 20).create 5 21 10).create 31 52 300).create 32 52
    300).create 52 2 200

/-- A deposit gives liquidity, and a withdrawal of more than the aTokens left takes it out. -/
theorem withdraw_honours_unwound :
    ∃ init trace s, initializedExchange = .ok init ∧
      Run (fun s step s' => exec (exchange market) s step = .ok s') init trace s ∧
        s.1.stakedLP (exchange market) s.2 = 6 ∧ s.1.lent (exchange market) s.2 4 = 10 ∧
          Returns (s.1.withdraw (exchange market) s.2 s.1.vaultAddress 1 4 12)
            (Honours (exchange market) s.1 4 5 1 12 19 9 s.2) := by
  have haddresses : Returns initializedExchange fun init =>
      init.1.self = 21 ∧ init.1.uniswapAddr = 50 ∧ init.1.ubeStakingAddress = 60 ∧
        init.1.rewardPoolAddress = 52 ∧ init.1.assetToPToken 4 = 31 ∧
          init.1.assetToPToken 5 = 32 ∧ init.1.looseLP (exchange market) init.2 = 0 ∧
            init.1.looseLP (exchange market) exchangePool = 0 := by
    decide
  have hsteps : Returns initializedExchange fun init =>
      Returns (exec (exchange market) init (3, .environment exchangePool)) fun s₁ =>
        Returns (exec (exchange market) s₁ (9, .operate (.deposit 5 10))) fun s =>
          s.1.rewardLiquidityPair 4 = 5 ∧ s.1.stakedLP (exchange market) s.2 = 6 ∧
            s.1.lent (exchange market) s.2 4 = 10 ∧ s.1.Bounded (exchange market) s.2 4 5 ∧
              s.1.checkBalance (exchange market) s.2 4 = .ok 19 ∧
                s.1.checkBalance (exchange market) s.2 5 = .ok 9 := by
    decide
  obtain ⟨init, hinit, s₁, hs₁, s, hs, hpair, hstaked, hlent, hbounded, hvalue, hvaluePair⟩ :=
    hsteps
  obtain ⟨hself, huniswap, hstaking, hpool, hfirst, hsecond, hnone, hgiven⟩ :=
    haddresses.of_eq_ok hinit
  have hconv : init.1.Conventional (exchange market) 4 5 1 := by
    constructor
    · rw [hself, hpool]
      refine exchange_bringsNone (fun asset => ?_) (fun aToken => ?_) (by decide) 21
      · simp only [market]
        split_ifs <;> decide
      · simp only [market]
        split_ifs <;> decide
    · rw [hself, hstaking, hpool]
      exact exchange_keepsStake (by decide) (by decide)
    · rw [hself, huniswap, hpool, hfirst, hsecond]
      exact exchange_paysShares (by decide) (by decide) 21 50
    · rw [hself, huniswap, hpool, hfirst, hsecond]
      exact exchange_paysShares (by decide) (by decide) 21 50
    · rw [hself, hfirst]
      exact exchange_redeemsAtPar (by decide) (by decide)
    · exact exchange_sends market _ 4 1
    · rw [hself, hfirst, hsecond, hpool, hstaking]
      decide
  have hrun : Run (fun s step s' => exec (exchange market) s step = .ok s') init
      [(s₁, (9, .operate (.deposit 5 10))), (init, (3, .environment exchangePool))] s :=
    (Run.nil.cons hs₁).cons hs
  refine ⟨init, _, s, hinit, hrun, hstaked, hlent, withdraw_honours hinit hnone hrun ?_ hpair hconv
    hbounded (by decide) (by decide) (by decide) hvalue hvaluePair⟩
  refine List.forall_mem_cons.mpr ⟨fun h => ?_, ?_⟩
  · cases h
  · exact List.forall_mem_singleton.mpr (hgiven.le.trans hnone.ge)

end

end AaveStrategy

end InterestDollar
