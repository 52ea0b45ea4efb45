import InterestDollar.Strategy.CoinOrder
import InterestDollar.Strategy.Settlement

/-!
# Removing a strategy

The vault takes everything back before it forgets a strategy: it asks the strategy for all
assets and, if there is a reward token, for the rewards. Two of the strategies send on
whatever they are paid. The strategy of the pool reads the balance of its reward token before
the rewards are paid, and sends only as many of the pool's coins as it has assets; what is
paid besides stays behind.
-/

namespace InterestDollar

open Checked Transition

variable {ω : Type} {P : Platform ω} {paid : ω → Address → ℤ} {w w' : ω} {sender : Address}

/-! ## The Aave strategy -/

namespace AaveStrategy

variable {s : AaveStrategy}

/-- The tokens in which the strategy is paid rewards, where it collects them. -/
def Rewarded (s : AaveStrategy) (token : Address) : Prop :=
  s.rewardTokenAddress ≠ 0 ∧
    (token = s.rewardTokenAddress ∨
      s.secondaryRewardTokenAddress ≠ 0 ∧ token = s.secondaryRewardTokenAddress)

/-- What the platforms of the strategy pay in its calls: aTokens are redeemed for their asset;
taking liquidity out gives no asset and no reward; rewards are paid in the two reward tokens, when
they are claimed and also when the strategy unstakes or redeems; and the second reward token is
sold for the first. -/
structure PlatformSettles (P : Platform ω) (paid : ω → Address → ℤ) (s : AaveStrategy) : Prop where
  unstake {w w' : ω} {amount : ℕ} : P.unstake w s.self s.ubeStakingAddress amount = .ok w' →
    Pays P paid s.toAbstractStrategy s.assetsMapped s.Rewarded w w'
  removeLiquidity {w w' : ω} {aToken1 aToken2 : Address} {liquidity deadline : ℕ} :
    P.removeLiquidity w s.self s.uniswapAddr aToken1 aToken2 liquidity 0 0 s.self deadline =
      .ok w' → ∀ token ∈ s.rewardTokenAddress :: s.assetsMapped,
        Untouched P paid s.toAbstractStrategy token w w'
  redeemAToken {w w' : ω} {asset : Address} {amount : ℕ} : asset ∈ s.assetsMapped →
    P.redeemAToken w s.self (s.assetToPToken asset) amount = .ok w' →
      Pays P paid s.toAbstractStrategy s.assetsMapped
        (fun coin => coin = asset ∨ s.Rewarded coin) w w'
  getReward {w w' : ω} : P.getReward w s.self s.ubeStakingAddress = .ok w' →
    (∀ token ∈ s.rewardTokenAddress :: s.assetsMapped,
      Settles P paid s.toAbstractStrategy token w w') ∧
    ∀ coin ∈ s.assetsMapped, coin ≠ s.rewardTokenAddress →
      (s.secondaryRewardTokenAddress ≠ 0 → coin ≠ s.secondaryRewardTokenAddress) →
        Untouched P paid s.toAbstractStrategy coin w w'
  swap {w w' : ω} {celo : Address} {amount deadline : ℕ} :
    P.swapExactTokensForTokens w s.self s.uniswapAddr amount 0
      [s.secondaryRewardTokenAddress, celo, s.rewardTokenAddress] s.self deadline = .ok w' →
    (∀ token ∈ s.rewardTokenAddress :: s.assetsMapped,
      Settles P paid s.toAbstractStrategy token w w') ∧
    (s.secondaryRewardTokenAddress ≠ s.rewardTokenAddress →
      P.held w' s.secondaryRewardTokenAddress s.self + amount =
        P.held w s.secondaryRewardTokenAddress s.self) ∧
    ∀ coin ∈ s.assetsMapped, coin ≠ s.rewardTokenAddress → coin ≠ s.secondaryRewardTokenAddress →
      Untouched P paid s.toAbstractStrategy coin w w'

theorem withdrawAsset_clears (htokens : StandardTokens P paid s.toAbstractStrategy)
    (hP : s.PlatformSettles P paid) {asset : Address} (hasset : asset ∈ s.assetsMapped) (w : ω) :
    Ensures (s.withdrawAsset P w asset)
      (Clears P paid s.toAbstractStrategy s.assetsMapped s.Rewarded w) := by
  refine ensures_bind (P := Clears P paid s.toAbstractStrategy s.assetsMapped s.Rewarded w) ?_ ?_
  · refine ensures_ite (fun _ => ?_) fun _ => ensures_pure (.refl w)
    exact ensures_takeOut .refl .trans (fun h => (hP.unstake h).clears)
      (fun h => (pays_of_untouched (hP.removeLiquidity h)).clears) w asset
  · intro w₁ hw₁
    refine ensures_of_bind fun aToken haToken => ensures_of_bind fun _ _ => ?_
    obtain ⟨_, -, haToken⟩ := bind_eq_ok.mp haToken
    cases pure_eq_ok.mp haToken
    refine ensures_ite (fun _ => ?_) fun _ => ensures_pure hw₁
    refine ensures_of_bind fun w₂ hredeem => ?_
    have hredeem := hP.redeemAToken hasset (callAt_eq_ok.mp hredeem).2
    exact fun w' h => hw₁.trans (hredeem.clears_sendAllToVault htokens h)

theorem withdrawAll_clears (htokens : StandardTokens P paid s.toAbstractStrategy)
    (hP : s.PlatformSettles P paid) (w : ω) :
    Ensures (s.withdrawAll P w sender)
      (Clears P paid s.toAbstractStrategy s.assetsMapped s.Rewarded w) :=
  ensures_of_bind fun _ _ =>
    clears_foldlM (fun w _ hasset => withdrawAsset_clears htokens hP hasset w) w

/-- The swap leaves none of the second reward token, unless that is the first one. -/
theorem swapSecondary_eq_ok (htokens : StandardTokens P paid s.toAbstractStrategy)
    (hP : s.PlatformSettles P paid) (h : s.swapSecondary P w = .ok w') :
    (∀ token ∈ s.rewardTokenAddress :: s.assetsMapped,
      Settles P paid s.toAbstractStrategy token w w') ∧
    (s.secondaryRewardTokenAddress ≠ s.rewardTokenAddress →
      P.held w' s.secondaryRewardTokenAddress s.self = 0) ∧
    ∀ coin ∈ s.assetsMapped, coin ≠ s.rewardTokenAddress → coin ≠ s.secondaryRewardTokenAddress →
      Untouched P paid s.toAbstractStrategy coin w w' := by
  obtain ⟨w₁, happrove, h⟩ := bind_eq_ok.mp h
  obtain ⟨celo, -, h⟩ := bind_eq_ok.mp h
  obtain ⟨amount, hamount, h⟩ := bind_eq_ok.mp h
  obtain ⟨deadline, -, h⟩ := bind_eq_ok.mp h
  have happrove := fun other => htokens.safeApproveMax other happrove
  have hamount := ownBalance_eq_ok hamount
  obtain ⟨hsettles, hsold, hothers⟩ := hP.swap (callAt_eq_ok.mp h).2
  refine ⟨fun token hmem => (happrove token).settles.trans (hsettles token hmem), ?_, ?_⟩
  · intro hne
    have hsold := hsold hne
    omega
  · exact fun coin hmem hne hne' => (happrove coin).trans (hothers coin hmem hne hne')

/-- What is claimed is paid in the two reward tokens, and the second is sold: afterwards the
strategy has neither of them. -/
theorem collectRewardToken_clears (htokens : StandardTokens P paid s.toAbstractStrategy)
    (hP : s.PlatformSettles P paid) (h : s.collectRewardToken P w sender = .ok w') :
    Clears P paid s.toAbstractStrategy s.assetsMapped s.Rewarded w w' ∧
      ∀ token, s.Rewarded token → P.held w' token s.self = 0 := by
  obtain ⟨_, -, h⟩ := bind_eq_ok.mp h
  obtain ⟨w₁, hreward, h⟩ := bind_eq_ok.mp h
  obtain ⟨w₂, hswap, h⟩ := bind_eq_ok.mp h
  obtain ⟨hpaid, hunpaid⟩ := hP.getReward (callAt_eq_ok.mp hreward).2
  have hmiddle : (∀ token ∈ s.rewardTokenAddress :: s.assetsMapped,
        Settles P paid s.toAbstractStrategy token w w₂) ∧
      (s.secondaryRewardTokenAddress ≠ 0 →
        s.secondaryRewardTokenAddress ≠ s.rewardTokenAddress →
          P.held w₂ s.secondaryRewardTokenAddress s.self = 0) ∧
      ∀ coin ∈ s.assetsMapped, coin ≠ s.rewardTokenAddress →
        Cleared P paid s.toAbstractStrategy coin w w₂ := by
    split_ifs at hswap with hsecondary
    · obtain ⟨balance, hbalance, hswap⟩ := bind_eq_ok.mp hswap
      have hbalance := ownBalance_eq_ok hbalance
      split_ifs at hswap with hsome
      · obtain ⟨hsettles, hsold, hothers⟩ := swapSecondary_eq_ok htokens hP hswap
        refine ⟨fun token hmem => (hpaid token hmem).trans (hsettles token hmem),
          fun _ => hsold, ?_⟩
        intro coin hmem hne
        by_cases heq : coin = s.secondaryRewardTokenAddress
        · exact .inl (heq ▸ hsold (heq ▸ hne))
        · exact ((hunpaid coin hmem hne fun _ => heq).trans (hothers coin hmem hne heq)).cleared
      · cases pure_eq_ok.mp hswap
        have hnone : P.held w₁ s.secondaryRewardTokenAddress s.self = 0 :=
          hbalance.symm.trans (not_not.mp hsome)
        refine ⟨hpaid, fun _ _ => hnone, fun coin hmem hne => ?_⟩
        by_cases heq : coin = s.secondaryRewardTokenAddress
        · exact .inl (heq ▸ hnone)
        · exact (hunpaid coin hmem hne fun _ => heq).cleared
    · cases pure_eq_ok.mp hswap
      exact ⟨hpaid, fun hset => absurd hset hsecondary, fun coin hmem hne =>
        (hunpaid coin hmem hne fun hset => absurd hset hsecondary).cleared⟩
  obtain ⟨hsettles, hsold, hcleared⟩ := hmiddle
  obtain ⟨hsent, -, hkept⟩ := htokens.sendAllToVault h
  refine ⟨htokens.clears_sendAllToVault hsettles (fun coin hmem hne _ => hcleared coin hmem hne) h,
    ?_⟩
  rintro token ⟨-, rfl | ⟨hset, rfl⟩⟩
  · exact hsent
  · by_cases hne : s.secondaryRewardTokenAddress = s.rewardTokenAddress
    · exact hne ▸ hsent
    · exact (hkept _ hne).own.trans (hsold hset hne)

end AaveStrategy

/-! ## The Compound strategy -/

namespace CompoundStrategy

variable {s : CompoundStrategy}

/-- The token in which the strategy is paid rewards, where it collects them. -/
def Rewarded (s : CompoundStrategy) (token : Address) : Prop :=
  s.rewardTokenAddress ≠ 0 ∧ token = s.rewardTokenAddress

/-- What the platform of the strategy pays in its calls: cTokens are redeemed for their asset, and
rewards are paid in the reward token, when they are claimed and also when cTokens are redeemed. -/
structure PlatformSettles (P : Platform ω) (paid : ω → Address → ℤ) (s : CompoundStrategy) :
    Prop where
  redeemCToken {w w' : ω} {asset : Address} {amount code : ℕ} : asset ∈ s.assetsMapped →
    P.redeemCToken w s.self (s.assetToPToken asset) amount = .ok (w', code) →
      Pays P paid s.toAbstractStrategy s.assetsMapped
        (fun coin => coin = asset ∨ s.Rewarded coin) w w'
  claimComp {w w' : ω} {comptroller : Address} :
    P.claimComp w s.self comptroller s.self = .ok w' →
      PaysOnly P paid s.toAbstractStrategy s.assetsMapped s.rewardTokenAddress w w'

theorem withdrawAll_clears (htokens : StandardTokens P paid s.toAbstractStrategy)
    (hP : s.PlatformSettles P paid) (w : ω) :
    Ensures (s.withdrawAll P w sender)
      (Clears P paid s.toAbstractStrategy s.assetsMapped s.Rewarded w) := by
  refine ensures_of_bind fun _ _ => clears_foldlM (fun w asset hasset => ?_) w
  refine ensures_of_bind fun cToken hcToken => ensures_of_bind fun _ _ => ?_
  obtain ⟨_, -, hcToken⟩ := bind_eq_ok.mp hcToken
  cases pure_eq_ok.mp hcToken
  refine ensures_ite (fun _ => ?_) fun _ => ensures_pure (.refl w)
  refine ensures_of_bind fun r hredeem => ensures_of_bind fun _ _ => ?_
  have hredeem := hP.redeemCToken hasset (callAt_eq_ok.mp hredeem).2
  exact fun w' h => hredeem.clears_sendAllToVault htokens h

theorem collectRewardToken_clears (htokens : StandardTokens P paid s.toAbstractStrategy)
    (hP : s.PlatformSettles P paid) (h : s.collectRewardToken P w sender = .ok w') :
    Clears P paid s.toAbstractStrategy s.assetsMapped s.Rewarded w w' ∧
      ∀ token, s.Rewarded token → P.held w' token s.self = 0 := by
  obtain ⟨_, -, h⟩ := bind_eq_ok.mp h
  split at h
  · cases h
  · obtain ⟨cToken, -, h⟩ := bind_eq_ok.mp h
    obtain ⟨comptroller, -, h⟩ := bind_eq_ok.mp h
    obtain ⟨w₁, hclaim, h⟩ := bind_eq_ok.mp h
    have hclaim := hP.claimComp (callAt_eq_ok.mp hclaim).2
    refine ⟨hclaim.clears htokens h, ?_⟩
    rintro token ⟨-, rfl⟩
    exact (htokens.sendAllToVault h).1

end CompoundStrategy

/-! ## The strategy of the pool -/

namespace ThreePoolStrategy

variable {s : ThreePoolStrategy} {coins : List Address} {share : ω → ℕ → ℕ → ℕ} {pending : ω → ℕ}

/-- What the platforms of the strategy pay in its calls: the pool gives its share of each coin for
an amount of pool tokens; the gauge gives pool tokens only, which changes neither the shares nor
the rewards; and the minter pays the rewards that are pending, in the reward token. -/
structure PlatformSettles (P : Platform ω) (paid : ω → Address → ℤ) (coins : List Address)
    (share : ω → (amount index : ℕ) → ℕ) (pending : ω → ℕ) (s : ThreePoolStrategy) : Prop where
  isPool : IsPool P s.platformAddress coins
  gaugeWithdraw {w w' : ω} {amount : ℕ} :
    P.gaugeWithdraw w s.self s.crvGaugeAddress amount = .ok w' →
      (∀ token ∈ s.rewardTokenAddress :: coins,
        Untouched P paid s.toAbstractStrategy token w w') ∧
      share w' = share w ∧ pending w' = pending w
  removePoolLiquidity {w w' : ω} {amount : ℕ} {minAmounts : List ℕ} :
    P.removePoolLiquidity w s.self s.platformAddress amount minAmounts = .ok w' →
      (∀ i coin, coins[i]? = some coin → Settles P paid s.toAbstractStrategy coin w w' ∧
        paid w' coin = paid w coin + share w amount i) ∧
      (s.rewardTokenAddress ∉ coins →
        Untouched P paid s.toAbstractStrategy s.rewardTokenAddress w w') ∧
      pending w' = pending w
  mintReward {w w' : ω} :
    P.mintReward w s.self s.crvMinterAddress s.crvGaugeAddress = .ok w' →
      PaysOnly P paid s.toAbstractStrategy coins s.rewardTokenAddress w w' ∧
      paid w' s.rewardTokenAddress = paid w s.rewardTokenAddress + pending w
  safeTransfer {w w' : ω} {token : Address} {amount : ℕ} :
    P.safeTransfer w s.self token s.vaultAddress amount = .ok w' → pending w' = pending w

/-- What sending coins does: nothing is paid, the coins at the indices are all sent, and a coin
at a later index is not touched. -/
structure SendsCoins (P : Platform ω) (paid : ω → Address → ℤ) (coins : List Address)
    (pending : ω → ℕ) (s : ThreePoolStrategy) (indices : List ℕ) (w w' : ω) : Prop where
  delivered : ∀ token, Delivered P paid s.toAbstractStrategy token w w'
  unpaid : ∀ token, paid w' token = paid w token
  pending : pending w' = pending w
  sent : ∀ i ∈ indices, ∀ coin, coins[i]? = some coin → P.held w' coin s.self = 0
  kept : ∀ coin, P.held w coin s.self = 0 → P.held w' coin s.self = 0
  untouched : ∀ i coin, coins[i]? = some coin → (∀ j ∈ indices, j < i) →
    Untouched P paid s.toAbstractStrategy coin w w'

theorem sendCoin_sendsCoins (htokens : StandardTokens P paid s.toAbstractStrategy)
    (hP : s.PlatformSettles P paid coins share pending) {index : ℕ}
    (h : s.sendCoin P w index = .ok w') : SendsCoins P paid coins pending s [index] w w' := by
  obtain ⟨coin, hcoin, h⟩ := bind_eq_ok.mp h
  have hcoin := (callAt_eq_ok.mp hcoin).2
  obtain ⟨hnone, hdelivered, hothers⟩ := htokens.sendAllToVault h
  obtain ⟨balance, -, h⟩ := bind_eq_ok.mp h
  have htransfer := (callAt_eq_ok.mp h).2
  have hname : ∀ i x, coins[i]? = some x → P.coins w s.platformAddress i = .ok x :=
    hP.isPool.coins_eq w
  constructor
  · exact hdelivered
  · intro token
    by_cases heq : token = coin
    · exact heq ▸ htokens.unpaid htransfer
    · exact (hothers token heq).unpaid
  · exact hP.safeTransfer htransfer
  · intro i hi x hx
    cases List.mem_singleton.mp hi
    have heq := Except.ok.inj (hcoin.symm.trans (hname index x hx))
    exact heq ▸ hnone
  · intro x hx
    by_cases heq : x = coin
    · exact heq ▸ hnone
    · exact (hothers x heq).own.trans hx
  · intro i x hx hlt
    refine hothers x ?_
    rintro rfl
    have hlt : index < i := hlt index (List.mem_singleton_self index)
    obtain ⟨hi, -⟩ := List.getElem?_eq_some_iff.mp hx
    have hindex : index < coins.length := hlt.trans hi
    have hplace : coins[index]? = some coins[index] := List.getElem?_eq_getElem hindex
    have heq := Except.ok.inj (hcoin.symm.trans (hname index _ hplace))
    rw [← heq, ← hx] at hplace
    exact hlt.ne ((List.getElem?_inj hindex hP.isPool.nodup).mp hplace)

theorem SendsCoins.cons {index : ℕ} {rest : List ℕ} {w₁ : ω}
    (h : SendsCoins P paid coins pending s [index] w w₁)
    (h' : SendsCoins P paid coins pending s rest w₁ w') :
    SendsCoins P paid coins pending s (index :: rest) w w' where
  delivered token := (h.delivered token).trans (h'.delivered token)
  unpaid token := (h'.unpaid token).trans (h.unpaid token)
  pending := h'.pending.trans h.pending
  sent i hi coin hcoin := by
    rcases List.mem_cons.mp hi with rfl | hi
    · exact h'.kept coin (h.sent i (List.mem_singleton_self i) coin hcoin)
    · exact h'.sent i hi coin hcoin
  kept coin hnone := h'.kept coin (h.kept coin hnone)
  untouched i coin hcoin hlt := by
    obtain ⟨hfirst, hrest⟩ := List.forall_mem_cons.mp hlt
    exact (h.untouched i coin hcoin (List.forall_mem_singleton.mpr hfirst)).trans
      (h'.untouched i coin hcoin hrest)

theorem foldlM_sendCoin (htokens : StandardTokens P paid s.toAbstractStrategy)
    (hP : s.PlatformSettles P paid coins share pending) {indices : List ℕ}
    (h : indices.foldlM (s.sendCoin P) w = .ok w') :
    SendsCoins P paid coins pending s indices w w' := by
  induction indices generalizing w with
  | nil =>
      cases pure_eq_ok.mp h
      exact ⟨fun _ => .refl _, fun _ => rfl, rfl, (fun _ hi => nomatch hi), fun _ hnone => hnone,
        fun _ _ _ _ => .refl _⟩
  | cons index rest ih =>
      rw [List.foldlM_cons] at h
      obtain ⟨w₁, hfirst, h⟩ := bind_eq_ok.mp h
      exact (sendCoin_sendsCoins htokens hP hfirst).cons (ih h)

/-- What `withdrawAll` does: of each coin the pool's share is paid, and it is sent on where the
index is one of an asset's. -/
structure WithdrawsAll (P : Platform ω) (paid : ω → Address → ℤ) (coins : List Address)
    (share : ω → (amount index : ℕ) → ℕ) (pending : ω → ℕ) (s : ThreePoolStrategy)
    (totalPTokens : ℕ) (w w' : ω) : Prop where
  delivered : ∀ token ∈ s.rewardTokenAddress :: coins,
    Delivered P paid s.toAbstractStrategy token w w'
  pending : pending w' = pending w
  paid : ∀ i coin, coins[i]? = some coin → paid w' coin = paid w coin + share w totalPTokens i
  sent : ∀ i coin, coins[i]? = some coin → i < s.assetsMapped.length →
    P.held w' coin s.self = 0
  left : ∀ i coin, coins[i]? = some coin → s.assetsMapped.length ≤ i →
    P.held w' coin s.self = P.held w coin s.self + share w totalPTokens i

theorem withdrawAll_eq_ok (htokens : StandardTokens P paid s.toAbstractStrategy)
    (hP : s.PlatformSettles P paid coins share pending) (h : s.withdrawAll P w sender = .ok w') :
    ∃ contractPTokens gaugePTokens totalPTokens,
      s.getTotalPTokens P w = .ok (contractPTokens, gaugePTokens, totalPTokens) ∧
        WithdrawsAll P paid coins share pending s totalPTokens w w' := by
  obtain ⟨_, -, h⟩ := bind_eq_ok.mp h
  obtain ⟨⟨contractPTokens, gaugePTokens, totalPTokens⟩, htotal, h⟩ := bind_eq_ok.mp h
  obtain ⟨w₁, hgauge, h⟩ := bind_eq_ok.mp h
  obtain ⟨minimums, -, h⟩ := bind_eq_ok.mp h
  obtain ⟨w₂, hremove, h⟩ := bind_eq_ok.mp h
  obtain ⟨huntouched, hshare, hpending⟩ := hP.gaugeWithdraw (callAt_eq_ok.mp hgauge).2
  obtain ⟨hpaid, hreward, hpending'⟩ := hP.removePoolLiquidity (callAt_eq_ok.mp hremove).2
  have hsends := foldlM_sendCoin htokens hP h
  have hcoin : ∀ {i coin}, coins[i]? = some coin →
      Untouched P paid s.toAbstractStrategy coin w w₁ := fun hcoin =>
    huntouched _ (List.mem_cons_of_mem _ (List.mem_of_getElem? hcoin))
  refine ⟨contractPTokens, gaugePTokens, totalPTokens, htotal, ?_, ?_, ?_, ?_, ?_⟩
  · intro token hmem
    have hremoved : Delivered P paid s.toAbstractStrategy token w₁ w₂ := by
      by_cases hcoins : token ∈ coins
      · obtain ⟨i, hi⟩ := List.mem_iff_getElem?.mp hcoins
        exact (hpaid i token hi).1.delivered
      · obtain rfl := (List.mem_cons.mp hmem).resolve_right hcoins
        exact (hreward hcoins).settles.delivered
    exact ((huntouched token hmem).settles.delivered.trans hremoved).trans
      (hsends.delivered token)
  · exact hsends.pending.trans (hpending'.trans hpending)
  · intro i coin hi
    rw [hsends.unpaid, (hpaid i coin hi).2, (hcoin hi).unpaid, hshare]
  · intro i coin hi hlt
    exact hsends.sent i (List.mem_range.mpr hlt) coin hi
  · intro i coin hi hle
    have hkept := hsends.untouched i coin hi fun j hj => (List.mem_range.mp hj).trans_le hle
    have hsettles := (hpaid i coin hi).1.own
    rw [(hpaid i coin hi).2, (hcoin hi).own, hshare] at hsettles
    have hown : P.held w' coin s.self = P.held w₂ coin s.self := hkept.own
    have hheld : (P.held w₂ coin s.self : ℤ) - P.held w coin s.self =
        paid w₁ coin + share w totalPTokens i - paid w₁ coin := hsettles
    omega

/-- What the minter pays stays with the strategy; what it had before of the reward token is
sent. -/
theorem collectRewardToken_eq_ok (htokens : StandardTokens P paid s.toAbstractStrategy)
    (hP : s.PlatformSettles P paid coins share pending)
    (h : s.collectRewardToken P w sender = .ok w') :
    (∀ token ∈ s.rewardTokenAddress :: coins, Delivered P paid s.toAbstractStrategy token w w') ∧
      P.held w' s.rewardTokenAddress s.self = pending w ∧
      ∀ coin ∈ coins, coin ≠ s.rewardTokenAddress →
        Untouched P paid s.toAbstractStrategy coin w w' := by
  obtain ⟨_, -, h⟩ := bind_eq_ok.mp h
  obtain ⟨balance, hbalance, h⟩ := bind_eq_ok.mp h
  obtain ⟨w₁, hmint, h⟩ := bind_eq_ok.mp h
  have hbalance := ownBalance_eq_ok hbalance
  obtain ⟨hpays, hpaid⟩ := hP.mintReward (callAt_eq_ok.mp hmint).2
  refine ⟨fun token hmem => ?_, ?_, fun coin hmem hne => ?_⟩
  · exact (hpays.settles_of_mem hmem).delivered.trans (htokens.sendToVault_delivered token h)
  · have hown := htokens.own (callAt_eq_ok.mp h).2
    have hgain := hpays.settles.own
    rw [hpaid] at hgain
    omega
  · exact (hpays.others coin (List.mem_cons_of_mem _ hmem) hne).trans
      (htokens.others coin hne (callAt_eq_ok.mp h).2)

end ThreePoolStrategy

/-! ## What a removal asks of a strategy -/

namespace Strategy

variable {coins : List Address} {share : ω → ℕ → ℕ → ℕ} {pending : ω → ℕ} {t : Strategy}

/-- All assets and, if there is a reward token, the rewards. -/
def takeBack (P : Platform ω) (w : ω) (sender : Address) (t : Strategy) : Except Failure ω := do
  let w ← t.withdrawAll P w sender
  if t.base.rewardTokenAddress ≠ 0 then t.collectRewardToken P w sender else return w

/-- What the platforms pay the strategy, and the coins they pay: those of its assets, or those of
the pool. -/
def PlatformSettles (P : Platform ω) (paid : ω → Address → ℤ) (coins : List Address)
    (share : ω → (amount index : ℕ) → ℕ) (pending : ω → ℕ) : Strategy → Prop
  | aave s => coins = s.assetsMapped ∧ s.PlatformSettles P paid
  | compound s => coins = s.assetsMapped ∧ s.PlatformSettles P paid
  | threePool s => s.PlatformSettles P paid coins share pending

/-- The strategy has none of the coins that it was paid some of, and no reward token. -/
structure Drained (P : Platform ω) (paid : ω → Address → ℤ) (coins : List Address)
    (t : Strategy) (w w' : ω) : Prop where
  coins : ∀ coin ∈ coins, paid w' coin ≠ paid w coin → P.held w' coin t.base.self = 0
  reward : t.base.rewardTokenAddress ≠ 0 →
    P.held w' t.base.rewardTokenAddress t.base.self = 0

/-- The strategy is not the one of the pool; or it has no rewards to claim, and the pool has no
share for it of the coins whose index is past its assets, except if that is the reward token. -/
def LeavesNothing (P : Platform ω) (coins : List Address) (share : ω → (amount index : ℕ) → ℕ)
    (pending : ω → ℕ) (w : ω) : Strategy → Prop
  | threePool s =>
      (s.rewardTokenAddress ≠ 0 → pending w = 0) ∧
        ∀ contractPTokens gaugePTokens totalPTokens,
          s.getTotalPTokens P w = .ok (contractPTokens, gaugePTokens, totalPTokens) →
            ∀ i coin, s.assetsMapped.length ≤ i → coins[i]? = some coin →
              share w totalPTokens i = 0 ∨ s.rewardTokenAddress ≠ 0 ∧ coin = s.rewardTokenAddress
  | _ => True

/-- A strategy whose withdrawal clears the coins, except those it is paid as rewards, and that has
none of the rewards left once it has collected them, is drained. -/
theorem drained_of_clears {rewards : Address → Prop} {withdrawn : ω}
    (hrewards : ∀ token, rewards token → t.base.rewardTokenAddress ≠ 0)
    (hreward : t.base.rewardTokenAddress ≠ 0 → rewards t.base.rewardTokenAddress)
    (h : Clears P paid t.base coins rewards w withdrawn)
    (hcollect : t.base.rewardTokenAddress ≠ 0 →
      Clears P paid t.base coins rewards withdrawn w' ∧
        ∀ token, rewards token → P.held w' token t.base.self = 0)
    (hnone : t.base.rewardTokenAddress = 0 → w' = withdrawn) :
    (∀ token ∈ t.base.rewardTokenAddress :: coins, Delivered P paid t.base token w w') ∧
      t.Drained P paid coins w w' := by
  have hclears : Clears P paid t.base coins rewards w w' := by
    by_cases hset : t.base.rewardTokenAddress = 0
    · exact hnone hset ▸ h
    · exact h.trans (hcollect hset).1
  refine ⟨hclears.delivered, fun coin hmem hpaid => ?_, fun hset =>
    (hcollect hset).2 _ (hreward hset)⟩
  by_cases hcoin : rewards coin
  · exact (hcollect (hrewards coin hcoin)).2 coin hcoin
  · exact (hclears.cleared coin hmem hcoin).held_eq_zero hpaid

theorem takeBack_threePool {s : ThreePoolStrategy}
    (htokens : StandardTokens P paid s.toAbstractStrategy)
    (hP : s.PlatformSettles P paid coins share pending)
    (h : (threePool s).takeBack P w sender = .ok w') :
    (∀ token ∈ s.rewardTokenAddress :: coins,
      Delivered P paid s.toAbstractStrategy token w w') ∧
    ((threePool s).Drained P paid coins w w' ↔
      (threePool s).LeavesNothing P coins share pending w) := by
  obtain ⟨w₁, hwithdraw, h⟩ := bind_eq_ok.mp h
  obtain ⟨contractPTokens, gaugePTokens, totalPTokens, htotal, hwithdrawn⟩ :=
    ThreePoolStrategy.withdrawAll_eq_ok htokens hP hwithdraw
  -- The coins after the collection, unless one of them is the reward token.
  have hcollect : (∀ token ∈ s.rewardTokenAddress :: coins,
        Delivered P paid s.toAbstractStrategy token w₁ w') ∧
      (s.rewardTokenAddress ≠ 0 → P.held w' s.rewardTokenAddress s.self = pending w) ∧
      ∀ coin ∈ coins, ¬ (s.rewardTokenAddress ≠ 0 ∧ coin = s.rewardTokenAddress) →
        Untouched P paid s.toAbstractStrategy coin w₁ w' := by
    split_ifs at h with hreward
    · obtain ⟨hdelivered, hheld, huntouched⟩ :=
        ThreePoolStrategy.collectRewardToken_eq_ok htokens hP h
      exact ⟨hdelivered, fun _ => hheld.trans hwithdrawn.pending,
        fun coin hmem hne => huntouched coin hmem fun heq => hne ⟨hreward, heq⟩⟩
    · cases pure_eq_ok.mp h
      exact ⟨fun _ _ => .refl _, fun hset => absurd hset hreward, fun _ _ _ => .refl _⟩
  obtain ⟨hdelivered, hreward, huntouched⟩ := hcollect
  refine ⟨fun token hmem => (hwithdrawn.delivered token hmem).trans (hdelivered token hmem), ?_⟩
  constructor
  · intro hdrained
    refine ⟨fun hset => (hreward hset).symm.trans (hdrained.reward hset), ?_⟩
    intro _ _ _ htotal' i coin hle hi
    cases htotal.symm.trans htotal'
    by_cases heq : s.rewardTokenAddress ≠ 0 ∧ coin = s.rewardTokenAddress
    · exact .inr heq
    have hmem := List.mem_of_getElem? hi
    have hkept := huntouched coin hmem heq
    have hheld : P.held w' coin s.self = P.held w coin s.self + share w totalPTokens i :=
      hkept.own.trans (hwithdrawn.left i coin hi hle)
    have hpaid : paid w' coin = paid w coin + share w totalPTokens i :=
      hkept.unpaid.trans (hwithdrawn.paid i coin hi)
    refine .inl ?_
    by_contra hshare
    have hnone : P.held w' coin s.self = 0 := hdrained.coins coin hmem (by omega)
    omega
  · rintro ⟨hpending, hshares⟩
    refine ⟨fun coin hmem hpaid => ?_, fun hset => (hreward hset).trans (hpending hset)⟩
    by_cases heq : s.rewardTokenAddress ≠ 0 ∧ coin = s.rewardTokenAddress
    · rw [heq.2]
      exact (hreward heq.1).trans (hpending heq.1)
    obtain ⟨i, hi⟩ := List.mem_iff_getElem?.mp hmem
    have hkept := huntouched coin hmem heq
    by_cases hlt : i < s.assetsMapped.length
    · exact hkept.own.trans (hwithdrawn.sent i coin hi hlt)
    · have hshare := (hshares _ _ _ htotal i coin (not_lt.mp hlt) hi).resolve_right heq
      refine absurd ?_ hpaid
      rw [hkept.unpaid, hwithdrawn.paid i coin hi, hshare, Nat.cast_zero, add_zero]

/-- Whatever is paid then is delivered; and the strategy is drained exactly if it is none
that leaves something. -/
theorem takeBack_drained_iff (htokens : StandardTokens P paid t.base)
    (hP : t.PlatformSettles P paid coins share pending) (h : t.takeBack P w sender = .ok w') :
    (∀ token ∈ t.base.rewardTokenAddress :: coins, Delivered P paid t.base token w w') ∧
      (t.Drained P paid coins w w' ↔ t.LeavesNothing P coins share pending w) := by
  cases t with
  | aave s =>
      obtain ⟨rfl, hP⟩ := hP
      obtain ⟨w₁, hwithdraw, h⟩ := bind_eq_ok.mp h
      have hclears := AaveStrategy.withdrawAll_clears htokens hP w w₁ hwithdraw
      obtain ⟨hdelivered, hdrained⟩ := drained_of_clears (t := aave s) (fun _ hpaid => hpaid.1)
        (fun hset => ⟨hset, .inl rfl⟩) hclears
        (fun hset => AaveStrategy.collectRewardToken_clears htokens hP ((if_pos hset).symm.trans h))
        (fun hnone => (pure_eq_ok.mp ((if_neg (not_not.mpr hnone)).symm.trans h)).symm)
      exact ⟨hdelivered, iff_of_true hdrained trivial⟩
  | compound s =>
      obtain ⟨rfl, hP⟩ := hP
      obtain ⟨w₁, hwithdraw, h⟩ := bind_eq_ok.mp h
      have hclears := CompoundStrategy.withdrawAll_clears htokens hP w w₁ hwithdraw
      obtain ⟨hdelivered, hdrained⟩ := drained_of_clears (t := compound s)
        (fun _ hpaid => hpaid.1) (fun hset => ⟨hset, rfl⟩) hclears
        (fun hset =>
          CompoundStrategy.collectRewardToken_clears htokens hP ((if_pos hset).symm.trans h))
        (fun hnone => (pure_eq_ok.mp ((if_neg (not_not.mpr hnone)).symm.trans h)).symm)
      exact ⟨hdelivered, iff_of_true hdrained trivial⟩
  | threePool s => exact takeBack_threePool htokens hP h

end Strategy

/-! ## The vault -/

/-- The vault sells what it has been sent of a token, or it does not. -/
def Sold (P : Platform ω) (vault : Address) (w w' : ω) : Prop :=
  w' = w ∨ ∃ token router amount path deadline w₁ w₂,
    P.safeApprove w vault token router 0 = .ok w₁ ∧
      P.safeApprove w₁ vault token router amount = .ok w₂ ∧
        P.swapExactTokensForTokens w₂ vault router amount 0 path vault deadline = .ok w'

/-- A sale by the vault leaves the strategy alone: it has what it had, and it is paid nothing. -/
structure SaleSpares (P : Platform ω) (paid : ω → Address → ℤ) (b : AbstractStrategy) : Prop where
  approve {w w' : ω} {token spender : Address} {amount : ℕ} (other : Address) :
    P.safeApprove w b.vaultAddress token spender amount = .ok w' →
      P.held w' other b.self = P.held w other b.self ∧ paid w' other = paid w other
  swap {w w' : ω} {router : Address} {amount deadline : ℕ} {path : List Address}
    (other : Address) :
    P.swapExactTokensForTokens w b.vaultAddress router amount 0 path b.vaultAddress deadline =
      .ok w' → P.held w' other b.self = P.held w other b.self ∧ paid w' other = paid w other

theorem SaleSpares.sold {b : AbstractStrategy} (h : SaleSpares P paid b)
    (hsold : Sold P b.vaultAddress w w') (token : Address) :
    P.held w' token b.self = P.held w token b.self ∧ paid w' token = paid w token := by
  rcases hsold with rfl | ⟨_, _, _, _, _, w₁, w₂, h₁, h₂, h₃⟩
  · exact ⟨rfl, rfl⟩
  · obtain ⟨hheld₁, hpaid₁⟩ := h.approve token h₁
    obtain ⟨hheld₂, hpaid₂⟩ := h.approve token h₂
    obtain ⟨hheld₃, hpaid₃⟩ := h.swap token h₃
    exact ⟨hheld₃.trans (hheld₂.trans hheld₁), hpaid₃.trans (hpaid₂.trans hpaid₁)⟩

namespace System

variable {s s' : System (Surroundings ω)} {x : Address} {t : Strategy}

theorem swapRewards_sold {token : Address} {amount : ℕ}
    (h : s.swapRewards P.world token amount = .ok s') :
    Sold P s.vault.self s.world.platform s'.world.platform := by
  obtain ⟨x₁, hreset, h⟩ := bind_eq_ok.mp h
  obtain ⟨x₂, happrove, h⟩ := bind_eq_ok.mp h
  obtain ⟨w₁, h₁, rfl⟩ := Surroundings.lift_eq_ok.mp hreset
  obtain ⟨w₂, h₂, rfl⟩ := Surroundings.lift_eq_ok.mp happrove
  split at h
  · cases h
  · obtain ⟨deadline, -, h⟩ := bind_eq_ok.mp h
    obtain ⟨x₃, hswap, h⟩ := bind_eq_ok.mp h
    obtain ⟨w₃, h₃, rfl⟩ := Surroundings.lift_eq_ok.mp hswap
    cases pure_eq_ok.mp h
    exact .inr ⟨token, _, amount, _, deadline, w₁, w₂, h₁, h₂, h₃⟩

/-- A harvest of a strategy collects its rewards if there is a reward token; the vault may sell
them. -/
theorem harvestFrom_eq_ok (ht : t ∈ s.world.strategies x)
    (h : s.harvestFrom P.world x = .ok s') :
    (t.base.rewardTokenAddress = 0 ∧ s' = s) ∨
      t.base.rewardTokenAddress ≠ 0 ∧
        ∃ w, t.collectRewardToken P s.world.platform s.vault.self = .ok w ∧
          Sold P s.vault.self w s'.world.platform := by
  obtain ⟨token, htoken, h⟩ := bind_eq_ok.mp h
  have htoken : token = t.base.rewardTokenAddress := by
    have hcall : s.world.call x (fun t => .ok t.base.rewardTokenAddress)
        (P.rewardTokenAddress s.world.platform x) = .ok token := htoken
    rw [Surroundings.call, ht] at hcall
    exact (Except.ok.inj hcall).symm
  subst htoken
  split_ifs at h with hset
  · obtain ⟨y, hcall, h⟩ := bind_eq_ok.mp h
    obtain ⟨w, hcollect, rfl⟩ := (Surroundings.callLift_eq_ok ht).mp hcall
    refine .inr ⟨hset, w, hcollect, ?_⟩
    dsimp only at h
    split_ifs at h with hrouter
    · obtain ⟨amount, -, h⟩ := bind_eq_ok.mp h
      split_ifs at h with hsome
      · exact swapRewards_sold h
      · cases pure_eq_ok.mp h
        exact .inl rfl
    · cases pure_eq_ok.mp h
      exact .inl rfl
  · exact .inl ⟨not_not.mp hset, (pure_eq_ok.mp h).symm⟩

/-- A removal of a listed strategy takes everything back; the vault may sell the rewards. -/
theorem removeStrategy_takesBack {sender : Address} (hr : s.vault.Registered)
    (ht : t ∈ s.world.strategies x) (h : s.removeStrategy P.world sender x = .ok s') :
    ∃ w, t.takeBack P s.world.platform s.vault.self = .ok w ∧
      Sold P s.vault.self w s'.world.platform := by
  obtain ⟨_, -, h⟩ := bind_eq_ok.mp h
  obtain ⟨_, happroved, h⟩ := bind_eq_ok.mp h
  obtain ⟨s₁, hdelist, h⟩ := bind_eq_ok.mp h
  cases pure_eq_ok.mp h
  unfold delistStrategy at hdelist
  rw [if_pos ((hr.strategies x).mp (require_eq_ok.mp happroved))] at hdelist
  obtain ⟨y, hcall, hharvest⟩ := bind_eq_ok.mp hdelist
  obtain ⟨w, hwithdraw, rfl⟩ := (Surroundings.callLift_eq_ok ht).mp hcall
  rcases harvestFrom_eq_ok (by exact ht) hharvest with ⟨hnone, rfl⟩ | ⟨hset, w', hcollect, hsold⟩
  · refine ⟨w, bind_eq_ok.mpr ⟨w, hwithdraw, ?_⟩, .inl rfl⟩
    rw [if_neg (not_not.mpr hnone)]
    rfl
  · refine ⟨w', bind_eq_ok.mpr ⟨w, hwithdraw, ?_⟩, hsold⟩
    rw [if_pos hset]
    exact hcollect

variable {coins : List Address} {share : ω → ℕ → ℕ → ℕ} {pending : ω → ℕ}
  {self governor priceProvider : Address} {world : Surroundings ω}
  {trace : List (System (Surroundings ω) × (Address × Action (Surroundings ω)))}

/-- In every state that a run reaches, a removal of a strategy delivers to the vault, before that
sells anything, what is paid and does not stay with the strategy; and it drains the strategy
exactly if that is not the one of the pool, or has no rewards to claim and no share in a coin
past its assets. -/
theorem removeStrategy_drains_iff (h : Reached P.world self governor priceProvider world trace s)
    (ht : t ∈ s.world.strategies x) (hvault : t.base.vaultAddress = s.vault.self)
    (htokens : StandardTokens P paid t.base) (hsale : SaleSpares P paid t.base)
    (hP : t.PlatformSettles P paid coins share pending)
    (hs : s.removeStrategy P.world sender x = .ok s') :
    (∃ w, t.takeBack P s.world.platform s.vault.self = .ok w ∧
      ∀ token ∈ t.base.rewardTokenAddress :: coins,
        Delivered P paid t.base token s.world.platform w) ∧
    (t.Drained P paid coins s.world.platform s'.world.platform ↔
      t.LeavesNothing P coins share pending s.world.platform) := by
  obtain ⟨w, htake, hsold⟩ := removeStrategy_takesBack h.sound.registered ht hs
  obtain ⟨hdelivered, hdrained⟩ := Strategy.takeBack_drained_iff htokens hP htake
  rw [← hvault] at hsold
  have hspared := hsale.sold hsold
  refine ⟨⟨w, htake, hdelivered⟩, Iff.trans ?_ hdrained⟩
  constructor
  · intro hdrained
    exact ⟨fun coin hmem hpaid => (hspared coin).1.symm.trans
        (hdrained.coins coin hmem ((hspared coin).2.trans_ne hpaid)),
      fun hset => (hspared _).1.symm.trans (hdrained.reward hset)⟩
  · intro hdrained
    exact ⟨fun coin hmem hpaid => (hspared coin).1.trans
        (hdrained.coins coin hmem ((hspared coin).2.symm.trans_ne hpaid)),
      fun hset => (hspared _).1.trans (hdrained.reward hset)⟩

section

open PlainPlatform

/-- A strategy of the pool at 40 for some of the pool's coins, with the gauge 42 and the minter
43. -/
def plainThreePool (assets : List Address) : ThreePoolStrategy where
  toAbstractStrategy := { AbstractStrategy.deployed 21 8 with
    platformAddress := 40
    vaultAddress := 9
    rewardTokenAddress := 44
    assetToPToken := fun asset => if asset ∈ assets then 41 else 0
    assetsMapped := assets }
  crvGaugeAddress := 42
  crvMinterAddress := 43

/-- A pool of which the strategy has a tenth, in the gauge, and rewards to claim. -/
def plainPool (pending : ℕ) : PlainPlatform :=
  let w := ((empty.create 4 40 100).create 5 40 100).create 6 40 100
  { ((((w.create 41 42 10).create 42 21 10).create 41 50 90).create 44 43 pending) with
    pending := fun holder => if holder = 21 then pending else 0 }

/-- The strategy and the pool. -/
def poolSurroundings (assets : List Address) (pending : ℕ) : Surroundings PlainPlatform where
  strategies x := if x = 21 then some (.threePool (plainThreePool assets)) else none
  self_eq x t ht := by
    split_ifs at ht with h
    · cases ht
      exact h.symm
    · cases ht
  platform := plainPool pending

/-- What the strategy has been paid. -/
def plainPaid (w : PlainPlatform) (token : Address) : ℤ := w.paid 21 token

/-- What the pool gives of the coin at an index. -/
def plainShare (w : PlainPlatform) (amount index : ℕ) : ℕ :=
  poolShare market w 40 amount (market.poolCoins.getD index 0)

theorem platformSettles_plainThreePool (assets : List Address) :
    (plainThreePool assets).PlatformSettles (calls market) plainPaid [4, 5, 6] plainShare
      (fun w => w.pending 21) where
  isPool := ThreePoolStrategy.isPool_calls market 40 rfl (by decide)
  gaugeWithdraw {w w' amount} h := by
    have hunlock : w.unlock 41 21 42 amount = .ok w' := h
    obtain ⟨hbalances, hsupply, hpaid, hpending⟩ := unlock_eq_ok hunlock
    have hother : ∀ token ∈ ([44, 4, 5, 6] : List Address),
        w'.balances token = w.balances token := by
      simp only [List.forall_mem_cons, List.not_mem_nil, false_imp_iff, implies_true, and_true]
      exact ⟨hbalances 44 (by decide) (by decide), hbalances 4 (by decide) (by decide),
        hbalances 5 (by decide) (by decide), hbalances 6 (by decide) (by decide)⟩
    refine ⟨fun token hmem => ?_, ?_, congrFun hpending 21⟩
    · exact ⟨congrFun (hother token hmem) 21, congrFun (hother token hmem) 9,
        congrArg Nat.cast (congrFun (congrFun hpaid 21) token)⟩
    · funext amount index
      unfold plainShare poolShare
      rw [hsupply market.poolToken (by decide)]
      split_ifs with hcoin
      · rw [hother _ (List.mem_cons_of_mem 44 hcoin)]
      · rfl
  removePoolLiquidity {w w' amount minAmounts} h := by
    have hremove : (calls market).removePoolLiquidity w 21 40 amount minAmounts = .ok w' := h
    obtain ⟨hbalances, hpaid, hpending⟩ := removePoolLiquidity_eq_ok hremove
    refine ⟨fun i coin hcoin => ?_, fun _ => ?_, congrFun hpending 21⟩
    · have hne : coin ≠ 41 := by
        rintro rfl
        exact absurd (List.mem_of_getElem? hcoin) (by decide)
      have hshare : plainShare w amount i = poolShare market w 40 amount coin := by
        have hget : market.poolCoins[i]? = some coin := hcoin
        rw [plainShare, List.getD_eq_getElem?_getD, hget, Option.getD_some]
      obtain ⟨hown, hothers⟩ := hbalances coin hne
      have hgain : plainPaid w' coin = plainPaid w coin + poolShare market w 40 amount coin :=
        congrArg Nat.cast (hpaid coin)
      rw [hshare]
      refine ⟨⟨?_, hothers 9 (by decide) (by decide)⟩, hgain⟩
      change ((w'.balances coin 21 : ℕ) : ℤ) - w.balances coin 21 =
        plainPaid w' coin - plainPaid w coin
      omega
    · obtain ⟨hown, hothers⟩ := hbalances 44 (by decide)
      exact ⟨hown, hothers 9 (by decide) (by decide), congrArg Nat.cast (hpaid 44)⟩
  mintReward {w w'} h := by
    have hreward : payRewards market w 43 21 = .ok w' := h
    obtain ⟨hown, hvault, hothers, hgain⟩ := payRewards_eq_ok hreward
    have hgain : plainPaid w' 44 = plainPaid w 44 + w.pending 21 := congrArg Nat.cast hgain
    refine ⟨⟨⟨?_, hvault 9 (by decide) (by decide)⟩, fun other _ hne => ?_⟩, hgain⟩
    · change ((w'.balances 44 21 : ℕ) : ℤ) - w.balances 44 21 = plainPaid w' 44 - plainPaid w 44
      have hown : w'.balances 44 21 = w.balances 44 21 + w.pending 21 := hown
      omega
    · obtain ⟨hbalances, hpaid⟩ := hothers other hne
      exact ⟨congrFun hbalances 21, congrFun hbalances 9, congrArg Nat.cast hpaid⟩
  safeTransfer {w w' token amount} h := by
    obtain ⟨world, -, rfl⟩ := PlainPlatform.lift_eq_ok.mp h
    rfl

/-- The vault with the strategy at 21 approved. -/
def approvedVault (world : Surroundings PlainPlatform) : System (Surroundings PlainPlatform) :=
  { initialized 9 8 7 world with vault := (Vault.initialized 9 8 7).addStrategy 21 }

theorem reached_approvedVault (P : Platform PlainPlatform) (world : Surroundings PlainPlatform) :
    Reached P.world 9 8 7 world [(initialized 9 8 7 world, (8, .approveStrategy 21))]
      (approvedVault world) :=
  Run.nil.cons rfl

/-- Two of the three coins are assets of the strategy, and it has rewards to claim: the third coin
and the rewards stay behind. -/
theorem removal_leaves_coins :
    ∃ trace s s', Reached (calls market).world 9 8 7 (poolSurroundings [4, 5] 7) trace s ∧
      .threePool (plainThreePool [4, 5]) ∈ s.world.strategies 21 ∧
        s.removeStrategy (calls market).world 8 21 = .ok s' ∧
          (calls market).held s'.world.platform 4 9 = 10 ∧
            (calls market).held s'.world.platform 6 21 = 10 ∧
              (calls market).held s'.world.platform 44 21 = 7 ∧
                ¬ (Strategy.threePool (plainThreePool [4, 5])).Drained (calls market) plainPaid
                  [4, 5, 6] s.world.platform s'.world.platform := by
  have hremoval : Returns ((approvedVault (poolSurroundings [4, 5] 7)).removeStrategy
      (calls market).world 8 21) fun s' =>
      (calls market).held s'.world.platform 4 9 = 10 ∧
        (calls market).held s'.world.platform 6 21 = 10 ∧
          (calls market).held s'.world.platform 44 21 = 7 := by
    decide
  obtain ⟨s', hremove, hsent, hleft, hreward⟩ := hremoval
  refine ⟨_, _, s', reached_approvedVault (calls market) _, rfl, hremove, hsent, hleft, hreward, ?_⟩
  intro hdrained
  have hnone : (calls market).held s'.world.platform 44 21 = 0 := hdrained.reward (by decide)
  omega

/-- A Compound strategy at 21 for two coins. -/
def rewardedCompound : CompoundStrategy where
  toAbstractStrategy := { AbstractStrategy.deployed 21 8 with
    vaultAddress := 9
    rewardTokenAddress := 44
    assetToPToken := fun asset => if asset = 4 then 31 else if asset = 5 then 32 else 0
    assetsMapped := [4, 5] }

/-- Plain platforms with a comptroller at 45, which pays rewards when they are claimed and also
when cTokens are redeemed. -/
def rewardingCalls : Platform PlainPlatform :=
  { calls market with
    comptroller := fun _ _ => .ok 45
    claimComp := fun w _ comptroller holder =>
      if comptroller = 45 then payRewards market w 45 holder else closed
    redeemCToken := fun w caller cToken amount => do
      let (w, code) ← (calls market).redeemCToken w caller cToken amount
      let w ← payRewards market w 45 caller
      return (w, code) }

/-- Two lending markets in which the strategy has 10 cTokens each, and rewards of 7. -/
def rewardingSurroundings : Surroundings PlainPlatform where
  strategies x := if x = 21 then some (.compound rewardedCompound) else none
  self_eq x t ht := by
    split_ifs at ht with h
    · cases ht
      exact h.symm
    · cases ht
  platform :=
    let w := ((empty.create 31 21 10).create 4 31 (10 ^ 10)).create 32 21 10
    { (w.create 5 32 (10 ^ 10)).create 44 45 7 with
      pending := fun holder => if holder = 21 then 7 else 0 }

theorem platformSettles_rewardedCompound :
    rewardedCompound.PlatformSettles rewardingCalls plainPaid where
  redeemCToken {w w' asset amount code} hasset h := by
    obtain ⟨⟨w₁, code₁⟩, hredeem, h⟩ := bind_eq_ok.mp h
    obtain ⟨w₂, hburn, hredeem⟩ := bind_eq_ok.mp hredeem
    obtain ⟨w₃, hpay, hredeem⟩ := bind_eq_ok.mp hredeem
    obtain ⟨w₄, hrewards, h⟩ := bind_eq_ok.mp h
    cases pure_eq_ok.mp hredeem
    cases pure_eq_ok.mp h
    have hmarket : rewardedCompound.assetToPToken asset ∉ ([44, 4, 5] : List Address) ∧
        9 ≠ rewardedCompound.assetToPToken asset ∧
          market.underlying (rewardedCompound.assetToPToken asset) = asset := by
      have hpair : asset = 4 ∨ asset = 5 := List.mem_pair.mp hasset
      rcases hpair with rfl | rfl <;> decide
    obtain ⟨hcToken, hvault, hunderlying⟩ := hmarket
    have hburnt : Pays rewardingCalls plainPaid rewardedCompound.toAbstractStrategy [4, 5]
        (fun coin => coin = asset ∨ rewardedCompound.Rewarded coin) w w₂ :=
      pays_of_burn (b := rewardedCompound.toAbstractStrategy) (fun _ _ _ => rfl) hcToken hburn
    have hpaid : Pays rewardingCalls plainPaid rewardedCompound.toAbstractStrategy [4, 5]
        (· = asset) w₂ w₁ :=
      hunderlying ▸ pays_of_pay (b := rewardedCompound.toAbstractStrategy) (fun _ _ _ => rfl) hvault
        (by decide) hpay
    have hrewarded : Pays rewardingCalls plainPaid rewardedCompound.toAbstractStrategy [4, 5]
        (· = 44) w₁ w' :=
      pays_of_payRewards (b := rewardedCompound.toAbstractStrategy) (fun _ _ _ => rfl) (by decide)
        (by decide) hrewards
    exact (hburnt.trans (hpaid.mono fun _ heq => .inl heq)).trans
      (hrewarded.mono fun _ heq => .inr ⟨by decide, heq⟩)
  claimComp {w w' comptroller} h := by
    have hclaim : (if comptroller = 45 then payRewards market w 45 21 else closed) = .ok w' := h
    split_ifs at hclaim with hcomptroller
    · have hrewarded : Pays rewardingCalls plainPaid rewardedCompound.toAbstractStrategy [4, 5]
          (· = 44) w w' :=
        pays_of_payRewards (b := rewardedCompound.toAbstractStrategy) (fun _ _ _ => rfl) (by decide)
          (by decide) hclaim
      exact ⟨hrewarded.settles 44 List.mem_cons_self, fun other hmem hne =>
        hrewarded.others other ((List.mem_cons.mp hmem).resolve_left hne) hne⟩
    · cases hclaim

/-- A pool strategy all three of whose coins are assets and that has no rewards to claim is
drained; and so is a Compound strategy that is paid its rewards by the withdrawal. -/
theorem removal_drains :
    (∃ trace s s', Reached (calls market).world 9 8 7 (poolSurroundings [4, 5, 6] 0) trace s ∧
      s.removeStrategy (calls market).world 8 21 = .ok s' ∧
        (calls market).held s'.world.platform 6 9 = 10 ∧
          (Strategy.threePool (plainThreePool [4, 5, 6])).Drained (calls market) plainPaid
            [4, 5, 6] s.world.platform s'.world.platform) ∧
      ∃ trace s s', Reached rewardingCalls.world 9 8 7 rewardingSurroundings trace s ∧
        s.removeStrategy rewardingCalls.world 8 21 = .ok s' ∧
          Returns ((Strategy.compound rewardedCompound).withdrawAll rewardingCalls s.world.platform 9)
            (fun w => rewardingCalls.held w 44 21 = 7) ∧
            rewardingCalls.held s'.world.platform 44 9 = 7 ∧
              (Strategy.compound rewardedCompound).Drained rewardingCalls plainPaid [4, 5]
                s.world.platform s'.world.platform := by
  constructor
  · have hremoval : Returns ((approvedVault (poolSurroundings [4, 5, 6] 0)).removeStrategy
        (calls market).world 8 21) fun s' => (calls market).held s'.world.platform 6 9 = 10 := by
      decide
    obtain ⟨s', hremove, hsent⟩ := hremoval
    have hrun := reached_approvedVault (calls market) (poolSurroundings [4, 5, 6] 0)
    refine ⟨_, _, s', hrun, hremove, hsent, ?_⟩
    have hsale : SaleSpares (calls market) plainPaid
        (plainThreePool [4, 5, 6]).toAbstractStrategy :=
      { approve := fun _ h => by
          cases h
          exact ⟨rfl, rfl⟩
        swap := fun _ h => nomatch h }
    refine (removeStrategy_drains_iff (t := .threePool (plainThreePool [4, 5, 6])) hrun rfl rfl
      (standardTokens_calls market (by decide)) hsale (platformSettles_plainThreePool [4, 5, 6])
      hremove).2.mpr ⟨fun _ => rfl, ?_⟩
    intro _ _ _ _ i coin hle hi
    refine absurd (List.getElem?_eq_some_iff.mp hi).1 ?_
    exact not_lt.mpr hle
  · have hremoval : Returns ((approvedVault rewardingSurroundings).removeStrategy
        rewardingCalls.world 8 21) fun s' => rewardingCalls.held s'.world.platform 44 9 = 7 := by
      decide
    obtain ⟨s', hremove, hsent⟩ := hremoval
    have hrun := reached_approvedVault rewardingCalls rewardingSurroundings
    refine ⟨_, _, s', hrun, hremove, by decide, hsent, ?_⟩
    have hsale : SaleSpares rewardingCalls plainPaid rewardedCompound.toAbstractStrategy :=
      { approve := fun _ h => by
          cases h
          exact ⟨rfl, rfl⟩
        swap := fun _ h => nomatch h }
    have htokens : StandardTokens rewardingCalls plainPaid rewardedCompound.toAbstractStrategy :=
      standardTokens_of_plain (b := rewardedCompound.toAbstractStrategy) (fun _ _ _ => rfl)
        (fun _ _ _ _ _ => rfl) (fun _ _ _ _ _ => rfl) (by decide)
    have hP : (Strategy.compound rewardedCompound).PlatformSettles rewardingCalls plainPaid [4, 5]
        (fun _ _ _ => 0) (fun _ => 0) := ⟨rfl, platformSettles_rewardedCompound⟩
    exact (removeStrategy_drains_iff hrun rfl rfl htokens hsale hP hremove).2.mpr trivial

end

end System

end InterestDollar
