import InterestDollar.Strategy.Operability
import InterestDollar.Strategy.Settlement
import InterestDollar.Vault.Backed
import InterestDollar.Vault.Keeping

/-!
# Strategies that lend

An Aave strategy without a staking contract lends all it has of an asset, for aTokens that it
keeps. Over standard tokens and a market that gives and takes an aToken for each unit of the
asset, such strategies do what the vault asks them for. So the supply is backed in every run of
the vault and its token over the code of these strategies.
-/

namespace InterestDollar

open Checked Transition

variable {ω : Type}

/-- An amount of a token, for one holder. -/
def entry (token holder : Address) (amount : ℤ) : Address → Address → ℤ :=
  Pi.single token (Pi.single holder amount)

/-- The oracle and the tokens answer the same. -/
structure SamePrices (P : Platform ω) (w w' : ω) : Prop where
  price : ∀ provider asset, P.price w' provider asset = P.price w provider asset
  decimals : ∀ token, P.decimals w' token = P.decimals w token

/-- At the same prices, what everybody but the market itself has of each token has changed by at
least so much. -/
structure Change (P : Platform ω) (pools : Set Address) (change : Address → Address → ℤ)
    (w w' : ω) : Prop where
  prices : SamePrices P w w'
  held : ∀ token, ∀ holder ∉ pools,
    (P.held w token holder : ℤ) + change token holder ≤ P.held w' token holder

/-- Standard tokens, and a market that lends them: for each unit of an asset it gives an aToken,
and for each aToken a unit of the asset behind it. The tokens are at addresses of the market's
own. -/
structure LendingMarket (P : Platform ω) (aToken underlying : Address → Address)
    (pools : Set Address) : Prop where
  transfers {w w' : ω} {caller token recipient : Address} {amount : ℕ} :
    P.safeTransfer w caller token recipient amount = .ok w' →
      Change P pools (entry token caller (-amount) + entry token recipient amount) w w'
  transfersFrom {w w' : ω} {caller token owner recipient : Address} {amount : ℕ} :
    P.safeTransferFrom w caller token owner recipient amount = .ok w' →
      Change P pools (entry token owner (-amount) + entry token recipient amount) w w'
  approves {w w' : ω} {caller token spender : Address} {amount : ℕ} :
    P.safeApprove w caller token spender amount = .ok w' → Change P pools 0 w w'
  lends {w w' : ω} {caller pool asset : Address} {amount referralCode : ℕ} :
    P.lendingPoolDeposit w caller pool asset amount referralCode = .ok w' →
      Change P pools (entry asset caller (-amount) + entry (aToken asset) caller amount) w w'
  redeems {w w' : ω} {caller asset : Address} {amount : ℕ} :
    P.redeemAToken w caller (aToken asset) amount = .ok w' → Change P pools
      (entry (aToken asset) caller (-amount) + entry (underlying (aToken asset)) caller amount) w w'
  swaps {w w' : ω} {caller router token recipient : Address}
      {amountIn amountOutMin deadline : ℕ} {path : List Address} :
    P.swapExactTokensForTokens w caller router amountIn amountOutMin (token :: path) recipient
      deadline = .ok w' → Change P pools (entry token caller (-amountIn)) w w'

/-- A strategy of the vault that only lends, set up for the market's tokens. -/
structure AaveStrategy.Lends (aToken underlying : Address → Address) (vaultAddress : Address)
    (t : AaveStrategy) : Prop where
  mapped : t.Mapped
  vault : t.vaultAddress = vaultAddress
  direct : t.ubeStakingAddress = 0
  token : ∀ asset, t.assetToPToken asset ≠ 0 → t.assetToPToken asset = aToken asset
  behind : ∀ asset, t.assetToPToken asset ≠ 0 → underlying (aToken asset) = asset
  plain : ∀ asset other, t.assetToPToken asset ≠ 0 → t.assetToPToken other ≠ 0 →
    asset ≠ aToken other

/-- All strategies of the vault lend. -/
def AllLend (aToken underlying : Address → Address) (v : Vault) (s : Surroundings ω) : Prop :=
  ∀ x ∈ v.allStrategies, ∃ t, s.strategies x = some (.aave t) ∧ t.Lends aToken underlying v.self

variable {P : Platform ω} {pools : Set Address} {aToken underlying : Address → Address} {v : Vault}
  {w w' w'' : ω}

theorem entry_apply (token holder other account : Address) (amount : ℤ) :
    entry token holder amount other account =
      if other = token ∧ account = holder then amount else 0 := by
  by_cases htoken : other = token
  · subst htoken
    simp [entry, Pi.single_apply]
  · simp [entry, htoken]

theorem SamePrices.refl (w : ω) : SamePrices P w w := ⟨fun _ _ => rfl, fun _ => rfl⟩

theorem SamePrices.trans (h : SamePrices P w w') (h' : SamePrices P w' w'') :
    SamePrices P w w'' where
  price := fun provider asset => (h'.price provider asset).trans (h.price provider asset)
  decimals := fun token => (h'.decimals token).trans (h.decimals token)

theorem Change.refl (w : ω) : Change P pools 0 w w := ⟨.refl w, by simp⟩

theorem Change.mono {change change' : Address → Address → ℤ} (h : Change P pools change w w')
    (hle : ∀ token holder, change' token holder ≤ change token holder) :
    Change P pools change' w w' where
  prices := h.prices
  held := by
    intro token holder hholder
    have hheld := h.held token holder hholder
    have hchange := hle token holder
    linarith

/-- The exact change. -/
theorem Change.of_prices (h : SamePrices P w w') : Change P pools
    (fun token holder => P.held w' token holder - P.held w token holder) w w' :=
  ⟨h, by simp⟩

theorem Change.trans {change change' : Address → Address → ℤ} (h : Change P pools change w w')
    (h' : Change P pools change' w' w'') : Change P pools (change + change') w w'' where
  prices := h.prices.trans h'.prices
  held := by
    intro token holder hholder
    have hfirst := h.held token holder hholder
    have hlast := h'.held token holder hholder
    simp only [Pi.add_apply]
    linarith

namespace AaveStrategy

variable {t : AaveStrategy}

/-! ## The functions of a strategy that lends -/

theorem Lends.token_ne (h : t.Lends aToken underlying v.self) {asset other : Address}
    (hasset : t.assetToPToken asset ≠ 0) (hother : t.assetToPToken other ≠ 0)
    (hne : asset ≠ other) : aToken asset ≠ aToken other := fun heq =>
  hne (by rw [← h.behind asset hasset, heq, h.behind other hother])

theorem Lends.checkBalance_eq (h : t.Lends aToken underlying v.self) {asset : Address}
    (hasset : t.assetToPToken asset ≠ 0) :
    amountOf ((t.checkBalance P w asset).mapError Failure.revert) =
      P.held w (aToken asset) t.self := by
  have hread : t.checkBalance P w asset =
      (P.balanceOf w (t.assetToPToken asset) t.self).mapError .outside := by
    unfold checkBalance
    rw [getATokenFor_eq_ok.mpr ⟨hasset, rfl⟩]
    simp only [h.direct, ne_eq, not_true_eq_false, if_false]
    change (t.ownBalance P w (t.assetToPToken asset) >>= fun balance => pure balance) = _
    rw [bind_pure, AbstractStrategy.ownBalance, callAt, if_neg hasset]
  rw [hread, h.token asset hasset, Platform.held]
  cases P.balanceOf w (aToken asset) t.self <;> rfl

theorem Lends.depositAsset_change (hP : LendingMarket P aToken underlying pools)
    (h : t.Lends aToken underlying v.self) {asset : Address} {amount : ℕ}
    (hdeposit : t.depositAsset P w asset amount = .ok w') :
    Change P pools (entry asset t.self (-amount) + entry (aToken asset) t.self amount) w w' := by
  obtain ⟨_, -, hdeposit⟩ := bind_eq_ok.mp hdeposit
  obtain ⟨_, -, hdeposit⟩ := bind_eq_ok.mp hdeposit
  obtain ⟨pool, -, hdeposit⟩ := bind_eq_ok.mp hdeposit
  obtain ⟨w₁, hlend, hdeposit⟩ := bind_eq_ok.mp hdeposit
  simp only [h.direct, ne_eq, not_true_eq_false, if_false] at hdeposit
  cases pure_eq_ok.mp hdeposit
  exact hP.lends (callAt_eq_ok.mp hlend).2

/-- What is withdrawn is paid for with aTokens and goes where it is sent. -/
theorem Lends.withdraw_change (hP : LendingMarket P aToken underlying pools)
    (h : t.Lends aToken underlying v.self) {sender recipient asset : Address} {amount : ℕ}
    (hwithdraw : t.withdraw P w sender recipient asset amount = .ok w') :
    t.assetToPToken asset ≠ 0 ∧ Change P pools
      (entry (aToken asset) t.self (-amount) + entry asset recipient amount) w w' := by
  obtain ⟨_, -, hwithdraw⟩ := bind_eq_ok.mp hwithdraw
  obtain ⟨_, -, hwithdraw⟩ := bind_eq_ok.mp hwithdraw
  obtain ⟨_, -, hwithdraw⟩ := bind_eq_ok.mp hwithdraw
  obtain ⟨token, htoken, hwithdraw⟩ := bind_eq_ok.mp hwithdraw
  obtain ⟨hasset, rfl⟩ := getATokenFor_eq_ok.mp htoken
  simp only [h.direct, ne_eq, not_true_eq_false, if_false] at hwithdraw
  obtain ⟨_, hsame, hwithdraw⟩ := bind_eq_ok.mp hwithdraw
  cases pure_eq_ok.mp hsame
  obtain ⟨w₁, hredeem, htransfer⟩ := bind_eq_ok.mp hwithdraw
  rw [h.token asset hasset] at hredeem
  have hredeem := hP.redeems (callAt_eq_ok.mp hredeem).2
  have hboth := hredeem.trans (hP.transfers (callAt_eq_ok.mp htransfer).2)
  rw [h.behind asset hasset] at hboth
  refine ⟨hasset, hboth.prices, fun other holder hholder => ?_⟩
  have hheld := hboth.held other holder hholder
  simp only [Pi.add_apply, entry_apply] at hheld ⊢
  split_ifs at hheld ⊢ <;> linarith

theorem Lends.withdrawAsset_held (hP : LendingMarket P aToken underlying pools)
    (h : t.Lends aToken underlying v.self) (hself : t.self ∉ pools) {asset : Address}
    (hasset : t.assetToPToken asset ≠ 0) (hwithdraw : t.withdrawAsset P w asset = .ok w') :
    ∃ sent : ℕ, P.held w (aToken asset) t.self ≤ sent ∧ Change P pools
      (entry (aToken asset) t.self (-P.held w (aToken asset) t.self) +
        (entry asset t.self (P.held w (aToken asset) t.self - sent) + entry asset v.self sent))
          w w' := by
  unfold withdrawAsset at hwithdraw
  simp only [h.direct, ne_eq, not_true_eq_false, if_false] at hwithdraw
  obtain ⟨_, hsame, hwithdraw⟩ := bind_eq_ok.mp hwithdraw
  cases pure_eq_ok.mp hsame
  obtain ⟨token, htoken, hwithdraw⟩ := bind_eq_ok.mp hwithdraw
  obtain ⟨-, rfl⟩ := getATokenFor_eq_ok.mp htoken
  obtain ⟨balance, hbalance, hwithdraw⟩ := bind_eq_ok.mp hwithdraw
  rw [h.token asset hasset] at hbalance hwithdraw
  obtain rfl := ownBalance_eq_ok hbalance
  split_ifs at hwithdraw with hpos
  swap
  · cases pure_eq_ok.mp hwithdraw
    have hzero : P.held w (aToken asset) t.self = 0 := Nat.eq_zero_of_not_pos hpos
    refine ⟨0, hzero.le, .refl w, ?_⟩
    simp [hzero, entry_apply]
  obtain ⟨w₁, hredeem, hwithdraw⟩ := bind_eq_ok.mp hwithdraw
  obtain ⟨sent, hsent, htransfer⟩ := bind_eq_ok.mp hwithdraw
  obtain rfl := ownBalance_eq_ok hsent
  have hredeem := hP.redeems (callAt_eq_ok.mp hredeem).2
  rw [h.behind asset hasset] at hredeem
  have htransfer := hP.transfers (callAt_eq_ok.mp htransfer).2
  rw [h.vault] at htransfer
  have hboth := hredeem.trans htransfer
  have hplain := h.plain asset asset hasset hasset
  refine ⟨P.held w₁ asset t.self, ?_, hboth.prices, fun other holder hholder => ?_⟩
  · have hpaid := hredeem.held asset t.self hself
    simp only [Pi.add_apply, entry_apply, hplain, false_and, if_false, and_self, if_true] at hpaid
    omega
  · have hheld := hboth.held other holder hholder
    simp only [Pi.add_apply, entry_apply] at hheld ⊢
    split_ifs at hheld ⊢ <;> linarith

/-- All that the strategy has lent of the assets goes to the vault. -/
theorem Lends.withdrawAssets_held (hP : LendingMarket P aToken underlying pools)
    (h : t.Lends aToken underlying v.self) (hself : t.self ∉ pools) (hvault : v.self ∉ pools)
    (hne : t.self ≠ v.self) {assets : List Address} (hnodup : assets.Nodup)
    (hassets : ∀ asset ∈ assets, t.assetToPToken asset ≠ 0)
    (hwithdraw : assets.foldlM (t.withdrawAsset P) w = .ok w') :
    SamePrices P w w' ∧
      (∀ asset ∈ assets,
        P.held w asset v.self + P.held w (aToken asset) t.self ≤ P.held w' asset v.self) ∧
      ∀ token, ∀ holder ∉ pools, holder ≠ t.self →
        P.held w token holder ≤ P.held w' token holder := by
  induction assets generalizing w with
  | nil =>
      cases pure_eq_ok.mp hwithdraw
      exact ⟨.refl _, by simp, fun _ _ _ _ => le_rfl⟩
  | cons asset assets ih =>
      rw [List.foldlM_cons] at hwithdraw
      obtain ⟨w₁, hw₁, hwithdraw⟩ := bind_eq_ok.mp hwithdraw
      obtain ⟨hnew, hnodup⟩ := List.nodup_cons.mp hnodup
      obtain ⟨hasset, hassets⟩ := List.forall_mem_cons.mp hassets
      obtain ⟨hprices, hgained, hkept⟩ := ih hnodup hassets hwithdraw
      obtain ⟨sent, hsent, hstep⟩ := h.withdrawAsset_held hP hself hasset hw₁
      have hfirst : ∀ token, ∀ holder ∉ pools, holder ≠ t.self →
          P.held w token holder + (if token = asset ∧ holder = v.self then sent else 0) ≤
            P.held w₁ token holder := by
        intro token holder hholder hother
        have hheld := hstep.held token holder hholder
        simp only [Pi.add_apply, entry_apply, hother, and_false, if_false] at hheld
        split_ifs at hheld ⊢ <;> omega
      refine ⟨hstep.prices.trans hprices, List.forall_mem_cons.mpr ⟨?_, fun other hmem => ?_⟩,
        fun token holder hholder hother => ?_⟩
      · have hthen := hkept asset v.self hvault hne.symm
        have hnow := hfirst asset v.self hvault hne.symm
        simp only [and_self, if_true] at hnow
        omega
      · have hother : other ≠ asset := fun heq => hnew (heq ▸ hmem)
        have hthen := hgained other hmem
        have hnow := hfirst other v.self hvault hne.symm
        have hlent := hstep.held (aToken other) t.self hself
        have htokens := h.token_ne (hassets other hmem) hasset hother
        have hplain := (h.plain asset other hasset (hassets other hmem)).symm
        simp only [Pi.add_apply, entry_apply, htokens, hplain, hother, false_and, if_false] at *
        omega
      · have hthen := hkept token holder hholder hother
        have hnow := hfirst token holder hholder hother
        split_ifs at hnow <;> omega

/-- All that the strategy has of the assets is lent. -/
theorem Lends.depositAssets_held (hP : LendingMarket P aToken underlying pools)
    (h : t.Lends aToken underlying v.self) (hself : t.self ∉ pools) {assets : List Address}
    (hnodup : assets.Nodup) (hassets : ∀ asset ∈ assets, t.assetToPToken asset ≠ 0)
    (hdeposit : assets.foldlM (fun w asset => do
      let balance ← t.ownBalance P w asset
      if 0 < balance then t.depositAsset P w asset balance else return w) w = .ok w') :
    SamePrices P w w' ∧
      (∀ asset, t.assetToPToken asset ≠ 0 →
        P.held w (aToken asset) t.self + (if asset ∈ assets then P.held w asset t.self else 0) ≤
          P.held w' (aToken asset) t.self) ∧
      ∀ token, ∀ holder ∉ pools, holder ≠ t.self →
        P.held w token holder ≤ P.held w' token holder := by
  induction assets generalizing w with
  | nil =>
      cases pure_eq_ok.mp hdeposit
      exact ⟨.refl _, by simp, fun _ _ _ _ => le_rfl⟩
  | cons asset assets ih =>
      rw [List.foldlM_cons] at hdeposit
      obtain ⟨w₁, hw₁, hdeposit⟩ := bind_eq_ok.mp hdeposit
      obtain ⟨hnew, hnodup⟩ := List.nodup_cons.mp hnodup
      obtain ⟨hasset, hassets⟩ := List.forall_mem_cons.mp hassets
      obtain ⟨hprices, hlent, hkept⟩ := ih hnodup hassets hdeposit
      have hstep : Change P pools (entry asset t.self (-P.held w asset t.self) +
          entry (aToken asset) t.self (P.held w asset t.self)) w w₁ := by
        obtain ⟨balance, hbalance, hw₁⟩ := bind_eq_ok.mp hw₁
        obtain rfl := ownBalance_eq_ok hbalance
        split_ifs at hw₁ with hpos
        · exact h.depositAsset_change hP hw₁
        · cases pure_eq_ok.mp hw₁
          have hzero : P.held w asset t.self = 0 := Nat.eq_zero_of_not_pos hpos
          exact ⟨.refl _, by simp [hzero, entry_apply]⟩
      refine ⟨hstep.prices.trans hprices, fun other hother => ?_, ?_⟩
      · have hthen := hlent other hother
        have hnow := hstep.held (aToken other) t.self hself
        have hloose := hstep.held other t.self hself
        have hplain := (h.plain asset other hasset hother).symm
        simp only [Pi.add_apply, entry_apply, and_true, hplain, if_false, List.mem_cons] at *
        by_cases heq : other = asset
        · simp only [heq, hnew, if_true, if_false, true_or] at *
          omega
        · simp only [heq, if_false, false_or] at *
          split_ifs at * <;> omega
      · intro token holder hholder hother
        have hthen := hkept token holder hholder hother
        have hnow := hstep.held token holder hholder
        simp only [Pi.add_apply, entry_apply, hother, and_false, if_false] at hnow
        omega

/-- Without a staking contract there are no rewards to collect. -/
theorem Lends.collectRewardToken_fails (h : t.Lends aToken underlying v.self) {sender : Address} :
    t.collectRewardToken P w sender ≠ .ok w' := by
  intro hcollect
  obtain ⟨_, -, hcollect⟩ := bind_eq_ok.mp hcollect
  obtain ⟨w₁, hreward, -⟩ := bind_eq_ok.mp hcollect
  exact (callAt_eq_ok.mp hreward).1 h.direct

end AaveStrategy

/-! ## The strategies around the vault -/

namespace Surroundings

variable {s s' : Surroundings ω} {x : Address} {t : AaveStrategy}

theorem self_of_aave (ht : s.strategies x = some (.aave t)) : t.self = x :=
  s.self_eq x (.aave t) ht

theorem supportsAsset_aave (ht : s.strategies x = some (.aave t)) (asset : Address) :
    P.world.supportsAsset s x asset = .ok (decide (t.assetToPToken asset ≠ 0)) := by
  change s.call x _ _ = _
  rw [call, ht]
  rfl

theorem heldBy_aave (ht : s.strategies x = some (.aave t)) (hl : t.Lends aToken underlying v.self)
    (asset : Address) : System.heldBy P.world v s (some x) asset =
      if t.assetToPToken asset ≠ 0 then P.held s.platform (aToken asset) x else 0 := by
  unfold System.heldBy
  simp only [supportsAsset_aave ht]
  by_cases hasset : t.assetToPToken asset = 0
  · simp only [hasset, ne_eq, not_true_eq_false, if_false]
    rfl
  · have hread : P.world.checkBalance s x asset =
        (t.checkBalance P s.platform asset).mapError Failure.revert := by
      change s.call x _ _ = _
      rw [call, ht]
      rfl
    have hheld := hl.checkBalance_eq (P := P) (w := s.platform) hasset
    rw [self_of_aave ht] at hheld
    rw [if_pos hasset, ← hheld, ← hread]
    simp only [ne_eq, hasset, not_false_eq_true, decide_true]
    rfl

/-- What a change of the platform is to the holders of the vault. -/
theorem settled_of_change {change : Option Address → Address → ℤ}
    {c : Address → Address → ℤ} (hlend : AllLend aToken underlying v s)
    (hself : v.self ∉ pools) (hstrategies : ∀ x ∈ v.allStrategies, x ∉ pools)
    (h : Change P pools c s.platform w')
    (hnone : ∀ asset ∈ v.allAssets, change none asset ≤ c asset v.self)
    (hsome : ∀ x ∈ v.allStrategies, ∀ t : AaveStrategy, s.strategies x = some (.aave t) →
      t.Lends aToken underlying v.self → ∀ asset, change (some x) asset ≤
        if t.assetToPToken asset ≠ 0 then c (aToken asset) x else 0) :
    System.Settled P.world v (AllLend aToken underlying v) change s (s.setPlatform w') where
  quotes := ⟨fun asset => h.prices.price _ asset, h.prices.decimals, fun x hx asset => by
    obtain ⟨t, ht, -⟩ := hlend x hx
    have hsame : (s.setPlatform w').strategies x = some (.aave t) := ht
    rw [supportsAsset_aave ht, supportsAsset_aave hsame], id⟩
  held := by
    intro holder hholder asset hasset
    cases holder with
    | none =>
        have hle := hnone asset hasset
        have hheld := h.held asset v.self hself
        change (P.held s.platform asset v.self : ℤ) + change none asset ≤ P.held w' asset v.self
        linarith
    | some x =>
        have hx : x ∈ v.allStrategies := by simpa [System.holders] using hholder
        obtain ⟨t, ht, hl⟩ := hlend x hx
        have hsame : (s.setPlatform w').strategies x = some (.aave t) := ht
        have hle := hsome x hx t ht hl asset
        have hheld := h.held (aToken asset) x (hstrategies x hx)
        rw [heldBy_aave ht hl, heldBy_aave hsame hl]
        change _ ≤ ((if t.assetToPToken asset ≠ 0 then P.held w' (aToken asset) x else 0 : ℕ) : ℤ)
        split_ifs at hle ⊢
        · linarith
        · simpa using hle

/-- What the withdrawals of a reallocation change. -/
def withdrawnTo (aToken : Address → Address) (strategyFrom strategyTo : Address)
    (moves : List (Address × ℕ)) : Address → Address → ℤ :=
  (moves.map fun e => entry (aToken e.1) strategyFrom (-e.2) + entry e.1 strategyTo e.2).sum

/-- What a reallocation is to the vault. -/
def reallocated (strategyFrom strategyTo : Address) (moves : List (Address × ℕ)) :
    Option Address → Address → ℤ :=
  (moves.map fun e =>
    System.more (some strategyFrom) e.1 (-e.2) + System.more (some strategyTo) e.1 e.2).sum

/-- What the strategies of a reallocation do to the platform, one withdrawal after the other. -/
theorem foldlM_withdrawTo {strategyFrom strategyTo : Address} {t u : AaveStrategy}
    (hP : LendingMarket P aToken underlying pools)
    (ht : s.strategies strategyFrom = some (.aave t)) (hl : t.Lends aToken underlying v.self)
    (hu : s.strategies strategyTo = some (.aave u)) {moves : List (Address × ℕ)}
    (h : moves.foldlM (System.withdrawTo P.world v.self strategyFrom strategyTo) s = .ok s') :
    ∃ w, s' = s.setPlatform w ∧
      Change P pools (withdrawnTo aToken strategyFrom strategyTo moves) s.platform w ∧
      ∀ e ∈ moves, t.assetToPToken e.1 ≠ 0 ∧ u.assetToPToken e.1 ≠ 0 := by
  induction moves generalizing s with
  | nil =>
      cases pure_eq_ok.mp h
      exact ⟨_, rfl, .refl _, by simp⟩
  | cons e moves ih =>
      rw [List.foldlM_cons] at h
      obtain ⟨s₁, hs₁, h⟩ := bind_eq_ok.mp h
      obtain ⟨supported, hsupported, hs₁⟩ := bind_eq_ok.mp hs₁
      rw [supportsAsset_aave hu] at hsupported
      cases hsupported
      obtain ⟨_, hrequire, hs₁⟩ := bind_eq_ok.mp hs₁
      have htrue := require_eq_ok.mp hrequire
      obtain ⟨w₁, hw₁, rfl⟩ := (callLift_eq_ok ht).mp hs₁
      obtain ⟨hasset, hstep⟩ := hl.withdraw_change hP hw₁
      rw [self_of_aave ht] at hstep
      have ht₁ : (s.setPlatform w₁).strategies strategyFrom = some (.aave t) := ht
      have hu₁ : (s.setPlatform w₁).strategies strategyTo = some (.aave u) := hu
      obtain ⟨w, rfl, hrest, hmapped⟩ := ih ht₁ hu₁ h
      refine ⟨w, rfl, ?_, List.forall_mem_cons.mpr ⟨⟨hasset, of_decide_eq_true htrue⟩, hmapped⟩⟩
      rw [withdrawnTo, List.map_cons, List.sum_cons]
      exact hstep.trans hrest

/-! ## What a reallocation adds up to -/

section Moves

variable {strategyFrom strategyTo : Address} {moves : List (Address × ℕ)}

theorem withdrawnTo_elsewhere {holder : Address} (hfrom : holder ≠ strategyFrom)
    (hto : holder ≠ strategyTo) (token : Address) :
    withdrawnTo aToken strategyFrom strategyTo moves token holder = 0 := by
  induction moves with
  | nil => rfl
  | cons e moves ih =>
      have hhead :
          (entry (aToken e.1) strategyFrom (-e.2) + entry e.1 strategyTo e.2) token holder = 0 := by
        simp [entry_apply, hfrom, hto]
      simp only [withdrawnTo, List.map_cons, List.sum_cons, Pi.add_apply] at ih hhead ⊢
      rw [ih, hhead, add_zero]

theorem reallocated_none (asset : Address) :
    reallocated strategyFrom strategyTo moves none asset = 0 := by
  induction moves with
  | nil => rfl
  | cons e moves ih =>
      simp only [reallocated, List.map_cons, List.sum_cons, Pi.add_apply] at ih ⊢
      simp [ih, System.more_apply]

theorem reallocated_nonpos {x asset : Address} (h : ∀ e ∈ moves, e.1 = asset → x ≠ strategyTo) :
    reallocated strategyFrom strategyTo moves (some x) asset ≤ 0 := by
  induction moves with
  | nil => exact le_rfl
  | cons e moves ih =>
      obtain ⟨hhead, htail⟩ := List.forall_mem_cons.mp h
      have hrest := ih htail
      simp only [reallocated, List.map_cons, List.sum_cons, Pi.add_apply, System.more_apply,
        Option.some.injEq] at hrest ⊢
      split_ifs <;> simp_all
      linarith

/-- What a strategy has more of lent assets is what it was sent, and what it has less of is what
it sent. -/
theorem reallocated_le {t t' : AaveStrategy} {x asset : Address}
    (ht : s.strategies strategyFrom = some (.aave t)) (hl : t.Lends aToken underlying v.self)
    (ht' : s.strategies x = some (.aave t')) (hasset : t'.assetToPToken asset ≠ 0)
    (hmapped : ∀ e ∈ moves, t.assetToPToken e.1 ≠ 0) :
    reallocated strategyFrom strategyTo moves (some x) asset ≤
      withdrawnTo aToken strategyFrom strategyTo moves (aToken asset) x +
        if x = strategyTo then withdrawnTo aToken strategyFrom strategyTo moves asset x else 0 := by
  induction moves with
  | nil => simp [reallocated, withdrawnTo]
  | cons e moves ih =>
      obtain ⟨hhead, htail⟩ := List.forall_mem_cons.mp hmapped
      have hrest := ih htail
      have htokens (hx : x = strategyFrom) (hne : asset ≠ e.1) : aToken asset ≠ aToken e.1 := by
        subst hx
        cases ht.symm.trans ht'
        exact hl.token_ne hasset hhead hne
      have hplain (hx : x = strategyFrom) : asset ≠ aToken e.1 := by
        subst hx
        cases ht.symm.trans ht'
        exact hl.plain asset e.1 hasset hhead
      -- what was redeemed is an aToken of the asset only if the asset was withdrawn
      have hredeemed : (if aToken asset = aToken e.1 ∧ x = strategyFrom then -(e.2 : ℤ) else 0) =
          if x = strategyFrom ∧ asset = e.1 then -(e.2 : ℤ) else 0 := by
        refine if_congr ⟨fun ⟨h, hx⟩ => ⟨hx, ?_⟩, fun ⟨hx, h⟩ => ⟨h ▸ rfl, hx⟩⟩ rfl rfl
        exact not_not.mp fun hne => htokens hx hne h
      have hkept : (if asset = aToken e.1 ∧ x = strategyFrom then -(e.2 : ℤ) else 0) = 0 :=
        if_neg fun ⟨h, hx⟩ => hplain hx h
      have hsent : (0 : ℤ) ≤ if aToken asset = e.1 ∧ x = strategyTo then (e.2 : ℤ) else 0 := by
        split_ifs <;> omega
      simp only [reallocated, withdrawnTo, List.map_cons, List.sum_cons, Pi.add_apply,
        System.more_apply, entry_apply, Option.some.injEq] at hrest ⊢
      rw [hredeemed, hkept]
      by_cases hto : x = strategyTo
      · simp only [hto, true_and, and_true, if_true] at hrest hsent ⊢
        linarith
      · simp only [hto, false_and, and_false, if_false] at hrest hsent ⊢
        linarith

end Moves

end Surroundings

open Surroundings

/-- Strategies that lend over a lending market do what the vault asks them for. -/
theorem LendingMarket.custody (hP : LendingMarket P aToken underlying pools)
    (hself : v.self ∉ pools) (hown : v.self ∉ v.allStrategies)
    (hstrategies : ∀ x ∈ v.allStrategies, x ∉ pools) :
    System.Custody P.world v (AllLend aToken underlying v) where
  pulls := by
    intro s s' asset owner amount hlend _ howner hnot h
    obtain ⟨w, hw, rfl⟩ := lift_eq_ok.mp h
    refine settled_of_change hlend hself hstrategies (hP.transfersFrom hw) ?_ ?_
    · intro other _
      simp only [System.more_apply, Pi.add_apply, entry_apply, howner.symm]
      split_ifs <;> simp_all
    · intro x hx t _ _ other
      have hne : x ≠ owner := fun heq => hnot (heq ▸ hx)
      have hne' : x ≠ v.self := fun heq => hown (heq ▸ hx)
      simp [System.more_apply, entry_apply, hne, hne']
  pays := by
    intro s s' asset recipient amount hlend h
    obtain ⟨w, hw, rfl⟩ := lift_eq_ok.mp h
    refine settled_of_change hlend hself hstrategies (hP.transfers hw) ?_ ?_
    · intro other _
      simp only [System.more_apply, Pi.add_apply, entry_apply]
      split_ifs <;> simp_all
    · intro x hx t _ _ other
      have hne : x ≠ v.self := fun heq => hown (heq ▸ hx)
      simp only [System.more_apply, Pi.add_apply, entry_apply, hne]
      split_ifs <;> simp_all
  invests := by
    intro s s₁ s₂ asset strategy amount hlend _ hmem hsupports htransfer hdeposit
    obtain ⟨t, ht, hl⟩ := hlend strategy hmem
    have hne : strategy ≠ v.self := fun heq => hown (heq ▸ hmem)
    rw [supportsAsset_aave ht] at hsupports
    have hasset : t.assetToPToken asset ≠ 0 := of_decide_eq_true (Except.ok.inj hsupports)
    obtain ⟨w₁, hw₁, rfl⟩ := lift_eq_ok.mp htransfer
    have ht₁ : (s.setPlatform w₁).strategies strategy = some (.aave t) := ht
    obtain ⟨w₂, hw₂, rfl⟩ := (callLift_eq_ok ht₁).mp hdeposit
    obtain ⟨_, -, hw₂⟩ := bind_eq_ok.mp hw₂
    have hlent := hl.depositAsset_change hP hw₂
    rw [self_of_aave ht] at hlent
    refine settled_of_change hlend hself hstrategies ((hP.transfers hw₁).trans hlent) ?_ ?_
    · intro other _
      simp only [System.more_apply, Pi.add_apply, entry_apply, hne.symm]
      split_ifs <;> simp_all
    · intro x hx u hu _ other
      have hne' : x ≠ v.self := fun heq => hown (heq ▸ hx)
      simp only [System.more_apply, Pi.add_apply, entry_apply, hne']
      by_cases heq : x = strategy
      · subst heq
        cases ht.symm.trans hu
        split_ifs <;> simp_all
      · simp [heq]
  withdraws := by
    intro s s' asset strategy recipient amount hlend hmem h
    obtain ⟨t, ht, hl⟩ := hlend strategy hmem
    have hne : strategy ≠ v.self := fun heq => hown (heq ▸ hmem)
    obtain ⟨w, hw, rfl⟩ := (callLift_eq_ok ht).mp h
    obtain ⟨hasset, hchange⟩ := hl.withdraw_change hP hw
    rw [self_of_aave ht] at hchange
    refine settled_of_change hlend hself hstrategies hchange ?_ ?_
    · intro other _
      simp only [System.more_apply, Pi.add_apply, entry_apply, hne.symm]
      split_ifs <;> simp_all
    · intro x hx u hu _ other
      by_cases heq : x = strategy
      · subst heq
        cases ht.symm.trans hu
        have htokens (hother : t.assetToPToken other ≠ 0) (hdiffers : other ≠ asset) :
            aToken other ≠ aToken asset := hl.token_ne hother hasset hdiffers
        simp only [System.more_apply, Pi.add_apply, entry_apply]
        split_ifs <;> simp_all
      · simp only [System.more_apply, Pi.add_apply, entry_apply, heq]
        split_ifs <;> simp_all
  reallocates := by
    intro s s₁ s₂ strategyFrom strategyTo moves hlend hfrom hto hmoves hdeposit
    obtain ⟨t, ht, hl⟩ := hlend strategyFrom hfrom
    obtain ⟨u, hu, hlu⟩ := hlend strategyTo hto
    obtain ⟨w₁, rfl, hchange, hmapped⟩ := foldlM_withdrawTo hP ht hl hu hmoves
    have hu₁ : (s.setPlatform w₁).strategies strategyTo = some (.aave u) := hu
    obtain ⟨w₂, hw₂, rfl⟩ := (callLift_eq_ok hu₁).mp hdeposit
    obtain ⟨_, -, hw₂⟩ := bind_eq_ok.mp hw₂
    have hmine := self_of_aave hu
    obtain ⟨hprices, hlent, hkept⟩ := hlu.depositAssets_held hP (hmine ▸ hstrategies _ hto)
      hlu.mapped.nodup (fun asset => (hlu.mapped.mem_iff asset).mp) hw₂
    rw [hmine] at hlent hkept
    refine settled_of_change hlend hself hstrategies
      (Change.of_prices (hchange.prices.trans hprices)) ?_ ?_
    · intro asset _
      have hmineFrom : v.self ≠ strategyFrom := fun heq => hown (heq ▸ hfrom)
      have hmineTo : v.self ≠ strategyTo := fun heq => hown (heq ▸ hto)
      have hthen : P.held w₁ asset v.self ≤ P.held w₂ asset v.self :=
        hkept asset v.self hself hmineTo
      have hnow := hchange.held asset v.self hself
      have helsewhere : withdrawnTo aToken strategyFrom strategyTo moves asset v.self = 0 :=
        withdrawnTo_elsewhere hmineFrom hmineTo asset
      have hnone : reallocated strategyFrom strategyTo moves none asset = 0 :=
        reallocated_none asset
      change reallocated strategyFrom strategyTo moves none asset ≤ _
      rw [helsewhere] at hnow
      rw [hnone]
      omega
    · intro x hx t' ht' hl' asset
      by_cases hasset : t'.assetToPToken asset = 0
      · rw [if_neg (not_not.mpr hasset)]
        refine reallocated_nonpos fun e he heq => ?_
        rintro rfl
        cases hu.symm.trans ht'
        exact (hmapped e he).2 (heq ▸ hasset)
      · rw [if_pos hasset]
        have hsum : reallocated strategyFrom strategyTo moves (some x) asset ≤ _ :=
          reallocated_le ht hl ht' hasset fun e he => (hmapped e he).1
        have hnow := hchange.held (aToken asset) x (hstrategies x hx)
        refine hsum.trans ?_
        by_cases heq : x = strategyTo
        · subst heq
          cases hu.symm.trans ht'
          have hloose := hchange.held asset x (hstrategies x hx)
          have hthen := hlent asset hasset
          rw [if_pos ((hlu.mapped.mem_iff asset).mpr hasset)] at hthen
          change P.held w₁ _ _ + P.held w₁ _ _ ≤ _ at hthen
          rw [if_pos rfl]
          omega
        · have hthen : P.held w₁ (aToken asset) x ≤ P.held w₂ (aToken asset) x :=
            hkept (aToken asset) x (hstrategies x hx) heq
          rw [if_neg heq]
          omega
  recalls := by
    intro s s' strategy hlend hmem h
    obtain ⟨t, ht, hl⟩ := hlend strategy hmem
    have hne : strategy ≠ v.self := fun heq => hown (heq ▸ hmem)
    obtain ⟨w, hw, rfl⟩ := (callLift_eq_ok ht).mp h
    obtain ⟨_, -, hw⟩ := bind_eq_ok.mp hw
    have hmine := self_of_aave ht
    obtain ⟨hprices, hgained, hkept⟩ := hl.withdrawAssets_held hP (hmine ▸ hstrategies _ hmem)
      hself (hmine ▸ hne) hl.mapped.nodup (fun asset => (hl.mapped.mem_iff asset).mp) hw
    rw [hmine] at hgained hkept
    refine settled_of_change hlend hself hstrategies (Change.of_prices hprices) ?_ ?_
    · intro asset _
      simp only [System.recalled, heldBy_aave ht hl, Pi.sub_apply, Pi.single_eq_same]
      by_cases hasset : t.assetToPToken asset = 0
      · have hthen := hkept asset v.self hself hne.symm
        simp [hasset, hthen]
      · have hthen := hgained asset ((hl.mapped.mem_iff asset).mpr hasset)
        simp [hasset]
        omega
    · intro x hx u hu hlu asset
      simp only [System.recalled, heldBy_aave ht hl, Pi.sub_apply]
      by_cases heq : x = strategy
      · subst heq
        cases ht.symm.trans hu
        by_cases hasset : t.assetToPToken asset = 0 <;> simp [hasset]
      · have hthen := hkept (aToken asset) x (hstrategies x hx) heq
        simp only [Pi.single_apply, Option.some.injEq, heq, if_false, reduceCtorEq, Pi.zero_apply]
        split_ifs <;> omega
  collects := by
    intro s s' strategy token hlend hmem _ h
    obtain ⟨t, ht, hl⟩ := hlend strategy hmem
    obtain ⟨w, hw, -⟩ := (callLift_eq_ok ht).mp h
    exact absurd hw hl.collectRewardToken_fails
  approves := by
    intro s s' token spender amount hlend h
    obtain ⟨w, hw, rfl⟩ := lift_eq_ok.mp h
    exact settled_of_change hlend hself hstrategies (hP.approves hw) (by simp) (by simp)
  swaps := by
    intro s s' router token amountIn amountOutMin deadline path hlend htoken h
    obtain ⟨w, hw, rfl⟩ := lift_eq_ok.mp h
    refine settled_of_change hlend hself hstrategies (hP.swaps hw) ?_ ?_
    · intro asset hasset
      have hne : asset ≠ token := fun heq => htoken (heq ▸ hasset)
      simp [entry_apply, hne]
    · intro x hx t _ _ asset
      have hne : x ≠ v.self := fun heq => hown (heq ▸ hx)
      simp [entry_apply, hne]

/-! ## Runs -/

/-- The vault's calls leave the storage of the strategies as it is. -/
theorem keeps_strategies (strategies : Address → Option Strategy) :
    P.world.Keeps fun s => s.strategies = strategies := by
  have hlift (s : Surroundings ω) (x : Except Revert ω) (h : s.strategies = strategies) :
      Ensures (s.lift x) fun s => s.strategies = strategies := by
    intro s' hs'
    obtain ⟨w, -, rfl⟩ := lift_eq_ok.mp hs'
    exact h
  constructor <;> intros <;> exact hlift _ _ ‹_›

namespace System

/-- The strategies that the vault may approve lend for it, those it has approved are among them,
and its default strategies serve. -/
structure Lending (P : Platform ω) (aToken underlying : Address → Address) (lenders : Set Address)
    (s : System (Surroundings ω)) : Prop where
  approved : ∀ x ∈ s.vault.allStrategies, x ∈ lenders
  lends : ∀ x ∈ lenders, ∃ t, s.world.strategies x = some (.aave t) ∧
    t.Lends aToken underlying s.vault.self
  defaults : DefaultsServe P.world s

/-- Only strategies that lend are approved, no default strategy is removed, and harvests are of
the vault's strategies. What happens outside the vault loses nothing and leaves the strategies
lending what they lend, and so does another oracle. -/
def KeepsLending (P : Platform ω) (aToken underlying : Address → Address) (lenders : Set Address)
    (s : System (Surroundings ω)) : Action (Surroundings ω) → Prop
  | .approveStrategy x => x ∈ lenders
  | .removeStrategy x => ∀ asset ∈ s.vault.allAssets, s.vault.assetDefaultStrategies asset ≠ x
  | .harvestStrategy x => x ∈ s.vault.allStrategies
  | .configure (.priceProvider provider) => reserves P.world s.vault s.world ≤
      reserves P.world { s.vault with priceProvider := provider } s.world
  | .environment world => reserves P.world s.vault s.world ≤ reserves P.world s.vault world ∧
      ∀ x ∈ lenders, ∃ t, world.strategies x = some (.aave t) ∧
        t.Lends aToken underlying s.vault.self ∧ ∀ asset,
          P.world.supportsAsset s.world x asset = .ok true → t.assetToPToken asset ≠ 0
  | _ => True

variable {lenders : Set Address} {s t : System (Surroundings ω)}

theorem execFrom_self {W : World (Surroundings ω)} {step : Address × Action (Surroundings ω)}
    (h : s.execFrom W step = .ok t) : t.vault.self = s.vault.self := by
  obtain ⟨sender, action⟩ := step
  have heffect : Effect W s sender action t := exec_effect (execFrom_eq_ok.mp h).2
  cases heffect with
  | function hsmall => rw [hsmall.vault]
  | ousd hcall => rw [callOusd_vault hcall]
  | setting hsame => exact hsame.self
  | removeStrategy hworld =>
      rw [hworld.vault]
      rfl
  | _ => rfl

/-- After any step the strategies still lend, and support what they did. -/
theorem Lending.world (h : s.Lending P aToken underlying lenders)
    {step : Address × Action (Surroundings ω)}
    (hstep : s.KeepsLending P aToken underlying lenders step.2)
    (ht : s.execFrom P.world step = .ok t) : ∀ x ∈ lenders,
      (∃ a, t.world.strategies x = some (.aave a) ∧ a.Lends aToken underlying s.vault.self) ∧
        ∀ asset, P.world.supportsAsset s.world x asset = .ok true →
          P.world.supportsAsset t.world x asset = .ok true := by
  intro x hx
  by_cases hinside : ∃ world, step.2 = .environment world
  · obtain ⟨world, heq⟩ := hinside
    obtain ⟨sender, action⟩ := step
    cases heq
    cases (execFrom_eq_ok.mp ht).2
    obtain ⟨a, ha, hlends, hsupports⟩ := hstep.2 x hx
    refine ⟨⟨a, ha, hlends⟩, fun asset hasset => ?_⟩
    change P.world.supportsAsset world x asset = .ok true
    rw [supportsAsset_aave ha]
    simpa using hsupports asset hasset
  · have hkeeps : t.world.strategies = s.world.strategies :=
      exec_keeps (keeps_strategies s.world.strategies) s rfl (fun world heq => hinside ⟨world, heq⟩)
        t (execFrom_eq_ok.mp ht).2
    obtain ⟨a, ha, hlends⟩ := h.lends x hx
    have hsame : t.world.strategies x = some (.aave a) := hkeeps ▸ ha
    refine ⟨⟨a, hsame, hlends⟩, fun asset hasset => ?_⟩
    rwa [supportsAsset_aave hsame, ← supportsAsset_aave ha]

theorem Lending.execFrom (h : s.Lending P aToken underlying lenders) (hs : Sound s)
    {step : Address × Action (Surroundings ω)}
    (hstep : s.KeepsLending P aToken underlying lenders step.2)
    (ht : s.execFrom P.world step = .ok t) : t.Lending P aToken underlying lenders := by
  have hworld := h.world hstep ht
  have hself := execFrom_self ht
  have heffect : Effect P.world s step.1 step.2 t := exec_effect (execFrom_eq_ok.mp ht).2
  suffices hboth : (∀ x ∈ t.vault.allStrategies, x ∈ lenders) ∧
      ∀ asset ∈ t.vault.allAssets, t.vault.assetDefaultStrategies asset ≠ 0 →
        t.vault.assetDefaultStrategies asset ∈ t.vault.allStrategies ∧
          P.world.supportsAsset s.world (t.vault.assetDefaultStrategies asset) asset = .ok true by
    refine ⟨hboth.1, fun x hx => hself ▸ (hworld x hx).1, fun asset hasset hne => ?_⟩
    obtain ⟨happroved, hsupports⟩ := hboth.2 asset hasset hne
    exact ⟨happroved, (hworld _ (hboth.1 _ happroved)).2 asset hsupports⟩
  have hbefore := And.intro h.approved h.defaults
  obtain ⟨sender, action⟩ := step
  cases heffect with
  | function hsmall => rwa [hsmall.vault]
  | ousd hcall => rwa [callOusd_vault hcall]
  | setting hsame =>
      simp only [System.setVault, hsame.allStrategies, hsame.allAssets, hsame.defaults]
      exact hbefore
  | @supportAsset asset hnew =>
      refine ⟨h.approved, fun other hother hne => ?_⟩
      exact h.defaults other (hs.registered.defaults other hne) hne
  | @approveStrategy strategy hnew =>
      refine ⟨?_, fun asset hasset hne => ?_⟩
      · intro x hx
        rcases List.mem_append.mp hx with hx | hx
        · exact h.approved x hx
        · exact List.mem_singleton.mp hx ▸ hstep
      · obtain ⟨happroved, hsupports⟩ := h.defaults asset hasset hne
        exact ⟨List.mem_append_left _ happroved, hsupports⟩
  | @setAssetDefaultStrategy asset strategy happroved hasset =>
      refine ⟨h.approved, fun other hother hne => ?_⟩
      obtain ⟨_, -, hexec⟩ := bind_eq_ok.mp (execFrom_eq_ok.mp ht).2
      obtain ⟨_, -, hexec⟩ := bind_eq_ok.mp hexec
      obtain ⟨_, -, hexec⟩ := bind_eq_ok.mp hexec
      obtain ⟨_, hsupports, hexec⟩ := bind_eq_ok.mp hexec
      obtain ⟨_, hrequire, -⟩ := bind_eq_ok.mp hexec
      cases require_eq_ok.mp hrequire
      by_cases heq : other = asset
      · subst heq
        simp only [System.setVault, Vault.setDefault, Function.update_self]
        exact ⟨(hs.registered.strategies strategy).mp happroved, hsupports⟩
      · simp only [System.setVault, Vault.setDefault, Function.update_of_ne heq] at hne ⊢
        exact h.defaults other hother hne
  | @removeStrategy strategy _ hdropped =>
      rw [hdropped.vault]
      refine ⟨fun x hx => ?_, fun asset hasset hne => ?_⟩
      · exact h.approved x (hs.registered.mem_dropStrategy.mp hx).2
      · obtain ⟨happroved, hsupports⟩ := h.defaults asset hasset hne
        exact ⟨hs.registered.mem_dropStrategy.mpr ⟨hstep asset hasset, happroved⟩, hsupports⟩

variable {self governor priceProvider : Address} {world : Surroundings ω}
  {trace : List (System (Surroundings ω) × (Address × Action (Surroundings ω)))}

/-- Where the strategies lend, each step keeps the supply backed. -/
theorem Lending.sustains (hP : LendingMarket P aToken underlying pools)
    (h : s.Lending P aToken underlying lenders) (hself : s.vault.self ∉ pools)
    (hown : s.vault.self ∉ lenders) (hlenders : ∀ x ∈ lenders, x ∉ pools)
    {step : Address × Action (Surroundings ω)} (hcaller : step.1 ∉ lenders)
    (hstep : s.KeepsLending P aToken underlying lenders step.2) :
    s.Sustains P.world step where
  custody := by
    refine ⟨AllLend aToken underlying s.vault, fun x hx => h.lends x (h.approved x hx), ?_⟩
    exact hP.custody hself (fun hmem => hown (h.approved _ hmem))
      fun x hx => hlenders x (h.approved x hx)
  defaults := h.defaults
  caller := fun hmem => hcaller (h.approved _ hmem)
  outside := by
    intro houtside t ht
    obtain ⟨sender, action⟩ := step
    have hexec := (execFrom_eq_ok.mp ht).2
    cases action with
    | configure setting =>
        cases setting with
        | priceProvider provider =>
            obtain ⟨_, -, hexec⟩ := bind_eq_ok.mp hexec
            cases pure_eq_ok.mp hexec
            exact hstep
        | _ => exact absurd houtside (by simp [System.outside])
    | environment world =>
        cases hexec
        exact hstep.1
    | harvestStrategy strategy =>
        have hmem : strategy ∈ s.vault.allStrategies := hstep
        exact absurd houtside (by simp [System.outside, hmem])
    | _ => exact absurd houtside (by simp [System.outside])

/-- What the vault has of an asset, and the aTokens that its strategies have for it. -/
def heldAndLent (P : Platform ω) (aToken : Address → Address) (s : System (Surroundings ω))
    (asset : Address) : ℕ :=
  P.held s.world.platform asset s.vault.self +
    ∑ x ∈ s.vault.allStrategies.toFinset, P.held s.world.platform (aToken asset) x

theorem Lending.reserves_le (h : s.Lending P aToken underlying lenders) :
    reserves P.world s.vault s.world ≤ ∑ asset ∈ s.vault.allAssets.toFinset,
      heldAndLent P aToken s asset * unitWorth P.world s.vault s.world asset := by
  refine Finset.sum_le_sum fun asset _ => ?_
  rw [holders, Finset.sum_insertNone, heldAndLent]
  push_cast
  rw [add_mul, Finset.sum_mul]
  refine add_le_add le_rfl (Finset.sum_le_sum fun x hx => ?_)
  obtain ⟨t, ht, hlends⟩ := h.lends x (h.approved x (List.mem_toFinset.mp hx))
  refine mul_le_mul_of_nonneg_right ?_ (unitWorth_nonneg asset)
  rw [heldBy_aave ht hlends]
  split_ifs <;> simp

section Plain

open PlainPlatform

theorem change_of_move {m : PlainMarket} {pools : Set Address} {w : PlainPlatform}
    {world : PlainWorld} {token giver taker : Address} {amount : ℕ}
    (h : w.move token giver taker amount = .ok world) :
    Change (calls m) pools (entry token giver (-amount) + entry token taker amount) w
      { w with toPlainWorld := world } := by
  have hbalance := plainWorld_move_balance h
  obtain ⟨-, rfl⟩ := PlainWorld.move_eq_ok.mp h
  refine ⟨⟨fun _ _ => rfl, fun _ => rfl⟩, fun other holder _ => ?_⟩
  have hheld := hbalance other holder
  simp only [Pi.add_apply, entry_apply]
  change (w.balances other holder : ℤ) + _ ≤ _
  refine le_of_le_of_eq ?_ hheld.symm
  split_ifs <;> simp

theorem change_of_create {m : PlainMarket} {pools : Set Address} {w : PlainPlatform}
    {token holder : Address} {amount : ℕ} :
    Change (calls m) pools (entry token holder amount) w (w.create token holder amount) := by
  refine ⟨⟨fun _ _ => rfl, fun _ => rfl⟩, fun other account _ => ?_⟩
  change (w.balances other account : ℤ) + _ ≤
    ((w.create token holder amount).balances other account : ℕ)
  rw [entry_apply]
  by_cases hother : other = token
  · subst hother
    by_cases haccount : account = holder <;> simp [create, PlainWorld.give, haccount]
  · simp [create, PlainWorld.give, hother]

theorem change_of_burn {m : PlainMarket} {pools : Set Address} {w : PlainPlatform}
    {token holder : Address} {amount : ℕ} (h : amount ≤ w.balances token holder) :
    Change (calls m) pools (entry token holder (-amount)) w
      { w with
        toPlainWorld := w.take token holder amount
        supply := Function.update w.supply token (w.supply token - amount) } := by
  refine ⟨⟨fun _ _ => rfl, fun _ => rfl⟩, fun other account _ => ?_⟩
  change (w.balances other account : ℤ) + _ ≤
    ((w.take token holder amount).balances other account : ℕ)
  rw [entry_apply]
  by_cases hother : other = token
  · subst hother
    by_cases haccount : account = holder <;> simp [PlainWorld.take, haccount]
    omega
  · simp [PlainWorld.take, hother]

theorem change_of_payOut {m : PlainMarket} {pools : Set Address} {w : PlainPlatform}
    {token platform recipient : Address} {amount : ℕ} (hplatform : platform ∈ pools) :
    Change (calls m) pools (entry token recipient amount) w
      (w.payOut platform recipient (only token amount)) := by
  refine ⟨⟨fun _ _ => rfl, fun _ => rfl⟩, fun other holder hholder => ?_⟩
  have hne : holder ≠ platform := fun heq => hholder (heq ▸ hplatform)
  change (w.balances other holder : ℤ) + _ ≤
    ((w.payOut platform recipient (only token amount)).balances other holder : ℕ)
  rw [entry_apply]
  by_cases hrecipient : holder = recipient
  · rw [hrecipient, payOut_balances_self]
    by_cases hother : other = token <;> simp [only, hother]
  · rw [payOut_balances_of_ne hne hrecipient]
    simp [hrecipient]

/-- Plain platforms lend standard tokens. -/
theorem lendingMarket_plain (m : PlainMarket) :
    LendingMarket (calls m) m.aToken m.underlying (Set.range m.aToken) where
  transfers := by
    intro w w' caller token recipient amount h
    obtain ⟨world, hmove, rfl⟩ := PlainPlatform.lift_eq_ok.mp h
    exact change_of_move hmove
  transfersFrom := by
    intro w w' caller token owner recipient amount h
    obtain ⟨world, hmove, rfl⟩ := PlainPlatform.lift_eq_ok.mp h
    exact change_of_move hmove
  approves := by
    intro w w' caller token spender amount h
    cases h
    exact .refl _
  lends := by
    intro w w' caller pool asset amount referralCode h
    obtain ⟨w₁, hlift, h⟩ := bind_eq_ok.mp h
    obtain ⟨world, hmove, rfl⟩ := PlainPlatform.lift_eq_ok.mp hlift
    cases pure_eq_ok.mp h
    refine ((change_of_move hmove).trans change_of_create).mono fun other holder => ?_
    simp only [Pi.add_apply, entry_apply]
    split_ifs <;> omega
  redeems := by
    intro w w' caller asset amount h
    obtain ⟨w₁, hburn, hpay⟩ := bind_eq_ok.mp h
    obtain ⟨hle, rfl⟩ := burn_eq_ok.mp hburn
    obtain ⟨-, rfl⟩ := pay_eq_ok.mp hpay
    exact (change_of_burn hle).trans (change_of_payOut (Set.mem_range_self asset))
  swaps := by
    intro w w' caller router token recipient amountIn amountOutMin deadline path h
    cases h

/-- A strategy at 21 that lends the asset 4 for the vault at 9. -/
def plainAave : AaveStrategy where
  toAbstractStrategy :=
    { (AbstractStrategy.deployed 21 8).addPToken 4 31 with
      platformAddress := 51
      vaultAddress := 9 }
  referralCode := 0
  uniswapAddr := 50
  ubeStakingAddress := 0
  rewardPoolAddress := 0
  secondaryRewardTokenAddress := 0
  rewardLiquidityPair := fun _ => 0

theorem plainAave_lends : plainAave.Lends market.aToken market.underlying 9 := by
  have hmapped : ∀ asset, plainAave.assetToPToken asset ≠ 0 → asset = 4 := by
    intro asset hne
    by_contra hother
    exact hne (Function.update_of_ne hother _ _)
  have hadded : ((AbstractStrategy.deployed 21 8).addPToken 4 31).Mapped :=
    (AbstractStrategy.mapped_deployed 21 8).addPToken rfl (by decide) (by decide)
  refine ⟨⟨hadded.nodup, hadded.mem_iff, hadded.zero⟩, rfl, rfl, ?_, ?_, ?_⟩
  · intro asset hne
    cases hmapped asset hne
    decide
  · intro asset hne
    cases hmapped asset hne
    decide
  · intro asset other hne hne'
    cases hmapped asset hne
    cases hmapped other hne'
    decide

theorem aToken_market {x : Address} (h : x ∈ Set.range market.aToken) :
    x = 31 ∨ x = 32 ∨ x = 33 := by
  obtain ⟨asset, rfl⟩ := h
  simp only [market]
  split_ifs <;> simp

/-- The strategy, and an account with coins worth three halves of a dollar. -/
def lendingSurroundings : Surroundings PlainPlatform where
  strategies x := if x = 21 then some (.aave plainAave) else none
  self_eq x t ht := by
    split_ifs at ht with h
    · cases ht
      exact h.symm
    · cases ht
  platform := { PlainPlatform.empty.create 4 1 100 with prices := fun _ => 15 * 10 ^ 17 }

/-- A call that needs nothing but a strategy that lends. -/
def harmless : Action (Surroundings PlainPlatform) → Bool
  | .approveStrategy x => decide (x = 21)
  | .removeStrategy _ | .harvestStrategy _ | .configure _ | .environment _ => false
  | _ => true

theorem keepsLending_of_harmless {m : PlainMarket} {s : System (Surroundings PlainPlatform)}
    {action : Action (Surroundings PlainPlatform)} (h : harmless action = true) :
    s.KeepsLending (calls m) m.aToken m.underlying {21} action := by
  cases action with
  | approveStrategy x =>
      have hx : x = 21 := of_decide_eq_true h
      exact hx
  | removeStrategy | harvestStrategy | configure | environment => cases h
  | _ => trivial

end Plain

end System

end InterestDollar
