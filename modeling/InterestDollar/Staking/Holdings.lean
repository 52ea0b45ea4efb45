import InterestDollar.FixedPoint.Ratio
import InterestDollar.Staking.Bookkeeping

/-!
# What the stakes of an account are worth before they end

`totalCurrentHoldings` counts an ended stake at what it is owed and another one at its amount
and the part of its reward for the time that is over. The two are one formula: at its end all
of the duration is over, so the part is the whole reward. In a run the time that is over is
within the duration and within the time of the block, and the rewards are within
`totalOutstanding`, so none of the subtractions and products of the view fails.
-/

namespace InterestDollar

open Checked FixedPoint Transition

namespace Staking

/-- A stake as `_stake` makes it, at a later time: it ends its duration after it was made, and
its reward was computed. -/
structure Stake.Made (now : ℕ) (stake : Stake) : Prop where
  duration_le : stake.duration ≤ stake.ends
  ends_le : stake.ends ≤ now + stake.duration
  product : stake.amount * stake.rate < wordBound

/-- The amount of a stake that was not paid. -/
def Stake.staked (stake : Stake) : ℕ := if stake.paid then 0 else stake.amount

/-- The reward of a stake that was not paid. -/
def Stake.reward (stake : Stake) : ℕ :=
  if stake.paid then 0 else stake.amount * stake.rate / fullScale

/-- How long a stake has been running at a time, which is its duration from its end on. -/
def Stake.elapsed (now : ℕ) (stake : Stake) : ℕ := stake.duration - (stake.ends - now)

/-- What a stake that was not paid is worth at a time. -/
def Stake.holding (now : ℕ) (stake : Stake) : ℕ :=
  stake.staked + atRatio fullScale (stake.elapsed now) stake.duration stake.reward

/-! ## One stake -/

section Stake

variable {now t t' : ℕ} {stake : Stake}

theorem staked_add_reward : stake.staked + stake.reward = stake.owed := by
  unfold Stake.staked Stake.reward Stake.owed
  split_ifs <;> rfl

theorem elapsed_le : stake.elapsed t ≤ stake.duration := Nat.sub_le _ _

theorem elapsed_mono (h : t ≤ t') : stake.elapsed t ≤ stake.elapsed t' :=
  Nat.sub_le_sub_left (Nat.sub_le_sub_left h _) _

/-- All of a stake's duration is over exactly from its end on. -/
theorem elapsed_eq_iff (hpos : 0 < stake.duration) :
    stake.elapsed t = stake.duration ↔ stake.ends ≤ t := by
  unfold Stake.elapsed
  omega

theorem holding_mono (h : t ≤ t') : stake.holding t ≤ stake.holding t' :=
  Nat.add_le_add_left (atRatio_mono (elapsed_mono h)) _

theorem staked_le_holding : stake.staked ≤ stake.holding t := Nat.le_add_right _ _

theorem holding_of_paid (h : stake.paid = true) : stake.holding t = 0 := by
  have hreward : stake.reward = 0 := if_pos h
  have hstaked : stake.staked = 0 := if_pos h
  rw [Stake.holding, hstaked, hreward]
  simp [atRatio, shares]

/-- A stake is never worth more than it is owed. -/
theorem holding_le : stake.holding t ≤ stake.owed := by
  rw [← staked_add_reward]
  exact Nat.add_le_add_left (atRatio_le elapsed_le) _

/-- A stake is worth what it is owed exactly where it has reached its end or has no reward. -/
theorem holding_eq_iff (hpaid : stake.paid = false) (hpos : 0 < stake.duration) :
    stake.holding t = stake.owed ↔ stake.ends ≤ t ∨ stake.amount * stake.rate / fullScale = 0 := by
  have hreward : stake.reward = stake.amount * stake.rate / fullScale := by
    simp [Stake.reward, hpaid]
  rw [← staked_add_reward, Stake.holding, Nat.add_right_inj,
    atRatio_eq_iff fullScale_pos hpos elapsed_le, elapsed_eq_iff hpos, hreward]

/-- The view of a stake that was not paid returns what it is worth. -/
theorem currentHolding_eq (hmade : stake.Made now) (hpaid : stake.paid = false)
    (hpos : 0 < stake.duration) (hfit : stake.owed < wordBound) (hle : now ≤ t) (ht : t < 2 ^ 64) :
    currentHolding t stake = .ok (stake.holding t) := by
  have hreward : stake.reward = shares fullScale stake.rate stake.amount := by
    simp [Stake.reward, hpaid, shares]
  have hstaked : stake.staked = stake.amount := by simp [Stake.staked, hpaid]
  unfold currentHolding
  split_ifs with hended
  · have howed : stake.holding t = stake.owed :=
      (holding_eq_iff hpaid hpos).mpr (.inl hended.le)
    have hexpected : stake.owed = stake.expected := by simp [Stake.owed, hpaid]
    rw [howed]
    exact totalExpected_eq_ok.mpr ⟨hmade.product, hexpected ▸ hfit, hexpected⟩
  have hduration := hmade.duration_le
  have hends := hmade.ends_le
  have hwithin : stake.elapsed t < 2 ^ 64 := by
    unfold Stake.elapsed
    omega
  have helapsed : stake.elapsed t * fullScale < wordBound :=
    calc stake.elapsed t * fullScale
        ≤ 2 ^ 64 * fullScale := Nat.mul_le_mul_right _ hwithin.le
      _ < wordBound := by decide
  have hportion : worth fullScale stake.duration (stake.elapsed t) ≤ fullScale :=
    worth_le_scale elapsed_le
  have hproduct : stake.reward * worth fullScale stake.duration (stake.elapsed t) < wordBound :=
    calc stake.reward * worth fullScale stake.duration (stake.elapsed t)
        ≤ stake.reward * fullScale := Nat.mul_le_mul_left _ hportion
      _ ≤ stake.amount * stake.rate := hreward ▸ shares_mul_le _
      _ < wordBound := hmade.product
  refine bind_eq_ok.mpr ⟨_, StableMath.mulTruncate_eq_ok.mpr ⟨hmade.product, rfl⟩, ?_⟩
  refine bind_eq_ok.mpr ⟨_, SafeMath.sub_eq_ok.mpr ⟨not_lt.mp hended, rfl⟩, ?_⟩
  refine bind_eq_ok.mpr ⟨_, SafeMath.sub_eq_ok.mpr ⟨by omega, rfl⟩, ?_⟩
  refine bind_eq_ok.mpr ⟨_, StableMath.divPrecisely_eq_ok.mpr ⟨helapsed, hpos, rfl⟩, ?_⟩
  rw [← hreward]
  refine bind_eq_ok.mpr ⟨_, StableMath.mulTruncate_eq_ok.mpr ⟨hproduct, rfl⟩, ?_⟩
  refine SafeMath.add_eq_ok.mpr ⟨?_, by rw [← hstaked]; rfl⟩
  have hheld : stake.holding t ≤ stake.owed := holding_le
  rw [← hstaked]
  exact hheld.trans_lt hfit

theorem Stake.Made.mono (h : stake.Made t) (hle : t ≤ t') : stake.Made t' :=
  { h with ends_le := h.ends_le.trans (Nat.add_le_add_right hle _) }

theorem Stake.Made.settle (h : stake.Made t) : (stake.settle now).Made t := by
  unfold Stake.settle
  split_ifs
  · exact ⟨h.duration_le, h.ends_le, h.product⟩
  · exact h

end Stake

/-- A stake of the array after an insertion is one of before, or the new one. -/
theorem made_insertStake {now : ℕ} {newStake : Stake} {stakes : List Stake}
    (hnew : newStake.Made now) (hold : ∀ stake ∈ stakes, stake.Made now) :
    ∀ stake ∈ insertStake newStake stakes, stake.Made now := by
  intro stake hmem
  rcases List.mem_append.mp hmem with hmem | hmem
  · exact hold stake ((List.rdropWhile_prefix _ _).subset hmem)
  rcases List.mem_cons.mp hmem with rfl | hmem
  · exact ⟨hnew.duration_le, hnew.ends_le, hnew.product⟩
  · exact hold stake ((List.rtakeWhile_suffix _ _).subset hmem)

namespace State

variable {τ : Type} {T : Token τ} {keccak256 : List UInt8 → Bytes32} {s s' : State τ}

/-! ## Runs -/

/-- Every stake is as it was made, and what is owed in total is a word. -/
structure Accruing (s : State τ) : Prop where
  made : ∀ user, ∀ stake ∈ s.userStakes user, stake.Made s.now
  outstanding : s.totalOutstanding < wordBound

theorem Accruing.of_same (h : s.Accruing) (hstakes : s'.userStakes = s.userStakes)
    (htotal : s'.totalOutstanding = s.totalOutstanding) (hnow : s.now ≤ s'.now) : s'.Accruing where
  made := fun user stake hmem => by
    rw [hstakes] at hmem
    exact (h.made user stake hmem).mono hnow
  outstanding := htotal ▸ h.outstanding

theorem SettingsOnly.accruing (h : SettingsOnly s s') (hs : s.Accruing) : s'.Accruing :=
  hs.of_same h.userStakes h.totalOutstanding h.now.ge

theorem addStake_accruing (h : s.Accruing) (staker : Address) (stakeType : UInt8)
    (duration rate amount : ℕ) :
    Ensures (s.addStake staker stakeType duration rate amount) Accruing := by
  intro t ht
  simp only [addStake, bind_eq_ok, require_eq_ok, SafeMath.add_eq_ok, totalExpected_eq_ok,
    pure_eq_ok] at ht
  obtain ⟨_, -, _, ⟨-, rfl⟩, _, -, _, ⟨hproduct, -, rfl⟩, _, ⟨hfit, rfl⟩, rfl⟩ := ht
  refine ⟨fun user => ?_, hfit⟩
  have hnew : Stake.Made s.now
      ⟨amount, s.now + duration, duration, rate, false, stakeType⟩ :=
    ⟨Nat.le_add_left _ _, le_rfl, hproduct⟩
  by_cases huser : user = staker
  · subst huser
    simp only [Function.update_self]
    exact made_insertStake hnew (h.made user)
  · simp only [Function.update_of_ne huser]
    exact h.made user

theorem stakeWithChecks_accruing (h : s.Accruing) (staker : Address) (amount duration : ℕ) :
    Ensures (s.stakeWithChecks T staker amount duration) Accruing := by
  refine ensures_of_bind fun _ _ => ensures_of_bind fun _ _ => ensures_of_bind fun _ _ => ?_
  refine ensures_bind (addStake_accruing h _ _ _ _ _) fun t ht => ?_
  exact ensures_of_bind fun _ _ => ensures_pure ⟨ht.made, ht.outstanding⟩

theorem airDroppedStake_accruing (h : s.Accruing) (sender : Address) (index : ℕ)
    (stakeType : UInt8) (duration rate amount : ℕ) (merkleProof : List Bytes32) :
    Ensures (s.airDroppedStake T keccak256 sender index stakeType duration rate amount merkleProof)
      Accruing := by
  refine ensures_of_bind fun _ _ => ensures_of_bind fun _ _ => ensures_of_bind fun _ _ => ?_
  refine ensures_of_bind fun _ _ => ensures_of_bind fun _ _ => ensures_of_bind fun _ _ => ?_
  refine ensures_bind (addStake_accruing h _ _ _ _ _) fun t ht => ?_
  exact ensures_of_bind fun _ _ => ensures_pure ht

theorem Accruing.exit {sender : Address} (h : s.Accruing) (hkept : s.Kept)
    (hs : s.exit T sender = .ok s') : s'.Accruing := by
  obtain ⟨stakes, totalWithdraw, stakedAmount, hpay, -, token, -, rfl⟩ := exit_eq_ok hs
  refine ⟨fun user => ?_, (Nat.sub_le _ _).trans_lt h.outstanding⟩
  by_cases huser : user = sender
  · subst huser
    simp only [Function.update_self]
    rw [(hkept.payEnded_eq hpay).1]
    intro stake hmem
    obtain ⟨x, hx, rfl⟩ := List.mem_map.mp hmem
    exact (h.made user x hx).settle
  · simp only [Function.update_of_ne huser]
    exact h.made user

theorem Accruing.exec {step : Address × Action τ} (h : s.Accruing) (hkept : s.Kept)
    (hs : s.exec T keccak256 step = .ok s') : s'.Accruing := by
  obtain ⟨sender, action⟩ := step
  cases action with
  | stake amount duration => exact stakeWithChecks_accruing h _ _ _ _ (stake_eq_ok hs)
  | stakeWithSender staker amount duration =>
      obtain ⟨_, -, hs⟩ := bind_eq_ok.mp hs
      exact stakeWithChecks_accruing h _ _ _ _ hs
  | airDroppedStake => exact airDroppedStake_accruing h _ _ _ _ _ _ _ _ hs
  | exit => exact h.exit hkept hs
  | setPaused | setDurationRates | setAirDropRoot | transferGovernance | claimGovernance =>
      exact (exec_settingsOnly rfl hs).accruing h
  | wait seconds =>
      cases hs
      exact h.of_same rfl rfl (Nat.le_add_right _ _)
  | tokenMoves token =>
      obtain ⟨_, -, hs⟩ := bind_eq_ok.mp hs
      cases pure_eq_ok.mp hs
      exact h.of_same rfl rfl le_rfl

theorem Reached.accruing {init : State τ} {trace : List (State τ × (Address × Action τ))}
    (h : Reached T keccak256 init trace s) : s.Accruing := by
  have hboth : s.Kept ∧ s.Accruing := by
    refine Run.invariant (fun s => s.Kept ∧ s.Accruing) ?_
      (fun _ _ _ ⟨hkept, haccruing⟩ hstep => ⟨hkept.exec hstep, haccruing.exec hkept hstep⟩) h.run
    obtain ⟨hstakes, howed⟩ := h.init_fresh
    have hinit : Reached T keccak256 init [] init := ⟨h.initialized, .nil⟩
    refine ⟨hinit.kept, fun user stake hmem => ?_, ?_⟩
    · rw [hstakes] at hmem
      cases hmem
    · rw [howed]
      decide
  exact hboth.2

/-! ## The views -/

/-- What an account is owed is part of the total. -/
theorem Accruing.owedFor_lt (h : s.Accruing) (hkept : s.Kept) (user : Address) :
    owedFor (s.userStakes user) < wordBound := by
  have hpart : owedFor (s.userStakes user) ≤ s.liability :=
    Finset.single_le_sum (fun x _ => Nat.zero_le (owedFor (s.userStakes x))) (Finset.mem_univ user)
  rw [← hkept.outstanding] at hpart
  exact hpart.trans_lt h.outstanding

theorem sum_staked_add_reward (stakes : List Stake) :
    (stakes.map Stake.staked).sum + (stakes.map Stake.reward).sum = owedFor stakes := by
  rw [owedFor, ← List.sum_map_add]
  exact congrArg List.sum (List.map_congr_left fun _ _ => staked_add_reward)

theorem totalStaked_eq {user : Address} (h : owedFor (s.userStakes user) < wordBound) :
    s.totalStaked user = .ok ((s.userStakes user).map Stake.staked).sum := by
  have hsum := sum_staked_add_reward (s.userStakes user)
  have hbound : ((s.userStakes user).map Stake.staked).sum < wordBound := by omega
  refine foldlM_eq_sum (fun stake _ total hfit => ?_) hbound
  unfold Stake.staked at hfit ⊢
  cases hpaid : stake.paid with
  | true => rfl
  | false =>
      rw [hpaid] at hfit
      exact SafeMath.add_eq_ok.mpr ⟨hfit, rfl⟩

theorem totalExpectedRewards_eq (h : s.Accruing) {user : Address}
    (hfits : owedFor (s.userStakes user) < wordBound) :
    s.totalExpectedRewards user = .ok ((s.userStakes user).map Stake.reward).sum := by
  have hsum := sum_staked_add_reward (s.userStakes user)
  have hbound : ((s.userStakes user).map Stake.reward).sum < wordBound := by omega
  refine foldlM_eq_sum (fun stake hmem total hfit => ?_) hbound
  unfold Stake.reward at hfit ⊢
  cases hpaid : stake.paid with
  | true => rfl
  | false =>
      rw [hpaid] at hfit
      refine bind_eq_ok.mpr ⟨_, StableMath.mulTruncate_eq_ok.mpr ⟨?_, rfl⟩, ?_⟩
      · exact (h.made user stake hmem).product
      · exact SafeMath.add_eq_ok.mpr ⟨hfit, rfl⟩

/-- The stakes of an account that were not paid all have a positive duration. -/
def LastingStakes (s : State τ) (user : Address) : Prop :=
  ∀ stake ∈ s.userStakes user, stake.paid = false → 0 < stake.duration

theorem sum_holding_le (s : State τ) (t : ℕ) (user : Address) :
    ((s.userStakes user).map (Stake.holding t)).sum ≤ owedFor (s.userStakes user) :=
  List.sum_le_sum fun _ _ => holding_le

theorem totalCurrentHoldings_eq (h : s.Accruing) {user : Address} {t : ℕ}
    (hfits : owedFor (s.userStakes user) < wordBound) (hlasting : s.LastingStakes user)
    (hle : s.now ≤ t) (ht : t < 2 ^ 64) :
    State.totalCurrentHoldings { s with now := t } user =
      .ok ((s.userStakes user).map (Stake.holding t)).sum := by
  have hbound : ((s.userStakes user).map (Stake.holding t)).sum < wordBound :=
    (s.sum_holding_le t user).trans_lt hfits
  refine foldlM_eq_sum (fun stake hmem total hfit => ?_) hbound
  cases hpaid : stake.paid with
  | true => simp [holding_of_paid hpaid, pure, Except.pure]
  | false =>
      have howed : stake.owed ≤ owedFor (s.userStakes user) :=
        List.single_le_sum (fun _ _ => Nat.zero_le _) _ (List.mem_map_of_mem hmem)
      have hholding : currentHolding t stake = .ok (stake.holding t) :=
        currentHolding_eq (h.made user stake hmem) hpaid (hlasting stake hmem hpaid)
          (howed.trans_lt hfits) hle ht
      exact bind_eq_ok.mpr ⟨_, hholding, SafeMath.add_eq_ok.mpr ⟨hfit, rfl⟩⟩

/-- From every state a run reaches, an account's current holdings, read at two later times, can
be read and grow, from what is staked up to that and the expected rewards. They are all of that
once every stake that was not paid has reached its end, and before that they are not, unless
the stakes that have not reached it have no reward. -/
theorem holdings_accrue {init : State τ} {trace : List (State τ × (Address × Action τ))}
    (h : Reached T keccak256 init trace s) {user : Address}
    (hlasting : ∀ stake ∈ s.userStakes user, stake.paid = false → 0 < stake.duration) {t₁ t₂ : ℕ}
    (hnow : s.now ≤ t₁) (hle : t₁ ≤ t₂) (hlt : t₂ < 2 ^ 64) :
    ∃ staked rewards held₁ held₂, s.totalStaked user = .ok staked ∧
      s.totalExpectedRewards user = .ok rewards ∧
      State.totalCurrentHoldings { s with now := t₁ } user = .ok held₁ ∧
      State.totalCurrentHoldings { s with now := t₂ } user = .ok held₂ ∧
      held₁ ≤ held₂ ∧ staked ≤ held₁ ∧ held₂ ≤ staked + rewards ∧
      ((∀ stake ∈ s.userStakes user, stake.paid = false → stake.ends ≤ t₁) →
        held₁ = staked + rewards) ∧
      (held₁ = staked + rewards → ∀ stake ∈ s.userStakes user, stake.paid = false →
        stake.ends ≤ t₁ ∨ stake.amount * stake.rate / fullScale = 0) := by
  have haccruing := h.accruing
  have hfits := haccruing.owedFor_lt h.kept user
  have hlt₁ : t₁ < 2 ^ 64 := hle.trans_lt hlt
  have hsum := sum_staked_add_reward (s.userStakes user)
  refine ⟨_, _, _, _, totalStaked_eq hfits, totalExpectedRewards_eq haccruing hfits,
    totalCurrentHoldings_eq haccruing hfits hlasting hnow hlt₁,
    totalCurrentHoldings_eq haccruing hfits hlasting (hnow.trans hle) hlt, ?_⟩
  rw [hsum]
  refine ⟨List.sum_le_sum fun _ _ => holding_mono hle, List.sum_le_sum fun _ _ => staked_le_holding,
    s.sum_holding_le t₂ user, fun hended => ?_, fun hall stake hmem hpaid => ?_⟩
  · refine congrArg List.sum (List.map_congr_left fun stake hmem => ?_)
    cases hpaid : stake.paid with
    | true =>
        rw [holding_of_paid hpaid]
        exact (if_pos hpaid).symm
    | false =>
        exact (holding_eq_iff hpaid (hlasting stake hmem hpaid)).mpr (.inl (hended stake hmem hpaid))
  · -- a stake that is short of what it is owed leaves the sum short of it
    by_contra hshort
    have hlt : ((s.userStakes user).map (Stake.holding t₁)).sum < owedFor (s.userStakes user) := by
      refine List.sum_lt_sum _ _ (fun _ _ => holding_le) ⟨stake, hmem, ?_⟩
      refine lt_of_le_of_ne holding_le fun heq => ?_
      exact hshort ((holding_eq_iff hpaid (hlasting stake hmem hpaid)).mp heq)
    exact hlt.ne hall

/-- Stakes of 60 for 360 seconds and of 40 for 90 seconds: after 90 seconds a quarter of the
first reward of 12 and all of the second one of 4 count, and after 360 all of both. -/
theorem holdings_accrue_quarter :
    ∃ init trace s, Reached PlainToken.calls (fun _ => 0) init trace s ∧
      s.totalStaked 1 = .ok 100 ∧ s.totalExpectedRewards 1 = .ok 16 ∧
      State.totalCurrentHoldings { s with now := 1090 } 1 = .ok 107 ∧
      State.totalCurrentHoldings { s with now := 1360 } 1 = .ok 116 ∧
      107 ≤ 116 ∧ 100 ≤ 107 ∧ 116 ≤ 100 + 16 := by
  have hsteps : Returns
      ((deployed 9 8 (PlainToken.approved 9 1 50 100) 1000).initialized 8 5 [90, 360]
        [10 ^ 17, 2 * 10 ^ 17] >>=
        fun init => execTrace (exec PlainToken.calls fun _ => 0) [] init
          [(1, .stake 60 360), (1, .stake 40 90)])
      fun out => (∀ stake ∈ out.2.userStakes 1, stake.paid = false → 0 < stake.duration) ∧
        out.2.now ≤ 1090 ∧ Returns (out.2.totalStaked 1) (· = 100) ∧
        Returns (out.2.totalExpectedRewards 1) (· = 16) ∧
        Returns (State.totalCurrentHoldings { out.2 with now := 1090 } 1) (· = 107) ∧
        Returns (State.totalCurrentHoldings { out.2 with now := 1360 } 1) (· = 116) := by decide
  obtain ⟨init, trace, s, hrun, hlasting, hnow, ⟨_, hstaked, rfl⟩, ⟨_, hrewards, rfl⟩,
    ⟨_, hearly, rfl⟩, ⟨_, hlate, rfl⟩⟩ := reached_of_returns hsteps
  obtain ⟨_, _, _, _, hstaked', hrewards', hearly', hlate', hgrows, hleast, hmost, -⟩ :=
    holdings_accrue hrun hlasting hnow (show 1090 ≤ 1360 by omega) (by omega)
  cases hstaked.symm.trans hstaked'
  cases hrewards.symm.trans hrewards'
  cases hearly.symm.trans hearly'
  cases hlate.symm.trans hlate'
  exact ⟨init, trace, s, hrun, hstaked, hrewards, hearly, hlate, hgrows, hleast, hmost⟩

end State

end Staking

end InterestDollar
