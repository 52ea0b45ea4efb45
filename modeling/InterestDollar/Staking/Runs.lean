import InterestDollar.Staking.Contract
import InterestDollar.Transition.Run

/-!
# Runs of the staking contract

A run starts from an initialized contract. Its steps are the external functions, called
by any account, the passing of time, and what else happens to the token: any change of
its state that does not lower the balance of the contract, whose tokens only move on its
own transfers.
-/

namespace InterestDollar

open Checked Transition

namespace Staking

/-- The external functions, and what happens around the contract. -/
inductive Action (τ : Type)
  | stake (amount duration : ℕ)
  | stakeWithSender (staker : Address) (amount duration : ℕ)
  | airDroppedStake (index : ℕ) (stakeType : UInt8) (duration rate amount : ℕ)
      (merkleProof : List Bytes32)
  | exit
  | setPaused (paused : Bool)
  | setDurationRates (durations rates : List ℕ)
  | setAirDropRoot (stakeType : UInt8) (rootHash : Bytes32) (proofDepth : ℕ)
  | transferGovernance (newGovernor : Address)
  | claimGovernance
  | wait (seconds : ℕ)
  | tokenMoves (token : τ)

/-- The functions of the governor that set something, and those that hand over to another one. -/
def Action.sets {τ : Type} : Action τ → Bool
  | .setPaused _ | .setDurationRates _ _ | .setAirDropRoot _ _ _ | .transferGovernance _
  | .claimGovernance => true
  | _ => false

namespace State

variable {τ : Type}

/-- One call by an account, or one change around the contract. -/
def exec (T : Token τ) (keccak256 : List UInt8 → Bytes32) (s : State τ)
    (step : Address × Action τ) : Except Revert (State τ) :=
  let (sender, action) := step
  match action with
  | .stake amount duration => s.stake T sender amount duration
  | .stakeWithSender staker amount duration => s.stakeWithSender T sender staker amount duration
  | .airDroppedStake index stakeType duration rate amount merkleProof =>
      s.airDroppedStake T keccak256 sender index stakeType duration rate amount merkleProof
  | .exit => s.exit T sender
  | .setPaused paused => s.setPaused sender paused
  | .setDurationRates durations rates => s.setDurationRates sender durations rates
  | .setAirDropRoot stakeType rootHash proofDepth =>
      s.setAirDropRoot sender stakeType rootHash proofDepth
  | .transferGovernance newGovernor => s.transferGovernance sender newGovernor
  | .claimGovernance => s.claimGovernance sender
  | .wait seconds => .ok { s with now := s.now + seconds }
  | .tokenMoves token => do
      require (T.balanceOf s.token s.self ≤ T.balanceOf token s.self) "Not the holder"
      return { s with token := token }

/-- Runs from an initialized contract: the state right after `initialize`, the trace and
the state reached. -/
structure Reached (T : Token τ) (keccak256 : List UInt8 → Bytes32) (init : State τ)
    (trace : List (State τ × (Address × Action τ))) (s : State τ) : Prop where
  initialized : ∃ self governor token now stakingToken durations rates,
    (deployed self governor token now).initialized governor stakingToken durations rates =
      .ok init
  run : Run (fun s step s' => s.exec T keccak256 step = .ok s') init trace s

/-- The run of a list of steps, where all of them succeed. -/
theorem reached_of_returns {T : Token τ} {keccak256 : List UInt8 → Bytes32}
    {self governor stakingToken : Address} {token : τ} {now : ℕ} {durations rates : List ℕ}
    {steps : List (Address × Action τ)} {P : List (State τ × (Address × Action τ)) × State τ → Prop}
    (h : Returns ((deployed self governor token now).initialized governor stakingToken durations
      rates >>= fun init => execTrace (exec T keccak256) [] init steps) P) :
    ∃ init trace s, Reached T keccak256 init trace s ∧ P (trace, s) := by
  obtain ⟨⟨trace, s⟩, hout, hP⟩ := h
  obtain ⟨init, hinit, hsteps⟩ := bind_eq_ok.mp hout
  refine ⟨init, trace, s, ⟨?_, run_of_execTrace .nil hsteps⟩, hP⟩
  exact ⟨self, governor, token, now, stakingToken, durations, rates, hinit⟩

/-- A contract that was just initialized: nobody has a stake, and nothing is owed. -/
theorem Reached.init_fresh {T : Token τ} {keccak256 : List UInt8 → Bytes32} {init s : State τ}
    {trace : List (State τ × (Address × Action τ))} (h : Reached T keccak256 init trace s) :
    init.userStakes = (fun _ => []) ∧ init.totalOutstanding = 0 := by
  obtain ⟨self, governor, token, now, stakingToken, durations, rates, hinit⟩ := h.initialized
  obtain ⟨_, -, hinit⟩ := bind_eq_ok.mp hinit
  obtain ⟨_, -, hinit⟩ := bind_eq_ok.mp hinit
  obtain ⟨_, -, hinit⟩ := bind_eq_ok.mp hinit
  cases pure_eq_ok.mp hinit
  exact ⟨rfl, rfl⟩

end State

/-! ## What the functions do -/

/-- What a stake is owed. -/
def Stake.expected (stake : Stake) : ℕ := stake.amount + stake.amount * stake.rate / fullScale

theorem totalExpected_eq_ok {stake : Stake} {expected : ℕ} :
    totalExpected stake = .ok expected ↔
      stake.amount * stake.rate < wordBound ∧ stake.expected < wordBound ∧
        expected = stake.expected := by
  simp only [totalExpected, bind_eq_ok, StableMath.mulTruncate_eq_ok, SafeMath.add_eq_ok]
  constructor
  · rintro ⟨_, ⟨hfit, rfl⟩, hsum, rfl⟩
    exact ⟨hfit, hsum, rfl⟩
  · rintro ⟨hfit, hsum, rfl⟩
    exact ⟨_, ⟨hfit, rfl⟩, hsum, rfl⟩

namespace State

variable {τ : Type} {T : Token τ} {keccak256 : List UInt8 → Bytes32} {s s' : State τ}

/-- The contract after a stake of an account was inserted. -/
def withStake (s : State τ) (staker : Address) (newStake : Stake) : State τ :=
  { s with
    userStakes := Function.update s.userStakes staker
      (insertStake newStake (s.userStakes staker))
    totalOutstanding := s.totalOutstanding + newStake.expected }

theorem addStake_eq_ok {staker : Address} {stakeType : UInt8} {duration rate amount : ℕ}
    (h : s.addStake staker stakeType duration rate amount = .ok s') :
    s.paused = false ∧ (s.userStakes staker).length < maxStakes ∧
      s' = s.withStake staker ⟨amount, s.now + duration, duration, rate, false, stakeType⟩ := by
  simp only [addStake, bind_eq_ok, require_eq_ok, SafeMath.add_eq_ok, totalExpected_eq_ok,
    pure_eq_ok] at h
  obtain ⟨_, hpaused, _, ⟨-, rfl⟩, _, hlength, _, ⟨-, -, rfl⟩, _, ⟨-, rfl⟩, rfl⟩ := h
  exact ⟨hpaused, hlength, rfl⟩

/-- A stake with checks is made at the offered rate, and its amount is pulled in. -/
theorem stakeWithChecks_eq_ok {staker : Address} {amount duration : ℕ}
    (h : s.stakeWithChecks T staker amount duration = .ok s') :
    ∃ rate, findDurationRate duration s.durations s.rates = .ok rate ∧
      (s.userStakes staker).length < maxStakes ∧
      ∃ token, T.safeTransferFrom s.token s.self staker s.self amount = .ok token ∧
        s' = { s.withStake staker
          ⟨amount, s.now + duration, duration, rate, false, userStakeType⟩ with token := token } := by
  obtain ⟨_, -, h⟩ := bind_eq_ok.mp h
  obtain ⟨rate, hrate, h⟩ := bind_eq_ok.mp h
  obtain ⟨_, -, h⟩ := bind_eq_ok.mp h
  obtain ⟨t, ht, h⟩ := bind_eq_ok.mp h
  obtain ⟨token, htoken, h⟩ := bind_eq_ok.mp h
  obtain ⟨-, hlength, rfl⟩ := addStake_eq_ok ht
  exact ⟨rate, hrate, hlength, token, htoken, (pure_eq_ok.mp h).symm⟩

/-- A stake by its owner is a stake with checks, after which the liquidity is checked. -/
theorem stake_eq_ok {sender : Address} {amount duration : ℕ}
    (h : s.stake T sender amount duration = .ok s') :
    s.stakeWithChecks T sender amount duration = .ok s' := by
  obtain ⟨t, ht, h⟩ := bind_eq_ok.mp h
  obtain ⟨_, -, h⟩ := bind_eq_ok.mp h
  cases pure_eq_ok.mp h
  exact ht

/-- A stake from an air drop is of a type its owner has no stake of yet. -/
theorem airDroppedStake_eq_ok {sender : Address} {index : ℕ} {stakeType : UInt8}
    {duration rate amount : ℕ} {merkleProof : List Bytes32}
    (h : s.airDroppedStake T keccak256 sender index stakeType duration rate amount merkleProof =
      .ok s') :
    s.airDroppedStakeClaimed sender stakeType = false ∧
      (s.userStakes sender).length < maxStakes ∧
      s' = s.withStake sender ⟨amount, s.now + duration, duration, rate, false, stakeType⟩ := by
  obtain ⟨_, -, h⟩ := bind_eq_ok.mp h
  obtain ⟨_, hrate, h⟩ := bind_eq_ok.mp h
  obtain ⟨_, -, h⟩ := bind_eq_ok.mp h
  obtain ⟨_, -, h⟩ := bind_eq_ok.mp h
  obtain ⟨_, -, h⟩ := bind_eq_ok.mp h
  obtain ⟨_, hclaimed, h⟩ := bind_eq_ok.mp h
  obtain ⟨t, ht, h⟩ := bind_eq_ok.mp h
  obtain ⟨_, -, h⟩ := bind_eq_ok.mp h
  cases pure_eq_ok.mp h
  have hword : rate % 2 ^ 240 = rate := by
    have hlt : rate < maxRate := require_eq_ok.mp hrate
    exact Nat.mod_eq_of_lt (hlt.trans_le (Nat.sub_le _ _))
  rw [hword] at ht
  obtain ⟨-, hlength, rfl⟩ := addStake_eq_ok ht
  exact ⟨require_eq_ok.mp hclaimed, hlength, rfl⟩

/-- An exit stores what the loop over the stakes made of them and pays its total. -/
theorem exit_eq_ok {sender : Address} (h : s.exit T sender = .ok s') :
    ∃ stakes totalWithdraw stakedAmount,
      payEnded s.now (s.userStakes sender).reverse 0 0 =
        .ok (stakes, totalWithdraw, stakedAmount) ∧
      totalWithdraw ≤ s.totalOutstanding ∧
      ∃ token, T.safeTransfer s.token s.self sender totalWithdraw = .ok token ∧
        s' = { s with
          userStakes := Function.update s.userStakes sender stakes.reverse
          totalOutstanding := s.totalOutstanding - totalWithdraw
          token := token } := by
  obtain ⟨_, -, h⟩ := bind_eq_ok.mp h
  obtain ⟨⟨stakes, totalWithdraw, stakedAmount⟩, hpay, h⟩ := bind_eq_ok.mp h
  obtain ⟨_, -, h⟩ := bind_eq_ok.mp h
  obtain ⟨left, hsub, h⟩ := bind_eq_ok.mp h
  obtain ⟨token, htoken, h⟩ := bind_eq_ok.mp h
  obtain ⟨_, -, h⟩ := bind_eq_ok.mp h
  cases pure_eq_ok.mp h
  obtain ⟨hle, rfl⟩ := SafeMath.sub_eq_ok.mp hsub
  exact ⟨stakes, totalWithdraw, stakedAmount, hpay, hle, token, htoken, rfl⟩

/-! ## Settings -/

/-- Two states that differ at most in what the governor sets. -/
structure SettingsOnly (s s' : State τ) : Prop where
  self : s'.self = s.self
  totalOutstanding : s'.totalOutstanding = s.totalOutstanding
  userStakes : s'.userStakes = s.userStakes
  token : s'.token = s.token
  now : s'.now = s.now

theorem setPaused_settingsOnly (s : State τ) (sender : Address) (paused : Bool) :
    Ensures (s.setPaused sender paused) (SettingsOnly s) :=
  ensures_of_bind fun _ _ => ensures_pure ⟨rfl, rfl, rfl, rfl, rfl⟩

theorem setDurationRates_settingsOnly (s : State τ) (sender : Address) (durations rates : List ℕ) :
    Ensures (s.setDurationRates sender durations rates) (SettingsOnly s) := by
  refine ensures_of_bind fun _ _ => ensures_of_bind fun _ _ => ensures_of_bind fun _ _ => ?_
  exact ensures_pure ⟨rfl, rfl, rfl, rfl, rfl⟩

theorem setAirDropRoot_settingsOnly (s : State τ) (sender : Address) (stakeType : UInt8)
    (rootHash : Bytes32) (proofDepth : ℕ) :
    Ensures (s.setAirDropRoot sender stakeType rootHash proofDepth) (SettingsOnly s) := by
  refine ensures_of_bind fun _ _ => ensures_of_bind fun _ _ => ?_
  exact ensures_pure ⟨rfl, rfl, rfl, rfl, rfl⟩

theorem transferGovernance_settingsOnly (s : State τ) (sender newGovernor : Address) :
    Ensures (s.transferGovernance sender newGovernor) (SettingsOnly s) :=
  ensures_of_bind fun _ _ => ensures_pure ⟨rfl, rfl, rfl, rfl, rfl⟩

theorem claimGovernance_settingsOnly (s : State τ) (sender : Address) :
    Ensures (s.claimGovernance sender) (SettingsOnly s) := by
  refine ensures_of_bind fun _ _ => ensures_of_bind fun _ _ => ?_
  exact ensures_pure ⟨rfl, rfl, rfl, rfl, rfl⟩

theorem exec_settingsOnly {T : Token τ} {keccak256 : List UInt8 → Bytes32} {s s' : State τ}
    {step : Address × Action τ} (hsets : step.2.sets = true)
    (h : s.exec T keccak256 step = .ok s') : SettingsOnly s s' := by
  obtain ⟨sender, action⟩ := step
  cases action with
  | stake | stakeWithSender | airDroppedStake | exit | wait | tokenMoves => cases hsets
  | setPaused paused => exact setPaused_settingsOnly s sender paused s' h
  | setDurationRates durations rates =>
      exact setDurationRates_settingsOnly s sender durations rates s' h
  | setAirDropRoot stakeType rootHash proofDepth =>
      exact setAirDropRoot_settingsOnly s sender stakeType rootHash proofDepth s' h
  | transferGovernance newGovernor =>
      exact transferGovernance_settingsOnly s sender newGovernor s' h
  | claimGovernance => exact claimGovernance_settingsOnly s sender s' h

end State

end Staking

end InterestDollar
