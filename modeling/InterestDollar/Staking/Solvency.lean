import InterestDollar.Staking.Runs

/-!
# Solvency of the staking contract

The contract owes its `totalOutstanding`: the amounts and the rewards of all stakes that
were not paid. `requireLiquidity` checks after a function that the balance covers it, and
every function that can raise what is owed or lower the balance has the check, except for
`stakeWithSender`. So the contract is solvent throughout a run exactly where every
`stakeWithSender` finds the reward it adds covered already.
-/

namespace InterestDollar

open Checked Transition

namespace Staking

namespace State

variable {τ : Type} {T : Token τ} {keccak256 : List UInt8 → Bytes32} {s s' : State τ}

/-- The balance of the contract covers what it owes. -/
def Solvent (T : Token τ) (s : State τ) : Prop :=
  s.totalOutstanding ≤ T.balanceOf s.token s.self

/-- A `stakeWithSender` finds a balance that covers what is owed and the reward it adds.
A stake of the contract's own tokens would bring nothing in, and its amount would have to
be covered too. -/
def BacksReward (T : Token τ) (s : State τ) (step : Address × Action τ) : Prop :=
  match step.2 with
  | .stakeWithSender staker amount duration =>
      Returns (findDurationRate duration s.durations s.rates) fun rate =>
        s.totalOutstanding + amount * rate / fullScale + (if staker = s.self then amount else 0) ≤
          T.balanceOf s.token s.self
  | _ => True

instance (s : State τ) (step : Address × Action τ) : Decidable (s.BacksReward T step) := by
  obtain ⟨sender, action⟩ := step
  cases action <;> unfold BacksReward <;> infer_instance

theorem SettingsOnly.solvent (h : SettingsOnly s s') (hs : s.Solvent T) : s'.Solvent T := by
  rw [Solvent, h.totalOutstanding, h.token, h.self]
  exact hs

/-- A function that ends with the check leaves the contract solvent. -/
theorem requireLiquidity_solvent (s : State τ) :
    Ensures (do s.requireLiquidity T; return s) (Solvent T) := by
  refine ensures_of_bind fun _ hcheck => ensures_pure ?_
  have hcovered := require_eq_ok.mp hcheck
  exact hcovered

theorem stake_solvent (s : State τ) (sender : Address) (amount duration : ℕ) :
    Ensures (s.stake T sender amount duration) (Solvent T) :=
  ensures_of_bind fun t _ => requireLiquidity_solvent t

theorem airDroppedStake_solvent (s : State τ) (sender : Address) (index : ℕ) (stakeType : UInt8)
    (duration rate amount : ℕ) (merkleProof : List Bytes32) :
    Ensures (s.airDroppedStake T keccak256 sender index stakeType duration rate amount merkleProof)
      (Solvent T) := by
  refine ensures_of_bind fun _ _ => ensures_of_bind fun _ _ => ensures_of_bind fun _ _ => ?_
  refine ensures_of_bind fun _ _ => ensures_of_bind fun _ _ => ensures_of_bind fun _ _ => ?_
  exact ensures_of_bind fun t _ => requireLiquidity_solvent t

theorem exit_solvent (s : State τ) (sender : Address) :
    Ensures (s.exit T sender) (Solvent T) := by
  refine ensures_of_bind fun _ _ => ensures_of_bind fun _ _ => ensures_of_bind fun _ _ => ?_
  exact ensures_of_bind fun _ _ => ensures_of_bind fun _ _ => requireLiquidity_solvent _

/-- What a stake brings in is its amount, unless the contract stakes its own tokens. -/
theorem balance_safeTransferFrom (hT : T.Standard) {t t' : τ} {self staker : Address} {amount : ℕ}
    (h : T.safeTransferFrom t self staker self amount = .ok t') :
    T.balanceOf t' self + (if staker = self then amount else 0) = T.balanceOf t self + amount := by
  obtain ⟨hle, hmoved⟩ := hT.safeTransferFrom h
  rw [hmoved]
  split_ifs with heq
  · subst heq
    rw [moved_self hle]
  · rw [moved_recipient heq, Nat.add_zero]

/-- `stakeWithSender` leaves the contract solvent exactly where the reward was covered. -/
theorem stakeWithSender_solvent_iff (hT : T.Standard) {sender staker : Address}
    {amount duration : ℕ} (h : s.stakeWithSender T sender staker amount duration = .ok s') :
    s'.Solvent T ↔ s.BacksReward T (sender, .stakeWithSender staker amount duration) := by
  obtain ⟨_, -, h⟩ := bind_eq_ok.mp h
  obtain ⟨rate, hrate, -, token, htoken, rfl⟩ := stakeWithChecks_eq_ok h
  have hbalance := balance_safeTransferFrom hT htoken
  have hreturns : s.BacksReward T (sender, .stakeWithSender staker amount duration) ↔
      s.totalOutstanding + amount * rate / fullScale + (if staker = s.self then amount else 0) ≤
        T.balanceOf s.token s.self := by
    constructor
    · intro ⟨rate', hrate', hle⟩
      cases hrate.symm.trans hrate'
      exact hle
    · intro hle
      exact ⟨rate, hrate, hle⟩
  rw [hreturns]
  simp only [Solvent, withStake, Stake.expected]
  omega

/-- One step of a solvent contract leaves it solvent exactly where it is no
`stakeWithSender` whose reward is not covered. -/
theorem exec_solvent_iff (hT : T.Standard) {step : Address × Action τ} (hs : s.Solvent T)
    (h : s.exec T keccak256 step = .ok s') : s'.Solvent T ↔ s.BacksReward T step := by
  obtain ⟨sender, action⟩ := step
  cases action with
  | stakeWithSender staker amount duration => exact stakeWithSender_solvent_iff hT h
  | stake => exact iff_of_true (stake_solvent s _ _ _ _ h) trivial
  | airDroppedStake => exact iff_of_true (airDroppedStake_solvent s _ _ _ _ _ _ _ _ h) trivial
  | exit => exact iff_of_true (exit_solvent s _ _ h) trivial
  | setPaused | setDurationRates | setAirDropRoot | transferGovernance | claimGovernance =>
      exact iff_of_true ((exec_settingsOnly rfl h).solvent hs) trivial
  | wait seconds =>
      cases h
      exact iff_of_true hs trivial
  | tokenMoves token =>
      obtain ⟨_, hholder, h⟩ := bind_eq_ok.mp h
      cases pure_eq_ok.mp h
      exact iff_of_true (hs.trans (require_eq_ok.mp hholder)) trivial

/-- A contract owes nothing right after it was initialized. -/
theorem Reached.init_solvent {init : State τ} {trace : List (State τ × (Address × Action τ))}
    (h : Reached T keccak256 init trace s) : init.Solvent T := by
  rw [Solvent, h.init_fresh.2]
  exact Nat.zero_le _

/-- Throughout a run the balance covers what is owed exactly where every
`stakeWithSender` of the run finds the reward it adds covered. -/
theorem solvent_throughout_iff (hT : T.Standard) {init : State τ}
    {trace : List (State τ × (Address × Action τ))} (h : Reached T keccak256 init trace s) :
    ((∀ e ∈ trace, e.1.Solvent T) ∧ s.Solvent T) ↔ ∀ e ∈ trace, e.1.BacksReward T e.2 :=
  Run.forall_iff (fun _ => True) (Solvent T) (BacksReward T) trivial h.init_solvent
    (fun _ _ _ _ _ => trivial) (fun _ _ _ _ hs hstep => exec_solvent_iff hT hs hstep) h.run

/-- A stake of 100 at 30 percent through the token, next to rewards of 50, and its
exit. -/
theorem solvent_throughout_exit :
    ∃ init trace s, Reached PlainToken.calls (fun _ => 0) init trace s ∧
      s.token.balances 1 = 130 ∧ s.totalOutstanding = 0 ∧ s.Solvent PlainToken.calls := by
  have hsteps : Returns
      ((deployed 9 8 (PlainToken.approved 9 1 50 100) 1000).initialized 8 5 [90] [3 * 10 ^ 17] >>=
        fun init => execTrace (exec PlainToken.calls fun _ => 0) [] init
          [(5, .stakeWithSender 1 100 90), (1, .wait 91), (1, .exit)])
      fun out => out.2.token.balances 1 = 130 ∧ out.2.totalOutstanding = 0 ∧
        ∀ e ∈ out.1, e.1.BacksReward PlainToken.calls e.2 := by decide
  obtain ⟨init, trace, s, hrun, hpaid, howed, hbacked⟩ := reached_of_returns hsteps
  have hsolvent := (solvent_throughout_iff PlainToken.standard hrun).mpr hbacked
  exact ⟨init, trace, s, hrun, hpaid, howed, hsolvent.2⟩

/-- The same stake without any rewards in the contract: `stake` refuses it and
`stakeWithSender` does not, and when it has ended its owner cannot exit. -/
theorem stakeWithSender_insolvent :
    ∃ init trace s, Reached PlainToken.calls (fun _ => 0) init trace s ∧
      s.totalOutstanding = 130 ∧ s.token.balances s.self = 100 ∧
        (∃ e ∈ trace, e.1.stake PlainToken.calls 1 100 90 =
          .error (.require "Insufficient rewards")) ∧
          ¬ Succeeds (s.exit PlainToken.calls 1) := by
  have hsteps : Returns
      ((deployed 9 8 (PlainToken.approved 9 1 0 100) 1000).initialized 8 5 [90] [3 * 10 ^ 17] >>=
        fun init => execTrace (exec PlainToken.calls fun _ => 0) [] init
          [(5, .stakeWithSender 1 100 90), (1, .wait 91)])
      fun out => out.2.totalOutstanding = 130 ∧ out.2.token.balances out.2.self = 100 ∧
        (∃ e ∈ out.1, FailsWith (.require "Insufficient rewards")
          (e.1.stake PlainToken.calls 1 100 90)) ∧
          ¬ Succeeds (out.2.exit PlainToken.calls 1) := by decide
  obtain ⟨init, trace, s, hrun, howed, hbalance, ⟨e, he, hfails⟩, hexit⟩ :=
    reached_of_returns hsteps
  exact ⟨init, trace, s, hrun, howed, hbalance, ⟨e, he, hfails⟩, hexit⟩

end State

end Staking

end InterestDollar
