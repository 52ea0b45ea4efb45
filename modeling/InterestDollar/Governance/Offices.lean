import InterestDollar.Compensation.Payout
import InterestDollar.Governance.History
import InterestDollar.Liquidity.Bookkeeping
import InterestDollar.Staking.Runs
import InterestDollar.Transition.Office

/-!
# The governors of the other contracts

The staking, the liquidity and the compensation contract have a governor each, and the
timelock an admin. All four are handed over as the vault is: what a step does to the office
is read off the functions here, and the rest is the general argument.
-/

namespace InterestDollar

open Checked Transition

/-- What `transferGovernance` and `claimGovernance` do, whatever contract they belong to. -/
theorem office_step_of_named {governor pendingGovernor sender newGovernor : Address}
    (h : sender = governor) :
    Office.Step sender ⟨governor, pendingGovernor⟩ (⟨governor, newGovernor⟩ : Office Address) :=
  .name newGovernor h

theorem office_step_of_claimed {governor pendingGovernor sender : Address}
    (h : sender = pendingGovernor) (hne : sender ≠ 0) :
    Office.Step sender ⟨governor, pendingGovernor⟩ (⟨sender, pendingGovernor⟩ : Office Address) :=
  .claim pendingGovernor h hne (.inl rfl)

namespace Staking.State

variable {τ : Type} {T : Token τ} {keccak256 : List UInt8 → Bytes32} {s s' : State τ}

def office (s : State τ) : Office Address := ⟨s.governor, s.pendingGovernor⟩

theorem stake_office {sender : Address} {amount duration : ℕ}
    (h : s.stakeWithChecks T sender amount duration = .ok s') : s'.office = s.office := by
  obtain ⟨_, -, -, _, -, rfl⟩ := stakeWithChecks_eq_ok h
  rfl

theorem exec_office {step : Address × Action τ} (h : s.exec T keccak256 step = .ok s') :
    Office.Step step.1 s.office s'.office := by
  obtain ⟨sender, action⟩ := step
  cases action with
  | stake amount duration => exact stake_office (stake_eq_ok h) ▸ .keep
  | stakeWithSender staker amount duration =>
      obtain ⟨_, -, h⟩ := bind_eq_ok.mp h
      exact stake_office h ▸ .keep
  | airDroppedStake index stakeType duration rate amount merkleProof =>
      obtain ⟨-, -, rfl⟩ := airDroppedStake_eq_ok h
      exact .keep
  | exit =>
      obtain ⟨_, _, _, -, -, _, -, rfl⟩ := exit_eq_ok h
      exact .keep
  | setPaused paused =>
      obtain ⟨_, -, h⟩ := bind_eq_ok.mp h
      cases pure_eq_ok.mp h
      exact .keep
  | setDurationRates durations rates =>
      obtain ⟨_, -, h⟩ := bind_eq_ok.mp h
      obtain ⟨_, -, h⟩ := bind_eq_ok.mp h
      obtain ⟨_, -, h⟩ := bind_eq_ok.mp h
      cases pure_eq_ok.mp h
      exact .keep
  | setAirDropRoot stakeType rootHash proofDepth =>
      obtain ⟨_, -, h⟩ := bind_eq_ok.mp h
      obtain ⟨_, -, h⟩ := bind_eq_ok.mp h
      cases pure_eq_ok.mp h
      exact .keep
  | transferGovernance newGovernor =>
      obtain ⟨_, hsender, h⟩ := bind_eq_ok.mp h
      cases pure_eq_ok.mp h
      exact office_step_of_named (require_eq_ok.mp hsender)
  | claimGovernance =>
      obtain ⟨_, hsender, h⟩ := bind_eq_ok.mp h
      obtain ⟨_, hne, h⟩ := bind_eq_ok.mp h
      cases pure_eq_ok.mp h
      exact office_step_of_claimed (require_eq_ok.mp hsender) (require_eq_ok.mp hne)
  | wait seconds =>
      cases h
      exact .keep
  | tokenMoves token =>
      obtain ⟨_, -, h⟩ := bind_eq_ok.mp h
      cases pure_eq_ok.mp h
      exact .keep

theorem governor_follows {init : State τ} {trace}
    (h : Run (fun s step s' => s.exec T keccak256 step = .ok s') init trace s)
    (hgovernor : init.governor ≠ 0) (hheir : init.pendingGovernor = 0) :
    s.governor ≠ 0 ∧ Office.HandedOver (fun s step s' => s.exec T keccak256 step = .ok s') office
      (fun e => e.2.1) trace :=
  Office.follows office _ h (fun _ _ _ hexec => exec_office hexec) hgovernor hheir

end Staking.State

namespace Liquidity.State

variable {ρ ℓ : Type} {R : Token ρ} {L : Token ℓ} {s s' : State ρ ℓ}

def office (s : State ρ ℓ) : Office Address := ⟨s.governor, s.pendingGovernor⟩

theorem withdraw_office {sender : Address} {amount : ℕ} {claim : Bool}
    (h : s.withdraw R L sender amount claim = .ok s') : s'.office = s.office := by
  obtain ⟨-, -, _, _, _, -, -, -, rfl⟩ := withdraw_eq_ok h
  rfl

theorem exec_office {step : Address × Action ρ ℓ} (h : s.exec R L step = .ok s') :
    Office.Step step.1 s.office s'.office := by
  obtain ⟨sender, action⟩ := step
  cases action with
  | startCampaign rewardPerBlock startBlock numBlocks =>
      obtain ⟨_, -, -, rfl⟩ := startCampaign_eq_ok h
      exact .keep
  | stopCampaign =>
      cases stopCampaign_eq_ok h
      exact .keep
  | deposit amount =>
      obtain ⟨-, _, -, rfl⟩ := deposit_eq_ok h
      exact .keep
  | exit => exact withdraw_office h ▸ .keep
  | withdraw amount claim => exact withdraw_office h ▸ .keep
  | claim =>
      obtain ⟨_, _, -, -, rfl⟩ := claim_eq_ok h
      exact .keep
  | doUpdatePool =>
      cases updatePool_eq_ok h
      exact .keep
  | transferGovernance newGovernor =>
      obtain ⟨_, hsender, h⟩ := bind_eq_ok.mp h
      cases pure_eq_ok.mp h
      exact office_step_of_named (require_eq_ok.mp hsender)
  | claimGovernance =>
      obtain ⟨_, hsender, h⟩ := bind_eq_ok.mp h
      obtain ⟨_, hne, h⟩ := bind_eq_ok.mp h
      cases pure_eq_ok.mp h
      exact office_step_of_claimed (require_eq_ok.mp hsender) (require_eq_ok.mp hne)
  | wait blocks =>
      cases h
      exact .keep
  | rewardMoves reward =>
      obtain ⟨_, -, h⟩ := bind_eq_ok.mp h
      cases pure_eq_ok.mp h
      exact .keep
  | lpMoves lpToken =>
      obtain ⟨_, -, h⟩ := bind_eq_ok.mp h
      cases pure_eq_ok.mp h
      exact .keep

theorem governor_follows {init : State ρ ℓ} {trace}
    (h : Run (fun s step s' => s.exec R L step = .ok s') init trace s)
    (hgovernor : init.governor ≠ 0) (hheir : init.pendingGovernor = 0) :
    s.governor ≠ 0 ∧ Office.HandedOver (fun s step s' => s.exec R L step = .ok s') office
      (fun e => e.2.1) trace :=
  Office.follows office _ h (fun _ _ _ hexec => exec_office hexec) hgovernor hheir

end Liquidity.State

namespace Compensation.State

variable {τ : Type} {T : Address → Token τ} {s s' : State τ}

def office (s : State τ) : Office Address := ⟨s.governor, s.pendingGovernor⟩

theorem exec_office {step : Address × Action τ} (h : s.exec T step = .ok s') :
    Office.Step step.1 s.office s'.office := by
  obtain ⟨sender, action⟩ := step
  cases action with
  | claim recipient =>
      obtain ⟨-, -, -, _, -, rfl⟩ := claim_eq_ok h
      exact .keep
  | setClaims addresses amounts =>
      obtain ⟨-, -, hsame⟩ := setClaims_eq_ok h
      exact hsame ▸ .keep
  | lockAdjuster | unlockAdjuster =>
      obtain ⟨_, -, h⟩ := bind_eq_ok.mp h
      obtain ⟨_, -, h⟩ := bind_eq_ok.mp h
      cases pure_eq_ok.mp h
      exact .keep
  | start seconds =>
      obtain ⟨-, -, rfl⟩ := start_eq_ok h
      exact .keep
  | collect coin =>
      obtain ⟨-, _, rfl⟩ := collect_eq_ok h
      exact .keep
  | collectReturned =>
      obtain ⟨_, -, h⟩ := bind_eq_ok.mp h
      cases pure_eq_ok.mp h
      exact .keep
  | transferGovernance newGovernor =>
      obtain ⟨_, hsender, h⟩ := bind_eq_ok.mp h
      cases pure_eq_ok.mp h
      exact office_step_of_named (require_eq_ok.mp hsender)
  | claimGovernance =>
      obtain ⟨_, hsender, h⟩ := bind_eq_ok.mp h
      obtain ⟨_, hne, h⟩ := bind_eq_ok.mp h
      cases pure_eq_ok.mp h
      exact office_step_of_claimed (require_eq_ok.mp hsender) (require_eq_ok.mp hne)
  | wait seconds =>
      obtain ⟨_, -, h⟩ := bind_eq_ok.mp h
      cases pure_eq_ok.mp h
      exact .keep
  | coinsMove coins =>
      obtain ⟨_, -, h⟩ := bind_eq_ok.mp h
      cases pure_eq_ok.mp h
      exact .keep

theorem governor_follows {init : State τ} {trace}
    (h : Run (fun s step s' => s.exec T step = .ok s') init trace s)
    (hgovernor : init.governor ≠ 0) (hheir : init.pendingGovernor = 0) :
    s.governor ≠ 0 ∧ Office.HandedOver (fun s step s' => s.exec T step = .ok s') office
      (fun e => e.2.1) trace :=
  Office.follows office _ h (fun _ _ _ hexec => exec_office hexec) hgovernor hheir

end Compensation.State

namespace Governance.State

variable {keccak256 : List UInt8 → Bytes32} {s s' : State}

/-- The office of the admin. An heir that took over is forgotten here. -/
def office (s : State) : Office Address := ⟨s.admin, s.pendingAdmin⟩

/-- A step leaves the address of the timelock alone, and the office is handed over by the
rules. -/
theorem exec_office {step : Address × Action} (h : s.exec keccak256 step = .ok s') :
    s'.self = s.self ∧ (step.1 ≠ 0 → Office.Step step.1 s.office s'.office) := by
  obtain ⟨sender, action⟩ := step
  cases action with
  | callNext =>
      obtain ⟨_, ht, h⟩ := bind_eq_ok.mp h
      cases pure_eq_ok.mp h
      obtain ⟨_, _, _, -, -, -, -, -, -, hsame⟩ := callNext_eq_ok ht
      exact hsame ▸ ⟨rfl, fun _ => .keep⟩
  | callReturned =>
      have h : s.callReturned = .ok s' := h
      unfold callReturned at h
      split at h
      · cases h
      · obtain ⟨_, -, h⟩ := bind_eq_ok.mp h
        cases pure_eq_ok.mp h
        exact ⟨rfl, fun _ => .keep⟩
  | executeReturned =>
      have h : s.executeReturned = .ok s' := h
      unfold executeReturned at h
      split at h
      · cases h
      · obtain ⟨_, -, h⟩ := bind_eq_ok.mp h
        cases pure_eq_ok.mp h
        exact ⟨rfl, fun _ => .keep⟩
  | wait seconds =>
      obtain ⟨_, -, h⟩ := bind_eq_ok.mp h
      cases pure_eq_ok.mp h
      exact ⟨rfl, fun _ => .keep⟩
  | propose targets signatures calldatas =>
      obtain ⟨_, -, h⟩ := bind_eq_ok.mp h
      cases propose_eq_ok h
      exact ⟨rfl, fun _ => .keep⟩
  | queue proposalId =>
      obtain ⟨_, -, h⟩ := bind_eq_ok.mp h
      obtain ⟨-, -, -, _, rfl, -⟩ := queue_eq_ok h
      exact ⟨rfl, fun _ => .keep⟩
  | cancel proposalId =>
      obtain ⟨_, -, h⟩ := bind_eq_ok.mp h
      obtain ⟨-, _, rfl, -⟩ := cancel_eq_ok h
      exact ⟨rfl, fun _ => .keep⟩
  | execute proposalId =>
      obtain ⟨_, -, h⟩ := bind_eq_ok.mp h
      obtain ⟨-, rfl⟩ := execute_eq_ok h
      exact ⟨rfl, fun _ => .keep⟩
  | setDelay delay =>
      obtain ⟨_, -, h⟩ := bind_eq_ok.mp h
      obtain ⟨_, -, h⟩ := bind_eq_ok.mp h
      obtain ⟨_, -, h⟩ := bind_eq_ok.mp h
      obtain ⟨_, -, h⟩ := bind_eq_ok.mp h
      cases pure_eq_ok.mp h
      exact ⟨rfl, fun _ => .keep⟩
  | setPendingAdmin pendingAdmin =>
      obtain ⟨_, -, h⟩ := bind_eq_ok.mp h
      obtain ⟨_, hadmin, h⟩ := bind_eq_ok.mp h
      cases pure_eq_ok.mp h
      exact ⟨rfl, fun _ => .name pendingAdmin (require_eq_ok.mp hadmin)⟩
  | acceptAdmin =>
      obtain ⟨_, -, h⟩ := bind_eq_ok.mp h
      obtain ⟨_, hheir, h⟩ := bind_eq_ok.mp h
      cases pure_eq_ok.mp h
      exact ⟨rfl, fun hsender => .claim 0 (require_eq_ok.mp hheir) hsender (.inr rfl)⟩

/-- In every run the timelock has an admin, and wherever the admin changes the new one takes
over by a call of its own, named for it by the admin it follows. Nobody calls from `0`. -/
theorem admin_follows {init : State} {trace : List (State × (Address × Action))}
    (h : Reached keccak256 init trace s) (hadmin : init.admin ≠ 0)
    (hsenders : ∀ e ∈ trace, e.2.1 ≠ 0) :
    s.admin ≠ 0 ∧
      Office.HandedOver (fun s step s' => step.1 ≠ 0 ∧ s.exec keccak256 step = .ok s') office
        (fun e => e.2.1) trace := by
  have hrun := h.run.imp_of_forall (fun _ step => step.1 ≠ 0)
    (fun _ _ _ hsender hexec => And.intro hsender hexec) hsenders
  obtain ⟨_, _, _, _, hinit⟩ := h.constructed
  obtain ⟨-, rfl⟩ := constructed_eq_ok hinit
  exact Office.follows office _ hrun (fun _ _ _ hstep => (exec_office hstep.2).2 hstep.1) hadmin rfl

end Governance.State

end InterestDollar
