import InterestDollar.Strategy.Aave
import InterestDollar.Strategy.Compound
import InterestDollar.Strategy.ThreePool

/-!
# The strategies around the vault

At some addresses stand strategies of the three kinds. `Platform.world` is the surroundings of
the vault in which a call of such an address runs the strategy's code on the platform; a
call of another address is answered by the platform as before.
-/

namespace InterestDollar

open Checked

/-- A strategy of one of the three kinds. -/
inductive Strategy
  | aave (s : AaveStrategy)
  | compound (s : CompoundStrategy)
  | threePool (s : ThreePoolStrategy)

namespace Strategy

variable {ω : Type} (P : Platform ω)

/-- The storage that every strategy has. -/
def base : Strategy → AbstractStrategy
  | aave s => s.toAbstractStrategy
  | compound s => s.toAbstractStrategy
  | threePool s => s.toAbstractStrategy

def checkBalance (w : ω) (asset : Address) : Strategy → Except Failure ℕ
  | aave s => s.checkBalance P w asset
  | compound s => s.checkBalance P w asset
  | threePool s => s.checkBalance P w asset

def deposit (w : ω) (sender asset : Address) (amount : ℕ) : Strategy → Except Failure ω
  | aave s => s.deposit P w sender asset amount
  | compound s => s.deposit P w sender asset amount
  | threePool s => s.deposit P w sender asset amount

def depositAll (w : ω) (sender : Address) : Strategy → Except Failure ω
  | aave s => s.depositAll P w sender
  | compound s => s.depositAll P w sender
  | threePool s => s.depositAll P w sender

def withdraw (w : ω) (sender recipient asset : Address) (amount : ℕ) :
    Strategy → Except Failure ω
  | aave s => s.withdraw P w sender recipient asset amount
  | compound s => s.withdraw P w sender recipient asset amount
  | threePool s => s.withdraw P w sender recipient asset amount

def withdrawAll (w : ω) (sender : Address) : Strategy → Except Failure ω
  | aave s => s.withdrawAll P w sender
  | compound s => s.withdrawAll P w sender
  | threePool s => s.withdrawAll P w sender

def collectRewardToken (w : ω) (sender : Address) : Strategy → Except Failure ω
  | aave s => s.collectRewardToken P w sender
  | compound s => s.collectRewardToken P w sender
  | threePool s => s.collectRewardToken P w sender

end Strategy

/-- The state of everything outside the vault and its token: the strategies at their addresses,
and the platform. -/
structure Surroundings (ω : Type) where
  strategies : Address → Option Strategy
  self_eq : ∀ x, ∀ t ∈ strategies x, t.base.self = x
  platform : ω

namespace Surroundings

variable {ω : Type}

/-- After a call that changes the platform. -/
def setPlatform (s : Surroundings ω) (w : ω) : Surroundings ω := { s with platform := w }

/-- A change of the platform, made by a contract that is none of the strategies. -/
def lift (s : Surroundings ω) (x : Except Revert ω) : Except Revert (Surroundings ω) :=
  x.map s.setPlatform

/-- A call of an address: the strategy's code if there is one, and else the platform's. -/
def call {α : Type} (s : Surroundings ω) (x : Address) (f : Strategy → Except Failure α)
    (other : Except Revert α) : Except Revert α :=
  match s.strategies x with
  | some t => (f t).mapError Failure.revert
  | none => other

/-- A call of an address that changes the platform. -/
def callLift (s : Surroundings ω) (x : Address) (f : Strategy → Except Failure ω)
    (other : Except Revert ω) : Except Revert (Surroundings ω) :=
  s.lift (s.call x f other)

section

variable {s s' : Surroundings ω} {x : Address} {t : Strategy} {f : Strategy → Except Failure ω}
  {other : Except Revert ω}

theorem lift_eq_ok {y : Except Revert ω} :
    s.lift y = .ok s' ↔ ∃ w, y = .ok w ∧ s' = s.setPlatform w := by
  cases y with
  | error e => simp [lift, Except.map]
  | ok w => simp [lift, Except.map, eq_comm]

/-- What a call of a strategy returns is what its code returns. -/
theorem callLift_eq_ok (h : s.strategies x = some t) :
    s.callLift x f other = .ok s' ↔ ∃ w, f t = .ok w ∧ s' = s.setPlatform w := by
  unfold callLift call
  rw [lift_eq_ok, h]
  simp only [mapError_eq_ok]

end

end Surroundings

/-- The surroundings of the vault, as the strategies and the platform answer. -/
def Platform.world {ω : Type} (P : Platform ω) : World (Surroundings ω) where
  oUSD := P.oUSD
  now s := P.now s.platform
  isContract s a := P.isContract s.platform a
  decimals s token := P.decimals s.platform token
  balanceOf s token holder := P.balanceOf s.platform token holder
  safeTransfer s caller token recipient amount :=
    s.lift (P.safeTransfer s.platform caller token recipient amount)
  safeTransferFrom s caller token owner recipient amount :=
    s.lift (P.safeTransferFrom s.platform caller token owner recipient amount)
  safeApprove s caller token spender amount :=
    s.lift (P.safeApprove s.platform caller token spender amount)
  price s priceProvider asset := P.price s.platform priceProvider asset
  supportsAsset s x asset := s.call x (fun t => .ok (t.base.supportsAsset asset))
    (P.supportsAsset s.platform x asset)
  checkBalance s x asset := s.call x (fun t => t.checkBalance P s.platform asset)
    (P.checkBalance s.platform x asset)
  deposit s caller x asset amount :=
    s.callLift x (fun t => t.deposit P s.platform caller asset amount)
      (P.deposit s.platform caller x asset amount)
  depositAll s caller x := s.callLift x (fun t => t.depositAll P s.platform caller)
    (P.depositAll s.platform caller x)
  withdraw s caller x recipient asset amount :=
    s.callLift x (fun t => t.withdraw P s.platform caller recipient asset amount)
      (P.withdraw s.platform caller x recipient asset amount)
  withdrawAll s caller x := s.callLift x (fun t => t.withdrawAll P s.platform caller)
    (P.withdrawAll s.platform caller x)
  rewardTokenAddress s x := s.call x (fun t => .ok t.base.rewardTokenAddress)
    (P.rewardTokenAddress s.platform x)
  rewardLiquidationThreshold s x := s.call x (fun t => .ok t.base.rewardLiquidationThreshold)
    (P.rewardLiquidationThreshold s.platform x)
  collectRewardToken s caller x :=
    s.callLift x (fun t => t.collectRewardToken P s.platform caller)
      (P.collectRewardToken s.platform caller x)
  swapExactTokensForTokens s caller router amountIn amountOutMin path recipient deadline :=
    s.lift (P.swapExactTokensForTokens s.platform caller router amountIn amountOutMin path
      recipient deadline)

end InterestDollar
