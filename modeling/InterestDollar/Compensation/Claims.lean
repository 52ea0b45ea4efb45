import InterestDollar.Staking.Token

/-!
# The compensation claims contract

The adjuster sets what each account can claim while the governor has unlocked them, the
governor starts a claim period for which the contract holds the funds, and in the period
anybody has an account paid what it can claim. Between periods the governor collects what
is left.

Every coin has a state and calls of its own, and one of them is the token that is paid out.
-/

namespace InterestDollar

open Checked

namespace Compensation

/-- The storage of the contract and its own address, with the states of the coins and the
time of the block. `entered` is the status of the reentrancy guard, and `periodEnd` the
`end` of the claim period. -/
structure State (τ : Type) where
  self : Address
  governor : Address
  pendingGovernor : Address
  entered : Bool
  adjuster : Address
  token : Address
  periodEnd : ℕ
  totalClaims : ℕ
  claims : Address → ℕ
  isAdjusterLocked : Bool
  coins : Address → τ
  now : ℕ

namespace State

variable {τ : Type} (T : Address → Token τ)

/-- The contract right after its constructor. -/
def deployed (self governor token adjuster : Address) (coins : Address → τ) (now : ℕ) :
    State τ where
  self := self
  governor := governor
  pendingGovernor := 0
  entered := false
  adjuster := adjuster
  token := token
  periodEnd := 0
  totalClaims := 0
  claims := fun _ => 0
  isAdjusterLocked := true
  coins := coins
  now := now

/-- The tokens in the contract. -/
def funding (s : State τ) : ℕ := (T s.token).balanceOf (s.coins s.token) s.self

/-! ## Modifiers -/

def onlyGovernor (s : State τ) (sender : Address) : Except Revert Unit :=
  require (sender = s.governor) "Caller is not the Governor"

def onlyInClaimPeriod (s : State τ) : Except Revert Unit :=
  require (s.now ≤ s.periodEnd) "Should be in claim period"

def notInClaimPeriod (s : State τ) : Except Revert Unit :=
  require (s.periodEnd < s.now) "Should not be in claim period"

def onlyUnlockedAdjuster (s : State τ) (sender : Address) : Except Revert Unit := do
  require (s.isAdjusterLocked = false) "Adjuster must be unlocked"
  require (sender = s.adjuster) "Must be adjuster"

def nonReentrant (s : State τ) : Except Revert Unit :=
  require (s.entered = false) "Reentrant call"

/-! ## Functions -/

def claim (s : State τ) (recipient : Address) : Except Revert (State τ) := do
  s.onlyInClaimPeriod
  s.nonReentrant
  let amount := s.claims recipient
  require (0 < amount) "Amount must be greater than 0"
  let totalClaims ← SafeMath.sub .totalClaims s.totalClaims amount
  let coin ← (T s.token).safeTransfer (s.coins s.token) s.self recipient amount
  return { s with
    claims := Function.update s.claims recipient 0
    totalClaims := totalClaims
    coins := Function.update s.coins s.token coin }

/-- One round of the loop of `setClaims`. -/
def setClaim (s : State τ) (entry : Address × ℕ) : Except Revert (State τ) := do
  let (recipient, newAmount) := entry
  let oldAmount := s.claims recipient
  let added ← SafeMath.add s.totalClaims newAmount
  let totalClaims ← SafeMath.sub .memory added oldAmount
  return { s with
    claims := Function.update s.claims recipient newAmount
    totalClaims := totalClaims }

def setClaims (s : State τ) (sender : Address) (addresses : List Address)
    (amounts : List ℕ) : Except Revert (State τ) := do
  s.notInClaimPeriod
  s.onlyUnlockedAdjuster sender
  require (addresses.length = amounts.length) "Addresses and amounts must match"
  (addresses.zip amounts).foldlM setClaim s

def lockAdjuster (s : State τ) (sender : Address) : Except Revert (State τ) := do
  s.onlyGovernor sender
  s.notInClaimPeriod
  return { s with isAdjusterLocked := true }

def unlockAdjuster (s : State τ) (sender : Address) : Except Revert (State τ) := do
  s.onlyGovernor sender
  s.notInClaimPeriod
  return { s with isAdjusterLocked := false }

/-- The longest claim period, 366 days, is a second shorter. -/
def durationBound : ℕ := 31622400

def start (s : State τ) (sender : Address) (seconds : ℕ) : Except Revert (State τ) := do
  s.onlyGovernor sender
  s.notInClaimPeriod
  s.nonReentrant
  require (0 < s.totalClaims) "No claims"
  require (s.totalClaims ≤ s.funding T) "Insufficient funds for all claims"
  let periodEnd ← SafeMath.add s.now seconds
  let duration ← SafeMath.sub .memory periodEnd s.now
  require (duration < durationBound) "Duration too long"
  return { s with isAdjusterLocked := true, periodEnd := periodEnd }

/-- `collect` up to the return of its transfer. A coin may call the contract before it
returns; that is a step of its own, taken with the guard entered. -/
def collect (s : State τ) (sender coin : Address) : Except Revert (State τ) := do
  s.onlyGovernor sender
  s.notInClaimPeriod
  s.nonReentrant
  let amount := (T coin).balanceOf (s.coins coin) s.self
  let collected ← (T coin).safeTransfer (s.coins coin) s.self s.governor amount
  return { s with coins := Function.update s.coins coin collected, entered := true }

/-- The transfer of `collect` returns. -/
def collectReturned (s : State τ) : Except Revert (State τ) := do
  require (s.entered = true) "Not in a call"
  return { s with entered := false }

def transferGovernance (s : State τ) (sender newGovernor : Address) :
    Except Revert (State τ) := do
  s.onlyGovernor sender
  return { s with pendingGovernor := newGovernor }

def claimGovernance (s : State τ) (sender : Address) : Except Revert (State τ) := do
  require (sender = s.pendingGovernor) "Only the pending Governor can complete the claim"
  require (sender ≠ 0) "New Governor is address(0)"
  return { s with governor := sender }

end State

/-- The functions, the return of a collection, and what happens around the contract. -/
inductive Action (τ : Type)
  | claim (recipient : Address)
  | setClaims (addresses : List Address) (amounts : List ℕ)
  | lockAdjuster
  | unlockAdjuster
  | start (seconds : ℕ)
  | collect (coin : Address)
  | collectReturned
  | transferGovernance (newGovernor : Address)
  | claimGovernance
  | wait (seconds : ℕ)
  | coinsMove (coins : Address → τ)

namespace State

variable {τ : Type}

/-- One call by an account, or one change around the contract. Time passes between
transactions, and the tokens of the contract only leave by its own transfers. -/
def exec (T : Address → Token τ) (s : State τ) (step : Address × Action τ) :
    Except Revert (State τ) :=
  let (sender, action) := step
  match action with
  | .claim recipient => s.claim T recipient
  | .setClaims addresses amounts => s.setClaims sender addresses amounts
  | .lockAdjuster => s.lockAdjuster sender
  | .unlockAdjuster => s.unlockAdjuster sender
  | .start seconds => s.start T sender seconds
  | .collect coin => s.collect T sender coin
  | .collectReturned => s.collectReturned
  | .transferGovernance newGovernor => s.transferGovernance sender newGovernor
  | .claimGovernance => s.claimGovernance sender
  | .wait seconds => do
      require (s.entered = false) "In a transaction"
      return { s with now := s.now + seconds }
  | .coinsMove coins => do
      require (s.funding T ≤ { s with coins := coins }.funding T) "Not the holder"
      return { s with coins := coins }

end State

end Compensation

end InterestDollar
