import InterestDollar.Vault.System

/-!
# A world of plain tokens

The simplest surroundings of the vault: standard tokens whose holders have
approved the vault, an oracle with fixed prices, and strategies that keep the
assets given to them under their own address and pay no rewards. Strategies handle
the assets the world lists.
-/

namespace InterestDollar

open Checked

/-- The state of a plain world. -/
structure PlainWorld where
  time : ℕ
  code : Address → Bool
  tokenDecimals : Address → ℕ
  prices : Address → ℕ
  handled : List Address
  balances : Address → Address → ℕ

namespace PlainWorld

/-- Adds to a holder's balance of a token. -/
def give (w : PlainWorld) (token holder : Address) (amount : ℕ) : PlainWorld :=
  { w with
    balances := Function.update w.balances token
      (Function.update (w.balances token) holder (w.balances token holder + amount)) }

/-- Takes from a holder's balance of a token. -/
def take (w : PlainWorld) (token holder : Address) (amount : ℕ) : PlainWorld :=
  { w with
    balances := Function.update w.balances token
      (Function.update (w.balances token) holder (w.balances token holder - amount)) }

/-- Moves an amount of a token between two holders. -/
def move (w : PlainWorld) (token fromAcc toAcc : Address) (amount : ℕ) :
    Except Revert PlainWorld :=
  if amount ≤ w.balances token fromAcc then
    .ok ((w.take token fromAcc amount).give token toAcc amount)
  else .error (.subtractionOverflow .tokenBalance)

/-- Moves all a strategy has of the assets it handles. -/
def moveAll (w : PlainWorld) (strategy recipient : Address) : Except Revert PlainWorld :=
  w.handled.foldlM
    (fun w token => w.move token strategy recipient (w.balances token strategy)) w

/-- The calls of the vault, answered by a plain world. -/
def calls : World PlainWorld where
  oUSD := 10
  now := time
  isContract := code
  decimals w token := .ok (w.tokenDecimals token)
  balanceOf w token holder := .ok (w.balances token holder)
  safeTransfer w caller token recipient amount := w.move token caller recipient amount
  safeTransferFrom w _ token owner recipient amount := w.move token owner recipient amount
  safeApprove w _ _ _ _ := .ok w
  price w _ asset := .ok (w.prices asset)
  supportsAsset w _ asset := .ok (decide (asset ∈ w.handled))
  checkBalance w strategy asset := .ok (w.balances asset strategy)
  deposit w _ _ _ _ := .ok w
  depositAll w _ _ := .ok w
  withdraw w _ strategy recipient asset amount := w.move asset strategy recipient amount
  withdrawAll w caller strategy := w.moveAll strategy caller
  rewardTokenAddress _ _ := .ok 0
  rewardLiquidationThreshold _ _ := .ok 0
  collectRewardToken w _ _ := .ok w
  swapExactTokensForTokens w _ _ _ _ _ _ _ := .ok w

/-- A plain world with dollar coins of 18 decimals, which the given accounts hold
none of yet. -/
def empty (contracts handled : List Address) : PlainWorld where
  time := 0
  code a := decide (a ∈ contracts)
  tokenDecimals _ := 18
  prices _ := fullScale
  handled := handled
  balances _ _ := 0

theorem move_eq_ok {w w' : PlainWorld} {token fromAcc toAcc : Address} {amount : ℕ} :
    w.move token fromAcc toAcc amount = .ok w' ↔ amount ≤ w.balances token fromAcc ∧
      w' = (w.take token fromAcc amount).give token toAcc amount := by
  by_cases h : amount ≤ w.balances token fromAcc
  · simp [move, h, eq_comm]
  · simp [move, h]

/-- A move up to the balance goes through and leaves the other tokens alone. -/
theorem move_succeeds {w : PlainWorld} {token fromAcc : Address} {amount : ℕ}
    (h : amount ≤ w.balances token fromAcc) (toAcc : Address) :
    ∃ w', w.move token fromAcc toAcc amount = .ok w' ∧
      ∀ other, other ≠ token → w'.balances other = w.balances other := by
  refine ⟨(w.take token fromAcc amount).give token toAcc amount, if_pos h, ?_⟩
  intro other hne
  simp only [give, take, Function.update_of_ne hne]

end PlainWorld

end InterestDollar
