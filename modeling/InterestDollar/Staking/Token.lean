import InterestDollar.Contract.Basic
import Mathlib.Logic.Function.Basic

/-!
# The staking token

The token that is staked and paid out. It is a parameter of the staking contract: a
`Token` gives, for an arbitrary state of it, what each call returns or makes of that
state. What the contract relies on is `Token.Standard`: a transfer that goes through
moves exactly its amount. `PlainToken` is a token with balances and allowances that
does.
-/

namespace InterestDollar

open Checked

/-- The token as the staking contract calls it, in a state of type `τ`. The first
address of a transfer is the caller. -/
structure Token (τ : Type) where
  balanceOf : τ → (holder : Address) → ℕ
  safeTransfer : τ → (caller recipient : Address) → ℕ → Except Revert τ
  safeTransferFrom : τ → (caller owner recipient : Address) → ℕ → Except Revert τ

/-- Balances after an amount went from one holder to another. -/
def moved (balances : Address → ℕ) (owner recipient : Address) (amount : ℕ) : Address → ℕ :=
  let taken := Function.update balances owner (balances owner - amount)
  Function.update taken recipient (taken recipient + amount)

theorem moved_recipient {balances : Address → ℕ} {owner recipient : Address} {amount : ℕ}
    (h : owner ≠ recipient) :
    moved balances owner recipient amount recipient = balances recipient + amount := by
  simp [moved, Function.update_of_ne h.symm]

theorem moved_self {balances : Address → ℕ} {holder : Address} {amount : ℕ}
    (h : amount ≤ balances holder) : moved balances holder holder amount = balances := by
  simp [moved, Nat.sub_add_cancel h]

namespace Token

variable {τ : Type}

/-- A standard token: a transfer that goes through was covered by the balance and
moved exactly its amount. -/
structure Standard (T : Token τ) : Prop where
  safeTransfer {t t' : τ} {caller recipient : Address} {amount : ℕ} :
    T.safeTransfer t caller recipient amount = .ok t' →
      amount ≤ T.balanceOf t caller ∧
        T.balanceOf t' = moved (T.balanceOf t) caller recipient amount
  safeTransferFrom {t t' : τ} {caller owner recipient : Address} {amount : ℕ} :
    T.safeTransferFrom t caller owner recipient amount = .ok t' →
      amount ≤ T.balanceOf t owner ∧
        T.balanceOf t' = moved (T.balanceOf t) owner recipient amount

end Token

/-- The state of a plain token. -/
structure PlainToken where
  balances : Address → ℕ
  allowances : Address → Address → ℕ

namespace PlainToken

def transfer (t : PlainToken) (owner recipient : Address) (amount : ℕ) :
    Except Revert PlainToken := do
  let _ ← SafeMath.sub .tokenBalance (t.balances owner) amount
  return { t with balances := moved t.balances owner recipient amount }

def transferFrom (t : PlainToken) (caller owner recipient : Address) (amount : ℕ) :
    Except Revert PlainToken := do
  let t ← t.transfer owner recipient amount
  let allowance ← SafeMath.sub .allowances (t.allowances owner caller) amount
  return { t with
    allowances := Function.update t.allowances owner
      (Function.update (t.allowances owner) caller allowance) }

/-- The calls of the staking contract, answered by a plain token. -/
def calls : Token PlainToken where
  balanceOf := balances
  safeTransfer := transfer
  safeTransferFrom := transferFrom

/-- A token of which two accounts hold some, and the second has approved the first. -/
def approved (spender owner : Address) (spenderBalance ownerBalance : ℕ) : PlainToken where
  balances a := if a = spender then spenderBalance else if a = owner then ownerBalance else 0
  allowances a b := if a = owner ∧ b = spender then ownerBalance else 0

theorem transfer_eq_ok {t t' : PlainToken} {owner recipient : Address} {amount : ℕ} :
    t.transfer owner recipient amount = .ok t' ↔
      amount ≤ t.balances owner ∧
        t' = { t with balances := moved t.balances owner recipient amount } := by
  simp only [transfer, bind_eq_ok, SafeMath.sub_eq_ok, pure_eq_ok]
  constructor
  · intro ⟨_, ⟨hle, _⟩, h⟩
    exact ⟨hle, h.symm⟩
  · intro ⟨hle, h⟩
    exact ⟨_, ⟨hle, rfl⟩, h.symm⟩

theorem standard : Token.Standard calls where
  safeTransfer {t t' caller recipient amount} h := by
    obtain ⟨hle, rfl⟩ := transfer_eq_ok.mp h
    exact ⟨hle, rfl⟩
  safeTransferFrom {t t' caller owner recipient amount} h := by
    obtain ⟨u, hu, h⟩ := bind_eq_ok.mp h
    obtain ⟨_, -, h⟩ := bind_eq_ok.mp h
    obtain ⟨hle, rfl⟩ := transfer_eq_ok.mp hu
    cases pure_eq_ok.mp h
    exact ⟨hle, rfl⟩

end PlainToken

end InterestDollar
