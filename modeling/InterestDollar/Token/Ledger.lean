import InterestDollar.Contract.StableMath
import Mathlib.Logic.Function.Basic

/-!
# The OUSD token contract

The storage of the token and its functions, as the contract computes them. An
account holds credits; a rebasing account's credits are converted at the global
`rebasingCreditsPerToken`, a non-rebasing account's at the rate frozen for it in
`nonRebasingCreditsPerToken`. Besides the credits the contract keeps running
tallies: the credits of the rebasing accounts, the tokens of the non-rebasing
ones, and the total supply.

A function takes the storage and returns the storage after the call, or the
reason it reverted. What the chain tells a call, its sender and which addresses
hold code at that moment, comes as a `Msg`. A `nonReentrant` guard is not
modelled: no function here calls another contract, so between two calls the
guard is always open. Events are left out.
-/

namespace InterestDollar

open Checked

/-- The sender of a call, and which addresses are contracts while it runs. -/
structure Msg where
  sender : Address
  isContract : Address → Bool

inductive RebaseOptions
  | notSet
  | optOut
  | optIn
  deriving DecidableEq, Repr

/-- The storage of the token. -/
structure Ledger where
  totalSupply : ℕ
  allowances : Address → Address → ℕ
  vaultAddress : Address
  creditBalances : Address → ℕ
  rebasingCredits : ℕ
  rebasingCreditsPerToken : ℕ
  nonRebasingSupply : ℕ
  nonRebasingCreditsPerToken : Address → ℕ
  rebaseState : Address → RebaseOptions

/-- `MAX_SUPPLY`, the largest 128-bit word. -/
def maxSupply : ℕ := 2 ^ 128 - 1

namespace Ledger

/-- The storage a fresh `initialize` leaves. -/
def initialized (vaultAddress : Address) : Ledger where
  totalSupply := 0
  allowances := fun _ _ => 0
  vaultAddress := vaultAddress
  creditBalances := fun _ => 0
  rebasingCredits := 0
  rebasingCreditsPerToken := fullScale
  nonRebasingSupply := 0
  nonRebasingCreditsPerToken := fun _ => 0
  rebaseState := fun _ => .notSet

def onlyVault (s : Ledger) (msg : Msg) : Except Revert Unit :=
  require (s.vaultAddress = msg.sender) "Caller is not the Vault"

/-- The credits per token in force for an account: its frozen rate, if it has
one, and the global rate otherwise. -/
def creditsPerToken (s : Ledger) (account : Address) : ℕ :=
  if s.nonRebasingCreditsPerToken account ≠ 0 then s.nonRebasingCreditsPerToken account
  else s.rebasingCreditsPerToken

def balanceOf (s : Ledger) (account : Address) : Except Revert ℕ :=
  if s.creditBalances account = 0 then .ok 0
  else StableMath.divPrecisely (s.creditBalances account) (s.creditsPerToken account)

def allowance (s : Ledger) (owner spender : Address) : ℕ := s.allowances owner spender

/-- Stores the credits of one account. -/
def setCredits (s : Ledger) (account : Address) (credits : ℕ) : Ledger :=
  { s with creditBalances := Function.update s.creditBalances account credits }

/-- Stores the frozen rate of one account. -/
def setFrozenRate (s : Ledger) (account : Address) (rate : ℕ) : Ledger :=
  { s with
    nonRebasingCreditsPerToken := Function.update s.nonRebasingCreditsPerToken account rate }

/-- Stores one allowance. -/
def setAllowance (s : Ledger) (owner spender : Address) (value : ℕ) : Ledger :=
  { s with
    allowances := Function.update s.allowances owner
      (Function.update (s.allowances owner) spender value) }

/-- Freezes the rate of an account that has none yet and moves its holding from
the rebasing to the non-rebasing tally. -/
def ensureRebasingMigration (s : Ledger) (account : Address) : Except Revert Ledger :=
  if s.nonRebasingCreditsPerToken account = 0 then do
    let s := s.setFrozenRate account s.rebasingCreditsPerToken
    let balance ← s.balanceOf account
    let nonRebasingSupply ← SafeMath.add s.nonRebasingSupply balance
    let rebasingCredits ←
      SafeMath.sub .rebasingCredits s.rebasingCredits (s.creditBalances account)
    return { s with nonRebasingSupply := nonRebasingSupply, rebasingCredits := rebasingCredits }
  else return s

/-- Whether an account uses non-rebasing accounting. A contract that has not
chosen yet is migrated first. -/
def isNonRebasingAccount (isContract : Address → Bool) (s : Ledger) (account : Address) :
    Except Revert (Ledger × Bool) := do
  let s ←
    (if isContract account ∧ s.rebaseState account = .notSet then s.ensureRebasingMigration account
    else pure s)
  return (s, decide (0 < s.nonRebasingCreditsPerToken account))

def executeTransfer (isContract : Address → Bool) (s : Ledger) (fromAcc toAcc : Address) (value : ℕ) :
    Except Revert Ledger := do
  let (s, isNonRebasingTo) ← s.isNonRebasingAccount isContract toAcc
  let (s, isNonRebasingFrom) ← s.isNonRebasingAccount isContract fromAcc
  let creditsCredited ← StableMath.mulTruncate value (s.creditsPerToken toAcc)
  let creditsDeducted ← StableMath.mulTruncate value (s.creditsPerToken fromAcc)
  let fromCredits ← SafeMath.subOr "Transfer amount exceeds balance"
    (s.creditBalances fromAcc) creditsDeducted
  let s := s.setCredits fromAcc fromCredits
  let toCredits ← SafeMath.add (s.creditBalances toAcc) creditsCredited
  let s := s.setCredits toAcc toCredits
  if isNonRebasingTo && !isNonRebasingFrom then do
    let nonRebasingSupply ← SafeMath.add s.nonRebasingSupply value
    let rebasingCredits ← SafeMath.sub .rebasingCredits s.rebasingCredits creditsDeducted
    return { s with nonRebasingSupply := nonRebasingSupply, rebasingCredits := rebasingCredits }
  else if !isNonRebasingTo && isNonRebasingFrom then do
    let nonRebasingSupply ← SafeMath.sub .nonRebasingSupply s.nonRebasingSupply value
    let rebasingCredits ← SafeMath.add s.rebasingCredits creditsCredited
    return { s with nonRebasingSupply := nonRebasingSupply, rebasingCredits := rebasingCredits }
  else return s

def transfer (msg : Msg) (s : Ledger) (toAcc : Address) (value : ℕ) : Except Revert Ledger := do
  require (toAcc ≠ 0) "Transfer to zero address"
  let balance ← s.balanceOf msg.sender
  require (value ≤ balance) "Transfer greater than balance"
  s.executeTransfer msg.isContract msg.sender toAcc value

def transferFrom (msg : Msg) (s : Ledger) (fromAcc toAcc : Address) (value : ℕ) :
    Except Revert Ledger := do
  require (toAcc ≠ 0) "Transfer to zero address"
  let balance ← s.balanceOf fromAcc
  require (value ≤ balance) "Transfer greater than balance"
  let allowed ← SafeMath.sub .allowances (s.allowances fromAcc msg.sender) value
  (s.setAllowance fromAcc msg.sender allowed).executeTransfer msg.isContract fromAcc toAcc value

def approve (msg : Msg) (s : Ledger) (spender : Address) (value : ℕ) : Except Revert Ledger :=
  return s.setAllowance msg.sender spender value

def increaseAllowance (msg : Msg) (s : Ledger) (spender : Address) (addedValue : ℕ) :
    Except Revert Ledger := do
  let value ← SafeMath.add (s.allowances msg.sender spender) addedValue
  return s.setAllowance msg.sender spender value

def decreaseAllowance (msg : Msg) (s : Ledger) (spender : Address) (subtractedValue : ℕ) :
    Except Revert Ledger :=
  let oldValue := s.allowances msg.sender spender
  if oldValue ≤ subtractedValue then return s.setAllowance msg.sender spender 0
  else do
    let value ← SafeMath.sub .allowances oldValue subtractedValue
    return s.setAllowance msg.sender spender value

/-- `_mint`. -/
def mintTo (isContract : Address → Bool) (s : Ledger) (account : Address) (amount : ℕ) :
    Except Revert Ledger := do
  require (account ≠ 0) "Mint to the zero address"
  let (s, isNonRebasing) ← s.isNonRebasingAccount isContract account
  let creditAmount ← StableMath.mulTruncate amount (s.creditsPerToken account)
  let credits ← SafeMath.add (s.creditBalances account) creditAmount
  let s := s.setCredits account credits
  let s ←
    (if isNonRebasing then do
      let nonRebasingSupply ← SafeMath.add s.nonRebasingSupply amount
      return { s with nonRebasingSupply := nonRebasingSupply }
    else do
      let rebasingCredits ← SafeMath.add s.rebasingCredits creditAmount
      return { s with rebasingCredits := rebasingCredits })
  let totalSupply ← SafeMath.add s.totalSupply amount
  let s := { s with totalSupply := totalSupply }
  require (s.totalSupply < maxSupply) "Max supply"
  return s

def mint (msg : Msg) (s : Ledger) (account : Address) (amount : ℕ) : Except Revert Ledger := do
  s.onlyVault msg
  s.mintTo msg.isContract account amount

/-- `x - 1` on a word, unchecked: it wraps around at zero. -/
def decrement (x : ℕ) : ℕ := if x = 0 then wordBound - 1 else x - 1

/-- The credits of an account after `creditAmount` are burned from it: a
remainder of one credit goes with them. -/
def burnCredits (currentCredits creditAmount : ℕ) : Except Revert ℕ :=
  if currentCredits = creditAmount ∨ decrement currentCredits = creditAmount then .ok 0
  else if creditAmount < currentCredits then .ok (currentCredits - creditAmount)
  else .error (.require "Remove exceeds balance")

/-- `_burn`. -/
def burnFrom (isContract : Address → Bool) (s : Ledger) (account : Address) (amount : ℕ) :
    Except Revert Ledger := do
  require (account ≠ 0) "Burn from the zero address"
  if amount = 0 then return s
  else do
    let (s, isNonRebasing) ← s.isNonRebasingAccount isContract account
    let creditAmount ← StableMath.mulTruncate amount (s.creditsPerToken account)
    let credits ← burnCredits (s.creditBalances account) creditAmount
    let s := s.setCredits account credits
    let s ←
      (if isNonRebasing then do
        let nonRebasingSupply ← SafeMath.sub .nonRebasingSupply s.nonRebasingSupply amount
        return { s with nonRebasingSupply := nonRebasingSupply }
      else do
        let rebasingCredits ← SafeMath.sub .rebasingCredits s.rebasingCredits creditAmount
        return { s with rebasingCredits := rebasingCredits })
    let totalSupply ← SafeMath.sub .totalSupply s.totalSupply amount
    return { s with totalSupply := totalSupply }

def burn (msg : Msg) (s : Ledger) (account : Address) (amount : ℕ) : Except Revert Ledger := do
  s.onlyVault msg
  s.burnFrom msg.isContract account amount

def rebaseOptIn (msg : Msg) (s : Ledger) : Except Revert Ledger := do
  let (s, isNonRebasing) ← s.isNonRebasingAccount msg.isContract msg.sender
  require (isNonRebasing = true) "Account has not opted out"
  let product ← SafeMath.mul (s.creditBalances msg.sender) s.rebasingCreditsPerToken
  let newCreditBalance ← SafeMath.div product (s.creditsPerToken msg.sender)
  let balance ← s.balanceOf msg.sender
  let nonRebasingSupply ← SafeMath.sub .nonRebasingSupply s.nonRebasingSupply balance
  let s := { s with nonRebasingSupply := nonRebasingSupply }.setCredits msg.sender newCreditBalance
  let rebasingCredits ← SafeMath.add s.rebasingCredits (s.creditBalances msg.sender)
  return { s with
    rebasingCredits := rebasingCredits
    rebaseState := Function.update s.rebaseState msg.sender .optIn }.setFrozenRate msg.sender 0

def rebaseOptOut (msg : Msg) (s : Ledger) : Except Revert Ledger := do
  let (s, isNonRebasing) ← s.isNonRebasingAccount msg.isContract msg.sender
  require (isNonRebasing = false) "Account has not opted in"
  let balance ← s.balanceOf msg.sender
  let nonRebasingSupply ← SafeMath.add s.nonRebasingSupply balance
  let s := { s with nonRebasingSupply := nonRebasingSupply }.setFrozenRate
    msg.sender s.rebasingCreditsPerToken
  let rebasingCredits ←
    SafeMath.sub .rebasingCredits s.rebasingCredits (s.creditBalances msg.sender)
  return { s with
    rebasingCredits := rebasingCredits
    rebaseState := Function.update s.rebaseState msg.sender .optOut }

def changeSupply (msg : Msg) (s : Ledger) (newTotalSupply : ℕ) : Except Revert Ledger := do
  s.onlyVault msg
  require (0 < s.totalSupply) "Cannot increase 0 supply"
  if s.totalSupply = newTotalSupply then return s
  else do
    let totalSupply := if newTotalSupply > maxSupply then maxSupply else newTotalSupply
    let rebasingSupply ← SafeMath.sub .totalSupply totalSupply s.nonRebasingSupply
    let rebasingCreditsPerToken ← StableMath.divPrecisely s.rebasingCredits rebasingSupply
    require (0 < rebasingCreditsPerToken) "Invalid change in supply"
    let rebasingTokens ← StableMath.divPrecisely s.rebasingCredits rebasingCreditsPerToken
    let totalSupply ← SafeMath.add rebasingTokens s.nonRebasingSupply
    return { s with
      totalSupply := totalSupply
      rebasingCreditsPerToken := rebasingCreditsPerToken }

/-- The external functions that change the ledger. -/
inductive Call
  | transfer (toAcc : Address) (value : ℕ)
  | transferFrom (fromAcc toAcc : Address) (value : ℕ)
  | approve (spender : Address) (value : ℕ)
  | increaseAllowance (spender : Address) (addedValue : ℕ)
  | decreaseAllowance (spender : Address) (subtractedValue : ℕ)
  | mint (account : Address) (amount : ℕ)
  | burn (account : Address) (amount : ℕ)
  | rebaseOptIn
  | rebaseOptOut
  | changeSupply (newTotalSupply : ℕ)
  deriving DecidableEq

/-- One external call. -/
def exec (s : Ledger) (call : Msg × Call) : Except Revert Ledger :=
  match call.2 with
  | .transfer toAcc value => s.transfer call.1 toAcc value
  | .transferFrom fromAcc toAcc value => s.transferFrom call.1 fromAcc toAcc value
  | .approve spender value => s.approve call.1 spender value
  | .increaseAllowance spender addedValue => s.increaseAllowance call.1 spender addedValue
  | .decreaseAllowance spender subtractedValue =>
      s.decreaseAllowance call.1 spender subtractedValue
  | .mint account amount => s.mint call.1 account amount
  | .burn account amount => s.burn call.1 account amount
  | .rebaseOptIn => s.rebaseOptIn call.1
  | .rebaseOptOut => s.rebaseOptOut call.1
  | .changeSupply newTotalSupply => s.changeSupply call.1 newTotalSupply

end Ledger

end InterestDollar
