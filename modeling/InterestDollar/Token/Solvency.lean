import InterestDollar.Token.Conservation

/-!
# Solvency of the ledger

The balances of all accounts against the total supply, and the balances of the
frozen accounts against `nonRebasingSupply`. Crediting an amount raises the
recipient's balance by at most the amount, but debiting one need not lower the
sender's by as much: the credits taken are rounded down. A debit is in full when
the balance does fall by the whole amount. Runs whose debits are all in full keep
the ledger solvent; one debit that is not breaks it.
-/

namespace InterestDollar

open Checked FixedPoint Totals Transition

namespace Ledger

/-- The balances of all accounts. -/
def held (s : Ledger) : ℕ := ∑ a, s.balance a

/-- What an account puts into the tokens of the frozen accounts. -/
def frozenPart (s : Ledger) (a : Address) : ℕ := if s.Frozen a then s.balance a else 0

/-- The balances of the frozen accounts. -/
def frozenHeld (s : Ledger) : ℕ := ∑ a, s.frozenPart a

theorem frozenPart_of_frozen {s : Ledger} {a : Address} (h : s.Frozen a) :
    s.frozenPart a = s.balance a := if_pos h

theorem frozenPart_of_not_frozen {s : Ledger} {a : Address} (h : ¬ s.Frozen a) :
    s.frozenPart a = 0 := if_neg h

theorem frozenPart_le_held (s : Ledger) (a : Address) : s.frozenPart a ≤ s.frozenHeld :=
  Finset.single_le_sum (fun x _ => Nat.zero_le (s.frozenPart x)) (Finset.mem_univ a)

theorem add_balance_le_held (s : Ledger) {a b : Address} (h : a ≠ b) :
    s.balance a + s.balance b ≤ s.held := by
  rw [← Finset.sum_pair h]
  exact Finset.sum_le_sum_of_subset (Finset.subset_univ _)

theorem SameOff.held_add {a : Address} {s s' : Ledger} (h : SameOff a s s') :
    s'.held + s.balance a = s.held + s'.balance a :=
  sum_add_eq_of_eq_off fun _ hx => h.balance_eq hx

theorem SameOff.frozenHeld_add {a : Address} {s s' : Ledger} (h : SameOff a s s') :
    s'.frozenHeld + s.frozenPart a = s.frozenHeld + s'.frozenPart a := by
  refine sum_add_eq_of_eq_off fun x hx => ?_
  have hfrozen : s'.Frozen x ↔ s.Frozen x := by simp only [Frozen, h.frozenRate x hx]
  simp only [frozenPart, hfrozen, h.balance_eq hx]

/-- A balance is the worth of the account's rebasing credits or its frozen
tokens. -/
theorem balance_eq_parts (s : Ledger) (a : Address) :
    s.balance a =
      worth fullScale s.rebasingCreditsPerToken (s.rebasingPart a) + s.frozenPart a := by
  by_cases ha : s.Frozen a
  · rw [rebasingPart_of_frozen ha, frozenPart_of_frozen ha, worth_zero, Nat.zero_add]
  · rw [rebasingPart_of_not_frozen ha, frozenPart_of_not_frozen ha, balance,
      creditsPerToken_of_not_frozen ha, Nat.add_zero]

theorem held_le (s : Ledger) :
    s.held ≤ worth fullScale s.rebasingCreditsPerToken s.rebasingHeld + s.frozenHeld := by
  calc s.held
      = ∑ a, (worth fullScale s.rebasingCreditsPerToken (s.rebasingPart a) + s.frozenPart a) :=
        Finset.sum_congr rfl fun a _ => s.balance_eq_parts a
    _ = (∑ a, worth fullScale s.rebasingCreditsPerToken (s.rebasingPart a)) + s.frozenHeld :=
        Finset.sum_add_distrib
    _ ≤ worth fullScale s.rebasingCreditsPerToken s.rebasingHeld + s.frozenHeld :=
        Nat.add_le_add_right (sum_worth_le _ _) _

/-! ## What a move does to the balance of its account -/

/-- Debiting an amount from an account takes all of it. -/
def DebitsInFull (s : Ledger) (a : Address) (v : ℕ) : Prop :=
  TakesInFull fullScale (s.creditsPerToken a) (s.creditBalances a) v

instance (s : Ledger) (a : Address) (v : ℕ) : Decidable (s.DebitsInFull a v) :=
  inferInstanceAs (Decidable (TakesInFull _ _ _ _))

/-- Burning an amount from an account takes all of it: either the debit does, or
the last credit goes with it. -/
def BurnsInFull (s : Ledger) (a : Address) (v : ℕ) : Prop :=
  s.creditBalances a = s.creditsFor a v + 1 ∨ s.DebitsInFull a v

instance (s : Ledger) (a : Address) (v : ℕ) : Decidable (s.BurnsInFull a v) :=
  inferInstanceAs (Decidable (_ ∨ _))

section Balances

variable {s : Ledger} {a : Address} {v : ℕ}

theorem credit_balance_le (hrate : 0 < s.rebasingCreditsPerToken) :
    (s.credit a v).balance a ≤ s.balance a + v := by
  rw [balance, credit_creditsPerToken, credit_creditBalances_self]
  exact worth_add_shares_le (creditsPerToken_pos hrate a) _ _

theorem debit_balance (hfull : s.DebitsInFull a v)
    (henough : s.creditsFor a v ≤ s.creditBalances a) :
    (s.debit a v).balance a + v = s.balance a := by
  rw [balance, debit_creditsPerToken, debit_creditBalances_self]
  exact TakesInFull.worth_sub hfull henough

/-- A debit is in full exactly when the balance falls by the amount. -/
theorem debitsInFull_iff (hrate : 0 < s.rebasingCreditsPerToken)
    (henough : s.creditsFor a v ≤ s.creditBalances a) :
    s.DebitsInFull a v ↔ (s.debit a v).balance a + v = s.balance a := by
  rw [balance, debit_creditsPerToken, debit_creditBalances_self]
  exact takesInFull_iff (creditsPerToken_pos hrate a) henough

theorem dropDust_sameOff : SameOff a s (s.dropDust a) := by
  unfold dropDust
  split_ifs
  · exact setCredits_sameOff
  · exact ⟨rfl, fun _ _ => rfl, fun _ _ => rfl⟩

@[simp] theorem dropDust_frozen {x : Address} : (s.dropDust a).Frozen x ↔ s.Frozen x := by
  unfold dropDust
  split_ifs
  · exact Iff.rfl
  · exact Iff.rfl

theorem dropDust_balance_le : (s.dropDust a).balance a ≤ s.balance a := by
  unfold dropDust
  split_ifs with hone
  · have hzero : (s.setCredits a 0).balance a = 0 := by
      rw [balance, setCredits_creditBalances_self, worth_zero]
    rw [hzero]
    exact Nat.zero_le _
  · exact le_rfl

theorem burn_balance_le (hrate : 0 < s.rebasingCreditsPerToken) (hfull : s.BurnsInFull a v)
    (henough : s.creditsFor a v ≤ s.creditBalances a) :
    ((s.debit a v).dropDust a).balance a + v ≤ s.balance a := by
  rcases hfull with hdust | hfull
  · have hone : (s.debit a v).creditBalances a = 1 := by
      rw [debit_creditBalances_self]
      omega
    have hdrop : (s.debit a v).dropDust a = (s.debit a v).setCredits a 0 := if_pos hone
    have hle := le_worth_shares_succ fullScale_pos (creditsPerToken_pos hrate a) v
    rw [hdrop, balance, setCredits_creditBalances_self, worth_zero, Nat.zero_add, balance, hdust]
    exact hle
  · rw [← debit_balance hfull henough]
    exact Nat.add_le_add_right dropDust_balance_le v

theorem optIn_balance_le (hrate : 0 < s.rebasingCreditsPerToken) :
    (s.optIn a).balance a ≤ s.balance a := by
  have hself : (s.optIn a).creditBalances a = s.convertedCredits a := Function.update_self _ _ _
  rw [balance, creditsPerToken_of_not_frozen optIn_not_frozen, hself]
  exact worth_convert_le (creditsPerToken_pos hrate a) hrate _

/-- Crediting and debiting one account the same amount changes nothing. -/
theorem credit_debit_self : (s.credit a v).debit a v = s := by
  have hsame : (s.credit a v).creditsFor a v = s.creditsFor a v := rfl
  by_cases ha : s.Frozen a
  · rw [debit_of_frozen (credit_frozen.mpr ha), hsame, credit_creditBalances_self,
      credit_of_frozen ha]
    simp
  · rw [debit_of_not_frozen (mt credit_frozen.mp ha), hsame, credit_creditBalances_self,
      credit_of_not_frozen ha]
    simp

/-- Crediting another account leaves a debit as it was. -/
theorem DebitsInFull.credit {toAcc : Address} (hne : a ≠ toAcc) (h : s.DebitsInFull a v) :
    (s.credit toAcc v).DebitsInFull a v := by
  have hcredits := (credit_sameOff (s := s) (a := toAcc) (v := v)).credits a hne
  unfold DebitsInFull
  rw [hcredits, credit_creditsPerToken]
  exact h

end Balances

/-! ## The frozen accounts -/

/-- The tally of the frozen accounts' tokens covers their balances. -/
def FrozenCovered (s : Ledger) : Prop := s.frozenHeld ≤ s.nonRebasingSupply

namespace FrozenCovered

variable {s : Ledger} {a : Address} {v : ℕ}

theorem freeze (h : s.FrozenCovered) (hrate : 0 < s.rebasingCreditsPerToken)
    (ha : ¬ s.Frozen a) : (s.freeze a).FrozenCovered := by
  have hsum := (freeze_sameOff (s := s) (a := a)).frozenHeld_add
  have htally : (s.freeze a).nonRebasingSupply = s.nonRebasingSupply + s.balance a := rfl
  rw [frozenPart_of_not_frozen ha, frozenPart_of_frozen (freeze_frozen hrate),
    freeze_balance ha] at hsum
  unfold FrozenCovered at *
  omega

theorem migrate (h : s.FrozenCovered) (hrate : 0 < s.rebasingCreditsPerToken)
    (isContract : Address → Bool) (a : Address) : (s.migrate isContract a).FrozenCovered := by
  unfold Ledger.migrate
  split_ifs with hm
  · exact h.freeze hrate hm.2.2
  · exact h

theorem settle (h : s.FrozenCovered) (hrate : 0 < s.rebasingCreditsPerToken)
    (isContract : Address → Bool) (fromAcc toAcc : Address) :
    (s.settle isContract fromAcc toAcc).FrozenCovered := by
  have hrate' : 0 < (s.migrate isContract toAcc).rebasingCreditsPerToken := by rwa [migrate_rate]
  exact (h.migrate hrate isContract toAcc).migrate hrate' isContract fromAcc

theorem credit (h : s.FrozenCovered) (hrate : 0 < s.rebasingCreditsPerToken) :
    (s.credit a v).FrozenCovered := by
  have hsum := (credit_sameOff (s := s) (a := a) (v := v)).frozenHeld_add
  by_cases ha : s.Frozen a
  · have htally : (s.credit a v).nonRebasingSupply = s.nonRebasingSupply + v := if_pos ha
    have hle : (s.credit a v).balance a ≤ s.balance a + v := credit_balance_le hrate
    rw [frozenPart_of_frozen ha, frozenPart_of_frozen (credit_frozen.mpr ha)] at hsum
    unfold FrozenCovered at *
    omega
  · have htally : (s.credit a v).nonRebasingSupply = s.nonRebasingSupply := if_neg ha
    rw [frozenPart_of_not_frozen ha, frozenPart_of_not_frozen (mt credit_frozen.mp ha)] at hsum
    unfold FrozenCovered at *
    omega

theorem debit (h : s.FrozenCovered) (hfull : s.Frozen a → s.DebitsInFull a v)
    (henough : s.creditsFor a v ≤ s.creditBalances a) : (s.debit a v).FrozenCovered := by
  have hsum := (debit_sameOff (s := s) (a := a) (v := v)).frozenHeld_add
  by_cases ha : s.Frozen a
  · have htally : (s.debit a v).nonRebasingSupply = s.nonRebasingSupply - v := if_pos ha
    have heq := debit_balance (hfull ha) henough
    rw [frozenPart_of_frozen ha, frozenPart_of_frozen (debit_frozen.mpr ha)] at hsum
    unfold FrozenCovered at *
    omega
  · have htally : (s.debit a v).nonRebasingSupply = s.nonRebasingSupply := if_neg ha
    rw [frozenPart_of_not_frozen ha, frozenPart_of_not_frozen (mt debit_frozen.mp ha)] at hsum
    unfold FrozenCovered at *
    omega

theorem burn (h : s.FrozenCovered) (hrate : 0 < s.rebasingCreditsPerToken)
    (hfull : s.Frozen a → s.BurnsInFull a v)
    (henough : s.creditsFor a v ≤ s.creditBalances a) :
    ((s.debit a v).dropDust a).FrozenCovered := by
  have hdebit := (debit_sameOff (s := s) (a := a) (v := v)).frozenHeld_add
  have hdrop := (dropDust_sameOff (s := s.debit a v) (a := a)).frozenHeld_add
  have htally := dropDust_nonRebasingSupply (s := s.debit a v) (a := a)
  by_cases ha : s.Frozen a
  · have hdebited : (s.debit a v).nonRebasingSupply = s.nonRebasingSupply - v := if_pos ha
    have hle := burn_balance_le hrate (hfull ha) henough
    rw [frozenPart_of_frozen ha, frozenPart_of_frozen (debit_frozen.mpr ha)] at hdebit
    rw [frozenPart_of_frozen (dropDust_frozen.mpr (debit_frozen.mpr ha)),
      frozenPart_of_frozen (debit_frozen.mpr ha)] at hdrop
    unfold FrozenCovered at *
    omega
  · have hdebited : (s.debit a v).nonRebasingSupply = s.nonRebasingSupply := if_neg ha
    have hnot : ¬ (s.debit a v).Frozen a := mt debit_frozen.mp ha
    rw [frozenPart_of_not_frozen ha, frozenPart_of_not_frozen hnot] at hdebit
    rw [frozenPart_of_not_frozen (mt dropDust_frozen.mp hnot),
      frozenPart_of_not_frozen hnot] at hdrop
    unfold FrozenCovered at *
    omega

theorem optIn (h : s.FrozenCovered) (ha : s.Frozen a) : (s.optIn a).FrozenCovered := by
  have hsum := (optIn_sameOff (s := s) (a := a)).frozenHeld_add
  have htally : (s.optIn a).nonRebasingSupply = s.nonRebasingSupply - s.balance a := rfl
  rw [frozenPart_of_frozen ha, frozenPart_of_not_frozen optIn_not_frozen] at hsum
  unfold FrozenCovered at *
  omega

theorem setRate {rate : ℕ} (h : s.FrozenCovered) : (s.setRate rate).FrozenCovered := by
  have hsame : (s.setRate rate).frozenHeld = s.frozenHeld := by
    refine Finset.sum_congr rfl fun a _ => ?_
    by_cases ha : s.Frozen a
    · rw [frozenPart_of_frozen ha, frozenPart_of_frozen (setRate_frozen.mpr ha), balance, balance,
        creditsPerToken_of_frozen ha, creditsPerToken_of_frozen (setRate_frozen.mpr ha)]
      rfl
    · rw [frozenPart_of_not_frozen ha, frozenPart_of_not_frozen (mt setRate_frozen.mp ha)]
  unfold FrozenCovered at *
  rw [hsame]
  exact h

end FrozenCovered

/-- The debit of a call from a frozen account is in full: the sender's in a
transfer to another account, the holder's in a burn. -/
def FrozenDebitsInFull (s : Ledger) (call : Msg × Call) : Prop :=
  let (msg, call) := call
  match call with
  | .transfer toAcc v =>
      msg.sender ≠ toAcc → s.NonRebasing msg.isContract msg.sender → s.DebitsInFull msg.sender v
  | .transferFrom fromAcc toAcc v =>
      fromAcc ≠ toAcc → s.NonRebasing msg.isContract fromAcc → s.DebitsInFull fromAcc v
  | .burn a v => s.NonRebasing msg.isContract a → s.BurnsInFull a v
  | _ => True

instance (s : Ledger) (call : Msg × Call) : Decidable (s.FrozenDebitsInFull call) := by
  obtain ⟨msg, call⟩ := call
  cases call <;> unfold FrozenDebitsInFull <;> infer_instance

/-- Whether the sender is frozen after a transfer's migrations does not depend on
the recipient's. -/
theorem settle_frozen_from {s : Ledger} {isContract : Address → Bool} {fromAcc toAcc : Address}
    (hrate : 0 < s.rebasingCreditsPerToken) (hne : fromAcc ≠ toAcc) :
    (s.settle isContract fromAcc toAcc).Frozen fromAcc ↔ s.NonRebasing isContract fromAcc := by
  have hrate' : 0 < (s.migrate isContract toAcc).rebasingCreditsPerToken := by rwa [migrate_rate]
  rw [settle, migrate_frozen hrate', migrate_nonRebasing_of_ne hne]

/-- A migration changes neither side of a debit. -/
theorem DebitsInFull.migrate {s : Ledger} {isContract : Address → Bool} {a b : Address} {v : ℕ}
    (h : s.DebitsInFull a v) : (s.migrate isContract b).DebitsInFull a v := by
  rw [DebitsInFull, migrate_creditsPerToken, migrate_creditBalances]
  exact h

theorem FrozenCovered.executeTransfer {s s' : Ledger} {isContract : Address → Bool}
    {fromAcc toAcc : Address} {v : ℕ} (h : s.FrozenCovered)
    (hrate : 0 < s.rebasingCreditsPerToken)
    (hfull : fromAcc ≠ toAcc → s.NonRebasing isContract fromAcc → s.DebitsInFull fromAcc v)
    (hs : s.executeTransfer isContract fromAcc toAcc v = .ok s') : s'.FrozenCovered := by
  obtain ⟨-, -, hfits, rfl⟩ := (executeTransfer_eq_ok hrate).mp hs
  have hm := h.settle hrate isContract fromAcc toAcc
  have hrate' : 0 < (s.settle isContract fromAcc toAcc).rebasingCreditsPerToken := by
    simpa only [settle_rate] using hrate
  by_cases hne : fromAcc = toAcc
  · subst hne
    rw [credit_debit_self]
    exact hm
  · refine (hm.credit hrate').debit (fun hf => ?_) (Conserved.creditsFor_le_credit hfits.enough)
    have hdebit := hfull hne ((settle_frozen_from hrate hne).mp (credit_frozen.mp hf))
    exact hdebit.migrate.migrate.credit hne

theorem BurnsInFull.migrate {s : Ledger} {isContract : Address → Bool} {a : Address} {v : ℕ}
    (h : s.BurnsInFull a v) : (s.migrate isContract a).BurnsInFull a v := by
  rcases h with hdust | hfull
  · refine .inl ?_
    rw [creditsFor, migrate_creditsPerToken, migrate_creditBalances]
    exact hdust
  · exact .inr hfull.migrate

/-- One call whose debits from frozen accounts are in full keeps their tokens
covered. -/
theorem FrozenCovered.exec {s s' : Ledger} {call : Msg × Call} (h : s.FrozenCovered)
    (hrate : 0 < s.rebasingCreditsPerToken) (hfull : s.FrozenDebitsInFull call)
    (hs : s.exec call = .ok s') : s'.FrozenCovered := by
  obtain ⟨msg, call⟩ := call
  have hpos : ∀ a, 0 < (s.migrate msg.isContract a).rebasingCreditsPerToken := fun a => by
    rwa [migrate_rate]
  cases call with
  | transfer toAcc v =>
      obtain ⟨-, -, -, hmove⟩ := transfer_eq_ok.mp hs
      exact h.executeTransfer hrate hfull hmove
  | transferFrom fromAcc toAcc v =>
      obtain ⟨-, -, -, -, hmove⟩ := transferFrom_eq_ok.mp hs
      exact FrozenCovered.executeTransfer
        (s := s.setAllowance fromAcc msg.sender (s.allowances fromAcc msg.sender - v))
        h hrate hfull hmove
  | approve spender value =>
      obtain rfl := approve_eq_ok.mp hs
      exact h
  | increaseAllowance spender addedValue =>
      obtain ⟨-, rfl⟩ := increaseAllowance_eq_ok.mp hs
      exact h
  | decreaseAllowance spender subtractedValue =>
      obtain rfl := decreaseAllowance_eq_ok.mp hs
      exact h
  | mint a v =>
      obtain ⟨-, hmint⟩ := mint_eq_ok.mp hs
      obtain ⟨-, -, -, rfl⟩ := mintTo_eq_ok.mp hmint
      exact (h.migrate hrate msg.isContract a).credit (hpos a)
  | burn a v =>
      obtain ⟨-, hburn⟩ := burn_eq_ok.mp hs
      obtain ⟨-, ⟨-, rfl⟩ | ⟨-, -, hfits, rfl⟩⟩ := burnFrom_eq_ok.mp hburn
      · exact h
      · exact (h.migrate hrate msg.isContract a).burn (hpos a)
          (fun hf => (hfull ((migrate_frozen hrate).mp hf)).migrate) hfits.enough
  | rebaseOptIn =>
      obtain ⟨-, hfits, rfl⟩ := rebaseOptIn_eq_ok.mp hs
      exact (h.migrate hrate msg.isContract msg.sender).optIn hfits.frozen
  | rebaseOptOut =>
      obtain ⟨-, hfits, rfl⟩ := rebaseOptOut_eq_ok.mp hs
      exact (h.migrate hrate msg.isContract msg.sender).freeze (hpos _) hfits.notFrozen
  | changeSupply newTotalSupply =>
      obtain ⟨-, -, ⟨-, rfl⟩ | ⟨-, -, rfl⟩⟩ := changeSupply_eq_ok.mp hs
      · exact h
      · exact h.setRate

/-! ## All accounts -/

section Held

variable {s : Ledger} {isContract : Address → Bool} {a fromAcc toAcc : Address} {v : ℕ}

theorem migrate_held : (s.migrate isContract a).held = s.held :=
  Finset.sum_congr rfl fun x _ => congrFun migrate_balance x

theorem settle_held : (s.settle isContract fromAcc toAcc).held = s.held :=
  migrate_held.trans migrate_held

theorem credit_held_le (hrate : 0 < s.rebasingCreditsPerToken) :
    (s.credit a v).held ≤ s.held + v := by
  have hsum := (credit_sameOff (s := s) (a := a) (v := v)).held_add
  have hle : (s.credit a v).balance a ≤ s.balance a + v := credit_balance_le hrate
  omega

theorem debit_held (hfull : s.DebitsInFull a v)
    (henough : s.creditsFor a v ≤ s.creditBalances a) : (s.debit a v).held + v = s.held := by
  have hsum := (debit_sameOff (s := s) (a := a) (v := v)).held_add
  have heq := debit_balance hfull henough
  omega

theorem burn_held_le (hrate : 0 < s.rebasingCreditsPerToken) (hfull : s.BurnsInFull a v)
    (henough : s.creditsFor a v ≤ s.creditBalances a) :
    ((s.debit a v).dropDust a).held + v ≤ s.held := by
  have hdebit := (debit_sameOff (s := s) (a := a) (v := v)).held_add
  have hdrop := (dropDust_sameOff (s := s.debit a v) (a := a)).held_add
  have hle := burn_balance_le hrate hfull henough
  omega

theorem optIn_held_le (hrate : 0 < s.rebasingCreditsPerToken) : (s.optIn a).held ≤ s.held := by
  have hsum := (optIn_sameOff (s := s) (a := a)).held_add
  have hle : (s.optIn a).balance a ≤ s.balance a := optIn_balance_le hrate
  omega

/-- All accounts hold at most what the two tallies stand for, where these cover the credits and
the frozen balances. -/
theorem FrozenCovered.held_le_tallies (hfrozen : s.FrozenCovered)
    (hcredits : s.rebasingHeld ≤ s.rebasingCredits) :
    s.held ≤ worth fullScale s.rebasingCreditsPerToken s.rebasingCredits + s.nonRebasingSupply :=
  (held_le s).trans (Nat.add_le_add (worth_mono hcredits) hfrozen)

/-- A rebase sets the supply to what all accounts hold at the new rate, or more. -/
theorem setRate_held_le {n rate : ℕ} (h : Conserved n s) (hfrozen : s.FrozenCovered) :
    (s.setRate rate).held ≤ (s.setRate rate).totalSupply := by
  have hcredits : (s.setRate rate).rebasingHeld ≤ (s.setRate rate).rebasingCredits := by
    have hsame : (s.setRate rate).rebasingHeld = s.rebasingHeld := rfl
    have htally : (s.setRate rate).rebasingCredits = s.rebasingHeld + n := h.credits
    omega
  have hcovered : (s.setRate rate).FrozenCovered := hfrozen.setRate
  exact hcovered.held_le_tallies hcredits

end Held

/-- The debit of a call is in full: the sender's in a transfer to another
account, the holder's in a burn. -/
def TakenInFull (s : Ledger) (call : Msg × Call) : Prop :=
  let (msg, call) := call
  match call with
  | .transfer toAcc v => msg.sender ≠ toAcc → s.DebitsInFull msg.sender v
  | .transferFrom fromAcc toAcc v => fromAcc ≠ toAcc → s.DebitsInFull fromAcc v
  | .burn a v => s.BurnsInFull a v
  | _ => True

instance (s : Ledger) (call : Msg × Call) : Decidable (s.TakenInFull call) := by
  obtain ⟨msg, call⟩ := call
  cases call <;> unfold TakenInFull <;> infer_instance

theorem TakenInFull.frozen {s : Ledger} {call : Msg × Call} (h : s.TakenInFull call) :
    s.FrozenDebitsInFull call := by
  obtain ⟨msg, call⟩ := call
  cases call with
  | transfer toAcc v => exact fun hne _ => h hne
  | transferFrom fromAcc toAcc v => exact fun hne _ => h hne
  | burn a v => exact fun _ => h
  | _ => trivial

/-- The balances of all accounts add up to at most the total supply. -/
def Solvent (s : Ledger) : Prop := s.held ≤ s.totalSupply

theorem solvent_addSupply {s : Ledger} {v : ℕ} (h : s.held ≤ s.totalSupply + v) :
    (s.addSupply v).Solvent := h

theorem solvent_subSupply {s : Ledger} {v : ℕ} (h : s.held + v ≤ s.totalSupply) :
    (s.subSupply v).Solvent := Nat.le_sub_of_add_le h

theorem Solvent.executeTransfer {s s' : Ledger} {isContract : Address → Bool}
    {fromAcc toAcc : Address} {v : ℕ} (h : s.Solvent) (hrate : 0 < s.rebasingCreditsPerToken)
    (hfull : fromAcc ≠ toAcc → s.DebitsInFull fromAcc v)
    (hs : s.executeTransfer isContract fromAcc toAcc v = .ok s') : s'.Solvent := by
  obtain ⟨-, -, hfits, rfl⟩ := (executeTransfer_eq_ok hrate).mp hs
  have hheld : (s.settle isContract fromAcc toAcc).held = s.held := settle_held
  have hsupply : (s.settle isContract fromAcc toAcc).totalSupply = s.totalSupply :=
    settle_totalSupply
  have hrate' : 0 < (s.settle isContract fromAcc toAcc).rebasingCreditsPerToken := by
    simpa only [settle_rate] using hrate
  by_cases hne : fromAcc = toAcc
  · subst hne
    rw [credit_debit_self]
    unfold Solvent at *
    omega
  · have hsettled : (s.settle isContract fromAcc toAcc).DebitsInFull fromAcc v :=
      (hfull hne).migrate.migrate
    have hcredit : ((s.settle isContract fromAcc toAcc).credit toAcc v).held ≤ _ :=
      credit_held_le hrate'
    have hdebit := debit_held (hsettled.credit hne) (Conserved.creditsFor_le_credit hfits.enough)
    unfold Solvent at *
    rw [debit_totalSupply, credit_totalSupply, hsupply]
    omega

/-- One call that takes what it debits in full keeps the ledger solvent. -/
theorem Solvent.exec {n : ℕ} {s s' : Ledger} {call : Msg × Call} (h : s.Solvent)
    (hc : Conserved n s) (hf : s.FrozenCovered) (hfull : s.TakenInFull call)
    (hs : s.exec call = .ok s') : s'.Solvent := by
  obtain ⟨msg, call⟩ := call
  have hpos : ∀ a, 0 < (s.migrate msg.isContract a).rebasingCreditsPerToken := fun a => by
    rw [migrate_rate]
    exact hc.rate_pos
  have hheld : ∀ a, (s.migrate msg.isContract a).held = s.held := fun _ => migrate_held
  have hsupply : ∀ a, (s.migrate msg.isContract a).totalSupply = s.totalSupply :=
    fun _ => migrate_totalSupply
  cases call with
  | transfer toAcc v =>
      obtain ⟨-, -, -, hmove⟩ := transfer_eq_ok.mp hs
      exact h.executeTransfer hc.rate_pos hfull hmove
  | transferFrom fromAcc toAcc v =>
      obtain ⟨-, -, -, -, hmove⟩ := transferFrom_eq_ok.mp hs
      exact Solvent.executeTransfer
        (s := s.setAllowance fromAcc msg.sender (s.allowances fromAcc msg.sender - v))
        h hc.rate_pos hfull hmove
  | approve spender value =>
      obtain rfl := approve_eq_ok.mp hs
      exact h
  | increaseAllowance spender addedValue =>
      obtain ⟨-, rfl⟩ := increaseAllowance_eq_ok.mp hs
      exact h
  | decreaseAllowance spender subtractedValue =>
      obtain rfl := decreaseAllowance_eq_ok.mp hs
      exact h
  | mint a v =>
      obtain ⟨-, hmint⟩ := mint_eq_ok.mp hs
      obtain ⟨-, -, -, rfl⟩ := mintTo_eq_ok.mp hmint
      have hle : ((s.migrate msg.isContract a).credit a v).held ≤ _ := credit_held_le (hpos a)
      refine solvent_addSupply ?_
      rw [credit_totalSupply, hsupply]
      rw [hheld] at hle
      exact hle.trans (Nat.add_le_add_right h v)
  | burn a v =>
      obtain ⟨-, hburn⟩ := burn_eq_ok.mp hs
      obtain ⟨-, ⟨-, rfl⟩ | ⟨-, -, hfits, rfl⟩⟩ := burnFrom_eq_ok.mp hburn
      · exact h
      · have hfull' : (s.migrate msg.isContract a).BurnsInFull a v := BurnsInFull.migrate hfull
        have hle := burn_held_le (hpos a) hfull' hfits.enough
        refine solvent_subSupply ?_
        rw [dropDust_totalSupply, debit_totalSupply, hsupply]
        exact (hle.trans (hheld a).le).trans h
  | rebaseOptIn =>
      obtain ⟨-, hfits, rfl⟩ := rebaseOptIn_eq_ok.mp hs
      have hle : ((s.migrate msg.isContract msg.sender).optIn msg.sender).held ≤ _ :=
        optIn_held_le (hpos _)
      rw [hheld] at hle
      have hgoal := hle.trans h
      rw [← hsupply msg.sender] at hgoal
      exact hgoal
  | rebaseOptOut =>
      obtain ⟨-, hfits, rfl⟩ := rebaseOptOut_eq_ok.mp hs
      have hsame : ((s.migrate msg.isContract msg.sender).optOut msg.sender).held =
          (s.migrate msg.isContract msg.sender).held :=
        Finset.sum_congr rfl fun x _ => congrFun (freeze_balance hfits.notFrozen) x
      have hgoal := (hsame.trans (hheld _)).le.trans h
      rw [← hsupply msg.sender] at hgoal
      exact hgoal
  | changeSupply newTotalSupply =>
      obtain ⟨-, -, ⟨-, rfl⟩ | ⟨-, hfits, rfl⟩⟩ := changeSupply_eq_ok.mp hs
      · exact h
      · exact setRate_held_le hc hf

/-- In every state of a run whose debits from frozen accounts are all in full,
the frozen accounts are covered. -/
theorem Reached.frozenCovered {vaultAddress : Address} {trace : List (Ledger × (Msg × Call))}
    {s : Ledger} (h : Reached vaultAddress trace s)
    (hfull : ∀ e ∈ trace, e.1.FrozenDebitsInFull e.2) : s.FrozenCovered := by
  have h0 : (initialized vaultAddress).FrozenCovered := by
    have hzero : (initialized vaultAddress).frozenHeld = 0 :=
      Finset.sum_eq_zero fun a _ => frozenPart_of_not_frozen (not_not.mpr rfl)
    unfold FrozenCovered
    omega
  have hboth := Run.invariant_of_forall FrozenDebitsInFull
    (fun s => (∃ n, Conserved n s) ∧ s.FrozenCovered)
    ⟨⟨0, conserved_initialized vaultAddress⟩, h0⟩
    (fun s call s' hi hc hs => by
      obtain ⟨⟨n, hn⟩, hf⟩ := hi
      exact ⟨⟨_, hn.exec hs⟩, hf.exec hn.rate_pos hc hs⟩) h hfull
  exact hboth.2

/-- In every state of a run whose debits are all in full, the balances of all
accounts add up to at most the total supply. -/
theorem balances_le_totalSupply {vaultAddress : Address}
    {trace : List (Ledger × (Msg × Call))} {s : Ledger} (h : Reached vaultAddress trace s)
    (hfull : ∀ e ∈ trace, e.1.TakenInFull e.2) : ∑ a, s.balance a ≤ s.totalSupply := by
  have h0 : (initialized vaultAddress).Solvent := by
    have hzero : (initialized vaultAddress).held = 0 :=
      Finset.sum_eq_zero fun a _ => worth_zero
    unfold Solvent
    omega
  have h0' : (initialized vaultAddress).FrozenCovered := Reached.frozenCovered .nil (by simp)
  have hall := Run.invariant_of_forall TakenInFull
    (fun s => (∃ n, Conserved n s) ∧ s.FrozenCovered ∧ s.Solvent)
    ⟨⟨0, conserved_initialized vaultAddress⟩, h0', h0⟩
    (fun s call s' hi hc hs => by
      obtain ⟨⟨n, hn⟩, hf, hsolvent⟩ := hi
      exact ⟨⟨_, hn.exec hs⟩, hf.exec hn.rate_pos hc.frozen hs, hsolvent.exec hn hf hc hs⟩)
    h hfull
  exact hall.2.2

/-- A run with a frozen account, a rebase and a transfer in full. -/
theorem balances_le_totalSupply_inFull :
    ∃ trace s, Reached 9 trace s ∧ s.balance 2 = 3 ∧ ∑ a, s.balance a ≤ s.totalSupply := by
  have hcalls : Returns
      (execTrace exec [] (initialized 9)
        [(⟨9, fun a => a = 2⟩, .mint 1 2), (⟨9, fun a => a = 2⟩, .mint 2 1),
          (⟨9, fun a => a = 2⟩, .changeSupply 5), (⟨1, fun a => a = 2⟩, .transfer 2 2)])
      fun out => out.2.balance 2 = 3 ∧ ∀ e ∈ out.1, e.1.TakenInFull e.2 := by decide
  obtain ⟨trace, s, hrun, hbalance, hfull⟩ := reached_of_returns hcalls
  exact ⟨trace, s, hrun, hbalance, balances_le_totalSupply hrun hfull⟩

/-- A transfer of 1 out of a balance of 4 leaves the sender with 4: its credits
are worth 2 tokens each, and half a credit is rounded down to none. -/
theorem balances_gt_totalSupply :
    ∃ trace s, Reached 9 trace s ∧ s.totalSupply < ∑ a, s.balance a := by
  have hcalls : Returns
      (execTrace exec [] (initialized 9)
        [(⟨9, fun a => a = 2⟩, .mint 1 2), (⟨9, fun a => a = 2⟩, .mint 2 1),
          (⟨9, fun a => a = 2⟩, .changeSupply 5), (⟨1, fun a => a = 2⟩, .transfer 2 1)])
      fun out => out.2.totalSupply < out.2.balance 1 + out.2.balance 2 := by decide
  obtain ⟨trace, s, hrun, hlt⟩ := reached_of_returns hcalls
  exact ⟨trace, s, hrun, hlt.trans_le (s.add_balance_le_held (by decide))⟩

end Ledger

end InterestDollar
