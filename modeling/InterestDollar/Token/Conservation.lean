import InterestDollar.Token.Outcome
import InterestDollar.Totals.Update
import InterestDollar.Transition.Run

/-!
# Conservation of credits

The token keeps `rebasingCredits` by hand, in seven functions and in the
migration any of them may fire. The tally is the sum of the credits of the
accounts that are not frozen, plus one for every burn that dropped a last
credit without taking it from the tally.

Every move touches one account, so what it does to the sum is what it does to
that account's part of it. The invariant `Conserved` goes through the moves one
by one, and from there through every call and every run.
-/

namespace InterestDollar

open Checked FixedPoint Totals Transition

namespace Ledger

/-- Runs of the token from a fresh `initialize`. -/
def Reached (vaultAddress : Address) : List (Ledger × (Msg × Call)) → Ledger → Prop :=
  Run (fun s call s' => s.exec call = .ok s') (initialized vaultAddress)

/-- Runs of the token from any ledger on. -/
def RunFrom (s : Ledger) : List (Ledger × (Msg × Call)) → Ledger → Prop :=
  Run (fun s call s' => s.exec call = .ok s') s

/-- What an account puts into the tally of rebasing credits. -/
def rebasingPart (s : Ledger) (a : Address) : ℕ :=
  if s.Frozen a then 0 else s.creditBalances a

/-- The credits of all accounts that take part in rebases. -/
def rebasingHeld (s : Ledger) : ℕ := ∑ a, s.rebasingPart a

theorem rebasingPart_of_frozen {s : Ledger} {a : Address} (h : s.Frozen a) :
    s.rebasingPart a = 0 := if_pos h

theorem rebasingPart_of_not_frozen {s : Ledger} {a : Address} (h : ¬ s.Frozen a) :
    s.rebasingPart a = s.creditBalances a := if_neg h

theorem rebasingHeld_eq (s : Ledger) :
    s.rebasingHeld = ∑ a with s.nonRebasingCreditsPerToken a = 0, s.creditBalances a := by
  rw [Finset.sum_filter]
  refine Finset.sum_congr rfl fun a _ => ?_
  by_cases ha : s.nonRebasingCreditsPerToken a = 0
  · rw [if_pos ha, rebasingPart_of_not_frozen (not_not.mpr ha)]
  · rw [if_neg ha, rebasingPart_of_frozen ha]

theorem rebasingPart_le_held (s : Ledger) (a : Address) : s.rebasingPart a ≤ s.rebasingHeld :=
  Finset.single_le_sum (fun x _ => Nat.zero_le (s.rebasingPart x)) (Finset.mem_univ a)

theorem SameOff.rebasingHeld_add {a : Address} {s s' : Ledger} (h : SameOff a s s') :
    s'.rebasingHeld + s.rebasingPart a = s.rebasingHeld + s'.rebasingPart a := by
  refine sum_add_eq_of_eq_off fun x hx => ?_
  have hfrozen : s'.Frozen x ↔ s.Frozen x := by simp only [Frozen, h.frozenRate x hx]
  simp only [rebasingPart, hfrozen, h.credits x hx]

/-- The tally of rebasing credits is the sum it stands for, and `n` more. -/
structure Conserved (n : ℕ) (s : Ledger) : Prop where
  rate_pos : 0 < s.rebasingCreditsPerToken
  credits : s.rebasingCredits = s.rebasingHeld + n

theorem conserved_initialized (vaultAddress : Address) :
    Conserved 0 (initialized vaultAddress) where
  rate_pos := fullScale_pos
  credits := by
    have hzero : (initialized vaultAddress).rebasingHeld = 0 :=
      Finset.sum_eq_zero fun a _ => rebasingPart_of_not_frozen (not_not.mpr rfl)
    rw [hzero]
    rfl

namespace Conserved

variable {n : ℕ} {s : Ledger} {a : Address} {v : ℕ}

/-- The credits of an account that is not frozen are in the tally. -/
theorem creditBalances_le (h : Conserved n s) (ha : ¬ s.Frozen a) :
    s.creditBalances a ≤ s.rebasingCredits := by
  have hpart := rebasingPart_le_held s a
  rw [rebasingPart_of_not_frozen ha] at hpart
  rw [h.credits]
  omega

theorem freeze (h : Conserved n s) (ha : ¬ s.Frozen a) : Conserved n (s.freeze a) where
  rate_pos := h.rate_pos
  credits := by
    have hsum := (freeze_sameOff (s := s) (a := a)).rebasingHeld_add
    have hle := h.creditBalances_le ha
    rw [rebasingPart_of_frozen (freeze_frozen h.rate_pos), rebasingPart_of_not_frozen ha] at hsum
    have htally : (s.freeze a).rebasingCredits = s.rebasingCredits - s.creditBalances a := rfl
    rw [htally, h.credits] at *
    omega

theorem migrate (h : Conserved n s) (isContract : Address → Bool) (a : Address) :
    Conserved n (s.migrate isContract a) := by
  unfold Ledger.migrate
  split_ifs with hm
  · exact h.freeze hm.2.2
  · exact h

theorem settle (h : Conserved n s) (isContract : Address → Bool) (fromAcc toAcc : Address) :
    Conserved n (s.settle isContract fromAcc toAcc) :=
  (h.migrate isContract toAcc).migrate isContract fromAcc

theorem credit (h : Conserved n s) : Conserved n (s.credit a v) where
  rate_pos := h.rate_pos
  credits := by
    have hsum := (credit_sameOff (s := s) (a := a) (v := v)).rebasingHeld_add
    by_cases ha : s.Frozen a
    · rw [rebasingPart_of_frozen ha, rebasingPart_of_frozen (credit_frozen.mpr ha)] at hsum
      have htally : (s.credit a v).rebasingCredits = s.rebasingCredits := if_pos ha
      rw [htally, h.credits]
      omega
    · rw [rebasingPart_of_not_frozen ha, rebasingPart_of_not_frozen (mt credit_frozen.mp ha),
        credit_creditBalances_self] at hsum
      have htally : (s.credit a v).rebasingCredits = s.rebasingCredits + s.creditsFor a v :=
        if_neg ha
      rw [htally, h.credits]
      omega

theorem debit (h : Conserved n s) (henough : s.creditsFor a v ≤ s.creditBalances a) :
    Conserved n (s.debit a v) where
  rate_pos := h.rate_pos
  credits := by
    have hsum := (debit_sameOff (s := s) (a := a) (v := v)).rebasingHeld_add
    by_cases ha : s.Frozen a
    · rw [rebasingPart_of_frozen ha, rebasingPart_of_frozen (debit_frozen.mpr ha)] at hsum
      have htally : (s.debit a v).rebasingCredits = s.rebasingCredits := if_pos ha
      rw [htally, h.credits]
      omega
    · have hle := rebasingPart_le_held s a
      rw [rebasingPart_of_not_frozen ha] at hle
      rw [rebasingPart_of_not_frozen ha, rebasingPart_of_not_frozen (mt debit_frozen.mp ha),
        debit_creditBalances_self] at hsum
      have htally : (s.debit a v).rebasingCredits = s.rebasingCredits - s.creditsFor a v :=
        if_neg ha
      rw [htally, h.credits]
      omega

/-- Dropping the last credit of an account that is not frozen leaves the tally
one too high. -/
theorem dropDust (h : Conserved n s) :
    Conserved (if ¬ s.Frozen a ∧ s.creditBalances a = 1 then n + 1 else n) (s.dropDust a) where
  rate_pos := by rw [dropDust_rate]; exact h.rate_pos
  credits := by
    rw [dropDust_rebasingCredits, h.credits]
    by_cases hone : s.creditBalances a = 1
    · have hdrop : s.dropDust a = s.setCredits a 0 := if_pos hone
      have hsum := (setCredits_sameOff (s := s) (a := a) (k := 0)).rebasingHeld_add
      have hfrozen : (s.setCredits a 0).Frozen a ↔ s.Frozen a := Iff.rfl
      rw [hdrop]
      by_cases ha : s.Frozen a
      · rw [rebasingPart_of_frozen ha, rebasingPart_of_frozen (hfrozen.mpr ha)] at hsum
        rw [if_neg fun hc => hc.1 ha]
        omega
      · rw [rebasingPart_of_not_frozen ha, rebasingPart_of_not_frozen (mt hfrozen.mp ha),
          setCredits_creditBalances_self] at hsum
        rw [if_pos ⟨ha, hone⟩]
        omega
    · have hdrop : s.dropDust a = s := if_neg hone
      rw [hdrop, if_neg fun hc => hone hc.2]

theorem optIn (h : Conserved n s) (ha : s.Frozen a) : Conserved n (s.optIn a) where
  rate_pos := h.rate_pos
  credits := by
    have hsum := (optIn_sameOff (s := s) (a := a)).rebasingHeld_add
    have hself : (s.optIn a).creditBalances a = s.convertedCredits a := Function.update_self _ _ _
    rw [rebasingPart_of_frozen ha, rebasingPart_of_not_frozen optIn_not_frozen, hself] at hsum
    have htally : (s.optIn a).rebasingCredits = s.rebasingCredits + s.convertedCredits a := rfl
    rw [htally, h.credits]
    omega

theorem optOut (h : Conserved n s) (ha : ¬ s.Frozen a) : Conserved n (s.optOut a) where
  rate_pos := h.rate_pos
  credits := (h.freeze ha).credits

theorem setRate {rate : ℕ} (h : Conserved n s) (hrate : 0 < rate) :
    Conserved n (s.setRate rate) where
  rate_pos := hrate
  credits := h.credits

theorem setAllowance {owner spender : Address} {value : ℕ} (h : Conserved n s) :
    Conserved n (s.setAllowance owner spender value) where
  rate_pos := h.rate_pos
  credits := h.credits

theorem addSupply (h : Conserved n s) : Conserved n (s.addSupply v) where
  rate_pos := h.rate_pos
  credits := h.credits

theorem subSupply (h : Conserved n s) : Conserved n (s.subSupply v) where
  rate_pos := h.rate_pos
  credits := h.credits

/-- Debiting the sender of a transfer after the recipient was credited takes no
more than the sender has. -/
theorem creditsFor_le_credit {toAcc : Address}
    (henough : s.creditsFor a v ≤ s.creditBalances a) :
    (s.credit toAcc v).creditsFor a v ≤ (s.credit toAcc v).creditBalances a := by
  by_cases heq : a = toAcc
  · subst heq
    rw [credit_creditBalances_self]
    exact henough.trans (Nat.le_add_right _ _)
  · rw [credit_sameOff.credits a heq]
    exact henough

theorem executeTransfer {isContract : Address → Bool} {fromAcc toAcc : Address} {s' : Ledger}
    (h : Conserved n s) (hs : s.executeTransfer isContract fromAcc toAcc v = .ok s') :
    Conserved n s' := by
  obtain ⟨-, -, hfits, rfl⟩ := (executeTransfer_eq_ok h.rate_pos).mp hs
  exact (h.settle isContract fromAcc toAcc).credit.debit (creditsFor_le_credit hfits.enough)

end Conserved

/-- The entry of a burn, from a rebasing account, that drops a last credit. -/
def dustBurn (e : Ledger × (Msg × Call)) : Bool :=
  match e.2.2 with
  | .burn a v =>
      let m := e.1.migrate e.2.1.isContract a
      decide (v ≠ 0 ∧ ¬ m.Frozen a ∧ m.creditBalances a = m.creditsFor a v + 1)
  | _ => false

theorem Conserved.burn {n : ℕ} {s s' : Ledger} {msg : Msg} {a : Address} {v : ℕ}
    (h : Conserved n s) (hs : s.burn msg a v = .ok s') :
    Conserved (if dustBurn (s, msg, .burn a v) then n + 1 else n) s' := by
  obtain ⟨-, hburn⟩ := burn_eq_ok.mp hs
  obtain ⟨-, ⟨hv, rfl⟩ | ⟨hv, -, hfits, rfl⟩⟩ := burnFrom_eq_ok.mp hburn
  · simpa [dustBurn, hv] using h
  · have hm := (h.migrate msg.isContract a).debit hfits.enough
    have hdrop := hm.dropDust (a := a)
    have hone := debit_creditBalances_self (s := s.migrate msg.isContract a) (a := a) (v := v)
    have henough := hfits.enough
    have hiff : ((s.migrate msg.isContract a).debit a v).creditBalances a = 1 ↔
        (s.migrate msg.isContract a).creditBalances a =
          (s.migrate msg.isContract a).creditsFor a v + 1 := by
      rw [hone]
      omega
    simp only [hiff, debit_frozen] at hdrop
    simpa only [dustBurn, hv, ne_eq, not_false_eq_true, true_and, decide_eq_true_eq] using
      hdrop.subSupply

/-- One call keeps the tally, and counts a burn that drops a last credit. -/
theorem Conserved.exec {n : ℕ} {s s' : Ledger} {call : Msg × Call} (h : Conserved n s)
    (hs : s.exec call = .ok s') :
    Conserved (if dustBurn (s, call) then n + 1 else n) s' := by
  obtain ⟨msg, call⟩ := call
  cases call with
  | transfer toAcc v =>
      obtain ⟨-, -, -, hmove⟩ := transfer_eq_ok.mp hs
      exact h.executeTransfer hmove
  | transferFrom fromAcc toAcc v =>
      obtain ⟨-, -, -, -, hmove⟩ := transferFrom_eq_ok.mp hs
      exact h.setAllowance.executeTransfer hmove
  | approve spender value =>
      obtain rfl := approve_eq_ok.mp hs
      exact h.setAllowance
  | increaseAllowance spender addedValue =>
      obtain ⟨-, rfl⟩ := increaseAllowance_eq_ok.mp hs
      exact h.setAllowance
  | decreaseAllowance spender subtractedValue =>
      obtain rfl := decreaseAllowance_eq_ok.mp hs
      exact h.setAllowance
  | mint a v =>
      obtain ⟨-, hmint⟩ := mint_eq_ok.mp hs
      obtain ⟨-, -, -, rfl⟩ := mintTo_eq_ok.mp hmint
      exact (h.migrate msg.isContract a).credit.addSupply
  | burn a v => exact h.burn hs
  | rebaseOptIn =>
      obtain ⟨-, hfits, rfl⟩ := rebaseOptIn_eq_ok.mp hs
      exact (h.migrate msg.isContract msg.sender).optIn hfits.frozen
  | rebaseOptOut =>
      obtain ⟨-, hfits, rfl⟩ := rebaseOptOut_eq_ok.mp hs
      exact (h.migrate msg.isContract msg.sender).optOut hfits.notFrozen
  | changeSupply newTotalSupply =>
      obtain ⟨-, -, ⟨-, rfl⟩ | ⟨-, hfits, rfl⟩⟩ := changeSupply_eq_ok.mp hs
      · exact h
      · exact h.setRate hfits.rate

theorem migrate_vaultAddress {isContract : Address → Bool} {s : Ledger} {a : Address} :
    (s.migrate isContract a).vaultAddress = s.vaultAddress := by
  unfold migrate
  split_ifs <;> rfl

theorem executeTransfer_vaultAddress {isContract : Address → Bool} {s s' : Ledger}
    {fromAcc toAcc : Address} {v : ℕ} (hrate : 0 < s.rebasingCreditsPerToken)
    (hs : s.executeTransfer isContract fromAcc toAcc v = .ok s') :
    s'.vaultAddress = s.vaultAddress := by
  obtain ⟨-, -, -, rfl⟩ := (executeTransfer_eq_ok hrate).mp hs
  exact migrate_vaultAddress.trans migrate_vaultAddress

/-- No call changes which address is the vault. -/
theorem exec_vaultAddress {s s' : Ledger} {call : Msg × Call}
    (hrate : 0 < s.rebasingCreditsPerToken) (hs : s.exec call = .ok s') :
    s'.vaultAddress = s.vaultAddress := by
  obtain ⟨msg, call⟩ := call
  cases call with
  | transfer toAcc v =>
      obtain ⟨-, -, -, hmove⟩ := transfer_eq_ok.mp hs
      exact executeTransfer_vaultAddress hrate hmove
  | transferFrom fromAcc toAcc v =>
      obtain ⟨-, -, -, -, hmove⟩ := transferFrom_eq_ok.mp hs
      exact executeTransfer_vaultAddress (s := s.setAllowance _ _ _) hrate hmove
  | approve spender value =>
      obtain rfl := approve_eq_ok.mp hs
      rfl
  | increaseAllowance spender addedValue =>
      obtain ⟨-, rfl⟩ := increaseAllowance_eq_ok.mp hs
      rfl
  | decreaseAllowance spender subtractedValue =>
      obtain rfl := decreaseAllowance_eq_ok.mp hs
      rfl
  | mint a v =>
      obtain ⟨-, hmint⟩ := mint_eq_ok.mp hs
      obtain ⟨-, -, -, rfl⟩ := mintTo_eq_ok.mp hmint
      exact migrate_vaultAddress
  | burn a v =>
      obtain ⟨-, hburn⟩ := burn_eq_ok.mp hs
      obtain ⟨-, ⟨-, rfl⟩ | ⟨-, -, -, rfl⟩⟩ := burnFrom_eq_ok.mp hburn
      · rfl
      · have hdrop : ∀ t : Ledger, (t.dropDust a).vaultAddress = t.vaultAddress := by
          intro t
          unfold dropDust
          split_ifs <;> rfl
        exact (hdrop _).trans migrate_vaultAddress
  | rebaseOptIn =>
      obtain ⟨-, -, rfl⟩ := rebaseOptIn_eq_ok.mp hs
      exact migrate_vaultAddress
  | rebaseOptOut =>
      obtain ⟨-, -, rfl⟩ := rebaseOptOut_eq_ok.mp hs
      exact migrate_vaultAddress
  | changeSupply newTotalSupply =>
      obtain ⟨-, -, ⟨-, rfl⟩ | ⟨-, -, rfl⟩⟩ := changeSupply_eq_ok.mp hs
      · rfl
      · rfl

theorem Reached.conserved {vaultAddress : Address} {trace : List (Ledger × (Msg × Call))}
    {s : Ledger} (h : Reached vaultAddress trace s) :
    Conserved (trace.countP dustBurn) s :=
  Run.invariant_countP dustBurn Conserved (conserved_initialized vaultAddress)
    (fun _ _ _ _ hi hs => hi.exec hs) h

theorem Reached.vaultAddress {vaultAddress : Address}
    {trace : List (Ledger × (Msg × Call))} {s : Ledger} (h : Reached vaultAddress trace s) :
    s.vaultAddress = vaultAddress := by
  induction h with
  | nil => rfl
  | cons hrun hs ih => exact (exec_vaultAddress (Reached.conserved hrun).rate_pos hs).trans ih

/-! ## The tally never underflows -/

section Underflow

/-- A computation that does not underflow the tally of rebasing credits. -/
abbrev KeepsTally {α : Type} (x : Except Revert α) : Prop :=
  Avoids (.subtractionOverflow .rebasingCredits) x

theorem balanceOf_keepsTally (s : Ledger) (a : Address) : KeepsTally (s.balanceOf a) :=
  avoids_ite (fun _ => avoids_ok) fun _ => StableMath.divPrecisely_avoids

variable {n : ℕ} {s : Ledger} {msg : Msg} {a : Address} {v : ℕ}

theorem Conserved.ensureRebasingMigration_keepsTally (h : Conserved n s) (a : Address) :
    KeepsTally (s.ensureRebasingMigration a) := by
  refine avoids_ite (fun hz => ?_) fun _ => avoids_pure
  refine avoids_bind (balanceOf_keepsTally _ _) fun _ _ => ?_
  refine avoids_bind SafeMath.add_avoids fun _ _ => ?_
  have hle := h.creditBalances_le (not_not.mpr hz)
  exact avoids_bind (SafeMath.sub_avoids fun _ => hle) fun _ _ => avoids_pure

theorem Conserved.isNonRebasingAccount_keepsTally (h : Conserved n s)
    (isContract : Address → Bool) (a : Address) :
    KeepsTally (s.isNonRebasingAccount isContract a) := by
  refine avoids_bind ?_ fun _ _ => avoids_pure
  exact avoids_ite (fun _ => h.ensureRebasingMigration_keepsTally a) fun _ => avoids_pure

theorem Conserved.executeTransfer_keepsTally (h : Conserved n s) (isContract : Address → Bool)
    (fromAcc toAcc : Address) (v : ℕ) :
    KeepsTally (s.executeTransfer isContract fromAcc toAcc v) := by
  refine avoids_bind (h.isNonRebasingAccount_keepsTally _ _) fun p hp => ?_
  obtain ⟨-, rfl⟩ := isNonRebasingAccount_eq_ok.mp hp
  have hto := h.migrate isContract toAcc
  refine avoids_bind (hto.isNonRebasingAccount_keepsTally _ _) fun p hp => ?_
  obtain ⟨-, rfl⟩ := isNonRebasingAccount_eq_ok.mp hp
  have hboth := hto.migrate isContract fromAcc
  refine avoids_bind StableMath.mulTruncate_avoids fun _ _ => ?_
  refine avoids_bind StableMath.mulTruncate_avoids fun k _ => ?_
  refine avoids_bind SafeMath.subOr_avoids fun _ hsub => ?_
  refine avoids_bind SafeMath.add_avoids fun _ _ => ?_
  -- the sender's credits cover the deduction, and they are in the tally
  refine avoids_ite (fun hkind => ?_) fun _ => avoids_ite (fun _ => ?_) fun _ => avoids_pure
  · refine avoids_bind SafeMath.add_avoids fun _ _ => ?_
    have hnot : ¬ ((s.migrate isContract toAcc).migrate isContract fromAcc).Frozen fromAcc := by
      simpa using (Bool.and_eq_true_iff.mp hkind).2
    have hle := (SafeMath.subOr_eq_ok.mp hsub).1.trans (hboth.creditBalances_le hnot)
    exact avoids_bind (SafeMath.sub_avoids fun _ => hle) fun _ _ => avoids_pure
  · refine avoids_bind (SafeMath.sub_avoids fun heq => nomatch heq) fun _ _ => ?_
    exact avoids_bind SafeMath.add_avoids fun _ _ => avoids_pure

theorem Conserved.mintTo_keepsTally (h : Conserved n s) (isContract : Address → Bool)
    (a : Address) (v : ℕ) : KeepsTally (s.mintTo isContract a v) := by
  refine avoids_bind require_avoids fun _ _ => ?_
  refine avoids_bind (h.isNonRebasingAccount_keepsTally _ _) fun _ _ => ?_
  refine avoids_bind StableMath.mulTruncate_avoids fun _ _ => ?_
  refine avoids_bind SafeMath.add_avoids fun _ _ => ?_
  refine avoids_bind ?_ fun _ _ => ?_
  · refine avoids_ite (fun _ => ?_) fun _ => ?_
    · exact avoids_bind SafeMath.add_avoids fun _ _ => avoids_pure
    · exact avoids_bind SafeMath.add_avoids fun _ _ => avoids_pure
  · refine avoids_bind SafeMath.add_avoids fun _ _ => ?_
    exact avoids_bind require_avoids fun _ _ => avoids_pure

theorem burnCredits_keepsTally (current k : ℕ) : KeepsTally (burnCredits current k) :=
  avoids_ite (fun _ => avoids_ok) fun _ =>
    avoids_ite (fun _ => avoids_ok) fun _ heq => nomatch heq

theorem Conserved.burnFrom_keepsTally (h : Conserved n s) (isContract : Address → Bool)
    (a : Address) (v : ℕ) : KeepsTally (s.burnFrom isContract a v) := by
  refine avoids_bind require_avoids fun _ _ => ?_
  refine avoids_ite (fun _ => avoids_pure) fun _ => ?_
  refine avoids_bind (h.isNonRebasingAccount_keepsTally _ _) fun p hp => ?_
  obtain ⟨-, rfl⟩ := isNonRebasingAccount_eq_ok.mp hp
  have hm := h.migrate isContract a
  refine avoids_bind StableMath.mulTruncate_avoids fun k hk => ?_
  refine avoids_bind (burnCredits_keepsTally _ _) fun c hc => ?_
  refine avoids_bind ?_ fun _ _ => ?_
  · refine avoids_ite (fun _ => ?_) fun hnot => ?_
    · refine avoids_bind (SafeMath.sub_avoids fun heq => nomatch heq) fun _ _ => avoids_pure
    · obtain ⟨hfit, rfl⟩ := StableMath.mulTruncate_eq_ok.mp hk
      have hcover := ((burnCredits_eq_ok rfl hfit).mp hc).1
      have hle := hcover.trans (hm.creditBalances_le (by simpa using hnot))
      exact avoids_bind (SafeMath.sub_avoids fun _ => hle) fun _ _ => avoids_pure
  · exact avoids_bind (SafeMath.sub_avoids fun heq => nomatch heq) fun _ _ => avoids_pure

theorem Conserved.rebaseOptIn_keepsTally (h : Conserved n s) (msg : Msg) :
    KeepsTally (s.rebaseOptIn msg) := by
  refine avoids_bind (h.isNonRebasingAccount_keepsTally _ _) fun _ _ => ?_
  refine avoids_bind require_avoids fun _ _ => ?_
  refine avoids_bind SafeMath.mul_avoids fun _ _ => ?_
  refine avoids_bind SafeMath.div_avoids fun _ _ => ?_
  refine avoids_bind (balanceOf_keepsTally _ _) fun _ _ => ?_
  refine avoids_bind (SafeMath.sub_avoids fun heq => nomatch heq) fun _ _ => ?_
  exact avoids_bind SafeMath.add_avoids fun _ _ => avoids_pure

theorem Conserved.rebaseOptOut_keepsTally (h : Conserved n s) (msg : Msg) :
    KeepsTally (s.rebaseOptOut msg) := by
  refine avoids_bind (h.isNonRebasingAccount_keepsTally _ _) fun p hp => ?_
  obtain ⟨-, rfl⟩ := isNonRebasingAccount_eq_ok.mp hp
  refine avoids_bind require_avoids fun _ hreq => ?_
  refine avoids_bind (balanceOf_keepsTally _ _) fun _ _ => ?_
  refine avoids_bind SafeMath.add_avoids fun _ _ => ?_
  have hnot := decide_eq_false_iff_not.mp (require_eq_ok.mp hreq)
  have hle := (h.migrate msg.isContract msg.sender).creditBalances_le hnot
  exact avoids_bind (SafeMath.sub_avoids fun _ => hle) fun _ _ => avoids_pure

theorem changeSupply_keepsTally (s : Ledger) (msg : Msg) (newTotalSupply : ℕ) :
    KeepsTally (s.changeSupply msg newTotalSupply) := by
  refine avoids_bind require_avoids fun _ _ => ?_
  refine avoids_bind require_avoids fun _ _ => ?_
  refine avoids_ite (fun _ => avoids_pure) fun _ => ?_
  refine avoids_bind (SafeMath.sub_avoids fun heq => nomatch heq) fun _ _ => ?_
  refine avoids_bind StableMath.divPrecisely_avoids fun _ _ => ?_
  refine avoids_bind require_avoids fun _ _ => ?_
  refine avoids_bind StableMath.divPrecisely_avoids fun _ _ => ?_
  exact avoids_bind SafeMath.add_avoids fun _ _ => avoids_pure

/-- No call, made where the tally is kept, underflows it. -/
theorem Conserved.exec_keepsTally (h : Conserved n s) (call : Msg × Call) :
    KeepsTally (s.exec call) := by
  obtain ⟨msg, call⟩ := call
  cases call with
  | transfer toAcc v =>
      refine avoids_bind require_avoids fun _ _ => ?_
      refine avoids_bind (balanceOf_keepsTally _ _) fun _ _ => ?_
      exact avoids_bind require_avoids fun _ _ => h.executeTransfer_keepsTally _ _ _ _
  | transferFrom fromAcc toAcc v =>
      refine avoids_bind require_avoids fun _ _ => ?_
      refine avoids_bind (balanceOf_keepsTally _ _) fun _ _ => ?_
      refine avoids_bind require_avoids fun _ _ => ?_
      refine avoids_bind (SafeMath.sub_avoids fun heq => nomatch heq) fun _ _ => ?_
      exact h.setAllowance.executeTransfer_keepsTally _ _ _ _
  | approve spender value => exact avoids_pure
  | increaseAllowance spender addedValue =>
      exact avoids_bind SafeMath.add_avoids fun _ _ => avoids_pure
  | decreaseAllowance spender subtractedValue =>
      refine avoids_ite (fun _ => avoids_pure) fun _ => ?_
      exact avoids_bind (SafeMath.sub_avoids fun heq => nomatch heq) fun _ _ => avoids_pure
  | mint a v => exact avoids_bind require_avoids fun _ _ => h.mintTo_keepsTally _ _ _
  | burn a v => exact avoids_bind require_avoids fun _ _ => h.burnFrom_keepsTally _ _ _
  | rebaseOptIn => exact h.rebaseOptIn_keepsTally msg
  | rebaseOptOut => exact h.rebaseOptOut_keepsTally msg
  | changeSupply newTotalSupply => exact changeSupply_keepsTally s msg newTotalSupply

end Underflow

/-- In every state a run reaches, the tally of rebasing credits is the sum of the
credits of the accounts without a frozen rate, plus the number of burns that
dropped a last credit of a rebasing account; and no call underflows it. -/
theorem rebasingCredits_conserved {vaultAddress : Address}
    {trace : List (Ledger × (Msg × Call))} {s : Ledger} (h : Reached vaultAddress trace s) :
    s.rebasingCredits =
        (∑ a with s.nonRebasingCreditsPerToken a = 0, s.creditBalances a) +
          trace.countP dustBurn ∧
      ∀ call, s.exec call ≠ .error (.subtractionOverflow .rebasingCredits) := by
  refine ⟨?_, fun call => h.conserved.exec_keepsTally call⟩
  rw [← rebasingHeld_eq]
  exact h.conserved.credits

/-- The run of a list of calls, where all of them succeed. -/
theorem reached_of_returns {vaultAddress : Address} {calls : List (Msg × Call)}
    {P : List (Ledger × (Msg × Call)) × Ledger → Prop}
    (h : Returns (execTrace exec [] (initialized vaultAddress) calls) P) :
    ∃ trace s, Reached vaultAddress trace s ∧ P (trace, s) := by
  obtain ⟨⟨trace, s⟩, hout, hP⟩ := h
  exact ⟨trace, s, run_of_execTrace .nil hout, hP⟩

/-- After a mint of 2, a rebase to 3 and a burn of 2, one dropped credit is left
in the tally. -/
theorem rebasingCredits_conserved_dust :
    ∃ trace s, Reached 9 trace s ∧ trace.countP dustBurn = 1 ∧
      s.rebasingCredits =
        (∑ a with s.nonRebasingCreditsPerToken a = 0, s.creditBalances a) + 1 := by
  have hcalls : Returns
      (execTrace exec [] (initialized 9)
        [(⟨9, fun _ => false⟩, .mint 1 2), (⟨9, fun _ => false⟩, .changeSupply 3),
          (⟨9, fun _ => false⟩, .burn 1 2)])
      fun out => out.1.countP dustBurn = 1 := by decide
  obtain ⟨trace, s, hrun, hdust⟩ := reached_of_returns hcalls
  refine ⟨trace, s, hrun, hdust, ?_⟩
  rw [(rebasingCredits_conserved hrun).1]
  exact congrArg _ hdust

end Ledger

end InterestDollar
