import InterestDollar.Token.Solvency

/-!
# What a rebase does to the balances

A rebase sets the rate at which the rebasing credits are worth the supply less
the frozen tokens. It takes nothing from anybody when that rate is not above the
old one, and it is not when the tallies represent at most the supply: the worth of
the rebasing credits together with the frozen tokens.

Every call keeps the tallies within the supply except where credits leave the
rebasing tally and the tally rounds off more than the account did, and where an
opt-in adds credits whose rounded-off parts make up a unit. `TalliesInFull` says
that a call is none of these.
-/

namespace InterestDollar

open Checked FixedPoint Transition

namespace Ledger

/-- The tokens the two tallies stand for. -/
def represented (s : Ledger) : ℕ :=
  worth fullScale s.rebasingCreditsPerToken s.rebasingCredits + s.nonRebasingSupply

/-- The tallies stand for at most the total supply. -/
def WithinSupply (s : Ledger) : Prop := s.represented ≤ s.totalSupply

/-- Taking the credits of an amount out of the rebasing tally takes all of it. -/
def TallyDebitInFull (s : Ledger) (v : ℕ) : Prop :=
  TakesInFull fullScale s.rebasingCreditsPerToken s.rebasingCredits v

instance (s : Ledger) (v : ℕ) : Decidable (s.TallyDebitInFull v) :=
  inferInstanceAs (Decidable (TakesInFull _ _ _ _))

/-- The credits of an account that opts in raise the worth of the rebasing tally
by at most the account's balance. -/
def TallyCreditInFull (s : Ledger) (a : Address) : Prop :=
  s.rebasingCredits * fullScale % s.rebasingCreditsPerToken + s.convertedCredits a * fullScale <
    (s.balance a + 1) * s.rebasingCreditsPerToken

instance (s : Ledger) (a : Address) : Decidable (s.TallyCreditInFull a) :=
  inferInstanceAs (Decidable (_ < _))

/-- A transfer that leaves the rebasing accounts takes all of its amount from
their tally. -/
def TransferTallied (isContract : Address → Bool) (s : Ledger) (fromAcc toAcc : Address)
    (v : ℕ) : Prop :=
  let m := s.settle isContract fromAcc toAcc
  m.Frozen toAcc → ¬ m.Frozen fromAcc → m.TallyDebitInFull v

instance (isContract : Address → Bool) (s : Ledger) (fromAcc toAcc : Address) (v : ℕ) :
    Decidable (s.TransferTallied isContract fromAcc toAcc v) :=
  inferInstanceAs (Decidable (_ → _))

/-- What a call moves out of the rebasing tally it takes in full, and what it
moves in it adds in full. -/
def TalliesInFull (s : Ledger) (call : Msg × Call) : Prop :=
  let (msg, call) := call
  match call with
  | .transfer toAcc v => s.TransferTallied msg.isContract msg.sender toAcc v
  | .transferFrom fromAcc toAcc v => s.TransferTallied msg.isContract fromAcc toAcc v
  | .burn a v =>
      let m := s.migrate msg.isContract a
      ¬ m.Frozen a → m.TallyDebitInFull v
  | .rebaseOptIn => (s.migrate msg.isContract msg.sender).TallyCreditInFull msg.sender
  | _ => True

instance (s : Ledger) (call : Msg × Call) : Decidable (s.TalliesInFull call) :=
  match call with
  | (msg, .transfer toAcc v) =>
      inferInstanceAs (Decidable (s.TransferTallied msg.isContract msg.sender toAcc v))
  | (msg, .transferFrom fromAcc toAcc v) =>
      inferInstanceAs (Decidable (s.TransferTallied msg.isContract fromAcc toAcc v))
  | (msg, .burn a v) =>
      inferInstanceAs (Decidable (¬ (s.migrate msg.isContract a).Frozen a →
        (s.migrate msg.isContract a).TallyDebitInFull v))
  | (msg, .rebaseOptIn) =>
      inferInstanceAs (Decidable ((s.migrate msg.isContract msg.sender).TallyCreditInFull msg.sender))
  | (_, .approve _ _) | (_, .increaseAllowance _ _) | (_, .decreaseAllowance _ _)
  | (_, .mint _ _) | (_, .rebaseOptOut) | (_, .changeSupply _) => .isTrue trivial

section Moves

variable {n : ℕ} {s : Ledger} {isContract : Address → Bool} {a fromAcc toAcc : Address} {v : ℕ}

theorem freeze_represented_le (h : Conserved n s) (ha : ¬ s.Frozen a) :
    (s.freeze a).represented ≤ s.represented := by
  have hsplit : worth fullScale s.rebasingCreditsPerToken
      (s.rebasingCredits - s.creditBalances a) + _ ≤ _ := worth_add_le _ (s.creditBalances a)
  rw [Nat.sub_add_cancel (h.creditBalances_le ha)] at hsplit
  have hbalance : s.balance a =
      worth fullScale s.rebasingCreditsPerToken (s.creditBalances a) := by
    rw [balance, creditsPerToken_of_not_frozen ha]
  have hfreeze : (s.freeze a).represented =
      worth fullScale s.rebasingCreditsPerToken (s.rebasingCredits - s.creditBalances a) +
        (s.nonRebasingSupply + s.balance a) := rfl
  rw [hfreeze, hbalance, represented]
  omega

theorem migrate_represented_le (h : Conserved n s) :
    (s.migrate isContract a).represented ≤ s.represented := by
  unfold migrate
  split_ifs with hm
  · exact freeze_represented_le h hm.2.2
  · exact le_rfl

theorem settle_represented_le (h : Conserved n s) :
    (s.settle isContract fromAcc toAcc).represented ≤ s.represented :=
  (migrate_represented_le (h.migrate isContract toAcc)).trans (migrate_represented_le h)

theorem credit_represented_le (hrate : 0 < s.rebasingCreditsPerToken) :
    (s.credit a v).represented ≤ s.represented + v := by
  by_cases ha : s.Frozen a
  · rw [credit_of_frozen ha]
    simp only [represented]
    omega
  · have hle : worth fullScale s.rebasingCreditsPerToken _ ≤ _ :=
      worth_add_shares_le hrate s.rebasingCredits v
    rw [credit_of_not_frozen ha]
    simp only [represented, creditsFor, creditsPerToken_of_not_frozen ha]
    omega

theorem debit_represented (hfrozen : s.Frozen a → v ≤ s.nonRebasingSupply)
    (hrebasing : ¬ s.Frozen a → s.TallyDebitInFull v ∧ s.creditsFor a v ≤ s.rebasingCredits) :
    (s.debit a v).represented + v = s.represented := by
  by_cases ha : s.Frozen a
  · have hle := hfrozen ha
    rw [debit_of_frozen ha]
    simp only [represented]
    omega
  · obtain ⟨hfull, hle⟩ := hrebasing ha
    have hfor : s.creditsFor a v = shares fullScale s.rebasingCreditsPerToken v := by
      rw [creditsFor, creditsPerToken_of_not_frozen ha]
    rw [hfor] at hle
    have hworth := hfull.worth_sub hle
    rw [debit_of_not_frozen ha, hfor]
    simp only [represented]
    omega

/-- A transfer raises what the tallies stand for only where it leaves the
rebasing accounts. -/
theorem move_represented_le (hrate : 0 < s.rebasingCreditsPerToken)
    (hfits : MoveFits s fromAcc toAcc v)
    (hfull : s.Frozen toAcc → ¬ s.Frozen fromAcc → s.TallyDebitInFull v) :
    ((s.credit toAcc v).debit fromAcc v).represented ≤ s.represented := by
  by_cases hkind : s.Frozen toAcc ↔ s.Frozen fromAcc
  · rw [credit_debit_of_frozen_iff hkind]
    exact le_rfl
  · have hcredit : (s.credit toAcc v).represented ≤ s.represented + v :=
      credit_represented_le hrate
    by_cases ht : s.Frozen toAcc
    · have hf : ¬ s.Frozen fromAcc := fun hf => hkind ⟨fun _ => hf, fun _ => ht⟩
      have htally : (s.credit toAcc v).rebasingCredits = s.rebasingCredits := if_pos ht
      have hfull' : (s.credit toAcc v).TallyDebitInFull v := by
        unfold TallyDebitInFull
        rw [htally]
        exact hfull ht hf
      have hle : (s.credit toAcc v).creditsFor fromAcc v ≤
          (s.credit toAcc v).rebasingCredits := by
        rw [htally]
        exact (hfits.intoFrozen ht hf).2
      have hdebit := debit_represented (s := s.credit toAcc v) (a := fromAcc)
        (fun h => absurd h hf) fun _ => ⟨hfull', hle⟩
      omega
    · have hf : s.Frozen fromAcc := by
        by_contra hf
        exact hkind ⟨fun h => absurd h ht, fun h => absurd h hf⟩
      have htally : (s.credit toAcc v).nonRebasingSupply = s.nonRebasingSupply := if_neg ht
      have hle : v ≤ (s.credit toAcc v).nonRebasingSupply := by
        rw [htally]
        exact (hfits.outOfFrozen ht hf).1
      have hdebit := debit_represented (s := s.credit toAcc v) (a := fromAcc)
        (fun _ => hle) fun h => absurd hf h
      omega

theorem optIn_represented_le (hrate : 0 < s.rebasingCreditsPerToken)
    (hle : s.balance a ≤ s.nonRebasingSupply) (hfull : s.TallyCreditInFull a) :
    (s.optIn a).represented ≤ s.represented := by
  have hworth := (worth_add_le_iff hrate).mpr hfull
  have hoptIn : (s.optIn a).represented =
      worth fullScale s.rebasingCreditsPerToken (s.rebasingCredits + s.convertedCredits a) +
        (s.nonRebasingSupply - s.balance a) := rfl
  rw [hoptIn, represented]
  omega

end Moves

theorem WithinSupply.executeTransfer {n : ℕ} {s s' : Ledger} {isContract : Address → Bool}
    {fromAcc toAcc : Address} {v : ℕ} (h : s.WithinSupply) (hc : Conserved n s)
    (hfull : s.TransferTallied isContract fromAcc toAcc v)
    (hs : s.executeTransfer isContract fromAcc toAcc v = .ok s') : s'.WithinSupply := by
  obtain ⟨-, -, hfits, rfl⟩ := (executeTransfer_eq_ok hc.rate_pos).mp hs
  have hm := hc.settle isContract fromAcc toAcc
  have hmove := move_represented_le hm.rate_pos hfits hfull
  have hsettle : (s.settle isContract fromAcc toAcc).represented ≤ s.represented :=
    settle_represented_le hc
  unfold WithinSupply at *
  rw [debit_totalSupply, credit_totalSupply, settle_totalSupply]
  omega

theorem WithinSupply.mintTo {n : ℕ} {s s' : Ledger} {isContract : Address → Bool} {a : Address}
    {v : ℕ} (h : s.WithinSupply) (hc : Conserved n s)
    (hs : s.mintTo isContract a v = .ok s') : s'.WithinSupply := by
  obtain ⟨-, -, -, rfl⟩ := mintTo_eq_ok.mp hs
  have hcredit : ((s.migrate isContract a).credit a v).represented ≤ _ :=
    credit_represented_le (hc.migrate isContract a).rate_pos
  have hmigrate : (s.migrate isContract a).represented ≤ s.represented :=
    migrate_represented_le hc
  have hsupply : (((s.migrate isContract a).credit a v).addSupply v).totalSupply =
      s.totalSupply + v := congrArg (· + v) migrate_totalSupply
  have hsame : (((s.migrate isContract a).credit a v).addSupply v).represented =
      ((s.migrate isContract a).credit a v).represented := rfl
  unfold WithinSupply at *
  omega

theorem WithinSupply.burnFrom {n : ℕ} {s s' : Ledger} {isContract : Address → Bool}
    {a : Address} {v : ℕ} (h : s.WithinSupply) (hc : Conserved n s)
    (hfull : ¬ (s.migrate isContract a).Frozen a → (s.migrate isContract a).TallyDebitInFull v)
    (hs : s.burnFrom isContract a v = .ok s') : s'.WithinSupply := by
  obtain ⟨-, ⟨-, rfl⟩ | ⟨-, -, hfits, rfl⟩⟩ := burnFrom_eq_ok.mp hs
  · exact h
  · have hdebit := debit_represented hfits.frozenTally
      fun hf => ⟨hfull hf, hfits.rebasingTally hf⟩
    have hmigrate : (s.migrate isContract a).represented ≤ s.represented :=
      migrate_represented_le hc
    have hdrop : ((((s.migrate isContract a).debit a v).dropDust a).subSupply v).represented =
        ((s.migrate isContract a).debit a v).represented := by
      simp only [represented, subSupply, dropDust_rebasingCredits, dropDust_nonRebasingSupply,
        dropDust_rate]
    have hsupply : ((((s.migrate isContract a).debit a v).dropDust a).subSupply v).totalSupply =
        s.totalSupply - v := by
      simp only [subSupply, dropDust_totalSupply, debit_totalSupply, migrate_totalSupply]
    have hle := hfits.supply
    rw [migrate_totalSupply] at hle
    unfold WithinSupply at *
    omega

theorem WithinSupply.optIn {n : ℕ} {s : Ledger} {isContract : Address → Bool} {a : Address}
    (h : s.WithinSupply) (hc : Conserved n s) (hfits : OptInFits (s.migrate isContract a) a)
    (hfull : (s.migrate isContract a).TallyCreditInFull a) :
    ((s.migrate isContract a).optIn a).WithinSupply := by
  have hle := optIn_represented_le (hc.migrate isContract a).rate_pos hfits.frozenTally hfull
  have hmigrate : (s.migrate isContract a).represented ≤ s.represented :=
    migrate_represented_le hc
  have hsupply : ((s.migrate isContract a).optIn a).totalSupply = s.totalSupply :=
    migrate_totalSupply
  unfold WithinSupply at *
  omega

theorem WithinSupply.optOut {n : ℕ} {s : Ledger} {isContract : Address → Bool} {a : Address}
    (h : s.WithinSupply) (hc : Conserved n s) (hfits : OptOutFits (s.migrate isContract a) a) :
    ((s.migrate isContract a).optOut a).WithinSupply := by
  have hle : ((s.migrate isContract a).optOut a).represented ≤
      (s.migrate isContract a).represented :=
    freeze_represented_le (hc.migrate isContract a) hfits.notFrozen
  have hmigrate : (s.migrate isContract a).represented ≤ s.represented :=
    migrate_represented_le hc
  have hsupply : ((s.migrate isContract a).optOut a).totalSupply = s.totalSupply :=
    migrate_totalSupply
  unfold WithinSupply at *
  omega

/-- One call that tallies in full keeps the tallies within the supply. -/
theorem WithinSupply.exec {n : ℕ} {s s' : Ledger} {call : Msg × Call} (h : s.WithinSupply)
    (hc : Conserved n s) (hfull : s.TalliesInFull call) (hs : s.exec call = .ok s') :
    s'.WithinSupply := by
  obtain ⟨msg, call⟩ := call
  cases call with
  | transfer toAcc v =>
      obtain ⟨-, -, -, hmove⟩ := transfer_eq_ok.mp hs
      exact h.executeTransfer hc hfull hmove
  | transferFrom fromAcc toAcc v =>
      obtain ⟨-, -, -, -, hmove⟩ := transferFrom_eq_ok.mp hs
      refine WithinSupply.executeTransfer
        (s := s.setAllowance fromAcc msg.sender (s.allowances fromAcc msg.sender - v))
        h hc.setAllowance ?_ hmove
      have hsettle := setAllowance_settle (s := s) (a := fromAcc) (b := msg.sender)
        (k := s.allowances fromAcc msg.sender - v) msg.isContract fromAcc toAcc
      unfold TransferTallied
      rw [hsettle]
      exact hfull
  | approve spender value =>
      obtain rfl := approve_eq_ok.mp hs
      exact h
  | increaseAllowance spender addedValue =>
      obtain ⟨-, rfl⟩ := increaseAllowance_eq_ok.mp hs
      exact h
  | decreaseAllowance spender subtractedValue =>
      obtain rfl := decreaseAllowance_eq_ok.mp hs
      exact h
  | mint a v =>
      obtain ⟨-, hmint⟩ := mint_eq_ok.mp hs
      exact h.mintTo hc hmint
  | burn a v =>
      obtain ⟨-, hburn⟩ := burn_eq_ok.mp hs
      exact h.burnFrom hc hfull hburn
  | rebaseOptIn =>
      obtain ⟨-, hfits, rfl⟩ := rebaseOptIn_eq_ok.mp hs
      exact h.optIn hc hfits hfull
  | rebaseOptOut =>
      obtain ⟨-, hfits, rfl⟩ := rebaseOptOut_eq_ok.mp hs
      exact h.optOut hc hfits
  | changeSupply newTotalSupply =>
      obtain ⟨-, -, ⟨-, rfl⟩ | ⟨-, -, rfl⟩⟩ := changeSupply_eq_ok.mp hs
      · exact h
      · exact le_rfl

/-- In every state of a run whose calls all tally in full, the tallies stand for
at most the supply. -/
theorem Reached.withinSupply {vaultAddress : Address} {trace : List (Ledger × (Msg × Call))}
    {s : Ledger} (h : Reached vaultAddress trace s)
    (hfull : ∀ e ∈ trace, e.1.TalliesInFull e.2) : s.WithinSupply := by
  have h0 : (initialized vaultAddress).WithinSupply := by
    have hzero : (initialized vaultAddress).represented = 0 := by
      simp [represented, initialized]
    unfold WithinSupply
    omega
  have hboth := Run.invariant_of_forall TalliesInFull
    (fun s => (∃ n, Conserved n s) ∧ s.WithinSupply)
    ⟨⟨0, conserved_initialized vaultAddress⟩, h0⟩
    (fun s call s' hi hc hs => by
      obtain ⟨⟨n, hn⟩, hw⟩ := hi
      exact ⟨⟨_, hn.exec hs⟩, hw.exec hn hc hs⟩) h hfull
  exact hboth.2

/-- In every state of a run whose calls all tally in full, the total supply covers what
the rebasing credits are worth at the global rate, together with the frozen tokens. -/
theorem supply_integrity {vaultAddress : Address} {trace : List (Ledger × (Msg × Call))}
    {s : Ledger} (h : Reached vaultAddress trace s) (hfull : ∀ e ∈ trace, e.1.TalliesInFull e.2) :
    s.rebasingCredits * fullScale / s.rebasingCreditsPerToken + s.nonRebasingSupply ≤
      s.totalSupply :=
  h.withinSupply hfull

/-- A run with a frozen account, a rebase and a transfer to it that is tallied in full. -/
theorem supply_integrity_inFull :
    ∃ trace s, Reached 9 trace s ∧ s.nonRebasingSupply = 3 ∧
      s.rebasingCredits * fullScale / s.rebasingCreditsPerToken + s.nonRebasingSupply ≤
        s.totalSupply := by
  have hcalls : Returns
      (execTrace exec [] (initialized 9)
        [(⟨9, fun a => a = 2⟩, .mint 1 2), (⟨9, fun a => a = 2⟩, .mint 2 1),
          (⟨9, fun a => a = 2⟩, .changeSupply 5), (⟨1, fun a => a = 2⟩, .transfer 2 2)])
      fun out => out.2.nonRebasingSupply = 3 ∧ ∀ e ∈ out.1, e.1.TalliesInFull e.2 := by decide
  obtain ⟨trace, s, hrun, htally, hfull⟩ := reached_of_returns hcalls
  exact ⟨trace, s, hrun, htally, supply_integrity hrun hfull⟩

/-- A transfer of 1 to the frozen account takes half a credit from the rebasing tally,
which is rounded down to none: the tally still stands for 4, and 2 tokens are frozen. -/
theorem supply_integrity_broken :
    ∃ trace s, Reached 9 trace s ∧ s.totalSupply = 5 ∧
      s.rebasingCredits * fullScale / s.rebasingCreditsPerToken + s.nonRebasingSupply = 6 := by
  have hcalls : Returns
      (execTrace exec [] (initialized 9)
        [(⟨9, fun a => a = 2⟩, .mint 1 2), (⟨9, fun a => a = 2⟩, .mint 2 1),
          (⟨9, fun a => a = 2⟩, .changeSupply 5), (⟨1, fun a => a = 2⟩, .transfer 2 1)])
      fun out => out.2.totalSupply = 5 ∧
        out.2.rebasingCredits * fullScale / out.2.rebasingCreditsPerToken +
          out.2.nonRebasingSupply = 6 := by decide
  obtain ⟨trace, s, hrun, hsupply, hsum⟩ := reached_of_returns hcalls
  exact ⟨trace, s, hrun, hsupply, hsum⟩

/-- A run of calls that tally in full keeps the sum of the balances within the supply too, if the
debits from frozen accounts are in full: what a debit from a rebasing account rounds off is still
in the rebasing tally. -/
theorem tallied_balances_le_totalSupply {vaultAddress : Address}
    {trace : List (Ledger × (Msg × Call))} {s : Ledger} (h : Reached vaultAddress trace s)
    (hfull : ∀ e ∈ trace, e.1.TalliesInFull e.2)
    (hfrozen : ∀ e ∈ trace, e.1.FrozenDebitsInFull e.2) :
    ∑ a, s.balance a ≤ s.totalSupply := by
  have hcredits : s.rebasingHeld ≤ s.rebasingCredits := by
    rw [h.conserved.credits]
    exact Nat.le_add_right _ _
  exact ((h.frozenCovered hfrozen).held_le_tallies hcredits).trans (h.withinSupply hfull)

/-- A transfer of 1 between two rebasing accounts whose credits are worth 2 tokens each. It takes
no credits, and adds none. -/
theorem tallied_balances_le_totalSupply_rounded :
    ∃ trace s, Reached 9 trace s ∧ s.balance 1 = 4 ∧ s.balance 3 = 4 ∧
      ¬ (∀ e ∈ trace, e.1.TakenInFull e.2) ∧ ∑ a, s.balance a ≤ s.totalSupply := by
  have hcalls : Returns
      (execTrace exec [] (initialized 9)
        [(⟨9, fun _ => false⟩, .mint 1 2), (⟨9, fun _ => false⟩, .mint 3 2),
          (⟨9, fun _ => false⟩, .changeSupply 8), (⟨1, fun _ => false⟩, .transfer 3 1)])
      fun out => out.2.balance 1 = 4 ∧ out.2.balance 3 = 4 ∧
        ¬ (∀ e ∈ out.1, e.1.TakenInFull e.2) ∧ (∀ e ∈ out.1, e.1.TalliesInFull e.2) ∧
          ∀ e ∈ out.1, e.1.FrozenDebitsInFull e.2 := by decide
  obtain ⟨trace, s, hrun, hfirst, hsecond, hrounded, hfull, hfrozen⟩ := reached_of_returns hcalls
  exact ⟨trace, s, hrun, hfirst, hsecond, hrounded,
    tallied_balances_le_totalSupply hrun hfull hfrozen⟩

/-! ## The balances -/

theorem credit_balance_ge {s : Ledger} {a x : Address} {v : ℕ} :
    s.balance x ≤ (s.credit a v).balance x := by
  by_cases hx : x = a
  · subst hx
    rw [balance, balance, credit_creditsPerToken, credit_creditBalances_self]
    exact worth_mono (Nat.le_add_right _ _)
  · exact (credit_sameOff.balance_eq hx).ge

/-- A mint takes nothing from anybody. -/
theorem mintTo_balance_ge {s s' : Ledger} {isContract : Address → Bool} {a x : Address} {v : ℕ}
    (hs : s.mintTo isContract a v = .ok s') : s.balance x ≤ s'.balance x := by
  obtain ⟨-, -, -, rfl⟩ := mintTo_eq_ok.mp hs
  have hmigrate : (s.migrate isContract a).balance x = s.balance x := congrFun migrate_balance x
  rw [← hmigrate]
  exact credit_balance_ge (s := s.migrate isContract a)

/-- A mint raises the balance of its account by at most its amount. -/
theorem mintTo_balance_le {s s' : Ledger} {isContract : Address → Bool} {a : Address} {v : ℕ}
    (hrate : 0 < s.rebasingCreditsPerToken) (hs : s.mintTo isContract a v = .ok s') :
    s'.balance a ≤ s.balance a + v := by
  obtain ⟨-, -, -, rfl⟩ := mintTo_eq_ok.mp hs
  have hpos : 0 < s.creditsPerToken a := creditsPerToken_pos hrate a
  have hminted : (((s.migrate isContract a).credit a v).addSupply v).balance a =
      worth fullScale (s.creditsPerToken a)
        (s.creditBalances a + shares fullScale (s.creditsPerToken a) v) := by
    change worth fullScale (((s.migrate isContract a).credit a v).creditsPerToken a)
      (((s.migrate isContract a).credit a v).creditBalances a) = _
    rw [credit_creditsPerToken, credit_creditBalances_self, creditsFor, migrate_creditsPerToken,
      migrate_creditBalances]
  rw [hminted]
  exact worth_add_shares_le hpos _ _

/-- A rate that is not above the old one takes nothing from anybody. -/
theorem setRate_balance_ge {s : Ledger} {rate : ℕ} (hpos : 0 < rate)
    (hle : rate ≤ s.rebasingCreditsPerToken) (x : Address) :
    s.balance x ≤ (s.setRate rate).balance x := by
  by_cases hx : s.Frozen x
  · exact (setRate_balance_of_frozen hx).ge
  · rw [balance, balance, creditsPerToken_of_not_frozen hx,
      creditsPerToken_of_not_frozen (mt setRate_frozen.mp hx)]
    exact worth_le_of_rate_le hpos hle

/-- A rebase to a higher supply takes nothing from anybody where the tallies are
within the supply and the supply is below its cap. -/
theorem WithinSupply.changeSupply_balance_ge {n : ℕ} {s s' : Ledger} {msg : Msg}
    {newTotalSupply : ℕ} (h : s.WithinSupply) (hc : Conserved n s)
    (hcap : s.totalSupply < maxSupply) (hlt : s.totalSupply < newTotalSupply)
    (hs : s.changeSupply msg newTotalSupply = .ok s') (x : Address) :
    s.balance x ≤ s'.balance x := by
  obtain ⟨-, -, ⟨-, rfl⟩ | ⟨-, hfits, rfl⟩⟩ := changeSupply_eq_ok.mp hs
  · exact le_rfl
  · have htarget : s.totalSupply < cappedSupply newTotalSupply := lt_min hlt hcap
    have hrepresented : s.represented ≤ s.totalSupply := h
    have hworth : worth fullScale s.rebasingCreditsPerToken s.rebasingCredits <
        cappedSupply newTotalSupply - s.nonRebasingSupply := by
      unfold represented at hrepresented
      omega
    exact setRate_balance_ge hfits.rate (rate_le_of_worth_lt hc.rate_pos hworth) x

/-- A rebase for a value: a fee may be minted where there is yield, and then the
supply is raised to the value where it is still below. -/
def Rebased (s : Ledger) (vaultValue : ℕ) (s' : Ledger) : Prop :=
  ∃ s₁,
    (s₁ = s ∨ s.totalSupply < vaultValue ∧ ∃ msg a fee, s.mint msg a fee = .ok s₁) ∧
      (s' = s₁ ∨ s₁.totalSupply < vaultValue ∧ ∃ msg, s₁.changeSupply msg vaultValue = .ok s')

theorem WithinSupply.rebased_balance_ge {n : ℕ} {s s' : Ledger} {vaultValue : ℕ}
    (h : s.WithinSupply) (hc : Conserved n s)
    (hcap : vaultValue ≤ s.totalSupply ∨ s.totalSupply < maxSupply)
    (hs : s.Rebased vaultValue s') (x : Address) : s.balance x ≤ s'.balance x := by
  obtain ⟨s₁, rfl | ⟨hlt, msg, a, fee, hmint⟩, hratchet⟩ := hs
  · rcases hratchet with rfl | ⟨hlt, msg, hchange⟩
    · exact le_rfl
    · exact h.changeSupply_balance_ge hc (hcap.resolve_left (not_le.mpr hlt)) hlt hchange x
  · obtain ⟨-, hminted⟩ := mint_eq_ok.mp hmint
    have hge : s.balance x ≤ s₁.balance x := mintTo_balance_ge hminted
    rcases hratchet with rfl | ⟨hlt, msg', hchange⟩
    · exact hge
    · have hc₁ := hc.exec (show s.exec (msg, .mint a fee) = .ok s₁ from hmint)
      have hcap₁ : s₁.totalSupply < maxSupply := by
        obtain ⟨-, -, hfits, rfl⟩ := mintTo_eq_ok.mp hminted
        exact hfits.supply
      exact hge.trans ((h.mintTo hc hminted).changeSupply_balance_ge hc₁ hcap₁ hlt hchange x)

end Ledger

end InterestDollar
