import InterestDollar.Token.Solvency

/-!
# What a call does to the balances

A balance is the worth of an account's credits, and a call turns amounts into credits and
back, rounding down each time. What is lost on the way is worth at most one credit of the
account, `creditWorth`. Here are the effects of a transfer, of opting in and out, and of a
rebase, with these bounds.

The rate in force for an account is the one it has before the call: a migration in the
middle of it freezes that rate.
-/

namespace InterestDollar

open Checked FixedPoint Transition

namespace Ledger

/-- What one credit of an account is worth, rounded up. -/
def creditWorth (s : Ledger) (a : Address) : ℕ := fullScale ⌈/⌉ s.creditsPerToken a

/-! ## Transfers -/

section Transfers

variable {s s' : Ledger} {isContract : Address → Bool} {a fromAcc toAcc : Address} {v : ℕ}

/-- A credit raises the balance by the amount, short of one credit. -/
theorem add_le_credit_balance (hrate : 0 < s.rebasingCreditsPerToken) :
    s.balance a + v ≤ (s.credit a v).balance a + s.creditWorth a := by
  have hpos : 0 < s.creditsPerToken a := creditsPerToken_pos hrate a
  rw [balance, balance, credit_creditsPerToken, credit_creditBalances_self]
  exact worth_add_le_add_shares fullScale_pos hpos _ _

/-- A debit lowers the balance by at most the amount. -/
theorem balance_le_debit_add (hrate : 0 < s.rebasingCreditsPerToken)
    (henough : s.creditsFor a v ≤ s.creditBalances a) :
    s.balance a ≤ (s.debit a v).balance a + v := by
  have hpos : 0 < s.creditsPerToken a := creditsPerToken_pos hrate a
  rw [balance, balance, debit_creditsPerToken, debit_creditBalances_self]
  exact worth_le_sub_shares_add hpos henough

/-- A debit lowers the balance by the amount, short of one credit. -/
theorem debit_balance_add_le (hrate : 0 < s.rebasingCreditsPerToken)
    (henough : s.creditsFor a v ≤ s.creditBalances a) :
    (s.debit a v).balance a + v ≤ s.balance a + s.creditWorth a := by
  have hpos : 0 < s.creditsPerToken a := creditsPerToken_pos hrate a
  rw [balance, balance, debit_creditsPerToken, debit_creditBalances_self]
  exact worth_sub_shares_add_le fullScale_pos hpos henough

/-- What a transfer of `v` does to the balances. Between two accounts each balance moves by at
most `v`, and by no less than `v` short of one credit. -/
structure TransferEffect (s : Ledger) (fromAcc toAcc : Address) (v : ℕ) (s' : Ledger) :
    Prop where
  sent : fromAcc ≠ toAcc →
    s'.balance fromAcc + v ≤ s.balance fromAcc + s.creditWorth fromAcc ∧
      s.balance fromAcc ≤ s'.balance fromAcc + v
  received : fromAcc ≠ toAcc →
    s.balance toAcc + v ≤ s'.balance toAcc + s.creditWorth toAcc ∧
      s'.balance toAcc ≤ s.balance toAcc + v
  toSelf : fromAcc = toAcc → s'.balance = s.balance
  others : ∀ x, x ≠ fromAcc → x ≠ toAcc → s'.balance x = s.balance x
  totalSupply : s'.totalSupply = s.totalSupply
  rate : s'.rebasingCreditsPerToken = s.rebasingCreditsPerToken

/-- Crediting one account and debiting another are two independent moves. -/
theorem move_effect (hrate : 0 < s.rebasingCreditsPerToken)
    (henough : s.creditsFor fromAcc v ≤ s.creditBalances fromAcc) :
    TransferEffect s fromAcc toAcc v ((s.credit toAcc v).debit fromAcc v) := by
  have hcredit : SameOff toAcc s (s.credit toAcc v) := credit_sameOff
  have hdebit : SameOff fromAcc (s.credit toAcc v) ((s.credit toAcc v).debit fromAcc v) :=
    debit_sameOff
  have henough' : (s.credit toAcc v).creditsFor fromAcc v ≤
      (s.credit toAcc v).creditBalances fromAcc := Conserved.creditsFor_le_credit henough
  have hrate' : 0 < (s.credit toAcc v).rebasingCreditsPerToken := hrate
  refine ⟨?_, ?_, ?_, ?_, rfl, rfl⟩
  · intro hne
    rw [← hcredit.balance_eq hne]
    exact ⟨debit_balance_add_le hrate' henough', balance_le_debit_add hrate' henough'⟩
  · intro hne
    rw [hdebit.balance_eq hne.symm]
    exact ⟨add_le_credit_balance hrate, credit_balance_le hrate⟩
  · rintro rfl
    rw [credit_debit_self]
  · intro x hfrom hto
    rw [hdebit.balance_eq hfrom, hcredit.balance_eq hto]

theorem executeTransfer_effect (hrate : 0 < s.rebasingCreditsPerToken)
    (hs : s.executeTransfer isContract fromAcc toAcc v = .ok s') :
    TransferEffect s fromAcc toAcc v s' := by
  obtain ⟨-, -, hfits, rfl⟩ := (executeTransfer_eq_ok hrate).mp hs
  have hrate' : 0 < (s.settle isContract fromAcc toAcc).rebasingCreditsPerToken := by
    rw [settle_rate]
    exact hrate
  have hmove : TransferEffect _ fromAcc toAcc v _ := move_effect hrate' hfits.enough
  -- the migrations leave the balances and the rates in force as they were
  obtain ⟨hsent, hreceived, hself, hothers, hsupply, hglobal⟩ := hmove
  simp only [settle_balance, settle_totalSupply, settle_rate, creditWorth,
    settle_creditsPerToken] at hsent hreceived hself hothers hsupply hglobal
  exact ⟨hsent, hreceived, hself, hothers, hsupply, hglobal⟩

end Transfers

/-- In every state a run reaches, a transfer that succeeds moves the balances of its two
parties by the amount, up to one credit of each, and no other balance. -/
theorem transfers_exact {vaultAddress : Address} {trace : List (Ledger × (Msg × Call))}
    {s : Ledger} (h : Reached vaultAddress trace s) :
    (∀ msg toAcc v s', s.transfer msg toAcc v = .ok s' →
        TransferEffect s msg.sender toAcc v s') ∧
      ∀ msg fromAcc toAcc v s', s.transferFrom msg fromAcc toAcc v = .ok s' →
        TransferEffect s fromAcc toAcc v s' := by
  have hrate : 0 < s.rebasingCreditsPerToken := h.conserved.rate_pos
  constructor
  · intro msg toAcc v s' hs
    obtain ⟨-, -, -, hmoved⟩ := transfer_eq_ok.mp hs
    exact executeTransfer_effect hrate hmoved
  · intro msg fromAcc toAcc v s' hs
    obtain ⟨-, -, -, -, hmoved⟩ := transferFrom_eq_ok.mp hs
    have heffect := executeTransfer_effect
      (s := s.setAllowance fromAcc msg.sender (s.allowances fromAcc msg.sender - v)) hrate hmoved
    exact ⟨heffect.sent, heffect.received, heffect.toSelf, heffect.others, heffect.totalSupply,
      heffect.rate⟩

/-- A transfer by a rebasing account that migrates the contract it goes to, and one on behalf
of the contract. -/
theorem transfers_exact_migrating :
    ∃ trace s s₁ s₂, Reached 9 trace s ∧ s.NeedsMigration (fun a => a = 2) 2 ∧
      TransferEffect s 1 2 3 s₁ ∧ TransferEffect s 2 1 1 s₂ := by
  have hcalls : Returns
      (execTrace exec [] (initialized 9)
        [(⟨9, fun _ => false⟩, .mint 1 4), (⟨9, fun _ => false⟩, .mint 2 2),
          (⟨9, fun _ => false⟩, .changeSupply 7), (⟨2, fun _ => false⟩, .approve 5 1)])
      fun out => out.2.NeedsMigration (fun a => a = 2) 2 ∧
        Succeeds (out.2.transfer ⟨1, fun a => a = 2⟩ 2 3) ∧
          Succeeds (out.2.transferFrom ⟨5, fun a => a = 2⟩ 2 1 1) := by decide
  obtain ⟨trace, s, hrun, hneeds, hsent, hspent⟩ := reached_of_returns hcalls
  obtain ⟨s₁, hs₁⟩ := succeeds_iff.mp hsent
  obtain ⟨s₂, hs₂⟩ := succeeds_iff.mp hspent
  exact ⟨trace, s, s₁, s₂, hrun, hneeds, (transfers_exact hrun).1 _ _ _ _ hs₁,
    (transfers_exact hrun).2 _ _ _ _ _ hs₂⟩

/-! ## Opting in and out -/

section Choosing

variable {s s₁ s₂ : Ledger} {isContract : Address → Bool} {msg msg' : Msg} {a : Address}

theorem optOut_creditsPerToken (ha : ¬ s.Frozen a) :
    (s.optOut a).creditsPerToken = s.creditsPerToken := freeze_creditsPerToken ha

theorem optOut_balance (ha : ¬ s.Frozen a) : (s.optOut a).balance = s.balance :=
  freeze_balance ha

/-- Credits frozen at the global rate are carried over to it unchanged. -/
theorem optOut_convertedCredits (hrate : 0 < s.rebasingCreditsPerToken) (ha : ¬ s.Frozen a) :
    (s.optOut a).convertedCredits a = s.creditBalances a := by
  rw [convertedCredits, optOut_creditsPerToken ha, creditsPerToken_of_not_frozen ha]
  exact Nat.mul_div_cancel _ hrate

/-- Opting out and in again leaves nothing but the choice. -/
theorem optOut_optIn (hrate : 0 < s.rebasingCreditsPerToken) (ha : ¬ s.Frozen a)
    (htally : s.creditBalances a ≤ s.rebasingCredits) :
    (s.optOut a).optIn a =
      { s with rebaseState := Function.update s.rebaseState a .optIn } := by
  have hfrozenRate : Function.update (s.optOut a).nonRebasingCreditsPerToken a 0 =
      s.nonRebasingCreditsPerToken := by
    have hzero : s.nonRebasingCreditsPerToken a = 0 := not_not.mp ha
    change Function.update (Function.update s.nonRebasingCreditsPerToken a _) a 0 = _
    rw [Function.update_idem, ← hzero, Function.update_eq_self]
  have hstate : Function.update (s.optOut a).rebaseState a .optIn =
      Function.update s.rebaseState a .optIn := Function.update_idem _ _ _
  have hcredits : Function.update (s.optOut a).creditBalances a (s.creditBalances a) =
      s.creditBalances := Function.update_eq_self _ _
  have hfrozen : (s.optOut a).nonRebasingSupply - s.balance a = s.nonRebasingSupply :=
    Nat.add_sub_cancel _ _
  have hrebasing : (s.optOut a).rebasingCredits + s.creditBalances a = s.rebasingCredits :=
    Nat.sub_add_cancel htally
  rw [optIn, optOut_convertedCredits hrate ha, optOut_balance ha, hfrozenRate, hstate, hcredits,
    hfrozen, hrebasing]
  rfl

/-- An account that could opt out was not migrated by it: it would be frozen. -/
theorem migrate_of_optOutFits (hrate : 0 < s.rebasingCreditsPerToken)
    (h : OptOutFits (s.migrate isContract a) a) : s.migrate isContract a = s := by
  have hnot : ¬ s.NonRebasing isContract a := mt (migrate_frozen hrate).mpr h.notFrozen
  exact if_neg fun hneeds => hnot (.inr hneeds)

/-- What opting in does to the balances: that of the account falls by at most one credit at
the global rate. -/
structure OptInEffect (s : Ledger) (a : Address) (s' : Ledger) : Prop where
  atMost : s'.balance a ≤ s.balance a
  atLeast : s.balance a ≤ s'.balance a + fullScale ⌈/⌉ s.rebasingCreditsPerToken
  others : ∀ x, x ≠ a → s'.balance x = s.balance x
  totalSupply : s'.totalSupply = s.totalSupply

theorem optIn_effect (hrate : 0 < s.rebasingCreditsPerToken) :
    OptInEffect s a (s.optIn a) := by
  refine ⟨optIn_balance_le hrate, ?_, fun x hx => optIn_sameOff.balance_eq hx, rfl⟩
  have hself : (s.optIn a).creditBalances a = s.convertedCredits a := Function.update_self _ _ _
  have hpos : 0 < s.creditsPerToken a := creditsPerToken_pos hrate a
  rw [balance, balance, creditsPerToken_of_not_frozen optIn_not_frozen, hself]
  exact worth_le_convert hpos hrate _

theorem rebaseOptIn_effect (hrate : 0 < s.rebasingCreditsPerToken)
    (hs : s.rebaseOptIn msg = .ok s₁) : OptInEffect s msg.sender s₁ := by
  obtain ⟨-, -, rfl⟩ := rebaseOptIn_eq_ok.mp hs
  have hrate' : 0 < (s.migrate msg.isContract msg.sender).rebasingCreditsPerToken := by
    rw [migrate_rate]
    exact hrate
  have heffect := optIn_effect (a := msg.sender) hrate'
  -- migrating the account first leaves every balance as it was
  obtain ⟨hmost, hleast, hothers, hsupply⟩ := heffect
  simp only [migrate_balance, migrate_rate, migrate_totalSupply] at hmost hleast hothers hsupply
  exact ⟨hmost, hleast, hothers, hsupply⟩

/-- Opting out again takes from the tally what opting in put there. -/
theorem rebaseOptIn_rebaseOptOut (hrate : 0 < s.rebasingCreditsPerToken)
    (hsender : msg'.sender = msg.sender) (hin : s.rebaseOptIn msg = .ok s₁)
    (hout : s₁.rebaseOptOut msg' = .ok s₂) :
    s₂.rebasingCredits = (s.migrate msg.isContract msg.sender).rebasingCredits := by
  obtain ⟨-, -, rfl⟩ := rebaseOptIn_eq_ok.mp hin
  obtain ⟨-, hfits, rfl⟩ := rebaseOptOut_eq_ok.mp hout
  rw [hsender] at hfits ⊢
  generalize hm : s.migrate msg.isContract msg.sender = m at hfits ⊢
  have hrate' : 0 < (m.optIn msg.sender).rebasingCreditsPerToken := by
    rw [← hm]
    exact hrate.trans_eq migrate_rate.symm
  rw [migrate_of_optOutFits hrate' hfits]
  have hself : (m.optIn msg.sender).creditBalances msg.sender = m.convertedCredits msg.sender :=
    Function.update_self _ _ _
  change m.rebasingCredits + m.convertedCredits msg.sender -
    (m.optIn msg.sender).creditBalances msg.sender = _
  rw [hself, Nat.add_sub_cancel]

theorem rebaseOptOut_rebaseOptIn (hrate : 0 < s.rebasingCreditsPerToken)
    (hsender : msg'.sender = msg.sender) (hout : s.rebaseOptOut msg = .ok s₁)
    (hin : s₁.rebaseOptIn msg' = .ok s₂) :
    s₂ = { s with rebaseState := Function.update s.rebaseState msg.sender .optIn } := by
  obtain ⟨-, hfits, rfl⟩ := rebaseOptOut_eq_ok.mp hout
  obtain ⟨-, -, rfl⟩ := rebaseOptIn_eq_ok.mp hin
  have hstay : s.migrate msg.isContract msg.sender = s := migrate_of_optOutFits hrate hfits
  rw [hstay] at hfits ⊢
  have hfrozen : (s.optOut msg.sender).Frozen msg.sender := freeze_frozen hrate
  rw [hsender, migrate_of_frozen hfrozen]
  exact optOut_optIn hrate hfits.notFrozen hfits.rebasingTally

end Choosing

/-- In every state a run reaches, an account that opts out and in again is where it was, in
its credits and its rate, and so are the tallies; and opting in never raises the balance, lowers
it by at most one credit, and is undone in the tally by opting out. -/
theorem opting_lossless {vaultAddress : Address} {trace : List (Ledger × (Msg × Call))}
    {s : Ledger} (h : Reached vaultAddress trace s) :
    (∀ msg msg' s₁ s₂, msg'.sender = msg.sender → s.rebaseOptOut msg = .ok s₁ →
        s₁.rebaseOptIn msg' = .ok s₂ →
          s₂ = { s with rebaseState := Function.update s.rebaseState msg.sender .optIn } ∧
            s₂.balance = s.balance) ∧
      ∀ msg s₁, s.rebaseOptIn msg = .ok s₁ →
        OptInEffect s msg.sender s₁ ∧
          ∀ msg' s₂, msg'.sender = msg.sender → s₁.rebaseOptOut msg' = .ok s₂ →
            s₂.rebasingCredits = (s.migrate msg.isContract msg.sender).rebasingCredits ∧
              (s.Frozen msg.sender → s₂.rebasingCredits = s.rebasingCredits) := by
  have hrate : 0 < s.rebasingCreditsPerToken := h.conserved.rate_pos
  constructor
  · intro msg msg' s₁ s₂ hsender hout hin
    have hback := rebaseOptOut_rebaseOptIn hrate hsender hout hin
    refine ⟨hback, ?_⟩
    rw [hback]
    rfl
  · intro msg s₁ hin
    refine ⟨rebaseOptIn_effect hrate hin, fun msg' s₂ hsender hout => ?_⟩
    have hback := rebaseOptIn_rebaseOptOut hrate hsender hin hout
    refine ⟨hback, fun hfrozen => ?_⟩
    rwa [migrate_of_frozen hfrozen] at hback

/-- An account opts out and in, and a contract that was frozen before a rebase opts in
and out. -/
theorem opting_lossless_rebased :
    ∃ trace s s₁ s₂, Reached 9 trace s ∧ s.Frozen 2 ∧
      s₁ = { s with rebaseState := Function.update s.rebaseState 1 .optIn } ∧
        OptInEffect s 2 s₂ := by
  have hcalls : Returns
      (execTrace exec [] (initialized 9)
        [(⟨9, fun a => a = 2⟩, .mint 1 4), (⟨9, fun a => a = 2⟩, .mint 2 2),
          (⟨9, fun a => a = 2⟩, .changeSupply 9)])
      fun out => out.2.Frozen 2 ∧
        Succeeds (out.2.rebaseOptOut ⟨1, fun a => a = 2⟩ >>= fun s₁ =>
          s₁.rebaseOptIn ⟨1, fun a => a = 2⟩) ∧
          Succeeds (out.2.rebaseOptIn ⟨2, fun a => a = 2⟩) := by decide
  obtain ⟨trace, s, hrun, hfrozen, hboth, hin⟩ := reached_of_returns hcalls
  obtain ⟨s₂, hs₂⟩ := succeeds_iff.mp hboth
  obtain ⟨s₁, hout, hback⟩ := bind_eq_ok.mp hs₂
  obtain ⟨s₃, hs₃⟩ := succeeds_iff.mp hin
  exact ⟨trace, s, s₂, s₃, hrun, hfrozen,
    ((opting_lossless hrun).1 _ _ _ _ rfl hout hback).1, ((opting_lossless hrun).2 _ _ hs₃).1⟩

/-! ## Rebases -/

section Rebasing

variable {n : ℕ} {s s' : Ledger} {msg : Msg} {newTotalSupply : ℕ}

/-- What a rebase to a supply does. It lands on the supply, capped, or over it by at most a
part of the rebasing supply for each step the rate was rounded to. -/
structure RebaseEffect (s : Ledger) (newTotalSupply : ℕ) (s' : Ledger) : Prop where
  atLeast : cappedSupply newTotalSupply ≤ s'.totalSupply
  atMost : s'.totalSupply ≤ cappedSupply newTotalSupply +
    (cappedSupply newTotalSupply - s.nonRebasingSupply) / s'.rebasingCreditsPerToken
  rebasingCredits : s'.rebasingCredits = s.rebasingCredits
  nonRebasingSupply : s'.nonRebasingSupply = s.nonRebasingSupply
  creditBalances : s'.creditBalances = s.creditBalances
  frozen : ∀ a, s.Frozen a → s'.balance a = s.balance a
  rebasing : (∑ a with s'.nonRebasingCreditsPerToken a = 0, s'.balance a) ≤
    s'.totalSupply - s.nonRebasingSupply

/-- The balances of the rebasing accounts are within what their tally is worth. -/
theorem Conserved.rebasing_balances_le (h : Conserved n s) :
    ∑ a with s.nonRebasingCreditsPerToken a = 0, s.balance a ≤
      worth fullScale s.rebasingCreditsPerToken s.rebasingCredits := by
  have hbalance : ∀ a ∈ Finset.univ.filter fun a => s.nonRebasingCreditsPerToken a = 0,
      s.balance a = worth fullScale s.rebasingCreditsPerToken (s.creditBalances a) := by
    intro a ha
    have hnot : ¬ s.Frozen a := not_not.mpr (Finset.mem_filter.mp ha).2
    rw [balance, creditsPerToken_of_not_frozen hnot]
  rw [Finset.sum_congr rfl hbalance]
  refine (sum_worth_le _ _).trans (worth_mono ?_)
  rw [← rebasingHeld_eq, h.credits]
  exact Nat.le_add_right _ _

/-- The supply after a rebase is the one it aims at or just above it. -/
theorem setRate_bounds (hfits : RebaseFits s newTotalSupply) :
    cappedSupply newTotalSupply ≤ (s.setRate (s.rebasedRate newTotalSupply)).totalSupply ∧
      (s.setRate (s.rebasedRate newTotalSupply)).totalSupply ≤ cappedSupply newTotalSupply +
        (cappedSupply newTotalSupply - s.nonRebasingSupply) / s.rebasedRate newTotalSupply := by
  have hcovers : s.nonRebasingSupply ≤ cappedSupply newTotalSupply := hfits.covers
  obtain ⟨hleast, hmost⟩ := worth_at_rate_bounds (k := s.rebasingCredits) hfits.rate
  change _ ≤ worth fullScale (s.rebasedRate newTotalSupply) s.rebasingCredits at hleast
  change worth fullScale (s.rebasedRate newTotalSupply) s.rebasingCredits ≤
    _ + _ / s.rebasedRate newTotalSupply at hmost
  change _ ≤ worth fullScale (s.rebasedRate newTotalSupply) s.rebasingCredits +
    s.nonRebasingSupply ∧ worth fullScale (s.rebasedRate newTotalSupply) s.rebasingCredits +
      s.nonRebasingSupply ≤ _
  omega

theorem setRate_effect (h : Conserved n s) (hfits : RebaseFits s newTotalSupply) :
    RebaseEffect s newTotalSupply (s.setRate (s.rebasedRate newTotalSupply)) := by
  obtain ⟨hleast, hmost⟩ := setRate_bounds hfits
  refine ⟨hleast, hmost, rfl, rfl, rfl, fun a ha => setRate_balance_of_frozen ha, ?_⟩
  have htotal : (s.setRate (s.rebasedRate newTotalSupply)).totalSupply =
      worth fullScale (s.rebasedRate newTotalSupply) s.rebasingCredits +
        s.nonRebasingSupply := rfl
  rw [htotal, Nat.add_sub_cancel]
  exact (h.setRate hfits.rate).rebasing_balances_le

end Rebasing

/-- In every state a run reaches, a rebase to another supply that succeeds lands on the request
or just above it. -/
theorem changeSupply_exact {vaultAddress : Address} {trace : List (Ledger × (Msg × Call))}
    {s : Ledger} (h : Reached vaultAddress trace s) {msg : Msg} {newTotalSupply : ℕ}
    {s' : Ledger} (hne : newTotalSupply ≠ s.totalSupply)
    (hs : s.changeSupply msg newTotalSupply = .ok s') : RebaseEffect s newTotalSupply s' := by
  obtain ⟨-, -, ⟨heq, -⟩ | ⟨-, hfits, rfl⟩⟩ := changeSupply_eq_ok.mp hs
  · exact absurd heq.symm hne
  · exact setRate_effect h.conserved hfits

/-- A rebase from 6 to 9 tokens, 2 of them of a frozen account. -/
theorem changeSupply_exact_small :
    ∃ trace s s', Reached 9 trace s ∧ s.Frozen 2 ∧ RebaseEffect s 9 s' := by
  have hcalls : Returns
      (execTrace exec [] (initialized 9)
        [(⟨9, fun a => a = 2⟩, .mint 1 4), (⟨9, fun a => a = 2⟩, .mint 2 2)])
      fun out => out.2.Frozen 2 ∧ 9 ≠ out.2.totalSupply ∧
        Succeeds (out.2.changeSupply ⟨9, fun _ => false⟩ 9) := by decide
  obtain ⟨trace, s, hrun, hfrozen, hne, hchange⟩ := reached_of_returns hcalls
  obtain ⟨s', hs'⟩ := succeeds_iff.mp hchange
  exact ⟨trace, s, s', hrun, hfrozen, changeSupply_exact hrun hne hs'⟩

end Ledger

end InterestDollar
