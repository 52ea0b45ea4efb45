import InterestDollar.Token.Solvency

/-!
# Holders can move what they own

A transfer out of a frozen account takes the amount from `nonRebasingSupply`,
and an opt-in takes the whole balance from it. Both go through as long as that
tally covers the balances of the frozen accounts, and where the 256-bit words do
not overflow. What a call computes is collected in `TransferWords` and
`OptInWords`.
-/

namespace InterestDollar

open Checked FixedPoint Transition

namespace Ledger

/-- The products and sums of the migration of an account fit into words. -/
def MigrationWords (isContract : Address → Bool) (s : Ledger) (a : Address) : Prop :=
  s.NeedsMigration isContract a →
    s.creditBalances a * fullScale < wordBound ∧ s.nonRebasingSupply + s.balance a < wordBound

instance (isContract : Address → Bool) (s : Ledger) (a : Address) :
    Decidable (s.MigrationWords isContract a) :=
  inferInstanceAs (Decidable (_ → _))

/-- The products and sums of a transfer fit into words. -/
structure TransferWords (isContract : Address → Bool) (s : Ledger) (fromAcc toAcc : Address)
    (v : ℕ) : Prop where
  balance : s.creditBalances fromAcc * fullScale < wordBound
  migrateTo : s.MigrationWords isContract toAcc
  migrateFrom : (s.migrate isContract toAcc).MigrationWords isContract fromAcc
  credited : v * s.creditsPerToken toAcc < wordBound
  deducted : v * s.creditsPerToken fromAcc < wordBound
  received : s.creditBalances toAcc + s.creditsFor toAcc v < wordBound
  frozenTally : (s.settle isContract fromAcc toAcc).nonRebasingSupply + v < wordBound
  rebasingTally :
    (s.settle isContract fromAcc toAcc).rebasingCredits + s.creditsFor toAcc v < wordBound

/-- The products and sums of an opt-in fit into words. -/
structure OptInWords (isContract : Address → Bool) (s : Ledger) (a : Address) : Prop where
  migrate : s.MigrationWords isContract a
  balance : s.creditBalances a * fullScale < wordBound
  product : s.creditBalances a * s.rebasingCreditsPerToken < wordBound
  rebasingTally :
    (s.migrate isContract a).rebasingCredits + s.convertedCredits a < wordBound

instance (isContract : Address → Bool) (s : Ledger) (fromAcc toAcc : Address) (v : ℕ) :
    Decidable (TransferWords isContract s fromAcc toAcc v) :=
  decidable_of_iff
    (s.creditBalances fromAcc * fullScale < wordBound ∧ s.MigrationWords isContract toAcc ∧
      (s.migrate isContract toAcc).MigrationWords isContract fromAcc ∧
        v * s.creditsPerToken toAcc < wordBound ∧ v * s.creditsPerToken fromAcc < wordBound ∧
          s.creditBalances toAcc + s.creditsFor toAcc v < wordBound ∧
            (s.settle isContract fromAcc toAcc).nonRebasingSupply + v < wordBound ∧
              (s.settle isContract fromAcc toAcc).rebasingCredits + s.creditsFor toAcc v <
                wordBound)
    ⟨fun ⟨h1, h2, h3, h4, h5, h6, h7, h8⟩ => ⟨h1, h2, h3, h4, h5, h6, h7, h8⟩,
      fun ⟨h1, h2, h3, h4, h5, h6, h7, h8⟩ => ⟨h1, h2, h3, h4, h5, h6, h7, h8⟩⟩

instance (isContract : Address → Bool) (s : Ledger) (a : Address) :
    Decidable (OptInWords isContract s a) :=
  decidable_of_iff
    (s.MigrationWords isContract a ∧ s.creditBalances a * fullScale < wordBound ∧
      s.creditBalances a * s.rebasingCreditsPerToken < wordBound ∧
        (s.migrate isContract a).rebasingCredits + s.convertedCredits a < wordBound)
    ⟨fun ⟨h1, h2, h3, h4⟩ => ⟨h1, h2, h3, h4⟩, fun ⟨h1, h2, h3, h4⟩ => ⟨h1, h2, h3, h4⟩⟩

section Succeed

variable {n : ℕ} {s : Ledger} {isContract : Address → Bool} {a fromAcc toAcc : Address} {v : ℕ}

theorem balanceFits_of_word (hrate : 0 < s.rebasingCreditsPerToken)
    (h : s.creditBalances a * fullScale < wordBound) : s.BalanceFits a :=
  fun _ => ⟨h, creditsPerToken_pos hrate a⟩

theorem Conserved.migrationFits (h : Conserved n s) (hw : s.MigrationWords isContract a) :
    s.MigrationFits isContract a := by
  intro hm
  obtain ⟨hbalance, htally⟩ := hw hm
  exact ⟨balanceFits_of_word h.rate_pos hbalance, htally, h.creditBalances_le hm.2.2⟩

/-- The balance of a frozen account is in the tally of the frozen accounts. -/
theorem FrozenCovered.balance_le (h : s.FrozenCovered) (ha : s.Frozen a) :
    s.balance a ≤ s.nonRebasingSupply := by
  have hpart := frozenPart_le_held s a
  rw [frozenPart_of_frozen ha] at hpart
  exact hpart.trans h

theorem settle_moveFits (hc : Conserved n (s.settle isContract fromAcc toAcc))
    (hf : (s.settle isContract fromAcc toAcc).FrozenCovered) (hv : v ≤ s.balance fromAcc)
    (hw : TransferWords isContract s fromAcc toAcc v) :
    MoveFits (s.settle isContract fromAcc toAcc) fromAcc toAcc v := by
  have hfor : ∀ x, (s.settle isContract fromAcc toAcc).creditsFor x v = s.creditsFor x v :=
    fun x => by rw [creditsFor, creditsFor, settle_creditsPerToken]
  have henough : s.creditsFor fromAcc v ≤ s.creditBalances fromAcc := shares_le_of_le_worth hv
  refine ⟨?_, ?_, ?_, ?_, ?_, ?_⟩
  · rw [settle_creditsPerToken]
    exact hw.credited
  · rw [settle_creditsPerToken]
    exact hw.deducted
  · rw [hfor, settle_creditBalances]
    exact henough
  · rw [hfor, hfor, settle_creditBalances]
    refine lt_of_le_of_lt (Nat.add_le_add_right ?_ _) hw.received
    by_cases heq : toAcc = fromAcc
    · subst heq
      rw [Function.update_self]
      exact Nat.sub_le _ _
    · rw [Function.update_of_ne heq]
  · intro _ hfrom
    refine ⟨hw.frozenTally, ?_⟩
    have hle := hc.creditBalances_le hfrom
    rw [settle_creditBalances] at hle
    rw [hfor]
    exact henough.trans hle
  · intro _ hfrom
    have hle := hf.balance_le hfrom
    rw [settle_balance] at hle
    refine ⟨hv.trans hle, ?_⟩
    rw [hfor]
    exact hw.rebasingTally

/-- Where the tallies cover what they stand for, a transfer of an amount within
the sender's balance goes through. -/
theorem transfer_succeeds (hc : Conserved n s) (hf : s.FrozenCovered) (hto : toAcc ≠ 0)
    (hv : v ≤ s.balance fromAcc) (hw : TransferWords isContract s fromAcc toAcc v) :
    Succeeds (s.transfer ⟨fromAcc, isContract⟩ toAcc v) := by
  have hmoved : s.executeTransfer isContract fromAcc toAcc v = .ok _ :=
    (executeTransfer_eq_ok hc.rate_pos).mpr
      ⟨hc.migrationFits hw.migrateTo, (hc.migrate isContract toAcc).migrationFits hw.migrateFrom,
        settle_moveFits (hc.settle _ _ _) (hf.settle hc.rate_pos _ _ _) hv hw, rfl⟩
  exact succeeds_iff.mpr
    ⟨_, transfer_eq_ok.mpr ⟨hto, balanceFits_of_word hc.rate_pos hw.balance, hv, hmoved⟩⟩

/-- Where the tallies cover what they stand for, a non-rebasing account can opt
in. -/
theorem rebaseOptIn_succeeds (hc : Conserved n s) (hf : s.FrozenCovered)
    (ha : s.NonRebasing isContract a) (hw : OptInWords isContract s a) :
    Succeeds (s.rebaseOptIn ⟨a, isContract⟩) := by
  have hcm := hc.migrate isContract a
  have hfrozen : (s.migrate isContract a).Frozen a := (migrate_frozen hc.rate_pos).mpr ha
  have hfits : OptInFits (s.migrate isContract a) a := by
    refine ⟨hfrozen, ?_, ?_, (hf.migrate hc.rate_pos isContract a).balance_le hfrozen, ?_⟩
    · rw [migrate_creditBalances, migrate_rate]
      exact hw.product
    · refine balanceFits_of_word hcm.rate_pos ?_
      rw [migrate_creditBalances]
      exact hw.balance
    · rw [convertedCredits, migrate_creditBalances, migrate_rate, migrate_creditsPerToken]
      exact hw.rebasingTally
  exact succeeds_iff.mpr ⟨_, rebaseOptIn_eq_ok.mpr ⟨hc.migrationFits hw.migrate, hfits, rfl⟩⟩

end Succeed

/-! ## The tally of the frozen accounts never underflows -/

section Underflow

/-- A computation that does not underflow `nonRebasingSupply`. -/
abbrev KeepsFrozenTally {α : Type} (x : Except Revert α) : Prop :=
  Avoids (.subtractionOverflow .nonRebasingSupply) x

variable {n : ℕ} {s : Ledger} {isContract : Address → Bool} {a fromAcc toAcc : Address} {v : ℕ}

theorem balanceOf_keepsFrozenTally : KeepsFrozenTally (s.balanceOf a) :=
  avoids_ite (fun _ => avoids_ok) fun _ => StableMath.divPrecisely_avoids

theorem isNonRebasingAccount_keepsFrozenTally :
    KeepsFrozenTally (s.isNonRebasingAccount isContract a) := by
  refine avoids_bind ?_ fun _ _ => avoids_pure
  refine avoids_ite (fun _ => ?_) fun _ => avoids_pure
  refine avoids_ite (fun _ => ?_) fun _ => avoids_pure
  refine avoids_bind balanceOf_keepsFrozenTally fun _ _ => ?_
  refine avoids_bind SafeMath.add_avoids fun _ _ => ?_
  exact avoids_bind (SafeMath.sub_avoids fun heq => nomatch heq) fun _ _ => avoids_pure

theorem FrozenCovered.executeTransfer_keepsFrozenTally (hc : Conserved n s)
    (hf : s.FrozenCovered) (hv : v ≤ s.balance fromAcc) :
    KeepsFrozenTally (s.executeTransfer isContract fromAcc toAcc v) := by
  refine avoids_bind isNonRebasingAccount_keepsFrozenTally fun p hp => ?_
  obtain ⟨-, rfl⟩ := isNonRebasingAccount_eq_ok.mp hp
  refine avoids_bind isNonRebasingAccount_keepsFrozenTally fun p hp => ?_
  obtain ⟨-, rfl⟩ := isNonRebasingAccount_eq_ok.mp hp
  have hm : (s.settle isContract fromAcc toAcc).FrozenCovered := hf.settle hc.rate_pos _ _ _
  refine avoids_bind StableMath.mulTruncate_avoids fun _ _ => ?_
  refine avoids_bind StableMath.mulTruncate_avoids fun _ _ => ?_
  refine avoids_bind SafeMath.subOr_avoids fun _ _ => ?_
  refine avoids_bind SafeMath.add_avoids fun _ _ => ?_
  refine avoids_ite (fun _ => ?_) fun _ => avoids_ite (fun hkind => ?_) fun _ => avoids_pure
  · refine avoids_bind SafeMath.add_avoids fun _ _ => ?_
    exact avoids_bind (SafeMath.sub_avoids fun heq => nomatch heq) fun _ _ => avoids_pure
  · have hfrom : (s.settle isContract fromAcc toAcc).Frozen fromAcc := by
      exact of_decide_eq_true (Bool.and_eq_true_iff.mp hkind).2
    have hle := hm.balance_le hfrom
    rw [settle_balance] at hle
    refine avoids_bind (SafeMath.sub_avoids fun _ => hv.trans hle) fun _ _ => ?_
    exact avoids_bind SafeMath.add_avoids fun _ _ => avoids_pure

theorem FrozenCovered.transfer_keepsFrozenTally (hc : Conserved n s) (hf : s.FrozenCovered)
    (msg : Msg) (toAcc : Address) (v : ℕ) : KeepsFrozenTally (s.transfer msg toAcc v) := by
  refine avoids_bind require_avoids fun _ _ => ?_
  refine avoids_bind balanceOf_keepsFrozenTally fun b hb => ?_
  refine avoids_bind require_avoids fun _ hreq => ?_
  obtain ⟨-, rfl⟩ := balanceOf_eq_ok.mp hb
  exact hf.executeTransfer_keepsFrozenTally hc (require_eq_ok.mp hreq)

theorem FrozenCovered.rebaseOptIn_keepsFrozenTally (hc : Conserved n s) (hf : s.FrozenCovered)
    (msg : Msg) : KeepsFrozenTally (s.rebaseOptIn msg) := by
  refine avoids_bind isNonRebasingAccount_keepsFrozenTally fun p hp => ?_
  obtain ⟨-, rfl⟩ := isNonRebasingAccount_eq_ok.mp hp
  refine avoids_bind require_avoids fun _ hreq => ?_
  refine avoids_bind SafeMath.mul_avoids fun _ _ => ?_
  refine avoids_bind SafeMath.div_avoids fun _ _ => ?_
  refine avoids_bind balanceOf_keepsFrozenTally fun b hb => ?_
  obtain ⟨-, rfl⟩ := balanceOf_eq_ok.mp hb
  have hm := hf.migrate hc.rate_pos msg.isContract msg.sender
  have hle := hm.balance_le (of_decide_eq_true (require_eq_ok.mp hreq))
  refine avoids_bind (SafeMath.sub_avoids fun _ => hle) fun _ _ => ?_
  exact avoids_bind SafeMath.add_avoids fun _ _ => avoids_pure

end Underflow

/-- In every state of a run whose debits from frozen accounts are all in full, a
holder can transfer any amount within its balance, a non-rebasing account can opt
in, where no word overflows, and neither underflows `nonRebasingSupply`. -/
theorem holders_can_move {vaultAddress : Address} {trace : List (Ledger × (Msg × Call))}
    {s : Ledger} (h : Reached vaultAddress trace s)
    (hfull : ∀ e ∈ trace, e.1.FrozenDebitsInFull e.2) (isContract : Address → Bool) :
    (∀ fromAcc toAcc v, toAcc ≠ 0 → v ≤ s.balance fromAcc →
        TransferWords isContract s fromAcc toAcc v →
          Succeeds (s.transfer ⟨fromAcc, isContract⟩ toAcc v)) ∧
      (∀ a, s.NonRebasing isContract a → OptInWords isContract s a →
          Succeeds (s.rebaseOptIn ⟨a, isContract⟩)) ∧
        ∀ msg, (∀ toAcc v,
            s.transfer msg toAcc v ≠ .error (.subtractionOverflow .nonRebasingSupply)) ∧
          s.rebaseOptIn msg ≠ .error (.subtractionOverflow .nonRebasingSupply) := by
  have hc := h.conserved
  have hf := h.frozenCovered hfull
  refine ⟨?_, ?_, ?_⟩
  · intro fromAcc toAcc v hto hv hw
    exact transfer_succeeds hc hf hto hv hw
  · intro a ha hw
    exact rebaseOptIn_succeeds hc hf ha hw
  · intro msg
    exact ⟨hf.transfer_keepsFrozenTally hc msg, hf.rebaseOptIn_keepsFrozenTally hc msg⟩

/-- A contract that holds 3 can send some of it on, and can opt in. -/
theorem holders_can_move_inFull :
    ∃ trace s, Reached 9 trace s ∧ s.Frozen 2 ∧
      Succeeds (s.transfer ⟨2, fun a => a = 2⟩ 1 1) ∧
        Succeeds (s.rebaseOptIn ⟨2, fun a => a = 2⟩) := by
  have hcalls : Returns
      (execTrace exec [] (initialized 9)
        [(⟨9, fun a => a = 2⟩, .mint 1 2), (⟨9, fun a => a = 2⟩, .mint 2 1),
          (⟨9, fun a => a = 2⟩, .changeSupply 5), (⟨1, fun a => a = 2⟩, .transfer 2 2)])
      fun out => (∀ e ∈ out.1, e.1.FrozenDebitsInFull e.2) ∧ out.2.Frozen 2 ∧
        1 ≤ out.2.balance 2 ∧ TransferWords (fun a => a = 2) out.2 2 1 1 ∧
          OptInWords (fun a => a = 2) out.2 2 := by decide
  obtain ⟨trace, s, hrun, hfull, hfrozen, hv, htransfer, hoptIn⟩ := reached_of_returns hcalls
  have hmove := holders_can_move hrun hfull fun a => a = 2
  exact ⟨trace, s, hrun, hfrozen, hmove.1 2 1 1 (by decide) hv htransfer,
    hmove.2.1 2 (.inl hfrozen) hoptIn⟩

/-- Two contracts receive and pass on amounts whose debits are rounded down; the
tally of the frozen accounts runs out while one of them still holds 2. -/
theorem holder_cannot_move :
    ∃ trace s, Reached 9 trace s ∧ 1 ≤ s.balance 4 ∧
      TransferWords (fun a => a = 2 ∨ a = 4) s 4 1 1 ∧
        s.transfer ⟨4, fun a => a = 2 ∨ a = 4⟩ 1 1 =
          .error (.subtractionOverflow .nonRebasingSupply) := by
  have hcalls : Returns
      (execTrace exec [] (initialized 9)
        [(⟨9, fun a => a = 2 ∨ a = 4⟩, .mint 1 2), (⟨9, fun a => a = 2 ∨ a = 4⟩, .mint 2 1),
          (⟨9, fun a => a = 2 ∨ a = 4⟩, .changeSupply 5),
          (⟨9, fun a => a = 2 ∨ a = 4⟩, .mint 4 2),
          (⟨4, fun a => a = 2 ∨ a = 4⟩, .transfer 2 1),
          (⟨4, fun a => a = 2 ∨ a = 4⟩, .transfer 2 1),
          (⟨2, fun a => a = 2 ∨ a = 4⟩, .transfer 1 3)])
      fun out => 1 ≤ out.2.balance 4 ∧ TransferWords (fun a => a = 2 ∨ a = 4) out.2 4 1 1 ∧
        FailsWith (.subtractionOverflow .nonRebasingSupply)
          (out.2.transfer ⟨4, fun a => a = 2 ∨ a = 4⟩ 1 1) := by decide
  obtain ⟨trace, s, hrun, hbalance, hwords, hfails⟩ := reached_of_returns hcalls
  exact ⟨trace, s, hrun, hbalance, hwords, hfails⟩

end Ledger

end InterestDollar
