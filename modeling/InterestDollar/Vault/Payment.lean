import InterestDollar.Vault.Registry

/-!
# Paying the outputs of a redeem

The payment loop takes every output from one source. Whether it goes through does
not depend on the sum of an asset over the vault and its strategies but on single
holders: the vault itself, or else the default strategy, has to hold the whole
output. Where that is so of every output, and the tokens and strategies answer for
what they report, the loop goes through.
-/

namespace InterestDollar

open Checked Transition

namespace System

variable {ω : Type} {W : World ω} {s s' : System ω} {self governor priceProvider : Address}
  {world : ω} {trace : List (System ω × (Address × Action ω))}

/-- Two states of the world that differ in one asset at most. -/
def DifferOnlyIn (W : World ω) (asset : Address) (w w' : ω) : Prop :=
  ∀ other, other ≠ asset →
    (∀ holder, W.balanceOf w' other holder = W.balanceOf w other holder) ∧
      ∀ strategy, W.checkBalance w' strategy other = W.checkBalance w strategy other

/-- Tokens and strategies that answer for what they report: a transfer up to the
payer's balance and a withdrawal up to the balance of the strategy go through, and
neither touches another asset. -/
structure Honest (W : World ω) (payer : Address) : Prop where
  transfer {w : ω} {asset : Address} {amount balance : ℕ} (recipient : Address) :
    W.balanceOf w asset payer = .ok balance → amount ≤ balance →
      ∃ w', W.safeTransfer w payer asset recipient amount = .ok w' ∧ DifferOnlyIn W asset w w'
  withdraw {w : ω} {strategy asset : Address} {amount balance : ℕ} (recipient : Address) :
    W.checkBalance w strategy asset = .ok balance → amount ≤ balance →
      ∃ w', W.withdraw w payer strategy recipient asset amount = .ok w' ∧
        DifferOnlyIn W asset w w'

/-- One holder has the whole output: the vault, or the default strategy. -/
def Covered (W : World ω) (s : System ω) (asset : Address) (output : ℕ) : Prop :=
  Returns (W.balanceOf s.world asset s.vault.self) fun balance =>
    output ≤ balance ∨
      s.vault.assetDefaultStrategies asset ≠ 0 ∧
        Returns (W.checkBalance s.world (s.vault.assetDefaultStrategies asset) asset)
          fun held => output ≤ held

instance (W : World ω) (s : System ω) (asset : Address) (output : ℕ) :
    Decidable (s.Covered W asset output) :=
  inferInstanceAs (Decidable (Returns _ _))

theorem Covered.congr {w : ω} {asset other : Address} {output : ℕ} (h : s.Covered W other output)
    (hw : DifferOnlyIn W asset s.world w) (hne : other ≠ asset) :
    (s.setWorld w).Covered W other output := by
  obtain ⟨hbalance, hheld⟩ := hw other hne
  simpa only [Covered, setWorld, hbalance, hheld] using h

/-- A covered output is paid, and the other assets stay as they are. -/
theorem Covered.payOutput {asset : Address} {output : ℕ} (hw : Honest W s.vault.self)
    (h : s.Covered W asset output) (recipient : Address) :
    ∃ w, s.payOutput W recipient asset output = .ok (s.setWorld w) ∧
      DifferOnlyIn W asset s.world w := by
  by_cases hzero : output = 0
  · refine ⟨s.world, ?_, fun _ _ => ⟨fun _ => rfl, fun _ => rfl⟩⟩
    rw [System.payOutput, if_pos hzero]
    rfl
  obtain ⟨balance, hbalance, hcases⟩ := h
  rw [System.payOutput, if_neg hzero]
  by_cases hle : output ≤ balance
  · obtain ⟨w, htransfer, hdiffer⟩ := hw.transfer recipient hbalance hle
    refine ⟨w, bind_eq_ok.mpr ⟨balance, hbalance, ?_⟩, hdiffer⟩
    rw [if_pos hle, htransfer]
    rfl
  · obtain ⟨hstrategy, held, hheld, hcover⟩ := hcases.resolve_left hle
    obtain ⟨w, hwithdraw, hdiffer⟩ := hw.withdraw recipient hheld hcover
    refine ⟨w, bind_eq_ok.mpr ⟨balance, hbalance, ?_⟩, hdiffer⟩
    rw [if_neg hle]
    simp only [hstrategy, ne_eq, not_false_eq_true, if_true, hwithdraw]
    rfl

/-- The payment loop over assets each of which occurs once. -/
theorem foldlM_payOutput_succeeds {recipient : Address} {assets : List Address}
    {outputs : List ℕ} (hw : Honest W s.vault.self) (hnodup : assets.Nodup)
    (h : ∀ e ∈ assets.zip outputs, s.Covered W e.1 e.2) :
    Succeeds ((assets.zip outputs).foldlM
      (fun s (asset, output) => s.payOutput W recipient asset output) s) := by
  induction assets generalizing s outputs with
  | nil => exact succeeds_iff.mpr ⟨s, rfl⟩
  | cons asset assets ih =>
      cases outputs with
      | nil => exact succeeds_iff.mpr ⟨s, rfl⟩
      | cons output outputs =>
          rw [List.zip_cons_cons] at h ⊢
          obtain ⟨hnot, hrest⟩ := List.nodup_cons.mp hnodup
          obtain ⟨w, hpay, hdiffer⟩ := Covered.payOutput hw
            (h _ List.mem_cons_self) recipient
          have hcovered : ∀ e ∈ assets.zip outputs, (s.setWorld w).Covered W e.1 e.2 := by
            intro e he
            have hne : e.1 ≠ asset := by
              rintro rfl
              exact hnot (List.of_mem_zip he).1
            exact (h e (List.mem_cons_of_mem _ he)).congr hdiffer hne
          obtain ⟨s', hs'⟩ := succeeds_iff.mp (ih (s := s.setWorld w) hw hrest hcovered)
          refine succeeds_iff.mpr ⟨s', ?_⟩
          rw [List.foldlM_cons]
          exact bind_eq_ok.mpr ⟨_, hpay, hs'⟩

/-- From every reachable system, and wherever a function of the vault gets to from
one, the payment loop goes through if every output is covered by one holder. -/
theorem covered_outputs_paid {s₀ : System ω} {recipient : Address} {outputs : List ℕ}
    (h : Reached W self governor priceProvider world trace s₀) (hsmall : Small W s₀ s)
    (hw : Honest W s.vault.self)
    (hcovered : ∀ e ∈ s.vault.allAssets.zip outputs, s.Covered W e.1 e.2) :
    Succeeds (s.payOutputs W recipient outputs) :=
  foldlM_payOutput_succeeds hw (h.sound.small hsmall).registered.nodupAssets hcovered

/-- A token that moves in a plain world moves alone. -/
theorem plainWorld_moves {w : PlainWorld} {asset holder : Address} {amount : ℕ}
    (hle : amount ≤ w.balances asset holder) (recipient : Address) :
    ∃ w', w.move asset holder recipient amount = .ok w' ∧
      DifferOnlyIn PlainWorld.calls asset w w' := by
  obtain ⟨w', hmove, hothers⟩ := PlainWorld.move_succeeds hle recipient
  refine ⟨w', hmove, fun other hne => ⟨fun holder => ?_, fun strategy => ?_⟩⟩
  · simp [PlainWorld.calls, hothers other hne]
  · simp [PlainWorld.calls, hothers other hne]

/-- The tokens and strategies of a plain world answer for what they report. -/
theorem honest_plainWorld (payer : Address) : Honest PlainWorld.calls payer where
  transfer {w asset amount balance} recipient hbalance hle := by
    cases hbalance
    exact plainWorld_moves hle recipient
  withdraw {w strategy asset amount balance} recipient hbalance hle := by
    cases hbalance
    exact plainWorld_moves hle recipient

/-- Two assets, one held by the vault and one by its default strategy. -/
theorem covered_outputs_paid_both :
    ∃ trace s outputs, Reached PlainWorld.calls 9 8 7
        (((PlainWorld.empty [] [6]).give 5 1 10).give 6 1 10) trace s ∧
      s.calculateRedeemOutputs PlainWorld.calls 10 = .ok outputs ∧ outputs = [5, 5] ∧
        Succeeds (s.payOutputs PlainWorld.calls 1 outputs) := by
  have hsteps : Returns
      (execTrace (execFrom PlainWorld.calls) []
        (initialized 9 8 7 (((PlainWorld.empty [] [6]).give 5 1 10).give 6 1 10))
        [(8, .supportAsset 5), (8, .supportAsset 6), (8, .approveStrategy 21),
          (8, .setAssetDefaultStrategy 6 21), (8, .unpauseCapital), (1, .mint 5 10 0),
          (1, .mint 6 10 0), (1, .allocate)])
      fun out => Returns (out.2.calculateRedeemOutputs PlainWorld.calls 10) fun outputs =>
        outputs = [5, 5] ∧ out.2.vault.self = 9 ∧
          ∀ e ∈ out.2.vault.allAssets.zip outputs,
            out.2.Covered PlainWorld.calls e.1 e.2 := by decide
  obtain ⟨trace, s, hrun, outputs, houtputs, hlist, hself, hcovered⟩ := reached_of_returns hsteps
  refine ⟨trace, s, outputs, hrun, houtputs, hlist, ?_⟩
  exact covered_outputs_paid hrun .refl (honest_plainWorld _) hcovered

/-- Half of an asset is in the vault and half in its default strategy: an output
above a half is within the sum of the two, and neither pays it. -/
theorem held_output_not_paid :
    ∃ trace s outputs, Reached PlainWorld.calls 9 8 7 ((PlainWorld.empty [] [5]).give 5 1 10)
        trace s ∧
      Honest PlainWorld.calls s.vault.self ∧
        s.calculateRedeemOutputs PlainWorld.calls 8 = .ok outputs ∧
          (∀ e ∈ s.vault.allAssets.zip outputs,
            Returns (s.checkBalance PlainWorld.calls e.1) fun held => e.2 ≤ held) ∧
            ¬ Succeeds (s.payOutputs PlainWorld.calls 1 outputs) := by
  have hsteps : Returns
      (execTrace (execFrom PlainWorld.calls) []
        (initialized 9 8 7 ((PlainWorld.empty [] [5]).give 5 1 10))
        [(8, .supportAsset 5), (8, .approveStrategy 21), (8, .setAssetDefaultStrategy 5 21),
          (8, .setVaultBuffer (5 * 10 ^ 17)), (8, .unpauseCapital), (1, .mint 5 10 0),
          (1, .allocate)])
      fun out => Returns (out.2.calculateRedeemOutputs PlainWorld.calls 8) fun outputs =>
        (∀ e ∈ out.2.vault.allAssets.zip outputs,
          Returns (out.2.checkBalance PlainWorld.calls e.1) fun held => e.2 ≤ held) ∧
          ¬ Succeeds (out.2.payOutputs PlainWorld.calls 1 outputs) := by decide
  obtain ⟨trace, s, hrun, outputs, houtputs, hheld, hfails⟩ := reached_of_returns hsteps
  exact ⟨trace, s, outputs, hrun, honest_plainWorld _, houtputs, hheld, hfails⟩

end System

end InterestDollar
