import InterestDollar.Strategy.Mapping
import InterestDollar.Strategy.PlainPlatform
import InterestDollar.Vault.Counting
import InterestDollar.Vault.Outputs

/-!
# What a redeem pays out

The vault takes a withdrawal from a strategy that returns for a full payment. It is one with
two of the strategies. The Compound strategy returns without a payment where the output is
worth less than the smallest unit of the cToken. So a redeem that goes through pays every
output exactly or, in that case, not at all, and burns exactly the amount.
-/

namespace InterestDollar

open Checked Transition

section

variable {ω : Type} (P : Platform ω)

/-- What a holder has of a token. -/
def Platform.held (w : ω) (token holder : Address) : ℕ := amountOf (P.balanceOf w token holder)

/-- An account has the same of the assets as before. -/
def Leaves (assets : List Address) (account : Address) (w w' : ω) : Prop :=
  ∀ token ∈ assets, P.held w' token account = P.held w token account

/-- An account has an amount more of one of the assets, and the same of the others. -/
structure Receives (assets : List Address) (account asset : Address) (amount : ℕ) (w w' : ω) :
    Prop where
  gain : P.held w' asset account = P.held w asset account + amount
  others : ∀ token ∈ assets, token ≠ asset → P.held w' token account = P.held w token account

/-- Standard tokens: a transfer by another account gives an account the amount where it is the
recipient, and changes nothing else it has. -/
structure StandardTransfers (assets : List Address) (account : Address) : Prop where
  received {w w' : ω} {caller token : Address} {amount : ℕ} : caller ≠ account →
    P.safeTransfer w caller token account amount = .ok w' →
      Receives P assets account token amount w w'
  others {w w' : ω} {caller token recipient : Address} {amount : ℕ} : caller ≠ account →
    recipient ≠ account → P.safeTransfer w caller token recipient amount = .ok w' →
      Leaves P assets account w w'

/-- The platforms of the strategy leave what an account has of the assets alone in the calls
that `withdraw` makes: what they pay, they pay to the strategy. -/
def Strategy.PaysItself (assets : List Address) (account : Address) : Strategy → Prop
  | .aave s =>
      (∀ w w' amount, P.unstake w s.self s.ubeStakingAddress amount = .ok w' →
        Leaves P assets account w w') ∧
      (∀ w w' aToken1 aToken2 liquidity deadline, P.removeLiquidity w s.self s.uniswapAddr aToken1
        aToken2 liquidity 0 0 s.self deadline = .ok w' → Leaves P assets account w w') ∧
      ∀ w w' amount, ∀ asset ∈ assets,
        P.redeemAToken w s.self (s.assetToPToken asset) amount = .ok w' →
          Leaves P assets account w w'
  | .compound s =>
      ∀ w w' amount code, ∀ asset ∈ assets,
        P.redeemUnderlying w s.self (s.assetToPToken asset) amount = .ok (w', code) →
          Leaves P assets account w w'
  | .threePool s =>
      (∀ w w' amount, P.gaugeWithdraw w s.self s.crvGaugeAddress amount = .ok w' →
        Leaves P assets account w w') ∧
      ∀ w w' amount index minAmount, P.removeLiquidityOneCoin w s.self s.platformAddress amount
        index minAmount = .ok w' → Leaves P assets account w w'

end

variable {ω : Type} {P : Platform ω} {assets : List Address} {account : Address} {w w₁ w' : ω}

theorem Leaves.refl (w : ω) : Leaves P assets account w w := fun _ _ => rfl

theorem Leaves.trans (h : Leaves P assets account w w₁) (h' : Leaves P assets account w₁ w') :
    Leaves P assets account w w' :=
  fun token hmem => (h' token hmem).trans (h token hmem)

theorem Leaves.receives (h : Leaves P assets account w w') {asset : Address}
    (hasset : asset ∈ assets) : Receives P assets account asset 0 w w' where
  gain := h asset hasset
  others token hmem _ := h token hmem

theorem Receives.of_leaves {asset : Address} {amount : ℕ} (hasset : asset ∈ assets)
    (h : Leaves P assets account w w₁) (h' : Receives P assets account asset amount w₁ w') :
    Receives P assets account asset amount w w' where
  gain := by rw [h'.gain, h asset hasset]
  others token hmem hne := (h'.others token hmem hne).trans (h token hmem)

theorem Receives.then_leaves {asset : Address} {amount : ℕ} (hasset : asset ∈ assets)
    (h : Receives P assets account asset amount w w₁) (h' : Leaves P assets account w₁ w') :
    Receives P assets account asset amount w w' where
  gain := by rw [h' asset hasset, h.gain]
  others token hmem hne := (h' token hmem).trans (h.others token hmem hne)

/-! ## The strategies -/

/-- The Compound strategy's withdrawal of an amount that is worth less than the smallest unit of
the cToken. -/
def Strategy.Skips (P : Platform ω) (w : ω) (asset : Address) (amount : ℕ) : Strategy → Prop
  | .compound s =>
      Returns (CompoundStrategy.convertUnderlyingToCToken P w (s.assetToPToken asset) amount)
        fun cTokens => cTokens = 0
  | _ => False

instance (t : Strategy) (asset : Address) (amount : ℕ) : Decidable (t.Skips P w asset amount) := by
  cases t <;> unfold Strategy.Skips <;> infer_instance

section

variable {sender asset : Address} {amount : ℕ}

/-- The Aave strategy pays the whole amount. -/
theorem AaveStrategy.withdraw_receives {s : AaveStrategy} (hasset : asset ∈ assets)
    (htokens : StandardTransfers P assets account) (hself : s.self ≠ account)
    (hpays : (Strategy.aave s).PaysItself P assets account)
    (h : s.withdraw P w sender account asset amount = .ok w') :
    Receives P assets account asset amount w w' := by
  obtain ⟨_, -, h⟩ := bind_eq_ok.mp h
  obtain ⟨_, -, h⟩ := bind_eq_ok.mp h
  obtain ⟨_, -, h⟩ := bind_eq_ok.mp h
  obtain ⟨aToken, haToken, h⟩ := bind_eq_ok.mp h
  obtain ⟨_, -, haToken⟩ := bind_eq_ok.mp haToken
  cases pure_eq_ok.mp haToken
  obtain ⟨w₁, hliquidity, h⟩ := bind_eq_ok.mp h
  obtain ⟨w₂, hredeem, htransfer⟩ := bind_eq_ok.mp h
  have hliquidity : Leaves P assets account w w₁ := by
    refine ensures_ite (fun _ => ?_) (fun _ => ensures_pure (.refl w)) w₁ hliquidity
    refine ensures_of_bind fun _ _ => ensures_ite (fun _ => ?_) fun _ => ensures_pure (.refl w)
    exact AaveStrategy.ensures_takeOut .refl .trans (hpays.1 _ _ _ ·)
      (hpays.2.1 _ _ _ _ _ _ ·) w asset
  have hredeem := hpays.2.2 w₁ w₂ amount asset hasset (callAt_eq_ok.mp hredeem).2
  exact (htokens.received hself (callAt_eq_ok.mp htransfer).2).of_leaves hasset
    (hliquidity.trans hredeem)

/-- The Compound strategy pays the whole amount unless it skips it. -/
theorem CompoundStrategy.withdraw_receives {s : CompoundStrategy} (hasset : asset ∈ assets)
    (htokens : StandardTransfers P assets account) (hself : s.self ≠ account)
    (hpays : (Strategy.compound s).PaysItself P assets account)
    (h : s.withdraw P w sender account asset amount = .ok w') :
    Receives P assets account asset
      (if (Strategy.compound s).Skips P w asset amount then 0 else amount) w w' := by
  obtain ⟨_, -, h⟩ := bind_eq_ok.mp h
  obtain ⟨_, -, h⟩ := bind_eq_ok.mp h
  obtain ⟨_, -, h⟩ := bind_eq_ok.mp h
  obtain ⟨cToken, hcToken, h⟩ := bind_eq_ok.mp h
  obtain ⟨_, -, hcToken⟩ := bind_eq_ok.mp hcToken
  cases pure_eq_ok.mp hcToken
  obtain ⟨cTokens, hcTokens, h⟩ := bind_eq_ok.mp h
  by_cases hzero : cTokens = 0
  · have hskips : (Strategy.compound s).Skips P w asset amount := ⟨cTokens, hcTokens, hzero⟩
    rw [if_pos hzero] at h
    cases pure_eq_ok.mp h
    rw [if_pos hskips]
    exact (Leaves.refl w).receives hasset
  · have hpaid : ¬ (Strategy.compound s).Skips P w asset amount :=
      fun hskips => hzero (hskips.of_eq_ok hcTokens)
    rw [if_neg hzero] at h
    obtain ⟨⟨w₁, code⟩, hredeem, h⟩ := bind_eq_ok.mp h
    obtain ⟨_, -, htransfer⟩ := bind_eq_ok.mp h
    rw [if_neg hpaid]
    have hredeem := hpays w w₁ amount code asset hasset (callAt_eq_ok.mp hredeem).2
    exact (htokens.received hself (callAt_eq_ok.mp htransfer).2).of_leaves hasset hredeem

/-- The strategy of the pool pays the whole amount; what it has left of the coin goes to the
vault. -/
theorem ThreePoolStrategy.withdraw_receives {s : ThreePoolStrategy} (hasset : asset ∈ assets)
    (htokens : StandardTransfers P assets account) (hself : s.self ≠ account)
    (hpays : (Strategy.threePool s).PaysItself P assets account) (hsender : sender ≠ account)
    (h : s.withdraw P w sender account asset amount = .ok w') :
    Receives P assets account asset amount w w' := by
  obtain ⟨_, hvault, h⟩ := bind_eq_ok.mp h
  have hvault : s.vaultAddress ≠ account := AbstractStrategy.onlyVault_eq_ok.mp hvault ▸ hsender
  obtain ⟨_, -, h⟩ := bind_eq_ok.mp h
  obtain ⟨_, -, h⟩ := bind_eq_ok.mp h
  obtain ⟨⟨contractPTokens, _, totalPTokens⟩, -, h⟩ := bind_eq_ok.mp h
  obtain ⟨_, -, h⟩ := bind_eq_ok.mp h
  obtain ⟨index, -, h⟩ := bind_eq_ok.mp h
  obtain ⟨_, -, h⟩ := bind_eq_ok.mp h
  obtain ⟨_, -, h⟩ := bind_eq_ok.mp h
  obtain ⟨_, -, h⟩ := bind_eq_ok.mp h
  obtain ⟨w₁, hgauge, h⟩ := bind_eq_ok.mp h
  obtain ⟨_, -, h⟩ := bind_eq_ok.mp h
  obtain ⟨_, -, h⟩ := bind_eq_ok.mp h
  obtain ⟨_, -, h⟩ := bind_eq_ok.mp h
  obtain ⟨w₂, hremove, h⟩ := bind_eq_ok.mp h
  obtain ⟨w₃, htransfer, h⟩ := bind_eq_ok.mp h
  obtain ⟨dust, -, h⟩ := bind_eq_ok.mp h
  have hgauge : Leaves P assets account w w₁ := by
    refine ensures_ite (fun _ => ?_) (fun _ => ensures_pure (.refl w)) w₁ hgauge
    refine ensures_of_bind fun _ _ => ?_
    exact fun w' h => hpays.1 w w' _ (callAt_eq_ok.mp h).2
  have hremove := hpays.2 w₁ w₂ _ _ _ (callAt_eq_ok.mp hremove).2
  have hdust : Leaves P assets account w₃ w' := by
    refine ensures_ite (fun _ => ?_) (fun _ => ensures_pure (.refl w₃)) w' h
    exact fun w' h => htokens.others hself hvault (callAt_eq_ok.mp h).2
  exact ((htokens.received hself (callAt_eq_ok.mp htransfer).2).of_leaves hasset
    (hgauge.trans hremove)).then_leaves hasset hdust

theorem Strategy.withdraw_receives {t : Strategy} (hasset : asset ∈ assets)
    (htokens : StandardTransfers P assets account) (hself : t.base.self ≠ account)
    (hpays : t.PaysItself P assets account) (hsender : sender ≠ account)
    (h : t.withdraw P w sender account asset amount = .ok w') :
    Receives P assets account asset (if t.Skips P w asset amount then 0 else amount) w w' := by
  cases t with
  | aave s =>
      rw [if_neg (show ¬ (Strategy.aave s).Skips P w asset amount from id)]
      exact AaveStrategy.withdraw_receives hasset htokens hself hpays h
  | compound s => exact CompoundStrategy.withdraw_receives hasset htokens hself hpays h
  | threePool s =>
      rw [if_neg (show ¬ (Strategy.threePool s).Skips P w asset amount from id)]
      exact ThreePoolStrategy.withdraw_receives hasset htokens hself hpays hsender h

end

namespace System

variable {s s' : System (Surroundings ω)} {asset : Address} {output : ℕ}

/-- The vault has less of an asset than the output, and the default strategy skips it. -/
def Skips (P : Platform ω) (s : System (Surroundings ω)) (asset : Address) (output : ℕ) : Prop :=
  P.held s.world.platform asset s.vault.self < output ∧
    ∃ t ∈ s.world.strategies (s.vault.assetDefaultStrategies asset),
      t.Skips P s.world.platform asset output

instance : Decidable (s.Skips P asset output) := inferInstanceAs (Decidable (_ ∧ _))

/-- An account that gets what it is paid: standard tokens, default strategies of the three kinds
whose platforms pay to them, and the account none of these, and not the vault. -/
structure Payable (P : Platform ω) (s : System (Surroundings ω)) (account : Address) : Prop where
  tokens : StandardTransfers P s.vault.allAssets account
  vault : s.vault.self ≠ account
  notStrategy : s.world.strategies account = none
  defaults : ∀ asset ∈ s.vault.allAssets, s.vault.assetDefaultStrategies asset ≠ 0 →
    ∃ t ∈ s.world.strategies (s.vault.assetDefaultStrategies asset),
      t.PaysItself P s.vault.allAssets account

theorem Payable.setPlatform (h : s.Payable P account) (w : ω) :
    (s.setWorld (s.world.setPlatform w)).Payable P account where
  tokens := h.tokens
  vault := h.vault
  notStrategy := h.notStrategy
  defaults := h.defaults

/-- One payment gives the output, unless it is skipped. -/
theorem Payable.payOutput (h : s.Payable P account) (hasset : asset ∈ s.vault.allAssets)
    (hs : s.payOutput P.world account asset output = .ok s') :
    ∃ w, s' = s.setWorld (s.world.setPlatform w) ∧
      Receives P s.vault.allAssets account asset (if s.Skips P asset output then 0 else output)
        s.world.platform w := by
  unfold System.payOutput at hs
  split_ifs at hs with hzero
  · cases pure_eq_ok.mp hs
    refine ⟨s.world.platform, rfl, ?_⟩
    rw [hzero, ite_self]
    exact (Leaves.refl _).receives hasset
  obtain ⟨balance, hbalance, hs⟩ := bind_eq_ok.mp hs
  have hheld : P.held s.world.platform asset s.vault.self = balance := amountOf_eq hbalance
  by_cases hle : output ≤ balance
  · rw [if_pos hle] at hs
    obtain ⟨x, hx, hs⟩ := bind_eq_ok.mp hs
    cases pure_eq_ok.mp hs
    obtain ⟨w, htransfer, rfl⟩ := Surroundings.lift_eq_ok.mp hx
    refine ⟨w, rfl, ?_⟩
    rw [if_neg (fun hskips => absurd (hheld ▸ hskips.1) (not_lt.mpr hle))]
    exact h.tokens.received h.vault htransfer
  · rw [if_neg hle] at hs
    dsimp only at hs
    split_ifs at hs with hdefault
    obtain ⟨x, hx, hs⟩ := bind_eq_ok.mp hs
    cases pure_eq_ok.mp hs
    obtain ⟨t, ht, hpays⟩ := h.defaults asset hasset hdefault
    obtain ⟨w, hwithdraw, rfl⟩ := (Surroundings.callLift_eq_ok ht).mp hx
    have hself : t.base.self ≠ account := by
      rw [s.world.self_eq _ t ht]
      rintro heq
      rw [heq, h.notStrategy] at ht
      cases ht
    have hskips : s.Skips P asset output ↔ t.Skips P s.world.platform asset output := by
      unfold System.Skips
      rw [hheld]
      constructor
      · rintro ⟨-, t', ht', hskips⟩
        cases Option.mem_unique ht ht'
        exact hskips
      · exact fun hskips => ⟨not_le.mp hle, t, ht, hskips⟩
    refine ⟨w, rfl, ?_⟩
    simp only [hskips]
    exact Strategy.withdraw_receives hasset h.tokens hself hpays h.vault hwithdraw

/-- The payments for a list of assets with their outputs, as the loop makes them. -/
def payEntries (P : Platform ω) (recipient : Address) (s : System (Surroundings ω))
    (entries : List (Address × ℕ)) : Except Revert (System (Surroundings ω)) :=
  entries.foldlM (fun s e => s.payOutput P.world recipient e.1 e.2) s

theorem payOutputs_eq (recipient : Address) (s : System (Surroundings ω)) (outputs : List ℕ) :
    s.payOutputs P.world recipient outputs =
      s.payEntries P recipient (s.vault.allAssets.zip outputs) :=
  rfl

/-- The payment loop changes only the platform, and of what the account has only the assets it
pays out. -/
theorem Payable.payEntries {entries : List (Address × ℕ)} (h : s.Payable P account)
    (hassets : ∀ e ∈ entries, e.1 ∈ s.vault.allAssets)
    (hs : s.payEntries P account entries = .ok s') :
    ∃ w, s' = s.setWorld (s.world.setPlatform w) ∧
      ∀ token ∈ s.vault.allAssets, token ∉ entries.map Prod.fst →
        P.held w token account = P.held s.world.platform token account := by
  induction entries generalizing s with
  | nil =>
      cases pure_eq_ok.mp hs
      exact ⟨_, rfl, fun _ _ _ => rfl⟩
  | cons e entries ih =>
      obtain ⟨he, hassets⟩ := List.forall_mem_cons.mp hassets
      rw [System.payEntries, List.foldlM_cons] at hs
      obtain ⟨s₁, hpay, hs⟩ := bind_eq_ok.mp hs
      obtain ⟨w₁, rfl, hreceives⟩ := h.payOutput he hpay
      obtain ⟨w, rfl, hleaves⟩ := ih (h.setPlatform w₁) hassets hs
      refine ⟨w, rfl, fun token htoken hnot => ?_⟩
      simp only [List.map_cons, List.mem_cons, not_or] at hnot
      obtain ⟨hne, hnot⟩ := hnot
      exact (hleaves token htoken hnot).trans (hreceives.others token htoken hne)

/-- What the loop pays of each asset: the output, unless it is skipped when its turn comes. -/
theorem Payable.payEntries_gain {entries before rest : List (Address × ℕ)}
    (h : s.Payable P account) (hassets : ∀ e ∈ entries, e.1 ∈ s.vault.allAssets)
    (hnodup : (entries.map Prod.fst).Nodup)
    (hs : s.payEntries P account entries = .ok s')
    (hsplit : entries = before ++ (asset, output) :: rest) :
    ∃ t, s.payEntries P account before = .ok t ∧
      P.held s'.world.platform asset account = P.held s.world.platform asset account +
        if t.Skips P asset output then 0 else output := by
  subst hsplit
  rw [System.payEntries, List.foldlM_append] at hs
  obtain ⟨t, hbefore, hs⟩ := bind_eq_ok.mp hs
  rw [List.foldlM_cons] at hs
  obtain ⟨u, hpay, hrest⟩ := bind_eq_ok.mp hs
  refine ⟨t, hbefore, ?_⟩
  simp only [List.forall_mem_append, List.forall_mem_cons] at hassets
  obtain ⟨hassetsBefore, hasset, hassetsRest⟩ := hassets
  rw [List.map_append, List.map_cons, List.nodup_append] at hnodup
  obtain ⟨-, hnodup, hdisjoint⟩ := hnodup
  have hnotRest : asset ∉ rest.map Prod.fst := (List.nodup_cons.mp hnodup).1
  have hnotBefore : asset ∉ before.map Prod.fst :=
    fun hmem => hdisjoint asset hmem asset List.mem_cons_self rfl
  obtain ⟨w₁, rfl, hleaves⟩ := h.payEntries hassetsBefore hbefore
  obtain ⟨w₂, rfl, hreceives⟩ := (h.setPlatform w₁).payOutput hasset hpay
  obtain ⟨w₃, rfl, hleaves'⟩ :=
    ((h.setPlatform w₁).setPlatform w₂).payEntries hassetsRest hrest
  have h₁ := hleaves asset hasset hnotBefore
  have h₂ := hreceives.gain
  have h₃ := hleaves' asset hasset hnotRest
  simp only [setWorld, Surroundings.setPlatform] at h₂ h₃ ⊢
  rw [h₃, h₂, h₁]

/-! ## The redeem -/

theorem callOusd_burn_totalSupply {W : World (Surroundings ω)} {amount : ℕ}
    (h : s.callOusd W s.vault.self (.burn account amount) = .ok s') :
    s'.ousd.totalSupply + amount = s.ousd.totalSupply := by
  obtain ⟨ousd, hexec, rfl⟩ := callOusd_eq_ok.mp h
  obtain ⟨-, hburn⟩ := Ledger.burn_eq_ok.mp hexec
  obtain ⟨-, ⟨rfl, rfl⟩ | ⟨-, -, hfits, rfl⟩⟩ := Ledger.burnFrom_eq_ok.mp hburn
  · rfl
  · have hle := hfits.supply
    simp only [Ledger.subSupply, Ledger.dropDust_totalSupply, Ledger.debit_totalSupply,
      Ledger.migrate_totalSupply] at hle ⊢
    omega

/-- What a redeem of an amount has done when it has gone through: the account has each output
more, or nothing where its payment was skipped, and the amount is burnt. -/
structure Redeemed (P : Platform ω) (s : System (Surroundings ω)) (account : Address)
    (amount : ℕ) (s' : System (Surroundings ω)) : Prop where
  paid : ∃ outputs, s.calculateRedeemOutputs P.world amount = .ok outputs ∧
    outputs.length = s.vault.allAssets.length ∧
      ∀ (i : ℕ) asset output, s.vault.allAssets[i]? = some asset → outputs[i]? = some output →
        ∃ t, s.payEntries P account ((s.vault.allAssets.zip outputs).take i) = .ok t ∧
          P.held s'.world.platform asset account = P.held s.world.platform asset account +
            if t.Skips P asset output then 0 else output
  burnt : ∃ t u : System (Surroundings ω), t.ousd = s.ousd ∧
    t.callOusd P.world s.vault.self (.burn account amount) = .ok u ∧
      u.ousd.totalSupply + amount = s.ousd.totalSupply ∧ u.rebaseForRedeem P.world amount = .ok s'

theorem calculateRedeemOutputs_length {W : World (Surroundings ω)} {amount : ℕ}
    {outputs : List ℕ} (h : s.calculateRedeemOutputs W amount = .ok outputs) :
    outputs.length = s.vault.allAssets.length := by
  obtain ⟨coins, _, hcoins, -, -, rfl⟩ := calculateRedeemOutputs_eq_ok h
  rw [List.length_map, (coins_eq_ok.mp hcoins).length_eq]

theorem Payable.redeemAmount {amount minimum : ℕ} (h : s.Payable P account)
    (hr : s.vault.Registered) (hs : s.redeemAmount P.world account amount minimum = .ok s') :
    Redeemed P s account amount s' := by
  obtain ⟨_, -, hs⟩ := bind_eq_ok.mp hs
  obtain ⟨_, -, hs⟩ := bind_eq_ok.mp hs
  obtain ⟨_, -, hs⟩ := bind_eq_ok.mp hs
  obtain ⟨outputs, houtputs, hs⟩ := bind_eq_ok.mp hs
  obtain ⟨t, hpay, hs⟩ := bind_eq_ok.mp hs
  obtain ⟨_, -, hs⟩ := bind_eq_ok.mp hs
  obtain ⟨u, hburn, hrebase⟩ := bind_eq_ok.mp hs
  have hassets : ∀ e ∈ s.vault.allAssets.zip outputs, e.1 ∈ s.vault.allAssets :=
    fun e he => (List.of_mem_zip he).1
  have hlength := calculateRedeemOutputs_length houtputs
  have hfst : (s.vault.allAssets.zip outputs).map Prod.fst = s.vault.allAssets :=
    List.map_fst_zip hlength.ge
  rw [payOutputs_eq] at hpay
  obtain ⟨w, rfl, -⟩ := h.payEntries hassets hpay
  have hworld : s'.world.platform = w := by
    rw [rebaseForRedeem_world hrebase, callOusd_world hburn]
    rfl
  have hsupply := callOusd_burn_totalSupply hburn
  refine ⟨⟨outputs, houtputs, hlength, fun i asset output hasset houtput => ?_⟩,
    ⟨s.setWorld (s.world.setPlatform w), u, rfl, hburn, hsupply, hrebase⟩⟩
  have hentry : (s.vault.allAssets.zip outputs)[i]? = some (asset, output) := by
    rw [List.getElem?_zip_eq_some]
    exact ⟨hasset, houtput⟩
  obtain ⟨hlt, hentry⟩ := List.getElem?_eq_some_iff.mp hentry
  have hsplit : s.vault.allAssets.zip outputs =
      (s.vault.allAssets.zip outputs).take i ++
        (asset, output) :: (s.vault.allAssets.zip outputs).drop (i + 1) := by
    rw [← hentry, ← List.drop_eq_getElem_cons hlt, List.take_append_drop]
  have hnodup : ((s.vault.allAssets.zip outputs).map Prod.fst).Nodup := by
    rw [hfst]
    exact hr.nodupAssets
  obtain ⟨x, hbefore, hgain⟩ := h.payEntries_gain hassets hnodup hpay hsplit
  refine ⟨x, hbefore, ?_⟩
  rw [hworld]
  exact hgain

variable {self governor priceProvider : Address} {world : Surroundings ω}
  {trace : List (System (Surroundings ω) × (Address × Action (Surroundings ω)))}

/-- A rebase leaves it to the account to be paid. -/
theorem Payable.rebaseForRedeem {amount : ℕ} (h : s.Payable P account)
    (hs : s.rebaseForRedeem P.world amount = .ok s') : s'.Payable P account := by
  have hworld := rebaseForRedeem_world hs
  have hvault := (rebaseForRedeem_small s amount s' hs).vault
  constructor
  · exact hvault ▸ h.tokens
  · exact hvault ▸ h.vault
  · exact hworld ▸ h.notStrategy
  · rw [hvault, hworld]
    exact h.defaults

/-- In every state that a run reaches, a redeem that goes through has paid every output exactly,
except where the Compound strategy skipped it, and burnt exactly the amount; and so has a
redeem of all that the account has. -/
theorem redeem_pays_outputs (h : Reached P.world self governor priceProvider world trace s)
    (hpayable : s.Payable P account) :
    (∀ amount minimum s', s.redeem P.world account amount minimum = .ok s' →
      ∃ s₁, s.rebaseForRedeem P.world amount = .ok s₁ ∧ s₁.world = s.world ∧
        Redeemed P s₁ account amount s') ∧
    ∀ minimum s', s.redeemAll P.world account minimum = .ok s' →
      ∃ balance amount s₁, s.ousd.balanceOf account = .ok balance ∧
        s.rebaseForRedeem P.world balance = .ok s₁ ∧ s₁.world = s.world ∧
          s₁.ousd.balanceOf account = .ok amount ∧ Redeemed P s₁ account amount s' := by
  have hr : ∀ {amount s₁}, s.rebaseForRedeem P.world amount = .ok s₁ → s₁.vault.Registered := by
    intro amount s₁ hs₁
    rw [(rebaseForRedeem_small s amount s₁ hs₁).vault]
    exact h.sound.registered
  constructor
  · intro amount minimum s' hs
    obtain ⟨_, -, hs⟩ := bind_eq_ok.mp hs
    obtain ⟨s₁, hs₁, hs⟩ := bind_eq_ok.mp hs
    exact ⟨s₁, hs₁, rebaseForRedeem_world hs₁,
      (hpayable.rebaseForRedeem hs₁).redeemAmount (hr hs₁) hs⟩
  · intro minimum s' hs
    obtain ⟨_, -, hs⟩ := bind_eq_ok.mp hs
    obtain ⟨balance, hbalance, hs⟩ := bind_eq_ok.mp hs
    obtain ⟨s₁, hs₁, hs⟩ := bind_eq_ok.mp hs
    obtain ⟨amount, hamount, hs⟩ := bind_eq_ok.mp hs
    exact ⟨balance, amount, s₁, hbalance, hs₁, rebaseForRedeem_world hs₁, hamount,
      (hpayable.rebaseForRedeem hs₁).redeemAmount (hr hs₁) hs⟩

section

open PlainPlatform

/-- The tokens of plain platforms are standard. -/
theorem standardTransfers_calls (m : PlainMarket) (assets : List Address) (account : Address) :
    StandardTransfers (calls m) assets account := by
  have hmoved : ∀ {w w' : PlainPlatform} {caller token recipient : Address} {amount : ℕ},
      (calls m).safeTransfer w caller token recipient amount = .ok w' →
        w' = { w with
          toPlainWorld := (w.take token caller amount).give token recipient amount } := by
    intro w w' caller token recipient amount h
    obtain ⟨world, hmove, rfl⟩ := PlainPlatform.lift_eq_ok.mp h
    obtain ⟨-, rfl⟩ := PlainWorld.move_eq_ok.mp hmove
    rfl
  constructor
  · intro w w' caller token amount hcaller h
    obtain rfl := hmoved h
    constructor
    · change ((w.take token caller amount).give token account amount).balances token account =
        w.balances token account + amount
      simp [PlainWorld.give, PlainWorld.take, hcaller.symm]
    · intro other _ hne
      change ((w.take token caller amount).give token account amount).balances other account =
        w.balances other account
      simp [PlainWorld.give, PlainWorld.take, hne]
  · intro w w' caller token recipient amount hcaller hrecipient h other _
    obtain rfl := hmoved h
    change ((w.take token caller amount).give token recipient amount).balances other account =
      w.balances other account
    by_cases heq : other = token
    · simp [PlainWorld.give, PlainWorld.take, heq, hcaller.symm, hrecipient.symm]
    · simp [PlainWorld.give, PlainWorld.take, heq]

/-- A Compound strategy at 21 of the vault at 9, for the asset 4. -/
def plainCompound : CompoundStrategy where
  toAbstractStrategy :=
    { (AbstractStrategy.deployed 21 8).addPToken 4 31 with vaultAddress := 9 }

/-- The strategy, and an account with a coin. -/
def plainSurroundings : Surroundings PlainPlatform where
  strategies x := if x = 21 then some (.compound plainCompound) else none
  self_eq x t ht := by
    split_ifs at ht with h
    · cases ht
      exact h.symm
    · cases ht
  platform := PlainPlatform.empty.create 4 1 (10 ^ 18)

/-- The asset and the strategy are set up, and the coin is deposited and allocated. -/
def allocated : List (Address × Action (Surroundings PlainPlatform)) :=
  [(8, .supportAsset 4), (8, .approveStrategy 21), (8, .setAssetDefaultStrategy 4 21),
    (8, .unpauseCapital), (1, .mint 4 (10 ^ 18) 0), (1, .allocate)]

/-- Whether there is a Compound strategy at 21 with the cToken 31. -/
def hasCompound (s : System (Surroundings PlainPlatform)) : Bool :=
  match s.world.strategies 21 with
  | some (.compound c) => decide (c.self = 21 ∧ c.assetToPToken 4 = 31)
  | _ => false

/-- The account can be paid by such a strategy. -/
theorem payable_of_hasCompound {s : System (Surroundings PlainPlatform)}
    (hself : s.vault.self = 9) (hnone : s.world.strategies 1 = none)
    (hcompound : s.hasCompound = true) (hassets : s.vault.allAssets = [4])
    (hdefault : s.vault.assetDefaultStrategies 4 = 21) : s.Payable (calls market) 1 where
  tokens := standardTransfers_calls market _ 1
  vault := by
    rw [hself]
    decide
  notStrategy := hnone
  defaults := by
    rw [hassets]
    refine List.forall_mem_singleton.mpr fun _ => ?_
    rw [hdefault]
    unfold hasCompound at hcompound
    split at hcompound
    · rename_i c hc
      obtain ⟨hself, hcToken⟩ := of_decide_eq_true hcompound
      refine ⟨.compound c, hc, fun w w' amount code => List.forall_mem_singleton.mpr ?_⟩
      rw [hself, hcToken]
      exact fun h token _ => redeemUnderlying_balances_of_ne h (by decide) (by decide) token
    · cases hcompound

/-- Of a coin that the strategy holds, four tenths are redeemed and paid. -/
theorem redeem_pays_from_strategy :
    ∃ trace s s', Reached (calls market).world 9 8 7 plainSurroundings trace s ∧
      s.redeem (calls market).world 1 (4 * 10 ^ 17) 0 = .ok s' ∧
        (calls market).held s'.world.platform 4 1 = 4 * 10 ^ 17 ∧
          ∃ s₁, s.rebaseForRedeem (calls market).world (4 * 10 ^ 17) = .ok s₁ ∧
            s₁.world = s.world ∧ Redeemed (calls market) s₁ 1 (4 * 10 ^ 17) s' := by
  have hsteps : Returns
      (execTrace (execFrom (calls market).world) [] (initialized 9 8 7 plainSurroundings) allocated)
      fun out => out.2.vault.self = 9 ∧ (out.2.world.strategies 1).isNone = true ∧
        out.2.hasCompound = true ∧ out.2.vault.allAssets = [4] ∧
          out.2.vault.assetDefaultStrategies 4 = 21 ∧
          Returns (out.2.redeem (calls market).world 1 (4 * 10 ^ 17) 0) fun s' =>
            (calls market).held s'.world.platform 4 1 = 4 * 10 ^ 17 := by
    decide
  obtain ⟨trace, s, hrun, hself, hnone, hcompound, hassets, hdefault, s', hredeem, hheld⟩ :=
    reached_of_returns hsteps
  have hpayable := payable_of_hasCompound hself (Option.isNone_iff_eq_none.mp hnone) hcompound
    hassets hdefault
  exact ⟨trace, s, s', hrun, hredeem, hheld,
    (redeem_pays_outputs hrun hpayable).1 _ 0 s' hredeem⟩

/-- Of a coin that the strategy holds, so little is redeemed that the strategy skips it: it is
burnt, and nothing is paid. -/
theorem redeem_skipped :
    ∃ trace s s' outputs, Reached (calls market).world 9 8 7 plainSurroundings trace s ∧
      s.calculateRedeemOutputs (calls market).world (10 ^ 8) = .ok outputs ∧ outputs = [10 ^ 8] ∧
        s.redeem (calls market).world 1 (10 ^ 8) 0 = .ok s' ∧
          (calls market).held s'.world.platform 4 1 = (calls market).held s.world.platform 4 1 ∧
            s'.ousd.totalSupply + 10 ^ 8 = s.ousd.totalSupply := by
  have hsteps : Returns
      (execTrace (execFrom (calls market).world) [] (initialized 9 8 7 plainSurroundings) allocated)
      fun out =>
        Returns (out.2.calculateRedeemOutputs (calls market).world (10 ^ 8)) (· = [10 ^ 8]) ∧
          Returns (out.2.redeem (calls market).world 1 (10 ^ 8) 0) fun s' =>
            (calls market).held s'.world.platform 4 1 =
                (calls market).held out.2.world.platform 4 1 ∧
              s'.ousd.totalSupply + 10 ^ 8 = out.2.ousd.totalSupply := by
    decide
  obtain ⟨trace, s, hrun, ⟨outputs, houtputs, hlist⟩, s', hredeem, hheld, hsupply⟩ :=
    reached_of_returns hsteps
  exact ⟨trace, s, s', outputs, hrun, houtputs, hlist, hredeem, hheld, hsupply⟩

end

end System

end InterestDollar
