import InterestDollar.Vault.Backing

/-!
# Allocating down to the buffer

An allocation moves the same portion of every asset that has a default strategy. The portion
is what is over the buffer where no strategy has anything yet, and else what is over it after
the strategies' share of the buffer is counted too. What stays of each asset is worth its
portion up to a unit, so what stays in the vault is worth the buffer up to a unit for each
asset, and up to what the portion itself was rounded by.
-/

namespace InterestDollar

open Checked Transition FixedPoint

namespace System

variable {ω : Type} {W : World ω} {s s' t : System ω}

/-! ## One asset -/

/-- Fixed prices and standard tokens: a transfer of a supported asset out of the vault takes
exactly its amount out of what the vault has of it, unless it goes to the vault itself, and a
strategy's deposit does not touch what the vault has. Neither changes another token of the
vault, a price or the decimals of an asset. -/
structure StandardAllocations (W : World ω) (v : Vault) : Prop where
  balance {w w' : ω} {asset recipient : Address} {amount balance : ℕ} :
    asset ∈ v.allAssets → W.safeTransfer w v.self asset recipient amount = .ok w' →
      W.balanceOf w asset v.self = .ok balance →
        W.balanceOf w' asset v.self = .ok (if recipient = v.self then balance else balance - amount)
  others {w w' : ω} {asset recipient other : Address} {amount : ℕ} :
    asset ∈ v.allAssets → W.safeTransfer w v.self asset recipient amount = .ok w' →
      other ≠ asset → W.balanceOf w' other v.self = W.balanceOf w other v.self
  quotes {w w' : ω} {asset recipient : Address} {amount : ℕ} (other : Address) :
    asset ∈ v.allAssets → W.safeTransfer w v.self asset recipient amount = .ok w' →
      W.price w' v.priceProvider other = W.price w v.priceProvider other ∧
        W.decimals w' other = W.decimals w other
  deposited {w w' : ω} {strategy asset : Address} {amount : ℕ} (other : Address) :
    asset ∈ v.allAssets → W.deposit w v.self strategy asset amount = .ok w' →
      W.balanceOf w' other v.self = W.balanceOf w other v.self ∧
        W.price w' v.priceProvider other = W.price w v.priceProvider other ∧
          W.decimals w' other = W.decimals w other

/-- The state after assets have been moved to strategies: the same storage, prices and
decimals. -/
structure AfterMoves (W : World ω) (s t : System ω) : Prop where
  vault : t.vault = s.vault
  quotes : ∀ asset, W.price t.world t.vault.priceProvider asset =
      W.price s.world s.vault.priceProvider asset ∧
    W.decimals t.world asset = W.decimals s.world asset

theorem AfterMoves.refl (s : System ω) : AfterMoves W s s := ⟨rfl, fun _ => ⟨rfl, rfl⟩⟩

theorem AfterMoves.trans {u : System ω} (h : AfterMoves W s t) (h' : AfterMoves W t u) :
    AfterMoves W s u where
  vault := h'.vault.trans h.vault
  quotes := fun asset =>
    ⟨(h'.quotes asset).1.trans (h.quotes asset).1, (h'.quotes asset).2.trans (h.quotes asset).2⟩

theorem AfterMoves.worthOf_eq (h : AfterMoves W s t) (asset : Address) (amount : ℕ) :
    t.worthOf W asset amount = s.worthOf W asset amount :=
  worthOf_congr (h.quotes asset) amount

/-- What the vault holds of a token. -/
def vaultBalance (W : World ω) (s : System ω) (token : Address) : Except Revert ℕ :=
  W.balanceOf s.world token s.vault.self

theorem worthInVault_eq {asset : Address} {amount : ℕ} (h : s.vaultBalance W asset = .ok amount) :
    s.worthInVault W asset = s.worthOf W asset amount :=
  congrArg _ (amountOf_eq h)

/-- From one state to the other at most a portion of what the vault has of an asset has been
moved, and none of it if the asset has no default strategy. -/
def MovesPortion (W : World ω) (modifier : ℕ) (s t : System ω) (asset : Address) : Prop :=
  ∃ before moved, s.vaultBalance W asset = .ok before ∧
    moved ≤ shares fullScale modifier before ∧
    (s.vault.assetDefaultStrategies asset = 0 → moved = 0) ∧
    t.vaultBalance W asset = .ok (before - moved)

/-- An asset's turn in the loop. -/
theorem allocateAsset_eq_ok {modifier : ℕ} {asset : Address} (hW : StandardAllocations W s.vault)
    (hasset : asset ∈ s.vault.allAssets) (h : s.allocateAsset W modifier asset = .ok t) :
    AfterMoves W s t ∧ MovesPortion W modifier s t asset ∧
      ∀ other, other ≠ asset → t.vaultBalance W other = s.vaultBalance W other := by
  obtain ⟨before, hbefore, h⟩ := bind_eq_ok.mp h
  have hstays : t = s → AfterMoves W s t ∧ MovesPortion W modifier s t asset ∧
      ∀ other, other ≠ asset → t.vaultBalance W other = s.vaultBalance W other := by
    rintro rfl
    exact ⟨.refl t, ⟨before, 0, hbefore, Nat.zero_le _, fun _ => rfl, hbefore⟩, fun _ _ => rfl⟩
  split_ifs at h with hzero
  · exact hstays (pure_eq_ok.mp h).symm
  obtain ⟨amount, hamount, h⟩ := bind_eq_ok.mp h
  obtain ⟨-, rfl⟩ := StableMath.mulTruncate_eq_ok.mp hamount
  dsimp only at h
  split_ifs at h with hmoves
  swap
  · exact hstays (pure_eq_ok.mp h).symm
  obtain ⟨w, hw, h⟩ := bind_eq_ok.mp h
  obtain ⟨w', hw', h⟩ := bind_eq_ok.mp h
  cases pure_eq_ok.mp h
  have hafter := hW.balance hasset hw hbefore
  refine ⟨⟨rfl, fun other => ?_⟩, ?_, fun other hne => ?_⟩
  · obtain ⟨-, hprice, hdecimals⟩ := hW.deposited other hasset hw'
    obtain ⟨hprice', hdecimals'⟩ := hW.quotes other hasset hw
    exact ⟨hprice.trans hprice', hdecimals.trans hdecimals'⟩
  · -- a strategy that is the vault itself gets what the vault had
    refine ⟨before, if s.vault.assetDefaultStrategies asset = s.vault.self then 0
      else shares fullScale modifier before, hbefore, ?_, fun hnone => absurd hnone hmoves.1, ?_⟩
    · split_ifs
      · exact Nat.zero_le _
      · exact le_rfl
    · refine ((hW.deposited asset hasset hw').1.trans hafter).trans ?_
      split_ifs <;> rfl
  · exact (hW.deposited other hasset hw').1.trans (hW.others hasset hw hne)

/-! ## The loop -/

/-- The loop moves at most the portion of each asset of its list, and nothing else. -/
theorem foldlM_allocateAsset_eq_ok {modifier : ℕ} {l : List Address}
    (hW : StandardAllocations W s.vault) (hassets : ∀ asset ∈ l, asset ∈ s.vault.allAssets)
    (hnodup : l.Nodup) (h : l.foldlM (allocateAsset W modifier) s = .ok t) :
    AfterMoves W s t ∧ (∀ asset ∈ l, MovesPortion W modifier s t asset) ∧
      ∀ other, other ∉ l → t.vaultBalance W other = s.vaultBalance W other := by
  induction l generalizing s with
  | nil =>
      cases pure_eq_ok.mp h
      exact ⟨.refl t, (fun _ hmem => nomatch hmem), fun _ _ => rfl⟩
  | cons asset l ih =>
      rw [List.foldlM_cons] at h
      obtain ⟨u, hu, h⟩ := bind_eq_ok.mp h
      obtain ⟨hasset, hassets⟩ := List.forall_mem_cons.mp hassets
      obtain ⟨hnot, hnodup⟩ := List.nodup_cons.mp hnodup
      obtain ⟨hfirst, hportion, hothers⟩ := allocateAsset_eq_ok hW hasset hu
      have hvault := hfirst.vault
      obtain ⟨hlast, hportions, hrest⟩ := ih (hvault ▸ hW) (hvault ▸ hassets) hnodup h
      refine ⟨hfirst.trans hlast, List.forall_mem_cons.mpr ⟨?_, fun other hmem => ?_⟩, ?_⟩
      · obtain ⟨before, moved, hbefore, hle, hnone, hafter⟩ := hportion
        exact ⟨before, moved, hbefore, hle, hnone, (hrest asset hnot).trans hafter⟩
      · obtain ⟨before, moved, hbefore, hle, hnone, hafter⟩ := hportions other hmem
        have hne : other ≠ asset := fun heq => hnot (heq ▸ hmem)
        exact ⟨before, moved, (hothers other hne).symm.trans hbefore, hle, hvault ▸ hnone, hafter⟩
      · intro other hmem
        exact (hrest other (List.not_mem_of_not_mem_cons hmem)).trans
          (hothers other (List.ne_of_not_mem_cons hmem))

/-! ## What stays in the vault -/

/-- An asset of which there is no more than before is counted again, for no more. -/
theorem assetValueFromOracle_le (hafter : AfterMoves W s t) {asset : Address}
    {amount amount' value : ℕ} (hle : amount' ≤ amount)
    (h : s.assetValueFromOracle W asset amount = .ok value) :
    Returns (t.assetValueFromOracle W asset amount') fun value' => value' ≤ value := by
  obtain ⟨hprices, hdecimals⟩ := hafter.quotes asset
  obtain ⟨decimals, hd, h⟩ := bind_eq_ok.mp h
  obtain ⟨price, hprice, h⟩ := bind_eq_ok.mp h
  obtain ⟨hfit, hpos, rfl⟩ := StableMath.mulTruncateScale_eq_ok.mp h
  have hmul : amount' * price ≤ amount * price := Nat.mul_le_mul_right _ hle
  refine ⟨amount' * price / 10 ^ decimals, ?_, Nat.div_le_div_right hmul⟩
  refine bind_eq_ok.mpr ⟨decimals, ?_, bind_eq_ok.mpr ⟨price, hprices.trans hprice, ?_⟩⟩
  · rw [getDecimals, hdecimals]
    exact hd
  · exact StableMath.mulTruncateScale_eq_ok.mpr ⟨hmul.trans_lt hfit, hpos, rfl⟩

theorem addValue_le (hafter : AfterMoves W s t) {asset : Address}
    {amount amount' total total' value : ℕ} (hle : amount' ≤ amount) (htotal : total' ≤ total)
    (h : s.addValue W asset amount total = .ok value) :
    Returns (t.addValue W asset amount' total') fun value' => value' ≤ value := by
  obtain ⟨n, hn, h⟩ := bind_eq_ok.mp h
  obtain ⟨n', hn', hle'⟩ := assetValueFromOracle_le hafter hle hn
  have hsum : total' + n' ≤ total + n := Nat.add_le_add htotal hle'
  split_ifs at h with hpos
  · obtain ⟨hfit, rfl⟩ := SafeMath.add_eq_ok.mp h
    refine ⟨total' + n', bind_eq_ok.mpr ⟨n', hn', ?_⟩, hsum⟩
    split_ifs with hpos'
    · exact SafeMath.add_eq_ok.mpr ⟨hsum.trans_lt hfit, rfl⟩
    · exact congrArg Except.ok (by omega)
  · cases pure_eq_ok.mp h
    refine ⟨total', bind_eq_ok.mpr ⟨n', hn', if_neg (by omega)⟩, htotal⟩

/-- The vault is counted after the moves where it was counted before. -/
theorem totalValueInVault_le (hafter : AfterMoves W s t) {modifier value : ℕ}
    (hportions : ∀ asset ∈ s.vault.allAssets, MovesPortion W modifier s t asset)
    (h : s.totalValueInVault W = .ok value) :
    Returns (t.totalValueInVault W) fun value' => value' ≤ value := by
  unfold totalValueInVault at h ⊢
  rw [hafter.vault]
  refine foldlM_simulates (R := fun total total' => total' ≤ total) ?_ le_rfl h
  intro asset hmem total total' value hle hstep
  obtain ⟨before, moved, hbefore, -, -, hleft⟩ := hportions asset hmem
  obtain ⟨balance, hbalance, hstep⟩ := bind_eq_ok.mp hstep
  cases hbalance.symm.trans hbefore
  obtain ⟨value', hvalue', hle'⟩ := addValue_le hafter (Nat.sub_le before moved) hle hstep
  refine ⟨value', bind_eq_ok.mpr ⟨before - moved, ?_, hvalue'⟩, hle'⟩
  rw [← hafter.vault]
  exact hleft

/-- What stays in the vault is worth the part that is kept, up to a unit for each asset. -/
theorem vaultWorth_mul_le (hafter : AfterMoves W s t) {modifier keep : ℕ}
    (hkeep : keep + modifier = fullScale)
    (hportions : ∀ asset ∈ s.vault.allAssets, MovesPortion W modifier s t asset) :
    s.vaultWorth W * keep ≤ (t.vaultWorth W + s.vault.allAssets.length) * fullScale := by
  have heach : ∀ asset ∈ s.vault.allAssets,
      s.worthInVault W asset * keep ≤ (t.worthInVault W asset + 1) * fullScale := by
    intro asset hmem
    obtain ⟨before, moved, hbefore, hle, -, hleft⟩ := hportions asset hmem
    rw [worthInVault_eq hbefore, worthInVault_eq hleft, hafter.worthOf_eq]
    refine shares_mul_le_of_portion (Nat.pow_pos (by omega)) ?_
    have hmoved : moved * fullScale ≤ before * modifier :=
      (Nat.mul_le_mul_right _ hle).trans (shares_mul_le before)
    have hall : before * keep + before * modifier = before * fullScale := by
      rw [← Nat.mul_add, hkeep]
    rw [Nat.sub_mul]
    omega
  unfold vaultWorth
  rw [hafter.vault]
  calc (s.vault.allAssets.map (s.worthInVault W)).sum * keep
      = (s.vault.allAssets.map fun asset => s.worthInVault W asset * keep).sum :=
        (List.sum_map_mul_right _ _ _).symm
    _ ≤ (s.vault.allAssets.map fun asset => (t.worthInVault W asset + 1) * fullScale).sum :=
        List.sum_le_sum heach
    _ = _ := by
        rw [List.sum_map_mul_right, List.sum_map_add, List.map_const', List.sum_replicate,
          smul_eq_mul, Nat.mul_one]

/-! ## The portion -/

/-- A modifier keeps the buffer's part of the vault, up to what it is rounded by; and there is
none where the buffer has still to fill, or is everything. -/
theorem vaultBufferModifier_eq_ok {vaultValue strategiesValue modifier : ℕ}
    (hbuffer : s.vault.vaultBuffer ≤ fullScale) (hpos : 0 < vaultValue)
    (h : s.vaultBufferModifier vaultValue strategiesValue (vaultValue + strategiesValue) =
      .ok modifier) :
    (modifier = 0 ∨ ∃ keep, keep + modifier = fullScale ∧
      s.vault.vaultBuffer * (vaultValue + strategiesValue) ≤ vaultValue * keep + vaultValue) ∧
    ((0 < strategiesValue ∧ vaultValue * fullScale ≤
        s.vault.vaultBuffer * (vaultValue + strategiesValue)) ∨
      s.vault.vaultBuffer = fullScale → modifier = 0) := by
  unfold vaultBufferModifier at h
  split_ifs at h with hnone
  · obtain ⟨-, rfl⟩ := SafeMath.sub_eq_ok.mp h
    subst hnone
    refine ⟨.inr ⟨s.vault.vaultBuffer, by omega, ?_⟩, ?_⟩
    · rw [Nat.add_zero, Nat.mul_comm]
      exact Nat.le_add_right _ _
    · rintro (⟨hlt, -⟩ | hall)
      · exact absurd hlt (lt_irrefl 0)
      · omega
  obtain ⟨product, hproduct, h⟩ := bind_eq_ok.mp h
  obtain ⟨part, hpart, h⟩ := bind_eq_ok.mp h
  obtain ⟨-, rfl⟩ := SafeMath.mul_eq_ok.mp hproduct
  obtain ⟨-, rfl⟩ := SafeMath.div_eq_ok.mp hpart
  split_ifs at h with hover
  swap
  · cases pure_eq_ok.mp h
    exact ⟨.inl rfl, fun _ => rfl⟩
  obtain ⟨-, rfl⟩ := SafeMath.sub_eq_ok.mp h
  rw [Nat.div_lt_iff_lt_mul hpos, Nat.mul_comm fullScale] at hover
  refine ⟨.inr ⟨_, Nat.add_sub_cancel' (Nat.div_le_of_le_mul hover.le), ?_⟩, ?_⟩
  · exact (Nat.lt_mul_div_succ _ hpos).le.trans_eq (Nat.mul_succ _ _)
  · -- the buffer is over the value of the vault, so this branch is not taken
    rintro (⟨-, hfill⟩ | hall)
    · exact absurd hover (not_lt.mpr hfill)
    · have hle : vaultValue * fullScale ≤
          s.vault.vaultBuffer * (vaultValue + strategiesValue) := by
        rw [hall, Nat.mul_comm]
        exact Nat.mul_le_mul_left _ (Nat.le_add_right _ _)
      exact absurd hover (not_lt.mpr hle)

/-- An allocation that does anything moves of each asset with a default strategy no more than
the vault has, nothing of any other token, and leaves the buffer's part of the value of the vault
and the strategies in the vault, up to a unit for each asset and the rounding of the portion. It
does nothing where the vault is not over that part, or where the buffer is everything. -/
theorem allocate_keeps_buffer {inVault inStrategies : ℕ} (hnodup : s.vault.allAssets.Nodup)
    (hW : StandardAllocations W s.vault) (hbuffer : s.vault.vaultBuffer ≤ fullScale)
    (hvault : s.totalValueInVault W = .ok inVault)
    (hstrategies : s.totalValueInStrategies W = .ok inStrategies)
    (h : s.allocateFunds W = .ok s') :
    (s' = s ∨ ∃ modifier t, s.vault.allAssets.foldlM (allocateAsset W modifier) s = .ok t ∧
      t.vault.allStrategies.foldlM (harvestIfDue W) t = .ok s' ∧
      (∀ asset ∈ s.vault.allAssets, ∃ before moved,
        s.vaultBalance W asset = .ok before ∧ moved ≤ before ∧
          (s.vault.assetDefaultStrategies asset = 0 → moved = 0) ∧
          t.vaultBalance W asset = .ok (before - moved)) ∧
      (∀ token, token ∉ s.vault.allAssets → t.vaultBalance W token = s.vaultBalance W token) ∧
      Returns (t.totalValueInVault W) fun left =>
        s.vault.vaultBuffer * (inVault + inStrategies) ≤
          fullScale * (left + s.vault.allAssets.length) + inVault) ∧
    ((0 < inStrategies ∧
        inVault * fullScale ≤ s.vault.vaultBuffer * (inVault + inStrategies)) ∨
      s.vault.vaultBuffer = fullScale → s' = s) := by
  obtain ⟨value, hvalue, h⟩ := bind_eq_ok.mp h
  cases hvault.symm.trans hvalue
  split_ifs at h with hzero
  · cases pure_eq_ok.mp h
    exact ⟨.inl rfl, fun _ => rfl⟩
  obtain ⟨value, hvalue, h⟩ := bind_eq_ok.mp h
  cases hstrategies.symm.trans hvalue
  obtain ⟨total, htotal, h⟩ := bind_eq_ok.mp h
  obtain ⟨-, rfl⟩ := SafeMath.add_eq_ok.mp htotal
  obtain ⟨modifier, hmodifier, h⟩ := bind_eq_ok.mp h
  obtain ⟨hkeeps, hnone⟩ :=
    vaultBufferModifier_eq_ok hbuffer (Nat.pos_of_ne_zero hzero) hmodifier
  split_ifs at h with hstops
  · cases pure_eq_ok.mp h
    exact ⟨.inl rfl, fun _ => rfl⟩
  refine ⟨.inr ?_, fun hfull => absurd (hnone hfull) hstops⟩
  obtain ⟨keep, hkeep, hpart⟩ := hkeeps.resolve_left hstops
  obtain ⟨t, ht, hharvest⟩ := bind_eq_ok.mp h
  obtain ⟨hafter, hportions, hothers⟩ :=
    foldlM_allocateAsset_eq_ok hW (fun _ hmem => hmem) hnodup ht
  refine ⟨modifier, t, ht, hharvest, fun asset hmem => ?_, hothers, ?_⟩
  · obtain ⟨before, moved, hbefore, hle, hdefault, hleft⟩ := hportions asset hmem
    have hwithin : shares fullScale modifier before ≤ before := shares_le_self (by omega) before
    exact ⟨before, moved, hbefore, hle.trans hwithin, hdefault, hleft⟩
  · obtain ⟨left, hleft, -⟩ := totalValueInVault_le hafter hportions hvault
    refine ⟨left, hleft, ?_⟩
    have hworth := vaultWorth_mul_le hafter hkeep hportions
    rw [← (totalValueInVault_eq_worth hvault).2, ← (totalValueInVault_eq_worth hleft).2,
      Nat.mul_comm _ fullScale] at hworth
    omega

/-- The tokens of a plain world are standard, and its strategies keep what they are given. -/
theorem standardAllocations_plainWorld (v : Vault) : StandardAllocations PlainWorld.calls v := by
  have hmoved : ∀ {w w' : PlainWorld} {asset recipient : Address} {amount : ℕ},
      PlainWorld.calls.safeTransfer w v.self asset recipient amount = .ok w' →
        amount ≤ w.balances asset v.self ∧
          w' = (w.take asset v.self amount).give asset recipient amount :=
    fun hw => PlainWorld.move_eq_ok.mp hw
  constructor
  · intro w w' asset recipient amount balance _ hw hbalance
    obtain ⟨hle, rfl⟩ := hmoved hw
    cases hbalance
    by_cases hself : recipient = v.self
    · simp [PlainWorld.calls, PlainWorld.give, PlainWorld.take, hself, Nat.sub_add_cancel hle]
    · simp [PlainWorld.calls, PlainWorld.give, PlainWorld.take, hself, Ne.symm hself]
  · intro w w' asset recipient other amount _ hw hne
    obtain ⟨-, rfl⟩ := hmoved hw
    simp [PlainWorld.calls, PlainWorld.give, PlainWorld.take, hne]
  · intro w w' asset recipient amount other _ hw
    obtain ⟨-, rfl⟩ := hmoved hw
    exact ⟨rfl, rfl⟩
  · intro w w' strategy asset amount other _ hw
    cases hw
    exact ⟨rfl, rfl, rfl⟩

/-- A buffer of 30 percent over 14 coins in the vault and 4 in a strategy: of the 11 coins of
the asset with a default strategy 6 are moved, and 8 coins stay. -/
theorem allocate_keeps_buffer_partly :
    ∃ trace s s', Reached PlainWorld.calls 9 8 7
        ((((PlainWorld.empty [] [5]).give 5 9 11).give 6 9 3).give 5 22 4) trace s ∧
      s.totalValueInVault PlainWorld.calls = .ok 14 ∧
        s.totalValueInStrategies PlainWorld.calls = .ok 4 ∧
        s.allocateFunds PlainWorld.calls = .ok s' ∧
        s'.totalValueInVault PlainWorld.calls = .ok 8 ∧
        ∃ modifier t, s.vault.allAssets.foldlM (allocateAsset PlainWorld.calls modifier) s = .ok t ∧
          Returns (t.totalValueInVault PlainWorld.calls) fun left =>
            3 * 10 ^ 17 * (14 + 4) ≤ fullScale * (left + 2) + 14 := by
  have hsteps : Returns
      (execTrace (execFrom PlainWorld.calls) []
        (initialized 9 8 7 ((((PlainWorld.empty [] [5]).give 5 9 11).give 6 9 3).give 5 22 4))
        [(8, .supportAsset 5), (8, .supportAsset 6), (8, .approveStrategy 22),
          (8, .setAssetDefaultStrategy 5 22), (8, .setVaultBuffer (3 * 10 ^ 17))])
      fun out => Returns (out.2.totalValueInVault PlainWorld.calls) (· = 14) ∧
        Returns (out.2.totalValueInStrategies PlainWorld.calls) (· = 4) ∧
        out.2.vault.vaultBuffer = 3 * 10 ^ 17 ∧ out.2.vault.allAssets.length = 2 ∧
        Returns (out.2.allocateFunds PlainWorld.calls) fun s' =>
          Returns (s'.totalValueInVault PlainWorld.calls) (· = 8) := by decide
  obtain ⟨trace, s, hrun, ⟨_, hvault, rfl⟩, ⟨_, hstrategies, rfl⟩, hbuffer, hlength, s',
    hallocate, _, hleft, rfl⟩ := reached_of_returns hsteps
  have hbuffer : s.vault.vaultBuffer = 3 * 10 ^ 17 := hbuffer
  have hlength : s.vault.allAssets.length = 2 := hlength
  refine ⟨trace, s, s', hrun, hvault, hstrategies, hallocate, hleft, ?_⟩
  have hle : s.vault.vaultBuffer ≤ fullScale := by
    rw [hbuffer]
    decide
  rcases (allocate_keeps_buffer hrun.sound.registered.nodupAssets
    (standardAllocations_plainWorld _) hle hvault hstrategies hallocate).1 with
    rfl | ⟨modifier, t, ht, -, -, -, hworth⟩
  · cases hvault.symm.trans hleft
  · rw [hbuffer, hlength] at hworth
    exact ⟨modifier, t, ht, hworth⟩

end System

end InterestDollar
