import InterestDollar.Strategy.Abstract

/-!
# The mapped assets

What the functions do that give and take platform tokens. A strategy's list holds exactly the
assets with a platform token, without repetitions; the zero address is never among them.
-/

namespace InterestDollar

open Checked Listing

namespace AbstractStrategy

variable {ω : Type} {s s' : AbstractStrategy} {w w' : ω}

theorem onlyVault_eq_ok {sender : Address} {u : Unit} :
    s.onlyVault sender = .ok u ↔ sender = s.vaultAddress :=
  own_require

/-- The list holds exactly the assets with a platform token, each of them once. -/
structure Mapped (s : AbstractStrategy) : Prop where
  nodup : s.assetsMapped.Nodup
  mem_iff : ∀ asset, asset ∈ s.assetsMapped ↔ s.assetToPToken asset ≠ 0
  zero : s.assetToPToken 0 = 0

theorem mapped_deployed (self governor : Address) : (deployed self governor).Mapped where
  nodup := List.nodup_nil
  mem_iff := by simp [deployed]
  zero := rfl

/-- The storage after an asset is given a platform token. -/
def addPToken (s : AbstractStrategy) (asset pToken : Address) : AbstractStrategy :=
  { s with
    assetToPToken := Function.update s.assetToPToken asset pToken
    assetsMapped := s.assetsMapped ++ [asset] }

/-- The storage after the platform token of an asset is taken away. -/
def dropPToken (s : AbstractStrategy) (asset : Address) : AbstractStrategy :=
  { s with
    assetToPToken := Function.update s.assetToPToken asset 0
    assetsMapped := swapRemove asset s.assetsMapped }

theorem storePToken_eq_ok {asset pToken : Address} :
    s.storePToken asset pToken = .ok s' ↔ s.assetToPToken asset = 0 ∧
      (asset ≠ 0 ∧ pToken ≠ 0) ∧ s' = s.addPToken asset pToken := by
  simp only [storePToken, bind_eq_ok, pure_eq_ok, own_require]
  constructor
  · rintro ⟨_, hnew, _, hvalid, rfl⟩
    exact ⟨hnew, hvalid, rfl⟩
  · rintro ⟨hnew, hvalid, rfl⟩
    exact ⟨(), hnew, (), hvalid, rfl⟩

theorem setPToken_eq_ok
    {abstractSetPToken : AbstractStrategy → ω → Address → Address → Except Failure ω}
    {asset pToken : Address}
    (h : s.setPToken abstractSetPToken w asset pToken = .ok (s', w')) :
    s.assetToPToken asset = 0 ∧ (asset ≠ 0 ∧ pToken ≠ 0) ∧ s' = s.addPToken asset pToken ∧
      abstractSetPToken s' w asset pToken = .ok w' := by
  obtain ⟨t, ht, h⟩ := bind_eq_ok.mp h
  obtain ⟨w₁, hw₁, h⟩ := bind_eq_ok.mp h
  cases pure_eq_ok.mp h
  obtain ⟨hnew, hvalid, heq⟩ := storePToken_eq_ok.mp ht
  exact ⟨hnew, hvalid, heq, hw₁⟩

/-- The asset at the index is taken away. In a list without repetitions that is the same as
taking away the asset. -/
theorem removePToken_eq_ok {sender : Address} {assetIndex : ℕ} (hmapped : s.Mapped)
    (h : s.removePToken sender assetIndex = .ok s') :
    ∃ asset, s.assetsMapped[assetIndex]? = some asset ∧ s' = s.dropPToken asset ∧
      s'.assetsMapped = swapRemoveAt assetIndex s.assetsMapped := by
  obtain ⟨_, -, h⟩ := bind_eq_ok.mp h
  split at h
  · cases h
  · rename_i asset hasset
    cases pure_eq_ok.mp h
    refine ⟨asset, hasset, ?_, rfl⟩
    rw [dropPToken, swapRemoveAt_eq hmapped.nodup hasset]

theorem Mapped.addPToken (h : s.Mapped) {asset pToken : Address}
    (hnew : s.assetToPToken asset = 0) (hasset : asset ≠ 0) (hpToken : pToken ≠ 0) :
    (s.addPToken asset pToken).Mapped where
  nodup := by
    have hnot : asset ∉ s.assetsMapped := fun hmem => (h.mem_iff asset).mp hmem hnew
    exact h.nodup.append (List.nodup_singleton asset) (List.disjoint_singleton.mpr hnot)
  mem_iff other := by
    simp only [AbstractStrategy.addPToken, List.mem_append, List.mem_singleton]
    by_cases heq : other = asset
    · simp [heq, hpToken]
    · simp [heq, h.mem_iff other]
  zero := by
    simpa [AbstractStrategy.addPToken, Function.update_of_ne hasset.symm] using h.zero

theorem Mapped.dropPToken (h : s.Mapped) {asset : Address} (hmem : asset ∈ s.assetsMapped) :
    (s.dropPToken asset).Mapped where
  nodup := nodup_swapRemove hmem h.nodup
  mem_iff other := by
    simp only [AbstractStrategy.dropPToken, mem_swapRemove hmem h.nodup]
    by_cases heq : other = asset
    · simp [heq]
    · simp [heq, h.mem_iff other]
  zero := by
    by_cases heq : (0 : Address) = asset
    · simp [AbstractStrategy.dropPToken, ← heq]
    · simpa [AbstractStrategy.dropPToken, Function.update_of_ne heq] using h.zero

/-- Two storages with the same mapping and the same fixed addresses. -/
structure SameMapping (s s' : AbstractStrategy) : Prop where
  self : s'.self = s.self
  platformAddress : s'.platformAddress = s.platformAddress
  vaultAddress : s'.vaultAddress = s.vaultAddress
  assetToPToken : s'.assetToPToken = s.assetToPToken
  assetsMapped : s'.assetsMapped = s.assetsMapped

theorem Mapped.of_same (h : s.Mapped) (hsame : SameMapping s s') : s'.Mapped where
  nodup := by rw [hsame.assetsMapped]; exact h.nodup
  mem_iff := by rw [hsame.assetsMapped, hsame.assetToPToken]; exact h.mem_iff
  zero := by rw [hsame.assetToPToken]; exact h.zero

/-- Storing a setting leaves the mapping alone; only the setter of the reward token changes
that. -/
theorem configure_eq_ok {sender : Address} {setting : Setting}
    (h : s.configure sender setting = .ok s') :
    SameMapping s s' ∧ (s'.rewardTokenAddress = s.rewardTokenAddress ∨
      setting = .rewardTokenAddress s'.rewardTokenAddress) := by
  cases setting with
  | rewardTokenAddress address =>
      obtain ⟨_, -, h⟩ := bind_eq_ok.mp h
      cases pure_eq_ok.mp h
      exact ⟨⟨rfl, rfl, rfl, rfl, rfl⟩, .inr rfl⟩
  | rewardLiquidationThreshold threshold =>
      obtain ⟨_, -, h⟩ := bind_eq_ok.mp h
      cases pure_eq_ok.mp h
      exact ⟨⟨rfl, rfl, rfl, rfl, rfl⟩, .inl rfl⟩
  | pendingGovernor newGovernor =>
      obtain ⟨_, -, h⟩ := bind_eq_ok.mp h
      cases pure_eq_ok.mp h
      exact ⟨⟨rfl, rfl, rfl, rfl, rfl⟩, .inl rfl⟩
  | governor =>
      obtain ⟨_, -, h⟩ := bind_eq_ok.mp h
      obtain ⟨_, -, h⟩ := bind_eq_ok.mp h
      cases pure_eq_ok.mp h
      exact ⟨⟨rfl, rfl, rfl, rfl, rfl⟩, .inl rfl⟩

/-! ## The initial assets -/

/-- What the settings of `initialize` make of the storage. -/
structure InitializedFrom (s s' : AbstractStrategy)
    (platformAddress vaultAddress rewardTokenAddress : Address) (assets : List Address) : Prop where
  self : s'.self = s.self
  governor : s'.governor = s.governor
  platformAddress : s'.platformAddress = platformAddress
  vaultAddress : s'.vaultAddress = vaultAddress
  rewardTokenAddress : s'.rewardTokenAddress = rewardTokenAddress
  assetsMapped : s'.assetsMapped = s.assetsMapped ++ assets
  mapped : s.Mapped → s'.Mapped

theorem foldlM_setPToken
    {abstractSetPToken : AbstractStrategy → ω → Address → Address → Except Failure ω}
    {entries : List (Address × Address)}
    (h : entries.foldlM (fun (s, w) (asset, pToken) =>
      s.setPToken abstractSetPToken w asset pToken) (s, w) = .ok (s', w')) :
    InitializedFrom s s' s.platformAddress s.vaultAddress s.rewardTokenAddress
      (entries.map Prod.fst) := by
  induction entries generalizing s w with
  | nil =>
      cases pure_eq_ok.mp h
      exact ⟨rfl, rfl, rfl, rfl, rfl, (List.append_nil _).symm, id⟩
  | cons entry entries ih =>
      rw [List.foldlM_cons] at h
      obtain ⟨⟨t, w₁⟩, ht, hrest⟩ := bind_eq_ok.mp h
      obtain ⟨hnew, ⟨hasset, hpToken⟩, rfl, -⟩ := setPToken_eq_ok ht
      obtain ⟨hself, hgovernor, hplatform, hvault, hreward, hassets, hmapped⟩ := ih hrest
      refine ⟨hself, hgovernor, hplatform, hvault, hreward, ?_, fun hs => ?_⟩
      · rw [hassets]
        simp [AbstractStrategy.addPToken]
      · exact hmapped (hs.addPToken hnew hasset hpToken)

theorem initializeWith_eq_ok
    {abstractSetPToken : AbstractStrategy → ω → Address → Address → Except Failure ω}
    {platformAddress vaultAddress rewardTokenAddress : Address} {assets pTokens : List Address}
    (h : s.initializeWith abstractSetPToken w platformAddress vaultAddress rewardTokenAddress
      assets pTokens = .ok (s', w')) :
    InitializedFrom s s' platformAddress vaultAddress rewardTokenAddress assets := by
  obtain ⟨_, hlength, h⟩ := bind_eq_ok.mp h
  have hassets : (assets.zip pTokens).map Prod.fst = assets :=
    List.map_fst_zip (own_require.mp hlength).le
  have hfrom := foldlM_setPToken h
  rw [hassets] at hfrom
  obtain ⟨hself, hgovernor, hplatform, hvault, hreward, hmap, hmapped⟩ := hfrom
  exact ⟨hself, hgovernor, hplatform, hvault, hreward, hmap,
    fun hs => hmapped ⟨hs.nodup, hs.mem_iff, hs.zero⟩⟩

/-- Where there is an initial asset, the strategy's own part of the setting was run. -/
theorem initializeWith_ran
    {abstractSetPToken : AbstractStrategy → ω → Address → Address → Except Failure ω}
    {platformAddress vaultAddress rewardTokenAddress : Address} {assets pTokens : List Address}
    (h : s.initializeWith abstractSetPToken w platformAddress vaultAddress rewardTokenAddress
      assets pTokens = .ok (s', w')) (hassets : assets ≠ []) :
    ∃ t asset pToken w₁, t.platformAddress = platformAddress ∧
      abstractSetPToken t w asset pToken = .ok w₁ := by
  obtain ⟨_, hlength, h⟩ := bind_eq_ok.mp h
  have hlength : assets.length = pTokens.length := own_require.mp hlength
  match assets, pTokens with
  | [], _ => exact absurd rfl hassets
  | _ :: _, [] => cases hlength
  | asset :: _, pToken :: _ =>
      rw [List.zip_cons_cons, List.foldlM_cons] at h
      obtain ⟨⟨t, w₁⟩, ht, -⟩ := bind_eq_ok.mp h
      obtain ⟨-, -, rfl, hran⟩ := setPToken_eq_ok ht
      exact ⟨_, asset, pToken, w₁, rfl, hran⟩

end AbstractStrategy

end InterestDollar
