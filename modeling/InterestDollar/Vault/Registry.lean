import InterestDollar.Vault.History
import InterestDollar.Vault.PlainWorld

/-!
# The registries of assets and strategies

What each action makes of the vault's storage, and from it: the lists hold
exactly what the maps say is supported, without repetitions, in every reachable
state. Nothing makes the default strategy of an asset follow the removal of that
strategy. The default strategies are all approved at every moment of a run exactly
when no strategy is removed while it is the default of an asset.
-/

namespace InterestDollar

open Checked Transition Listing

namespace Vault

/-- Two storages with the same registries, at the same address. -/
structure SameRegistry (v v' : Vault) : Prop where
  self : v'.self = v.self
  assets : v'.assets = v.assets
  allAssets : v'.allAssets = v.allAssets
  strategies : v'.strategies = v.strategies
  allStrategies : v'.allStrategies = v.allStrategies
  defaults : v'.assetDefaultStrategies = v.assetDefaultStrategies

/-- The storage after an asset is supported. -/
def addAsset (v : Vault) (asset : Address) : Vault :=
  { v with
    assets := Function.update v.assets asset true
    allAssets := v.allAssets ++ [asset] }

/-- The storage after a strategy is approved. -/
def addStrategy (v : Vault) (strategy : Address) : Vault :=
  { v with
    strategies := Function.update v.strategies strategy true
    allStrategies := v.allStrategies ++ [strategy] }

/-- The storage after the default strategy of an asset is set. -/
def setDefault (v : Vault) (asset strategy : Address) : Vault :=
  { v with
    assetDefaultStrategies := Function.update v.assetDefaultStrategies asset strategy }

/-- The storage after a strategy is removed. -/
def dropStrategy (v : Vault) (strategy : Address) : Vault :=
  { v with
    strategies := Function.update v.strategies strategy false
    allStrategies :=
      if strategy ∈ v.allStrategies then swapRemove strategy v.allStrategies
      else v.allStrategies }

/-- The lists hold what the maps say is supported, without repetitions, and only
a supported asset has a default strategy. -/
structure Registered (v : Vault) : Prop where
  nodupAssets : v.allAssets.Nodup
  assets : ∀ a, v.assets a = true ↔ a ∈ v.allAssets
  nodupStrategies : v.allStrategies.Nodup
  strategies : ∀ x, v.strategies x = true ↔ x ∈ v.allStrategies
  defaults : ∀ a, v.assetDefaultStrategies a ≠ 0 → a ∈ v.allAssets

/-- The default strategy of every asset that has one is approved and listed. -/
def DefaultsApproved (v : Vault) : Prop :=
  ∀ a, v.assetDefaultStrategies a ≠ 0 →
    v.strategies (v.assetDefaultStrategies a) = true ∧
      v.assetDefaultStrategies a ∈ v.allStrategies

theorem registered_initialized (self governor priceProvider : Address) :
    (initialized self governor priceProvider).Registered where
  nodupAssets := List.nodup_nil
  assets := by simp [initialized]
  nodupStrategies := List.nodup_nil
  strategies := by simp [initialized]
  defaults := fun _ h => absurd rfl h

theorem defaultsApproved_initialized (self governor priceProvider : Address) :
    (initialized self governor priceProvider).DefaultsApproved :=
  fun _ h => absurd rfl h

section Keep

variable {v v' : Vault} {asset strategy : Address}

theorem Registered.of_same (h : v.Registered) (hs : SameRegistry v v') : v'.Registered where
  nodupAssets := by rw [hs.allAssets]; exact h.nodupAssets
  assets := by rw [hs.assets, hs.allAssets]; exact h.assets
  nodupStrategies := by rw [hs.allStrategies]; exact h.nodupStrategies
  strategies := by rw [hs.strategies, hs.allStrategies]; exact h.strategies
  defaults := by rw [hs.defaults, hs.allAssets]; exact h.defaults

theorem DefaultsApproved.of_same (h : v.DefaultsApproved) (hs : SameRegistry v v') :
    v'.DefaultsApproved := by
  unfold DefaultsApproved
  rw [hs.defaults, hs.strategies, hs.allStrategies]
  exact h

/-- Appending an element that was not there, and marking it, keeps list and map
together. -/
theorem append_registered {marked : Address → Bool} {l : List Address} {x : Address}
    (hnodup : l.Nodup) (h : ∀ y, marked y = true ↔ y ∈ l) (hx : marked x = false) :
    (l ++ [x]).Nodup ∧ ∀ y, Function.update marked x true y = true ↔ y ∈ l ++ [x] := by
  have hnot : x ∉ l := fun hmem => by simp [(h x).mpr hmem] at hx
  refine ⟨hnodup.append (List.nodup_singleton x) (List.disjoint_singleton.mpr hnot), ?_⟩
  intro y
  rw [List.mem_append, List.mem_singleton]
  by_cases hy : y = x
  · subst hy
    simp
  · simp [hy, h y]

theorem Registered.addAsset (h : v.Registered) (hnew : v.assets asset = false) :
    (v.addAsset asset).Registered := by
  obtain ⟨hnodup, hiff⟩ := append_registered h.nodupAssets h.assets hnew
  exact ⟨hnodup, hiff, h.nodupStrategies, h.strategies,
    fun a ha => List.mem_append_left _ (h.defaults a ha)⟩

theorem Registered.addStrategy (h : v.Registered) (hnew : v.strategies strategy = false) :
    (v.addStrategy strategy).Registered := by
  obtain ⟨hnodup, hiff⟩ := append_registered h.nodupStrategies h.strategies hnew
  exact ⟨h.nodupAssets, h.assets, hnodup, hiff, h.defaults⟩

theorem setDefault_of_ne {a : Address} (h : a ≠ asset) :
    (v.setDefault asset strategy).assetDefaultStrategies a = v.assetDefaultStrategies a :=
  Function.update_of_ne h _ _

theorem Registered.setDefault (h : v.Registered) (hasset : v.assets asset = true) :
    (v.setDefault asset strategy).Registered where
  nodupAssets := h.nodupAssets
  assets := h.assets
  nodupStrategies := h.nodupStrategies
  strategies := h.strategies
  defaults := by
    intro a ha
    by_cases heq : a = asset
    · exact heq ▸ (h.assets asset).mp hasset
    · rw [setDefault_of_ne heq] at ha
      exact h.defaults a ha

theorem Registered.mem_dropStrategy (h : v.Registered) {x : Address} :
    x ∈ (v.dropStrategy strategy).allStrategies ↔ x ≠ strategy ∧ x ∈ v.allStrategies := by
  unfold Vault.dropStrategy
  by_cases hmem : strategy ∈ v.allStrategies
  · simp only [if_pos hmem]
    exact mem_swapRemove hmem h.nodupStrategies
  · simp only [if_neg hmem]
    exact ⟨fun hx => ⟨fun heq => hmem (heq ▸ hx), hx⟩, And.right⟩

theorem Registered.dropStrategy (h : v.Registered) : (v.dropStrategy strategy).Registered where
  nodupAssets := h.nodupAssets
  assets := h.assets
  nodupStrategies := by
    unfold Vault.dropStrategy
    by_cases hmem : strategy ∈ v.allStrategies
    · simp only [if_pos hmem]
      exact nodup_swapRemove hmem h.nodupStrategies
    · simp only [if_neg hmem]
      exact h.nodupStrategies
  strategies := by
    intro x
    rw [h.mem_dropStrategy]
    by_cases hx : x = strategy
    · simp [Vault.dropStrategy, hx]
    · simp [Vault.dropStrategy, hx, h.strategies x]
  defaults := h.defaults

theorem DefaultsApproved.addStrategy (h : v.DefaultsApproved) :
    (v.addStrategy strategy).DefaultsApproved := by
  intro a ha
  obtain ⟨hmarked, hmem⟩ := h a ha
  refine ⟨?_, List.mem_append_left _ hmem⟩
  have hother : ∀ x, v.strategies x = true →
      Function.update v.strategies strategy true x = true := by
    intro x hx
    by_cases hxs : x = strategy
    · rw [hxs, Function.update_self]
    · rwa [Function.update_of_ne hxs]
  exact hother _ hmarked

theorem DefaultsApproved.setDefault (h : v.DefaultsApproved) (hr : v.Registered)
    (hs : v.strategies strategy = true) : (v.setDefault asset strategy).DefaultsApproved := by
  intro a ha
  by_cases heq : a = asset
  · subst heq
    have hself : (v.setDefault a strategy).assetDefaultStrategies a = strategy :=
      Function.update_self _ _ _
    rw [hself]
    exact ⟨hs, (hr.strategies strategy).mp hs⟩
  · rw [setDefault_of_ne heq] at ha ⊢
    exact h a ha

/-- Removing a strategy keeps the defaults approved exactly when it is not the
default of an asset; the zero address stands for no default. -/
theorem Registered.dropStrategy_defaults (h : v.Registered) (hd : v.DefaultsApproved) :
    (v.dropStrategy strategy).DefaultsApproved ↔
      (strategy ≠ 0 → ∀ a, v.assetDefaultStrategies a ≠ strategy) := by
  constructor
  · intro hkeep hne a ha
    have hdefault : (v.dropStrategy strategy).assetDefaultStrategies a = strategy := ha
    have hmem := (hkeep a (hdefault ▸ hne)).2
    rw [hdefault, h.mem_dropStrategy] at hmem
    exact hmem.1 rfl
  · intro hfree a ha
    obtain ⟨-, hmem⟩ := hd a ha
    have hne : v.assetDefaultStrategies a ≠ strategy := by
      intro heq
      exact hfree (heq ▸ ha) a heq
    have hlisted : v.assetDefaultStrategies a ∈ (v.dropStrategy strategy).allStrategies :=
      h.mem_dropStrategy.mpr ⟨hne, hmem⟩
    exact ⟨(h.dropStrategy.strategies _).mpr hlisted, hlisted⟩

end Keep

end Vault

namespace System

variable {ω : Type} {W : World ω} {s s' : System ω} {sender : Address}

/-- The system with another storage of the vault. -/
def setVault (s : System ω) (v : Vault) : System ω := { s with vault := v }

/-- What an action can do: run a function that leaves the vault's storage alone,
call the token, store a setting, or change one of the registries. -/
inductive Effect (W : World ω) (s : System ω) (sender : Address) : Action ω → System ω → Prop
  | function {action : Action ω} {s' : System ω} : Small W s s' → Effect W s sender action s'
  | ousd {call : Ledger.Call} {s' : System ω} :
      s.callOusd W sender call = .ok s' → Effect W s sender (.ousd call) s'
  | setting {action : Action ω} {v : Vault} :
      Vault.SameRegistry s.vault v →
        v.trusteeFeeBps = s.vault.trusteeFeeBps ∨ v.trusteeFeeBps ≤ 5000 →
          Effect W s sender action (s.setVault v)
  | supportAsset {asset : Address} :
      s.vault.assets asset = false →
        Effect W s sender (.supportAsset asset) (s.setVault (s.vault.addAsset asset))
  | approveStrategy {strategy : Address} :
      s.vault.strategies strategy = false →
        Effect W s sender (.approveStrategy strategy)
          (s.setVault (s.vault.addStrategy strategy))
  | setAssetDefaultStrategy {asset strategy : Address} :
      s.vault.strategies strategy = true → s.vault.assets asset = true →
        Effect W s sender (.setAssetDefaultStrategy asset strategy)
          (s.setVault (s.vault.setDefault asset strategy))
  | removeStrategy {strategy : Address} {s' : System ω} :
      WorldOnly (s.setVault (s.vault.dropStrategy strategy)) s' →
        Effect W s sender (.removeStrategy strategy) s'

theorem storeSetting_same (setting : Setting) (v : Vault) :
    Vault.SameRegistry v (setting.store v) ∧
      (setting.store v).trusteeFeeBps = v.trusteeFeeBps := by
  cases setting <;> exact ⟨⟨rfl, rfl, rfl, rfl, rfl, rfl⟩, rfl⟩

theorem execSetting_effect {setting : Setting} {action : Action ω}
    (h : s.execSetting sender setting = .ok s') : Effect W s sender action s' := by
  have hstore : storeSetting setting s sender = .ok s' := by cases setting <;> exact h
  obtain ⟨_, _, hs⟩ := bind_eq_ok.mp hstore
  cases hs
  obtain ⟨hsame, hfee⟩ := storeSetting_same setting s.vault
  exact .setting hsame (.inl hfee)

theorem removeStrategy_eq_ok {strategy : Address}
    (h : s.removeStrategy W sender strategy = .ok s') :
    WorldOnly (s.setVault (s.vault.dropStrategy strategy)) s' := by
  simp only [removeStrategy, bind_eq_ok, pure_eq_ok] at h
  obtain ⟨_, _, _, _, s₁, hdelist, rfl⟩ := h
  unfold delistStrategy at hdelist
  by_cases hmem : strategy ∈ s.vault.allStrategies
  · rw [if_pos hmem] at hdelist
    obtain ⟨w, _, hharvest⟩ := bind_eq_ok.mp hdelist
    obtain ⟨w', rfl⟩ := harvestFrom_worldOnly _ strategy _ hharvest
    refine ⟨w', ?_⟩
    simp only [setVault, setWorld, Vault.dropStrategy, if_pos hmem]
  · rw [if_neg hmem] at hdelist
    cases hdelist
    refine ⟨s.world, ?_⟩
    simp only [setVault, setWorld, Vault.dropStrategy, if_neg hmem]

/-- Every action has one of the effects. -/
theorem exec_effect {action : Action ω} (h : s.exec W (sender, action) = .ok s') :
    Effect W s sender action s' := by
  cases action with
  | ousd call => exact .ousd h
  | mint asset amount minimum => exact .function (mint_small s sender asset amount minimum _ h)
  | mintMultiple assets amounts minimum =>
      exact .function (mintMultiple_small s sender assets amounts minimum _ h)
  | redeem amount minimum => exact .function (redeem_small s sender amount minimum _ h)
  | redeemAll minimum => exact .function (redeemAll_small s sender minimum _ h)
  | allocate => exact .function (small_of_worldOnly (allocate_worldOnly s) _ h)
  | rebase =>
      obtain ⟨_, _, h⟩ := bind_eq_ok.mp h
      exact .function (rebaseSupply_small s _ h)
  | configure setting => exact execSetting_effect h
  | setVaultBuffer vaultBuffer =>
      obtain ⟨_, _, h⟩ := bind_eq_ok.mp h
      obtain ⟨_, _, h⟩ := bind_eq_ok.mp h
      cases h
      exact .setting ⟨rfl, rfl, rfl, rfl, rfl, rfl⟩ (.inl rfl)
  | setTrusteeFeeBps basis =>
      obtain ⟨_, _, h⟩ := bind_eq_ok.mp h
      obtain ⟨_, hbasis, h⟩ := bind_eq_ok.mp h
      cases h
      exact .setting ⟨rfl, rfl, rfl, rfl, rfl, rfl⟩ (.inr (require_eq_ok.mp hbasis))
  | pauseRebase =>
      obtain ⟨_, _, h⟩ := bind_eq_ok.mp h
      cases h
      exact .setting ⟨rfl, rfl, rfl, rfl, rfl, rfl⟩ (.inl rfl)
  | pauseCapital =>
      obtain ⟨_, _, h⟩ := bind_eq_ok.mp h
      cases h
      exact .setting ⟨rfl, rfl, rfl, rfl, rfl, rfl⟩ (.inl rfl)
  | unpauseCapital =>
      obtain ⟨_, _, h⟩ := bind_eq_ok.mp h
      cases h
      exact .setting ⟨rfl, rfl, rfl, rfl, rfl, rfl⟩ (.inl rfl)
  | transferGovernance newGovernor =>
      obtain ⟨_, _, h⟩ := bind_eq_ok.mp h
      cases h
      exact .setting ⟨rfl, rfl, rfl, rfl, rfl, rfl⟩ (.inl rfl)
  | claimGovernance =>
      obtain ⟨_, _, h⟩ := bind_eq_ok.mp h
      obtain ⟨_, _, h⟩ := bind_eq_ok.mp h
      cases h
      exact .setting ⟨rfl, rfl, rfl, rfl, rfl, rfl⟩ (.inl rfl)
  | supportAsset asset =>
      obtain ⟨_, _, h⟩ := bind_eq_ok.mp h
      obtain ⟨_, hnew, h⟩ := bind_eq_ok.mp h
      obtain ⟨_, _, h⟩ := bind_eq_ok.mp h
      cases h
      exact .supportAsset (require_eq_ok.mp hnew)
  | approveStrategy strategy =>
      obtain ⟨_, _, h⟩ := bind_eq_ok.mp h
      obtain ⟨_, hnew, h⟩ := bind_eq_ok.mp h
      cases h
      exact .approveStrategy (require_eq_ok.mp hnew)
  | setAssetDefaultStrategy asset strategy =>
      obtain ⟨_, _, h⟩ := bind_eq_ok.mp h
      obtain ⟨_, happroved, h⟩ := bind_eq_ok.mp h
      obtain ⟨_, hasset, h⟩ := bind_eq_ok.mp h
      obtain ⟨_, _, h⟩ := bind_eq_ok.mp h
      obtain ⟨_, _, h⟩ := bind_eq_ok.mp h
      cases h
      exact .setAssetDefaultStrategy (require_eq_ok.mp happroved) (require_eq_ok.mp hasset)
  | removeStrategy strategy => exact .removeStrategy (removeStrategy_eq_ok h)
  | reallocate strategyFrom strategyTo assets amounts =>
      exact .function (small_of_worldOnly (reallocate_worldOnly s _ _ _ _ _) _ h)
  | withdrawAllFromStrategy strategy =>
      obtain ⟨_, _, h⟩ := bind_eq_ok.mp h
      obtain ⟨_, _, h⟩ := bind_eq_ok.mp h
      exact .function (small_of_worldOnly (recallAssets_worldOnly s strategy) _ h)
  | withdrawAllFromStrategies =>
      obtain ⟨_, _, h⟩ := bind_eq_ok.mp h
      exact .function (small_of_worldOnly (foldlM_worldOnly recallAssets_worldOnly s _) _ h)
  | harvest =>
      obtain ⟨_, _, h⟩ := bind_eq_ok.mp h
      exact .function (small_of_worldOnly (foldlM_worldOnly harvestFrom_worldOnly s _) _ h)
  | harvestStrategy strategy =>
      exact .function (small_of_worldOnly (harvestStrategy_worldOnly s _ _) _ h)
  | transferToken asset amount =>
      obtain ⟨_, _, h⟩ := bind_eq_ok.mp h
      obtain ⟨_, _, h⟩ := bind_eq_ok.mp h
      refine .function (ensures_ite (fun _ => callOusd_small _) (fun _ => ?_) _ h)
      refine ensures_of_bind fun w _ => ensures_pure ?_
      exact .single (.world (worldOnly_setWorld s w))
  | environment world =>
      cases h
      exact .function (.single (.world (worldOnly_setWorld s world)))

theorem execFrom_eq_ok {step : Address × Action ω} :
    s.execFrom W step = .ok s' ↔ step.1 ≠ s.vault.self ∧ s.exec W step = .ok s' := by
  simp only [execFrom, bind_eq_ok, require_eq_ok, exists_and_left, exists_const]

/-! ## Invariants of the runs -/

theorem Recorded.effect {action : Action ω} (h : Recorded s)
    (heffect : Effect W s sender action s') : Recorded s' := by
  cases heffect with
  | function hsmall => exact h.small hsmall
  | ousd hcall => exact h.callOusd hcall
  | setting hsame =>
      refine ⟨?_, ?_⟩
      · exact hsame.self.symm ▸ h.ledger
      · exact hsame.self.symm ▸ h.rebases
  | supportAsset => exact ⟨h.ledger, h.rebases⟩
  | approveStrategy => exact ⟨h.ledger, h.rebases⟩
  | setAssetDefaultStrategy => exact ⟨h.ledger, h.rebases⟩
  | removeStrategy hworld =>
      obtain ⟨w, rfl⟩ := hworld
      exact ⟨h.ledger, h.rebases⟩

theorem registered_effect {action : Action ω} (h : s.vault.Registered)
    (heffect : Effect W s sender action s') : s'.vault.Registered := by
  cases heffect with
  | function hsmall => rw [hsmall.vault]; exact h
  | ousd hcall => rw [callOusd_vault hcall]; exact h
  | setting hsame => exact h.of_same hsame
  | supportAsset hnew => exact h.addAsset hnew
  | approveStrategy hnew => exact h.addStrategy hnew
  | setAssetDefaultStrategy _ hasset => exact h.setDefault hasset
  | removeStrategy hworld => rw [hworld.vault]; exact h.dropStrategy

/-- The trustee's fee never exceeds half of the yield. -/
theorem trusteeFeeBps_effect {action : Action ω} (h : s.vault.trusteeFeeBps ≤ 5000)
    (heffect : Effect W s sender action s') : s'.vault.trusteeFeeBps ≤ 5000 := by
  cases heffect with
  | function hsmall => rw [hsmall.vault]; exact h
  | ousd hcall => rw [callOusd_vault hcall]; exact h
  | setting _ hfee =>
      rcases hfee with heq | hle
      · exact heq.le.trans h
      · exact hle
  | supportAsset => exact h
  | approveStrategy => exact h
  | setAssetDefaultStrategy => exact h
  | removeStrategy hworld => rw [hworld.vault]; exact h

/-- What holds of every reachable system. -/
structure Sound (s : System ω) : Prop where
  recorded : Recorded s
  registered : s.vault.Registered
  fee : s.vault.trusteeFeeBps ≤ 5000

theorem Sound.execFrom {step : Address × Action ω} (h : Sound s)
    (hs : s.execFrom W step = .ok s') : Sound s' := by
  have heffect : Effect W s step.1 step.2 s' := exec_effect (execFrom_eq_ok.mp hs).2
  exact ⟨h.recorded.effect heffect, registered_effect h.registered heffect,
    trusteeFeeBps_effect h.fee heffect⟩

variable {self governor priceProvider : Address} {world : ω}
  {trace : List (System ω × (Address × Action ω))}

/-- Small steps keep it too: it holds in the middle of a call. -/
theorem Sound.small (h : Sound s) (hs : Small W s s') : Sound s' where
  recorded := h.recorded.small hs
  registered := by rw [hs.vault]; exact h.registered
  fee := by rw [hs.vault]; exact h.fee

theorem sound_initialized : Sound (initialized self governor priceProvider world) where
  recorded := ⟨.nil, fun _ hr => nomatch hr⟩
  registered := Vault.registered_initialized self governor priceProvider
  fee := Nat.zero_le _

theorem Reached.sound (h : Reached W self governor priceProvider world trace s) : Sound s :=
  Run.invariant Sound sound_initialized (fun _ _ _ hi hs => hi.execFrom hs) h

/-- A step does not remove a strategy that is the default of an asset. -/
def KeepsDefaults (s : System ω) (step : Address × Action ω) : Prop :=
  match step.2 with
  | .removeStrategy strategy => strategy ≠ 0 → ∀ a, s.vault.assetDefaultStrategies a ≠ strategy
  | _ => True

/-- A step does not remove a strategy that is the default of a supported asset. -/
def RemovesUnused (s : System ω) (step : Address × Action ω) : Prop :=
  match step.2 with
  | .removeStrategy strategy =>
      strategy ∉ s.vault.allAssets.map s.vault.assetDefaultStrategies
  | _ => True

instance (s : System ω) (step : Address × Action ω) : Decidable (s.RemovesUnused step) := by
  obtain ⟨sender, action⟩ := step
  cases action <;> unfold RemovesUnused <;> infer_instance

/-- Only supported assets have defaults, so they are all there is to look at. -/
theorem RemovesUnused.keepsDefaults {step : Address × Action ω} (h : s.RemovesUnused step)
    (hr : s.vault.Registered) : s.KeepsDefaults step := by
  obtain ⟨sender, action⟩ := step
  cases action with
  | removeStrategy strategy =>
      intro hne a ha
      exact h (List.mem_map.mpr ⟨a, hr.defaults a (ha ▸ hne), ha⟩)
  | _ => trivial

/-- One step of a reachable system keeps the defaults approved exactly when it
does not remove one of them. -/
theorem execFrom_defaultsApproved {step : Address × Action ω} (h : Sound s)
    (hd : s.vault.DefaultsApproved) (hs : s.execFrom W step = .ok s') :
    s'.vault.DefaultsApproved ↔ s.KeepsDefaults step := by
  obtain ⟨sender, action⟩ := step
  have hexec := (execFrom_eq_ok.mp hs).2
  by_cases hremove : ∃ strategy, action = .removeStrategy strategy
  · obtain ⟨strategy, rfl⟩ := hremove
    rw [(removeStrategy_eq_ok hexec).vault]
    exact h.registered.dropStrategy_defaults hd
  · have hkeeps : s.KeepsDefaults (sender, action) := by
      cases action with
      | removeStrategy strategy => exact absurd ⟨strategy, rfl⟩ hremove
      | _ => trivial
    refine iff_of_true ?_ hkeeps
    cases exec_effect hexec with
    | function hsmall => rw [hsmall.vault]; exact hd
    | ousd hcall => rw [callOusd_vault hcall]; exact hd
    | setting hsame => exact hd.of_same hsame
    | supportAsset => exact hd
    | approveStrategy => exact hd.addStrategy
    | setAssetDefaultStrategy happroved => exact hd.setDefault h.registered happroved
    | removeStrategy => exact absurd ⟨_, rfl⟩ hremove

/-- The default strategies are approved and listed in every state of a run exactly
when no step of it removes a strategy that is the default of an asset. -/
theorem defaults_approved_iff (h : Reached W self governor priceProvider world trace s) :
    ((∀ e ∈ trace, e.1.vault.DefaultsApproved) ∧ s.vault.DefaultsApproved) ↔
      ∀ e ∈ trace, e.1.KeepsDefaults e.2 :=
  Run.forall_iff Sound (fun s => s.vault.DefaultsApproved) KeepsDefaults sound_initialized
    (Vault.defaultsApproved_initialized _ _ _) (fun _ _ _ hi hs => hi.execFrom hs)
    (fun _ _ _ hi hd hs => execFrom_defaultsApproved hi hd hs) h

/-- The run of a list of steps, where all of them succeed. -/
theorem reached_of_returns {steps : List (Address × Action ω)}
    {P : List (System ω × (Address × Action ω)) × System ω → Prop}
    (h : Returns (execTrace (execFrom W) [] (initialized self governor priceProvider world) steps)
      P) :
    ∃ trace s, Reached W self governor priceProvider world trace s ∧ P (trace, s) := by
  obtain ⟨⟨trace, s⟩, hout, hP⟩ := h
  exact ⟨trace, s, run_of_execTrace .nil hout, hP⟩

/-- A strategy that was replaced as the default of its asset can be removed. -/
theorem defaults_approved_replaced :
    ∃ trace s, Reached PlainWorld.calls 9 8 7 (PlainWorld.empty [] [5]) trace s ∧
      s.vault.assetDefaultStrategies 5 = 22 ∧ s.vault.allStrategies = [22] ∧
        s.vault.DefaultsApproved := by
  have hsteps : Returns
      (execTrace (execFrom PlainWorld.calls) []
        (initialized 9 8 7 (PlainWorld.empty [] [5]))
        [(8, .supportAsset 5), (8, .approveStrategy 21), (8, .approveStrategy 22),
          (8, .setAssetDefaultStrategy 5 21), (8, .setAssetDefaultStrategy 5 22),
          (8, .removeStrategy 21)])
      fun out => out.2.vault.assetDefaultStrategies 5 = 22 ∧ out.2.vault.allStrategies = [22] ∧
        ∀ e ∈ out.1, e.1.RemovesUnused e.2 := by decide
  obtain ⟨trace, s, hrun, hdefault, hlist, hunused⟩ := reached_of_returns hsteps
  refine ⟨trace, s, hrun, hdefault, hlist, ((defaults_approved_iff hrun).mpr ?_).2⟩
  intro e he
  obtain ⟨before, hbefore, -⟩ := Run.prefix_of_mem hrun he
  exact (hunused e he).keepsDefaults (Reached.sound hbefore).registered

/-- A strategy can be removed while it is the default of an asset. -/
theorem defaults_not_approved :
    ∃ trace s, Reached PlainWorld.calls 9 8 7 (PlainWorld.empty [] [5]) trace s ∧
      s.vault.assetDefaultStrategies 5 = 21 ∧ s.vault.strategies 21 = false ∧
        21 ∉ s.vault.allStrategies := by
  have hsteps : Returns
      (execTrace (execFrom PlainWorld.calls) []
        (initialized 9 8 7 (PlainWorld.empty [] [5]))
        [(8, .supportAsset 5), (8, .approveStrategy 21), (8, .setAssetDefaultStrategy 5 21),
          (8, .removeStrategy 21)])
      fun out => out.2.vault.assetDefaultStrategies 5 = 21 ∧ out.2.vault.strategies 21 = false ∧
        21 ∉ out.2.vault.allStrategies := by decide
  obtain ⟨trace, s, hrun, hdefault, hflag, hlist⟩ := reached_of_returns hsteps
  exact ⟨trace, s, hrun, hdefault, hflag, hlist⟩

end System

end InterestDollar
