import InterestDollar.Transition.Office
import InterestDollar.Vault.Registry

/-!
# Who can do what to the vault

Three groups of functions: those anybody calls, which leave the storage of the vault as it
is; those of the strategist, who steers the funds within what the governor has approved; and
the governor's. The governor hands its office over in two steps.

Over a run, what the vault is configured to do is therefore decided by the accounts that
were in charge when the run started, and by those they named.
-/

namespace InterestDollar

open Checked Transition

namespace Vault

/-- What the strategist can make of the storage: the buffer, the pauses and the default
strategies, which stay among the approved ones. Rebasing can be paused and not unpaused. -/
structure Steered (v v' : Vault) : Prop where
  rest : v' = { v with
    vaultBuffer := v'.vaultBuffer
    rebasePaused := v'.rebasePaused
    capitalPaused := v'.capitalPaused
    assetDefaultStrategies := v'.assetDefaultStrategies }
  buffer : v'.vaultBuffer = v.vaultBuffer ∨ v'.vaultBuffer ≤ fullScale
  rebasePaused : v.rebasePaused = true → v'.rebasePaused = true
  defaults : ∀ a, v'.assetDefaultStrategies a = v.assetDefaultStrategies a ∨
    v.assets a = true ∧ v.strategies (v'.assetDefaultStrategies a) = true

/-- The office of the governor. -/
def office (v : Vault) : Office Address := ⟨v.governor, v.pendingGovernor⟩

theorem Steered.refl (v : Vault) : v.Steered v where
  rest := rfl
  buffer := .inl rfl
  rebasePaused := id
  defaults _ := .inl rfl

section Steered

variable {v v' v'' : Vault}

theorem Steered.assets (h : v.Steered v') : v'.assets = v.assets := by rw [h.rest]

theorem Steered.strategies (h : v.Steered v') : v'.strategies = v.strategies := by rw [h.rest]

theorem Steered.governor (h : v.Steered v') : v'.governor = v.governor := by rw [h.rest]

theorem Steered.pendingGovernor (h : v.Steered v') :
    v'.pendingGovernor = v.pendingGovernor := by rw [h.rest]

theorem Steered.strategistAddr (h : v.Steered v') : v'.strategistAddr = v.strategistAddr := by
  rw [h.rest]

theorem Steered.office (h : v.Steered v') : v'.office = v.office := by
  unfold Vault.office
  rw [h.governor, h.pendingGovernor]

theorem Steered.trans (h : v.Steered v') (h' : v'.Steered v'') : v.Steered v'' where
  rest := by rw [h'.rest, h.rest]
  buffer := by
    rcases h'.buffer with heq | hle
    · rw [heq]
      exact h.buffer
    · exact .inr hle
  rebasePaused hpaused := h'.rebasePaused (h.rebasePaused hpaused)
  defaults a := by
    rcases h'.defaults a with heq | hset
    · rw [heq]
      exact h.defaults a
    · rw [h.assets, h.strategies] at hset
      exact .inr hset

end Steered

end Vault

/-- The calls that are open to everybody. -/
def Action.isPublic {ω : Type} : Action ω → Bool
  | .ousd _ | .mint _ _ _ | .mintMultiple _ _ _ | .redeem _ _ | .redeemAll _ | .allocate
  | .rebase | .environment _ => true
  | _ => false

namespace System

variable {ω : Type} {W : World ω} {s s' : System ω} {sender : Address}

/-- A step of the system that goes through. -/
def Steps (W : World ω) (s : System ω) (step : Address × Action ω) (s' : System ω) : Prop :=
  s.execFrom W step = .ok s'

/-- What an action makes of the storage of the vault, and who may take it. -/
inductive Authority (v : Vault) (sender : Address) (action : Action ω) : Vault → Prop
  | anybody : action.isPublic = true → Authority v sender action v
  | strategist {v' : Vault} : sender = v.strategistAddr ∨ sender = v.governor →
      v.Steered v' → Authority v sender action v'
  | governor {v' : Vault} : sender = v.governor → v'.governor = v.governor →
      Authority v sender action v'
  | claim : sender = v.pendingGovernor → sender ≠ 0 →
      Authority v sender action { v with governor := sender }

theorem onlyGovernor_eq_ok {u : Unit} :
    s.onlyGovernor sender = .ok u ↔ sender = s.vault.governor := require_eq_ok

theorem onlyGovernorOrStrategist_eq_ok {u : Unit} :
    s.onlyGovernorOrStrategist sender = .ok u ↔
      sender = s.vault.strategistAddr ∨ sender = s.vault.governor := require_eq_ok

/-- A function of the strategist or the governor that changes no more than the world. -/
theorem authority_of_worldOnly {action : Action ω} {x : Except Revert (System ω)}
    (hsender : sender = s.vault.strategistAddr ∨ sender = s.vault.governor)
    (hx : Ensures x (WorldOnly s)) (h : x = .ok s') :
    Authority s.vault sender action s'.vault := by
  rw [(hx s' h).vault]
  exact .strategist hsender (.refl _)

theorem execSetting_authority {setting : Setting} {action : Action ω}
    (h : s.execSetting sender setting = .ok s') :
    Authority s.vault sender action s'.vault := by
  have hstore : storeSetting setting s sender = .ok s' := by cases setting <;> exact h
  obtain ⟨_, hsender, hs⟩ := bind_eq_ok.mp hstore
  cases pure_eq_ok.mp hs
  refine .governor (onlyGovernor_eq_ok.mp hsender) ?_
  cases setting <;> rfl

theorem exec_authority {action : Action ω} (hself : sender ≠ s.vault.self)
    (h : s.exec W (sender, action) = .ok s') : Authority s.vault sender action s'.vault := by
  cases action with
  | ousd call => exact callOusd_vault h ▸ .anybody rfl
  | mint asset amount minimum =>
      exact (mint_small s sender asset amount minimum _ h).vault ▸ .anybody rfl
  | mintMultiple assets amounts minimum =>
      exact (mintMultiple_small s sender assets amounts minimum _ h).vault ▸ .anybody rfl
  | redeem amount minimum =>
      exact (redeem_small s sender amount minimum _ h).vault ▸ .anybody rfl
  | redeemAll minimum => exact (redeemAll_small s sender minimum _ h).vault ▸ .anybody rfl
  | allocate => exact (allocate_worldOnly s _ h).vault ▸ .anybody rfl
  | rebase =>
      obtain ⟨_, _, h⟩ := bind_eq_ok.mp h
      exact (rebaseSupply_small s _ h).vault ▸ .anybody rfl
  | configure setting => exact execSetting_authority h
  | setVaultBuffer vaultBuffer =>
      obtain ⟨_, hsender, h⟩ := bind_eq_ok.mp h
      obtain ⟨_, hbuffer, h⟩ := bind_eq_ok.mp h
      cases pure_eq_ok.mp h
      exact .strategist (onlyGovernorOrStrategist_eq_ok.mp hsender)
        ⟨rfl, .inr (require_eq_ok.mp hbuffer), id, fun _ => .inl rfl⟩
  | setTrusteeFeeBps basis =>
      obtain ⟨_, hsender, h⟩ := bind_eq_ok.mp h
      obtain ⟨_, _, h⟩ := bind_eq_ok.mp h
      cases pure_eq_ok.mp h
      exact .governor (onlyGovernor_eq_ok.mp hsender) rfl
  | pauseRebase =>
      obtain ⟨_, hsender, h⟩ := bind_eq_ok.mp h
      cases pure_eq_ok.mp h
      exact .strategist (onlyGovernorOrStrategist_eq_ok.mp hsender)
        ⟨rfl, .inl rfl, fun _ => rfl, fun _ => .inl rfl⟩
  | pauseCapital =>
      obtain ⟨_, hsender, h⟩ := bind_eq_ok.mp h
      cases pure_eq_ok.mp h
      exact .strategist (onlyGovernorOrStrategist_eq_ok.mp hsender)
        ⟨rfl, .inl rfl, id, fun _ => .inl rfl⟩
  | unpauseCapital =>
      obtain ⟨_, hsender, h⟩ := bind_eq_ok.mp h
      cases pure_eq_ok.mp h
      exact .strategist (onlyGovernorOrStrategist_eq_ok.mp hsender)
        ⟨rfl, .inl rfl, id, fun _ => .inl rfl⟩
  | transferGovernance newGovernor =>
      obtain ⟨_, hsender, h⟩ := bind_eq_ok.mp h
      cases pure_eq_ok.mp h
      exact .governor (onlyGovernor_eq_ok.mp hsender) rfl
  | claimGovernance =>
      obtain ⟨_, hsender, h⟩ := bind_eq_ok.mp h
      obtain ⟨_, hne, h⟩ := bind_eq_ok.mp h
      cases pure_eq_ok.mp h
      exact .claim (require_eq_ok.mp hsender) (require_eq_ok.mp hne)
  | supportAsset asset =>
      obtain ⟨_, hsender, h⟩ := bind_eq_ok.mp h
      obtain ⟨_, _, h⟩ := bind_eq_ok.mp h
      obtain ⟨_, _, h⟩ := bind_eq_ok.mp h
      cases pure_eq_ok.mp h
      exact .governor (onlyGovernor_eq_ok.mp hsender) rfl
  | approveStrategy strategy =>
      obtain ⟨_, hsender, h⟩ := bind_eq_ok.mp h
      obtain ⟨_, _, h⟩ := bind_eq_ok.mp h
      cases pure_eq_ok.mp h
      exact .governor (onlyGovernor_eq_ok.mp hsender) rfl
  | setAssetDefaultStrategy asset strategy =>
      obtain ⟨_, hsender, h⟩ := bind_eq_ok.mp h
      obtain ⟨_, happroved, h⟩ := bind_eq_ok.mp h
      obtain ⟨_, hasset, h⟩ := bind_eq_ok.mp h
      obtain ⟨_, _, h⟩ := bind_eq_ok.mp h
      obtain ⟨_, _, h⟩ := bind_eq_ok.mp h
      cases pure_eq_ok.mp h
      refine .strategist (onlyGovernorOrStrategist_eq_ok.mp hsender)
        ⟨rfl, .inl rfl, id, fun a => ?_⟩
      by_cases ha : a = asset
      · subst ha
        have hdefault : Function.update s.vault.assetDefaultStrategies a strategy a = strategy :=
          Function.update_self _ _ _
        exact .inr ⟨require_eq_ok.mp hasset,
          (congrArg s.vault.strategies hdefault).trans (require_eq_ok.mp happroved)⟩
      · exact .inl (Function.update_of_ne ha _ _)
  | removeStrategy strategy =>
      obtain ⟨_, hsender, _⟩ := bind_eq_ok.mp h
      refine .governor (onlyGovernor_eq_ok.mp hsender) ?_
      rw [(removeStrategy_eq_ok h).vault]
      rfl
  | reallocate strategyFrom strategyTo assets amounts =>
      obtain ⟨_, hsender, _⟩ := bind_eq_ok.mp h
      exact authority_of_worldOnly (onlyGovernorOrStrategist_eq_ok.mp hsender)
        (reallocate_worldOnly s _ _ _ _ _) h
  | withdrawAllFromStrategy strategy =>
      obtain ⟨_, hsender, h⟩ := bind_eq_ok.mp h
      obtain ⟨_, _, h⟩ := bind_eq_ok.mp h
      exact authority_of_worldOnly (onlyGovernorOrStrategist_eq_ok.mp hsender)
        (recallAssets_worldOnly s strategy) h
  | withdrawAllFromStrategies =>
      obtain ⟨_, hsender, h⟩ := bind_eq_ok.mp h
      exact authority_of_worldOnly (onlyGovernorOrStrategist_eq_ok.mp hsender)
        (foldlM_worldOnly recallAssets_worldOnly s _) h
  | harvest =>
      obtain ⟨_, hsender, h⟩ := bind_eq_ok.mp h
      exact authority_of_worldOnly (onlyGovernorOrStrategist_eq_ok.mp hsender)
        (foldlM_worldOnly harvestFrom_worldOnly s _) h
  | harvestStrategy strategy =>
      obtain ⟨_, hsender, _⟩ := bind_eq_ok.mp h
      refine authority_of_worldOnly ?_ (harvestStrategy_worldOnly s sender strategy) h
      exact (require_eq_ok.mp hsender).resolve_left hself
  | transferToken asset amount =>
      obtain ⟨_, hsender, h⟩ := bind_eq_ok.mp h
      obtain ⟨_, _, h⟩ := bind_eq_ok.mp h
      have hsmall : Small W s s' := by
        refine ensures_ite (fun _ => callOusd_small _) (fun _ => ?_) _ h
        exact ensures_of_bind fun w _ => ensures_pure (.single (.world (worldOnly_setWorld s w)))
      exact .governor (onlyGovernor_eq_ok.mp hsender) (congrArg Vault.governor hsmall.vault)
  | environment world =>
      cases h
      exact .anybody rfl

theorem Authority.office_step {v v' : Vault} {action : Action ω}
    (h : Authority v sender action v') : Office.Step sender v.office v'.office := by
  cases h with
  | anybody => exact .keep
  | strategist _ hsteered => exact hsteered.office ▸ .keep
  | governor hsender hgovernor =>
      have hoffice : v'.office = { v.office with heir := v'.pendingGovernor } := by
        unfold Vault.office
        rw [hgovernor]
      exact hoffice ▸ .name _ hsender
  | claim hsender hne => exact .claim _ hsender hne (.inl rfl)

theorem Steps.authority {step : Address × Action ω} (h : Steps W s step s') :
    Authority s.vault step.1 step.2 s'.vault := by
  obtain ⟨hself, hexec⟩ := execFrom_eq_ok.mp h
  exact exec_authority hself hexec

/-! ## Runs without those in charge -/

variable {init : System ω} {trace : List (System ω × (Address × Action ω))}

/-- A step of neither the governor nor its heir. -/
theorem Authority.steered {v v' : Vault} {action : Action ω}
    (h : Authority v sender action v') (hgovernor : sender ≠ v.governor)
    (hheir : sender ≠ v.pendingGovernor) : v.Steered v' := by
  cases h with
  | anybody => exact .refl v
  | strategist _ hsteered => exact hsteered
  | governor hsender => exact absurd hsender hgovernor
  | claim hsender => exact absurd hsender hheir

/-- A step of nobody in charge is a call that is open to everybody. -/
theorem Authority.public {v v' : Vault} {action : Action ω}
    (h : Authority v sender action v') (hgovernor : sender ≠ v.governor)
    (hheir : sender ≠ v.pendingGovernor) (hstrategist : sender ≠ v.strategistAddr) :
    action.isPublic = true ∧ v' = v := by
  cases h with
  | anybody hpublic => exact ⟨hpublic, rfl⟩
  | strategist hsender => exact absurd hsender (by simp [hgovernor, hstrategist])
  | governor hsender => exact absurd hsender hgovernor
  | claim hsender => exact absurd hsender hheir

/-- In a run in which neither the governor nor its heir acts, the vault is at most steered;
where the strategist does not act either, only the open functions go through and the storage
of the vault is what it was. -/
theorem run_without_governor
    (h : Run (Steps W) init trace s) (hgovernor : ∀ e ∈ trace, e.2.1 ≠ init.vault.governor)
    (hheir : ∀ e ∈ trace, e.2.1 ≠ init.vault.pendingGovernor) :
    init.vault.Steered s.vault ∧
      ((∀ e ∈ trace, e.2.1 ≠ init.vault.strategistAddr) →
        s.vault = init.vault ∧ ∀ e ∈ trace, e.2.2.isPublic = true) := by
  induction h with
  | nil => exact ⟨.refl _, fun _ => ⟨rfl, fun _ he => nomatch he⟩⟩
  | @cons trace s s' step hrun hstep ih =>
      obtain ⟨hgovernor, hgovernors⟩ := List.forall_mem_cons.mp hgovernor
      obtain ⟨hheir, hheirs⟩ := List.forall_mem_cons.mp hheir
      obtain ⟨hsteered, hquiet⟩ := ih hgovernors hheirs
      have hauthority := hstep.authority
      refine ⟨hsteered.trans (hauthority.steered ?_ ?_), fun hstrategist => ?_⟩
      · rwa [hsteered.governor]
      · rwa [hsteered.pendingGovernor]
      · obtain ⟨hstrategist, hstrategists⟩ := List.forall_mem_cons.mp hstrategist
        obtain ⟨hsame, hpublic⟩ := hquiet hstrategists
        rw [hsame] at hauthority
        obtain ⟨hopen, hnext⟩ := hauthority.public hgovernor hheir hstrategist
        exact ⟨hnext, List.forall_mem_cons.mpr ⟨hopen, hpublic⟩⟩

/-- The strategist sets a buffer, and somebody deposits and allocates. -/
theorem run_without_governor_deposit :
    ∃ init trace s, Run (Steps PlainWorld.calls) init trace s ∧
      init.vault.Steered s.vault ∧ s.vault.vaultBuffer = 10 ^ 17 ∧ s.ousd.totalSupply = 500 := by
  have hsteps : Returns
      (execTrace (execFrom PlainWorld.calls) []
        (initialized 9 8 7 ((PlainWorld.empty [] [5]).give 5 1 700))
        [(8, .supportAsset 5), (8, .approveStrategy 21), (8, .setAssetDefaultStrategy 5 21),
          (8, .configure (.strategistAddr 6)), (8, .unpauseCapital)])
      fun out => out.2.vault.governor = 8 ∧ out.2.vault.pendingGovernor = 0 ∧
        Returns
          (execTrace (execFrom PlainWorld.calls) [] out.2
            [(6, .setVaultBuffer (10 ^ 17)), (1, .mint 5 500 0), (1, .allocate)])
          fun out => out.2.vault.vaultBuffer = 10 ^ 17 ∧ out.2.ousd.totalSupply = 500 ∧
            ∀ e ∈ out.1, e.2.1 ≠ 8 ∧ e.2.1 ≠ 0 := by decide +kernel
  obtain ⟨⟨_, init⟩, -, hgovernor, hheir, ⟨trace, s⟩, hrun, hbuffer, hsupply, hsenders⟩ := hsteps
  have hrun : Run (Steps PlainWorld.calls) init trace s := run_of_execTrace .nil hrun
  refine ⟨init, trace, s, hrun, (run_without_governor hrun ?_ ?_).1, hbuffer, hsupply⟩
  · exact fun e he => hgovernor ▸ (hsenders e he).1
  · exact fun e he => hheir ▸ (hsenders e he).2

/-! ## Runs with the governor -/

end System

end InterestDollar
