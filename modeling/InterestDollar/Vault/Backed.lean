import InterestDollar.Token.Plain
import InterestDollar.Vault.PlainWorld
import InterestDollar.Vault.Reserves
import InterestDollar.Vault.Yield
import Mathlib.Data.Nat.Cast.Order.Field
import Mathlib.Tactic.FieldSimp
import Mathlib.Tactic.LinearCombination

/-!
# A supply that is backed

Nothing the vault does issues tokens that its reserves do not stand for. A mint issues no more
than what comes in is worth, a redeem pays out no more than what it burns, an allocation moves
assets from one place to another, and a rebase raises the supply to what the reserves are worth.
What is lost is rounding: a rebase can end above its aim by a part of the rebasing supply, and
the outputs of a redeem are worth up to one part in `1e18` more than the amount for each asset.
`supply_backed` says so of whole runs, in which the markets lose nothing.
-/

namespace InterestDollar

open Checked Transition

/-- What the supply can end above the value that a rebase was made for. -/
def RebaseRecord.overshoot (r : RebaseRecord) : ℕ :=
  (r.vaultValue - r.after.nonRebasingSupply) / r.after.rebasingCreditsPerToken

/-- What a call burns. -/
def Ledger.Call.burns : Ledger.Call → ℕ
  | .burn _ amount => amount
  | _ => 0

namespace System

variable {ω : Type} {W : World ω} {s s' t : System ω}

/-! ## The value and the reserves -/

theorem worthOf_le (asset : Address) (amount : ℕ) :
    (s.worthOf W asset amount : ℚ) ≤ amount * unitWorth W s.vault s.world asset := by
  rw [worthOf, FixedPoint.shares, unitWorth, ← mul_div_assoc]
  exact_mod_cast Nat.cast_div_le

theorem lt_worthOf_add_one (asset : Address) (amount : ℕ) :
    amount * unitWorth W s.vault s.world asset < s.worthOf W asset amount + 1 := by
  have hpos : 0 < 10 ^ amountOf (W.decimals s.world asset) := pow_pos (by norm_num) _
  have hfloor := Nat.lt_div_mul_add
    (a := amount * amountOf (W.price s.world s.vault.priceProvider asset)) hpos
  have hscale : (0 : ℚ) < 10 ^ amountOf (W.decimals s.world asset) := by exact_mod_cast hpos
  rw [worthOf, FixedPoint.shares, unitWorth, ← mul_div_assoc, div_lt_iff₀ hscale, add_mul, one_mul]
  exact_mod_cast hfloor

/-- The total value goes over the holders and floors what each has of each asset. -/
theorem totalValue_eq_worth {value : ℕ} (hr : s.vault.Registered)
    (h : s.totalValue W = .ok value) :
    value = ∑ asset ∈ s.vault.allAssets.toFinset, ∑ holder ∈ holders s.vault,
      s.worthOf W asset (heldBy W s.vault s.world holder asset) := by
  rw [totalValue_eq_sum h, ← List.sum_toFinset _ hr.nodupAssets]
  obtain ⟨inVault, inStrategies, hvault, hinside, -⟩ := totalValue_eq_ok h
  obtain ⟨hreads, -⟩ := totalValueInVault_eq_ok hvault
  obtain ⟨hinner, -⟩ := totalValueInStrategies_eq_ok hinside
  refine Finset.sum_congr rfl fun asset hasset => ?_
  have hmem := List.mem_toFinset.mp hasset
  rw [assetValue, holders, Finset.sum_insertNone, List.sum_toFinset _ hr.nodupStrategies]
  refine congrArg₂ (· + ·) (valueInVault_eq_ok (hreads asset hmem)).2 ?_
  refine congrArg List.sum (List.map_congr_left fun strategy hstrategy => ?_)
  have hread := hinner strategy hstrategy asset hmem
  obtain ⟨balance, hbalance⟩ : ∃ balance, s.balanceInStrategy W strategy asset = .ok balance := by
    obtain ⟨supported, hsupported, hread⟩ := bind_eq_ok.mp hread
    cases supported with
    | false => exact ⟨0, bind_eq_ok.mpr ⟨false, hsupported, rfl⟩⟩
    | true =>
        obtain ⟨balance, hbalance, -⟩ := bind_eq_ok.mp hread
        exact ⟨balance, bind_eq_ok.mpr ⟨true, hsupported, hbalance⟩⟩
  rw [valueInStrategy_eq_worth hread hbalance]
  exact congrArg _ (amountOf_eq hbalance).symm

theorem totalValue_le_reserves {value : ℕ} (hr : s.vault.Registered)
    (h : s.totalValue W = .ok value) : (value : ℚ) ≤ reserves W s.vault s.world := by
  rw [totalValue_eq_worth hr h]
  push_cast
  exact Finset.sum_le_sum fun asset _ => Finset.sum_le_sum fun holder _ => worthOf_le _ _

/-- Each holder of each asset costs the total value less than one. -/
theorem reserves_le_totalValue {value : ℕ} (hr : s.vault.Registered)
    (h : s.totalValue W = .ok value) : reserves W s.vault s.world ≤
      value + s.vault.allAssets.length * (s.vault.allStrategies.length + 1) := by
  have hassets : s.vault.allAssets.toFinset.card = s.vault.allAssets.length :=
    List.toFinset_card_of_nodup hr.nodupAssets
  have hholders : (holders s.vault).card = s.vault.allStrategies.length + 1 := by
    rw [holders, Finset.card_insertNone, List.toFinset_card_of_nodup hr.nodupStrategies]
  calc reserves W s.vault s.world
      ≤ ∑ asset ∈ s.vault.allAssets.toFinset, ∑ holder ∈ holders s.vault,
          ((s.worthOf W asset (heldBy W s.vault s.world holder asset) : ℚ) + 1) :=
        Finset.sum_le_sum fun asset _ => Finset.sum_le_sum fun holder _ =>
          (lt_worthOf_add_one _ _).le
    _ = value + s.vault.allAssets.length * (s.vault.allStrategies.length + 1) := by
        rw [totalValue_eq_worth hr h]
        push_cast
        simp only [Finset.sum_add_distrib, Finset.sum_const, hassets, hholders, nsmul_eq_mul,
          mul_one]
        push_cast
        rfl

/-! ## What a redeem pays out -/

/-- What the outputs of a redeem can be worth above the amount, as a part of it. -/
def payoutRounding (n : ℕ) : ℚ := n / (fullScale - n)

theorem payoutRounding_nonneg {n : ℕ} (h : n < fullScale) : 0 ≤ payoutRounding n := by
  have hlt : (n : ℚ) < fullScale := by exact_mod_cast h
  exact div_nonneg (Nat.cast_nonneg n) (sub_pos.mpr hlt).le

theorem payoutRounding_mono {m n : ℕ} (h : m ≤ n) (hn : n < fullScale) :
    payoutRounding m ≤ payoutRounding n := by
  have hle : (m : ℚ) ≤ n := by exact_mod_cast h
  have hlt : (n : ℚ) < fullScale := by exact_mod_cast hn
  exact div_le_div₀ (Nat.cast_nonneg n) hle (sub_pos.mpr hlt) (by linarith)

/-- What the outputs are worth in units is their value at the prices of the coins. -/
theorem sum_outputs_worth {coins : List Coin} (hcoins : s.coins W = .ok coins)
    (outputs : List ℕ) :
    ((s.vault.allAssets.zip outputs).map fun e =>
      (e.2 : ℚ) * unitWorth W s.vault s.world e.1).sum * fullScale =
      outputsValue coins outputs := by
  have hread := coins_eq_ok.mp hcoins
  clear hcoins
  generalize s.vault.allAssets = assets at hread ⊢
  induction hread generalizing outputs with
  | nil => simp [outputsValue]
  | @cons asset c assets coins hc _ ih =>
      cases outputs with
      | nil => simp [outputsValue]
      | cons output outputs =>
          have hscale : (fullScale : ℚ) = 10 ^ (18 - c.decimals) * 10 ^ c.decimals := by
            rw [← pow_add, Nat.sub_add_cancel hc.decimals_le]
            norm_num [fullScale]
          have hunit : unitWorth W s.vault s.world asset = c.price / 10 ^ c.decimals := by
            rw [unitWorth, amountOf_eq hc.price, amountOf_eq (getDecimals_eq_ok hc.decimals)]
          have hvalue : (output : ℚ) * unitWorth W s.vault s.world asset * fullScale =
              c.value output := by
            rw [hunit, hscale, Coin.value]
            push_cast
            field_simp
          simp only [List.zip_cons_cons, List.map_cons, List.sum_cons, add_mul, hvalue, ih,
            outputsValue, List.zipWith_cons_cons]
          push_cast
          rfl

/-- The outputs of a redeem are worth no more than its amount, up to the rounding. -/
theorem outputs_worth_le {amount : ℕ} {outputs : List ℕ}
    (hfew : s.vault.allAssets.length < fullScale)
    (h : s.calculateRedeemOutputs W amount = .ok outputs) :
    ((s.vault.allAssets.zip outputs).map fun e =>
      (e.2 : ℚ) * unitWorth W s.vault s.world e.1).sum ≤
      amount + amount * payoutRounding s.vault.allAssets.length := by
  obtain ⟨coins, _, hcoins, -⟩ := calculateRedeemOutputs_eq_ok h
  have hlength : coins.length = s.vault.allAssets.length := (coins_eq_ok.mp hcoins).length_eq.symm
  have hvalue := calculateRedeemOutputs_value_le hcoins h
  rw [hlength] at hvalue
  have hworth := sum_outputs_worth hcoins outputs
  set total := ((s.vault.allAssets.zip outputs).map fun e =>
    (e.2 : ℚ) * unitWorth W s.vault s.world e.1).sum
  set n := s.vault.allAssets.length
  have hpos : (0 : ℚ) < fullScale - n := sub_pos.mpr (by exact_mod_cast hfew)
  have hscale : (0 : ℚ) < fullScale := by norm_num [fullScale]
  have hcast : (outputsValue coins outputs : ℚ) * (fullScale - n) ≤
      amount * fullScale * fullScale := by
    rw [← Nat.cast_sub hfew.le]
    exact_mod_cast hvalue
  rw [← hworth] at hcast
  have htotal : total * (fullScale - n) ≤ amount * fullScale := by nlinarith
  have hpart : (amount : ℚ) + amount * payoutRounding n = amount * fullScale / (fullScale - n) := by
    have hne := hpos.ne'
    unfold payoutRounding
    field_simp
    ring
  rw [hpart, le_div_iff₀ hpos]
  exact htotal

/-! ## The supply -/

/-- What was burnt so far. -/
def burnt (s : System ω) : ℕ := (s.ousdCalls.map fun e => e.2.2.burns).sum

/-- The most that a rebase so far can have ended above its aim. -/
def worstOvershoot (s : System ω) : ℕ := (s.rebases.map RebaseRecord.overshoot).foldr max 0

/-- What rounding can have cost so far. -/
def rounding (s : System ω) : ℚ :=
  s.worstOvershoot + s.burnt * payoutRounding s.vault.allAssets.length

/-- The reserves stand for the supply, but for an amount and for what was rounded. -/
def BackedUpTo (W : World ω) (s : System ω) (missing : ℚ) : Prop :=
  (s.ousd.totalSupply : ℚ) ≤ reserves W s.vault s.world + missing + s.rounding

theorem BackedUpTo.mono {missing missing' : ℚ} (h : BackedUpTo W s missing)
    (hle : missing ≤ missing') : BackedUpTo W s missing' := by
  unfold BackedUpTo at h ⊢
  linarith

/-- What the reserves gain is missing no longer. -/
theorem BackedUpTo.brings {Trusted : ω → Prop} {missing worth : ℚ} (h : BackedUpTo W s missing)
    (hworld : WorldOnly s t) (hbrings : Brings W s.vault Trusted worth s.world t.world) :
    BackedUpTo W t (missing - worth) := by
  obtain ⟨w, rfl⟩ := hworld
  have hreserves := hbrings.reserves
  have hsame : (s.setWorld w).rounding = s.rounding := rfl
  unfold BackedUpTo at h ⊢
  rw [hsame]
  simp only [setWorld] at hreserves ⊢
  linarith

theorem callOusd_burnt {sender : Address} {call : Ledger.Call}
    (h : s.callOusd W sender call = .ok t) : t.burnt = call.burns + s.burnt := by
  obtain ⟨_, -, rfl⟩ := callOusd_eq_ok.mp h
  simp [burnt]

theorem callOusd_rebases {sender : Address} {call : Ledger.Call}
    (h : s.callOusd W sender call = .ok t) : t.rebases = s.rebases := by
  obtain ⟨_, -, rfl⟩ := callOusd_eq_ok.mp h
  rfl

/-- What a call issues is missing, and what a burn takes leaves its rounding behind. -/
theorem BackedUpTo.callOusd {missing : ℚ} {sender : Address} {call : Ledger.Call}
    (h : BackedUpTo W s missing) (hs : Sound s) (hcall : ¬ call.Rebases)
    (ht : s.callOusd W sender call = .ok t) :
    BackedUpTo W t (missing + Plain.issued (⟨sender, W.isContract s.world⟩, call) -
      call.burns * payoutRounding s.vault.allAssets.length) := by
  have hburnt := callOusd_burnt ht
  obtain ⟨ousd, hexec, rfl⟩ := callOusd_eq_ok.mp ht
  have hissued := Ledger.exec_issued hs.recorded.ledger.conserved.rate_pos hcall hexec
  have hsupply : (ousd.totalSupply : ℚ) = s.ousd.totalSupply +
      Plain.issued (⟨sender, W.isContract s.world⟩, call) := by exact_mod_cast hissued
  unfold BackedUpTo rounding at h ⊢
  simp only [hburnt, hsupply, worstOvershoot] at h ⊢
  push_cast
  linarith

/-! ## Rebases -/

/-- A raise of the supply ends at its aim or above it by no more than the overshoot. -/
theorem ratchetSupply_totalSupply_le {vaultValue : ℕ} (before : Ledger)
    (h : s.ratchetSupply W vaultValue = .ok t) :
    t.ousd.totalSupply ≤ max s.ousd.totalSupply
      (vaultValue + (RebaseRecord.mk before vaultValue t.ousd).overshoot) := by
  rcases ratchetSupply_eq_ok h with rfl | ⟨hlt, hchange⟩
  · exact le_max_left _ _
  refine le_max_of_le_right ?_
  obtain ⟨ousd, hexec, rfl⟩ := callOusd_eq_ok.mp hchange
  obtain ⟨-, -, ⟨heq, -⟩ | ⟨-, hfits, rfl⟩⟩ := Ledger.changeSupply_eq_ok.mp hexec
  · exact absurd heq hlt.ne
  have hcapped : Ledger.cappedSupply vaultValue ≤ vaultValue := min_le_left _ _
  exact (Ledger.setRate_bounds hfits).2.trans
    (Nat.add_le_add hcapped (Nat.div_le_div_right (Nat.sub_le_sub_right hcapped _)))

/-- A rebase that goes through raises the supply to the value, or above it by the overshoot. -/
theorem rebaseSupply_totalSupply_le (hs : Sound s) (h : s.rebaseSupply W = .ok t) :
    t.vault = s.vault ∧ t.world = s.world ∧ t.burnt = s.burnt ∧
      (t.ousd = s.ousd ∧ t.rebases = s.rebases ∨
        ∃ r, t.rebases = r :: s.rebases ∧ s.totalValue W = .ok r.vaultValue ∧
          t.ousd.totalSupply ≤ max s.ousd.totalSupply (r.vaultValue + r.overshoot)) := by
  refine ⟨rebaseSupply_vault h, rebaseSupply_world h, ?_⟩
  obtain ⟨-, ⟨-, rfl⟩ | ⟨-, value, hvalue, s₁, hfee, s₂, hratchet, rfl⟩⟩ :=
    rebaseSupply_eq_ok.mp h
  · exact ⟨rfl, .inl ⟨rfl, rfl⟩⟩
  have hfeeKeeps : s₁.burnt = s.burnt ∧ s₁.rebases = s.rebases := by
    rcases collectFee_eq_ok hfee with rfl | ⟨-, fee, hmint⟩
    · exact ⟨rfl, rfl⟩
    · exact ⟨(callOusd_burnt hmint).trans (Nat.zero_add _), callOusd_rebases hmint⟩
  have hratchetKeeps : s₂.burnt = s₁.burnt ∧ s₂.rebases = s₁.rebases := by
    rcases ratchetSupply_eq_ok hratchet with rfl | ⟨-, hchange⟩
    · exact ⟨rfl, rfl⟩
    · exact ⟨(callOusd_burnt hchange).trans (Nat.zero_add _), callOusd_rebases hchange⟩
  have hcollected : s₁.ousd.totalSupply ≤ max s.ousd.totalSupply value := by
    rcases collectFee_eq_ok hfee with rfl | ⟨hlt, -⟩
    · exact le_max_left _ _
    · obtain ⟨rfl, -⟩ := collectFee_withFee hs.fee hlt hfee
      exact le_max_of_le_right (withFee_totalSupply_lt hs.fee hlt).le
  refine ⟨hratchetKeeps.1.trans hfeeKeeps.1, .inr ⟨⟨s.ousd, value, s₂.ousd⟩, ?_, hvalue, ?_⟩⟩
  · simp [recordRebase, hratchetKeeps.2, hfeeKeeps.2]
  · refine (ratchetSupply_totalSupply_le s.ousd hratchet).trans (max_le ?_ (le_max_right _ _))
    exact hcollected.trans (max_le_max le_rfl (Nat.le_add_right _ _))

theorem BackedUpTo.rebaseSupply (h : BackedUpTo W s 0) (hs : Sound s)
    (hfew : s.vault.allAssets.length < fullScale) (ht : s.rebaseSupply W = .ok t) :
    BackedUpTo W t 0 := by
  obtain ⟨hvault, hworld, hburnt, ⟨housd, hrebases⟩ | ⟨r, hrebases, hvalue, hsupply⟩⟩ :=
    rebaseSupply_totalSupply_le hs ht
  · unfold BackedUpTo rounding at h ⊢
    simpa only [hvault, hworld, hburnt, housd, hrebases, worstOvershoot] using h
  have hbacked := totalValue_le_reserves hs.registered hvalue
  have hlost : (0 : ℚ) ≤ s.burnt * payoutRounding s.vault.allAssets.length :=
    mul_nonneg (Nat.cast_nonneg _) (payoutRounding_nonneg hfew)
  have hworst : t.worstOvershoot = max r.overshoot s.worstOvershoot := by
    simp [worstOvershoot, hrebases]
  have hover : (r.overshoot : ℚ) ≤ t.worstOvershoot := by simp [hworst]
  have hworse : (s.worstOvershoot : ℚ) ≤ t.worstOvershoot := by simp [hworst]
  unfold BackedUpTo rounding at h ⊢
  rw [hvault, hworld, hburnt]
  rcases le_max_iff.mp hsupply with hle | hle
  · have hcast : (t.ousd.totalSupply : ℚ) ≤ s.ousd.totalSupply := by exact_mod_cast hle
    linarith
  · have hcast : (t.ousd.totalSupply : ℚ) ≤ r.vaultValue + r.overshoot := by exact_mod_cast hle
    linarith

theorem BackedUpTo.rebaseBeforeMint (h : BackedUpTo W s 0) (hs : Sound s)
    (hfew : s.vault.allAssets.length < fullScale) {units : ℕ}
    (ht : s.rebaseBeforeMint W units = .ok t) : BackedUpTo W t 0 := by
  unfold System.rebaseBeforeMint at ht
  split_ifs at ht with hdue
  · exact h.rebaseSupply hs hfew ht
  · cases pure_eq_ok.mp ht
    exact h

theorem BackedUpTo.rebaseForRedeem (h : BackedUpTo W s 0) (hs : Sound s)
    (hfew : s.vault.allAssets.length < fullScale) {amount : ℕ}
    (ht : s.rebaseForRedeem W amount = .ok t) : BackedUpTo W t 0 := by
  unfold System.rebaseForRedeem at ht
  split_ifs at ht with hdue
  · exact h.rebaseSupply hs hfew ht
  · cases pure_eq_ok.mp ht
    exact h

/-! ## Mints and redeems -/

/-- What a mint issues is worth no more than what comes in, at the prices it was reckoned at. -/
theorem BackedUpTo.settleMint (h : BackedUpTo W s 0) (hs : Sound s)
    {Trusted : ω → Prop} (hW : Custody W s.vault Trusted) (hworld : Trusted s.world)
    (hdefaults : DefaultsServe W s) (hfew : s.vault.allAssets.length < fullScale)
    {sender : Address} {deposits : List (Address × ℕ)} {minimum : ℕ} {terms : ℕ × ℕ}
    (hself : sender ≠ s.vault.self) (hsender : sender ∉ s.vault.allStrategies)
    (hassets : ∀ e ∈ deposits, e.1 ∈ s.vault.allAssets)
    (hterms : terms.2 = (deposits.map fun e => s.worthOf W e.1 e.2).sum)
    (ht : s.settleMint W sender deposits minimum terms = .ok t) : BackedUpTo W t 0 := by
  obtain ⟨_, -, ht⟩ := bind_eq_ok.mp ht
  obtain ⟨s₁, hrebase, ht⟩ := bind_eq_ok.mp ht
  obtain ⟨s₂, hissue, ht⟩ := bind_eq_ok.mp ht
  obtain ⟨s₃, htake, hallocate⟩ := bind_eq_ok.mp ht
  have hsmall := rebaseBeforeMint_small s terms.1 s₁ hrebase
  have hvault₁ : s₁.vault = s.vault := hsmall.vault
  have hworld₁ : s₁.world = s.world := rebaseBeforeMint_world hrebase
  have hvault₂ : s₂.vault = s.vault := (callOusd_vault hissue).trans hvault₁
  have hworld₂ : s₂.world = s.world := (callOusd_world hissue).trans hworld₁
  have htaken : WorldOnly s₂ s₃ := foldlM_worldOnly
    (fun u (e : Address × ℕ) => takeDeposit_worldOnly sender u e.1 e.2) s₂ deposits s₃ htake
  have hvault₃ : s₃.vault = s.vault := htaken.vault.trans hvault₂
  -- the deposits bring in what was issued, or more
  have hdeposits := takeDeposits_brings (hvault₂ ▸ hW) (hworld₂ ▸ hworld) (hvault₂ ▸ hself)
    (hvault₂ ▸ hsender) (hvault₂ ▸ hassets) htake
  have hworth : (terms.2 : ℚ) ≤
      (deposits.map fun e => (e.2 : ℚ) * unitWorth W s.vault s.world e.1).sum := by
    rw [hterms, Nat.cast_list_sum, List.map_map]
    exact List.sum_le_sum fun e _ => worthOf_le e.1 e.2
  have hissued := (h.rebaseBeforeMint hs hfew hrebase).callOusd (hs.small hsmall) id hissue
  have hbacked : BackedUpTo W s₃ 0 := by
    refine (hissued.brings htaken hdeposits).mono ?_
    rw [hvault₂, hworld₂]
    simpa [Plain.issued, Ledger.Call.burns] using hworth
  rw [hvault₂, hworld₂] at hdeposits
  have hserve : DefaultsServe W s₃ := hdefaults.of_quotes hvault₃ hdeposits.quotes
  have hstill := hdeposits.quotes.trusted hworld
  have hlast := allocateAfterMint_brings (hvault₃ ▸ hW) hstill hserve hallocate
  simpa using hbacked.brings (allocateAfterMint_worldOnly s₃ terms.1 t hallocate) hlast

/-- A redeem pays out what is worth no more than what it burns, but for the rounding. -/
theorem BackedUpTo.redeemAmount (h : BackedUpTo W s 0) (hs : Sound s)
    {Trusted : ω → Prop} (hW : Custody W s.vault Trusted) (hworld : Trusted s.world)
    (hdefaults : DefaultsServe W s) (hfew : s.vault.allAssets.length < fullScale)
    {sender : Address} {amount minimum : ℕ}
    (ht : s.redeemAmount W sender amount minimum = .ok t) : BackedUpTo W t 0 := by
  obtain ⟨_, -, ht⟩ := bind_eq_ok.mp ht
  obtain ⟨backingValue, -, ht⟩ := bind_eq_ok.mp ht
  obtain ⟨_, -, ht⟩ := bind_eq_ok.mp ht
  obtain ⟨outputs, houtputs, ht⟩ := bind_eq_ok.mp ht
  obtain ⟨s₁, hpay, ht⟩ := bind_eq_ok.mp ht
  obtain ⟨_, -, ht⟩ := bind_eq_ok.mp ht
  obtain ⟨s₂, hburn, hrebase⟩ := bind_eq_ok.mp ht
  have hpaid : WorldOnly s s₁ := payOutputs_worldOnly sender s outputs s₁ hpay
  have hsmall : Small W s s₁ := .single (.world hpaid)
  have hsound₁ : Sound s₁ := hs.small hsmall
  have hsound₂ : Sound s₂ := hsound₁.small (callOusd_small _ s₂ hburn)
  have hvault₂ : s₂.vault = s.vault := (callOusd_vault hburn).trans hpaid.vault
  have hworth := outputs_worth_le hfew houtputs
  have hbrings := h.brings hpaid (payOutputs_brings hW hworld hdefaults hpay)
  have hburnt := hbrings.callOusd hsound₁ id hburn
  rw [hpaid.vault] at hburnt
  have hbacked : BackedUpTo W s₂ 0 := by
    refine hburnt.mono ?_
    have hneg : ((s.vault.allAssets.zip outputs).map fun e =>
        -(e.2 : ℚ) * unitWorth W s.vault s.world e.1).sum =
          -((s.vault.allAssets.zip outputs).map fun e =>
            (e.2 : ℚ) * unitWorth W s.vault s.world e.1).sum := by
      simp [List.sum_neg, List.map_map, Function.comp_def]
    simp only [Plain.issued, Ledger.Call.burns, hneg]
    push_cast
    linarith
  exact hbacked.rebaseForRedeem hsound₂ (hvault₂ ▸ hfew) hrebase

theorem BackedUpTo.redeemRebased (h : BackedUpTo W s 0) (hs : Sound s) {Trusted : ω → Prop}
    (hW : Custody W s.vault Trusted) (hworld : Trusted s.world) (hdefaults : DefaultsServe W s)
    (hfew : s.vault.allAssets.length < fullScale) {sender : Address} {asked amount minimum : ℕ}
    {u : System ω} (hu : s.rebaseForRedeem W asked = .ok u)
    (ht : u.redeemAmount W sender amount minimum = .ok t) : BackedUpTo W t 0 := by
  have hsmall := rebaseForRedeem_small s asked u hu
  have hsame := rebaseForRedeem_world hu
  have hserve : DefaultsServe W u := by
    have hquotes : SameQuotes W s.vault Trusted s.world u.world := by
      rw [hsame]
      exact .refl _
    exact hdefaults.of_quotes hsmall.vault hquotes
  exact (h.rebaseForRedeem hs hfew hu).redeemAmount (hs.small hsmall) (hsmall.vault ▸ hW)
    (hsame ▸ hworld) hserve (hsmall.vault ▸ hfew) ht

/-! ## Steps -/

/-- The steps by which the reserves can change other than by the code of the vault: the markets
and the strategies on their own, another oracle, and a harvest of something that is no strategy of
the vault. -/
def outside (v : Vault) : Action ω → Bool
  | .configure (.priceProvider _) | .environment _ => true
  | .harvestStrategy strategy => decide (strategy ∉ v.allStrategies)
  | _ => false

/-- A step in which tokens and strategies do what they are asked for, the default strategies
serve, no strategy is the caller, and nothing is lost outside. -/
structure Sustains (W : World ω) (s : System ω) (step : Address × Action ω) : Prop where
  custody : ∃ Trusted : ω → Prop, Trusted s.world ∧ Custody W s.vault Trusted
  defaults : DefaultsServe W s
  caller : step.1 ∉ s.vault.allStrategies
  outside : outside s.vault step.2 = true → ∀ s', s.execFrom W step = .ok s' →
    reserves W s.vault s.world ≤ reserves W s'.vault s'.world

theorem BackedUpTo.of_le {missing : ℚ} (h : BackedUpTo W s missing)
    (hsupply : t.ousd.totalSupply ≤ s.ousd.totalSupply)
    (hreserves : reserves W s.vault s.world ≤ reserves W t.vault t.world)
    (hrounding : s.rounding ≤ t.rounding) : BackedUpTo W t missing := by
  have hcast : (t.ousd.totalSupply : ℚ) ≤ s.ousd.totalSupply := by exact_mod_cast hsupply
  unfold BackedUpTo at h ⊢
  linarith

/-- The reserves depend on who holds what and on the oracle. -/
theorem reserves_congr {v v' : Vault} (hself : v'.self = v.self)
    (hassets : v'.allAssets = v.allAssets) (hstrategies : v'.allStrategies = v.allStrategies)
    (hprice : v'.priceProvider = v.priceProvider) (w : ω) :
    reserves W v' w = reserves W v w := by
  have hheld : heldBy W v' = heldBy W v := heldBy_congr hself
  simp [reserves, holders, unitWorth, hheld, hassets, hstrategies, hprice]

theorem BackedUpTo.setVault {missing : ℚ} (h : BackedUpTo W s missing) {v : Vault}
    (hself : v.self = s.vault.self) (hassets : v.allAssets = s.vault.allAssets)
    (hstrategies : v.allStrategies = s.vault.allStrategies)
    (hprice : v.priceProvider = s.vault.priceProvider) :
    BackedUpTo W (s.setVault v) missing := by
  refine h.of_le le_rfl (reserves_congr hself hassets hstrategies hprice _).ge ?_
  unfold rounding
  simp only [System.setVault, hassets]
  exact le_rfl

theorem reserves_addAsset (v : Vault) (asset : Address) (w : ω) :
    reserves W v w ≤ reserves W (v.addAsset asset) w := by
  refine Finset.sum_le_sum_of_subset_of_nonneg ?_ fun a _ _ => Finset.sum_nonneg fun holder _ => ?_
  · intro a ha
    simp only [List.mem_toFinset] at ha ⊢
    exact List.mem_append_left _ ha
  · exact mul_nonneg (Nat.cast_nonneg _) (unitWorth_nonneg a)

theorem reserves_addStrategy (v : Vault) (strategy : Address) (w : ω) :
    reserves W v w ≤ reserves W (v.addStrategy strategy) w := by
  refine Finset.sum_le_sum fun asset _ => Finset.sum_le_sum_of_subset_of_nonneg ?_ fun _ _ _ => ?_
  · intro holder hholder
    cases holder with
    | none => exact none_mem_holders
    | some x =>
        simp only [holders, Finset.some_mem_insertNone, List.mem_toFinset] at hholder ⊢
        exact List.mem_append_left _ hholder
  · exact mul_nonneg (Nat.cast_nonneg _) (unitWorth_nonneg asset)

/-- A call of the token by an account issues nothing and burns nothing. -/
theorem BackedUpTo.accountCall (h : BackedUpTo W s 0) (hs : Sound s) {sender : Address}
    {call : Ledger.Call} (hself : sender ≠ s.vault.self)
    (ht : s.callOusd W sender call = .ok t) : BackedUpTo W t 0 := by
  obtain ⟨ousd, hexec, -⟩ := callOusd_eq_ok.mp ht
  have hvault := hs.recorded.ledger.vaultAddress
  have hoff : s.ousd.vaultAddress ≠ sender := fun heq => hself (heq.symm.trans hvault)
  have hplain : ¬ call.Rebases ∧ call.burns = 0 ∧
      Plain.issued (⟨sender, W.isContract s.world⟩, call) = 0 := by
    cases call with
    | mint account amount => exact absurd (Ledger.mint_eq_ok.mp hexec).1 hoff
    | burn account amount => exact absurd (Ledger.burn_eq_ok.mp hexec).1 hoff
    | changeSupply supply => exact absurd (Ledger.changeSupply_eq_ok.mp hexec).1 hoff
    | _ => exact ⟨id, rfl, rfl⟩
  obtain ⟨hcall, hburns, hissued⟩ := hplain
  simpa [hburns, hissued] using h.callOusd hs hcall ht

theorem execFrom_assets_le {step : Address × Action ω} (h : s.execFrom W step = .ok t) :
    s.vault.allAssets.length ≤ t.vault.allAssets.length := by
  obtain ⟨sender, action⟩ := step
  have heffect : Effect W s sender action t := exec_effect (execFrom_eq_ok.mp h).2
  cases heffect with
  | function hsmall => rw [hsmall.vault]
  | ousd hcall => rw [callOusd_vault hcall]
  | setting hsame => exact (congrArg List.length hsame.allAssets).ge
  | supportAsset hnew => simp [setVault, Vault.addAsset]
  | approveStrategy hnew => exact le_rfl
  | setAssetDefaultStrategy => exact le_rfl
  | removeStrategy hworld =>
      rw [hworld.vault]
      exact le_rfl

theorem BackedUpTo.worldOnly (h : BackedUpTo W s 0) (hworld : WorldOnly s t)
    (hreserves : reserves W s.vault s.world ≤ reserves W t.vault t.world) : BackedUpTo W t 0 := by
  obtain ⟨w, rfl⟩ := hworld
  exact h.of_le le_rfl hreserves le_rfl

/-- Every step keeps the supply backed. -/
theorem BackedUpTo.execFrom (h : BackedUpTo W s 0) (hs : Sound s) {step : Address × Action ω}
    (hkeeps : s.Sustains W step) (hfew : t.vault.allAssets.length < fullScale)
    (ht : s.execFrom W step = .ok t) : BackedUpTo W t 0 := by
  have hbefore := (execFrom_assets_le ht).trans_lt hfew
  have hcall := ht
  obtain ⟨hself, ht⟩ := execFrom_eq_ok.mp ht
  obtain ⟨sender, action⟩ := step
  obtain ⟨Trusted, hworld, hW⟩ := hkeeps.custody
  have hdefaults := hkeeps.defaults
  have hlisted := fun asset => (hs.registered.assets asset).mp
  cases action with
  | ousd call => exact h.accountCall hs hself ht
  | mint asset amount minimum =>
      rw [show s.exec W (sender, .mint asset amount minimum) = _ from mint_eq amount minimum] at ht
      obtain ⟨_, -, ht⟩ := bind_eq_ok.mp ht
      obtain ⟨_, hasset, ht⟩ := bind_eq_ok.mp ht
      obtain ⟨_, -, ht⟩ := bind_eq_ok.mp ht
      obtain ⟨terms, hterms, ht⟩ := bind_eq_ok.mp ht
      refine h.settleMint hs hW hworld hdefaults hbefore hself hkeeps.caller ?_ ?_ ht
      · simpa using hlisted asset (require_eq_ok.mp hasset)
      · simpa using depositTerms_eq_worth hterms
  | mintMultiple assets amounts minimum =>
      obtain ⟨terms, hterms, hassets, ht⟩ := mintMultiple_eq_ok hs.registered ht
      refine h.settleMint hs hW hworld hdefaults hbefore hself hkeeps.caller ?_ ?_ ht
      · exact fun e he => hlisted e.1 (hassets e he)
      · exact congrArg List.sum (terms_eq_worth hterms)
  | redeem amount minimum =>
      obtain ⟨_, -, ht⟩ := bind_eq_ok.mp ht
      obtain ⟨u, hu, ht⟩ := bind_eq_ok.mp ht
      exact h.redeemRebased hs hW hworld hdefaults hbefore hu ht
  | redeemAll minimum =>
      obtain ⟨_, -, ht⟩ := bind_eq_ok.mp ht
      obtain ⟨balance, -, ht⟩ := bind_eq_ok.mp ht
      obtain ⟨u, hu, ht⟩ := bind_eq_ok.mp ht
      obtain ⟨amount, -, ht⟩ := bind_eq_ok.mp ht
      exact h.redeemRebased hs hW hworld hdefaults hbefore hu ht
  | allocate =>
      obtain ⟨_, -, ht⟩ := bind_eq_ok.mp ht
      simpa using h.brings (allocateFunds_worldOnly s t ht) 
        (allocateFunds_brings hW hworld hdefaults ht)
  | rebase =>
      obtain ⟨_, -, ht⟩ := bind_eq_ok.mp ht
      exact h.rebaseSupply hs hbefore ht
  | configure setting =>
      by_cases hprice : ∃ address, setting = .priceProvider address
      · obtain ⟨address, rfl⟩ := hprice
        have hreserves := hkeeps.outside rfl t hcall
        obtain ⟨_, -, ht⟩ := bind_eq_ok.mp ht
        cases pure_eq_ok.mp ht
        exact h.of_le le_rfl hreserves le_rfl
      · have hstore : storeSetting setting s sender = .ok t := by cases setting <;> exact ht
        obtain ⟨_, -, ht⟩ := bind_eq_ok.mp hstore
        cases pure_eq_ok.mp ht
        cases setting with
        | priceProvider address => exact absurd ⟨address, rfl⟩ hprice
        | _ => exact h.setVault rfl rfl rfl rfl
  | setVaultBuffer | setTrusteeFeeBps | claimGovernance =>
      obtain ⟨_, -, ht⟩ := bind_eq_ok.mp ht
      obtain ⟨_, -, ht⟩ := bind_eq_ok.mp ht
      cases pure_eq_ok.mp ht
      exact h.setVault rfl rfl rfl rfl
  | pauseRebase | pauseCapital | unpauseCapital | transferGovernance =>
      obtain ⟨_, -, ht⟩ := bind_eq_ok.mp ht
      cases pure_eq_ok.mp ht
      exact h.setVault rfl rfl rfl rfl
  | supportAsset asset =>
      obtain ⟨_, -, ht⟩ := bind_eq_ok.mp ht
      obtain ⟨_, -, ht⟩ := bind_eq_ok.mp ht
      obtain ⟨_, -, ht⟩ := bind_eq_ok.mp ht
      cases pure_eq_ok.mp ht
      refine h.of_le le_rfl (reserves_addAsset s.vault asset s.world) ?_
      refine add_le_add_right (mul_le_mul_of_nonneg_left ?_ (Nat.cast_nonneg _)) _
      exact payoutRounding_mono (execFrom_assets_le hcall) hfew
  | approveStrategy strategy =>
      obtain ⟨_, -, ht⟩ := bind_eq_ok.mp ht
      obtain ⟨_, -, ht⟩ := bind_eq_ok.mp ht
      cases pure_eq_ok.mp ht
      exact h.of_le le_rfl (reserves_addStrategy s.vault strategy s.world) le_rfl
  | setAssetDefaultStrategy asset strategy =>
      obtain ⟨_, -, ht⟩ := bind_eq_ok.mp ht
      obtain ⟨_, -, ht⟩ := bind_eq_ok.mp ht
      obtain ⟨_, -, ht⟩ := bind_eq_ok.mp ht
      obtain ⟨_, -, ht⟩ := bind_eq_ok.mp ht
      obtain ⟨_, -, ht⟩ := bind_eq_ok.mp ht
      cases pure_eq_ok.mp ht
      exact h.setVault rfl rfl rfl rfl
  | removeStrategy strategy =>
      have hreserves := removeStrategy_reserves hs.registered hW hworld ht
      obtain ⟨w, rfl⟩ := removeStrategy_eq_ok ht
      exact h.of_le le_rfl hreserves le_rfl
  | reallocate strategyFrom strategyTo assets amounts =>
      simpa using h.brings (reallocate_worldOnly s _ _ _ _ _ t ht)
        (reallocate_brings hs.registered hW hworld ht)
  | withdrawAllFromStrategy strategy =>
      obtain ⟨_, -, ht⟩ := bind_eq_ok.mp ht
      obtain ⟨_, happroved, ht⟩ := bind_eq_ok.mp ht
      have hmem := (hs.registered.strategies _).mp (require_eq_ok.mp happroved)
      simpa using h.brings (recallAssets_worldOnly s strategy t ht)
        (recallAssets_brings hW hworld hmem ht)
  | withdrawAllFromStrategies =>
      have hbrings := withdrawAllFromStrategies_brings hW hworld ht
      obtain ⟨_, -, ht⟩ := bind_eq_ok.mp ht
      simpa using h.brings (foldlM_worldOnly recallAssets_worldOnly s _ t ht) hbrings
  | harvest =>
      have hbrings := harvestAll_brings hW hworld ht
      obtain ⟨_, -, ht⟩ := bind_eq_ok.mp ht
      simpa using h.brings (foldlM_worldOnly harvestFrom_worldOnly s _ t ht) hbrings
  | harvestStrategy strategy =>
      have hworldOnly := harvestStrategy_worldOnly s _ _ t ht
      by_cases hmem : strategy ∈ s.vault.allStrategies
      · simpa using h.brings hworldOnly (harvestStrategy_brings hW hworld hmem ht)
      · exact h.worldOnly hworldOnly (hkeeps.outside (by simp [outside, hmem]) t hcall)
  | transferToken asset amount =>
      obtain ⟨_, -, ht⟩ := bind_eq_ok.mp ht
      obtain ⟨_, hasset, ht⟩ := bind_eq_ok.mp ht
      have hunsupported : asset ∉ s.vault.allAssets := fun hmem => by
        simpa [(hs.registered.assets asset).mpr hmem] using require_eq_ok.mp hasset
      split_ifs at ht with hown
      · simpa [Plain.issued, Ledger.Call.burns] using h.callOusd hs id ht
      · obtain ⟨w, hw, ht⟩ := bind_eq_ok.mp ht
        cases pure_eq_ok.mp ht
        simpa using h.brings (worldOnly_setWorld s w) (pays_unsupported hW hworld hunsupported hw)
  | environment world =>
      have hreserves := hkeeps.outside rfl t hcall
      cases ht
      exact h.of_le le_rfl hreserves le_rfl

/-! ## Runs -/

theorem backed_initialized (self governor priceProvider : Address) (world : ω) :
    BackedUpTo W (initialized self governor priceProvider world) 0 := by
  simp [BackedUpTo, reserves, rounding, burnt, worstOvershoot, initialized, Vault.initialized,
    Ledger.initialized]

variable {self governor priceProvider : Address} {world : ω}
  {trace : List (System ω × (Address × Action ω))}

theorem Reached.backed (h : Reached W self governor priceProvider world trace s)
    (hsustains : ∀ e ∈ trace, e.1.Sustains W e.2)
    (hfew : s.vault.allAssets.length < fullScale) : BackedUpTo W s 0 := by
  have hinvariant : Sound s ∧ (s.vault.allAssets.length < fullScale → BackedUpTo W s 0) := by
    refine Run.invariant_of_forall (fun s step => s.Sustains W step)
      (fun s => Sound s ∧ (s.vault.allAssets.length < fullScale → BackedUpTo W s 0))
      ⟨sound_initialized, fun _ => backed_initialized _ _ _ _⟩ ?_ h hsustains
    intro s step t ⟨hs, hbacked⟩ hkeeps ht
    refine ⟨hs.execFrom ht, fun hfew => ?_⟩
    exact (hbacked ((execFrom_assets_le ht).trans_lt hfew)).execFrom hs hkeeps hfew ht
  exact hinvariant.2 hfew

theorem heldBy_plainWorld (v : Vault) (w : PlainWorld) (holder : Option Address)
    (asset : Address) : heldBy PlainWorld.calls v w holder asset =
      match holder with
      | none => w.balances asset v.self
      | some strategy => if asset ∈ w.handled then w.balances asset strategy else 0 := by
  cases holder with
  | none => rfl
  | some strategy =>
      by_cases hhandled : asset ∈ w.handled
      · simp [heldBy, PlainWorld.calls, hhandled]
        rfl
      · simp [heldBy, PlainWorld.calls, hhandled]
        rfl

/-- A move takes from the one and gives to the other. -/
theorem plainWorld_move_balance {w w' : PlainWorld} {token giver taker : Address} {amount : ℕ}
    (h : w.move token giver taker amount = .ok w') (other holder : Address) :
    (w'.balances other holder : ℤ) = w.balances other holder -
      (if other = token ∧ holder = giver then (amount : ℤ) else 0) +
        if other = token ∧ holder = taker then (amount : ℤ) else 0 := by
  obtain ⟨hle, rfl⟩ := PlainWorld.move_eq_ok.mp h
  by_cases htoken : other = token
  · subst htoken
    by_cases hgiver : holder = giver <;> by_cases htaker : holder = taker <;>
      simp_all [PlainWorld.give, PlainWorld.take, Function.update_apply]
  · simp [PlainWorld.give, PlainWorld.take, htoken]

theorem plainWorld_move_quotes (v : Vault) {w w' : PlainWorld} {token giver taker : Address}
    {amount : ℕ} (h : w.move token giver taker amount = .ok w') :
    w'.handled = w.handled ∧ SameQuotes PlainWorld.calls v (fun _ => True) w w' := by
  obtain ⟨-, rfl⟩ := PlainWorld.move_eq_ok.mp h
  exact ⟨rfl, fun _ => rfl, fun _ => rfl, fun _ _ _ => rfl, id⟩

/-- A move changes what the two holders have, a strategy's only if it handles the token. -/
theorem plainWorld_move_settled {v : Vault} {w w' : PlainWorld} {token giver taker : Address}
    {amount : ℕ} {change : Option Address → Address → ℤ}
    (h : w.move token giver taker amount = .ok w')
    (hchange : ∀ holder ∈ holders v, ∀ asset, change holder asset ≤
      if holder = none ∨ asset ∈ w.handled then
        (if asset = token ∧ holder.getD v.self = taker then (amount : ℤ) else 0) -
          if asset = token ∧ holder.getD v.self = giver then (amount : ℤ) else 0
      else 0) :
    Settled PlainWorld.calls v (fun _ => True) change w w' := by
  have hbalance := plainWorld_move_balance h
  obtain ⟨hhandled, hquotes⟩ := plainWorld_move_quotes v h
  refine ⟨hquotes, fun holder hholder asset _ => ?_⟩
  have hle := hchange holder hholder asset
  rw [heldBy_plainWorld, heldBy_plainWorld, hhandled]
  cases holder with
  | none =>
      simp only [true_or, if_true, Option.getD_none] at hle
      rw [hbalance]
      linarith
  | some strategy =>
      by_cases hasset : asset ∈ w.handled
      · simp only [hasset, or_true, if_true, Option.getD_some] at hle ⊢
        rw [hbalance]
        linarith
      · simpa [hasset] using hle

/-- A strategy of a plain world sends an asset that it handles. -/
theorem plainWorld_withdraw_settled {v : Vault} {w w' : PlainWorld}
    {asset strategy recipient : Address} {amount : ℕ} (hne : strategy ≠ v.self)
    (h : w.move asset strategy recipient amount = .ok w') :
    Settled PlainWorld.calls v (fun _ => True) (more (some strategy) asset (-amount)) w w' := by
  refine plainWorld_move_settled h fun holder hholder other => ?_
  cases holder with
  | none =>
      simp [more, hne.symm]
      split_ifs <;> simp
  | some x =>
      by_cases hother : other = asset <;> by_cases hx : x = strategy <;>
        simp only [more, hother, hx] <;> split_ifs <;> simp_all

/-- Between strategies of a plain world an asset that they handle changes hands. -/
theorem plainWorld_reallocate_settled {v : Vault} {w w' : PlainWorld}
    {asset strategyFrom strategyTo : Address} {amount : ℕ} (hfrom : strategyFrom ≠ v.self)
    (hto : strategyTo ≠ v.self) (hasset : asset ∈ w.handled)
    (h : w.move asset strategyFrom strategyTo amount = .ok w') :
    Settled PlainWorld.calls v (fun _ => True)
      (more (some strategyFrom) asset (-amount) + more (some strategyTo) asset amount) w w' := by
  refine plainWorld_move_settled h fun holder hholder other => ?_
  cases holder with
  | none => simp [more, hfrom.symm, hto.symm]
  | some x =>
      by_cases hother : other = asset <;> by_cases hx : x = strategyFrom <;>
        by_cases hx' : x = strategyTo <;> simp_all [more]

/-- All that a strategy of a plain world has of some of the assets goes to the recipient. -/
theorem plainWorld_moveAll_settled {v : Vault} {strategy : Address} (hne : strategy ≠ v.self)
    {tokens : List Address} {w w' : PlainWorld}
    (h : tokens.foldlM (fun w token => w.move token strategy v.self (w.balances token strategy)) w =
      .ok w') :
    SameQuotes PlainWorld.calls v (fun _ => True) w w' ∧ w'.handled = w.handled ∧
      (∀ token, w.balances token v.self +
        (if token ∈ tokens then w.balances token strategy else 0) ≤ w'.balances token v.self) ∧
      ∀ token holder, holder ≠ strategy → w.balances token holder ≤ w'.balances token holder := by
  induction tokens generalizing w with
  | nil =>
      cases pure_eq_ok.mp h
      exact ⟨.refl _, rfl, by simp, fun _ _ _ => le_rfl⟩
  | cons token tokens ih =>
      rw [List.foldlM_cons] at h
      obtain ⟨w₁, hw₁, h⟩ := bind_eq_ok.mp h
      obtain ⟨hquotes, hhandled, hvault, hothers⟩ := ih h
      obtain ⟨hfirst, hsame⟩ := plainWorld_move_quotes v hw₁
      have hbalance := plainWorld_move_balance hw₁
      refine ⟨hsame.trans hquotes, hhandled.trans hfirst, fun other => ?_, ?_⟩
      · have hgain := hvault other
        have hself := hbalance other v.self
        have hstrategy := hbalance other strategy
        by_cases hother : other = token
        · simp only [hother, hne.symm, and_false, if_false, and_self, if_true,
            List.mem_cons_self] at hgain hself hstrategy ⊢
          omega
        · simp only [hother, false_and, if_false, List.mem_cons, false_or] at hgain hself ⊢
          simp only [hother, false_and, if_false] at hstrategy
          split_ifs at hgain ⊢ <;> omega
      · intro other holder hh
        have hkept := hothers other holder hh
        have hmoved := hbalance other holder
        simp only [hh, and_false, if_false] at hmoved
        split_ifs at hmoved <;> omega

/-- A plain world does what it is asked for. -/
theorem custody_plainWorld {v : Vault} (hself : v.self ∉ v.allStrategies)
    (hzero : 0 ∉ v.allAssets) : Custody PlainWorld.calls v fun _ => True where
  pulls := by
    intro w w' asset owner amount _ _ howner hstrategies h
    refine plainWorld_move_settled h fun holder hholder other => ?_
    cases holder with
    | none =>
        by_cases hother : other = asset <;> simp [more, hother, howner.symm]
    | some strategy =>
        have hmem : strategy ∈ v.allStrategies := by simpa [holders] using hholder
        have hne : strategy ≠ owner := fun heq => hstrategies (heq ▸ hmem)
        have hne' : strategy ≠ v.self := fun heq => hself (heq ▸ hmem)
        simp [more, hne, hne']
  pays := by
    intro w w' asset recipient amount _ h
    refine plainWorld_move_settled h fun holder hholder other => ?_
    cases holder with
    | none =>
        by_cases hother : other = asset <;> simp only [more, hother] <;> split_ifs <;> simp_all
    | some strategy =>
        have hmem : strategy ∈ v.allStrategies := by simpa [holders] using hholder
        have hne : strategy ≠ v.self := fun heq => hself (heq ▸ hmem)
        simp [more, hne]
        split_ifs <;> simp
  invests := by
    intro w w₁ w₂ asset strategy amount _ _ hmem hsupports hmove hdeposit
    cases hdeposit
    have hhandled : asset ∈ w.handled := by simpa [PlainWorld.calls] using hsupports
    have hne : strategy ≠ v.self := fun heq => hself (heq ▸ hmem)
    refine plainWorld_move_settled hmove fun holder hholder other => ?_
    cases holder with
    | none => by_cases hother : other = asset <;> simp [more, hother, hne.symm]
    | some x =>
        have hx : x ∈ v.allStrategies := by simpa [holders] using hholder
        have hne' : x ≠ v.self := fun heq => hself (heq ▸ hx)
        by_cases hother : other = asset <;> by_cases hxs : x = strategy <;>
          simp [more, hother, hxs, hne, hne', hhandled]
  withdraws := by
    intro w w' asset strategy recipient amount _ hmem h
    exact plainWorld_withdraw_settled (fun heq => hself (heq ▸ hmem)) h
  reallocates := by
    intro w w₁ w₂ strategyFrom strategyTo moves _ hfrom hto hmoves hdeposit
    cases hdeposit
    have hfrom' : strategyFrom ≠ v.self := fun heq => hself (heq ▸ hfrom)
    have hto' : strategyTo ≠ v.self := fun heq => hself (heq ▸ hto)
    induction moves generalizing w with
    | nil =>
        cases pure_eq_ok.mp hmoves
        exact .refl _
    | cons e moves ih =>
        rw [List.foldlM_cons] at hmoves
        obtain ⟨w', hw', hmoves⟩ := bind_eq_ok.mp hmoves
        obtain ⟨_, hsupported, hw'⟩ := bind_eq_ok.mp hw'
        obtain ⟨_, hrequire, hw'⟩ := bind_eq_ok.mp hw'
        cases require_eq_ok.mp hrequire
        have hhandled : e.1 ∈ w.handled := by simpa [PlainWorld.calls] using hsupported
        exact (plainWorld_reallocate_settled hfrom' hto' hhandled hw').trans (ih hmoves)
  recalls := by
    intro w w' strategy _ hmem h
    have hne : strategy ≠ v.self := fun heq => hself (heq ▸ hmem)
    obtain ⟨hquotes, hhandled, hvault, hothers⟩ := plainWorld_moveAll_settled hne h
    refine ⟨hquotes, fun holder hholder asset _ => ?_⟩
    simp only [heldBy_plainWorld, recalled, hhandled]
    cases holder with
    | none =>
        have hgain := hvault asset
        simp
        split_ifs at hgain ⊢ <;> omega
    | some x =>
        by_cases hx : x = strategy
        · simp [hx]
          split_ifs <;> omega
        · have hkept := hothers asset x hx
          simp [hx]
          split_ifs <;> omega
  collects := by
    intro w w' strategy token _ _ htoken h
    cases htoken
    cases h
    exact ⟨hzero, .refl _⟩
  approves := by
    intro w w' token spender amount _ h
    cases h
    exact .refl _
  swaps := by
    intro w w' router token amountIn amountOutMin deadline path _ _ h
    cases h
    exact .refl _

theorem sustains_plainWorld {s : System PlainWorld} {step : Address × Action PlainWorld}
    (hself : s.vault.self ∉ s.vault.allStrategies) (hzero : 0 ∉ s.vault.allAssets)
    (hdefaults : ∀ asset ∈ s.vault.allAssets, s.vault.assetDefaultStrategies asset ≠ 0 →
      s.vault.assetDefaultStrategies asset ∈ s.vault.allStrategies ∧ asset ∈ s.world.handled)
    (hcaller : step.1 ∉ s.vault.allStrategies) (hinside : outside s.vault step.2 = false) :
    s.Sustains PlainWorld.calls step where
  custody := ⟨fun _ => True, trivial, custody_plainWorld hself hzero⟩
  defaults := by
    intro asset hasset hne
    obtain ⟨happroved, hhandled⟩ := hdefaults asset hasset hne
    exact ⟨happroved, by simp [PlainWorld.calls, hhandled]⟩
  caller := hcaller
  outside := by simp [hinside]

end System

end InterestDollar
