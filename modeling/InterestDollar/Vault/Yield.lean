import InterestDollar.Token.Effects
import InterestDollar.Vault.Rebase

/-!
# What a rebase of the vault pays out

A rebase with yield mints the trustee's fee and then raises the supply to the value of the
vault. The fee is less than the yield, so there is always something left to raise it by, and
the supply it lands on is no lower than the value. That is why a second rebase, with the same
assets and prices, finds no yield.
-/

namespace InterestDollar

open Checked Transition

namespace System

variable {ω : Type} {W : World ω} {s s' s₁ : System ω} {vaultValue : ℕ}

/-! ## The reason of the fee check -/

section Reasons

variable {l : Ledger} {msg : Msg} {a : Address} {v : ℕ} {reason : String}

theorem isNonRebasingAccount_avoids_reason {isContract : Address → Bool} :
    Avoids (.require reason) (l.isNonRebasingAccount isContract a) := by
  refine avoids_bind ?_ fun _ _ => avoids_pure
  refine avoids_ite (fun _ => ?_) fun _ => avoids_pure
  refine avoids_ite (fun _ => ?_) fun _ => avoids_pure
  refine avoids_bind ?_ fun _ _ => ?_
  · exact avoids_ite (fun _ => avoids_ok) fun _ => StableMath.divPrecisely_avoids_reason
  · refine avoids_bind SafeMath.add_avoids_reason fun _ _ => ?_
    exact avoids_bind SafeMath.sub_avoids_reason fun _ _ => avoids_pure

/-- A mint fails with no reason but its own three. -/
theorem mint_avoids_reason (hvault : "Caller is not the Vault" ≠ reason)
    (haccount : "Mint to the zero address" ≠ reason) (hcap : "Max supply" ≠ reason) :
    Avoids (.require reason) (l.mint msg a v) := by
  refine avoids_bind (require_avoids_reason hvault) fun _ _ => ?_
  refine avoids_bind (require_avoids_reason haccount) fun _ _ => ?_
  refine avoids_bind isNonRebasingAccount_avoids_reason fun _ _ => ?_
  refine avoids_bind StableMath.mulTruncate_avoids_reason fun _ _ => ?_
  refine avoids_bind SafeMath.add_avoids_reason fun _ _ => ?_
  refine avoids_bind ?_ fun _ _ => ?_
  · refine avoids_ite (fun _ => ?_) fun _ => ?_
    · exact avoids_bind SafeMath.add_avoids_reason fun _ _ => avoids_pure
    · exact avoids_bind SafeMath.add_avoids_reason fun _ _ => avoids_pure
  · refine avoids_bind SafeMath.add_avoids_reason fun _ _ => ?_
    exact avoids_bind (require_avoids_reason hcap) fun _ _ => avoids_pure

/-- A rebase of the token fails with no reason but its own three. -/
theorem changeSupply_avoids_reason (hvault : "Caller is not the Vault" ≠ reason)
    (hsupply : "Cannot increase 0 supply" ≠ reason)
    (hchange : "Invalid change in supply" ≠ reason) :
    Avoids (.require reason) (l.changeSupply msg v) := by
  refine avoids_bind (require_avoids_reason hvault) fun _ _ => ?_
  refine avoids_bind (require_avoids_reason hsupply) fun _ _ => ?_
  refine avoids_ite (fun _ => avoids_pure) fun _ => ?_
  refine avoids_bind SafeMath.sub_avoids_reason fun _ _ => ?_
  refine avoids_bind StableMath.divPrecisely_avoids_reason fun _ _ => ?_
  refine avoids_bind (require_avoids_reason hchange) fun _ _ => ?_
  refine avoids_bind StableMath.divPrecisely_avoids_reason fun _ _ => ?_
  exact avoids_bind SafeMath.add_avoids_reason fun _ _ => avoids_pure

end Reasons

/-- Up to the setter's limit the fee is less than the yield, and its check does not fail. -/
theorem collectFee_avoids (hfee : s.vault.trusteeFeeBps ≤ 5000) :
    Avoids (.require "Fee must not be greater than yield")
      (s.collectFee W vaultValue s.ousd.totalSupply) := by
  refine avoids_ite (fun ⟨htrustee, hlt⟩ => ?_) fun _ => avoids_pure
  refine avoids_bind SafeMath.sub_avoids_reason fun yield hyield => ?_
  refine avoids_bind SafeMath.mul_avoids_reason fun product hproduct => ?_
  refine avoids_bind SafeMath.div_avoids_reason fun fee hdiv => ?_
  obtain ⟨-, rfl⟩ := SafeMath.sub_eq_ok.mp hyield
  obtain ⟨-, rfl⟩ := SafeMath.mul_eq_ok.mp hproduct
  obtain ⟨-, rfl⟩ := SafeMath.div_eq_ok.mp hdiv
  have hfeeFor : (vaultValue - s.ousd.totalSupply) * s.vault.trusteeFeeBps / 10000 =
      s.feeFor vaultValue := (if_pos htrustee).symm
  rw [hfeeFor]
  refine avoids_bind (fun hfail => ?_) fun _ _ => avoids_ite (fun _ => ?_) fun _ => avoids_pure
  · exact (require_eq_error.mp hfail).1 (feeFor_lt_yield hfee hlt)
  · refine avoids_bind ?_ fun _ _ => avoids_pure
    exact mint_avoids_reason (by decide) (by decide) (by decide)

theorem ratchetSupply_avoids :
    Avoids (.require "Fee must not be greater than yield") (s.ratchetSupply W vaultValue) := by
  refine avoids_ite (fun _ => ?_) fun _ => avoids_pure
  refine avoids_bind ?_ fun _ _ => avoids_pure
  exact changeSupply_avoids_reason (by decide) (by decide) (by decide)

theorem rebaseSupply_avoids (hfee : s.vault.trusteeFeeBps ≤ 5000)
    (hvalue : s.totalValue W = .ok vaultValue) :
    Avoids (.require "Fee must not be greater than yield") (s.rebaseSupply W) := by
  refine avoids_bind (require_avoids_reason (by decide)) fun _ _ => ?_
  refine avoids_ite (fun _ => avoids_pure) fun _ => ?_
  rw [hvalue]
  refine avoids_bind avoids_ok fun _ _ => ?_
  refine avoids_bind (collectFee_avoids hfee) fun _ _ => ?_
  exact avoids_bind ratchetSupply_avoids fun _ _ => avoids_pure

/-! ## What is paid out -/

/-- The call by which a rebase mints the trustee's fee. -/
def feeCall (W : World ω) (s : System ω) (vaultValue : ℕ) : Ledger × (Msg × Ledger.Call) :=
  (s.ousd, ⟨s.vault.self, W.isContract s.world⟩,
    .mint s.vault.trusteeAddress (s.feeFor vaultValue))

/-- The system after the fee of a rebase, where there is one. -/
def withFee (W : World ω) (s : System ω) (vaultValue : ℕ) : System ω :=
  { s with
    ousd := s.afterFee W vaultValue
    ousdCalls :=
      if 0 < s.feeFor vaultValue then s.feeCall W vaultValue :: s.ousdCalls else s.ousdCalls }

/-- What a rebase with yield does: it mints the fee to the trustee, where there is one, and
then raises the supply to the value or just above it. It calls the token for nothing else. -/
structure PaysYield (W : World ω) (s : System ω) (vaultValue : ℕ) (s' : System ω) : Prop where
  fee : 0 < s.feeFor vaultValue →
    s.ousd.exec (s.feeCall W vaultValue).2 = .ok (s.afterFee W vaultValue)
  supply : (s.afterFee W vaultValue).changeSupply ⟨s.vault.self, W.isContract s.world⟩ vaultValue =
    .ok s'.ousd
  calls : s'.ousdCalls =
    (s.afterFee W vaultValue, ⟨s.vault.self, W.isContract s.world⟩, .changeSupply vaultValue) ::
      (s.withFee W vaultValue).ousdCalls
  covers : vaultValue ≤ s'.ousd.totalSupply
  vault : s'.vault = s.vault
  world : s'.world = s.world

/-- Nothing but the record of the rebases differs. -/
def Idle (s s' : System ω) : Prop := s' = { s with rebases := s'.rebases }

theorem collectFee_withFee (hfee : s.vault.trusteeFeeBps ≤ 5000)
    (hlt : s.ousd.totalSupply < vaultValue)
    (hs : s.collectFee W vaultValue s.ousd.totalSupply = .ok s₁) :
    s₁ = s.withFee W vaultValue ∧ (0 < s.feeFor vaultValue →
      s.ousd.exec (s.feeCall W vaultValue).2 = .ok (s.afterFee W vaultValue)) := by
  have hnoFee : ¬ 0 < s.feeFor vaultValue → s.withFee W vaultValue = s := by
    intro hzero
    rw [withFee, afterFee, if_neg hzero, if_neg hzero]
  by_cases htrustee : s.vault.trusteeAddress = 0
  · have hzero : ¬ 0 < s.feeFor vaultValue := by simp [feeFor, htrustee]
    have hnone : ¬ (s.vault.trusteeAddress ≠ 0 ∧ s.ousd.totalSupply < vaultValue) :=
      fun h => h.1 htrustee
    rw [collectFee, if_neg hnone] at hs
    exact ⟨(pure_eq_ok.mp hs).symm.trans (hnoFee hzero).symm, fun h => absurd h hzero⟩
  · have hword : (vaultValue - s.ousd.totalSupply) * s.vault.trusteeFeeBps < wordBound := by
      have hread := hs
      rw [collectFee, if_pos ⟨htrustee, hlt⟩] at hread
      obtain ⟨yield, hyield, hread⟩ := bind_eq_ok.mp hread
      obtain ⟨product, hproduct, -⟩ := bind_eq_ok.mp hread
      obtain ⟨-, rfl⟩ := SafeMath.sub_eq_ok.mp hyield
      exact (SafeMath.mul_eq_ok.mp hproduct).1
    rw [collectFee_of_yield htrustee hfee hlt hword] at hs
    split_ifs at hs with hpos
    · obtain ⟨l, hexec, rfl⟩ := callOusd_eq_ok.mp hs
      have hl : l = s.afterFee W vaultValue := by
        obtain ⟨-, hmint⟩ := Ledger.mint_eq_ok.mp hexec
        obtain ⟨-, -, -, heq⟩ := Ledger.mintTo_eq_ok.mp hmint
        rw [heq, afterFee, if_pos hpos]
      rw [hl] at hexec ⊢
      refine ⟨?_, fun _ => hexec⟩
      rw [withFee, if_pos hpos]
      rfl
    · exact ⟨(Except.ok.inj hs).symm.trans (hnoFee hpos).symm, fun h => absurd h hpos⟩

/-- The fee leaves the supply below the value. -/
theorem withFee_totalSupply_lt (hfee : s.vault.trusteeFeeBps ≤ 5000)
    (hlt : s.ousd.totalSupply < vaultValue) :
    (s.withFee W vaultValue).ousd.totalSupply < vaultValue := by
  have hless : s.feeFor vaultValue < vaultValue - s.ousd.totalSupply := feeFor_lt_yield hfee hlt
  have hsupply : (s.withFee W vaultValue).ousd.totalSupply =
      s.ousd.totalSupply + s.feeFor vaultValue := by
    change (s.afterFee W vaultValue).totalSupply = _
    unfold afterFee
    split_ifs with hpos
    · exact congrArg (· + s.feeFor vaultValue) Ledger.migrate_totalSupply
    · omega
  omega

theorem rebaseSupply_paysYield (hfee : s.vault.trusteeFeeBps ≤ 5000)
    (hvalue : s.totalValue W = .ok vaultValue) (hcap : vaultValue ≤ maxSupply)
    (hpos : 0 < s.ousd.totalSupply) (hlt : s.ousd.totalSupply < vaultValue)
    (hs : s.rebaseSupply W = .ok s') : PaysYield W s vaultValue s' := by
  obtain ⟨-, ⟨hzero, -⟩ | ⟨-, value, hvalue', s₁, hcollect, s₂, hratchet, rfl⟩⟩ :=
    rebaseSupply_eq_ok.mp hs
  · exact absurd hzero hpos.ne'
  cases hvalue.symm.trans hvalue'
  obtain ⟨rfl, hmint⟩ := collectFee_withFee hfee hlt hcollect
  have hbelow : (s.withFee W vaultValue).ousd.totalSupply < vaultValue :=
    withFee_totalSupply_lt hfee hlt
  rw [ratchetSupply, if_pos hbelow] at hratchet
  obtain ⟨l, hchange, rfl⟩ := callOusd_eq_ok.mp hratchet
  refine ⟨hmint, hchange, rfl, ?_, rfl, rfl⟩
  obtain ⟨-, -, ⟨heq, -⟩ | ⟨-, hfits, rfl⟩⟩ := Ledger.changeSupply_eq_ok.mp hchange
  · exact absurd heq hbelow.ne
  · have hleast := (Ledger.setRate_bounds hfits).1
    rwa [Ledger.cappedSupply, min_eq_left hcap] at hleast

/-- A rebase without yield leaves everything as it is. -/
theorem rebaseSupply_idle (hvalue : s.totalValue W = .ok vaultValue)
    (hle : vaultValue ≤ s.ousd.totalSupply) (hs : s.rebaseSupply W = .ok s') : Idle s s' := by
  obtain ⟨-, ⟨-, rfl⟩ | ⟨-, value, hvalue', s₁, hcollect, s₂, hratchet, rfl⟩⟩ :=
    rebaseSupply_eq_ok.mp hs
  · rfl
  cases hvalue.symm.trans hvalue'
  rw [collectFee, if_neg fun h => absurd h.2 (not_lt.mpr hle)] at hcollect
  obtain rfl := pure_eq_ok.mp hcollect
  rw [ratchetSupply, if_neg (not_lt.mpr hle)] at hratchet
  obtain rfl := pure_eq_ok.mp hratchet
  rfl

/-- Where there is no yield a rebase goes through, unless it is paused. -/
theorem rebaseSupply_of_no_yield (hpaused : s.vault.rebasePaused = false)
    (hvalue : s.totalValue W = .ok vaultValue) (hle : vaultValue ≤ s.ousd.totalSupply) :
    ∃ s', s.rebaseSupply W = .ok s' ∧ Idle s s' := by
  have hcollect : s.collectFee W vaultValue s.ousd.totalSupply = .ok s := by
    rw [collectFee, if_neg fun h => absurd h.2 (not_lt.mpr hle)]
    rfl
  have hratchet : s.ratchetSupply W vaultValue = .ok s := by
    rw [ratchetSupply, if_neg (not_lt.mpr hle)]
    rfl
  have hs : ∃ s', s.rebaseSupply W = .ok s' := by
    by_cases hzero : s.ousd.totalSupply = 0
    · exact ⟨s, rebaseSupply_eq_ok.mpr ⟨hpaused, .inl ⟨hzero, rfl⟩⟩⟩
    · exact ⟨_, rebaseSupply_eq_ok.mpr
        ⟨hpaused, .inr ⟨hzero, vaultValue, hvalue, s, hcollect, s, hratchet, rfl⟩⟩⟩
  obtain ⟨s', hs'⟩ := hs
  exact ⟨s', hs', rebaseSupply_idle hvalue hle hs'⟩

/-- The total value is read from the vault's storage and the rest of the world. -/
theorem totalValue_congr (hvault : s'.vault = s.vault) (hworld : s'.world = s.world) :
    s'.totalValue W = s.totalValue W := by
  cases s
  cases s'
  cases hvault
  cases hworld
  rfl

/-- For a vault value within the cap and a trustee fee within the setter's limit, whoever the
trustee is: the check of the fee does not fail; a rebase that goes through changes nothing where
there is no yield, and otherwise mints the trustee's fee and brings the supply up to the value;
and a second rebase right after it goes through and changes nothing. The world answers for the
assets apart from the ledger, so that the token is none of them. -/
theorem rebase_pays_once (hfee : s.vault.trusteeFeeBps ≤ 5000)
    (hvalue : s.totalValue W = .ok vaultValue) (hcap : vaultValue ≤ maxSupply)
    (hpos : 0 < s.ousd.totalSupply) :
    s.rebaseSupply W ≠ .error (.require "Fee must not be greater than yield") ∧
      ∀ s', s.rebaseSupply W = .ok s' →
        (vaultValue ≤ s.ousd.totalSupply → Idle s s') ∧
          (s.ousd.totalSupply < vaultValue → PaysYield W s vaultValue s') ∧
            ∃ s'', s'.rebaseSupply W = .ok s'' ∧ Idle s' s'' := by
  refine ⟨rebaseSupply_avoids hfee hvalue, fun s' hs => ?_⟩
  have hidle : vaultValue ≤ s.ousd.totalSupply → Idle s s' :=
    fun hle => rebaseSupply_idle hvalue hle hs
  have hpays : s.ousd.totalSupply < vaultValue → PaysYield W s vaultValue s' :=
    fun hlt => rebaseSupply_paysYield hfee hvalue hcap hpos hlt hs
  have hcovers : vaultValue ≤ s'.ousd.totalSupply := by
    rcases Nat.lt_or_ge s.ousd.totalSupply vaultValue with hlt | hle
    · exact (hpays hlt).covers
    · rw [hidle hle]
      exact hle
  have hvault : s'.vault = s.vault := rebaseSupply_vault hs
  have hvalue' : s'.totalValue W = .ok vaultValue :=
    (totalValue_congr hvault (rebaseSupply_world hs)).trans hvalue
  have hpaused : s'.vault.rebasePaused = false := by
    rw [hvault]
    exact (rebaseSupply_eq_ok.mp hs).1
  exact ⟨hidle, hpays, rebaseSupply_of_no_yield hpaused hvalue' hcovers⟩

/-- A gain of 100 on 1000 in a running system, a tenth of which goes to the trustee, once. -/
theorem rebase_pays_once_fee :
    ∃ trace s s', Reached PlainWorld.calls 9 8 7 ((PlainWorld.empty [] [5]).give 5 1 1000) trace s ∧
      s.feeFor 1100 = 10 ∧ PaysYield PlainWorld.calls s 1100 s' ∧
        ∃ s'', s'.rebaseSupply PlainWorld.calls = .ok s'' ∧ Idle s' s'' := by
  have hsteps : Returns
      (execTrace (execFrom PlainWorld.calls) []
        (initialized 9 8 7 ((PlainWorld.empty [] [5]).give 5 1 1000))
        [(8, .supportAsset 5), (8, .unpauseCapital), (8, .configure (.trusteeAddress 4)),
          (8, .setTrusteeFeeBps 1000), (1, .mint 5 1000 0),
          (3, .environment ((PlainWorld.empty [] [5]).give 5 9 1100))])
      fun out => out.2.feeFor 1100 = 10 ∧ out.2.vault.trusteeFeeBps ≤ 5000 ∧
        Returns (out.2.totalValue PlainWorld.calls) (· = 1100) ∧ out.2.ousd.totalSupply = 1000 ∧
          Succeeds (out.2.rebaseSupply PlainWorld.calls) := by decide
  obtain ⟨trace, s, hrun, hten, hfee, ⟨value, hvalue, rfl⟩, hsupply, hgoes⟩ :=
    reached_of_returns hsteps
  obtain ⟨s', hs'⟩ := succeeds_iff.mp hgoes
  have hcap : 1100 ≤ maxSupply := by decide
  obtain ⟨-, hrebase⟩ := rebase_pays_once hfee hvalue hcap (by omega)
  obtain ⟨-, hpays, hagain⟩ := hrebase s' hs'
  exact ⟨trace, s, s', hrun, hten, hpays (by omega), hagain⟩

end System

end InterestDollar
