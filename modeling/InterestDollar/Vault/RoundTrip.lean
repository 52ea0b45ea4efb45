import InterestDollar.Vault.Outputs
import InterestDollar.Vault.Yield

/-!
# A deposit that is redeemed at once

An account with no balance deposits an asset and then redeems all it was given.
What it gets out is worth no more than what it put in, up to the rounding of the
outputs, as long as no yield is paid to it on the way. Yield can reach it twice: a
large deposit makes the vault rebase before the mint, and a large balance makes it
rebase before the redeem, with the new balance already counted.
-/

namespace InterestDollar

open Checked Transition

/-- The value of an amount of a coin at its price, with 36 decimals. -/
def Coin.value (c : Coin) (amount : ℕ) : ℕ := amount * 10 ^ (18 - c.decimals) * c.price

/-- The value of the outputs of a redeem at the prices of the coins. -/
def outputsValue (coins : List Coin) (outputs : List ℕ) : ℕ :=
  (List.zipWith Coin.value coins outputs).sum

/-- Outputs are worth no more at their prices than at the prices of the payout. -/
theorem outputsValue_le_paidValue (totalBalance factor : ℕ) (coins : List Coin) :
    outputsValue coins (coins.map fun c => Payout.pays totalBalance factor c.good) ≤
      Payout.paidValue totalBalance factor (coins.map Coin.good) := by
  induction coins with
  | nil => exact le_rfl
  | cons c coins ih =>
      have hc : c.value (Payout.pays totalBalance factor c.good) ≤
          Payout.pays totalBalance factor c.good * c.good.unit * c.good.price :=
        Nat.mul_le_mul_left _ (le_max_left _ _)
      simp only [outputsValue, Payout.paidValue, List.map_cons, List.zipWith_cons_cons,
        List.sum_cons] at ih ⊢
      exact Nat.add_le_add hc ih

namespace System

variable {ω : Type} {W : World ω} {s s' : System ω} {self governor priceProvider : Address}
  {world : ω} {trace : List (System ω × (Address × Action ω))}

/-! ## What a redeem pays -/

theorem afterRedeemFee_le {amount left : ℕ} (h : s.afterRedeemFee amount = .ok left) :
    left ≤ amount := by
  unfold afterRedeemFee at h
  split_ifs at h
  · simp only [bind_eq_ok, SafeMath.sub_eq_ok] at h
    obtain ⟨_, _, fee, _, -, rfl⟩ := h
    exact Nat.sub_le _ _
  · exact (pure_eq_ok.mp h).ge

/-- The outputs of a redeem are worth no more than the amount redeemed, up to a
relative `n / (1e18 - n)` for `n` assets. -/
theorem calculateRedeemOutputs_value_le {amount : ℕ} {coins : List Coin} {outputs : List ℕ}
    (hcoins : s.coins W = .ok coins) (h : s.calculateRedeemOutputs W amount = .ok outputs) :
    outputsValue coins outputs * (fullScale - coins.length) ≤ amount * fullScale * fullScale := by
  obtain ⟨coins', left, hcoins', hleft, hworth, rfl⟩ := calculateRedeemOutputs_eq_ok h
  cases hcoins.symm.trans hcoins'
  have hprice : ∀ g ∈ coins.map Coin.good, fullScale ≤ g.price := by
    intro g hg
    obtain ⟨c, -, rfl⟩ := List.mem_map.mp hg
    exact c.fullScale_le_redeemPrice
  have hpaid := Payout.paidValue_le left (Payout.total_pos_of_unitWorth hworth)
    hworth hprice
  rw [List.length_map] at hpaid
  have hfee : left * fullScale * fullScale ≤ amount * fullScale * fullScale :=
    Nat.mul_le_mul_right _ (Nat.mul_le_mul_right _ (afterRedeemFee_le hleft))
  exact (Nat.mul_le_mul_right _ (outputsValue_le_paidValue _ _ _)).trans (hpaid.trans hfee)

/-- What a `redeemAll` by an account pays out: the coins as it reads them, and the
output of each, after the rebase it starts with. -/
def redeemAllOutputs (W : World ω) (s : System ω) (sender : Address) :
    Except Revert (List Coin × List ℕ) := do
  let balance ← s.ousd.balanceOf sender
  let s ← s.rebaseForRedeem W balance
  let balance ← s.ousd.balanceOf sender
  let coins ← s.coins W
  let outputs ← s.calculateRedeemOutputs W balance
  return (coins, outputs)

/-- A `redeemAll` that goes through pays those outputs. -/
theorem redeemAll_pays {sender : Address} {minimum : ℕ}
    (h : s.redeemAll W sender minimum = .ok s') :
    ∃ balance t coins outputs u, s.ousd.balanceOf sender = .ok balance ∧
      s.rebaseForRedeem W balance = .ok t ∧
        s.redeemAllOutputs W sender = .ok (coins, outputs) ∧ t.coins W = .ok coins ∧
          t.calculateRedeemOutputs W (t.ousd.balance sender) = .ok outputs ∧
            t.payOutputs W sender outputs = .ok u := by
  obtain ⟨_, -, h⟩ := bind_eq_ok.mp h
  obtain ⟨balance, hbalance, h⟩ := bind_eq_ok.mp h
  obtain ⟨t, ht, h⟩ := bind_eq_ok.mp h
  obtain ⟨amount, hamount, h⟩ := bind_eq_ok.mp h
  obtain ⟨_, -, h⟩ := bind_eq_ok.mp h
  obtain ⟨_, -, h⟩ := bind_eq_ok.mp h
  obtain ⟨_, -, h⟩ := bind_eq_ok.mp h
  obtain ⟨outputs, houtputs, h⟩ := bind_eq_ok.mp h
  obtain ⟨u, hu, -⟩ := bind_eq_ok.mp h
  obtain ⟨coins, _, hcoins, -⟩ := calculateRedeemOutputs_eq_ok houtputs
  have hsame : amount = t.ousd.balance sender := (Ledger.balanceOf_eq_ok.mp hamount).2
  refine ⟨balance, t, coins, outputs, u, hbalance, ht, ?_, hcoins, hsame ▸ houtputs, hu⟩
  simp only [redeemAllOutputs, bind_eq_ok, pure_eq_ok]
  exact ⟨_, hbalance, _, ht, _, hamount, _, hcoins, _, houtputs, rfl⟩

/-! ## Yield that does not reach an account -/

/-- The ledger that a rebase for a value above the supply leaves: the trustee has its fee, and
the rebasing credits are worth what the value is above the tokens of the others. -/
def rebasedLedger (W : World ω) (s : System ω) (vaultValue : ℕ) : Ledger :=
  (s.afterFee W vaultValue).setRate ((s.afterFee W vaultValue).rebasedRate vaultValue)

/-- A rebase now pays the account nothing: there is no yield, or what its credits are worth
at the new rate, with the fee where it is the trustee, rounds to no more than its balance. -/
def PaysNothing (W : World ω) (s : System ω) (a : Address) : Prop :=
  s.ousd.totalSupply = 0 ∨ Returns (s.totalValue W) fun value =>
    value ≤ s.ousd.totalSupply ∨ (s.rebasedLedger W value).balance a ≤ s.ousd.balance a

instance (W : World ω) (s : System ω) (a : Address) : Decidable (s.PaysNothing W a) :=
  inferInstanceAs (Decidable (_ ∨ _))

/-- A rebase of a supply that is below the value leaves the ledger rebased. -/
theorem rebaseSupply_rebasedLedger {vaultValue : ℕ} (hfee : s.vault.trusteeFeeBps ≤ 5000)
    (hvalue : s.totalValue W = .ok vaultValue) (hsupply : s.ousd.totalSupply ≠ 0)
    (hlt : s.ousd.totalSupply < vaultValue) (h : s.rebaseSupply W = .ok s') :
    s'.ousd = s.rebasedLedger W vaultValue := by
  obtain ⟨-, ⟨hzero, -⟩ | ⟨-, value, hvalue', s₁, hcollect, s₂, hratchet, rfl⟩⟩ :=
    rebaseSupply_eq_ok.mp h
  · exact absurd hzero hsupply
  cases hvalue.symm.trans hvalue'
  obtain ⟨rfl, -⟩ := collectFee_withFee hfee hlt hcollect
  have hbelow : (s.withFee W vaultValue).ousd.totalSupply < vaultValue :=
    withFee_totalSupply_lt hfee hlt
  rw [ratchetSupply, if_pos hbelow] at hratchet
  obtain ⟨l, hchange, rfl⟩ := callOusd_eq_ok.mp hratchet
  obtain ⟨-, -, ⟨heq, -⟩ | ⟨-, -, rfl⟩⟩ := Ledger.changeSupply_eq_ok.mp hchange
  · exact absurd heq hbelow.ne
  · rfl

/-- A rebase raises the balance of an account exactly where it pays it something. -/
theorem rebaseSupply_balance_le_iff {a : Address} (hfee : s.vault.trusteeFeeBps ≤ 5000)
    (h : s.rebaseSupply W = .ok s') :
    s'.ousd.balance a ≤ s.ousd.balance a ↔ s.PaysNothing W a := by
  obtain ⟨-, ⟨hzero, rfl⟩ | ⟨hsupply, value, hvalue, -⟩⟩ := rebaseSupply_eq_ok.mp h
  · exact iff_of_true le_rfl (.inl hzero)
  by_cases hle : value ≤ s.ousd.totalSupply
  · have hidle : s' = { s with rebases := s'.rebases } := rebaseSupply_idle hvalue hle h
    exact iff_of_true (by rw [hidle]) (.inr ⟨value, hvalue, .inl hle⟩)
  · rw [rebaseSupply_rebasedLedger hfee hvalue hsupply (not_le.mp hle) h]
    constructor
    · exact fun hpaid => .inr ⟨value, hvalue, .inr hpaid⟩
    · intro hnone
      have hreturns := hnone.resolve_left hsupply
      exact (hreturns.of_eq_ok hvalue).resolve_left hle

theorem rebaseBeforeMint_balance_le {a : Address} {units : ℕ}
    (hfee : s.vault.trusteeFeeBps ≤ 5000)
    (hnone : units < s.vault.rebaseThreshold ∨ s.PaysNothing W a)
    (h : s.rebaseBeforeMint W units = .ok s') : s'.ousd.balance a ≤ s.ousd.balance a := by
  unfold rebaseBeforeMint at h
  split_ifs at h with hdue
  · exact (rebaseSupply_balance_le_iff hfee h).mpr (hnone.resolve_left (not_lt.mpr hdue.1))
  · cases pure_eq_ok.mp h
    rfl

theorem rebaseForRedeem_balance_le {a : Address} {amount : ℕ}
    (hfee : s.vault.trusteeFeeBps ≤ 5000)
    (hnone : amount ≤ s.vault.rebaseThreshold ∨ s.PaysNothing W a)
    (h : s.rebaseForRedeem W amount = .ok s') : s'.ousd.balance a ≤ s.ousd.balance a := by
  unfold rebaseForRedeem at h
  split_ifs at h with hdue
  · exact (rebaseSupply_balance_le_iff hfee h).mpr (hnone.resolve_left (not_le.mpr hdue.1))
  · cases pure_eq_ok.mp h
    rfl

/-! ## The deposit -/

/-- The steps of a mint that concern the token: the rebase, and the mint of the
deposit's value. -/
theorem mint_steps {sender asset : Address} {amount minimum decimals price : ℕ}
    (hdecimals : getDecimals W s.world asset = .ok decimals)
    (hprice : W.price s.world s.vault.priceProvider asset = .ok price)
    (h : s.mint W sender asset amount minimum = .ok s') :
    ∃ t u, s.rebaseBeforeMint W (amount * 10 ^ (18 - decimals)) = .ok t ∧
      t.callOusd W t.vault.self (.mint sender (amount * price / 10 ^ decimals)) = .ok u ∧
        s'.ousd = u.ousd := by
  obtain ⟨_, -, h⟩ := bind_eq_ok.mp h
  obtain ⟨_, -, h⟩ := bind_eq_ok.mp h
  obtain ⟨_, -, h⟩ := bind_eq_ok.mp h
  obtain ⟨price', hprice', h⟩ := bind_eq_ok.mp h
  cases hprice.symm.trans hprice'
  obtain ⟨decimals', hdecimals', h⟩ := bind_eq_ok.mp h
  cases hdecimals.symm.trans hdecimals'
  obtain ⟨units, hunits, h⟩ := bind_eq_ok.mp h
  obtain ⟨-, rfl⟩ := (StableMath.scaleBy_eighteen_sub (getDecimals_le hdecimals)).mp hunits
  obtain ⟨deposit, hdeposit, h⟩ := bind_eq_ok.mp h
  obtain ⟨-, -, rfl⟩ := StableMath.mulTruncateScale_eq_ok.mp hdeposit
  obtain ⟨_, -, h⟩ := bind_eq_ok.mp h
  obtain ⟨t, ht, h⟩ := bind_eq_ok.mp h
  obtain ⟨u, hu, h⟩ := bind_eq_ok.mp h
  obtain ⟨x, hx, h⟩ := bind_eq_ok.mp h
  refine ⟨t, u, ht, hu, ?_⟩
  exact (allocateAfterMint_worldOnly x _ s' h).ousd.trans
    (takeDeposit_worldOnly sender u asset amount x hx).ousd

/-- After a mint, an account with no balance that no yield reaches has at most the
value of its deposit. -/
theorem mint_balance_le {sender asset : Address} {amount minimum decimals price : ℕ}
    (hsound : Sound s) (hzero : s.ousd.balance sender = 0)
    (hdecimals : getDecimals W s.world asset = .ok decimals)
    (hprice : W.price s.world s.vault.priceProvider asset = .ok price)
    (hnone : amount * 10 ^ (18 - decimals) < s.vault.rebaseThreshold ∨ s.PaysNothing W sender)
    (h : s.mint W sender asset amount minimum = .ok s') :
    s'.ousd.balance sender ≤ amount * price / 10 ^ decimals := by
  obtain ⟨t, u, ht, hu, heq⟩ := mint_steps hdecimals hprice h
  have hbefore : t.ousd.balance sender = 0 :=
    Nat.le_zero.mp (hzero ▸ rebaseBeforeMint_balance_le hsound.fee hnone ht)
  have hrate : 0 < t.ousd.rebasingCreditsPerToken :=
    (hsound.small (rebaseBeforeMint_small s _ t ht)).recorded.ledger.conserved.rate_pos
  obtain ⟨_, hexec, rfl⟩ := callOusd_eq_ok.mp hu
  have hle := Ledger.mintTo_balance_le hrate (Ledger.mint_eq_ok.mp hexec).2
  rw [heq]
  rwa [hbefore, Nat.zero_add] at hle

/-- A deposit and its redemption: where neither of the two rebases on the way pays
the depositor, the assets returned are worth no more than the deposit, up to a
relative `n / (1e18 - n)` for `n` assets. -/
theorem round_trip_value_le {s₁ s₂ : System ω} {sender asset : Address}
    {amount decimals price : ℕ}
    (h : Reached W self governor priceProvider world trace s)
    (hzero : s.ousd.balance sender = 0)
    (hdecimals : getDecimals W s.world asset = .ok decimals)
    (hprice : W.price s.world s.vault.priceProvider asset = .ok price)
    (hmint : s.mint W sender asset amount 0 = .ok s₁)
    (hredeem : s₁.redeemAll W sender 0 = .ok s₂)
    (hbefore : amount * 10 ^ (18 - decimals) < s.vault.rebaseThreshold ∨ s.PaysNothing W sender)
    (hbetween : s₁.ousd.balance sender ≤ s₁.vault.rebaseThreshold ∨ s₁.PaysNothing W sender) :
    ∃ coins outputs, s₁.redeemAllOutputs W sender = .ok (coins, outputs) ∧
      outputsValue coins outputs * (fullScale - coins.length) ≤
        amount * 10 ^ (18 - decimals) * price * fullScale := by
  obtain ⟨balance, t, coins, outputs, _, hbalance, ht, hout, hcoins, houtputs, -⟩ :=
    redeemAll_pays hredeem
  refine ⟨coins, outputs, hout, ?_⟩
  obtain ⟨-, rfl⟩ := Ledger.balanceOf_eq_ok.mp hbalance
  have hredeemed : t.ousd.balance sender ≤ amount * price / 10 ^ decimals := by
    have hsound₁ : Sound s₁ := h.sound.small (mint_small s sender asset amount 0 s₁ hmint)
    exact (rebaseForRedeem_balance_le hsound₁.fee hbetween ht).trans
      (mint_balance_le h.sound hzero hdecimals hprice hbefore hmint)
  have hdeposit : amount * price / 10 ^ decimals * fullScale ≤
      amount * 10 ^ (18 - decimals) * price := by
    have hsplit : fullScale = 10 ^ decimals * 10 ^ (18 - decimals) := by
      rw [fullScale, ← pow_add, Nat.add_sub_cancel' (getDecimals_le hdecimals)]
    calc amount * price / 10 ^ decimals * fullScale
        = amount * price / 10 ^ decimals * 10 ^ decimals * 10 ^ (18 - decimals) := by
          rw [hsplit, Nat.mul_assoc]
      _ ≤ amount * price * 10 ^ (18 - decimals) :=
          Nat.mul_le_mul_right _ (Nat.div_mul_le_self _ _)
      _ = amount * 10 ^ (18 - decimals) * price := Nat.mul_right_comm _ _ _
  calc outputsValue coins outputs * (fullScale - coins.length)
      ≤ t.ousd.balance sender * fullScale * fullScale :=
        calculateRedeemOutputs_value_le hcoins houtputs
    _ ≤ amount * price / 10 ^ decimals * fullScale * fullScale := by gcongr
    _ ≤ amount * 10 ^ (18 - decimals) * price * fullScale := by gcongr

/-- A plain world with coins at 1.20 dollars, some of them in the hands of two
accounts and of the vault. -/
def dearWorld (first second vault : ℕ) : PlainWorld :=
  { (((PlainWorld.empty [] []).give 5 1 first).give 5 2 second).give 5 9 vault with
    prices := fun _ => 12 * 10 ^ 17 }

/-- A deposit of 3 at 1.50 that gives 4, next to a supply of 1. The rebase before the redeem
raises the supply from 5 to 6, and the depositor's 4 round to no more. -/
theorem round_trip_value_le_rebased :
    ∃ trace s s₁ s₂ coins outputs,
      Reached PlainWorld.calls 9 8 7 { dearWorld 1 3 0 with prices := fun _ => 15 * 10 ^ 17 }
          trace s ∧
        s.mint PlainWorld.calls 2 5 3 0 = .ok s₁ ∧
          s₁.vault.rebaseThreshold < s₁.ousd.balance 2 ∧ s₁.ousd.totalSupply = 5 ∧
            Returns (s₁.totalValue PlainWorld.calls) (· = 6) ∧
              s₁.redeemAll PlainWorld.calls 2 0 = .ok s₂ ∧
                s₁.redeemAllOutputs PlainWorld.calls 2 = .ok (coins, outputs) ∧
                  outputsValue coins outputs * (fullScale - coins.length) ≤
                    3 * (15 * 10 ^ 17) * fullScale := by
  have hsteps : Returns
      (execTrace (execFrom PlainWorld.calls) []
        (initialized 9 8 7 { dearWorld 1 3 0 with prices := fun _ => 15 * 10 ^ 17 })
        [(8, .supportAsset 5), (8, .unpauseCapital), (8, .configure (.rebaseThreshold 0)),
          (1, .mint 5 1 0)])
      fun out => out.2.ousd.balance 2 = 0 ∧ out.2.PaysNothing PlainWorld.calls 2 ∧
        Returns (getDecimals PlainWorld.calls out.2.world 5) (· = 18) ∧
          Returns (PlainWorld.calls.price out.2.world out.2.vault.priceProvider 5)
            (· = 15 * 10 ^ 17) ∧
            Returns (out.2.mint PlainWorld.calls 2 5 3 0) fun s₁ =>
              s₁.vault.rebaseThreshold < s₁.ousd.balance 2 ∧ s₁.ousd.totalSupply = 5 ∧
                Returns (s₁.totalValue PlainWorld.calls) (· = 6) ∧
                  s₁.PaysNothing PlainWorld.calls 2 ∧
                    Succeeds (s₁.redeemAll PlainWorld.calls 2 0) := by decide
  obtain ⟨trace, s, hrun, hzero, hbefore, ⟨d, hdecimals, rfl⟩, ⟨p, hprice, rfl⟩, s₁, hmint,
    hlarge, hsupply, hvalue, hbetween, hredeem⟩ := reached_of_returns hsteps
  obtain ⟨s₂, hredeem⟩ := succeeds_iff.mp hredeem
  obtain ⟨coins, outputs, hout, hle⟩ := round_trip_value_le hrun hzero hdecimals hprice hmint
    hredeem (.inr hbefore) (.inr hbetween)
  rw [Nat.sub_self, Nat.pow_zero, Nat.mul_one] at hle
  exact ⟨trace, s, s₁, s₂, coins, outputs, hrun, hmint, hlarge, hsupply, hvalue, hredeem, hout,
    hle⟩

/-- A deposit of 900 at 1.20 next to a yield of 1000. The deposit is below the
threshold in units and the balance it gives is above it in dollars: nothing is paid
out before the mint, and most of the yield goes to the depositor before the redeem. -/
theorem round_trip_gains :
    ∃ trace s s₁ s₂ coins outputs,
      Reached PlainWorld.calls 9 8 7 (dearWorld (100 * 10 ^ 18) 0 0) trace s ∧
        s.vault.capitalPaused = false ∧ s.vault.rebasePaused = false ∧
          s.ousd.balance 2 = 0 ∧ s.mint PlainWorld.calls 2 5 (900 * 10 ^ 18) 0 = .ok s₁ ∧
            s₁.redeemAll PlainWorld.calls 2 0 = .ok s₂ ∧
              s₂.world.prices 5 = s.world.prices 5 ∧
                s₁.redeemAllOutputs PlainWorld.calls 2 = .ok (coins, outputs) ∧
                  coins.length = 1 ∧
                    900 * 10 ^ 18 * s.world.prices 5 + 800 * 10 ^ 36 < outputsValue coins outputs := by
  have hsteps : Returns
      (execTrace (execFrom PlainWorld.calls) []
        (initialized 9 8 7 (dearWorld (100 * 10 ^ 18) 0 0))
        [(8, .supportAsset 5), (8, .unpauseCapital), (1, .mint 5 (100 * 10 ^ 18) 0),
          (3, .environment (dearWorld 0 (900 * 10 ^ 18) (1100 * 10 ^ 18)))])
      fun out => out.2.vault.capitalPaused = false ∧ out.2.vault.rebasePaused = false ∧
        out.2.ousd.balance 2 = 0 ∧
          Returns (out.2.mint PlainWorld.calls 2 5 (900 * 10 ^ 18) 0) fun s₁ =>
            Returns (s₁.redeemAll PlainWorld.calls 2 0) fun s₂ =>
              s₂.world.prices 5 = out.2.world.prices 5 ∧
                Returns (s₁.redeemAllOutputs PlainWorld.calls 2) fun paid =>
                  paid.1.length = 1 ∧
                    900 * 10 ^ 18 * out.2.world.prices 5 + 800 * 10 ^ 36 <
                      outputsValue paid.1 paid.2 := by decide
  obtain ⟨trace, s, hrun, hcapital, hrebase, hzero, s₁, hmint, s₂, hredeem, hprices,
    ⟨coins, outputs⟩, hout, hlength, hgain⟩ := reached_of_returns hsteps
  exact ⟨trace, s, s₁, s₂, coins, outputs, hrun, hcapital, hrebase, hzero, hmint, hredeem,
    hprices, hout, hlength, hgain⟩

end System

end InterestDollar
