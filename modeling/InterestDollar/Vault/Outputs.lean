import InterestDollar.Payout.Proportional
import InterestDollar.Vault.Registry

/-!
# What a redeem gives out

The outputs of a redeem are a proportional payout of what the vault and its
strategies hold, every asset at its price but at least at a dollar. Read so, the
rounding of the calculation is the rounding of `Payout`: the sum of the shares is
rounded down and then divided by, so that the outputs can exceed the holdings.
-/

namespace InterestDollar

open Checked Transition

namespace Coin

/-- The price a redeem counts with. -/
def redeemPrice (c : Coin) : ℕ := max c.price fullScale

/-- The coin as a good of the payout, in units of 18 decimals. -/
def good (c : Coin) : Payout.Good := ⟨c.balance, 10 ^ (18 - c.decimals), c.redeemPrice⟩

theorem fullScale_le_redeemPrice (c : Coin) : fullScale ≤ c.redeemPrice := le_max_right _ _

end Coin

/-! ## The arithmetic -/

section

variable {coins : List Coin} {c : Coin} {totalBalance amount factor : ℕ} {outputs : List ℕ}

/-- A coin with at most 18 decimals adds its share of the total, at its price. -/
theorem addRatio_eq_ok {r r' : ℕ} (hc : c.decimals ≤ 18)
    (h : addRatio totalBalance r c = .ok r') :
    r' = r + c.good.scaled * c.redeemPrice / totalBalance := by
  have hprice : (if c.price < fullScale then fullScale else c.price) = c.redeemPrice := by
    split_ifs with hlt
    · exact (max_eq_right hlt.le).symm
    · exact (max_eq_left (not_lt.mp hlt)).symm
  simp only [addRatio, hprice, bind_eq_ok, StableMath.scaleBy_eighteen_sub hc,
    SafeMath.mul_eq_ok, SafeMath.div_eq_ok, SafeMath.add_eq_ok] at h
  obtain ⟨_, ⟨-, rfl⟩, _, ⟨-, rfl⟩, _, ⟨-, rfl⟩, -, rfl⟩ := h
  rfl

theorem foldlM_addRatio_eq_ok {r r' : ℕ} (hcoins : ∀ c ∈ coins, c.decimals ≤ 18)
    (h : coins.foldlM (addRatio totalBalance) r = .ok r') :
    r' = r + Payout.unitWorth totalBalance (coins.map Coin.good) := by
  induction coins generalizing r with
  | nil =>
      rw [List.foldlM_nil, pure_eq_ok] at h
      simp [Payout.unitWorth, h]
  | cons c coins ih =>
      rw [List.foldlM_cons] at h
      obtain ⟨r₁, hr₁, hrest⟩ := bind_eq_ok.mp h
      rw [ih (fun x hx => hcoins x (List.mem_cons_of_mem _ hx)) hrest,
        addRatio_eq_ok (hcoins c List.mem_cons_self) hr₁]
      simp only [Payout.unitWorth, Coin.good, List.map_cons, List.sum_cons]
      rw [Nat.add_assoc]

theorem outputOf_eq_ok {output : ℕ} :
    outputOf totalBalance factor c = .ok output ↔
      c.balance * factor < wordBound ∧ 0 < totalBalance ∧
        output = Payout.pays totalBalance factor c.good := by
  simp only [outputOf, bind_eq_ok, SafeMath.mul_eq_ok, SafeMath.div_eq_ok]
  constructor
  · rintro ⟨_, ⟨hfit, rfl⟩, hpos, rfl⟩
    exact ⟨hfit, hpos, rfl⟩
  · rintro ⟨hfit, hpos, rfl⟩
    exact ⟨_, ⟨hfit, rfl⟩, hpos, rfl⟩

/-- The outputs are what the goods pay for the amount. -/
theorem outputsFor_eq_ok (hcoins : ∀ c ∈ coins, c.decimals ≤ 18)
    (h : outputsFor coins totalBalance amount = .ok outputs) :
    0 < Payout.unitWorth totalBalance (coins.map Coin.good) ∧
      outputs = coins.map fun c => Payout.pays totalBalance
        (Payout.factor fullScale totalBalance amount (coins.map Coin.good)) c.good := by
  obtain ⟨ratio, hratio, h⟩ := bind_eq_ok.mp h
  obtain ⟨factor, hfactor, houtputs⟩ := bind_eq_ok.mp h
  have hworth := foldlM_addRatio_eq_ok hcoins hratio
  rw [Nat.zero_add] at hworth
  obtain ⟨-, hpos, rfl⟩ := StableMath.divPrecisely_eq_ok.mp hfactor
  subst hworth
  refine ⟨hpos, ?_⟩
  have hall := (mapM_eq_ok.mp houtputs).imp fun c output hc => (outputOf_eq_ok.mp hc).2.2
  clear houtputs hratio hfactor
  rw [← List.forall₂_eq_eq_eq, List.forall₂_map_right_iff]
  exact hall.flip

/-- The value of outputs, at the prices a redeem counts with. -/
def redeemValue (coins : List Coin) (outputs : List ℕ) : ℕ :=
  ((coins.zip outputs).map fun e => e.2 * 10 ^ (18 - e.1.decimals) * e.1.redeemPrice).sum

theorem redeemValue_pays (totalBalance factor : ℕ) (coins : List Coin) :
    redeemValue coins (coins.map fun c => Payout.pays totalBalance factor c.good) =
      Payout.paidValue totalBalance factor (coins.map Coin.good) := by
  induction coins with
  | nil => rfl
  | cons c coins ih =>
      simp only [redeemValue, Payout.paidValue, List.map_cons, List.zip_cons_cons,
        List.sum_cons] at ih ⊢
      rw [ih]
      rfl

end

/-! ## Reading the assets -/

namespace System

variable {ω : Type} {W : World ω} {s : System ω} {amount left : ℕ} {outputs : List ℕ}

/-- What a redeem reads of an asset. -/
structure ReadsCoin (W : World ω) (s : System ω) (asset : Address) (c : Coin) : Prop where
  balance : s.checkBalance W asset = .ok c.balance
  decimals : getDecimals W s.world asset = .ok c.decimals
  price : W.price s.world s.vault.priceProvider asset = .ok c.price

/-- Reads one asset. -/
def coinOf (W : World ω) (s : System ω) (asset : Address) : Except Revert Coin := do
  let balance ← s.checkBalance W asset
  let decimals ← getDecimals W s.world asset
  let price ← W.price s.world s.vault.priceProvider asset
  return ⟨balance, decimals, price⟩

/-- Reads all assets. -/
def coins (W : World ω) (s : System ω) : Except Revert (List Coin) :=
  s.vault.allAssets.mapM (s.coinOf W)

theorem coinOf_eq_ok {asset : Address} {c : Coin} :
    s.coinOf W asset = .ok c ↔ ReadsCoin W s asset c := by
  simp only [coinOf, bind_eq_ok, pure_eq_ok]
  constructor
  · rintro ⟨balance, hbalance, decimals, hdecimals, price, hprice, rfl⟩
    exact ⟨hbalance, hdecimals, hprice⟩
  · intro h
    exact ⟨_, h.balance, _, h.decimals, _, h.price, rfl⟩

theorem coins_eq_ok {coins : List Coin} :
    s.coins W = .ok coins ↔ List.Forall₂ (ReadsCoin W s) s.vault.allAssets coins := by
  simp only [System.coins, mapM_eq_ok, coinOf_eq_ok]

theorem getDecimals_le {w : ω} {asset : Address} {decimals : ℕ}
    (h : getDecimals W w asset = .ok decimals) : decimals ≤ 18 := by
  obtain ⟨d, -, hd⟩ := bind_eq_ok.mp h
  obtain ⟨_, hguard, hd⟩ := bind_eq_ok.mp hd
  cases pure_eq_ok.mp hd
  exact (require_eq_ok.mp hguard).2

theorem ReadsCoin.decimals_le {asset : Address} {c : Coin} (h : ReadsCoin W s asset c) :
    c.decimals ≤ 18 :=
  getDecimals_le h.decimals

theorem decimals_le_of_coins {coins : List Coin} (h : s.coins W = .ok coins) :
    ∀ c ∈ coins, c.decimals ≤ 18 := by
  have hall := (coins_eq_ok.mp h).flip.imp fun c _ hc =>
    (⟨hc.decimals_le, hc⟩ : c.decimals ≤ 18 ∧ _)
  exact ((List.forall₂_and_left _ _).mp hall).1

/-- Reading one asset appends its coin and adds to the total. -/
theorem readCoin_eq_ok {acc acc' : List Coin × ℕ} {asset : Address} {price : ℕ}
    (hprice : W.price s.world s.vault.priceProvider asset = .ok price)
    (h : s.readCoin W acc (asset, price) = .ok acc') :
    ∃ c, ReadsCoin W s asset c ∧ acc' = (acc.1 ++ [c], acc.2 + c.good.scaled) := by
  obtain ⟨balance, hbalance, h⟩ := bind_eq_ok.mp h
  obtain ⟨decimals, hdecimals, h⟩ := bind_eq_ok.mp h
  have hread : ReadsCoin W s asset ⟨balance, decimals, price⟩ := ⟨hbalance, hdecimals, hprice⟩
  simp only [bind_eq_ok, StableMath.scaleBy_eighteen_sub hread.decimals_le, SafeMath.add_eq_ok,
    pure_eq_ok] at h
  obtain ⟨_, ⟨-, rfl⟩, _, ⟨-, rfl⟩, rfl⟩ := h
  exact ⟨_, hread, rfl⟩

theorem foldlM_readCoin_eq_ok {acc out : List Coin × ℕ} {assets : List Address}
    {prices : List ℕ}
    (hprices : List.Forall₂
      (fun asset price => W.price s.world s.vault.priceProvider asset = .ok price) assets prices)
    (h : (assets.zip prices).foldlM (s.readCoin W) acc = .ok out) :
    ∃ coins, List.Forall₂ (ReadsCoin W s) assets coins ∧
      out = (acc.1 ++ coins, acc.2 + Payout.total (coins.map Coin.good)) := by
  induction hprices generalizing acc with
  | nil =>
      cases pure_eq_ok.mp h
      exact ⟨[], .nil, by simp [Payout.total]⟩
  | cons hprice _ ih =>
      rw [List.zip_cons_cons, List.foldlM_cons] at h
      obtain ⟨acc', hacc, hrest⟩ := bind_eq_ok.mp h
      obtain ⟨c, hc, rfl⟩ := readCoin_eq_ok hprice hacc
      obtain ⟨coins, hcoins, rfl⟩ := ih hrest
      exact ⟨c :: coins, .cons hc hcoins, by simp [Payout.total, Coin.good, Nat.add_assoc]⟩

/-- Where the calculation returns, it returns what the goods read pay for the
amount left after the fee. -/
theorem calculateRedeemOutputs_eq_ok (h : s.calculateRedeemOutputs W amount = .ok outputs) :
    ∃ coins left, s.coins W = .ok coins ∧ s.afterRedeemFee amount = .ok left ∧
      0 < Payout.unitWorth (Payout.total (coins.map Coin.good)) (coins.map Coin.good) ∧
        outputs = coins.map fun c => Payout.pays (Payout.total (coins.map Coin.good))
          (Payout.factor fullScale (Payout.total (coins.map Coin.good)) left
            (coins.map Coin.good)) c.good := by
  obtain ⟨prices, hprices, h⟩ := bind_eq_ok.mp h
  obtain ⟨left, hleft, h⟩ := bind_eq_ok.mp h
  obtain ⟨out, hout, h⟩ := bind_eq_ok.mp h
  obtain ⟨coins, hread, rfl⟩ := foldlM_readCoin_eq_ok (mapM_eq_ok.mp hprices) hout
  simp only [List.nil_append, Nat.zero_add] at h
  have hcoins : s.coins W = .ok coins := coins_eq_ok.mpr hread
  exact ⟨coins, left, hcoins, hleft, outputsFor_eq_ok (decimals_le_of_coins hcoins) h⟩

/-! ## No more than is held -/

/-- What holds of every coin read holds of every asset. -/
theorem forall₂_output_iff {coins : List Coin} {output : Coin → ℕ} (hread : s.coins W = .ok coins) :
    List.Forall₂ (fun asset out => ∃ held, s.checkBalance W asset = .ok held ∧ out ≤ held)
        s.vault.allAssets (coins.map output) ↔
      ∀ c ∈ coins, output c ≤ c.balance := by
  have h := coins_eq_ok.mp hread
  rw [List.forall₂_map_right_iff]
  constructor
  · intro hall
    have hboth : List.Forall₂ (fun c asset => output c ≤ c.balance ∧ ReadsCoin W s asset c) coins
        s.vault.allAssets := by
      refine List.Forall₂.flip (List.Forall₂.mp ?_ h hall)
      rintro asset c hc ⟨held, hheld, hle⟩
      cases hc.balance.symm.trans hheld
      exact ⟨hle, hc⟩
    exact ((List.forall₂_and_left _ _).mp hboth).1
  · intro hall
    have hboth := (List.forall₂_and_left coins s.vault.allAssets).mpr ⟨hall, h.flip⟩
    exact hboth.flip.imp fun asset c hc => ⟨c.balance, hc.2.balance, hc.1⟩

/-- The outputs of a redeem are all within what is held exactly where the amount
left after the fee leaves the room that the rounding of the shares takes. -/
theorem outputs_within_holdings_iff {coins : List Coin} (hcoins : s.coins W = .ok coins)
    (hleft : s.afterRedeemFee amount = .ok left)
    (h : s.calculateRedeemOutputs W amount = .ok outputs) :
    List.Forall₂ (fun asset output => ∃ held, s.checkBalance W asset = .ok held ∧ output ≤ held)
        s.vault.allAssets outputs ↔
      Payout.WithinHoldings fullScale left (coins.map Coin.good) := by
  obtain ⟨coins', left', hcoins', hleft', hworth, rfl⟩ := calculateRedeemOutputs_eq_ok h
  cases hcoins.symm.trans hcoins'
  cases hleft.symm.trans hleft'
  rw [forall₂_output_iff hcoins, ← Payout.withinHoldings_iff (Payout.total_pos_of_unitWorth hworth)
    (Payout.largest_pos_of_unitWorth hworth) hworth, List.forall_mem_map]
  rfl

/-- One and two coins, a third of which is redeemed. -/
theorem outputs_within_holdings_third :
    ∃ trace s coins outputs, Reached PlainWorld.calls 9 8 7
        (((PlainWorld.empty [] []).give 5 9 (10 ^ 18)).give 6 9 (2 * 10 ^ 18)) trace s ∧
      s.coins PlainWorld.calls = .ok coins ∧
        s.calculateRedeemOutputs PlainWorld.calls (10 ^ 18) = .ok outputs ∧
          List.Forall₂ (fun asset output => ∃ held,
            s.checkBalance PlainWorld.calls asset = .ok held ∧ output ≤ held)
            s.vault.allAssets outputs := by
  have hsteps : Returns
      (execTrace (execFrom PlainWorld.calls) []
        (initialized 9 8 7
          (((PlainWorld.empty [] []).give 5 9 (10 ^ 18)).give 6 9 (2 * 10 ^ 18)))
        [(8, .supportAsset 5), (8, .supportAsset 6)])
      fun out => Returns (out.2.coins PlainWorld.calls) fun coins =>
        Returns (out.2.afterRedeemFee (10 ^ 18)) fun left =>
          Succeeds (out.2.calculateRedeemOutputs PlainWorld.calls (10 ^ 18)) ∧
            Payout.WithinHoldings fullScale left (coins.map Coin.good) := by
    decide
  obtain ⟨trace, s, hrun, coins, hcoins, left, hleft, hsucceeds, hwithin⟩ :=
    reached_of_returns hsteps
  obtain ⟨outputs, houtputs⟩ := succeeds_iff.mp hsucceeds
  exact ⟨trace, s, coins, outputs, hrun, hcoins, houtputs,
    (outputs_within_holdings_iff hcoins hleft houtputs).mpr hwithin⟩

/-- One and two coins at a dollar each are deposited and all redeemed: a third and
two thirds, rounded down, sum to less than one, the outputs exceed the holdings by
one and by two, and the redeem fails. -/
theorem outputs_exceed_holdings :
    ∃ trace s coins left outputs, Reached PlainWorld.calls 9 8 7
        (((PlainWorld.empty [] []).give 5 1 (10 ^ 18)).give 6 1 (2 * 10 ^ 18)) trace s ∧
      s.coins PlainWorld.calls = .ok coins ∧ s.afterRedeemFee (3 * 10 ^ 18) = .ok left ∧
        left * fullScale ≤ Payout.value (coins.map Coin.good) ∧
          s.calculateRedeemOutputs PlainWorld.calls (3 * 10 ^ 18) = .ok outputs ∧
            (¬ List.Forall₂ (fun asset output => ∃ held,
              s.checkBalance PlainWorld.calls asset = .ok held ∧ output ≤ held)
              s.vault.allAssets outputs) ∧
              s.redeemAll PlainWorld.calls 1 0 = .error (.require "Liquidity error") := by
  have hsteps : Returns
      (execTrace (execFrom PlainWorld.calls) []
        (initialized 9 8 7
          (((PlainWorld.empty [] []).give 5 1 (10 ^ 18)).give 6 1 (2 * 10 ^ 18)))
        [(8, .supportAsset 5), (8, .supportAsset 6), (8, .unpauseCapital),
          (1, .mint 5 (10 ^ 18) 0), (1, .mint 6 (2 * 10 ^ 18) 0)])
      fun out => Returns (out.2.coins PlainWorld.calls) fun coins =>
        Returns (out.2.afterRedeemFee (3 * 10 ^ 18)) fun left =>
          left * fullScale ≤ Payout.value (coins.map Coin.good) ∧
            out.2.vault.allAssets = [5, 6] ∧
              Returns (out.2.checkBalance PlainWorld.calls 5) (· = 10 ^ 18) ∧
                Returns (out.2.calculateRedeemOutputs PlainWorld.calls (3 * 10 ^ 18))
                  (· = [10 ^ 18 + 1, 2 * 10 ^ 18 + 2]) ∧
                  FailsWith (.require "Liquidity error")
                    (out.2.redeemAll PlainWorld.calls 1 0) := by
    decide
  obtain ⟨trace, s, hrun, coins, hcoins, left, hleft, hbacked, hassets, hheld, hout, hfails⟩ :=
    reached_of_returns hsteps
  obtain ⟨outputs, houtputs, rfl⟩ := hout
  refine ⟨trace, s, coins, left, _, hrun, hcoins, hleft, hbacked, houtputs, ?_, hfails⟩
  intro hall
  rw [hassets] at hall
  cases hall with
  | cons hfirst _ =>
      obtain ⟨held, hbalance, hle⟩ := hfirst
      have heq := hheld.of_eq_ok hbalance
      omega

/-! ## How exact the value is -/

/-- The outputs of a redeem are worth the amount left after the fee up to the rounding: not more
than it by more than what the shares of the `n` assets lose in the ratio, and not less than it
by more than the ratio, which the factor loses, and a unit of each asset. -/
theorem redeem_value_exact (h : s.calculateRedeemOutputs W amount = .ok outputs) :
    ∃ prices coins totalBalance left ratio, s.getAssetPrices W = .ok prices ∧
      s.readCoins W prices = .ok (coins, totalBalance) ∧
        s.afterRedeemFee amount = .ok left ∧
          coins.foldlM (addRatio totalBalance) 0 = .ok ratio ∧
            ratio * redeemValue coins outputs ≤
              fullScale * left * (ratio + s.vault.allAssets.length) ∧
            fullScale * left ≤ redeemValue coins outputs + ratio +
              (coins.map fun c => c.redeemPrice * 10 ^ (18 - c.decimals)).sum := by
  obtain ⟨prices, hprices, h⟩ := bind_eq_ok.mp h
  obtain ⟨left, hleft, h⟩ := bind_eq_ok.mp h
  obtain ⟨⟨coins, totalBalance⟩, hout, h⟩ := bind_eq_ok.mp h
  obtain ⟨coins', hread, heq⟩ := foldlM_readCoin_eq_ok (mapM_eq_ok.mp hprices) hout
  cases heq
  have hcoins : s.coins W = .ok coins' := coins_eq_ok.mpr hread
  have hdecimals := decimals_le_of_coins hcoins
  obtain ⟨hworth, rfl⟩ := outputsFor_eq_ok hdecimals h
  obtain ⟨ratio, hratio, -⟩ := bind_eq_ok.mp h
  have hsum := foldlM_addRatio_eq_ok hdecimals hratio
  rw [Nat.zero_add] at hsum
  have htotal := Payout.total_pos_of_unitWorth hworth
  have hlength : (coins'.map Coin.good).length = s.vault.allAssets.length := by
    rw [List.length_map, hread.length_eq]
  refine ⟨prices, _, _, left, ratio, hprices, hout, hleft, hratio, ?_, ?_⟩
  · rw [List.nil_append, redeemValue_pays, ← hlength, hsum, Nat.mul_comm fullScale]
    exact Payout.unitWorth_mul_paidValue_le htotal left _
  · rw [List.nil_append, redeemValue_pays, hsum, Nat.mul_comm fullScale]
    have hunits : (coins'.map fun c => c.redeemPrice * 10 ^ (18 - c.decimals)).sum =
        Payout.unitValue (coins'.map Coin.good) := by
      rw [Payout.unitValue, List.map_map]
      rfl
    rw [hunits]
    exact Payout.amount_le_paidValue_add hworth left

/-- A hundred coins at 1.06 dollars, of 18 decimals, and two hundred at a dollar, of 6: for 30
dollars 9.80 of the one are given out and 19.60 of the other. -/
theorem redeem_value_exact_mixed :
    ∃ trace s coins totalBalance ratio, Reached PlainWorld.calls 9 8 7
        { ((PlainWorld.empty [] []).give 5 9 (100 * 10 ^ 18)).give 6 9 (200 * 10 ^ 6) with
          tokenDecimals := fun a => if a = 6 then 6 else 18
          prices := fun a => if a = 5 then 106 * 10 ^ 16 else 10 ^ 18 } trace s ∧
      s.calculateRedeemOutputs PlainWorld.calls (30 * 10 ^ 18) =
        .ok [9803921568627450990, 19607843] ∧
      coins.foldlM (addRatio totalBalance) 0 = .ok ratio ∧
      ratio * redeemValue coins [9803921568627450990, 19607843] ≤
        fullScale * (30 * 10 ^ 18) * (ratio + 2) ∧
      fullScale * (30 * 10 ^ 18) ≤ redeemValue coins [9803921568627450990, 19607843] + ratio +
        (coins.map fun c => c.redeemPrice * 10 ^ (18 - c.decimals)).sum := by
  have hsteps : Returns
      (execTrace (execFrom PlainWorld.calls) []
        (initialized 9 8 7
          { ((PlainWorld.empty [] []).give 5 9 (100 * 10 ^ 18)).give 6 9 (200 * 10 ^ 6) with
            tokenDecimals := fun a => if a = 6 then 6 else 18
            prices := fun a => if a = 5 then 106 * 10 ^ 16 else 10 ^ 18 })
        [(8, .supportAsset 5), (8, .supportAsset 6)])
      fun out => out.2.vault.allAssets.length = 2 ∧
        Returns (out.2.afterRedeemFee (30 * 10 ^ 18)) (· = 30 * 10 ^ 18) ∧
          Returns (out.2.calculateRedeemOutputs PlainWorld.calls (30 * 10 ^ 18))
            (· = [9803921568627450990, 19607843]) := by
    decide
  obtain ⟨trace, s, hrun, htwo, hfee, ⟨_, houtputs, rfl⟩⟩ := reached_of_returns hsteps
  obtain ⟨prices, coins, totalBalance, left, ratio, -, -, hleft, hratio, hover, hunder⟩ :=
    redeem_value_exact houtputs
  rw [hfee.of_eq_ok hleft] at hover hunder
  rw [htwo] at hover
  exact ⟨trace, s, coins, totalBalance, ratio, hrun, houtputs, hratio, hover, hunder⟩

end System

end InterestDollar
