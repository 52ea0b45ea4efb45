import InterestDollar.Vault.Backing

/-!
# Minting for several assets

`mintMultiple` is written apart from `mint`: it looks the prices up by their positions in the
list of assets and adds inside the match of the addresses. It issues what the mints of its
deposits would issue one by one, holds the sum of their units against the thresholds, and
takes in what it was given. For a single deposit the two are one function.
-/

namespace InterestDollar

open Checked Transition

namespace System

variable {ω : Type} {W : World ω} {s s' t : System ω} {sender asset : Address}
  {deposits : List (Address × ℕ)}

/-- What a list of deposits brings in of an asset. -/
def deposited (deposits : List (Address × ℕ)) (asset : Address) : ℕ :=
  (deposits.map fun e => if e.1 = asset then e.2 else 0).sum

/-- The rest of a mint, once its units and its value are known. -/
def settleMint (W : World ω) (s : System ω) (sender : Address) (deposits : List (Address × ℕ))
    (minimum : ℕ) (terms : ℕ × ℕ) : Except Revert (System ω) := do
  requireMinimum minimum terms.2 "Mint amount lower than minimum"
  let s ← s.rebaseBeforeMint W terms.1
  let s ← s.callOusd W s.vault.self (.mint sender terms.2)
  let s ← deposits.foldlM (fun s (asset, amount) => s.takeDeposit W sender asset amount) s
  s.allocateAfterMint W terms.1

/-- A mint for deposits: the units are held against the thresholds, the value is issued to the
sender, and each asset comes in by what was listed of it, where the tokens are standard. -/
def Mints (W : World ω) (s : System ω) (sender : Address) (deposits : List (Address × ℕ))
    (units value : ℕ) (s' : System ω) : Prop :=
  ∃ s₁ s₂ s₃, s.rebaseBeforeMint W units = .ok s₁ ∧
    s₁.callOusd W s.vault.self (.mint sender value) = .ok s₂ ∧
      deposits.foldlM (fun s (asset, amount) => s.takeDeposit W sender asset amount) s₂ =
        .ok s₃ ∧
      (StandardDeposits W s.vault → sender ≠ s.vault.self → ∀ asset balance,
        W.balanceOf s.world asset s.vault.self = .ok balance →
          W.balanceOf s₃.world asset s.vault.self =
            .ok (balance + deposited deposits asset)) ∧
        s₃.allocateAfterMint W units = .ok s'

theorem takeDeposits_balance {balance : ℕ} (hW : StandardDeposits W s.vault)
    (hself : sender ≠ s.vault.self) (hassets : ∀ e ∈ deposits, s.vault.assets e.1 = true)
    (hbalance : W.balanceOf s.world asset s.vault.self = .ok balance)
    (h : deposits.foldlM (fun s (asset, amount) => s.takeDeposit W sender asset amount) s =
      .ok t) :
    W.balanceOf t.world asset s.vault.self = .ok (balance + deposited deposits asset) := by
  induction deposits generalizing s balance with
  | nil =>
      cases pure_eq_ok.mp h
      exact hbalance
  | cons e deposits ih =>
      rw [List.foldlM_cons] at h
      obtain ⟨u, hu, h⟩ := bind_eq_ok.mp h
      obtain ⟨w, hw, hu⟩ := bind_eq_ok.mp hu
      cases pure_eq_ok.mp hu
      obtain ⟨hasset, hassets⟩ := List.forall_mem_cons.mp hassets
      have hnext : W.balanceOf w asset s.vault.self =
          .ok (balance + if e.1 = asset then e.2 else 0) := by
        split_ifs with heq
        · subst heq
          exact hW.balance hasset hself hw hbalance
        · rw [hW.others hasset hself hw (Ne.symm heq), hbalance, Nat.add_zero]
      have hlast := ih (s := s.setWorld w) hW hself hassets hnext h
      rw [deposited, List.map_cons, List.sum_cons, ← Nat.add_assoc]
      exact hlast

theorem settleMint_eq_ok {minimum : ℕ} {terms : ℕ × ℕ}
    (hassets : ∀ e ∈ deposits, s.vault.assets e.1 = true)
    (h : s.settleMint W sender deposits minimum terms = .ok s') :
    s.Mints W sender deposits terms.1 terms.2 s' := by
  obtain ⟨_, -, h⟩ := bind_eq_ok.mp h
  obtain ⟨s₁, hrebase, h⟩ := bind_eq_ok.mp h
  obtain ⟨s₂, hissue, h⟩ := bind_eq_ok.mp h
  obtain ⟨s₃, htake, hallocate⟩ := bind_eq_ok.mp h
  have hvault : s₁.vault = s.vault := (rebaseBeforeMint_small s terms.1 s₁ hrebase).vault
  have hvault₂ : s₂.vault = s.vault := (callOusd_vault hissue).trans hvault
  have hworld : s₂.world = s.world :=
    (callOusd_world hissue).trans (rebaseBeforeMint_world hrebase)
  rw [hvault] at hissue
  refine ⟨s₁, s₂, s₃, hrebase, hissue, htake, fun hW hself asset balance hbalance => ?_, hallocate⟩
  rw [← hvault₂] at hW hself hassets hbalance ⊢
  rw [← hworld] at hbalance
  exact takeDeposits_balance hW hself hassets hbalance htake

theorem mint_eq (amount minimum : ℕ) :
    s.mint W sender asset amount minimum = (do
      s.whenNotCapitalPaused
      require (s.vault.assets asset = true) "Asset is not supported"
      require (0 < amount) "Amount must be greater than 0"
      let terms ← s.depositTerms W asset amount
      s.settleMint W sender [(asset, amount)] minimum terms) := by
  simp only [mint, depositTerms, settleMint, bind_assoc, pure_bind, List.foldlM_cons,
    List.foldlM_nil, bind_pure]

/-- A multiple mint comes down to the rest of a mint, for the sums of the terms of its deposits. -/
theorem mintMultiple_eq_ok {assets : List Address} {amounts : List ℕ} {minimum : ℕ}
    (hr : s.vault.Registered) (h : s.mintMultiple W sender assets amounts minimum = .ok s') :
    ∃ terms : List (ℕ × ℕ), List.Forall₂ (fun e term => s.depositTerms W e.1 e.2 = .ok term)
        (assets.zip amounts) terms ∧
      (∀ e ∈ assets.zip amounts, s.vault.assets e.1 = true) ∧
        s.settleMint W sender (assets.zip amounts) minimum
          ((terms.map Prod.fst).sum, (terms.map Prod.snd).sum) = .ok s' := by
  obtain ⟨_, -, h⟩ := bind_eq_ok.mp h
  obtain ⟨_, -, h⟩ := bind_eq_ok.mp h
  obtain ⟨prices, hprices, h⟩ := bind_eq_ok.mp h
  obtain ⟨totals, htotals, h⟩ := bind_eq_ok.mp h
  obtain ⟨hassets, terms, hterms, rfl⟩ := foldlM_addDeposit_eq_ok hr hprices htotals
  simp only [Nat.zero_add] at h
  exact ⟨terms, hterms, hassets, h⟩

/-! ## A single deposit -/

/-- Added to nothing, a deposit is what `mint` makes of it. -/
theorem addAtPrice_zero {amount price : ℕ} (hamount : amount < wordBound) :
    s.addAtPrice W (asset, amount) (0, 0) asset price = (do
      let assetDecimals ← getDecimals W s.world asset
      let scaled ← StableMath.scaleBy amount (18 - (assetDecimals : ℤ))
      let value ← StableMath.mulTruncateScale amount price (10 ^ assetDecimals)
      return (scaled, value)) := by
  have hadd : ∀ n, n < wordBound → SafeMath.add 0 n = .ok n := fun n hn =>
    SafeMath.add_eq_ok.mpr ⟨by rwa [Nat.zero_add], (Nat.zero_add n).symm⟩
  rw [addAtPrice]
  refine bind_eq_bind fun decimals hdecimals => bind_eq_bind fun scaled hscaled => ?_
  rw [hadd scaled (StableMath.scaleBy_lt hamount (getDecimals_le hdecimals) hscaled)]
  change (StableMath.mulTruncateScale amount price (10 ^ decimals) >>= _) = _
  refine bind_eq_bind fun value hvalue => ?_
  rw [hadd value (StableMath.mulTruncateScale_lt hvalue)]
  rfl

theorem getAssetPrices_succeeds (hr : s.vault.Registered)
    (h : ∀ asset, s.vault.assets asset = true →
      Succeeds (W.price s.world s.vault.priceProvider asset)) : Succeeds (s.getAssetPrices W) := by
  refine mapM_succeeds fun asset hasset => ?_
  exact h asset ((hr.assets asset).mpr hasset)

/-- For a single deposit `mintMultiple` is `mint`. -/
theorem mintMultiple_single (hr : s.vault.Registered)
    (horacle : Succeeds (s.getAssetPrices W)) (hasset : s.vault.assets asset = true)
    {amount : ℕ} (hamount : amount < wordBound) (minimum : ℕ) :
    s.mintMultiple W sender [asset] [amount] minimum = s.mint W sender asset amount minimum := by
  obtain ⟨prices, hprices⟩ := succeeds_iff.mp horacle
  have hdeposit : s.addDeposit W prices (0, 0) (asset, amount) = (do
      require (0 < amount) "Amount must be greater than 0"
      s.depositTerms W asset amount) := by
    rw [addDeposit_eq (0, 0) hr hprices hasset]
    refine bind_eq_bind fun _ _ => bind_eq_bind fun price _ => ?_
    exact addAtPrice_zero hamount
  have hlength : require ([asset].length = [amount].length) "Parameter length mismatch" =
      .ok () := require_eq_ok.mpr rfl
  rw [mintMultiple, hprices, hlength, mint_eq, (require_eq_ok (u := ())).mpr hasset]
  refine bind_eq_bind fun _ _ => ?_
  change ([(asset, amount)].foldlM (s.addDeposit W prices) (0, 0) >>= _) = _
  rw [List.foldlM_cons, hdeposit]
  simp only [List.foldlM_nil, bind_pure, bind_assoc]
  rfl

variable {self governor priceProvider : Address} {world : ω}
  {trace : List (System ω × (Address × Action ω))}

/-- In every state a run reaches, with an oracle that answers for the supported assets, a
multiple mint issues the sum of what `mint` issues for each of its deposits, holds the sum of
their units against the thresholds, and takes in exactly what is listed of each asset; for one
deposit it is the same function as `mint`. -/
theorem mintMultiple_agrees (h : Reached W self governor priceProvider world trace s)
    (horacle : ∀ asset, s.vault.assets asset = true →
      Succeeds (W.price s.world s.vault.priceProvider asset)) :
    (∀ sender assets amounts minimum s',
      s.mintMultiple W sender assets amounts minimum = .ok s' → ∃ terms : List (ℕ × ℕ),
        List.Forall₂ (fun e term => s.depositTerms W e.1 e.2 = .ok term)
          (assets.zip amounts) terms ∧
        s.Mints W sender (assets.zip amounts) (terms.map Prod.fst).sum (terms.map Prod.snd).sum
          s') ∧
    (∀ sender asset amount minimum s', s.mint W sender asset amount minimum = .ok s' →
      ∃ term, s.depositTerms W asset amount = .ok term ∧
        s.Mints W sender [(asset, amount)] term.1 term.2 s') ∧
    ∀ sender asset amount minimum, s.vault.assets asset = true → amount < wordBound →
      s.mintMultiple W sender [asset] [amount] minimum =
        s.mint W sender asset amount minimum := by
  have hr := h.sound.registered
  refine ⟨?_, ?_, ?_⟩
  · intro sender assets amounts minimum s' hmint
    obtain ⟨terms, hterms, hassets, hmint⟩ := mintMultiple_eq_ok hr hmint
    exact ⟨terms, hterms, settleMint_eq_ok hassets hmint⟩
  · intro sender asset amount minimum s' hmint
    rw [mint_eq] at hmint
    obtain ⟨_, -, hmint⟩ := bind_eq_ok.mp hmint
    obtain ⟨_, hasset, hmint⟩ := bind_eq_ok.mp hmint
    obtain ⟨_, -, hmint⟩ := bind_eq_ok.mp hmint
    obtain ⟨term, hterm, hmint⟩ := bind_eq_ok.mp hmint
    refine ⟨term, hterm, settleMint_eq_ok ?_ hmint⟩
    exact List.forall_mem_singleton.mpr (require_eq_ok.mp hasset)
  · intro sender asset amount minimum hasset hamount
    exact mintMultiple_single hr (getAssetPrices_succeeds hr horacle) hasset hamount minimum

/-- Two assets at 1.20 dollars, one of them deposited twice, after each other and in one call:
14 units and a value of 15. -/
theorem mintMultiple_agrees_twice :
    ∃ trace s s', Reached PlainWorld.calls 9 8 7
        { ((PlainWorld.empty [] []).give 5 1 100).give 6 1 100 with
          prices := fun _ => 12 * 10 ^ 17 } trace s ∧
      s.mintMultiple PlainWorld.calls 1 [5, 6, 5] [7, 3, 4] 0 = .ok s' ∧
        s.Mints PlainWorld.calls 1 [(5, 7), (6, 3), (5, 4)] 14 15 s' ∧
          s.mintMultiple PlainWorld.calls 1 [5] [7] 0 = s.mint PlainWorld.calls 1 5 7 0 := by
  have hsteps : Returns
      (execTrace (execFrom PlainWorld.calls) []
        (initialized 9 8 7 { ((PlainWorld.empty [] []).give 5 1 100).give 6 1 100 with
          prices := fun _ => 12 * 10 ^ 17 })
        [(8, .supportAsset 5), (8, .supportAsset 6), (8, .unpauseCapital)])
      fun out => out.2.vault.assets 5 = true ∧
        Returns (out.2.depositTerms PlainWorld.calls 5 7) (· = (7, 8)) ∧
        Returns (out.2.depositTerms PlainWorld.calls 6 3) (· = (3, 3)) ∧
        Returns (out.2.depositTerms PlainWorld.calls 5 4) (· = (4, 4)) ∧
          Succeeds (out.2.mintMultiple PlainWorld.calls 1 [5, 6, 5] [7, 3, 4] 0) := by
    decide
  obtain ⟨trace, s, hrun, hasset, hfirst, hsecond, hthird, hgoes⟩ := reached_of_returns hsteps
  obtain ⟨s', hmint⟩ := succeeds_iff.mp hgoes
  obtain ⟨hmultiple, -, hsingle⟩ :=
    mintMultiple_agrees hrun fun _ _ => succeeds_iff.mpr ⟨_, rfl⟩
  obtain ⟨terms, hterms, hmints⟩ := hmultiple 1 [5, 6, 5] [7, 3, 4] 0 s' hmint
  refine ⟨trace, s, s', hrun, hmint, ?_, hsingle 1 5 7 0 hasset (by decide)⟩
  cases hterms with
  | cons h₁ hterms =>
      cases hterms with
      | cons h₂ hterms =>
          cases hterms with
          | cons h₃ hterms =>
              cases hterms
              cases hfirst.of_eq_ok h₁
              cases hsecond.of_eq_ok h₂
              cases hthird.of_eq_ok h₃
              exact hmints

end System

end InterestDollar
