import InterestDollar.FixedPoint.Portion
import InterestDollar.Token.Effects

/-!
# Minting and burning, to the credit

A burn takes the credits of its amount, rounded down, from the account and compares them with
the credits there, not the amount with the balance. One credit that is left over goes with the
others. What follows is when a burn stays within the balance, that burning the whole balance
empties the account, and that a mint or a burn made in two parts ends where one of the sum does,
up to a credit for each rounding.
-/

namespace InterestDollar

open Checked FixedPoint Transition

namespace Ledger

/-- What is left of `k` credits when `l` of them are burned. -/
def leftOver (k l : ℕ) : ℕ := if k = l + 1 then 0 else k - l

/-- The ledger after a burn from a migrated account. -/
def burned (m : Ledger) (a : Address) (v : ℕ) : Ledger := ((m.debit a v).dropDust a).subSupply v

section Burned

variable {s s' m : Ledger} {isContract : Address → Bool} {msg : Msg} {a x : Address} {v : ℕ}

theorem burned_sameOff : SameOff a m (m.burned a v) := by
  have hsame : SameOff a m ((m.debit a v).dropDust a) := debit_sameOff.trans dropDust_sameOff
  exact ⟨hsame.rate, hsame.credits, hsame.frozenRate⟩

theorem burned_frozen : (m.burned a v).Frozen x ↔ m.Frozen x := dropDust_frozen

theorem burned_creditBalances_self (henough : m.creditsFor a v ≤ m.creditBalances a) :
    (m.burned a v).creditBalances a = leftOver (m.creditBalances a) (m.creditsFor a v) := by
  change ((m.debit a v).dropDust a).creditBalances a = _
  rw [dropDust_debit henough]
  exact Function.update_self _ _ _

theorem burned_creditsPerToken : (m.burned a v).creditsPerToken = m.creditsPerToken := by
  change ((m.debit a v).dropDust a).creditsPerToken = _
  unfold dropDust
  split_ifs
  · rfl
  · rfl

theorem burned_nonRebasingSupply :
    (m.burned a v).nonRebasingSupply =
      if m.Frozen a then m.nonRebasingSupply - v else m.nonRebasingSupply :=
  dropDust_nonRebasingSupply

theorem burned_totalSupply : (m.burned a v).totalSupply = m.totalSupply - v := by
  change ((m.debit a v).dropDust a).totalSupply - v = _
  rw [dropDust_totalSupply, debit_totalSupply]

theorem burned_rebaseState : (m.burned a v).rebaseState = m.rebaseState := by
  change ((m.debit a v).dropDust a).rebaseState = _
  unfold dropDust
  split_ifs
  · rfl
  · rfl

theorem burned_balance_le : (m.burned a v).balance a ≤ (m.debit a v).balance a :=
  dropDust_balance_le

theorem burned_balance_self (henough : m.creditsFor a v ≤ m.creditBalances a) :
    (m.burned a v).balance a =
      worth fullScale (m.creditsPerToken a)
        (leftOver (m.creditBalances a) (m.creditsFor a v)) := by
  rw [balance, burned_creditsPerToken, burned_creditBalances_self henough]

theorem burn_eq_burned (hv : v ≠ 0) (hs : s.burn msg a v = .ok s') :
    BurnFits (s.migrate msg.isContract a) a v ∧ s' = (s.migrate msg.isContract a).burned a v := by
  obtain ⟨-, hburn⟩ := burn_eq_ok.mp hs
  obtain ⟨-, ⟨hzero, -⟩ | ⟨-, -, hfits, rfl⟩⟩ := burnFrom_eq_ok.mp hburn
  · exact absurd hzero hv
  · exact ⟨hfits, rfl⟩

theorem burn_zero (hs : s.burn msg a 0 = .ok s') : s' = s := by
  obtain ⟨-, hburn⟩ := burn_eq_ok.mp hs
  obtain ⟨-, ⟨-, rfl⟩ | ⟨hzero, -⟩⟩ := burnFrom_eq_ok.mp hburn
  · rfl
  · exact absurd rfl hzero

end Burned

/-! ## Within the balance -/

/-- What a burn checks besides the credits of the account. -/
structure BurnGuards (msg : Msg) (s : Ledger) (a : Address) (v : ℕ) : Prop where
  vault : s.vaultAddress = msg.sender
  account : a ≠ 0
  migration : s.MigrationFits msg.isContract a
  deducted : v * s.creditsPerToken a < wordBound
  frozenTally : (s.migrate msg.isContract a).Frozen a →
    v ≤ (s.migrate msg.isContract a).nonRebasingSupply
  supply : v ≤ s.totalSupply

section Within

variable {n : ℕ} {s : Ledger} {msg : Msg} {a : Address} {v : ℕ}

/-- A burn goes through exactly where its other guards let it and the account has the
credits. -/
theorem burn_succeeds_iff (h : Conserved n s) (hv : v ≠ 0) :
    (∃ s', s.burn msg a v = .ok s') ↔
      BurnGuards msg s a v ∧ s.creditsFor a v ≤ s.creditBalances a := by
  have hfor : (s.migrate msg.isContract a).creditsFor a v = s.creditsFor a v := by
    rw [creditsFor, creditsFor, migrate_creditsPerToken]
  simp only [burn_eq_ok, burnFrom_eq_ok, hv, ne_eq, not_false_eq_true, false_and, false_or,
    true_and, exists_and_left, exists_eq, and_true]
  constructor
  · rintro ⟨hvault, haccount, hmigration, hfits⟩
    have hdeducted := hfits.deducted
    have henough := hfits.enough
    have hsupply := hfits.supply
    rw [migrate_creditsPerToken] at hdeducted
    rw [hfor, migrate_creditBalances] at henough
    rw [migrate_totalSupply] at hsupply
    exact ⟨⟨hvault, haccount, hmigration, hdeducted, hfits.frozenTally, hsupply⟩, henough⟩
  · rintro ⟨⟨hvault, haccount, hmigration, hdeducted, hfrozen, hsupply⟩, henough⟩
    refine ⟨hvault, haccount, hmigration, ?_, ?_, hfrozen, ?_, ?_⟩
    · rwa [migrate_creditsPerToken]
    · rwa [hfor, migrate_creditBalances]
    · intro hnot
      have hle := (h.migrate msg.isContract a).creditBalances_le hnot
      rw [migrate_creditBalances] at hle
      rw [hfor]
      exact henough.trans hle
    · rwa [migrate_totalSupply]

/-- An amount above the balance whose credits the account has is one that stands for all of
its credits and a part of another. -/
theorem balance_lt_iff (hrate : 0 < s.rebasingCreditsPerToken)
    (henough : s.creditsFor a v ≤ s.creditBalances a) :
    s.balance a < v ↔
      s.creditsFor a v = s.creditBalances a ∧ v * s.creditsPerToken a % fullScale ≠ 0 := by
  have hpos : 0 < s.creditsPerToken a := creditsPerToken_pos hrate a
  have hsplit : s.creditsFor a v * fullScale + v * s.creditsPerToken a % fullScale =
      v * s.creditsPerToken a := Nat.div_add_mod' _ _
  have hmod : v * s.creditsPerToken a % fullScale < fullScale := Nat.mod_lt _ fullScale_pos
  rw [balance, worth, Nat.div_lt_iff_lt_mul hpos]
  generalize v * s.creditsPerToken a % fullScale = rest at hmod hsplit ⊢
  generalize s.creditsFor a v = credits at henough hsplit ⊢
  constructor
  · intro hlt
    have hge : s.creditBalances a ≤ credits := by
      by_contra hless
      have hmul : (credits + 1) * fullScale ≤ s.creditBalances a * fullScale :=
        Nat.mul_le_mul_right _ (by omega)
      rw [Nat.add_mul, Nat.one_mul] at hmul
      omega
    have heq : credits = s.creditBalances a := le_antisymm henough hge
    rw [heq] at hsplit
    exact ⟨heq, by omega⟩
  · rintro ⟨heq, hrest⟩
    rw [heq] at hsplit
    omega

end Within

/-- In every state a run reaches, a burn that succeeds stays within the balance exactly where,
if its other guards hold and its amount stands for just the credits the account has, these
are worth the amount without a remainder. -/
theorem burn_within_balance_iff {vaultAddress : Address}
    {trace : List (Ledger × (Msg × Call))} {s : Ledger} (h : Reached vaultAddress trace s)
    (msg : Msg) (a : Address) (v : ℕ) :
    (∀ s', s.burn msg a v = .ok s' → v ≤ s.balance a) ↔
      (BurnGuards msg s a v → s.creditsFor a v = s.creditBalances a →
        v * s.creditsPerToken a % fullScale = 0) := by
  have hc := h.conserved
  rcases Nat.eq_zero_or_pos v with rfl | hv
  · simp
  · have hiff : (∃ s', s.burn msg a v = .ok s') ↔ _ := burn_succeeds_iff hc hv.ne'
    constructor
    · intro hwithin hguards hcredits
      obtain ⟨s', hs'⟩ := hiff.mpr ⟨hguards, hcredits.le⟩
      by_contra hrest
      have hlt := (balance_lt_iff hc.rate_pos hcredits.le).mpr ⟨hcredits, hrest⟩
      exact absurd (hwithin s' hs') (not_le.mpr hlt)
    · intro hexact s' hs'
      obtain ⟨hguards, henough⟩ := hiff.mp ⟨s', hs'⟩
      by_contra hgt
      obtain ⟨hcredits, hrest⟩ := (balance_lt_iff hc.rate_pos henough).mp (not_le.mp hgt)
      exact hrest (hexact hguards hcredits)

/-- Before any rebase a credit is a token, and a burn is within the balance. -/
theorem burn_within_balance_unrebased :
    ∃ trace s s', Reached 9 trace s ∧ s.burn ⟨9, fun _ => false⟩ 1 2 = .ok s' ∧
      2 ≤ s.balance 1 := by
  have hcalls : Returns
      (execTrace exec [] (initialized 9) [(⟨9, fun _ => false⟩, .mint 1 2)])
      fun out => Succeeds (out.2.burn ⟨9, fun _ => false⟩ 1 2) ∧
        2 * out.2.creditsPerToken 1 % fullScale = 0 := by decide
  obtain ⟨trace, s, hrun, hburn, hrest⟩ := reached_of_returns hcalls
  obtain ⟨s', hs'⟩ := succeeds_iff.mp hburn
  exact ⟨trace, s, s', hrun, hs',
    (burn_within_balance_iff hrun _ _ _).mpr (fun _ _ => hrest) s' hs'⟩

/-- After a rebase from 2 to 3 tokens, an amount of 1 stands for no whole credit, and it is
burned from an account that never held any. -/
theorem burn_beyond_balance :
    ∃ trace s s', Reached 9 trace s ∧ s.burn ⟨9, fun _ => false⟩ 5 1 = .ok s' ∧
      s.balance 5 = 0 := by
  have hcalls : Returns
      (execTrace exec [] (initialized 9)
        [(⟨9, fun _ => false⟩, .mint 1 2), (⟨9, fun _ => false⟩, .changeSupply 3)])
      fun out => Succeeds (out.2.burn ⟨9, fun _ => false⟩ 5 1) ∧ out.2.balance 5 = 0 := by decide
  obtain ⟨trace, s, hrun, hburn, hempty⟩ := reached_of_returns hcalls
  obtain ⟨s', hs'⟩ := succeeds_iff.mp hburn
  exact ⟨trace, s, s', hrun, hs', hempty⟩

/-! ## The whole balance -/

section Whole

variable {m : Ledger} {a : Address}

/-- Up to a rate of one credit for a token, the balance stands for all credits but one at
most, and that one is dropped. -/
theorem burned_balance_eq_zero (hrate : 0 < m.rebasingCreditsPerToken)
    (hlow : m.creditsPerToken a ≤ fullScale) : (m.burned a (m.balance a)).balance a = 0 := by
  have hpos : 0 < m.creditsPerToken a := creditsPerToken_pos hrate a
  have henough : m.creditsFor a (m.balance a) ≤ m.creditBalances a :=
    shares_le_of_le_worth le_rfl
  have hall : m.creditBalances a ≤ m.creditsFor a (m.balance a) + 1 :=
    le_shares_worth_succ fullScale_pos hpos hlow _
  have hnone : leftOver (m.creditBalances a) (m.creditsFor a (m.balance a)) = 0 := by
    unfold leftOver
    split_ifs <;> omega
  rw [burned_balance_self henough, hnone, worth_zero]

/-- Above that rate the credits left are worth less than a token and a share of another. -/
theorem burned_balance_le_one (hrate : 0 < m.rebasingCreditsPerToken)
    (hhigh : fullScale < m.creditsPerToken a) : (m.burned a (m.balance a)).balance a ≤ 1 := by
  have henough : m.creditsFor a (m.balance a) ≤ m.creditBalances a :=
    shares_le_of_le_worth le_rfl
  have hdebit : (m.debit a (m.balance a)).balance a + m.balance a ≤
      m.balance a + m.creditWorth a := debit_balance_add_le hrate henough
  have hshare : m.creditWorth a ≤ 1 := ceil_share_le_one hhigh.le
  exact burned_balance_le.trans (Nat.le_of_add_le_add_right (hdebit.trans (by omega)))

end Whole

/-- In every state a run reaches, burning the whole balance of an account leaves it nothing
where a token is at most one credit, at most 1 otherwise, and no other balance changes. -/
theorem burn_whole_balance {vaultAddress : Address} {trace : List (Ledger × (Msg × Call))}
    {s : Ledger} (h : Reached vaultAddress trace s) {msg : Msg} {a : Address} {b : ℕ}
    {s' : Ledger} (hb : s.balanceOf a = .ok b) (hs : s.burn msg a b = .ok s') :
    (s.creditsPerToken a ≤ fullScale → s'.balance a = 0) ∧
      (fullScale < s.creditsPerToken a → s'.balance a ≤ 1) ∧
        ∀ x, x ≠ a → s'.balance x = s.balance x := by
  obtain ⟨-, rfl⟩ := balanceOf_eq_ok.mp hb
  by_cases hzero : s.balance a = 0
  · rw [hzero] at hs
    obtain rfl := burn_zero hs
    exact ⟨fun _ => hzero, fun _ => hzero.trans_le (Nat.zero_le 1), fun _ _ => rfl⟩
  · obtain ⟨-, rfl⟩ := burn_eq_burned hzero hs
    have hrate : 0 < (s.migrate msg.isContract a).rebasingCreditsPerToken := by
      rw [migrate_rate]
      exact h.conserved.rate_pos
    have hbalance : s.balance a = (s.migrate msg.isContract a).balance a := by
      rw [migrate_balance]
    have hinForce : s.creditsPerToken a = (s.migrate msg.isContract a).creditsPerToken a := by
      rw [migrate_creditsPerToken]
    rw [hbalance, hinForce]
    refine ⟨burned_balance_eq_zero hrate, burned_balance_le_one hrate, fun x hx => ?_⟩
    rw [burned_sameOff.balance_eq hx, migrate_balance]

/-- Two tokens, rebased to 3, are burned in whole. -/
theorem burn_whole_balance_rebased :
    ∃ (trace : _) (s s' : Ledger), Reached 9 trace s ∧ s.balance 1 = 3 ∧
      s.burn ⟨9, fun _ => false⟩ 1 3 = .ok s' ∧ s'.balance 1 = 0 := by
  have hcalls : Returns
      (execTrace exec [] (initialized 9)
        [(⟨9, fun _ => false⟩, .mint 1 2), (⟨9, fun _ => false⟩, .changeSupply 3)])
      fun out => out.2.balanceOf 1 = .ok 3 ∧ out.2.creditsPerToken 1 ≤ fullScale ∧
        Succeeds (out.2.burn ⟨9, fun _ => false⟩ 1 3) := by decide
  obtain ⟨trace, s, hrun, hb, hlow, hburn⟩ := reached_of_returns hcalls
  obtain ⟨s', hs'⟩ := succeeds_iff.mp hburn
  exact ⟨trace, s, s', hrun, (balanceOf_eq_ok.mp hb).2.symm, hs',
    (burn_whole_balance hrun hb hs').1 hlow⟩

/-! ## In two parts -/

/-- Two ledgers with the same supplies and the same balances, but that the first may be lower
on one account, by at most `b`. -/
structure CloseOn (a : Address) (b : ℕ) (s s' : Ledger) : Prop where
  totalSupply : s.totalSupply = s'.totalSupply
  nonRebasingSupply : s.nonRebasingSupply = s'.nonRebasingSupply
  atMost : s.balance a ≤ s'.balance a
  within : s'.balance a ≤ s.balance a + b
  others : ∀ x, x ≠ a → s.balance x = s'.balance x

theorem CloseOn.refl {s : Ledger} {a : Address} {b : ℕ} : CloseOn a b s s :=
  ⟨rfl, rfl, le_rfl, Nat.le_add_right _ _, fun _ _ => rfl⟩

section Parts

variable {s s' t m : Ledger} {isContract : Address → Bool} {msg : Msg} {a : Address} {x y : ℕ}

theorem mint_eq_credited (hs : s.mint msg a x = .ok s') :
    s' = ((s.migrate msg.isContract a).credit a x).addSupply x := by
  obtain ⟨-, hmint⟩ := mint_eq_ok.mp hs
  obtain ⟨-, -, -, heq⟩ := mintTo_eq_ok.mp hmint
  exact heq

/-- A migrated account is not migrated again, as long as it makes no choice. -/
theorem migrate_again (hrate : 0 < s.rebasingCreditsPerToken)
    (hstate : t.rebaseState = s.rebaseState)
    (hfrozen : t.Frozen a ↔ (s.migrate isContract a).Frozen a) :
    t.migrate isContract a = t := by
  refine if_neg fun ⟨hcode, hnot, hfree⟩ => ?_
  have hrebasing : ¬ s.NonRebasing isContract a := mt (migrate_frozen hrate).mpr
    (mt hfrozen.mpr hfree)
  rw [hstate] at hnot
  exact hrebasing (.inr ⟨hcode, hnot, fun hf => hrebasing (.inl hf)⟩)

/-- Crediting two amounts apart gives the account the credits of their sum, or one less. -/
theorem credit_credit_close (hrate : 0 < m.rebasingCreditsPerToken) :
    CloseOn a (m.creditWorth a) (((m.credit a x).addSupply x).credit a y |>.addSupply y)
      ((m.credit a (x + y)).addSupply (x + y)) := by
  have hpos : 0 < m.creditsPerToken a := creditsPerToken_pos hrate a
  have hapart : (((m.credit a x).addSupply x).credit a y |>.addSupply y).balance a =
      worth fullScale (m.creditsPerToken a)
        (m.creditBalances a + m.creditsFor a x + m.creditsFor a y) := by
    change worth fullScale (m.creditsPerToken a) (((m.credit a x).credit a y).creditBalances a) = _
    rw [credit_creditBalances_self, credit_creditBalances_self]
    rfl
  have hjoint : ((m.credit a (x + y)).addSupply (x + y)).balance a =
      worth fullScale (m.creditsPerToken a) (m.creditBalances a + m.creditsFor a (x + y)) := by
    change worth fullScale (m.creditsPerToken a) ((m.credit a (x + y)).creditBalances a) = _
    rw [credit_creditBalances_self]
  have hleast : m.creditsFor a x + m.creditsFor a y ≤ m.creditsFor a (x + y) :=
    shares_add_le x y
  have hmost : m.creditsFor a (x + y) ≤ m.creditsFor a x + m.creditsFor a y + 1 :=
    shares_add_le_succ fullScale_pos x y
  refine ⟨Nat.add_assoc _ _ _, ?_, ?_, ?_, fun z hz => ?_⟩
  · change (if m.Frozen a then (if m.Frozen a then _ else _) + y else
        (if m.Frozen a then _ else _)) = if m.Frozen a then m.nonRebasingSupply + (x + y) else _
    split_ifs
    · exact Nat.add_assoc _ _ _
    · rfl
  · rw [hapart, hjoint]
    exact worth_mono (by omega)
  · rw [hapart, hjoint]
    exact (worth_mono (by omega)).trans (worth_succ_le_ceil hpos _)
  · have hfirst : SameOff a m (m.credit a x) := credit_sameOff
    have hsecond : SameOff a (m.credit a x) ((m.credit a x).credit a y) := credit_sameOff
    have honce : SameOff a m (m.credit a (x + y)) := credit_sameOff
    exact ((hfirst.trans hsecond).balance_eq hz).trans (honce.balance_eq hz).symm

/-- What is left of `k` credits after two burns, and after one of their sum or of one more. -/
theorem leftOver_leftOver {k l₁ l₂ l : ℕ} (hfirst : l₁ ≤ k) (hsecond : l₂ ≤ leftOver k l₁)
    (honce : l ≤ k) (hleast : l₁ + l₂ ≤ l) (hmost : l ≤ l₁ + l₂ + 1) :
    leftOver k l ≤ leftOver (leftOver k l₁) l₂ ∧
      leftOver (leftOver k l₁) l₂ ≤ leftOver k l + 2 := by
  unfold leftOver at *
  split_ifs at * <;> omega

/-- Burning two amounts apart leaves the account what burning their sum does, or two credits
more: one for the rounding, and one that is dropped only where it is left alone. -/
theorem burned_burned_close (hrate : 0 < m.rebasingCreditsPerToken)
    (hfirst : m.creditsFor a x ≤ m.creditBalances a)
    (hsecond : (m.burned a x).creditsFor a y ≤ (m.burned a x).creditBalances a)
    (honce : m.creditsFor a (x + y) ≤ m.creditBalances a) :
    CloseOn a (2 * fullScale ⌈/⌉ m.creditsPerToken a) (m.burned a (x + y))
      ((m.burned a x).burned a y) := by
  have hpos : 0 < m.creditsPerToken a := creditsPerToken_pos hrate a
  have hfor : (m.burned a x).creditsFor a y = m.creditsFor a y := by
    rw [creditsFor, creditsFor, burned_creditsPerToken]
  have hsame : SameOff a m (m.burned a x) := burned_sameOff
  have hsame' : SameOff a (m.burned a x) ((m.burned a x).burned a y) := burned_sameOff
  have honce' : SameOff a m (m.burned a (x + y)) := burned_sameOff
  have hleast : m.creditsFor a x + m.creditsFor a y ≤ m.creditsFor a (x + y) :=
    shares_add_le x y
  have hmost : m.creditsFor a (x + y) ≤ m.creditsFor a x + m.creditsFor a y + 1 :=
    shares_add_le_succ fullScale_pos x y
  have hleft := leftOver_leftOver hfirst
    (by rwa [burned_creditBalances_self hfirst, hfor] at hsecond) honce hleast hmost
  have hapart : ((m.burned a x).burned a y).balance a =
      worth fullScale (m.creditsPerToken a)
        (leftOver (leftOver (m.creditBalances a) (m.creditsFor a x)) (m.creditsFor a y)) := by
    rw [burned_balance_self hsecond, burned_creditsPerToken, burned_creditBalances_self hfirst,
      hfor]
  refine ⟨?_, ?_, ?_, ?_, fun z hz => ?_⟩
  · rw [burned_totalSupply, burned_totalSupply, burned_totalSupply]
    exact (Nat.sub_sub _ _ _).symm
  · rw [burned_nonRebasingSupply, burned_nonRebasingSupply, burned_nonRebasingSupply]
    simp only [burned_frozen]
    split_ifs
    · exact (Nat.sub_sub _ _ _).symm
    · rfl
  · rw [burned_balance_self honce, hapart]
    exact worth_mono hleft.1
  · rw [burned_balance_self honce, hapart]
    exact (worth_mono hleft.2).trans (worth_add_le_ceil hpos _ 2)
  · exact (honce'.balance_eq hz).trans ((hsame.trans hsame').balance_eq hz).symm

end Parts

/-- In every state a run reaches, a mint made in two parts ends with the same supplies as one
of the sum and with a balance that is lower by at most one credit, and a burn made in two parts
with the same supplies and a balance that is higher by at most two. -/
theorem parts_close {vaultAddress : Address} {trace : List (Ledger × (Msg × Call))} {s : Ledger}
    (h : Reached vaultAddress trace s) (msg : Msg) (a : Address) (x y : ℕ) :
    (∀ s₁ s₂ s₃, s.mint msg a x = .ok s₁ → s₁.mint msg a y = .ok s₂ →
        s.mint msg a (x + y) = .ok s₃ →
          CloseOn a (fullScale ⌈/⌉ s.creditsPerToken a) s₂ s₃) ∧
      ∀ s₁ s₂ s₃, s.burn msg a x = .ok s₁ → s₁.burn msg a y = .ok s₂ →
        s.burn msg a (x + y) = .ok s₃ →
          CloseOn a (2 * fullScale ⌈/⌉ s.creditsPerToken a) s₃ s₂ := by
  have hrate : 0 < s.rebasingCreditsPerToken := h.conserved.rate_pos
  have hrate' : 0 < (s.migrate msg.isContract a).rebasingCreditsPerToken := by
    rw [migrate_rate]
    exact hrate
  have hinForce : s.creditsPerToken a = (s.migrate msg.isContract a).creditsPerToken a := by
    rw [migrate_creditsPerToken]
  rw [hinForce]
  constructor
  · intro s₁ s₂ s₃ hx hy hxy
    obtain rfl := mint_eq_credited hx
    obtain rfl := mint_eq_credited hy
    obtain rfl := mint_eq_credited hxy
    have hstay := migrate_again (t := ((s.migrate msg.isContract a).credit a x).addSupply x)
      hrate migrate_rebaseState Iff.rfl
    rw [hstay]
    exact credit_credit_close hrate'
  · intro s₁ s₂ s₃ hx hy hxy
    rcases Nat.eq_zero_or_pos x with rfl | hxpos
    · obtain rfl := burn_zero hx
      rw [Nat.zero_add, hy, Except.ok.injEq] at hxy
      rw [← hxy]
      exact .refl
    rcases Nat.eq_zero_or_pos y with rfl | hypos
    · obtain rfl := burn_zero hy
      rw [Nat.add_zero, hx, Except.ok.injEq] at hxy
      rw [← hxy]
      exact .refl
    obtain ⟨hfirst, rfl⟩ := burn_eq_burned hxpos.ne' hx
    obtain ⟨hsecond, rfl⟩ := burn_eq_burned hypos.ne' hy
    obtain ⟨honce, rfl⟩ := burn_eq_burned (by omega) hxy
    have hstay := migrate_again (t := (s.migrate msg.isContract a).burned a x) hrate
      (burned_rebaseState.trans migrate_rebaseState) burned_frozen
    rw [hstay] at hsecond ⊢
    exact burned_burned_close hrate' hfirst.enough hsecond.enough honce.enough

/-- After a rebase from 4 to 7 tokens, 1 and 1 are minted and burned apart and together. -/
theorem parts_close_rebased :
    ∃ trace s s₁ s₂ s₃ s₄, Reached 9 trace s ∧
      CloseOn 1 (fullScale ⌈/⌉ s.creditsPerToken 1) s₁ s₂ ∧
        CloseOn 1 (2 * fullScale ⌈/⌉ s.creditsPerToken 1) s₃ s₄ := by
  have hcalls : Returns
      (execTrace exec [] (initialized 9)
        [(⟨9, fun _ => false⟩, .mint 1 4), (⟨9, fun _ => false⟩, .changeSupply 7)])
      fun out =>
        Succeeds (out.2.mint ⟨9, fun _ => false⟩ 1 1 >>= (·.mint ⟨9, fun _ => false⟩ 1 1)) ∧
          Succeeds (out.2.mint ⟨9, fun _ => false⟩ 1 (1 + 1)) ∧
            Succeeds (out.2.burn ⟨9, fun _ => false⟩ 1 1 >>= (·.burn ⟨9, fun _ => false⟩ 1 1)) ∧
              Succeeds (out.2.burn ⟨9, fun _ => false⟩ 1 (1 + 1)) := by decide
  obtain ⟨trace, s, hrun, hmints, hmint, hburns, hburn⟩ := reached_of_returns hcalls
  obtain ⟨s₁, hs₁⟩ := succeeds_iff.mp hmints
  obtain ⟨t₁, ht₁, hs₁⟩ := bind_eq_ok.mp hs₁
  obtain ⟨s₂, hs₂⟩ := succeeds_iff.mp hmint
  obtain ⟨s₄, hs₄⟩ := succeeds_iff.mp hburns
  obtain ⟨t₄, ht₄, hs₄⟩ := bind_eq_ok.mp hs₄
  obtain ⟨s₃, hs₃⟩ := succeeds_iff.mp hburn
  have hclose := parts_close hrun ⟨9, fun _ => false⟩ 1 1 1
  exact ⟨trace, s, s₁, s₂, s₃, s₄, hrun, hclose.1 _ _ _ ht₁ hs₁ hs₂,
    hclose.2 _ _ _ ht₄ hs₄ hs₃⟩

end Ledger

end InterestDollar
