import InterestDollar.Token.Ledger

/-!
# The moves of the ledger

Every function of the token is a few moves on one account at a time: freezing
an account's rate, crediting an amount to an account, debiting one from it,
dropping a last credit left by a burn, opting in, and setting the global rate.
A move is total: it says what the storage becomes, and the guards that let the
contract take it are stated separately.

A move on an account leaves the credits and the rate of every other account as
they were; this is `SameOff`.
-/

namespace InterestDollar

namespace Ledger

open FixedPoint

/-- What `balanceOf` returns for an account, where it returns. -/
def balance (s : Ledger) (a : Address) : ℕ :=
  worth fullScale (s.creditsPerToken a) (s.creditBalances a)

/-- The rate of the account is frozen. -/
def Frozen (s : Ledger) (a : Address) : Prop := s.nonRebasingCreditsPerToken a ≠ 0

instance (s : Ledger) (a : Address) : Decidable (s.Frozen a) :=
  inferInstanceAs (Decidable (_ ≠ _))

theorem creditsPerToken_of_frozen {s : Ledger} {a : Address} (h : s.Frozen a) :
    s.creditsPerToken a = s.nonRebasingCreditsPerToken a := if_pos h

theorem creditsPerToken_of_not_frozen {s : Ledger} {a : Address} (h : ¬ s.Frozen a) :
    s.creditsPerToken a = s.rebasingCreditsPerToken := if_neg h

theorem creditsPerToken_pos {s : Ledger} (h : 0 < s.rebasingCreditsPerToken) (a : Address) :
    0 < s.creditsPerToken a := by
  by_cases ha : s.Frozen a
  · rw [creditsPerToken_of_frozen ha]
    exact Nat.pos_of_ne_zero ha
  · rwa [creditsPerToken_of_not_frozen ha]

/-- The credits an amount stands for at the rate in force for an account. -/
def creditsFor (s : Ledger) (a : Address) (v : ℕ) : ℕ :=
  shares fullScale (s.creditsPerToken a) v

/-- Freezes the rate of an account at the global one. -/
def freeze (s : Ledger) (a : Address) : Ledger :=
  { s.setFrozenRate a s.rebasingCreditsPerToken with
    nonRebasingSupply := s.nonRebasingSupply + s.balance a
    rebasingCredits := s.rebasingCredits - s.creditBalances a }

/-- A contract that has not chosen and is not frozen yet. -/
def NeedsMigration (isContract : Address → Bool) (s : Ledger) (a : Address) : Prop :=
  isContract a = true ∧ s.rebaseState a = .notSet ∧ ¬ s.Frozen a

instance (isContract : Address → Bool) (s : Ledger) (a : Address) :
    Decidable (s.NeedsMigration isContract a) :=
  inferInstanceAs (Decidable (_ ∧ _ ∧ _))

/-- The implicit migration of a contract that has not chosen. -/
def migrate (isContract : Address → Bool) (s : Ledger) (a : Address) : Ledger :=
  if s.NeedsMigration isContract a then s.freeze a else s

/-- The account is frozen once it has been migrated. -/
def NonRebasing (isContract : Address → Bool) (s : Ledger) (a : Address) : Prop :=
  s.Frozen a ∨ s.NeedsMigration isContract a

instance (isContract : Address → Bool) (s : Ledger) (a : Address) :
    Decidable (s.NonRebasing isContract a) :=
  inferInstanceAs (Decidable (_ ∨ _))

/-- Adds the credits an amount stands for to an account and to the tallies. -/
def credit (s : Ledger) (a : Address) (v : ℕ) : Ledger :=
  { s with
    creditBalances := Function.update s.creditBalances a (s.creditBalances a + s.creditsFor a v)
    nonRebasingSupply := if s.Frozen a then s.nonRebasingSupply + v else s.nonRebasingSupply
    rebasingCredits :=
      if s.Frozen a then s.rebasingCredits else s.rebasingCredits + s.creditsFor a v }

/-- Takes the credits an amount stands for from an account and from the tallies. -/
def debit (s : Ledger) (a : Address) (v : ℕ) : Ledger :=
  { s with
    creditBalances := Function.update s.creditBalances a (s.creditBalances a - s.creditsFor a v)
    nonRebasingSupply := if s.Frozen a then s.nonRebasingSupply - v else s.nonRebasingSupply
    rebasingCredits :=
      if s.Frozen a then s.rebasingCredits else s.rebasingCredits - s.creditsFor a v }

/-- Drops the credit of an account that holds just one. -/
def dropDust (s : Ledger) (a : Address) : Ledger :=
  if s.creditBalances a = 1 then s.setCredits a 0 else s

/-- Adds to the total supply. -/
def addSupply (s : Ledger) (v : ℕ) : Ledger := { s with totalSupply := s.totalSupply + v }

/-- Takes from the total supply. -/
def subSupply (s : Ledger) (v : ℕ) : Ledger := { s with totalSupply := s.totalSupply - v }

/-- Carries the credits of a frozen account over to the global rate. -/
def convertedCredits (s : Ledger) (a : Address) : ℕ :=
  s.creditBalances a * s.rebasingCreditsPerToken / s.creditsPerToken a

/-- Lets a frozen account take part in rebases again. -/
def optIn (s : Ledger) (a : Address) : Ledger :=
  { s with
    creditBalances := Function.update s.creditBalances a (s.convertedCredits a)
    nonRebasingSupply := s.nonRebasingSupply - s.balance a
    rebasingCredits := s.rebasingCredits + s.convertedCredits a
    rebaseState := Function.update s.rebaseState a .optIn
    nonRebasingCreditsPerToken := Function.update s.nonRebasingCreditsPerToken a 0 }

/-- Freezes a rebasing account on its own wish. -/
def optOut (s : Ledger) (a : Address) : Ledger :=
  { s.freeze a with rebaseState := Function.update s.rebaseState a .optOut }

/-- The rate at which all rebasing credits are worth `tokens`, rounded down. -/
def rateFor (s : Ledger) (tokens : ℕ) : ℕ := worth fullScale tokens s.rebasingCredits

/-- Sets the global rate, and the total supply that goes with it. -/
def setRate (s : Ledger) (rate : ℕ) : Ledger :=
  { s with
    totalSupply := worth fullScale rate s.rebasingCredits + s.nonRebasingSupply
    rebasingCreditsPerToken := rate }

/-- Two ledgers with the same global rate and, off one account, the same
credits and frozen rates. -/
structure SameOff (a : Address) (s s' : Ledger) : Prop where
  rate : s'.rebasingCreditsPerToken = s.rebasingCreditsPerToken
  credits : ∀ x, x ≠ a → s'.creditBalances x = s.creditBalances x
  frozenRate : ∀ x, x ≠ a → s'.nonRebasingCreditsPerToken x = s.nonRebasingCreditsPerToken x

theorem SameOff.trans {a : Address} {s s' s'' : Ledger} (h : SameOff a s s')
    (h' : SameOff a s' s'') : SameOff a s s'' where
  rate := h'.rate.trans h.rate
  credits := fun x hx => (h'.credits x hx).trans (h.credits x hx)
  frozenRate := fun x hx => (h'.frozenRate x hx).trans (h.frozenRate x hx)

theorem SameOff.balance_eq {a : Address} {s s' : Ledger} (h : SameOff a s s') {x : Address}
    (hx : x ≠ a) : s'.balance x = s.balance x := by
  simp only [balance, creditsPerToken, h.rate, h.credits x hx, h.frozenRate x hx]

section Fields

variable {isContract : Address → Bool} {s : Ledger} {a x : Address} {v : ℕ}

@[simp] theorem freeze_creditBalances : (s.freeze a).creditBalances = s.creditBalances := rfl

theorem freeze_sameOff : SameOff a s (s.freeze a) where
  rate := rfl
  credits := fun _ _ => rfl
  frozenRate := fun _ hx => Function.update_of_ne hx _ _

/-- Freezing an account at the global rate leaves the rate in force for it. -/
theorem setFrozenRate_creditsPerToken (h : ¬ s.Frozen a) :
    (s.setFrozenRate a s.rebasingCreditsPerToken).creditsPerToken = s.creditsPerToken := by
  funext x
  by_cases hx : x = a
  · subst hx
    rw [creditsPerToken_of_not_frozen h]
    by_cases hr : s.rebasingCreditsPerToken = 0
    · simp [creditsPerToken, setFrozenRate, hr]
    · simp [creditsPerToken, setFrozenRate]
  · simp [creditsPerToken, setFrozenRate, Function.update_of_ne hx]

theorem freeze_creditsPerToken (h : ¬ s.Frozen a) :
    (s.freeze a).creditsPerToken = s.creditsPerToken :=
  setFrozenRate_creditsPerToken h

theorem freeze_balance (h : ¬ s.Frozen a) : (s.freeze a).balance = s.balance := by
  funext x
  simp [balance, freeze_creditsPerToken h]

theorem freeze_frozen (hrate : 0 < s.rebasingCreditsPerToken) : (s.freeze a).Frozen a := by
  simp [Frozen, freeze, setFrozenRate, hrate.ne']

@[simp] theorem migrate_totalSupply : (s.migrate isContract a).totalSupply = s.totalSupply := by
  unfold migrate
  split_ifs <;> rfl

@[simp] theorem migrate_creditBalances :
    (s.migrate isContract a).creditBalances = s.creditBalances := by
  unfold migrate
  split_ifs <;> rfl

@[simp] theorem migrate_rate :
    (s.migrate isContract a).rebasingCreditsPerToken = s.rebasingCreditsPerToken := by
  unfold migrate
  split_ifs <;> rfl

@[simp] theorem migrate_creditsPerToken :
    (s.migrate isContract a).creditsPerToken = s.creditsPerToken := by
  unfold migrate
  split_ifs with h
  · exact freeze_creditsPerToken h.2.2
  · rfl

@[simp] theorem migrate_balance : (s.migrate isContract a).balance = s.balance := by
  funext x
  simp [balance]

theorem migrate_sameOff : SameOff a s (s.migrate isContract a) := by
  unfold migrate
  split_ifs
  · exact freeze_sameOff
  · exact ⟨rfl, fun _ _ => rfl, fun _ _ => rfl⟩

theorem migrate_of_frozen (h : s.Frozen a) : s.migrate isContract a = s :=
  if_neg fun hm => hm.2.2 h

@[simp] theorem migrate_rebaseState :
    (s.migrate isContract a).rebaseState = s.rebaseState := by
  unfold migrate
  split_ifs <;> rfl

theorem migrate_frozen (hrate : 0 < s.rebasingCreditsPerToken) :
    (s.migrate isContract a).Frozen a ↔ s.NonRebasing isContract a := by
  unfold migrate NonRebasing
  split_ifs with hm
  · exact iff_of_true (freeze_frozen hrate) (.inr hm)
  · simp [hm]

theorem migrate_frozen_of_ne (hx : x ≠ a) :
    (s.migrate isContract a).Frozen x ↔ s.Frozen x := by
  unfold migrate
  split_ifs
  · simp only [Frozen, freeze_sameOff.frozenRate x hx]
  · exact Iff.rfl

theorem migrate_nonRebasing_of_ne (hx : x ≠ a) :
    (s.migrate isContract a).NonRebasing isContract x ↔ s.NonRebasing isContract x := by
  simp only [NonRebasing, NeedsMigration, migrate_frozen_of_ne hx, migrate_rebaseState]

theorem credit_sameOff : SameOff a s (s.credit a v) where
  rate := rfl
  credits := fun _ hx => Function.update_of_ne hx _ _
  frozenRate := fun _ _ => rfl

@[simp] theorem credit_totalSupply : (s.credit a v).totalSupply = s.totalSupply := rfl

@[simp] theorem credit_creditsPerToken :
    (s.credit a v).creditsPerToken = s.creditsPerToken := rfl

@[simp] theorem credit_frozen : (s.credit a v).Frozen x ↔ s.Frozen x := Iff.rfl

theorem credit_creditBalances_self :
    (s.credit a v).creditBalances a = s.creditBalances a + s.creditsFor a v :=
  Function.update_self _ _ _

theorem credit_of_frozen (h : s.Frozen a) :
    s.credit a v = { s with
      creditBalances := Function.update s.creditBalances a (s.creditBalances a + s.creditsFor a v)
      nonRebasingSupply := s.nonRebasingSupply + v } := by
  simp only [credit, if_pos h]

theorem credit_of_not_frozen (h : ¬ s.Frozen a) :
    s.credit a v = { s with
      creditBalances := Function.update s.creditBalances a (s.creditBalances a + s.creditsFor a v)
      rebasingCredits := s.rebasingCredits + s.creditsFor a v } := by
  simp only [credit, if_neg h]

theorem debit_of_frozen (h : s.Frozen a) :
    s.debit a v = { s with
      creditBalances := Function.update s.creditBalances a (s.creditBalances a - s.creditsFor a v)
      nonRebasingSupply := s.nonRebasingSupply - v } := by
  simp only [debit, if_pos h]

theorem debit_of_not_frozen (h : ¬ s.Frozen a) :
    s.debit a v = { s with
      creditBalances := Function.update s.creditBalances a (s.creditBalances a - s.creditsFor a v)
      rebasingCredits := s.rebasingCredits - s.creditsFor a v } := by
  simp only [debit, if_neg h]

theorem debit_sameOff : SameOff a s (s.debit a v) where
  rate := rfl
  credits := fun _ hx => Function.update_of_ne hx _ _
  frozenRate := fun _ _ => rfl

@[simp] theorem debit_totalSupply : (s.debit a v).totalSupply = s.totalSupply := rfl

@[simp] theorem debit_creditsPerToken :
    (s.debit a v).creditsPerToken = s.creditsPerToken := rfl

@[simp] theorem debit_frozen : (s.debit a v).Frozen x ↔ s.Frozen x := Iff.rfl

theorem debit_creditBalances_self :
    (s.debit a v).creditBalances a = s.creditBalances a - s.creditsFor a v :=
  Function.update_self _ _ _

theorem setCredits_sameOff {k : ℕ} : SameOff a s (s.setCredits a k) where
  rate := rfl
  credits := fun _ hx => Function.update_of_ne hx _ _
  frozenRate := fun _ _ => rfl

theorem setCredits_creditBalances_self {k : ℕ} : (s.setCredits a k).creditBalances a = k :=
  Function.update_self _ _ _

@[simp] theorem dropDust_totalSupply : (s.dropDust a).totalSupply = s.totalSupply := by
  unfold dropDust
  split_ifs <;> rfl

@[simp] theorem dropDust_rebasingCredits :
    (s.dropDust a).rebasingCredits = s.rebasingCredits := by
  unfold dropDust
  split_ifs <;> rfl

@[simp] theorem dropDust_nonRebasingSupply :
    (s.dropDust a).nonRebasingSupply = s.nonRebasingSupply := by
  unfold dropDust
  split_ifs <;> rfl

@[simp] theorem dropDust_rate :
    (s.dropDust a).rebasingCreditsPerToken = s.rebasingCreditsPerToken := by
  unfold dropDust
  split_ifs <;> rfl

theorem optIn_sameOff : SameOff a s (s.optIn a) where
  rate := rfl
  credits := fun _ hx => Function.update_of_ne hx _ _
  frozenRate := fun _ hx => Function.update_of_ne hx _ _

theorem optIn_not_frozen : ¬ (s.optIn a).Frozen a := by
  simp [Frozen, optIn]

@[simp] theorem setRate_frozen {rate : ℕ} : (s.setRate rate).Frozen x ↔ s.Frozen x := Iff.rfl

/-- The global rate does not matter to a frozen account. -/
theorem setRate_balance_of_frozen {rate : ℕ} (hx : s.Frozen x) :
    (s.setRate rate).balance x = s.balance x := by
  rw [balance, balance, creditsPerToken_of_frozen hx,
    creditsPerToken_of_frozen (setRate_frozen.mpr hx)]
  rfl

end Fields

end Ledger

end InterestDollar
