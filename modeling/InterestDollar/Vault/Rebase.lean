import InterestDollar.Token.Movement
import InterestDollar.Vault.Registry

/-!
# Rebases of the vault

Two things about a rebase of the vault: that it takes nothing from any holder, and
that it goes through. The first holds in every run whose calls of the token tally
in full. The second depends on the split of the supply: the code refuses a rebase
that would leave the rebasing credits at rate zero, and a fee that would reach the
maximal supply, and where neither guard is met a rebase goes through.
-/

namespace InterestDollar

open Checked FixedPoint Transition

namespace System

variable {ω : Type} {W : World ω} {s s' : System ω} {self governor priceProvider : Address}
  {world : ω} {trace : List (System ω × (Address × Action ω))}

/-! ## Nothing is taken -/

/-- Where the calls of the token before a recorded rebase tally in full, the rebase takes
nothing from any account, unless the supply is raised from its cap on. The last call is
recorded first, so that the calls before the rebase end the list. -/
theorem rebases_take_nothing (h : Reached W self governor priceProvider world trace s) :
    ∀ r ∈ s.rebases, ∃ calls, calls <:+ s.ousdCalls ∧
      Ledger.Reached s.vault.self calls r.before ∧
        ((∀ e ∈ calls, e.1.TalliesInFull e.2) →
          r.vaultValue ≤ r.before.totalSupply ∨ r.before.totalSupply < maxSupply →
            ∀ a, r.before.balance a ≤ r.after.balance a) := by
  intro r hr
  obtain ⟨hrebased, calls, hreached, hearlier⟩ := h.sound.recorded.rebases r hr
  refine ⟨calls, hearlier, hreached, fun hfull hcap a => ?_⟩
  have hwithin : r.before.WithinSupply := hreached.withinSupply hfull
  exact hwithin.rebased_balance_ge hreached.conserved hcap hrebased a

/-- A mint, a gain and a rebase, with a contract among the holders. -/
theorem rebases_take_nothing_gain :
    ∃ trace s, Reached PlainWorld.calls 9 8 7
        (((PlainWorld.empty [2] [5]).give 5 1 2).give 5 2 1) trace s ∧
      s.ousd.balance 1 = 4 ∧ ∃ r ∈ s.rebases, r.before.balance 1 = 2 ∧
        r.before.balance 1 ≤ r.after.balance 1 := by
  have hsteps : Returns
      (execTrace (execFrom PlainWorld.calls) []
        (initialized 9 8 7 (((PlainWorld.empty [2] [5]).give 5 1 2).give 5 2 1))
        [(8, .supportAsset 5), (8, .unpauseCapital), (1, .mint 5 2 0), (2, .mint 5 1 0),
          (3, .environment ((PlainWorld.empty [2] [5]).give 5 9 5)), (3, .rebase)])
      fun out => out.2.ousd.balance 1 = 4 ∧ (∀ e ∈ out.2.ousdCalls, e.1.TalliesInFull e.2) ∧
        ∃ r ∈ out.2.rebases, r.before.balance 1 = 2 ∧ r.before.totalSupply < maxSupply := by
    decide
  obtain ⟨trace, s, hrun, hbalance, hfull, r, hr, hbefore, hcap⟩ := reached_of_returns hsteps
  obtain ⟨calls, hearlier, -, hnothing⟩ := rebases_take_nothing hrun r hr
  exact ⟨trace, s, hrun, hbalance, r, hr, hbefore,
    hnothing (fun e he => hfull e (hearlier.mem he)) (.inr hcap) 1⟩

/-- Two transfers of 1 that take no credits from the sender leave the tallies above
the supply, and the next rebase lowers a balance from 4 to 3. -/
theorem rebase_takes :
    ∃ trace s, Reached PlainWorld.calls 9 8 7
        (((PlainWorld.empty [2] [5]).give 5 1 2).give 5 2 1) trace s ∧
      ∃ r ∈ s.rebases, r.before.balance 1 = 4 ∧ r.after.balance 1 = 3 := by
  have hsteps : Returns
      (execTrace (execFrom PlainWorld.calls) []
        (initialized 9 8 7 (((PlainWorld.empty [2] [5]).give 5 1 2).give 5 2 1))
        [(8, .supportAsset 5), (8, .unpauseCapital), (1, .mint 5 2 0), (2, .mint 5 1 0),
          (3, .environment ((PlainWorld.empty [2] [5]).give 5 9 5)), (3, .rebase),
          (1, .ousd (.transfer 2 1)), (1, .ousd (.transfer 2 1)),
          (3, .environment ((PlainWorld.empty [2] [5]).give 5 9 6)), (3, .rebase)])
      fun out => ∃ r ∈ out.2.rebases, r.before.balance 1 = 4 ∧ r.after.balance 1 = 3 := by
    decide
  obtain ⟨trace, s, hrun, r, hr, hbefore, hafter⟩ := reached_of_returns hsteps
  exact ⟨trace, s, hrun, r, hr, hbefore, hafter⟩

/-! ## Rebases go through -/

/-- The fee a rebase for a value mints. -/
def feeFor (s : System ω) (vaultValue : ℕ) : ℕ :=
  if s.vault.trusteeAddress ≠ 0 then
    (vaultValue - s.ousd.totalSupply) * s.vault.trusteeFeeBps / 10000
  else 0

/-- The ledger after that fee. -/
def afterFee (W : World ω) (s : System ω) (vaultValue : ℕ) : Ledger :=
  if 0 < s.feeFor vaultValue then
    ((s.ousd.migrate (W.isContract s.world) s.vault.trusteeAddress).credit
      s.vault.trusteeAddress (s.feeFor vaultValue)).addSupply (s.feeFor vaultValue)
  else s.ousd

/-- The products and sums of a rebase fit into words. -/
structure RebaseWords (W : World ω) (s : System ω) (vaultValue : ℕ) : Prop where
  yield : (vaultValue - s.ousd.totalSupply) * s.vault.trusteeFeeBps < wordBound
  migrate : s.ousd.MigrationWords (W.isContract s.world) s.vault.trusteeAddress
  credited :
    s.feeFor vaultValue * s.ousd.creditsPerToken s.vault.trusteeAddress < wordBound
  received : s.ousd.creditBalances s.vault.trusteeAddress +
    s.ousd.creditsFor s.vault.trusteeAddress (s.feeFor vaultValue) < wordBound
  frozenTally : (s.ousd.migrate (W.isContract s.world) s.vault.trusteeAddress).nonRebasingSupply +
    s.feeFor vaultValue < wordBound
  rebasingTally : (s.ousd.migrate (W.isContract s.world) s.vault.trusteeAddress).rebasingCredits +
    s.ousd.creditsFor s.vault.trusteeAddress (s.feeFor vaultValue) < wordBound
  credits : (s.afterFee W vaultValue).rebasingCredits * fullScale < wordBound

instance (W : World ω) (s : System ω) (vaultValue : ℕ) :
    Decidable (RebaseWords W s vaultValue) :=
  decidable_of_iff
    ((vaultValue - s.ousd.totalSupply) * s.vault.trusteeFeeBps < wordBound ∧
      s.ousd.MigrationWords (W.isContract s.world) s.vault.trusteeAddress ∧
        s.feeFor vaultValue * s.ousd.creditsPerToken s.vault.trusteeAddress < wordBound ∧
          s.ousd.creditBalances s.vault.trusteeAddress +
            s.ousd.creditsFor s.vault.trusteeAddress (s.feeFor vaultValue) < wordBound ∧
            (s.ousd.migrate (W.isContract s.world) s.vault.trusteeAddress).nonRebasingSupply +
              s.feeFor vaultValue < wordBound ∧
              (s.ousd.migrate (W.isContract s.world) s.vault.trusteeAddress).rebasingCredits +
                s.ousd.creditsFor s.vault.trusteeAddress (s.feeFor vaultValue) < wordBound ∧
                (s.afterFee W vaultValue).rebasingCredits * fullScale < wordBound)
    ⟨fun ⟨h1, h2, h3, h4, h5, h6, h7⟩ => ⟨h1, h2, h3, h4, h5, h6, h7⟩,
      fun ⟨h1, h2, h3, h4, h5, h6, h7⟩ => ⟨h1, h2, h3, h4, h5, h6, h7⟩⟩

/-- The two guards of the code leave a rebase through: the supply with the fee is
below the cap, and the rebasing credits are enough for the supply they are to
stand for. -/
structure RebaseAllowed (W : World ω) (s : System ω) (vaultValue : ℕ) : Prop where
  belowCap : s.ousd.totalSupply + s.feeFor vaultValue < maxSupply
  enoughCredits :
    Ledger.cappedSupply vaultValue - (s.afterFee W vaultValue).nonRebasingSupply ≤
      (s.afterFee W vaultValue).rebasingCredits * fullScale

instance (W : World ω) (s : System ω) (vaultValue : ℕ) :
    Decidable (RebaseAllowed W s vaultValue) :=
  decidable_of_iff
    (s.ousd.totalSupply + s.feeFor vaultValue < maxSupply ∧
      Ledger.cappedSupply vaultValue - (s.afterFee W vaultValue).nonRebasingSupply ≤
        (s.afterFee W vaultValue).rebasingCredits * fullScale)
    ⟨fun ⟨hcap, hcredits⟩ => ⟨hcap, hcredits⟩, fun ⟨hcap, hcredits⟩ => ⟨hcap, hcredits⟩⟩

theorem callOusd_of_exec {sender : Address} {call : Ledger.Call} {l : Ledger}
    (h : s.ousd.exec (⟨sender, W.isContract s.world⟩, call) = .ok l) :
    ∃ s', s.callOusd W sender call = .ok s' ∧ s'.ousd = l :=
  ⟨_, callOusd_eq_ok.mpr ⟨l, h, rfl⟩, rfl⟩

/-- The fee of a rebase is less than the yield. -/
theorem feeFor_lt_yield {vaultValue : ℕ} (hfee : s.vault.trusteeFeeBps ≤ 5000)
    (hlt : s.ousd.totalSupply < vaultValue) :
    s.feeFor vaultValue < vaultValue - s.ousd.totalSupply := by
  have hpos : 0 < vaultValue - s.ousd.totalSupply := Nat.sub_pos_of_lt hlt
  have hhalf : (vaultValue - s.ousd.totalSupply) * s.vault.trusteeFeeBps <
      (vaultValue - s.ousd.totalSupply) * 10000 :=
    Nat.mul_lt_mul_of_pos_left (by omega) hpos
  unfold feeFor
  split_ifs
  · refine Nat.div_lt_of_lt_mul ?_
    rw [Nat.mul_comm 10000]
    exact hhalf
  · exact hpos

/-- Where there is yield and a trustee, the fee part mints the fee, unless it is zero. -/
theorem collectFee_of_yield {vaultValue : ℕ} (htrustee : s.vault.trusteeAddress ≠ 0)
    (hfee : s.vault.trusteeFeeBps ≤ 5000) (hlt : s.ousd.totalSupply < vaultValue)
    (hword : (vaultValue - s.ousd.totalSupply) * s.vault.trusteeFeeBps < wordBound) :
    s.collectFee W vaultValue s.ousd.totalSupply =
      if 0 < s.feeFor vaultValue then
        s.callOusd W s.vault.self (.mint s.vault.trusteeAddress (s.feeFor vaultValue))
      else .ok s := by
  have hfeeFor : (vaultValue - s.ousd.totalSupply) * s.vault.trusteeFeeBps / 10000 =
      s.feeFor vaultValue := (if_pos htrustee).symm
  have hyield : SafeMath.sub .memory vaultValue s.ousd.totalSupply =
      .ok (vaultValue - s.ousd.totalSupply) := if_pos hlt.le
  have hproduct : SafeMath.mul (vaultValue - s.ousd.totalSupply) s.vault.trusteeFeeBps =
      .ok ((vaultValue - s.ousd.totalSupply) * s.vault.trusteeFeeBps) := if_pos hword
  have hless : require (s.feeFor vaultValue < vaultValue - s.ousd.totalSupply)
      "Fee must not be greater than yield" = .ok () :=
    require_eq_ok.mpr (feeFor_lt_yield hfee hlt)
  have hdiv : SafeMath.div ((vaultValue - s.ousd.totalSupply) * s.vault.trusteeFeeBps) 10000 =
      .ok (s.feeFor vaultValue) := by
    rw [← hfeeFor]
    rfl
  rw [collectFee, if_pos ⟨htrustee, hlt⟩, hyield]
  simp only [bind, Except.bind, hproduct, hdiv, hless]
  rfl

theorem collectFee_succeeds {n vaultValue : ℕ} (hc : Ledger.Conserved n s.ousd)
    (hvault : s.ousd.vaultAddress = s.vault.self) (hfee : s.vault.trusteeFeeBps ≤ 5000)
    (hlt : s.ousd.totalSupply < vaultValue) (hw : RebaseWords W s vaultValue)
    (hcap : s.ousd.totalSupply + s.feeFor vaultValue < maxSupply) :
    ∃ s₁, s.collectFee W vaultValue s.ousd.totalSupply = .ok s₁ ∧
      s₁.ousd = s.afterFee W vaultValue := by
  by_cases htrustee : s.vault.trusteeAddress = 0
  · refine ⟨s, ?_, ?_⟩
    · simp [collectFee, htrustee, pure, Except.pure]
    · simp [afterFee, feeFor, htrustee]
  rw [collectFee_of_yield htrustee hfee hlt hw.yield]
  by_cases hpos : 0 < s.feeFor vaultValue
  · have hmint : s.ousd.exec (⟨s.vault.self, W.isContract s.world⟩,
        .mint s.vault.trusteeAddress (s.feeFor vaultValue)) = .ok (s.afterFee W vaultValue) := by
      refine Ledger.mint_eq_ok.mpr ⟨hvault, Ledger.mintTo_eq_ok.mpr
        ⟨htrustee, hc.migrationFits hw.migrate, ?_, if_pos hpos⟩⟩
      have hfor : ∀ v, (s.ousd.migrate (W.isContract s.world)
          s.vault.trusteeAddress).creditsFor s.vault.trusteeAddress v =
            s.ousd.creditsFor s.vault.trusteeAddress v := by
        intro v
        rw [Ledger.creditsFor, Ledger.creditsFor, Ledger.migrate_creditsPerToken]
      refine ⟨?_, ?_, fun _ => hw.frozenTally, fun _ => ?_, ?_⟩
      · rw [Ledger.migrate_creditsPerToken]
        exact hw.credited
      · rw [hfor, Ledger.migrate_creditBalances]
        exact hw.received
      · rw [hfor]
        exact hw.rebasingTally
      · rw [Ledger.migrate_totalSupply]
        exact hcap
    rw [if_pos hpos]
    exact callOusd_of_exec hmint
  · rw [if_neg hpos]
    exact ⟨s, rfl, (if_neg hpos).symm⟩

/-- A raise of the supply goes through where the tallies are within it, it is below
its cap, and the rebasing credits are enough. -/
theorem changeSupply_succeeds {l : Ledger} {msg : Msg} {newTotalSupply : ℕ}
    (hvault : l.vaultAddress = msg.sender) (hpos : 0 < l.totalSupply) (hw : l.WithinSupply)
    (hlt : l.totalSupply < newTotalSupply) (hcap : l.totalSupply < maxSupply)
    (hword : l.rebasingCredits * fullScale < wordBound)
    (henough : Ledger.cappedSupply newTotalSupply - l.nonRebasingSupply ≤
      l.rebasingCredits * fullScale) :
    l.changeSupply msg newTotalSupply =
      .ok (l.setRate (l.rebasedRate newTotalSupply)) := by
  have htarget : l.totalSupply < Ledger.cappedSupply newTotalSupply := lt_min hlt hcap
  have hfrozen : l.nonRebasingSupply ≤ l.totalSupply :=
    (Nat.le_add_left _ _).trans (show l.represented ≤ l.totalSupply from hw)
  have hleft : 0 < Ledger.cappedSupply newTotalSupply - l.nonRebasingSupply := by omega
  have hrate : 0 < l.rebasedRate newTotalSupply := Nat.div_pos henough hleft
  refine Ledger.changeSupply_eq_ok.mpr ⟨hvault, hpos, .inr ⟨hlt.ne, ?_, rfl⟩⟩
  refine ⟨hfrozen.trans htarget.le, hword, hleft, hrate, ?_⟩
  have hbound : worth fullScale (l.rebasedRate newTotalSupply) l.rebasingCredits <
      2 * (Ledger.cappedSupply newTotalSupply - l.nonRebasingSupply) := worth_at_rate_lt hrate
  have hmax : Ledger.cappedSupply newTotalSupply ≤ maxSupply := min_le_right _ _
  have hwide : 3 * maxSupply < wordBound := by
    unfold maxSupply wordBound
    norm_num
  omega

/-- Where the tallies are within the supply and no word overflows, a rebase goes
through unless one of its two guards stops it. -/
theorem rebaseSupply_succeeds {vaultValue : ℕ} (h : Sound s)
    (hpaused : s.vault.rebasePaused = false) (hvalue : s.totalValue W = .ok vaultValue)
    (hwithin : s.ousd.WithinSupply)
    (hgo : s.ousd.totalSupply < vaultValue →
      RebaseWords W s vaultValue ∧ RebaseAllowed W s vaultValue) :
    Succeeds (s.rebaseSupply W) := by
  have hc := h.recorded.ledger.conserved
  have hvault := h.recorded.ledger.vaultAddress
  rw [succeeds_iff]
  by_cases hzero : s.ousd.totalSupply = 0
  · exact ⟨s, rebaseSupply_eq_ok.mpr ⟨hpaused, .inl ⟨hzero, rfl⟩⟩⟩
  by_cases hlt : s.ousd.totalSupply < vaultValue
  · obtain ⟨hw, hallowed⟩ := hgo hlt
    obtain ⟨s₁, hfee, hled⟩ :=
      collectFee_succeeds hc hvault h.fee hlt hw hallowed.belowCap
    have hrecorded := h.recorded.collectFee hfee
    have hself : s₁.vault = s.vault := collectFee_vault hfee
    have hsupply : s₁.ousd.totalSupply = s.ousd.totalSupply + s.feeFor vaultValue := by
      rw [hled, afterFee]
      split_ifs with hpos
      · exact congrArg (· + s.feeFor vaultValue) Ledger.migrate_totalSupply
      · omega
    have hwithin₁ : s₁.ousd.WithinSupply := by
      rcases collectFee_eq_ok hfee with heq | ⟨-, fee, hmint⟩
      · rw [heq]
        exact hwithin
      · obtain ⟨_, hexec, rfl⟩ := callOusd_eq_ok.mp hmint
        exact hwithin.mintTo hc (Ledger.mint_eq_ok.mp hexec).2
    have hless := feeFor_lt_yield h.fee hlt
    have hbelow : s₁.ousd.totalSupply < vaultValue := by omega
    have hchange : s₁.ousd.exec (⟨s₁.vault.self, W.isContract s₁.world⟩,
        .changeSupply vaultValue) = .ok _ :=
      changeSupply_succeeds hrecorded.ledger.vaultAddress (by omega) hwithin₁ hbelow
        (hsupply ▸ hallowed.belowCap) (hled ▸ hw.credits) (hled ▸ hallowed.enoughCredits)
    obtain ⟨s₂, hs₂, -⟩ := callOusd_of_exec hchange
    have hratchet : s₁.ratchetSupply W vaultValue = .ok s₂ := by
      rw [ratchetSupply, if_pos hbelow]
      exact hs₂
    exact ⟨_, rebaseSupply_eq_ok.mpr
      ⟨hpaused, .inr ⟨hzero, vaultValue, hvalue, s₁, hfee, s₂, hratchet, rfl⟩⟩⟩
  · have hfee : s.collectFee W vaultValue s.ousd.totalSupply = .ok s := by
      rw [collectFee, if_neg fun hyield => hlt hyield.2]
      rfl
    have hratchet : s.ratchetSupply W vaultValue = .ok s := by
      rw [ratchetSupply, if_neg hlt]
      rfl
    exact ⟨_, rebaseSupply_eq_ok.mpr
      ⟨hpaused, .inr ⟨hzero, vaultValue, hvalue, s, hfee, s, hratchet, rfl⟩⟩⟩

/-- In every reachable system, and wherever a function of the vault gets to from
one, a rebase goes through if the total value can be told, the tallies are within
the supply and no word overflows, unless the supply is to be raised and one of the
two guards stops it. -/
theorem rebase_goes_through {s₀ : System ω} {vaultValue : ℕ}
    (h : Reached W self governor priceProvider world trace s₀) (hsmall : Small W s₀ s)
    (hpaused : s.vault.rebasePaused = false) (hvalue : s.totalValue W = .ok vaultValue)
    (hwithin : s.ousd.WithinSupply)
    (hgo : s.ousd.totalSupply < vaultValue →
      RebaseWords W s vaultValue ∧ RebaseAllowed W s vaultValue) :
    Succeeds (s.rebaseSupply W) ∧ Succeeds (s.rebase W) := by
  have hsucceeds := rebaseSupply_succeeds (h.sound.small hsmall) hpaused hvalue hwithin hgo
  refine ⟨hsucceeds, ?_⟩
  obtain ⟨s', hs'⟩ := succeeds_iff.mp hsucceeds
  refine succeeds_iff.mpr ⟨s', bind_eq_ok.mpr ⟨(), ?_, hs'⟩⟩
  exact require_eq_ok.mpr hpaused

/-- A gain of 100 on 1000, a tenth of which goes to the trustee. -/
theorem rebase_goes_through_fee :
    ∃ trace s, Reached PlainWorld.calls 9 8 7 ((PlainWorld.empty [] [5]).give 5 1 1000) trace s ∧
      s.feeFor 1100 = 10 ∧ Succeeds (s.rebase PlainWorld.calls) := by
  have hsteps : Returns
      (execTrace (execFrom PlainWorld.calls) []
        (initialized 9 8 7 ((PlainWorld.empty [] [5]).give 5 1 1000))
        [(8, .supportAsset 5), (8, .unpauseCapital), (8, .configure (.trusteeAddress 4)),
          (8, .setTrusteeFeeBps 1000), (1, .mint 5 1000 0),
          (3, .environment ((PlainWorld.empty [] [5]).give 5 9 1100))])
      fun out => out.2.feeFor 1100 = 10 ∧ out.2.vault.rebasePaused = false ∧
        Returns (out.2.totalValue PlainWorld.calls) (· = 1100) ∧
          out.2.ousd.represented ≤ out.2.ousd.totalSupply ∧
            RebaseWords PlainWorld.calls out.2 1100 ∧
              RebaseAllowed PlainWorld.calls out.2 1100 := by decide
  obtain ⟨trace, s, hrun, hfee, hpaused, ⟨value, hvalue, rfl⟩, hwithin, hwords, hallowed⟩ :=
    reached_of_returns hsteps
  exact ⟨trace, s, hrun, hfee,
    (rebase_goes_through hrun .refl hpaused hvalue hwithin fun _ => ⟨hwords, hallowed⟩).2⟩

/-- Where every holder is a contract that does not rebase, a gain cannot be given
out, and the rebase is refused. -/
theorem rebase_refused :
    ∃ trace s, Reached PlainWorld.calls 9 8 7 ((PlainWorld.empty [2] [5]).give 5 2 1) trace s ∧
      s.vault.rebasePaused = false ∧ Succeeds (s.totalValue PlainWorld.calls) ∧
        s.rebase PlainWorld.calls = .error (.require "Invalid change in supply") := by
  have hsteps : Returns
      (execTrace (execFrom PlainWorld.calls) []
        (initialized 9 8 7 ((PlainWorld.empty [2] [5]).give 5 2 1))
        [(8, .supportAsset 5), (8, .unpauseCapital), (2, .mint 5 1 0),
          (3, .environment ((PlainWorld.empty [2] [5]).give 5 9 2))])
      fun out => out.2.vault.rebasePaused = false ∧
        Succeeds (out.2.totalValue PlainWorld.calls) ∧
          FailsWith (.require "Invalid change in supply") (out.2.rebase PlainWorld.calls) := by
    decide
  obtain ⟨trace, s, hrun, hpaused, hvalue, hfails⟩ := reached_of_returns hsteps
  exact ⟨trace, s, hrun, hpaused, hvalue, hfails⟩

end System

end InterestDollar
