import InterestDollar.Compensation.Claims
import InterestDollar.Totals.Update
import InterestDollar.Transition.Run
import Mathlib.Algebra.Order.BigOperators.Group.Finset

/-!
# What a claim period guarantees

The total is the sum of the claims, and in a claim period the contract holds at least the
total. A period that was started is left alone by everything but the claims, each of which
sets the claim it pays to zero.
-/

namespace InterestDollar

open Checked Transition

namespace Compensation

namespace State

/-- Runs from a deployed contract: the state right after the constructor, the trace and the
state reached. -/
structure Reached {τ : Type} (T : Address → Token τ) (init : State τ)
    (trace : List (State τ × (Address × Action τ))) (s : State τ) : Prop where
  deployed : ∃ self governor token adjuster coins now,
    init = deployed self governor token adjuster coins now
  run : Run (fun s step s' => s.exec T step = .ok s') init trace s

variable {τ : Type} {T : Address → Token τ} {s s' : State τ}

/-! ## The functions -/

theorem claim_eq_ok {recipient : Address} (h : s.claim T recipient = .ok s') :
    s.now ≤ s.periodEnd ∧ 0 < s.claims recipient ∧ s.claims recipient ≤ s.totalClaims ∧
      ∃ coin, (T s.token).safeTransfer (s.coins s.token) s.self recipient (s.claims recipient) =
          .ok coin ∧
        s' = { s with
          claims := Function.update s.claims recipient 0
          totalClaims := s.totalClaims - s.claims recipient
          coins := Function.update s.coins s.token coin } := by
  obtain ⟨_, hperiod, h⟩ := bind_eq_ok.mp h
  obtain ⟨_, -, h⟩ := bind_eq_ok.mp h
  obtain ⟨_, hpositive, h⟩ := bind_eq_ok.mp h
  obtain ⟨total, htotal, h⟩ := bind_eq_ok.mp h
  obtain ⟨coin, hcoin, h⟩ := bind_eq_ok.mp h
  obtain ⟨hle, rfl⟩ := SafeMath.sub_eq_ok.mp htotal
  exact ⟨require_eq_ok.mp hperiod, require_eq_ok.mp hpositive, hle, coin, hcoin,
    (pure_eq_ok.mp h).symm⟩

/-- A claim that the period, the guard and the total let through fails only where the token
refuses the transfer. -/
theorem claim_eq_error {recipient : Address} {e : Revert} (hperiod : s.now ≤ s.periodEnd)
    (hidle : s.entered = false) (hpositive : 0 < s.claims recipient)
    (hle : s.claims recipient ≤ s.totalClaims) (h : s.claim T recipient = .error e) :
    (T s.token).safeTransfer (s.coins s.token) s.self recipient (s.claims recipient) =
      .error e := by
  rcases bind_eq_error.mp h with h | ⟨_, -, h⟩
  · exact absurd hperiod (require_eq_error.mp h).1
  rcases bind_eq_error.mp h with h | ⟨_, -, h⟩
  · exact absurd hidle (require_eq_error.mp h).1
  rcases bind_eq_error.mp h with h | ⟨_, -, h⟩
  · exact absurd hpositive (require_eq_error.mp h).1
  rcases bind_eq_error.mp h with h | ⟨_, -, h⟩
  · exact absurd hle (not_le.mpr (SafeMath.sub_eq_error.mp h).1)
  rcases bind_eq_error.mp h with h | ⟨_, -, h⟩
  · exact h
  · exact (pure_eq_error.mp h).elim

/-- A round of the loop moves the total as it moves the sum of the claims. -/
theorem setClaim_eq_ok {entry : Address × ℕ} (h : s.setClaim entry = .ok s') :
    (s.totalClaims = ∑ a, s.claims a → s'.totalClaims = ∑ a, s'.claims a) ∧
      s' = { s with claims := s'.claims, totalClaims := s'.totalClaims } := by
  obtain ⟨added, hadded, h⟩ := bind_eq_ok.mp h
  obtain ⟨total, hsub, h⟩ := bind_eq_ok.mp h
  obtain ⟨-, rfl⟩ := SafeMath.add_eq_ok.mp hadded
  obtain ⟨hle, rfl⟩ := SafeMath.sub_eq_ok.mp hsub
  cases pure_eq_ok.mp h
  refine ⟨fun htotal => ?_, rfl⟩
  have hsum := Totals.sum_update_add s.claims entry.1 entry.2
  dsimp only at hle ⊢
  omega

theorem setClaims_eq_ok {sender : Address} {addresses : List Address} {amounts : List ℕ}
    (h : s.setClaims sender addresses amounts = .ok s') :
    s.periodEnd < s.now ∧
      (s.totalClaims = ∑ a, s.claims a → s'.totalClaims = ∑ a, s'.claims a) ∧
      s' = { s with claims := s'.claims, totalClaims := s'.totalClaims } := by
  obtain ⟨_, hperiod, h⟩ := bind_eq_ok.mp h
  obtain ⟨_, -, h⟩ := bind_eq_ok.mp h
  obtain ⟨_, -, h⟩ := bind_eq_ok.mp h
  refine ⟨require_eq_ok.mp hperiod, ?_⟩
  refine ensures_foldlM (I := fun t : State τ =>
    (s.totalClaims = ∑ a, s.claims a → t.totalClaims = ∑ a, t.claims a) ∧
      t = { s with claims := t.claims, totalClaims := t.totalClaims }) ?_ ⟨id, rfl⟩ _ _ h
  rintro t entry ⟨ht, hsame⟩ t' ht'
  obtain ⟨hsum, hnext⟩ := setClaim_eq_ok ht'
  refine ⟨fun htotal => hsum (ht htotal), ?_⟩
  rw [hnext, hsame]

theorem start_eq_ok {sender : Address} {seconds : ℕ}
    (h : s.start T sender seconds = .ok s') :
    s.entered = false ∧ s.totalClaims ≤ s.funding T ∧
      s' = { s with isAdjusterLocked := true, periodEnd := s.now + seconds } := by
  obtain ⟨_, -, h⟩ := bind_eq_ok.mp h
  obtain ⟨_, -, h⟩ := bind_eq_ok.mp h
  obtain ⟨_, hidle, h⟩ := bind_eq_ok.mp h
  obtain ⟨_, -, h⟩ := bind_eq_ok.mp h
  obtain ⟨_, hfunded, h⟩ := bind_eq_ok.mp h
  obtain ⟨periodEnd, hend, h⟩ := bind_eq_ok.mp h
  obtain ⟨duration, -, h⟩ := bind_eq_ok.mp h
  obtain ⟨_, -, h⟩ := bind_eq_ok.mp h
  obtain ⟨-, rfl⟩ := SafeMath.add_eq_ok.mp hend
  exact ⟨require_eq_ok.mp hidle, require_eq_ok.mp hfunded, (pure_eq_ok.mp h).symm⟩

theorem collect_eq_ok {sender coin : Address} (h : s.collect T sender coin = .ok s') :
    s.periodEnd < s.now ∧ ∃ collected,
      s' = { s with coins := Function.update s.coins coin collected, entered := true } := by
  obtain ⟨_, -, h⟩ := bind_eq_ok.mp h
  obtain ⟨_, hperiod, h⟩ := bind_eq_ok.mp h
  obtain ⟨_, -, h⟩ := bind_eq_ok.mp h
  obtain ⟨collected, -, h⟩ := bind_eq_ok.mp h
  exact ⟨require_eq_ok.mp hperiod, collected, (pure_eq_ok.mp h).symm⟩

/-! ## What a step can do -/

variable (T) in
/-- Nothing happened to the claims and the period, the contract has at least the tokens it
had, and no collection was begun. -/
structure Unmoved (s s' : State τ) : Prop where
  self : s'.self = s.self
  token : s'.token = s.token
  totalClaims : s'.totalClaims = s.totalClaims
  claims : s'.claims = s.claims
  periodEnd : s'.periodEnd = s.periodEnd
  now : s.now ≤ s'.now
  entered : s.entered = false → s'.entered = false
  funding : s.funding T ≤ s'.funding T

variable (T) in
/-- What a step can do. -/
inductive Effect (s : State τ) (action : Action τ) (s' : State τ) : Prop
  | claimed (recipient : Address) (coin : τ) : action = .claim recipient →
      s.now ≤ s.periodEnd → 0 < s.claims recipient → s.claims recipient ≤ s.totalClaims →
      (T s.token).safeTransfer (s.coins s.token) s.self recipient (s.claims recipient) =
        .ok coin →
      s' = { s with
        claims := Function.update s.claims recipient 0
        totalClaims := s.totalClaims - s.claims recipient
        coins := Function.update s.coins s.token coin } → Effect s action s'
  | set : s.periodEnd < s.now →
      (s.totalClaims = ∑ a, s.claims a → s'.totalClaims = ∑ a, s'.claims a) →
      s' = { s with claims := s'.claims, totalClaims := s'.totalClaims } → Effect s action s'
  | started (seconds : ℕ) : action = .start seconds → s.entered = false →
      s.totalClaims ≤ s.funding T →
      s' = { s with isAdjusterLocked := true, periodEnd := s.now + seconds } →
      Effect s action s'
  | collected (coin : Address) (collected : τ) : s.periodEnd < s.now →
      s' = { s with coins := Function.update s.coins coin collected, entered := true } →
      Effect s action s'
  | unmoved : (∀ recipient, action ≠ .claim recipient) → Unmoved T s s' → Effect s action s'

/-- The settings of the contract and the status of its guard. -/
theorem unmoved_settings {governor pendingGovernor : Address} {isAdjusterLocked : Bool} :
    Unmoved T s { s with
      governor := governor
      pendingGovernor := pendingGovernor
      isAdjusterLocked := isAdjusterLocked } where
  self := rfl
  token := rfl
  totalClaims := rfl
  claims := rfl
  periodEnd := rfl
  now := le_rfl
  entered := id
  funding := le_rfl

theorem exec_effect {step : Address × Action τ} (h : s.exec T step = .ok s') :
    Effect T s step.2 s' := by
  obtain ⟨sender, action⟩ := step
  cases action with
  | claim recipient =>
      obtain ⟨hperiod, hpositive, hle, coin, hcoin, hnext⟩ := claim_eq_ok h
      exact .claimed recipient coin rfl hperiod hpositive hle hcoin hnext
  | setClaims addresses amounts =>
      obtain ⟨hperiod, htotal, hnext⟩ := setClaims_eq_ok h
      exact .set hperiod htotal hnext
  | start seconds =>
      obtain ⟨hidle, hfunded, hnext⟩ := start_eq_ok h
      exact .started seconds rfl hidle hfunded hnext
  | collect coin =>
      obtain ⟨hperiod, collected, hnext⟩ := collect_eq_ok h
      exact .collected coin collected hperiod hnext
  | lockAdjuster =>
      obtain ⟨_, -, h⟩ := bind_eq_ok.mp h
      obtain ⟨_, -, h⟩ := bind_eq_ok.mp h
      cases pure_eq_ok.mp h
      exact .unmoved nofun unmoved_settings
  | unlockAdjuster =>
      obtain ⟨_, -, h⟩ := bind_eq_ok.mp h
      obtain ⟨_, -, h⟩ := bind_eq_ok.mp h
      cases pure_eq_ok.mp h
      exact .unmoved nofun unmoved_settings
  | transferGovernance newGovernor =>
      obtain ⟨_, -, h⟩ := bind_eq_ok.mp h
      cases pure_eq_ok.mp h
      exact .unmoved nofun unmoved_settings
  | claimGovernance =>
      obtain ⟨_, -, h⟩ := bind_eq_ok.mp h
      obtain ⟨_, -, h⟩ := bind_eq_ok.mp h
      cases pure_eq_ok.mp h
      exact .unmoved nofun unmoved_settings
  | collectReturned =>
      obtain ⟨_, -, h⟩ := bind_eq_ok.mp h
      cases pure_eq_ok.mp h
      exact .unmoved nofun ⟨rfl, rfl, rfl, rfl, rfl, le_rfl, fun _ => rfl, le_rfl⟩
  | wait seconds =>
      obtain ⟨_, -, h⟩ := bind_eq_ok.mp h
      cases pure_eq_ok.mp h
      exact .unmoved nofun ⟨rfl, rfl, rfl, rfl, rfl, Nat.le_add_right _ _, id, le_rfl⟩
  | coinsMove coins =>
      obtain ⟨_, hkept, h⟩ := bind_eq_ok.mp h
      cases pure_eq_ok.mp h
      exact .unmoved nofun ⟨rfl, rfl, rfl, rfl, rfl, le_rfl, id, require_eq_ok.mp hkept⟩

/-- The token of the contract does not change. -/
theorem Effect.token {action : Action τ} (h : Effect T s action s') : s'.token = s.token := by
  cases h with
  | claimed _ _ _ _ _ _ _ hnext => rw [hnext]
  | set _ _ hnext => rw [hnext]
  | started _ _ _ _ hnext => rw [hnext]
  | collected _ _ _ hnext => rw [hnext]
  | unmoved _ hsame => exact hsame.token

theorem Effect.now_le {action : Action τ} (h : Effect T s action s') : s.now ≤ s'.now := by
  cases h with
  | claimed _ _ _ _ _ _ _ hnext => rw [hnext]
  | set _ _ hnext => rw [hnext]
  | started _ _ _ _ hnext => rw [hnext]
  | collected _ _ _ hnext => rw [hnext]
  | unmoved _ hsame => exact hsame.now

/-! ## Funds -/

variable (T) in
/-- The total is the sum of the claims, and in a claim period the contract can pay it and no
collection is under way. -/
structure Funded (s : State τ) : Prop where
  total : s.totalClaims = ∑ a, s.claims a
  covered : s.now ≤ s.periodEnd → s.totalClaims ≤ s.funding T
  idle : s.now ≤ s.periodEnd → s.entered = false

/-- A transfer takes no more than its amount from the contract. -/
theorem funding_transfer (hT : (T s.token).Standard) {recipient : Address} {amount : ℕ}
    {coin : τ}
    (h : (T s.token).safeTransfer (s.coins s.token) s.self recipient amount = .ok coin) :
    s.funding T ≤ (T s.token).balanceOf coin s.self + amount := by
  obtain ⟨hle, hmoved⟩ := hT.safeTransfer h
  rw [hmoved]
  unfold State.funding
  by_cases hself : recipient = s.self
  · rw [hself, moved_self hle]
    exact Nat.le_add_right _ _
  · have htaken : moved ((T s.token).balanceOf (s.coins s.token)) s.self recipient amount s.self =
        (T s.token).balanceOf (s.coins s.token) s.self - amount := by
      simp [moved, Function.update_of_ne (Ne.symm hself)]
    rw [htaken]
    exact (Nat.sub_add_cancel hle).ge

theorem funded_of_over (htotal : s.totalClaims = ∑ a, s.claims a)
    (hover : s.periodEnd < s.now) : s.Funded T where
  total := htotal
  covered h := absurd h (not_le.mpr hover)
  idle h := absurd h (not_le.mpr hover)

theorem Effect.funded {action : Action τ} (h : Effect T s action s')
    (hT : (T s.token).Standard) (hs : s.Funded T) : s'.Funded T := by
  have htotal := hs.total
  cases h with
  | claimed recipient coin _ hperiod _ hle hcoin hnext =>
      have hsum := Totals.sum_update_add s.claims recipient 0
      have hcovered := hs.covered hperiod
      have htransfer := funding_transfer hT hcoin
      rw [hnext]
      refine { total := ?_, covered := fun _ => ?_, idle := hs.idle }
      · dsimp only
        omega
      · unfold State.funding at hcovered htransfer ⊢
        dsimp only
        rw [Function.update_self]
        omega
  | set hover htotal' hnext =>
      refine funded_of_over (htotal' htotal) ?_
      rw [hnext]
      exact hover
  | started _ _ hidle hfunded hnext =>
      rw [hnext]
      exact { total := htotal, covered := fun _ => hfunded, idle := fun _ => hidle }
  | collected _ _ hover hnext =>
      rw [hnext]
      exact funded_of_over htotal hover
  | unmoved _ hsame =>
      have hperiod (hnow : s'.now ≤ s'.periodEnd) : s.now ≤ s.periodEnd :=
        hsame.now.trans (hnow.trans_eq hsame.periodEnd)
      exact {
        total := by rw [hsame.totalClaims, hsame.claims, htotal]
        covered := fun hnow => by
          rw [hsame.totalClaims]
          exact (hs.covered (hperiod hnow)).trans hsame.funding
        idle := fun hnow => hsame.entered (hs.idle (hperiod hnow)) }

theorem Reached.token {init : State τ} {trace : List (State τ × (Address × Action τ))}
    (h : Reached T init trace s) : s.token = init.token :=
  h.run.invariant (fun s => s.token = init.token) rfl fun _ _ _ hs hexec =>
    (exec_effect hexec).token.trans hs

theorem Reached.funded {init : State τ} {trace : List (State τ × (Address × Action τ))}
    (h : Reached T init trace s) (hT : (T init.token).Standard) : s.Funded T := by
  have hboth : s.token = init.token ∧ s.Funded T := by
    refine h.run.invariant (fun s => s.token = init.token ∧ s.Funded T) ⟨rfl, ?_⟩
      fun s step s' hs hexec => ?_
    · obtain ⟨self, governor, token, adjuster, coins, now, rfl⟩ := h.deployed
      exact {
        total := by simp [State.deployed]
        covered := fun _ => Nat.zero_le _
        idle := fun _ => rfl }
    · have heffect := exec_effect hexec
      exact ⟨heffect.token.trans hs.1, heffect.funded (hs.1.symm ▸ hT) hs.2⟩
  exact hboth.2

/-! ## The claims of a period -/

/-- A step that starts no period keeps the end of the one there is, and in that period does
nothing to the claims but to pay them. -/
theorem Effect.period {action : Action τ} (h : Effect T s action s')
    (hstart : ∀ seconds, action ≠ .start seconds) :
    s'.periodEnd = s.periodEnd ∧ (s.now ≤ s.periodEnd → ∀ recipient,
      action ≠ .claim recipient ∧ s'.claims recipient = s.claims recipient ∨
        s'.claims recipient = 0) := by
  cases h with
  | claimed payee _ haction _ _ _ _ hnext =>
      rw [hnext]
      refine ⟨rfl, fun _ recipient => ?_⟩
      by_cases hpayee : recipient = payee
      · rw [hpayee]
        exact .inr (Function.update_self _ _ _)
      · refine .inl ⟨fun heq => hpayee ?_, Function.update_of_ne hpayee _ _⟩
        exact (Action.claim.inj (haction.symm.trans heq)).symm
  | set hover _ hnext =>
      refine ⟨by rw [hnext], fun hperiod => absurd hperiod (not_le.mpr hover)⟩
  | started seconds haction => exact absurd haction (hstart seconds)
  | collected _ _ hover hnext =>
      refine ⟨by rw [hnext], fun hperiod => absurd hperiod (not_le.mpr hover)⟩
  | unmoved hother hsame =>
      exact ⟨hsame.periodEnd, fun _ recipient => .inl ⟨hother recipient, by rw [hsame.claims]⟩⟩

/-- In the period of a start, an account that nobody claimed for has the claim it had at the
start, and an account that somebody claimed for has none. -/
theorem claims_since_start {init q : State τ}
    {between before : List (State τ × (Address × Action τ))} {governor : Address} {seconds : ℕ}
    (h : Run (fun s step s' => s.exec T step = .ok s') init
      (between ++ (q, (governor, .start seconds)) :: before) s)
    (hno : ∀ e ∈ between, ∀ seconds, e.2.2 ≠ .start seconds) :
    s.periodEnd = q.now + seconds ∧ (s.now ≤ s.periodEnd → ∀ recipient,
      (∀ e ∈ between, e.2.2 ≠ .claim recipient) ∧ s.claims recipient = q.claims recipient ∨
        s.claims recipient = 0) := by
  induction between generalizing s with
  | nil =>
      cases h with
      | cons _ hexec =>
          obtain ⟨-, -, rfl⟩ := start_eq_ok hexec
          exact ⟨rfl, fun _ recipient => .inl ⟨by simp, rfl⟩⟩
  | cons e between ih =>
      cases h with
      | @cons _ t _ step hrun hexec =>
          obtain ⟨hhead, hrest⟩ := List.forall_mem_cons.mp hno
          obtain ⟨hend, hclaims⟩ := ih hrun hrest
          obtain ⟨hsame, hstep⟩ := (exec_effect hexec).period hhead
          refine ⟨hsame.trans hend, fun hnow recipient => ?_⟩
          have hperiod : t.now ≤ t.periodEnd :=
            (exec_effect hexec).now_le.trans (hnow.trans_eq hsame)
          rcases hstep hperiod recipient with ⟨hother, hkept⟩ | hzero
          · rw [hkept]
            exact (hclaims hperiod recipient).imp_left fun ⟨hnone, hclaim⟩ =>
              ⟨List.forall_mem_cons.mpr ⟨hother, hnone⟩, hclaim⟩
          · exact .inr hzero

/-- The total is the sum of the claims, and in a claim period the contract holds it; a claim
of a positive amount then fails only where the token refuses a transfer that the contract can
pay; and a claim that goes through after a start, with no other start in between, is the
first one for its account, comes before the end and pays what was on record at the start. -/
theorem payout_guaranteed {init : State τ} {trace : List (State τ × (Address × Action τ))}
    (hT : (T init.token).Standard) (h : Reached T init trace s) :
    s.totalClaims = ∑ a, s.claims a ∧
    (s.now ≤ s.periodEnd → s.totalClaims ≤ s.funding T) ∧
    (s.now ≤ s.periodEnd → ∀ recipient, 0 < s.claims recipient →
      s.claims recipient ≤ s.funding T ∧
      (∀ e, s.claim T recipient = .error e →
        (T s.token).safeTransfer (s.coins s.token) s.self recipient (s.claims recipient) =
          .error e) ∧
      ∀ s', s.claim T recipient = .ok s' →
        (T s.token).safeTransfer (s.coins s.token) s.self recipient (s.claims recipient) =
          .ok (s'.coins s.token)) ∧
    ∀ after x caller recipient between q governor seconds before,
      trace = after ++ (x, (caller, .claim recipient)) ::
        (between ++ (q, (governor, .start seconds)) :: before) →
      (∀ e ∈ between, ∀ seconds, e.2.2 ≠ .start seconds) →
        x.claims recipient = q.claims recipient ∧ x.now ≤ q.now + seconds ∧
          ∀ e ∈ between, e.2.2 ≠ .claim recipient := by
  have hfunded := h.funded hT
  refine ⟨hfunded.total, hfunded.covered, fun hperiod recipient hpositive => ?_, ?_⟩
  · have hle : s.claims recipient ≤ s.totalClaims := by
      rw [hfunded.total]
      exact Finset.single_le_sum (fun a _ => Nat.zero_le (s.claims a)) (Finset.mem_univ _)
    refine ⟨hle.trans (hfunded.covered hperiod), fun e herror => ?_, fun s' hok => ?_⟩
    · exact claim_eq_error hperiod (hfunded.idle hperiod) hpositive hle herror
    · obtain ⟨-, -, -, coin, hcoin, rfl⟩ := claim_eq_ok hok
      dsimp only
      rw [Function.update_self]
      exact hcoin
  · rintro after x caller recipient between q governor seconds before rfl hno
    obtain ⟨hrun, x', hx⟩ := h.run.split
    obtain ⟨hperiod, hpositive, -⟩ := claim_eq_ok hx
    obtain ⟨hend, hclaims⟩ := claims_since_start hrun hno
    rcases hclaims hperiod recipient with ⟨hnone, hclaim⟩ | hzero
    · exact ⟨hclaim, hperiod.trans_eq hend, hnone⟩
    · exact absurd hzero hpositive.ne'

/-- Two campaigns, the first with an account set twice. In the second one account was paid
and the other can claim. -/
theorem payout_guaranteed_twice :
    ∃ init trace s, Reached (fun _ => PlainToken.calls) init trace s ∧ s.claims 2 = 4 ∧
      s.totalClaims = ∑ a, s.claims a ∧ 4 ≤ s.funding (fun _ => PlainToken.calls) := by
  have hsteps : Returns
      (execTrace (exec fun _ => PlainToken.calls) []
        (deployed 9 8 5 7 (fun _ => PlainToken.approved 9 1 12 0) 100)
        [(8, .unlockAdjuster), (7, .setClaims [1, 2, 1] [3, 4, 5]), (8, .start 10),
          (3, .claim 1), (0, .wait 11), (8, .collect 5), (8, .collectReturned),
          (8, .unlockAdjuster), (7, .setClaims [1] [2]),
          (0, .coinsMove fun _ => PlainToken.approved 9 1 6 0), (8, .start 10), (1, .claim 1)])
      fun out => out.2.now ≤ out.2.periodEnd ∧ out.2.claims 2 = 4 := by decide
  obtain ⟨⟨trace, s⟩, hout, hperiod, hclaim⟩ := hsteps
  have hreached : Reached (fun _ => PlainToken.calls)
      (deployed 9 8 5 7 (fun _ => PlainToken.approved 9 1 12 0) 100) trace s :=
    ⟨⟨9, 8, 5, 7, _, 100, rfl⟩, run_of_execTrace .nil hout⟩
  have hpayout := payout_guaranteed PlainToken.standard hreached
  have hfunds := (hpayout.2.2.1 hperiod 2 (hclaim.symm ▸ by decide)).1
  exact ⟨_, trace, s, hreached, hclaim, hpayout.1, hclaim.symm.trans_le hfunds⟩

end State

end Compensation

end InterestDollar
