import InterestDollar.Liquidity.Runs
import InterestDollar.Totals.Update

/-!
# The totals of the liquidity reward contract

The contract keeps no list of its accounts. It works with `totalRewardDebt`, which is the
sum of all debts, and with its balance of LP tokens, which covers the amounts of all
accounts.

The debts are 256-bit signed words in the contract and integers here: `Reached.debts_le`
bounds them by the number of steps, and it would take 2^58 steps for one to leave the range
of a word.
-/

namespace InterestDollar

open Checked FixedPoint Transition

/-- What is taken from another holder is added to the balance of the caller. -/
theorem Token.Standard.balanceOf_pulled {τ : Type} {T : Token τ} (hT : T.Standard) {t t' : τ}
    {self owner : Address} {amount : ℕ} (hne : owner ≠ self)
    (h : (if 0 < amount then T.safeTransferFrom t self owner self amount else .ok t) = .ok t') :
    T.balanceOf t' self = T.balanceOf t self + amount := by
  split_ifs at h with hpos
  · rw [(hT.safeTransferFrom h).2, moved_recipient hne]
  · cases h
    omega

/-- What is paid to another holder leaves the balance of the caller. -/
theorem Token.Standard.balanceOf_pushed {τ : Type} {T : Token τ} (hT : T.Standard) {t t' : τ}
    {self recipient : Address} {amount : ℕ} (hne : recipient ≠ self)
    (h : (if 0 < amount then T.safeTransfer t self recipient amount else .ok t) = .ok t') :
    T.balanceOf t' self + amount = T.balanceOf t self := by
  split_ifs at h with hpos
  · obtain ⟨hle, hmoved⟩ := hT.safeTransfer h
    rw [hmoved, moved, Function.update_of_ne hne.symm, Function.update_self,
      Nat.sub_add_cancel hle]
  · cases h
    omega

namespace Liquidity

namespace State

variable {ρ ℓ : Type} {R : Token ρ} {L : Token ℓ} {s s' : State ρ ℓ}

/-- The totals are those of the accounts. -/
structure Booked (L : Token ℓ) (s : State ρ ℓ) : Prop where
  debts : s.totalRewardDebt = ∑ user, (s.userInfo user).rewardDebt
  amounts : ∑ user, (s.userInfo user).amount ≤ s.lpSupply L

/-- A sum over the accounts moves by the account that is set. -/
theorem sum_setUser {M : Type*} [AddCommMonoid M] (f : UserInfo → M) (s : State ρ ℓ)
    (user : Address) (amount : ℕ) (newDebt : ℤ) :
    (∑ x, f ((s.setUser user amount newDebt).userInfo x)) + f (s.userInfo user) =
      (∑ x, f (s.userInfo x)) + f ⟨amount, (s.userInfo user).rewardDebt + newDebt⟩ := by
  have hoff : ∀ x, x ≠ user →
      f ((s.setUser user amount newDebt).userInfo x) = f (s.userInfo x) := by
    intro x hx
    simp [setUser, hx]
  have hself : (s.setUser user amount newDebt).userInfo user =
      ⟨amount, (s.userInfo user).rewardDebt + newDebt⟩ := by
    simp [setUser]
  rw [← hself]
  exact Totals.sum_add_eq_of_eq_off hoff

theorem Booked.of_quiet (hs : s.Booked L) (h : Quiet L s s') : s'.Booked L := by
  constructor
  · rw [h.totalRewardDebt, h.userInfo, hs.debts]
  · rw [h.userInfo, h.lpSupply]
    exact hs.amounts

/-- An account was set, and the LP tokens of the contract moved with its amount. -/
theorem Booked.setUser (hs : s.Booked L) {t : State ρ ℓ} {user : Address} {amount : ℕ}
    {newDebt : ℤ} (htotal : t.totalRewardDebt = s.totalRewardDebt + newDebt)
    (huser : t.userInfo = (s.setUser user amount newDebt).userInfo)
    (hlp : t.lpSupply L + (s.userInfo user).amount = s.lpSupply L + amount) : t.Booked L := by
  constructor
  · have hsum := sum_setUser UserInfo.rewardDebt s user amount newDebt
    have hdebts := hs.debts
    rw [htotal, huser]
    dsimp only at hsum
    omega
  · have hsum := sum_setUser UserInfo.amount s user amount newDebt
    have hamounts := hs.amounts
    rw [huser]
    dsimp only at hsum
    omega

theorem Booked.deposit (hL : L.Standard) {sender : Address} {amount : ℕ} (hs : s.Booked L)
    (hcaller : sender ≠ s.self) (h : s.deposit L sender amount = .ok s') : s'.Booked L := by
  obtain ⟨-, lpToken, hlp, rfl⟩ := deposit_eq_ok h
  have hbalance : L.balanceOf lpToken s.self = s.lpSupply L + amount :=
    hL.balanceOf_pulled hcaller hlp
  refine hs.setUser rfl rfl ?_
  calc L.balanceOf lpToken s.self + (s.userInfo sender).amount
      = s.lpSupply L + ((s.userInfo sender).amount + amount) := by omega

theorem Booked.withdraw (hL : L.Standard) {sender : Address} {amount : ℕ} {claim : Bool}
    (hs : s.Booked L) (hcaller : sender ≠ s.self)
    (h : s.withdraw R L sender amount claim = .ok s') : s'.Booked L := by
  obtain ⟨hamount, -, pending, reward, lpToken, -, -, hlp, rfl⟩ := withdraw_eq_ok h
  have hbalance : L.balanceOf lpToken s.self + amount = s.lpSupply L :=
    hL.balanceOf_pushed hcaller hlp
  refine hs.setUser rfl rfl ?_
  calc L.balanceOf lpToken s.self + (s.userInfo sender).amount
      = s.lpSupply L + ((s.userInfo sender).amount - amount) := by omega

theorem Booked.claim {sender : Address} (hs : s.Booked L)
    (h : s.claim R L sender = .ok s') : s'.Booked L := by
  obtain ⟨pending, reward, -, -, rfl⟩ := claim_eq_ok h
  exact hs.setUser rfl rfl rfl

/-- Every step keeps the totals those of the accounts. -/
theorem Booked.exec (hL : L.Standard) {step : Address × Action ρ ℓ} (hs : s.Booked L)
    (hcaller : step.1 ≠ s.self) (h : s.exec R L step = .ok s') : s'.Booked L := by
  obtain ⟨sender, action⟩ := step
  cases action with
  | deposit amount => exact hs.deposit hL hcaller h
  | withdraw amount claim => exact hs.withdraw hL hcaller h
  | exit => exact hs.withdraw hL hcaller h
  | claim => exact hs.claim h
  | _ => exact hs.of_quiet (exec_quiet rfl h)

theorem Reached.init_booked {init : State ρ ℓ}
    {trace : List (State ρ ℓ × (Address × Action ρ ℓ))} (h : Reached R L init trace s) :
    init.Booked L := by
  obtain ⟨huser, hdebt, -, -⟩ := h.init_fresh
  constructor
  · simp [huser, hdebt]
  · simp [huser]

theorem Reached.booked (hL : L.Standard) {init : State ρ ℓ}
    {trace : List (State ρ ℓ × (Address × Action ρ ℓ))} (h : Reached R L init trace s) :
    s.Booked L :=
  Run.invariant_of_forall (fun s step => step.1 ≠ s.self) (Booked L) h.init_booked
    (fun _ _ _ hs hcaller hstep => hs.exec hL hcaller hstep) h.run h.callers

/-! ## The range of the debts -/

/-- The debts of all accounts, taken without their signs. -/
def totalDebts (s : State ρ ℓ) : ℕ := ∑ user, (s.userInfo user).rewardDebt.natAbs

/-- A product that fits a word is less than 2^197 units. -/
theorem shares_lt {acc amount : ℕ} (h : amount * acc < wordBound) :
    shares fullScale acc amount < 2 ^ 197 := by
  refine Nat.div_lt_of_lt_mul (h.trans_le ?_)
  unfold wordBound fullScale
  norm_num

/-- Setting an account to a debt that is off by less than 2^197. -/
theorem totalDebts_le_of_setUser {t : State ρ ℓ} {user : Address} {amount : ℕ} {newDebt : ℤ}
    (huser : t.userInfo = (s.setUser user amount newDebt).userInfo)
    (h : ((s.userInfo user).rewardDebt + newDebt).natAbs ≤
      (s.userInfo user).rewardDebt.natAbs + 2 ^ 197) :
    t.totalDebts ≤ s.totalDebts + 2 ^ 197 := by
  have hsum := sum_setUser (fun info => info.rewardDebt.natAbs) s user amount newDebt
  unfold totalDebts
  rw [huser]
  dsimp only at hsum
  omega

theorem withdraw_totalDebts_le {sender : Address} {amount : ℕ} {claim : Bool}
    (h : s.withdraw R L sender amount claim = .ok s') :
    s'.totalDebts ≤ s.totalDebts + 2 ^ 197 := by
  obtain ⟨hamount, hfit, pending, reward, lpToken, hpending, -, -, rfl⟩ := withdraw_eq_ok h
  have hlt := shares_lt hfit
  refine totalDebts_le_of_setUser rfl ?_
  cases claim with
  | true =>
      obtain ⟨hfitAll, -, hvalue⟩ := settledRewards_updated_eq_ok hpending
      have hltAll := shares_lt hfitAll
      unfold entitlement at hvalue
      omega
  | false =>
      cases hpending
      omega

theorem exec_totalDebts_le {step : Address × Action ρ ℓ} (h : s.exec R L step = .ok s') :
    s'.totalDebts ≤ s.totalDebts + 2 ^ 197 := by
  obtain ⟨sender, action⟩ := step
  cases action with
  | deposit amount =>
      obtain ⟨hfit, lpToken, -, rfl⟩ := deposit_eq_ok h
      have hlt := shares_lt hfit
      refine totalDebts_le_of_setUser rfl ?_
      omega
  | withdraw amount claim => exact withdraw_totalDebts_le h
  | exit => exact withdraw_totalDebts_le h
  | claim =>
      obtain ⟨pending, reward, hpending, -, rfl⟩ := claim_eq_ok h
      obtain ⟨hfit, -, hvalue⟩ := pendingRewards_eq_ok hpending
      have hlt := shares_lt hfit
      refine totalDebts_le_of_setUser rfl ?_
      unfold entitlement at hvalue
      omega
  | _ =>
      have hquiet := exec_quiet rfl h
      rw [totalDebts, hquiet.userInfo]
      exact Nat.le_add_right _ _

/-- In a run of fewer than 2^58 steps all debts and their total are in the range of signed
256-bit words. -/
theorem Reached.debts_lt (hL : L.Standard) {init : State ρ ℓ}
    {trace : List (State ρ ℓ × (Address × Action ρ ℓ))} (h : Reached R L init trace s)
    (hlength : trace.length < 2 ^ 58) :
    s.totalRewardDebt.natAbs < 2 ^ 255 ∧ ∀ user, (s.userInfo user).rewardDebt.natAbs < 2 ^ 255 := by
  have hall : s.totalDebts ≤ trace.length * 2 ^ 197 := by
    have hrun := Run.invariant_countP (fun _ => true)
      (fun n s => s.totalDebts ≤ n * 2 ^ 197) ?_ (fun n s step s' hs hstep => ?_) h.run
    · rwa [List.countP_true] at hrun
    · simp [totalDebts, h.init_fresh.1]
    · have hle := exec_totalDebts_le hstep
      simp only [if_true]
      omega
  have htotal : s.totalDebts < 2 ^ 255 := by omega
  constructor
  · rw [(h.booked hL).debts]
    exact (Int.natAbs_sum_le _ _).trans_lt htotal
  · intro user
    have hle : ∀ f : Address → ℕ, f user ≤ ∑ x, f x := fun f =>
      Finset.single_le_sum (fun _ _ => Nat.zero_le _) (Finset.mem_univ user)
    exact (hle fun x => (s.userInfo x).rewardDebt.natAbs).trans_lt htotal

/-! ## Runs with gifts

Anybody can send LP tokens to the contract without a deposit. The totals do not depend on
that not happening, so here the balance may also grow on its own, and nothing is asked of
what else happens to the reward token. -/

/-- One call by an account, or one change around the contract that takes none of its LP
tokens. -/
def execOpen (R : Token ρ) (L : Token ℓ) (s : State ρ ℓ) (step : Address × Action ρ ℓ) :
    Except Revert (State ρ ℓ) :=
  match step.2 with
  | .rewardMoves reward => .ok { s with reward := reward }
  | .lpMoves lpToken => do
      require (L.balanceOf s.lpToken s.self ≤ L.balanceOf lpToken s.self) "Not the holder"
      return { s with lpToken := lpToken }
  | _ => s.exec R L step

/-- Such a step is a step as before, or it moves the tokens alone. -/
theorem execOpen_eq_ok {step : Address × Action ρ ℓ} (h : s.execOpen R L step = .ok s') :
    s.exec R L step = .ok s' ∨ ∃ reward lpToken,
      s.lpSupply L ≤ L.balanceOf lpToken s.self ∧
        s' = { s with reward := reward, lpToken := lpToken } := by
  obtain ⟨sender, action⟩ := step
  cases action with
  | rewardMoves reward =>
      cases h
      exact .inr ⟨reward, s.lpToken, le_rfl, rfl⟩
  | lpMoves lpToken =>
      obtain ⟨_, hle, h⟩ := bind_eq_ok.mp h
      cases pure_eq_ok.mp h
      exact .inr ⟨s.reward, lpToken, require_eq_ok.mp hle, rfl⟩
  | _ => exact .inl h

/-- Runs from an initialized contract where LP tokens may be given to it. -/
structure ReachedOpen (R : Token ρ) (L : Token ℓ) (init : State ρ ℓ)
    (trace : List (State ρ ℓ × (Address × Action ρ ℓ))) (s : State ρ ℓ) : Prop where
  initialized : ∃ self governor reward lpToken blockNumber,
    (deployed self governor reward lpToken blockNumber).initialized governor = .ok init
  callers : ∀ e ∈ trace, e.2.1 ≠ e.1.self
  run : Run (fun s step s' => s.execOpen R L step = .ok s') init trace s

/-- The beginning of such a run. -/
theorem ReachedOpen.start {init : State ρ ℓ}
    {trace : List (State ρ ℓ × (Address × Action ρ ℓ))} (h : ReachedOpen R L init trace s) :
    Reached R L init [] init :=
  ⟨h.initialized, (fun _ he => nomatch he), .nil⟩

theorem Booked.execOpen (hL : L.Standard) {step : Address × Action ρ ℓ} (hs : s.Booked L)
    (hcaller : step.1 ≠ s.self) (h : s.execOpen R L step = .ok s') : s'.Booked L := by
  rcases execOpen_eq_ok h with h | ⟨reward, lpToken, hle, rfl⟩
  · exact hs.exec hL hcaller h
  · exact ⟨hs.debts, hs.amounts.trans hle⟩

theorem ReachedOpen.booked (hL : L.Standard) {init : State ρ ℓ}
    {trace : List (State ρ ℓ × (Address × Action ρ ℓ))} (h : ReachedOpen R L init trace s) :
    s.Booked L := by
  exact Run.invariant_of_forall (fun s step => step.1 ≠ s.self) (Booked L) h.start.init_booked
    (fun _ _ _ hs hcaller hstep => hs.execOpen hL hcaller hstep) h.run h.callers

/-- The run of a list of such steps, where all of them succeed. -/
theorem reachedOpen_of_returns {self governor : Address} {reward : ρ} {lpToken : ℓ}
    {blockNumber : ℕ} {steps : List (Address × Action ρ ℓ)}
    {P : List (State ρ ℓ × (Address × Action ρ ℓ)) × State ρ ℓ → Prop}
    (h : Returns ((deployed self governor reward lpToken blockNumber).initialized governor >>=
        fun init => execTrace (execOpen R L) [] init steps)
      fun out => (∀ e ∈ out.1, e.2.1 ≠ e.1.self) ∧ P out) :
    ∃ init trace s, ReachedOpen R L init trace s ∧ P (trace, s) := by
  obtain ⟨⟨trace, s⟩, hout, hcallers, hP⟩ := h
  obtain ⟨init, hinit, hsteps⟩ := bind_eq_ok.mp hout
  have hfresh : ∃ self governor reward lpToken blockNumber,
      (deployed self governor reward lpToken blockNumber).initialized governor = .ok init :=
    ⟨self, governor, reward, lpToken, blockNumber, hinit⟩
  exact ⟨init, trace, s, ⟨hfresh, hcallers, run_of_execTrace .nil hsteps⟩, hP⟩

/-- The stored accumulator is raised to the one in force or left alone. -/
theorem exec_accRewardPerShare_le {step : Address × Action ρ ℓ} (h : s.exec R L step = .ok s') :
    s.pool.accRewardPerShare ≤ s'.pool.accRewardPerShare := by
  have hforce : s.pool.accRewardPerShare ≤ s.accInForce L := Nat.le_add_right _ _
  obtain ⟨sender, action⟩ := step
  cases action with
  | startCampaign rewardPerBlock startBlock numBlocks =>
      obtain ⟨fromBlock, -, -, rfl⟩ := startCampaign_eq_ok h
      exact hforce
  | stopCampaign =>
      cases stopCampaign_eq_ok h
      exact hforce
  | deposit amount =>
      obtain ⟨-, lpToken, -, rfl⟩ := deposit_eq_ok h
      exact hforce
  | withdraw amount claim =>
      obtain ⟨-, -, pending, reward, lpToken, -, -, -, rfl⟩ := withdraw_eq_ok h
      exact hforce
  | exit =>
      obtain ⟨-, -, pending, reward, lpToken, -, -, -, rfl⟩ := withdraw_eq_ok h
      exact hforce
  | claim =>
      obtain ⟨pending, reward, -, -, rfl⟩ := claim_eq_ok h
      exact le_rfl
  | doUpdatePool =>
      cases updatePool_eq_ok h
      exact hforce
  | _ => exact (congrArg PoolInfo.accRewardPerShare (exec_aside rfl h).pool).ge

theorem execOpen_accRewardPerShare_le {step : Address × Action ρ ℓ}
    (h : s.execOpen R L step = .ok s') :
    s.pool.accRewardPerShare ≤ s'.pool.accRewardPerShare := by
  rcases execOpen_eq_ok h with h | ⟨reward, lpToken, -, rfl⟩
  · exact exec_accRewardPerShare_le h
  · exact le_rfl

/-- In every state a run reaches, the total debt is the sum of the debts, the LP tokens in
the contract cover the amounts of all accounts, and the accumulator is no lower than in any
state before. -/
theorem totals_of_accounts (hL : L.Standard) {init : State ρ ℓ}
    {trace : List (State ρ ℓ × (Address × Action ρ ℓ))} (h : ReachedOpen R L init trace s) :
    s.totalRewardDebt = ∑ user, (s.userInfo user).rewardDebt ∧
      ∑ user, (s.userInfo user).amount ≤ L.balanceOf s.lpToken s.self ∧
      ∀ e ∈ trace, e.1.pool.accRewardPerShare ≤ s.pool.accRewardPerShare := by
  have hbooked := h.booked hL
  refine ⟨hbooked.debts, hbooked.amounts, ?_⟩
  exact Run.le_of_mem (fun s => s.pool.accRewardPerShare)
    (fun _ _ _ hstep => execOpen_accRewardPerShare_le hstep) h.run

/-- A deposit of 2, a gift of 3 LP tokens in the middle of a campaign, and a withdrawal of 1
without a claim: the debt is negative, and so is the total. -/
theorem totals_of_accounts_gift :
    ∃ init trace s, ReachedOpen PlainToken.calls PlainToken.calls init trace s ∧
      s.totalRewardDebt = -7 ∧ s.lpToken.balances s.self = 4 ∧
      (∑ user, (s.userInfo user).rewardDebt) = -7 ∧ (∑ user, (s.userInfo user).amount) ≤ 4 := by
  have hsteps : Returns
      ((deployed 9 8 (PlainToken.approved 9 1 20 0) (PlainToken.approved 9 1 0 2) 100).initialized
          8 >>=
        fun init => execTrace (execOpen PlainToken.calls PlainToken.calls) [] init
          [(8, .startCampaign 10 0 2), (1, .deposit 2), (1, .wait 1), (1, .doUpdatePool),
            (2, .lpMoves (PlainToken.approved 9 1 5 0)), (1, .wait 1), (1, .withdraw 1 false)])
      fun out => (∀ e ∈ out.1, e.2.1 ≠ e.1.self) ∧ out.2.totalRewardDebt = -7 ∧
        out.2.lpToken.balances out.2.self = 4 := by decide
  obtain ⟨init, trace, s, hreached, hdebt, hbalance⟩ := reachedOpen_of_returns hsteps
  obtain ⟨hsum, hamounts, -⟩ := totals_of_accounts PlainToken.standard hreached
  refine ⟨init, trace, s, hreached, hdebt, hbalance, hsum.symm.trans hdebt, ?_⟩
  exact hamounts.trans hbalance.le

end State

end Liquidity

end InterestDollar
