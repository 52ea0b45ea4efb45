import InterestDollar.Liquidity.Runs

/-!
# Updating the pool more often

Anybody may update the pool at any time. An update moves the reward of the blocks that are due
into the accumulator, rounded down, so updating in the middle of an interval costs at most one
step of the scale against a single update at its end: the blocks before and after it are
rounded apart. It changes nothing that is read in the same block, since the views compute the
accumulator that the update stores.
-/

namespace InterestDollar

open Checked FixedPoint Transition

namespace Liquidity

/-- The functions that move no LP tokens and leave the campaign as it is. -/
def Action.keepsCampaign {ρ ℓ : Type} : Action ρ ℓ → Bool
  | .startCampaign _ _ _ | .stopCampaign | .deposit _ | .exit | .withdraw _ _ => false
  | _ => true

/-- An update of the pool, by whoever it is. -/
def Action.pokes {ρ ℓ : Type} : Action ρ ℓ → Bool
  | .doUpdatePool => true
  | _ => false

namespace State

variable {ρ ℓ : Type} {R : Token ρ} {L : Token ℓ} {s s' x y : State ρ ℓ}

/-! ## When an update goes through -/

/-- The reward of the blocks that are due and the accumulator in force are words. -/
def Fits (L : Token ℓ) (s : State ρ ℓ) : Prop :=
  s.blocksDue * s.rewardPerBlock * fullScale < wordBound ∧ s.accInForce L < wordBound

theorem accrued_fits {acc : ℕ} (h : s.accrued L = .ok acc) : s.Fits L := by
  have hacc := accrued_eq_ok h
  obtain ⟨multiplier, hmultiplier, h⟩ := bind_eq_ok.mp h
  obtain ⟨incReward, hreward, h⟩ := bind_eq_ok.mp h
  obtain ⟨inc, hinc, h⟩ := bind_eq_ok.mp h
  obtain ⟨hfit, hsum⟩ := SafeMath.add_eq_ok.mp h
  obtain ⟨-, rfl⟩ := SafeMath.mul_eq_ok.mp hreward
  obtain ⟨hproduct, -, -⟩ := StableMath.divPrecisely_eq_ok.mp hinc
  rw [Fits, ← getCampaignMultiplier_eq_ok hmultiplier, ← hacc, hsum]
  exact ⟨hproduct, hfit⟩

theorem getCampaignMultiplier_eq (hlast : s.pool.lastRewardBlock < s.blockNumber)
    (hend : s.pool.lastRewardBlock < s.endBlock) :
    s.getCampaignMultiplier s.blockNumber = .ok s.blocksDue := by
  unfold getCampaignMultiplier blocksDue
  rw [if_neg (by omega)]
  refine SafeMath.sub_eq_ok.mpr ?_
  split_ifs <;> omega

theorem accrued_eq (hlast : s.pool.lastRewardBlock < s.blockNumber)
    (hend : s.pool.lastRewardBlock < s.endBlock) (hsupply : s.lpSupply L ≠ 0) (h : s.Fits L) :
    s.accrued L = .ok (s.accInForce L) := by
  have hreward : s.blocksDue * s.rewardPerBlock < wordBound :=
    (Nat.le_mul_of_pos_right _ fullScale_pos).trans_lt h.1
  refine bind_eq_ok.mpr ⟨_, getCampaignMultiplier_eq hlast hend, ?_⟩
  refine bind_eq_ok.mpr ⟨_, SafeMath.mul_eq_ok.mpr ⟨hreward, rfl⟩, ?_⟩
  refine bind_eq_ok.mpr ⟨_, StableMath.divPrecisely_eq_ok.mpr
    ⟨h.1, Nat.pos_of_ne_zero hsupply, rfl⟩, ?_⟩
  exact SafeMath.add_eq_ok.mpr ⟨h.2, rfl⟩

/-- An update goes through exactly where there is nothing to do, or no LP tokens, or the new
accumulator fits. -/
theorem succeeds_updatePool_iff :
    Succeeds (s.updatePool L) ↔
      s.blockNumber ≤ s.pool.lastRewardBlock ∨ s.endBlock ≤ s.pool.lastRewardBlock ∨
        s.lpSupply L = 0 ∨ s.Fits L := by
  unfold updatePool
  split_ifs with hearly hempty
  · refine iff_of_true (succeeds_iff.mpr ⟨s, rfl⟩) ?_
    rcases hearly with hlast | hend
    · exact .inl hlast
    · exact .inr (.inl hend)
  · exact iff_of_true (succeeds_iff.mpr ⟨_, rfl⟩) (.inr (.inr (.inl hempty)))
  · obtain ⟨hlast, hend⟩ := not_or.mp hearly
    constructor
    · intro h
      obtain ⟨t, ht⟩ := succeeds_iff.mp h
      obtain ⟨acc, hacc, -⟩ := bind_eq_ok.mp ht
      exact .inr (.inr (.inr (accrued_fits hacc)))
    · intro h
      have hfits : s.Fits L := by
        rcases h with h | h | h | h
        · exact absurd h hlast
        · exact absurd h hend
        · exact absurd h hempty
        · exact h
      have hacc := accrued_eq (not_le.mp hlast) (not_le.mp hend) hempty hfits
      exact succeeds_iff.mpr ⟨_, bind_eq_ok.mpr ⟨_, hacc, rfl⟩⟩

/-! ## Updating in between -/

/-- The contract at another block. -/
def atBlock (s : State ρ ℓ) (n : ℕ) : State ρ ℓ := { s with blockNumber := n }

/-- Two states of one campaign, the second a number of updates later: it is entitled to the
same blocks at any block from its own on, up to a step of the scale for each update. -/
structure Lags (L : Token ℓ) (updates : ℕ) (s x : State ρ ℓ) : Prop where
  lpSupply : x.lpSupply L = s.lpSupply L
  endBlock : x.endBlock = s.endBlock
  rewardPerBlock : x.rewardPerBlock = s.rewardPerBlock
  lastRewardBlock : s.pool.lastRewardBlock ≤ x.pool.lastRewardBlock
  blocksDue : ∀ n, x.blockNumber ≤ n → (x.atBlock n).blocksDue ≤ (s.atBlock n).blocksDue
  accInForce : ∀ n, x.blockNumber ≤ n →
    (x.atBlock n).accInForce L ≤ (s.atBlock n).accInForce L ∧
      (s.atBlock n).accInForce L ≤ (x.atBlock n).accInForce L + updates

theorem Lags.refl (s : State ρ ℓ) : Lags L 0 s s :=
  ⟨rfl, rfl, rfl, le_rfl, fun _ _ => le_rfl, fun _ _ => ⟨le_rfl, Nat.le_add_right _ _⟩⟩

theorem Lags.trans {k l : ℕ} (h : Lags L k s x) (h' : Lags L l x y)
    (hblock : x.blockNumber ≤ y.blockNumber) : Lags L (k + l) s y where
  lpSupply := h'.lpSupply.trans h.lpSupply
  endBlock := h'.endBlock.trans h.endBlock
  rewardPerBlock := h'.rewardPerBlock.trans h.rewardPerBlock
  lastRewardBlock := h.lastRewardBlock.trans h'.lastRewardBlock
  blocksDue := fun n hn => (h'.blocksDue n hn).trans (h.blocksDue n (hblock.trans hn))
  accInForce := fun n hn => by
    obtain ⟨hle, hlag⟩ := h.accInForce n (hblock.trans hn)
    obtain ⟨hle', hlag'⟩ := h'.accInForce n hn
    exact ⟨hle'.trans hle, by omega⟩

/-- A change of anything but the pool, the campaign and the LP tokens. -/
theorem lags_of_same (hpool : y.pool = x.pool) (hsupply : y.lpSupply L = x.lpSupply L)
    (hend : y.endBlock = x.endBlock) (hrate : y.rewardPerBlock = x.rewardPerBlock) :
    Lags L 0 x y := by
  have hdue : ∀ n, (y.atBlock n).blocksDue = (x.atBlock n).blocksDue := by
    intro n
    simp only [State.blocksDue, atBlock, hpool, hend]
  have hacc : ∀ n, (y.atBlock n).accInForce L = (x.atBlock n).accInForce L := by
    intro n
    have hsame : (y.atBlock n).lpSupply L = (x.atBlock n).lpSupply L := hsupply
    rw [State.accInForce, State.accInForce, hdue, hsame]
    simp only [atBlock, hpool, hrate]
  exact ⟨hsupply, hend, hrate, hpool ▸ le_rfl, fun n _ => (hdue n).le,
    fun n _ => ⟨(hacc n).le, (hacc n).ge.trans (Nat.le_add_right _ _)⟩⟩

/-- The blocks due at a later block are those due now, which an update takes in, and those due
from then on. -/
theorem updated_blocksDue_add (L : Token ℓ) (x : State ρ ℓ) {n : ℕ} (hn : x.blockNumber ≤ n) :
    x.blocksDue + ((x.updated L).atBlock n).blocksDue = (x.atBlock n).blocksDue := by
  unfold State.blocksDue atBlock updated
  dsimp only
  split_ifs <;> omega

theorem updated_lags (L : Token ℓ) (x : State ρ ℓ) : Lags L 1 x (x.updated L) where
  lpSupply := rfl
  endBlock := rfl
  rewardPerBlock := rfl
  lastRewardBlock := by
    unfold updated
    dsimp only
    split_ifs with hearly
    · exact le_rfl
    · omega
  blocksDue := fun n hn => (Nat.le_add_left _ _).trans_eq (updated_blocksDue_add L x hn)
  accInForce := fun n hn => by
    have hsplit : (x.atBlock n).accInForce L = x.pool.accRewardPerShare +
        worth fullScale (x.lpSupply L) (x.blocksDue * x.rewardPerBlock +
          ((x.updated L).atBlock n).blocksDue * x.rewardPerBlock) := by
      rw [← Nat.add_mul, updated_blocksDue_add L x hn]
      rfl
    have hstored : ((x.updated L).atBlock n).accInForce L = x.pool.accRewardPerShare +
        worth fullScale (x.lpSupply L) (x.blocksDue * x.rewardPerBlock) +
          worth fullScale (x.lpSupply L)
            (((x.updated L).atBlock n).blocksDue * x.rewardPerBlock) := rfl
    rw [hsplit, hstored, Nat.add_assoc, Nat.add_assoc]
    constructor
    · exact Nat.add_le_add_left (worth_add_le _ _) _
    · exact Nat.add_le_add_left (worth_add_le_succ _ _) _

/-- A step that keeps the campaign lags by an update where it is one. -/
theorem exec_lags {step : Address × Action ρ ℓ} (hkeeps : step.2.keepsCampaign = true)
    (h : s.exec R L step = .ok s') :
    Lags L (if step.2.pokes then 1 else 0) s s' ∧ s.blockNumber ≤ s'.blockNumber := by
  obtain ⟨sender, action⟩ := step
  cases action with
  | startCampaign | stopCampaign | deposit | exit | withdraw => cases hkeeps
  | doUpdatePool =>
      cases updatePool_eq_ok h
      exact ⟨updated_lags L s, le_rfl⟩
  | claim =>
      obtain ⟨pending, reward, -, -, rfl⟩ := claim_eq_ok h
      exact ⟨lags_of_same rfl rfl rfl rfl, le_rfl⟩
  | _ =>
      have haside := exec_aside rfl h
      exact ⟨lags_of_same haside.pool haside.lpSupply haside.endBlock haside.rewardPerBlock,
        haside.blockNumber⟩

/-- A run that keeps the campaign lags by the updates it makes. -/
theorem run_lags {between : List (State ρ ℓ × (Address × Action ρ ℓ))}
    (h : Run (fun s step s' => s.exec R L step = .ok s') s between x)
    (hkeeps : ∀ e ∈ between, e.2.2.keepsCampaign = true) :
    Lags L (between.countP fun e => e.2.2.pokes) s x := by
  have hrun : Run (fun s step s' => step.2.keepsCampaign = true ∧ s.exec R L step = .ok s') s
      between x :=
    h.imp_of_forall (fun _ step => step.2.keepsCampaign = true)
      (fun _ _ _ hkeeps hs => ⟨hkeeps, hs⟩) hkeeps
  refine hrun.invariant_countP _ (fun updates x => Lags L updates s x) (.refl s) ?_
  intro updates x step y hx ⟨hkeeps, hstep⟩
  obtain ⟨hlags, hblock⟩ := exec_lags hkeeps hstep
  cases hpokes : step.2.pokes with
  | true =>
      rw [hpokes] at hlags
      exact hx.trans hlags hblock
  | false =>
      rw [hpokes] at hlags
      exact hx.trans hlags hblock

/-- An update of the state that lags goes through where one of the other state does, and stores
no more and at most the lag less. -/
theorem Lags.updatePool {updates : ℕ} {t u : State ρ ℓ} (h : Lags L updates s t)
    (hu : (s.atBlock t.blockNumber).updatePool L = .ok u) :
    ∃ t', t.updatePool L = .ok t' ∧ t'.pool.accRewardPerShare ≤ u.pool.accRewardPerShare ∧
      u.pool.accRewardPerShare ≤ t'.pool.accRewardPerShare + updates := by
  obtain ⟨hle, hlag⟩ := h.accInForce t.blockNumber le_rfl
  have hsucceeds : Succeeds (t.updatePool L) := by
    refine succeeds_updatePool_iff.mpr ?_
    rcases succeeds_updatePool_iff.mp (succeeds_iff.mpr ⟨u, hu⟩) with hlast | hend | hempty | hfits
    · exact .inl (hlast.trans h.lastRewardBlock)
    · exact .inr (.inl (h.endBlock.trans_le (hend.trans h.lastRewardBlock)))
    · exact .inr (.inr (.inl (h.lpSupply.trans hempty)))
    · refine .inr (.inr (.inr ⟨?_, hle.trans_lt hfits.2⟩))
      have hdue : t.blocksDue ≤ (s.atBlock t.blockNumber).blocksDue :=
        h.blocksDue t.blockNumber le_rfl
      rw [h.rewardPerBlock]
      exact (Nat.mul_le_mul_right _ (Nat.mul_le_mul_right _ hdue)).trans_lt hfits.1
  obtain ⟨t', ht'⟩ := succeeds_iff.mp hsucceeds
  refine ⟨t', ht', ?_⟩
  rw [updatePool_eq_ok ht', updatePool_eq_ok hu]
  exact ⟨hle, hlag⟩

/-! ## The same block -/

/-- The accumulator that the view uses is the same after an update. -/
theorem pendingRewards_updatePool (h : s.updatePool L = .ok s') (user : Address) :
    s'.pendingRewards L user = s.pendingRewards L user := by
  unfold updatePool at h
  split_ifs at h with hearly hempty
  · cases h
    rfl
  · obtain ⟨hlast, -⟩ := not_or.mp hearly
    cases h
    unfold pendingRewards
    rw [if_pos (not_le.mp hlast), if_neg (not_not.mpr hempty), if_neg (lt_irrefl s.blockNumber)]
  · obtain ⟨hlast, -⟩ := not_or.mp hearly
    obtain ⟨acc, hacc, h⟩ := bind_eq_ok.mp h
    cases pure_eq_ok.mp h
    unfold pendingRewards
    rw [if_pos (not_le.mp hlast), if_pos hempty, hacc, if_neg (lt_irrefl s.blockNumber)]

/-- Where an update fails, the view and so a claim fail in the same way. -/
theorem pendingRewards_of_updatePool_error {e : Revert} (h : s.updatePool L = .error e)
    (user : Address) : s.pendingRewards L user = .error e := by
  unfold updatePool at h
  split_ifs at h with hearly hempty
  obtain ⟨hlast, -⟩ := not_or.mp hearly
  rcases bind_eq_error.mp h with hacc | ⟨acc, -, hnone⟩
  · refine bind_eq_error.mpr (.inl ?_)
    rw [if_pos (not_le.mp hlast), if_pos hempty, hacc]
  · exact (pure_eq_error.mp hnone).elim

/-- A claim after an update is the claim without it, whether it pays or fails, but for the pool
it leaves. -/
theorem claim_updatePool (s : State ρ ℓ) (sender : Address) :
    (do let t ← s.updatePool L; t.claim R L sender) =
      (do let s' ← s.claim R L sender; return { s' with pool := (s.updated L).pool }) := by
  cases ht : s.updatePool L with
  | error e =>
      have hpending := pendingRewards_of_updatePool_error ht sender
      unfold claim
      rw [hpending]
      rfl
  | ok t =>
      have hpending := pendingRewards_updatePool ht sender
      cases updatePool_eq_ok ht
      change (s.updated L).claim R L sender = _
      unfold claim
      rw [hpending]
      simp only [bind_assoc, pure_bind]
      refine bind_eq_bind fun pending _ => ?_
      exact bind_eq_bind fun reward _ => rfl

/-- In any state, updates of the pool by anybody while no LP tokens move and the campaign stays
as it is cost an update at the end at most one step of the scale each, an update leaves what is
pending for every account in its block, and a claim pays the same, or fails the same, with an
update before it. -/
theorem poking_harmless (s : State ρ ℓ) :
    (∀ between t u, Run (fun s step s' => s.exec R L step = .ok s') s between t →
      (∀ e ∈ between, e.2.2.keepsCampaign = true) →
      State.updatePool L { s with blockNumber := t.blockNumber } = .ok u →
      ∃ t', t.updatePool L = .ok t' ∧ t'.pool.accRewardPerShare ≤ u.pool.accRewardPerShare ∧
        u.pool.accRewardPerShare ≤
          t'.pool.accRewardPerShare + between.countP fun e => e.2.2.pokes) ∧
    (∀ s', s.updatePool L = .ok s' →
      ∀ user, s'.pendingRewards L user = s.pendingRewards L user) ∧
    ∀ sender, (do let t ← s.doUpdatePool L; t.claim R L sender) =
      (do let s' ← s.claim R L sender; return { s' with pool := (s.updated L).pool }) :=
  ⟨fun _ _ _ hrun hkeeps hu => (run_lags hrun hkeeps).updatePool hu,
    fun _ hs => pendingRewards_updatePool hs, claim_updatePool s⟩

/-- One reward a block among 3 LP tokens: three blocks together give each token a whole one, and
updated block by block they leave it a step of the scale short. -/
theorem poking_harmless_thirds :
    ∃ init trace s between t u t', Reached PlainToken.calls PlainToken.calls init trace s ∧
      Run (fun s step s' => s.exec PlainToken.calls PlainToken.calls step = .ok s') s between t ∧
      between.countP (fun e => e.2.2.pokes) = 2 ∧
      State.updatePool PlainToken.calls { s with blockNumber := t.blockNumber } = .ok u ∧
      t.updatePool PlainToken.calls = .ok t' ∧
      u.pool.accRewardPerShare = 10 ^ 18 ∧ t'.pool.accRewardPerShare = 10 ^ 18 - 1 ∧
      u.pool.accRewardPerShare ≤ t'.pool.accRewardPerShare + 2 := by
  have hsteps : Returns
      ((deployed 9 8 (PlainToken.approved 9 1 6 0) (PlainToken.approved 9 1 0 3) 100).initialized
          8 >>=
        fun init => execTrace (exec PlainToken.calls PlainToken.calls) [] init
          [(8, .startCampaign 1 0 3), (1, .deposit 3)])
      fun out => (∀ e ∈ out.1, e.2.1 ≠ e.1.self) ∧
        Returns (execTrace (exec PlainToken.calls PlainToken.calls) [] out.2
            [(1, .wait 1), (2, .doUpdatePool), (1, .wait 1), (2, .doUpdatePool), (1, .wait 1)])
          fun out' => (∀ e ∈ out'.1, e.2.2.keepsCampaign = true) ∧
            out'.1.countP (fun e => e.2.2.pokes) = 2 ∧
            Returns (State.updatePool PlainToken.calls
                { out.2 with blockNumber := out'.2.blockNumber })
              (fun u => u.pool.accRewardPerShare = 10 ^ 18) ∧
            Returns (out'.2.updatePool PlainToken.calls)
              fun t' => t'.pool.accRewardPerShare = 10 ^ 18 - 1 := by decide
  obtain ⟨init, trace, s, hreached, ⟨between, t⟩, hout, hkeeps, hpokes, ⟨u, hu, hsingle⟩, t', ht',
    hthirds⟩ := reached_of_returns hsteps
  have hrun := run_of_execTrace (.nil : Run _ s [] s) hout
  obtain ⟨t'', ht'', -, hlag⟩ := (poking_harmless (R := PlainToken.calls) s).1 between t u hrun
    hkeeps hu
  cases ht'.symm.trans ht''
  rw [hpokes] at hlag
  exact ⟨init, trace, s, between, t, u, t', hreached, hrun, hpokes, hu, ht', hsingle, hthirds, hlag⟩

end State

end Liquidity

end InterestDollar
