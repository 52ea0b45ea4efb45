import InterestDollar.FixedPoint.Portion
import InterestDollar.Strategy.Operability
import InterestDollar.Strategy.Payout
import Mathlib.Data.Nat.ModEq

/-!
# What the Aave strategy reports

The reported balance of an asset is what the strategy has of its aToken, and the share in the
pool's aTokens that its LP tokens stand for. Two views compute that share. The one that the
vault reads takes the staked LP tokens and leaves the others out; the other takes both.

The share is told from the addresses of the staking contract and the pool, so that changing
these can change what is reported, where no token has moved.
-/

namespace InterestDollar

open Checked FixedPoint Transition

/-- What there is of a token. -/
def Platform.issued {ω : Type} (P : Platform ω) (w : ω) (token : Address) : ℕ :=
  amountOf (P.totalSupply w token)

theorem Platform.balanceOf_eq_held {ω : Type} {P : Platform ω} {w : ω} {token holder : Address}
    (h : Succeeds (P.balanceOf w token holder)) :
    P.balanceOf w token holder = .ok (P.held w token holder) := by
  obtain ⟨balance, hbalance⟩ := succeeds_iff.mp h
  rw [Platform.held, amountOf_eq hbalance, hbalance]

theorem Platform.totalSupply_eq_issued {ω : Type} {P : Platform ω} {w : ω} {token : Address}
    (h : Succeeds (P.totalSupply w token)) : P.totalSupply w token = .ok (P.issued w token) := by
  obtain ⟨supply, hsupply⟩ := succeeds_iff.mp h
  rw [Platform.issued, amountOf_eq hsupply, hsupply]

namespace AaveStrategy

variable {ω : Type} (P : Platform ω) (s : AaveStrategy) (w : ω) (asset : Address)

/-- What the strategy has of the aToken of an asset. -/
def lent : ℕ := P.held w (s.assetToPToken asset) s.self

/-- The LP tokens that the strategy has staked. -/
def stakedLP : ℕ := P.held w s.ubeStakingAddress s.self

/-- The LP tokens that the strategy has itself. -/
def looseLP : ℕ := P.held w s.rewardPoolAddress s.self

/-- What the pool has of the aToken of an asset. -/
def pooled : ℕ := P.held w (s.assetToPToken asset) s.rewardPoolAddress

/-- The share of an amount of LP tokens in the pool's aTokens of an asset, rounded down. -/
def pooledShare (liquidity : ℕ) : ℕ :=
  shares (P.issued w s.rewardPoolAddress) (s.pooled P w asset) liquidity

/-- The strategy can tell a share in the pool. -/
structure PoolAnswers : Prop where
  pair : s.rewardLiquidityPair asset ≠ 0
  aToken : s.assetToPToken asset ≠ 0
  pool : s.rewardPoolAddress ≠ 0
  pooled : Succeeds (P.balanceOf w (s.assetToPToken asset) s.rewardPoolAddress)
  issued : Succeeds (P.totalSupply w s.rewardPoolAddress)

/-- The strategy can tell how many LP tokens it has, staked and not. -/
structure LPAnswers : Prop where
  pool : s.rewardPoolAddress ≠ 0
  staked : Succeeds (P.balanceOf w s.ubeStakingAddress s.self)
  loose : Succeeds (P.balanceOf w s.rewardPoolAddress s.self)
  sum : s.stakedLP P w + s.looseLP P w < wordBound

variable {P s w asset}

theorem ownBalance_iff {t : AbstractStrategy} {token : Address} {balance : ℕ} :
    t.ownBalance P w token = .ok balance ↔
      token ≠ 0 ∧ Succeeds (P.balanceOf w token t.self) ∧ balance = P.held w token t.self := by
  rw [AbstractStrategy.ownBalance, callAt_eq_ok]
  refine and_congr_right fun _ => ⟨fun h => ?_, fun ⟨hsucceeds, heq⟩ => ?_⟩
  · exact ⟨succeeds_iff.mpr ⟨_, h⟩, (amountOf_eq h).symm⟩
  · rw [heq, Platform.balanceOf_eq_held hsucceeds]

theorem lpShare_eq_ok {liquidity value : ℕ} :
    s.lpShare P w asset liquidity = .ok value ↔
      liquidity ≠ 0 ∧ s.PoolAnswers P w asset ∧
        (P.issued w s.rewardPoolAddress ≠ 0 → liquidity * s.pooled P w asset < wordBound) ∧
          value = s.pooledShare P w asset liquidity := by
  simp only [lpShare, bind_eq_ok, own_require, callAt_eq_ok]
  constructor
  · rintro ⟨_, hpair, _, hliquidity, balance, ⟨haToken, hbalance⟩, supply, ⟨hpool, hsupply⟩, h⟩
    have hheld : s.pooled P w asset = balance := amountOf_eq hbalance
    have hissued : P.issued w s.rewardPoolAddress = supply := amountOf_eq hsupply
    have hanswers : s.PoolAnswers P w asset :=
      ⟨hpair, haToken, hpool, succeeds_iff.mpr ⟨_, hbalance⟩, succeeds_iff.mpr ⟨_, hsupply⟩⟩
    rw [pooledShare, shares, hheld, hissued]
    by_cases hzero : supply = 0
    · rw [if_neg (not_not.mpr hzero)] at h
      cases pure_eq_ok.mp h
      exact ⟨hliquidity, hanswers, fun hne => absurd hzero hne, by rw [hzero, Nat.div_zero]⟩
    · rw [if_pos hzero] at h
      obtain ⟨product, hproduct, h⟩ := bind_eq_ok.mp h
      obtain ⟨hfits, rfl⟩ := SafeMath.mul_eq_ok.mp (own_eq_ok.mp hproduct)
      exact ⟨hliquidity, hanswers, fun _ => hfits, (pure_eq_ok.mp h).symm⟩
  · rintro ⟨hliquidity, hanswers, hfits, rfl⟩
    refine ⟨(), hanswers.pair, (), hliquidity,
      _, ⟨hanswers.aToken, Platform.balanceOf_eq_held hanswers.pooled⟩,
      _, ⟨hanswers.pool, Platform.totalSupply_eq_issued hanswers.issued⟩, ?_⟩
    by_cases hzero : P.issued w s.rewardPoolAddress = 0
    · rw [if_neg (not_not.mpr hzero), pooledShare, shares, hzero, Nat.div_zero]
      rfl
    · rw [if_pos hzero]
      exact bind_eq_ok.mpr ⟨_, own_eq_ok.mpr (SafeMath.mul_eq_ok.mpr ⟨hfits hzero, rfl⟩), rfl⟩

theorem LPAnswers.of_reads {staked loose sum : ℕ}
    (hstaked : s.ownBalance P w s.ubeStakingAddress = .ok staked)
    (hloose : s.ownBalance P w s.rewardPoolAddress = .ok loose)
    (hsum : own (SafeMath.add staked loose) = .ok sum) :
    s.LPAnswers P w ∧ staked = s.stakedLP P w ∧ sum = s.stakedLP P w + s.looseLP P w := by
  obtain ⟨-, hstakedOk, rfl⟩ := ownBalance_iff.mp hstaked
  obtain ⟨hpool, hlooseOk, rfl⟩ := ownBalance_iff.mp hloose
  obtain ⟨hfits, rfl⟩ := SafeMath.add_eq_ok.mp (own_eq_ok.mp hsum)
  exact ⟨⟨hpool, hstakedOk, hlooseOk, hfits⟩, rfl, rfl⟩

/-- What the vault's view returns: where a staking contract is set and something is staked, the
share of that is added, and the sum may wrap around. -/
theorem checkBalance_eq_ok {value : ℕ} :
    s.checkBalance P w asset = .ok value ↔
      s.assetToPToken asset ≠ 0 ∧ Succeeds (P.balanceOf w (s.assetToPToken asset) s.self) ∧
        (s.ubeStakingAddress ≠ 0 → s.LPAnswers P w) ∧
          (if s.ubeStakingAddress ≠ 0 ∧ s.stakedLP P w ≠ 0 then
            s.PoolAnswers P w asset ∧
              (P.issued w s.rewardPoolAddress ≠ 0 →
                s.stakedLP P w * s.pooled P w asset < wordBound) ∧
                value =
                  (s.lent P w asset + s.pooledShare P w asset (s.stakedLP P w)) % wordBound
          else value = s.lent P w asset) := by
  simp only [checkBalance, bind_eq_ok]
  constructor
  · rintro ⟨aToken, haToken, balance, hbalance, h⟩
    obtain ⟨hmapped, rfl⟩ := getATokenFor_eq_ok.mp haToken
    obtain ⟨-, hlent, rfl⟩ := ownBalance_iff.mp hbalance
    refine ⟨hmapped, hlent, ?_⟩
    by_cases hstaking : s.ubeStakingAddress = 0
    · rw [if_neg (not_not.mpr hstaking)] at h
      rw [if_neg fun hboth => hboth.1 hstaking]
      exact ⟨fun hne => absurd hstaking hne, (pure_eq_ok.mp h).symm⟩
    · rw [if_pos hstaking] at h
      obtain ⟨staked, hstaked, h⟩ := bind_eq_ok.mp h
      obtain ⟨loose, hloose, h⟩ := bind_eq_ok.mp h
      obtain ⟨sum, hsum, h⟩ := bind_eq_ok.mp h
      obtain ⟨hanswers, rfl, -⟩ := LPAnswers.of_reads hstaked hloose hsum
      refine ⟨fun _ => hanswers, ?_⟩
      by_cases hnone : s.stakedLP P w = 0
      · rw [if_neg (not_not.mpr hnone)] at h
        rw [if_neg fun hboth => hboth.2 hnone]
        exact (pure_eq_ok.mp h).symm
      · rw [if_pos hnone] at h
        rw [if_pos ⟨hstaking, hnone⟩]
        obtain ⟨amountLP, hshare, h⟩ := bind_eq_ok.mp h
        obtain ⟨-, hpool, hfits, rfl⟩ := lpShare_eq_ok.mp hshare
        exact ⟨hpool, hfits, (pure_eq_ok.mp h).symm⟩
  · rintro ⟨hmapped, hlent, hlp, hvalue⟩
    refine ⟨_, getATokenFor_eq_ok.mpr ⟨hmapped, rfl⟩, _,
      ownBalance_iff.mpr ⟨hmapped, hlent, rfl⟩, ?_⟩
    by_cases hstaking : s.ubeStakingAddress = 0
    · rw [if_neg fun hboth => hboth.1 hstaking] at hvalue
      rw [if_neg (not_not.mpr hstaking), hvalue]
      rfl
    · have hanswers := hlp hstaking
      rw [if_pos hstaking]
      refine bind_eq_ok.mpr ⟨_, ownBalance_iff.mpr ⟨hstaking, hanswers.staked, rfl⟩, ?_⟩
      refine bind_eq_ok.mpr ⟨_, ownBalance_iff.mpr ⟨hanswers.pool, hanswers.loose, rfl⟩, ?_⟩
      refine bind_eq_ok.mpr ⟨_, own_eq_ok.mpr (SafeMath.add_eq_ok.mpr ⟨hanswers.sum, rfl⟩), ?_⟩
      by_cases hnone : s.stakedLP P w = 0
      · rw [if_neg fun hboth => hboth.2 hnone] at hvalue
        rw [hvalue]
        exact if_neg (not_not.mpr hnone)
      · rw [if_pos ⟨hstaking, hnone⟩] at hvalue
        obtain ⟨hpool, hfits, rfl⟩ := hvalue
        refine (if_pos hnone).trans (bind_eq_ok.mpr ⟨_, ?_, rfl⟩)
        exact lpShare_eq_ok.mpr ⟨hnone, hpool, hfits, rfl⟩

/-- What the other view returns: the share of all LP tokens. -/
theorem checkLPBalance_eq_ok {value : ℕ} (h : s.checkLPBalance P w asset = .ok value) :
    s.LPAnswers P w ∧
      (s.stakedLP P w + s.looseLP P w ≠ 0 → s.PoolAnswers P w asset ∧
        (P.issued w s.rewardPoolAddress ≠ 0 →
          (s.stakedLP P w + s.looseLP P w) * s.pooled P w asset < wordBound)) ∧
        value = s.pooledShare P w asset (s.stakedLP P w + s.looseLP P w) := by
  obtain ⟨staked, hstaked, h⟩ := bind_eq_ok.mp h
  obtain ⟨loose, hloose, h⟩ := bind_eq_ok.mp h
  obtain ⟨sum, hsum, h⟩ := bind_eq_ok.mp h
  obtain ⟨hanswers, rfl, rfl⟩ := LPAnswers.of_reads hstaked hloose hsum
  refine ⟨hanswers, ?_⟩
  by_cases hnone : s.stakedLP P w + s.looseLP P w = 0
  · rw [if_neg (not_not.mpr hnone)] at h
    refine ⟨fun hne => absurd hnone hne, ?_⟩
    rw [hnone, pooledShare, shares, Nat.zero_mul, Nat.zero_div]
    exact (pure_eq_ok.mp h).symm
  · rw [if_pos hnone] at h
    obtain ⟨-, hpool, hfits, rfl⟩ := lpShare_eq_ok.mp h
    exact ⟨fun _ => ⟨hpool, hfits⟩, rfl⟩

/-! ## All LP tokens -/

theorem pooledShare_zero : s.pooledShare P w asset 0 = 0 := by
  rw [pooledShare, shares, Nat.zero_mul, Nat.zero_div]

/-- More LP tokens stand for no more exactly where they do not make up another unit. -/
theorem pooledShare_add_eq_iff {k l : ℕ} :
    s.pooledShare P w asset (k + l) = s.pooledShare P w asset k ↔
      P.issued w s.rewardPoolAddress = 0 ∨
        k * s.pooled P w asset % P.issued w s.rewardPoolAddress + l * s.pooled P w asset <
          P.issued w s.rewardPoolAddress := by
  rcases Nat.eq_zero_or_pos (P.issued w s.rewardPoolAddress) with hzero | hpos
  · simp only [pooledShare, shares, hzero, Nat.div_zero, true_or]
  · rw [pooledShare, pooledShare, shares_add_eq_left_iff hpos]
    exact (or_iff_right hpos.ne').symm

/-- The LP tokens that are not staked do not make up another unit of the aToken, and the sum of
the balance and the share does not wrap around. -/
structure CountsAll (P : Platform ω) (s : AaveStrategy) (w : ω) (asset : Address) : Prop where
  loose : P.issued w s.rewardPoolAddress = 0 ∨
    s.stakedLP P w * s.pooled P w asset % P.issued w s.rewardPoolAddress +
      s.looseLP P w * s.pooled P w asset < P.issued w s.rewardPoolAddress
  noWrap : s.stakedLP P w ≠ 0 →
    s.lent P w asset + s.pooledShare P w asset (s.stakedLP P w) < wordBound

/-- Where a staking contract is set and the two other views answer, the reported balance is the
aTokens and the share of all LP tokens exactly where the ones that are not staked count for
nothing. -/
theorem checkBalance_complete_iff {own lp : ℕ} (hstaking : s.ubeStakingAddress ≠ 0)
    (hown : s.ownBalance P w (s.assetToPToken asset) = .ok own)
    (hlp : s.checkLPBalance P w asset = .ok lp) :
    lp = s.pooledShare P w asset (s.stakedLP P w + s.looseLP P w) ∧
      (s.checkBalance P w asset = .ok (own + lp) ↔ s.CountsAll P w asset) := by
  obtain ⟨hmapped, hlent, hown⟩ := ownBalance_iff.mp hown
  obtain ⟨hanswers, hpool, hvalue⟩ := checkLPBalance_eq_ok hlp
  have hown : own = s.lent P w asset := hown
  have hless : s.pooledShare P w asset (s.stakedLP P w) ≤ lp := by
    rw [hvalue]
    exact shares_mono (Nat.le_add_right _ _)
  have hloose : lp = s.pooledShare P w asset (s.stakedLP P w) ↔ _ :=
    hvalue ▸ pooledShare_add_eq_iff
  refine ⟨hvalue, ?_⟩
  rw [checkBalance_eq_ok, hown]
  by_cases hnone : s.stakedLP P w = 0
  · rw [if_neg fun hboth => hboth.2 hnone]
    rw [hnone, pooledShare_zero] at hloose
    constructor
    · rintro ⟨-, -, -, hsum⟩
      refine ⟨?_, fun hsome => absurd hnone hsome⟩
      rw [hnone]
      exact hloose.mp (by omega)
    · rintro ⟨hcount, -⟩
      rw [hnone] at hcount
      exact ⟨hmapped, hlent, fun _ => hanswers, by rw [hloose.mpr hcount, Nat.add_zero]⟩
  · rw [if_pos ⟨hstaking, hnone⟩]
    constructor
    · rintro ⟨-, -, -, -, -, hsum⟩
      have hle : (s.lent P w asset + s.pooledShare P w asset (s.stakedLP P w)) % wordBound ≤ _ :=
        Nat.mod_le _ _
      have heq : lp = s.pooledShare P w asset (s.stakedLP P w) := by omega
      refine ⟨hloose.mp heq, fun _ => ?_⟩
      rw [← heq, hsum]
      exact Nat.mod_lt _ (Nat.pos_of_ne_zero (by decide))
    · rintro ⟨hcount, hwrap⟩
      have heq : lp = s.pooledShare P w asset (s.stakedLP P w) := hloose.mpr hcount
      obtain ⟨hpool, hfits⟩ := hpool (by omega)
      refine ⟨hmapped, hlent, fun _ => hanswers, hpool, fun hsome => ?_, ?_⟩
      · exact (Nat.mul_le_mul_right _ (Nat.le_add_right _ _)).trans_lt (hfits hsome)
      · rw [heq, Nat.mod_eq_of_lt (hwrap hnone)]

section

open PlainPlatform

/-- Ten units of an asset to deposit and ten LP tokens at the strategy, all of a pool that has
twenty of the aToken. -/
def pooledPlain : PlainPlatform := (funded.create 52 21 10).create 31 52 20

/-- A deposit stakes the LP tokens, and all of them are counted. -/
theorem checkBalance_complete_staked :
    ∃ init trace s, initializedPlain [4, 5] 60 = .ok init ∧
      Run (fun s step s' => exec (calls market) s step = .ok s') init trace s ∧
        s.1.stakedLP (calls market) s.2 = 10 ∧
          s.1.checkBalance (calls market) s.2 4 = .ok (10 + 20) := by
  have hsteps : Returns (initializedPlain [4, 5] 60) fun init =>
      Returns (exec (calls market) init (3, .environment pooledPlain)) fun s₁ =>
        Returns (exec (calls market) s₁ (9, .operate (.deposit 4 10))) fun s =>
          s.1.ubeStakingAddress ≠ 0 ∧
            s.1.ownBalance (calls market) s.2 (s.1.assetToPToken 4) = .ok 10 ∧
              s.1.checkLPBalance (calls market) s.2 4 = .ok 20 ∧
                s.1.stakedLP (calls market) s.2 = 10 ∧
                  s.1.stakedLP (calls market) s.2 * s.1.pooled (calls market) s.2 4 %
                      (calls market).issued s.2 s.1.rewardPoolAddress +
                    s.1.looseLP (calls market) s.2 * s.1.pooled (calls market) s.2 4 <
                      (calls market).issued s.2 s.1.rewardPoolAddress ∧
                    s.1.lent (calls market) s.2 4 + s.1.pooledShare (calls market) s.2 4
                      (s.1.stakedLP (calls market) s.2) < wordBound := by
    decide
  obtain ⟨init, hinit, s₁, hgiven, s, hdeposit, hstaking, hown, hlp, hstaked, hloose, hwrap⟩ :=
    hsteps
  exact ⟨init, _, s, hinit, (Run.nil.cons hgiven).cons hdeposit, hstaked,
    (checkBalance_complete_iff hstaking hown hlp).2.mpr ⟨.inr hloose, fun _ => hwrap⟩⟩

/-- LP tokens that were sent to the strategy are counted by one view and not by the other. -/
theorem checkBalance_incomplete :
    Returns (initializedPlain [4, 5] 60) fun init =>
      Returns (exec (calls market) init (3, .environment pooledPlain)) fun s =>
        s.1.ubeStakingAddress = 60 ∧ s.1.rewardLiquidityPair 4 = 5 ∧
          s.1.ownBalance (calls market) s.2 (s.1.assetToPToken 4) = .ok 0 ∧
            s.1.checkLPBalance (calls market) s.2 4 = .ok 20 ∧
              s.1.checkBalance (calls market) s.2 4 = .ok 0 := by
  decide

end

/-! ## Other addresses -/

section Addresses

variable (P : Platform ω) (b : AbstractStrategy) (w : ω) (asset staking pool partner : Address)

/-- The share in a pool, of its aTokens of an asset, that the LP tokens at a staking contract stand
for, rounded down. Without a staking contract there is none. -/
def shareAt : ℕ :=
  if staking ≠ 0 then
    P.held w staking b.self * P.held w (b.assetToPToken asset) pool / P.issued w pool
  else 0

/-- What is reported with a staking contract and a pool: the aTokens and the share, as a word. -/
def reportAt : ℕ :=
  (P.held w (b.assetToPToken asset) b.self + shareAt P b w asset staking pool) % wordBound

/-- The share can be told: the contracts that are asked answer, there is a pool and, where
something is staked, a partner of the asset, and nothing overflows. -/
structure ShareAnswers : Prop where
  hasPool : pool ≠ 0
  staked : Succeeds (P.balanceOf w staking b.self)
  loose : Succeeds (P.balanceOf w pool b.self)
  sum : P.held w staking b.self + P.held w pool b.self < wordBound
  hasPartner : P.held w staking b.self ≠ 0 → partner ≠ 0
  pooled : P.held w staking b.self ≠ 0 → Succeeds (P.balanceOf w (b.assetToPToken asset) pool)
  issued : P.held w staking b.self ≠ 0 → Succeeds (P.totalSupply w pool)
  product : P.held w staking b.self ≠ 0 → P.issued w pool ≠ 0 →
    P.held w staking b.self * P.held w (b.assetToPToken asset) pool < wordBound

/-- The balance can be told. -/
structure BalanceAnswers : Prop where
  mapped : b.assetToPToken asset ≠ 0
  lent : Succeeds (P.balanceOf w (b.assetToPToken asset) b.self)
  share : staking ≠ 0 → ShareAnswers P b w asset staking pool partner

end Addresses

/-- Approving a spender moves no tokens and issues none. -/
structure ApprovalsMoveNothing (P : Platform ω) : Prop where
  balanceOf {w w' : ω} {caller token spender : Address} {amount : ℕ} :
    P.approve w caller token spender amount = .ok w' → P.balanceOf w' = P.balanceOf w
  totalSupply {w w' : ω} {caller token spender : Address} {amount : ℕ} :
    P.approve w caller token spender amount = .ok w' → P.totalSupply w' = P.totalSupply w

section

variable {b : AbstractStrategy} {staking staking' pool pool' partner partner' : Address}

theorem shareAt_of_none (h : ¬ (staking ≠ 0 ∧ P.held w staking b.self ≠ 0)) :
    shareAt P b w asset staking pool = 0 := by
  rw [shareAt]
  split_ifs with hstaking
  · rw [not_and_not_right.mp h hstaking, Nat.zero_mul, Nat.zero_div]
  · rfl

theorem BalanceAnswers.shareAt_lt (h : BalanceAnswers P b w asset staking pool partner) :
    shareAt P b w asset staking pool < wordBound := by
  have hpos : 0 < wordBound := Nat.pos_of_ne_zero (by decide)
  by_cases hboth : staking ≠ 0 ∧ P.held w staking b.self ≠ 0
  · rw [shareAt, if_pos hboth.1]
    rcases Nat.eq_zero_or_pos (P.issued w pool) with hzero | hsome
    · rw [hzero, Nat.div_zero]
      exact hpos
    · exact (Nat.div_le_self _ _).trans_lt ((h.share hboth.1).product hboth.2 hsome.ne')
  · rwa [shareAt_of_none hboth]

/-- With the same aTokens, what is reported is the same exactly where the share is. -/
theorem BalanceAnswers.reportAt_eq_iff (h : BalanceAnswers P b w asset staking pool partner)
    (h' : BalanceAnswers P b w asset staking' pool' partner') :
    reportAt P b w asset staking' pool' = reportAt P b w asset staking pool ↔
      shareAt P b w asset staking' pool' = shareAt P b w asset staking pool := by
  constructor
  · intro heq
    have hcancel : Nat.ModEq wordBound (shareAt P b w asset staking' pool')
        (shareAt P b w asset staking pool) :=
      Nat.ModEq.add_left_cancel' (P.held w (b.assetToPToken asset) b.self) heq
    exact hcancel.eq_of_lt_of_lt h'.shareAt_lt h.shareAt_lt
  · intro heq
    rw [reportAt, reportAt, heq]

/-- The same is reported at two pairs of addresses exactly where both can be told or neither,
and the two shares are equal. -/
theorem reports_eq_iff :
    (∀ value, BalanceAnswers P b w asset staking' pool' partner' ∧
        value = reportAt P b w asset staking' pool' ↔
      BalanceAnswers P b w asset staking pool partner ∧
        value = reportAt P b w asset staking pool) ↔
      (BalanceAnswers P b w asset staking' pool' partner' ↔
        BalanceAnswers P b w asset staking pool partner) ∧
      (BalanceAnswers P b w asset staking pool partner →
        shareAt P b w asset staking' pool' = shareAt P b w asset staking pool) := by
  constructor
  · intro hall
    have hanswers : BalanceAnswers P b w asset staking' pool' partner' ↔
        BalanceAnswers P b w asset staking pool partner :=
      ⟨fun h => ((hall _).mp ⟨h, rfl⟩).1, fun h => ((hall _).mpr ⟨h, rfl⟩).1⟩
    refine ⟨hanswers, fun h => ?_⟩
    exact (h.reportAt_eq_iff (hanswers.mpr h)).mp ((hall _).mpr ⟨h, rfl⟩).2.symm
  · rintro ⟨hanswers, hshare⟩ value
    rw [hanswers]
    refine and_congr_right fun h => ?_
    rw [(h.reportAt_eq_iff (hanswers.mpr h)).mpr (hshare h)]

/-- What `checkBalance` returns and where it returns, told from the addresses that are set. -/
theorem checkBalance_eq_ok_iff {value : ℕ} (hlent : s.lent P w asset < wordBound) :
    s.checkBalance P w asset = .ok value ↔
      BalanceAnswers P s.toAbstractStrategy w asset s.ubeStakingAddress s.rewardPoolAddress
          (s.rewardLiquidityPair asset) ∧
        value = reportAt P s.toAbstractStrategy w asset s.ubeStakingAddress s.rewardPoolAddress := by
  have hshare : s.ubeStakingAddress ≠ 0 ∧ s.stakedLP P w ≠ 0 →
      s.pooledShare P w asset (s.stakedLP P w) = shareAt P s.toAbstractStrategy w asset
        s.ubeStakingAddress s.rewardPoolAddress := fun hboth => (if_pos hboth.1).symm
  rw [checkBalance_eq_ok]
  by_cases hboth : s.ubeStakingAddress ≠ 0 ∧ s.stakedLP P w ≠ 0
  · rw [if_pos hboth, hshare hboth]
    constructor
    · rintro ⟨hmapped, hown, hlp, hpool, hfits, hvalue⟩
      have hanswers := hlp hboth.1
      exact ⟨⟨hmapped, hown, fun _ => ⟨hanswers.pool, hanswers.staked, hanswers.loose, hanswers.sum,
        fun _ => hpool.pair, fun _ => hpool.pooled, fun _ => hpool.issued, fun _ => hfits⟩⟩, hvalue⟩
    · rintro ⟨⟨hmapped, hown, htold⟩, hvalue⟩
      obtain ⟨hpool, hstaked, hloose, hsum, hpartner, hpooled, hissued, hproduct⟩ := htold hboth.1
      exact ⟨hmapped, hown, fun _ => ⟨hpool, hstaked, hloose, hsum⟩,
        ⟨hpartner hboth.2, hmapped, hpool, hpooled hboth.2, hissued hboth.2⟩, hproduct hboth.2,
        hvalue⟩
  · have hvalue : reportAt P s.toAbstractStrategy w asset s.ubeStakingAddress
        s.rewardPoolAddress = s.lent P w asset := by
      rw [reportAt, shareAt_of_none hboth, Nat.add_zero]
      exact Nat.mod_eq_of_lt hlent
    rw [if_neg hboth, hvalue]
    constructor
    · rintro ⟨hmapped, hown, hlp, rfl⟩
      refine ⟨⟨hmapped, hown, fun hstaking => ?_⟩, rfl⟩
      have hanswers := hlp hstaking
      have hnone : ∀ {p : Prop}, P.held w s.ubeStakingAddress s.self ≠ 0 → p :=
        fun hsome => absurd ⟨hstaking, hsome⟩ hboth
      exact ⟨hanswers.pool, hanswers.staked, hanswers.loose, hanswers.sum, hnone, hnone, hnone,
        hnone⟩
    · rintro ⟨⟨hmapped, hown, htold⟩, rfl⟩
      refine ⟨hmapped, hown, fun hstaking => ?_, rfl⟩
      have hanswers := htold hstaking
      exact ⟨hanswers.hasPool, hanswers.staked, hanswers.loose, hanswers.sum⟩

end

/-- The view asks for balances and supplies only. -/
theorem checkBalance_congr {w' : ω} (hbalance : P.balanceOf w' = P.balanceOf w)
    (hsupply : P.totalSupply w' = P.totalSupply w) :
    s.checkBalance P w' asset = s.checkBalance P w asset := by
  simp only [checkBalance, lpShare, AbstractStrategy.ownBalance, hbalance, hsupply]

theorem approveMax_views (hmoves : ApprovalsMoveNothing P) {lpPair spender : Address} {w' : ω}
    (h : s.approveMax P w lpPair spender = .ok w') :
    P.balanceOf w' = P.balanceOf w ∧ P.totalSupply w' = P.totalSupply w := by
  obtain ⟨w₁, hfirst, hsecond⟩ := bind_eq_ok.mp h
  have hfirst := (callAt_eq_ok.mp hfirst).2
  have hsecond := (callAt_eq_ok.mp hsecond).2
  exact ⟨(hmoves.balanceOf hsecond).trans (hmoves.balanceOf hfirst),
    (hmoves.totalSupply hsecond).trans (hmoves.totalSupply hfirst)⟩

/-- The pool that is set is the one the router names for the aTokens of the two assets. -/
theorem pairFor_eq_ok {token1 token2 lpPair : Address}
    (h : s.pairFor P w token1 token2 = .ok lpPair) :
    P.pairFor w s.uniswapAddr (s.assetToPToken token1) (s.assetToPToken token2) = .ok lpPair := by
  obtain ⟨aToken1, haToken1, h⟩ := bind_eq_ok.mp h
  obtain ⟨aToken2, haToken2, h⟩ := bind_eq_ok.mp h
  obtain ⟨-, rfl⟩ := getATokenFor_eq_ok.mp haToken1
  obtain ⟨-, rfl⟩ := getATokenFor_eq_ok.mp haToken2
  exact (callAt_eq_ok.mp h).2

/-- The setters of the router and of the secondary reward token change no reported balance.
After that of the staking contract, the balance is told from the contract it is given, and after
that of the pool from the router's pool for the two assets it is given: it is the same as before,
or fails as before, exactly where it can be told at the addresses before and after or at neither,
and the share of the LP tokens is the same at both. -/
theorem addresses_keep_balance_iff (hmoves : ApprovalsMoveNothing P) (s : AaveStrategy) (w : ω)
    (sender asset : Address) (hlent : s.lent P w asset < wordBound) :
    (∀ router t, s.setUniswapAddress sender router = .ok t →
        t.checkBalance P w asset = s.checkBalance P w asset) ∧
      (∀ token t, s.setSecondaryRewardTokenAddress sender token = .ok t →
        t.checkBalance P w asset = s.checkBalance P w asset) ∧
      (∀ staking t, s.setStakingAddress sender staking = .ok t →
        (∀ value, t.checkBalance P w asset = .ok value ↔
          BalanceAnswers P s.toAbstractStrategy w asset staking s.rewardPoolAddress
              (s.rewardLiquidityPair asset) ∧
            value = reportAt P s.toAbstractStrategy w asset staking s.rewardPoolAddress) ∧
        ((∀ value, t.checkBalance P w asset = .ok value ↔ s.checkBalance P w asset = .ok value) ↔
          (BalanceAnswers P s.toAbstractStrategy w asset staking s.rewardPoolAddress
              (s.rewardLiquidityPair asset) ↔
            BalanceAnswers P s.toAbstractStrategy w asset s.ubeStakingAddress
              s.rewardPoolAddress (s.rewardLiquidityPair asset)) ∧
          (BalanceAnswers P s.toAbstractStrategy w asset s.ubeStakingAddress s.rewardPoolAddress
              (s.rewardLiquidityPair asset) →
            shareAt P s.toAbstractStrategy w asset staking s.rewardPoolAddress =
              shareAt P s.toAbstractStrategy w asset s.ubeStakingAddress
                s.rewardPoolAddress))) ∧
      ∀ token1 token2 t w', s.setRewardPoolAddress P w sender token1 token2 = .ok (t, w') →
        ∃ pool, P.pairFor w s.uniswapAddr (s.assetToPToken token1) (s.assetToPToken token2) =
            .ok pool ∧
          (∀ value, t.checkBalance P w' asset = .ok value ↔
            BalanceAnswers P s.toAbstractStrategy w asset s.ubeStakingAddress pool
                ((s.setPair token1 token2).rewardLiquidityPair asset) ∧
              value = reportAt P s.toAbstractStrategy w asset s.ubeStakingAddress pool) ∧
          ((∀ value, t.checkBalance P w' asset = .ok value ↔
              s.checkBalance P w asset = .ok value) ↔
            (BalanceAnswers P s.toAbstractStrategy w asset s.ubeStakingAddress pool
                ((s.setPair token1 token2).rewardLiquidityPair asset) ↔
              BalanceAnswers P s.toAbstractStrategy w asset s.ubeStakingAddress
                s.rewardPoolAddress (s.rewardLiquidityPair asset)) ∧
            (BalanceAnswers P s.toAbstractStrategy w asset s.ubeStakingAddress
                s.rewardPoolAddress (s.rewardLiquidityPair asset) →
              shareAt P s.toAbstractStrategy w asset s.ubeStakingAddress pool =
                shareAt P s.toAbstractStrategy w asset s.ubeStakingAddress
                  s.rewardPoolAddress)) := by
  have hbefore : ∀ value, s.checkBalance P w asset = .ok value ↔ _ :=
    fun _ => checkBalance_eq_ok_iff hlent
  refine ⟨?_, ?_, ?_, ?_⟩
  · intro router t h
    obtain ⟨-, rfl⟩ := onlyGovernor_pure_eq_ok.mp h
    rfl
  · intro token t h
    obtain ⟨-, rfl⟩ := onlyGovernor_pure_eq_ok.mp h
    rfl
  · intro staking t h
    obtain ⟨-, rfl⟩ := onlyGovernor_pure_eq_ok.mp h
    have hafter : ∀ value, ({ s with ubeStakingAddress := staking } : AaveStrategy).checkBalance P w
        asset = .ok value ↔ _ := fun _ => checkBalance_eq_ok_iff hlent
    refine ⟨hafter, ?_⟩
    simp only [hbefore, hafter]
    exact reports_eq_iff
  · intro token1 token2 t w' h
    obtain ⟨pool, hpool, happrove, rfl⟩ := setRewardPoolAddress_eq_ok h
    obtain ⟨hbalance, hsupply⟩ := approveMax_views hmoves happrove
    have hafter : ∀ value, ({ s.setPair token1 token2 with
        rewardPoolAddress := pool } : AaveStrategy).checkBalance P w' asset = .ok value ↔
          BalanceAnswers P s.toAbstractStrategy w asset s.ubeStakingAddress pool
              ((s.setPair token1 token2).rewardLiquidityPair asset) ∧
            value = reportAt P s.toAbstractStrategy w asset s.ubeStakingAddress pool := by
      intro value
      rw [checkBalance_congr hbalance hsupply]
      exact checkBalance_eq_ok_iff hlent
    refine ⟨pool, pairFor_eq_ok hpool, hafter, ?_⟩
    simp only [hbefore, hafter]
    exact reports_eq_iff

section

open PlainPlatform

/-- With ten LP tokens staked, the balance is the same after the pool is set again. -/
theorem pool_set_again :
    ∃ init trace s t, initializedPlain [4, 5] 60 = .ok init ∧
      Run (fun s step s' => exec (calls market) s step = .ok s') init trace s ∧
        s.1.stakedLP (calls market) s.2 = 10 ∧
          s.1.setRewardPoolAddress (calls market) s.2 8 5 4 = .ok t ∧
            s.1.checkBalance (calls market) s.2 4 = .ok 30 ∧
              ∀ value, t.1.checkBalance (calls market) t.2 4 = .ok value ↔
                s.1.checkBalance (calls market) s.2 4 = .ok value := by
  have hsteps : Returns (initializedPlain [4, 5] 60) fun init =>
      Returns (exec (calls market) init (3, .environment pooledPlain)) fun s₁ =>
        Returns (exec (calls market) s₁ (9, .operate (.deposit 4 10))) fun s =>
          s.1.stakedLP (calls market) s.2 = 10 ∧ s.1.lent (calls market) s.2 4 < wordBound ∧
            Returns (s.1.setRewardPoolAddress (calls market) s.2 8 5 4) fun t =>
              s.1.checkBalance (calls market) s.2 4 = .ok 30 ∧
                t.1.checkBalance (calls market) t.2 4 = .ok 30 ∧
                  Returns ((calls market).pairFor s.2 s.1.uniswapAddr (s.1.assetToPToken 5)
                    (s.1.assetToPToken 4)) fun pool =>
                      shareAt (calls market) s.1.toAbstractStrategy s.2 4
                          s.1.ubeStakingAddress pool =
                        shareAt (calls market) s.1.toAbstractStrategy s.2 4
                          s.1.ubeStakingAddress s.1.rewardPoolAddress := by
    decide
  obtain ⟨init, hinit, s₁, hgiven, s, hdeposit, hstaked, hlent, t, hset, hbefore, hafter,
    pool, hpool, hshare⟩ := hsteps
  have hmoves : ApprovalsMoveNothing (calls market) :=
    ⟨fun h => by cases h; rfl, fun h => by cases h; rfl⟩
  obtain ⟨pool', hpool', htold, hsame⟩ :=
    (addresses_keep_balance_iff hmoves s.1 s.2 8 4 hlent).2.2.2 5 4 t.1 t.2 hset
  obtain rfl : pool' = pool := Except.ok.inj (hpool'.symm.trans hpool)
  refine ⟨init, _, s, t, hinit, (Run.nil.cons hgiven).cons hdeposit, hstaked, hset, hbefore,
    hsame.mpr ⟨?_, fun _ => hshare⟩⟩
  have hatPool := ((htold _).mp hafter).1
  have hbefore := ((checkBalance_eq_ok_iff hlent).mp hbefore).1
  exact ⟨fun _ => hbefore, fun _ => hatPool⟩

/-- At another staking contract nothing is staked, and the share of the LP tokens that are
staked is no longer counted. -/
theorem staking_changes_balance :
    Returns (initializedPlain [4, 5] 60) fun init =>
      Returns (exec (calls market) init (3, .environment pooledPlain)) fun s₁ =>
        Returns (exec (calls market) s₁ (9, .operate (.deposit 4 10))) fun s =>
          s.1.supportsAsset 4 = true ∧ s.1.checkBalance (calls market) s.2 4 = .ok 30 ∧
            Returns (exec (calls market) s (8, .setStakingAddress 61)) fun t =>
              t.1.checkBalance (calls market) t.2 4 = .ok 10 := by
  decide

end

end AaveStrategy

end InterestDollar
