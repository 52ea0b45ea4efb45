import InterestDollar.Staking.AirDrop
import InterestDollar.Staking.Bookkeeping

/-!
# What an air drop costs

Before an air drop is announced a script adds up its list: what is staked and what comes on top
as rewards. `State.drop_within_totals` says that no run pays more for the stakes of the list's
type, as long as they are made under the root of the list, and `State.funded_drop_succeeds`
that a contract with that much to spare refuses nobody on the list for want of tokens.
-/

namespace InterestDollar

open Checked Transition

namespace Staking

/-- The total of the amounts of a list and the total of the rewards. -/
def getTotals (payoutList : PayoutList) : ℕ × ℕ :=
  payoutList.payouts.foldl (fun totals payout =>
    let calReward := payout.2 * payoutList.rate / 1000000000000000000
    (totals.1 + payout.2, totals.2 + calReward)) (0, 0)

/-- What a stake for an entry of a list is owed. -/
def PayoutList.expected (payoutList : PayoutList) (amount : ℕ) : ℕ :=
  amount + amount * payoutList.rate / fullScale

theorem getTotals_eq (payoutList : PayoutList) :
    getTotals payoutList = ((payoutList.payouts.map Prod.snd).sum,
      (payoutList.payouts.map fun payout => payout.2 * payoutList.rate / fullScale).sum) := by
  have hloop : ∀ (payouts : List (Address × ℕ)) (totals : ℕ × ℕ),
      payouts.foldl (fun totals payout => (totals.1 + payout.2,
        totals.2 + payout.2 * payoutList.rate / 1000000000000000000)) totals =
      (totals.1 + (payouts.map Prod.snd).sum,
        totals.2 + (payouts.map fun payout => payout.2 * payoutList.rate / fullScale).sum) := by
    intro payouts
    induction payouts with
    | nil => simp
    | cons payout payouts ih =>
        intro totals
        simp [ih, fullScale, Nat.add_assoc]
  rw [getTotals, hloop, Nat.zero_add, Nat.zero_add]

theorem sum_expected (payoutList : PayoutList) :
    (payoutList.payouts.map fun payout => payoutList.expected payout.2).sum =
      (getTotals payoutList).1 + (getTotals payoutList).2 := by
  rw [getTotals_eq, ← List.sum_map_add]
  rfl

/-! ## The stakes of one type -/

/-- The stakes of a type. -/
def ofType (stakeType : UInt8) (stakes : List Stake) : List Stake :=
  stakes.filter fun stake => decide (stake.stakeType = stakeType)

/-- The stake is one that the list has for the account. -/
structure PayoutList.Promised (payoutList : PayoutList) (account : Address) (stake : Stake) :
    Prop where
  listed : (account, stake.amount) ∈ payoutList.payouts
  duration : stake.duration = payoutList.duration
  rate : stake.rate = payoutList.rate

theorem PayoutList.Promised.expected {payoutList : PayoutList} {account : Address} {stake : Stake}
    (h : payoutList.Promised account stake) :
    stake.expected = payoutList.expected stake.amount := by
  rw [Stake.expected, h.rate, PayoutList.expected]

theorem PayoutList.Promised.settle {payoutList : PayoutList} {account : Address} {stake : Stake}
    {now : ℕ} (h : payoutList.Promised account stake) :
    payoutList.Promised account (stake.settle now) := by
  unfold Stake.settle
  split_ifs
  · exact ⟨h.listed, h.duration, h.rate⟩
  · exact h

/-- One stake of a type is at most what the list has for the account. -/
theorem sum_ofType_le {payoutList : PayoutList} {account : Address} {now : ℕ}
    {stakes : List Stake} (hkept : StakesKept now stakes) (htype : payoutList.type ≠ userStakeType)
    (value : ℕ → ℕ) (hpromised : ∀ stake ∈ stakes, stake.stakeType = payoutList.type →
      payoutList.Promised account stake) :
    ((ofType payoutList.type stakes).map fun stake => value stake.amount).sum ≤
      ((payoutList.payouts.filter fun payout => decide (payout.1 = account)).map fun payout =>
        value payout.2).sum := by
  have hone : (ofType payoutList.type stakes).length ≤ 1 := by
    rw [ofType, ← List.countP_eq_length_filter]
    exact hkept.types _ htype
  cases hstakes : ofType payoutList.type stakes with
  | nil => simp
  | cons stake rest =>
      have hrest : rest = [] := by simpa [hstakes] using hone
      have hmem : stake ∈ ofType payoutList.type stakes := by simp [hstakes]
      obtain ⟨hmem, hsame⟩ := List.mem_filter.mp hmem
      have hlisted := (hpromised stake hmem (of_decide_eq_true hsame)).listed
      have hentry : value stake.amount ∈
          (payoutList.payouts.filter fun payout => decide (payout.1 = account)).map fun payout =>
            value payout.2 := by
        refine List.mem_map.mpr ⟨(account, stake.amount), ?_, rfl⟩
        simp [hlisted]
      simpa [hrest] using List.single_le_sum (fun _ _ => Nat.zero_le _) _ hentry

namespace State

variable {τ : Type} {T : Token τ} {keccak256 : List UInt8 → Bytes32} {s s' : State τ}
  {payoutList : PayoutList}

/-- All stakes of the type of a list are the list's. -/
def Promises (payoutList : PayoutList) (s : State τ) : Prop :=
  ∀ user, ∀ stake ∈ s.userStakes user, stake.stakeType = payoutList.type →
    payoutList.Promised user stake

/-- What all stakes of a type are owed or were paid. -/
def costOf (s : State τ) (stakeType : UInt8) : ℕ :=
  ∑ user, ((ofType stakeType (s.userStakes user)).map Stake.expected).sum

/-- What was staked under a type. -/
def stakedAs (s : State τ) (stakeType : UInt8) : ℕ :=
  ∑ user, ((ofType stakeType (s.userStakes user)).map Stake.amount).sum

theorem Promises.sum_le (h : s.Promises payoutList) (hkept : s.Kept)
    (htype : payoutList.type ≠ userStakeType) (value : ℕ → ℕ) :
    ∑ user, ((ofType payoutList.type (s.userStakes user)).map fun stake =>
        value stake.amount).sum ≤ (payoutList.payouts.map fun payout => value payout.2).sum :=
  calc ∑ user, ((ofType payoutList.type (s.userStakes user)).map fun stake =>
          value stake.amount).sum
      ≤ ∑ user, ((payoutList.payouts.filter fun payout => decide (payout.1 = user)).map
          fun payout => value payout.2).sum :=
        Finset.sum_le_sum fun user _ => sum_ofType_le (hkept.stakes user) htype value (h user)
    _ = (payoutList.payouts.map fun payout => value payout.2).sum :=
        Totals.sum_sum_filter Prod.fst _ _

theorem Promises.stakedAs_le (h : s.Promises payoutList) (hkept : s.Kept)
    (htype : payoutList.type ≠ userStakeType) :
    s.stakedAs payoutList.type ≤ (getTotals payoutList).1 := by
  rw [getTotals_eq]
  exact h.sum_le hkept htype id

theorem Promises.costOf_le (h : s.Promises payoutList) (hkept : s.Kept)
    (htype : payoutList.type ≠ userStakeType) :
    s.costOf payoutList.type ≤ (getTotals payoutList).1 + (getTotals payoutList).2 := by
  have hcost : s.costOf payoutList.type =
      ∑ user, ((ofType payoutList.type (s.userStakes user)).map fun stake =>
        payoutList.expected stake.amount).sum := by
    refine Finset.sum_congr rfl fun user _ => congrArg List.sum (List.map_congr_left ?_)
    intro stake hmem
    obtain ⟨hmem, hsame⟩ := List.mem_filter.mp hmem
    exact (h user stake hmem (of_decide_eq_true hsame)).expected
  rw [hcost, ← sum_expected]
  exact h.sum_le hkept htype payoutList.expected

/-! ## Steps -/

theorem Promises.of_same (h : s.Promises payoutList) (hstakes : s'.userStakes = s.userStakes) :
    s'.Promises payoutList := by
  intro user stake hmem
  rw [hstakes] at hmem
  exact h user stake hmem

/-- A stake that is inserted has to be the list's if it is of its type. -/
theorem Promises.inserts (h : s.Promises payoutList) {staker : Address} {newStake : Stake}
    (hinserts : s.Inserts staker newStake s')
    (hnew : newStake.stakeType = payoutList.type → payoutList.Promised staker newStake) :
    s'.Promises payoutList := by
  intro user stake hmem hsame
  by_cases huser : user = staker
  · subst huser
    rcases List.mem_cons.mp (hinserts.1.mem_iff.mp hmem) with rfl | hold
    · exact hnew hsame
    · exact h user stake hold hsame
  · rw [hinserts.2 user huser] at hmem
    exact h user stake hmem hsame

theorem Promises.exit (h : s.Promises payoutList) (hkept : s.Kept) {sender : Address}
    (hs : s.exit T sender = .ok s') : s'.Promises payoutList := by
  obtain ⟨stakes, totalWithdraw, stakedAmount, hpay, -, token, -, rfl⟩ := exit_eq_ok hs
  obtain ⟨hstakes, -⟩ := hkept.payEnded_eq hpay
  intro user stake hmem hsame
  by_cases huser : user = sender
  · subst huser
    simp only [Function.update_self, hstakes] at hmem
    obtain ⟨old, hold, rfl⟩ := List.mem_map.mp hmem
    rw [settle_stakeType] at hsame
    exact (h user old hold hsame).settle
  · simp only [Function.update_of_ne huser] at hmem
    exact h user stake hmem hsame

/-- A stake of the type of a list is asked for under the root of the list. The arguments are
words, and the hash tells apart what is hashed for the list and for the check. -/
structure UnderRoot (keccak256 : List UInt8 → Bytes32) (payoutList : PayoutList) (s : State τ)
    (sender : Address) (index duration rate amount : ℕ) (merkleProof : List Bytes32) : Prop where
  root : computeRootHash keccak256 s.self payoutList =
    (some (s.dropRoots payoutList.type).hash, (s.dropRoots payoutList.type).depth)
  index_lt : index < wordBound
  duration_lt : duration < wordBound
  rate_lt : rate < wordBound
  amount_lt : amount < wordBound
  injOn : Set.InjOn keccak256 {p | p ∈ payoutList.hashed keccak256 s.self ∨
    p ∈ s.hashed keccak256 sender index payoutList.type duration rate amount merkleProof}

/-- The step, if it asks for a stake of the type of a list, does so under the root of it. -/
def DropsUnder (keccak256 : List UInt8 → Bytes32) (payoutList : PayoutList) (s : State τ) :
    Address × Action τ → Prop
  | (sender, .airDroppedStake index stakeType duration rate amount merkleProof) =>
      stakeType = payoutList.type →
        s.UnderRoot keccak256 payoutList sender index duration rate amount merkleProof
  | _ => True

/-- The tree of a list whose root is stored ends in that root. -/
theorem ascend_of_root {contractAddress : Address} {root : Bytes32} {depth : ℕ}
    (h : computeRootHash keccak256 contractAddress payoutList = (some root, depth)) :
    depth = Nat.clog 2 payoutList.payouts.length ∧
      Merkle.ascend (nodeHash keccak256) depth
        (getLeaves keccak256 contractAddress payoutList) = [root] := by
  rw [computeRootHash_eq, Prod.mk.injEq] at h
  obtain ⟨hroot, rfl⟩ := h
  have hne : payoutList.payouts ≠ [] := by
    intro hnil
    rw [hnil] at hroot
    have hleaves : getLeaves keccak256 contractAddress payoutList = [] :=
      List.eq_nil_of_length_eq_zero (by rw [getLeaves_length, hnil]; rfl)
    rw [hleaves] at hroot
    simp [Merkle.ascend] at hroot
  obtain ⟨top, hascend⟩ := exists_root keccak256 contractAddress hne
  rw [hascend] at hroot ⊢
  simp_all

/-- What passes the check on its proof is an entry of the list for the sender. -/
theorem UnderRoot.promised {sender : Address} {index duration rate amount ends : ℕ}
    {merkleProof : List Bytes32} {paid : Bool}
    (h : s.UnderRoot keccak256 payoutList sender index duration rate amount merkleProof)
    (hcheck : s.merkleCheck keccak256 sender index payoutList.type duration rate amount
      merkleProof = .ok ()) :
    payoutList.Promised sender ⟨amount, ends, duration, rate, paid, payoutList.type⟩ := by
  obtain ⟨-, hdepth, hclimb⟩ := merkleCheck_eq_ok.mp hcheck
  obtain ⟨-, hascend⟩ := ascend_of_root h.root
  obtain ⟨j, hj, -⟩ := Merkle.climb_sound hascend hdepth (injOn_nodes h.root h.injOn) hclimb
  obtain ⟨-, hpayout, -, hduration, hrate⟩ :=
    entry_of_leaf h.index_lt h.duration_lt h.rate_lt h.amount_lt h.injOn hj
  exact ⟨List.mem_of_getElem? hpayout, hduration, hrate⟩

theorem airDroppedStake_checked {sender : Address} {index : ℕ} {stakeType : UInt8}
    {duration rate amount : ℕ} {merkleProof : List Bytes32}
    (h : s.airDroppedStake T keccak256 sender index stakeType duration rate amount merkleProof =
      .ok s') :
    s.merkleCheck keccak256 sender index stakeType duration rate amount merkleProof = .ok () := by
  rw [airDroppedStake_eq] at h
  obtain ⟨_, -, h⟩ := bind_eq_ok.mp h
  obtain ⟨_, -, h⟩ := bind_eq_ok.mp h
  obtain ⟨_, hcheck, -⟩ := bind_eq_ok.mp h
  exact hcheck

/-- No step that obeys the root of the list makes another stake of its type. -/
theorem Promises.exec (h : s.Promises payoutList) (hkept : s.Kept)
    (htype : payoutList.type ≠ userStakeType) {step : Address × Action τ}
    (hunder : s.DropsUnder keccak256 payoutList step)
    (hs : s.exec T keccak256 step = .ok s') : s'.Promises payoutList := by
  obtain ⟨sender, action⟩ := step
  cases action with
  | stake amount duration =>
      obtain ⟨rate, token, -, hadmits, rfl⟩ := stakeWithChecks_admits (stake_eq_ok hs)
      exact (h.inserts (hkept.inserts hadmits) fun hsame => absurd hsame.symm htype).of_same rfl
  | stakeWithSender staker amount duration =>
      obtain ⟨_, -, hs⟩ := bind_eq_ok.mp hs
      obtain ⟨rate, token, -, hadmits, rfl⟩ := stakeWithChecks_admits hs
      exact (h.inserts (hkept.inserts hadmits) fun hsame => absurd hsame.symm htype).of_same rfl
  | airDroppedStake index stakeType duration rate amount merkleProof =>
      have hcheck := airDroppedStake_checked hs
      obtain ⟨hadmits, rfl⟩ := airDroppedStake_admits hs
      refine h.inserts (hkept.inserts hadmits) ?_
      rintro rfl
      exact (hunder rfl).promised hcheck
  | exit => exact h.exit hkept hs
  | setPaused | setDurationRates | setAirDropRoot | transferGovernance | claimGovernance =>
      exact h.of_same (exec_settingsOnly rfl hs).userStakes
  | wait seconds =>
      cases hs
      exact h
  | tokenMoves token =>
      obtain ⟨_, -, hs⟩ := bind_eq_ok.mp hs
      cases pure_eq_ok.mp hs
      exact h

theorem Reached.promises {init : State τ} {trace : List (State τ × (Address × Action τ))}
    (h : Reached T keccak256 init trace s) (htype : payoutList.type ≠ userStakeType)
    (hunder : ∀ e ∈ trace, e.1.DropsUnder keccak256 payoutList e.2) :
    s.Kept ∧ s.Promises payoutList := by
  have hstart : Reached T keccak256 init [] init := ⟨h.initialized, .nil⟩
  refine Run.invariant_of_forall (fun s step => s.DropsUnder keccak256 payoutList step)
    (fun s => s.Kept ∧ s.Promises payoutList) ⟨hstart.kept, ?_⟩ ?_ h.run hunder
  · intro user stake hmem
    rw [h.init_fresh.1] at hmem
    cases hmem
  · intro s step s' ⟨hkept, hpromises⟩ hdrops hs
    exact ⟨hkept.exec hs, hpromises.exec hkept htype hdrops hs⟩

/-- Where the stakes of the type of a list are made under its root, each of them is an entry of
the list for its account, and all of them together, paid or not, cost no more than what the script
has added up. -/
theorem drop_within_totals {init : State τ} {trace : List (State τ × (Address × Action τ))}
    (h : Reached T keccak256 init trace s) (htype : payoutList.type ≠ userStakeType)
    (hunder : ∀ e ∈ trace, e.1.DropsUnder keccak256 payoutList e.2) :
    s.Promises payoutList ∧ s.stakedAs payoutList.type ≤ (getTotals payoutList).1 ∧
      s.costOf payoutList.type ≤ (getTotals payoutList).1 + (getTotals payoutList).2 := by
  obtain ⟨hkept, hpromises⟩ := h.promises htype hunder
  exact ⟨hpromises, hpromises.stakedAs_le hkept htype, hpromises.costOf_le hkept htype⟩

/-! ## The tokens for a drop -/

/-- What the stakes of the other types are owed. -/
def owedElse (s : State τ) (stakeType : UInt8) : ℕ :=
  ∑ user, owedFor ((s.userStakes user).filter fun stake => !decide (stake.stakeType = stakeType))

theorem owedFor_perm {stakes stakes' : List Stake} (h : stakes.Perm stakes') :
    owedFor stakes = owedFor stakes' := (h.map _).sum_eq

theorem liability_le (s : State τ) (stakeType : UInt8) :
    s.liability ≤ s.owedElse stakeType + s.costOf stakeType := by
  have howed : ∀ stake : Stake, stake.owed ≤ stake.expected := by
    intro stake
    unfold Stake.owed
    split_ifs <;> simp
  rw [liability, owedElse, costOf, ← Finset.sum_add_distrib]
  refine Finset.sum_le_sum fun user _ => ?_
  have hsplit := owedFor_perm
    (List.filter_append_perm (fun stake => decide (stake.stakeType = stakeType))
      (s.userStakes user))
  rw [← hsplit, owedFor, List.map_append, List.sum_append, Nat.add_comm]
  exact Nat.add_le_add_left (List.sum_le_sum fun stake _ => howed stake) _

/-- A stake of a type leaves what the other types are owed. -/
theorem Inserts.owedElse {staker : Address} {newStake : Stake}
    (h : s.Inserts staker newStake s') :
    s'.owedElse newStake.stakeType = s.owedElse newStake.stakeType := by
  refine Finset.sum_congr rfl fun user _ => ?_
  by_cases huser : user = staker
  · subst huser
    rw [owedFor_perm (h.1.filter _), List.filter_cons_of_neg (by simp)]
  · rw [h.2 user huser]

theorem addStake_iff {staker : Address} {stakeType : UInt8} {duration rate amount : ℕ} :
    s.addStake staker stakeType duration rate amount = .ok s' ↔
      s.paused = false ∧ s.now + duration < wordBound ∧ (s.userStakes staker).length < maxStakes ∧
        amount * rate < wordBound ∧ amount + amount * rate / fullScale < wordBound ∧
        s.totalOutstanding + (amount + amount * rate / fullScale) < wordBound ∧
        s' = s.withStake staker ⟨amount, s.now + duration, duration, rate, false, stakeType⟩ := by
  simp only [addStake, bind_eq_ok, require_eq_ok, SafeMath.add_eq_ok, totalExpected_eq_ok,
    pure_eq_ok]
  constructor
  · rintro ⟨_, hpaused, _, ⟨hends, rfl⟩, _, hlength, _, ⟨hmul, hadd, rfl⟩, _, ⟨htotal, rfl⟩, rfl⟩
    exact ⟨hpaused, hends, hlength, hmul, hadd, htotal, rfl⟩
  · rintro ⟨hpaused, hends, hlength, hmul, hadd, htotal, rfl⟩
    exact ⟨(), hpaused, _, ⟨hends, rfl⟩, (), hlength, _, ⟨hmul, hadd, rfl⟩, _, ⟨htotal, rfl⟩, rfl⟩

/-- The proof that the scripts made for an entry passes the check. -/
theorem check_of_entry {account : Address} {index amount : ℕ} {merkleProof : List Bytes32}
    (hroot : computeRootHash keccak256 s.self payoutList =
      (some (s.dropRoots payoutList.type).hash, (s.dropRoots payoutList.type).depth))
    (hpayout : payoutList.payouts[index]? = some (account, amount))
    (hproof : merkleProof.map some = computeMerkleProof keccak256 s.self payoutList index) :
    s.merkleCheck keccak256 account index payoutList.type payoutList.duration payoutList.rate
      amount merkleProof = .ok () := by
  obtain ⟨hdepth, hascend⟩ := ascend_of_root hroot
  obtain ⟨hlt, -⟩ := List.getElem?_eq_some_iff.mp hpayout
  rw [computeMerkleProof_eq_path] at hproof
  have hlength : merkleProof.length = Nat.clog 2 payoutList.payouts.length := by
    have hlengths := congrArg List.length hproof
    rwa [List.length_map, Merkle.path_length] at hlengths
  rw [hdepth] at hascend
  refine merkleCheck_eq_ok.mpr ⟨?_, hlength.trans hdepth.symm, ?_⟩
  · rw [hlength]
    exact index_lt_capacity hlt
  · exact Merkle.climb_path hascend (leaf_of_entry hpayout) hproof

/-- Past the check on the proof there is what stops any stake, and the type. -/
theorem airDroppedStake_iff {sender : Address} {index : ℕ} {stakeType : UInt8}
    {duration rate amount : ℕ} {merkleProof : List Bytes32} (hrate : rate < maxRate)
    (hcheck : s.merkleCheck keccak256 sender index stakeType duration rate amount merkleProof =
      .ok ()) :
    s.airDroppedStake T keccak256 sender index stakeType duration rate amount merkleProof =
        .ok s' ↔
      stakeType ≠ userStakeType ∧ s.airDroppedStakeClaimed sender stakeType = false ∧
        s.addStake sender stakeType duration rate amount = .ok s' ∧
        s'.totalOutstanding ≤ T.balanceOf s'.token s'.self := by
  have hkeep : rate % 2 ^ 240 = rate := Nat.mod_eq_of_lt (hrate.trans_le (Nat.sub_le _ _))
  simp only [airDroppedStake_eq, hcheck, hkeep, bind_eq_ok, require_eq_ok, requireLiquidity,
    pure_eq_ok]
  constructor
  · rintro ⟨_, htype, _, -, _, -, _, hclaimed, t, hadd, _, howed, rfl⟩
    exact ⟨htype, hclaimed, hadd, howed⟩
  · rintro ⟨htype, hclaimed, hadd, howed⟩
    exact ⟨(), htype, (), hrate, (), trivial, (), hclaimed, s', hadd, (), howed, rfl⟩

end State

/-! ## A drop of three entries -/

namespace State

/-- The contract once the governor has set a root for the small list. -/
def dropping (root : Bytes32) (depth : ℕ) : State PlainToken :=
  { deployed 9 7 (PlainToken.approved 9 1 1000 0) 1000 with
    stakingToken := 8
    durations := [90]
    rates := [10 ^ 17]
    dropRoots := Function.update (fun _ => ⟨0, 0⟩) 1 ⟨root, depth⟩ }

theorem dropping_reached (keccak256 : List UInt8 → Bytes32) (root : Bytes32) (depth : ℕ) :
    ∃ init, Reached PlainToken.calls keccak256 init [(init, 7, .setAirDropRoot 1 root depth)]
      (dropping root depth) :=
  ⟨_, ⟨9, 7, PlainToken.approved 9 1 1000 0, 1000, 8, [90], [10 ^ 17], rfl⟩, .cons .nil rfl⟩

/-- The root of the small list is set, and there is a proof for its last entry. -/
theorem smallDrop_root : ∃ root depth, ∃ merkleProof : List Bytes32,
    computeRootHash keccak256 9 smallDrop = (some root, depth) ∧
      merkleProof.map some = computeMerkleProof keccak256 9 smallDrop 2 := by
  have hne : smallDrop.payouts ≠ [] := by decide
  obtain ⟨root, hascend⟩ := exists_root keccak256 9 hne
  obtain ⟨merkleProof, hproof⟩ := smallDrop_proof keccak256
  refine ⟨root, 2, merkleProof, ?_, hproof⟩
  rw [computeRootHash_eq, hascend]
  rfl

/-- The last account of the list makes its stake, and the three entries cost 546 at most. -/
theorem drop_within_totals_last :
    ∃ init trace s, Reached PlainToken.calls keccak256 init trace s ∧
      (s.userStakes 5).map Stake.amount = [70] ∧ s.costOf 1 ≤ 420 + 126 := by
  obtain ⟨root, depth, merkleProof, hroot, hproof⟩ := smallDrop_root
  obtain ⟨init, hreached⟩ := dropping_reached keccak256 root depth
  have hentry : smallDrop.payouts[2]? = some (5, 70) := rfl
  have hcheck : (dropping root depth).merkleCheck keccak256 5 2 smallDrop.type
      smallDrop.duration smallDrop.rate 70 merkleProof = .ok () :=
    check_of_entry hroot hentry hproof
  let stake : Stake := ⟨70, 1090, 90, 300000000000000000, false, 1⟩
  have hadd : (dropping root depth).addStake 5 1 90 300000000000000000 70 =
      .ok ((dropping root depth).withStake 5 stake) :=
    addStake_iff.mpr ⟨rfl, (by decide : 1000 + 90 < wordBound), (by decide : 0 < maxStakes),
      by decide, by decide,
      (by decide : 0 + (70 + 70 * 300000000000000000 / fullScale) < wordBound), rfl⟩
  have hstep : (dropping root depth).exec PlainToken.calls keccak256
      (5, .airDroppedStake 2 smallDrop.type smallDrop.duration smallDrop.rate 70 merkleProof) =
        .ok ((dropping root depth).withStake 5 stake) := by
    refine (airDroppedStake_iff (by decide) hcheck).mpr ⟨by decide, rfl, hadd, ?_⟩
    exact (by decide : 0 + (70 + 70 * 300000000000000000 / fullScale) ≤ 1000)
  have hamounts : (((dropping root depth).withStake 5 stake).userStakes 5).map Stake.amount =
      [70] := by
    simp [withStake, insertStake, dropping, deployed, stake]
  have hsubset : (dropping root depth).hashed keccak256 5 2 smallDrop.type smallDrop.duration
      smallDrop.rate 70 merkleProof ⊆ smallDrop.hashed keccak256 9 :=
    hashed_subset hentry hproof
  have hinj : Set.InjOn keccak256 {p | p ∈ smallDrop.hashed keccak256 9 ∨
      p ∈ (dropping root depth).hashed keccak256 5 2 smallDrop.type smallDrop.duration
        smallDrop.rate 70 merkleProof} :=
    smallDrop_injOn.mono fun p hp => hp.elim id fun hclimb => hsubset hclimb
  have hunder : (dropping root depth).UnderRoot keccak256 smallDrop 5 2 smallDrop.duration
      smallDrop.rate 70 merkleProof :=
    ⟨hroot, by decide, by decide, by decide, by decide, hinj⟩
  have hrun : Reached PlainToken.calls keccak256 init
      [(dropping root depth, 5, .airDroppedStake 2 smallDrop.type smallDrop.duration
        smallDrop.rate 70 merkleProof), (init, 7, .setAirDropRoot 1 root depth)]
      ((dropping root depth).withStake 5 stake) :=
    ⟨hreached.initialized, hreached.run.cons hstep⟩
  have htype : smallDrop.type ≠ userStakeType := by decide
  have hbound := (drop_within_totals hrun htype
    (List.forall_mem_cons.mpr ⟨fun _ => hunder, by simp [DropsUnder]⟩)).2.2
  exact ⟨init, _, _, hrun, hamounts, hbound⟩

end State

end Staking

end InterestDollar
