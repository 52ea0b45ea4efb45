import InterestDollar.Contract.Keccak
import InterestDollar.Merkle.Tree
import InterestDollar.Staking.Runs

/-!
# Air drops

The scripts that prepare an air drop turn a payout list into a Merkle tree: the root and
the depth of it go into the contract, and every account gets the proof of its entry. The
contract then knows an entry by climbing the tree with the proof.
`State.merkleCheck_iff` says that the two agree: the contract accepts the entries of the
list with the proofs the scripts made for them and nothing else, as long as the hash tells
apart what is hashed.
-/

namespace InterestDollar

open Checked

namespace Staking

/-- A payout list: the terms of the stakes, and in order who is promised which amount. An
array of the scripts has less than 2^32 entries. -/
structure PayoutList where
  type : UInt8
  duration : ℕ
  rate : ℕ
  payouts : List (Address × ℕ)
  duration_lt : duration < wordBound
  rate_lt : rate < wordBound
  amount_lt : ∀ payout ∈ payouts, payout.2 < wordBound
  length_lt : payouts.length < 2 ^ 32

section Scripts

variable (keccak256 : List UInt8 → Bytes32)

/-- The leaf of an entry. -/
def hash (index : ℕ) (type : UInt8) (contract address : Address) (duration rate amount : ℕ) :
    Bytes32 :=
  keccak256 (bytes 32 index ++ [type] ++ bytes 20 contract.toNat ++ bytes 20 address.toNat ++
    bytes 32 duration ++ bytes 32 rate ++ bytes 32 amount)

def getLeaves (contractAddress : Address) (payoutList : PayoutList) : List Bytes32 :=
  payoutList.payouts.mapIdx fun i payout =>
    hash keccak256 i payoutList.type contractAddress payout.1 payoutList.duration
      payoutList.rate payout.2

/-- The loop over a level: takes two nodes at a time, and the last one twice if it is left
alone. -/
def reduceMerkleBranches : List Bytes32 → List Bytes32
  | [] => []
  | [left] => [keccak256 (bytes 32 left.toNat ++ bytes 32 left.toNat)]
  | left :: right :: leaves =>
      keccak256 (bytes 32 left.toNat ++ bytes 32 right.toNat) :: reduceMerkleBranches leaves

theorem reduceMerkleBranches_length (leaves : List Bytes32) :
    (reduceMerkleBranches keccak256 leaves).length = (leaves.length + 1) / 2 := by
  induction leaves using reduceMerkleBranches.induct with
  | case1 => simp [reduceMerkleBranches]
  | case2 left => simp [reduceMerkleBranches]
  | case3 left right leaves ih =>
      simp only [reduceMerkleBranches, List.length_cons, ih]
      omega

/-- The loop of `computeRootHash`: the root, which an empty list has none of, and the
depth. -/
def rootLoop (leaves : List Bytes32) (depth : ℕ) : Option Bytes32 × ℕ :=
  if 1 < leaves.length then rootLoop (reduceMerkleBranches keccak256 leaves) (depth + 1)
  else (leaves[0]?, depth)
termination_by leaves.length
decreasing_by
  rw [reduceMerkleBranches_length]
  omega

def computeRootHash (contractAddress : Address) (payoutList : PayoutList) : Option Bytes32 × ℕ :=
  rootLoop keccak256 (getLeaves keccak256 contractAddress payoutList) 0

/-- The loop of `computeMerkleProof`. An entry past the end of a level is `undefined`. -/
def proofLoop (leaves : List Bytes32) (path : ℕ) : List (Option Bytes32) :=
  if 1 < leaves.length then
    let other :=
      if path % 2 = 1 then leaves[path - 1]?
      else leaves[if path + 1 < leaves.length then path + 1 else path]?
    other :: proofLoop (reduceMerkleBranches keccak256 leaves) (path / 2)
  else []
termination_by leaves.length
decreasing_by
  rw [reduceMerkleBranches_length]
  omega

def computeMerkleProof (contractAddress : Address) (payoutList : PayoutList) (index : ℕ) :
    List (Option Bytes32) :=
  proofLoop keccak256 (getLeaves keccak256 contractAddress payoutList) index

end Scripts

/-! ## The tree of the scripts -/

section Tree

variable {keccak256 : List UInt8 → Bytes32}

/-- The node over two nodes. -/
def nodeHash (keccak256 : List UInt8 → Bytes32) (left right : Bytes32) : Bytes32 :=
  keccak256 (hashPair left right)

theorem getLeaves_length (contractAddress : Address) (payoutList : PayoutList) :
    (getLeaves keccak256 contractAddress payoutList).length = payoutList.payouts.length :=
  List.length_mapIdx

theorem getElem?_getLeaves (contractAddress : Address) (payoutList : PayoutList) (i : ℕ) :
    (getLeaves keccak256 contractAddress payoutList)[i]? =
      payoutList.payouts[i]?.map fun payout =>
        keccak256 (dropEntry i payoutList.type contractAddress payout.1 payoutList.duration
          payoutList.rate payout.2) :=
  List.getElem?_mapIdx

theorem leaf_of_entry {contractAddress account : Address} {payoutList : PayoutList}
    {index amount : ℕ} (h : payoutList.payouts[index]? = some (account, amount)) :
    (getLeaves keccak256 contractAddress payoutList)[index]? =
      some (keccak256 (dropEntry index payoutList.type contractAddress account
        payoutList.duration payoutList.rate amount)) := by
  rw [getElem?_getLeaves, h]
  rfl

theorem reduceMerkleBranches_eq_reduce (leaves : List Bytes32) :
    reduceMerkleBranches keccak256 leaves = Merkle.reduce (nodeHash keccak256) leaves := by
  induction leaves using reduceMerkleBranches.induct with
  | case1 => rfl
  | case2 left => rfl
  | case3 left right leaves ih =>
      rw [reduceMerkleBranches, ih]
      rfl

/-- A level has one halving more than the level over it. -/
theorem clog_length {leaves : List Bytes32} (h : 1 < leaves.length) :
    Nat.clog 2 leaves.length = Nat.clog 2 (reduceMerkleBranches keccak256 leaves).length + 1 := by
  rw [reduceMerkleBranches_length, Nat.clog_of_two_le (by omega) h]
  rfl

/-- The loop goes up as many levels as the length has halvings. -/
theorem rootLoop_eq (leaves : List Bytes32) (depth : ℕ) :
    rootLoop keccak256 leaves depth =
      ((Merkle.ascend (nodeHash keccak256) (Nat.clog 2 leaves.length) leaves)[0]?,
        depth + Nat.clog 2 leaves.length) := by
  induction leaves, depth using rootLoop.induct keccak256 with
  | case1 leaves depth hlength ih =>
      rw [rootLoop, if_pos hlength, ih, clog_length hlength, Merkle.ascend,
        ← reduceMerkleBranches_eq_reduce, Nat.add_right_comm, Nat.add_assoc]
  | case2 leaves depth hlength =>
      rw [rootLoop, if_neg hlength, Nat.clog_of_right_le_one (not_lt.mp hlength)]
      rfl

theorem proofLoop_eq_path (leaves : List Bytes32) (path : ℕ) :
    proofLoop keccak256 leaves path =
      Merkle.path (nodeHash keccak256) (Nat.clog 2 leaves.length) leaves path := by
  induction leaves, path using proofLoop.induct keccak256 with
  | case1 leaves path hlength ih =>
      rw [proofLoop, if_pos hlength, ih, clog_length hlength, Merkle.path,
        ← reduceMerkleBranches_eq_reduce]
      rfl
  | case2 leaves path hlength =>
      rw [proofLoop, if_neg hlength, Nat.clog_of_right_le_one (not_lt.mp hlength)]
      rfl

theorem computeRootHash_eq (contractAddress : Address) (payoutList : PayoutList) :
    computeRootHash keccak256 contractAddress payoutList =
      ((Merkle.ascend (nodeHash keccak256) (Nat.clog 2 payoutList.payouts.length)
        (getLeaves keccak256 contractAddress payoutList))[0]?,
        Nat.clog 2 payoutList.payouts.length) := by
  rw [computeRootHash, rootLoop_eq, getLeaves_length, Nat.zero_add]

theorem computeMerkleProof_eq_path (contractAddress : Address) (payoutList : PayoutList)
    (index : ℕ) :
    computeMerkleProof keccak256 contractAddress payoutList index =
      Merkle.path (nodeHash keccak256) (Nat.clog 2 payoutList.payouts.length)
        (getLeaves keccak256 contractAddress payoutList) index := by
  rw [computeMerkleProof, proofLoop_eq_path, getLeaves_length]

variable (keccak256) in
/-- The tree of a list with entries ends in one node. -/
theorem exists_root (contractAddress : Address) {payoutList : PayoutList}
    (h : payoutList.payouts ≠ []) :
    ∃ root, Merkle.ascend (nodeHash keccak256) (Nat.clog 2 payoutList.payouts.length)
      (getLeaves keccak256 contractAddress payoutList) = [root] := by
  have hlength : (getLeaves keccak256 contractAddress payoutList).length =
      payoutList.payouts.length := getLeaves_length contractAddress payoutList
  rw [← hlength]
  refine Merkle.ascend_clog (List.ne_nil_of_length_pos ?_)
  rw [hlength]
  exact List.length_pos_iff.mpr h

/-- The indices of the entries have a bit for every level, and a word has room for them. -/
theorem index_lt_capacity {payoutList : PayoutList} {index : ℕ}
    (h : index < payoutList.payouts.length) :
    index < 2 ^ Nat.clog 2 payoutList.payouts.length % wordBound := by
  have hshallow : Nat.clog 2 payoutList.payouts.length ≤ 32 :=
    Nat.clog_le_of_le_pow payoutList.length_lt.le
  have hfit : 2 ^ Nat.clog 2 payoutList.payouts.length < wordBound :=
    (Nat.pow_le_pow_right two_pos hshallow).trans_lt (by decide)
  rw [Nat.mod_eq_of_lt hfit]
  exact h.trans_le (Nat.le_pow_clog one_lt_two _)

end Tree

/-! ## The check of the contract -/

section Check

variable {keccak256 : List UInt8 → Bytes32}

theorem dropEntry_inj {i j : ℕ} {stakeType type : UInt8} {contract account address : Address}
    {duration rate amount duration' rate' amount' : ℕ} (hi : i < wordBound) (hj : j < wordBound)
    (hduration : duration < wordBound) (hduration' : duration' < wordBound)
    (hrate : rate < wordBound) (hrate' : rate' < wordBound)
    (hamount : amount < wordBound) (hamount' : amount' < wordBound)
    (h : dropEntry i stakeType contract account duration rate amount =
      dropEntry j type contract address duration' rate' amount') :
    i = j ∧ stakeType = type ∧ account = address ∧ duration = duration' ∧ rate = rate' ∧
      amount = amount' := by
  unfold dropEntry at h
  obtain ⟨h, hbytes⟩ := List.append_inj h (by simp)
  have hamounts := word_inj hamount hamount' hbytes
  obtain ⟨h, hbytes⟩ := List.append_inj h (by simp)
  have hrates := word_inj hrate hrate' hbytes
  obtain ⟨h, hbytes⟩ := List.append_inj h (by simp)
  have hdurations := word_inj hduration hduration' hbytes
  obtain ⟨h, hbytes⟩ := List.append_inj h (by simp)
  have haccounts := address_inj hbytes
  obtain ⟨h, -⟩ := List.append_inj h (by simp)
  obtain ⟨hindex, htype⟩ := List.append_inj h (by simp)
  exact ⟨word_inj hi hj hindex, List.singleton_inj.mp htype, haccounts, hdurations, hrates,
    hamounts⟩

theorem hashPair_inj {p q : Bytes32 × Bytes32} (h : hashPair p.1 p.2 = hashPair q.1 q.2) :
    p = q := by
  obtain ⟨hleft, hright⟩ := List.append_inj h (by simp)
  exact Prod.ext (bytes32_inj hleft) (bytes32_inj hright)

/-- The loop of the contract is a climb. -/
theorem merkleRoot_eq_climb (node : Bytes32) (path : ℕ) (merkleProof : List Bytes32) :
    merkleRoot keccak256 node path merkleProof =
      Merkle.climb (nodeHash keccak256) node path merkleProof := by
  induction merkleProof generalizing node path with
  | nil => rfl
  | cons other merkleProof ih =>
      rw [merkleRoot, Merkle.climb, ih, Merkle.joined]
      by_cases hbit : path % 2 = 1 <;> simp only [hbit, if_true, if_false] <;> rfl

/-- What the scripts hash for the tree of a payout list. -/
def PayoutList.hashed (keccak256 : List UInt8 → Bytes32) (contractAddress : Address)
    (payoutList : PayoutList) : List (List UInt8) :=
  let depth := (computeRootHash keccak256 contractAddress payoutList).2
  payoutList.payouts.mapIdx (fun i payout =>
      dropEntry i payoutList.type contractAddress payout.1 payoutList.duration payoutList.rate
        payout.2) ++
    (Merkle.treePairs (nodeHash keccak256) depth
      (getLeaves keccak256 contractAddress payoutList)).map fun p => hashPair p.1 p.2

namespace State

variable {τ : Type} {T : Token τ} {s s' : State τ}

/-- The checks of `airDroppedStake` on the proof. -/
def merkleCheck (keccak256 : List UInt8 → Bytes32) (s : State τ) (sender : Address) (index : ℕ)
    (stakeType : UInt8) (duration rate amount : ℕ) (merkleProof : List Bytes32) :
    Except Revert Unit := do
  require (index < 2 ^ merkleProof.length % wordBound) "Invalid index"
  let dropRoot := s.dropRoots stakeType
  require (merkleProof.length = dropRoot.depth) "Invalid proof"
  let node := keccak256 (dropEntry index stakeType s.self sender duration rate amount)
  require (merkleRoot keccak256 node index merkleProof = dropRoot.hash) "Stake not approved"

/-- What the contract hashes for the checks. -/
def hashed (keccak256 : List UInt8 → Bytes32) (s : State τ) (sender : Address) (index : ℕ)
    (stakeType : UInt8) (duration rate amount : ℕ) (merkleProof : List Bytes32) :
    List (List UInt8) :=
  let entry := dropEntry index stakeType s.self sender duration rate amount
  entry :: (Merkle.climbPairs (nodeHash keccak256) (keccak256 entry) index merkleProof).map
    fun p => hashPair p.1 p.2

/-- A stake of an air drop that passes the checks on its proof is made like any other. -/
theorem airDroppedStake_eq (sender : Address) (index : ℕ) (stakeType : UInt8)
    (duration rate amount : ℕ) (merkleProof : List Bytes32) :
    s.airDroppedStake T keccak256 sender index stakeType duration rate amount merkleProof = (do
      require (stakeType ≠ userStakeType) "Cannot be normal staking"
      require (rate < maxRate) "Max rate exceeded"
      s.merkleCheck keccak256 sender index stakeType duration rate amount merkleProof
      require (s.airDroppedStakeClaimed sender stakeType = false) "Already staked"
      let s ← s.addStake sender stakeType duration (rate % 2 ^ 240) amount
      s.requireLiquidity T
      return s) := by
  simp only [airDroppedStake, merkleCheck, bind_assoc]

/-- The root and the depth that the governor sets are those of the type from then on. -/
theorem setAirDropRoot_dropRoots {sender : Address} {stakeType : UInt8} {rootHash : Bytes32}
    {proofDepth : ℕ} (h : s.setAirDropRoot sender stakeType rootHash proofDepth = .ok s') :
    s'.dropRoots stakeType = ⟨rootHash, proofDepth⟩ ∧ s'.self = s.self := by
  obtain ⟨_, -, h⟩ := bind_eq_ok.mp h
  obtain ⟨_, -, h⟩ := bind_eq_ok.mp h
  cases pure_eq_ok.mp h
  exact ⟨Function.update_self .., rfl⟩

theorem merkleCheck_eq_ok {sender : Address} {index : ℕ} {stakeType : UInt8}
    {duration rate amount : ℕ} {merkleProof : List Bytes32} :
    s.merkleCheck keccak256 sender index stakeType duration rate amount merkleProof = .ok () ↔
      index < 2 ^ merkleProof.length % wordBound ∧
        merkleProof.length = (s.dropRoots stakeType).depth ∧
        Merkle.climb (nodeHash keccak256)
          (keccak256 (dropEntry index stakeType s.self sender duration rate amount)) index
          merkleProof = (s.dropRoots stakeType).hash := by
  simp only [merkleCheck, merkleRoot_eq_climb, bind_eq_ok, require_eq_ok, exists_const]

/-- A hash that tells apart what the scripts and the contract hash tells apart the pairs of
nodes in the tree and in the climb. -/
theorem injOn_nodes {payoutList : PayoutList} {sender : Address} {index : ℕ} {stakeType : UInt8}
    {duration rate amount : ℕ} {merkleProof : List Bytes32} {root : Option Bytes32} {depth : ℕ}
    (hroot : computeRootHash keccak256 s.self payoutList = (root, depth))
    (hinj : Set.InjOn keccak256 {p | p ∈ payoutList.hashed keccak256 s.self ∨
      p ∈ s.hashed keccak256 sender index stakeType duration rate amount merkleProof}) :
    Set.InjOn (fun p : Bytes32 × Bytes32 => nodeHash keccak256 p.1 p.2)
      {p | p ∈ Merkle.treePairs (nodeHash keccak256) depth
            (getLeaves keccak256 s.self payoutList) ∨
        p ∈ Merkle.climbPairs (nodeHash keccak256)
            (keccak256 (dropEntry index stakeType s.self sender duration rate amount)) index
            merkleProof} := by
  have hmem : ∀ p : Bytes32 × Bytes32,
      p ∈ Merkle.treePairs (nodeHash keccak256) depth (getLeaves keccak256 s.self payoutList) ∨
        p ∈ Merkle.climbPairs (nodeHash keccak256)
          (keccak256 (dropEntry index stakeType s.self sender duration rate amount)) index
          merkleProof →
      hashPair p.1 p.2 ∈ payoutList.hashed keccak256 s.self ∨
        hashPair p.1 p.2 ∈
          s.hashed keccak256 sender index stakeType duration rate amount merkleProof := by
    rintro p (htree | hclimb)
    · left
      rw [PayoutList.hashed, hroot]
      exact List.mem_append_right _ (List.mem_map_of_mem htree)
    · right
      exact List.mem_cons_of_mem _ (List.mem_map_of_mem hclimb)
  intro p hp q hq heq
  exact hashPair_inj (hinj (hmem p hp) (hmem q hq) heq)

/-- A leaf of the tree that the check starts from is that of the entry with its index, and
the arguments are those of the entry. -/
theorem entry_of_leaf {payoutList : PayoutList} {sender : Address} {index j : ℕ}
    {stakeType : UInt8} {duration rate amount : ℕ} {merkleProof : List Bytes32}
    (hindex : index < wordBound) (hduration : duration < wordBound) (hrate : rate < wordBound)
    (hamount : amount < wordBound)
    (hinj : Set.InjOn keccak256 {p | p ∈ payoutList.hashed keccak256 s.self ∨
      p ∈ s.hashed keccak256 sender index stakeType duration rate amount merkleProof})
    (hj : (getLeaves keccak256 s.self payoutList)[j]? =
      some (keccak256 (dropEntry index stakeType s.self sender duration rate amount))) :
    index < payoutList.payouts.length ∧ payoutList.payouts[index]? = some (sender, amount) ∧
      stakeType = payoutList.type ∧ duration = payoutList.duration ∧ rate = payoutList.rate := by
  rw [getElem?_getLeaves, Option.map_eq_some_iff] at hj
  obtain ⟨payout, hpayout, hentry⟩ := hj
  obtain ⟨hjlt, hget⟩ := List.getElem?_eq_some_iff.mp hpayout
  have hjword : j < wordBound := hjlt.trans (payoutList.length_lt.trans (by decide))
  have hhashed : dropEntry j payoutList.type s.self payout.1 payoutList.duration
      payoutList.rate payout.2 ∈ payoutList.hashed keccak256 s.self := by
    refine List.mem_append_left _ (List.mem_mapIdx.mpr ⟨j, hjlt, ?_⟩)
    rw [hget]
  have hsame := hinj (.inl hhashed) (.inr List.mem_cons_self) hentry
  obtain ⟨rfl, rfl, rfl, rfl, rfl, rfl⟩ := dropEntry_inj hjword hindex payoutList.duration_lt
    hduration payoutList.rate_lt hrate (payoutList.amount_lt _ (List.mem_of_getElem? hpayout))
    hamount hsame
  exact ⟨hjlt, hpayout, rfl, rfl, rfl⟩

/-- The contract accepts exactly the entries of the list. The tree of any list with entries
has a root, and once its root and depth are stored for a type of stakes, an index, terms, an
amount and a proof pass the checks if and only if they are an entry of the list for the
sender and the proof that was made for it. -/
theorem merkleCheck_iff {payoutList : PayoutList} {contractAddress : Address}
    (hne : payoutList.payouts ≠ []) :
    ∃ root depth, computeRootHash keccak256 contractAddress payoutList = (some root, depth) ∧
      ∀ (s : State τ) (sender : Address) (index : ℕ) (stakeType : UInt8)
        (duration rate amount : ℕ) (merkleProof : List Bytes32),
        s.self = contractAddress → s.dropRoots stakeType = ⟨root, depth⟩ →
        index < wordBound → duration < wordBound → rate < wordBound → amount < wordBound →
        Set.InjOn keccak256 {p | p ∈ payoutList.hashed keccak256 contractAddress ∨
          p ∈ s.hashed keccak256 sender index stakeType duration rate amount merkleProof} →
        (s.merkleCheck keccak256 sender index stakeType duration rate amount merkleProof =
            .ok () ↔
          index < payoutList.payouts.length ∧
            payoutList.payouts[index]? = some (sender, amount) ∧
            stakeType = payoutList.type ∧ duration = payoutList.duration ∧
            rate = payoutList.rate ∧
            merkleProof.map some =
              computeMerkleProof keccak256 contractAddress payoutList index) := by
  obtain ⟨root, hascend⟩ := exists_root keccak256 contractAddress hne
  have hroot : computeRootHash keccak256 contractAddress payoutList =
      (some root, Nat.clog 2 payoutList.payouts.length) := by
    rw [computeRootHash_eq, hascend]
    rfl
  refine ⟨root, _, hroot, ?_⟩
  rintro s sender index stakeType duration rate amount merkleProof rfl hinstalled hindex
    hduration hrate hamount hinj
  rw [merkleCheck_eq_ok, hinstalled, computeMerkleProof_eq_path]
  constructor
  · rintro ⟨-, hdepth, hclimb⟩
    obtain ⟨j, hj, hplace⟩ := Merkle.climb_sound hascend hdepth (injOn_nodes hroot hinj) hclimb
    obtain ⟨hlt, hpayout, htype, hterms⟩ :=
      entry_of_leaf hindex hduration hrate hamount hinj hj
    have hleaf : index < (getLeaves keccak256 s.self payoutList).length := by
      rwa [getLeaves_length]
    exact ⟨hlt, hpayout, htype, hterms.1, hterms.2, (hplace hleaf).2⟩
  · rintro ⟨hlt, hpayout, rfl, rfl, rfl, hproof⟩
    have hdepth : merkleProof.length = Nat.clog 2 payoutList.payouts.length := by
      have hlengths := congrArg List.length hproof
      rwa [List.length_map, Merkle.path_length] at hlengths
    refine ⟨?_, hdepth, Merkle.climb_path hascend (leaf_of_entry hpayout) hproof⟩
    rw [hdepth]
    exact index_lt_capacity hlt

/-- What the contract hashes to check an entry with its own proof was hashed for the list. -/
theorem hashed_subset {payoutList : PayoutList} {sender : Address} {index amount : ℕ}
    {merkleProof : List Bytes32} (hpayout : payoutList.payouts[index]? = some (sender, amount))
    (hproof : merkleProof.map some = computeMerkleProof keccak256 s.self payoutList index) :
    s.hashed keccak256 sender index payoutList.type payoutList.duration payoutList.rate amount
      merkleProof ⊆ payoutList.hashed keccak256 s.self := by
  rw [computeMerkleProof_eq_path] at hproof
  have hclimb := List.map_subset (fun p : Bytes32 × Bytes32 => hashPair p.1 p.2)
    (Merkle.climbPairs_path (leaf_of_entry hpayout) hproof)
  have hentry : dropEntry index payoutList.type s.self sender payoutList.duration
      payoutList.rate amount ∈ payoutList.payouts.mapIdx fun i payout =>
        dropEntry i payoutList.type s.self payout.1 payoutList.duration payoutList.rate
          payout.2 := by
    obtain ⟨hlt, hget⟩ := List.getElem?_eq_some_iff.mp hpayout
    refine List.mem_mapIdx.mpr ⟨index, hlt, ?_⟩
    rw [hget]
  rw [State.hashed, PayoutList.hashed, computeRootHash_eq, List.cons_subset]
  exact ⟨List.mem_append_left _ hentry,
    List.Subset.trans hclimb (List.subset_append_right _ _)⟩

end State

end Check

/-! ## A small air drop -/

/-- A list of three entries, the last of which is its own partner. -/
def smallDrop : PayoutList where
  type := 1
  duration := 90
  rate := 300000000000000000
  payouts := [(3, 100), (4, 250), (5, 70)]
  duration_lt := by decide
  rate_lt := by decide
  amount_lt := by decide
  length_lt := by decide

set_option maxRecDepth 100000 in
/-- The hash function of the machine tells apart what is hashed for the list. -/
theorem smallDrop_injOn : Set.InjOn keccak256 {p | p ∈ smallDrop.hashed keccak256 9} := by
  have hdepth : (computeRootHash keccak256 9 smallDrop).2 = 2 := by
    rw [computeRootHash_eq]
    rfl
  have hnodup : ((smallDrop.hashed keccak256 9).map keccak256).Nodup := by
    rw [PayoutList.hashed, hdepth]
    decide +kernel
  exact fun p hp q hq heq => List.inj_on_of_nodup_map hnodup hp hq heq

/-- The proof of the last entry: its own leaf, then the node over the other two. -/
theorem smallDrop_proof (keccak256 : List UInt8 → Bytes32) :
    ∃ merkleProof : List Bytes32,
      merkleProof.map some = computeMerkleProof keccak256 9 smallDrop 2 := by
  let leaf (index : ℕ) (account : Address) (amount : ℕ) : Bytes32 :=
    hash keccak256 index 1 9 account 90 300000000000000000 amount
  refine ⟨[leaf 2 5 70, nodeHash keccak256 (leaf 0 3 100) (leaf 1 4 250)], ?_⟩
  rw [computeMerkleProof_eq_path]
  rfl

/-- The third account of the list passes the check with the proof of its entry. -/
theorem State.merkleCheck_iff_last :
    ∃ root depth, ∃ s : State Unit, ∃ merkleProof,
      computeRootHash keccak256 9 smallDrop = (some root, depth) ∧
        (State.deployed 9 7 () 0).setAirDropRoot 7 smallDrop.type root depth = .ok s ∧
        s.merkleCheck keccak256 5 2 smallDrop.type smallDrop.duration smallDrop.rate 70
          merkleProof = .ok () := by
  obtain ⟨root, depth, hroot, hiff⟩ :=
    @State.merkleCheck_iff keccak256 Unit smallDrop 9 (by decide)
  obtain ⟨s, hset⟩ : ∃ s,
      (State.deployed 9 7 () 0).setAirDropRoot 7 smallDrop.type root depth = .ok s :=
    ⟨_, rfl⟩
  obtain ⟨hinstalled, hself : s.self = 9⟩ := State.setAirDropRoot_dropRoots hset
  obtain ⟨merkleProof, hproof⟩ := smallDrop_proof keccak256
  have hsubset : s.hashed keccak256 5 2 smallDrop.type smallDrop.duration smallDrop.rate 70
      merkleProof ⊆ smallDrop.hashed keccak256 9 := by
    rw [← hself] at hproof ⊢
    exact State.hashed_subset rfl hproof
  have hinj : Set.InjOn keccak256 {p | p ∈ smallDrop.hashed keccak256 9 ∨
      p ∈ s.hashed keccak256 5 2 smallDrop.type smallDrop.duration smallDrop.rate 70
        merkleProof} :=
    smallDrop_injOn.mono fun p hp => hp.elim id fun hclimb => hsubset hclimb
  have haccepts := (hiff s 5 2 _ _ _ 70 merkleProof hself hinstalled
    (by decide) (by decide) (by decide) (by decide) hinj).mpr
    ⟨by decide, rfl, rfl, rfl, rfl, hproof⟩
  exact ⟨root, depth, s, merkleProof, hroot, hset, haccepts⟩

end Staking

end InterestDollar
