import InterestDollar.Staking.AirDrop
import Mathlib.Algebra.Order.Floor.Semifield
import Mathlib.Data.Rat.Floor

/-!
# The script that checks an air drop

Once the proofs of an air drop are made, a script climbs the tree with each of them again. It
keeps the path as a number of the language, halves it with its fraction, and reads the last of
the 32 bits that a bitwise operation leaves of it. `verifyMerkleSignature_iff` says that it
accepts what the contract accepts all the same, and `scripts_verify` that it accepts what the
other scripts made.
-/

namespace InterestDollar

open Checked

namespace Staking

/-- The type of a stake as the script gets it. A `BigNumber` is no number of the language, and
equal to none by `===`. -/
inductive StakeType
  | number (type : UInt8)
  | bigNumber (type : UInt8)
  deriving DecidableEq

def StakeType.type : StakeType → UInt8
  | number type => type
  | bigNumber type => type

/-- `path & 0x01` for a number that is not negative: the last of the 32 bits that are left of it
without its fraction. -/
def lastBit (path : ℚ) : ℕ := ⌊path⌋₊ % 2 ^ 32 % 2

section Script

variable (keccak256 : List UInt8 → Bytes32)

/-- The loop of `verifyMerkleSignature`. -/
def verifyLoop : (node : Bytes32) → (path : ℚ) → List Bytes32 → Bytes32
  | node, _, [] => node
  | node, path, other :: merkleProof =>
      let node :=
        if lastBit path = 1 then keccak256 (bytes 32 other.toNat ++ bytes 32 node.toNat)
        else keccak256 (bytes 32 node.toNat ++ bytes 32 other.toNat)
      verifyLoop node (path / 2) merkleProof

/-- The index is a number that the language has exactly, as the hash of a leaf asks for. -/
def verifyMerkleSignature (merkleRootNodeHash : Bytes32) (merkleTreeDepth : ℕ)
    (contractAddress accountAddress : Address) (index : Fin (2 ^ 53)) (stakeType : StakeType)
    (duration rate amount : ℕ) (merkleProof : List Bytes32) : Except Revert Bool := do
  require (stakeType ≠ .number 0) "Can not be user stake type"
  require (index.val < 2 ^ merkleProof.length) "Invalid index"
  require (merkleProof.length = merkleTreeDepth)
    "Proof length is not the same as merkle tree depth"
  let node := hash keccak256 index.val stakeType.type contractAddress accountAddress duration rate
    amount
  return verifyLoop keccak256 node index.val merkleProof = merkleRootNodeHash

end Script

section Agreement

variable {keccak256 : List UInt8 → Bytes32}

theorem lastBit_eq {path : ℚ} : lastBit path = ⌊path⌋₊ % 2 := by
  rw [lastBit, Nat.mod_mod_of_dvd _ (by norm_num)]

/-- Halving a number with its fraction halves its whole part. -/
theorem floor_half (path : ℚ) : ⌊path / 2⌋₊ = ⌊path⌋₊ / 2 := Nat.floor_div_ofNat path 2

/-- The loop of the script hashes what the loop of the contract hashes. -/
theorem verifyLoop_eq (node : Bytes32) (path : ℚ) (merkleProof : List Bytes32) :
    verifyLoop keccak256 node path merkleProof =
      merkleRoot keccak256 node ⌊path⌋₊ merkleProof := by
  induction merkleProof generalizing node path with
  | nil => rfl
  | cons other merkleProof ih =>
      simp only [verifyLoop, merkleRoot, ih, floor_half, lastBit_eq, hashPair]

theorem verifyMerkleSignature_eq_ok {root : Bytes32} {depth : ℕ}
    {contractAddress accountAddress : Address} {index : Fin (2 ^ 53)} {stakeType : StakeType}
    {duration rate amount : ℕ} {merkleProof : List Bytes32} :
    verifyMerkleSignature keccak256 root depth contractAddress accountAddress index stakeType
        duration rate amount merkleProof = .ok true ↔
      stakeType ≠ .number 0 ∧ index.val < 2 ^ merkleProof.length ∧ merkleProof.length = depth ∧
        merkleRoot keccak256 (keccak256 (dropEntry index.val stakeType.type contractAddress
          accountAddress duration rate amount)) index.val merkleProof = root := by
  simp only [verifyMerkleSignature, bind_eq_ok, require_eq_ok, pure_eq_ok, exists_const,
    verifyLoop_eq, Nat.floor_natCast, decide_eq_true_eq]
  rfl

/-- A proof of the contract is shorter than a word has bits. -/
theorem index_lt_iff {index length : ℕ} :
    index < 2 ^ length % wordBound ↔ length < 256 ∧ index < 2 ^ length := by
  by_cases hshort : length < 256
  · have hfit : 2 ^ length < wordBound := Nat.pow_lt_pow_right one_lt_two hshort
    simp [hshort, Nat.mod_eq_of_lt hfit]
  · have hword : wordBound ∣ 2 ^ length := pow_dvd_pow 2 (not_lt.mp hshort)
    simp [hshort, Nat.mod_eq_zero_of_dvd hword]

/-- Every entry of a list, with the proof the scripts make for it, passes the script for the root
and the depth they make for the list. -/
theorem scripts_verify {payoutList : PayoutList} {contractAddress accountAddress : Address}
    {index : Fin (2 ^ 53)} {amount : ℕ}
    (hpayout : payoutList.payouts[index.val]? = some (accountAddress, amount)) :
    ∃ root depth merkleProof,
      computeRootHash keccak256 contractAddress payoutList = (some root, depth) ∧
        merkleProof.map some = computeMerkleProof keccak256 contractAddress payoutList index.val ∧
        ∀ stakeType : StakeType, stakeType.type = payoutList.type → stakeType ≠ .number 0 →
          verifyMerkleSignature keccak256 root depth contractAddress accountAddress index stakeType
            payoutList.duration payoutList.rate amount merkleProof = .ok true := by
  obtain ⟨hlt, -⟩ := List.getElem?_eq_some_iff.mp hpayout
  have hleaf : index.val < (getLeaves keccak256 contractAddress payoutList).length := by
    rwa [getLeaves_length]
  obtain ⟨root, hroot⟩ := exists_root keccak256 contractAddress
    (List.ne_nil_of_length_pos (Nat.zero_lt_of_lt hlt))
  obtain ⟨merkleProof, hproof⟩ := Merkle.exists_path (nodeHash keccak256)
    (Nat.clog 2 payoutList.payouts.length) hleaf
  have hlength : merkleProof.length = Nat.clog 2 payoutList.payouts.length := by
    have hlengths := congrArg List.length hproof
    rwa [List.length_map, Merkle.path_length] at hlengths
  refine ⟨root, Nat.clog 2 payoutList.payouts.length, merkleProof, ?_, ?_, ?_⟩
  · rw [computeRootHash_eq, hroot]
    rfl
  · rw [computeMerkleProof_eq_path, hproof]
  · intro stakeType htype huser
    rw [verifyMerkleSignature_eq_ok, merkleRoot_eq_climb, htype, hlength]
    refine ⟨huser, hlt.trans_le (Nat.le_pow_clog one_lt_two _), rfl, ?_⟩
    exact Merkle.climb_path hroot (leaf_of_entry hpayout) hproof

end Agreement

theorem scripts_verify_last :
    ∃ root depth merkleProof, computeRootHash keccak256 9 smallDrop = (some root, depth) ∧
      verifyMerkleSignature keccak256 root depth 9 5 2 (.bigNumber 1) 90 300000000000000000 70
        merkleProof = .ok true := by
  have hpayout : smallDrop.payouts[(2 : Fin (2 ^ 53)).val]? = some (5, 70) := rfl
  obtain ⟨root, depth, merkleProof, hroot, -, hverify⟩ :=
    @scripts_verify keccak256 smallDrop 9 5 2 70 hpayout
  exact ⟨root, depth, merkleProof, hroot, hverify (.bigNumber 1) rfl (by decide)⟩

end Staking

end InterestDollar
