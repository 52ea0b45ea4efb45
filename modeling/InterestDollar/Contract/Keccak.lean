import InterestDollar.Contract.Encoding
import Mathlib.Data.List.Rotate

/-!
# The hash function of the machine

Nothing that is proved about the contracts looks inside `keccak256`: where they hash, the
function is a parameter, and what is asked of it is said there. This is the function the
machine has, for the runs that are evaluated.

The state is five rows of five lanes of 64 bits, a lane being a number. The sponge takes in
blocks of 136 bytes and gives out the first four lanes.
-/

namespace InterestDollar

namespace Keccak

/-- Bytes in a block. -/
def blockLength : ℕ := 136

def laneMask : ℕ := 2 ^ 64 - 1

/-- A lane turned to the left. -/
def turn (lane count : ℕ) : ℕ :=
  Nat.land (Nat.lor (Nat.shiftLeft lane count) (Nat.shiftRight lane (64 - count))) laneMask

def roundConstants : List ℕ :=
  [0x0000000000000001, 0x0000000000008082, 0x800000000000808A, 0x8000000080008000,
   0x000000000000808B, 0x0000000080000001, 0x8000000080008081, 0x8000000000008009,
   0x000000000000008A, 0x0000000000000088, 0x0000000080008009, 0x000000008000000A,
   0x000000008000808B, 0x800000000000008B, 0x8000000000008089, 0x8000000000008003,
   0x8000000000008002, 0x8000000000000080, 0x000000000000800A, 0x800000008000000A,
   0x8000000080008081, 0x8000000000008080, 0x0000000080000001, 0x8000000080008008]

/-- How far each lane is turned. -/
def turns : List (List ℕ) :=
  [[0, 1, 62, 28, 27], [36, 44, 6, 55, 20], [3, 10, 43, 25, 39], [41, 45, 15, 21, 8],
   [18, 2, 61, 56, 14]]

/-- The parities of the columns to the left and to the right go into every lane. -/
def theta (rows : List (List ℕ)) : List (List ℕ) :=
  let parities := rows.foldr (List.zipWith Nat.xor) [0, 0, 0, 0, 0]
  let mixed := List.zipWith (fun left right => Nat.xor left (turn right 1))
    (parities.rotate 4) (parities.rotate 1)
  rows.map (List.zipWith Nat.xor mixed)

/-- The lanes are turned, and the diagonals become the rows. -/
def rhoPi (rows : List (List ℕ)) : List (List ℕ) :=
  let turned := List.zipWith (List.zipWith turn) rows turns
  (List.range 5).map fun y =>
    turned.zipIdx.map fun (row, x) => row.getD ((x + 3 * y) % 5) 0

def chi (rows : List (List ℕ)) : List (List ℕ) :=
  rows.map fun row =>
    List.zipWith Nat.xor row
      (List.zipWith (fun next afterNext => Nat.land (Nat.xor next laneMask) afterNext)
        (row.rotate 1) (row.rotate 2))

def iota (constant : ℕ) : List (List ℕ) → List (List ℕ)
  | (lane :: row) :: rows => (Nat.xor lane constant :: row) :: rows
  | rows => rows

def permute (rows : List (List ℕ)) : List (List ℕ) :=
  roundConstants.foldl (fun rows constant => iota constant (chi (rhoPi (theta rows)))) rows

/-- The number that bytes stand for, least significant first. -/
def littleEndian : List UInt8 → ℕ
  | [] => 0
  | byte :: rest => byte.toNat + 256 * littleEndian rest

/-- The bytes of a lane, the other way round. -/
def swapBytes (lane : ℕ) : ℕ :=
  littleEndian (bytes 8 lane)

/-- A block goes into the first lanes, of which it fills seventeen. -/
def absorb (rows : List (List ℕ)) (block : List UInt8) : List (List ℕ) :=
  permute (rows.zipIdx.map fun (row, y) =>
    row.zipIdx.map fun (lane, x) =>
      Nat.xor lane (littleEndian ((block.drop (8 * (5 * y + x))).take 8)))

def absorbAll : (blocks : ℕ) → List UInt8 → List (List ℕ) → List (List ℕ)
  | 0, _, rows => rows
  | blocks + 1, message, rows =>
      absorbAll blocks (message.drop blockLength) (absorb rows (message.take blockLength))

/-- The message filled up to whole blocks. -/
def pad (message : List UInt8) : List UInt8 :=
  match blockLength - message.length % blockLength with
  | gap + 2 => message ++ 0x01 :: List.replicate gap 0 ++ [0x80]
  | _ => message ++ [0x81]

end Keccak

open Keccak in
def keccak256 (message : List UInt8) : Bytes32 :=
  let rows := absorbAll (message.length / blockLength + 1) (pad message)
    (List.replicate 5 [0, 0, 0, 0, 0])
  BitVec.ofNat 256 ((rows.headD []).take 4 |>.foldl (fun n lane => n * 2 ^ 64 + swapBytes lane) 0)

example :
    keccak256 [] = 0xc5d2460186f7233c927e7db2dcc703c0e500b653ca82273b7bfad8045d85a470#256 := by
  decide +kernel

end InterestDollar
