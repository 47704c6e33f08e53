/-
The Keccak-256 of `mint_attest.py`: the permutation on five by five lanes, and the sponge
around it.
-/
import RlnGifter.Hex

namespace RlnGifter

namespace Mint

/-- `_rol64`. -/
def rol64 (a n : Nat) : Nat :=
  ((a >>> (64 - n % 64)) + (a <<< (n % 64))) % (1 <<< 64)

abbrev Lanes : Type := List (List Nat)

/-- `lanes[x][y]`. -/
def lane (lanes : Lanes) (x y : Nat) : Nat := (lanes.getD x []).getD y 0

def setLane (lanes : Lanes) (x y v : Nat) : Lanes :=
  lanes.set x ((lanes.getD x []).set y v)

/-- Every lane is mixed with the parities of two columns. -/
def theta (lanes : Lanes) : Lanes :=
  let c := (List.range 5).map fun x =>
    lane lanes x 0 ^^^ lane lanes x 1 ^^^ lane lanes x 2 ^^^ lane lanes x 3 ^^^ lane lanes x 4
  let d := (List.range 5).map fun x => c.getD ((x + 4) % 5) 0 ^^^ rol64 (c.getD ((x + 1) % 5) 0) 1
  (List.range 5).map fun x => (List.range 5).map fun y => lane lanes x y ^^^ d.getD x 0

/-- The lanes are rotated and moved along one cycle. -/
def rhoPi (lanes : Lanes) : Lanes :=
  ((List.range 24).foldl (fun (state : Lanes × Nat × Nat × Nat) t =>
    let (lanes, x, y, current) := state
    let (x, y) := (y, (2 * x + 3 * y) % 5)
    (setLane lanes x y (rol64 current ((t + 1) * (t + 2) / 2)), x, y, lane lanes x y))
    (lanes, 1, 0, lane lanes 1 0)).1

/-- `T[x] ^ ((~T[(x + 1) % 5]) & T[(x + 2) % 5])`. -/
def chiBit (a b c : Nat) : Nat := a ^^^ (c ^^^ (b &&& c))

def chi (lanes : Lanes) : Lanes :=
  (List.range 5).map fun x => (List.range 5).map fun y =>
    chiBit (lane lanes x y) (lane lanes ((x + 1) % 5) y) (lane lanes ((x + 2) % 5) y)

/-- The constant of the round, from the shift register `R`. -/
def iota (lanes : Lanes) (R : Nat) : Lanes × Nat :=
  (List.range 7).foldl (fun (state : Lanes × Nat) j =>
    let (lanes, R) := state
    let R := ((R <<< 1) ^^^ ((R >>> 7) * 0x71)) % 256
    (if R &&& 2 ≠ 0 then setLane lanes 0 0 (lane lanes 0 0 ^^^ (1 <<< ((1 <<< j) - 1)))
      else lanes, R)) (lanes, R)

/-- `_keccak_f`. -/
def keccakF (lanes : Lanes) : Lanes :=
  ((List.range 24).foldl (fun (state : Lanes × Nat) _ =>
    iota (chi (rhoPi (theta state.1))) state.2) (lanes, 1)).1

/-- `int.from_bytes(bytes, "little")`. -/
def fromBytesLittle (bytes : List UInt8) : Nat :=
  bytes.foldr (fun b n => b.toNat + 256 * n) 0

/-- `v.to_bytes(n, "little")`. -/
def toBytesLittle (v n : Nat) : List UInt8 :=
  (List.range n).map fun i => .ofNat (v >>> (8 * i))

def rate : Nat := 136

/-- The message up to whole blocks: a one, zeros, and the last bit. -/
def pad (data : List UInt8) : List UInt8 :=
  let msg := data ++ [0x01]
  let msg := msg ++ List.replicate ((rate - msg.length % rate) % rate) 0x00
  msg.modify (msg.length - 1) (· ^^^ 0x80)

/-- One block is added to the state. -/
def absorb (lanes : Lanes) (block : List UInt8) : Lanes :=
  keccakF ((List.range (rate / 8)).foldl (fun lanes i =>
    setLane lanes (i % 5) (i / 5)
      (lane lanes (i % 5) (i / 5) ^^^ fromBytesLittle ((block.drop (8 * i)).take 8))) lanes)

def keccak256 (data : List UInt8) : List UInt8 :=
  let msg := pad data
  let lanes := (List.range (msg.length / rate)).foldl (fun lanes i =>
    absorb lanes ((msg.drop (rate * i)).take rate)) (List.replicate 5 (List.replicate 5 0))
  (List.range 4).flatMap fun i => toBytesLittle (lane lanes (i % 5) (i / 5)) 8

theorem length_keccak256 (data : List UInt8) : (keccak256 data).length = 32 := by
  simp [keccak256, toBytesLittle, List.length_flatMap]

set_option maxRecDepth 20000 in
example : hexEncode (keccak256 []) =
    "c5d2460186f7233c927e7db2dcc703c0e500b653ca82273b7bfad8045d85a470" := by
  decide +kernel

end Mint

end RlnGifter
