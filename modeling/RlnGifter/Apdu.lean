/-
The commands a card is sent, its replies, and the reader of the TLV objects in them.
`usize` has 64 bits and wraps, as in a release build.
-/
import RlnGifter.Attest
import RlnGifter.Loops

namespace RlnGifter

/-- `isize::MAX`, which no slice has more bytes than. -/
def isizeMax : Nat := 2 ^ 63 - 1

/-- A `&[u8]`. -/
structure ByteSlice where
  bytes : List UInt8
  bounded : bytes.length ≤ isizeMax

namespace Apdu

def claGp : UInt8 := 0x80

structure Command where
  cla : UInt8
  ins : UInt8
  p1 : UInt8
  p2 : UInt8
  data : List UInt8
  le : Option UInt8 := none
deriving DecidableEq

structure Response where
  data : List UInt8
  sw : UInt16
deriving DecidableEq

def Command.new (cla ins p1 p2 : UInt8) (data : List UInt8) : Command :=
  { cla, ins, p1, p2, data }

/-- The length byte is a cast: of a longer field it keeps the lowest eight bits. -/
def Command.serialize (cmd : Command) : List UInt8 :=
  [cmd.cla, cmd.ins, cmd.p1, cmd.p2] ++
    (if cmd.data = [] then [] else UInt8.ofNat cmd.data.length :: cmd.data) ++
      cmd.le.toList

/-- The status word is the last two bytes; fewer bytes are no status at all. -/
def parseResponse (raw : List UInt8) : Response :=
  let n := raw.length
  match raw.drop (n - 2) with
  | [hi, lo] => ⟨raw.take (n - 2), hi.toUInt16 <<< 8 ||| lo.toUInt16⟩
  | _ => ⟨[], 0⟩

/-- `n` length bytes at `i`; what the shifts take past 64 bits is lost. -/
def readLenBytes (data : List UInt8) : Nat → UInt64 → Nat → Option (UInt64 × Nat)
  | 0, len, i => some (len, i)
  | n + 1, len, i =>
      match data[i]? with
      | none => none
      | some b => readLenBytes data n (len <<< 8 ||| b.toUInt64) (i + 1)

/-- The length at `i` and the index after it.  An index stays below the length of the
slice, so counting it up never wraps. -/
def readLen (data : List UInt8) (i : Nat) : Ending (Option (UInt64 × Nat)) :=
  match data[i]? with
  | none => .panics
  | some b =>
      if b < 0x80 then .returns (some (b.toUInt64, i + 1))
      else .returns (readLenBytes data (b &&& 0x7f).toNat 0 (i + 1))

/-- `&data[start..stop]`. -/
def subslice (data : List UInt8) (start stop : Nat) : Ending (List UInt8) :=
  if start ≤ stop ∧ stop ≤ data.length then .returns (KeycardAttest.slice data start stop)
  else .panics

/-- `i + len`, which wraps. -/
def addLen (i : Nat) (len : UInt64) : Nat := (UInt64.ofNat i + len).toNat

/-- One turn of the loop of `find_tag`, from the index of a tag byte. -/
def findTagTurn (data : List UInt8) (tag : UInt8) (i : Nat) :
    Turn Nat (Option (List UInt8)) :=
  match data[i]? with
  | none => .returns none
  | some t =>
      if data.length ≤ i + 1 then .returns none
      else
        match readLen data (i + 1) with
        | .returns (some (len, j)) =>
            let stop := addLen j len
            if data.length < stop then .returns none
            else if t = tag then
              match subslice data j stop with
              | .returns v => .returns (some v)
              | _ => .panics
            else .next stop
        | .returns none => .returns none
        | _ => .panics

/-- The loop visits indices up to the length only, so a run of more turns is endless. -/
def findTag (data : List UInt8) (tag : UInt8) : Ending (Option (List UInt8)) :=
  Turn.run (findTagTurn data tag) (data.length + 1) 0

end Apdu

end RlnGifter
