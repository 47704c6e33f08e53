/-
The short form of a command: a header alone, a header with the length that is expected
back, or a header with up to 255 bytes of data behind their length.
-/
import RlnGifter.Apdu

namespace RlnGifter

namespace Apdu

/-- The four cases of a short command; a length of zero is none of them. -/
def parseShort : List UInt8 → Option Command
  | [cla, ins, p1, p2] => some (Command.new cla ins p1 p2 [])
  | [cla, ins, p1, p2, le] => some { Command.new cla ins p1 p2 [] with le := some le }
  | cla :: ins :: p1 :: p2 :: lc :: body =>
      if lc = 0 ∨ body.length < lc.toNat then none
      else
        let cmd := Command.new cla ins p1 p2 (body.take lc.toNat)
        match body.drop lc.toNat with
        | [] => some cmd
        | [le] => some { cmd with le := some le }
        | _ => none
  | _ => none

/-- The serialization of a command with data. -/
theorem serialize_data (cla ins p1 p2 : UInt8) {data : List UInt8} (h : data ≠ [])
    (le : Option UInt8) : Command.serialize ⟨cla, ins, p1, p2, data, le⟩ =
      cla :: ins :: p1 :: p2 :: UInt8.ofNat data.length :: (data ++ le.toList) := by
  rw [Command.serialize, if_neg h]
  rfl

/-- What can be read is the serialization of what is read. -/
theorem serialize_of_parseShort {raw : List UInt8} {cmd : Command}
    (h : parseShort raw = some cmd) : cmd.serialize = raw ∧ cmd.data.length ≤ 255 := by
  match raw with
  | [] | [_] | [_, _] | [_, _, _] => cases h
  | [cla, ins, p1, p2] | [cla, ins, p1, p2, le] =>
      obtain rfl := Option.some.inj h
      exact ⟨rfl, Nat.zero_le _⟩
  | cla :: ins :: p1 :: p2 :: lc :: b :: body =>
      simp only [parseShort] at h
      split at h
      · cases h
      · rename_i hlc
        obtain ⟨hpos, hlong⟩ := not_or.mp hlc
        obtain ⟨data, rest, hbody, hlen⟩ : ∃ data rest, b :: body = data ++ rest ∧
            data.length = lc.toNat :=
          ⟨_, _, (List.take_append_drop lc.toNat _).symm, by
            rw [List.length_take, Nat.min_eq_left (Nat.le_of_not_lt hlong)]⟩
        have hdata : data ≠ [] := by
          intro hnil
          rw [hnil] at hlen
          exact hpos (UInt8.toNat_inj.mp hlen.symm)
        have hshort : data.length ≤ 255 := hlen.trans_le (Nat.le_of_lt_succ lc.toNat_lt)
        rw [hbody, List.take_left' hlen, List.drop_left' hlen] at h
        rw [hbody]
        split at h
        · obtain rfl := Option.some.inj h
          refine ⟨?_, hshort⟩
          rw [Command.new, serialize_data _ _ _ _ hdata, hlen, UInt8.ofNat_toNat]
          rfl
        · obtain rfl := Option.some.inj h
          refine ⟨?_, hshort⟩
          rw [Command.new, serialize_data _ _ _ _ hdata, hlen, UInt8.ofNat_toNat]
          rfl
        · cases h

/-- What fits the length byte is read back from its serialization. -/
theorem parseShort_serialize {cmd : Command} (h : cmd.data.length ≤ 255) :
    parseShort cmd.serialize = some cmd := by
  obtain ⟨cla, ins, p1, p2, data, le⟩ := cmd
  cases data with
  | nil =>
      cases le with
      | none => rfl
      | some le => rfl
  | cons b data =>
      have hlc : (UInt8.ofNat (b :: data).length).toNat = (b :: data).length :=
        UInt8.toNat_ofNat_of_lt' (Nat.lt_succ_of_le h)
      have hrange : ¬ (UInt8.ofNat (b :: data).length = 0 ∨
          (b :: data ++ le.toList).length < (UInt8.ofNat (b :: data).length).toNat) := by
        rintro (hzero | hlong)
        · rw [hzero] at hlc
          cases hlc
        · rw [hlc, List.length_append] at hlong
          omega
      rw [serialize_data _ _ _ _ (List.cons_ne_nil b data), List.cons_append, parseShort]
      · rw [← List.cons_append, if_neg hrange, hlc, List.take_left, List.drop_left]
        cases le with
        | none => rfl
        | some le => rfl
      · exact List.cons_ne_nil b _

/-- A command can be read back just if its data fits the length byte. -/
theorem parseShort_eq_some {raw : List UInt8} {cmd : Command} :
    parseShort raw = some cmd ↔ cmd.serialize = raw ∧ cmd.data.length ≤ 255 := by
  constructor
  · exact serialize_of_parseShort
  · rintro ⟨rfl, h⟩
    exact parseShort_serialize h

end Apdu

end RlnGifter
