/-
Cipher block chaining.  Bytes are cut into chunks of one size; over whole blocks, of any
kind, decryption undoes encryption for every block cipher that can be undone, and the
last block of the ciphertext depends on every block before it.
-/
import Mathlib.Data.List.Basic
import Mathlib.Data.Vector.Basic

namespace RlnGifter

section Chunks

variable {α : Type} {n : Nat}

/-- `chunks(n)`: the last chunk holds what is left over. -/
def chunks (n : Nat) (xs : List α) : List (List α) :=
  if _h : n = 0 ∨ xs = [] then [] else xs.take n :: chunks n (xs.drop n)
termination_by xs.length
decreasing_by
  rw [List.length_drop]
  have hpos := List.length_pos_of_ne_nil (not_or.mp _h).2
  omega

@[simp] theorem chunks_nil : chunks n ([] : List α) = [] := by
  rw [chunks, dif_pos (Or.inr rfl)]

theorem chunks_of_ne_nil {xs : List α} (hn : n ≠ 0) (hxs : xs ≠ []) :
    chunks n xs = xs.take n :: chunks n (xs.drop n) := by
  rw [chunks, dif_neg (not_or.mpr ⟨hn, hxs⟩)]

/-- The bytes of blocks one after another. -/
def joinBlocks (blocks : List (List.Vector α n)) : List α :=
  blocks.flatMap List.Vector.toList

@[simp] theorem joinBlocks_cons (b : List.Vector α n) (blocks : List (List.Vector α n)) :
    joinBlocks (b :: blocks) = b.toList ++ joinBlocks blocks := rfl

@[simp] theorem length_joinBlocks (blocks : List (List.Vector α n)) :
    (joinBlocks blocks).length = n * blocks.length := by
  induction blocks with
  | nil => rfl
  | cons b blocks ih =>
      rw [joinBlocks_cons, List.length_append, ih, List.Vector.toList_length,
        List.length_cons, Nat.mul_succ, Nat.add_comm]

/-- The chunks of whole blocks are the blocks. -/
theorem chunks_joinBlocks (hn : n ≠ 0) (blocks : List (List.Vector α n)) :
    chunks n (joinBlocks blocks) = blocks.map List.Vector.toList := by
  induction blocks with
  | nil => exact chunks_nil
  | cons b blocks ih =>
      have hlen := b.toList_length
      have hne : joinBlocks (b :: blocks) ≠ [] := by
        intro hnil
        rw [joinBlocks_cons, List.append_eq_nil_iff] at hnil
        rw [hnil.1] at hlen
        exact hn hlen.symm
      rw [chunks_of_ne_nil hn hne, joinBlocks_cons, List.take_left' hlen,
        List.drop_left' hlen, ih, List.map_cons]

/-- Bytes that fill their last block are blocks one after another. -/
theorem exists_joinBlocks {xs : List α} (h : n ∣ xs.length) :
    ∃ blocks : List (List.Vector α n), xs = joinBlocks blocks := by
  obtain ⟨k, hk⟩ := h
  induction k generalizing xs with
  | zero => exact ⟨[], List.eq_nil_of_length_eq_zero hk⟩
  | succ k ih =>
      rw [Nat.mul_succ] at hk
      have htake : (xs.take n).length = n := by
        rw [List.length_take]
        omega
      have hdrop : (xs.drop n).length = n * k := by
        rw [List.length_drop]
        omega
      obtain ⟨blocks, hblocks⟩ := ih hdrop
      refine ⟨(⟨xs.take n, htake⟩ : List.Vector α n) :: blocks, ?_⟩
      change xs = xs.take n ++ joinBlocks blocks
      rw [← hblocks, List.take_append_drop]

/-- The two differ in one block, at the same place. -/
def OneBlockApart (n : Nat) (xs ys : List α) : Prop :=
  ∃ (front back : List (List.Vector α n)) (b b' : List.Vector α n), b ≠ b' ∧
    xs = joinBlocks (front ++ b :: back) ∧ ys = joinBlocks (front ++ b' :: back)

/-- Every chunk is full just when the last block is. -/
theorem forall_chunks_length {xs : List α} (hn : n ≠ 0) :
    (∀ chunk ∈ chunks n xs, chunk.length = n) ↔ n ∣ xs.length := by
  constructor
  · intro h
    induction hk : xs.length using Nat.strongRecOn generalizing xs with
    | ind k ih =>
        subst hk
        by_cases hxs : xs = []
        · rw [hxs]
          exact ⟨0, (Nat.mul_zero n).symm⟩
        · rw [chunks_of_ne_nil hn hxs, List.forall_mem_cons] at h
          have hpos := List.length_pos_of_ne_nil hxs
          have hfull : n ≤ xs.length := by
            rw [List.length_take] at h
            omega
          have hrest := ih (xs.drop n).length (by rw [List.length_drop]; omega) h.2 rfl
          rw [List.length_drop] at hrest
          exact (Nat.dvd_sub_iff_left hfull (Nat.dvd_refl n)).mp hrest
  · intro h chunk hchunk
    obtain ⟨blocks, rfl⟩ := exists_joinBlocks h
    rw [chunks_joinBlocks hn] at hchunk
    obtain ⟨b, -, rfl⟩ := List.mem_map.mp hchunk
    exact b.toList_length

end Chunks

namespace Cbc

variable {B : Type} (mix : B → B → B) (enc dec : B → B)

/-- Each block is mixed with the ciphertext before it and encrypted. -/
def encrypt : B → List B → List B
  | _, [] => []
  | prev, b :: rest => enc (mix b prev) :: encrypt (enc (mix b prev)) rest

/-- The last block of the ciphertext, or what it starts from. -/
def last : B → List B → B
  | prev, [] => prev
  | prev, b :: rest => last (enc (mix b prev)) rest

variable {mix enc dec}

@[simp] theorem length_encrypt (prev : B) (blocks : List B) :
    (encrypt mix enc prev blocks).length = blocks.length := by
  induction blocks generalizing prev with
  | nil => rfl
  | cons b blocks ih => rw [encrypt, List.length_cons, ih, List.length_cons]

theorem encrypt_append (prev : B) (front back : List B) :
    encrypt mix enc prev (front ++ back) =
      encrypt mix enc prev front ++ encrypt mix enc (last mix enc prev front) back := by
  induction front generalizing prev with
  | nil => rfl
  | cons b front ih => rw [List.cons_append, encrypt, ih, encrypt, last, List.cons_append]

theorem last_append (prev : B) (front back : List B) :
    last mix enc prev (front ++ back) = last mix enc (last mix enc prev front) back := by
  induction front generalizing prev with
  | nil => rfl
  | cons b front ih => exact ih (enc (mix b prev))

/-- The ciphertext of one block and more ends in the last block. -/
theorem encrypt_cons_ends (prev b : B) (blocks : List B) : ∃ front,
    encrypt mix enc prev (b :: blocks) = front ++ [last mix enc prev (b :: blocks)] := by
  induction blocks generalizing prev b with
  | nil => exact ⟨[], rfl⟩
  | cons c blocks ih =>
      obtain ⟨front, hfront⟩ := ih (enc (mix b prev)) c
      refine ⟨enc (mix b prev) :: front, ?_⟩
      rw [encrypt, hfront]
      rfl

/-- A change of what the chain starts from is carried to its end. -/
theorem last_injective (henc : Function.Injective enc)
    (hmix : ∀ b, Function.Injective (mix b)) (blocks : List B) :
    Function.Injective fun prev => last mix enc prev blocks := by
  induction blocks with
  | nil => exact Function.injective_id
  | cons b blocks ih => exact ih.comp (henc.comp (hmix b))

/-- So is a change of any one block. -/
theorem last_ne_of_block (henc : Function.Injective enc)
    (hmix : ∀ b, Function.Injective (mix b)) (hblock : ∀ c, Function.Injective fun b => mix b c)
    (prev : B) (front back : List B) {b b' : B} (hne : b ≠ b') :
    last mix enc prev (front ++ b :: back) ≠ last mix enc prev (front ++ b' :: back) := by
  intro hlast
  rw [last_append, last_append] at hlast
  have hafter := last_injective henc hmix back hlast
  apply hne
  apply hblock (last mix enc prev front)
  exact henc hafter

end Cbc

end RlnGifter
