/-
The append-only store of consumed nullifiers, one lowercase line each, and the
set of them a process keeps in memory.
-/
import Mathlib.Data.Finset.Basic
import RlnGifter.Text

namespace RlnGifter

section Load

variable [CaseTables]

/-- The entry a line of the file stands for, if it is not blank. -/
def nullifierOfLine (line : String) : Option String :=
  let n := toLowercase (trim line)
  if n = "" then none else some n

/-- The set `load_nullifiers` builds from the contents of the file. -/
def parseNullifiers (contents : String) : Finset String :=
  ((lines contents).filterMap nullifierOfLine).toFinset

/-- `load_nullifiers`, given what reading the file gave. -/
def loadNullifiers (path : String) (contents : Option String) : Finset String :=
  if path = "" then ∅
  else
    match contents with
    | some contents => parseNullifiers contents
    | none => ∅

end Load

/-- What `append_nullifier` writes. -/
def nullifierLine (nullifier : String) : String :=
  nullifier ++ "\n"

/-- Check and reserve under the lock of `CONSUMED_NULLIFIERS`: whether the key
was there, and the set with it. -/
def reserveNullifier (consumed : Option (Finset String)) (nul : String) :
    Bool × Option (Finset String) :=
  let set := consumed.getD ∅
  if nul ∈ set then (true, some set) else (false, some (insert nul set))

/-- Roll a reservation back. -/
def releaseNullifier (consumed : Option (Finset String)) (nul : String) :
    Option (Finset String) :=
  consumed.map fun set => set.erase nul

/-- Merge what was loaded, never replace. -/
def mergeNullifiers (consumed : Option (Finset String)) (loaded : Finset String) :
    Option (Finset String) :=
  some (consumed.getD ∅ ∪ loaded)

/-- A key is in the set a process keeps. -/
def IsConsumed (consumed : Option (Finset String)) (nul : String) : Prop :=
  nul ∈ consumed.getD ∅

theorem reserveNullifier_fst {consumed : Option (Finset String)} {nul : String} :
    (reserveNullifier consumed nul).1 = true ↔ IsConsumed consumed nul := by
  unfold reserveNullifier IsConsumed
  dsimp only
  split <;> simp_all

theorem isConsumed_reserve {consumed : Option (Finset String)} {nul other : String} :
    IsConsumed (reserveNullifier consumed nul).2 other ↔
      other = nul ∨ IsConsumed consumed other := by
  unfold reserveNullifier IsConsumed
  dsimp only
  split
  · rename_i hmem
    simp only [Option.getD_some]
    constructor
    · exact Or.inr
    · rintro (rfl | h)
      · exact hmem
      · exact h
  · simp [Finset.mem_insert]

theorem isConsumed_release {consumed : Option (Finset String)} {nul other : String} :
    IsConsumed (releaseNullifier consumed nul) other ↔
      other ≠ nul ∧ IsConsumed consumed other := by
  cases consumed <;> simp [releaseNullifier, IsConsumed]

theorem isConsumed_merge {consumed : Option (Finset String)}
    {loaded : Finset String} {other : String} :
    IsConsumed (mergeNullifiers consumed loaded) other ↔
      IsConsumed consumed other ∨ other ∈ loaded := by
  simp [mergeNullifiers, IsConsumed]

/-- A process that finds no file starts with an empty set. -/
theorem not_isConsumed_fresh [CaseTables] (path key : String) :
    ¬ IsConsumed (mergeNullifiers none (loadNullifiers path none)) key := by
  simp [IsConsumed, mergeNullifiers, loadNullifiers]

end RlnGifter
