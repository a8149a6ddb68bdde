import Mathlib.Algebra.Group.Nat.Defs
import OrgForest.Proofs.Store.Forest

/-!
# Depths in words

Depths and distances are given in signed words of 32 bits. Chains are not longer than the store has
records, so what is given is the exact number while there are fewer than 2 ^ 31 records. In a larger
store a word may have only the low bits of the number.

* `Store.InWords` — an outcome whose number is given in a word;
* `Store.InWords.ok`, `Store.InWords.error` — how outcomes are given.
-/

namespace OrgForest

/-- An outcome whose number is given in the signed word of 32 bits that stands for it. The word is
the number itself unless the number is too large for any word, and then it has the low bits of it;
no number is too large if the store has fewer than 2 ^ 31 records. -/
structure Store.InWords (s : Store) (exact : Except OrganizationError Int)
    (given : Except OrganizationError Int32) : Prop where
  low : given = exact.map Int32.ofInt
  exact : s.organizations.size < 2 ^ 31 → given.map Int32.toInt = exact

namespace Store.InWords

variable {s : Store} {n : Int}

/-- A number is given as it is if it is less than the number of records. -/
theorem ok (hlow : -1 ≤ n) (hhigh : n < s.organizations.size) :
    s.InWords (.ok n) (.ok (.ofInt n)) where
  low := rfl
  exact hsize := congrArg Except.ok (Int32.toInt_ofInt_of_le (by omega) (by omega))

theorem error (e : OrganizationError) : s.InWords (.error e) (.error e) := ⟨rfl, fun _ => rfl⟩

end Store.InWords

/-- The depth at the end of a chain has one link less than the chain has ids. -/
theorem Chain.depth_eq (chain : Chain) : chain.depth = .ofInt ((chain.length : Int) - 1) := by
  cases chain with
  | nil => rfl
  | cons root rest =>
    have hlinks : ((root :: rest).length : Int) - 1 = rest.length := by
      rw [List.length_cons]
      omega
    rw [hlinks, Int32.ofInt_eq_ofNat]
    rfl

end OrgForest
