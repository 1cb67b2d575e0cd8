import Std.Data.TreeSet
import Disasm.Address

/-!
# Sets of addresses

A set that remembers the order in which its members were first inserted. Membership is looked up
in a search tree, so that a target with many references is no burden.
-/

namespace Disasm

/-- Addresses without repetition, in the order of their first insertion. -/
structure AddressSet where
  newestFirst : List Address
  members : Std.TreeSet Address
  mem_members : ∀ address, address ∈ members ↔ address ∈ newestFirst

namespace AddressSet

def empty : AddressSet where
  newestFirst := []
  members := ∅
  mem_members := by simp

/-- The members in the order of their first insertion. -/
def toList (set : AddressSet) : List Address :=
  set.newestFirst.reverse

/-- Adds an address. A member keeps its place. -/
def insert (set : AddressSet) (address : Address) : AddressSet :=
  if address ∈ set.members then set
  else
    { newestFirst := address :: set.newestFirst
      members := set.members.insert address
      mem_members := fun other => by
        rw [Std.TreeSet.mem_insert, set.mem_members, List.mem_cons, Std.compare_eq_iff_eq, eq_comm] }

@[simp]
theorem toList_empty : empty.toList = [] := rfl

theorem toList_insert (set : AddressSet) (address : Address) :
    (set.insert address).toList =
      if address ∈ set.toList then set.toList else set.toList ++ [address] := by
  simp only [insert, toList, List.mem_reverse, set.mem_members]
  split <;> simp

end AddressSet

end Disasm
