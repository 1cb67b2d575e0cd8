/-!
# Addresses

Addresses have sixteen bits and wrap. A span is a run of consecutive addresses that starts at
its origin; it fits if it ends at or before the end of the address space.
-/

namespace Disasm

/-- A place in the 16-bit address space. -/
abbrev Address := UInt16

/-- The number of addresses. -/
def addressSpace : Nat := 0x10000

/-- Addresses below the end of the address space do not wrap. -/
theorem toNat_add_offset {origin : Address} {offset : Nat}
    (h : origin.toNat + offset < addressSpace) :
    (origin + offset.toUInt16).toNat = origin.toNat + offset := by
  unfold addressSpace at h
  rw [UInt16.toNat_add, Nat.toUInt16_eq, UInt16.toNat_ofNat']
  omega

/-- A run of `length` bytes from `origin` on. -/
structure Span where
  origin : Address
  length : Nat
  deriving DecidableEq

namespace Span

/-- Whether the span ends inside the address space. -/
def Fits (span : Span) : Prop :=
  span.origin.toNat + span.length ≤ addressSpace

instance (span : Span) : Decidable span.Fits :=
  inferInstanceAs (Decidable (_ ≤ _))

def contains (span : Span) (address : Address) : Bool :=
  span.origin.toNat ≤ address.toNat && address.toNat < span.origin.toNat + span.length

end Span

/-- The length of a relative branch: its opcode and its displacement. -/
def relativeBranchLength : Address := 2

/-- Where a relative branch at `address` goes. The displacement counts from the end of the
branch and is a signed byte, so its upper half means a distance backwards. -/
def relativeTarget (address : Address) (displacement : UInt8) : Address :=
  let distance : Address :=
    if displacement < 0x80 then displacement.toUInt16 else displacement.toUInt16 - 0x100
  address + relativeBranchLength + distance

end Disasm
