/-!
# Addresses and networks

Internet addresses of both families as words of 32 and of 128 bits, and address
blocks: an address with the number of leading bits that its members share.

## Main definitions

* `Address` — an address of one of the two families.
* `Address.compare?` — numeric order inside a family; families do not compare.
* `Network` — an address block.
* `Network.contains` — whether an address lies in a block.
-/

namespace Compliance

/-- An address of version 4 or 6. -/
inductive Address where
  | v4 (bits : BitVec 32)
  | v6 (bits : BitVec 128)
deriving DecidableEq, Repr

namespace Address

instance : Inhabited Address := ⟨.v4 0⟩

/-- The number of bits of an address of the same family. -/
def width : Address → Nat
  | .v4 _ => 32
  | .v6 _ => 128

/-- Whether the address is of version 4. -/
def isV4 : Address → Bool
  | .v4 _ => true
  | .v6 _ => false

/-- Whether the address is of version 6. -/
def isV6 : Address → Bool
  | .v4 _ => false
  | .v6 _ => true

/-- The numeric order of two addresses of one family. -/
def compare? : Address → Address → Option Ordering
  | .v4 a, .v4 b => some (compare a.toNat b.toNat)
  | .v6 a, .v6 b => some (compare a.toNat b.toNat)
  | _, _ => none

end Address

/-! ## Networks -/

/-- An address block: all addresses that agree with `address` in the first `length` bits. -/
structure Network where
  address : Address
  length : Nat
  length_le : length ≤ address.width
deriving DecidableEq

namespace Network

/-- The block of the given length around an address, if the address has that many bits. -/
def of? (address : Address) (length : Nat) : Option Network :=
  if h : length ≤ address.width then some ⟨address, length, h⟩ else none

/-- The block that holds one address only. -/
def single (address : Address) : Network := ⟨address, address.width, Nat.le_refl _⟩

instance : Inhabited Network := ⟨single default⟩

/-- A word whose first `length` bits are set.  No bit at all is a case of its own, so that the
shift stays below the width. -/
def mask (width length : Nat) : BitVec width :=
  if length = 0 then 0 else BitVec.allOnes width <<< (width - length)

/-- Whether an address lies in the block; the other family never does. -/
def contains (network : Network) (address : Address) : Bool :=
  match network.address, address with
  | .v4 base, .v4 bits =>
    base &&& mask 32 network.length == bits &&& mask 32 network.length
  | .v6 base, .v6 bits =>
    base &&& mask 128 network.length == bits &&& mask 128 network.length
  | _, _ => false

end Network

end Compliance
