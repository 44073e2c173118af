import Mathlib

/-!
# Primitives — `uint256` and little-endian words

`uint256` (`base_blob<256>` of `uint256.h`) is 32 bytes, `data[0]` first; `uint256()` is all
zero.  `uint160` is 20 bytes, and its constructor from a vector asserts the size.  `ReadLE32`/`WriteLE32` of `crypto/common.h` read and write a `uint32_t` as four bytes,
least significant first, and `ReadLE16` a `uint16_t` from two; `ReadLE32` inverts `WriteLE32`
(`readLE32_writeLE32`).
-/

namespace Trumpow

/-- `uint256`: exactly 32 bytes. -/
@[ext]
structure Uint256 where
  data : List UInt8
  length_data : data.length = 32
deriving DecidableEq

/-- `uint256()`: 32 zero bytes. -/
instance : Inhabited Uint256 := ⟨⟨List.replicate 32 0, List.length_replicate⟩⟩

/-- The bytes of a `uint256` in reverse order, as `std::reverse` leaves them, determine it. -/
theorem Uint256.eq_of_reverse_data {a b : Uint256} (h : a.data.reverse = b.data.reverse) :
    a = b :=
  Uint256.ext (List.reverse_injective h)

/-- `uint160`: exactly 20 bytes. -/
@[ext]
structure Uint160 where
  data : List UInt8
  length_data : data.length = 20
deriving DecidableEq

/-- `uint160()`: 20 zero bytes. -/
instance : Inhabited Uint160 := ⟨⟨List.replicate 20 0, List.length_replicate⟩⟩

/-- `uint160(const std::vector<unsigned char>&)`, which asserts the vector has 20 bytes. -/
def uint160 (vch : List UInt8) : Except String Uint160 :=
  if h : vch.length = 20 then .ok ⟨vch, h⟩ else .error "uint160: assert(vch.size() == sizeof(data))"

/-- `ReadLE32(ptr)`, from the first four bytes of `b`. -/
def readLE32 (b : List UInt8) : Nat :=
  (b.getD 0 0).toNat + 2 ^ 8 * (b.getD 1 0).toNat + 2 ^ 16 * (b.getD 2 0).toNat +
    2 ^ 24 * (b.getD 3 0).toNat

/-- `ReadLE16(ptr)`, from the first two bytes of `b`. -/
def readLE16 (b : List UInt8) : Nat :=
  (b.getD 0 0).toNat + 2 ^ 8 * (b.getD 1 0).toNat

/-- `WriteLE32(ptr, x)`: the four bytes of a `uint32_t`, least significant first. -/
def writeLE32 (x : Nat) : List UInt8 :=
  [UInt8.ofNat x, UInt8.ofNat (x / 2 ^ 8), UInt8.ofNat (x / 2 ^ 16), UInt8.ofNat (x / 2 ^ 24)]

/-- `WriteLE16(ptr, x)`. -/
def writeLE16 (x : Nat) : List UInt8 :=
  [UInt8.ofNat x, UInt8.ofNat (x / 2 ^ 8)]

@[simp]
theorem length_writeLE32 (x : Nat) : (writeLE32 x).length = 4 := rfl

theorem readLE32_writeLE32 {x : Nat} (hx : x < 2 ^ 32) (rest : List UInt8) :
    readLE32 (writeLE32 x ++ rest) = x := by
  simp only [readLE32, writeLE32, List.cons_append, List.getD_cons_zero, List.getD_cons_succ,
    UInt8.toNat_ofNat']
  omega

end Trumpow
