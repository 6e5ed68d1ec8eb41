import Mathlib.Algebra.Group.Nat.Defs
import Mathlib.Data.List.Basic

/-! # Numbers as bytes

Fixed-width numbers with the least significant byte first, and numbers of variable length
with seven bits to a byte. Every byte but the last one of such a number has its high bit set.
-/

namespace CuTile

abbrev Bytes : Type := List UInt8

/-! ## Fixed width -/

def littleEndian : Nat → Nat → Bytes
  | 0, _ => []
  | width + 1, value => UInt8.ofNat (value % 256) :: littleEndian width (value / 256)

def ofLittleEndian : Bytes → Nat
  | [] => 0
  | byte :: rest => byte.toNat + 256 * ofLittleEndian rest

theorem toNat_ofNat_of_lt {value : Nat} (small : value < 256) :
    (UInt8.ofNat value).toNat = value := by
  rw [UInt8.toNat_ofNat']
  exact Nat.mod_eq_of_lt small

@[simp] theorem length_littleEndian (width value : Nat) :
    (littleEndian width value).length = width := by
  induction width generalizing value with
  | zero => rfl
  | succ _ induction => rw [littleEndian, List.length_cons, induction]

theorem littleEndian_ofLittleEndian (bytes : Bytes) :
    littleEndian bytes.length (ofLittleEndian bytes) = bytes := by
  induction bytes with
  | nil => rfl
  | cons byte rest induction =>
    have small := byte.toNat_lt
    rw [ofLittleEndian, List.length_cons, littleEndian, Nat.add_mul_mod_self_left,
      Nat.mod_eq_of_lt small, UInt8.ofNat_toNat, Nat.add_mul_div_left _ _ (by decide),
      Nat.div_eq_of_lt small, Nat.zero_add, induction]

theorem ofLittleEndian_littleEndian {width value : Nat} (fits : value < 256 ^ width) :
    ofLittleEndian (littleEndian width value) = value := by
  induction width generalizing value with
  | zero => exact (Nat.lt_one_iff.mp fits).symm
  | succ width induction =>
    rw [littleEndian, ofLittleEndian, toNat_ofNat_of_lt (Nat.mod_lt _ (by decide)),
      induction (Nat.div_lt_of_lt_mul (by rwa [Nat.pow_succ'] at fits))]
    exact Nat.mod_add_div value 256

theorem ofLittleEndian_lt (bytes : Bytes) : ofLittleEndian bytes < 256 ^ bytes.length := by
  induction bytes with
  | nil => exact Nat.one_pos
  | cons byte rest induction =>
    have small := byte.toNat_lt
    rw [ofLittleEndian, List.length_cons, Nat.pow_succ']
    omega

theorem ofLittleEndian_eq_iff {bytes : Bytes} {width value : Nat} (long : bytes.length = width) :
    ofLittleEndian bytes = value ↔ value < 256 ^ width ∧ bytes = littleEndian width value := by
  subst long
  constructor
  · rintro rfl
    exact ⟨ofLittleEndian_lt bytes, (littleEndian_ofLittleEndian bytes).symm⟩
  · rintro ⟨fits, isBytes⟩
    rw [isBytes, ofLittleEndian_littleEndian fits]

/-! ## Variable length -/

/-- At most so many groups of seven bits. -/
def varintGroups : Nat → Nat → Bytes
  | 0, _ => []
  | groups + 1, value =>
    if value / 128 = 0 then [UInt8.ofNat (value % 128)]
    else UInt8.ofNat (value % 128 + 128) :: varintGroups groups (value / 128)

/-- Ten groups hold 64 bits. -/
def varint (value : Nat) : Bytes :=
  varintGroups 10 value

theorem or_shifted {low shift : Nat} (below : low < 2 ^ shift) (group : Nat) :
    low ||| group * 2 ^ shift = low + group * 2 ^ shift := by
  rw [Nat.or_comm, Nat.mul_comm, ← Nat.two_pow_add_eq_or_of_lt below, Nat.add_comm]

/-! ## Alignment -/

/-- How many bytes are missing to the next multiple of the alignment. -/
def paddingTo (alignment position : Nat) : Nat :=
  (alignment - position % alignment) % alignment

theorem dvd_add_paddingTo {alignment : Nat} (positive : 0 < alignment) (position : Nat) :
    alignment ∣ position + paddingTo alignment position := by
  have below := Nat.mod_lt position positive
  have whole : position % alignment + (alignment - position % alignment) = alignment := by omega
  apply Nat.dvd_of_mod_eq_zero
  rw [paddingTo, Nat.add_mod_mod, ← Nat.mod_add_mod, whole, Nat.mod_self]

end CuTile
