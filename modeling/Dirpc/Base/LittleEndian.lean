import Mathlib.Data.List.Basic
import Mathlib.Tactic.Ring

namespace Base

/-- The number written by bytes, the least significant one first. -/
def ofLe : List UInt8 → Nat
  | [] => 0
  | byte :: rest => byte.toNat + 256 * ofLe rest

def toLe : Nat → Nat → List UInt8
  | 0, _ => []
  | width + 1, value => UInt8.ofNat value :: toLe width (value / 256)

@[simp] theorem toLe_length (width value : Nat) : (toLe width value).length = width := by
  induction width generalizing value with
  | zero => rfl
  | succ width ih => rw [toLe, List.length_cons, ih]

theorem ofLe_toLe {width value : Nat} (bound : value < 256 ^ width) :
    ofLe (toLe width value) = value := by
  induction width generalizing value with
  | zero =>
    rw [pow_zero] at bound
    exact (Nat.lt_one_iff.mp bound).symm
  | succ width ih =>
    rw [pow_succ] at bound
    rw [toLe, ofLe, ih (Nat.div_lt_of_lt_mul (by omega)), UInt8.toNat_ofNat']
    omega

theorem ofLe_lt (bytes : List UInt8) : ofLe bytes < 256 ^ bytes.length := by
  induction bytes with
  | nil => decide
  | cons byte rest ih =>
    have small := byte.toNat_lt
    rw [ofLe, List.length_cons, pow_succ]
    omega

theorem toLe_ofLe (bytes : List UInt8) : toLe bytes.length (ofLe bytes) = bytes := by
  induction bytes with
  | nil => rfl
  | cons byte rest ih =>
    have small := byte.toNat_lt
    have low : UInt8.ofNat (byte.toNat + 256 * ofLe rest) = byte := by
      apply UInt8.toNat_inj.mp
      rw [UInt8.toNat_ofNat']
      omega
    have high : (byte.toNat + 256 * ofLe rest) / 256 = ofLe rest := by omega
    rw [ofLe, List.length_cons, toLe, low, high, ih]

def ofLeI32 (bytes : List UInt8) : Int :=
  if ofLe bytes < 2147483648 then ofLe bytes else ofLe bytes - 4294967296

def toLeI32 (value : Int) : List UInt8 :=
  if 0 ≤ value then toLe 4 value.toNat else toLe 4 (value + 4294967296).toNat

@[simp] theorem toLeI32_length (value : Int) : (toLeI32 value).length = 4 := by
  unfold toLeI32
  split <;> rw [toLe_length]

theorem ofLeI32_range {bytes : List UInt8} (word : bytes.length = 4) :
    -2147483648 ≤ ofLeI32 bytes ∧ ofLeI32 bytes < 2147483648 := by
  have bound := ofLe_lt bytes
  rw [word] at bound
  unfold ofLeI32
  split <;> omega

theorem ofLeI32_toLeI32 {value : Int} (low : -2147483648 ≤ value) (high : value < 2147483648) :
    ofLeI32 (toLeI32 value) = value := by
  unfold ofLeI32 toLeI32
  by_cases nonneg : 0 ≤ value
  · have bound : value.toNat < 256 ^ 4 := by omega
    rw [if_pos nonneg, ofLe_toLe bound, if_pos (by omega), Int.toNat_of_nonneg nonneg]
  · have bound : (value + 4294967296).toNat < 256 ^ 4 := by omega
    rw [if_neg nonneg, ofLe_toLe bound, if_neg (by omega)]
    omega

theorem toLeI32_ofLeI32 {bytes : List UInt8} (word : bytes.length = 4) :
    toLeI32 (ofLeI32 bytes) = bytes := by
  have bound := ofLe_lt bytes
  have same := toLe_ofLe bytes
  rw [word] at bound same
  unfold ofLeI32 toLeI32
  by_cases small : ofLe bytes < 2147483648
  · rw [if_pos small, if_pos (Int.natCast_nonneg _), Int.toNat_natCast, same]
  · have wrapped : ((ofLe bytes : Int) - 4294967296 + 4294967296).toNat = ofLe bytes := by omega
    rw [if_neg small, if_neg (by omega), wrapped, same]

theorem toLeI32_natCast (value : Nat) : toLeI32 value = toLe 4 value := by
  unfold toLeI32
  rw [if_pos (Int.natCast_nonneg _), Int.toNat_natCast]

end Base
