import Dirpc.Server.Message
import Mathlib.Data.Nat.Digits.Lemmas

namespace Dirpc

/-- How many decimal digits a number is written with. -/
def decimals (n : Nat) : Nat := max 1 (Nat.digits 10 n).length

theorem decimals_le_iff {n k : Nat} (positive : 0 < k) : decimals n ≤ k ↔ n < 10 ^ k := by
  rw [decimals, max_le_iff, Nat.digits_length_le_iff (by decide)]
  exact and_iff_right positive

theorem digitCount_eq (n : Nat) : digitCount n = decimals n := by
  unfold digitCount decimals
  split
  · rename_i zero
    rw [zero]
    rfl
  · rename_i nonzero
    rw [Nat.length_digits 10 n (by decide) nonzero]
    omega

theorem decimals_pos (n : Nat) : 0 < decimals n := Nat.le_max_left 1 _

theorem lt_pow_decimals (n : Nat) : n < 10 ^ decimals n :=
  (decimals_le_iff (decimals_pos n)).mp (Nat.le_refl _)

theorem wrapI64_eq {n : Int} (low : -2 ^ 63 ≤ n) (high : n < 2 ^ 63) : wrapI64 n = n := by
  apply Int.bmod_eq_of_le
  · omega
  · omega

theorem scaled_bound {nowMs ts : Int} (clock : nowMs.natAbs < 10 ^ 15)
    (seconds : decimals ts.natAbs + 3 ≤ decimals nowMs.natAbs) :
    (ts * 1000).natAbs < 10 ^ decimals nowMs.natAbs ∧ (ts * 1000).natAbs < 10 ^ 15 := by
  have below : ts.natAbs * 1000 < 10 ^ (decimals ts.natAbs + 3) := by
    rw [Nat.pow_add]
    exact Nat.mul_lt_mul_of_pos_right (lt_pow_decimals _) (by decide)
  have short : decimals nowMs.natAbs ≤ 15 := (decimals_le_iff (by decide)).mpr clock
  have digits : 10 ^ (decimals ts.natAbs + 3) ≤ 10 ^ decimals nowMs.natAbs :=
    Nat.pow_le_pow_right (by decide) seconds
  have width : 10 ^ decimals nowMs.natAbs ≤ 10 ^ 15 := Nat.pow_le_pow_right (by decide) short
  rw [Int.natAbs_mul]
  exact ⟨Nat.lt_of_lt_of_le below digits, Nat.lt_of_lt_of_le below (Nat.le_trans digits width)⟩

theorem maybeToMs_scaled {nowMs ts : Int} (clock : nowMs.natAbs < 10 ^ 15)
    (seconds : decimals ts.natAbs + 3 ≤ decimals nowMs.natAbs) :
    maybeToMs nowMs ts = ts * 1000 := by
  have bound := (scaled_bound clock seconds).2
  have fewer : digitCount nowMs.natAbs - digitCount ts.natAbs > 2 := by
    rw [digitCount_eq, digitCount_eq]
    omega
  rw [maybeToMs, if_pos fewer, wrapI64_eq (by omega) (by omega)]

theorem maybeToMs_kept {nowMs ts : Int}
    (close : ¬decimals ts.natAbs + 3 ≤ decimals nowMs.natAbs) : maybeToMs nowMs ts = ts := by
  have more : ¬digitCount nowMs.natAbs - digitCount ts.natAbs > 2 := by
    rw [digitCount_eq, digitCount_eq]
    omega
  rw [maybeToMs, if_neg more]

theorem maybe_to_ms_exact {nowMs ts : Int} (clock : nowMs.natAbs < 10 ^ 15) :
    (maybeToMs nowMs ts =
      if decimals ts.natAbs + 3 ≤ decimals nowMs.natAbs then ts * 1000 else ts) ∧
    (maybeToMs nowMs ts).sign = ts.sign ∧
    (decimals ts.natAbs + 3 ≤ decimals nowMs.natAbs →
      -2 ^ 63 ≤ ts * 1000 ∧ ts * 1000 < 2 ^ 63 ∧
        decimals (maybeToMs nowMs ts).natAbs ≤ decimals nowMs.natAbs) := by
  by_cases seconds : decimals ts.natAbs + 3 ≤ decimals nowMs.natAbs
  · obtain ⟨digits, width⟩ := scaled_bound clock seconds
    rw [maybeToMs_scaled clock seconds, if_pos seconds]
    refine ⟨rfl, ?_, ?_⟩
    · rw [Int.sign_mul]
      exact Int.mul_one _
    · intro _
      refine ⟨by omega, by omega, ?_⟩
      exact (decimals_le_iff (decimals_pos _)).mpr digits
  · rw [maybeToMs_kept seconds, if_neg seconds]
    exact ⟨rfl, rfl, fun assumed => absurd assumed seconds⟩

theorem maybe_to_ms_exact_seconds :
    (1700000000000 : Int).natAbs < 10 ^ 15 ∧
      maybeToMs 1700000000000 1700000000 = 1700000000000 := by
  have clock : (1700000000000 : Int).natAbs < 10 ^ 15 := by decide
  refine ⟨clock, ?_⟩
  rw [(maybe_to_ms_exact clock).1]
  norm_num [decimals]

end Dirpc
