import Mathlib.Algebra.Group.Nat.Defs
import Mathlib.Data.Nat.Log
import Mathlib.Tactic.Common

/-! Conversion of unsigned values to single precision: 24 significant bits,
nearest, ties to even. Powers of two are fixed points, so rounding never
crosses one. -/
namespace Devent

def floatOfSize (n : Nat) : Nat :=
  let drop := n.log2 - 23
  let kept := n >>> drop
  let lost := n % 2 ^ drop
  if lost * 2 < 2 ^ drop ∨ (lost * 2 = 2 ^ drop ∧ kept % 2 = 0) then kept <<< drop
  else (kept + 1) <<< drop

theorem floatOfSize_ge {n k : Nat} (large : 2 ^ k ≤ n) : 2 ^ k ≤ floatOfSize n := by
  have nonzero : n ≠ 0 := by have := Nat.two_pow_pos k; omega
  have bits : k ≤ n.log2 := (Nat.le_log2 nonzero).mpr large
  have kept : 2 ^ k ≤ (n >>> (n.log2 - 23)) <<< (n.log2 - 23) := by
    rw [Nat.shiftRight_eq_div_pow, Nat.shiftLeft_eq]
    have split : 2 ^ n.log2 = 2 ^ (n.log2 - (n.log2 - 23)) * 2 ^ (n.log2 - 23) := by
      rw [← Nat.pow_add]
      congr 1
      omega
    have quotient : 2 ^ (n.log2 - (n.log2 - 23)) ≤ n / 2 ^ (n.log2 - 23) := by
      rw [Nat.le_div_iff_mul_le (Nat.two_pow_pos _), ← split]
      exact Nat.log2_self_le nonzero
    calc 2 ^ k ≤ 2 ^ n.log2 := Nat.pow_le_pow_right (by decide) bits
      _ = 2 ^ (n.log2 - (n.log2 - 23)) * 2 ^ (n.log2 - 23) := split
      _ ≤ _ := Nat.mul_le_mul_right _ quotient
  simp only [floatOfSize]
  split
  · exact kept
  · refine kept.trans ?_
    rw [Nat.shiftLeft_eq, Nat.shiftLeft_eq]
    exact Nat.mul_le_mul_right _ (Nat.le_succ _)

private theorem round_up_le {n d m : Nat} (below : n < m) (divides : d ∣ m) : (n / d + 1) * d ≤ m := by
  obtain ⟨c, rfl⟩ := divides
  rcases Nat.eq_zero_or_pos d with rfl | positive
  · simp
  · rw [Nat.mul_comm]
    apply Nat.mul_le_mul_left
    exact Nat.div_lt_of_lt_mul below

theorem floatOfSize_le {n k : Nat} (small : n ≤ 2 ^ k) : floatOfSize n ≤ 2 ^ k := by
  simp only [floatOfSize, Nat.shiftRight_eq_div_pow, Nat.shiftLeft_eq]
  rcases Nat.lt_or_eq_of_le small with below | rfl
  · have divides : 2 ^ (n.log2 - 23) ∣ 2 ^ k := by
      rcases Nat.eq_zero_or_pos n with rfl | positive
      · exact Nat.pow_dvd_pow 2 (Nat.zero_le _)
      · have := (Nat.log2_lt (Nat.ne_of_gt positive)).mpr below
        exact Nat.pow_dvd_pow 2 (by omega)
    have up := round_up_le below divides
    split
    · exact (Nat.mul_le_mul_right _ (Nat.le_succ _)).trans up
    · exact up
  · have divides : 2 ^ (k - 23) ∣ 2 ^ k := Nat.pow_dvd_pow 2 (Nat.sub_le _ _)
    have exact : 0 * 2 < 2 ^ (k - 23) := Nat.two_pow_pos _
    rw [Nat.log2_two_pow, Nat.mod_eq_zero_of_dvd divides, if_pos (.inl exact),
      Nat.div_mul_cancel divides]

theorem floatOfSize_pow (k : Nat) : floatOfSize (2 ^ k) = 2 ^ k :=
  Nat.le_antisymm (floatOfSize_le (Nat.le_refl _)) (floatOfSize_ge (Nat.le_refl _))

end Devent
