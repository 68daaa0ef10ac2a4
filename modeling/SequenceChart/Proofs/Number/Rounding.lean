import Mathlib.Algebra.Order.Round
import Mathlib.Algebra.Order.Ring.Rat
import Mathlib.Data.Rat.Floor
import Mathlib.Tactic.FieldSimp
import Mathlib.Tactic.Linarith
import Mathlib.Tactic.Positivity
import Mathlib.Tactic.Ring
import SequenceChart.Number.Decimal

/-! Rounding of binary64 numbers. Each finite one is a rational number, and the units that its decimal is written in are
the nearest integer to it, the even one if two are equally near. -/

namespace SequenceChart

/-- Whether an integer is what a number is rounded to: none is nearer, and another one as near only if this one is
even. -/
structure Nearest (q : Rat) (n : Int) : Prop where
  near : ∀ k : Int, |q - n| ≤ |q - k|
  even : ∀ k : Int, k ≠ n → |q - k| = |q - n| → Even n

theorem one_le_abs_sub {n k : Int} (h : n ≠ k) : (1 : Rat) ≤ |(n : Rat) - k| := by
  exact_mod_cast Int.one_le_abs (sub_ne_zero.mpr h)

theorem nearest_of_le_half {q : Rat} {n : Int} (h : |q - n| ≤ 1 / 2) (heven : |q - n| = 1 / 2 → Even n) :
    Nearest q n := by
  have hfar : ∀ k : Int, k ≠ n → 1 ≤ |q - k| + |q - n| := by
    intro k hk
    have hsum : |(k : Rat) - n| ≤ |k - q| + |q - n| := abs_sub_le _ _ _
    rw [abs_sub_comm (k : Rat) q] at hsum
    exact (one_le_abs_sub hk).trans hsum
  constructor
  · intro k
    by_cases hk : k = n
    · rw [hk]
    · linarith [hfar k hk]
  · intro k hk hsame
    exact heven (by linarith [hfar k hk])

namespace Nearest

variable {q : Rat} {n m : Int}

theorem le_half (h : Nearest q n) : |q - n| ≤ 1 / 2 := (h.near (round q)).trans (abs_sub_round q)

theorem unique (h : Nearest q n) (hm : Nearest q m) : n = m := by
  by_contra hne
  have hsame : |q - m| = |q - n| := le_antisymm (hm.near n) (h.near m)
  obtain ⟨i, rfl⟩ := h.even m (Ne.symm hne) hsame
  obtain ⟨j, rfl⟩ := hm.even _ hne hsame.symm
  have hhalf : |((i + i : Int) : Rat) - (j + j : Int)| ≤ 1 := by
    have hsum := abs_sub_le ((i + i : Int) : Rat) q (j + j : Int)
    rw [abs_sub_comm _ q] at hsum
    linarith [h.le_half, hm.le_half]
  -- Two even numbers are not so close.
  have hclose : |i + i - (j + j)| ≤ 1 := by exact_mod_cast hhalf
  rw [abs_le] at hclose
  omega

theorem neg (h : Nearest q n) : Nearest (-q) (-n) := by
  have hdist : ∀ k : Int, |-q - (k : Rat)| = |q - (-k : Int)| := by
    intro k
    rw [← abs_neg]
    push_cast
    ring_nf
  constructor
  · intro k
    rw [hdist, hdist, neg_neg]
    exact h.near _
  · intro k hk hsame
    rw [hdist, hdist, neg_neg] at hsame
    exact (h.even (-k) (by omega) hsame).neg

end Nearest

namespace Binary64

theorem nearest_roundQuotient (num : Nat) {den : Nat} (hden : 0 < den) :
    Nearest ((num : Rat) / den) (roundQuotient num den) := by
  have hpos : (0 : Rat) < den := by exact_mod_cast hden
  obtain ⟨part, hpart⟩ : ∃ part : Rat, part = (num % den : Nat) / den := ⟨_, rfl⟩
  have hvalue : (num : Rat) / den = (num / den : Nat) + part := by
    have hnum : (num : Rat) = den * (num / den : Nat) + (num % den : Nat) := by
      exact_mod_cast (Nat.div_add_mod num den).symm
    rw [hpart, eq_comm, ← sub_eq_zero]
    field_simp
    linarith
  have hnonneg : 0 ≤ part := hpart ▸ by positivity
  have hlt : part < 1 := by
    rw [hpart, div_lt_one hpos]
    exact_mod_cast Nat.mod_lt num hden
  rw [hvalue]
  unfold roundQuotient
  generalize num / den = quotient
  dsimp only
  split_ifs with hsmall hlarge
  · have hhalf : part < 1 / 2 := by
      rw [hpart, div_lt_div_iff₀ hpos (by norm_num)]
      exact_mod_cast (by omega : num % den * 2 < 1 * den)
    have habs : |(quotient + part) - ((quotient : Nat) : Int)| = part := by
      rw [Int.cast_natCast, add_sub_cancel_left, abs_of_nonneg hnonneg]
    exact nearest_of_le_half (habs.trans_le hhalf.le) fun h => absurd (habs.symm.trans h) hhalf.ne
  · have hhalf : 1 / 2 < part := by
      rw [hpart, div_lt_div_iff₀ (by norm_num) hpos]
      exact_mod_cast (by omega : 1 * den < num % den * 2)
    have habs : |(quotient + part) - ((quotient + 1 : Nat) : Int)| = 1 - part := by
      rw [abs_sub_comm, abs_of_nonneg] <;> push_cast <;> linarith
    exact nearest_of_le_half (by rw [habs]; linarith) fun h => absurd (habs.symm.trans h) (by linarith)
  · have hhalf : part = 1 / 2 := by
      rw [hpart, div_eq_div_iff hpos.ne' (by norm_num)]
      exact_mod_cast (by omega : num % den * 2 = 1 * den)
    have heven : Even (quotient + quotient % 2) := by
      rw [Nat.even_iff]
      omega
    refine nearest_of_le_half ?_ fun _ => by exact_mod_cast heven
    obtain hzero | hone := Nat.mod_two_eq_zero_or_one quotient
    · rw [hzero, hhalf, abs_of_nonneg] <;> push_cast <;> linarith
    · rw [hone, hhalf, abs_of_nonpos] <;> push_cast <;> linarith

section Unpack

open Float.Model
open Float.Model.UnpackedFloat (Sign unpackSign unpackExponent unpackMantissa)

/-- The number that a finite float is, according to the logical model of floats; all others count as zero. -/
def exact (x : Float) : Rat :=
  match x.toModel.unpack with
  | .finite sign significand exponent _ => (sign.apply significand : Int) * 2 ^ exponent
  | _ => 0

theorem toNat_unpackMantissa (bits : BitVec 64) :
    (@unpackMantissa Format.binary64 bits).toNat = bits.toNat % hiddenBit := by
  simp [unpackMantissa, hiddenBit]

theorem toNat_unpackExponent (bits : BitVec 64) :
    (@unpackExponent Format.binary64 bits).toNat = bits.toNat / hiddenBit % 2048 := by
  simp [unpackExponent, hiddenBit, Nat.shiftRight_eq_div_pow]

theorem toNat_unpackSign (bits : BitVec 64) : (@unpackSign Format.binary64 bits).toNat = bits.toNat / signBit := by
  have hlt : bits.toNat / 9223372036854775808 < 2 := Nat.div_lt_of_lt_mul bits.isLt
  change (bits.extractLsb 63 63).toNat = bits.toNat / signBit
  simp [signBit, Nat.shiftRight_eq_div_pow, Nat.mod_eq_of_lt hlt]

theorem apply_ofBitVec (sign : BitVec 1) (n : Nat) :
    (((Sign.ofBitVec sign).apply n : Int) : Rat) = if sign.toNat == 1 then -(n : Rat) else n := by
  obtain rfl | rfl := BitVec.eq_zero_or_eq_one sign <;> simp [Sign.ofBitVec, Sign.apply]

theorem toNat_hidden (fraction : BitVec 52) : (1#1 ++ fraction).toNat = hiddenBit + fraction.toNat := by
  rw [BitVec.toNat_append, ← Nat.shiftLeft_add_eq_or_of_lt fraction.isLt]
  rfl

theorem exists_decode {x : Float} (h : x.isFinite = true) : ∃ negative significand exponent,
    decode x.toBits = .finite negative significand exponent ∧
      exact x = (if negative then -(significand : Rat) else significand) * 2 ^ exponent := by
  have hbits : x.toBits.toNat = x.toModel.toBits.toBitVec.toNat := rfl
  change x.toModel.unpack.isFinite = true at h
  unfold exact
  unfold decode
  rw [hbits]
  unfold Float.Model.unpack UnpackedFloat.unpack at h ⊢
  generalize x.toModel.toBits.toBitVec = bits at h ⊢
  have hsign := toNat_unpackSign bits
  have hexponent := toNat_unpackExponent bits
  have hfraction := toNat_unpackMantissa bits
  dsimp only at h ⊢
  rw [← hsign, ← hexponent, ← hfraction]
  by_cases hmax : @unpackExponent Format.binary64 bits = -1#11
  · rw [if_pos hmax] at h
    split at h <;> contradiction
  · have hfinite : (@unpackExponent Format.binary64 bits).toNat ≠ 2047 := fun heq => hmax (BitVec.eq_of_toNat_eq heq)
    rw [if_neg hfinite, if_neg hmax]
    by_cases hleast : @unpackExponent Format.binary64 bits = 0#11
    · have hzero : (@unpackExponent Format.binary64 bits).toNat = 0 := congrArg BitVec.toNat hleast
      refine ⟨_, _, _, if_pos hzero, ?_⟩
      rw [if_pos hleast]
      by_cases hnone : @unpackMantissa Format.binary64 bits = 0#52
      · rw [dif_pos hnone, hnone]
        simp
      · rw [dif_neg hnone, hzero]
        dsimp only
        rw [apply_ofBitVec]
        rfl
    · have hpos : (@unpackExponent Format.binary64 bits).toNat ≠ 0 := fun heq => hleast (BitVec.eq_of_toNat_eq heq)
      refine ⟨_, _, _, if_neg hpos, ?_⟩
      rw [if_neg hleast]
      dsimp only
      rw [apply_ofBitVec, toNat_hidden]
      rfl

end Unpack

end Binary64

/-- A decimal has the nearest number of units, whatever the magnitude of its value. -/
theorem Decimal.nearest_units (places significand : Nat) (exponent : Int) :
    Nearest (significand * 2 ^ exponent * 10 ^ places) (units places significand exponent) := by
  have hpower : (2 : Rat) ^ exponent = 2 ^ exponent.toNat / 2 ^ (-exponent).toNat := by
    rw [← zpow_natCast, ← zpow_natCast, ← zpow_sub₀ two_ne_zero, Int.toNat_sub_toNat_neg]
  have hquotient : (significand * 2 ^ exponent * 10 ^ places : Rat) =
      (((significand * Nat.pow 10 places) <<< exponent.toNat : Nat) : Rat) / (1 <<< (-exponent).toNat : Nat) := by
    rw [hpower, Nat.shiftLeft_eq, Nat.shiftLeft_eq, Nat.pow_eq]
    push_cast
    ring
  rw [hquotient]
  exact Binary64.nearest_roundQuotient _ (by rw [Nat.shiftLeft_eq]; positivity)

end SequenceChart
