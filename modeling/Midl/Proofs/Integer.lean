import Mathlib.Data.Int.Bitwise
import Midl.Integer

/-!
# Integers of 64 bits and integers

What is done to integers of 64 bits agrees with what is done to the integers they stand for: an
integer and its successor, and the bitwise "or", where a negative integer has all its high bits
set. The second is shown bit by bit, since an integer is determined by its bits
(`eq_of_testBit_eq`).
-/

namespace Midl.Integer

/-! ## Bits of an integer -/

/-- Bits far enough to the left tell the sign. -/
theorem exists_testBit_eq_sign (n : Int) : ∃ k, ∀ i, k ≤ i → n.testBit i = decide (n < 0) := by
  cases n with
  | ofNat m =>
    refine ⟨m, fun i hi => ?_⟩
    have hm : m < 2 ^ i := Nat.lt_of_le_of_lt hi Nat.lt_two_pow_self
    simp [Int.testBit, Nat.testBit_lt_two_pow hm]
  | negSucc m =>
    refine ⟨m, fun i hi => ?_⟩
    have hm : m < 2 ^ i := Nat.lt_of_le_of_lt hi Nat.lt_two_pow_self
    simp [Int.testBit, Nat.testBit_lt_two_pow hm, Int.negSucc_lt_zero]

/-- Integers with the same bits are the same. -/
theorem eq_of_testBit_eq {m n : Int} (h : ∀ i, m.testBit i = n.testBit i) : m = n := by
  have hsign : decide (m < 0) = decide (n < 0) := by
    obtain ⟨j, hj⟩ := exists_testBit_eq_sign m
    obtain ⟨k, hk⟩ := exists_testBit_eq_sign n
    rw [← hj (max j k) (le_max_left j k), ← hk (max j k) (le_max_right j k), h]
  cases m with
  | ofNat a =>
    cases n with
    | ofNat b => exact congrArg Int.ofNat (Nat.eq_of_testBit_eq fun i => h i)
    | negSucc b =>
      simp only [Int.negSucc_lt_zero, decide_true, decide_eq_true_eq] at hsign
      exact absurd hsign (by simp)
  | negSucc a =>
    cases n with
    | ofNat b =>
      simp only [Int.negSucc_lt_zero, decide_true] at hsign
      exact absurd hsign.symm (by simp)
    | negSucc b =>
      have hab : a = b := Nat.eq_of_testBit_eq fun i => by simpa [Int.testBit] using h i
      rw [hab]

/-- The bits of a signed number: its own, and then its sign. -/
theorem testBit_toInt {w : Nat} (x : BitVec w) (i : Nat) :
    x.toInt.testBit i = (x.getLsbD i || (decide (w ≤ i) && x.msb)) := by
  have hlt := x.isLt
  rw [BitVec.toInt_eq_msb_cond]
  cases hmsb : x.msb with
  | false => simp [Int.testBit, BitVec.getLsbD]
  | true =>
    have hneg : (x.toNat : Int) - (2 ^ w : Nat) = Int.negSucc (2 ^ w - (x.toNat + 1)) := by
      rw [Int.negSucc_eq]
      omega
    simp only [if_true]
    rw [hneg]
    simp only [Int.testBit, Nat.testBit_two_pow_sub_succ hlt, BitVec.getLsbD]
    by_cases hi : i < w
    · simp [hi, Nat.not_le.mpr hi]
    · simp [hi, Nat.not_lt.mp hi]

/-- The bitwise "or" of signed numbers is that of the integers they stand for. -/
theorem toInt_or_eq_lor (x y : Int64) : (x ||| y).toInt = Int.lor x.toInt y.toInt := by
  apply eq_of_testBit_eq
  intro i
  rw [Int.testBit_lor]
  show (x.toBitVec ||| y.toBitVec).toInt.testBit i = _
  rw [testBit_toInt, BitVec.getLsbD_or, BitVec.msb_or]
  show _ = (x.toBitVec.toInt.testBit i || y.toBitVec.toInt.testBit i)
  rw [testBit_toInt, testBit_toInt]
  cases x.toBitVec.getLsbD i <;> cases y.toBitVec.getLsbD i <;> cases x.toBitVec.msb <;>
    cases y.toBitVec.msb <;> cases decide (64 ≤ i) <;> rfl

/-! ## The next integer -/

/-- Only the greatest integer has none after it. -/
theorem increment?_eq_none_iff {n : Int64} : increment? n = none ↔ n = Int64.maxValue := by
  rw [increment?]
  split <;> simp_all

/-- An integer that is not the greatest is less than it. -/
theorem toInt_lt_maxValue {n : Int64} (h : n ≠ Int64.maxValue) : n.toInt < 2 ^ 63 - 1 := by
  have hle := n.toInt_le
  have hne : n.toInt ≠ Int64.maxValue.toInt := fun heq => h (Int64.toInt_inj.mp heq)
  have hmax : Int64.maxValue.toInt = 2 ^ 63 - 1 := rfl
  omega

/-- The integer after an integer is one more. -/
theorem toInt_of_increment? {n m : Int64} (h : increment? n = some m) :
    m.toInt = n.toInt + 1 := by
  rw [increment?] at h
  split at h
  · cases h
  · rename_i hn
    obtain rfl := Option.some.inj h
    have hlt := toInt_lt_maxValue hn
    have hge := n.le_toInt
    rw [Int64.toInt_add]
    show (n.toInt + 1).bmod (2 ^ 64) = n.toInt + 1
    rw [Int.bmod_eq_of_le] <;> omega

end Midl.Integer
