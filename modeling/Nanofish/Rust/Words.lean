import Mathlib.Algebra.Group.Nat.Defs
import Mathlib.Logic.Function.Iterate
import Mathlib.Tactic.Common

/-! Words under exclusive or. A map that respects it, and that leaves nothing of a word
when it is repeated often enough, can be mixed into a word without a loss. -/
namespace Rust.Words
variable {w : Nat}

structure Fading (shift : BitVec w → BitVec w) : Prop where
  additive : ∀ x y, shift (x ^^^ y) = shift x ^^^ shift y
  fades : ∃ n, ∀ x, shift^[n] x = 0#w

def mix (shift : BitVec w → BitVec w) (x : BitVec w) : BitVec w := x ^^^ shift x

section Additive
variable {shift : BitVec w → BitVec w} (additive : ∀ x y, shift (x ^^^ y) = shift x ^^^ shift y)
include additive

theorem iterateAdditive (n : Nat) (x y : BitVec w) :
    shift^[n] (x ^^^ y) = shift^[n] x ^^^ shift^[n] y := by
  induction n generalizing x y with
  | zero => rfl
  | succ n ih =>
    rw [Function.iterate_succ_apply, Function.iterate_succ_apply, Function.iterate_succ_apply,
      additive, ih]

theorem mixTwice (x : BitVec w) : mix shift (mix shift x) = mix shift^[2] x := by
  show (x ^^^ shift x) ^^^ shift (x ^^^ shift x) = x ^^^ shift (shift x)
  rw [additive, BitVec.xor_assoc, ← BitVec.xor_assoc (shift x), BitVec.xor_self, BitVec.zero_xor]

theorem mixPower (m : Nat) : (mix shift)^[2 ^ m] = mix shift^[2 ^ m] := by
  induction m with
  | zero => rfl
  | succ m ih =>
    funext x
    rw [Nat.pow_succ, Function.iterate_mul, ih, Function.iterate_mul]
    exact mixTwice (iterateAdditive additive (2 ^ m)) x

end Additive

theorem fadedLater {shift : BitVec w → BitVec w} {n : Nat} (faded : ∀ x, shift^[n] x = 0#w)
    {m : Nat} (later : n ≤ m) (x : BitVec w) : shift^[m] x = 0#w := by
  obtain ⟨k,rfl⟩ := Nat.exists_eq_add_of_le later
  rw [Function.iterate_add_apply, faded]

section Fading
variable {shift : BitVec w → BitVec w} (fading : Fading shift)
include fading

theorem mixReturns : ∃ n, ∀ x, (mix shift)^[n + 1] x = x := by
  obtain ⟨n,faded⟩ := fading.fades
  refine ⟨2 ^ n - 1,fun x => ?_⟩
  rw [Nat.sub_add_cancel (Nat.two_pow_pos n), mixPower fading.additive, mix,
    fadedLater faded (Nat.le_of_lt Nat.lt_two_pow_self), BitVec.xor_zero]

theorem mixBijective : Function.Bijective (mix shift) := by
  obtain ⟨n,returns⟩ := mixReturns fading
  refine Function.bijective_iff_has_inverse.mpr ⟨(mix shift)^[n],fun x => ?_,fun x => ?_⟩
  · exact (Function.iterate_succ_apply (mix shift) n x).symm.trans (returns x)
  · exact (Function.iterate_succ_apply' (mix shift) n x).symm.trans (returns x)

end Fading

theorem shiftLeftRepeated (k n : Nat) (x : BitVec w) :
    (fun y : BitVec w => y <<< k)^[n] x = x <<< (n * k) := by
  induction n generalizing x with
  | zero => simp
  | succ n ih => rw [Function.iterate_succ_apply, ih, ← BitVec.shiftLeft_add, Nat.succ_mul, Nat.add_comm]

theorem shiftRightRepeated (k n : Nat) (x : BitVec w) :
    (fun y : BitVec w => y >>> k)^[n] x = x >>> (n * k) := by
  induction n generalizing x with
  | zero => simp
  | succ n ih =>
    rw [Function.iterate_succ_apply, ih, ← BitVec.shiftRight_add, Nat.succ_mul, Nat.add_comm]

theorem shiftLeftFading {k : Nat} (moves : 0 < k) : Fading fun x : BitVec w => x <<< k where
  additive x y := BitVec.shiftLeft_xor_distrib x y k
  fades :=
    ⟨w,fun x =>
      by rw [shiftLeftRepeated, BitVec.shiftLeft_eq_zero (Nat.le_mul_of_pos_right w moves)]⟩

theorem shiftRightFading {k : Nat} (moves : 0 < k) : Fading fun x : BitVec w => x >>> k where
  additive x y := BitVec.ushiftRight_xor_distrib x y k
  fades :=
    ⟨w,fun x =>
      by rw [shiftRightRepeated, BitVec.ushiftRight_eq_zero (Nat.le_mul_of_pos_right w moves)]⟩

end Rust.Words
