import Mathlib

/-! Strings of bits as polynomials over two elements, the highest coefficient first. -/
namespace MyKernel.BitPoly
open Polynomial

variable {xs ys : List Bool} {n : Nat}

def bitOf (b : Bool) : ZMod 2 := if b then 1 else 0

noncomputable def bitPoly : List Bool → (ZMod 2)[X]
  | [] => 0
  | b::bs => C (bitOf b)*X^bs.length+bitPoly bs

theorem bitPoly_append (xs ys : List Bool) : bitPoly (xs++ys)=bitPoly xs*X^ys.length+bitPoly ys := by
  induction xs with
  | nil => simp [bitPoly]
  | cons b bs ih =>
    rw [List.cons_append,bitPoly,bitPoly,ih,List.length_append,pow_add]
    ring

theorem bitPoly_zeros (n : Nat) : bitPoly (List.replicate n false)=0 := by
  induction n with
  | zero => rfl
  | succ n ih => simp [List.replicate_succ,bitPoly,bitOf,ih]

theorem bitOf_xor (a b : Bool) : bitOf (a ^^ b)=bitOf a+bitOf b := by
  cases a <;> cases b <;> decide

theorem bitPoly_xor (h : xs.length=ys.length) : bitPoly (List.zipWith xor xs ys)=bitPoly xs+bitPoly ys := by
  induction xs generalizing ys with
  | nil =>
    rw [List.length_nil,eq_comm,List.length_eq_zero_iff] at h
    simp [h,bitPoly]
  | cons a as ih =>
    cases ys with
    | nil => cases h
    | cons b bs =>
      have hlen : as.length=bs.length := Nat.succ.inj h
      rw [List.zipWith_cons_cons,bitPoly,bitPoly,bitPoly,ih hlen,List.length_zipWith,hlen,Nat.min_self,bitOf_xor,C_add]
      ring

theorem bitPoly_not (xs : List Bool) : bitPoly (xs.map not)=bitPoly xs+bitPoly (List.replicate xs.length true) := by
  rw [← bitPoly_xor (by simp)]
  congr 1
  induction xs with
  | nil => rfl
  | cons b bs ih => simp [List.replicate_succ,ih]

theorem degree_bitPoly_lt (xs : List Bool) : (bitPoly xs).degree<xs.length := by
  induction xs with
  | nil => simp [bitPoly]
  | cons b bs ih =>
    have hlen : (bs.length : WithBot Nat)<(b::bs).length := by exact_mod_cast Nat.lt_succ_self bs.length
    exact (degree_add_le _ _).trans_lt (max_lt ((degree_C_mul_X_pow_le _ _).trans_lt hlen) (ih.trans hlen))

theorem coeff_bitPoly {i : Nat} (hi : i<xs.length) : (bitPoly xs).coeff (xs.length-1-i)=bitOf xs[i] := by
  induction xs generalizing i with
  | nil => cases hi
  | cons b bs ih =>
    rw [bitPoly,coeff_add,coeff_C_mul_X_pow]
    cases i with
    | zero => simp [coeff_eq_zero_of_degree_lt (degree_bitPoly_lt bs)]
    | succ i =>
      have hi' : i<bs.length := Nat.lt_of_succ_lt_succ hi
      have hpos : (b::bs).length-1-(i+1)=bs.length-1-i := by simp only [List.length_cons]; omega
      rw [hpos,if_neg (by omega),zero_add,ih hi']
      rfl

end MyKernel.BitPoly
