import Mathlib.Algebra.Ring.Int.Defs

/-! Signed 32-bit words as integers, and their casts to and from unsigned words. -/
namespace MyKernel.Signed

def wrap32 (x : Int) : Int := x.bmod 4294967296

def toWord (x : Int) : Nat := (x%4294967296).toNat

theorem wrap32_range (x : Int) : -2147483648≤wrap32 x ∧ wrap32 x≤2147483647 := by
  unfold wrap32
  rw [Int.bmod_def]
  split
  · omega
  · omega

theorem wrap32_of_range {x : Int} (h : -2147483648≤x) (h' : x≤2147483647) : wrap32 x=x := by
  unfold wrap32
  rw [Int.bmod_def]
  split
  · omega
  · omega

@[simp] theorem wrap32_wrap32_mul (x y : Int) : wrap32 (wrap32 x*y)=wrap32 (x*y) := by
  simp [wrap32]

@[simp] theorem wrap32_mul_wrap32 (x y : Int) : wrap32 (x*wrap32 y)=wrap32 (x*y) := by
  simp [wrap32]

@[simp] theorem wrap32_wrap32_add (x y : Int) : wrap32 (wrap32 x+y)=wrap32 (x+y) := by
  simp [wrap32]

@[simp] theorem wrap32_pow (x : Int) (n : Nat) : wrap32 ((wrap32 x)^n)=wrap32 (x^n) := by
  induction n with
  | zero => rw [pow_zero,pow_zero]
  | succ n ih =>
    calc wrap32 ((wrap32 x)^(n+1)) = wrap32 ((wrap32 x)^n*wrap32 x) := by rw [pow_succ]
      _ = wrap32 (wrap32 ((wrap32 x)^n)*x) := by simp
      _ = wrap32 (x^n*x) := by rw [ih,wrap32_wrap32_mul]
      _ = wrap32 (x^(n+1)) := by rw [pow_succ]

theorem toWord_of_nonneg {x : Int} (h : 0≤x) (h' : x<4294967296) : (toWord x : Int)=x := by
  unfold toWord
  omega

theorem toWord_natCast {n : Nat} (h : n<4294967296) : toWord n=n := by
  unfold toWord
  omega

theorem wrap32_eq_iff {x p : Int} {k : Nat} (hp : 0≤p) (hp' : p<2147483648) (hk : k<2147483648) :
    p=wrap32 (x+k) ↔ k=toWord (p-x) := by
  unfold wrap32 toWord
  rw [Int.bmod_def]
  split <;> omega

end MyKernel.Signed
