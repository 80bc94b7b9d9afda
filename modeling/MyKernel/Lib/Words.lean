import Mathlib.Data.Nat.Bitwise
import MyKernel.Lib.Memory

/-! Aligned words and double words of a memory, and fields of bits in a number. -/
namespace MyKernel.Memory

theorem and_bit (x k : Nat) : x &&& 2^k=x/2^k%2*2^k := by
  rw [Nat.and_two_pow,Nat.testBit_eq_decide_div_mod_eq]
  rcases Nat.mod_two_eq_zero_or_one (x/2^k) with h | h <;> simp [h]

theorem and_bit_eq_zero {x k : Nat} : x &&& 2^k=0 ↔ x/2^k%2=0 := by
  rw [and_bit,Nat.mul_eq_zero]
  have hpos := Nat.two_pow_pos k
  omega

theorem and_field (x a n : Nat) : x &&& (2^n-1)*2^a=x/2^a%2^n*2^a := by
  apply Nat.eq_of_testBit_eq
  intro i
  rw [Nat.testBit_and,Nat.testBit_mul_two_pow,Nat.testBit_mul_two_pow,Nat.testBit_two_pow_sub_one,
    Nat.testBit_mod_two_pow,Nat.testBit_div_two_pow]
  by_cases ha : a ≤ i
  · simp [ha,Bool.and_comm]
  · simp [ha]

theorem or_low {x y a : Nat} (hx : x%2^a=0) (hy : y<2^a) : x ||| y=x+y := by
  obtain ⟨k,rfl⟩ := Nat.dvd_of_mod_eq_zero hx
  rw [Nat.two_pow_add_eq_or_of_lt hy]

def load64 (m : Mem) (a : Nat) : Nat := load32 m a+4294967296*load32 m (a+4)

def store64 (m : Mem) (a v : Nat) : Mem := store32 (store32 m a v) (a+4) (v/4294967296)

variable {m m' : Mem} {a x v : Nat}

theorem byteOf_u32 (v : Nat) {k : Nat} (hk : k<4) : byteOf (u32 v) k=byteOf v k := by
  apply UInt8.toNat_inj.mp
  rw [toNat_byteOf,toNat_byteOf,Nat.shiftRight_eq_div_pow,Nat.shiftRight_eq_div_pow]
  match k, hk with
  | 0, _ | 1, _ | 2, _ | 3, _ =>
    unfold u32
    omega

theorem load32_store32 (ha : a%4=0) (hx : x%4=0) (ha' : a<4294967296) (hx' : x<4294967296) :
    load32 (store32 m a v) x=if x=a then u32 v else load32 m x := by
  split
  next he =>
    subst he
    have hbytes : load32 (store32 m x v) x=load32 (store32 m x (u32 v)) x := by
      simp (disch := omega) only [store32,byteOf_u32]
    rw [hbytes,load32_store32_self m x (u32_lt v)]
  next hne => exact load32_store32_of_disjoint m v (by omega) (by omega) (by omega)

theorem load64_store64 (ha : a%8=0) (hx : x%8=0) (ha' : a<4294967296) (hx' : x<4294967296)
    (hv : v<18446744073709551616) : load64 (store64 m a v) x=if x=a then v else load64 m x := by
  rw [load64,store64,load32_store32 (by omega) (by omega) (by omega) (by omega),
    load32_store32 (by omega) (by omega) (by omega) (by omega),
    load32_store32 (by omega) (by omega) (by omega) (by omega),
    load32_store32 (by omega) (by omega) (by omega) (by omega),if_neg (by omega),if_neg (by omega : ¬ x+4=a)]
  by_cases hxa : x=a
  · simp only [hxa,if_true,u32]
    omega
  · rw [if_neg hxa,if_neg (by omega),if_neg hxa,load64]

end MyKernel.Memory
