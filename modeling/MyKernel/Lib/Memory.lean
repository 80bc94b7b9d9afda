import Mathlib.Logic.Function.Basic

/-! Little-endian words in a byte memory with 32-bit addresses. -/
namespace MyKernel.Memory

def u32 (n : Nat) : Nat := n%4294967296
def sub32 (a b : Nat) : Nat := u32 (a+(4294967296 - u32 b))

theorem u32_lt (n : Nat) : u32 n<4294967296 := by
  unfold u32
  omega

theorem u32_of_lt {n : Nat} (h : n<4294967296) : u32 n=n := by
  unfold u32
  omega

@[simp] theorem u32_u32 (n : Nat) : u32 (u32 n)=u32 n := by
  unfold u32
  omega

theorem sub32_of_le {a b : Nat} (h : b≤a) (ha : a<4294967296) : sub32 a b=a - b := by
  unfold sub32 u32
  omega

abbrev Mem := Nat → UInt8

def le16 (b0 b1 : UInt8) : Nat := b0.toNat+256*b1.toNat

def le32 (b0 b1 b2 b3 : UInt8) : Nat :=
  b0.toNat+256*b1.toNat+65536*b2.toNat+16777216*b3.toNat

/-- The byte a cast to `uint8_t` keeps of a word shifted right by `8 * k` bits. -/
def byteOf (v k : Nat) : UInt8 := UInt8.ofNat (v >>> (8*k))

theorem toNat_lt_256 (b : UInt8) : b.toNat<256 := UInt8.toNat_lt b

theorem toNat_byteOf (v k : Nat) : (byteOf v k).toNat=(v >>> (8*k))%256 := by
  simp [byteOf]

theorem le32_lt (b0 b1 b2 b3 : UInt8) : le32 b0 b1 b2 b3<4294967296 := by
  have h0 := toNat_lt_256 b0
  have h1 := toNat_lt_256 b1
  have h2 := toNat_lt_256 b2
  have h3 := toNat_lt_256 b3
  unfold le32
  omega

theorem le32_inj {a0 a1 a2 a3 b0 b1 b2 b3 : UInt8} (h : le32 a0 a1 a2 a3=le32 b0 b1 b2 b3) :
    a0=b0 ∧ a1=b1 ∧ a2=b2 ∧ a3=b3 := by
  have ha0 := toNat_lt_256 a0
  have ha1 := toNat_lt_256 a1
  have ha2 := toNat_lt_256 a2
  have hb0 := toNat_lt_256 b0
  have hb1 := toNat_lt_256 b1
  have hb2 := toNat_lt_256 b2
  unfold le32 at h
  simp only [← UInt8.toNat_inj]
  omega

theorem le16_byteOf {v : Nat} (h : v<65536) : le16 (byteOf v 0) (byteOf v 1)=v := by
  simp only [le16,toNat_byteOf]
  omega

theorem le32_byteOf {v : Nat} (h : v<4294967296) : le32 (byteOf v 0) (byteOf v 1) (byteOf v 2) (byteOf v 3)=v := by
  simp only [le32,toNat_byteOf]
  omega

def load8 (m : Mem) (a : Nat) : UInt8 := m (u32 a)

def load32 (m : Mem) (a : Nat) : Nat :=
  le32 (load8 m a) (load8 m (a+1)) (load8 m (a+2)) (load8 m (a+3))

def store8 (m : Mem) (a : Nat) (v : UInt8) : Mem :=
  fun x => if x=u32 a then v else m x

def store32 (m : Mem) (a v : Nat) : Mem :=
  store8 (store8 (store8 (store8 m a (byteOf v 0)) (a+1) (byteOf v 1)) (a+2) (byteOf v 2))
    (a+3) (byteOf v 3)

theorem load32_lt (m : Mem) (a : Nat) : load32 m a<4294967296 := le32_lt _ _ _ _

theorem store8_of_ne (m : Mem) (a x : Nat) (v : UInt8) (h : x≠u32 a) : store8 m a v x=m x := by
  simp [store8,h]

theorem store32_of_ne (m : Mem) (a v x : Nat) (h : ∀ k, k<4 → x≠u32 (a+k)) : store32 m a v x=m x := by
  have h0 := h 0 (by omega)
  have h1 := h 1 (by omega)
  have h2 := h 2 (by omega)
  have h3 := h 3 (by omega)
  simp only [Nat.add_zero] at h0
  simp only [store32,store8,h0,h1,h2,h3,if_false]

theorem load32_congr {m m' : Mem} {a : Nat}
    (h : ∀ k, k<4 → m' (u32 (a+k))=m (u32 (a+k))) : load32 m' a=load32 m a := by
  have h0 := h 0 (by omega)
  have h1 := h 1 (by omega)
  have h2 := h 2 (by omega)
  have h3 := h 3 (by omega)
  simp only [Nat.add_zero] at h0
  simp only [load32,load8,h0,h1,h2,h3]

/-- The four byte addresses of a word are different, also when they wrap. -/
theorem load32_store32_self (m : Mem) (a : Nat) {v : Nat} (h : v<4294967296) : load32 (store32 m a v) a=v := by
  have h01 : u32 a≠u32 (a+1) := by unfold u32; omega
  have h02 : u32 a≠u32 (a+2) := by unfold u32; omega
  have h03 : u32 a≠u32 (a+3) := by unfold u32; omega
  have h12 : u32 (a+1)≠u32 (a+2) := by unfold u32; omega
  have h13 : u32 (a+1)≠u32 (a+3) := by unfold u32; omega
  have h23 : u32 (a+2)≠u32 (a+3) := by unfold u32; omega
  simp only [load32,load8,store32,store8,h01,h02,h03,h12,h13,h23,if_true,if_false]
  exact le32_byteOf h

theorem load32_store32_of_disjoint (m : Mem) {a b : Nat} (v : Nat)
    (ha : a+4≤4294967296) (hb : b+4≤4294967296) (h : a+4≤b ∨ b+4≤a) : load32 (store32 m a v) b=load32 m b := by
  apply load32_congr
  intro k hk
  apply store32_of_ne
  intro j hj
  rw [u32_of_lt (by omega),u32_of_lt (by omega)]
  omega

theorem store32_of_outside (m : Mem) {a x : Nat} (v : Nat)
    (ha : a+4≤4294967296) (h : x<a ∨ a+4≤x) : store32 m a v x=m x := by
  apply store32_of_ne
  intro k hk
  rw [u32_of_lt (by omega)]
  omega

/-- Words pushed on a stack, the first one at the top. -/
def pushWords (m : Mem) (esp : Nat) : List Nat → Mem
  | [] => m
  | v::vs => pushWords (store32 m (esp-4) v) (esp-4) vs

theorem pushWords_outside {m : Mem} {sp x : Nat} (vs : List Nat) (hsp : sp+4*vs.length≤4294967296)
    (hx : x<sp ∨ sp+4*vs.length≤x) : pushWords m (sp+4*vs.length) vs x=m x := by
  induction vs generalizing m with
  | nil => rfl
  | cons v vs ih =>
    rw [List.length_cons] at hsp hx ⊢
    rw [pushWords,show sp+4*(vs.length+1)-4=sp+4*vs.length by omega,ih (by omega) (by omega),
      store32_of_outside m v (by omega) (by omega)]

end MyKernel.Memory
