import MyKernel.Lib.Tiling
import MyKernel.Kmalloc.Model

/-! The block list of the heap as cells, tied to the headers in memory by `Seg`. -/
namespace MyKernel.Kmalloc
open Memory Tiling

variable {m m' : Mem} {a b n v x : Nat} {c : Cell} {cs xs ys : List Cell}

def HeaderAt (m : Mem) (c : Cell) : Prop :=
  blockSize m c.addr=c.size ∧ (blockFree m c.addr≠0 ↔ c.free=true)

def Seg (m : Mem) : Nat → List Cell → Nat → Prop
  | a, [], b => a=b
  | a, c::cs, b => a=c.addr ∧ HeaderAt m c ∧ Seg m (blockNext m c.addr) cs b

theorem seg_append : Seg m a (xs++ys) b ↔ ∃ e, Seg m a xs e ∧ Seg m e ys b := by
  induction xs generalizing a with
  | nil => simp [Seg]
  | cons c xs ih => simp [Seg,ih,and_assoc]

theorem load32_frame (ha : a+4≤4294967296) (h : ∀ x, a≤x → x<a+4 → m' x=m x) : load32 m' a=load32 m a := by
  apply load32_congr
  intro k hk
  rw [u32_of_lt (by omega)]
  exact h _ (by omega) (by omega)

theorem header_frame (ha : a+12≤4294967296) (h : ∀ x, a≤x → x<a+12 → m' x=m x) :
    blockSize m' a=blockSize m a ∧ blockFree m' a=blockFree m a ∧
      blockNext m' a=blockNext m a := by
  refine ⟨load32_frame (by omega) ?_,load32_frame (by omega) ?_,load32_frame (by omega) ?_⟩
  · exact fun x h1 h2 => h x (by omega) (by omega)
  · exact fun x h1 h2 => h x (by omega) (by omega)
  · exact fun x h1 h2 => h x (by omega) (by omega)

theorem Seg.frame (hs : Seg m a cs b) (hb : ∀ c∈cs, c.addr+12≤4294967296)
    (h : ∀ c∈cs, ∀ x, c.addr≤x → x<c.addr+12 → m' x=m x) : Seg m' a cs b := by
  induction cs generalizing a with
  | nil => exact hs
  | cons c cs ih =>
    obtain ⟨ha,⟨hsz,hfr⟩,ht⟩ := hs
    obtain ⟨e1,e2,e3⟩ := header_frame (hb c (by simp)) (h c (by simp))
    refine ⟨ha,⟨by rw [e1,hsz],by rw [e2,hfr]⟩,?_⟩
    rw [e3]
    exact ih ht (fun d hd => hb d (by simp [hd])) (fun d hd => h d (by simp [hd]))

theorem setSize_outside (hb : b+12≤4294967296) (h : x<b ∨ b+12≤x) :
    setSize m b v x=m x := store32_of_outside m v (by omega) (by omega)

theorem setFree_outside (hb : b+12≤4294967296) (h : x<b ∨ b+12≤x) :
    setFree m b v x=m x := store32_of_outside m v (by omega) (by omega)

theorem setNext_outside (hb : b+12≤4294967296) (h : x<b ∨ b+12≤x) :
    setNext m b v x=m x := store32_of_outside m v (by omega) (by omega)

theorem header_setSize (m : Mem) (b v : Nat) (hb : b+12≤4294967296) (hv : v<4294967296) :
    blockSize (setSize m b v) b=v ∧ blockFree (setSize m b v) b=blockFree m b ∧
      blockNext (setSize m b v) b=blockNext m b :=
  ⟨load32_store32_self m b hv,load32_store32_of_disjoint m v (by omega) (by omega) (by omega),
    load32_store32_of_disjoint m v (by omega) (by omega) (by omega)⟩

theorem header_setFree (m : Mem) (b v : Nat) (hb : b+12≤4294967296) (hv : v<4294967296) :
    blockSize (setFree m b v) b=blockSize m b ∧ blockFree (setFree m b v) b=v ∧
      blockNext (setFree m b v) b=blockNext m b :=
  ⟨load32_store32_of_disjoint m v (by omega) (by omega) (by omega),
    load32_store32_self m (b+4) hv,
    load32_store32_of_disjoint m v (by omega) (by omega) (by omega)⟩

theorem header_setNext (m : Mem) (b v : Nat) (hb : b+12≤4294967296) (hv : v<4294967296) :
    blockSize (setNext m b v) b=blockSize m b ∧ blockFree (setNext m b v) b=blockFree m b ∧
      blockNext (setNext m b v) b=v :=
  ⟨load32_store32_of_disjoint m v (by omega) (by omega) (by omega),
    load32_store32_of_disjoint m v (by omega) (by omega) (by omega),
    load32_store32_self m (b+8) hv⟩

theorem header_store_other (m : Mem) (n b v : Nat) (hn : n+12≤4294967296)
    (hb : b+12≤4294967296) (h : n+12≤b ∨ b+12≤n) :
    (blockSize (setSize m n v) b=blockSize m b ∧ blockFree (setSize m n v) b=blockFree m b ∧
      blockNext (setSize m n v) b=blockNext m b) ∧
    (blockSize (setFree m n v) b=blockSize m b ∧ blockFree (setFree m n v) b=blockFree m b ∧
      blockNext (setFree m n v) b=blockNext m b) ∧
    (blockSize (setNext m n v) b=blockSize m b ∧ blockFree (setNext m n v) b=blockFree m b ∧
      blockNext (setNext m n v) b=blockNext m b) := by
  refine ⟨header_frame hb ?_,header_frame hb ?_,header_frame hb ?_⟩
  · exact fun x h1 h2 => setSize_outside hn (by omega)
  · exact fun x h1 h2 => setFree_outside hn (by omega)
  · exact fun x h1 h2 => setNext_outside hn (by omega)

structure HeapInv (h : Heap) (cs : List Cell) : Prop where
  head : h.head=KHEAP_START
  seg : Seg h.mem KHEAP_START cs 0
  tiles : Tiles blockHeader KHEAP_START (KHEAP_START+KHEAP_SIZE) cs
  separated : NoAdjacentFree cs
  used : h.heapUsed=usedBytes cs

theorem HeapInv.bounds {h : Heap} (hi : HeapInv h cs) (hc : c∈cs) :
    0x200000≤c.addr ∧ c.addr+12+c.size≤0x300000 := hi.tiles.bounds hc

theorem HeapInv.length_lt {h : Heap} (hi : HeapInv h cs) : cs.length<walkFuel := by
  have ht := hi.tiles.total
  simp only [blockHeader,KHEAP_START,KHEAP_SIZE] at ht
  simp only [walkFuel]
  omega

theorem Seg.unique (h : Seg m a xs 0) (h' : Seg m a ys 0)
    (hx : ∀ c∈xs, c.addr≠0) (hy : ∀ c∈ys, c.addr≠0) : xs=ys := by
  induction xs generalizing a ys with
  | nil =>
    cases ys with
    | nil => rfl
    | cons d ys => exact absurd (h'.1.symm.trans h) (hy d (by simp))
  | cons c xs ih =>
    cases ys with
    | nil => exact absurd (h.1.symm.trans h') (hx c (by simp))
    | cons d ys =>
      obtain ⟨ha,⟨hs,hf⟩,ht⟩ := h
      obtain ⟨ha',⟨hs',hf'⟩,ht'⟩ := h'
      have he : c.addr=d.addr := ha.symm.trans ha'
      have hfree : c.free=d.free := by
        rw [he] at hf
        exact Bool.eq_iff_iff.mpr (hf.symm.trans hf')
      have hcd : c=d := by
        cases c
        cases d
        simp_all
      subst d
      rw [ih ht ht' (fun e he => hx e (by simp [he])) (fun e he => hy e (by simp [he]))]

theorem kmallocInit_inv (m : Mem) : HeapInv (kmallocInit m) [⟨KHEAP_START,KHEAP_SIZE - blockHeader,true⟩] := by
  have e1 := header_setSize m KHEAP_START (KHEAP_SIZE - blockHeader) (by decide) (by decide)
  have e2 := header_setFree (setSize m KHEAP_START (KHEAP_SIZE - blockHeader)) KHEAP_START 1
    (by decide) (by decide)
  have e3 := header_setNext (setFree (setSize m KHEAP_START (KHEAP_SIZE - blockHeader))
    KHEAP_START 1) KHEAP_START 0 (by decide) (by decide)
  refine ⟨rfl,⟨rfl,⟨?_,?_⟩,?_⟩,⟨rfl,rfl⟩,trivial,rfl⟩
  · exact e3.1.trans (e2.1.trans e1.1)
  · simp only [kmallocInit,e3.2.1,e2.2.1]
    decide
  · exact e3.2.2

end MyKernel.Kmalloc
