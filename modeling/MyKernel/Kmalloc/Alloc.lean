import MyKernel.Kmalloc.Blocks

/-! What `kmalloc` does to the block list. -/
namespace MyKernel.Kmalloc
open Memory Tiling

variable {m : Mem} {h : Heap} {b size : Nat} {c : Cell} {cs pre post : List Cell}

def Fits (size : Nat) (c : Cell) : Prop := c.free=true ∧ size≤c.size

def allocCells (size : Nat) (c : Cell) : List Cell :=
  if c.size<size+20 then [{ c with free := false }]
  else [⟨c.addr,size,false⟩,⟨c.addr+(12+size),c.size - size - 12,true⟩]

def allocated (size : Nat) (c : Cell) : Cell :=
  if c.size<size+20 then { c with free := false } else ⟨c.addr,size,false⟩

theorem split_sizes (hs : blockSize m b=c.size) (hc : c.size<0x300000) (hsize : size≤c.size) :
    u32 (blockHeader+blockSize m b)=12+c.size ∧ u32 (blockHeader+size)=12+size ∧
      u32 (12+size+blockHeader+ALIGN)=size+32 := by
  simp only [u32,blockHeader,ALIGN,hs]
  omega

theorem splitBlock_small (hs : blockSize m b=c.size) (hc : c.size<0x300000)
    (hsize : size≤c.size) (hsmall : c.size<size+20) : splitBlock m b size=m := by
  obtain ⟨h1,h2,h3⟩ := split_sizes hs (by omega) (by omega : size≤c.size)
  simp only [splitBlock,h1,h2,h3]
  rw [if_pos (by omega)]

theorem splitBlock_large (hs : blockSize m b=c.size) (hb : b+12+c.size≤0x300000) (hlarge : size+20≤c.size) :
    (blockSize (splitBlock m b size) b=size ∧
      blockFree (splitBlock m b size) b=blockFree m b ∧
      blockNext (splitBlock m b size) b=b+(12+size)) ∧
    (blockSize (splitBlock m b size) (b+(12+size))=c.size - size - 12 ∧
      blockFree (splitBlock m b size) (b+(12+size))=1 ∧
      blockNext (splitBlock m b size) (b+(12+size))=blockNext m b) ∧
    ∀ x, x<b ∨ b+12+c.size≤x → splitBlock m b size x=m x := by
  obtain ⟨h1,h2,h3⟩ := split_sizes hs (by omega) (by omega : size≤c.size)
  have h5 : sub32 (sub32 (blockSize m b) size) blockHeader=c.size - size - 12 := by
    have hd : sub32 c.size size=c.size - size := sub32_of_le (by omega) (by omega)
    rw [hs,hd]
    exact sub32_of_le (by simp only [blockHeader]; omega) (by omega)
  obtain ⟨n,hn⟩ : ∃ n, n=b+(12+size) := ⟨_,rfl⟩
  have h4 : u32 n=n := u32_of_lt (by omega)
  have hnb : n+12≤4294967296 := by omega
  have hbb : b+12≤4294967296 := by omega
  -- the five stores in the order of the source
  let m1 := setSize m n (c.size - size - 12)
  let m2 := setFree m1 n 1
  let m3 := setNext m2 n (blockNext m2 b)
  let m4 := setSize m3 b size
  have hm : splitBlock m b size=setNext m4 b n := by
    simp only [splitBlock,h1,h2,h3,h5,← hn,h4]
    rw [if_neg (by omega)]
  have o1' := (header_store_other m n b (c.size - size - 12) hnb hbb (by omega)).1
  have o2 := (header_store_other m1 n b 1 hnb hbb (by omega)).2.1
  have o3 := (header_store_other m2 n b (blockNext m2 b) hnb hbb (by omega)).2.2
  have o4 := (header_store_other m3 b n size hbb hnb (by omega)).1
  have o5 := (header_store_other m4 b n n hbb hnb (by omega)).2.2
  have s1 := header_setSize m n (c.size - size - 12) hnb (by omega)
  have s2 := header_setFree m1 n 1 hnb (by decide)
  have s3 := header_setNext m2 n (blockNext m2 b) hnb (load32_lt _ _)
  have s4 := header_setSize m3 b size hbb (by omega)
  have s5 := header_setNext m4 b n hbb (by omega)
  rw [hm,← hn]
  refine ⟨⟨s5.1.trans s4.1,?_,s5.2.2⟩,⟨?_,?_,?_⟩,?_⟩
  · exact s5.2.1.trans (s4.2.1.trans (o3.2.1.trans (o2.2.1.trans o1'.2.1)))
  · exact o5.1.trans (o4.1.trans (s3.1.trans (s2.1.trans s1.1)))
  · exact o5.2.1.trans (o4.2.1.trans (s3.2.1.trans s2.2.1))
  · exact o5.2.2.trans (o4.2.2.trans (s3.2.2.trans (o2.2.2.trans o1'.2.2)))
  · intro x hx
    calc
      setNext m4 b n x=m4 x := setNext_outside hbb (by omega)
      _ = m3 x := setSize_outside hbb (by omega)
      _ = m2 x := setNext_outside hnb (by omega)
      _ = m1 x := setFree_outside hnb (by omega)
      _ = m x := setSize_outside hnb (by omega)

theorem allocCells_tiles {lo hi : Nat} (h : Tiles 12 lo hi (pre++c::post)) :
    Tiles 12 lo hi (pre++(allocCells size c++post)) := by
  obtain ⟨mid,hpre,ha,hpost⟩ := tiles_append.mp h
  refine tiles_append.mpr ⟨mid,hpre,?_⟩
  by_cases hs : c.size<size+20
  · simp only [allocCells,if_pos hs,List.cons_append,List.nil_append]
    exact ⟨ha,hpost⟩
  · simp only [allocCells,if_neg hs,List.cons_append,List.nil_append]
    refine ⟨ha,?_,?_⟩
    · simp only [Cell.stop]
      omega
    · have he : Cell.stop 12 ⟨c.addr+(12+size),c.size - size - 12,true⟩=c.stop 12 := by
        simp only [Cell.stop]
        omega
      rw [he]
      exact hpost

theorem allocCells_separated (hf : c.free=true) (h : NoAdjacentFree (pre++c::post)) :
    NoAdjacentFree (pre++(allocCells size c++post)) := by
  have hc := noAdjacentFree_of_append h
  have hpost : ∀ d, d.free=true → NoAdjacentFree (d::post) := by
    intro d hd
    cases post with
    | nil => trivial
    | cons e post => exact ⟨fun hx => hc.1 ⟨hf,hx.2⟩,hc.2⟩
  have hused : ∀ d : Cell, d.free=false → NoAdjacentFree (d::post) := by
    intro d hd
    cases post with
    | nil => trivial
    | cons e post => exact ⟨by simp [hd],hc.2⟩
  by_cases hs : c.size<size+20
  · simp only [allocCells,if_pos hs,List.cons_append,List.nil_append]
    exact noAdjacentFree_replace h (by simp) (hused _ rfl)
  · simp only [allocCells,if_neg hs,List.cons_append,List.nil_append]
    exact noAdjacentFree_replace h (by simp) ⟨by simp,hpost _ rfl⟩

theorem usedCells_alloc (hf : c.free=true) :
    usedCells (pre++(allocCells size c++post))=usedCells pre++allocated size c::usedCells post ∧
    usedCells (pre++c::post)=usedCells pre++usedCells post := by
  constructor
  · by_cases hs : c.size<size+20 <;> simp [usedCells,allocCells,allocated,hs]
  · simp [usedCells,hf]

theorem usedBytes_alloc (hf : c.free=true) :
    usedBytes (pre++(allocCells size c++post)) =
      usedBytes (pre++c::post)+(allocated size c).size := by
  by_cases hs : c.size<size+20
  · simp [usedBytes_append,usedBytes,allocCells,allocated,hs,hf]
    omega
  · simp [usedBytes_append,usedBytes,allocCells,allocated,hs,hf]
    omega

theorem HeapInv.around (hi : HeapInv h (pre++c::post)) :
    (∀ d∈pre, d.addr+12≤c.addr) ∧ (∀ d∈post, c.addr+12+c.size≤d.addr) := by
  obtain ⟨mid,hpre,ha,hpost⟩ := tiles_append.mp hi.tiles
  constructor
  · intro d hd
    have hb := (hpre.bounds hd).2
    simp only [blockHeader] at hb
    omega
  · intro d hd
    exact (Tiles.bounds hpost hd).1

theorem HeapInv.rewrite_cell {m' : Mem} {mid : List Cell} (hi : HeapInv h (pre++c::post))
    (hout : ∀ x, x<c.addr ∨ c.addr+12+c.size≤x → m' x=h.mem x) (hmid : Seg m' c.addr mid (blockNext h.mem c.addr)) :
    Seg m' KHEAP_START (pre++(mid++post)) 0 := by
  obtain ⟨hpre,hpost⟩ := hi.around
  obtain ⟨e,spre,he,_,spost⟩ := seg_append.mp hi.seg
  have hb : ∀ d∈pre++c::post, d.addr+12≤4294967296 := by
    intro d hd
    have := hi.bounds hd
    omega
  subst he
  refine seg_append.mpr ⟨c.addr,?_,seg_append.mpr ⟨_,hmid,?_⟩⟩
  · refine spre.frame (fun d hd => hb d (by simp [hd])) ?_
    intro d hd x h1 h2
    have := hpre d hd
    exact hout x (by omega)
  · refine spost.frame (fun d hd => hb d (by simp [hd])) ?_
    intro d hd x h1 h2
    have := hpost d hd
    exact hout x (by omega)

theorem takeBlock_seg (hc : HeaderAt h.mem c) (hb : c.addr+12+c.size≤0x300000) (hf : Fits size c) :
    Seg (takeBlock h size c.addr).2.mem c.addr (allocCells size c) (blockNext h.mem c.addr) ∧
    blockSize (takeBlock h size c.addr).2.mem c.addr=(allocated size c).size ∧
    ∀ x, x<c.addr ∨ c.addr+12+c.size≤x → (takeBlock h size c.addr).2.mem x=h.mem x := by
  have hsz := hf.2
  simp only [takeBlock]
  by_cases hs : c.size<size+20
  · rw [splitBlock_small hc.1 (by omega) hsz hs]
    obtain ⟨e1,e2,e3⟩ := header_setFree h.mem c.addr 0 (by omega) (by decide)
    simp only [allocCells,allocated,if_pos hs]
    refine ⟨⟨rfl,⟨e1.trans hc.1,by simp [e2]⟩,e3⟩,e1.trans hc.1,?_⟩
    exact fun x hx => setFree_outside (by omega) (by omega)
  · obtain ⟨⟨b1,b2,b3⟩,⟨n1,n2,n3⟩,hout⟩ := @splitBlock_large h.mem c.addr size c hc.1 hb
      (by omega)
    obtain ⟨e1,e2,e3⟩ := header_setFree (splitBlock h.mem c.addr size) c.addr 0 (by omega)
      (by decide)
    obtain ⟨o1,o2,o3⟩ := (header_store_other (splitBlock h.mem c.addr size) c.addr
      (c.addr+(12+size)) 0 (by omega) (by omega) (by omega)).2.1
    simp only [allocCells,allocated,if_neg hs]
    refine ⟨⟨rfl,⟨e1.trans b1,by simp [e2]⟩,?_,⟨o1.trans n1,?_⟩,?_⟩,e1.trans b1,?_⟩
    · exact e3.trans b3
    · simp [o2,n2]
    · exact o3.trans n3
    · exact fun x hx => (setFree_outside (by omega) (by omega)).trans (hout x hx)

theorem takeBlock_spec (hi : HeapInv h (pre++c::post)) (hf : Fits size c) :
    (takeBlock h size c.addr).1=c.addr+12 ∧
    HeapInv (takeBlock h size c.addr).2 (pre++(allocCells size c++post)) ∧
    ∀ x, x<c.addr ∨ c.addr+12+c.size≤x → (takeBlock h size c.addr).2.mem x=h.mem x := by
  have hb := hi.bounds (show c∈pre++c::post by simp)
  have hc : HeaderAt h.mem c := by
    obtain ⟨e,_,_,hc,_⟩ := seg_append.mp hi.seg
    exact hc
  obtain ⟨hseg,hsize,hout⟩ := takeBlock_seg hc hb.2 hf
  have ht := @allocCells_tiles size c pre post _ _ hi.tiles
  refine ⟨?_,⟨hi.head,hi.rewrite_cell hout hseg,ht,allocCells_separated hf.1 hi.separated,?_⟩,
    hout⟩
  · simp only [takeBlock,blockHeader]
    exact u32_of_lt (by omega)
  · have hu := ht.usedBytes_le
    rw [usedBytes_alloc hf.1] at hu ⊢
    simp only [takeBlock,KHEAP_START,KHEAP_SIZE,hi.used] at hu hsize ⊢
    rw [hsize]
    exact u32_of_lt (by omega)

theorem kmallocLoop_spec (size : Nat) (hs : Seg h.mem b cs 0) (hpos : ∀ c∈cs, c.addr≠0) {fuel : Nat}
    (hfuel : cs.length<fuel) :
    ((∀ c∈cs, ¬Fits size c) ∧ kmallocLoop h size fuel b=some (0,h)) ∨
    ∃ pre c post, cs=pre++c::post ∧ Fits size c ∧ (∀ d∈pre, ¬Fits size d) ∧
      kmallocLoop h size fuel b=some (takeBlock h size c.addr) := by
  induction cs generalizing b fuel with
  | nil =>
    cases fuel with
    | zero => simp at hfuel
    | succ fuel =>
      have hb : b=0 := hs
      exact Or.inl ⟨by simp,by simp [kmallocLoop,hb]⟩
  | cons c cs ih =>
    cases fuel with
    | zero => simp at hfuel
    | succ fuel =>
      obtain ⟨hb,⟨hsz,hfr⟩,ht⟩ := hs
      subst hb
      have hc0 := hpos c (by simp)
      by_cases hf : Fits size c
      · refine Or.inr ⟨[],c,cs,rfl,hf,by simp,?_⟩
        rw [kmallocLoop,if_neg hc0,if_pos ⟨hfr.mpr hf.1,by rw [hsz]; exact hf.2⟩]
      · have hstep : kmallocLoop h size (fuel+1) c.addr =
            kmallocLoop h size fuel (blockNext h.mem c.addr) := by
          rw [kmallocLoop,if_neg hc0,if_neg]
          rw [hfr,hsz]
          exact hf
        rw [hstep]
        obtain ⟨hn,he⟩ | ⟨pre,d,post,hd,hfd,hpre,he⟩ := ih ht
          (fun d hd => hpos d (by simp [hd])) (by simpa using hfuel)
        · refine Or.inl ⟨?_,he⟩
          intro d hd
          obtain rfl | hd := List.mem_cons.mp hd
          · exact hf
          · exact hn d hd
        · refine Or.inr ⟨c::pre,d,post,by simp [hd],hfd,?_,he⟩
          intro e hm
          obtain rfl | hm := List.mem_cons.mp hm
          · exact hf
          · exact hpre e hm

theorem kmalloc_spec (hi : HeapInv h cs) {n : Nat} (hn : n≠0) :
    ((∀ c∈cs, ¬Fits (alignUp n) c) ∧ kmalloc h n=some (0,h)) ∨
    ∃ pre c post h', cs=pre++c::post ∧ Fits (alignUp n) c ∧ (∀ d∈pre, ¬Fits (alignUp n) d) ∧
      kmalloc h n=some (c.addr+12,h') ∧ HeapInv h' (pre++(allocCells (alignUp n) c++post)) ∧
      ∀ x, x<c.addr ∨ c.addr+12+c.size≤x → h'.mem x=h.mem x := by
  have hpos : ∀ c∈cs, c.addr≠0 := by
    intro c hc
    have := hi.bounds hc
    omega
  simp only [kmalloc,if_neg hn,hi.head]
  obtain hl | ⟨pre,c,post,rfl,hf,hpre,he⟩ := 
    kmallocLoop_spec (alignUp n) hi.seg hpos hi.length_lt
  · exact Or.inl hl
  · obtain ⟨h1,h2,h3⟩ := takeBlock_spec hi hf
    refine Or.inr ⟨pre,c,post,_,rfl,hf,hpre,?_,h2,h3⟩
    rw [he,← h1]

end MyKernel.Kmalloc
