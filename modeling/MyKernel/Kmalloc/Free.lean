import MyKernel.Kmalloc.Alloc

/-! `kfree` and `krealloc` on the block list. -/
namespace MyKernel.Kmalloc
open Memory Tiling

variable {m m' : Mem} {h : Heap} {c e : Cell} {cs pre post : List Cell}

def OffHeaders (cs : List Cell) (x : Nat) : Prop := ∀ d∈cs, x<d.addr ∨ d.addr+12≤x

theorem absorbNext_spec {d : Cell} (hc : HeaderAt m c) (hd : HeaderAt m d)
    (hn : blockNext m c.addr=d.addr) (hcd : c.addr+12+c.size=d.addr) (hb : d.addr+12+d.size≤0x300000) :
    blockSize (absorbNext m c.addr) c.addr=c.size+(12+d.size) ∧
    blockFree (absorbNext m c.addr) c.addr=blockFree m c.addr ∧
    blockNext (absorbNext m c.addr) c.addr=blockNext m d.addr ∧
    ∀ x, x<c.addr ∨ c.addr+12≤x → absorbNext m c.addr x=m x := by
  have hv : u32 (blockSize m c.addr+(blockHeader+blockSize m (blockNext m c.addr))) =
      c.size+(12+d.size) := by
    rw [hn,hc.1,hd.1]
    exact u32_of_lt (by simp only [blockHeader]; omega)
  have e1 := header_setSize m c.addr (c.size+(12+d.size)) (by omega) (by omega)
  have o1 := (header_store_other m c.addr d.addr (c.size+(12+d.size)) (by omega) (by omega)
    (by omega)).1
  let m1 := setSize m c.addr (c.size+(12+d.size))
  have hm : absorbNext m c.addr=setNext m1 c.addr (blockNext m d.addr) := by
    simp only [absorbNext,hv,m1]
    rw [e1.2.2,hn,o1.2.2]
  have e2 := header_setNext m1 c.addr (blockNext m d.addr) (by omega) (load32_lt _ _)
  rw [hm]
  refine ⟨e2.1.trans e1.1,e2.2.1.trans e1.2.1,e2.2.2,?_⟩
  intro x hx
  calc
    setNext m1 c.addr (blockNext m d.addr) x=m1 x := setNext_outside (by omega) hx
    _ = m x := setSize_outside (by omega) hx

theorem absorbNext_seg {d : Cell} {lo hi : Nat} (ht : Tiles 12 lo hi (c::d::cs)) (hhi : hi≤0x300000)
    (hs : Seg m c.addr (c::d::cs) 0) :
    Seg (absorbNext m c.addr) c.addr ({ c with size := c.size+(12+d.size) }::cs) 0 ∧
      ∀ x, x<c.addr ∨ c.addr+12≤x → absorbNext m c.addr x=m x := by
  obtain ⟨_,hc,hn,hd,hrest⟩ := hs
  obtain ⟨_,htb,htc⟩ := ht
  have hle := htc.le
  simp only [Cell.stop] at htb hle
  obtain ⟨hsize,hfree,hnext,hout⟩ := absorbNext_spec hc hd hn (by omega) (by omega)
  refine ⟨⟨rfl,⟨hsize,by rw [hfree]; exact hc.2⟩,?_⟩,hout⟩
  simp only
  rw [hnext]
  refine hrest.frame ?_ ?_
  · intro e he
    have := htc.bounds he
    omega
  · intro e he x h1 h2
    have := htc.bounds he
    simp only [Cell.stop] at this
    exact hout x (by omega)

theorem seg_cons_kept {lo hi : Nat} (ht : Tiles 12 lo hi (c::cs)) (hhi : hi≤0x300000) (hc : HeaderAt m c)
    (hout : ∀ x, OffHeaders cs x → m' x=m x) {cs' : List Cell} (hs : Seg m' (blockNext m c.addr) cs' 0) :
    Seg m' c.addr (c::cs') 0 := by
  have hle := ht.2.le
  simp only [Cell.stop] at hle
  have hkept : ∀ x, c.addr≤x → x<c.addr+12 → m' x=m x := by
    intro x _ hx
    apply hout
    intro e he
    have := ht.2.bounds he
    simp only [Cell.stop] at this
    omega
  obtain ⟨hsize,hfree,hnext⟩ := @header_frame m m' c.addr (by omega) hkept
  refine ⟨rfl,⟨hsize.trans hc.1,by rw [hfree]; exact hc.2⟩,?_⟩
  rw [hnext]
  exact hs

theorem coalesceLoop_spec (cs : List Cell) : ∀ (m : Mem) (fuel lo hi : Nat),
    Tiles 12 lo hi cs → hi≤0x300000 → (∀ c∈cs, c.addr≠0) → Seg m lo cs 0 →
    cs.length<fuel →
    ∃ m', coalesceLoop fuel m lo=some m' ∧ Seg m' lo (merge 12 cs) 0 ∧
      ∀ x, OffHeaders cs x → m' x=m x := by
  induction cs using merge_induction 12 with
  | nil =>
    intro m fuel lo hi ht hhi hpos hs hf
    obtain ⟨fuel,rfl⟩ : ∃ k, fuel=k+1 := ⟨fuel-1,by omega⟩
    have h0 : lo=0 := hs
    exact ⟨m,by simp [coalesceLoop,h0],by simpa [merge] using hs,fun x _ => rfl⟩
  | one c =>
    intro m fuel lo hi ht hhi hpos hs hf
    obtain ⟨fuel,rfl⟩ : ∃ k, fuel=k+1 := ⟨fuel-1,by omega⟩
    have hnext : blockNext m lo=0 := by
      rw [hs.1]
      exact hs.2.2
    exact ⟨m,by simp [coalesceLoop,hnext],by simpa [merge] using hs,fun x _ => rfl⟩
  | join c d cs hfree ih =>
    intro m fuel lo hi ht hhi hpos hs hf
    obtain ⟨fuel,rfl⟩ : ∃ k, fuel=k+1 := ⟨fuel-1,by omega⟩
    obtain rfl := hs.1
    obtain ⟨hseg,hout⟩ := absorbNext_seg ht hhi hs
    obtain ⟨_,hc,hn,hd,_⟩ := hs
    have hc0 := hpos c (by simp)
    have hd0 := hpos d (by simp)
    rw [coalesceLoop,if_neg (by rw [hn]; omega),
      if_pos ⟨hc.2.mpr hfree.1,by rw [hn]; exact hd.2.mpr hfree.2⟩,merge_join hfree]
    have hpos' : ∀ e∈{ c with size := c.size+(12+d.size) }::cs, e.addr≠0 :=
      List.forall_mem_cons.mpr ⟨hc0,fun e he => hpos e (by simp [he])⟩
    obtain ⟨m',hm',hs',hfr⟩ := ih _ fuel c.addr hi ht.join hhi hpos' hseg (by simpa using hf)
    refine ⟨m',hm',hs',?_⟩
    intro x hx
    have hoff : OffHeaders ({ c with size := c.size+(12+d.size) }::cs) x :=
      List.forall_mem_cons.mpr ⟨hx c (by simp),fun e he => hx e (by simp [he])⟩
    rw [hfr x hoff,hout x (hx c (by simp))]
  | skip c d cs hfree ih =>
    intro m fuel lo hi ht hhi hpos hs hf
    obtain ⟨fuel,rfl⟩ : ∃ k, fuel=k+1 := ⟨fuel-1,by omega⟩
    obtain rfl := hs.1
    obtain ⟨_,hc,hn,hd,hrest⟩ := hs
    have hc0 := hpos c (by simp)
    have hd0 := hpos d (by simp)
    have hcond : ¬(blockFree m c.addr≠0 ∧ blockFree m (blockNext m c.addr)≠0) := by
      rw [hn,hc.2,hd.2]
      exact hfree
    have htd : Tiles 12 d.addr hi (d::cs) := ⟨rfl,ht.2.2⟩
    obtain ⟨m',hm',hs',hfr⟩ := ih m fuel d.addr hi htd hhi
      (fun e he => hpos e (by simp [he])) ⟨rfl,hd,hrest⟩ (by simpa using hf)
    rw [coalesceLoop,if_neg (by rw [hn]; omega),if_neg hcond,merge_skip hfree,hn]
    refine ⟨m',hm',seg_cons_kept ht hhi hc hfr (by rw [hn]; exact hs'),?_⟩
    exact fun x hx => hfr x (fun e he => hx e (by simp [he]))

theorem HeapInv.header (hi : HeapInv h cs) (hc : c∈cs) : HeaderAt h.mem c := by
  obtain ⟨pre,post,rfl⟩ := List.append_of_mem hc
  obtain ⟨_,_,_,hh,_⟩ := seg_append.mp hi.seg
  exact hh

theorem HeapInv.blockOf (hi : HeapInv h cs) (hc : c∈cs) : sub32 (c.addr+12) blockHeader=c.addr := by
  have hb := hi.bounds hc
  simp only [blockHeader]
  rw [sub32_of_le (by omega) (by omega)]
  omega

theorem coalesce_spec (hh : h.head=KHEAP_START) (hs : Seg h.mem KHEAP_START cs 0)
    (ht : Tiles blockHeader KHEAP_START (KHEAP_START+KHEAP_SIZE) cs) (hu : h.heapUsed=usedBytes cs) :
    ∃ h', coalesce h=some h' ∧ HeapInv h' (merge 12 cs) ∧
      ∀ x, OffHeaders cs x → h'.mem x=h.mem x := by
  have hlen : cs.length<walkFuel := by
    have := ht.total
    simp only [blockHeader,KHEAP_START,KHEAP_SIZE] at this
    simp only [walkFuel]
    omega
  have hpos : ∀ c∈cs, c.addr≠0 := by
    intro c hc
    have := (ht.bounds hc).1
    simp only [KHEAP_START] at this
    omega
  obtain ⟨m',hm',hs',hf⟩ := coalesceLoop_spec cs h.mem walkFuel KHEAP_START _ ht (by decide)
    hpos hs hlen
  refine ⟨{ h with mem := m' },?_,⟨hh,hs',?_,noAdjacentFree_merge cs,?_⟩,hf⟩
  · simp [coalesce,hh,hm']
  · exact tiles_merge cs ht
  · rw [usedBytes_merge]
    exact hu

theorem kfree_spec (hi : HeapInv h (pre++c::post)) (hc : c.free=false) :
    ∃ h', kfree h (c.addr+12)=some h' ∧
      HeapInv h' (merge 12 (pre++{ c with free := true }::post)) ∧
      ∀ x, OffHeaders (pre++c::post) x → h'.mem x=h.mem x := by
  have hmem : c∈pre++c::post := by simp
  have hb := hi.bounds hmem
  have hh := hi.header hmem
  have hnf : ¬blockFree h.mem c.addr≠0 := by rw [hh.2,hc]; simp
  have hused : usedBytes (pre++c::post) =
      usedBytes (pre++{ c with free := true }::post)+c.size := by
    simp [usedBytes_append,usedBytes,hc]
    omega
  have hle : c.size≤h.heapUsed := by
    rw [hi.used,hused]
    omega
  have hlt : h.heapUsed<4294967296 := by
    have := hi.tiles.usedBytes_le
    rw [hi.used]
    simp only [KHEAP_START,KHEAP_SIZE] at this
    omega
  obtain ⟨e1,e2,e3⟩ := header_setFree h.mem c.addr 1 (by omega) (by decide)
  have hout : ∀ x, x<c.addr ∨ c.addr+12≤x → setFree h.mem c.addr 1 x=h.mem x :=
    fun x hx => setFree_outside (by omega) hx
  have hseg : Seg (setFree h.mem c.addr 1) KHEAP_START (pre++{ c with free := true }::post) 0 := by
    have hmid : Seg (setFree h.mem c.addr 1) c.addr [{ c with free := true }]
        (blockNext h.mem c.addr) := ⟨rfl,⟨e1.trans hh.1,by simp [e2]⟩,e3⟩
    exact hi.rewrite_cell (fun x hx => hout x (by omega)) hmid
  have ht : Tiles blockHeader KHEAP_START (KHEAP_START+KHEAP_SIZE)
      (pre++{ c with free := true }::post) := by
    obtain ⟨mid,hpre,ha,hpost⟩ := tiles_append.mp hi.tiles
    exact tiles_append.mpr ⟨mid,hpre,ha,hpost⟩
  obtain ⟨h',he,hinv,hf⟩ := @coalesce_spec
    { h with mem := setFree h.mem c.addr 1, heapUsed := sub32 h.heapUsed c.size } _ hi.head hseg ht
    (by
      simp only
      rw [sub32_of_le hle hlt,hi.used,hused]
      omega)
  refine ⟨h',?_,hinv,?_⟩
  · simp only [kfree,hi.blockOf hmem,if_neg hnf,hh.1,if_pos hle]
    rw [if_neg (by omega)]
    exact he
  · intro x hx
    refine (hf x ?_).trans (hout x (hx c hmem))
    intro d hd
    simp only [List.mem_append,List.mem_cons] at hd
    obtain hd | rfl | hd := hd
    · exact hx d (by simp [hd])
    · exact hx c hmem
    · exact hx d (by simp [hd])

theorem HeapInv.write_payload (hi : HeapInv h cs) (he : e∈cs)
    (hout : ∀ x, x<e.addr+12 ∨ e.addr+12+e.size≤x → m' x=h.mem x) : HeapInv { h with mem := m' } cs := by
  refine ⟨hi.head,hi.seg.frame ?_ ?_,hi.tiles,hi.separated,hi.used⟩
  · intro d hd
    have := hi.bounds hd
    omega
  · intro d hd x h1 h2
    apply hout
    obtain rfl | hs | hs := hi.tiles.separated hd he
    · omega
    · simp only [blockHeader] at hs
      omega
    · simp only [blockHeader] at hs
      omega

/-- The copy reads the size it counts to from a header it does not overwrite. -/
theorem copyLoop_spec {b dst src n : Nat} (hb : b+12≤4294967296) (hd : dst+n≤4294967296) (hsep : dst+n≤b ∨ b+12≤dst) :
    ∀ (k i fuel : Nat) (m : Mem), blockSize m b=n → i+k=n → k<fuel →
      ∃ m', copyLoop b dst src fuel i m=some m' ∧
        ∀ x, x<dst ∨ dst+n≤x → m' x=m x := by
  intro k
  induction k with
  | zero =>
    intro i fuel m hs hi hf
    cases fuel with
    | zero => omega
    | succ fuel =>
      refine ⟨m,?_,fun x _ => rfl⟩
      rw [copyLoop,if_neg (by omega)]
  | succ k ih =>
    intro i fuel m hs hi hf
    cases fuel with
    | zero => omega
    | succ fuel =>
      have hone : ∀ x, x<dst ∨ dst+n≤x →
          store8 m (dst+i) (load8 m (src+i)) x=m x := by
        intro x hx
        apply store8_of_ne
        rw [u32_of_lt (by omega)]
        omega
      have hs' : blockSize (store8 m (dst+i) (load8 m (src+i))) b=n := by
        rw [← hs]
        exact (header_frame hb (fun x h1 h2 => hone x (by omega))).1
      obtain ⟨m',hm',hf'⟩ := ih (i+1) fuel _ hs' (by omega) (by omega)
      refine ⟨m',?_,?_⟩
      · rw [copyLoop,if_pos (by omega)]
        exact hm'
      · exact fun x hx => (hf' x hx).trans (hone x hx)

theorem copyLoop_copies {b dst src n : Nat} (hb : b+12≤4294967296) (hd : dst+n≤4294967296)
    (hs : src+n≤4294967296) (hsep : dst+n≤b ∨ b+12≤dst) (hsrc : dst+n ≤ src ∨ src+n≤dst) :
    ∀ (fuel i : Nat) (m m' : Mem), blockSize m b=n → copyLoop b dst src fuel i m=some m' →
      (∀ j, i≤j → j<n → m' (dst+j)=m (src+j)) ∧ ∀ x, x<dst+i ∨ dst+n≤x → m' x=m x := by
  intro fuel
  induction fuel with
  | zero =>
    intro i m m' _ h
    cases h
  | succ fuel ih =>
    intro i m m' hn h
    rw [copyLoop,hn] at h
    by_cases hi : i<n
    · rw [if_pos hi] at h
      have hone : ∀ x, x≠dst+i → store8 m (dst+i) (load8 m (src+i)) x=m x := by
        intro x hx
        apply store8_of_ne
        rwa [u32_of_lt (by omega)]
      have hn' : blockSize (store8 m (dst+i) (load8 m (src+i))) b=n := by
        rw [← hn]
        exact (header_frame hb fun x h1 h2 => hone x (by omega)).1
      obtain ⟨hcopied,hkept⟩ := ih (i+1) _ m' hn' h
      constructor
      · intro j hij hj
        by_cases hji : j=i
        · rw [hji,hkept (dst+i) (by omega),store8,if_pos (u32_of_lt (by omega)).symm,load8,
            u32_of_lt (by omega)]
        · rw [hcopied j (by omega) hj,hone _ (by omega)]
      · intro x hx
        rw [hkept x (by omega),hone x (by omega)]
    · rw [if_neg hi,Option.some_inj] at h
      rw [← h]
      exact ⟨fun j hij hj => absurd hj (by omega),fun _ _ => rfl⟩

/-- The pointers a client may hold: the payload addresses of the used cells. -/
def pointers (cs : List Cell) : List Nat := (usedCells cs).map fun c => c.addr+12

theorem mem_pointers {p : Nat} : p∈pointers cs ↔ ∃ c∈cs, c.free=false ∧ p=c.addr+12 := by
  simp only [pointers,List.mem_map,mem_usedCells]
  constructor
  · rintro ⟨c,⟨hc,hf⟩,rfl⟩
    exact ⟨c,hc,hf,rfl⟩
  · rintro ⟨c,hc,hf,rfl⟩
    exact ⟨c,⟨hc,hf⟩,rfl⟩

theorem allocated_addr (size : Nat) (c : Cell) : (allocated size c).addr=c.addr := by
  by_cases hs : c.size<size+20 <;> simp [allocated,hs]

theorem mem_pointers_alloc {p size : Nat} (hf : c.free=true) :
    p∈pointers (pre++(allocCells size c++post)) ↔
      p=c.addr+12 ∨ p∈pointers (pre++c::post) := by
  have h := @usedCells_alloc size c pre post hf
  simp only [pointers,h.1,h.2,List.map_append,List.map_cons,List.mem_append,List.mem_cons,
    allocated_addr]
  tauto

theorem mem_pointers_free {p lo hi : Nat} (ht : Tiles 12 lo hi (pre++c::post)) (hc : c.free=false) :
    p∈pointers (merge 12 (pre++{ c with free := true }::post)) ↔
      p∈pointers (pre++c::post) ∧ p≠c.addr+12 := by
  have he : pointers (merge 12 (pre++{ c with free := true }::post))=pointers (pre++post) := by
    simp only [pointers,usedCells_merge]
    simp [usedCells]
  rw [he,mem_pointers,mem_pointers]
  have hother : ∀ d, d∈pre++post → d.addr≠c.addr := by
    intro d hd hda
    obtain ⟨mid,hpre,ha,hpost⟩ := tiles_append.mp ht
    obtain hd | hd := List.mem_append.mp hd
    · have := (hpre.bounds hd).2
      omega
    · have := (Tiles.bounds hpost hd).1
      simp only [Cell.stop] at this
      omega
  constructor
  · rintro ⟨d,hd,hf,rfl⟩
    refine ⟨⟨d,?_,hf,rfl⟩,?_⟩
    · simp only [List.mem_append,List.mem_cons] at hd ⊢
      tauto
    · have := hother d hd
      omega
  · rintro ⟨⟨d,hd,hf,rfl⟩,hne⟩
    refine ⟨d,?_,hf,rfl⟩
    simp only [List.mem_append,List.mem_cons] at hd ⊢
    obtain hd | rfl | hd := hd
    · exact Or.inl hd
    · exact absurd rfl hne
    · exact Or.inr hd

theorem le_alignUp {n : Nat} (h : n≤0xFFFFFFF8) : n≤alignUp n := by
  simp only [alignUp,ALIGN,u32]
  omega

theorem alignUp_of_gt {n : Nat} (h : 0xFFFFFFF8<n) (hn : n<4294967296) : alignUp n=0 := by
  simp only [alignUp,ALIGN,u32]
  omega

theorem allocated_size {size : Nat} (hf : Fits size c) :
    size≤(allocated size c).size ∧ (allocated size c).size≤c.size := by
  have hs := hf.2
  by_cases hc : c.size<size+20 <;> simp [allocated,hc] <;> omega

theorem allocated_mem {size : Nat} : allocated size c∈pre++(allocCells size c++post) := by
  by_cases hc : c.size<size+20 <;> simp [allocCells,allocated,hc]

theorem mem_usedCells_alloc {d : Cell} {size : Nat} (hf : c.free=true) :
    d∈usedCells (pre++(allocCells size c++post)) ↔ d=allocated size c ∨ d∈usedCells (pre++c::post) := by
  have h := @usedCells_alloc size c pre post hf
  simp only [h.1,h.2,List.mem_append,List.mem_cons]
  tauto

theorem mem_usedCells_free {d : Cell} {lo hi : Nat} (ht : Tiles 12 lo hi (pre++c::post)) (hc : c.free=false) :
    d∈usedCells (merge 12 (pre++{ c with free := true }::post)) ↔ d∈usedCells (pre++c::post) ∧ d≠c := by
  have hfreed : usedCells (merge 12 (pre++{ c with free := true }::post))=usedCells pre++usedCells post := by
    rw [usedCells_merge]
    simp [usedCells]
  have hused : usedCells (pre++c::post)=usedCells pre++c::usedCells post := by
    simp [usedCells,hc]
  obtain ⟨mid,hpre,ha,hpost⟩ := tiles_append.mp ht
  have hother : d∈usedCells pre++usedCells post → d≠c := by
    rintro hd rfl
    rcases List.mem_append.mp hd with hd | hd
    · have := (hpre.bounds (mem_usedCells.mp hd).1).2
      omega
    · have := (Tiles.bounds hpost (mem_usedCells.mp hd).1).1
      simp only [Cell.stop] at this
      omega
  rw [hfreed,hused]
  simp only [List.mem_append,List.mem_cons] at hother ⊢
  tauto

/-- A block that has been moved: `e` takes the place of `c` and has its bytes; the other blocks stay. -/
structure Moved (h h' : Heap) (cs cs' : List Cell) (c e : Cell) (n : Nat) : Prop where
  inv : HeapInv h' cs'
  room : n≤e.size
  moved : c.size<n
  cells : ∀ d, d∈usedCells cs' ↔ d=e ∨ d∈usedCells cs ∧ d≠c
  copied : ∀ i, i<c.size → h'.mem (e.addr+12+i)=h.mem (c.addr+12+i)
  kept : ∀ d, d∈usedCells cs → d≠c → ∀ i, i<d.size → h'.mem (d.addr+12+i)=h.mem (d.addr+12+i)

theorem HeapInv.payload_off (hi : HeapInv h cs) (hc : c∈cs) {i : Nat} (hlt : i<c.size) :
    OffHeaders cs (c.addr+12+i) := by
  intro d hd
  rcases hi.tiles.separated hc hd with rfl | hs | hs
  · exact .inr (by omega)
  · simp only [blockHeader] at hs
    exact .inl (by omega)
  · simp only [blockHeader] at hs
    exact .inr (by omega)

theorem HeapInv.used_apart {d r : Cell} {size : Nat} (hi : HeapInv h (pre++d::post)) (hf : d.free=true)
    (hr : r∈usedCells (pre++d::post)) :
    r∈pre++(allocCells size d++post) ∧ (r.addr+12+r.size≤d.addr ∨ d.addr+12+d.size≤r.addr) := by
  obtain ⟨hmem,hu⟩ := mem_usedCells.mp hr
  have hrd : r≠d := by
    rintro rfl
    rw [hf] at hu
    cases hu
  exact ⟨(mem_usedCells.mp ((mem_usedCells_alloc hf).mpr (.inr hr))).1,
    (hi.tiles.separated hmem (by simp)).resolve_left hrd⟩

/-- The copy of `krealloc`: the new block has the bytes of the old one, and nothing outside its cell has changed. -/
theorem HeapInv.copy_into {d : Cell} {size : Nat} (hi : HeapInv h (pre++(allocCells size d++post)))
    (hf : Fits size d) (hc : c∈pre++(allocCells size d++post)) (hlt : c.size<size) (hd : d.addr+12+d.size≤0x300000)
    (hsep : c.addr+12+c.size≤d.addr ∨ d.addr+12+d.size≤c.addr) :
    ∃ m', copyLoop c.addr (d.addr+12) (c.addr+12) copyFuel 0 h.mem=some m' ∧
      HeapInv { h with mem := m' } (pre++(allocCells size d++post)) ∧
      (∀ i, i<c.size → m' (d.addr+12+i)=h.mem (c.addr+12+i)) ∧
      ∀ x, x<d.addr+12 ∨ d.addr+12+d.size≤x → m' x=h.mem x := by
  have hb := hi.bounds hc
  have hal := allocated_size hf
  have hsize : blockSize h.mem c.addr=c.size := (hi.header hc).1
  obtain ⟨m',hm',hcopy⟩ := @copyLoop_spec c.addr (d.addr+12) (c.addr+12) c.size
    (by omega) (by omega) (by omega) c.size 0 copyFuel h.mem hsize (by omega) (by simp only [copyFuel]; omega)
  have hbytes := (@copyLoop_copies c.addr (d.addr+12) (c.addr+12) c.size (by omega) (by omega)
    (by omega) (by omega) (by omega) copyFuel 0 h.mem m' hsize hm').1
  refine ⟨m',hm',hi.write_payload allocated_mem ?_,fun i hlt => hbytes i (Nat.zero_le i) hlt,?_⟩
  · intro x hx
    rw [allocated_addr] at hx
    exact hcopy x (by omega)
  · intro x hx
    exact hcopy x (by omega)

theorem mem_usedCells_moved {d r : Cell} {size lo hi : Nat} {pre' post' : List Cell} (hf : d.free=true)
    (hu : c.free=false) (hne : c.addr≠d.addr) (ht : Tiles 12 lo hi (pre'++c::post'))
    (hsplit : pre++(allocCells size d++post)=pre'++c::post') :
    r∈usedCells (merge 12 (pre'++{ c with free := true }::post')) ↔
      r=allocated size d ∨ r∈usedCells (pre++d::post) ∧ r≠c := by
  have hnew : allocated size d≠c := by
    intro heq
    apply hne
    rw [← heq,allocated_addr]
  rw [mem_usedCells_free ht hu,← hsplit,mem_usedCells_alloc hf]
  constructor
  · rintro ⟨rfl | hr,hrc⟩
    · exact .inl rfl
    · exact .inr ⟨hr,hrc⟩
  · rintro (rfl | ⟨hr,hrc⟩)
    · exact ⟨.inl rfl,hnew⟩
    · exact ⟨.inr hr,hrc⟩

theorem krealloc_cases (hi : HeapInv h cs) (hc : c∈cs) (hu : c.free=false) {n : Nat} (hn : n≠0) (hle : n≤0xFFFFFFF8) :
    (n≤c.size ∧ krealloc h (c.addr+12) n=some (c.addr+12,h)) ∨
    krealloc h (c.addr+12) n=some (0,h) ∨
    ∃ e h' cs', krealloc h (c.addr+12) n=some (e.addr+12,h') ∧ Moved h h' cs cs' c e n := by
  have hb := hi.bounds hc
  simp only [krealloc,hi.blockOf hc,(hi.header hc).1,if_neg hn]
  rw [if_neg (by omega)]
  by_cases hsz : n≤c.size
  · exact Or.inl ⟨hsz,by rw [if_pos hsz]⟩
  rw [if_neg hsz]
  obtain ⟨_,he⟩ | ⟨pre,d,post,h1,rfl,hf,_,he,hi1,hout⟩ := kmalloc_spec hi hn
  · exact Or.inr (Or.inl (by simp [he]))
  refine Or.inr (Or.inr ?_)
  have hbd := hi.bounds (show d∈pre++d::post by simp)
  have hal := allocated_size hf
  have hge := le_alignUp hle
  obtain ⟨hcin,hsep⟩ := hi.used_apart hf.1 (mem_usedCells.mpr ⟨hc,hu⟩)
  obtain ⟨m',hm',hi2,hbytes,hcopy⟩ := hi1.copy_into hf hcin (by omega) (by omega) hsep
  have hoff := fun r (hr : r∈pre++(allocCells (alignUp n) d++post)) i (hlt : i<r.size) =>
    hi2.payload_off hr hlt
  obtain ⟨pre',post',hsplit⟩ := List.append_of_mem hcin
  rw [hsplit] at hi2
  obtain ⟨h3,hk,hi3,hkept⟩ := kfree_spec hi2 hu
  rw [← hsplit] at hkept
  refine ⟨allocated (alignUp n) d,h3,_,?_,hi3,by omega,Nat.not_le.mp hsz,?_,?_,?_⟩
  · simp [he,hm',hk,allocated_addr]
  · exact fun r => mem_usedCells_moved hf.1 hu (by omega) hi2.tiles hsplit
  · intro i hlt
    rw [hkept _ (hoff _ allocated_mem i (by omega)),allocated_addr]
    exact (hbytes i hlt).trans (hout _ (by omega))
  · intro r hr _ i hlt
    obtain ⟨hrin,hrsep⟩ := hi.used_apart hf.1 hr
    rw [hkept _ (hoff r hrin i hlt)]
    exact (hcopy _ (by omega)).trans (hout _ (by omega))

theorem krealloc_spec (hi : HeapInv h cs) (hc : c∈cs) (hu : c.free=false) {n : Nat} (hn : n≠0) (hle : n≤0xFFFFFFF8) :
    krealloc h (c.addr+12) n=some (c.addr+12,h) ∨
    krealloc h (c.addr+12) n=some (0,h) ∨
    ∃ q h' cs', krealloc h (c.addr+12) n=some (q,h') ∧ HeapInv h' cs' ∧ q≠0 ∧
      ∀ p, p∈pointers cs' ↔ p=q ∨ (p∈pointers cs ∧ p≠c.addr+12) := by
  rcases krealloc_cases hi hc hu hn hle with ⟨_,he⟩ | he | ⟨e,h',cs',he,hm⟩
  · exact .inl he
  · exact .inr (.inl he)
  · refine .inr (.inr ⟨_,h',cs',he,hm.inv,by omega,?_⟩)
    intro p
    simp only [pointers,List.mem_map,hm.cells]
    constructor
    · rintro ⟨d,rfl | ⟨hd,hne⟩,rfl⟩
      · exact .inl rfl
      · refine .inr ⟨⟨d,hd,rfl⟩,?_⟩
        intro heq
        exact hne (hi.tiles.addr_inj (by decide) (mem_usedCells.mp hd).1 hc (by omega))
    · rintro (rfl | ⟨⟨d,hd,rfl⟩,hne⟩)
      · exact ⟨e,.inl rfl,rfl⟩
      · refine ⟨d,.inr ⟨hd,?_⟩,rfl⟩
        rintro rfl
        exact hne rfl

end MyKernel.Kmalloc
