import Mathlib.Tactic.SplitIfs
import MyKernel.Kmalloc.Free
import MyKernel.Malloc.Model

/-! The block list of a user heap tiles the memory up to the break, for sizes up to 1 MiB. -/
namespace MyKernel.Malloc
open Memory Loops Syscall Tiling
open Kmalloc (blockHeader blockSize blockFree blockNext setSize setFree setNext alignUp copyLoop copyFuel
  HeaderAt Seg Fits seg_append header_setSize header_setFree header_setNext header_store_other
  setSize_outside setFree_outside setNext_outside)

variable {s : Process} {m m' : Mem} {cs pre post : List Cell} {c d e : Cell} {a b p prev size fuel : Nat}

structure ProcInv (s : Process) (cs : List Cell) : Prop where
  seg : Seg s.mem s.heapHead cs 0
  tiles : Tiles 12 USER_HEAP_BASE s.brk cs
  brk_le : s.brk≤USER_HEAP_MAX
  blocks : s.blocks=cs.map Cell.addr

theorem ProcInv.bounds (h : ProcInv s cs) (hc : c∈cs) : 0x500000≤c.addr ∧ c.addr+12+c.size ≤ s.brk ∧ s.brk≤0x600000 :=
  ⟨(h.tiles.bounds hc).1,(h.tiles.bounds hc).2,h.brk_le⟩

theorem ProcInv.base_le (h : ProcInv s cs) : 0x500000 ≤ s.brk ∧ s.brk≤0x600000 := ⟨h.tiles.le,h.brk_le⟩

theorem mem_others (hd : d∈pre++c::post) (hne : d≠c) : d∈pre ∨ d∈post := by
  rcases List.mem_append.mp hd with hd | hd
  · exact .inl hd
  · exact .inr ((List.mem_cons.mp hd).resolve_left hne)

theorem tiles_apart {lo hi : Nat} (h : Tiles 12 lo hi (pre++c::post)) (he : e∈pre++post) :
    e.addr+12+e.size≤c.addr ∨ c.addr+12+c.size≤e.addr := by
  obtain ⟨mid,hpre,ha,hpost⟩ := tiles_append.mp h
  rcases List.mem_append.mp he with he | he
  · have hb := (hpre.bounds he).2
    omega
  · exact .inr (Tiles.bounds hpost he).1

theorem ProcInv.header (h : ProcInv s cs) (hc : c∈cs) : HeaderAt s.mem c := by
  obtain ⟨pre,post,rfl⟩ := List.append_of_mem hc
  obtain ⟨_,_,_,hh,_⟩ := seg_append.mp h.seg
  exact hh

theorem ProcInv.length_lt (h : ProcInv s cs) : cs.length<walkFuel := by
  have ht := h.tiles.total
  have hb := h.base_le
  rw [walkFuel]
  omega

theorem alignUp_mod (size : Nat) : alignUp size%8=0 := by
  simp only [alignUp,Kmalloc.ALIGN]
  omega

theorem le_alignUp (h : size≤0x100000) : size≤alignUp size ∧ alignUp size≤0x100000 := by
  simp only [alignUp,Kmalloc.ALIGN,u32]
  omega

theorem alignUp_header (h8 : a%8=0) : alignUp (u32 (a+blockHeader))=u32 (a+16) := by
  simp only [alignUp,Kmalloc.ALIGN,u32,blockHeader]
  omega

theorem callBrk_zero (s : Process) : callBrk 0 s=(s.brk,s) := rfl

def Process.setBrk (s : Process) (brk : Nat) : Process := { s with sys := { s.sys with userBrk := brk } }

theorem callBrk_refused (h : a<USER_HEAP_BASE ∨ USER_HEAP_MAX<a) : callBrk a s=(s.brk,s) := by
  rw [callBrk,sysBrk,if_pos h]
  by_cases h0 : a=0
  · rw [if_pos h0]
    rfl
  · rw [if_neg h0]
    rfl

theorem callBrk_granted (h : USER_HEAP_BASE≤a) (h' : a≤USER_HEAP_MAX) : callBrk a s=(a,s.setBrk a) := by
  have hne : a≠0 := by
    rw [USER_HEAP_BASE] at h
    omega
  rw [callBrk,sysBrk,if_neg hne,if_neg (by omega)]
  rfl

theorem heapInit_eq (h : s.brk≠0) : heapInit s=(true,s) := by
  rw [heapInit]
  by_cases hh : s.heapHead=0
  · rw [if_neg (not_not.mpr hh),callBrk_zero]
    dsimp only
    rw [if_neg h,← hh]
  · rw [if_pos hh]

def brkAfter (s : Process) (a : Nat) : Nat := if a<USER_HEAP_BASE then s.brk else a

def newHeader (m : Mem) (b size : Nat) : Mem := setNext (setFree (setSize m b size) b 1) b 0

def grown (s : Process) (brk size : Nat) : Process :=
  { s.setBrk brk with
    sys := { s.sys with userBrk := brk, mem := newHeader s.mem s.brk size }
    blocks := s.blocks++[s.brk] }

theorem moreCore_refused (h8 : a%8=0) (hbrk : s.brk≤USER_HEAP_MAX)
    (h : USER_HEAP_MAX<u32 (s.brk+u32 (a+16))) : moreCore a s=(0,s) := by
  rw [moreCore,alignUp_header h8,callBrk_zero]
  dsimp only
  rw [callBrk_refused (.inr h)]
  dsimp only
  rw [if_pos (by omega)]

theorem moreCore_granted (h8 : a%8=0) (hbase : USER_HEAP_BASE ≤ s.brk) (h : u32 (s.brk+u32 (a+16))≤USER_HEAP_MAX) :
    moreCore a s=(s.brk,grown s (brkAfter s (u32 (s.brk+u32 (a+16)))) (sub32 (u32 (a+16)) blockHeader)) := by
  rw [moreCore,alignUp_header h8,callBrk_zero,brkAfter]
  dsimp only
  by_cases hlow : u32 (s.brk+u32 (a+16))<USER_HEAP_BASE
  · rw [callBrk_refused (.inl hlow),if_pos hlow]
    dsimp only
    rw [if_neg (by omega)]
    rfl
  · rw [callBrk_granted (by omega) h,if_neg hlow]
    dsimp only
    rw [if_neg (by omega)]
    rfl

def lastAddr (prev : Nat) : List Cell → Nat
  | [] => prev
  | c::cs => lastAddr c.addr cs

theorem lastAddr_append (prev : Nat) (cs : List Cell) (c : Cell) : lastAddr prev (cs++[c])=c.addr := by
  induction cs generalizing prev with
  | nil => rfl
  | cons d cs ih => exact ih d.addr

theorem search_spec (size prev : Nat) (hs : Seg m b cs 0) (hpos : ∀ c∈cs, c.addr≠0) (hfuel : cs.length<fuel) :
    ((∀ c∈cs, ¬ Fits size c) ∧ search m size fuel prev b=some (.ended (lastAddr prev cs))) ∨
    ∃ c∈cs, Fits size c ∧ search m size fuel prev b=some (.found c.addr) := by
  induction cs generalizing b prev fuel with
  | nil =>
    obtain ⟨fuel,rfl⟩ := Nat.exists_eq_add_of_lt hfuel
    have hb : b=0 := hs
    exact .inl ⟨by simp,by simp [search,hb,lastAddr]⟩
  | cons c cs ih =>
    cases fuel with
    | zero => simp at hfuel
    | succ fuel =>
      obtain ⟨rfl,⟨hsz,hfr⟩,ht⟩ := hs
      have hc0 := hpos c (by simp)
      have hfits : blockFree m c.addr≠0 ∧ size≤blockSize m c.addr ↔ Fits size c := by
        rw [hfr,hsz]
        rfl
      rw [search,if_neg hc0]
      by_cases hf : Fits size c
      · rw [if_pos (hfits.mpr hf)]
        exact .inr ⟨c,by simp,hf,rfl⟩
      · rw [if_neg fun h => hf (hfits.mp h)]
        rcases ih c.addr ht (fun d hd => hpos d (by simp [hd])) (by simpa using hfuel) with
          ⟨hnone,he⟩ | ⟨d,hd,hfd,he⟩
        · refine .inl ⟨?_,he⟩
          intro d hd
          rcases List.mem_cons.mp hd with rfl | hd
          · exact hf
          · exact hnone d hd
        · exact .inr ⟨d,by simp [hd],hfd,he⟩

/-- No free block is large enough for the rounded size, and the break would pass `USER_HEAP_MAX`. -/
def Refused (s : Process) (size : Nat) : Prop :=
  (∃ prev, search s.mem (alignUp size) walkFuel 0 s.heapHead=some (.ended prev)) ∧
    USER_HEAP_MAX<u32 (s.brk+u32 (alignUp size+16))

def appended (s : Process) (cs : List Cell) (size : Nat) : Process :=
  linkBlock (lastAddr 0 cs) s.brk (useBlock s.brk
    (grown s (brkAfter s (u32 (s.brk+u32 (size+16)))) (sub32 (u32 (size+16)) blockHeader)))

theorem malloc_cases (h : ProcInv s cs) (h0 : size≠0) :
    (Refused s size ∧ malloc size s=some (0,s)) ∨
    (∃ c∈cs, Fits (alignUp size) c ∧ ¬ Refused s size ∧
      malloc size s=some (c.addr+12,useBlock c.addr s)) ∨
    (u32 (s.brk+u32 (alignUp size+16))≤USER_HEAP_MAX ∧ ¬ Refused s size ∧
      malloc size s=some (s.brk+12,appended s cs (alignUp size))) := by
  have hb := h.base_le
  have h8 := alignUp_mod size
  have hpos : ∀ c∈cs, c.addr≠0 := by
    intro c hc
    have hcb := h.bounds hc
    omega
  have hmalloc : malloc size s =
      (search s.mem (alignUp size) walkFuel 0 s.heapHead).map (afterSearch (alignUp size) s) := by
    rw [malloc,if_neg h0,heapInit_eq (by omega)]
  rcases search_spec (alignUp size) 0 h.seg hpos h.length_lt with ⟨_,he⟩ | ⟨c,hc,hf,he⟩
  · rw [hmalloc,he,Option.map_some,afterSearch]
    by_cases hmax : USER_HEAP_MAX<u32 (s.brk+u32 (alignUp size+16))
    · refine .inl ⟨⟨⟨_,he⟩,hmax⟩,?_⟩
      rw [moreCore_refused h8 h.brk_le hmax]
      rfl
    · refine .inr (.inr ⟨by omega,fun hr => hmax hr.2,?_⟩)
      rw [moreCore_granted h8 h.tiles.le (by omega)]
      dsimp only
      rw [if_neg (by omega),u32_of_lt (by rw [blockHeader]; omega)]
      rfl
  · have hcb := h.bounds hc
    refine .inr (.inl ⟨c,hc,hf,?_,?_⟩)
    · rintro ⟨⟨prev,hprev⟩,_⟩
      rw [he] at hprev
      cases hprev
    · rw [hmalloc,he,Option.map_some,afterSearch,u32_of_lt (by rw [blockHeader]; omega)]
      rfl

theorem ProcInv.rewrite_header (h : ProcInv s (pre++c::post))
    (hout : ∀ x, x<c.addr ∨ c.addr+12≤x → m' x=s.mem x) (hd : HeaderAt m' d) (hcd : c.addr=d.addr)
    (hnext : blockNext m' c.addr=blockNext s.mem c.addr) : Seg m' s.heapHead (pre++d::post) 0 := by
  have hc : c∈pre++c::post := by simp
  have hother : ∀ e∈pre++post, ∀ x, e.addr≤x → x<e.addr+12 → m' x=s.mem x := by
    intro e he x hx hx'
    have hne := tiles_apart h.tiles he
    exact hout x (by omega)
  have hfit : ∀ e∈pre++post, e.addr+12≤4294967296 := by
    intro e he
    rcases List.mem_append.mp he with he | he
    · have hb := h.bounds (show e∈pre++c::post by simp [he])
      omega
    · have hb := h.bounds (show e∈pre++c::post by simp [he])
      omega
  obtain ⟨b,hpre,hb,_,hpost⟩ := seg_append.mp h.seg
  refine seg_append.mpr ⟨b,hpre.frame ?_ ?_,hb.trans hcd,hd,?_⟩
  · exact fun e he => hfit e (by simp [he])
  · exact fun e he => hother e (by simp [he])
  · rw [← hcd,hnext]
    exact hpost.frame (fun e he => hfit e (by simp [he])) fun e he => hother e (by simp [he])

def flagged (c : Cell) (v : Nat) : Cell := { c with free := decide (v≠0) }

theorem ProcInv.setFlag (h : ProcInv s (pre++c::post)) {v : Nat} (hv : v<4294967296) :
    ProcInv (s.setMem (setFree s.mem c.addr v)) (pre++flagged c v::post) := by
  have hc : c∈pre++c::post := by simp
  have hb := h.bounds hc
  obtain ⟨hsize,hfree,hnext⟩ := header_setFree s.mem c.addr v (by omega) hv
  have hd : HeaderAt (setFree s.mem c.addr v) (flagged c v) := by
    refine ⟨hsize.trans (h.header hc).1,?_⟩
    change blockFree (setFree s.mem c.addr v) c.addr≠0 ↔ decide (v≠0)=true
    rw [hfree,decide_eq_true_iff]
  constructor
  · exact h.rewrite_header (fun x hx => setFree_outside (by omega) hx) hd rfl hnext
  · obtain ⟨mid,hpre,ha,hpost⟩ := tiles_append.mp h.tiles
    exact tiles_append.mpr ⟨mid,hpre,ha,hpost⟩
  · exact h.brk_le
  · have hblocks := h.blocks
    rw [List.map_append,List.map_cons] at hblocks ⊢
    exact hblocks

theorem newHeader_spec (m : Mem) {v : Nat} (hb : b+12≤4294967296) (hv : v<4294967296) :
    HeaderAt (setFree (newHeader m b v) b 0) ⟨b,v,false⟩ ∧ blockNext (setFree (newHeader m b v) b 0) b=0 ∧
      ∀ x, x<b ∨ b+12≤x → setFree (newHeader m b v) b 0 x=m x := by
  obtain ⟨e1,_,_⟩ := header_setSize m b v hb hv
  obtain ⟨e2,_,_⟩ := header_setFree (setSize m b v) b 1 hb (by decide)
  obtain ⟨e3,_,n3⟩ := header_setNext (setFree (setSize m b v) b 1) b 0 hb (by decide)
  obtain ⟨e4,f4,n4⟩ := header_setFree (newHeader m b v) b 0 hb (by decide)
  refine ⟨⟨e4.trans (e3.trans (e2.trans e1)),?_⟩,n4.trans n3,?_⟩
  · change blockFree (setFree (newHeader m b v) b 0) b≠0 ↔ false=true
    simp [f4]
  · intro x hx
    calc
      setFree (newHeader m b v) b 0 x=newHeader m b v x := setFree_outside hb hx
      _ = setFree (setSize m b v) b 1 x := setNext_outside hb hx
      _ = setSize m b v x := setFree_outside hb hx
      _ = m x := setSize_outside hb hx

theorem seg_relink {lo hi v : Nat} (hs : Seg m a (pre++[c]) 0) (ht : Tiles 12 lo hi (pre++[c]))
    (hhi : hi≤4294967296) (hv : v<4294967296) : Seg (setNext m c.addr v) a (pre++[c]) v := by
  have hc := (ht.bounds (show c∈pre++[c] by simp)).2
  obtain ⟨b,hpre,hb,⟨hsize,hfree⟩,_⟩ := seg_append.mp hs
  obtain ⟨e1,e2,e3⟩ := header_setNext m c.addr v (by omega) hv
  refine seg_append.mpr ⟨b,hpre.frame ?_ ?_,hb,⟨e1.trans hsize,by rw [e2]; exact hfree⟩,e3⟩
  · intro d hd
    have hdb := (ht.bounds (show d∈pre++[c] by simp [hd])).2
    omega
  · intro d hd x hx hx'
    have hapart := tiles_apart ht (show d∈pre++[] by simp [hd])
    exact setNext_outside (by omega) (by omega)

theorem ProcInv.append (h : ProcInv s cs) (hsize : size≤0x100000) (hmax : s.brk+(size+16)≤USER_HEAP_MAX) :
    ProcInv (appended s cs size) (cs++[⟨s.brk,size+4,false⟩]) := by
  have hb := h.base_le
  have hneed : u32 (size+16)=size+16 := u32_of_lt (by omega)
  have hsub : sub32 (size+16) blockHeader=size+4 := by
    rw [blockHeader,sub32_of_le (by omega) (by omega)]
    omega
  have hafter : brkAfter s (s.brk+(size+16))=s.brk+(size+16) := by
    rw [brkAfter,if_neg (by rw [USER_HEAP_BASE]; omega)]
  have hgrown : appended s cs size=linkBlock (lastAddr 0 cs) s.brk (useBlock s.brk
      (grown s (s.brk+(size+16)) (size+4))) := by
    rw [appended,hneed,u32_of_lt (by omega),hafter,hsub]
  obtain ⟨hhead,hnext,hout⟩ := newHeader_spec s.mem (b := s.brk) (v := size+4) (by omega) (by omega)
  -- the old blocks lie below the new header
  have hseg : Seg (setFree (newHeader s.mem s.brk (size+4)) s.brk 0) s.heapHead cs 0 := by
    apply h.seg.frame
    · intro c hc
      have hcb := h.bounds hc
      omega
    · intro c hc x hx hx'
      have hcb := h.bounds hc
      exact hout x (by omega)
  have htiles : Tiles 12 USER_HEAP_BASE (s.brk+(size+16)) (cs++[⟨s.brk,size+4,false⟩]) := by
    refine tiles_append.mpr ⟨s.brk,h.tiles,rfl,?_⟩
    simp only [Tiles,Cell.stop]
    omega
  have hblocks : s.blocks++[s.brk]=List.map Cell.addr (cs++[⟨s.brk,size+4,false⟩]) := by
    rw [h.blocks,List.map_append]
    rfl
  rw [hgrown]
  rcases List.eq_nil_or_concat' cs with rfl | ⟨pre,c,rfl⟩
  · exact ⟨⟨rfl,hhead,hnext⟩,htiles,hmax,hblocks⟩
  · have hcb := h.bounds (show c∈pre++[c] by simp)
    rw [lastAddr_append,linkBlock,if_pos (by omega)]
    obtain ⟨e1,e2,e3⟩ := (header_store_other (setFree (newHeader s.mem s.brk (size+4)) s.brk 0) c.addr s.brk
      s.brk (by omega) (by omega) (by omega)).2.2
    have hlinked := seg_relink hseg h.tiles (v := s.brk) (by omega) (by omega)
    refine ⟨seg_append.mpr ⟨s.brk,hlinked,rfl,⟨e1.trans hhead.1,?_⟩,e3.trans hnext⟩,htiles,hmax,hblocks⟩
    rw [← hhead.2]
    exact not_congr (Eq.congr_left e2)

/-- The block list `cs'` has the used block `c`, which `cs` has not, and all used blocks of `cs`. -/
structure Takes (cs : List Cell) (c : Cell) (cs' : List Cell) : Prop where
  mem : c∈cs'
  used : c.free=false
  keeps : ∀ d∈cs, d.free=false → d∈cs' ∧ d.addr≠c.addr

theorem takes_flagged (ht : Tiles 12 a b (pre++c::post)) (hfree : c.free=true) :
    Takes (pre++c::post) (flagged c 0) (pre++flagged c 0::post) where
  mem := by simp
  used := rfl
  keeps := by
    intro d hd hused
    have hdc : d≠c := by
      rintro rfl
      rw [hfree] at hused
      cases hused
    have hd' := mem_others hd hdc
    have hapart := tiles_apart ht (List.mem_append.mpr hd')
    constructor
    · exact hd'.elim (fun hd => by simp [hd]) fun hd => by simp [hd]
    · change d.addr≠c.addr
      omega

theorem malloc_spec (h : ProcInv s cs) (h0 : size≠0) (hsize : size≤0x100000) :
    malloc size s=some (0,s) ∨ ∃ c t cs', malloc size s=some (c.addr+12,t) ∧ ProcInv t cs' ∧
      Takes cs c cs' ∧ size≤c.size := by
  have hb := h.base_le
  obtain ⟨hle,halign⟩ := le_alignUp hsize
  rcases malloc_cases h h0 with ⟨_,he⟩ | ⟨c,hc,hf,_,he⟩ | ⟨hmax,_,he⟩
  · exact .inl he
  · obtain ⟨pre,post,rfl⟩ := List.append_of_mem hc
    have hsz := hf.2
    refine .inr ⟨flagged c 0,_,_,he,h.setFlag (by decide),takes_flagged h.tiles hf.1,?_⟩
    change size≤c.size
    omega
  · rw [u32_of_lt (show alignUp size+16<4294967296 by omega),u32_of_lt (by omega)] at hmax
    refine .inr ⟨⟨s.brk,alignUp size+4,false⟩,_,_,he,h.append halign hmax,⟨by simp,rfl,?_⟩,?_⟩
    · intro d hd _
      have hdb := h.bounds hd
      exact ⟨by simp [hd],by dsimp only; omega⟩
    · dsimp only
      omega

theorem appended_brk (hbrk : s.brk≤USER_HEAP_MAX) (hmax : u32 (s.brk+u32 (size+16))≤USER_HEAP_MAX) :
    (appended s cs size).brk≤USER_HEAP_MAX := by
  have hbrkAfter : (appended s cs size).brk=brkAfter s (u32 (s.brk+u32 (size+16))) := by
    rw [appended,linkBlock]
    split_ifs
    · rfl
    · rfl
  rw [hbrkAfter,brkAfter]
  split_ifs
  · exact hbrk
  · exact hmax

theorem malloc_granted (h : ProcInv s cs) (h0 : size≠0) (hr : ¬ Refused s size) :
    ∃ p t, malloc size s=some (p,t) ∧ p≠0 ∧ t.brk≤USER_HEAP_MAX := by
  rcases malloc_cases h h0 with ⟨hr',_⟩ | ⟨c,_,_,_,he⟩ | ⟨hmax,_,he⟩
  · exact absurd hr' hr
  · exact ⟨_,_,he,by omega,h.brk_le⟩
  · exact ⟨_,_,he,by omega,appended_brk h.brk_le hmax⟩

theorem blockOf (h : ProcInv s cs) (hc : c∈cs) : sub32 (c.addr+12) blockHeader=c.addr := by
  have hb := h.bounds hc
  rw [blockHeader,sub32_of_le (by omega) (by omega)]
  omega

theorem free_spec (h : ProcInv s cs) (hc : c∈cs) :
    ∃ cs', ProcInv (free (c.addr+12) s) cs' ∧ ∀ d∈cs, d.addr≠c.addr → d∈cs' := by
  have hblock := blockOf h hc
  obtain ⟨pre,post,rfl⟩ := List.append_of_mem hc
  rw [free,if_neg (by omega),hblock]
  refine ⟨_,h.setFlag (by decide),?_⟩
  intro d hd hne
  rcases mem_others hd (fun he => hne (he ▸ rfl)) with hd | hd
  · simp [hd]
  · simp [hd]

theorem ProcInv.write_payload (h : ProcInv s cs) (he : e∈cs)
    (hout : ∀ x, x<e.addr+12 ∨ e.addr+12+e.size≤x → m' x=s.mem x) : ProcInv (s.setMem m') cs := by
  refine ⟨h.seg.frame ?_ ?_,h.tiles,h.brk_le,h.blocks⟩
  · intro d hd
    have hb := h.bounds hd
    omega
  · intro d hd x hx hx'
    apply hout
    rcases h.tiles.separated hd he with rfl | hs | hs
    · omega
    · omega
    · omega

theorem moveBlock_spec (h : ProcInv s cs) (hc : c∈cs) (he : e∈cs) (hne : c.addr≠e.addr) (hsize : c.size≤e.size) :
    ∃ t cs', moveBlock (c.addr+12) (e.addr+12) s=some (e.addr+12,t) ∧ ProcInv t cs' ∧
      ∀ d∈cs, d.addr≠c.addr → d∈cs' := by
  have hcb := h.bounds hc
  have heb := h.bounds he
  have hsep : e.addr+12+c.size≤c.addr ∨ c.addr+12≤e.addr+12 := by
    rcases h.tiles.separated hc he with hce | hs | hs
    · exact absurd (congrArg Cell.addr hce) hne
    · omega
    · omega
  obtain ⟨m',hcopy,hout⟩ : ∃ m', copyLoop c.addr (e.addr+12) (c.addr+12) copyFuel 0 s.mem=some m' ∧
      ∀ x, x<e.addr+12 ∨ e.addr+12+c.size≤x → m' x=s.mem x :=
    Kmalloc.copyLoop_spec (by omega) (by omega) hsep c.size 0 copyFuel s.mem (h.header hc).1 (by omega)
      (by rw [copyFuel]; omega)
  have hwritten := h.write_payload he (fun x hx => hout x (by omega))
  obtain ⟨cs',hfreed,hkeep⟩ := free_spec hwritten hc
  refine ⟨_,cs',?_,hfreed,hkeep⟩
  rw [moveBlock,if_neg (by omega),blockOf h hc,hcopy]
  rfl

theorem copyLoop_returns {dst src i : Nat} (hfuel : 0<fuel) (hi : 4294967296 ≤ i+fuel) :
    ∃ m', copyLoop b dst src fuel i m=some m' := by
  induction fuel generalizing i m with
  | zero => omega
  | succ fuel ih =>
    have hlt : blockSize m b<4294967296 := load32_lt m b
    rw [copyLoop]
    by_cases hmore : i<blockSize m b
    · rw [if_pos hmore]
      exact ih (by omega) (by omega)
    · rw [if_neg hmore]
      exact ⟨m,rfl⟩

theorem moveBlock_returns (s : Process) {n : Nat} (hn : n≠0) : ∃ t, moveBlock p n s=some (n,t) ∧ t.brk=s.brk := by
  obtain ⟨m',hcopy⟩ : ∃ m', copyLoop (sub32 p blockHeader) n p copyFuel 0 s.mem=some m' :=
    copyLoop_returns (by decide) (by decide)
  rw [moveBlock,if_neg hn,hcopy]
  refine ⟨_,rfl,?_⟩
  rw [free]
  split_ifs
  · rfl
  · rfl

theorem zeroBytes_spec {total : Nat} (hp : p+total≤4294967296) (x : Nat) :
    zeroBytes p total m x=if p≤x ∧ x<p+total then 0 else m x := by
  apply upTo_invariant fun k (m' : Mem) => m' x=if p≤x ∧ x<p+k then 0 else m x
  · rw [if_neg (by omega)]
  · intro k m' hk hm'
    rw [store8,u32_of_lt (by omega),hm']
    by_cases hx : x=p+k
    · rw [if_pos hx,if_pos (by omega)]
    · rw [if_neg hx]
      exact if_congr (by omega) rfl rfl

end MyKernel.Malloc
