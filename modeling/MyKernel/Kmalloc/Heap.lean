import MyKernel.Lib.Runs
import MyKernel.Kmalloc.Free

/-! Whole runs of the kernel heap, by clients that use only pointers they hold. -/
namespace MyKernel.Kmalloc
open Memory Tiling Runs

/-- The heap with the pointers handed out and not yet given back. -/
structure Client where
  heap : Heap
  live : List Nat

inductive Call where
  | kmalloc (n : Nat)
  | kfree (p : Nat)
  | krealloc (p n : Nat)
  | write (a : Nat) (v : UInt8)

variable {s t : Client} {n p : Nat} {h : Heap} {c : Cell} {cs : List Cell}

def Allowed (s : Client) : Call → Prop
  | .kmalloc n => n<4294967296
  | .kfree p => p=0 ∨ p∈s.live
  | .krealloc p n => (p=0 ∨ p∈s.live) ∧ n≤0xFFFFFFF8
  | .write a _ => ∃ p∈s.live, p≤a ∧ a<p+blockSize s.heap.mem (sub32 p blockHeader)

def granted (live : List Nat) (p : Nat) : List Nat := if p=0 then live else p::live
def dropped (live : List Nat) (p : Nat) : List Nat := live.filter (fun q => q≠p)

/-- `none` is a walk along the block list that does not end. -/
def Client.call (s : Client) : Call → Option Client
  | .kmalloc n => (kmalloc s.heap n).map fun (p,h) => ⟨h,granted s.live p⟩
  | .kfree p => (kfree s.heap p).map fun h => ⟨h,dropped s.live p⟩
  | .krealloc p n => (krealloc s.heap p n).map fun (q,h) =>
      if n=0 ∨ q≠0 then ⟨h,granted (dropped s.live p) q⟩ else ⟨h,s.live⟩
  | .write a v => some ⟨{ s.heap with mem := store8 s.heap.mem a v },s.live⟩

def Booted (s : Client) : Prop := ∃ m, s=⟨kmallocInit m,[]⟩
def Stepped (s : Client) (k : Call) (t : Client) : Prop := Allowed s k ∧ s.call k=some t
def HeapReachable : Client → Prop := Reachable Booted Stepped

def BlockList (h : Heap) (cs : List Cell) : Prop :=
  (∀ c∈cs, c.addr≠0) ∧ Seg h.mem h.head cs 0

theorem BlockList.unique {cs' : List Cell} (h1 : BlockList h cs) (h2 : BlockList h cs') :
    cs=cs' := h1.2.unique h2.2 h1.1 h2.1

theorem HeapInv.blockList (hi : HeapInv h cs) : BlockList h cs := by
  refine ⟨?_,by rw [hi.head]; exact hi.seg⟩
  intro c hc
  have := hi.bounds hc
  omega

def ClientInv (s : Client) (cs : List Cell) : Prop :=
  HeapInv s.heap cs ∧ ∀ p, p∈s.live ↔ p∈pointers cs

theorem mem_granted {live : List Nat} {q : Nat} (hp : p≠0) : q∈granted live p ↔ q=p ∨ q∈live := by
  simp [granted,hp]

theorem mem_dropped {live : List Nat} {q : Nat} : q∈dropped live p ↔ q∈live ∧ q≠p := by
  simp [dropped]

theorem zero_not_pointer : 0∉pointers cs := by
  intro h0
  obtain ⟨c,_,_,he⟩ := mem_pointers.mp h0
  omega

theorem kmalloc_call (hi : ClientInv s cs) (n : Nat) :
    ∃ p h cs', kmalloc s.heap n=some (p,h) ∧ ClientInv ⟨h,granted s.live p⟩ cs' := by
  by_cases hn : n=0
  · exact ⟨0,s.heap,cs,by simp [kmalloc,hn],hi.1,by simpa [granted] using hi.2⟩
  · obtain ⟨_,he⟩ | ⟨pre,c,post,h',rfl,hf,_,he,hi',_⟩ := kmalloc_spec hi.1 hn
    · exact ⟨0,s.heap,cs,he,hi.1,by simpa [granted] using hi.2⟩
    · refine ⟨_,h',_,he,hi',?_⟩
      intro q
      rw [mem_granted (by omega),mem_pointers_alloc hf.1,hi.2]

theorem kfree_call (hi : ClientInv s cs) (hp : p=0 ∨ p∈s.live) :
    ∃ h cs', kfree s.heap p=some h ∧ ClientInv ⟨h,dropped s.live p⟩ cs' := by
  obtain rfl | hp := hp
  · refine ⟨s.heap,cs,by simp [kfree],hi.1,?_⟩
    intro q
    rw [mem_dropped,hi.2]
    exact and_iff_left_of_imp (fun hq h0 => zero_not_pointer (h0 ▸ hq))
  · obtain ⟨c,hc,hu,rfl⟩ := mem_pointers.mp ((hi.2 p).mp hp)
    obtain ⟨pre,post,rfl⟩ := List.append_of_mem hc
    obtain ⟨h',he,hi',_⟩ := kfree_spec hi.1 hu
    refine ⟨h',_,he,hi',?_⟩
    intro q
    rw [mem_dropped,mem_pointers_free hi.1.tiles hu,hi.2]

theorem krealloc_call (hi : ClientInv s cs) (hp : p=0 ∨ p∈s.live) (hn : n≤0xFFFFFFF8) :
    ∃ t cs', s.call (.krealloc p n)=some t ∧ ClientInv t cs' := by
  obtain rfl | hp := hp
  · obtain ⟨q,h,cs',he,hi'⟩ := kmalloc_call hi n
    have hd : dropped s.live 0=s.live := by
      simp only [dropped,List.filter_eq_self]
      intro q hq
      have : q≠0 := fun h0 => zero_not_pointer (h0 ▸ (hi.2 q).mp hq)
      simpa using this
    refine ⟨⟨h,granted s.live q⟩,cs',?_,hi'⟩
    simp only [Client.call,krealloc,if_true,he,Option.map_some,hd]
    by_cases hq : q=0 <;> simp [hq,granted]
  · by_cases h0 : n=0
    · obtain ⟨h,cs',he,hi'⟩ := kfree_call hi (Or.inr hp)
      have hp0 : p≠0 := fun h => zero_not_pointer (h ▸ (hi.2 p).mp hp)
      refine ⟨⟨h,dropped s.live p⟩,cs',?_,hi'⟩
      simp [Client.call,krealloc,hp0,h0,he,granted]
    · obtain ⟨c,hc,hu,rfl⟩ := mem_pointers.mp ((hi.2 p).mp hp)
      obtain he | he | ⟨q,h',cs',he,hi',hq,hmem⟩ := krealloc_spec hi.1 hc hu h0 hn
      · -- the block is large enough already: the same pointer comes back
        refine ⟨⟨s.heap,granted (dropped s.live (c.addr+12)) (c.addr+12)⟩,cs,
          by simp [Client.call,he],hi.1,?_⟩
        intro q
        rw [mem_granted (by omega),mem_dropped,← hi.2]
        by_cases hqc : q=c.addr+12
        · simp [hqc,hp]
        · simp [hqc]
      · exact ⟨⟨s.heap,s.live⟩,cs,by simp [Client.call,he,h0],hi⟩
      · refine ⟨⟨h',granted (dropped s.live (c.addr+12)) q⟩,cs',by simp [Client.call,he,hq],
          hi',?_⟩
        intro r
        rw [mem_granted hq,mem_dropped,hmem,hi.2]

theorem call_inv (hi : ClientInv s cs) {k : Call} (hk : Allowed s k) :
    ∃ t cs', s.call k=some t ∧ ClientInv t cs' := by
  cases k with
  | kmalloc n =>
    obtain ⟨p,h,cs',he,hi'⟩ := kmalloc_call hi n
    exact ⟨_,cs',by simp [Client.call,he],hi'⟩
  | kfree p =>
    obtain ⟨h,cs',he,hi'⟩ := kfree_call hi hk
    exact ⟨_,cs',by simp [Client.call,he],hi'⟩
  | krealloc p n => exact krealloc_call hi hk.1 hk.2
  | write a v =>
    obtain ⟨p,hp,ha,hb⟩ := hk
    obtain ⟨c,hc,hu,rfl⟩ := mem_pointers.mp ((hi.2 p).mp hp)
    have hbd := hi.1.bounds hc
    rw [hi.1.blockOf hc,(hi.1.header hc).1] at hb
    refine ⟨_,cs,rfl,hi.1.write_payload hc ?_,hi.2⟩
    intro x hx
    apply store8_of_ne
    rw [u32_of_lt (by omega)]
    omega

theorem heapReachable_inv (hr : HeapReachable s) : ∃ cs, ClientInv s cs := by
  refine hr.invariant (fun s => ∃ cs, ClientInv s cs) ?_ ?_
  · rintro s ⟨m,rfl⟩
    exact ⟨_,kmallocInit_inv m,by simp [pointers,usedCells]⟩
  · rintro s k t ⟨cs,hi⟩ ⟨hk,ht⟩
    obtain ⟨t',cs',he,hi'⟩ := call_inv hi hk
    rw [ht] at he
    cases he
    exact ⟨cs',hi'⟩

theorem freeBytesLoop_spec (m : Mem) {b : Nat} (hs : Seg m b cs 0) (hpos : ∀ c∈cs, c.addr≠0)
    {fuel f : Nat} (hfuel : cs.length<fuel) (hf : f+freeBytes cs<4294967296) :
    freeBytesLoop m fuel b f=some (f+freeBytes cs) := by
  induction cs generalizing b fuel f with
  | nil =>
    cases fuel with
    | zero => simp at hfuel
    | succ fuel =>
      have hb : b=0 := hs
      simp [freeBytesLoop,hb,freeBytes]
  | cons c cs ih =>
    cases fuel with
    | zero => simp at hfuel
    | succ fuel =>
      obtain ⟨hb,⟨hsz,hfr⟩,ht⟩ := hs
      subst hb
      have hc0 := hpos c (by simp)
      have hrest := fun e he => hpos e (List.mem_cons_of_mem c he)
      simp only [freeBytes] at hf ih ⊢
      rw [freeBytesLoop,if_neg hc0]
      cases hcf : c.free with
      | true =>
        simp only [hcf,if_true] at hf ⊢
        rw [if_pos (hfr.mpr hcf),hsz,u32_of_lt (by omega),
          ih ht hrest (by simpa using hfuel) (by omega)]
        congr 1
        omega
      | false =>
        simp only [hcf,Bool.false_eq_true,if_false,Nat.zero_add] at hf ⊢
        rw [if_neg (by rw [hfr,hcf]; simp)]
        exact ih ht hrest (by simpa using hfuel) hf

theorem kmallocStats_spec (hi : HeapInv h cs) : kmallocStats h=some ⟨usedBytes cs,KHEAP_SIZE,freeBytes cs⟩ := by
  have ht := hi.tiles.total
  simp only [KHEAP_START,KHEAP_SIZE] at ht
  have hb := hi.blockList
  simp only [kmallocStats,hi.used]
  rw [freeBytesLoop_spec h.mem hb.2 hb.1 hi.length_lt (by omega)]
  simp

theorem HeapInv.initial_of_unused (hi : HeapInv h cs) (hu : usedCells cs=[]) :
    cs=[⟨KHEAP_START,KHEAP_SIZE - blockHeader,true⟩] := by
  have hlen := hi.separated.length_le_one hu
  have ht := hi.tiles
  match cs with
  | [] => simp [Tiles,KHEAP_SIZE] at ht
  | [c] =>
    obtain ⟨ha,hs⟩ := ht
    have hs' : c.addr+blockHeader+c.size=KHEAP_START+KHEAP_SIZE := hs
    have hf : c.free=true := by
      simpa [usedCells] using hu
    cases c
    simp only [KHEAP_START,KHEAP_SIZE,blockHeader] at *
    simp only [List.cons.injEq,Cell.mk.injEq,and_true]
    exact ⟨ha,by omega,hf⟩
  | _::_::_ => simp at hlen

/-- In every state of every run the block list tiles the heap window, has no two
free neighbours and accounts for every byte; a client without pointers finds
the initial heap again; and every allowed call returns. -/
theorem kernel_heap_invariant (s : Client) (hr : HeapReachable s) :
    ∃ cs, BlockList s.heap cs ∧ Tiles blockHeader 0x200000 0x300000 cs ∧ NoAdjacentFree cs ∧
      s.heap.heapUsed=usedBytes cs ∧
      (∃ st, kmallocStats s.heap=some st ∧ st.used=s.heap.heapUsed ∧
        st.freeBytes=freeBytes cs ∧ st.used+st.freeBytes+12*cs.length=0x100000) ∧
      (s.live=[] → cs=[⟨0x200000,0x100000 - 12,true⟩]) ∧
      ∀ k, Allowed s k → ∃ t, s.call k=some t := by
  obtain ⟨cs,hi,hl⟩ := heapReachable_inv hr
  have ht := hi.tiles.total
  simp only [KHEAP_START,KHEAP_SIZE,blockHeader] at ht
  refine ⟨cs,hi.blockList,hi.tiles,hi.separated,hi.used,⟨_,kmallocStats_spec hi,?_,rfl,?_⟩,
    ?_,?_⟩
  · exact hi.used.symm
  · simp only
    omega
  · intro hnone
    refine hi.initial_of_unused ?_
    have hp : pointers cs=[] := by
      refine List.eq_nil_iff_forall_not_mem.mpr ?_
      intro p hp
      have := (hl p).mpr hp
      rw [hnone] at this
      simp at this
    simpa [pointers] using hp
  · intro k hk
    obtain ⟨t,_,he,_⟩ := call_inv ⟨hi,hl⟩ hk
    exact ⟨t,he⟩

def bootClient : Client := ⟨kmallocInit (fun _ => 0),[]⟩

/-- One block of 104 bytes is out and the rest of the window is one free block. -/
theorem kernel_heap_invariant_one_block :
    ∃ s, bootClient.call (.kmalloc 100)=some s ∧ s.live=[0x20000C] ∧ HeapReachable s ∧
      ∃ cs, BlockList s.heap cs ∧ Tiles blockHeader 0x200000 0x300000 cs ∧ NoAdjacentFree cs ∧
        s.heap.heapUsed=usedBytes cs ∧
        (∃ st, kmallocStats s.heap=some st ∧ st.used=s.heap.heapUsed ∧
          st.freeBytes=freeBytes cs ∧ st.used+st.freeBytes+12*cs.length=0x100000) ∧
        (s.live=[] → cs=[⟨0x200000,0x100000 - 12,true⟩]) ∧
        ∀ k, Allowed s k → ∃ t, s.call k=some t := by
  obtain ⟨s,hs,hl⟩ : ∃ s, bootClient.call (.kmalloc 100)=some s ∧ s.live=[0x20000C] :=
    ⟨_,rfl,rfl⟩
  have hr : HeapReachable s :=
    .next (.kmalloc 100) (.init ⟨_,rfl⟩) ⟨by simp [Allowed],hs⟩
  exact ⟨s,hs,hl,hr,kernel_heap_invariant s hr⟩

end MyKernel.Kmalloc
