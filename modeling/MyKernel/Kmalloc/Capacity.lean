import MyKernel.Kmalloc.Heap

/-! The room behind a pointer that `kmalloc` returns. -/
namespace MyKernel.Kmalloc
open Memory Tiling Runs

variable {s : Client} {n p : Nat} {h : Heap} {c : Cell} {cs : List Cell}

def Apart (a k b l : Nat) : Prop := a+k≤b ∨ b+l≤a

/-- If `kmalloc n` returns a pointer, the `n` bytes behind it lie in the window, off every header and every other
payload. -/
def GivesCapacity (s : Client) (n : Nat) : Prop :=
  ∀ p h, kmalloc s.heap n=some (p,h) → p≠0 →
    0x200000≤p ∧ p+n≤0x300000 ∧
    (∀ cs, BlockList h cs → ∀ c∈cs, Apart p n c.addr blockHeader) ∧
    ∀ q∈s.live, Apart p n q (blockSize h.mem (sub32 q blockHeader))

theorem payload_off_header {lo hi : Nat} {d : Cell} (ht : Tiles 12 lo hi cs) (hc : c∈cs)
    (hd : d∈cs) (hn : n≤c.size) : Apart (c.addr+12) n d.addr 12 := by
  simp only [Apart]
  obtain rfl | h | h := ht.separated hc hd
  · omega
  · omega
  · omega

theorem payload_off_payload {lo hi : Nat} {d : Cell} (ht : Tiles 12 lo hi cs) (hc : c∈cs)
    (hd : d∈cs) (hne : c.addr≠d.addr) (hn : n≤c.size) : Apart (c.addr+12) n (d.addr+12) d.size := by
  simp only [Apart]
  obtain rfl | h | h := ht.separated hc hd
  · exact absurd rfl hne
  · omega
  · omega

theorem givesCapacity_of_le (hi : ClientInv s cs) (h0 : n≠0) (hn : n≤0xFFFFFFF8) : GivesCapacity s n := by
  intro p h hk hp
  obtain ⟨_,he⟩ | ⟨pre,c,post,h',rfl,hf,_,he,hi',_⟩ := kmalloc_spec hi.1 h0
  · rw [hk] at he
    cases he
    exact absurd rfl hp
  · rw [hk] at he
    cases he
    have hin := @allocated_mem c pre post (alignUp n)
    have hb := hi'.bounds hin
    have hsz := allocated_size hf
    have hle := le_alignUp hn
    rw [allocated_addr] at hb
    have haddr := allocated_addr (alignUp n) c
    refine ⟨by omega,by omega,?_,?_⟩
    · intro cs' hcs' d hd
      rw [hcs'.unique hi'.blockList] at hd
      have := @payload_off_header n _ _ _ _ _ hi'.tiles hin hd (by omega)
      rwa [haddr] at this
    · intro q hq
      obtain ⟨d,hd,hu,rfl⟩ := mem_pointers.mp ((hi.2 q).mp hq)
      have hne : d.addr≠c.addr := by
        intro hda
        have := hi.1.tiles.addr_inj (by decide) hd (by simp) hda
        rw [this,hf.1] at hu
        simp at hu
      -- the block of `q` keeps its header, since only the cell of `c` was cut
      have hd' : d∈pre++(allocCells (alignUp n) c++post) := by
        have : d≠c := fun h => hne (by rw [h])
        simp only [List.mem_append,List.mem_cons] at hd ⊢
        tauto
      rw [hi'.blockOf hd',(hi'.header hd').1]
      have := @payload_off_payload n _ _ _ _ _ hi'.tiles hin hd' (by omega) (by omega)
      rwa [haddr] at this

/-- A wrapped request takes the first free cell, whatever its size. -/
theorem kmalloc_wrapped (hi : HeapInv h cs) (hn : 0xFFFFFFF8<n) (hlt : n<4294967296)
    (hc : c∈cs) (hf : c.free=true) : ∃ p h', kmalloc h n=some (p,h') ∧ p≠0 := by
  have ha := alignUp_of_gt hn hlt
  obtain ⟨hnone,_⟩ | ⟨pre,d,post,h',_,_,_,he,_,_⟩ :=
    kmalloc_spec hi (show n≠0 by omega)
  · exact absurd ⟨hf,by omega⟩ (hnone c hc)
  · exact ⟨_,h',he,by omega⟩

theorem kmalloc_full (hi : HeapInv h cs) (h0 : n≠0) (hfull : ∀ c∈cs, c.free=false) : kmalloc h n=some (0,h) := by
  obtain ⟨_,he⟩ | ⟨pre,d,post,_,rfl,hf,_,_,_,_⟩ := kmalloc_spec hi h0
  · exact he
  · have := hfull d (by simp)
    rw [hf.1] at this
    simp at this

/-- Exactly the requests that do not wrap get their room, unless no block is
free at all. -/
theorem kmalloc_capacity_iff (s : Client) (n : Nat) (hr : HeapReachable s) (h1 : 1≤n)
    (hlt : n<4294967296) :
    GivesCapacity s n ↔
      n≤0xFFFFFFF8 ∨ ∀ cs, BlockList s.heap cs → ∀ c∈cs, c.free=false := by
  obtain ⟨cs,hi⟩ := heapReachable_inv hr
  constructor
  · intro hg
    by_cases hn : n≤0xFFFFFFF8
    · exact Or.inl hn
    · refine Or.inr ?_
      intro cs' hcs' c hc
      rw [hcs'.unique hi.1.blockList] at hc
      cases hf : c.free with
      | false => rfl
      | true =>
        obtain ⟨p,h',he,hp⟩ := kmalloc_wrapped hi.1 (by omega) hlt hc hf
        have := (hg p h' he hp).2.1
        omega
  · rintro (hn | hfull)
    · exact givesCapacity_of_le hi (by omega) hn
    · intro p h' he hp
      rw [kmalloc_full hi.1 (by omega) (hfull cs hi.1.blockList)] at he
      cases he
      exact absurd rfl hp

theorem bootClient_reachable : HeapReachable bootClient := .init ⟨_,rfl⟩

theorem kmalloc_capacity_hundred : HeapReachable bootClient ∧ GivesCapacity bootClient 100 :=
  ⟨bootClient_reachable,
    (kmalloc_capacity_iff bootClient 100 bootClient_reachable (by decide) (by decide)).mpr
      (Or.inl (by decide))⟩

/-- Fresh heap, request 0xFFFFFFFF: a pointer comes back with no room behind it. -/
theorem kmalloc_capacity_fails :
    ¬∀ s n, HeapReachable s → 1≤n → n<4294967296 → GivesCapacity s n := by
  intro hall
  have hg := hall bootClient 0xFFFFFFFF bootClient_reachable (by decide) (by decide)
  obtain ⟨p,h,he,hp⟩ := @kmalloc_wrapped 0xFFFFFFFF bootClient.heap _ _
    (kmallocInit_inv fun _ => 0) (by decide) (by decide) (List.mem_singleton.mpr rfl) rfl
  have hend := (hg p h he hp).2.1
  omega

/-- There is room for a header and `size` bytes between the blocks held. -/
def Gap (s : Client) (size : Nat) : Prop :=
  ∃ a, 0x200000≤a ∧ a+(12+size)≤0x300000 ∧
    ∀ p∈s.live, Apart a (12+size) (p-12) (12+blockSize s.heap.mem (p-12))

theorem gap_iff {size : Nat} (hi : ClientInv s cs) : Gap s size ↔ ∃ c∈cs, Fits size c := by
  obtain ⟨hi,hlive⟩ := hi
  constructor
  · rintro ⟨a,hlo,hhi,hoff⟩
    obtain ⟨c,hc,hfree,ha,hb⟩ := hi.separated.covers hi.tiles (by decide) hlo hhi (by omega) fun d hd hused => by
      have happ := hoff _ ((hlive _).mpr (mem_pointers.mpr ⟨d,hd,hused,rfl⟩))
      rwa [Nat.add_sub_cancel,(hi.header hd).1,Apart,← Nat.add_assoc d.addr] at happ
    unfold blockHeader at hb
    exact ⟨c,hc,hfree,by omega⟩
  · rintro ⟨c,hc,hfree,hsize⟩
    have hb := hi.bounds hc
    refine ⟨c.addr,hb.1,by omega,fun p hp => ?_⟩
    obtain ⟨d,hd,hused,rfl⟩ := mem_pointers.mp ((hlive p).mp hp)
    rw [Nat.add_sub_cancel,(hi.header hd).1,Apart]
    obtain rfl | h | h := hi.tiles.separated hc hd
    · simp [hfree] at hused
    all_goals
      unfold blockHeader at h
      omega

/-- First fit with merging refuses a request exactly if no gap is large enough. -/
theorem kmalloc_refuses_iff (hr : HeapReachable s) (hn : n≠0) :
    kmalloc s.heap n=some (0,s.heap) ↔ ¬Gap s (alignUp n) := by
  obtain ⟨cs,hi⟩ := heapReachable_inv hr
  rw [gap_iff hi]
  obtain ⟨hnone,he⟩ | ⟨pre,c,post,h',rfl,hf,_,he,_,_⟩ := kmalloc_spec hi.1 hn
  · exact ⟨fun _ ⟨c,hc,hf⟩ => hnone c hc hf,fun _ => he⟩
  · rw [he]
    exact ⟨fun h0 => by simp at h0,fun h0 => absurd ⟨c,by simp,hf⟩ h0⟩

theorem kmalloc_refuses_whole : kmalloc bootClient.heap 0x100000=some (0,bootClient.heap) := by
  refine (kmalloc_refuses_iff bootClient_reachable (by decide)).mpr ?_
  rintro ⟨a,hlo,hhi,_⟩
  rw [show alignUp 0x100000=0x100000 by decide] at hhi
  omega

end MyKernel.Kmalloc
