import MyKernel.Kmalloc.Heap

/-! What `krealloc` does to the bytes that clients hold. -/
namespace MyKernel.Kmalloc
open Memory Tiling Runs

variable {s : Client} {h h' : Heap} {n p q : Nat} {c d : Cell} {cs cs' : List Cell}

def payload (h : Heap) (p : Nat) : List UInt8 :=
  (List.range (blockSize h.mem (sub32 p blockHeader))).map fun i => load8 h.mem (p+i)

theorem HeapInv.payload_cell (hi : HeapInv h cs) (hc : c∈cs) :
    payload h (c.addr+12)=(List.range c.size).map fun i => h.mem (c.addr+12+i) := by
  have hb := hi.bounds hc
  rw [payload,hi.blockOf hc,(hi.header hc).1]
  apply List.map_congr_left
  intro i hlt
  rw [load8,u32_of_lt (by have := List.mem_range.mp hlt; omega)]

/-- The result of `krealloc p n` and the heap it leaves. -/
structure KeepsContents (h : Heap) (cs : List Cell) (p n q : Nat) (h' : Heap) : Prop where
  success : q≠0 → ∃ cs', BlockList h' cs' ∧ q∈pointers cs' ∧
    (payload h' q).take (min (payload h p).length n)=(payload h p).take (min (payload h p).length n) ∧
    n≤(payload h' q).length ∧
    (∀ r, r∈pointers cs → r≠p → r∈pointers cs' ∧ payload h' r=payload h r) ∧
    (p∈pointers cs' → q=p)
  failure : q=0 → BlockList h' cs ∧ payload h' p=payload h p

theorem keepsContents_same (hi : HeapInv h cs) (hp : p∈pointers cs) (hn : n≤(payload h p).length) :
    KeepsContents h cs p n p h where
  success _ := ⟨cs,hi.blockList,hp,rfl,hn,fun _ hr _ => ⟨hr,rfl⟩, fun _ => rfl⟩
  failure _ := ⟨hi.blockList,rfl⟩

theorem keepsContents_failed (hi : HeapInv h cs) : KeepsContents h cs p n 0 h where
  success h0 := absurd rfl h0
  failure _ := ⟨hi.blockList,rfl⟩

theorem Moved.payload_kept (hm : Moved h h' cs cs' c d n) (hi : HeapInv h cs) {r : Cell} (hr : r∈usedCells cs)
    (hne : r≠c) : payload h' (r.addr+12)=payload h (r.addr+12) := by
  have hr' := (hm.cells r).mpr (.inr ⟨hr,hne⟩)
  rw [hm.inv.payload_cell (mem_usedCells.mp hr').1,hi.payload_cell (mem_usedCells.mp hr).1]
  apply List.map_congr_left
  intro i hlt
  exact hm.kept r hr hne i (List.mem_range.mp hlt)

theorem keepsContents_moved (hi : HeapInv h cs) (hc : c∈cs) (hm : Moved h h' cs cs' c d n) :
    KeepsContents h cs (c.addr+12) n (d.addr+12) h' where
  failure h0 := absurd h0 (by omega)
  success _ := by
    have hd := mem_usedCells.mp ((hm.cells d).mpr (.inl rfl))
    have hmoved := hm.moved
    have hroom := hm.room
    have hold := hi.payload_cell hc
    have hnew := hm.inv.payload_cell hd.1
    refine ⟨cs',hm.inv.blockList,mem_pointers.mpr ⟨d,hd.1,hd.2,rfl⟩,?_,?_,?_,?_⟩
    · -- the old block is the shorter one
      rw [hold,hnew,List.length_map,List.length_range,Nat.min_eq_left (Nat.le_of_lt hmoved),← List.map_take,
        ← List.map_take,List.take_range,List.take_range,Nat.min_self,Nat.min_eq_left (by omega)]
      apply List.map_congr_left
      intro i hlt
      exact hm.copied i (List.mem_range.mp hlt)
    · rw [hnew,List.length_map,List.length_range]
      exact hroom
    · intro r hr hne
      obtain ⟨e,he,rfl⟩ := List.mem_map.mp hr
      have hec : e≠c := by
        rintro rfl
        exact hne rfl
      exact ⟨List.mem_map.mpr ⟨e,(hm.cells e).mpr (.inr ⟨he,hec⟩),rfl⟩,hm.payload_kept hi he hec⟩
    · intro hp
      obtain ⟨e,he,hec⟩ := List.mem_map.mp hp
      rcases (hm.cells e).mp he with rfl | ⟨hused,hne⟩
      · exact hec
      · exact absurd (hi.tiles.addr_inj (by decide) (mem_usedCells.mp hused).1 hc (by omega)) hne

/-- `krealloc` of a live pointer returns, and keeps what clients hold. -/
theorem krealloc_keeps_contents (s : Client) (hr : HeapReachable s) (p : Nat) (hp : p∈s.live) (n : Nat) (h1 : 1≤n)
    (hn : n≤0xFFFFFFF8) :
    ∃ cs q h', BlockList s.heap cs ∧ (∀ r, r∈s.live ↔ r∈pointers cs) ∧ krealloc s.heap p n=some (q,h') ∧
      KeepsContents s.heap cs p n q h' := by
  obtain ⟨cs,hi,hlive⟩ := heapReachable_inv hr
  have hpc := (hlive p).mp hp
  obtain ⟨c,hc,hu,rfl⟩ := mem_pointers.mp hpc
  rcases krealloc_cases hi hc hu (by omega) hn with ⟨hsize,he⟩ | he | ⟨d,h',cs',he,hm⟩
  · refine ⟨cs,_,_,hi.blockList,hlive,he,keepsContents_same hi hpc ?_⟩
    rw [hi.payload_cell hc,List.length_map,List.length_range]
    exact hsize
  · exact ⟨cs,_,_,hi.blockList,hlive,he,keepsContents_failed hi⟩
  · exact ⟨cs,_,_,hi.blockList,hlive,he,keepsContents_moved hi hc hm⟩

/-- A block of 8 bytes that grows to 16. -/
theorem krealloc_keeps_contents_grown :
    ∃ s, bootClient.call (.kmalloc 8)=some s ∧ ∃ cs q h', BlockList s.heap cs ∧ (∀ r, r∈s.live ↔ r∈pointers cs) ∧
      krealloc s.heap 0x20000C 16=some (q,h') ∧ KeepsContents s.heap cs 0x20000C 16 q h' := by
  obtain ⟨s,hs,hl⟩ : ∃ s, bootClient.call (.kmalloc 8)=some s ∧ s.live=[0x20000C] := ⟨_,rfl,rfl⟩
  have hr : HeapReachable s := .next (.kmalloc 8) (.init ⟨_,rfl⟩) ⟨by simp [Allowed],hs⟩
  exact ⟨s,hs,krealloc_keeps_contents s hr 0x20000C (by simp [hl]) 16 (by decide) (by decide)⟩

end MyKernel.Kmalloc
