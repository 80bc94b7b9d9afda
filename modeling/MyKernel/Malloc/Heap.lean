import MyKernel.Lib.Traces
import MyKernel.Malloc.Blocks

/-! Programs that use the heap: when their blocks lie apart. -/
namespace MyKernel.Malloc
open Memory Syscall Tiling Traces
open Kmalloc (blockHeader)

variable {s t : Process} {c : Client} {cs cs' : List Cell} {d e : Cell} {live : List (Nat × Nat)} {p n : Nat}

/-- Every block held is inside the heap, disjoint from headers and other blocks, and zero after a `calloc`. -/
structure HeapOk (c : Client) : Prop where
  inside : ∀ p n, (p,n)∈c.live → USER_HEAP_BASE≤p ∧ p+n≤c.proc.brk
  headers : ∀ p n b, (p,n)∈c.live → b∈c.proc.blocks → p+n≤b ∨ b+blockHeader≤p
  others : c.live.Pairwise fun x y => x.1+x.2≤y.1 ∨ y.1+y.2≤x.1
  zeroed : ∀ p n, c.zeroed=some (p,n) → ∀ i, i<n → c.proc.mem (p+i)=0

/-- The request is for at most 1 MiB, or gets NULL: its size modulo 2^32 is 0 or is refused. -/
def SmallOrRefused (s : Process) (n : Nat) : Prop := n≤0x100000 ∨ u32 n=0 ∨ Refused s (u32 n)

/-- The condition on a call; `n*size` is the product itself. -/
def Client.Modest (c : Client) : Call → Prop
  | .malloc size => SmallOrRefused c.proc size.toNat
  | .calloc n size => SmallOrRefused c.proc (n.toNat*size.toNat)
  | .realloc p size => c.Holds p → SmallOrRefused c.proc size.toNat
  | .free _ => True
  | .store _ _ _ => True

/-- Different used blocks, each large enough. -/
structure LiveIn (live : List (Nat × Nat)) (cs : List Cell) : Prop where
  cell : ∀ p n, (p,n)∈live → ∃ d∈cs, d.free=false ∧ p=d.addr+12 ∧ n≤d.size
  nodup : (live.map Prod.fst).Nodup

theorem LiveIn.mono (h : LiveIn live cs)
    (hcs : ∀ d∈cs, d.free=false → d.addr+12∈live.map Prod.fst → d∈cs') : LiveIn live cs' where
  cell := by
    intro p n hp
    obtain ⟨d,hd,hused,rfl,hn⟩ := h.cell p n hp
    exact ⟨d,hcs d hd hused (List.mem_map_of_mem hp),hused,rfl,hn⟩
  nodup := h.nodup

theorem LiveIn.add (h : LiveIn live cs) (hd : d∈cs) (hused : d.free=false) (hn : n≤d.size)
    (hnew : d.addr+12∉live.map Prod.fst) : LiveIn ((d.addr+12,n)::live) cs where
  cell := by
    intro p k hp
    rcases List.mem_cons.mp hp with he | hp
    · rw [Prod.mk.injEq] at he
      exact ⟨d,hd,hused,he.1,he.2 ▸ hn⟩
    · exact h.cell p k hp
  nodup := List.nodup_cons.mpr ⟨hnew,h.nodup⟩

theorem mem_map_dropped {q : Nat} : q∈(dropped live p).map Prod.fst ↔ q∈live.map Prod.fst ∧ q≠p := by
  simp only [dropped,List.mem_map,List.mem_filter,decide_eq_true_iff]
  constructor
  · rintro ⟨b,⟨hb,hne⟩,rfl⟩
    exact ⟨⟨b,hb,rfl⟩,hne⟩
  · rintro ⟨⟨b,hb,rfl⟩,hne⟩
    exact ⟨b,⟨hb,hne⟩,rfl⟩

theorem LiveIn.dropped (h : LiveIn live cs) (p : Nat) : LiveIn (dropped live p) cs where
  cell := fun q n hq => h.cell q n (List.mem_of_mem_filter hq)
  nodup := h.nodup.sublist (List.filter_sublist.map Prod.fst)

theorem LiveIn.new_of_takes (h : LiveIn live cs) (ht : Takes cs d cs') : d.addr+12∉live.map Prod.fst := by
  intro hmem
  obtain ⟨⟨p,k⟩,hb,hp⟩ := List.mem_map.mp hmem
  obtain ⟨e,he,hused,rfl,_⟩ := h.cell p k hb
  have hne := (ht.keeps e he hused).2
  dsimp only at hp
  omega

theorem LiveIn.takes (h : LiveIn live cs) (ht : Takes cs d cs') : LiveIn live cs' :=
  h.mono fun e he hused _ => (ht.keeps e he hused).1

theorem LiveIn.grant (h : LiveIn live cs) (ht : Takes cs d cs') (hn : n≤d.size) : LiveIn ((d.addr+12,n)::live) cs' :=
  (h.takes ht).add ht.mem ht.used hn (h.new_of_takes ht)

theorem LiveIn.freed (h : LiveIn live cs) (hcs : ∀ e∈cs, e.addr≠d.addr → e∈cs') :
    LiveIn (Malloc.dropped live (d.addr+12)) cs' := by
  apply (h.dropped (d.addr+12)).mono
  intro e he _ hmem
  have hne := (mem_map_dropped.mp hmem).2
  exact hcs e he (by omega)

structure ClientInv (c : Client) (cs : List Cell) : Prop where
  proc : ProcInv c.proc cs
  live : LiveIn c.live cs
  zeroed : ∀ p n, c.zeroed=some (p,n) → ∀ i, i<n → c.proc.mem (p+i)=0

theorem ClientInv.ok (h : ClientInv c cs) : HeapOk c where
  inside := by
    intro p n hp
    obtain ⟨d,hd,_,rfl,hn⟩ := h.live.cell p n hp
    have hb := h.proc.bounds hd
    rw [USER_HEAP_BASE]
    omega
  headers := by
    intro p n b hp hb
    obtain ⟨d,hd,_,rfl,hn⟩ := h.live.cell p n hp
    rw [h.proc.blocks] at hb
    obtain ⟨e,he,rfl⟩ := List.mem_map.mp hb
    rw [blockHeader]
    rcases h.proc.tiles.separated hd he with rfl | hs | hs
    · omega
    · omega
    · omega
  others := by
    apply List.Pairwise.imp_of_mem _ (List.pairwise_map.mp h.live.nodup)
    intro x y hx hy hne
    obtain ⟨d,hd,_,hxd,hn⟩ := h.live.cell x.1 x.2 hx
    obtain ⟨e,he,_,hye,hn'⟩ := h.live.cell y.1 y.2 hy
    rcases h.proc.tiles.separated hd he with rfl | hs | hs
    · exact absurd (hxd.trans hye.symm) hne
    · omega
    · omega
  zeroed := h.zeroed

theorem malloc_modest (h : ProcInv s cs) (hq : SmallOrRefused s n) :
    malloc (u32 n) s=some (0,s) ∨ (u32 n=n ∧ ∃ d t cs', malloc n s=some (d.addr+12,t) ∧
      ProcInv t cs' ∧ Takes cs d cs' ∧ n≤d.size) := by
  by_cases h0 : u32 n=0
  · rw [h0]
    exact .inl rfl
  rcases hq with hsmall | hzero | hr
  · have hn : u32 n=n := u32_of_lt (by omega)
    rw [hn] at h0 ⊢
    exact (malloc_spec h h0 hsmall).imp_right fun hgot => ⟨rfl,hgot⟩
  · exact absurd hzero h0
  · rcases malloc_cases h h0 with ⟨_,he⟩ | ⟨_,_,_,hr',_⟩ | ⟨_,hr',_⟩
    · exact .inl he
    · exact absurd hr hr'
    · exact absurd hr hr'

theorem ClientInv.unzeroed (h : ProcInv s cs) (hlive : LiveIn live cs) : ClientInv ⟨s,live,none⟩ cs :=
  ⟨h,hlive,fun _ _ he => absurd he (by simp)⟩

theorem granted_pos (live : List (Nat × Nat)) (p n : Nat) : granted live (p+12) n=(p+12,n)::live :=
  if_neg (by omega)

theorem u32_toNat (size : UInt32) : u32 size.toNat=size.toNat := u32_of_lt size.toNat_lt

theorem malloc_word (h : ProcInv s cs) {size : UInt32} (hq : SmallOrRefused s size.toNat) :
    malloc size.toNat s=some (0,s) ∨ ∃ d t cs', malloc size.toNat s=some (d.addr+12,t) ∧
      ProcInv t cs' ∧ Takes cs d cs' ∧ size.toNat≤d.size := by
  have hmalloc := malloc_modest h hq
  rw [u32_toNat] at hmalloc
  exact hmalloc.imp_right fun hgot => hgot.2

theorem step_malloc {size : UInt32} (he : malloc size.toNat c.proc=some (p,s)) :
    c.step (.malloc size)=some ⟨s,granted c.live p size.toNat,none⟩ := by
  rw [Client.step,he]
  rfl

theorem step_calloc {k size : UInt32} (he : calloc k.toNat size.toNat c.proc=some (p,s)) :
    c.step (.calloc k size)=some ⟨s,granted c.live p (k.toNat*size.toNat),
      if p=0 then none else some (p,k.toNat*size.toNat)⟩ := by
  rw [Client.step,he]
  rfl

theorem step_realloc {size : UInt32} {q : Nat} (hp : c.Holds p) (he : realloc p size.toNat c.proc=some (q,s)) :
    c.step (.realloc p size)=some ⟨s,c.moved p size.toNat q,none⟩ := by
  rw [Client.step,if_pos hp,he]
  rfl

theorem malloc_step (h : ClientInv c cs) (size : UInt32) (hq : SmallOrRefused c.proc size.toNat) :
    ∃ t cs', c.step (.malloc size)=some t ∧ ClientInv t cs' := by
  rcases malloc_word h.proc hq with he | ⟨d,t,cs',he,ht,htakes,hn⟩
  · exact ⟨_,cs,step_malloc he,.unzeroed h.proc h.live⟩
  · refine ⟨_,cs',step_malloc he,.unzeroed ht ?_⟩
    rw [granted_pos]
    exact h.live.grant htakes hn

theorem calloc_step (h : ClientInv c cs) (k size : UInt32) (hq : SmallOrRefused c.proc (k.toNat*size.toNat)) :
    ∃ t cs', c.step (.calloc k size)=some t ∧ ClientInv t cs' := by
  rcases malloc_modest h.proc hq with he | ⟨hu,d,t,cs',he,ht,htakes,hn⟩
  · have hcalloc : calloc k.toNat size.toNat c.proc=some (0,c.proc) := by
      rw [calloc,he]
      rfl
    exact ⟨_,cs,step_calloc hcalloc,.unzeroed h.proc h.live⟩
  · have hcalloc : calloc k.toNat size.toNat c.proc=some (d.addr+12,
        t.setMem (zeroBytes (d.addr+12) (k.toNat*size.toNat) t.mem)) := by
      rw [calloc,hu,he,Option.map_some]
      dsimp only
      rw [if_neg (by omega)]
    have hb := ht.bounds htakes.mem
    have hzero : ∀ x, zeroBytes (d.addr+12) (k.toNat*size.toNat) t.mem x=_ := zeroBytes_spec (by omega)
    refine ⟨_,cs',step_calloc hcalloc,?_,?_,?_⟩
    · exact ht.write_payload htakes.mem fun x hx => (hzero x).trans (if_neg (by omega))
    · rw [granted_pos]
      exact h.live.grant htakes hn
    · intro p n hp i hi
      rw [if_neg (by omega),Option.some_inj,Prod.mk.injEq] at hp
      rw [← hp.1]
      exact (hzero _).trans (if_pos (by omega))

theorem ClientInv.cell_of_holds (h : ClientInv c cs) (hp : c.Holds p) (h0 : p≠0) :
    ∃ d∈cs, d.free=false ∧ p=d.addr+12 := by
  obtain ⟨⟨q,k⟩,hb,hq⟩ := List.mem_map.mp (hp.resolve_left h0)
  obtain ⟨d,hd,hused,hqd,_⟩ := h.live.cell q k hb
  exact ⟨d,hd,hused,hq.symm.trans hqd⟩

theorem ClientInv.dropped_null (h : ClientInv c cs) : dropped c.live 0=c.live := by
  rw [dropped,List.filter_eq_self]
  intro b hb
  obtain ⟨d,_,_,hp,_⟩ := h.live.cell b.1 b.2 hb
  rw [decide_eq_true_iff]
  omega

theorem free_step (h : ClientInv c cs) (hp : c.Holds p) :
    ∃ cs', ClientInv ⟨free p c.proc,dropped c.live p,none⟩ cs' := by
  by_cases h0 : p=0
  · rw [h0,h.dropped_null]
    exact ⟨cs,.unzeroed h.proc h.live⟩
  · obtain ⟨d,hd,hused,rfl⟩ := h.cell_of_holds hp h0
    obtain ⟨cs',hfree,hkeep⟩ := free_spec h.proc hd
    exact ⟨cs',.unzeroed hfree (h.live.freed hkeep)⟩

theorem moved_null (hn : n≠0) : c.moved p n 0=c.live := by
  rw [Client.moved,if_pos rfl,if_neg hn]

theorem moved_pos (c : Client) (p n q : Nat) : c.moved p n (q+12)=(q+12,n)::dropped c.live p := by
  rw [Client.moved,if_neg (by omega),granted_pos]

theorem realloc_moves {q : Nat} (h : ClientInv c cs) (hd : d∈cs) (h0 : n≠0) (hlt : d.size<n)
    (he : malloc n c.proc=some (q,t)) : realloc (d.addr+12) n c.proc=moveBlock (d.addr+12) q t := by
  rw [realloc,if_neg (by omega),if_neg h0,blockOf h.proc hd,(h.proc.header hd).1,if_neg (by omega),he]
  rfl

theorem realloc_null_step (h : ClientInv c cs) (size : UInt32) (hq : SmallOrRefused c.proc size.toNat) :
    ∃ t cs', c.step (.realloc 0 size)=some t ∧ ClientInv t cs' := by
  rcases malloc_word h.proc hq with he | ⟨d,t,cs',he,ht,htakes,hn⟩
  · refine ⟨_,cs,step_realloc (.inl rfl) he,.unzeroed h.proc ?_⟩
    rw [Client.moved,if_pos rfl,h.dropped_null,ite_self]
    exact h.live
  · refine ⟨_,cs',step_realloc (.inl rfl) he,.unzeroed ht ?_⟩
    rw [moved_pos,h.dropped_null]
    exact h.live.grant htakes hn

theorem realloc_step (h : ClientInv c cs) (size : UInt32) (hp : c.Holds p) (hq : SmallOrRefused c.proc size.toNat) :
    ∃ t cs', c.step (.realloc p size)=some t ∧ ClientInv t cs' := by
  by_cases hnull : p=0
  · rw [hnull]
    exact realloc_null_step h size hq
  obtain ⟨d,hd,hused,rfl⟩ := h.cell_of_holds hp hnull
  by_cases h0 : size.toNat=0
  · obtain ⟨cs',hfree⟩ := free_step h hp
    have he : realloc (d.addr+12) size.toNat c.proc=some (0,free (d.addr+12) c.proc) := by
      rw [realloc,if_neg hnull,if_pos h0]
    refine ⟨_,cs',step_realloc hp he,?_⟩
    rw [Client.moved,if_pos rfl,if_pos h0]
    exact hfree
  by_cases hfits : size.toNat≤d.size
  · have he : realloc (d.addr+12) size.toNat c.proc=some (d.addr+12,c.proc) := by
      rw [realloc,if_neg hnull,if_neg h0,blockOf h.proc hd,(h.proc.header hd).1,if_pos hfits]
    refine ⟨_,cs,step_realloc hp he,.unzeroed h.proc ?_⟩
    rw [moved_pos]
    exact (h.live.dropped _).add hd hused hfits fun hmem => (mem_map_dropped.mp hmem).2 rfl
  rcases malloc_word h.proc hq with he | ⟨e,t,cs',he,ht,htakes,hn⟩
  · refine ⟨_,cs,step_realloc hp (realloc_moves h hd h0 (by omega) he),?_⟩
    rw [moved_null h0]
    exact .unzeroed h.proc h.live
  · obtain ⟨hd',hne⟩ := htakes.keeps d hd hused
    obtain ⟨u,cs'',hmove,hu,hkeep⟩ := moveBlock_spec ht hd' htakes.mem hne (by omega)
    have hmoves := (realloc_moves h hd h0 (by omega) he).trans hmove
    refine ⟨_,cs'',step_realloc hp hmoves,.unzeroed hu ?_⟩
    rw [moved_pos]
    apply ((h.live.takes htakes).freed hkeep).add (hkeep e htakes.mem (Ne.symm hne)) htakes.used hn
    exact fun hmem => h.live.new_of_takes htakes (mem_map_dropped.mp hmem).1

theorem store_step (h : ClientInv c cs) {i : Nat} (v : UInt8) (hp : (p,n)∈c.live) (hi : i<n) :
    ClientInv ⟨c.proc.setMem (store8 c.proc.mem (p+i) v),c.live,none⟩ cs := by
  obtain ⟨d,hd,_,rfl,hn⟩ := h.live.cell p n hp
  have hb := h.proc.bounds hd
  apply ClientInv.unzeroed _ h.live
  apply h.proc.write_payload hd
  intro x hx
  apply store8_of_ne
  rw [u32_of_lt (by omega)]
  omega

/-- One lemma for all calls: what meets the condition keeps the invariant. -/
theorem step_keeps {k : Call} {u : Client} (h : ClientInv c cs) (hq : c.Modest k) (hu : c.step k=some u) :
    ∃ cs', ClientInv u cs' := by
  have hdone : (∃ t cs', c.step k=some t ∧ ClientInv t cs') → ∃ cs', ClientInv u cs' := by
    rintro ⟨t,cs',ht,hinv⟩
    rw [hu,Option.some_inj] at ht
    exact ⟨cs',ht ▸ hinv⟩
  cases k with
  | malloc size => exact hdone (malloc_step h size hq)
  | calloc n size => exact hdone (calloc_step h n size hq)
  | realloc p size =>
    by_cases hp : c.Holds p
    · exact hdone (realloc_step h size hp (hq hp))
    · simp [Client.step,hp] at hu
  | free p =>
    by_cases hp : c.Holds p
    · obtain ⟨cs',hfree⟩ := free_step h hp
      rw [Client.step,if_pos hp,Option.some_inj] at hu
      exact ⟨cs',hu ▸ hfree⟩
    · simp [Client.step,hp] at hu
  | store p i v =>
    by_cases hp : ∃ b∈c.live, b.1=p ∧ i<b.2
    · rw [Client.step,if_pos hp,Option.some_inj] at hu
      obtain ⟨⟨q,n⟩,hb,rfl,hi⟩ := hp
      exact ⟨cs,hu ▸ store_step h v hb hi⟩
    · simp [Client.step,hp] at hu

theorem not_ok_of_large (hbrk : c.proc.brk≤USER_HEAP_MAX) (hp : (p,n)∈c.live) (hn : 0x100000<n) : ¬ HeapOk c := by
  intro hok
  have hin := hok.inside p n hp
  rw [USER_HEAP_BASE] at hin
  rw [USER_HEAP_MAX] at hbrk
  omega

theorem malloc_immodest (h : ProcInv s cs) (hq : ¬ SmallOrRefused s n) :
    0x100000<n ∧ ∃ p t, malloc (u32 n) s=some (p,t) ∧ p≠0 ∧ t.brk≤USER_HEAP_MAX := by
  have hlarge : ¬ n≤0x100000 := fun hn => hq (.inl hn)
  have h0 : u32 n≠0 := fun he => hq (.inr (.inl he))
  exact ⟨by omega,malloc_granted h h0 fun hr => hq (.inr (.inr hr))⟩

theorem mem_granted (live : List (Nat × Nat)) (hp : p≠0) : (p,n)∈granted live p n := by
  simp [granted,hp]

theorem realloc_immodest (h : ClientInv c cs) (hp : c.Holds p) (hlarge : 0x100000<n)
    (he : ∃ q t, malloc n c.proc=some (q,t) ∧ q≠0 ∧ t.brk≤USER_HEAP_MAX) :
    ∃ q t, realloc p n c.proc=some (q,t) ∧ q≠0 ∧ t.brk≤USER_HEAP_MAX := by
  by_cases hnull : p=0
  · rw [hnull]
    exact he
  obtain ⟨q,t,he,hq,hbrk⟩ := he
  obtain ⟨d,hd,_,rfl⟩ := h.cell_of_holds hp hnull
  have hb := h.proc.bounds hd
  obtain ⟨u,hmove,hu⟩ := moveBlock_returns (p := d.addr+12) t hq
  exact ⟨q,u,(realloc_moves h hd (by omega) (by omega) he).trans hmove,hq,hu ▸ hbrk⟩

theorem immodest_breaks {k : Call} (h : ClientInv c cs) (hq : ¬ c.Modest k) : ∃ u, c.step k=some u ∧ ¬ HeapOk u := by
  cases k with
  | malloc size =>
    obtain ⟨hlarge,p,t,he,hp,hbrk⟩ := malloc_immodest h.proc hq
    rw [u32_toNat] at he
    exact ⟨_,step_malloc he,not_ok_of_large hbrk (mem_granted c.live hp) hlarge⟩
  | calloc n size =>
    obtain ⟨hlarge,p,t,he,hp,hbrk⟩ := malloc_immodest h.proc hq
    have hcalloc : calloc n.toNat size.toNat c.proc =
        some (p,t.setMem (zeroBytes p (u32 (n.toNat*size.toNat)) t.mem)) := by
      rw [calloc,he,Option.map_some]
      dsimp only
      rw [if_neg hp]
    exact ⟨_,step_calloc hcalloc,not_ok_of_large hbrk (mem_granted c.live hp) hlarge⟩
  | realloc p size =>
    rw [Client.Modest,Classical.not_imp] at hq
    obtain ⟨hlarge,hmalloc⟩ := malloc_immodest h.proc hq.2
    rw [u32_toNat] at hmalloc
    obtain ⟨q,t,he,hq0,hbrk⟩ := realloc_immodest h hq.1 hlarge hmalloc
    have hmem : (q,size.toNat)∈c.moved p size.toNat q := by
      rw [Client.moved,if_neg hq0]
      exact mem_granted _ hq0
    exact ⟨_,step_realloc hq.1 he,not_ok_of_large hbrk hmem hlarge⟩
  | free p => exact absurd trivial hq
  | store p i v => exact absurd trivial hq

theorem clientInv_start (sys : UserHeap) : ClientInv (atStart sys) [] :=
  .unzeroed ⟨rfl,rfl,show 0x500000≤0x600000 by omega,rfl⟩ ⟨fun _ _ hp => absurd hp (by simp),List.nodup_nil⟩

/-- In every run of a program: the heap is right after every call exactly when every request above 1 MiB gets
NULL. -/
theorem user_heap_ok_iff (sys : UserHeap) (calls : List Call) :
    Always Client.step HeapOk calls (atStart sys) ↔ EachStep Client.step Client.Modest calls (atStart sys) := by
  have hstart := clientInv_start sys
  apply always_iff (I := fun c => ∃ cs, ClientInv c cs) _ _ ⟨[],hstart⟩ hstart.ok
  · rintro c k ⟨cs,h⟩ _
    constructor
    · intro hall
      by_contra hq
      obtain ⟨u,hu,hbad⟩ := immodest_breaks h hq
      exact hbad (hall u hu)
    · intro hq u hu
      obtain ⟨cs',hinv⟩ := step_keeps h hq hu
      exact hinv.ok
  · rintro c k u ⟨cs,h⟩ _ hq hu
    exact step_keeps h hq hu

/-- `malloc(0xFFFFFFF0)`: the size with its header is 0 modulo 2^32, and the break stays. -/
theorem user_heap_fails : ¬ ∀ (sys : UserHeap) (calls : List Call), Always Client.step HeapOk calls (atStart sys) := by
  intro h
  have hrun : ((atStart ⟨fun _ => 0,0,0,[]⟩).step (.malloc 0xFFFFFFF0)).map (fun c => (c.live,c.proc.brk)) =
      some ([(0x50000C,0xFFFFFFF0)],0x500000) := by decide +kernel
  obtain ⟨c,hstep,hc⟩ := Option.map_eq_some_iff.mp hrun
  rw [Prod.mk.injEq] at hc
  have hmem : (0x50000C,0xFFFFFFF0)∈c.live := by simp [hc.1]
  have hok := h _ _ [.malloc 0xFFFFFFF0] [] c rfl (runFrom_cons.mpr ⟨c,hstep,rfl⟩)
  have hin := (hok.inside _ _ hmem).2
  omega

end MyKernel.Malloc
