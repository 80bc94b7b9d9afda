import MyKernel.Fat32.Alloc
import MyKernel.Fat32.Scan

/-! The root directory: slot `i` lies in cluster `i / n` of its chain, with `n` slots to a cluster. -/
namespace MyKernel.Fat32
open Memory MyKernel.Computation Chains Disk

def dirSize (g : Geo) (rc : List Nat) : Nat := rc.length*entriesPerCluster g

def slotAt (g : Geo) (rc : List Nat) (i : Nat) : Slot :=
  ⟨rc.getD (i/entriesPerCluster g) 0,32*(i%entriesPerCluster g)⟩

def dirAt (g : Geo) (V : View) (rc : List Nat) (i : Nat) : Dirent :=
  direntAt (V.data (slotAt g rc i).cluster) (slotAt g rc i).offset

variable {g : Geo} {V W : View} {s : Fat} {c v i j fuel : Nat} {rc : List Nat}
variable {buf buf' : Nat → UInt8} {off : Nat} {want : List UInt8} {found : Option Slot}

theorem entriesPerCluster_pos (ha : Area g) : 0<entriesPerCluster g := by
  have hspc := ha.spc
  unfold entriesPerCluster
  omega

theorem slot_bound (h : i<entriesPerCluster g) : 32*i+32≤g.clusterBytes := by
  unfold entriesPerCluster at h
  unfold Geo.clusterBytes SECTOR_SIZE
  omega

theorem direntAt_congr (h : ∀ k, k<32 → buf (off+k)=buf' (off+k)) : direntAt buf off=direntAt buf' off := by
  have hname : ((List.range 11).map fun i => buf (off+i))=(List.range 11).map fun i => buf' (off+i) := by
    refine List.map_congr_left ?_
    intro i hi
    have hi := List.mem_range.mp hi
    exact h i (by omega)
  have hhalf : ∀ k, k+1<32 → halfAt buf (off+k)=halfAt buf' (off+k) := by
    intro k hk
    simp only [halfAt,Nat.add_assoc,h k (by omega),h (k+1) hk]
  have hword : ∀ k, k+3<32 → wordAt buf (off+k)=wordAt buf' (off+k) := by
    intro k hk
    simp only [wordAt,Nat.add_assoc,h k (by omega),h (k+1) (by omega),h (k+2) (by omega),
      h (k+3) hk]
  simp only [direntAt,hname,h 11 (by omega),hhalf 20 (by omega),hhalf 26 (by omega),
    hword 28 (by omega)]

theorem slotAt_head (h : i<entriesPerCluster g) : slotAt g (c::rc) i=⟨c,32*i⟩ := by
  simp [slotAt,Nat.div_eq_of_lt h,Nat.mod_eq_of_lt h]

theorem slotAt_tail (hpos : 0<entriesPerCluster g) : slotAt g (c::rc) (entriesPerCluster g+i)=slotAt g rc i := by
  have hdiv : (entriesPerCluster g+i)/entriesPerCluster g=i/entriesPerCluster g+1 := by
    rw [Nat.add_comm,Nat.add_div_right i hpos]
  simp [slotAt,hdiv]

theorem dirAt_head (h : i<entriesPerCluster g) : dirAt g V (c::rc) i=direntAt (V.data c) (32*i) := by
  rw [dirAt,slotAt_head h]

theorem dirAt_tail (hpos : 0<entriesPerCluster g) : dirAt g V (c::rc) (entriesPerCluster g+i)=dirAt g V rc i := by
  rw [dirAt,slotAt_tail hpos,dirAt]

theorem dirSize_cons : dirSize g (c::rc)=entriesPerCluster g+dirSize g rc := by
  rw [dirSize,List.length_cons,Nat.succ_mul,Nat.add_comm,dirSize]

theorem direntAt_buffer (h : ∀ k, k<g.clusterBytes → buf k=V.data c k)
    (hi : i<entriesPerCluster g) : direntAt buf (32*i)=dirAt g V (c::rc) i := by
  have hb := slot_bound hi
  rw [dirAt_head hi]
  apply direntAt_congr
  intro k hk
  exact h _ (by omega)

def Scan.toIter {β : Type} : Scan β → Iter β
  | .hit b => .hit b
  | _ => .done

theorem Scan.toIter_ne_error {β : Type} (r : Scan β) : r.toIter ≠ .error := by
  cases r <;> nofun

theorem iterateDir_sees {β : Type} (fn : Dirent → Option β) (h : Sees s g V)
    (hl : Linked V.fat v rc) (hin : ∀ c∈rc, InVolume g c) (hfuel : rc.length<fuel) :
    ∃ t, iterateDir fn fuel v s =
        (some (scanEntries (dirAt g V rc) fn (dirSize g rc) 0).toIter,t) ∧ Sees t g V := by
  have hpos := entriesPerCluster_pos h.area
  obtain ⟨fuel,rfl⟩ : ∃ k, fuel=k+1 := ⟨fuel-1,by omega⟩
  induction rc generalizing fuel v s with
  | nil =>
    refine ⟨s,?_,h⟩
    rw [iterateDir,if_neg hl,pure_eq,dirSize]
    simp [scanEntries,Scan.toIter]
  | cons c rc ih =>
    obtain ⟨rfl,hl⟩ := hl
    have hc := hin v (by simp)
    obtain ⟨t,hread,hsees,hbuf⟩ := readCluster_sees h hc
    have hscan : scanEntries (fun k => direntAt t.clusterBuf (32*k)) fn (entriesPerCluster g) 0 =
        scanEntries (dirAt g V (v::rc)) fn (entriesPerCluster g) 0 := by
      apply scanEntries_congr
      intro k _ hk
      exact direntAt_buffer hbuf (by omega)
    have hrest : scanEntries (dirAt g V (v::rc)) fn (dirSize g rc) (0+entriesPerCluster g) =
        scanEntries (dirAt g V rc) fn (dirSize g rc) 0 := by
      rw [Nat.zero_add,← Nat.add_zero (entriesPerCluster g),scanEntries_shift]
      apply scanEntries_congr
      intro k _ _
      exact dirAt_tail hpos
    have hstart : iterateDir fn (fuel+1) v s =
        afterScan (do let next ← fatGet v; iterateDir fn fuel next)
          (scanEntries (dirAt g V (v::rc)) fn (entriesPerCluster g) 0) t := by
      rw [iterateDir,if_pos ⟨hc.1,hc.lt_eoc h.area⟩,bind_some hread,if_pos rfl,state_bind,
        hsees.geo,hscan]
    rw [dirSize_cons,hstart]
    cases scanEntries_add (dirAt g V (v::rc)) fn (entriesPerCluster g) (dirSize g rc) 0 with
    | inl hmore =>
      obtain ⟨u,hget,hsees',_⟩ := fatGet_sees hsees hc.2
      obtain ⟨k,rfl⟩ : ∃ k, fuel=k+1 := ⟨fuel-1,by simp at hfuel; omega⟩
      obtain ⟨w,hw,hsees''⟩ := ih hsees' hl (fun c hc => hin c (by simp [hc])) k
        (by simpa using hfuel)
      refine ⟨w,?_,hsees''⟩
      rw [hmore.1,hmore.2,hrest,afterScan,bind_some hget,hw]
    | inr hend =>
      refine ⟨t,?_,hsees⟩
      rw [hend.2]
      cases hr : scanEntries (dirAt g V (v::rc)) fn (entriesPerCluster g) 0 with
      | stop => rfl
      | hit b => rfl
      | more => exact absurd hr hend.1

/-- The search for a slot along a chain, and what follows its end. Up to there nothing is written. -/
theorem findSlotLoop_run (want : List UInt8) (found : Option Slot) {last : Nat} (h : Sees s g V)
    (hl : ChainFrom (nextOf V.fat) (some v) rc) (hin : ∀ c∈rc, InVolume g c)
    (hlast : rc.getLast?=some last) (hfuel : rc.length<fuel) :
    ∃ t, findSlotLoop want fuel v found s =
        afterSlots (atChainEnd last)
          (slotEntries want (dirAt g V rc) (slotAt g rc) (dirSize g rc) 0 found) t ∧
      Sees t g V ∧ t.ata.disk=s.ata.disk := by
  have hpos := entriesPerCluster_pos h.area
  obtain ⟨fuel,rfl⟩ : ∃ k, fuel=k+1 := ⟨fuel-1,by omega⟩
  induction rc generalizing fuel v s found with
  | nil => simp at hlast
  | cons c rc ih =>
    obtain ⟨hv,hl⟩ := hl
    obtain rfl : v=c := by simpa using hv
    have hc := hin v (by simp)
    obtain ⟨t,hread,hsees,hbuf⟩ := readCluster_sees h hc
    have hdisk := readCluster_disk hread
    have hscan : slotEntries want (fun k => direntAt t.clusterBuf (32*k)) (fun k => ⟨v,32*k⟩)
          (entriesPerCluster g) 0 found =
        slotEntries want (dirAt g V (v::rc)) (slotAt g (v::rc)) (entriesPerCluster g) 0 found := by
      apply slotEntries_congr
      · intro k _ hk
        exact direntAt_buffer hbuf (by omega)
      · intro k _ hk
        exact (slotAt_head (by omega)).symm
    have hrest : ∀ f, slotEntries want (dirAt g V (v::rc)) (slotAt g (v::rc)) (dirSize g rc)
          (0+entriesPerCluster g) f =
        slotEntries want (dirAt g V rc) (slotAt g rc) (dirSize g rc) 0 f := by
      intro f
      rw [Nat.zero_add,← Nat.add_zero (entriesPerCluster g),slotEntries_shift]
      apply slotEntries_congr
      · intro k _ _
        exact dirAt_tail hpos
      · intro k _ _
        exact slotAt_tail hpos
    rw [dirSize_cons,findSlotLoop,if_pos ⟨hc.1,hc.lt_eoc h.area⟩,bind_some hread,if_pos rfl,
      state_bind,hsees.geo,hscan]
    cases slotEntries_add want (dirAt g V (v::rc)) (slotAt g (v::rc)) (entriesPerCluster g)
      (dirSize g rc) 0 found with
    | inl hmore =>
      obtain ⟨f,hf,hall⟩ := hmore
      obtain ⟨u,hget,hsees',_⟩ := fatGet_sees hsees hc.2
      have hdisk' := (fatGet_disk hget).trans hdisk
      rw [hf,hall,hrest,afterSlots,bind_some hget]
      cases rc with
      | nil =>
        -- the last cluster: the search has seen every slot
        obtain rfl : v=last := by simpa using hlast
        refine ⟨u,?_,hsees',hdisk'⟩
        rw [if_pos (nextOf_eq_none.mp hl)]
        simp [dirSize,slotEntries,afterSlots]
      | cons d rc =>
        obtain ⟨hlt,hd⟩ := nextOf_eq_some.mp hl.1
        obtain ⟨k,rfl⟩ : ∃ k, fuel=k+1 := ⟨fuel-1,by simp at hfuel; omega⟩
        rw [if_neg (by omega),hd]
        rw [hl.1] at hl
        obtain ⟨w,hw,hsees'',hdisk''⟩ := ih _ hsees' hl (fun c hc => hin c (by simp [hc]))
          (by simpa using hlast) k (by simpa using hfuel)
        exact ⟨w,hw,hsees'',hdisk''.trans hdisk'⟩
    | inr hend =>
      refine ⟨t,?_,hsees,hdisk⟩
      rw [hend.2]
      cases hr : slotEntries want (dirAt g V (v::rc)) (slotAt g (v::rc)) (entriesPerCluster g) 0
        found with
      | existing slot de => rfl
      | free slot => rfl
      | more f => exact absurd hr (hend.1 f)

def View.extend (V : View) (last nc : Nat) : View :=
  ((V.setFat nc LAST).setFat last nc).setData nc fun _ => 0

theorem extendDir_sees {last nc : Nat} {rest : List Nat} (h : Sees s g V) (hlast : InVolume g last)
    (hfree : freeClusters g V=nc::rest) :
    ∃ t, extendDir last s=(some (.found ⟨nc,0⟩ none),t) ∧ Sees t g (V.extend last nc) := by
  obtain ⟨hnc,_⟩ := mem_freeClusters.mp (hfree ▸ List.mem_cons_self : nc∈freeClusters g V)
  have hnc2 := hnc.1
  obtain ⟨t,halloc,hsees,_⟩ := fatAllocCluster_some h hfree
  obtain ⟨u,hset,hsees',_⟩ := fatSet_sees hsees hlast.2 nc
  have hmod : nc%0x10000000=nc := by
    have hlt := h.area.clusters_lt
    have hle := hnc.2
    omega
  rw [hmod] at hsees'
  obtain ⟨w,hzero,hsees'',hbuf⟩ := setClusterBuf_sees hsees' (zeroFront g.clusterBytes)
  have hzeroes : ∀ i, i<g.clusterBytes → w.clusterBuf i=0 := by
    intro i hi
    simp [hbuf,zeroFront,hi]
  obtain ⟨x,hwrite,hsees3⟩ := writeCluster_sees hsees'' hnc hzeroes
  refine ⟨x,?_,hsees3⟩
  rw [extendDir,bind_some halloc,if_neg (by omega),bind_some hset,if_pos rfl,state_bind,
    hsees'.geo,bind_some hzero,bind_some hwrite,if_pos rfl,pure_eq]

theorem extendDir_noSpace (last : Nat) (h : Sees s g V) (hfree : freeClusters g V=[]) :
    ∃ t, extendDir last s=(some .noSpace,t) ∧ Sees t g V := by
  obtain ⟨t,halloc,hsees,_⟩ := fatAllocCluster_none h hfree
  refine ⟨t,?_,hsees⟩
  rw [extendDir,bind_some halloc,if_pos rfl,pure_eq]

/-- What the search for a slot in the root directory gives and leaves. -/
inductive SlotOutcome (g : Geo) (V : View) (rc : List Nat) (want : List UInt8) :
    SlotResult → View → List Nat → Prop where
  | existing (i : Nat) (hi : Live (dirSize g rc) (dirAt g V rc) i)
      (hname : (dirAt g V rc i).name=want) :
      SlotOutcome g V rc want (.found (slotAt g rc i) (some (dirAt g V rc i))) V rc
  | vacant (i : Nat) (hi : Vacant (dirSize g rc) (dirAt g V rc) i)
      (habs : Absent (dirSize g rc) (dirAt g V rc) want) :
      SlotOutcome g V rc want (.found (slotAt g rc i) none) V rc
  | grown (last nc : Nat) (rest : List Nat) (hlast : rc.getLast?=some last)
      (hfree : freeClusters g V=nc::rest) (hfull : Full (dirSize g rc) (dirAt g V rc))
      (habs : Absent (dirSize g rc) (dirAt g V rc) want) :
      SlotOutcome g V rc want (.found ⟨nc,0⟩ none) (V.extend last nc) (rc++[nc])
  | noSpace (hfree : freeClusters g V=[]) (hfull : Full (dirSize g rc) (dirAt g V rc))
      (habs : Absent (dirSize g rc) (dirAt g V rc) want) :
      SlotOutcome g V rc want .noSpace V rc

theorem findSlotInRoot_sees (h : Sees s g V)
    (hl : ChainFrom (nextOf V.fat) (some g.rootCluster) rc) (hin : ∀ c∈rc, InVolume g c)
    (htail : ZeroTail (dirSize g rc) (dirAt g V rc)) (hfuel : rc.length<fuel) :
    ∃ r t V' rc', findSlotInRoot fuel want s=(some r,t) ∧ Sees t g V' ∧
      SlotOutcome g V rc want r V' rc' := by
  obtain ⟨last,hlast⟩ : ∃ last, rc.getLast?=some last := by
    cases hrc : rc.getLast? with
    | some last => exact ⟨last,rfl⟩
    | none =>
      rw [List.getLast?_eq_none_iff] at hrc
      simp [hrc,ChainFrom] at hl
  obtain ⟨t,hloop,hsees,_⟩ := findSlotLoop_run want none h hl hin hlast hfuel
  have hstart : findSlotInRoot fuel want s=findSlotLoop want fuel g.rootCluster none s := by
    rw [findSlotInRoot,state_bind,h.geo]
  have hlook : Lookup (dirSize g rc) (dirAt g V rc) want (slotAt g rc)
      (slotEntries want (dirAt g V rc) (slotAt g rc) (dirSize g rc) 0 none) := slotEntries_lookup htail
  rw [hstart,hloop]
  generalize slotEntries want (dirAt g V rc) (slotAt g rc) (dirSize g rc) 0 none=r at hlook
  cases hlook with
  | existing i hi hname => exact ⟨_,t,V,rc,rfl,hsees,.existing i hi hname⟩
  | atEnd i hi habs | deleted i hi habs => exact ⟨_,t,V,rc,rfl,hsees,.vacant i hi habs⟩
  | full hfull habs =>
    cases hfree : freeClusters g V with
    | nil =>
      obtain ⟨u,hu,hsees'⟩ := extendDir_noSpace last hsees hfree
      exact ⟨_,u,V,rc,hu,hsees',.noSpace hfree hfull habs⟩
    | cons nc rest =>
      obtain ⟨u,hu,hsees'⟩ := extendDir_sees hsees (hin last (List.mem_of_getLast? hlast)) hfree
      exact ⟨_,u,_,_,hu,hsees',.grown last nc rest hlast hfree hfull habs⟩

theorem length_padTo {n : Nat} {l : List UInt8} (h : l.length≤n) : (padTo n l).length=n := by
  simp only [padTo,List.length_append,List.length_replicate]
  omega

theorem length_extOf (l : List UInt8) : (extOf l).length≤3 := by
  cases l with
  | nil => simp [extOf]
  | cons c rest =>
    by_cases hc : c=0x2E
    · simp [extOf,hc,Nat.min_le_left]
    · simp [extOf,hc]

theorem length_nameTo83 (name : List UInt8) : (nameTo83 name).length=11 := by
  rw [nameTo83,List.length_append,length_padTo,length_padTo]
  · rw [List.length_map]
    exact length_extOf _
  · rw [List.length_map]
    exact List.length_take_le 8 _

theorem length_direntBytes {name : List UInt8} (hname : name.length=11) (attr : UInt8)
    (first size : Nat) : (direntBytes name attr first size).length=32 := by
  simp [direntBytes,halfBytes,wordBytes,hname]

theorem direntBytes_getD {name : List UInt8} (hname : name.length=11) (attr : UInt8)
    (first size k : Nat) : (direntBytes name attr first size).getD (11+k) 0 =
      ([attr]++List.replicate 8 0++halfBytes (first/65536)++List.replicate 4 0
        ++halfBytes (first%65536)++wordBytes size).getD k 0 := by
  simp only [direntBytes,List.append_assoc]
  rw [List.getD_append_right _ _ _ _ (by omega),hname,Nat.add_sub_cancel_left]

theorem direntBytes_name {name : List UInt8} (hname : name.length=11) (attr : UInt8) (first size : Nat) :
    ((List.range 11).map fun i => (direntBytes name attr first size).getD i 0)=name := by
  refine List.ext_getElem (by simp [hname]) ?_
  intro i hi hi'
  simp only [List.getElem_map,List.getElem_range,direntBytes,List.append_assoc]
  rw [List.getD_append _ _ _ _ hi',List.getD_eq_getElem _ _ hi']

theorem direntAt_patch {name : List UInt8} (hname : name.length=11) (attr : UInt8)
    {first size : Nat} (hfirst : first<4294967296) (hsize : size<4294967296) :
    direntAt (patch off (direntBytes name attr first size) buf) off =
      ⟨name,attr,first/65536,first%65536,size⟩ := by
  have hlen := length_direntBytes hname attr first size
  have hbyte : ∀ k, k<32 → patch off (direntBytes name attr first size) buf (off+k) =
      (direntBytes name attr first size).getD k 0 := fun k hk => patch_of_inside (by omega)
  have hnames : ((List.range 11).map fun i =>
      patch off (direntBytes name attr first size) buf (off+i))=name := by
    refine Eq.trans (List.map_congr_left ?_) (direntBytes_name hname attr first size)
    intro i hi
    have hi := List.mem_range.mp hi
    exact hbyte i (by omega)
  have hrest : ∀ k, k<21 → patch off (direntBytes name attr first size) buf (off+(11+k))=_ :=
    fun k hk => (hbyte (11+k) (by omega)).trans (direntBytes_getD hname attr first size k)
  have hhi : halfAt (patch off (direntBytes name attr first size) buf) (off+20)=first/65536 := by
    rw [halfAt,Nat.add_assoc,hrest 9 (by omega),hrest 10 (by omega)]
    exact le16_byteOf (by omega)
  have hlo : halfAt (patch off (direntBytes name attr first size) buf) (off+26)=first%65536 := by
    rw [halfAt,Nat.add_assoc,hrest 15 (by omega),hrest 16 (by omega)]
    exact le16_byteOf (by omega)
  have hsz : wordAt (patch off (direntBytes name attr first size) buf) (off+28)=size := by
    simp only [wordAt,Nat.add_assoc]
    rw [hrest 17 (by omega),hrest 18 (by omega),hrest 19 (by omega),hrest 20 (by omega)]
    exact le32_byteOf hsize
  have hattr : patch off (direntBytes name attr first size) buf (off+11)=attr := hrest 0 (by omega)
  simp only [direntAt,hnames,hattr,hhi,hlo,hsz]

theorem mark_direntAt : (direntAt buf off).mark=buf off := rfl

def View.setSlot (V : View) (slot : Slot) (bytes : List UInt8) : View :=
  V.setData slot.cluster (patch slot.offset bytes (V.data slot.cluster))

theorem putEntry_sees {slot : Slot} (bytes : List UInt8) (h : Sees s g V) (hc : InVolume g slot.cluster) :
    ∃ t, putEntry slot (patch slot.offset bytes) s=(some .ok,t) ∧
      Sees t g (V.setSlot slot bytes) := by
  obtain ⟨t,hread,hsees,hbuf⟩ := readCluster_sees h hc
  obtain ⟨u,hset,hsees',hbuf'⟩ := setClusterBuf_sees hsees (patch slot.offset bytes)
  have hpatch : ∀ i, i<g.clusterBytes →
      u.clusterBuf i=patch slot.offset bytes (V.data slot.cluster) i := by
    intro i hi
    rw [hbuf']
    simp only [patch,hbuf i hi]
  obtain ⟨w,hwrite,hsees''⟩ := writeCluster_sees hsees' hc hpatch
  refine ⟨w,?_,hsees''⟩
  rw [putEntry,bind_some hread,if_pos rfl,bind_some hset,bind_some hwrite,if_pos rfl,pure_eq]

theorem slotAt_mem (hpos : 0<entriesPerCluster g) (hi : i<dirSize g rc) : (slotAt g rc i).cluster∈rc := by
  have hk : i/entriesPerCluster g<rc.length := (Nat.div_lt_iff_lt_mul hpos).mpr hi
  simp only [slotAt,List.getD_eq_getElem _ _ hk]
  exact List.getElem_mem hk

theorem slotAt_apart (hpos : 0<entriesPerCluster g) (hnd : rc.Nodup) (hi : i<dirSize g rc)
    (hj : j<dirSize g rc) (hij : j≠i) (hc : (slotAt g rc j).cluster=(slotAt g rc i).cluster) :
    (slotAt g rc j).offset+32≤(slotAt g rc i).offset ∨
      (slotAt g rc i).offset+32≤(slotAt g rc j).offset := by
  have hki : i/entriesPerCluster g<rc.length := (Nat.div_lt_iff_lt_mul hpos).mpr hi
  have hkj : j/entriesPerCluster g<rc.length := (Nat.div_lt_iff_lt_mul hpos).mpr hj
  simp only [slotAt,List.getD_eq_getElem _ _ hki,List.getD_eq_getElem _ _ hkj] at hc ⊢
  have hdiv := (List.Nodup.getElem_inj_iff hnd).mp hc
  have hmod : i%entriesPerCluster g≠j%entriesPerCluster g := by
    intro he
    apply hij
    rw [← Nat.div_add_mod i (entriesPerCluster g),← Nat.div_add_mod j (entriesPerCluster g),hdiv,he]
  omega

theorem dirAt_setSlot {bytes : List UInt8} (hpos : 0<entriesPerCluster g) (hnd : rc.Nodup)
    (hi : i<dirSize g rc) (hj : j<dirSize g rc) (hlen : bytes.length≤32) (hij : j≠i) :
    dirAt g (V.setSlot (slotAt g rc i) bytes) rc j=dirAt g V rc j := by
  simp only [dirAt,View.setSlot,setData_data]
  by_cases hc : (slotAt g rc j).cluster=(slotAt g rc i).cluster
  · rw [if_pos hc,hc]
    have hapart := slotAt_apart hpos hnd hi hj hij hc
    apply direntAt_congr
    intro k hk
    apply patch_of_outside
    omega
  · rw [if_neg hc]

theorem dirAt_setSlot_self (bytes : List UInt8) :
    dirAt g (V.setSlot (slotAt g rc i) bytes) rc i =
      direntAt (patch (slotAt g rc i).offset bytes (V.data (slotAt g rc i).cluster))
        (slotAt g rc i).offset := by
  simp [dirAt,View.setSlot,setData_data]

end MyKernel.Fat32
