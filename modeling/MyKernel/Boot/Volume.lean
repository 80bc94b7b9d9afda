import MyKernel.Boot.Mkdisk
import MyKernel.Fat32.RoundTrip

/-! The volume in the image of `mkdisk.py`. The entry of its root cluster is a parameter. -/
namespace MyKernel.Boot
open Memory MyKernel.Computation Disk Fat32 Install

/-- The image with another entry for the root cluster in the first copy of the table. -/
def withRootEntry (v : Nat) (img : Nat → UInt8) : Nat → UInt8 := patch (2080*512+8) (wordBytes v) img

/-- After every write that succeeds the file is read back, and the root directory is not handed out. -/
def Usable (s : Fat) : Prop :=
  ∀ name text t, Valid83 name → text≠[] → 0∉text → text.length≤4096 →
    Returns (fun n => fat32Write n name text) s .ok t →
    (∀ bufSize, text.length≤bufSize → ReadsAs t name bufSize ⟨.ok,text.length,text⟩) ∧
      s.geo.rootCluster∉t.allocated

def mountImage : FatM FatResult := do
  fat32SetPartitionLba 2048
  fat32Mount

variable {g : Geo} {V : View} {s t : Fat} {c v n f fuel : Nat} {rest : List Nat} {name text : List UInt8}

theorem sectorRead_keeps (lba : Nat) : Keeps Fat.allocated (sectorRead lba) := fun _ => rfl
theorem sectorWrite_keeps (lba : Nat) : Keeps Fat.allocated (sectorWrite lba) := fun _ => rfl
theorem readCluster_keeps (c : Nat) : Keeps Fat.allocated (readCluster c) := fun _ => rfl
theorem writeCluster_keeps (c : Nat) : Keeps Fat.allocated (writeCluster c) := fun _ => rfl
theorem setSectorBuf_keeps (p : (Nat → UInt8) → Nat → UInt8) : Keeps Fat.allocated (setSectorBuf p) := fun _ => rfl
theorem setClusterBuf_keeps (p : (Nat → UInt8) → Nat → UInt8) : Keeps Fat.allocated (setClusterBuf p) := fun _ => rfl

theorem fatSetLoop_keeps : ∀ f, Keeps Fat.allocated (fatSetLoop c v n f) := by
  induction n with
  | zero => exact fun _ => keeps_pure true
  | succ n ih =>
    intro f
    rw [fatSetLoop]
    refine keeps_state.bind fun s => (sectorRead_keeps _).bind fun ok => Keeps.ite ?_ (keeps_pure false)
    refine (setSectorBuf_keeps _).bind fun _ => (sectorWrite_keeps _).bind fun ok' => ?_
    exact Keeps.ite (ih (f+1)) (keeps_pure false)

theorem fatSet_keeps : Keeps Fat.allocated (fatSet c v) := keeps_state.bind fun _ => fatSetLoop_keeps 0

theorem fatGet_keeps : Keeps Fat.allocated (fatGet c) := by
  rw [fatGet]
  refine keeps_state.bind fun s => (sectorRead_keeps _).bind fun ok => ?_
  exact Keeps.ite (keeps_state.bind fun _ => keeps_pure _) (keeps_pure _)

theorem fatAllocLoop_keeps : ∀ c, Keeps Fat.allocated (fatAllocLoop n c) := by
  induction n with
  | zero => exact fun _ => keeps_pure 0
  | succ n ih =>
    intro c
    rw [fatAllocLoop]
    refine fatGet_keeps.bind fun d => Keeps.ite ?_ (ih (c+1))
    exact fatSet_keeps.bind fun ok => Keeps.ite (keeps_pure c) (keeps_pure 0)

theorem putEntry_keeps (slot : Slot) (p : (Nat → UInt8) → Nat → UInt8) : Keeps Fat.allocated (putEntry slot p) := by
  rw [putEntry]
  refine (readCluster_keeps _).bind fun ok => Keeps.ite ?_ (keeps_pure _)
  refine (setClusterBuf_keeps _).bind fun _ => (writeCluster_keeps _).bind fun ok' => ?_
  exact Keeps.ite (keeps_pure _) (keeps_pure _)

theorem fatAllocCluster_allocated (h : Sees s g V) (hrun : fatAllocCluster s=(some c,t)) :
    t.allocated=c::s.allocated := by
  rw [fatAllocCluster_eq h] at hrun
  obtain ⟨d,u,hloop,hnote⟩ := bind_ended hrun
  have hu := (fatAllocLoop_keeps 2).eq hloop
  obtain ⟨rfl,rfl⟩ : d=c ∧ { u with allocated := d::u.allocated }=t := by simpa [noteAllocated] using hnote
  rw [← hu]

def firstFile (g : Geo) (V : View) (c : Nat) (key text : List UInt8) : View :=
  (((V.setFat c LAST).setData c (chunkOf g.clusterBytes text 0)).setFat c LAST).setSlot ⟨g.rootCluster,0⟩
    (direntBytes key ATTR_ARCHIVE c text.length)

section First
variable (h : Sees s g V) (hroot : InVolume g g.rootCluster)
include h hroot

theorem findSlot_first (fuel : Nat) (hend : V.data g.rootCluster 0=0) (want : List UInt8) :
    ∃ t, findSlotInRoot (fuel+1) want s=(some (.found ⟨g.rootCluster,0⟩ none),t) ∧ Sees t g V ∧
      t.allocated=s.allocated := by
  obtain ⟨t,hread,hsees,hbuf⟩ := readCluster_sees h hroot
  have hlog := (readCluster_keeps _).eq hread
  have hpos := entriesPerCluster_pos h.area
  obtain ⟨n,hn⟩ : ∃ n, entriesPerCluster t.geo=n+1 := by
    rw [hsees.geo]
    exact ⟨entriesPerCluster g-1,by omega⟩
  have hmark : (direntAt t.clusterBuf (32*0)).mark=0 := by
    rw [mark_direntAt,hbuf _ (clusterBytes_pos h.area)]
    exact hend
  have hlink : 2≤g.rootCluster ∧ g.rootCluster<EOC := by
    have hlt := h.area.clusters_lt
    have hle := hroot.2
    exact ⟨hroot.1,by unfold EOC; omega⟩
  refine ⟨t,?_,hsees,hlog⟩
  rw [findSlotInRoot,state_bind,h.geo,findSlotLoop,if_pos hlink,bind_some hread,if_pos rfl,state_bind,hn,
    slotEntries,if_neg (fun hne => hne.1 hmark),if_pos ⟨rfl,.inl hmark⟩,if_pos hmark]
  rfl

omit hroot in
theorem writeData_first (fuel : Nat) (hfree : freeClusters g V=c::rest) (hne : text≠[]) (hlen : text.length≤g.clusterBytes) :
    ∃ t, writeData (fuel+2) text s=(some (.ok c),t) ∧
      Sees t g (((V.setFat c LAST).setData c (chunkOf g.clusterBytes text 0)).setFat c LAST) ∧
      t.allocated=c::s.allocated := by
  have hpos := List.length_pos_iff.mpr hne
  have hc := (mem_freeClusters.mp (hfree ▸ List.mem_cons_self : c∈freeClusters g V)).1
  have hc2 := hc.1
  obtain ⟨t,halloc,hsees,_⟩ := fatAllocCluster_some h hfree
  have hlog := fatAllocCluster_allocated h halloc
  obtain ⟨u,hset,hsees',hbuf⟩ := setClusterBuf_sees hsees fun buf =>
    patch 0 ((text.drop 0).take (min (text.length-0) g.clusterBytes)) (zeroFront g.clusterBytes buf)
  have hlog' := (setClusterBuf_keeps _).eq hset
  have hchunk : ∀ i, i<g.clusterBytes → u.clusterBuf i=chunkOf g.clusterBytes text 0 i := by
    intro i hi
    rw [hbuf]
    exact chunk_buffer (by omega) hi
  obtain ⟨w,hwrite,hsees''⟩ := writeCluster_sees hsees' hc hchunk
  have hlog'' := (writeCluster_keeps _).eq hwrite
  obtain ⟨x,hlast,hsees3,_⟩ := fatSet_sees hsees'' hc.2 LAST
  have hlog3 := fatSet_keeps.eq hlast
  have hloop : writeLoop text (fuel+2) 0 0 0 s=(some (.ok (c,c)),w) := by
    have hmin : min (text.length-0) g.clusterBytes=text.length := by omega
    rw [writeLoop,if_pos hpos,bind_some halloc,if_neg (by omega)]
    dsimp only
    rw [if_pos rfl,linkPrev,if_neg (by simp),pure_bind,if_pos rfl,state_bind,hsees.geo,bind_some hset,
      bind_some hwrite,if_pos rfl,hmin,writeLoop,if_neg (by omega)]
    rfl
  refine ⟨x,?_,hsees3,by rw [hlog3,hlog'',hlog',hlog]⟩
  rw [writeData,bind_some hloop]
  dsimp only
  rw [if_pos (by omega),bind_some hlast,if_pos rfl]
  rfl

theorem fat32Write_first (fuel : Nat) (hend : V.data g.rootCluster 0=0) (hfree : freeClusters g V=c::rest)
    (hname : name≠[]) (hne : text≠[]) (hmax : text.length≤WRITE_MAX_BYTES) (hlen : text.length≤g.clusterBytes) :
    ∃ t, fat32Write (fuel+2) name text s=(some .ok,t) ∧
      Sees t g (firstFile g V c (nameTo83 name) text) ∧ t.allocated=c::s.allocated := by
  obtain ⟨t,hslot,hsees,hlog⟩ := findSlot_first h hroot (fuel+1) hend (nameTo83 name)
  obtain ⟨u,hdata,hsees',hlog'⟩ := writeData_first hsees fuel hfree hne hlen
  obtain ⟨w,hput,hsees''⟩ := putEntry_sees
    (direntBytes (nameTo83 name) ATTR_ARCHIVE c text.length) hsees' (show InVolume g (Slot.mk g.rootCluster 0).cluster from hroot)
  have hlog'' := (putEntry_keeps _ _).eq hput
  refine ⟨w,?_,hsees'',by rw [hlog'',hlog',hlog]⟩
  rw [fat32Write,state_bind,h.mounted]
  simp only [Bool.not_true,Bool.false_eq_true,if_false,hname]
  rw [if_neg (by omega),bind_some hslot]
  dsimp only
  rw [if_neg (by simp [isDirEntry]),writeAt,freeOld,pure_bind,bind_some hdata]
  exact hput

/-- The entry is the first of the directory, so the links of the directory are never followed. -/
theorem iterateDir_first (fuel : Nat) {de : Dirent} (hde : direntAt (V.data g.rootCluster) 0=de) (hlisted : de.listed=true)
    (hmark : de.mark≠0) (hmatch : de.name=nameTo83 name) :
    ∃ t, iterateDir (findCb name) (fuel+1) g.rootCluster s=(some (.hit de),t) ∧ Sees t g V := by
  obtain ⟨t,hread,hsees,hbuf⟩ := readCluster_sees h hroot
  have hpos := entriesPerCluster_pos h.area
  obtain ⟨n,hn⟩ : ∃ n, entriesPerCluster t.geo=n+1 := by
    rw [hsees.geo]
    exact ⟨entriesPerCluster g-1,by omega⟩
  have hfirst : direntAt t.clusterBuf (32*0)=de := by
    rw [show direntAt t.clusterBuf (32*0)=dirAt g V [g.rootCluster] 0 from direntAt_buffer hbuf hpos,dirAt_head hpos]
    exact hde
  have hscan : scanEntries (fun k => direntAt t.clusterBuf (32*k)) (findCb name) (entriesPerCluster t.geo) 0 =
      .hit de := by
    rw [hn]
    apply scanEntries_stop
    · rwa [hfirst]
    · rwa [hfirst]
    · rw [hfirst,findCb,direntMatch,hmatch,beq_self_eq_true,if_pos rfl]
  refine ⟨t,?_,hsees⟩
  rw [iterateDir,if_pos ⟨hroot.1,hroot.lt_eoc h.area⟩,bind_some hread,if_pos rfl,state_bind,hscan]
  rfl

end First

theorem firstFile_root (hc : c≠g.rootCluster) (key text : List UInt8) :
    (firstFile g V c key text).data g.rootCluster =
      patch 0 (direntBytes key ATTR_ARCHIVE c text.length) (V.data g.rootCluster) := by
  simp [firstFile,View.setSlot,setData_data,Ne.symm hc]

theorem firstFile_data (hc : c≠g.rootCluster) (key text : List UInt8) :
    (firstFile g V c key text).data c=chunkOf g.clusterBytes text 0 := by
  simp [firstFile,View.setSlot,setData_data,hc]

theorem firstFile_fat (key text : List UInt8) : (firstFile g V c key text).fat c=LAST := by
  simp [firstFile,View.setSlot]

theorem fat32ReadFile_first (fuel : Nat) {bufSize : Nat} (h : Sees s g (firstFile g V c (nameTo83 name) text))
    (hroot : InVolume g g.rootCluster) (hc : InVolume g c) (hcr : c≠g.rootCluster) (hname : name≠[])
    (hkey : KeyOk (nameTo83 name)) (hne : text≠[]) (hlen : text.length≤g.clusterBytes)
    (hsize : text.length<4294967296) (hbuf : text.length≤bufSize) :
    ∃ t, fat32ReadFile (fuel+2) name bufSize s=(some ⟨.ok,text.length,text⟩,t) := by
  have hpos := List.length_pos_iff.mpr hne
  have hlt := h.area.clusters_lt
  have hc2 := hc.2
  have hde : direntAt ((firstFile g V c (nameTo83 name) text).data g.rootCluster) 0 =
      entryFor (nameTo83 name) ATTR_ARCHIVE c text.length := by
    rw [firstFile_root hcr,direntAt_patch hkey.1 ATTR_ARCHIVE (by omega) hsize,entryFor]
  obtain ⟨t,hiter,hsees⟩ := iterateDir_first h hroot (fuel+1) hde
    (listed_entryFor c text.length hkey attrOk_archive) hkey.2.1 rfl
  have hlinked : Linked (firstFile g V c (nameTo83 name) text).fat c [c] := by
    refine ⟨rfl,?_⟩
    rw [firstFile_fat]
    exact fun hlast => absurd hlast.2 (by decide)
  obtain ⟨u,bytes,hread,hbytes,_⟩ := readLoop_sees bufSize text.length [] hsees hlinked
    (by simpa using hc) (show [c].length<fuel+2 by simp)
  have htext : bytes=text := by
    rw [hbytes,List.nil_append,List.length_nil,Nat.sub_zero,Nat.min_eq_left hbuf,chainBytes,List.flatMap_singleton,
      clusterBytesOf,firstFile_data hcr,← List.map_take,List.take_range,Nat.min_eq_left hlen]
    apply List.ext_getElem (by simp)
    intro i hi hi'
    simp [chunkOf,hi']
  refine ⟨u,?_⟩
  rw [fat32ReadFile,state_bind,h.mounted,h.geo]
  simp only [Bool.not_true,Bool.false_eq_true,if_false,hname,false_or]
  rw [if_neg (by omega),bind_some hiter]
  dsimp only
  rw [isDir_archive,if_neg (by decide),first_entryFor,← htext]
  rw [← htext] at hread
  exact hread

def imageGeo : Geo := mkfsGeo 2048 65536 256

/-- What the driver finds in the image: an empty root directory, and no other entry in the table. -/
structure ImageVolume (v : Nat) (disk : Nat → Nat → UInt8) : Prop where
  boot : bpbOf (disk 2048)=⟨512,MKFS_SPC,MKFS_RESERVED,MKFS_FATS,0,65536,256,2,0x29,0x46⟩
  rootEntry : fatOf imageGeo disk 2=v%0x10000000
  free : fatOf imageGeo disk 3=0
  empty : dataOf imageGeo disk 2 0=0

theorem image_fits : MkfsFits 2048 65536 256 := ⟨by decide,by decide,by decide,by decide⟩

theorem image_root : InVolume imageGeo imageGeo.rootCluster := ⟨by decide,by decide⟩

section Image
variable {disk : Nat → Nat → UInt8} (hv : ImageVolume v disk)
include hv

theorem ImageVolume.freeClusters_eq : ∃ rest,
    freeClusters imageGeo ⟨fatOf imageGeo disk,dataOf imageGeo disk⟩ =
      (if v%0x10000000=0 then 2 else 3)::rest := by
  have htotal : List.range' 2 imageGeo.totalClusters=2::3::List.range' 4 8122 := rfl
  rw [freeClusters,htotal]
  split
  next h0 => exact ⟨_,List.filter_cons_of_pos (by simp [hv.rootEntry,h0])⟩
  next h0 =>
    rw [List.filter_cons_of_neg (by simp [hv.rootEntry,h0])]
    exact ⟨_,List.filter_cons_of_pos (by simp [hv.free])⟩

theorem ImageVolume.usable_iff (hdisk : s.ata.disk=disk) (h : Ideal s.ata) (hlog : s.allocated=[]) :
    ∃ t, mountImage s=(some .ok,t) ∧ (Usable t ↔ v%0x10000000≠0) := by
  obtain ⟨t,hmount,hm,hideal,hgeo,hsame,hlog'⟩ := fat32Mount_boot image_fits.room
    (s := { s with geo := { s.geo with partitionLba := 2048 } }) h rfl (hdisk ▸ hv.boot)
  have hgeo : t.geo=imageGeo := hgeo
  have hsees : Sees t imageGeo ⟨fatOf imageGeo disk,dataOf imageGeo disk⟩ := by
    refine ⟨hgeo,hideal,hm,image_fits.area,?_,?_⟩
    · intro c _
      rw [hsame,hdisk]
    · intro c _ i _
      rw [hsame,hdisk]
  obtain ⟨rest,hfree⟩ := hv.freeClusters_eq
  have hwrite : ∀ name text, name≠[] → text≠[] → text.length≤4096 → ∃ u,
      fat32Write 2 name text t=(some .ok,u) ∧
      Sees u imageGeo (firstFile imageGeo ⟨fatOf imageGeo disk,dataOf imageGeo disk⟩
        (if v%0x10000000=0 then 2 else 3) (nameTo83 name) text) ∧
      u.allocated=[if v%0x10000000=0 then 2 else 3] := by
    intro name text hname hne hlen
    obtain ⟨u,hrun,hsees',hall⟩ := fat32Write_first hsees image_root 0 hv.empty hfree hname hne
      hlen hlen
    rw [hlog',hlog] at hall
    exact ⟨u,hrun,hsees',hall⟩
  refine ⟨t,hmount,?_⟩
  constructor
  · intro hall h0
    obtain ⟨u,hrun,_,hu⟩ := hwrite [0x41] [1] (by decide) (by decide) (by decide)
    have hname : Valid83 [0x41] := .inl ⟨by decide,by decide,by decide +kernel⟩
    have hroot := (hall [0x41] [1] u hname (by decide) (by decide) (by decide) ⟨2,hrun⟩).2
    rw [hu,hgeo,if_pos h0] at hroot
    exact hroot (List.mem_singleton_self 2)
  · intro h0 name text u hname hne _ hlen hrun
    obtain ⟨hnil,hprint⟩ := hname.printable
    obtain ⟨w,hrun',hsees',hw⟩ := hwrite name text hnil hne hlen
    obtain ⟨_,rfl⟩ := hrun.unique (mono_fat32Write name text) ⟨2,hrun'⟩
    rw [if_neg h0] at hsees' hw
    constructor
    · intro bufSize hbuf
      obtain ⟨x,hread⟩ := fat32ReadFile_first 0 hsees' image_root (c := 3) ⟨by decide,by decide⟩
        (by decide) hnil (keyOk_nameTo83 hnil hprint) hne hlen (by omega) hbuf
      exact ⟨x,2,hread⟩
    · rw [hw,hgeo]
      decide

end Image

section Script
variable {kelf mbr stage2 kernel : List UInt8} {raw : Option (List UInt8)} {img : Nat → UInt8} {entry sec o : Nat}

theorem withRootEntry_of_ne (ho : o<512) (h : sec≠2080 ∨ 12≤o) :
    sectorsOf (withRootEntry v img) sec o=sectorsOf img sec o := by
  have hlen : (wordBytes v).length=4 := rfl
  rw [sectorsOf,withRootEntry,patch_of_outside (by omega),sectorsOf]

theorem le32_wordBytes (v : Nat) :
    le32 ((wordBytes v).getD 0 0) ((wordBytes v).getD 1 0) ((wordBytes v).getD 2 0) ((wordBytes v).getD 3 0) =
      v%4294967296 := by
  simp only [wordBytes,List.getD_cons_zero,List.getD_cons_succ,le32,toNat_byteOf]
  omega

theorem wordAt_rootEntry (img : Nat → UInt8) : wordAt (sectorsOf (withRootEntry v img) 2080) 8=v%4294967296 := by
  have hbyte : ∀ k, k<4 → sectorsOf (withRootEntry v img) 2080 (8+k)=(wordBytes v).getD k 0 := by
    intro k hk
    have haddr : 512*2080+(8+k)=2080*512+8+k := by omega
    rw [sectorsOf,haddr,withRootEntry,patch_of_inside hk]
  rw [wordAt,hbyte 1 (by omega),hbyte 2 (by omega),hbyte 3 (by omega),← le32_wordBytes]
  exact congrArg (fun b => le32 b _ _ _) (hbyte 0 (by omega))

theorem fatOf_image {disk : Nat → Nat → UInt8} {c : Nat} (hc : c<128) :
    fatOf imageGeo disk c=wordAt (disk 2080) (4*c)%0x10000000 := by
  have htotal : imageGeo.totalClusters=8124 := rfl
  have hlba := fatLba_zero image_fits.area (c := c) (by rw [← imageGeo]; omega)
  have hsec : (mkfsGeo 2048 65536 256).partitionLba+(mkfsGeo 2048 65536 256).fatStart+c/128=2080 := by
    rw [Nat.div_eq_of_lt hc]
    rfl
  rw [fatOf,imageGeo,hlba,hsec,entOffset_eq,Nat.mod_eq_of_lt hc]

/-- The drive holds the image with the given entry; what lies behind the image is not fixed. -/
theorem imageVolume_of {disk : Nat → Nat → UInt8} (hk : kernel.length≤262144)
    (hdisk : ∀ sec<131072, ∀ o<512,
      disk sec o=sectorsOf (withRootEntry v (diskImage mbr stage2 kernel entry)) sec o) : ImageVolume v disk := by
  refine ⟨?_,?_,?_,?_⟩
  · have hboot : bpbOf (disk 2048)=bpbOf fun o => bpbSector.getD o 0 := by
      apply bpbOf_congr
      intro o ho
      rw [hdisk 2048 (by decide) o ho,withRootEntry_of_ne ho (.inl (by decide)),diskImage_bpb ho]
    rw [hboot]
    decide +kernel
  · rw [fatOf_image (by decide)]
    have hword : wordAt (disk 2080) 8=v%4294967296 := by
      rw [← wordAt_rootEntry (diskImage mbr stage2 kernel entry)]
      apply wordAt_congr
      intro k hk'
      exact hdisk 2080 (by decide) _ (by omega)
    rw [show 4*2=8 from rfl,hword]
    omega
  · rw [fatOf_image (by decide)]
    have hword : wordAt (disk 2080) 12=wordAt (fun _ => 0) 12 := by
      apply wordAt_congr
      intro k hk'
      rw [hdisk 2080 (by decide) _ (by omega),withRootEntry_of_ne (by omega) (.inr (by omega)),
        diskImage_zero hk (by omega) (by decide) (by decide) (.inl (by decide))]
    rw [show 4*3=12 from rfl,hword]
    rfl
  · have hlba : dataOf imageGeo disk 2 0=disk 2592 0 := rfl
    rw [hlba,hdisk 2592 (by decide) 0 (by decide),withRootEntry_of_ne (by decide) (.inl (by decide)),
      diskImage_zero hk (by decide) (by decide) (by decide) (.inl (by decide))]

theorem withRootEntry_zero (hk : kernel.length≤262144) :
    withRootEntry 0 (diskImage mbr stage2 kernel entry)=diskImage mbr stage2 kernel entry := by
  have hlen : (wordBytes 0).length=4 := rfl
  have hzeros : ∀ k, k<4 → (wordBytes 0).getD k 0=0 := by decide
  funext i
  by_cases hi : i<2080*512+8 ∨ 2080*512+12 ≤ i
  · rw [withRootEntry,patch_of_outside (by omega)]
  · have hzero : diskImage mbr stage2 kernel entry (512*2080+(i-2080*512))=0 :=
      diskImage_zero hk (by omega) (by decide) (by decide) (.inl (by decide))
    have himg : 512*2080+(i-2080*512)=i := by omega
    have hpatch : 2080*512+8+(i-(2080*512+8))=i := by omega
    have hnew : withRootEntry 0 (diskImage mbr stage2 kernel entry) (2080*512+8+(i-(2080*512+8))) =
        (wordBytes 0).getD (i-(2080*512+8)) 0 := patch_of_inside (by omega)
    rw [hpatch,hzeros _ (by omega)] at hnew
    rw [himg] at hzero
    rw [hnew,hzero]

theorem imageVolume_script (hk : kernel.length≤262144) :
    ImageVolume 0 (sectorsOf (diskImage mbr stage2 kernel entry)) := by
  have h : ImageVolume 0 (sectorsOf (withRootEntry 0 (diskImage mbr stage2 kernel entry))) :=
    imageVolume_of hk fun _ _ _ _ => rfl
  rwa [withRootEntry_zero hk] at h

/-- The image mounts, and its volume can be used exactly when the entry of the root cluster is not zero. -/
theorem mkdisk_volume_usable_iff (v : Nat) (himg : mkdisk kelf mbr stage2 raw=some img)
    (hk : (kernelOf kelf raw).length≤262144) (h : Ideal s.ata) (hlog : s.allocated=[])
    (hdisk : ∀ sec<131072, ∀ o<512, s.ata.disk sec o=sectorsOf (withRootEntry v img) sec o) :
    ∃ t, mountImage s=(some .ok,t) ∧ (Usable t ↔ v%0x10000000≠0) := by
  obtain ⟨entry,_,_,rfl⟩ := mkdisk_eq himg
  exact (imageVolume_of hk hdisk).usable_iff rfl h hlog

/-- With an end mark for the root cluster the volume can be used. -/
theorem mkdisk_volume_usable_marked : ∃ t,
    mountImage (attachedTo (sectorsOf (withRootEntry 0x0FFFFFFF (diskImage [] [] [0x90] 0x10000C))))=(some .ok,t) ∧
      (Usable t ↔ 0x0FFFFFFF%0x10000000≠0) :=
  mkdisk_volume_usable_iff 0x0FFFFFFF (mkdisk_raw (by decide)) (by decide) ⟨rfl,fun _ => rfl⟩ rfl
    fun _ _ _ _ => rfl

/-- On the image itself the first write takes the root directory for its data. -/
theorem mkdisk_volume_not_usable : ¬ ∀ kelf mbr stage2 raw img (s t : Fat), mkdisk kelf mbr stage2 raw=some img →
    (kernelOf kelf raw).length≤262144 → Ideal s.ata → s.allocated=[] → s.ata.disk=sectorsOf img →
    mountImage s=(some .ok,t) → Usable t := by
  intro hall
  have hideal : Ideal (attachedTo (sectorsOf (diskImage [] [] [0x90] 0x10000C))).ata := ⟨rfl,fun _ => rfl⟩
  have hlen : [(0x90 : UInt8)].length≤262144 := by decide
  obtain ⟨t,hmount,husable⟩ := (imageVolume_script hlen).usable_iff rfl hideal rfl
  exact husable.mp (hall [] [] [] (some [0x90]) _ _ t (mkdisk_raw (by decide)) (by decide) hideal rfl rfl hmount) rfl

end Script

end MyKernel.Boot
