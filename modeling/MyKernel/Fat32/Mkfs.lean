import MyKernel.Fat32.Volume

/-! `fat32_mkfs`. Every sector of the second copy begins with the marks of the first sector. -/
namespace MyKernel.Fat32
open CString Memory MyKernel.Computation Disk

def MKFS_SPC : Nat := 8
def MKFS_RESERVED : Nat := 32
def MKFS_FATS : Nat := 2

def tableSectors (clusters : Nat) : Nat := u32 (u32 (clusters*4)+511)/512

/-- The size is computed twice; the first result stands for the table in the second. -/
def mkfsFatSize (sizeSectors : Nat) : Nat :=
  let fatSz := tableSectors (sub32 sizeSectors MKFS_RESERVED/MKFS_SPC)
  let fatSz := if fatSz<1 then 1 else fatSz
  tableSectors (sub32 (sub32 sizeSectors MKFS_RESERVED) (u32 (MKFS_FATS*fatSz))/MKFS_SPC)

def bpbBytes (partLba sizeSectors fatSz : Nat) : List UInt8 :=
  [0xEB,0x58,0x90]++ascii "MSWIN4.1"++halfBytes 512++[byteOf MKFS_SPC 0]++halfBytes MKFS_RESERVED
    ++[byteOf MKFS_FATS 0]++halfBytes 0++halfBytes 0++[0xF8]++halfBytes 0++halfBytes 63++halfBytes 255
    ++wordBytes partLba++wordBytes sizeSectors++wordBytes fatSz++halfBytes 0++halfBytes 0++wordBytes 2
    ++halfBytes 1++halfBytes 6++List.replicate 12 0++[0x80,0,0x29]++wordBytes 0x12345678
    ++ascii "MYKERNEL   "++ascii "FAT32   "

def signature : List UInt8 := [0x55,0xAA]

def bootBuf (partLba sizeSectors fatSz : Nat) (buf : Nat → UInt8) : Nat → UInt8 :=
  patch 510 signature (patch 0 (bpbBytes partLba sizeSectors fatSz) (zeroFront SECTOR_SIZE buf))

def infoBuf (buf : Nat → UInt8) : Nat → UInt8 :=
  patch 510 signature (patch 484 [0x72,0x72,0x41,0x61,0xFF,0xFF,0xFF,0xFF,0x02]
    (patch 0 [0x52,0x52,0x61,0x41] (zeroFront SECTOR_SIZE buf)))

def tableMarks : List UInt8 :=
  [0xF8,0xFF,0xFF,0x0F,0xFF,0xFF,0xFF,0x0F,0xFF,0xFF,0xFF,0x0F]

def fillSectors : Nat → Nat → FatM Bool
  | 0, _ => pure true
  | n+1, lba => do
    if ← sectorWrite lba then fillSectors n (u32 (lba+1)) else pure false

def mkfsTables (partLba fatSz : Nat) : Nat → Nat → FatM Bool
  | 0, _ => pure true
  | n+1, f => do
    let fatLba := u32 (partLba+MKFS_RESERVED+f*fatSz)
    if ← fillSectors fatSz fatLba then
      if ← sectorRead fatLba then
        setSectorBuf (patch 0 tableMarks)
        if ← sectorWrite fatLba then mkfsTables partLba fatSz n (f+1) else pure false
      else pure false
    else pure false

def clusterWriteAt (lba count : Nat) : FatM Bool := fun s =>
  let r := ataWriteSectors s.ata lba count s.clusterBuf
  (some r.1,{ s with ata := r.2 })

def mkfsRoot (partLba fatSz : Nat) : FatM FatResult := do
  setClusterBuf (zeroFront (SECTOR_SIZE*8))
  if ← clusterWriteAt (u32 (partLba+MKFS_RESERVED+MKFS_FATS*fatSz)) MKFS_SPC then
    update fun s => { s with mounted := false, geo := { s.geo with partitionLba := partLba } }
    pure .ok
  else pure .io

def mkfsSectors (partLba sizeSectors fatSz : Nat) : FatM FatResult := do
  setSectorBuf (bootBuf partLba sizeSectors fatSz)
  if ← sectorWrite partLba then
    setSectorBuf infoBuf
    if ← sectorWrite (u32 (partLba+1)) then
      setSectorBuf (zeroFront SECTOR_SIZE)
      if ← mkfsTables partLba fatSz MKFS_FATS 0 then mkfsRoot partLba fatSz else pure .io
    else pure .io
  else pure .io

def mkfsSize (sizeSectors : Nat) : Nat := if sizeSectors<2048 then 65536 else sizeSectors

def fat32Mkfs (partLba sizeSectors : Nat) : FatM FatResult := do
  let s ← state
  if !s.ata.present then pure .noDisk
  else mkfsSectors partLba (mkfsSize sizeSectors) (mkfsFatSize (mkfsSize sizeSectors))

example : mkfsFatSize 262144=256 := by decide

example : (bpbBytes 2048 262144 256).length=90 := by decide +kernel

variable {s t : Fat} {part size fatSz lba n f : Nat} {disk : Nat → Nat → UInt8} {buf : Nat → UInt8}

def filled (disk : Nat → Nat → UInt8) (lba n : Nat) (buf : Nat → UInt8) : Nat → Nat → UInt8 :=
  fun sec o => if lba ≤ sec ∧ sec<lba+n then buf o else disk sec o

theorem filled_succ (disk : Nat → Nat → UInt8) (lba n : Nat) (buf : Nat → UInt8) :
    filled (writeFrom disk lba 1 buf) (lba+1) n buf=filled disk lba (n+1) buf := by
  funext sec o
  simp only [filled,writeFrom,SECTOR_SIZE]
  by_cases hsec : sec=lba
  · rw [if_neg (by omega),if_pos (by omega),if_pos (by omega),hsec,Nat.sub_self,Nat.mul_zero,
      Nat.zero_add]
  · by_cases hin : lba+1 ≤ sec ∧ sec<lba+1+n
    · rw [if_pos hin,if_pos (by omega)]
    · rw [if_neg hin,if_neg (by omega),if_neg (by omega)]

theorem writeFrom_outside {sec : Nat} (h : sec<lba ∨ lba+n ≤ sec) : writeFrom disk lba n buf sec=disk sec := by
  funext o
  simp only [writeFrom]
  rw [if_neg (by omega)]

theorem writeFrom_inside {k : Nat} (hk : k<n) (o : Nat) :
    writeFrom disk lba n buf (lba+k) o=buf (SECTOR_SIZE*k+o) := by
  simp only [writeFrom]
  rw [if_pos (by omega),Nat.add_sub_cancel_left]

theorem filled_outside {sec : Nat} (h : sec<lba ∨ lba+n ≤ sec) : filled disk lba n buf sec=disk sec := by
  funext o
  simp only [filled]
  rw [if_neg (by omega)]

theorem filled_inside {k : Nat} (hk : k<n) : filled disk lba n buf (lba+k)=buf := by
  funext o
  simp only [filled]
  rw [if_pos (by omega)]

theorem patch_congr {o : Nat} {bytes : List UInt8} {buf buf' : Nat → UInt8} {i : Nat} (h : buf i=buf' i) :
    patch o bytes buf i=patch o bytes buf' i := by
  simp only [patch,h]

theorem zeroFront_of_lt {i : Nat} (h : i<n) : zeroFront n buf i=0 := if_pos h

/-- The drive stays ideal, and the state differs from `s` in the drive and the buffers only. -/
structure OnIdeal (s t : Fat) (disk : Nat → Nat → UInt8) : Prop where
  ideal : Ideal t.ata
  disk : t.ata.disk=disk
  geo : t.geo=s.geo

theorem ideal_store {a : Ata} (h : Ideal a) (lba n : Nat) (buf : Nat → UInt8) : Ideal (a.store lba n buf) :=
  ⟨h.1,h.2⟩

theorem sectorWrite_onIdeal (h : Ideal s.ata) (lba : Nat) (hlba : lba<268435456) :
    ∃ t, sectorWrite lba s=(some true,t) ∧ OnIdeal s t (writeFrom s.ata.disk lba 1 s.sectorBuf) ∧
      t.sectorBuf=s.sectorBuf := by
  have hwrite := sectorWrite_ideal h lba
  rw [u28_of_lt hlba] at hwrite
  exact ⟨_,hwrite,⟨ideal_store h _ _ _,rfl,rfl⟩,rfl⟩

theorem fillSectors_ideal (h : Ideal s.ata) (lba : Nat) (hn : lba+n≤268435456) :
    ∃ t, fillSectors n lba s=(some true,t) ∧ OnIdeal s t (filled s.ata.disk lba n s.sectorBuf) ∧
      t.sectorBuf=s.sectorBuf := by
  induction n generalizing lba s with
  | zero =>
    refine ⟨s,rfl,⟨h,?_,rfl⟩,rfl⟩
    funext sec o
    simp only [filled]
    rw [if_neg (by omega)]
  | succ n ih =>
    obtain ⟨t,hwrite,hon,hbuf⟩ := sectorWrite_onIdeal h lba (by omega)
    have hnext : u32 (lba+1)=lba+1 := by
      unfold u32
      omega
    obtain ⟨u,hu,hon',hbuf'⟩ := ih hon.ideal (lba+1) (by omega)
    refine ⟨u,?_,⟨hon'.ideal,?_,hon'.geo.trans hon.geo⟩,hbuf'.trans hbuf⟩
    · rw [fillSectors,bind_some hwrite,if_pos rfl,hnext,hu]
    · rw [hon'.disk,hon.disk,hbuf,filled_succ]

theorem readInto_filled (hn : 1≤n) : readInto (filled disk lba n buf) lba 1 buf=buf := by
  funext i
  unfold readInto filled
  split
  next hi =>
    unfold SECTOR_SIZE at hi ⊢
    rw [if_pos (by omega),Nat.mod_eq_of_lt (by omega)]
  next => rfl

def tableWritten (disk : Nat → Nat → UInt8) (lba fatSz : Nat) (buf : Nat → UInt8) : Nat → Nat → UInt8 :=
  writeFrom (filled disk lba fatSz buf) lba 1 (patch 0 tableMarks buf)

theorem tableWritten_outside {sec : Nat} (hpos : 1≤fatSz) (h : sec<lba ∨ lba+fatSz ≤ sec) :
    tableWritten disk lba fatSz buf sec=disk sec := by
  rw [tableWritten,writeFrom_of_ne (by omega),filled_outside h]

theorem tableWritten_first : tableWritten disk lba fatSz buf lba=patch 0 tableMarks buf := by
  rw [tableWritten,writeFrom_self]

theorem tableWritten_rest {k : Nat} (hk : 1≤k) (hkf : k<fatSz) : tableWritten disk lba fatSz buf (lba+k)=buf := by
  rw [tableWritten,writeFrom_of_ne (by omega),filled_inside hkf]

theorem mkfsTables_step (part : Nat) (h : Ideal s.ata) (hpos : 1≤fatSz)
    (hend : part+MKFS_RESERVED+f*fatSz+fatSz≤268435456) :
    ∃ t, mkfsTables part fatSz (n+1) f s=mkfsTables part fatSz n (f+1) t ∧
      OnIdeal s t (tableWritten s.ata.disk (part+MKFS_RESERVED+f*fatSz) fatSz s.sectorBuf) ∧
      t.sectorBuf=patch 0 tableMarks s.sectorBuf := by
  have hlba : u32 (part+MKFS_RESERVED+f*fatSz)=part+MKFS_RESERVED+f*fatSz := by
    unfold u32
    omega
  generalize hL : part+MKFS_RESERVED+f*fatSz=lba at hend hlba ⊢
  obtain ⟨t,hfill,hon,hbuf⟩ := fillSectors_ideal (n := fatSz) h lba hend
  have hread := sectorRead_ideal hon.ideal lba
  rw [u28_of_lt (by omega),hon.disk,hbuf,readInto_filled hpos] at hread
  obtain ⟨u,hwrite,hon',hbuf'⟩ := sectorWrite_onIdeal (s := { t with
    sectorBuf := patch 0 tableMarks s.sectorBuf
    ata := { t.ata with ops := t.ata.ops+1 } }) hon.ideal lba (by omega)
  refine ⟨u,?_,⟨hon'.ideal,?_,hon'.geo.trans hon.geo⟩,hbuf'⟩
  · rw [mkfsTables,hL,hlba]
    rw [bind_some hfill,if_pos rfl,bind_some hread,if_pos rfl,setSectorBuf,update_bind,
      bind_some hwrite,if_pos rfl]
  · rw [hon'.disk,tableWritten,← hon.disk]

structure Formatted (part size fatSz : Nat) (disk : Nat → Nat → UInt8) : Prop where
  boot : ∀ o, o<512 → disk part o=bootBuf part size fatSz (fun _ => 0) o
  first : ∀ o, o<512 → disk (part+MKFS_RESERVED) o=patch 0 tableMarks (fun _ => 0) o
  table : ∀ k, 1≤k → k<fatSz → ∀ o, o<512 → disk (part+MKFS_RESERVED+k) o=0
  root : ∀ k, k<8 → ∀ o, o<512 → disk (part+MKFS_RESERVED+MKFS_FATS*fatSz+k) o=0

def mkfsDisk (disk : Nat → Nat → UInt8) (part fatSz : Nat) (boot info zero cluster : Nat → UInt8) :
    Nat → Nat → UInt8 :=
  writeFrom
    (tableWritten
      (tableWritten (writeFrom (writeFrom disk part 1 boot) (part+1) 1 info) (part+MKFS_RESERVED) fatSz
        zero)
      (part+MKFS_RESERVED+fatSz) fatSz (patch 0 tableMarks zero))
    (part+MKFS_RESERVED+MKFS_FATS*fatSz) MKFS_SPC cluster

theorem formatted_mkfsDisk {boot info zero cluster : Nat → UInt8}
    (hboot : ∀ o, o<512 → boot o=bootBuf part size fatSz (fun _ => 0) o)
    (hzero : ∀ o, o<512 → zero o=0) (hcluster : ∀ o, o<4096 → cluster o=0) (hpos : 1≤fatSz) :
    Formatted part size fatSz (mkfsDisk disk part fatSz boot info zero cluster) := by
  have hmarks : ∀ o, o<512 → patch 0 tableMarks zero o=patch 0 tableMarks (fun _ => 0) o := by
    intro o ho
    exact patch_congr (hzero o ho)
  have hres : MKFS_RESERVED=32 := rfl
  have hfats : MKFS_FATS*fatSz=2*fatSz := rfl
  have hspc : MKFS_SPC=8 := rfl
  refine ⟨?_,?_,?_,?_⟩
  · intro o ho
    rw [mkfsDisk,writeFrom_outside (by omega),tableWritten_outside hpos (by omega),
      tableWritten_outside hpos (by omega),writeFrom_of_ne (by omega),writeFrom_self]
    exact hboot o ho
  · intro o ho
    rw [mkfsDisk,writeFrom_outside (by omega),tableWritten_outside hpos (by omega),
      tableWritten_first]
    exact hmarks o ho
  · intro k hk hkf o ho
    rw [mkfsDisk,writeFrom_outside (by omega),tableWritten_outside hpos (by omega),
      tableWritten_rest hk hkf]
    exact hzero o ho
  · intro k hk o ho
    rw [mkfsDisk,writeFrom_inside (by omega)]
    apply hcluster
    unfold SECTOR_SIZE
    omega

theorem mkfsDisk_front {boot info zero cluster : Nat → UInt8} (hpos : 1≤fatSz) {sec : Nat} (hsec : sec<part) :
    mkfsDisk disk part fatSz boot info zero cluster sec=disk sec := by
  rw [mkfsDisk,writeFrom_outside (by omega),tableWritten_outside hpos (by omega),
    tableWritten_outside hpos (by omega),writeFrom_of_ne (by omega),writeFrom_of_ne (by omega)]

def MadeFrom (part size fatSz : Nat) (disk disk' : Nat → Nat → UInt8) : Prop :=
  ∃ boot info zero cluster, (∀ o, o<512 → boot o=bootBuf part size fatSz (fun _ => 0) o) ∧
    (∀ o, o<512 → zero o=0) ∧ (∀ o, o<4096 → cluster o=0) ∧
    disk'=mkfsDisk disk part fatSz boot info zero cluster

theorem patch_self (o : Nat) (bytes : List UInt8) (buf : Nat → UInt8) :
    patch o bytes (patch o bytes buf)=patch o bytes buf := by
  funext i
  simp only [patch]
  split
  · rfl
  · rfl

section Made
variable {disk' : Nat → Nat → UInt8} {sec : Nat} (h : MadeFrom part size fatSz disk disk') (hpos : 1≤fatSz)
include h hpos

theorem MadeFrom.formatted : Formatted part size fatSz disk' := by
  obtain ⟨boot,info,zero,cluster,hboot,hzero,hcluster,rfl⟩ := h
  exact formatted_mkfsDisk hboot hzero hcluster hpos

theorem MadeFrom.front (hsec : sec<part) : disk' sec=disk sec := by
  obtain ⟨boot,info,zero,cluster,_,_,_,rfl⟩ := h
  exact mkfsDisk_front hpos hsec

theorem MadeFrom.behind (hsec : part+MKFS_RESERVED+MKFS_FATS*fatSz+MKFS_SPC ≤ sec) : disk' sec=disk sec := by
  obtain ⟨boot,info,zero,cluster,_,_,_,rfl⟩ := h
  simp only [MKFS_RESERVED,MKFS_FATS,MKFS_SPC] at hsec
  rw [mkfsDisk,writeFrom_outside (by simp only [MKFS_RESERVED,MKFS_FATS,MKFS_SPC]; omega),
    tableWritten_outside hpos (by simp only [MKFS_RESERVED]; omega),
    tableWritten_outside hpos (by simp only [MKFS_RESERVED]; omega),writeFrom_of_ne (by omega),
    writeFrom_of_ne (by omega)]

omit hpos in
theorem MadeFrom.second {k : Nat} (hk : k<fatSz) {o : Nat} (ho : o<512) :
    disk' (part+MKFS_RESERVED+fatSz+k) o=patch 0 tableMarks (fun _ => 0) o := by
  obtain ⟨boot,info,zero,cluster,_,hzero,_,rfl⟩ := h
  have hfats : MKFS_FATS*fatSz=2*fatSz := rfl
  have hmarks : patch 0 tableMarks zero o=patch 0 tableMarks (fun _ => 0) o := patch_congr (hzero o ho)
  rw [mkfsDisk,writeFrom_outside (by omega)]
  rcases Nat.eq_zero_or_pos k with rfl | hk0
  · simp only [Nat.add_zero]
    rw [tableWritten_first,patch_self,hmarks]
  · rw [tableWritten_rest hk0 hk,hmarks]

end Made

theorem mkfsSectors_made (h : Ideal s.ata) (hpos : 1≤fatSz)
    (hend : part+MKFS_RESERVED+MKFS_FATS*fatSz+MKFS_SPC≤268435456) :
    ∃ t, mkfsSectors part size fatSz s=(some .ok,t) ∧ Ideal t.ata ∧ t.geo.partitionLba=part ∧
      MadeFrom part size fatSz s.ata.disk t.ata.disk := by
  simp only [MKFS_RESERVED,MKFS_FATS,MKFS_SPC] at hend
  have hsecond : u32 (part+1)=part+1 := by
    unfold u32
    omega
  have hroot : u32 (part+32+2*fatSz)=part+32+2*fatSz := by
    unfold u32
    omega
  -- the boot sector, the information sector, the two tables, the root directory
  obtain ⟨s1,h1,hon1,hbuf1⟩ := sectorWrite_onIdeal
    (s := { s with sectorBuf := bootBuf part size fatSz s.sectorBuf }) h part (by omega)
  obtain ⟨s2,h2,hon2,hbuf2⟩ := sectorWrite_onIdeal
    (s := { s1 with sectorBuf := infoBuf s1.sectorBuf }) hon1.ideal (part+1) (by omega)
  obtain ⟨s3,h3,hon3,hbuf3⟩ := mkfsTables_step part (n := 1) (f := 0)
    (s := { s2 with sectorBuf := zeroFront SECTOR_SIZE s2.sectorBuf }) hon2.ideal hpos
    (by simp only [MKFS_RESERVED]; omega)
  obtain ⟨s4,h4,hon4,hbuf4⟩ := mkfsTables_step part (n := 0) (f := 1) hon3.ideal hpos
    (by simp only [MKFS_RESERVED]; omega)
  have htables : mkfsTables part fatSz MKFS_FATS 0
      { s2 with sectorBuf := zeroFront SECTOR_SIZE s2.sectorBuf }=(some true,s4) := h3.trans h4
  have hwrite : clusterWriteAt (part+32+2*fatSz) MKFS_SPC
      { s4 with clusterBuf := zeroFront (SECTOR_SIZE*8) s4.clusterBuf }=(some true,{ s4 with
        clusterBuf := zeroFront (SECTOR_SIZE*8) s4.clusterBuf
        ata := s4.ata.store (part+32+2*fatSz) MKFS_SPC (zeroFront (SECTOR_SIZE*8) s4.clusterBuf) }) := by
    rw [clusterWriteAt,ataWriteSectors_ideal hon4.ideal (by decide),u28_of_lt (by omega)]
  refine ⟨{ s4 with
      mounted := false
      geo := { s4.geo with partitionLba := part }
      clusterBuf := zeroFront (SECTOR_SIZE*8) s4.clusterBuf
      ata := s4.ata.store (part+32+2*fatSz) MKFS_SPC (zeroFront (SECTOR_SIZE*8) s4.clusterBuf) },
    ?_,ideal_store hon4.ideal _ _ _,rfl,?_⟩
  · rw [mkfsSectors,setSectorBuf,update_bind,bind_some h1,if_pos rfl,setSectorBuf,update_bind,hsecond,
      bind_some h2,if_pos rfl,setSectorBuf,update_bind,bind_some htables,if_pos rfl,mkfsRoot,
      setClusterBuf,update_bind]
    simp only [MKFS_RESERVED,MKFS_FATS]
    rw [hroot,bind_some hwrite,if_pos rfl,update_bind]
    rfl
  · have hdisk : writeFrom s4.ata.disk (part+32+2*fatSz) MKFS_SPC (zeroFront (SECTOR_SIZE*8) s4.clusterBuf) =
        mkfsDisk s.ata.disk part fatSz (bootBuf part size fatSz s.sectorBuf) (infoBuf s1.sectorBuf)
          (zeroFront SECTOR_SIZE s2.sectorBuf) (zeroFront (SECTOR_SIZE*8) s4.clusterBuf) := by
      rw [hon4.disk,hbuf3,hon3.disk]
      simp only [hon2.disk,hon1.disk,Nat.zero_mul,Nat.one_mul,Nat.add_zero]
      rfl
    refine ⟨_,_,_,_,?_,?_,?_,hdisk⟩
    · intro o ho
      refine patch_congr (patch_congr ?_)
      exact (zeroFront_of_lt ho).trans (zeroFront_of_lt ho).symm
    · intro o ho
      exact zeroFront_of_lt ho
    · intro o ho
      apply zeroFront_of_lt
      unfold SECTOR_SIZE
      omega

theorem fat32Mkfs_made (part size : Nat) (h : Ideal s.ata) (hpos : 1 ≤ mkfsFatSize (mkfsSize size))
    (hend : part+MKFS_RESERVED+MKFS_FATS*mkfsFatSize (mkfsSize size)+MKFS_SPC≤268435456) :
    ∃ t, fat32Mkfs part size s=(some .ok,t) ∧ Ideal t.ata ∧ t.geo.partitionLba=part ∧
      MadeFrom part (mkfsSize size) (mkfsFatSize (mkfsSize size)) s.ata.disk t.ata.disk := by
  rw [fat32Mkfs,state_bind,if_neg h.not_absent]
  exact mkfsSectors_made h hpos hend

theorem fat32Mkfs_ideal (part size : Nat) (h : Ideal s.ata) (hpos : 1 ≤ mkfsFatSize (mkfsSize size))
    (hend : part+MKFS_RESERVED+MKFS_FATS*mkfsFatSize (mkfsSize size)+MKFS_SPC≤268435456) :
    ∃ t, fat32Mkfs part size s=(some .ok,t) ∧ Ideal t.ata ∧ t.geo.partitionLba=part ∧
      Formatted part (mkfsSize size) (mkfsFatSize (mkfsSize size)) t.ata.disk ∧
      ∀ sec, sec<part → t.ata.disk sec=s.ata.disk sec := by
  obtain ⟨t,hrun,hideal,hpart,hmade⟩ := fat32Mkfs_made part size h hpos hend
  exact ⟨t,hrun,hideal,hpart,hmade.formatted hpos,fun _ hsec => hmade.front hpos hsec⟩

def mkfsGeo (part size fatSz : Nat) : Geo where
  partitionLba := part
  fatStart := MKFS_RESERVED
  dataStart := MKFS_RESERVED+MKFS_FATS*fatSz
  rootCluster := 2
  sectorsPerCluster := MKFS_SPC
  fatSizeSectors := fatSz
  numFats := MKFS_FATS
  totalClusters := (size-(MKFS_RESERVED+MKFS_FATS*fatSz))/MKFS_SPC

/-- The areas fit, the table has an entry for every cluster, and the drive can address it. -/
structure MkfsFits (part size fatSz : Nat) : Prop where
  pos : 1≤fatSz
  data : 32+2*fatSz+8 ≤ size
  table : (size-(32+2*fatSz))/8+2≤128*fatSz
  onDisk : part+size≤268435456

/-- The same without the table: it may have too few entries. -/
structure MkfsRoom (part size fatSz : Nat) : Prop where
  pos : 1≤fatSz
  data : 32+2*fatSz+8 ≤ size
  onDisk : part+size≤268435456

theorem MkfsFits.room (h : MkfsFits part size fatSz) : MkfsRoom part size fatSz := ⟨h.pos,h.data,h.onDisk⟩

theorem ascii_oem : ascii "MSWIN4.1"=[0x4D,0x53,0x57,0x49,0x4E,0x34,0x2E,0x31] := by
  decide +kernel

theorem ascii_label : ascii "MYKERNEL   "=[0x4D,0x59,0x4B,0x45,0x52,0x4E,0x45,0x4C,0x20,0x20,0x20] := by
  decide +kernel

theorem ascii_type : ascii "FAT32   "=[0x46,0x41,0x54,0x33,0x32,0x20,0x20,0x20] := by
  decide +kernel

theorem length_bpbBytes : (bpbBytes part size fatSz).length=90 := by
  unfold bpbBytes
  simp only [List.length_append,ascii_oem,ascii_label,ascii_type,halfBytes,wordBytes,List.length_cons,
    List.length_nil,List.length_replicate]

theorem bootBuf_front (buf : Nat → UInt8) {o : Nat} (h : o<90) :
    bootBuf part size fatSz buf o=(bpbBytes part size fatSz).getD o 0 := by
  simp only [bootBuf,patch,length_bpbBytes]
  rw [if_neg (by omega),if_pos (by omega),Nat.sub_zero]

theorem bpbOf_bootBuf (hsize : size<4294967296) (hfat : fatSz<4294967296) (buf : Nat → UInt8) :
    bpbOf (bootBuf part size fatSz buf) =
      ⟨512,MKFS_SPC,MKFS_RESERVED,MKFS_FATS,0,size,fatSz,2,0x29,0x46⟩ := by
  simp (disch := omega) only [bpbOf,halfAt,wordAt,bootBuf_front]
  generalize hl : bpbBytes part size fatSz=l
  unfold bpbBytes at hl
  rw [ascii_oem,ascii_label,ascii_type] at hl
  simp only [halfBytes,wordBytes,List.cons_append,List.nil_append,List.replicate] at hl
  subst hl
  simp only [List.getD_cons_succ,List.getD_cons_zero,le32_byteOf hsize,le32_byteOf hfat]
  rfl

theorem geoOf_mkfs (hfat : 32+2*fatSz<4294967296) (hdata : 32+2*fatSz<size) :
    geoOf part ⟨512,MKFS_SPC,MKFS_RESERVED,MKFS_FATS,0,size,fatSz,2,0x29,0x46⟩ =
      mkfsGeo part size fatSz := by
  have hstart : u32 (32+2*fatSz)=32+2*fatSz := u32_of_lt hfat
  simp [geoOf,mkfsGeo,MKFS_FATS,MKFS_RESERVED,MKFS_SPC,hstart]
  omega

theorem tryMountAt_boot (h : Ideal s.ata) (hpos : 1≤fatSz) (hfat : 32+2*fatSz<4294967296) (hdata : 32+2*fatSz<size)
    (hboot : bpbOf (s.ata.disk (u28 part)) =
      ⟨512,MKFS_SPC,MKFS_RESERVED,MKFS_FATS,0,size,fatSz,2,0x29,0x46⟩) :
    ∃ buf, tryMountAt part s=(some true,{ s with
      geo := mkfsGeo part size fatSz
      sectorBuf := buf
      ata := { s.ata with ops := s.ata.ops+1 } }) := by
  have hread := sectorRead_ideal (s := { s with geo := { s.geo with partitionLba := part } }) h part
  have hboot' : bpbOf (readInto s.ata.disk (u28 part) 1 s.sectorBuf) =
      ⟨512,MKFS_SPC,MKFS_RESERVED,MKFS_FATS,0,size,fatSz,2,0x29,0x46⟩ := by
    rw [bpbOf_readInto,hboot]
  refine ⟨readInto s.ata.disk (u28 part) 1 s.sectorBuf,?_⟩
  rw [tryMountAt,update_bind,bind_some hread,if_pos rfl,state_bind]
  simp only [hboot',geoOf_mkfs hfat hdata]
  rw [if_neg (by simp; omega),if_neg (by decide),update_bind]
  rfl

section Room
variable (hroom : MkfsRoom part size fatSz)
include hroom

theorem findFatPartition_boot (h : Ideal s.ata)
    (hboot : bpbOf (s.ata.disk 0)=⟨512,MKFS_SPC,MKFS_RESERVED,MKFS_FATS,0,size,fatSz,2,0x29,0x46⟩) :
    ∃ buf, findFatPartition s=(some true,{ s with
      geo := { s.geo with partitionLba := 0 }
      sectorBuf := buf
      ata := { s.ata with ops := s.ata.ops+1 } }) := by
  have hpos := hroom.pos
  have hread := sectorRead_ideal h 0
  have hboot' : bpbOf (readInto s.ata.disk (u28 0) 1 s.sectorBuf) =
      ⟨512,MKFS_SPC,MKFS_RESERVED,MKFS_FATS,0,size,fatSz,2,0x29,0x46⟩ := by
    rw [bpbOf_readInto,u28_of_lt (by decide),hboot]
  refine ⟨readInto s.ata.disk (u28 0) 1 s.sectorBuf,?_⟩
  rw [findFatPartition,bind_some hread,if_pos rfl,state_bind]
  simp only [hboot']
  rw [if_pos ⟨trivial,by decide,by decide,by omega,.inl trivial⟩]
  rfl

theorem fat32Mount_boot (h : Ideal s.ata) (hpart : s.geo.partitionLba=part)
    (hboot : bpbOf (s.ata.disk part)=⟨512,MKFS_SPC,MKFS_RESERVED,MKFS_FATS,0,size,fatSz,2,0x29,0x46⟩) :
    ∃ t, fat32Mount s=(some .ok,t) ∧ t.mounted=true ∧ Ideal t.ata ∧
      t.geo=mkfsGeo part size fatSz ∧ t.ata.disk=s.ata.disk ∧ t.allocated=s.allocated := by
  have hpos := hroom.pos
  have hdata := hroom.data
  have hdisk := hroom.onDisk
  have hlba : u28 part=part := u28_of_lt (by omega)
  have hready : ataReady { s with mounted := false }=(some true,{ s with mounted := false }) := if_pos h.1
  rw [fat32Mount,setMounted,update_bind,bind_some hready,if_pos rfl,state_bind]
  simp only [hpart]
  by_cases hne : part≠0
  · obtain ⟨buf,htry⟩ := tryMountAt_boot (s := { s with mounted := false }) h hpos (by omega) (by omega)
      (hlba.symm ▸ hboot)
    rw [if_pos hne,bind_some htry,if_pos rfl,setMounted,update_bind]
    exact ⟨_,rfl,rfl,⟨h.1,h.2⟩,rfl,rfl,rfl⟩
  · rw [not_not] at hne
    subst hne
    obtain ⟨buf,hfind⟩ := findFatPartition_boot hroom (s := { s with mounted := false }) h hboot
    obtain ⟨buf',htry⟩ := tryMountAt_boot (s := { s with
      mounted := false
      geo := { s.geo with partitionLba := 0 }
      sectorBuf := buf
      ata := { s.ata with ops := s.ata.ops+1 } }) ⟨h.1,h.2⟩ hpos (by omega) (by omega) (hlba.symm ▸ hboot)
    rw [if_neg (by simp),mountFound,bind_some hfind,if_pos rfl,state_bind,bind_some htry,if_pos rfl,
      setMounted,update_bind]
    exact ⟨_,rfl,rfl,⟨h.1,h.2⟩,rfl,rfl,rfl⟩

theorem Formatted.boot_fields (hf : Formatted part size fatSz disk) :
    bpbOf (disk part)=⟨512,MKFS_SPC,MKFS_RESERVED,MKFS_FATS,0,size,fatSz,2,0x29,0x46⟩ := by
  have hdata := hroom.data
  have hdisk := hroom.onDisk
  rw [bpbOf_congr hf.boot,bpbOf_bootBuf (by omega) (by omega)]

theorem MkfsRoom.fatLba {c : Nat} (hc : c<128*fatSz) (hlt : c<1073741824) {f : Nat} (hf : f<2) :
    copySector (mkfsGeo part size fatSz) c f=part+MKFS_RESERVED+f*fatSz+c/128 := by
  have hdata := hroom.data
  have hdisk := hroom.onDisk
  have hmul : f*fatSz≤1*fatSz := Nat.mul_le_mul_right _ (by omega)
  have hsmall : u32 (c*4)=c*4 := u32_of_lt (by omega)
  simp only [copySector,fatSector,mkfsGeo,MKFS_RESERVED,SECTOR_SIZE,hsmall]
  unfold u28 u32
  omega

omit hroom in
theorem Formatted.copyWord_eq (hf : Formatted part size fatSz disk) {c : Nat} (hc : c<128*fatSz) :
    copyWord (mkfsGeo part size fatSz) disk 0 c =
      wordAt (if c<128 then patch 0 tableMarks fun _ => 0 else fun _ => 0) (4*(c%128)) := by
  rw [copyWord,Nat.zero_mul,Nat.add_zero]
  apply wordAt_congr
  intro k hk
  split
  next hlt =>
    rw [Nat.div_eq_of_lt hlt]
    exact hf.first _ (by omega)
  next hge => exact hf.table (c/128) (by omega) (by omega) _ (by omega)

theorem Formatted.fatOf_eq (hf : Formatted part size fatSz disk) {c : Nat} (hc : c<128*fatSz) (hlt : c<1073741824) :
    fatOf (mkfsGeo part size fatSz) disk c =
      wordAt (if c<128 then patch 0 tableMarks fun _ => 0 else fun _ => 0) (4*(c%128))%0x10000000 := by
  have hlba := hroom.fatLba hc hlt (f := 0) (by decide)
  rw [Nat.zero_mul,Nat.add_zero] at hlba
  rw [← hf.copyWord_eq hc,fatOf,← copySector_zero,hlba,entOffset_eq,copyWord,Nat.zero_mul,Nat.add_zero]
  rfl

theorem Formatted.root_end (hf : Formatted part size fatSz disk) : EOC≤fatOf (mkfsGeo part size fatSz) disk 2 := by
  have hpos := hroom.pos
  rw [hf.fatOf_eq hroom (by omega) (by decide)]
  decide +kernel

omit hroom in
theorem wordAt_marks {j : Nat} (h3 : 3≤j) : wordAt (patch 0 tableMarks fun _ => 0) (4*j)=0 := by
  have hlen : tableMarks.length=12 := rfl
  have hzero : ∀ i, 12 ≤ i → patch 0 tableMarks (fun _ => 0) i=0 := by
    intro i hi
    exact if_neg (by omega)
  simp (disch := omega) only [wordAt,hzero]
  rfl

theorem Formatted.free (hf : Formatted part size fatSz disk) {c : Nat} (h3 : 3≤c) (hc : c<128*fatSz)
    (hlt : c<1073741824) : fatOf (mkfsGeo part size fatSz) disk c=0 := by
  rw [hf.fatOf_eq hroom hc hlt]
  split
  next hlt => rw [wordAt_marks (by omega)]
  next => rfl

theorem Formatted.root_zero (hf : Formatted part size fatSz disk) {i : Nat} (hi : i<4096) :
    dataOf (mkfsGeo part size fatSz) disk 2 i=0 := by
  have hdata := hroom.data
  have hdisk := hroom.onDisk
  have hlba : u28 (u32 ((mkfsGeo part size fatSz).partitionLba+clusterToLba (mkfsGeo part size fatSz) 2)) =
      part+MKFS_RESERVED+MKFS_FATS*fatSz := by
    have hsub : sub32 2 2=0 := rfl
    simp only [clusterToLba,mkfsGeo,hsub,MKFS_RESERVED,MKFS_FATS,Nat.zero_mul]
    unfold u28 u32
    omega
  rw [dataOf,hlba]
  exact hf.root (i/512) (by omega) (i%512) (by omega)

end Room

section Fits
variable (hfits : MkfsFits part size fatSz)
include hfits

theorem MkfsFits.area : Area (mkfsGeo part size fatSz) := by
  have hdata := hfits.data
  have htable := hfits.table
  have hdisk := hfits.onDisk
  refine ⟨?_,?_,?_,rfl,?_⟩
  · simp [mkfsGeo,MKFS_SPC]
  · simp [mkfsGeo,MKFS_FATS]
  · exact htable
  · simp only [mkfsGeo,MKFS_FATS,MKFS_RESERVED,MKFS_SPC]
    omega

theorem fat32Mount_formatted (h : Ideal s.ata) (hpart : s.geo.partitionLba=part)
    (hf : Formatted part size fatSz s.ata.disk) :
    ∃ t, fat32Mount s=(some .ok,t) ∧ t.mounted=true ∧ Ideal t.ata ∧
      t.geo=mkfsGeo part size fatSz ∧ t.ata.disk=s.ata.disk := by
  obtain ⟨t,hrun,hm,hideal,hgeo,hsame,_⟩ := fat32Mount_boot hfits.room h hpart (hf.boot_fields hfits.room)
  exact ⟨t,hrun,hm,hideal,hgeo,hsame⟩

theorem MkfsFits.has_cluster : 1≤(mkfsGeo part size fatSz).totalClusters := by
  have hdata := hfits.data
  simp only [mkfsGeo,MKFS_FATS,MKFS_RESERVED,MKFS_SPC]
  omega

theorem Formatted.free_cluster (hf : Formatted part size fatSz disk) {c : Nat} (h3 : 3≤c)
    (hc : c≤(mkfsGeo part size fatSz).totalClusters+1) : fatOf (mkfsGeo part size fatSz) disk c=0 := by
  have htable : (mkfsGeo part size fatSz).totalClusters+2≤128*fatSz := hfits.area.table
  have hlt := hfits.area.clusters_lt
  exact hf.free hfits.room h3 (by omega) (by omega)

theorem Formatted.emptyRoot (hf : Formatted part size fatSz disk) :
    EmptyRoot (mkfsGeo part size fatSz)
      ⟨fatOf (mkfsGeo part size fatSz) disk,dataOf (mkfsGeo part size fatSz) disk⟩ := by
  have htotal := hfits.has_cluster
  refine ⟨⟨hfits.area.spc,Nat.le_refl 8⟩,hfits.table,⟨Nat.le_refl 2,Nat.succ_le_succ htotal⟩,
    hf.root_end hfits.room,?_,?_⟩
  · intro c hc h2 hne
    have hroot : (mkfsGeo part size fatSz).rootCluster=2 := rfl
    exact hf.free_cluster hfits (by omega) (by omega)
  · intro k hk
    have hper : entriesPerCluster (mkfsGeo part size fatSz)=128 := rfl
    exact hf.root_zero hfits.room (by omega)

end Fits

end MyKernel.Fat32
