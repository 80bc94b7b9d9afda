import MyKernel.Fat32.Mkfs
import MyKernel.Fat32.Partition
import MyKernel.Fat32.Scanners

/-! What `fat32_mkfs` promises to `fat32_mount`. -/
namespace MyKernel.Fat32
open Memory MyKernel.Computation Disk

variable {s t : Fat} {part size fatSz lba n f sec lo hi : Nat} {α : Type}

theorem tableSectors_eq (h : n≤536870912) : tableSectors n=(n+127)/128 := by
  unfold tableSectors u32
  omega

theorem mkfsFatSize_eq (hsize : 2048 ≤ size) (hlt : size<4294967296) :
    mkfsFatSize size=(size+984-2*((size+984)/1024))/1024 := by
  have hdata : sub32 size 32=size-32 := sub32_of_le (by omega) hlt
  have hfirst : tableSectors ((size-32)/8)=(size+984)/1024 := by
    rw [tableSectors_eq (by omega)]
    omega
  have htwice : u32 (2*((size+984)/1024))=2*((size+984)/1024) := u32_of_lt (by omega)
  have hrest : sub32 (size-32) (2*((size+984)/1024))=size-32-2*((size+984)/1024) :=
    sub32_of_le (by omega) (by omega)
  simp only [mkfsFatSize,MKFS_RESERVED,MKFS_SPC,MKFS_FATS,hdata,hfirst]
  rw [if_neg (by omega),htwice,hrest,tableSectors_eq (by omega)]
  omega

theorem mkfsFatSize_room (hsize : 2048 ≤ size) (hlt : size<4294967296) :
    2 ≤ mkfsFatSize size ∧ 32+2*mkfsFatSize size+8 ≤ size ∧ mkfsFatSize size<8388608 := by
  rw [mkfsFatSize_eq hsize hlt]
  omega

/-- The remainder of the size decides whether the table has an entry for every cluster. -/
theorem mkfsFatSize_fits_iff (hsize : 2048 ≤ size) (hlt : size<4294967296) :
    (size-(32+2*mkfsFatSize size))/8+2≤128*mkfsFatSize size ↔
      18+2*((2*((size+1002)/1026)+(size+1002)%1026-18)/1024)≤(size+1002)%1026 := by
  obtain ⟨_,hroom,_⟩ := mkfsFatSize_room hsize hlt
  have hF := mkfsFatSize_eq hsize hlt
  generalize mkfsFatSize size=F at hroom hF ⊢
  have hdiv := Nat.div_add_mod (size+1002) 1026
  have hmod := Nat.mod_lt (size+1002) (show 1026>0 by decide)
  generalize (size+1002)/1026=k at hdiv ⊢
  generalize (size+1002)%1026=r at hdiv hmod ⊢
  generalize hfirst : (size+984)/1024=first at hF
  -- the table fits when it has one sector for every 1026 of the size
  have hfits : (size-(32+2*F))/8+2≤128*F ↔ k≤F := by omega
  have hsecond : k≤F ↔ 2*first+18≤2*k+r := by omega
  rw [hfits,hsecond]
  by_cases hsmall : 2*k+r<18
  · omega
  · have hsum : first=k+(2*k+r-18)/1024 := by omega
    omega

/-- On a drive that does not fail the step succeeds and leaves the sector alone. -/
def Spares (sec : Nat) (x : FatM Bool) : Prop :=
  ∀ s : Fat, Ideal s.ata → ∃ t, x s=(some true,t) ∧ Ideal t.ata ∧ t.ata.disk sec=s.ata.disk sec

theorem spares_pure : Spares sec (pure true) := fun s h => ⟨s,rfl,h,rfl⟩

theorem Spares.seq {x y : FatM Bool} (hx : Spares sec x) (hy : Spares sec y) :
    Spares sec (do if ← x then y else pure false) := by
  intro s h
  obtain ⟨t,ht,hideal,hsame⟩ := hx s h
  obtain ⟨u,hu,hideal',hsame'⟩ := hy t hideal
  refine ⟨u,?_,hideal',hsame'.trans hsame⟩
  rw [bind_some ht,if_pos rfl,hu]

theorem Spares.setBuf {x : FatM Bool} (hx : Spares sec x) (g : (Nat → UInt8) → Nat → UInt8) :
    Spares sec (do setSectorBuf g; x) := by
  intro s h
  obtain ⟨t,ht,hideal,hsame⟩ := hx { s with sectorBuf := g s.sectorBuf } h
  exact ⟨t,ht,hideal,hsame⟩

theorem spares_sectorRead (lba : Nat) : Spares sec (sectorRead lba) :=
  fun _ h => ⟨_,sectorRead_ideal h lba,⟨h.1,h.2⟩,rfl⟩

theorem spares_sectorWrite (hne : u28 lba≠sec) : Spares sec (sectorWrite lba) :=
  fun _ h => ⟨_,sectorWrite_ideal h lba,⟨h.1,h.2⟩,writeFrom_of_ne hne.symm⟩

theorem u28_u32_add (n k : Nat) : u28 (u32 n+k)=u28 (n+k) := by
  unfold u28 u32
  omega

theorem u28_u32 (n : Nat) : u28 (u32 n)=u28 n := u28_u32_add n 0

theorem spares_fillSectors (hne : ∀ k, k<n → u28 (lba+k)≠sec) : Spares sec (fillSectors n lba) := by
  induction n generalizing lba with
  | zero => exact spares_pure
  | succ n ih =>
    refine (spares_sectorWrite (hne 0 (by omega))).seq (ih fun k hk => ?_)
    rw [u28_u32_add,Nat.add_assoc,Nat.add_comm 1 k]
    exact hne (k+1) (by omega)

theorem spares_mkfsTables (hpos : 1≤fatSz)
    (hne : ∀ k, k<(f+n)*fatSz → u28 (part+MKFS_RESERVED+k)≠sec) : Spares sec (mkfsTables part fatSz n f) := by
  induction n generalizing f with
  | zero => exact spares_pure
  | succ n ih =>
    have hlt : f*fatSz+fatSz≤(f+(n+1))*fatSz := by
      rw [← Nat.succ_mul]
      exact Nat.mul_le_mul_right _ (by omega)
    have hat : ∀ k, k<fatSz → u28 (u32 (part+MKFS_RESERVED+f*fatSz)+k)≠sec := by
      intro k hk
      rw [u28_u32_add,Nat.add_assoc]
      exact hne _ (by omega)
    have hfirst : u28 (u32 (part+MKFS_RESERVED+f*fatSz))≠sec := hat 0 hpos
    refine (spares_fillSectors hat).seq ((spares_sectorRead _).seq (Spares.setBuf ?_ _))
    refine (spares_sectorWrite hfirst).seq (ih fun k hk => hne k ?_)
    rwa [Nat.add_assoc,Nat.add_comm 1 n] at hk

theorem sector_apart {k : Nat} (hk : 0<k) (hlt : k<268435456) : u28 (part+k)≠u28 part := by
  unfold u28
  omega

theorem clusterWriteAt_ideal (h : Ideal s.ata) (lba : Nat) {count : Nat} (hc : 0<count) :
    clusterWriteAt lba count s=(some true,{ s with ata := s.ata.store (u28 lba) count s.clusterBuf }) := by
  rw [clusterWriteAt,ataWriteSectors_ideal h hc]

/-- The boot sector is on the disk, whatever the partition, also where the addresses wrap around. -/
theorem mkfsSectors_boot (h : Ideal s.ata) (hpos : 1≤fatSz) (hlt : fatSz<8388608) :
    ∃ t, mkfsSectors part size fatSz s=(some .ok,t) ∧ Ideal t.ata ∧
      t.ata.disk (u28 part)=bootBuf part size fatSz s.sectorBuf := by
  have hfirst := sectorWrite_ideal (s := { s with sectorBuf := bootBuf part size fatSz s.sectorBuf }) h part
  obtain ⟨s1,h1,hideal1,hboot1⟩ : ∃ s1, sectorWrite part { s with
      sectorBuf := bootBuf part size fatSz s.sectorBuf }=(some true,s1) ∧ Ideal s1.ata ∧
        s1.ata.disk (u28 part)=bootBuf part size fatSz s.sectorBuf :=
    ⟨_,hfirst,⟨h.1,h.2⟩,writeFrom_self⟩
  have hinfo : Spares (u28 part) (sectorWrite (u32 (part+1))) := by
    apply spares_sectorWrite
    rw [u28_u32]
    exact sector_apart (by decide) (by decide)
  have htables : Spares (u28 part) (mkfsTables part fatSz MKFS_FATS 0) := by
    refine spares_mkfsTables hpos fun k hk => ?_
    simp only [MKFS_FATS,MKFS_RESERVED] at hk ⊢
    rw [Nat.add_assoc]
    exact sector_apart (by omega) (by omega)
  obtain ⟨s2,h2,hideal2,hsame2⟩ := hinfo { s1 with sectorBuf := infoBuf s1.sectorBuf } hideal1
  obtain ⟨s3,h3,hideal3,hsame3⟩ := htables { s2 with sectorBuf := zeroFront SECTOR_SIZE s2.sectorBuf } hideal2
  have hroot := clusterWriteAt_ideal (s := { s3 with clusterBuf := zeroFront (SECTOR_SIZE*8) s3.clusterBuf }) hideal3
    (u32 (part+MKFS_RESERVED+MKFS_FATS*fatSz)) (show 0<MKFS_SPC by decide)
  refine ⟨{ s3 with
      mounted := false
      geo := { s3.geo with partitionLba := part }
      clusterBuf := zeroFront (SECTOR_SIZE*8) s3.clusterBuf
      ata := s3.ata.store (u28 (u32 (part+MKFS_RESERVED+MKFS_FATS*fatSz))) MKFS_SPC
        (zeroFront (SECTOR_SIZE*8) s3.clusterBuf) },?_,⟨hideal3.1,hideal3.2⟩,?_⟩
  · rw [mkfsSectors,setSectorBuf,update_bind,bind_some h1,if_pos rfl,setSectorBuf,update_bind,
      bind_some h2,if_pos rfl,setSectorBuf,update_bind,bind_some h3,if_pos rfl,mkfsRoot,setClusterBuf,
      update_bind,bind_some hroot,if_pos rfl,update_bind]
    rfl
  · have hout : u28 part<u28 (part+MKFS_RESERVED+MKFS_FATS*fatSz) ∨
        u28 (part+MKFS_RESERVED+MKFS_FATS*fatSz)+MKFS_SPC≤u28 part := by
      simp only [MKFS_RESERVED,MKFS_FATS,MKFS_SPC]
      unfold u28
      omega
    rw [u28_u32]
    exact (writeFrom_outside hout).trans (hsame3.trans (hsame2.trans hboot1))

/-- `try_mount_at` counts no more clusters than the table `fat32_mkfs` made has entries. -/
def TableFits (s : Fat) (part size : Nat) : Prop :=
  ∃ t u, fat32Mkfs part size s=(some .ok,t) ∧ tryMountAt part t=(some true,u) ∧
    u.geo.totalClusters+2≤128*u.geo.fatSizeSectors

theorem tableFits_iff (h : Ideal s.ata) (hsize : 2048 ≤ size) (hlt : size<4294967296) :
    TableFits s part size ↔ (size-(32+2*mkfsFatSize size))/8+2≤128*mkfsFatSize size := by
  obtain ⟨h2,hroom,hsmall⟩ := mkfsFatSize_room hsize hlt
  have hkept : mkfsSize size=size := if_neg (by omega)
  obtain ⟨t,hmkfs,hideal,hboot⟩ : ∃ t, fat32Mkfs part size s=(some .ok,t) ∧ Ideal t.ata ∧
      t.ata.disk (u28 part)=bootBuf part size (mkfsFatSize size) s.sectorBuf := by
    rw [fat32Mkfs,state_bind,if_neg h.not_absent,hkept]
    exact mkfsSectors_boot h (by omega) hsmall
  have hfields : bpbOf (t.ata.disk (u28 part)) =
      ⟨512,MKFS_SPC,MKFS_RESERVED,MKFS_FATS,0,size,mkfsFatSize size,2,0x29,0x46⟩ := by
    rw [hboot,bpbOf_bootBuf hlt (by omega)]
  obtain ⟨buf,htry⟩ := tryMountAt_boot hideal (by omega) (by omega) (by omega) hfields
  constructor
  · rintro ⟨t',u,hmkfs',htry',hfits⟩
    obtain rfl : t=t' := by simpa using hmkfs.symm.trans hmkfs'
    obtain rfl := (Prod.mk.inj (htry.symm.trans htry')).2
    exact hfits
  · intro hfits
    exact ⟨t,_,hmkfs,htry,hfits⟩

/-- For every content of the disk, every partition and every size from 2048 on: with 1026 k + r for the size
plus 1002, the table fits exactly when r is at least 18 + 2 ((2 k + r - 18) / 1024). -/
theorem mkfs_table_fits_iff (h : Ideal s.ata) (hsize : 2048 ≤ size) (hlt : size<4294967296) :
    TableFits s part size ↔
      18+2*((2*((size+1002)/1026)+(size+1002)%1026-18)/1024)≤(size+1002)%1026 := by
  rw [tableFits_iff h hsize hlt,mkfsFatSize_fits_iff hsize hlt]

theorem mkfs_table_fits_default : TableFits (attachedTo fun _ _ => 0) 2048 262144 :=
  (mkfs_table_fits_iff ⟨rfl,fun _ => rfl⟩ (by decide) (by decide)).mpr (by decide)

/-- 255 clusters and a table of two sectors, which has no entry for the last of them. -/
theorem mkfs_table_short :
    ¬ ∀ (s : Fat) (part size : Nat), Ideal s.ata → part<4294967296 → 2048 ≤ size → size<4294967296 →
      TableFits s part size := by
  intro h
  have hideal : Ideal (attachedTo fun _ _ => 0).ata := ⟨rfl,fun _ => rfl⟩
  have hfits := h _ 2048 2076 hideal (by decide) (by decide) (by decide)
  rw [tableFits_iff hideal (by decide) (by decide)] at hfits
  exact absurd hfits (by decide)

/-- Since the log was `log`, only sectors from `lo` to `hi` have been stored. -/
def WroteIn (log : List Nat) (lo hi : Nat) (s : Fat) : Prop :=
  ∃ new, s.ata.written=new++log ∧ ∀ sec∈new, lo ≤ sec ∧ sec<hi

variable {log : List Nat}

theorem wroteIn_self (s : Fat) : WroteIn s.ata.written lo hi s := ⟨[],rfl,fun _ h => absurd h List.not_mem_nil⟩

theorem WroteIn.store {a : Ata} {count : Nat} {buf : Nat → UInt8} (hs : WroteIn log lo hi s)
    (ha : a=(ataWriteSectors s.ata lba count buf).2) (hlo : lo≤u28 lba) (hhi : u28 lba+count≤hi) :
    WroteIn log lo hi { s with ata := a } := by
  obtain ⟨new,hlog,hin⟩ := hs
  obtain ⟨m,hm,hwritten⟩ : ∃ m, m≤count ∧ a.written=List.range' (u28 lba) m++s.ata.written := by
    rw [ha]
    unfold ataWriteSectors
    split
    · exact ⟨0,Nat.zero_le _,rfl⟩
    · split
      · exact ⟨count,Nat.le_refl _,rfl⟩
      · exact ⟨_,Nat.min_le_right _ _,rfl⟩
  refine ⟨List.range' (u28 lba) m++new,?_,?_⟩
  · simp only [hwritten,hlog,List.append_assoc]
  · intro sec hsec
    rcases List.mem_append.mp hsec with hsec | hsec
    · obtain ⟨hle,hlt⟩ := List.mem_range'_1.mp hsec
      omega
    · exact hin sec hsec

theorem wroteIn_sectorWrite (hlo : lo≤u28 lba) (hhi : u28 lba<hi) : Preserves (WroteIn log lo hi) (sectorWrite lba) :=
  fun _ hs => hs.store rfl hlo hhi

theorem wroteIn_sectorRead (lba : Nat) : Preserves (WroteIn log lo hi) (sectorRead lba) := by
  rintro s ⟨new,hlog,hin⟩
  exact ⟨new,(sectorRead_written lba s).trans hlog,hin⟩

theorem wroteIn_setSectorBuf (g : (Nat → UInt8) → Nat → UInt8) :
    Preserves (WroteIn log lo hi) (setSectorBuf g) := fun _ hs => hs

theorem wroteIn_fillSectors (hlo : lo≤lba) (hhi : lba+n≤hi) (hdisk : hi≤268435456) :
    Preserves (WroteIn log lo hi) (fillSectors n lba) := by
  induction n generalizing lba with
  | zero => exact preserves_pure true
  | succ n ih =>
    have hat : u28 lba=lba := u28_of_lt (by omega)
    have hnext : u32 (lba+1)=lba+1 := u32_of_lt (by omega)
    refine (wroteIn_sectorWrite (by omega) (by omega)).bind fun b => Preserves.ite ?_ (preserves_pure false)
    rw [hnext]
    exact ih (by omega) (by omega)

theorem wroteIn_mkfsTables (hlo : lo≤part) (hpos : 1≤fatSz) (hhi : part+MKFS_RESERVED+(f+n)*fatSz≤hi)
    (hdisk : hi≤268435456) : Preserves (WroteIn log lo hi) (mkfsTables part fatSz n f) := by
  induction n generalizing f with
  | zero => exact preserves_pure true
  | succ n ih =>
    have hlt : f*fatSz+fatSz≤(f+(n+1))*fatSz := by
      rw [← Nat.succ_mul]
      exact Nat.mul_le_mul_right _ (by omega)
    have hsmall : u32 (part+MKFS_RESERVED+f*fatSz)=part+MKFS_RESERVED+f*fatSz := u32_of_lt (by omega)
    have hat : u28 (part+MKFS_RESERVED+f*fatSz)=part+MKFS_RESERVED+f*fatSz := u28_of_lt (by omega)
    rw [mkfsTables,hsmall]
    refine (wroteIn_fillSectors (by omega) (by omega) hdisk).bind fun b => Preserves.ite ?_ (preserves_pure false)
    refine (wroteIn_sectorRead _).bind fun b => Preserves.ite ?_ (preserves_pure false)
    refine (wroteIn_setSectorBuf _).bind fun _ => ?_
    refine (wroteIn_sectorWrite (by omega) (by omega)).bind fun b => Preserves.ite ?_ (preserves_pure false)
    exact ih (by rwa [Nat.add_assoc f,Nat.add_comm 1 n])

theorem wroteIn_mkfsSectors (hroom : MkfsRoom part size fatSz) :
    Preserves (WroteIn log part (part+size)) (mkfsSectors part size fatSz) := by
  have hpos := hroom.pos
  have hdata := hroom.data
  have hdisk := hroom.onDisk
  have hres : MKFS_RESERVED=32 := rfl
  have hfats : MKFS_FATS*fatSz=2*fatSz := rfl
  have hspc : MKFS_SPC=8 := rfl
  have hfirst : u28 part=part := u28_of_lt (by omega)
  have hinfo : u28 (u32 (part+1))=part+1 := by
    rw [u28_u32,u28_of_lt (by omega)]
  have hroot : u28 (u32 (part+MKFS_RESERVED+MKFS_FATS*fatSz))=part+MKFS_RESERVED+MKFS_FATS*fatSz := by
    rw [u28_u32,u28_of_lt (by omega)]
  have hcluster : Preserves (WroteIn log part (part+size))
      (clusterWriteAt (u32 (part+MKFS_RESERVED+MKFS_FATS*fatSz)) MKFS_SPC) :=
    fun _ hs => hs.store rfl (by omega) (by omega)
  have hdone : Preserves (WroteIn log part (part+size)) (do
      update fun s : Fat => { s with mounted := false, geo := { s.geo with partitionLba := part } }
      pure FatResult.ok) := fun _ hs => hs
  have hzero : Preserves (WroteIn log part (part+size)) (setClusterBuf (zeroFront (SECTOR_SIZE*8))) := fun _ hs => hs
  have htables : Preserves (WroteIn log part (part+size)) (mkfsTables part fatSz MKFS_FATS 0) :=
    wroteIn_mkfsTables (Nat.le_refl _) hpos (by rw [Nat.zero_add]; omega) hdisk
  refine (wroteIn_setSectorBuf _).bind fun _ => ?_
  refine (wroteIn_sectorWrite (by omega) (by omega)).bind fun b => Preserves.ite ?_ (preserves_pure _)
  refine (wroteIn_setSectorBuf _).bind fun _ => ?_
  refine (wroteIn_sectorWrite (by omega) (by omega)).bind fun b => Preserves.ite ?_ (preserves_pure _)
  refine (wroteIn_setSectorBuf _).bind fun _ => ?_
  refine htables.bind fun b => Preserves.ite ?_ (preserves_pure _)
  exact hzero.bind fun _ => hcluster.bind fun b => Preserves.ite hdone (preserves_pure _)

theorem mkfsRoom_of_size (hsize : 2048 ≤ size) (hend : part+size<268435456) :
    MkfsRoom part size (mkfsFatSize size) := by
  obtain ⟨h2,hroom,_⟩ := mkfsFatSize_room hsize (by omega)
  exact ⟨by omega,hroom,by omega⟩

theorem mkfs_mount_made (h : Ideal s.ata) (hsize : 2048 ≤ size) (hend : part+size<268435456) :
    ∃ t u, fat32Mkfs part size s=(some .ok,t) ∧ fat32Mount t=(some .ok,u) ∧ u.mounted=true ∧ Ideal u.ata ∧
      u.geo=mkfsGeo part size (mkfsFatSize size) ∧
      MadeFrom part size (mkfsFatSize size) s.ata.disk u.ata.disk := by
  have hroom := mkfsRoom_of_size hsize hend
  have hdata := hroom.data
  have hkept : mkfsSize size=size := if_neg (by omega)
  obtain ⟨t,hmkfs,hideal,hpart,hmade⟩ := fat32Mkfs_made part size h (by rw [hkept]; exact hroom.pos)
    (by rw [hkept]; simp only [MKFS_RESERVED,MKFS_FATS,MKFS_SPC]; omega)
  rw [hkept] at hmade
  have hfields := (hmade.formatted hroom.pos).boot_fields hroom
  obtain ⟨u,hmount,hm,hideal',hgeo,hsame,_⟩ := fat32Mount_boot hroom hideal hpart hfields
  exact ⟨t,u,hmkfs,hmount,hm,hideal',hgeo,hsame ▸ hmade⟩

/-- For every disk, partition and size: the new volume is mounted with the geometry chosen, its clusters but the root
are free, no callback sees an entry in its root directory, and nothing outside the partition has been stored to. -/
theorem mkfs_mounts_empty (h : Ideal s.ata) (hsize : 2048 ≤ size) (hend : part+size<268435456) :
    ∃ t u, fat32Mkfs part size s=(some .ok,t) ∧ fat32Mount t=(some .ok,u) ∧
      u.geo=mkfsGeo part size (mkfsFatSize size) ∧
      (∀ c, 3≤c → c ≤ min (u.geo.totalClusters+1) (128*u.geo.fatSizeSectors-1) → (fatGet c u).1=some 0) ∧
      (∃ v, (fatGet 2 u).1=some v ∧ EOC≤v) ∧
      (∀ (β : Type) (fn : Dirent → Option β) (fuel : Nat),
        (iterateDir fn (fuel+1) u.geo.rootCluster u).1=some .done) ∧
      WroteIn s.ata.written part (part+size) u ∧
      ∀ sec, sec<part ∨ part+size ≤ sec → u.ata.disk sec=s.ata.disk sec := by
  have hroom := mkfsRoom_of_size hsize hend
  obtain ⟨_,hdata,hsmall⟩ := mkfsFatSize_room hsize (show size<4294967296 by omega)
  have hkept : mkfsSize size=size := if_neg (by omega)
  obtain ⟨t,u,hmkfs,hmount,_,hideal,hgeo,hmade⟩ := mkfs_mount_made h hsize hend
  have hf := hmade.formatted hroom.pos
  have hlog : WroteIn s.ata.written part (part+size) t := by
    have hrun : t=(mkfsSectors part size (mkfsFatSize size) s).2 := by
      rw [fat32Mkfs,state_bind,if_neg h.not_absent,hkept] at hmkfs
      rw [hmkfs]
    rw [hrun]
    exact wroteIn_mkfsSectors hroom s (wroteIn_self s)
  have hreads : Reads (mkfsGeo part size (mkfsFatSize size)) u.ata.disk u := ⟨hgeo,hideal,rfl⟩
  refine ⟨t,u,hmkfs,hmount,hgeo,?_,?_,?_,?_,?_⟩
  · intro c h3 hc
    rw [hgeo] at hc
    have hentries : c≤128*mkfsFatSize size-1 := hc.trans (Nat.min_le_right _ _)
    obtain ⟨w,hget,_⟩ := fatGet_reads hreads c
    rw [hget,hf.free hroom h3 (by omega) (by omega)]
  · obtain ⟨w,hget,_⟩ := fatGet_reads hreads 2
    exact ⟨_,by rw [hget],hf.root_end hroom⟩
  · intro β fn fuel
    have hroot : u.geo.rootCluster=2 := by
      rw [hgeo]
      rfl
    obtain ⟨w,_,hpass⟩ := iterateDir_cluster fn hreads (show 0<8 by decide) (show 2≤2 ∧ 2<EOC by decide)
    have hzero : (chainEntry (mkfsGeo part size (mkfsFatSize size)) u.ata.disk 2 0).mark=0 := by
      rw [chainEntry,chainSlot_head (show 0<128 by decide),mark_direntAt]
      exact hf.root_zero hroom (by decide)
    have hscan : scanEntries (chainEntry (mkfsGeo part size (mkfsFatSize size)) u.ata.disk 2) fn
        (entriesPerCluster (mkfsGeo part size (mkfsFatSize size))) 0 = .stop := if_pos hzero
    rw [hroot,hpass,hscan]
    rfl
  · obtain ⟨new,hnew,hin⟩ := hlog
    exact ⟨new,(mounted_of_mount hmount).2.trans hnew,hin⟩
  · intro sec hsec
    rcases hsec with hfront | hbehind
    · exact hmade.front hroom.pos hfront
    · refine hmade.behind hroom.pos ?_
      simp only [MKFS_RESERVED,MKFS_FATS,MKFS_SPC]
      omega

theorem mkfs_mounts_empty_small :
    ∃ t u, fat32Mkfs 0 2048 (attachedTo fun _ _ => 0xFF)=(some .ok,t) ∧ fat32Mount t=(some .ok,u) ∧
      u.geo.totalClusters=251 := by
  obtain ⟨t,u,hmkfs,hmount,hgeo,_⟩ := mkfs_mounts_empty (s := attachedTo fun _ _ => 0xFF)
    ⟨rfl,fun _ => rfl⟩ (Nat.le_refl 2048) (show 0+2048<268435456 by decide)
  refine ⟨t,u,hmkfs,hmount,?_⟩
  rw [hgeo]
  decide

end MyKernel.Fat32
