import MyKernel.Fat32.Outside
import MyKernel.Install.Mbr
import MyKernel.Install.Model

/-! The volume the installer makes stays below cluster 13. -/
namespace MyKernel.Install
open Memory MyKernel.Computation Disk Fat32

def installGeo : Geo := mkfsGeo PART_START PART_SIZE 256

def seedKeys : List (List UInt8) := (seedCalls++[kernelNote]).map fun a => nameTo83 a.name

/-- A sound volume with only the installer's names, behind the sectors `front`, with nothing in use above `m`. -/
structure Seeded (front : Nat → Nat → UInt8) (m : Nat) (V : View) (s : Fat) : Prop where
  sees : Sees s installGeo V
  low : Low installGeo m V
  sound : ∃ rc ch, Sound installGeo V rc ch ∧ ∀ key, key∉seedKeys → filesOf installGeo V rc ch key=none
  front : ∀ sec, sec<PART_START → s.ata.disk sec=front sec

structure ImageKept (kernel : List UInt8) (s : Fat) : Prop where
  header : ∀ o, o<512 → s.ata.disk META_LBA o=metaSector kernel o
  sectors : ∀ k, k<kernelSectors kernel → ∀ o, o<512 →
    s.ata.disk (KERNEL_LBA+k) o=rawSector kernel (512*k) o

variable {front disk : Nat → Nat → UInt8} {V W : View} {s t : Fat} {m n fuel lba off : Nat} {b : Blobs}
variable {data kernel : List UInt8} {buf : Nat → UInt8}

theorem installFits : MkfsFits PART_START PART_SIZE 256 := ⟨by decide,by decide,by decide,by decide⟩

theorem totalClusters_install : installGeo.totalClusters=32700 := rfl

def rawWritten (disk : Nat → Nat → UInt8) (lba n : Nat) (data : List UInt8) (off : Nat) : Nat → Nat → UInt8 :=
  fun sec o => if lba ≤ sec ∧ sec<lba+n then rawSector data (off+512*(sec-lba)) o else disk sec o

theorem rawWritten_zero : rawWritten disk lba 0 data off=disk := by
  funext sec o
  exact if_neg (by omega)

theorem rawWritten_succ : rawWritten (writeFrom disk lba 1 (rawSector data off)) (lba+1) n data (off+512) =
    rawWritten disk lba (n+1) data off := by
  funext sec o
  simp only [rawWritten]
  by_cases hsec : sec=lba
  · rw [if_neg (by omega),if_pos (by omega),hsec,writeFrom_self,Nat.sub_self,Nat.mul_zero,Nat.add_zero]
  · rw [writeFrom_of_ne hsec]
    by_cases hin : lba+1 ≤ sec ∧ sec<lba+1+n
    · have hoff : off+512+512*(sec-(lba+1))=off+512*(sec-lba) := by omega
      rw [if_pos hin,if_pos (by omega),hoff]
    · rw [if_neg hin,if_neg (by omega)]

theorem writeRaw_ideal (hdata : data.length≤0xFFF00000) (h : Ideal s.ata)
    (hn : (data.length-off+511)/512=n) (hoff : off≤0xFFF00200) (hend : lba+n≤268435456) (hfuel : n<fuel) :
    ∃ a, writeRaw data fuel lba off s=(some true,{ s with ata := a }) ∧ Ideal a ∧
      a.disk=rawWritten s.ata.disk lba n data off := by
  induction n generalizing lba off fuel s with
  | zero =>
    obtain ⟨fuel,rfl⟩ : ∃ k, fuel=k+1 := ⟨fuel-1,by omega⟩
    refine ⟨s.ata,?_,h,rawWritten_zero.symm⟩
    rw [writeRaw,if_neg (by omega)]
    rfl
  | succ n ih =>
    obtain ⟨fuel,rfl⟩ : ∃ k, fuel=k+1 := ⟨fuel-1,by omega⟩
    have hlba : u32 (lba+1)=lba+1 := u32_of_lt (by omega)
    have hnext : u32 (off+512)=off+512 := u32_of_lt (by omega)
    have hwrite := rawWrite_ideal h (by omega : lba<268435456) (rawSector data off)
    obtain ⟨a,ha,hideal,hdisk⟩ := ih (s := { s with ata := s.ata.store lba 1 (rawSector data off) })
      (ideal_store h _ _ _) (show (data.length-(off+512)+511)/512=n by omega) (by omega)
      (show lba+1+n≤268435456 by omega) (show n<fuel by omega)
    refine ⟨a,?_,hideal,?_⟩
    · rw [writeRaw,if_pos (by omega),bind_some hwrite,if_pos rfl,hlba,hnext,ha]
    · rw [hdisk]
      exact rawWritten_succ

theorem kernelSectors_eq (hk : kernel.length≤0xFFF00000) : kernelSectors kernel=(kernel.length+511)/512 := by
  rw [kernelSectors,u32_of_lt (by omega)]

theorem installKernelImage_ideal (h : Ideal s.ata) (hk : kernel.length≤0xFFF00000)
    (hfuel : kernelSectors kernel<fuel) :
    ∃ a, installKernelImage fuel kernel s=(some true,{ s with ata := a }) ∧ Ideal a ∧
      (∀ sec, sec<META_LBA → a.disk sec=s.ata.disk sec) ∧
      (kernel≠[] → ImageKept kernel { s with ata := a }) := by
  by_cases hne : kernel=[]
  · refine ⟨s.ata,?_,h,fun _ _ => rfl,fun hk => absurd hne hk⟩
    rw [installKernelImage,if_pos hne]
    rfl
  · have hsects := kernelSectors_eq hk
    have hmeta := rawWrite_ideal h (by decide : META_LBA<268435456) (metaSector kernel)
    obtain ⟨a,ha,hideal,hdisk⟩ := writeRaw_ideal hk
      (ideal_store h META_LBA 1 (metaSector kernel)) (show (kernel.length-0+511)/512=kernelSectors kernel by omega)
      (by omega) (show KERNEL_LBA+kernelSectors kernel≤268435456 by unfold KERNEL_LBA; omega) hfuel
      (s := { s with ata := s.ata.store META_LBA 1 (metaSector kernel) })
    have hout : ∀ sec, sec<KERNEL_LBA → a.disk sec=writeFrom s.ata.disk META_LBA 1 (metaSector kernel) sec := by
      intro sec hsec
      rw [hdisk]
      funext o
      exact if_neg (by omega)
    refine ⟨a,?_,hideal,?_,?_⟩
    · rw [installKernelImage,if_neg hne,bind_some hmeta,if_pos rfl,ha]
    · intro sec hsec
      rw [hout sec (by unfold META_LBA at hsec; unfold KERNEL_LBA; omega),writeFrom_of_ne (by omega)]
    · intro _
      constructor
      · intro o _
        show a.disk META_LBA o=_
        rw [hout META_LBA (by decide),writeFrom_self]
      · intro k hk o _
        show a.disk (KERNEL_LBA+k) o=_
        rw [hdisk,rawWritten,if_pos (by omega),Nat.add_sub_cancel_left,Nat.zero_add]

theorem not_inside_front {sec : Nat} (h : sec<PART_START) : ¬ Inside installGeo installGeo.endSector sec := by
  intro hin
  have hlo := hin.1
  have hstart : installGeo.partitionLba+installGeo.fatStart=2080 := rfl
  unfold PART_START at h
  omega

theorem Seeded.call (h : Seeded front m V s) (hm : 1 ≤ m) (hin : m+2≤32701) (a : Call)
    (hkey : nameTo83 a.name∈seedKeys) (h0 : 0∉a.name) (hfuel : 32700<fuel) :
    ∃ r t W, call a fuel s=(some r,t) ∧ Seeded front (m+2) W t ∧ Above (m+2) V W := by
  obtain ⟨rc,ch,hs,hnone⟩ := h.sound
  have hlow : Low installGeo (m+2) V := h.low.mono (by omega)
  obtain ⟨r,t,W,hrun,hsees,habove,rc',ch',hs',hsame⟩ := call_stillSound hs hlow
    (h.low.spare hm hin) a h.sees (by decide) h0 hfuel
  refine ⟨r,t,W,hrun,⟨hsees,hlow.above habove,⟨rc',ch',hs',?_⟩,?_⟩,habove⟩
  · intro key hnot
    have hne : key≠nameTo83 a.name := fun he => hnot (he ▸ hkey)
    rw [hsame key hne,hnone key hnot]
  · intro sec hsec
    have hout := call_outside h.sees hs a fuel (not_inside_front hsec)
    rw [hrun] at hout
    rw [hout,h.front sec hsec]

theorem Seeded.callAll (as : List Call) (h : Seeded front m V s) (hm : 1 ≤ m) (hin : m+2*as.length≤32701)
    (hkeys : ∀ a∈as, nameTo83 a.name∈seedKeys ∧ 0∉a.name) (hfuel : 32700<fuel) :
    ∃ t W, callAll fuel as s=(some (),t) ∧ Seeded front (m+2*as.length) W t ∧
      Above (m+2*as.length) V W := by
  induction as generalizing m V s with
  | nil => exact ⟨s,V,rfl,h,Above.refl _ V⟩
  | cons a as ih =>
    rw [List.length_cons] at hin ⊢
    have ha := hkeys a List.mem_cons_self
    obtain ⟨r,u,U,hcall,hU,habove⟩ := h.call hm (by omega) a ha.1 ha.2 hfuel
    obtain ⟨t,W,hrest,hW,habove'⟩ := ih hU (by omega) (by omega)
      fun a' ha' => hkeys a' (List.mem_cons_of_mem a ha')
    have hlen : m+2+2*as.length=m+2*(as.length+1) := by omega
    rw [hlen] at hW habove'
    refine ⟨t,W,?_,hW,?_⟩
    · rw [Install.callAll,bind_some hcall,hrest]
    · have hup : Above (m+2*(as.length+1)) V U :=
        ⟨fun c hc => habove.fat c (by omega),fun c hc => habove.data c (by omega)⟩
      exact hup.trans habove'

theorem seedCalls_keys : ∀ a∈seedCalls++[kernelNote], nameTo83 a.name∈seedKeys ∧ 0∉a.name := by
  intro a ha
  refine ⟨List.mem_map_of_mem ha,?_⟩
  have hall : ∀ a∈seedCalls++[kernelNote], 0∉a.name := by decide
  exact hall a ha

theorem seeded_formatted (hm : s.mounted=true) (h : Ideal s.ata) (hgeo : s.geo=installGeo)
    (hf : Formatted PART_START PART_SIZE 256 s.ata.disk) : Seeded s.ata.disk 2 (viewOf s) s := by
  have hempty := hf.emptyRoot installFits
  have hview : viewOf s=⟨fatOf installGeo s.ata.disk,dataOf installGeo s.ata.disk⟩ := by rw [viewOf,hgeo]
  have hsees := sees_viewOf hm h (hgeo ▸ installFits.area)
  rw [hgeo] at hsees
  rw [hview] at hsees ⊢
  refine ⟨hsees,?_,⟨_,_,hempty.consistentWith.sound,?_⟩,fun _ _ => rfl⟩
  · intro c hc huse
    by_contra hlt
    exact huse (hf.free_cluster installFits (by omega) hc.2)
  · intro key _
    exact filesOf_eq_none fun i hi => absurd hi (hempty.not_live i)

theorem Seeded.overlay {a : Ata} (h : Seeded front m V s) (hm : 1 ≤ m) (hlt : m≤700) (ha : Ideal a)
    (hdisk : ∀ sec, sec<META_LBA → a.disk sec=s.ata.disk sec) : ∃ W, Seeded front m W { s with ata := a } := by
  obtain ⟨rc,ch,hs,hnone⟩ := h.sound
  have hline : installGeo.lineSector m≤META_LBA := by
    have hmul : (m-1)*8≤5592 := by omega
    have heq : installGeo.lineSector m=2592+(m-1)*8 := rfl
    unfold META_LBA
    omega
  obtain ⟨W,hsees,hfat,hdata⟩ := h.sees.overlay (t := { s with ata := a }) hm rfl rfl ha
    fun sec hsec => hdisk sec (by omega)
  obtain ⟨hlow,hs',hnone'⟩ := h.low.overlay hs h.sees.area hfat hdata
  refine ⟨W,hsees,hlow,⟨rc,ch,hs',fun key hkey => hnone' key (hnone key hkey)⟩,?_⟩
  intro sec hsec
  show a.disk sec=front sec
  rw [hdisk sec (by unfold PART_START at hsec; unfold META_LBA; omega),h.front sec hsec]

theorem ImageKept.of_above (h : ImageKept kernel s) (hk : kernel.length≤4194304) (hs : Sees s installGeo V)
    (ht : Sees t installGeo W) (hm : 1 ≤ m) (hlt : m≤700) (hW : Above m V W) : ImageKept kernel t := by
  have hsects := kernelSectors_eq (by omega : kernel.length≤0xFFF00000)
  have hline : installGeo.lineSector m=2592+(m-1)*8 := rfl
  have hend : installGeo.partitionLba+installGeo.endSector=264192 := rfl
  constructor
  · intro o ho
    rw [hW.disk_eq hs ht hm (by unfold META_LBA; omega) (by unfold META_LBA; omega) ho,h.header o ho]
  · intro k hk o ho
    rw [hW.disk_eq hs ht hm (by unfold KERNEL_LBA; omega) (by unfold KERNEL_LBA; omega) ho,h.sectors k hk o ho]

theorem installVolume_ideal (h : Ideal s.ata) (hfuel : 32700<fuel) (hfuel' : kernelSectors b.kernel<fuel) :
    ∃ t V, installVolume b fuel s=(some true,t) ∧ Seeded s.ata.disk 12 V t ∧
      (b.kernel≠[] → b.kernel.length≤4194304 → ImageKept b.kernel t) := by
  have hlen : b.kernel.length≤0xFFF00000 := by
    have hfit := b.addressable
    omega
  have hkeys := seedCalls_keys
  have hsize : mkfsFatSize (mkfsSize PART_SIZE)=256 := by decide
  obtain ⟨s1,hmkfs,hideal1,_,hf,hfront1⟩ := fat32Mkfs_ideal PART_START PART_SIZE h
    (by rw [hsize]; decide) (by rw [hsize]; decide)
  rw [hsize] at hf
  obtain ⟨s2,hmount,hm2,hideal2,hgeo2,hdisk2⟩ := fat32Mount_formatted installFits
    (s := { s1 with mounted := false, geo := { s1.geo with partitionLba := PART_START } }) hideal1 rfl hf
  have hseed2 : Seeded s.ata.disk 2 (viewOf s2) s2 := by
    have hseed := seeded_formatted hm2 hideal2 hgeo2 (by rw [hdisk2]; exact hf)
    refine ⟨hseed.sees,hseed.low,hseed.sound,?_⟩
    intro sec hsec
    rw [hdisk2]
    exact hfront1 sec hsec
  obtain ⟨s3,V3,hcalls,hseed3,_⟩ := hseed2.callAll seedCalls (by decide) (by decide)
    (fun a ha => hkeys a (List.mem_append_left _ ha)) hfuel
  obtain ⟨a,himage,hideal4,hdisk4,hkept⟩ := installKernelImage_ideal hseed3.sees.ideal hlen hfuel'
  obtain ⟨V4,hseed4⟩ := hseed3.overlay (by decide) (by decide) hideal4 hdisk4
  obtain ⟨t,V,hnote,hseed5,habove⟩ := hseed4.callAll [kernelNote] (by decide) (by decide)
    (fun a ha => hkeys a (List.mem_append_right _ ha)) hfuel
  refine ⟨t,V,?_,hseed5,?_⟩
  · rw [installVolume,bind_some hmkfs,if_pos rfl,fat32SetPartitionLba,update_bind,bind_some hmount,if_pos rfl,
      bind_some hcalls,bind_some himage,bind_some hnote]
    rfl
  · intro hne hle
    exact (hkept hne).of_above hle hseed4.sees hseed5.sees (by decide) (by decide) habove

end MyKernel.Install
