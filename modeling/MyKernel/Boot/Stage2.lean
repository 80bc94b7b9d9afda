import MyKernel.Boot.Mkdisk
import MyKernel.Install.Volume

/-! The loader of `boot/stage2.s`. Its variables are kept apart from memory. The A20 line is taken to be enabled. -/
namespace MyKernel.Boot
open Memory MyKernel.Computation Disk Fat32 Install

/-- The extended read of the BIOS: a sector, or the carry flag. -/
abbrev Bios := Nat → Option (Nat → UInt8)

inductive Stage2Result where
  | errMagic
  | errDisk
  | jump (entry : Nat) (mem : Nat → UInt8)

def loadSector (mem : Nat → UInt8) (addr : Nat) (sec : Nat → UInt8) : Nat → UInt8 :=
  fun a => if addr≤a ∧ a<addr+512 then sec (a-addr) else mem a

def diskRead1 (bios : Bios) (dapSeg dapOff dapLba : Nat) (mem : Nat → UInt8) : Option (Nat → UInt8) :=
  (bios dapLba).map (loadSector mem (16*dapSeg+dapOff))

def loadRm (bios : Bios) : Nat → Nat → (Nat → UInt8) → Option (Nat → UInt8)
  | 0, _, mem => some mem
  | n+1, cur, mem =>
    let ebx := u32 (u32 (cur*512)+0x20000)
    (diskRead1 bios (ebx/16%65536) (ebx%16) (u32 (cur+8192)) mem).bind (loadRm bios n (cur+1))

def repMovsl : Nat → Nat → Nat → (Nat → UInt8) → Nat → UInt8
  | 0, _, _, mem => mem
  | n+1, esi, edi, mem =>
    repMovsl n (esi+4) (edi+4) fun a => if edi≤a ∧ a<edi+4 then mem (esi+(a-edi)) else mem a

def clampSectors (sects : Nat) : Nat := if sects≤512 then sects else 512

def entryOr (entry : Nat) : Nat := if entry≠0 then entry else 0x10000C

def pm32 (ksects kentry : Nat) (mem : Nat → UInt8) : Stage2Result :=
  .jump kentry (repMovsl (u32 (ksects*512)/4) 0x20000 0x100000 mem)

def stage2 (bios : Bios) (mem : Nat → UInt8) : Stage2Result :=
  match diskRead1 bios 0 0x500 8191 mem with
  | none => .errDisk
  | some mem =>
    if wordAt mem 0x500≠0x4B524E4C then .errMagic
    else if wordAt mem 0x504=0 then .errDisk
    else
      let ksects := clampSectors (wordAt mem 0x504)
      let kentry := entryOr (wordAt mem 0x508)
      match loadRm bios ksects 0 mem with
      | none => .errDisk
      | some mem => pm32 ksects kentry mem

/-- With ideal reads, from any memory, the loader jumps to `entry` with the kernel at 1 MiB. -/
def Handoff (disk : Nat → Nat → UInt8) (kernel : List UInt8) (entry : Nat) : Prop :=
  ∀ mem, ∃ mem', stage2 (fun lba => some (disk lba)) mem = .jump entry mem' ∧
    ∀ i, i<kernel.length → mem' (0x100000+i)=kernel.getD i 0

structure Carries (disk : Nat → Nat → UInt8) (kernel : List UInt8) (entry : Nat) : Prop where
  magic : wordAt (disk 8191) 0=0x4B524E4C
  sectors : wordAt (disk 8191) 4=imageSectors kernel
  entry : wordAt (disk 8191) 8=entry
  bytes : ∀ i, i<kernel.length → disk (8192+i/512) (i%512)=kernel.getD i 0

variable {disk : Nat → Nat → UInt8} {kernel : List UInt8} {mem mem' sec : Nat → UInt8} {n cur src dst entry : Nat}

theorem loadSector_inside {addr o : Nat} (h : o<512) : loadSector mem addr sec (addr+o)=sec o := by
  rw [loadSector,if_pos (by omega),Nat.add_sub_cancel_left]

theorem loadSector_outside {addr a : Nat} (h : a<addr ∨ addr+512≤a) : loadSector mem addr sec a=mem a := by
  rw [loadSector,if_neg (by omega)]

theorem diskRead1_staging (h : cur<512) :
    diskRead1 (fun lba => some (disk lba)) (u32 (u32 (cur*512)+0x20000)/16%65536)
      (u32 (u32 (cur*512)+0x20000)%16) (u32 (cur+8192)) mem =
      some (loadSector mem (0x20000+512*cur) (disk (8192+cur))) := by
  have haddr : 16*(u32 (u32 (cur*512)+0x20000)/16%65536)+u32 (u32 (cur*512)+0x20000)%16=0x20000+512*cur := by
    unfold u32
    omega
  have hlba : u32 (cur+8192)=8192+cur := by
    unfold u32
    omega
  rw [diskRead1,haddr,hlba]
  rfl

theorem loadRm_ideal (disk : Nat → Nat → UInt8) (mem : Nat → UInt8) (h : cur+n≤512) :
    ∃ mem', loadRm (fun lba => some (disk lba)) n cur mem=some mem' ∧
      (∀ i, i<512*n → mem' (0x20000+512*cur+i)=disk (8192+cur+i/512) (i%512)) ∧
      ∀ a, a<0x20000+512*cur ∨ 0x20000+512*(cur+n)≤a → mem' a=mem a := by
  induction n generalizing cur mem with
  | zero => exact ⟨mem,rfl,fun i hi => by omega,fun _ _ => rfl⟩
  | succ n ih =>
    obtain ⟨mem',hrest,hin,hout⟩ := ih (loadSector mem (0x20000+512*cur) (disk (8192+cur)))
      (show cur+1+n≤512 by omega)
    refine ⟨mem',?_,?_,?_⟩
    · rw [loadRm,diskRead1_staging (by omega)]
      exact hrest
    · intro i hi
      by_cases hlt : i<512
      · rw [hout (0x20000+512*cur+i) (by omega),loadSector_inside hlt,Nat.div_eq_of_lt hlt,
          Nat.mod_eq_of_lt hlt,Nat.add_zero]
      · have haddr : 0x20000+512*cur+i=0x20000+512*(cur+1)+(i-512) := by omega
        have hsec : 8192+(cur+1)+(i-512)/512=8192+cur+i/512 := by omega
        have hoff : (i-512)%512=i%512 := by omega
        rw [haddr,hin (i-512) (by omega),hsec,hoff]
    · intro a ha
      have hkeep : a<0x20000+512*cur ∨ 0x20000+512*cur+512≤a := by
        cases ha with
        | inl hlt => exact .inl hlt
        | inr hge =>
          right
          have hmul : 512*cur+512≤512*(cur+(n+1)) := Nat.mul_le_mul_left 512 (by omega : cur+1≤cur+(n+1))
          generalize 512*(cur+(n+1))=x at hge hmul
          omega
      rw [hout a (by omega),loadSector_outside hkeep]

theorem repMovsl_eq (mem : Nat → UInt8) (h : src+4*n≤dst) (a : Nat) :
    repMovsl n src dst mem a=if dst≤a ∧ a<dst+4*n then mem (src+(a-dst)) else mem a := by
  induction n generalizing src dst mem with
  | zero =>
    rw [repMovsl,if_neg (by omega)]
  | succ n ih =>
    rw [repMovsl,ih _ (by omega)]
    by_cases hlater : dst+4≤a ∧ a<dst+4+4*n
    · have haddr : src+4+(a-(dst+4))=src+(a-dst) := by omega
      rw [if_pos hlater,if_neg (by omega),if_pos (by omega),haddr]
    · rw [if_neg hlater]
      by_cases hnow : dst≤a ∧ a<dst+4
      · rw [if_pos hnow,if_pos (by omega)]
      · rw [if_neg hnow,if_neg (by omega)]

theorem clampSectors_le (sects : Nat) : clampSectors sects≤512 := by
  unfold clampSectors
  split
  · assumption
  · exact Nat.le_refl 512

theorem wordAt_loadSector (addr : Nat) {o : Nat} (h : o+4≤512) :
    wordAt (loadSector mem addr sec) (addr+o)=wordAt sec o := by
  simp only [wordAt,Nat.add_assoc]
  simp (disch := omega) only [loadSector_inside]

/-- The sectors up to the 512th get to 1 MiB, and nothing behind them changes. -/
theorem stage2_ideal (h : Carries disk kernel entry) (hne : kernel≠[]) (mem : Nat → UInt8) :
    ∃ mem', stage2 (fun lba => some (disk lba)) mem = .jump (entryOr entry) mem' ∧
      (∀ i, i<512*clampSectors (imageSectors kernel) → mem' (0x100000+i)=disk (8192+i/512) (i%512)) ∧
      ∀ a, 0x100000+512*clampSectors (imageSectors kernel)≤a → mem' a=mem a := by
  have hclamp := clampSectors_le (imageSectors kernel)
  have hpos : imageSectors kernel≠0 := by
    have hlen := List.length_pos_iff.mpr hne
    unfold imageSectors
    omega
  have hword : ∀ o, o+4≤512 → wordAt (loadSector mem 0x500 (disk 8191)) (0x500+o)=wordAt (disk 8191) o :=
    fun o ho => wordAt_loadSector 0x500 ho
  have hmagic : wordAt (loadSector mem 0x500 (disk 8191)) 0x500=0x4B524E4C :=
    (hword 0 (by omega)).trans h.magic
  have hsectors : wordAt (loadSector mem 0x500 (disk 8191)) 0x504=imageSectors kernel :=
    (hword 4 (by omega)).trans h.sectors
  have hentry : wordAt (loadSector mem 0x500 (disk 8191)) 0x508=entry := (hword 8 (by omega)).trans h.entry
  have hmeta : diskRead1 (fun lba => some (disk lba)) 0 0x500 8191 mem =
      some (loadSector mem 0x500 (disk 8191)) := rfl
  obtain ⟨low,hload,hin,hout⟩ := loadRm_ideal disk (loadSector mem 0x500 (disk 8191))
    (show 0+clampSectors (imageSectors kernel)≤512 by omega)
  have hrun : stage2 (fun lba => some (disk lba)) mem =
      pm32 (clampSectors (imageSectors kernel)) (entryOr entry) low := by
    rw [stage2,hmeta]
    dsimp only
    rw [if_neg (not_not.mpr hmagic),hsectors,if_neg hpos,hload,hentry]
  rw [hrun,pm32]
  clear hrun hload
  generalize clampSectors (imageSectors kernel)=k at hclamp hin hout ⊢
  have hdwords : u32 (k*512)/4=128*k := by
    unfold u32
    omega
  have hcopy := repMovsl_eq low (show 0x20000+4*(128*k)≤0x100000 by omega)
  rw [hdwords]
  refine ⟨_,rfl,?_,?_⟩
  · intro i hi
    rw [hcopy,if_pos (by omega),Nat.add_sub_cancel_left]
    exact hin i hi
  · intro a ha
    rw [hcopy,if_neg (by omega),hout a (by omega)]
    exact loadSector_outside (by omega)

/-- An image of more than 512 sectors is cut off. -/
theorem handoff_iff (h : Carries disk kernel entry) (hne : kernel≠[]) :
    Handoff disk kernel (entryOr entry) ↔ kernel.length≤262144 := by
  constructor
  · intro hall
    by_contra hlong
    -- a memory with another byte where the cut is
    obtain ⟨mem',hrun,hbytes⟩ := hall fun _ => kernel.getD 262144 0+1
    obtain ⟨mem'',hrun',_,hout⟩ := stage2_ideal h hne fun _ => kernel.getD 262144 0+1
    have hclamp : clampSectors (imageSectors kernel)=512 := by
      unfold clampSectors imageSectors
      rw [if_neg (by omega)]
    obtain rfl : mem'=mem'' := by
      rw [hrun] at hrun'
      injection hrun'
    have hbyte := hbytes 262144 (by omega)
    rw [hclamp] at hout
    rw [hout (0x100000+262144) (by omega)] at hbyte
    simp at hbyte
  · intro hle mem
    obtain ⟨mem',hrun,hin,_⟩ := stage2_ideal h hne mem
    refine ⟨mem',hrun,?_⟩
    intro i hi
    have hclamp : clampSectors (imageSectors kernel)=imageSectors kernel := by
      unfold clampSectors imageSectors
      rw [if_pos (by omega)]
    rw [hclamp] at hin
    rw [hin i (by unfold imageSectors; omega),h.bytes i hi]

theorem wordAt_field {bytes pre post : List UInt8} {o v : Nat} (h : bytes=pre++(wordBytes v++post))
    (ho : pre.length=o) (hv : v<4294967296) : wordAt (fun i => bytes.getD i 0) o=v := by
  have hbyte : ∀ k, k<4 → bytes.getD (o+k) 0=(wordBytes v).getD k 0 := by
    intro k hk
    rw [h,← ho,List.getD_append_right _ _ _ _ (by omega),Nat.add_sub_cancel_left]
    exact List.getD_append _ _ _ _ hk
  have h0 := hbyte 0 (by omega)
  rw [Nat.add_zero] at h0
  simp only [wordAt,h0,hbyte 1 (by omega),hbyte 2 (by omega),hbyte 3 (by omega)]
  exact le32_byteOf hv

theorem carries_diskImage {mbr stage2 : List UInt8} (hentry : entry<4294967296)
    (hsects : imageSectors kernel<4294967296) :
    Carries (sectorsOf (diskImage mbr stage2 kernel entry)) kernel entry := by
  have hword : ∀ o, o+4≤512 → wordAt (sectorsOf (diskImage mbr stage2 kernel entry) 8191) o =
      wordAt (fun i => (metaBytes (imageSectors kernel) entry).getD i 0) o := by
    intro o ho
    apply wordAt_congr
    intro k hk
    exact diskImage_meta (by omega)
  refine ⟨?_,?_,?_,fun i hi => diskImage_kernel hi⟩
  · rw [hword 0 (by omega)]
    have hfirst : metaBytes (imageSectors kernel) entry =
        []++(wordBytes 0x4B524E4C++(wordBytes (imageSectors kernel)++(wordBytes entry++List.replicate 500 0))) := by
      rw [metaBytes,List.append_assoc,List.append_assoc,List.nil_append]
    exact wordAt_field hfirst rfl (by decide)
  · rw [hword 4 (by omega)]
    have hsecond : metaBytes (imageSectors kernel) entry =
        wordBytes 0x4B524E4C++(wordBytes (imageSectors kernel)++(wordBytes entry++List.replicate 500 0)) := by
      rw [metaBytes,List.append_assoc,List.append_assoc]
    exact wordAt_field hsecond rfl hsects
  · rw [hword 8 (by omega)]
    have hthird : metaBytes (imageSectors kernel) entry =
        (wordBytes 0x4B524E4C++wordBytes (imageSectors kernel))++(wordBytes entry++List.replicate 500 0) := by
      rw [metaBytes,List.append_assoc]
    exact wordAt_field hthird rfl hentry

theorem patch_zeros (bytes : List UInt8) : patch 0 bytes zeros=fun i => bytes.getD i 0 := by
  funext i
  by_cases hi : i<bytes.length
  · rw [patch,if_pos (by omega),Nat.sub_zero]
  · rw [patch,if_neg (by omega),List.getD_eq_default _ _ (by omega)]
    rfl

theorem wordBytes_magic : wordBytes 0x4B524E4C=[0x4C,0x4E,0x52,0x4B] := by decide

theorem carries_install {s : Fat} (hk : kernel.length≤0xFFF00000) (h : ImageKept kernel s) :
    Carries s.ata.disk kernel 0 := by
  have hsects : kernelSectors kernel=imageSectors kernel := kernelSectors_eq hk
  have hlt : imageSectors kernel<4294967296 := by
    unfold imageSectors
    omega
  have hword : ∀ o, o+4≤512 → wordAt (s.ata.disk 8191) o =
      wordAt (fun i => (wordBytes 0x4B524E4C++wordBytes (imageSectors kernel)).getD i 0) o := by
    intro o ho
    apply wordAt_congr
    intro k hk
    have hbyte := h.header (o+k) (by omega)
    rw [metaSector,patch_zeros,hsects,← wordBytes_magic] at hbyte
    exact hbyte
  refine ⟨?_,?_,?_,?_⟩
  · rw [hword 0 (by omega)]
    exact wordAt_field (List.nil_append _).symm rfl (by decide)
  · rw [hword 4 (by omega)]
    exact wordAt_field (congrArg _ (List.append_nil _).symm) rfl hlt
  · rw [hword 8 (by omega)]
    rfl
  · intro i hi
    have hoff : 512*(i/512)+i%512=i := Nat.div_add_mod i 512
    have hsec : i/512<kernelSectors kernel := by
      rw [hsects]
      unfold imageSectors
      omega
    have hbyte := h.sectors (i/512) hsec (i%512) (Nat.mod_lt i (by decide))
    rw [rawSector,hoff,u32_of_lt (by omega),if_pos hi] at hbyte
    exact hbyte

/-- An image written by either program reaches 1 MiB whole exactly when it has at most 512 sectors. -/
theorem boot_handoff_iff (kernel : List UInt8) (hne : kernel≠[]) :
    (∀ kelf mbr stage2 raw img, mkdisk kelf mbr stage2 raw=some img → kernelOf kelf raw=kernel →
      ∃ entry, elfEntry kelf=some entry ∧
        (Handoff (sectorsOf img) kernel (entryOr entry) ↔ kernel.length≤262144)) ∧
    ∀ (s : Fat), Ideal s.ata → kernel.length≤0xFFF00000 →
      ∃ t, Returns (fun n => installKernelImage n kernel) s true t ∧
        (Handoff t.ata.disk kernel 0x10000C ↔ kernel.length≤262144) := by
  constructor
  · rintro kelf mbr stage2 raw img himg rfl
    obtain ⟨entry,hentry,hsects,rfl⟩ := mkdisk_eq himg
    exact ⟨entry,hentry,handoff_iff (carries_diskImage (elfEntry_lt hentry) hsects) hne⟩
  · intro s h hk
    obtain ⟨a,hrun,_,_,hkept⟩ := installKernelImage_ideal h hk (Nat.lt_succ_self (kernelSectors kernel))
    exact ⟨_,⟨_,hrun⟩,handoff_iff (carries_install hk (hkept hne)) hne⟩

theorem Carries.entry_eq {entry' : Nat} (h : Carries disk kernel entry) (hne : kernel≠[])
    (hh : Handoff disk kernel entry') : entry'=entryOr entry := by
  obtain ⟨mem',hrun,_⟩ := hh fun _ => 0
  obtain ⟨mem'',hrun',_⟩ := stage2_ideal h hne fun _ => 0
  rw [hrun] at hrun'
  injection hrun'

theorem boot_handoff_one_byte : ∃ entry, elfEntry []=some entry ∧
    (Handoff (sectorsOf (diskImage [] [] [0x90] 0x10000C)) [0x90] (entryOr entry) ↔ 1≤262144) :=
  (boot_handoff_iff [0x90] (by decide)).1 [] [] [] (some [0x90]) _ (mkdisk_raw (by decide)) rfl

/-- A kernel of one byte more. -/
theorem boot_handoff_cut : ¬ ∀ kelf mbr stage2 raw img, mkdisk kelf mbr stage2 raw=some img →
    kernelOf kelf raw≠[] → ∃ entry, Handoff (sectorsOf img) (kernelOf kelf raw) entry := by
  intro hall
  obtain ⟨kernel,hlen⟩ : ∃ kernel : List UInt8, kernel.length=262145 :=
    ⟨List.replicate 262145 1,List.length_replicate⟩
  have hne : kernel≠[] := by
    intro hnil
    simp [hnil] at hlen
  have hsects : imageSectors kernel<4294967296 := by
    unfold imageSectors
    omega
  have hcarries : Carries (sectorsOf (diskImage [] [] kernel 0x10000C)) kernel 0x10000C :=
    carries_diskImage (by decide) hsects
  obtain ⟨entry,hentry⟩ := hall [] [] [] (some kernel) _ (mkdisk_raw hsects) hne
  have hle := (handoff_iff hcarries hne).mp (hcarries.entry_eq hne hentry ▸ hentry)
  omega

end MyKernel.Boot
