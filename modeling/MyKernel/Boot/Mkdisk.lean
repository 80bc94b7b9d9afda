import MyKernel.Install.Model

/-! The disk image of `boot/mkdisk.py`. A kernel that does not fit makes it longer. -/
namespace MyKernel.Boot
open CString Memory Disk Fat32 Install

/-- `none` is an exception: the header is cut off before the entry. -/
def elfEntry (data : List UInt8) : Option Nat :=
  if data.take 4≠[0x7F,0x45,0x4C,0x46] then some 0x10000C
  else if 28≤data.length then some (wordAt (fun i => data.getD i 0) 24)
  else none

def mbrBytes (mbr : List UInt8) : List UInt8 :=
  mbr.take 446++List.replicate (446-mbr.length) 0++tableEntry 0x80 0x0C 2048 65536++List.replicate 48 0
    ++signature

def stage2Bytes (stage2 : List UInt8) : List UInt8 :=
  (stage2++List.replicate (16384-stage2.length) 0).take 16384

def metaBytes (ksects entry : Nat) : List UInt8 :=
  wordBytes 0x4B524E4C++wordBytes ksects++wordBytes entry++List.replicate 500 0

def bpbSector : List UInt8 :=
  [0xEB,0x58,0x90]++ascii "MSWIN4.1"++halfBytes 512++[8]++halfBytes 32++[2]++List.replicate 15 0
    ++wordBytes 65536++wordBytes 256++List.replicate 4 0++wordBytes 2++List.replicate 18 0++[0x29]
    ++List.replicate 4 0++ascii "MYKERNEL   "++ascii "FAT32   "++List.replicate 420 0++signature

def kernelOf (kelf : List UInt8) (raw : Option (List UInt8)) : List UInt8 := raw.getD kelf

def imageSectors (kernel : List UInt8) : Nat := (kernel.length+511)/512

def diskImage (mbr stage2 kernel : List UInt8) (entry : Nat) : Nat → UInt8 :=
  patch (2048*512) bpbSector
    (patch (8192*512) kernel
      (patch (8191*512) (metaBytes (imageSectors kernel) entry)
        (patch 512 (stage2Bytes stage2) (patch 0 (mbrBytes mbr) zeros))))

/-- `none` is an exception: no entry, or a sector count that does not fit its field. -/
def mkdisk (kelf mbr stage2 : List UInt8) (raw : Option (List UInt8)) : Option (Nat → UInt8) := do
  let entry ← elfEntry kelf
  if imageSectors (kernelOf kelf raw)<4294967296 then some (diskImage mbr stage2 (kernelOf kelf raw) entry)
  else none

def sectorsOf (img : Nat → UInt8) : Nat → Nat → UInt8 := fun sec o => img (512*sec+o)

variable {kelf mbr stage2 kernel : List UInt8} {raw : Option (List UInt8)} {img : Nat → UInt8} {entry : Nat}

theorem mkdisk_eq (h : mkdisk kelf mbr stage2 raw=some img) :
    ∃ entry, elfEntry kelf=some entry ∧ imageSectors (kernelOf kelf raw)<4294967296 ∧
      img=diskImage mbr stage2 (kernelOf kelf raw) entry := by
  obtain ⟨entry,hentry,hrest⟩ := Option.bind_eq_some_iff.mp h
  refine ⟨entry,hentry,?_⟩
  split at hrest
  next hlt => exact ⟨hlt,(Option.some_inj.mp hrest).symm⟩
  next => cases hrest

theorem elfEntry_lt (h : elfEntry kelf=some entry) : entry<4294967296 := by
  unfold elfEntry at h
  split at h
  · rw [← Option.some_inj.mp h]
    decide
  · split at h
    · rw [← Option.some_inj.mp h]
      exact wordAt_lt _ _
    · cases h

theorem mkdisk_raw (h : imageSectors kernel<4294967296) :
    mkdisk [] [] [] (some kernel)=some (diskImage [] [] kernel 0x10000C) := by
  have hentry : elfEntry []=some 0x10000C := by decide
  rw [mkdisk,hentry,Option.bind_eq_bind,Option.bind_some]
  exact if_pos h

theorem length_bpbSector : bpbSector.length=512 := by decide +kernel

theorem length_metaBytes (ksects : Nat) : (metaBytes ksects entry).length=512 := by
  simp only [metaBytes,wordBytes,List.length_append,List.length_cons,List.length_nil,
    List.length_replicate]

theorem length_stage2Bytes : (stage2Bytes stage2).length=16384 := by
  simp only [stage2Bytes,List.length_take,List.length_append,List.length_replicate]
  omega

theorem length_mbrBytes : (mbrBytes mbr).length=512 := by
  have hentry : (tableEntry 0x80 0x0C 2048 65536).length=16 := rfl
  have hsig : signature.length=2 := rfl
  simp only [mbrBytes,List.length_append,List.length_take,List.length_replicate,hentry,hsig]
  omega

theorem diskImage_kernel {i : Nat} (hi : i<kernel.length) :
    sectorsOf (diskImage mbr stage2 kernel entry) (8192+i/512) (i%512)=kernel.getD i 0 := by
  have hbpb := length_bpbSector
  have haddr : 512*(8192+i/512)+i%512=8192*512+i := by omega
  rw [sectorsOf,haddr,diskImage,patch_of_outside (by omega),patch_of_inside hi]

theorem diskImage_meta {o : Nat} (ho : o<512) :
    sectorsOf (diskImage mbr stage2 kernel entry) 8191 o =
      (metaBytes (imageSectors kernel) entry).getD o 0 := by
  have hbpb := length_bpbSector
  have hmeta : (metaBytes (imageSectors kernel) entry).length=512 := length_metaBytes _
  have haddr : 512*8191+o=8191*512+o := by omega
  rw [sectorsOf,haddr,diskImage,patch_of_outside (by omega),patch_of_outside (by omega),
    patch_of_inside (by omega)]

theorem diskImage_zero {sec o : Nat} (hk : kernel.length≤262144) (ho : o<512) (hlo : 33 ≤ sec)
    (hbpb : sec≠2048) (hmeta : sec<8191 ∨ 8704 ≤ sec) : sectorsOf (diskImage mbr stage2 kernel entry) sec o=0 := by
  have h1 := length_bpbSector
  have h2 : (metaBytes (imageSectors kernel) entry).length=512 := length_metaBytes _
  have h3 : (stage2Bytes stage2).length=16384 := length_stage2Bytes
  have h4 : (mbrBytes mbr).length=512 := length_mbrBytes
  rw [sectorsOf,diskImage,patch_of_outside (by omega),patch_of_outside (by omega),
    patch_of_outside (by omega),patch_of_outside (by omega),patch_of_outside (by omega)]
  rfl

theorem diskImage_bpb {o : Nat} (ho : o<512) :
    sectorsOf (diskImage mbr stage2 kernel entry) 2048 o=bpbSector.getD o 0 := by
  have hbpb := length_bpbSector
  have haddr : 512*2048+o=2048*512+o := by omega
  rw [sectorsOf,haddr,diskImage,patch_of_inside (by omega)]

end MyKernel.Boot
