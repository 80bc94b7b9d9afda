import MyKernel.Install.Volume

/-! What the installer leaves of the boot code when none is linked into the kernel. -/
namespace MyKernel.Install
open Memory MyKernel.Computation Disk Fat32

/-- The boot code of sector 0 and the sectors of the second stage are the same on both disks. -/
structure BootKept (disk disk' : Nat → Nat → UInt8) : Prop where
  code : ∀ o, o<446 → disk' 0 o=disk 0 o
  stage2 : ∀ sec, 1 ≤ sec → sec≤32 → ∀ o, o<512 → disk' sec o=disk sec o

/-- The stub in sector 0 and a GPT with one entry, as the installer writes them. -/
structure StubAndGpt (disk : Nat → Nat → UInt8) : Prop where
  code : ∀ o, o<446 → disk 0 o=patch 0 haltStub zeros o
  header : ∀ o, o<512 → disk 1 o=headerSector PART_START PART_SIZE o
  entry : ∀ o, o<512 → disk 2 o=entrySector PART_START PART_SIZE o

variable {disk : Nat → Nat → UInt8} {s t : Fat} {b : Blobs} {fuel : Nat} {sec sec' : Nat → UInt8}

theorem protective_front {o : Nat} (h : o<446) : protectiveSector o=0 := by
  rw [protectiveSector,patch_of_outside (by omega),patch_of_outside (by omega)]
  rfl

def mbrDrive (a : Ata) : Ata :=
  ({ a with ops := a.ops+1 } : Ata).store 0 1 (mbrSector PART_START PART_SIZE (readInto a.disk 0 1 zeros))

def gptDrive (a : Ata) : Ata :=
  ((a.store 0 1 protectiveSector).store 2 1 (entrySector PART_START PART_SIZE)).store 1 1
    (headerSector PART_START PART_SIZE)

theorem partCreateMbrFat32_ideal (h : Ideal s.ata) :
    partCreateMbrFat32 PART_START PART_SIZE s=(some true,{ s with ata := mbrDrive s.ata }) :=
  partCreateMbr_ideal h (by decide) (by decide)

theorem partCreateGptFat32_ideal (h : Ideal s.ata) :
    partCreateGptFat32 PART_START PART_SIZE s=(some true,{ s with ata := gptDrive s.ata }) := by
  have h1 := ideal_store h 0 1 protectiveSector
  have h2 := ideal_store h1 2 1 (entrySector PART_START PART_SIZE)
  have hfirst := rawWrite_ideal h (by decide : 0<268435456) protectiveSector
  have hsecond := rawWrite_ideal (s := { s with ata := s.ata.store 0 1 protectiveSector }) h1
    (by decide : 2<268435456) (entrySector PART_START PART_SIZE)
  rw [partCreateGptFat32,state_bind,if_neg h.not_absent,bind_some hfirst,if_pos rfl]
  refine (bind_some hsecond).trans ?_
  rw [if_pos rfl]
  exact rawWrite_ideal (s := { s with
    ata := (s.ata.store 0 1 protectiveSector).store 2 1 (entrySector PART_START PART_SIZE) }) h2 (by decide) _

theorem mbrDrive_code {a : Ata} {o : Nat} (ho : o<446) :
    (mbrDrive a).disk 0 o=if hasCode (a.disk 0) then a.disk 0 o else patch 0 haltStub zeros o := by
  have hcode : hasCode (readInto a.disk 0 1 zeros)=hasCode (a.disk 0) :=
    hasCode_congr fun o ho => readInto_front a.disk 0 zeros (by omega)
  rw [mbrDrive,store_disk,writeFrom_self,mbrSector_front _ _ ho,hcode,readInto_front _ _ _ (by omega)]

theorem mbrDrive_rest {a : Ata} {sec : Nat} (h : 1 ≤ sec) : (mbrDrive a).disk sec=a.disk sec := by
  rw [mbrDrive,store_disk,writeFrom_of_ne (by omega)]

theorem gptDrive_code {a : Ata} {o : Nat} (ho : o<446) : (gptDrive a).disk 0 o=0 := by
  simp only [gptDrive,store_disk]
  rw [writeFrom_of_ne (by decide),writeFrom_of_ne (by decide),writeFrom_self,protective_front ho]

theorem gptDrive_header {a : Ata} : (gptDrive a).disk 1=headerSector PART_START PART_SIZE := by
  rw [gptDrive,store_disk,writeFrom_self]

theorem gptDrive_entry {a : Ata} : (gptDrive a).disk 2=entrySector PART_START PART_SIZE := by
  simp only [gptDrive,store_disk]
  rw [writeFrom_of_ne (by decide),writeFrom_self]

theorem gptDrive_rest {a : Ata} {sec : Nat} (h : 3 ≤ sec) : (gptDrive a).disk sec=a.disk sec := by
  simp only [gptDrive,store_disk]
  rw [writeFrom_of_ne (by omega),writeFrom_of_ne (by omega),writeFrom_of_ne (by omega)]

theorem stub_bootDrive (a : Ata) : StubAndGpt (mbrDrive (mbrDrive (gptDrive (mbrDrive a)))).disk := by
  have hno : hasCode ((gptDrive (mbrDrive a)).disk 0)=false := by
    simp [hasCode,gptDrive_code]
  have hstub : ∀ o, o<446 → (mbrDrive (gptDrive (mbrDrive a))).disk 0 o=patch 0 haltStub zeros o := by
    intro o ho
    rw [mbrDrive_code ho,hno]
    rfl
  have hyes : hasCode ((mbrDrive (gptDrive (mbrDrive a))).disk 0)=true := by
    rw [hasCode_congr hstub]
    decide
  refine ⟨?_,?_,?_⟩
  · intro o ho
    rw [mbrDrive_code ho,hyes,if_pos rfl,hstub o ho]
  · intro o _
    rw [mbrDrive_rest (by omega),mbrDrive_rest (by omega),gptDrive_header]
  · intro o _
    rw [mbrDrive_rest (by omega),mbrDrive_rest (by omega),gptDrive_entry]

section Unlinked
variable (hmbr : b.mbr=[]) (hstage2 : b.stage2=[]) (h : Ideal s.ata)
include hmbr hstage2 h

theorem installBootloader_unlinked : installBootloader fuel b s=(some true,{ s with ata := mbrDrive s.ata }) := by
  rw [installBootloader,if_pos hmbr,bind_some (partCreateMbrFat32_ideal h),installStage2,hstage2]
  rfl

theorem installBoot_unlinked (fuel : Nat) : installBoot b fuel s =
    (some true,{ s with ata := mbrDrive (mbrDrive (gptDrive (mbrDrive s.ata))) }) := by
  rw [installBoot,bind_some (installBootloader_unlinked hmbr hstage2 h),if_pos rfl]
  refine (bind_some (partCreateGptFat32_ideal (s := { s with ata := mbrDrive s.ata }) h)).trans ?_
  refine (bind_some (partCreateMbrFat32_ideal (s := { s with ata := gptDrive (mbrDrive s.ata) }) h)).trans ?_
  exact installBootloader_unlinked (s := { s with ata := mbrDrive (gptDrive (mbrDrive s.ata)) }) hmbr hstage2 h

/-- The installer returns 0, with the stub and the GPT in front and all else in front as it was. -/
theorem installRun_unlinked : ∃ fuel t V, installRun b fuel s=(some true,t) ∧ Seeded t.ata.disk 12 V t ∧
    (b.kernel≠[] → b.kernel.length≤4194304 → ImageKept b.kernel t) ∧ StubAndGpt t.ata.disk ∧
    ∀ sec, 3 ≤ sec → sec<PART_START → t.ata.disk sec=s.ata.disk sec := by
  obtain ⟨fuel,hf,hf'⟩ : ∃ fuel, 32700<fuel ∧ kernelSectors b.kernel<fuel :=
    ⟨kernelSectors b.kernel+32701,by omega,by omega⟩
  have hboot := installBoot_unlinked hmbr hstage2 h fuel
  have hstub := stub_bootDrive s.ata
  obtain ⟨t,V,hvolume,hseed,himage⟩ := installVolume_ideal (b := b)
    (s := { s with ata := mbrDrive (mbrDrive (gptDrive (mbrDrive s.ata))) }) h hf hf'
  have hfront : ∀ sec, sec<2048 →
      t.ata.disk sec=(mbrDrive (mbrDrive (gptDrive (mbrDrive s.ata)))).disk sec :=
    fun sec hsec => hseed.front sec hsec
  refine ⟨fuel,t,V,?_,⟨hseed.sees,hseed.low,hseed.sound,fun _ _ => rfl⟩,himage,⟨?_,?_,?_⟩,?_⟩
  · rw [installRun,state_bind,if_neg h.not_absent,bind_some hboot,if_pos rfl]
    exact hvolume
  · intro o ho
    rw [hfront 0 (by omega),hstub.code o ho]
  · intro o ho
    rw [hfront 1 (by omega),hstub.header o ho]
  · intro o ho
    rw [hfront 2 (by omega),hstub.entry o ho]
  · intro sec hsec hlt
    rw [hfront sec hlt,mbrDrive_rest (by omega),mbrDrive_rest (by omega),gptDrive_rest hsec,
      mbrDrive_rest (by omega)]

end Unlinked

/-- Without linked boot code the installer returns 0, and keeps the boot code and the second stage on the disk
exactly when they were its own stub and GPT. -/
theorem boot_code_kept_iff (hmbr : b.mbr=[]) (hstage2 : b.stage2=[]) (h : Ideal s.ata) :
    ∃ t, Returns (installRun b) s true t ∧ (BootKept s.ata.disk t.ata.disk ↔ StubAndGpt s.ata.disk) := by
  obtain ⟨fuel,t,V,hrun,_,_,hstub,hrest⟩ := installRun_unlinked hmbr hstage2 h
  refine ⟨t,⟨fuel,hrun⟩,?_,?_⟩
  · intro hkept
    refine ⟨?_,?_,?_⟩
    · intro o ho
      rw [← hkept.code o ho,hstub.code o ho]
    · intro o ho
      rw [← hkept.stage2 1 (by omega) (by omega) o ho,hstub.header o ho]
    · intro o ho
      rw [← hkept.stage2 2 (by omega) (by omega) o ho,hstub.entry o ho]
  · intro hwas
    refine ⟨?_,?_⟩
    · intro o ho
      rw [hstub.code o ho,hwas.code o ho]
    · intro sec hlo hhi o ho
      by_cases h1 : sec=1
      · rw [h1,hstub.header o ho,hwas.header o ho]
      · by_cases h2 : sec=2
        · rw [h2,hstub.entry o ho,hwas.entry o ho]
        · rw [hrest sec (by omega) (by unfold PART_START; omega)]

def noBlobs : Blobs := ⟨[],[],[],by decide⟩

def jumpDisk : Nat → Nat → UInt8 := fun sec o => if sec=0 ∧ o=0 then 0xEB else 0

theorem ideal_attachedTo (disk : Nat → Nat → UInt8) : Ideal (attachedTo disk).ata := ⟨rfl,fun _ => rfl⟩

theorem boot_code_kept_iff_jump : ∃ t, Returns (installRun noBlobs) (attachedTo jumpDisk) true t ∧
    (BootKept jumpDisk t.ata.disk ↔ StubAndGpt jumpDisk) :=
  boot_code_kept_iff (s := attachedTo jumpDisk) rfl rfl (ideal_attachedTo _)

/-- The jump is replaced by `cli`. -/
theorem boot_code_not_kept : ¬ ∀ (b : Blobs) (s : Fat), b.mbr=[] → b.stage2=[] → Ideal s.ata →
    hasCode (s.ata.disk 0)=true → ∀ r t, Returns (installRun b) s r t → BootKept s.ata.disk t.ata.disk := by
  intro hall
  obtain ⟨fuel,t,V,hrun,_,_,hstub,_⟩ := installRun_unlinked (b := noBlobs) (s := attachedTo jumpDisk)
    rfl rfl (ideal_attachedTo _)
  have hkept := hall noBlobs (attachedTo jumpDisk) rfl rfl (ideal_attachedTo _) (by decide) true t ⟨fuel,hrun⟩
  have hcode := (hkept.code 0 (by omega)).symm.trans (hstub.code 0 (by omega))
  exact absurd hcode (by decide)

end MyKernel.Install
