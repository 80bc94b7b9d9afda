import MyKernel.Install.Part

/-! The installer of `install.c`. A blob that is not linked is empty. Output and the VFS mount point are left out. -/
namespace MyKernel.Install
open CString Memory MyKernel.Computation Disk Fat32

def KERNEL_LBA : Nat := 8192
def META_LBA : Nat := 8191
def STAGE2_LBA : Nat := 1
def PART_START : Nat := 2048
def PART_SIZE : Nat := 262144

/-- The blobs linked into the kernel, which lies above 1 MiB in an address space of 32 bits. -/
structure Blobs where
  mbr : List UInt8
  stage2 : List UInt8
  kernel : List UInt8
  addressable : mbr.length+stage2.length+kernel.length≤0xFFF00000

def rawSector (data : List UInt8) (off : Nat) : Nat → UInt8 :=
  fun i => if u32 (off+i)<data.length then data.getD (u32 (off+i)) 0 else 0

def writeRaw (data : List UInt8) : Nat → Nat → Nat → FatM Bool
  | 0, _, _ => running
  | fuel+1, lba, off =>
    if off<data.length then do
      if ← rawWrite lba (rawSector data off) then writeRaw data fuel (u32 (lba+1)) (u32 (off+512))
      else pure false
    else pure true

def installStage2 (fuel : Nat) (stage2 : List UInt8) : FatM Bool :=
  if stage2≠[] then writeRaw stage2 fuel STAGE2_LBA 0 else pure true

def bootloaderSector (mbr : List UInt8) : Nat → UInt8 :=
  patch 446 (tableEntry 0x80 0x0C PART_START PART_SIZE)
    (patch 510 signature (patch 0 (mbr.take 446) zeros))

def installBootloader (fuel : Nat) (b : Blobs) : FatM Bool :=
  if b.mbr=[] then do
    let _ ← partCreateMbrFat32 PART_START PART_SIZE
    installStage2 fuel b.stage2
  else do
    if ← rawWrite 0 (bootloaderSector b.mbr) then installStage2 fuel b.stage2 else pure false

def kernelSectors (kernel : List UInt8) : Nat := u32 (kernel.length+511)/512

def metaSector (kernel : List UInt8) : Nat → UInt8 :=
  patch 0 ([0x4C,0x4E,0x52,0x4B]++wordBytes (kernelSectors kernel)) zeros

def installKernelImage (fuel : Nat) (kernel : List UInt8) : FatM Bool :=
  if kernel=[] then pure true
  else do
    if ← rawWrite META_LBA (metaSector kernel) then writeRaw kernel fuel KERNEL_LBA 0 else pure false

def fat32SetPartitionLba (lba : Nat) : FatM Unit :=
  update fun s => { s with mounted := false, geo := { s.geo with partitionLba := lba } }

def readmeText : List UInt8 :=
  ascii "MyKernel installed volume. Boot via BIOS MBR stage2 or GRUB.\r\n"

def grubText : List UInt8 :=
  ascii "set timeout=3\nmenuentry \"MyKernel\" \x7b\n multiboot /BOOT/KERNEL.BIN\n boot\n\x7d\n"

def kernelText : List UInt8 := ascii "Raw image at LBA 8192; stage2 loads it to 1MB.\r\n"

def seedCalls : List Call :=
  [.mkdir (ascii "BOOT"),.mkdir (ascii "BIN"),.write (ascii "README.TXT") readmeText,
    .write (ascii "GRUB.CFG") grubText]

def kernelNote : Call := .write (ascii "KERNEL.TXT") kernelText

def callAll (fuel : Nat) : List Call → FatM Unit
  | [] => pure ()
  | a::as => do
    let _ ← call a fuel
    callAll fuel as

def installBoot (b : Blobs) (fuel : Nat) : FatM Bool := do
  if ← installBootloader fuel b then
    let _ ← partCreateGptFat32 PART_START PART_SIZE
    let _ ← partCreateMbrFat32 PART_START PART_SIZE
    installBootloader fuel b
  else pure false

def installVolume (b : Blobs) (fuel : Nat) : FatM Bool := do
  if (← fat32Mkfs PART_START PART_SIZE) = .ok then
    fat32SetPartitionLba PART_START
    if (← fat32Mount) = .ok then
      callAll fuel seedCalls
      let _ ← installKernelImage fuel b.kernel
      callAll fuel [kernelNote]
      pure true
    else pure false
  else pure false

def installRun (b : Blobs) (fuel : Nat) : FatM Bool := do
  let s ← state
  if !s.ata.present then pure false
  else if ← installBoot b fuel then installVolume b fuel else pure false

theorem mono_writeRaw (data : List UInt8) : ∀ fuel lba off,
    Le (writeRaw data fuel lba off) (writeRaw data (fuel+1) lba off) := by
  intro fuel
  induction fuel with
  | zero => exact fun _ _ => le_running _
  | succ fuel ih =>
    intro lba off
    rw [writeRaw,writeRaw]
    apply Le.ite
    · apply Le.bind_right
      intro ok
      exact Le.ite (ih _ _) (Le.refl _)
    · exact Le.refl _

theorem mono_installStage2 (stage2 : List UInt8) (fuel : Nat) :
    Le (installStage2 fuel stage2) (installStage2 (fuel+1) stage2) :=
  Le.ite (mono_writeRaw _ _ _ _) (Le.refl _)

theorem mono_installBootloader (b : Blobs) (fuel : Nat) :
    Le (installBootloader fuel b) (installBootloader (fuel+1) b) := by
  apply Le.ite
  · exact Le.bind_right fun _ => mono_installStage2 _ _
  · apply Le.bind_right
    intro ok
    exact Le.ite (mono_installStage2 _ _) (Le.refl _)

theorem mono_installKernelImage (kernel : List UInt8) (fuel : Nat) :
    Le (installKernelImage fuel kernel) (installKernelImage (fuel+1) kernel) := by
  apply Le.ite (Le.refl _)
  apply Le.bind_right
  intro ok
  exact Le.ite (mono_writeRaw _ _ _ _) (Le.refl _)

theorem mono_callAll (as : List Call) (fuel : Nat) : Le (callAll fuel as) (callAll (fuel+1) as) := by
  induction as with
  | nil => exact Le.refl _
  | cons a as ih => exact (mono_call a fuel).bind fun _ => ih

theorem mono_installRun (b : Blobs) : Mono (installRun b) := by
  intro fuel
  apply Le.bind_right
  intro s
  apply Le.ite (Le.refl _)
  apply Le.bind
  · apply Le.bind (mono_installBootloader b fuel)
    intro ok
    apply Le.ite _ (Le.refl _)
    exact Le.bind_right fun _ => Le.bind_right fun _ => mono_installBootloader b fuel
  · intro ok
    apply Le.ite _ (Le.refl _)
    apply Le.bind_right
    intro r
    apply Le.ite _ (Le.refl _)
    apply Le.bind_right
    intro _
    apply Le.bind_right
    intro r'
    apply Le.ite _ (Le.refl _)
    apply (mono_callAll _ _).bind
    intro _
    apply (mono_installKernelImage _ _).bind
    intro _
    exact (mono_callAll _ _).bind fun _ => Le.refl _

end MyKernel.Install
