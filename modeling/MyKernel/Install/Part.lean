import MyKernel.Fat32.Mkfs

/-! The partition tables of `part.c`. What the static sector buffer held before is never seen. -/
namespace MyKernel.Install
open CString Memory MyKernel.Computation Disk Fat32

def rawRead (lba : Nat) (buf : Nat → UInt8) : FatM (Bool × (Nat → UInt8)) := fun s =>
  let r := ataReadSectors s.ata lba 1 buf
  (some (r.1,r.2.1),{ s with ata := r.2.2 })

def rawWrite (lba : Nat) (buf : Nat → UInt8) : FatM Bool := fun s =>
  let r := ataWriteSectors s.ata lba 1 buf
  (some r.1,{ s with ata := r.2 })

def zeros : Nat → UInt8 := fun _ => 0

def crcBit (c : UInt32) : UInt32 := (c >>> 1) ^^^ (0xEDB88320 &&& (0-(c &&& 1)))

def crcByte (c : UInt32) (b : UInt8) : UInt32 := crcBit^[8] (c ^^^ b.toUInt32)

def crc32 (data : List UInt8) : UInt32 := ~~~(data.foldl crcByte 0xFFFFFFFF)

example : crc32 (ascii "123456789")=0xCBF43926 := by decide +kernel

def longBytes (lo : Nat) : List UInt8 := wordBytes lo++wordBytes 0

def tableEntry (flag type : UInt8) (startLba sizeSectors : Nat) : List UInt8 :=
  [flag,0,0,0,type,0,0,0]++wordBytes startLba++wordBytes sizeSectors

def hasCode (sec : Nat → UInt8) : Bool := sec 0 != 0 || sec 1 != 0 || sec 2 != 0

def haltStub : List UInt8 := [0xFA,0xF4,0xEB,0xFD]

/-- The bootstrap of sector 0 as found, or the stub, with a new table of one entry. -/
def mbrSector (startLba sizeSectors : Nat) (sec : Nat → UInt8) : Nat → UInt8 :=
  patch 510 signature (patch 446 (tableEntry 0x80 0x0C startLba sizeSectors++List.replicate 48 0)
    (if hasCode sec then sec else patch 0 haltStub zeros))

def partCreateMbrFat32 (startLba sizeSectors : Nat) : FatM Bool := do
  let s ← state
  if !s.ata.present then pure false
  else
    let startLba := if startLba<1 then 2048 else startLba
    let sizeSectors := if sizeSectors=0 then 262144 else sizeSectors
    let (ok,sec) ← rawRead 0 zeros
    rawWrite 0 (mbrSector startLba sizeSectors (if ok then sec else zeros))

def protectiveSector : Nat → UInt8 :=
  patch 510 signature (patch 446 (tableEntry 0x00 0xEE 1 0xFFFFFFFF) zeros)

def typeGuid : List UInt8 :=
  [0xA2,0xA0,0xD0,0xEB,0xE5,0xB9,0x33,0x44,0x87,0xC0,0x68,0xB6,0xB7,0x26,0x99,0xC7]

def uniqueGuid : List UInt8 :=
  [0x11,0x22,0x33,0x44,0x55,0x66,0x77,0x88,0x99,0xAA,0xBB,0xCC,0xDD,0xEE,0xFF,0x01]

def diskGuid : List UInt8 := (List.range 16).map fun i => byteOf (0xA0+i) 0

def gptEntry (startLba last : Nat) : List UInt8 :=
  typeGuid++uniqueGuid++longBytes startLba++longBytes last++List.replicate 8 0
    ++(ascii "MYKERNEL").flatMap (fun c => [c,0])++List.replicate 56 0

def gptHeader (startLba sizeSectors last hdrCrc partCrc : Nat) : List UInt8 :=
  ascii "EFI PART"++wordBytes 0x00010000++wordBytes 92++wordBytes hdrCrc++wordBytes 0++longBytes 1
    ++longBytes (u32 (sizeSectors+startLba+100))++longBytes 34++longBytes last++diskGuid++longBytes 2
    ++wordBytes 128++wordBytes 128++wordBytes partCrc

def gptLast (startLba sizeSectors : Nat) : Nat := sub32 (u32 (startLba+sizeSectors)) 1

def entrySector (startLba sizeSectors : Nat) : Nat → UInt8 :=
  patch 0 (gptEntry startLba (gptLast startLba sizeSectors)) zeros

def headerSector (startLba sizeSectors : Nat) : Nat → UInt8 :=
  let last := gptLast startLba sizeSectors
  let partCrc := (crc32 (gptEntry startLba last)).toNat
  let hdrCrc := (crc32 (gptHeader startLba sizeSectors last 0 partCrc)).toNat
  patch 0 (gptHeader startLba sizeSectors last hdrCrc partCrc) zeros

def partCreateGptFat32 (startLba sizeSectors : Nat) : FatM Bool := do
  let s ← state
  if !s.ata.present then pure false
  else
    let startLba := if startLba<34 then 2048 else startLba
    let sizeSectors := if sizeSectors=0 then 262144 else sizeSectors
    if ← rawWrite 0 protectiveSector then
      if ← rawWrite 2 (entrySector startLba sizeSectors) then rawWrite 1 (headerSector startLba sizeSectors)
      else pure false
    else pure false

example : (gptEntry 2048 264191).length=128 := by decide +kernel

example : (gptHeader 2048 262144 264191 0 0).length=92 := by decide +kernel

end MyKernel.Install
