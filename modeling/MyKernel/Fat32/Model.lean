import MyKernel.Disk.Ata
import MyKernel.Lib.CString
import MyKernel.Lib.Comp
import MyKernel.Lib.Memory

/-! The FAT32 driver of `fat32.c`. Strings are the bytes before their NUL. Loops along a chain take fuel. Null-pointer
checks and output are left out. -/
namespace MyKernel.Fat32
open Memory MyKernel.Computation Disk

def WRITE_MAX_BYTES : Nat := 4096
def ATTR_VOLUME_ID : UInt8 := 0x08
def ATTR_DIRECTORY : UInt8 := 0x10
def ATTR_ARCHIVE : UInt8 := 0x20
def ATTR_LFN : UInt8 := 0x0F

/-- The first end-of-chain mark, and the mark the driver writes. -/
def EOC : Nat := 0x0FFFFFF8
def LAST : Nat := 0x0FFFFFFF

inductive FatResult where
  | ok | noDisk | notFat32 | io | notFound | isDir | notDir | tooBig | notMounted | noSpace
  | exists | notEmpty
  deriving DecidableEq, Repr

structure Geo where
  partitionLba : Nat
  fatStart : Nat
  dataStart : Nat
  rootCluster : Nat
  sectorsPerCluster : Nat
  fatSizeSectors : Nat
  numFats : Nat
  totalClusters : Nat
  deriving DecidableEq, Repr

def Geo.clusterBytes (g : Geo) : Nat := SECTOR_SIZE*g.sectorsPerCluster

/-- `allocated` is not in the source: what `fat_alloc_cluster` has returned so far, the last one first. -/
structure Fat where
  mounted : Bool
  geo : Geo
  ata : Ata
  sectorBuf : Nat → UInt8
  clusterBuf : Nat → UInt8
  allocated : List Nat := []

abbrev FatM := Comp Fat

def wordAt (buf : Nat → UInt8) (i : Nat) : Nat := le32 (buf i) (buf (i+1)) (buf (i+2)) (buf (i+3))
def halfAt (buf : Nat → UInt8) (i : Nat) : Nat := le16 (buf i) (buf (i+1))

def patch (off : Nat) (bytes : List UInt8) (buf : Nat → UInt8) : Nat → UInt8 :=
  fun i => if off ≤ i ∧ i<off+bytes.length then bytes.getD (i-off) 0 else buf i

def zeroFront (n : Nat) (buf : Nat → UInt8) : Nat → UInt8 := fun i => if i<n then 0 else buf i

def setSectorBuf (f : (Nat → UInt8) → Nat → UInt8) : FatM Unit :=
  update fun s => { s with sectorBuf := f s.sectorBuf }

def setClusterBuf (f : (Nat → UInt8) → Nat → UInt8) : FatM Unit :=
  update fun s => { s with clusterBuf := f s.clusterBuf }

def sectorRead (lba : Nat) : FatM Bool := fun s =>
  let r := ataReadSectors s.ata lba 1 s.sectorBuf
  (some r.1,{ s with sectorBuf := r.2.1, ata := r.2.2 })

def sectorWrite (lba : Nat) : FatM Bool := fun s =>
  let r := ataWriteSectors s.ata lba 1 s.sectorBuf
  (some r.1,{ s with ata := r.2 })

def clusterToLba (g : Geo) (cluster : Nat) : Nat :=
  u32 (g.dataStart+sub32 cluster 2*g.sectorsPerCluster)

def readCluster (cluster : Nat) : FatM Bool := fun s =>
  let lba := u32 (s.geo.partitionLba+clusterToLba s.geo cluster)
  let r := ataReadSectors s.ata lba s.geo.sectorsPerCluster s.clusterBuf
  (some r.1,{ s with clusterBuf := r.2.1, ata := r.2.2 })

def writeCluster (cluster : Nat) : FatM Bool := fun s =>
  let lba := u32 (s.geo.partitionLba+clusterToLba s.geo cluster)
  let r := ataWriteSectors s.ata lba s.geo.sectorsPerCluster s.clusterBuf
  (some r.1,{ s with ata := r.2 })

def fatSector (g : Geo) (cluster : Nat) : Nat := u32 (g.fatStart+u32 (cluster*4)/SECTOR_SIZE)
def entOffset (cluster : Nat) : Nat := u32 (cluster*4)%SECTOR_SIZE

def fatGet (cluster : Nat) : FatM Nat := do
  let s ← state
  if ← sectorRead (u32 (s.geo.partitionLba+fatSector s.geo cluster)) then
    let s ← state
    pure (wordAt s.sectorBuf (entOffset cluster)%0x10000000)
  else pure 0x0FFFFFF7

/-- `(old & 0xF0000000) | (value & 0x0FFFFFFF)`. -/
def mergeEntry (old value : Nat) : Nat := old/0x10000000*0x10000000+value%0x10000000

def wordBytes (v : Nat) : List UInt8 := [byteOf v 0,byteOf v 1,byteOf v 2,byteOf v 3]
def halfBytes (v : Nat) : List UInt8 := [byteOf v 0,byteOf v 1]

def fatSetLoop (cluster value : Nat) : Nat → Nat → FatM Bool
  | 0, _ => pure true
  | n+1, f => do
    let s ← state
    let sec := u32 (fatSector s.geo cluster+u32 (f*s.geo.fatSizeSectors))
    if ← sectorRead (u32 (s.geo.partitionLba+sec)) then
      setSectorBuf fun buf =>
        patch (entOffset cluster) (wordBytes (mergeEntry (wordAt buf (entOffset cluster)) value)) buf
      if ← sectorWrite (u32 (s.geo.partitionLba+sec)) then fatSetLoop cluster value n (f+1)
      else pure false
    else pure false

def fatSet (cluster value : Nat) : FatM Bool := do
  let s ← state
  fatSetLoop cluster value s.geo.numFats 0

/-- 0 when none of the `n` clusters is free. -/
def fatAllocLoop : Nat → Nat → FatM Nat
  | 0, _ => pure 0
  | n+1, c => do
    if (← fatGet c)=0 then
      if ← fatSet c LAST then pure c else pure 0
    else fatAllocLoop n (c+1)

def noteAllocated (c : Nat) : FatM Nat := fun s => (some c,{ s with allocated := c::s.allocated })

def fatAllocCluster : FatM Nat := do
  let s ← state
  let c ← fatAllocLoop (u32 (s.geo.totalClusters+2) - 2) 2
  noteAllocated c

def fatFreeChain : Nat → Nat → FatM Bool
  | 0, _ => running
  | fuel+1, cluster =>
    if 2≤cluster ∧ cluster<EOC then do
      let next ← fatGet cluster
      if ← fatSet cluster 0 then fatFreeChain fuel next else pure false
    else pure true

structure Dirent where
  name : List UInt8
  attr : UInt8
  firstClusterHi : Nat
  firstClusterLo : Nat
  fileSize : Nat
  deriving DecidableEq, Repr

def direntAt (buf : Nat → UInt8) (off : Nat) : Dirent where
  name := (List.range 11).map fun i => buf (off+i)
  attr := buf (off+11)
  firstClusterHi := halfAt buf (off+20)
  firstClusterLo := halfAt buf (off+26)
  fileSize := wordAt buf (off+28)

def Dirent.mark (de : Dirent) : UInt8 := de.name.headD 0
def Dirent.first (de : Dirent) : Nat := de.firstClusterHi*65536+de.firstClusterLo
def Dirent.isDir (de : Dirent) : Bool := de.attr &&& ATTR_DIRECTORY != 0

def Dirent.listed (de : Dirent) : Bool :=
  de.mark != 0xE5 && de.attr != ATTR_LFN && de.attr &&& ATTR_VOLUME_ID == 0

def direntBytes (name : List UInt8) (attr : UInt8) (first size : Nat) : List UInt8 :=
  name++[attr]++List.replicate 8 0++halfBytes (first/65536)++List.replicate 4 0
    ++halfBytes (first%65536)++wordBytes size

def upper (c : UInt8) : UInt8 := if 0x61≤c ∧ c≤0x7A then c - 32 else c

def padTo (n : Nat) (l : List UInt8) : List UInt8 := l++List.replicate (n-l.length) 0x20

def baseOf (name : List UInt8) : List UInt8 := (name.takeWhile fun c => c != 0x2E).take 8

def extOf : List UInt8 → List UInt8
  | c::rest => if c=0x2E then rest.take 3 else []
  | [] => []

def nameTo83 (name : List UInt8) : List UInt8 :=
  padTo 8 ((baseOf name).map upper)++padTo 3 ((extOf (name.drop (baseOf name).length)).map upper)

def direntMatch (de : Dirent) (name : List UInt8) : Bool := de.name == nameTo83 name

inductive Scan (β : Type) where
  | stop
  | hit (b : β)
  | more

/-- `fn` ends the scan with a value. -/
def scanEntries {β : Type} (D : Nat → Dirent) (fn : Dirent → Option β) : Nat → Nat → Scan β
  | 0, _ => .more
  | n+1, i =>
    if (D i).mark=0 then .stop
    else if !(D i).listed then scanEntries D fn n (i+1)
    else match fn (D i) with
      | some b => .hit b
      | none => scanEntries D fn n (i+1)

inductive Iter (β : Type) where
  | error
  | done
  | hit (b : β)

def entriesPerCluster (g : Geo) : Nat := 16*g.sectorsPerCluster

def afterScan {β : Type} (rest : FatM (Iter β)) : Scan β → FatM (Iter β)
  | .stop => pure .done
  | .hit b => pure (.hit b)
  | .more => rest

def iterateDir {β : Type} (fn : Dirent → Option β) : Nat → Nat → FatM (Iter β)
  | 0, _ => running
  | fuel+1, cluster =>
    if 2≤cluster ∧ cluster<EOC then do
      if ← readCluster cluster then
        let s ← state
        afterScan (do let next ← fatGet cluster; iterateDir fn fuel next)
          (scanEntries (fun k => direntAt s.clusterBuf (32*k)) fn (entriesPerCluster s.geo) 0)
      else pure .error
    else pure .done

def findCb (name : List UInt8) (de : Dirent) : Option Dirent :=
  if direntMatch de name then some de else none

structure Slot where
  cluster : Nat
  offset : Nat
  deriving DecidableEq, Repr

inductive SlotScan where
  | existing (slot : Slot) (de : Dirent)
  | free (slot : Slot)
  | more (found : Option Slot)
  deriving DecidableEq, Repr

/-- Behind a free slot the end mark no longer stops the search. -/
def slotEntries (want : List UInt8) (D : Nat → Dirent) (slotOf : Nat → Slot) :
    Nat → Nat → Option Slot → SlotScan
  | 0, _, found => .more found
  | n+1, i, found =>
    if (D i).mark≠0 ∧ (D i).listed ∧ (D i).name=want then .existing (slotOf i) (D i)
    else if found=none ∧ ((D i).mark=0 ∨ (D i).mark=0xE5) then
      if (D i).mark=0 then .free (slotOf i) else slotEntries want D slotOf n (i+1) (some (slotOf i))
    else slotEntries want D slotOf n (i+1) found

inductive SlotResult where
  | io
  | noSpace
  | found (slot : Slot) (existing : Option Dirent)
  deriving DecidableEq, Repr

def slotFound : Option Slot → SlotResult
  | some slot => .found slot none
  | none => .noSpace

def extendDir (last : Nat) : FatM SlotResult := do
  let nc ← fatAllocCluster
  if nc=0 then pure .noSpace
  else if ← fatSet last nc then
    let s ← state
    setClusterBuf (zeroFront s.geo.clusterBytes)
    if ← writeCluster nc then pure (.found ⟨nc,0⟩ none) else pure .io
  else pure .io

def afterSlots (rest : Option Slot → FatM SlotResult) : SlotScan → FatM SlotResult
  | .existing slot de => pure (.found slot (some de))
  | .free slot => pure (.found slot none)
  | .more found => rest found

def atChainEnd (last : Nat) : Option Slot → FatM SlotResult
  | some slot => pure (.found slot none)
  | none => extendDir last

def findSlotLoop (want : List UInt8) : Nat → Nat → Option Slot → FatM SlotResult
  | 0, _, _ => running
  | fuel+1, cluster, found =>
    if 2≤cluster ∧ cluster<EOC then do
      if ← readCluster cluster then
        let s ← state
        afterSlots
          (fun found => do
            let next ← fatGet cluster
            if EOC≤next then atChainEnd cluster found else findSlotLoop want fuel next found)
          (slotEntries want (fun k => direntAt s.clusterBuf (32*k)) (fun k => ⟨cluster,32*k⟩)
            (entriesPerCluster s.geo) 0 found)
      else pure .io
    else pure (slotFound found)

def findSlotInRoot (fuel : Nat) (want : List UInt8) : FatM SlotResult := do
  let s ← state
  findSlotLoop want fuel s.geo.rootCluster none

def putEntry (slot : Slot) (f : (Nat → UInt8) → Nat → UInt8) : FatM FatResult := do
  if ← readCluster slot.cluster then
    setClusterBuf f
    if ← writeCluster slot.cluster then pure .ok else pure .io
  else pure .io

/-- `if (prev) fat_set(prev, c)`. -/
def linkPrev (prev c : Nat) : FatM Bool := if prev≠0 then fatSet prev c else pure true

/-- `first` and `prev` are 0 before the first cluster. -/
def writeLoop (text : List UInt8) : Nat → Nat → Nat → Nat → FatM (Except FatResult (Nat × Nat))
  | 0, _, _, _ => running
  | fuel+1, pos, first, prev =>
    if pos<text.length then do
      let c ← fatAllocCluster
      if c=0 then pure (.error .noSpace)
      else
        let first := if first=0 then c else first
        if ← linkPrev prev c then
          let s ← state
          let chunk := min (text.length-pos) s.geo.clusterBytes
          setClusterBuf fun buf =>
            patch 0 ((text.drop pos).take chunk) (zeroFront s.geo.clusterBytes buf)
          if ← writeCluster c then writeLoop text fuel (pos+chunk) first c
          else pure (.error .io)
        else pure (.error .io)
    else pure (.ok (first,prev))

def writeData (fuel : Nat) (text : List UInt8) : FatM (Except FatResult Nat) := do
  match ← writeLoop text fuel 0 0 0 with
  | .error r => pure (.error r)
  | .ok (first,prev) =>
    if prev≠0 then
      if ← fatSet prev LAST then pure (.ok first) else pure (.error .io)
    else pure (.ok first)

def freeOld (fuel : Nat) : Option Dirent → FatM Unit
  | none => pure ()
  | some de =>
    if 2≤de.first then do
      let _ ← fatFreeChain fuel de.first
      pure ()
    else pure ()

def isDirEntry : Option Dirent → Bool
  | some de => de.isDir
  | none => false

def writeAt (fuel : Nat) (key text : List UInt8) (slot : Slot) (existing : Option Dirent) :
    FatM FatResult := do
  freeOld fuel existing
  match ← writeData fuel text with
  | .error r => pure r
  | .ok first =>
    putEntry slot (patch slot.offset (direntBytes key ATTR_ARCHIVE first text.length))

def fat32Write (fuel : Nat) (name text : List UInt8) : FatM FatResult := do
  let s ← state
  if !s.mounted then pure .notMounted
  else if name=[] then pure .notFound
  else if WRITE_MAX_BYTES<text.length then pure .tooBig
  else
    match ← findSlotInRoot fuel (nameTo83 name) with
    | .noSpace => pure .noSpace
    | .io => pure .io
    | .found slot existing =>
      if isDirEntry existing then pure .isDir
      else writeAt fuel (nameTo83 name) text slot existing

/-- What `fat32_read_file` leaves: its result, `*out_len` and the bytes stored. -/
structure ReadOut where
  result : FatResult
  outLen : Nat
  stored : List UInt8
  deriving DecidableEq, Repr

def readLoop (bufSize : Nat) : Nat → Nat → Nat → List UInt8 → FatM ReadOut
  | 0, _, _, _ => running
  | fuel+1, cluster, remaining, out =>
    if 2≤cluster ∧ cluster<EOC ∧ 0<remaining ∧ out.length<bufSize then do
      if ← readCluster cluster then
        let s ← state
        let chunk := min (min s.geo.clusterBytes remaining) (bufSize-out.length)
        let next ← fatGet cluster
        readLoop bufSize fuel next (remaining-chunk) (out++(List.range chunk).map s.clusterBuf)
      else pure ⟨.io,0,out⟩
    else pure ⟨.ok,out.length,out⟩

def fat32ReadFile (fuel : Nat) (name : List UInt8) (bufSize : Nat) : FatM ReadOut := do
  let s ← state
  if !s.mounted then pure ⟨.notMounted,0,[]⟩
  else if name=[] ∨ bufSize=0 then pure ⟨.notFound,0,[]⟩
  else
    match ← iterateDir (findCb name) fuel s.geo.rootCluster with
    | .error => pure ⟨.io,0,[]⟩
    | .done => pure ⟨.notFound,0,[]⟩
    | .hit de =>
      if de.isDir then pure ⟨.isDir,0,[]⟩
      else readLoop bufSize fuel de.first de.fileSize []

def CAT_MAX_BYTES : Nat := 4096

structure CatOut where
  result : FatResult
  shown : List UInt8
  deriving DecidableEq, Repr

def truncatedNote : List UInt8 := CString.ascii "\n... (truncated)\n"

/-- `true` when there are more bytes than may be shown. -/
def showBytes : List UInt8 → List UInt8 → Bool × List UInt8
  | [], shown => (false,shown)
  | b::bytes, shown => if CAT_MAX_BYTES ≤ shown.length then (true,shown) else showBytes bytes (shown++[b])

def catLoop : Nat → Nat → Nat → List UInt8 → FatM CatOut
  | 0, _, _, _ => running
  | fuel+1, cluster, remaining, shown =>
    if 2≤cluster ∧ cluster<EOC ∧ 0<remaining then do
      if ← readCluster cluster then
        let s ← state
        let chunk := min s.geo.clusterBytes remaining
        let r := showBytes ((List.range chunk).map s.clusterBuf) shown
        if r.1 then pure ⟨.ok,r.2++truncatedNote⟩
        else
          let next ← fatGet cluster
          catLoop fuel next (remaining-chunk) r.2
      else pure ⟨.io,shown⟩
    else pure ⟨.ok,shown++[0x0A]⟩

def fat32Cat (fuel : Nat) (path : List UInt8) : FatM CatOut := do
  let s ← state
  if !s.mounted then pure ⟨.notMounted,[]⟩
  else if path=[] then pure ⟨.notFound,[]⟩
  else
    match ← iterateDir (findCb path) fuel s.geo.rootCluster with
    | .error => pure ⟨.io,[]⟩
    | .done => pure ⟨.notFound,[]⟩
    | .hit de =>
      if de.isDir then pure ⟨.isDir,[]⟩
      else catLoop fuel de.first de.fileSize []

def dotName : List UInt8 := 0x2E::List.replicate 10 0x20
def dotdotName : List UInt8 := 0x2E::0x2E::List.replicate 9 0x20

def emptyDir (g : Geo) (dirCl : Nat) (buf : Nat → UInt8) : Nat → UInt8 :=
  patch 32 (direntBytes dotdotName ATTR_DIRECTORY g.rootCluster 0)
    (patch 0 (direntBytes dotName ATTR_DIRECTORY dirCl 0) (zeroFront g.clusterBytes buf))

def mkdirAt (fuel : Nat) (key : List UInt8) (dirCl : Nat) : SlotResult → FatM FatResult
  | .noSpace => do
    let _ ← fatFreeChain fuel dirCl
    pure .noSpace
  | .io => do
    let _ ← fatFreeChain fuel dirCl
    pure .io
  | .found _ (some _) => do
    let _ ← fatFreeChain fuel dirCl
    pure .exists
  | .found slot none => putEntry slot (patch slot.offset (direntBytes key ATTR_DIRECTORY dirCl 0))

def mkdirNew (fuel : Nat) (key : List UInt8) : FatM FatResult := do
  let s ← state
  let dirCl ← fatAllocCluster
  if dirCl=0 then pure .noSpace
  else
    setClusterBuf (emptyDir s.geo dirCl)
    if ← writeCluster dirCl then
      let r ← findSlotInRoot fuel key
      mkdirAt fuel key dirCl r
    else
      let _ ← fatSet dirCl 0
      pure .io

def fat32Mkdir (fuel : Nat) (name : List UInt8) : FatM FatResult := do
  let s ← state
  if !s.mounted then pure .notMounted
  else if name=[] then pure .notFound
  else
    match ← iterateDir (findCb name) fuel s.geo.rootCluster with
    | .error => pure .io
    | .hit _ => pure .exists
    | .done => mkdirNew fuel (nameTo83 name)

/-- Whether the first cluster of a directory has nothing but `.` and `..` in front of
its end mark. -/
def dirIsEmpty (D : Nat → Dirent) : Nat → Nat → Bool
  | 0, _ => true
  | n+1, i =>
    if (D i).mark=0 then true
    else if (D i).mark=0xE5 ∨ (D i).attr=ATTR_LFN then dirIsEmpty D n (i+1)
    else if (D i).name.take 2=[0x2E,0x20] then dirIsEmpty D n (i+1)
    else if (D i).name.take 3=[0x2E,0x2E,0x20] then dirIsEmpty D n (i+1)
    else false

def unlinkCheck (de : Dirent) : FatM FatResult := do
  if de.isDir ∧ 2≤de.first then
    if ← readCluster de.first then
      let s ← state
      if dirIsEmpty (fun k => direntAt s.clusterBuf (32*k)) (entriesPerCluster s.geo) 0 then pure .ok
      else pure .notEmpty
    else pure .io
  else pure .ok

def unlinkAt (fuel : Nat) (slot : Slot) (de : Dirent) : FatM FatResult := do
  let r ← unlinkCheck de
  if r ≠ .ok then pure r
  else
    let r ← putEntry slot (patch slot.offset [0xE5])
    if r ≠ .ok then pure r
    else
      freeOld fuel (some de)
      pure .ok

def fat32Unlink (fuel : Nat) (name : List UInt8) : FatM FatResult := do
  let s ← state
  if !s.mounted then pure .notMounted
  else if name=[] then pure .notFound
  else
    match ← findSlotInRoot fuel (nameTo83 name) with
    | .noSpace => pure .io
    | .io => pure .io
    | .found _ none => pure .notFound
    | .found slot (some de) => unlinkAt fuel slot de

structure Bpb where
  bytesPerSector : Nat
  sectorsPerCluster : Nat
  reservedSectors : Nat
  numFats : Nat
  totalSectors16 : Nat
  totalSectors32 : Nat
  fatSize32 : Nat
  rootCluster : Nat
  bootSignature : UInt8
  fsType0 : UInt8
  deriving DecidableEq, Repr

def bpbOf (buf : Nat → UInt8) : Bpb where
  bytesPerSector := halfAt buf 11
  sectorsPerCluster := (buf 13).toNat
  reservedSectors := halfAt buf 14
  numFats := (buf 16).toNat
  totalSectors16 := halfAt buf 19
  totalSectors32 := wordAt buf 32
  fatSize32 := wordAt buf 36
  rootCluster := wordAt buf 44
  bootSignature := buf 66
  fsType0 := buf 82

def geoOf (lba : Nat) (b : Bpb) : Geo :=
  let numFats := if b.numFats≠0 then b.numFats else 2
  let dataStart := u32 (b.reservedSectors+numFats*b.fatSize32)
  let totalSectors := if b.totalSectors16≠0 then b.totalSectors16 else b.totalSectors32
  { partitionLba := lba
    fatStart := b.reservedSectors
    dataStart := dataStart
    rootCluster := if b.rootCluster≠0 then b.rootCluster else 2
    sectorsPerCluster := b.sectorsPerCluster
    fatSizeSectors := b.fatSize32
    numFats := numFats
    totalClusters :=
      if dataStart<totalSectors then (totalSectors-dataStart)/b.sectorsPerCluster else 0x10000 }

def tryMountAt (lba : Nat) : FatM Bool := do
  update fun s => { s with geo := { s.geo with partitionLba := lba } }
  if ← sectorRead lba then
    let s ← state
    let b := bpbOf s.sectorBuf
    if b.bytesPerSector≠512 ∨ b.fatSize32=0 then pure false
    else if b.sectorsPerCluster=0 ∨ 64<b.sectorsPerCluster then pure false
    else
      update fun s => { s with geo := geoOf lba b }
      pure true
  else pure false

def isFatEntry (buf : Nat → UInt8) (i : Nat) : Bool :=
  let type := buf (446+i*16+4)
  type == 0x0B || type == 0x0C || type == 0x0E

def setPartitionLba (lba : Nat) : FatM Unit :=
  update fun s => { s with geo := { s.geo with partitionLba := lba } }

def findFatPartition : FatM Bool := do
  if ← sectorRead 0 then
    let s ← state
    let b := bpbOf s.sectorBuf
    if b.bytesPerSector=512 ∧ 1≤b.sectorsPerCluster ∧ 1≤b.numFats ∧ b.fatSize32≠0 ∧
        (b.fsType0=0x46 ∨ b.bootSignature=0x29) then
      setPartitionLba 0
      pure true
    else if s.sectorBuf 510≠0x55 ∨ s.sectorBuf 511≠0xAA then pure false
    else match (List.range 4).find? (isFatEntry s.sectorBuf) with
      | some i =>
        setPartitionLba (wordAt s.sectorBuf (446+i*16+8))
        pure true
      | none =>
        if ← sectorRead 2048 then
          let s ← state
          let b := bpbOf s.sectorBuf
          if b.bytesPerSector=512 ∧ b.fatSize32≠0 ∧ 1≤b.sectorsPerCluster ∧
              b.sectorsPerCluster≤64 ∧ (b.fsType0=0x46 ∨ b.bootSignature=0x29 ∨
                s.sectorBuf 510=0x55 ∧ s.sectorBuf 511=0xAA) then
            setPartitionLba 2048
            pure true
          else pure false
        else pure false
  else pure false

def ataReady : FatM Bool := fun s =>
  if s.ata.present then (some true,s)
  else (some (ataInit s.ata).1,{ s with ata := (ataInit s.ata).2 })

def setMounted (b : Bool) : FatM Unit := update fun s => { s with mounted := b }

def mountFound : FatM FatResult := do
  if ← findFatPartition then
    let s ← state
    if ← tryMountAt s.geo.partitionLba then
      setMounted true
      pure .ok
    else pure .notFat32
  else pure .notFat32

def fat32Mount : FatM FatResult := do
  setMounted false
  if ← ataReady then
    let s ← state
    let prefer := s.geo.partitionLba
    if prefer≠0 then
      if ← tryMountAt prefer then
        setMounted true
        pure .ok
      else mountFound
    else mountFound
  else pure .noDisk

end MyKernel.Fat32
