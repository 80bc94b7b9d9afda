import MyKernel.Lib.Memory

/-! ELF32 images, and `elf_load` of `elf.c`. An image is a byte string and the bytes behind its end, apart from
memory. -/
namespace MyKernel.Loader
open Memory

structure Image where
  size : Nat
  byte : Nat → UInt8
  size_lt : size<4294967296

def Image.u8 (img : Image) (off : Nat) : UInt8 := img.byte (u32 off)
def Image.u16 (img : Image) (off : Nat) : Nat := le16 (img.u8 off) (img.u8 (off+1))
def Image.u32At (img : Image) (off : Nat) : Nat :=
  le32 (img.u8 off) (img.u8 (off+1)) (img.u8 (off+2)) (img.u8 (off+3))

def ehdrSize : Nat := 52

def Image.eType (img : Image) : Nat := img.u16 16
def Image.eMachine (img : Image) : Nat := img.u16 18
def Image.eEntry (img : Image) : Nat := img.u32At 24
def Image.ePhoff (img : Image) : Nat := img.u32At 28
def Image.ePhentsize (img : Image) : Nat := img.u16 42
def Image.ePhnum (img : Image) : Nat := img.u16 44

structure Phdr where
  type : Nat
  offset : Nat
  vaddr : Nat
  filesz : Nat
  memsz : Nat
  deriving DecidableEq, Repr

def Image.phdr (img : Image) (i : Nat) : Phdr :=
  let p := img.ePhoff+i*img.ePhentsize
  ⟨img.u32At p,img.u32At (p+4),img.u32At (p+8),img.u32At (p+16),img.u32At (p+20)⟩

def Image.phdrs (img : Image) : List Phdr := (List.range img.ePhnum).map img.phdr

def ELFCLASS32 : UInt8 := 1
def ELFDATA2LSB : UInt8 := 1
def ET_EXEC : Nat := 2
def ET_DYN : Nat := 3
def EM_386 : Nat := 3
def PT_LOAD : Nat := 1
def PT_DYNAMIC : Nat := 2
def PT_INTERP : Nat := 3

/-- What the loaders store. -/
inductive Placed where
  | segment (addr filesz memsz : Nat)
  | reloc (target : Nat)
  deriving DecidableEq, Repr

/-- Memory during a load. No branch of the loaders reads `written`, the addresses stored, or `placed`, what was
loaded. -/
structure LoadState where
  mem : Mem
  written : List Nat
  placed : List Placed

def LoadState.put (s : LoadState) (a : Nat) (v : UInt8) : LoadState :=
  { s with mem := store8 s.mem a v, written := u32 a::s.written }

def LoadState.put32 (s : LoadState) (a v : Nat) : LoadState :=
  (((s.put a (byteOf v 0)).put (a+1) (byteOf v 1)).put (a+2) (byteOf v 2)).put (a+3) (byteOf v 3)

def LoadState.note (s : LoadState) (p : Placed) : LoadState := { s with placed := p::s.placed }

def memCopy (dst : Nat) (src : Nat → UInt8) : Nat → LoadState → LoadState
  | 0, s => s
  | n+1, s => (memCopy dst src n s).put (dst+n) (src n)

def memZero (dst : Nat) : Nat → LoadState → LoadState
  | 0, s => s
  | n+1, s => (memZero dst n s).put (dst+n) 0

def placeSegment (img : Image) (addr : Nat) (ph : Phdr) (s : LoadState) : LoadState :=
  let s := memCopy addr (fun k => img.u8 (ph.offset+k)) ph.filesz s
  let s := if ph.filesz<ph.memsz then memZero (addr+ph.filesz) (ph.memsz-ph.filesz) s else s
  s.note (.segment addr ph.filesz ph.memsz)

inductive ElfResult where
  | ok | badMagic | not32 | notExec | badArch | noLoad | tooBig
  deriving DecidableEq, Repr

def elfLoadLoop (img : Image) : List Phdr → Bool → LoadState → ElfResult × LoadState
  | [], loaded, s => (if loaded then .ok else .noLoad,s)
  | ph::phs, loaded, s =>
    if ph.type≠PT_LOAD then elfLoadLoop img phs loaded s
    else if img.size<u32 (ph.offset+ph.filesz) then (.noLoad,s)
    else if ph.vaddr<0x00100000 ∨ 0x04000000<u32 (ph.vaddr+ph.memsz) then (.tooBig,s)
    else elfLoadLoop img phs true (placeSegment img ph.vaddr ph s)

/-- The entry is stored only by a load that succeeds. -/
def elfLoad (img : Image) (s : LoadState) : ElfResult × Option Nat × LoadState :=
  if img.size<ehdrSize then (.badMagic,none,s)
  else if img.u8 0≠0x7F ∨ img.u8 1≠0x45 ∨ img.u8 2≠0x4C ∨ img.u8 3≠0x46 then
    (.badMagic,none,s)
  else if img.u8 4≠ELFCLASS32 then (.not32,none,s)
  else if img.u8 5≠ELFDATA2LSB then (.badMagic,none,s)
  else if img.eType≠ET_EXEC then (.notExec,none,s)
  else if img.eMachine≠EM_386 then (.badArch,none,s)
  else if img.size<u32 (img.ePhoff+u32 (img.ePhnum*img.ePhentsize)) then (.noLoad,none,s)
  else match elfLoadLoop img img.phdrs false s with
    | (.ok,s) => (.ok,some img.eEntry,s)
    | (r,s) => (r,none,s)

def halfBytes (v : Nat) : List UInt8 := [byteOf v 0,byteOf v 1]
def wordBytes (v : Nat) : List UInt8 := [byteOf v 0,byteOf v 1,byteOf v 2,byteOf v 3]

def phdrBytes (ph : Phdr) : List UInt8 :=
  wordBytes ph.type++wordBytes ph.offset++wordBytes ph.vaddr++wordBytes ph.vaddr
    ++wordBytes ph.filesz++wordBytes ph.memsz++wordBytes 7++wordBytes 0x1000

def elfBytes (type entry : Nat) (phs : List Phdr) : List UInt8 :=
  [0x7F,0x45,0x4C,0x46,1,1,1,0,0,0,0,0,0,0,0,0]
    ++halfBytes type++halfBytes EM_386++wordBytes 1++wordBytes entry++wordBytes 52
    ++wordBytes 0++wordBytes 0++halfBytes 52++halfBytes 32++halfBytes phs.length
    ++halfBytes 0++halfBytes 0++halfBytes 0++phs.flatMap phdrBytes

def imageOf (bytes : List UInt8) : Image := ⟨u32 bytes.length,fun i => bytes.getD i 0, u32_lt _⟩

end MyKernel.Loader
