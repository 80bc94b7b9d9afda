import MyKernel.Loader.Elf
import MyKernel.RamFs.Model

/-! The dynamic linker of `dyld.c` and the load half of `process_exec`. Loops that run until a terminator take fuel;
`none` is a loop still running. Output is left out. -/
namespace MyKernel.Loader
open Memory RamFs

def DT_NULL : Nat := 0
def DT_NEEDED : Nat := 1
def DT_PLTRELS : Nat := 2
def DT_STRTAB : Nat := 5
def DT_SYMTAB : Nat := 6
def DT_RELA : Nat := 7
def DT_RELASZ : Nat := 8
def DT_REL : Nat := 17
def DT_RELSZ : Nat := 18
def DT_PLTREL : Nat := 20
def DT_JMPREL : Nat := 23

def STB_GLOBAL : Nat := 1
def STB_WEAK : Nat := 2
def SHN_UNDEF : Nat := 0

def R_386_NONE : Nat := 0
def R_386_32 : Nat := 1
def R_386_PC32 : Nat := 2
def R_386_GLOB_DAT : Nat := 6
def R_386_JMP_SLOT : Nat := 7
def R_386_RELATIVE : Nat := 8

def DYLD_MAX_MODS : Nat := 8
def DYLD_LIB_BASE : Nat := 0x600000
def DYLD_LIB_STRIDE : Nat := 0x100000
def DYLD_MAIN_BASE : Nat := 0x400000

inductive DyldResult where
  | ok | elf | interp | needed | reloc | nosym | nomem
  deriving DecidableEq, Repr

/-- A loaded module. Only a position-independent one has a load bias. -/
structure Module where
  name : List UInt8
  base : Nat
  image : Image
  isPie : Bool
  entry : Nat
  dynamic : Nat
  symtab : Nat
  strtab : Nat
  symcount : Nat
  base_fixed : isPie=false → base=0

def Module.bias (m : Module) : Nat := if m.isPie then m.base else 0

structure Dyld where
  load : LoadState
  mods : List Module

/-- What the linker reads besides the main image. -/
structure Libs where
  fs : Fs
  libhello : Image

def strEq (mem : Mem) : Nat → Nat → Nat → Option Bool
  | 0, _, _ => none
  | fuel+1, a, b =>
    if load8 mem a≠0 ∧ load8 mem b≠0 then
      if load8 mem a≠load8 mem b then some false else strEq mem fuel (a+1) (b+1)
    else some (load8 mem a == load8 mem b)

def strEqAt (mem : Mem) : List UInt8 → Nat → Bool
  | [], b => load8 mem b == 0
  | c::cs, b => load8 mem b == c && strEqAt mem cs (b+1)

def strCopy (mem : Mem) : Nat → Nat → List UInt8
  | 0, _ => []
  | n+1, p => if load8 mem p=0 then [] else load8 mem p::strCopy mem n (p+1)

def strAt (mem : Mem) : Nat → Nat → Option (List UInt8)
  | 0, _ => none
  | fuel+1, p =>
    if load8 mem p=0 then some []
    else (strAt mem fuel (p+1)).map (load8 mem p::·)

def parseEhdr (img : Image) : Bool :=
  ¬ img.size<ehdrSize ∧
  ¬ (img.u8 0≠0x7F ∨ img.u8 1≠0x45 ∨ img.u8 2≠0x4C ∨ img.u8 3≠0x46) ∧
  ¬ img.u8 4≠ELFCLASS32 ∧
  ¬ img.u8 5≠ELFDATA2LSB ∧
  ¬ img.eMachine≠EM_386 ∧
  ¬ (img.eType≠ET_EXEC ∧ img.eType≠ET_DYN)

def findDynamic (img : Image) (base : Nat) : Nat :=
  match img.phdrs.find? (fun ph => ph.type == PT_DYNAMIC) with
  | some ph => u32 (ph.vaddr+base)
  | none => 0

def loadSegmentsLoop (img : Image) (bias : Nat) (checkMainWindow : Bool) :
    List Phdr → Bool → LoadState → DyldResult × LoadState
  | [], loaded, s => (if loaded then .ok else .elf,s)
  | ph::phs, loaded, s =>
    if ph.type≠PT_LOAD then loadSegmentsLoop img bias checkMainWindow phs loaded s
    else if img.size<u32 (ph.offset+ph.filesz) then (.elf,s)
    else
      let addr := u32 (ph.vaddr+bias)
      if checkMainWindow ∧ (addr<0x00100000 ∨ 0x04000000<u32 (addr+ph.memsz)) then (.elf,s)
      else loadSegmentsLoop img bias checkMainWindow phs true (placeSegment img addr ph s)

def loadSegments (img : Image) (bias : Nat) (checkMainWindow : Bool) (s : LoadState) :
    DyldResult × LoadState :=
  loadSegmentsLoop img bias checkMainWindow img.phdrs false s

def scanDynamicLoop (mem : Mem) (bias : Nat) : Nat → Nat → Nat → Nat → Option (Nat × Nat)
  | 0, _, _, _ => none
  | fuel+1, d, symtab, strtab =>
    let tag := load32 mem d
    let val := load32 mem (d+4)
    if tag=DT_NULL then some (symtab,strtab)
    else if tag=DT_SYMTAB then scanDynamicLoop mem bias fuel (d+8) (u32 (val+bias)) strtab
    else if tag=DT_STRTAB then scanDynamicLoop mem bias fuel (d+8) symtab (u32 (val+bias))
    else scanDynamicLoop mem bias fuel (d+8) symtab strtab

def scanDynamic (fuel : Nat) (mem : Mem) (m : Module) : Option Module :=
  if m.dynamic=0 then some { m with symtab := 0, strtab := 0, symcount := 0 }
  else (scanDynamicLoop mem m.bias fuel m.dynamic 0 0).map fun (symtab,strtab) =>
    { m with symtab := symtab, strtab := strtab, symcount := 256 }

structure Sym where
  name : Nat
  value : Nat
  bind : Nat
  shndx : Nat
  deriving DecidableEq, Repr

def symAt (mem : Mem) (symtab i : Nat) : Sym :=
  let p := symtab+16*i
  ⟨load32 mem p,load32 mem (p+4),(load8 mem (p+12)).toNat >>> 4,
    le16 (load8 mem (p+14)) (load8 mem (p+15))⟩

def lookupInModule (fuel : Nat) (mem : Mem) (m : Module) (name : Nat) :
    Nat → Nat → Option (Option Nat)
  | 0, _ => some none
  | n+1, i =>
    let sym := symAt mem m.symtab i
    if sym.name=0 then lookupInModule fuel mem m name n (i+1)
    else if sym.shndx=SHN_UNDEF then lookupInModule fuel mem m name n (i+1)
    else match strEq mem fuel (m.strtab+sym.name) name with
      | none => none
      | some false => lookupInModule fuel mem m name n (i+1)
      | some true =>
        if sym.bind≠STB_GLOBAL ∧ sym.bind≠STB_WEAK then
          lookupInModule fuel mem m name n (i+1)
        else some (some (u32 (sym.value+m.bias)))

def lookupSymbol (fuel : Nat) (mem : Mem) (name : Nat) : List Module → Option (Option Nat)
  | [] => some none
  | m::ms =>
    if m.symtab=0 ∨ m.strtab=0 then lookupSymbol fuel mem name ms
    else match lookupInModule fuel mem m name m.symcount 0 with
      | some none => lookupSymbol fuel mem name ms
      | r => r

/-- One table entry; the addend of a REL entry is not in the table. -/
structure Rel where
  offset : Nat
  type : Nat
  sym : Nat
  addend : Nat
  deriving DecidableEq, Repr

def relSize (isRela : Bool) : Nat := if isRela then 12 else 8

def relAt (mem : Mem) (isRela : Bool) (p : Nat) : Rel :=
  let info := load32 mem (p+4)
  ⟨load32 mem p,info%256,info >>> 8,if isRela then load32 mem (p+8) else 0⟩

inductive SymVal where
  | val (v : Nat)
  | undefined
  deriving DecidableEq, Repr

def resolveSym (fuel : Nat) (mem : Mem) (mods : List Module) (m : Module) (idx : Nat) :
    Option SymVal :=
  if idx≠0 ∧ m.symtab≠0 ∧ m.strtab≠0 then
    let sym := symAt mem m.symtab idx
    if sym.shndx=SHN_UNDEF then
      match lookupSymbol fuel mem (m.strtab+sym.name) mods with
      | none => none
      | some (some v) => some (.val v)
      | some none => if sym.bind=STB_WEAK then some (.val 0) else some .undefined
    else some (.val (u32 (sym.value+m.bias)))
  else some (.val 0)

def storeRel (m : Module) (isRela : Bool) (r : Rel) (symVal : Nat) (s : LoadState) : LoadState :=
  let target := u32 (r.offset+m.bias)
  let addend := if !isRela ∧ r.type≠R_386_RELATIVE then load32 s.mem target else r.addend
  if r.type=R_386_RELATIVE then (s.put32 target (u32 (m.base+addend))).note (.reloc target)
  else if r.type=R_386_32 then (s.put32 target (u32 (symVal+addend))).note (.reloc target)
  else if r.type=R_386_PC32 then
    (s.put32 target (sub32 (symVal+addend) target)).note (.reloc target)
  else if r.type=R_386_GLOB_DAT ∨ r.type=R_386_JMP_SLOT then
    (s.put32 target symVal).note (.reloc target)
  else s

def applyRelLoop (fuel : Nat) (mods : List Module) (m : Module) (isRela : Bool) (stop : Nat) :
    Nat → Nat → LoadState → Option DyldResult × LoadState
  | 0, _, s => (none,s)
  | k+1, p, s =>
    if p<stop then
      let r := relAt s.mem isRela p
      match resolveSym fuel s.mem mods m r.sym with
      | none => (none,s)
      | some .undefined => (some .nosym,s)
      | some (.val v) =>
        applyRelLoop fuel mods m isRela stop k (u32 (p+relSize isRela)) (storeRel m isRela r v s)
    else (some .ok,s)

def applyRel (fuel : Nat) (mods : List Module) (m : Module) (relVa relsz : Nat) (isRela : Bool)
    (s : LoadState) : Option DyldResult × LoadState :=
  let addr := u32 (relVa+m.bias)
  applyRelLoop fuel mods m isRela (u32 (addr+relsz)) fuel addr s

/-- `if (r != DYLD_OK) return r;` between two calls. -/
def andThen {σ : Type} (x : Option DyldResult × σ) (k : σ → Option DyldResult × σ) :
    Option DyldResult × σ :=
  if x.1=some .ok then k x.2 else x

structure RelTables where
  rel : Nat
  relsz : Nat
  rela : Nat
  relasz : Nat
  jmprel : Nat
  pltrelsz : Nat
  pltrel : Nat
  deriving DecidableEq, Repr

def RelTables.set (t : RelTables) (tag val : Nat) : RelTables :=
  if tag=DT_REL then { t with rel := val }
  else if tag=DT_RELSZ then { t with relsz := val }
  else if tag=DT_RELA then { t with rela := val }
  else if tag=DT_RELASZ then { t with relasz := val }
  else if tag=DT_JMPREL then { t with jmprel := val }
  else if tag=DT_PLTRELS then { t with pltrelsz := val }
  else if tag=DT_PLTREL then { t with pltrel := val }
  else t

def relTablesLoop (mem : Mem) : Nat → Nat → RelTables → Option RelTables
  | 0, _, _ => none
  | fuel+1, d, t =>
    let tag := load32 mem d
    if tag=DT_NULL then some t else relTablesLoop mem fuel (d+8) (t.set tag (load32 mem (d+4)))

def applyTable (fuel : Nat) (mods : List Module) (m : Module) (va sz : Nat) (isRela : Bool)
    (s : LoadState) : Option DyldResult × LoadState :=
  if va≠0 ∧ sz≠0 then applyRel fuel mods m va sz isRela s else (some .ok,s)

def relocateModule (fuel : Nat) (mods : List Module) (m : Module) (s : LoadState) :
    Option DyldResult × LoadState :=
  if m.dynamic=0 then (some .ok,s)
  else match relTablesLoop s.mem fuel m.dynamic ⟨0,0,0,0,0,0,DT_REL⟩ with
    | none => (none,s)
    | some t =>
      andThen (applyTable fuel mods m t.rel t.relsz false s) fun s =>
      andThen (applyTable fuel mods m t.rela t.relasz true s) fun s =>
      applyTable fuel mods m t.jmprel t.pltrelsz (t.pltrel == DT_RELA) s

def relocateAll (fuel : Nat) (mods : List Module) :
    List Module → LoadState → Option DyldResult × LoadState
  | [], s => (some .ok,s)
  | m::ms, s => andThen (relocateModule fuel mods m s) (relocateAll fuel mods ms)

/-- `load_segments`, with the second attempt for a position-independent main program and the bias used last. -/
def loadSegmentsRetry (img : Image) (bias : Nat) (isMain : Bool) (s : LoadState) :
    Nat × DyldResult × LoadState :=
  let isPie := img.eType == ET_DYN
  let (dr,s) := loadSegments img (if isPie then bias else 0) (isMain && !isPie) s
  if dr ≠ .ok ∧ isMain ∧ isPie then (DYLD_MAIN_BASE,loadSegments img DYLD_MAIN_BASE true s)
  else (bias,dr,s)

def newModule (name : List UInt8) (img : Image) (bias : Nat) : Module where
  name := name
  base := if img.eType=ET_DYN then bias else 0
  image := img
  isPie := img.eType == ET_DYN
  entry := u32 (img.eEntry+if img.eType=ET_DYN then bias else 0)
  dynamic := findDynamic img (if img.eType=ET_DYN then bias else 0)
  symtab := 0
  strtab := 0
  symcount := 0
  base_fixed := by
    intro h
    simpa using fun he => absurd he (by simpa using h)

/-- The name is copied after the segments are loaded. -/
def loadOne (fuel : Nat) (name : Mem → List UInt8) (img : Image) (bias : Nat) (isMain : Bool)
    (d : Dyld) : Option DyldResult × Dyld :=
  if DYLD_MAX_MODS≤d.mods.length then (some .nomem,d)
  else if !parseEhdr img then (some .elf,d)
  else
    let (bias,dr,s) := loadSegmentsRetry img bias isMain d.load
    if dr ≠ .ok then (some dr,{ d with load := s })
    else match scanDynamic fuel s.mem (newModule (name s.mem) img bias) with
      | none => (none,{ d with load := s })
      | some m => (some .ok,{ load := s, mods := d.mods++[m] })

def baseName (mem : Mem) : Nat → Nat → Nat → Option Nat
  | 0, _, _ => none
  | fuel+1, p, base =>
    if load8 mem p=0 then some base
    else baseName mem fuel (p+1) (if load8 mem p=0x2F then p+1 else base)

def mainName : List UInt8 := [0x6D,0x61,0x69,0x6E]
def libDir : List UInt8 := [0x2F,0x6C,0x69,0x62,0x2F]
def libhelloName : List UInt8 :=
  [0x6C,0x69,0x62,0x68,0x65,0x6C,0x6C,0x6F,0x2E,0x73,0x6F]

def fileImage (n : FsNode) : Image := ⟨u32 n.contentLen,n.content,u32_lt _⟩

/-- An empty file counts as missing. -/
def findLibrary (fuel : Nat) (libs : Libs) (mem : Mem) (base : Nat) : Option (Option Image) :=
  if strEqAt mem libhelloName base ∧ libs.libhello.size≠0 then some (some libs.libhello)
  else
    let found := match fsReadPath libs.fs (libDir++strCopy mem 57 base) with
      | .ok n => some (some (fileImage n))
      | .error _ => match strAt mem fuel base with
        | none => none
        | some path => match fsReadPath libs.fs path with
          | .ok n => some (some (fileImage n))
          | .error _ => some none
    found.map fun img => img.filter fun img => img.size != 0

def loadNeededLoop (fuel : Nat) (libs : Libs) (m : Module) :
    Nat → Nat → Dyld → Option DyldResult × Dyld
  | 0, _, d => (none,d)
  | k+1, p, d =>
    let mem := d.load.mem
    let tag := load32 mem p
    if tag=DT_NULL then (some .ok,d)
    else if tag≠DT_NEEDED then loadNeededLoop fuel libs m k (p+8) d
    else
      let libname := m.strtab+load32 mem (p+4)
      match baseName mem fuel libname libname with
      | none => (none,d)
      | some base =>
        if d.mods.any (fun other => strEqAt mem other.name base) then
          loadNeededLoop fuel libs m k (p+8) d
        else match findLibrary fuel libs mem base with
          | none => (none,d)
          | some none => (some .needed,d)
          | some (some img) =>
            let before := if 0<d.mods.length then d.mods.length - 1 else 0
            let bias := u32 (DYLD_LIB_BASE+before*DYLD_LIB_STRIDE)
            andThen (loadOne fuel (fun mem => strCopy mem 47 base) img bias false d)
              (loadNeededLoop fuel libs m k (p+8))

def loadNeeded (fuel : Nat) (libs : Libs) (m : Module) (d : Dyld) : Option DyldResult × Dyld :=
  if m.dynamic=0 ∨ m.strtab=0 then (some .ok,d)
  else loadNeededLoop fuel libs m fuel m.dynamic d

/-- Libraries are relocated before the main program. -/
def linkAll (fuel : Nat) (libs : Libs) (main : Module) (d : Dyld) : Option DyldResult × Dyld :=
  andThen (loadNeeded fuel libs main d) fun d =>
    let r := andThen (relocateAll fuel d.mods (d.mods.drop 1) d.load)
      (relocateModule fuel d.mods main)
    (r.1,{ d with load := r.2 })

/-- `*entry_out` is stored only by a load that succeeds. -/
def dyldLoad (fuel : Nat) (libs : Libs) (img : Image) (s : LoadState) :
    Option DyldResult × Option Nat × Dyld :=
  if !parseEhdr img then (some .elf,none,⟨s,[]⟩)
  else match loadOne fuel (fun _ => mainName) img DYLD_MAIN_BASE true ⟨s,[]⟩ with
    | (some .ok,⟨s,main::mods⟩) =>
      match linkAll fuel libs main ⟨s,main::mods⟩ with
      | (some .ok,d) => (some .ok,some main.entry,d)
      | (r,d) => (r,none,d)
    | (r,d) => (r,none,d)

def elfIsDynamic (img : Image) : Bool :=
  if img.size<52 then false
  else if img.u8 0≠0x7F ∨ img.u8 1≠0x45 ∨ img.u8 2≠0x4C ∨ img.u8 3≠0x46 then false
  else img.phdrs.any fun ph => ph.type == 3 || ph.type == 2

/-- `process_exec` up to the jump: `some none` is its return of -1. -/
def processExec (fuel : Nat) (libs : Libs) (img : Image) (s : LoadState) :
    Option (Option Nat) × LoadState :=
  match dyldLoad fuel libs img s with
  | (none,_,d) => (none,d.load)
  | (some .ok,entry,d) => (some entry,d.load)
  | (some _,_,d) =>
    if elfIsDynamic img then (some none,d.load)
    else match elfLoad img d.load with
      | (.ok,entry,s) => (some entry,s)
      | (_,_,s) => (some none,s)

end MyKernel.Loader
