import MyKernel.Lib.Traced
import MyKernel.Loader.Static

/-! The offsets of the image that the loaders read: the same functions with their reads recorded. -/
namespace MyKernel.Loader.Reads
open Memory Recorder

def look8 (img : Image) (off : Nat) : Traced Nat UInt8 := do
  tell [u32 off]
  pure (img.u8 off)

def look16 (img : Image) (off : Nat) : Traced Nat Nat := do
  let a ← look8 img off
  let b ← look8 img (off+1)
  pure (le16 a b)

def look32 (img : Image) (off : Nat) : Traced Nat Nat := do
  let a ← look8 img off
  let b ← look8 img (off+1)
  let c ← look8 img (off+2)
  let d ← look8 img (off+3)
  pure (le32 a b c d)

def field (img : Image) (i c : Nat) : Traced Nat Nat := do
  let phoff ← look32 img 28
  let phentsize ← look16 img 42
  look32 img (phoff+i*phentsize+c)

/-- The bytes are compared up to the first that differs. -/
def agree (img : Image) : List UInt8 → Nat → Traced Nat Bool
  | [], _ => pure true
  | c::cs, off => do
    let b ← look8 img off
    if b≠c then pure false else agree img cs (off+1)

def magic : List UInt8 := [0x7F,0x45,0x4C,0x46]

def findPass (img : Image) (want : Nat → Bool) (i : Nat) (_ : Unit) : Traced Nat (Except Nat Unit) := do
  let type ← field img i 0
  if want type then pure (.error i) else pure (.ok ())

def found : Except Nat Unit → Option Nat
  | .error i => some i
  | .ok _ => none

def findHeader (img : Image) (want : Nat → Bool) : Traced Nat (Option Nat) := do
  let phnum ← look16 img 44
  let r ← loop (findPass img want) phnum 0 ()
  pure (found r)

def elfIsDynamic (img : Image) : Traced Nat Bool :=
  if img.size<52 then pure false
  else do
    let same ← agree img magic 0
    if same then do
      let header ← findHeader img fun type => type == 3 || type == 2
      pure header.isSome
    else pure false

def findInterp (img : Image) : Traced Nat (Option Nat) := do
  let header ← findHeader img fun type => type == PT_INTERP
  match header with
  | none => pure none
  | some i => do
    let offset ← field img i 4
    let filesz ← field img i 16
    pure (if img.size<u32 (offset+filesz) then none else some offset)

def findDynamic (img : Image) (base : Nat) : Traced Nat Nat := do
  let header ← findHeader img fun type => type == PT_DYNAMIC
  match header with
  | none => pure 0
  | some i => do
    let vaddr ← field img i 8
    pure (u32 (vaddr+base))

section Segments
variable {ρ : Type} (img : Image) (bias : Nat) (checkMainWindow : Bool) (outside window : ρ) (done : Bool → ρ)

/-- The size in memory is read for the window, or else after the copy. -/
def segmentPass (i : Nat) (st : Bool × LoadState) : Traced Nat (Except (ρ × LoadState) (Bool × LoadState)) := do
  let type ← field img i 0
  if type≠PT_LOAD then pure (.ok st)
  else do
    let offset ← field img i 4
    let filesz ← field img i 16
    if img.size<u32 (offset+filesz) then pure (.error (outside,st.2))
    else do
      let vaddr ← field img i 8
      let memsz ← field img i 20
      let addr := u32 (vaddr+bias)
      if checkMainWindow ∧ (addr<0x00100000 ∨ 0x04000000<u32 (addr+memsz)) then pure (.error (window,st.2))
      else do
        tell ((List.range filesz).map fun k => u32 (offset+k))
        pure (.ok (true,placeSegment img addr (img.phdr i) st.2))

def finish : Except (ρ × LoadState) (Bool × LoadState) → ρ × LoadState
  | .error r => r
  | .ok st => (done st.1,st.2)

def segments (s : LoadState) : Traced Nat (ρ × LoadState) := do
  let phnum ← look16 img 44
  let r ← loop (segmentPass img bias checkMainWindow outside window) phnum 0 (false,s)
  pure (finish done r)

end Segments

def loadSegments (img : Image) (bias : Nat) (checkMainWindow : Bool) (s : LoadState) :
    Traced Nat (DyldResult × LoadState) :=
  segments img bias checkMainWindow .elf .elf (fun loaded => if loaded then .ok else .elf) s

def elfLoad (img : Image) (s : LoadState) : Traced Nat (ElfResult × Option Nat × LoadState) :=
  if img.size<ehdrSize then pure (.badMagic,none,s)
  else do
    let same ← agree img magic 0
    if same=false then pure (.badMagic,none,s)
    else do
      let cls ← look8 img 4
      if cls≠ELFCLASS32 then pure (.not32,none,s)
      else do
        let data ← look8 img 5
        if data≠ELFDATA2LSB then pure (.badMagic,none,s)
        else do
          let type ← look16 img 16
          if type≠ET_EXEC then pure (.notExec,none,s)
          else do
            let machine ← look16 img 18
            if machine≠EM_386 then pure (.badArch,none,s)
            else do
              let phoff ← look32 img 28
              let phnum ← look16 img 44
              let phentsize ← look16 img 42
              if img.size<u32 (phoff+u32 (phnum*phentsize)) then pure (.noLoad,none,s)
              else do
                let r ← segments img 0 true .noLoad .tooBig (fun loaded => if loaded then .ok else .noLoad) s
                if r.1 = .ok then do
                  let entry ← look32 img 24
                  pure (.ok,some entry,r.2)
                else pure (r.1,none,r.2)

section Values
variable {img : Image} {want : Nat → Bool} {ρ : Type}

@[simp] theorem value_look8 (off : Nat) : value (look8 img off)=img.u8 off := rfl

@[simp] theorem value_look16 (off : Nat) : value (look16 img off)=img.u16 off := rfl

@[simp] theorem value_look32 (off : Nat) : value (look32 img off)=img.u32At off := rfl

theorem value_type (i : Nat) : value (field img i 0)=(img.phdr i).type := rfl

theorem value_offset (i : Nat) : value (field img i 4)=(img.phdr i).offset := rfl

theorem value_vaddr (i : Nat) : value (field img i 8)=(img.phdr i).vaddr := rfl

theorem value_filesz (i : Nat) : value (field img i 16)=(img.phdr i).filesz := rfl

theorem value_memsz (i : Nat) : value (field img i 20)=(img.phdr i).memsz := rfl

theorem value_agree_cons (b : UInt8) (bs : List UInt8) (off : Nat) :
    value (agree img (b::bs) off)=(img.u8 off == b && value (agree img bs (off+1))) := by
  rw [agree,value_bind,value_ite,value_look8]
  split
  next h => simp [h]
  next h => simp [not_not.mp h]

theorem value_magic : value (agree img magic 0)=true ↔
    ¬ (img.u8 0≠0x7F ∨ img.u8 1≠0x45 ∨ img.u8 2≠0x4C ∨ img.u8 3≠0x46) := by
  have hnil : value (agree img [] 4)=true := rfl
  simp only [magic,value_agree_cons,hnil,Bool.and_true,Bool.and_eq_true,beq_iff_eq,ne_eq,not_or,not_not,
    Nat.reduceAdd]

theorem value_findPass (i : Nat) (u : Unit) :
    value (findPass img want i u)=if want (img.phdr i).type then .error i else .ok () := by
  rw [findPass,value_bind,value_ite,value_type]
  rfl

theorem value_findLoop (n i : Nat) : value (loop (findPass img want) n i ()) =
    ((List.range' i n).find? fun i => want (img.phdr i).type).elim (.ok ()) .error := by
  induction n generalizing i with
  | zero => rfl
  | succ n ih =>
    rw [loop,value_bind,value_findPass,List.range'_succ,List.find?_cons]
    cases want (img.phdr i).type with
    | true => rfl
    | false => exact ih (i+1)

theorem value_findHeader : value (findHeader img want) =
    (List.range img.ePhnum).find? fun i => want (img.phdr i).type := by
  rw [findHeader,value_bind,value_look16,value_bind,value_pure,value_findLoop,List.range_eq_range']
  rw [show img.u16 44=img.ePhnum from rfl]
  cases (List.range' 0 img.ePhnum).find? fun i => want (img.phdr i).type with
  | none => rfl
  | some i => rfl

theorem value_findHeader_some {i : Nat} : value (findHeader img want)=some i ↔
    want (img.phdr i).type=true ∧ i < img.ePhnum ∧ ∀ k, k < i → want (img.phdr k).type=false := by
  rw [value_findHeader,List.find?_range_eq_some]
  simp only [List.mem_range,Bool.not_eq_true']

theorem value_elfIsDynamic : value (elfIsDynamic img)=Loader.elfIsDynamic img := by
  rw [elfIsDynamic,Loader.elfIsDynamic,value_ite]
  congr 1
  rw [value_bind,value_ite,value_bind,value_findHeader,value_pure,value_pure]
  by_cases h : value (agree img magic 0)=true
  · rw [if_pos h,if_neg (value_magic.mp h),Image.phdrs,List.any_map,Bool.eq_iff_iff,List.find?_isSome,
      List.any_eq_true]
    rfl
  · rw [if_neg h,if_pos (not_not.mp (mt value_magic.mpr h))]

theorem value_findDynamic (base : Nat) : value (findDynamic img base)=Loader.findDynamic img base := by
  rw [findDynamic,Loader.findDynamic,value_bind,value_findHeader,Image.phdrs,List.find?_map]
  have hsame : ((fun ph : Phdr => ph.type == PT_DYNAMIC) ∘ img.phdr)=fun i => (img.phdr i).type == PT_DYNAMIC := rfl
  rw [hsame]
  cases (List.range img.ePhnum).find? fun i => (img.phdr i).type == PT_DYNAMIC with
  | none => rfl
  | some i => rfl

variable (bias : Nat) (checkMainWindow : Bool)

theorem value_segmentPass (outside window : ρ) (i : Nat) (st : Bool × LoadState) :
    value (segmentPass img bias checkMainWindow outside window i st) =
      if (img.phdr i).type≠PT_LOAD then .ok st
      else if img.size<u32 ((img.phdr i).offset+(img.phdr i).filesz) then .error (outside,st.2)
      else if checkMainWindow ∧ (u32 ((img.phdr i).vaddr+bias)<0x00100000 ∨
        0x04000000<u32 (u32 ((img.phdr i).vaddr+bias)+(img.phdr i).memsz)) then .error (window,st.2)
      else .ok (true,placeSegment img (u32 ((img.phdr i).vaddr+bias)) (img.phdr i) st.2) := by
  simp only [segmentPass,value_bind,value_ite,value_pure]
  rfl

/-- A walk over the headers that treats each of them as the recording loop does gives what that loop gives. -/
theorem value_segmentLoop {outside window : ρ} {done : Bool → ρ} {walk : List Phdr → Bool → LoadState → ρ × LoadState}
    (hnil : ∀ loaded s, walk [] loaded s=(done loaded,s))
    (hcons : ∀ i phs loaded s, walk (img.phdr i::phs) loaded s =
      if (img.phdr i).type≠PT_LOAD then walk phs loaded s
      else if img.size<u32 ((img.phdr i).offset+(img.phdr i).filesz) then (outside,s)
      else if checkMainWindow ∧ (u32 ((img.phdr i).vaddr+bias)<0x00100000 ∨
        0x04000000<u32 (u32 ((img.phdr i).vaddr+bias)+(img.phdr i).memsz)) then (window,s)
      else walk phs true (placeSegment img (u32 ((img.phdr i).vaddr+bias)) (img.phdr i) s))
    (n i : Nat) (loaded : Bool) (s : LoadState) :
    finish done (value (loop (segmentPass img bias checkMainWindow outside window) n i (loaded,s))) =
      walk ((List.range' i n).map img.phdr) loaded s := by
  induction n generalizing i loaded s with
  | zero => exact (hnil loaded s).symm
  | succ n ih =>
    rw [loop,value_bind,value_segmentPass,List.range'_succ,List.map_cons,hcons]
    split_ifs with hload hsize hwindow
    · exact ih ..
    · rfl
    · rfl
    · exact ih ..

theorem value_loadSegments (s : LoadState) :
    value (loadSegments img bias checkMainWindow s)=Loader.loadSegments img bias checkMainWindow s := by
  rw [loadSegments,segments,value_bind,value_bind,value_pure,Loader.loadSegments,Image.phdrs,
    List.range_eq_range']
  exact value_segmentLoop bias checkMainWindow (fun _ _ => rfl) (fun _ _ _ _ => rfl) ..

theorem elfLoadLoop_cons (i : Nat) (phs : List Phdr) (loaded : Bool) (s : LoadState) :
    elfLoadLoop img (img.phdr i::phs) loaded s =
      if (img.phdr i).type≠PT_LOAD then elfLoadLoop img phs loaded s
      else if img.size<u32 ((img.phdr i).offset+(img.phdr i).filesz) then (.noLoad,s)
      else if true ∧ (u32 ((img.phdr i).vaddr+0)<0x00100000 ∨
        0x04000000<u32 (u32 ((img.phdr i).vaddr+0)+(img.phdr i).memsz)) then (.tooBig,s)
      else elfLoadLoop img phs true (placeSegment img (u32 ((img.phdr i).vaddr+0)) (img.phdr i) s) := by
  have haddr : u32 ((img.phdr i).vaddr+0)=(img.phdr i).vaddr := u32_of_lt (le32_lt ..)
  rw [haddr,elfLoadLoop]
  simp only [true_and]

theorem value_elfLoad (s : LoadState) : value (elfLoad img s)=Loader.elfLoad img s := by
  have hloop : value (segments img 0 true .noLoad .tooBig (fun loaded => if loaded then ElfResult.ok else .noLoad) s) =
      elfLoadLoop img img.phdrs false s := by
    rw [segments,value_bind,value_bind,value_pure,Image.phdrs,List.range_eq_range']
    exact value_segmentLoop 0 true (fun _ _ => rfl) elfLoadLoop_cons ..
  simp only [elfLoad,value_bind,value_ite,value_pure,hloop]
  rw [Loader.elfLoad]
  refine if_congr Iff.rfl rfl ?_
  refine if_congr ?_ rfl ?_
  · rw [← Bool.not_eq_true,value_magic,not_not]
  refine if_congr Iff.rfl rfl ?_
  refine if_congr Iff.rfl rfl ?_
  refine if_congr Iff.rfl rfl ?_
  refine if_congr Iff.rfl rfl ?_
  refine if_congr Iff.rfl rfl ?_
  cases elfLoadLoop img img.phdrs false s with
  | mk r t =>
    cases r with
    | ok => rfl
    | _ => rfl

end Values

end MyKernel.Loader.Reads
