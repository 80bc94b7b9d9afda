import MyKernel.Loader.Reads

/-! When the loaders read only the image. -/
namespace MyKernel.Loader
open Memory Recorder

def Image.HasMagic (img : Image) : Prop := img.u8 0=0x7F ∧ img.u8 1=0x45 ∧ img.u8 2=0x4C ∧ img.u8 3=0x46

def Image.FieldIn (img : Image) (i c : Nat) : Prop := u32 (img.ePhoff+i*img.ePhentsize+c)+4 ≤ img.size

def Image.Fits (img : Image) (i : Nat) : Prop := u32 ((img.phdr i).offset+(img.phdr i).filesz) ≤ img.size

def Image.InWindow (img : Image) (bias : Nat) (checkMainWindow : Bool) (i : Nat) : Prop :=
  checkMainWindow=true → 0x00100000≤u32 ((img.phdr i).vaddr+bias) ∧
    u32 (u32 ((img.phdr i).vaddr+bias)+(img.phdr i).memsz)≤0x04000000

def Image.Passes (img : Image) (bias : Nat) (checkMainWindow : Bool) (i : Nat) : Prop :=
  (img.phdr i).type=PT_LOAD → img.Fits i ∧ img.InWindow bias checkMainWindow i

/-- What the loop reads for header `i` is a part of the image. -/
def Image.SegmentIn (img : Image) (bias : Nat) (checkMainWindow : Bool) (i : Nat) : Prop :=
  img.FieldIn i 0 ∧ ((img.phdr i).type=PT_LOAD → img.FieldIn i 4 ∧ img.FieldIn i 16 ∧
    (img.Fits i → img.FieldIn i 8 ∧ img.FieldIn i 20 ∧ (img.InWindow bias checkMainWindow i →
      (img.phdr i).filesz=0 ∨ (img.phdr i).offset+(img.phdr i).filesz ≤ img.size)))

def Image.SegmentsIn (img : Image) (bias : Nat) (checkMainWindow : Bool) : Prop :=
  Each (img.Passes bias checkMainWindow) (img.SegmentIn bias checkMainWindow) img.ePhnum 0

/-- Every header up to the first that is wanted is inside with its type, and that one with the words at `cs` too. -/
def Image.FoundIn (img : Image) (want : Nat → Bool) (cs : List Nat) : Prop :=
  Each (fun i => want (img.phdr i).type=false)
    (fun i => img.FieldIn i 0 ∧ (want (img.phdr i).type=true → ∀ c∈cs, img.FieldIn i c)) img.ePhnum 0

namespace Reads

variable {img : Image} {want : Nat → Bool} {α ρ : Type} {i c off : Nat} {bs : List UInt8}

def Inside (img : Image) (x : Traced Nat α) : Prop := Only (fun o => o < img.size) x

theorem inside_look8 : Inside img (look8 img off) ↔ u32 off < img.size := by
  rw [Inside,look8,only_bind,only_tell,List.forall_mem_singleton]
  exact and_iff_left (only_pure _)

theorem inside_look32 : Inside img (look32 img off) ↔ u32 off+4 ≤ img.size := by
  have hsize := img.size_lt
  have hbytes : Inside img (look32 img off) ↔ u32 off < img.size ∧ u32 (off+1) < img.size ∧ u32 (off+2) < img.size ∧
      u32 (off+3) < img.size := by
    rw [Inside,look32]
    simp only [only_bind,only_pure,and_true]
    exact and_congr inside_look8 (and_congr inside_look8 (and_congr inside_look8 inside_look8))
  rw [hbytes]
  unfold u32
  omega

variable (hsize : 52 ≤ img.size)
include hsize

theorem inside_header8 (h : off<52) : Inside img (look8 img off) := by
  rw [inside_look8]
  unfold u32
  omega

theorem inside_header16 (h : off+2≤52) : Inside img (look16 img off) := by
  rw [Inside,look16,only_bind,only_bind]
  exact ⟨inside_header8 hsize (by omega),inside_header8 hsize (by omega),only_pure _⟩

theorem inside_header32 (h : off+4≤52) : Inside img (look32 img off) := by
  rw [inside_look32]
  unfold u32
  omega

theorem inside_agree (h : off+bs.length≤52) : Inside img (agree img bs off) := by
  induction bs generalizing off with
  | nil => exact only_pure _
  | cons b bs ih =>
    rw [List.length_cons] at h
    rw [Inside,agree,only_bind,only_ite]
    exact ⟨inside_header8 hsize (by omega),fun _ => only_pure _,fun _ => ih (by omega)⟩

theorem inside_field : Inside img (field img i c) ↔ img.FieldIn i c := by
  rw [Inside,field,only_bind,only_bind]
  have h32 : Inside img (look32 img 28) := inside_header32 hsize (by omega)
  have h16 : Inside img (look16 img 42) := inside_header16 hsize (by omega)
  exact (and_iff_right h32).trans ((and_iff_right h16).trans inside_look32)

theorem inside_findHeader : Inside img (findHeader img want) ↔
    Each (fun i => want (img.phdr i).type=false) (fun i => img.FieldIn i 0) img.ePhnum 0 := by
  have hpass : ∀ i u, Only (fun o => o < img.size) (findPass img want i u) ↔ img.FieldIn i 0 := by
    intro i u
    rw [findPass,only_bind,only_ite]
    exact (and_iff_left ⟨fun _ => only_pure _,fun _ => only_pure _⟩).trans (inside_field hsize)
  have hgoes : ∀ i u, (value (findPass img want i u)).isOk=true ↔ want (img.phdr i).type=false := by
    intro i u
    rw [value_findPass]
    cases want (img.phdr i).type with
    | true | false => simp [Except.isOk,Except.toBool]
  have h16 : Inside img (look16 img 44) := inside_header16 hsize (by omega)
  rw [Inside,findHeader,only_bind,only_bind,only_loop hpass hgoes]
  exact (and_iff_right h16).trans (and_iff_left (only_pure _))

theorem inside_found {x : Option Nat → Traced Nat α} {cs : List Nat} (hnone : Inside img (x none))
    (hsome : ∀ i, Inside img (x (some i)) ↔ ∀ c∈cs, img.FieldIn i c) :
    Inside img (findHeader img want >>= x) ↔ img.FoundIn want cs := by
  have hheader := @inside_findHeader img want hsize
  rw [Inside,only_bind]
  constructor
  · rintro ⟨hloop,hrest⟩ j hle hlt hreached
    refine ⟨hheader.mp hloop j hle hlt hreached,fun hwant => ?_⟩
    have hvalue := value_findHeader_some.mpr ⟨hwant,by omega,fun k hk => hreached k (Nat.zero_le k) hk⟩
    rw [hvalue] at hrest
    exact (hsome j).mp hrest
  · intro h
    refine ⟨hheader.mpr fun j hle hlt hreached => (h j hle hlt hreached).1,?_⟩
    cases hvalue : value (findHeader img want) with
    | none => exact hnone
    | some j =>
      obtain ⟨hwant,hlt,hbefore⟩ := value_findHeader_some.mp hvalue
      exact (hsome j).mpr ((h j (Nat.zero_le j) (by omega) fun k _ hk => hbefore k hk).2 hwant)

theorem inside_findInterp : Inside img (findInterp img) ↔ img.FoundIn (fun t => t == PT_INTERP) [4,16] := by
  refine inside_found hsize (only_pure _) fun i => ?_
  rw [Inside,only_bind,only_bind,List.forall_mem_cons,List.forall_mem_singleton]
  exact and_congr (inside_field hsize) ((and_iff_left (only_pure _)).trans (inside_field hsize))

theorem inside_findDynamic (base : Nat) :
    Inside img (findDynamic img base) ↔ img.FoundIn (fun t => t == PT_DYNAMIC) [8] := by
  refine inside_found hsize (only_pure _) fun i => ?_
  rw [Inside,only_bind,List.forall_mem_singleton]
  exact (and_iff_left (only_pure _)).trans (inside_field hsize)

omit hsize in
theorem inside_elfIsDynamic : Inside img (elfIsDynamic img) ↔
    (52 ≤ img.size ∧ img.HasMagic → img.FoundIn (fun t => t == 3 || t == 2) []) := by
  have hmagic : value (agree img magic 0)=true ↔ img.HasMagic := by
    rw [value_magic,Image.HasMagic]
    simp only [ne_eq,not_or,not_not]
  rw [Inside,elfIsDynamic,only_ite]
  by_cases hsize : img.size<52
  · exact iff_of_true ⟨fun _ => only_pure _,fun h => absurd hsize h⟩ fun h => by omega
  have hge : 52 ≤ img.size := Nat.not_lt.mp hsize
  have hagree : Inside img (agree img magic 0) := inside_agree hge (by decide)
  have hfound : Inside img (findHeader img (fun t => t == 3 || t == 2) >>= fun header => pure header.isSome) ↔
      img.FoundIn (fun t => t == 3 || t == 2) [] :=
    inside_found hge (only_pure _) fun i => iff_of_true (only_pure _) (List.forall_mem_nil _)
  rw [only_bind,only_ite,hmagic]
  constructor
  · intro h hhas
    exact hfound.mp ((h.2 hsize).2.1 hhas.2)
  · intro h
    refine ⟨fun _ => only_pure _,fun _ => ⟨hagree,fun hsame => hfound.mpr (h ⟨hge,hsame⟩),fun _ => only_pure _⟩⟩

omit hsize in
theorem contents_inside (hfits : img.Fits i) :
    (∀ o∈(List.range (img.phdr i).filesz).map (fun k => u32 ((img.phdr i).offset+k)), o < img.size) ↔
      (img.phdr i).filesz=0 ∨ (img.phdr i).offset+(img.phdr i).filesz ≤ img.size := by
  have hsize := img.size_lt
  have hoffset : (img.phdr i).offset<4294967296 := le32_lt ..
  have hfilesz : (img.phdr i).filesz<4294967296 := le32_lt ..
  unfold Image.Fits at hfits
  generalize (img.phdr i).offset=offset at *
  generalize (img.phdr i).filesz=filesz at *
  rw [List.forall_mem_map]
  simp only [List.mem_range]
  unfold u32 at *
  constructor
  · intro h
    by_cases hwrap : offset+filesz<4294967296
    · omega
    · have hlast := h (4294967295-offset) (by omega)
      omega
  · intro h k hk
    omega

variable (bias : Nat) (checkMainWindow : Bool) (outside window : ρ)

omit hsize in
theorem not_outside : ¬ img.size<u32 ((img.phdr i).offset+(img.phdr i).filesz) ↔ img.Fits i := Nat.not_lt

omit hsize in
theorem not_refused : ¬ (checkMainWindow=true ∧ (u32 ((img.phdr i).vaddr+bias)<0x00100000 ∨
    0x04000000<u32 (u32 ((img.phdr i).vaddr+bias)+(img.phdr i).memsz))) ↔ img.InWindow bias checkMainWindow i := by
  rw [Image.InWindow,not_and,not_or,Nat.not_lt,Nat.not_lt]

theorem inside_segmentPass (st : Bool × LoadState) :
    Inside img (segmentPass img bias checkMainWindow outside window i st) ↔ img.SegmentIn bias checkMainWindow i := by
  have hfield : ∀ c, Only (fun o => o < img.size) (field img i c) ↔ img.FieldIn i c := fun c => inside_field hsize
  rw [Inside,segmentPass,Image.SegmentIn]
  simp only [only_bind,only_ite,only_pure,only_tell,hfield,implies_true,true_and,and_true]
  simp only [value_type,value_offset,value_filesz,value_vaddr,value_memsz,ne_eq,not_not,not_outside,not_refused]
  refine and_congr_right fun _ => imp_congr_right fun _ => and_congr_right fun _ => and_congr_right fun _ => ?_
  refine imp_congr_right fun hfits => and_congr_right fun _ => and_congr_right fun _ => imp_congr_right fun _ => ?_
  exact contents_inside hfits

omit hsize in
theorem segmentPass_goes (st : Bool × LoadState) :
    (value (segmentPass img bias checkMainWindow outside window i st)).isOk=true ↔
      img.Passes bias checkMainWindow i := by
  rw [value_segmentPass,Image.Passes,← not_outside,← not_refused]
  by_cases hload : (img.phdr i).type=PT_LOAD
  · rw [if_neg (not_not.mpr hload)]
    simp only [hload,forall_const]
    split
    next h => simp [h,Except.isOk,Except.toBool]
    next h =>
      split
      next h' => simp [h',Except.isOk,Except.toBool]
      next h' => simp [h,h',Except.isOk,Except.toBool]
  · rw [if_pos hload]
    simp [hload,Except.isOk,Except.toBool]

theorem inside_segments (done : Bool → ρ) (s : LoadState) :
    Inside img (segments img bias checkMainWindow outside window done s) ↔ img.SegmentsIn bias checkMainWindow := by
  have h16 : Inside img (look16 img 44) := inside_header16 hsize (by omega)
  have hpass : ∀ i st, Only (fun o => o < img.size) (segmentPass img bias checkMainWindow outside window i st) ↔
      img.SegmentIn bias checkMainWindow i := fun i st => inside_segmentPass hsize ..
  have hgoes : ∀ i st, (value (segmentPass img bias checkMainWindow outside window i st)).isOk=true ↔
      img.Passes bias checkMainWindow i := fun i st => segmentPass_goes ..
  rw [Inside,segments,only_bind,only_bind,only_loop hpass hgoes]
  exact (and_iff_right h16).trans (and_iff_left (only_pure _))

omit hsize in
theorem inside_elfLoad (s : LoadState) : Inside img (elfLoad img s) ↔ (ElfHeaderOk img → img.SegmentsIn 0 true) := by
  have hmagic : ¬ value (agree img magic 0)=false ↔
      ¬ (img.u8 0≠0x7F ∨ img.u8 1≠0x45 ∨ img.u8 2≠0x4C ∨ img.u8 3≠0x46) := by
    rw [Bool.not_eq_false,value_magic]
  rw [Inside,elfLoad]
  simp only [only_bind,only_ite,only_pure,implies_true,true_and,and_true]
  constructor
  · intro h hok
    have hcls := (h hok.size).2 (hmagic.mpr hok.magic)
    have hmachine := ((hcls.2 hok.ident).2 hok.data).2 hok.type
    have hsegments := ((hmachine.2 hok.machine).2.2.2 hok.table).1
    exact (inside_segments (Nat.not_lt.mp hok.size) ..).mp hsegments
  · intro h hsize
    have hge : 52 ≤ img.size := Nat.not_lt.mp hsize
    refine ⟨inside_agree hge (by decide),fun hsame => ⟨inside_header8 hge (by omega),fun hident => ?_⟩⟩
    refine ⟨inside_header8 hge (by omega),fun hdata => ⟨inside_header16 hge (by omega),fun htype => ?_⟩⟩
    refine ⟨inside_header16 hge (by omega),fun hmachine => ⟨inside_header32 hge (by omega),?_⟩⟩
    refine ⟨inside_header16 hge (by omega),inside_header16 hge (by omega),fun htable => ?_⟩
    have hok : ElfHeaderOk img := ⟨hsize,hmagic.mp hsame,hident,hdata,htype,hmachine,htable⟩
    exact ⟨(inside_segments hge ..).mpr (h hok),fun _ => inside_header32 hge (by omega)⟩

end Reads

open Reads (Inside)

/-- The five functions read only the image exactly if every header they reach is a part of it as far as it is read, and
the contents of every segment they copy are. -/
theorem loaders_read_inside_iff (img : Image) (bias : Nat) (checkMainWindow : Bool) (s : LoadState) :
    (Inside img (Reads.elfIsDynamic img) ↔
      (52 ≤ img.size ∧ img.HasMagic → img.FoundIn (fun t => t == 3 || t == 2) [])) ∧
    (parseEhdr img=true →
      (Inside img (Reads.findInterp img) ↔ img.FoundIn (fun t => t == PT_INTERP) [4,16]) ∧
      (Inside img (Reads.findDynamic img bias) ↔ img.FoundIn (fun t => t == PT_DYNAMIC) [8]) ∧
      (Inside img (Reads.loadSegments img bias checkMainWindow s) ↔ img.SegmentsIn bias checkMainWindow)) ∧
    (Inside img (Reads.elfLoad img s) ↔ (ElfHeaderOk img → img.SegmentsIn 0 true)) := by
  refine ⟨Reads.inside_elfIsDynamic,fun hparse => ?_,Reads.inside_elfLoad s⟩
  have hsize : 52 ≤ img.size := by
    simp only [parseEhdr,decide_eq_true_eq] at hparse
    exact Nat.not_lt.mp hparse.1
  exact ⟨Reads.inside_findInterp hsize,Reads.inside_findDynamic hsize bias,Reads.inside_segments hsize ..⟩

/-- A file header alone, with one program header of no size behind it. -/
def bareHeader : Image := imageOf (((elfBytes ET_EXEC 0 []).set 42 0).set 44 1)

/-- `elf_load` looks for the type of the program header behind the end. -/
theorem header_past_end : ¬ ∀ (img : Image) (bias : Nat) (checkMainWindow : Bool) (s : LoadState),
    Inside img (Reads.elfIsDynamic img) ∧
    (parseEhdr img=true → Inside img (Reads.findInterp img) ∧ Inside img (Reads.findDynamic img bias) ∧
      Inside img (Reads.loadSegments img bias checkMainWindow s)) ∧
    Inside img (Reads.elfLoad img s) := by
  intro h
  have hok : ElfHeaderOk bareHeader :=
    ⟨by decide,by decide,by decide,by decide,by decide,by decide,by decide⟩
  have hload := (h bareHeader 0 true ⟨fun _ => 0,[],[]⟩).2.2
  have hfirst := (Reads.inside_elfLoad _).mp hload hok 0 (Nat.le_refl 0) (by decide) (by omega)
  exact absurd hfirst.1 (by unfold Image.FieldIn; decide)

end MyKernel.Loader
