import MyKernel.Lib.Ranges
import MyKernel.Loader.Dyld

/-! Where the loaders write: segments and relocated words only. -/
namespace MyKernel.Loader
open Memory Ranges

section Rule
variable {P : LoadState → Prop} {s : LoadState} {d : Dyld} {fuel : Nat} {mods : List Module}

theorem andThen_keeps {σ : Type} {Q : σ → Prop} {x : Option DyldResult × σ}
    {k : σ → Option DyldResult × σ} (hx : Q x.2) (hk : ∀ s, Q s → Q (k s).2) : Q (andThen x k).2 := by
  rw [andThen]
  split
  · exact hk x.2 hx
  · exact hx

/-- `P` survives both kinds of store. -/
structure Kept (P : LoadState → Prop) : Prop where
  segment : ∀ img addr ph s, P s → P (placeSegment img addr ph s)
  reloc : ∀ m isRela r v s, P s → P (storeRel m isRela r v s)

theorem Kept.elfLoadLoop (hP : Kept P) (img : Image) (phs : List Phdr) (loaded : Bool) (h : P s) :
    P (elfLoadLoop img phs loaded s).2 := by
  induction phs generalizing loaded s with
  | nil => exact h
  | cons ph phs ih =>
    rw [Loader.elfLoadLoop]
    split
    · exact ih loaded h
    · split
      · exact h
      · split
        · exact h
        · exact ih true (hP.segment img ph.vaddr ph s h)

theorem elfLoad_cases (img : Image) (s : LoadState) :
    (elfLoad img s).2.2=s ∨ (elfLoad img s).2.2=(elfLoadLoop img img.phdrs false s).2 := by
  rw [elfLoad]
  repeat' split
  all_goals simp_all

theorem Kept.elfLoad (hP : Kept P) (img : Image) (h : P s) : P (elfLoad img s).2.2 := by
  cases elfLoad_cases img s with
  | inl he => rwa [he]
  | inr he =>
    rw [he]
    exact hP.elfLoadLoop img img.phdrs false h

theorem Kept.loadSegmentsLoop (hP : Kept P) (img : Image) (bias : Nat) (check : Bool)
    (phs : List Phdr) (loaded : Bool) (h : P s) : P (loadSegmentsLoop img bias check phs loaded s).2 := by
  induction phs generalizing loaded s with
  | nil => exact h
  | cons ph phs ih =>
    rw [Loader.loadSegmentsLoop]
    split
    · exact ih loaded h
    · split
      · exact h
      · simp only
        split
        · exact h
        · exact ih true (hP.segment img _ ph s h)

theorem Kept.loadSegments (hP : Kept P) (img : Image) (bias : Nat) (check : Bool) (h : P s) :
    P (loadSegments img bias check s).2 := hP.loadSegmentsLoop img bias check img.phdrs false h

theorem Kept.loadSegmentsRetry (hP : Kept P) (img : Image) (bias : Nat) (isMain : Bool) (h : P s) :
    P (loadSegmentsRetry img bias isMain s).2.2 := by
  have hfirst := fun bias check => hP.loadSegments img bias check h
  rw [Loader.loadSegmentsRetry]
  generalize (if (img.eType == ET_DYN)=true then bias else 0)=b
  simp only
  split
  · exact hP.loadSegments img _ true (hfirst _ _)
  · exact hfirst _ _

theorem Kept.loadOne (hP : Kept P) (name : Mem → List UInt8) (img : Image) (bias : Nat)
    (isMain : Bool) (h : P d.load) : P (loadOne fuel name img bias isMain d).2.load := by
  have hs := hP.loadSegmentsRetry img bias isMain h
  rw [Loader.loadOne]
  split
  · exact h
  · split
    · exact h
    · simp only
      split
      · exact hs
      · split
        · exact hs
        · exact hs

theorem Kept.loadNeededLoop (hP : Kept P) (libs : Libs) (m : Module) (k p : Nat) (h : P d.load) :
    P (loadNeededLoop fuel libs m k p d).2.load := by
  induction k generalizing p d with
  | zero => exact h
  | succ k ih =>
    rw [Loader.loadNeededLoop]
    simp only
    split
    · exact h
    · split
      · exact ih (p+8) h
      · split
        · exact h
        · split
          · exact ih (p+8) h
          · split
            · exact h
            · exact h
            · refine @andThen_keeps Dyld (fun d => P d.load) _ _ (hP.loadOne _ _ _ false h) ?_
              intro d hd
              exact ih (p+8) hd

theorem Kept.loadNeeded (hP : Kept P) (libs : Libs) (m : Module) (h : P d.load) :
    P (loadNeeded fuel libs m d).2.load := by
  rw [Loader.loadNeeded]
  split
  · exact h
  · exact hP.loadNeededLoop libs m fuel m.dynamic h

theorem Kept.applyRel (hP : Kept P) (m : Module) (relVa relsz : Nat) (isRela : Bool) (h : P s) :
    P (applyRel fuel mods m relVa relsz isRela s).2 := by
  rw [Loader.applyRel]
  generalize u32 (u32 (relVa+m.bias)+relsz)=stop
  generalize u32 (relVa+m.bias)=p
  suffices hk : ∀ k, P (applyRelLoop fuel mods m isRela stop k p s).2 from hk fuel
  intro k
  induction k generalizing p s with
  | zero => exact h
  | succ k ih =>
    rw [applyRelLoop]
    split
    · simp only
      split
      · exact h
      · exact h
      · exact ih (hP.reloc m isRela _ _ s h) _
    · exact h

theorem Kept.applyTable (hP : Kept P) (m : Module) (va sz : Nat) (isRela : Bool) (h : P s) :
    P (applyTable fuel mods m va sz isRela s).2 := by
  rw [Loader.applyTable]
  split
  · exact hP.applyRel m va sz isRela h
  · exact h

theorem Kept.relocateModule (hP : Kept P) (m : Module) (h : P s) : P (relocateModule fuel mods m s).2 := by
  rw [Loader.relocateModule]
  split
  · exact h
  · split
    · exact h
    · refine andThen_keeps (hP.applyTable m _ _ _ h) ?_
      intro s hs
      refine andThen_keeps (hP.applyTable m _ _ _ hs) ?_
      intro s hs
      exact hP.applyTable m _ _ _ hs

theorem Kept.relocateAll (hP : Kept P) (ms : List Module) (h : P s) : P (relocateAll fuel mods ms s).2 := by
  induction ms generalizing s with
  | nil => exact h
  | cons m ms ih =>
    refine andThen_keeps (hP.relocateModule m h) ?_
    intro s hs
    exact ih hs

theorem Kept.linkAll (hP : Kept P) (libs : Libs) (main : Module) (h : P d.load) :
    P (linkAll fuel libs main d).2.load := by
  refine @andThen_keeps Dyld (fun d => P d.load) _ _ (hP.loadNeeded libs main h) ?_
  intro d hd
  refine andThen_keeps (hP.relocateAll _ hd) ?_
  intro s hs
  exact hP.relocateModule main hs

theorem Kept.dyldLoad (hP : Kept P) (libs : Libs) (img : Image) (h : P s) :
    P (dyldLoad fuel libs img s).2.2.load := by
  have hone : P (Loader.loadOne fuel (fun _ => mainName) img DYLD_MAIN_BASE true ⟨s,[]⟩).2.load :=
    hP.loadOne _ img DYLD_MAIN_BASE true h
  rw [Loader.dyldLoad]
  split
  · exact h
  · split
    · rename_i s' main mods he
      rw [he] at hone
      have hlink : P (Loader.linkAll fuel libs main ⟨s',main::mods⟩).2.load :=
        hP.linkAll libs main hone
      split
      · rename_i d hd
        rw [hd] at hlink
        exact hlink
      · rename_i r d _ hd
        rw [hd] at hlink
        exact hlink
    · rename_i r d _ hd
      rw [hd] at hone
      exact hone

theorem Kept.processExec (hP : Kept P) (libs : Libs) (img : Image) (h : P s) : P (processExec fuel libs img s).2 := by
  have hd : P (Loader.dyldLoad fuel libs img s).2.2.load := hP.dyldLoad libs img h
  rw [Loader.processExec]
  split
  · rename_i he
    rw [he] at hd
    exact hd
  · rename_i he
    rw [he] at hd
    exact hd
  · rename_i r entry d _ he
    rw [he] at hd
    have helf := hP.elfLoad img hd
    split
    · exact hd
    · split
      · rename_i he
        rw [he] at helf
        exact helf
      · rename_i he
        rw [he] at helf
        exact helf

end Rule

def Placed.start : Placed → Nat
  | .segment addr _ _ => u32 addr
  | .reloc target => u32 target

/-- A segment writes its file bytes even where they run past `p_memsz`. -/
def Placed.length : Placed → Nat
  | .segment _ filesz memsz => max filesz memsz
  | .reloc _ => 4

def InWindow (a : Nat) : Prop := 0x00100000≤a ∧ a<0x04000000

def Placed.Fits (p : Placed) : Prop :=
  p.length=0 ∨ 0x00100000≤p.start ∧ p.start+p.length≤0x04000000

/-- The bytes written are those of the segments and words placed. -/
def Tracked (s : LoadState) : Prop :=
  ∀ a, a∈s.written ↔ ∃ p∈s.placed, InRange p.start p.length a

variable {s : LoadState} {a : Nat}

theorem memCopy_written (dst : Nat) (src : Nat → UInt8) (n : Nat) :
    (memCopy dst src n s).placed=s.placed ∧
      (a∈(memCopy dst src n s).written ↔ InRange dst n a ∨ a∈s.written) := by
  induction n with
  | zero => simp [memCopy,inRange_zero]
  | succ n ih =>
    refine ⟨ih.1,?_⟩
    simp only [memCopy,LoadState.put,List.mem_cons,ih.2,inRange_succ]
    rw [← or_assoc,or_comm (a := a=u32 (dst+n))]

theorem memZero_written (dst n : Nat) :
    (memZero dst n s).placed=s.placed ∧
      (a∈(memZero dst n s).written ↔ InRange dst n a ∨ a∈s.written) := by
  induction n with
  | zero => simp [memZero,inRange_zero]
  | succ n ih =>
    refine ⟨ih.1,?_⟩
    simp only [memZero,LoadState.put,List.mem_cons,ih.2,inRange_succ]
    rw [← or_assoc,or_comm (a := a=u32 (dst+n))]

theorem put32_written (t v : Nat) :
    (s.put32 t v).placed=s.placed ∧
      (a∈(s.put32 t v).written ↔ InRange t 4 a ∨ a∈s.written) := by
  refine ⟨rfl,?_⟩
  simp only [LoadState.put32,LoadState.put,List.mem_cons,inRange_succ,inRange_zero,false_or,
    Nat.add_zero]
  tauto

theorem Tracked.note {t : LoadState} (h : Tracked s) (p : Placed) (hp : t.placed=s.placed)
    (hw : ∀ a, a∈t.written ↔ InRange p.start p.length a ∨ a∈s.written) : Tracked (t.note p) := by
  intro a
  have he : a∈(t.note p).written ↔ a∈t.written := Iff.rfl
  rw [he,hw,h a]
  simp [LoadState.note,hp]

theorem Tracked.placeSegment (h : Tracked s) (img : Image) (addr : Nat) (ph : Phdr) :
    Tracked (placeSegment img addr ph s) := by
  rw [Loader.placeSegment]
  split
  · rename_i hlt
    refine h.note _ ?_ ?_
    · rw [(memZero_written (a := 0) _ _).1,(memCopy_written (a := 0) _ _ _).1]
    · intro a
      have hlen : max ph.filesz ph.memsz=ph.filesz+(ph.memsz-ph.filesz) := by omega
      simp only [Placed.start,Placed.length,hlen]
      rw [(memZero_written _ _).2,(memCopy_written _ _ _).2,inRange_u32,inRange_append,
        or_left_comm,or_assoc]
  · rename_i hge
    refine h.note _ (memCopy_written (a := 0) _ _ _).1 ?_
    intro a
    have hlen : max ph.filesz ph.memsz=ph.filesz := by omega
    simp only [Placed.start,Placed.length,hlen,inRange_u32]
    exact (memCopy_written _ _ _).2

theorem Tracked.patch (h : Tracked s) (t v : Nat) : Tracked ((s.put32 t v).note (.reloc t)) := by
  refine h.note _ rfl ?_
  intro a
  simp only [Placed.start,Placed.length,inRange_u32]
  exact (put32_written t v).2

def fresh (mem : Mem) : LoadState := ⟨mem,[],[]⟩

def noLibs : Libs := ⟨⟨fun _ => ⟨.free,fun _ => 0, none, fun _ => 0, 0⟩, 0⟩,imageOf []⟩

end MyKernel.Loader
