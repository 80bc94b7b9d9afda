import MyKernel.Loader.Confinement

/-! The linker and the plain loader on static executables. -/
namespace MyKernel.Loader
open Memory
variable {img : Image} {s t : LoadState} {e fuel : Nat} {libs : Libs}

def IsStatic (img : Image) : Prop :=
  ∀ ph∈img.phdrs, ph.type≠PT_DYNAMIC ∧ ph.type≠PT_INTERP

instance (img : Image) : Decidable (IsStatic img) :=
  inferInstanceAs (Decidable (∀ ph∈img.phdrs, ph.type≠PT_DYNAMIC ∧ ph.type≠PT_INTERP))

theorem phdr_vaddr_lt {ph : Phdr} (h : ph∈img.phdrs) : ph.vaddr<4294967296 := by
  obtain ⟨i,_,hi⟩ := List.mem_map.mp h
  rw [← hi]
  exact le32_lt _ _ _ _

/-- A segment loop that succeeds in `elf_load` runs the same way in `load_segments`. -/
theorem loadSegmentsLoop_of_elf {phs : List Phdr} {loaded : Bool}
    (hv : ∀ ph∈phs, ph.vaddr<4294967296) (h : elfLoadLoop img phs loaded s=(.ok,t)) :
    loadSegmentsLoop img 0 true phs loaded s=(.ok,t) := by
  induction phs generalizing loaded s with
  | nil =>
    rw [elfLoadLoop] at h
    rw [loadSegmentsLoop]
    cases loaded with
    | false => simp at h
    | true => simpa using h
  | cons ph phs ih =>
    have hrest := fun q hq => hv q (List.mem_cons_of_mem ph hq)
    have haddr : u32 (ph.vaddr+0)=ph.vaddr := u32_of_lt (hv ph (by simp))
    rw [elfLoadLoop] at h
    rw [loadSegmentsLoop]
    by_cases hload : ph.type≠PT_LOAD
    · rw [if_pos hload] at h ⊢
      exact ih hrest h
    · rw [if_neg hload] at h ⊢
      by_cases hsize : img.size<u32 (ph.offset+ph.filesz)
      · simp [hsize] at h
      · rw [if_neg hsize] at h ⊢
        by_cases hwin : ph.vaddr<0x00100000 ∨ 0x04000000<u32 (ph.vaddr+ph.memsz)
        · simp [hwin] at h
        · rw [if_neg hwin] at h
          simp only [haddr,true_and,if_neg hwin]
          exact ih hrest h

/-- What `elf_load` checks before it looks at the first program header. -/
structure ElfHeaderOk (img : Image) : Prop where
  size : ¬ img.size<ehdrSize
  magic : ¬ (img.u8 0≠0x7F ∨ img.u8 1≠0x45 ∨ img.u8 2≠0x4C ∨ img.u8 3≠0x46)
  ident : ¬ img.u8 4≠ELFCLASS32
  data : ¬ img.u8 5≠ELFDATA2LSB
  type : ¬ img.eType≠ET_EXEC
  machine : ¬ img.eMachine≠EM_386
  table : ¬ img.size<u32 (img.ePhoff+u32 (img.ePhnum*img.ePhentsize))

theorem elfLoad_of_header (h : ElfHeaderOk img) (s : LoadState) :
    elfLoad img s=((elfLoadLoop img img.phdrs false s).1,
      if (elfLoadLoop img img.phdrs false s).1 = .ok then some img.eEntry else none,
      (elfLoadLoop img img.phdrs false s).2) := by
  rw [elfLoad,if_neg h.size,if_neg h.magic,if_neg h.ident,if_neg h.data,if_neg h.type,
    if_neg h.machine,if_neg h.table]
  cases hloop : elfLoadLoop img img.phdrs false s with
  | mk r t =>
    cases r with
    | ok => rfl
    | _ => rfl

theorem elfHeaderOk_of_ok (h : (elfLoad img s).1 = .ok) : ElfHeaderOk img := by
  rw [elfLoad] at h
  by_cases h1 : img.size<ehdrSize
  · simp [h1] at h
  by_cases h2 : img.u8 0≠0x7F ∨ img.u8 1≠0x45 ∨ img.u8 2≠0x4C ∨ img.u8 3≠0x46
  · simp [h1,if_pos h2] at h
  rw [if_neg h1,if_neg h2] at h
  by_cases h3 : img.u8 4≠ELFCLASS32
  · simp [h3] at h
  by_cases h4 : img.u8 5≠ELFDATA2LSB
  · simp [h3,h4] at h
  by_cases h5 : img.eType≠ET_EXEC
  · simp [h3,h4,h5] at h
  by_cases h6 : img.eMachine≠EM_386
  · simp [h3,h4,h5,h6] at h
  by_cases h7 : img.size<u32 (img.ePhoff+u32 (img.ePhnum*img.ePhentsize))
  · simp [h3,h4,h5,h6,h7] at h
  exact ⟨h1,h2,h3,h4,h5,h6,h7⟩

theorem elfLoad_ok_iff (h : ElfHeaderOk img) :
    elfLoad img s=(.ok,some e,t) ↔
      e=img.eEntry ∧ elfLoadLoop img img.phdrs false s=(.ok,t) := by
  rw [elfLoad_of_header h]
  cases elfLoadLoop img img.phdrs false s with
  | mk r u =>
    cases r with
    | ok => simp [eq_comm]
    | _ => simp

theorem parseEhdr_of_header (h : ElfHeaderOk img) : parseEhdr img=true := by
  have htype : ¬ (img.eType≠ET_EXEC ∧ img.eType≠ET_DYN) := fun ht => h.type ht.1
  simp only [parseEhdr,decide_eq_true_eq]
  exact ⟨h.size,h.magic,h.ident,h.data,h.machine,htype⟩

theorem findDynamic_static (h : IsStatic img) (base : Nat) : findDynamic img base=0 := by
  have hnone : img.phdrs.find? (fun ph => ph.type == PT_DYNAMIC)=none := by
    rw [List.find?_eq_none]
    intro ph hph
    simpa using (h ph hph).1
  rw [findDynamic,hnone]

theorem loadOne_static (hs : IsStatic img) (h : elfLoad img s=(.ok,some e,t)) :
    ∃ m, loadOne fuel (fun _ => mainName) img DYLD_MAIN_BASE true ⟨s,[]⟩ =
      (some .ok,⟨t,[m]⟩) ∧ m.dynamic=0 ∧ m.entry=e := by
  have hheader : ElfHeaderOk img := elfHeaderOk_of_ok (by rw [h])
  obtain ⟨he,hloop⟩ := (elfLoad_ok_iff hheader).mp h
  have hparse := parseEhdr_of_header hheader
  have hexec : img.eType=ET_EXEC := not_not.mp hheader.type
  have hseg := loadSegmentsLoop_of_elf (fun ph hph => phdr_vaddr_lt hph) hloop
  have hdyn : (img.eType == ET_DYN)=false := by simp [hexec,ET_EXEC,ET_DYN]
  have hretry : loadSegmentsRetry img DYLD_MAIN_BASE true s=(DYLD_MAIN_BASE,.ok,t) := by
    simp [loadSegmentsRetry,loadSegments,hdyn,hseg]
  have hentry : img.eEntry<4294967296 := le32_lt _ _ _ _
  have hne : img.eType≠ET_DYN := by simpa using hdyn
  refine ⟨newModule mainName img DYLD_MAIN_BASE,?_,?_,?_⟩
  · have hscan : scanDynamic fuel t.mem (newModule mainName img DYLD_MAIN_BASE) =
        some (newModule mainName img DYLD_MAIN_BASE) := by
      simp [scanDynamic,newModule,findDynamic_static hs]
    simp [loadOne,DYLD_MAX_MODS,hparse,hretry,hscan]
  · simp [newModule,findDynamic_static hs]
  · simp [newModule,hne,he,u32_of_lt hentry]

theorem dyldLoad_of_elfLoad (hs : IsStatic img) (h : elfLoad img s=(.ok,some e,t)) :
    ∃ mods, dyldLoad fuel libs img s=(some .ok,some e,⟨t,mods⟩) := by
  obtain ⟨m,hone,hdyn,hentry⟩ := @loadOne_static img s t e fuel hs h
  have hparse := parseEhdr_of_header (elfHeaderOk_of_ok (by rw [h]))
  have hlink : linkAll fuel libs m ⟨t,[m]⟩=(some .ok,⟨t,[m]⟩) := by
    simp [linkAll,loadNeeded,relocateModule,relocateAll,andThen,hdyn]
  refine ⟨[m],?_⟩
  simp [dyldLoad,hparse,hone,hlink,hentry]

theorem elfLoadLoop_result (img : Image) (phs : List Phdr) (loaded : Bool) (s t : LoadState) :
    (elfLoadLoop img phs loaded s).1=(elfLoadLoop img phs loaded t).1 := by
  induction phs generalizing loaded s t with
  | nil => rfl
  | cons ph phs ih =>
    simp only [elfLoadLoop]
    split
    · exact ih loaded s t
    · split
      · rfl
      · split
        · rfl
        · exact ih true _ _

theorem elfLoad_result (h : (elfLoad img s).1 = .ok) (t : LoadState) :
    ∃ u, elfLoad img t=(.ok,some img.eEntry,u) := by
  have hheader := elfHeaderOk_of_ok h
  have hloop := elfLoadLoop_result img img.phdrs false s t
  rw [elfLoad_of_header hheader] at h
  have hok : (elfLoadLoop img img.phdrs false t).1 = .ok := hloop.symm.trans h
  exact ⟨(elfLoadLoop img img.phdrs false t).2,(elfLoad_ok_iff hheader).mpr ⟨rfl,by rw [← hok]⟩⟩

theorem isStatic_of_not_dynamic (hdyn : elfIsDynamic img=false) (h : ElfHeaderOk img) : IsStatic img := by
  have hsize : ¬ img.size<52 := h.size
  rw [elfIsDynamic,if_neg hsize,if_neg h.magic] at hdyn
  intro ph hph
  have hany := List.any_eq_false.mp hdyn ph hph
  simp only [Bool.or_eq_true,beq_iff_eq,not_or] at hany
  exact ⟨hany.2,hany.1⟩

theorem elfLoad_fails_after_dyld {r : DyldResult} {entry : Option Nat} {d : Dyld}
    (hdyn : elfIsDynamic img=false) (h : dyldLoad fuel libs img s=(some r,entry,d))
    (hr : r ≠ .ok) (t : LoadState) : (elfLoad img t).1 ≠ .ok := by
  intro hok
  have hs := isStatic_of_not_dynamic hdyn (elfHeaderOk_of_ok hok)
  obtain ⟨u,hu⟩ := elfLoad_result hok s
  obtain ⟨mods,hd⟩ := @dyldLoad_of_elfLoad img s u img.eEntry fuel libs hs hu
  rw [h] at hd
  simp only [Prod.mk.injEq,Option.some.injEq] at hd
  exact hr hd.1

/-- The two loaders agree on static executables, so the fallback of
`process_exec` after a failed `dyld_load` never finds a loadable image. -/
theorem loaders_agree_on_static :
    (∀ fuel libs img s e t, IsStatic img → elfLoad img s=(.ok,some e,t) →
      ∃ mods, dyldLoad fuel libs img s=(some .ok,some e,⟨t,mods⟩)) ∧
    ∀ fuel libs img s r entry d, elfIsDynamic img=false →
      dyldLoad fuel libs img s=(some r,entry,d) → r ≠ .ok →
      (elfLoad img d.load).1 ≠ .ok ∧ (processExec fuel libs img s).1=some none := by
  refine ⟨?_,?_⟩
  · intro fuel libs img s e t hs h
    exact dyldLoad_of_elfLoad hs h
  · intro fuel libs img s r entry d hdyn h hr
    have helf := elfLoad_fails_after_dyld hdyn h hr d.load
    refine ⟨helf,?_⟩
    rw [processExec,h]
    cases r with
    | ok => exact absurd rfl hr
    | _ =>
      simp only [hdyn,Bool.false_eq_true,if_false]

/-- One page loaded at the bottom of the window, and an image with no segment. -/
theorem loaders_agree_on_static_page :
    (∃ mods, dyldLoad 1 noLibs
        (imageOf (elfBytes ET_EXEC 0x100000 [⟨PT_LOAD,0,0x100000,4,8⟩])) (fresh fun _ => 1) =
      (some .ok,some 0x100000,⟨(elfLoad
        (imageOf (elfBytes ET_EXEC 0x100000 [⟨PT_LOAD,0,0x100000,4,8⟩]))
        (fresh fun _ => 1)).2.2,mods⟩)) ∧
    (processExec 1 noLibs (imageOf (elfBytes ET_EXEC 0x100000 [])) (fresh fun _ => 1)).1 =
      some none := by
  refine ⟨loaders_agree_on_static.1 1 noLibs _ _ _ _ (by decide) rfl,?_⟩
  exact (loaders_agree_on_static.2 1 noLibs _ _ .elf none ⟨fresh fun _ => 1,[]⟩ (by decide) rfl
    (by decide)).2

end MyKernel.Loader
