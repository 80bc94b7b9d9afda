import MyKernel.Lib.Parts
import MyKernel.RamFs.Undo

/-! `fs_mkdir_p` over the names between the slashes of its path. -/
namespace MyKernel.RamFs
open CString Parts

variable {s t u : Fs} {n : FsNode} {i j d idx saved : Nat} {c path : List UInt8} {cs pre : List (List UInt8)}
  {r : FsResult}

def components (path : List UInt8) : List (List UInt8) := parts 0x2F path

/-- The directory reached from `d` by looking up one name after the other. -/
def walkDirs (s : Fs) : Nat → List (List UInt8) → Option Nat
  | d, [] => some d
  | d, c::cs =>
    match fsFindChild s d c with
    | none => none
    | some idx => if (s.nodes idx).type = .dir then walkDirs s idx cs else none

/-- The loop of `fs_mkdir_p` with its path already taken apart. -/
def mkdirAll (saved : Nat) : List (List UInt8) → Fs → Option (FsResult × Fs)
  | [], s => some (.ok,{ s with cwd := saved })
  | c::cs, s =>
    if FS_NAME_MAX≤c.length then none
    else match fsFindChild s s.cwd c with
    | some idx =>
      if (s.nodes idx).type ≠ .dir then some (.notADirectory,{ s with cwd := saved })
      else mkdirAll saved cs { s with cwd := idx }
    | none =>
      let (r,s) := fsMkdir s c
      if r ≠ .ok then some (r,{ s with cwd := saved })
      else match fsFindChild s s.cwd c with
        | none => none
        | some idx =>
          if (s.nodes idx).type ≠ .dir then some (.notADirectory,{ s with cwd := saved })
          else mkdirAll saved cs { s with cwd := idx }

theorem mkdirPLoop_eq {fuel : Nat} (hfuel : path.length≤fuel) :
    mkdirPLoop saved fuel path s=mkdirAll saved (components path) s := by
  induction fuel generalizing path s with
  | zero =>
    cases path with
    | nil => simp [mkdirPLoop,components,mkdirAll]
    | cons c cs => simp at hfuel
  | succ fuel ih =>
    cases path with
    | nil => simp [mkdirPLoop,components,mkdirAll]
    | cons c cs =>
      have hrest : ∀ s, mkdirPLoop saved fuel (otherParts 0x2F (c::cs)) s =
          mkdirAll saved (parts 0x2F (otherParts 0x2F (c::cs))) s := by
        intro s
        have hlen := drop_slash_length c cs
        simp only [List.length_cons] at hfuel
        exact ih (Nat.le_trans hlen (by omega))
      rw [mkdirPLoop,components,parts_eq]
      change (if FS_NAME_MAX≤(firstPart 0x2F (c::cs)).length then _ else
        if firstPart 0x2F (c::cs)=[] then mkdirPLoop saved fuel (otherParts 0x2F (c::cs)) s else _)=_
      by_cases hempty : firstPart 0x2F (c::cs)=[]
      · rw [if_neg (by simp [hempty,FS_NAME_MAX]),if_pos hempty,if_pos hempty,hrest]
      · rw [if_neg hempty,if_neg hempty,mkdirAll]
        simp only [← hrest]
        rfl

theorem mkdirAll_cons_cases (saved : Nat) (s : Fs) (h0 : 0∉c) (hlen : c.length<48) :
    (∃ idx, fsFindChild s s.cwd c=some idx ∧ (s.nodes idx).type = .dir ∧
      ∀ cs, mkdirAll saved (c::cs) s=mkdirAll saved cs { s with cwd := idx }) ∨
    (∃ r, r ≠ .ok ∧ ∀ cs, mkdirAll saved (c::cs) s=some (r,{ s with cwd := saved })) ∨
    ∃ idx, Created s c idx (madeDir s c idx) ∧
      ∀ cs, mkdirAll saved (c::cs) s=mkdirAll saved cs { s.setNode idx (madeDir s c idx) with cwd := idx } := by
  have hshort : ¬ FS_NAME_MAX≤c.length := Nat.not_le.mpr hlen
  cases hf : fsFindChild s s.cwd c with
  | some idx =>
    by_cases ht : (s.nodes idx).type = .dir
    · exact .inl ⟨idx,rfl,ht,fun cs => by simp [mkdirAll,hshort,hf,ht]⟩
    · exact .inr (.inl ⟨.notADirectory,by simp,fun cs => by simp [mkdirAll,hshort,hf,ht]⟩)
  | none =>
    rcases hout : fsMkdir s c with ⟨r,t⟩
    by_cases hr : r = .ok
    · subst hr
      obtain ⟨idx,hc,ht⟩ := fsMkdir_ok hout
      have hfound := hc.found h0
      have hcwd : (s.setNode idx (madeDir s c idx)).cwd=s.cwd := rfl
      have htype : (madeDir s c idx).type = .dir := rfl
      refine .inr (.inr ⟨idx,hc,?_⟩)
      subst ht
      intro cs
      simp only [mkdirAll,hshort,hf,hout,hcwd,hfound,setNode_self,htype,ne_eq,not_true,if_false]
    · have hsame : t=s := by
        have hat := @fsMkdir_atomic s c
        rw [hout] at hat
        exact hat hr
      exact .inr (.inl ⟨r,hr,fun cs => by simp [mkdirAll,hshort,hf,hout,hr,hsame]⟩)

def Extends (s t : Fs) : Prop := ∀ i, Live s i → t.nodes i=s.nodes i

theorem Extends.live (h : Extends s t) (hi : Live s i) : Live t i := ⟨hi.1,by rw [h i hi]; exact hi.2⟩

theorem Extends.trans (h : Extends s t) (h' : Extends t u) : Extends s u := by
  intro i hi
  rw [h' i (h.live hi),h i hi]

theorem Created.extends (h : Created s c idx n) : Extends s (s.setNode idx n) := by
  intro i hi
  exact setNode_other (alloc_ne h.slot hi)

theorem findChild_extends (h : Extends s t) (hs : FsInv s) (ht : FsInv t) (h0 : 0∉c)
    (hf : fsFindChild s d c=some i) : fsFindChild t d c=some i := by
  obtain ⟨hl,hp,hname⟩ := (hs.findChild_iff h0).mp hf
  refine (ht.findChild_iff h0).mpr ⟨h.live hl,?_,?_⟩
  · rw [h i hl,hp]
  · rw [h i hl,hname]

theorem walkDirs_step (s : Fs) (d : Nat) (c : List UInt8) (cs : List (List UInt8)) : walkDirs s d (c::cs) =
    (fsFindChild s d c).bind fun idx => if (s.nodes idx).type = .dir then walkDirs s idx cs else none := by
  rw [walkDirs]
  cases fsFindChild s d c with
  | none => rfl
  | some idx => rfl

@[simp] theorem walkDirs_cwd : walkDirs { s with cwd := j } d cs=walkDirs s d cs := by
  induction cs generalizing d with
  | nil => rfl
  | cons c cs ih =>
    have hfind : fsFindChild { s with cwd := j } d c=fsFindChild s d c := rfl
    simp only [walkDirs_step,hfind,ih]

theorem walkDirs_found (hf : fsFindChild s d c=some idx) (ht : (s.nodes idx).type = .dir) :
    walkDirs s d (c::cs)=walkDirs s idx cs := by
  rw [walkDirs_step,hf,Option.bind_some,if_pos ht]

theorem walkDirs_missing (hf : fsFindChild s d c=none) : walkDirs s d (c::cs)=none := by
  rw [walkDirs_step,hf,Option.bind_none]

theorem walkDirs_cons (h : walkDirs s d (c::cs)=some i) :
    ∃ idx, fsFindChild s d c=some idx ∧ (s.nodes idx).type = .dir ∧ walkDirs s idx cs=some i := by
  rw [walkDirs_step,Option.bind_eq_some_iff] at h
  obtain ⟨idx,hf,hidx⟩ := h
  obtain ⟨ht,hw⟩ := Option.ite_none_right_eq_some.mp hidx
  exact ⟨idx,hf,ht,hw⟩

theorem walkDirs_prefix (h : walkDirs s d cs=some i) (hpre : pre <+: cs) (hd : LiveDir s d) :
    ∃ e, walkDirs s d pre=some e ∧ LiveDir s e := by
  induction pre generalizing d cs with
  | nil => exact ⟨d,rfl,hd⟩
  | cons c pre ih =>
    obtain ⟨post,rfl⟩ := hpre
    obtain ⟨idx,hf,ht,hw⟩ := walkDirs_cons h
    rw [walkDirs_found hf ht]
    exact ih hw ⟨post,rfl⟩ ⟨(findChild_some hf).1.1,ht⟩

theorem walkDirs_leaf (hleaf : ∀ j, Live s j → (s.nodes j).parent≠some d) : walkDirs s d cs=none ↔ cs≠[] := by
  cases cs with
  | nil => exact iff_of_false (Option.some_ne_none d) fun hne => hne rfl
  | cons c cs =>
    have hf : fsFindChild s d c=none := by
      by_contra hf
      obtain ⟨j,hj⟩ := Option.ne_none_iff_exists'.mp hf
      exact hleaf j (findChild_some hj).1 (findChild_some hj).2.1
    simp [walkDirs_missing hf]

theorem mkdirAll_resolved (h : walkDirs s s.cwd cs=some i) (hcs : ∀ c∈cs, c.length<48) :
    mkdirAll saved cs s=some (.ok,{ s with cwd := saved }) := by
  induction cs generalizing s with
  | nil => rfl
  | cons c cs ih =>
    have hshort : ¬ FS_NAME_MAX≤c.length := Nat.not_le.mpr (hcs c (by simp))
    obtain ⟨idx,hf,ht,hw⟩ := walkDirs_cons h
    have hrest : mkdirAll saved cs { s with cwd := idx }=some (.ok,{ s with cwd := saved }) :=
      ih (s := { s with cwd := idx }) (by simpa using hw) (fun b hb => hcs b (by simp [hb]))
    simp [mkdirAll,hshort,hf,ht,hrest]

/-- The path is there below `d`, and the nodes that are new are those of its missing prefixes. -/
structure MadeAll (s t : Fs) (d : Nat) (cs : List (List UInt8)) : Prop where
  resolved : ∃ i, walkDirs t d cs=some i
  created : ∀ i, Live t i ∧ ¬ Live s i ↔ ∃ pre, pre <+: cs ∧ walkDirs s d pre=none ∧ walkDirs t d pre=some i

theorem MadeAll.nil (h : ∀ i, t.nodes i=s.nodes i) : MadeAll s t d [] := by
  refine ⟨⟨d,rfl⟩,?_⟩
  intro i
  constructor
  · rintro ⟨hl,hdead⟩
    rw [Live,h i] at hl
    exact absurd hl hdead
  · rintro ⟨pre,hpre,hnone,_⟩
    rw [List.prefix_nil.mp hpre] at hnone
    cases hnone

theorem missing_prefix_cons :
    (∃ pre, pre <+: c::cs ∧ walkDirs s d pre=none ∧ walkDirs t d pre=some i) ↔
      ∃ pre, pre <+: cs ∧ walkDirs s d (c::pre)=none ∧ walkDirs t d (c::pre)=some i := by
  constructor
  · rintro ⟨pre,hpre,hnone,hsome⟩
    cases pre with
    | nil => cases hnone
    | cons b pre =>
      obtain ⟨rfl,hrest⟩ := List.cons_prefix_cons.mp hpre
      exact ⟨pre,hrest,hnone,hsome⟩
  · rintro ⟨pre,hpre,hnone,hsome⟩
    exact ⟨c::pre,List.cons_prefix_cons.mpr ⟨rfl,hpre⟩,hnone,hsome⟩

theorem MadeAll.enter (h : MadeAll s t idx cs) (hf : fsFindChild s d c=some idx)
    (ht : (s.nodes idx).type = .dir) (hf' : fsFindChild t d c=some idx) (ht' : (t.nodes idx).type = .dir) :
    MadeAll s t d (c::cs) := by
  refine ⟨?_,?_⟩
  · rw [walkDirs_found hf' ht']
    exact h.resolved
  · intro i
    rw [h.created i,missing_prefix_cons]
    simp only [walkDirs_found hf ht,walkDirs_found hf' ht']

theorem MadeAll.make (hinv : FsInv s) (hc : Created s c idx (madeDir s c idx)) (hcwd : s.cwd=d)
    (h : MadeAll (s.setNode idx (madeDir s c idx)) t idx cs) (hext : Extends (s.setNode idx (madeDir s c idx)) t)
    (hf : fsFindChild t d c=some idx) (ht : (t.nodes idx).type = .dir) : MadeAll s t d (c::cs) := by
  have hmissing : ∀ pre, walkDirs s d (c::pre)=none := fun pre => walkDirs_missing (hcwd ▸ hc.fresh)
  have hleaf : ∀ pre, walkDirs (s.setNode idx (madeDir s c idx)) idx pre=none ↔ pre≠[] :=
    fun pre => walkDirs_leaf fun j hj => hc.leaf hinv hj
  have hnew : Live (s.setNode idx (madeDir s c idx)) idx :=
    ⟨(allocNode_some hc.slot).1,by rw [setNode_self]; exact hc.type⟩
  have hcreated := h.created
  refine ⟨?_,?_⟩
  · rw [walkDirs_found hf ht]
    exact h.resolved
  · intro i
    rw [missing_prefix_cons]
    simp only [hmissing,true_and,walkDirs_found hf ht]
    -- the new node is the empty prefix below itself, the others were found by the rest of the run
    constructor
    · rintro ⟨hl,hdead⟩
      by_cases hi : i=idx
      · exact ⟨[],List.nil_prefix,by rw [hi]; rfl⟩
      · obtain ⟨pre,hpre,_,hw⟩ := (hcreated i).mp ⟨hl,fun hl' => hdead ((live_setNode_other hi).mp hl')⟩
        exact ⟨pre,hpre,hw⟩
    · rintro ⟨pre,hpre,hw⟩
      by_cases hp : pre=[]
      · rw [hp] at hw
        rw [← Option.some_inj.mp hw]
        exact ⟨hext.live hnew,hc.not_live⟩
      · obtain ⟨hl,hdead⟩ := (hcreated i).mpr ⟨pre,hpre,(hleaf pre).mpr hp,hw⟩
        refine ⟨hl,fun hs => hdead (hc.extends.live hs)⟩

theorem mkdirAll_spec (hinv : FsInv s) (hsaved : LiveDir s saved) (hcs : ∀ c∈cs, 0∉c ∧ c.length<48) :
    ∃ r t, mkdirAll saved cs s=some (r,t) ∧ FsInv t ∧ t.cwd=saved ∧ Extends s t ∧
      (r = .ok → MadeAll s t s.cwd cs) := by
  induction cs generalizing s with
  | nil => exact ⟨.ok,_,rfl,hinv.setCwd hsaved,rfl,fun _ _ => rfl,fun _ => .nil fun _ => rfl⟩
  | cons c cs ih =>
    obtain ⟨h0,hlen⟩ := hcs c (by simp)
    have hrest : ∀ c∈cs, 0∉c ∧ c.length<48 := fun b hb => hcs b (by simp [hb])
    rcases mkdirAll_cons_cases saved s h0 hlen with ⟨idx,hf,ht,he⟩ | ⟨r,hr,he⟩ | ⟨idx,hc,he⟩
    · have hdir : LiveDir s idx := ⟨(findChild_some hf).1.1,ht⟩
      obtain ⟨r,t,hrun,hinv',hcwd,hext,hmade⟩ := ih (hinv.setCwd hdir) hsaved hrest
      have hext : Extends s t := hext
      refine ⟨r,t,(he cs).trans hrun,hinv',hcwd,hext,?_⟩
      intro hok
      have hmade : MadeAll s t idx cs := by
        obtain ⟨hres,hcre⟩ := hmade hok
        simp only [walkDirs_cwd] at hcre
        exact ⟨hres,hcre⟩
      exact hmade.enter hf ht (findChild_extends hext hinv hinv' h0 hf) (by rw [hext idx hdir.live]; exact ht)
    · exact ⟨r,_,he cs,hinv.setCwd hsaved,rfl,fun _ _ => rfl,fun hok => absurd hok hr⟩
    · have hmk : FsInv (s.setNode idx (madeDir s c idx)) :=
        hinv.create h0 hc.valid hc.fresh hc.slot rfl rfl (goodFile_of_dir rfl)
      have hdir : LiveDir (s.setNode idx (madeDir s c idx)) idx :=
        ⟨(allocNode_some hc.slot).1,by rw [setNode_self]; rfl⟩
      have hsaved' : LiveDir (s.setNode idx (madeDir s c idx)) saved :=
        (liveDir_setNode_other (alloc_ne hc.slot hsaved.live)).mpr hsaved
      obtain ⟨r,t,hrun,hinv',hcwd,hext,hmade⟩ := ih (hmk.setCwd hdir) hsaved' hrest
      have hext' : Extends (s.setNode idx (madeDir s c idx)) t := hext
      refine ⟨r,t,(he cs).trans hrun,hinv',hcwd,hc.extends.trans hext',?_⟩
      intro hok
      have hmade : MadeAll (s.setNode idx (madeDir s c idx)) t idx cs := by
        obtain ⟨hres,hcre⟩ := hmade hok
        simp only [walkDirs_cwd] at hcre
        exact ⟨hres,hcre⟩
      exact hmade.make hinv hc rfl hext' (findChild_extends hext' hmk hinv' h0 (hc.found h0))
        (by rw [hext' idx hdir.live]; exact hdir.2)

theorem nul_notMem_components (h : 0∉path) : ∀ c∈components path, 0∉c := by
  intro c hc h0
  exact h ((mem_parts hc).2.2.subset h0)

theorem components_slash : components (0x2F::path)=components path := by
  have h : parts 0x2F ([]++0x2F::path)=if ([] : List UInt8)=[] then parts 0x2F path else []::parts 0x2F path :=
    parts_append_sep (by simp)
  simpa [components] using h

theorem length_component (h : ComponentsShort path) : ∀ c∈components path, c.length<48 := by
  intro c hc
  obtain ⟨_,hslash,pre,post,hpath⟩ := mem_parts hc
  refine h pre c post hpath.symm ?_
  intro b hb he
  exact hslash (he ▸ hb)

theorem fsMkdirP_eq :
    fsMkdirP s (0x2F::path)=mkdirAll s.cwd (components (0x2F::path)) { s with cwd := FS_ROOT_INDEX } := by
  rw [fsMkdirP,if_neg (by simp),mkdirPLoop_eq (Nat.le_refl _),components_slash]

theorem exists_rest (h : path.head?=some 0x2F) : ∃ rest, path=0x2F::rest := by
  cases path with
  | nil => simp at h
  | cons c rest => exact ⟨rest,by rw [Option.some_inj.mp h]⟩

theorem mkdir_p_monotone_idempotent (hr : FsReachable s) (path : CStr) (habs : path.bytes.head?=some 0x2F)
    (hshort : ComponentsShort path.bytes) :
    ∃ r t, fsMkdirP s path.bytes=some (r,t) ∧ t.cwd=s.cwd ∧ Extends s t ∧ (r = .ok →
      (∀ pre, pre <+: components path.bytes → ∃ d, walkDirs t FS_ROOT_INDEX pre=some d ∧ LiveDir t d) ∧
      (∀ i, Live t i ∧ ¬ Live s i ↔ ∃ pre, pre <+: components path.bytes ∧
        walkDirs s FS_ROOT_INDEX pre=none ∧ walkDirs t FS_ROOT_INDEX pre=some i) ∧
      fsMkdirP t path.bytes=some (.ok,t)) := by
  have hinv := fsReachable_inv hr
  have hnul := nul_notMem_components path.nul_free
  have hlen := length_component hshort
  obtain ⟨rest,hrest⟩ := exists_rest habs
  rw [hrest] at hnul hlen ⊢
  have hroot := hinv.setCwd hinv.liveRoot
  obtain ⟨r,t,hrun,hinv',hcwd,hext,hmade⟩ := mkdirAll_spec hroot hinv.cwd
    fun c hc => ⟨hnul c hc,hlen c hc⟩
  refine ⟨r,t,fsMkdirP_eq.trans hrun,hcwd,hext,?_⟩
  intro hok
  obtain ⟨⟨i,hres⟩,hcreated⟩ := hmade hok
  simp only [walkDirs_cwd] at hcreated
  refine ⟨fun pre hpre => walkDirs_prefix hres hpre hinv'.liveRoot,hcreated,?_⟩
  have hsecond : mkdirAll t.cwd (components (0x2F::rest)) { t with cwd := FS_ROOT_INDEX }=some (.ok,t) :=
    mkdirAll_resolved (s := { t with cwd := FS_ROOT_INDEX }) (by rw [walkDirs_cwd]; exact hres) hlen
  rw [fsMkdirP_eq,hsecond]

theorem componentsShort_of_length (h : path.length<48) : ComponentsShort path := by
  rintro pre comp post rfl _
  simp only [List.length_append] at h
  omega

/-- `/usr` is there after `fs_init`, `/usr/x` is made, and the second call finds both. -/
theorem mkdir_p_usr_x :
    ∃ t, fsMkdirP (fsInit blankFs) (ascii "/usr/x")=some (.ok,t) ∧ Extends (fsInit blankFs) t ∧
      fsMkdirP t (ascii "/usr/x")=some (.ok,t) := by
  obtain ⟨r,t,hrun,_,hext,hok⟩ := mkdir_p_monotone_idempotent (.init ⟨blankFs,rfl⟩)
    ⟨ascii "/usr/x",by decide⟩ (by decide) (componentsShort_of_length (by decide))
  have hr : (fsMkdirP (fsInit blankFs) (ascii "/usr/x")).map Prod.fst=some .ok := by decide +kernel
  rw [hrun] at hr
  have hr : r = .ok := Option.some_inj.mp hr
  subst hr
  exact ⟨t,hrun,hext,(hok rfl).2.2⟩

end MyKernel.RamFs
