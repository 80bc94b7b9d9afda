import MyKernel.RamFs.Atomic

/-! Removing what is there and removing what was just made. -/
namespace MyKernel.RamFs
open CString Chains

variable {s t u : Fs} {n : FsNode} {i j idx root : Nat} {name : List UInt8} {r : FsResult}

/-- Exactly the nodes below `root` are freed. The other slots and the working directory stay. -/
structure RemovedBelow (s : Fs) (root : Nat) (t : Fs) : Prop where
  freed : ∀ i, Live s i → (¬ Live t i ↔ Below s root i)
  kept : ∀ i, ¬ (Live s i ∧ Below s root i) → t.nodes i=s.nodes i
  cwd : t.cwd=s.cwd

theorem FsInv.parent_ne (hinv : FsInv s) (hi : Live s i) : (s.nodes i).parent≠some i := by
  intro hp
  obtain ⟨depth,hd⟩ := hinv.ranked
  exact Nat.lt_irrefl _ (hd i i hi hp)

theorem not_below_child (hp : (s.nodes root).parent=some i) : ¬ Below s root i := by
  rintro ⟨path,hpath,hmem⟩
  have hfull : ChainFrom (parentOf s) (some root) (root::path) := ⟨rfl,by rw [parentOf,hp]; exact hpath⟩
  exact (List.nodup_cons.mp hfull.nodup).1 hmem

theorem below_child (hinv : FsInv s) (hj : Live s j) (hp : (s.nodes j).parent=some root) : Below s root j := by
  obtain ⟨path,hpath,_⟩ := hinv.path (hinv.live_parent hj hp).live
  refine ⟨j::path,⟨rfl,by rw [parentOf,hp]; exact hpath⟩,?_⟩
  cases path with
  | nil => exact absurd hpath (by simp [ChainFrom])
  | cons k path =>
    have hk : root=k := Option.some_inj.mp hpath.1
    simp [hk]

theorem fsRmSubtree_cwd (hinv : FsInv s) (hout : ¬ Below s root s.cwd)
    (h : fsRmSubtree s root=some (r,t)) : t.cwd=s.cwd := by
  obtain ⟨path,hpath,_,hlive⟩ := hinv.path hinv.cwd.live
  have hlen := live_length_le hpath.nodup hlive
  have hin := inSubtreeLoop_spec root (FS_MAX_NODES+1) hpath (by omega)
  have hmem : root∉path := fun hm => hout ⟨path,hpath,hm⟩
  rw [fsRmSubtree] at h
  split at h
  · cases h
    rfl
  · split at h
    · cases h
      rfl
    · split at h
      · cases h
        rfl
      · split at h
        · cases h
          rfl
        · rename_i q _
          simp only [fsCwdInSubtree,hin,hmem,decide_false,Option.map_some,Bool.false_eq_true,if_false,
            Option.some_inj,Prod.mk.injEq] at h
          rw [← h.2]
          exact (foldl_freeSlot_nodes q.items.reverse s 0).2.2

theorem fsRmSubtree_removed (hinv : FsInv s) (hf : fsFindChild s s.cwd name=some root) :
    ∃ t, fsRmSubtree s root=some (.ok,t) ∧ RemovedBelow s root t := by
  obtain ⟨hl,hp,_⟩ := findChild_some hf
  obtain ⟨S,t,hS,hrm,_,hfree,hkeep⟩ := fsRmSubtree_spec hinv hl (hinv.findChild_ne_zero hf)
  refine ⟨t,hrm,?_,?_,fsRmSubtree_cwd hinv (not_below_child hp) hrm⟩
  · intro i hi
    rw [← hS.mem_iff_below hinv hi]
    constructor
    · intro hdead
      by_contra hm
      exact hdead ⟨hi.1,by rw [hkeep i hm]; exact hi.2⟩
    · intro hm hlive
      exact hlive.2 (hfree i hm)
  · intro i hi
    apply hkeep i
    intro hm
    exact hi ⟨hS.live i hm,(hS.mem_iff_below hinv (hS.live i hm)).mp hm⟩

theorem fsRmSubtree_not_noSpace (hinv : FsInv s) (idx : Nat) :
    ∃ r t, fsRmSubtree s idx=some (r,t) ∧ r ≠ .noSpace := by
  by_cases hb : FS_MAX_NODES ≤ idx
  · exact ⟨.notFound,s,by rw [fsRmSubtree,if_pos hb],by simp⟩
  by_cases hfree : (s.nodes idx).type = .free
  · exact ⟨.ok,s,by rw [fsRmSubtree,if_neg hb,if_pos hfree],by simp⟩
  by_cases h0 : idx=FS_ROOT_INDEX
  · exact ⟨.invalidName,s,by rw [fsRmSubtree,if_neg hb,if_neg hfree,if_pos h0],by simp⟩
  obtain ⟨_,t,_,hrm,_⟩ := fsRmSubtree_spec hinv ⟨by omega,hfree⟩ h0
  exact ⟨.ok,t,hrm,by simp⟩

theorem single_iff_leaf (hinv : FsInv s) :
    (∀ i, Live s i → Below s root i → i=root) ↔ ∀ j, Live s j → (s.nodes j).parent≠some root := by
  constructor
  · intro hsingle j hj hp
    have hjr := hsingle j hj (below_child hinv hj hp)
    rw [hjr] at hj hp
    exact hinv.parent_ne hj hp
  · intro hleaf i hi hb
    exact below_leaf hinv hi hb hleaf

theorem hasChild_iff : hasChild s root=true ↔ ∃ j, Live s j ∧ (s.nodes j).parent=some root := by
  constructor
  · intro h
    obtain ⟨j,hj,hc⟩ := List.any_eq_true.mp h
    simp only [Bool.and_eq_true,bne_iff_ne,beq_iff_eq] at hc
    exact ⟨j,⟨List.mem_range.mp hj,hc.1⟩,hc.2⟩
  · rintro ⟨j,hj,hp⟩
    by_contra hno
    exact hasChild_false (by simpa using hno) hj hp

theorem fsRm_single (hinv : FsInv s) (hf : fsFindChild s s.cwd name=some root)
    (hsingle : ∀ i, Live s i → Below s root i → i=root) : fsRm s name=fsRmRf s name := by
  have hempty : ¬ ((s.nodes root).type = .dir ∧ hasChild s root=true) := by
    rintro ⟨_,hfull⟩
    obtain ⟨j,hj,hp⟩ := hasChild_iff.mp hfull
    exact (single_iff_leaf hinv).mp hsingle j hj hp
  rw [fsRm,fsRmRf,hf]
  simp only [if_neg hempty]

theorem fsRm_many (hinv : FsInv s) (hf : fsFindChild s s.cwd name=some root)
    (hmany : ¬ ∀ i, Live s i → Below s root i → i=root) : fsRm s name≠some (.ok,t) := by
  have hfull : (s.nodes root).type = .dir ∧ hasChild s root := by
    rw [single_iff_leaf hinv] at hmany
    push Not at hmany
    obtain ⟨j,hj,hp⟩ := hmany
    exact ⟨(hinv.live_parent hj hp).2,hasChild_iff.mpr ⟨j,hj,hp⟩⟩
  rw [fsRm,hf]
  dsimp only
  rw [if_pos hfull]
  split
  · simp
  · split
    · simp
    · simp

theorem fsRmRf_ok (hinv : FsInv s) (h : fsRmRf s name=some (.ok,t)) :
    ∃ root, fsFindChild s s.cwd name=some root ∧ RemovedBelow s root t := by
  rw [fsRmRf] at h
  split at h
  · cases h
  · split at h
    · cases h
    · cases hf : fsFindChild s s.cwd name with
      | none =>
        rw [hf] at h
        cases h
      | some root =>
        obtain ⟨t',hrm,hrem⟩ := fsRmSubtree_removed hinv hf
        have ht : t'=t := by simpa [hf,hrm] using h
        exact ⟨root,rfl,ht ▸ hrem⟩

theorem rm_rf_removes_exactly_the_subtree (hr : FsReachable s) (name : CStr) :
    (∀ idx, ∃ r u, fsRmSubtree s idx=some (r,u) ∧ r ≠ .noSpace) ∧
    ∀ t, fsRmRf s name.bytes=some (.ok,t) →
      ∃ root, Live s root ∧ (s.nodes root).parent=some s.cwd ∧ nameOf (s.nodes root)=name.bytes ∧
        RemovedBelow s root t ∧
        ((∃ u, fsRm s name.bytes=some (.ok,u)) ↔ ∀ i, Live s i → Below s root i → i=root) ∧
        ∀ u, fsRm s name.bytes=some (.ok,u) → u=t := by
  have hinv := fsReachable_inv hr
  refine ⟨fsRmSubtree_not_noSpace hinv,?_⟩
  intro t hok
  obtain ⟨root,hf,hrem⟩ := fsRmRf_ok hinv hok
  obtain ⟨hl,hp,hname⟩ := findChild_some hf
  refine ⟨root,hl,hp,(hinv.kStreq_iff hl (hinv.findChild_ne_zero hf) name.nul_free).mp hname,hrem,?_,?_⟩
  · constructor
    · rintro ⟨u,hu⟩
      by_contra hmany
      exact fsRm_many hinv hf hmany hu
    · intro hsingle
      exact ⟨t,by rw [fsRm_single hinv hf hsingle,hok]⟩
  · intro u hu
    have hsingle : ∀ i, Live s i → Below s root i → i=root := by
      by_contra hmany
      exact fsRm_many hinv hf hmany hu
    rw [fsRm_single hinv hf hsingle,hok] at hu
    simpa using hu.symm

/-- `usr` holds `lib` after `fs_init`: `fs_rm_rf` takes both away. -/
theorem rm_rf_removes_usr :
    ∃ t, fsRmRf (fsInit blankFs) [0x75,0x73,0x72]=some (.ok,t) ∧
      ∃ root, nameOf ((fsInit blankFs).nodes root)=[0x75,0x73,0x72] ∧
        RemovedBelow (fsInit blankFs) root t := by
  have hok : (fsRmRf (fsInit blankFs) [0x75,0x73,0x72]).map Prod.fst=some .ok := by decide +kernel
  obtain ⟨⟨r,t⟩,ht,hrok⟩ := Option.map_eq_some_iff.mp hok
  dsimp only at hrok
  subst hrok
  obtain ⟨root,_,_,hname,hrem,_⟩ := (rm_rf_removes_exactly_the_subtree (.init ⟨blankFs,rfl⟩)
    ⟨[0x75,0x73,0x72],by decide⟩).2 t ht
  exact ⟨t,ht,root,hname,hrem⟩

theorem fsTouch_ok (h : fsTouch s name=(.ok,t)) :
    ∃ idx, Created s name idx (touched s name idx) ∧ t=s.setNode idx (touched s name idx) := by
  rcases createNode_cases s name (touched s name) with ⟨r,hr,hout⟩ | ⟨idx,hv,hf,ha,hout⟩
  · exact absurd (congrArg Prod.fst (hout.symm.trans h)) hr
  · exact ⟨idx,⟨hv,hf,ha,by simp [touched],rfl,rfl⟩,(Prod.mk.inj (h.symm.trans hout)).2⟩

theorem fsMkdir_ok (h : fsMkdir s name=(.ok,t)) :
    ∃ idx, Created s name idx (madeDir s name idx) ∧ t=s.setNode idx (madeDir s name idx) := by
  rcases createNode_cases s name (madeDir s name) with ⟨r,hr,hout⟩ | ⟨idx,hv,hf,ha,hout⟩
  · exact absurd (congrArg Prod.fst (hout.symm.trans h)) hr
  · exact ⟨idx,⟨hv,hf,ha,by simp [madeDir],rfl,rfl⟩,(Prod.mk.inj (h.symm.trans hout)).2⟩

theorem Created.not_live (h : Created s name idx n) : ¬ Live s idx := fun hl => hl.2 (allocNode_some h.slot).2

theorem Created.leaf (h : Created s name idx n) (hinv : FsInv s) (hj : Live (s.setNode idx n) j) :
    ((s.setNode idx n).nodes j).parent≠some idx := by
  intro hp
  by_cases he : j=idx
  · rw [he,setNode_self,h.parent] at hp
    exact h.not_live (Option.some_inj.mp hp ▸ hinv.cwd.live)
  · rw [setNode_other he] at hp
    exact h.not_live (hinv.live_parent ((live_setNode_other he).mp hj) hp).live

theorem fsRm_slash : fsRm s slash=some (.invalidName,s) := by
  rw [fsRm,if_neg (by decide),if_pos rfl]

def SameLive (s t : Fs) : Prop :=
  (∀ i, Live t i ↔ Live s i) ∧ (∀ i, Live s i → t.nodes i=s.nodes i) ∧ t.cwd=s.cwd

theorem Created.removed (h : Created s name idx n) (hinv : FsInv s) (hn : 0∉name)
    (hinv' : FsInv (s.setNode idx n)) (hslash : name≠slash) :
    ∃ u, fsRm (s.setNode idx n) name=some (.ok,u) ∧ SameLive s u := by
  have hf : fsFindChild (s.setNode idx n) (s.setNode idx n).cwd name=some idx := h.found hn
  have hsingle : ∀ i, Live (s.setNode idx n) i → Below (s.setNode idx n) idx i → i=idx :=
    (single_iff_leaf hinv').mpr fun j hj => h.leaf hinv hj
  obtain ⟨u,hrm,hrem⟩ := fsRmSubtree_removed hinv' hf
  refine ⟨u,?_,?_,?_,hrem.cwd⟩
  · rw [fsRm_single hinv' hf hsingle,fsRmRf,if_neg (validName h.valid).1,if_neg hslash,hf]
    exact hrm
  · intro i
    by_cases he : i=idx
    · subst he
      have hl := (findChild_some hf).1
      obtain ⟨path,hpath,_⟩ := hinv'.path hl
      have hstart : i∈path := by
        cases path with
        | nil => exact absurd hpath (by simp [ChainFrom])
        | cons k path => simp [Option.some_inj.mp hpath.1]
      exact iff_of_false ((hrem.freed i hl).mpr ⟨path,hpath,hstart⟩) h.not_live
    · rw [Live,hrem.kept i (fun hb => he (hsingle i hb.1 hb.2)),setNode_other he]
      rfl
  · intro i hi
    have he : i≠idx := fun he => h.not_live (he ▸ hi)
    rw [hrem.kept i (fun hb => he (hsingle i hb.1 hb.2)),setNode_other he]

/-- `fs_touch` and `fs_mkdir` take `/` as a name, `fs_rm` does not. -/
theorem creation_undone_iff (hr : FsReachable s) (name : CStr) (k : FsCall)
    (hk : k = .touch name ∨ k = .mkdir name) (hok : s.call k=some (.ok,t)) :
    (∃ u, fsRm t name.bytes=some (.ok,u) ∧ SameLive s u) ↔ name.bytes≠slash := by
  have hinv := fsReachable_inv hr
  have hcreated : ∃ idx n, Created s name.bytes idx n ∧ t=s.setNode idx n := by
    rcases hk with rfl | rfl
    · obtain ⟨idx,hc,ht⟩ := fsTouch_ok (Option.some_inj.mp hok)
      exact ⟨idx,_,hc,ht⟩
    · obtain ⟨idx,hc,ht⟩ := fsMkdir_ok (Option.some_inj.mp hok)
      exact ⟨idx,_,hc,ht⟩
  have hinv' : FsInv t := by
    refine fsReachable_inv (hr.call ?_ hok)
    rcases hk with rfl | rfl
    · trivial
    · trivial
  obtain ⟨idx,n,hc,rfl⟩ := hcreated
  constructor
  · rintro ⟨u,hu,_⟩ hslash
    rw [hslash,fsRm_slash] at hu
    cases hu
  · intro hslash
    exact hc.removed hinv name.nul_free hinv' hslash

theorem creation_undone_a :
    ∃ t u, fsTouch (fsInit blankFs) [0x61]=(.ok,t) ∧ fsRm t [0x61]=some (.ok,u) ∧
      SameLive (fsInit blankFs) u := by
  have hok : (fsTouch (fsInit blankFs) [0x61]).1 = .ok := by decide +kernel
  rcases hout : fsTouch (fsInit blankFs) [0x61] with ⟨r,t⟩
  rw [hout] at hok
  dsimp only at hok
  subst hok
  obtain ⟨u,hu,hsame⟩ := (creation_undone_iff (.init ⟨blankFs,rfl⟩) ⟨[0x61],by decide⟩
    (.touch ⟨[0x61],by decide⟩) (.inl rfl) (congrArg some hout)).mpr (by decide)
  exact ⟨t,u,rfl,hu,hsame⟩

/-- A file called `/` is made and cannot be removed. -/
theorem creation_not_undone :
    ¬ ∀ (s : Fs) (name : CStr) (t : Fs), FsReachable s → fsTouch s name.bytes=(.ok,t) →
      ∃ u, fsRm t name.bytes=some (.ok,u) ∧ SameLive s u := by
  intro hall
  have hok : (fsTouch (fsInit blankFs) slash).1 = .ok := by decide +kernel
  rcases hout : fsTouch (fsInit blankFs) slash with ⟨r,t⟩
  rw [hout] at hok
  dsimp only at hok
  subst hok
  obtain ⟨u,hu,_⟩ := hall (fsInit blankFs) ⟨slash,by decide⟩ t (.init ⟨blankFs,rfl⟩) hout
  rw [fsRm_slash] at hu
  cases hu

end MyKernel.RamFs
