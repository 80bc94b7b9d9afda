import MyKernel.RamFs.Mutators

/-! The calls that let every file grow or stay as it is. -/
namespace MyKernel.RamFs
open CString Chains

variable {s t u : Fs} {n : FsNode} {i idx root : Nat} {name text src dst path : List UInt8} {r : FsResult}

structure Grows (s t : Fs) : Prop where
  type : ∀ i, Live s i → (t.nodes i).type=(s.nodes i).type
  content : ∀ i, Live s i → (s.nodes i).contentLen≤(t.nodes i).contentLen

theorem Grows.refl (s : Fs) : Grows s s := ⟨fun _ _ => rfl, fun _ _ => Nat.le_refl _⟩

theorem Grows.live (h : Grows s t) (hi : Live s i) : Live t i :=
  ⟨hi.1,by rw [h.type i hi]; exact hi.2⟩

theorem Grows.trans (h : Grows s t) (h' : Grows t u) : Grows s u where
  type i hi := (h'.type i (h.live hi)).trans (h.type i hi)
  content i hi := Nat.le_trans (h.content i hi) (h'.content i (h.live hi))

theorem alloc_ne (ha : fsAllocNode s=some idx) (hi : Live s i) : i≠idx := by
  intro he
  rw [he] at hi
  exact hi.2 (allocNode_some ha).2

theorem grows_create (ha : fsAllocNode s=some idx) : Grows s (s.setNode idx n) := by
  constructor
  · intro i hi
    rw [setNode_other (alloc_ne ha hi)]
  · intro i hi
    simp [setNode_other (alloc_ne ha hi)]

theorem grows_update (ht : n.type=(s.nodes idx).type) (hc : (s.nodes idx).contentLen≤n.contentLen) :
    Grows s (s.setNode idx n) := by
  constructor
  · intro i _
    by_cases he : i=idx
    · rw [he,setNode_self,ht]
    · rw [setNode_other he]
  · intro i _
    by_cases he : i=idx
    · rw [he,setNode_self]
      exact hc
    · simp [setNode_other he]

theorem createNode_grows {n : Nat → FsNode} : Grows s (createNode s name n).2 := by
  rcases createNode_cases s name n with ⟨r,_,hout⟩ | ⟨idx,_,_,ha,hout⟩
  · rw [hout]
    exact Grows.refl s
  · rw [hout]
    exact grows_create ha

theorem fsMkdir_grows : Grows s (fsMkdir s name).2 := createNode_grows

theorem fsTouch_grows : Grows s (fsTouch s name).2 := createNode_grows

theorem fsTouch_cases (s : Fs) (name : List UInt8) :
    (∃ r, r ≠ .ok ∧ fsTouch s name=(r,s)) ∨
    ∃ idx n, fsAllocNode s=some idx ∧ fsTouch s name=(.ok,s.setNode idx n) := by
  rcases createNode_cases s name (touched s name) with hfail | ⟨idx,_,_,ha,hout⟩
  · exact .inl hfail
  · exact .inr ⟨idx,_,ha,hout⟩

theorem fsTouch_found (hf : fsFindChild s s.cwd name=none)
    (h : fsFindChild (fsTouch s name).2 (fsTouch s name).2.cwd name=some i) : ¬ Live s i := by
  intro hi
  rcases fsTouch_cases s name with ⟨r,_,he⟩ | ⟨idx,n,ha,he⟩
  · rw [he,hf] at h
    cases h
  · obtain ⟨_,hp,hname⟩ := findChild_some h
    rw [he,setNode_other (alloc_ne ha hi)] at hp hname
    rw [findChild_none hf hi hp] at hname
    cases hname

theorem fsCp_grows : Grows s (fsCp s src dst).2 := by
  rw [fsCp]
  cases fsFindChild s s.cwd src with
  | none => exact Grows.refl s
  | some idx =>
    dsimp only
    split
    · exact Grows.refl s
    · exact createNode_grows

theorem fsMv_grows : Grows s (fsMv s src dst).2 := by
  rw [fsMv]
  cases fsFindChild s s.cwd src with
  | none => exact Grows.refl s
  | some idx =>
    dsimp only
    split
    · exact Grows.refl s
    · split
      · exact Grows.refl s
      · exact grows_update rfl (Nat.le_refl _)

theorem fsCd_nodes : (fsCd s name).2.nodes=s.nodes := by
  rw [fsCd]
  split
  · rfl
  · split
    · split
      · rfl
      · rfl
    · split
      · rfl
      · split
        · rfl
        · split
          · rfl
          · rfl

theorem fsCd_grows : Grows s (fsCd s name).2 := by
  constructor
  · intro i _
    rw [fsCd_nodes]
  · intro i _
    simp [fsCd_nodes]

theorem findOrTouch_grows {o : Option Nat} (h : findOrTouch s name=(r,o,t)) : Grows s t := by
  rw [findOrTouch] at h
  cases hf : fsFindChild s s.cwd name with
  | some idx =>
    simp only [hf,Prod.mk.injEq] at h
    rw [← h.2.2]
    exact Grows.refl s
  | none =>
    simp only [hf] at h
    split at h
    · simp only [Prod.mk.injEq] at h
      rw [← h.2.2]
      exact fsTouch_grows
    · simp only [Prod.mk.injEq] at h
      rw [← h.2.2]
      exact fsTouch_grows

theorem le_appendLoop {pos : Nat} (content : Nat → UInt8) : pos≤(appendLoop text content pos).2 := by
  induction text generalizing content pos with
  | nil => exact Nat.le_refl pos
  | cons c cs ih =>
    rw [appendLoop]
    split
    · exact Nat.le_trans (Nat.le_succ pos) (ih _)
    · exact Nat.le_refl pos

theorem le_appendText : n.contentLen≤(appendText n text).contentLen := by
  rw [appendText]
  by_cases hnl : 0<n.contentLen ∧ n.contentLen<FS_FILE_MAX-1
  · simp only [if_pos hnl]
    exact Nat.le_trans (Nat.le_succ _) (le_appendLoop _)
  · simp only [if_neg hnl]
    exact le_appendLoop _

theorem fsAppend_grows : Grows s (fsAppend s name text).2 := by
  rw [fsAppend]
  split
  next t he => exact findOrTouch_grows he
  next idx t he =>
    split
    · exact findOrTouch_grows he
    · exact (findOrTouch_grows he).trans (grows_update rfl le_appendText)
  next he => exact findOrTouch_grows he

theorem fsWrite_tooBig (h : FS_FILE_MAX≤text.length) : fsWrite s name text=(.tooBig,s) := by
  rw [fsWrite,fsWriteBin,if_pos h]

theorem fsWrite_found (hf : fsFindChild s s.cwd name=some idx) (ht : (s.nodes idx).type = .file)
    (hlen : text.length<FS_FILE_MAX) :
    fsWrite s name text=(.ok,s.setNode idx { s.nodes idx with
      content := setByte (kMemcpy (s.nodes idx).content (bytesAt text) text.length) text.length 0
      contentLen := text.length }) := by
  rw [fsWrite,fsWriteBin,if_neg (by omega)]
  simp only [findOrTouch,hf,ht,ne_eq,not_true,if_false]

theorem fsWrite_grows (h : ∀ idx, fsFindChild s s.cwd name=some idx → (s.nodes idx).type ≠ .file) :
    Grows s (fsWrite s name text).2 := by
  rw [fsWrite,fsWriteBin]
  split
  · exact Grows.refl s
  cases hf : fsFindChild s s.cwd name with
  | some idx =>
    simp only [findOrTouch,hf,if_pos (h idx hf)]
    exact Grows.refl s
  | none =>
    split
    next t he => exact findOrTouch_grows he
    next idx t he =>
      have hg := findOrTouch_grows he
      split
      · exact hg
      -- the node written is the one just created, so it was not there before
      have hnew : ¬ Live s idx := by
        simp only [findOrTouch,hf] at he
        split at he
        · simp at he
        · simp only [Prod.mk.injEq,true_and] at he
          exact fsTouch_found hf he.1
      have hne : ∀ i, Live s i → i≠idx := by
        intro i hi hn
        rw [hn] at hi
        exact hnew hi
      constructor
      · intro i hi
        rw [setNode_other (hne i hi)]
        exact hg.type i hi
      · intro i hi
        rw [setNode_other (hne i hi)]
        exact hg.content i hi
    next he => exact findOrTouch_grows he

def Below (s : Fs) (root i : Nat) : Prop := ∃ path, ChainFrom (parentOf s) (some i) path ∧ root∈path

theorem Subtree.mem_iff_below {S : List Nat} (h : Subtree s root S) (hinv : FsInv s) (hi : Live s i) :
    i∈S ↔ Below s root i := by
  obtain ⟨path,hp,_,hlive⟩ := hinv.path hi
  rw [h.mem_iff hp hlive]
  constructor
  · intro hmem
    exact ⟨path,hp,hmem⟩
  · rintro ⟨path',hp',hmem⟩
    rwa [hp.unique hp']

theorem below_leaf (hinv : FsInv s) (hi : Live s i) (hb : Below s root i)
    (hleaf : ∀ j, Live s j → (s.nodes j).parent≠some root) : i=root := by
  obtain ⟨path,hp,hmem⟩ := hb
  induction path generalizing i with
  | nil => simp at hmem
  | cons j path ih =>
    have hij : i=j := Option.some_inj.mp hp.1
    cases List.mem_cons.mp hmem with
    | inl he => rw [hij,he]
    | inr hmem =>
      -- the node above `i` would be `root` as well
      have hrest := hp.2
      rw [← hij,parentOf] at hrest
      cases hpar : (s.nodes i).parent with
      | none =>
        rw [hpar] at hrest
        have hnil := hrest.unique (show ChainFrom (parentOf s) none [] from rfl)
        rw [hnil] at hmem
        simp at hmem
      | some p =>
        rw [hpar] at hrest
        have hroot := ih (hinv.live_parent hi hpar).live hrest hmem
        rw [hroot] at hpar
        exact absurd hpar (hleaf i hi)

structure Cut (s : Fs) (root : Nat) (t : Fs) : Prop where
  freed : ∀ i, Live s i → Below s root i → (t.nodes i).type = .free
  kept : ∀ i, Live s i → ¬ Below s root i → t.nodes i=s.nodes i

theorem fsRmSubtree_cut (hinv : FsInv s) (hf : fsFindChild s s.cwd name=some root) :
    ∃ t, fsRmSubtree s root=some (.ok,t) ∧ Cut s root t := by
  obtain ⟨S,t,hS,hrm,_,hfree,hkeep⟩ :=
    fsRmSubtree_spec hinv (findChild_some hf).1 (hinv.findChild_ne_zero hf)
  refine ⟨t,hrm,?_,?_⟩
  · intro i hi hb
    exact hfree i ((hS.mem_iff_below hinv hi).mpr hb)
  · intro i hi hb
    exact hkeep i fun hm => hb ((hS.mem_iff_below hinv hi).mp hm)

theorem fsRmRf_cases (hinv : FsInv s) (name : List UInt8) :
    ((name=[] ∨ name=slash ∨ fsFindChild s s.cwd name=none) ∧ ∃ r, fsRmRf s name=some (r,s)) ∨
    ∃ root t, name≠[] ∧ name≠slash ∧ fsFindChild s s.cwd name=some root ∧
      fsRmRf s name=some (.ok,t) ∧ Cut s root t := by
  rw [fsRmRf]
  by_cases h0 : name=[]
  · exact .inl ⟨.inl h0,.invalidName,if_pos h0⟩
  by_cases hslash : name=slash
  · exact .inl ⟨.inr (.inl hslash),.invalidName,by rw [if_neg h0,if_pos hslash]⟩
  rw [if_neg h0,if_neg hslash]
  cases hf : fsFindChild s s.cwd name with
  | none => exact .inl ⟨.inr (.inr rfl),.notFound,rfl⟩
  | some root =>
    obtain ⟨t,hrm,hcut⟩ := fsRmSubtree_cut hinv hf
    exact .inr ⟨root,t,h0,hslash,rfl,hrm,hcut⟩

theorem hasChild_false (h : hasChild s root=false) (hi : Live s i) : (s.nodes i).parent≠some root := by
  intro hp
  rw [hasChild,List.any_eq_false] at h
  have hn := h i (List.mem_range.mpr hi.1)
  simp [hi.2,hp] at hn

theorem fsRm_cases (hinv : FsInv s) (name : List UInt8) :
    ((name=[] ∨ name=slash ∨ ∀ root, fsFindChild s s.cwd name=some root →
        (s.nodes root).type ≠ .file) ∧ ∃ r, fsRm s name=some (r,s)) ∨
    ∃ root t, name≠[] ∧ name≠slash ∧ fsFindChild s s.cwd name=some root ∧
      fsRm s name=some (.ok,t) ∧ Cut s root t ∧ ∀ i, Live s i → Below s root i → i=root := by
  rw [fsRm]
  by_cases h0 : name=[]
  · exact .inl ⟨.inl h0,.invalidName,if_pos h0⟩
  by_cases hslash : name=slash
  · exact .inl ⟨.inr (.inl hslash),.invalidName,by rw [if_neg h0,if_pos hslash]⟩
  rw [if_neg h0,if_neg hslash]
  cases hf : fsFindChild s s.cwd name with
  | none => exact .inl ⟨.inr (.inr (by simp)),.notFound,rfl⟩
  | some root =>
    dsimp only
    by_cases hfull : (s.nodes root).type = .dir ∧ hasChild s root
    · refine .inl ⟨.inr (.inr ?_),.dirNotEmpty,if_pos hfull⟩
      intro root' he
      rw [← Option.some_inj.mp he,hfull.1]
      simp
    · rw [if_neg hfull]
      obtain ⟨t,hrm,hcut⟩ := fsRmSubtree_cut hinv hf
      refine .inr ⟨root,t,h0,hslash,rfl,hrm,hcut,?_⟩
      intro i hi hb
      apply below_leaf hinv hi hb
      intro j hj hp
      -- a node with a child is a directory, and this one is not a full one
      apply hfull
      refine ⟨(hinv.live_parent hj hp).2,?_⟩
      by_contra hno
      exact hasChild_false (by simpa using hno) hj hp

end MyKernel.RamFs
