import MyKernel.Lib.Chains
import MyKernel.RamFs.Model

/-! The tree invariant of the node table, with a depth and with paths of parents. -/
namespace MyKernel.RamFs
open CString Chains

variable {s : Fs} {i j p : Nat} {n : FsNode} {name : List UInt8}

def Live (s : Fs) (i : Nat) : Prop := i<FS_MAX_NODES ∧ (s.nodes i).type ≠ .free
def LiveDir (s : Fs) (i : Nat) : Prop := i<FS_MAX_NODES ∧ (s.nodes i).type = .dir

def nameOf (n : FsNode) : List UInt8 := readString FS_NAME_MAX n.name

def parentOf (s : Fs) (i : Nat) : Option Nat := (s.nodes i).parent

def GoodName (n : FsNode) : Prop :=
  (∃ k, k<FS_NAME_MAX ∧ n.name k=0) ∧ nameOf n≠[] ∧ nameOf n≠dot ∧ nameOf n≠dotdot

def GoodFile (n : FsNode) : Prop :=
  n.type = .file → n.contentLen≤8191 ∧ n.content n.contentLen=0

structure FsInv (s : Fs) : Prop where
  root : (s.nodes 0).type = .dir ∧ (s.nodes 0).parent=none
  parents : ∀ i, Live s i → i≠0 → ∃ p, (s.nodes i).parent=some p ∧ LiveDir s p
  ranked : ∃ depth : Nat → Nat, ∀ i p, Live s i → (s.nodes i).parent=some p → depth p<depth i
  cwd : LiveDir s s.cwd
  siblings : ∀ i j, Live s i → Live s j → (s.nodes i).parent=(s.nodes j).parent →
    nameOf (s.nodes i)=nameOf (s.nodes j) → i=j
  names : ∀ i, Live s i → i≠0 → GoodName (s.nodes i)
  files : ∀ i, Live s i → GoodFile (s.nodes i)

/-- The statement of the invariant in terms of walks along parents. -/
structure FsTree (s : Fs) : Prop where
  root : (s.nodes 0).type = .dir ∧ (s.nodes 0).parent=none
  parents : ∀ i, Live s i → i≠0 → ∃ p, (s.nodes i).parent=some p ∧ LiveDir s p
  rooted : ∀ i, Live s i → ∃ path, ChainFrom (parentOf s) (some i) path ∧ path.Nodup ∧
    path.getLast?=some 0
  cwd : LiveDir s s.cwd
  siblings : ∀ i j, Live s i → Live s j → i≠j → (s.nodes i).parent=(s.nodes j).parent →
    nameOf (s.nodes i)≠nameOf (s.nodes j)
  names : ∀ i, Live s i → i≠0 → nameOf (s.nodes i)≠[] ∧ nameOf (s.nodes i)≠dot ∧
    nameOf (s.nodes i)≠dotdot ∧ ∃ k, k<48 ∧ (s.nodes i).name k=0
  files : ∀ i, i<256 → (s.nodes i).type = .file →
    (s.nodes i).contentLen≤8191 ∧ (s.nodes i).content (s.nodes i).contentLen=0

theorem LiveDir.live (h : LiveDir s i) : Live s i := ⟨h.1,by rw [h.2]; simp⟩

theorem FsInv.liveRoot (h : FsInv s) : LiveDir s 0 := ⟨by decide,h.root.1⟩

theorem FsInv.live_parent (h : FsInv s) (hi : Live s i) (hp : (s.nodes i).parent=some p) : LiveDir s p := by
  by_cases h0 : i=0
  · rw [h0,h.root.2] at hp
    cases hp
  · obtain ⟨q,hq,hd⟩ := h.parents i hi h0
    rw [hp] at hq
    cases hq
    exact hd

theorem FsInv.path (h : FsInv s) (hi : Live s i) :
    ∃ path, ChainFrom (parentOf s) (some i) path ∧ path.getLast?=some 0 ∧ ∀ j∈path, Live s j := by
  obtain ⟨depth,hd⟩ := h.ranked
  induction hn : depth i using Nat.strongRecOn generalizing i with
  | ind n ih =>
    cases hp : (s.nodes i).parent with
    | none =>
      have h0 : i=0 := by
        by_contra h0
        obtain ⟨p,hq,_⟩ := h.parents i hi h0
        rw [hp] at hq
        cases hq
      refine ⟨[i],⟨rfl,hp⟩,by simp [h0],?_⟩
      intro j hj
      rw [List.mem_singleton.mp hj]
      exact hi
    | some p =>
      have hlt := hd i p hi hp
      obtain ⟨path,hpath,hlast,hlive⟩ := ih (depth p) (by omega)
        (h.live_parent hi hp).live rfl
      refine ⟨i::path,⟨rfl,by rw [parentOf,hp]; exact hpath⟩,?_,?_⟩
      · cases path with
        | nil => simp at hlast
        | cons q path => simpa using hlast
      · intro j hj
        obtain rfl | hj := List.mem_cons.mp hj
        · exact hi
        · exact hlive j hj

theorem FsInv.tree (h : FsInv s) : FsTree s where
  root := h.root
  parents := h.parents
  rooted := by
    intro i hi
    obtain ⟨path,hp,hl,_⟩ := h.path hi
    exact ⟨path,hp,hp.nodup,hl⟩
  cwd := h.cwd
  siblings := fun i j hi hj hne hp hn => hne (h.siblings i j hi hj hp hn)
  names := fun i hi h0 =>
    have hg := h.names i hi h0
    ⟨hg.2.1,hg.2.2.1,hg.2.2.2,hg.1⟩
  files := fun i hi hf => h.files i ⟨hi,by rw [hf]; simp⟩ hf

theorem setNode_self : (s.setNode i n).nodes i=n := by simp [Fs.setNode]

theorem setNode_other (h : j≠i) : (s.setNode i n).nodes j=s.nodes j := by
  simp [Fs.setNode,h]

theorem live_setNode_other (h : j≠i) : Live (s.setNode i n) j ↔ Live s j := by
  simp [Live,setNode_other h]

theorem liveDir_setNode_other (h : j≠i) : LiveDir (s.setNode i n) j ↔ LiveDir s j := by
  simp [LiveDir,setNode_other h]

theorem FsInv.kStreq_iff (h : FsInv s) (hi : Live s i) (h0 : i≠0) (hn : 0∉name) :
    kStreq (s.nodes i).name name=true ↔ nameOf (s.nodes i)=name :=
  streq_iff (isCString_readString (h.names i hi h0).1) hn

theorem findChild_some (h : fsFindChild s p name=some i) :
    Live s i ∧ (s.nodes i).parent=some p ∧ kStreq (s.nodes i).name name=true := by
  have hp := List.find?_some h
  have hm := List.mem_of_find?_eq_some h
  simp only [Bool.and_eq_true,bne_iff_ne,beq_iff_eq] at hp
  exact ⟨⟨List.mem_range.mp hm,hp.1.1⟩,hp.1.2,hp.2⟩

theorem findChild_none (h : fsFindChild s p name=none) (hi : Live s i)
    (hp : (s.nodes i).parent=some p) : kStreq (s.nodes i).name name=false := by
  have hn := List.find?_eq_none.mp h i (List.mem_range.mpr hi.1)
  simpa [hi.2,hp] using hn

theorem FsInv.findChild_ne_zero (h : FsInv s) (hf : fsFindChild s p name=some i) : i≠0 := by
  intro h0
  have hp := (findChild_some hf).2.1
  rw [h0,h.root.2] at hp
  cases hp

theorem FsInv.findChild_iff (h : FsInv s) (hn : 0∉name) :
    fsFindChild s p name=some i ↔ Live s i ∧ (s.nodes i).parent=some p ∧ nameOf (s.nodes i)=name := by
  constructor
  · intro hf
    obtain ⟨hl,hp,hk⟩ := findChild_some hf
    exact ⟨hl,hp,(h.kStreq_iff hl (h.findChild_ne_zero hf) hn).mp hk⟩
  · rintro ⟨hl,hp,hname⟩
    have h0 : i≠0 := by
      intro h0
      rw [h0,h.root.2] at hp
      cases hp
    cases hf : fsFindChild s p name with
    | none =>
      have hk := findChild_none hf hl hp
      rw [(h.kStreq_iff hl h0 hn).mpr hname] at hk
      cases hk
    | some j =>
      obtain ⟨hlj,hpj,hkj⟩ := findChild_some hf
      have hnj := (h.kStreq_iff hlj (h.findChild_ne_zero hf) hn).mp hkj
      rw [h.siblings j i hlj hl (hpj.trans hp.symm) (hnj.trans hname.symm)]

theorem allocNode_some (h : fsAllocNode s=some i) : i<FS_MAX_NODES ∧ (s.nodes i).type = .free := by
  have hp := List.find?_some h
  have hm := List.mem_of_find?_eq_some h
  exact ⟨List.mem_range.mp hm,by simpa using hp⟩

theorem validName (h : fsIsValidName name=true) : name≠[] ∧ name≠dot ∧ name≠dotdot ∧ name.length<FS_NAME_MAX := by
  simp only [fsIsValidName] at h
  split at h
  · cases h
  · split at h
    · cases h
    · split at h
      · cases h
      · rename_i h1 h2 h3
        exact ⟨h1,fun h => h2 (Or.inl h),fun h => h2 (Or.inr h),by omega⟩

theorem goodName_of_copy (hv : fsIsValidName name=true) (hn : 0∉name) (dst : Nat → UInt8)
    (h : n.name=kStrcpyTruncate dst name FS_NAME_MAX) : nameOf n=name ∧ GoodName n := by
  obtain ⟨h1,h2,h3,hlen⟩ := validName hv
  have hc : IsCString n.name name := by
    rw [h]
    exact strcpyTruncate_isCString dst hn hlen
  have he : nameOf n=name := readString_eq hc hlen
  refine ⟨he,⟨name.length,hlen,hc.2.1⟩,?_⟩
  rw [he]
  exact ⟨h1,h2,h3⟩

theorem FsInv.fresh_name (h : FsInv s) (hn : 0∉name) (hf : fsFindChild s p name=none)
    (hi : Live s i) (hp : (s.nodes i).parent=some p) : nameOf (s.nodes i)≠name := by
  have h0 : i≠0 := by
    intro h0
    rw [h0,h.root.2] at hp
    cases hp
  intro he
  have := findChild_none hf hi hp
  rw [(h.kStreq_iff hi h0 hn).mpr he] at this
  cases this

theorem FsInv.setCwd (h : FsInv s) (hd : LiveDir s i) : FsInv { s with cwd := i } :=
  ⟨h.root,h.parents,h.ranked,hd,h.siblings,h.names,h.files⟩

theorem FsInv.addNode (h : FsInv s) (hfree : (s.nodes i).type = .free) (hi : i<FS_MAX_NODES)
    (hp : LiveDir s p) (hpar : n.parent=some p) (hname : GoodName n) (hfile : GoodFile n)
    (hfresh : ∀ j, Live s j → (s.nodes j).parent=some p → nameOf (s.nodes j)≠nameOf n) : FsInv (s.setNode i n) := by
  have hnl : ∀ j, Live s j → j≠i := by
    intro j hj he
    rw [he] at hj
    exact hj.2 hfree
  have hold : ∀ j, Live (s.setNode i n) j → j≠i → Live s j :=
    fun j hj he => (live_setNode_other he).mp hj
  have h0 : (0:Nat)≠i := hnl 0 h.liveRoot.live
  refine ⟨?_,?_,?_,?_,?_,?_,?_⟩
  · rw [setNode_other h0]
    exact h.root
  · intro j hj hj0
    by_cases he : j=i
    · subst he
      exact ⟨p,by rw [setNode_self,hpar],(liveDir_setNode_other (hnl p hp.live)).mpr hp⟩
    · obtain ⟨q,hq,hd⟩ := h.parents j (hold j hj he) hj0
      exact ⟨q,by rw [setNode_other he,hq],(liveDir_setNode_other (hnl q hd.live)).mpr hd⟩
  · -- the new node lies one below its parent, and nothing lies below it yet
    obtain ⟨depth,hd⟩ := h.ranked
    refine ⟨fun j => if j=i then depth p+1 else depth j,?_⟩
    intro j q hj hq
    by_cases he : j=i
    · subst he
      rw [setNode_self,hpar] at hq
      cases hq
      simp [hnl p hp.live]
    · rw [setNode_other he] at hq
      have hl := hold j hj he
      have hqi := hnl q (h.live_parent hl hq).live
      simpa [he,hqi] using hd j q hl hq
  · exact (liveDir_setNode_other (hnl _ h.cwd.live)).mpr h.cwd
  · intro j k hj hk hpk hnk
    by_cases hji : j=i
    · by_cases hki : k=i
      · rw [hji,hki]
      · subst hji
        rw [setNode_self,setNode_other hki] at hpk hnk
        exact absurd hnk.symm (hfresh k (hold k hk hki) (by rw [← hpk,hpar]))
    · by_cases hki : k=i
      · subst hki
        rw [setNode_self,setNode_other hji] at hpk hnk
        exact absurd hnk (hfresh j (hold j hj hji) (by rw [hpk,hpar]))
      · rw [setNode_other hji,setNode_other hki] at hpk hnk
        exact h.siblings j k (hold j hj hji) (hold k hk hki) hpk hnk
  · intro j hj hj0
    by_cases he : j=i
    · subst he
      rw [setNode_self]
      exact hname
    · rw [setNode_other he]
      exact h.names j (hold j hj he) hj0
  · intro j hj
    by_cases he : j=i
    · subst he
      rw [setNode_self]
      exact hfile
    · rw [setNode_other he]
      exact h.files j (hold j hj he)

/-- A live node below the root rewritten in place, with a good name not taken by a sibling. -/
theorem FsInv.updateNode (h : FsInv s) (hi : Live s i) (h0 : i≠0)
    (ht : n.type=(s.nodes i).type) (hpar : n.parent=(s.nodes i).parent) (hname : GoodName n) (hfile : GoodFile n)
    (hfresh : ∀ j, Live s j → j≠i → (s.nodes j).parent=(s.nodes i).parent →
      nameOf (s.nodes j)≠nameOf n) : FsInv (s.setNode i n) := by
  have htype : ∀ j, ((s.setNode i n).nodes j).type=(s.nodes j).type := by
    intro j
    by_cases he : j=i
    · rw [he,setNode_self,ht]
    · rw [setNode_other he]
  have hparent : ∀ j, ((s.setNode i n).nodes j).parent=(s.nodes j).parent := by
    intro j
    by_cases he : j=i
    · rw [he,setNode_self,hpar]
    · rw [setNode_other he]
  have hlive : ∀ j, Live (s.setNode i n) j ↔ Live s j := fun j => by simp [Live,htype]
  have hdir : ∀ j, LiveDir (s.setNode i n) j ↔ LiveDir s j := fun j => by simp [LiveDir,htype]
  refine ⟨?_,?_,?_,(hdir _).mpr h.cwd,?_,?_,?_⟩
  · rw [setNode_other (Ne.symm h0)]
    exact h.root
  · intro j hj hj0
    obtain ⟨q,hq,hd⟩ := h.parents j ((hlive j).mp hj) hj0
    exact ⟨q,by rw [hparent,hq],(hdir q).mpr hd⟩
  · obtain ⟨depth,hd⟩ := h.ranked
    exact ⟨depth,fun j q hj hq => hd j q ((hlive j).mp hj) (by rw [← hparent,hq])⟩
  · intro j k hj hk hpk hnk
    rw [hparent,hparent] at hpk
    rw [hlive] at hj hk
    by_cases hji : j=i
    · by_cases hki : k=i
      · rw [hji,hki]
      · subst hji
        rw [setNode_self,setNode_other hki] at hnk
        exact absurd hnk.symm (hfresh k hk hki hpk.symm)
    · by_cases hki : k=i
      · subst hki
        rw [setNode_self,setNode_other hji] at hnk
        exact absurd hnk (hfresh j hj hji hpk)
      · rw [setNode_other hji,setNode_other hki] at hnk
        exact h.siblings j k hj hk hpk hnk
  · intro j hj hj0
    by_cases he : j=i
    · subst he
      rw [setNode_self]
      exact hname
    · rw [setNode_other he]
      exact h.names j ((hlive j).mp hj) hj0
  · intro j hj
    by_cases he : j=i
    · subst he
      rw [setNode_self]
      exact hfile
    · rw [setNode_other he]
      exact h.files j ((hlive j).mp hj)

theorem FsInv.updateContent (h : FsInv s) (hi : Live s i) (h0 : i≠0)
    (ht : n.type=(s.nodes i).type) (hpar : n.parent=(s.nodes i).parent)
    (hname : n.name=(s.nodes i).name) (hfile : GoodFile n) : FsInv (s.setNode i n) := by
  have hn : nameOf n=nameOf (s.nodes i) := by simp [nameOf,hname]
  refine h.updateNode hi h0 ht hpar ?_ hfile ?_
  · have hg := h.names i hi h0
    simp only [GoodName,hn] at hg ⊢
    rw [hname]
    exact hg
  · intro j hj hne hp he
    rw [hn] at he
    exact hne (h.siblings j i hj hi hp he)

end MyKernel.RamFs
