import Mathlib.Data.List.Perm.Subperm
import MyKernel.RamFs.Tree

/-! `fs_rm_subtree`: the breadth-first search. -/
namespace MyKernel.RamFs
open CString Chains

variable {s : Fs} {root i j p u qh : Nat} {q q' : Queue} {S : List Nat}

/-- What the search has collected so far. -/
structure Collected (s : Fs) (root : Nat) (q : Queue) : Prop where
  start : root∈q.items
  live : ∀ i∈q.items, Live s i
  hangs : ∀ i∈q.items, i=root ∨ ∃ u∈q.items, (s.nodes i).parent=some u
  seen : ∀ i, q.seen i=true ↔ i∈q.items

def Done (s : Fs) (u : Nat) (items : List Nat) : Prop :=
  ∀ i, Live s i → (s.nodes i).parent=some u → i∈items

theorem Collected.add (h : Collected s root q) (hi : Live s i) (hu : u∈q.items) (hp : (s.nodes i).parent=some u) :
    Collected s root ⟨q.items++[i],fun j => if j=i then true else q.seen j⟩ := by
  refine ⟨by simp [h.start],?_,?_,?_⟩
  · intro j hj
    simp only [List.mem_append,List.mem_singleton] at hj
    obtain hj | rfl := hj
    · exact h.live j hj
    · exact hi
  · intro j hj
    simp only [List.mem_append,List.mem_singleton] at hj
    obtain hj | rfl := hj
    · obtain hr | ⟨v,hv,hpv⟩ := h.hangs j hj
      · exact Or.inl hr
      · exact Or.inr ⟨v,by simp [hv],hpv⟩
    · exact Or.inr ⟨u,by simp [hu],hp⟩
  · intro j
    by_cases hj : j=i
    · simp [hj]
    · simp [hj,h.seen]

/-- One row of the search: every child of `u` is in the queue afterwards, which only grew at its end. -/
theorem enqueueChildren_spec (h : Collected s root q) (hu : u∈q.items) (is : List Nat)
    (his : ∀ i∈is, i<FS_MAX_NODES) (he : enqueueChildren s u is q=some q') :
    Collected s root q' ∧ (∃ new, q'.items=q.items++new) ∧
      ∀ i∈is, Live s i → (s.nodes i).parent=some u → i∈q'.items := by
  induction is generalizing q with
  | nil =>
    cases he
    exact ⟨h,⟨[],by simp⟩,by simp⟩
  | cons i is ih =>
    have his' : ∀ j∈is, j<FS_MAX_NODES := fun j hj => his j (by simp [hj])
    have skip : enqueueChildren s u is q=some q' →
        (Live s i → (s.nodes i).parent=some u → i∈q.items) →
        Collected s root q' ∧ (∃ new, q'.items=q.items++new) ∧
          ∀ j∈i::is, Live s j → (s.nodes j).parent=some u → j∈q'.items := by
      intro hrest hhave
      obtain ⟨hc,⟨new,hnew⟩,hall⟩ := ih h hu his' hrest
      refine ⟨hc,⟨new,hnew⟩,?_⟩
      intro j hj hl hp
      obtain rfl | hj := List.mem_cons.mp hj
      · rw [hnew]
        exact List.mem_append_left _ (hhave hl hp)
      · exact hall j hj hl hp
    rw [enqueueChildren] at he
    by_cases hfree : (s.nodes i).type = .free
    · rw [if_pos hfree] at he
      exact skip he (fun hl => absurd hfree hl.2)
    · rw [if_neg hfree] at he
      by_cases hpar : (s.nodes i).parent=some u
      · rw [if_neg (by simp [hpar])] at he
        by_cases hseen : q.seen i=true
        · rw [if_pos hseen] at he
          exact skip he (fun _ _ => (h.seen i).mp hseen)
        · rw [if_neg hseen] at he
          by_cases hfull : FS_MAX_NODES≤q.items.length
          · rw [if_pos hfull] at he
            cases he
          · rw [if_neg hfull] at he
            have hl : Live s i := ⟨his i (by simp),hfree⟩
            obtain ⟨hc,⟨new,hnew⟩,hall⟩ := ih (h.add hl hu hpar) (by simp [hu]) his' he
            refine ⟨hc,⟨i::new,by simp [hnew]⟩,?_⟩
            intro j hj hlj hpj
            obtain rfl | hj := List.mem_cons.mp hj
            · rw [hnew]
              simp
            · exact hall j hj hlj hpj
      · rw [if_pos hpar] at he
        exact skip he (fun _ hp => absurd hp hpar)

theorem bfsLoop_spec (hi : FsInv s) (fuel : Nat) (h : Collected s root q)
    (hdone : ∀ k u, k<qh → q.items[k]?=some u → Done s u q.items) (he : bfsLoop s fuel qh q=some q') :
    Collected s root q' ∧ ∀ u∈q'.items, Done s u q'.items := by
  induction fuel generalizing qh q with
  | zero => simp [bfsLoop] at he
  | succ fuel ih =>
    rw [bfsLoop] at he
    cases hq : q.items[qh]? with
    | none =>
      rw [hq] at he
      cases he
      refine ⟨h,?_⟩
      intro u hu
      obtain ⟨k,hk⟩ := List.getElem?_of_mem hu
      refine hdone k u ?_ hk
      have hlen := List.getElem?_eq_none_iff.mp hq
      obtain ⟨hlt,_⟩ := List.getElem?_eq_some_iff.mp hk
      omega
    | some u =>
      have hu : u∈q.items := List.mem_of_getElem? hq
      simp only [hq] at he
      by_cases hdir : (s.nodes u).type = .dir
      · rw [if_neg (by simp [hdir])] at he
        cases hen : enqueueChildren s u (List.range FS_MAX_NODES) q with
        | none =>
          rw [hen] at he
          cases he
        | some q1 =>
          rw [hen] at he
          obtain ⟨hc,⟨new,hnew⟩,hall⟩ := enqueueChildren_spec h hu _
            (fun i hi => List.mem_range.mp hi) hen
          refine ih hc ?_ he
          intro k v hk hkv i hl hp
          by_cases hkq : k=qh
          · rw [hnew,hkq,List.getElem?_append_left (List.getElem?_eq_some_iff.mp hq).1,hq] at hkv
            cases hkv
            exact hall i (List.mem_range.mpr hl.1) hl hp
          · have hlt : k<q.items.length := by
              have := (List.getElem?_eq_some_iff.mp hq).1
              omega
            rw [hnew,List.getElem?_append_left hlt] at hkv
            rw [hnew]
            exact List.mem_append_left _ (hdone k v (by omega) hkv i hl hp)
      · -- a file has no live child, so its row may be skipped
        rw [if_pos hdir] at he
        refine ih h ?_ he
        intro k v hk hkv i hl hp
        by_cases hkq : k=qh
        · rw [hkq,hq] at hkv
          cases hkv
          exact absurd (hi.live_parent hl hp).2 hdir
        · exact hdone k v (by omega) hkv i hl hp

theorem live_length_le {l : List Nat} (hn : l.Nodup) (hl : ∀ i∈l, Live s i) : l.length≤FS_MAX_NODES := by
  have hsub : l ⊆ List.range FS_MAX_NODES := fun i hi => List.mem_range.mpr (hl i hi).1
  have hlen := (List.subperm_of_subset hn hsub).length_le
  rwa [List.length_range] at hlen

theorem enqueueChildren_some (h : Collected s root q) (hn : q.items.Nodup) (hu : u∈q.items)
    (is : List Nat) (his : ∀ i∈is, i<FS_MAX_NODES) : ∃ q', enqueueChildren s u is q=some q' ∧ q'.items.Nodup := by
  induction is generalizing q with
  | nil => exact ⟨q,rfl,hn⟩
  | cons i is ih =>
    have his' : ∀ j∈is, j<FS_MAX_NODES := fun j hj => his j (by simp [hj])
    rw [enqueueChildren]
    by_cases hfree : (s.nodes i).type = .free
    · rw [if_pos hfree]
      exact ih h hn hu his'
    rw [if_neg hfree]
    by_cases hpar : (s.nodes i).parent=some u
    · rw [if_neg (by simp [hpar])]
      by_cases hseen : q.seen i=true
      · rw [if_pos hseen]
        exact ih h hn hu his'
      rw [if_neg hseen]
      have hl : Live s i := ⟨his i (by simp),hfree⟩
      have hi : i∉q.items := fun hm => hseen ((h.seen i).mpr hm)
      have hadd := h.add hl hu hpar
      have hnodup : (q.items++[i]).Nodup := by
        rw [List.nodup_append]
        refine ⟨hn,by simp,?_⟩
        intro j hj k hk
        rw [List.mem_singleton.mp hk]
        exact fun he => hi (he ▸ hj)
      have hlen := live_length_le hnodup hadd.live
      rw [List.length_append,List.length_singleton] at hlen
      rw [if_neg (by omega)]
      exact ih hadd hnodup (by simp [hu]) his'
    · rw [if_pos hpar]
      exact ih h hn hu his'

theorem bfsLoop_some (fuel : Nat) (h : Collected s root q) (hn : q.items.Nodup)
    (hqh : qh≤q.items.length) (hf : FS_MAX_NODES<fuel+qh) : ∃ q', bfsLoop s fuel qh q=some q' := by
  induction fuel generalizing qh q with
  | zero =>
    have hlen := live_length_le hn h.live
    omega
  | succ fuel ih =>
    rw [bfsLoop]
    cases hq : q.items[qh]? with
    | none => exact ⟨q,rfl⟩
    | some u =>
      have hu : u∈q.items := List.mem_of_getElem? hq
      have hlt := (List.getElem?_eq_some_iff.mp hq).1
      by_cases hdir : (s.nodes u).type = .dir
      · obtain ⟨q1,hen,hn1⟩ := enqueueChildren_some h hn hu (List.range FS_MAX_NODES)
          (fun i hi => List.mem_range.mp hi)
        obtain ⟨hc,⟨new,hnew⟩,_⟩ := enqueueChildren_spec h hu _
          (fun i hi => List.mem_range.mp hi) hen
        simp only [hdir,ne_eq,not_true,if_false,hen]
        apply ih hc hn1 _ (by omega)
        rw [hnew,List.length_append]
        omega
      · simp only [hdir,ne_eq,not_false_eq_true,if_true]
        exact ih h hn (by omega) (by omega)

/-- A set of nodes that can be cut off: closed under children, hanging on `root`. -/
structure Subtree (s : Fs) (root : Nat) (S : List Nat) : Prop where
  start : root∈S
  live : ∀ i∈S, Live s i
  hangs : ∀ i∈S, i=root ∨ ∃ u∈S, (s.nodes i).parent=some u
  closed : ∀ u∈S, ∀ i, Live s i → (s.nodes i).parent=some u → i∈S

theorem Subtree.not_root (h : Subtree s root S) (hi : FsInv s) (h0 : root≠0) : 0∉S := by
  intro hz
  obtain hr | ⟨u,_,hu⟩ := h.hangs 0 hz
  · exact h0 hr.symm
  · rw [hi.root.2] at hu
    cases hu

theorem Subtree.mem_iff (h : Subtree s root S) {path : List Nat}
    (hp : ChainFrom (parentOf s) (some i) path) (hlive : ∀ j∈path, Live s j) : i∈S ↔ root∈path := by
  induction path generalizing i with
  | nil => exact absurd hp (by simp [ChainFrom])
  | cons j path ih =>
    obtain ⟨hj,ht⟩ := hp
    cases hj
    have hl := hlive j (by simp)
    have hrest := fun k hk => hlive k (List.mem_cons_of_mem j hk)
    constructor
    · intro hin
      obtain rfl | ⟨u,hu,hpu⟩ := h.hangs j hin
      · simp
      · rw [parentOf,hpu] at ht
        exact List.mem_cons_of_mem j ((ih ht hrest).mp hu)
    · intro hr
      obtain rfl | hr := List.mem_cons.mp hr
      · exact h.start
      · cases hpar : (s.nodes j).parent with
        | none =>
          rw [parentOf,hpar] at ht
          cases path with
          | nil => simp at hr
          | cons k path => cases ht.1
        | some u =>
          rw [parentOf,hpar] at ht
          exact h.closed u ((ih ht hrest).mpr hr) j hl hpar

theorem inSubtreeLoop_spec {path : List Nat} {o : Option Nat} (idx fuel : Nat)
    (hp : ChainFrom (parentOf s) o path) (hf : path.length<fuel) :
    inSubtreeLoop s idx fuel o=some (decide (idx∈path)) := by
  induction path generalizing o fuel with
  | nil =>
    have ho : o=none := hp
    subst ho
    cases fuel <;> simp [inSubtreeLoop]
  | cons j path ih =>
    obtain ⟨hj,ht⟩ := hp
    subst hj
    cases fuel with
    | zero => simp at hf
    | succ fuel =>
      rw [inSubtreeLoop]
      by_cases hji : j=idx
      · simp [hji]
      · rw [if_neg hji]
        have hrec := ih fuel ht (by simpa using hf)
        rw [parentOf] at hrec
        rw [hrec]
        simp [Ne.symm hji]

theorem foldl_freeSlot_nodes (S : List Nat) (s : Fs) (i : Nat) :
    (i∈S → ((S.foldl fsFreeSlot s).nodes i).type = .free) ∧
    (i∉S → (S.foldl fsFreeSlot s).nodes i=s.nodes i) ∧ (S.foldl fsFreeSlot s).cwd=s.cwd := by
  induction S generalizing s with
  | nil => simp
  | cons j S ih =>
    obtain ⟨h1,h2,h3⟩ := ih (fsFreeSlot s j)
    refine ⟨?_,?_,h3⟩
    · intro hi
      by_cases hS : i∈S
      · exact h1 hS
      · obtain rfl | hi := List.mem_cons.mp hi
        · simp only [List.foldl_cons]
          rw [h2 hS]
          simp [fsFreeSlot,setNode_self]
        · exact absurd hi hS
    · intro hi
      simp only [List.mem_cons,not_or] at hi
      simp only [List.foldl_cons]
      rw [h2 hi.2]
      simp [fsFreeSlot,setNode_other hi.1]

theorem FsInv.cut (hi : FsInv s) (h : Subtree s root S) (h0 : root≠0) (hc : s.cwd∉S)
    {t : Fs} (hfree : ∀ i∈S, (t.nodes i).type = .free)
    (hkeep : ∀ i, i∉S → t.nodes i=s.nodes i) (hcwd : t.cwd=s.cwd) : FsInv t := by
  have hz := h.not_root hi h0
  have hlive : ∀ i, Live t i → i∉S ∧ Live s i := by
    intro i hl
    have hn : i∉S := fun hin => hl.2 (hfree i hin)
    exact ⟨hn,by rw [Live,hkeep i hn] at hl; exact hl⟩
  have hdir : ∀ i, i∉S → LiveDir s i → LiveDir t i := by
    intro i hn hd
    rw [LiveDir,hkeep i hn]
    exact hd
  refine ⟨?_,?_,?_,?_,?_,?_,?_⟩
  · rw [hkeep 0 hz]
    exact hi.root
  · intro i hl hne
    obtain ⟨hn,hl'⟩ := hlive i hl
    obtain ⟨p,hp,hd⟩ := hi.parents i hl' hne
    exact ⟨p,by rw [hkeep i hn,hp],hdir p (fun hin => hn (h.closed p hin i hl' hp)) hd⟩
  · obtain ⟨depth,hd⟩ := hi.ranked
    refine ⟨depth,?_⟩
    intro i p hl hp
    obtain ⟨hn,hl'⟩ := hlive i hl
    rw [hkeep i hn] at hp
    exact hd i p hl' hp
  · rw [hcwd]
    exact hdir _ hc hi.cwd
  · intro i j hl hl' hp hn
    obtain ⟨hi1,hi2⟩ := hlive i hl
    obtain ⟨hj1,hj2⟩ := hlive j hl'
    rw [hkeep i hi1,hkeep j hj1] at hp hn
    exact hi.siblings i j hi2 hj2 hp hn
  · intro i hl hne
    obtain ⟨hn,hl'⟩ := hlive i hl
    rw [hkeep i hn]
    exact hi.names i hl' hne
  · intro i hl
    obtain ⟨hn,hl'⟩ := hlive i hl
    rw [hkeep i hn]
    exact hi.files i hl'

theorem fsRmSubtree_spec (hi : FsInv s) (hl : Live s root) (h0 : root≠0) :
    ∃ S t, Subtree s root S ∧ fsRmSubtree s root=some (.ok,t) ∧ FsInv t ∧
      (∀ i∈S, (t.nodes i).type = .free) ∧ ∀ i, i∉S → t.nodes i=s.nodes i := by
  have hb : ¬ FS_MAX_NODES≤root := Nat.not_le.mpr hl.1
  have h0' : ¬ root=FS_ROOT_INDEX := h0
  rw [fsRmSubtree,if_neg hb,if_neg hl.2,if_neg h0']
  have hstart : Collected s root ⟨[root],fun i => i == root⟩ := by
    refine ⟨by simp,?_,?_,by simp⟩
    · intro i hm
      rw [List.mem_singleton.mp hm]
      exact hl
    · intro i hm
      exact Or.inl (List.mem_singleton.mp hm)
  obtain ⟨q,hq⟩ := bfsLoop_some (FS_MAX_NODES+1) hstart (by simp)
    (Nat.zero_le _) (by omega)
  obtain ⟨hc,hdone⟩ := bfsLoop_spec hi _ hstart (by simp) hq
  have hsub : Subtree s root q.items :=
    ⟨hc.start,hc.live,hc.hangs,fun u hu i hli hpi => hdone u hu i hli hpi⟩
  obtain ⟨path,hp,_,hlp⟩ := hi.path hi.cwd.live
  have hin := inSubtreeLoop_spec root (FS_MAX_NODES+1) hp (by
    have := live_length_le hp.nodup hlp
    omega)
  have hmem := hsub.mem_iff hp hlp
  simp only [hq,fsCwdInSubtree,hin,Option.map_some]
  by_cases hcwd : root∈path
  · -- the working directory moves to the parent, which lies above the subtree
    obtain ⟨p,hpar,hd⟩ := hi.parents root hl h0
    have hnp : p∉q.items := by
      obtain ⟨pp,hpp,_,hlpp⟩ := hi.path hd.live
      intro hin
      have hr := (hsub.mem_iff hpp hlpp).mp hin
      have hfull : ChainFrom (parentOf s) (some root) (root::pp) :=
        ⟨rfl,by rw [parentOf,hpar]; exact hpp⟩
      exact (List.nodup_cons.mp hfull.nodup).1 hr
    have hi' := hi.setCwd hd
    have hsub' : Subtree { s with cwd := p } root q.items :=
      ⟨hsub.start,hsub.live,hsub.hangs,hsub.closed⟩
    simp only [hcwd,decide_true,if_true,hpar,Option.getD_some]
    have hfold := foldl_freeSlot_nodes q.items.reverse { s with cwd := p }
    have hfree : ∀ i∈q.items, ((q.items.reverse.foldl fsFreeSlot { s with cwd := p }).nodes i).type =
        .free := fun i hm => (hfold i).1 (by simpa using hm)
    have hkeep : ∀ i, i∉q.items → (q.items.reverse.foldl fsFreeSlot { s with cwd := p }).nodes i =
        s.nodes i := fun i hm => (hfold i).2.1 (by simpa using hm)
    exact ⟨q.items,_,hsub,rfl,hi'.cut hsub' h0 hnp hfree hkeep (hfold 0).2.2,hfree,hkeep⟩
  · simp only [hcwd,decide_false,Bool.false_eq_true,if_false]
    have hfold := foldl_freeSlot_nodes q.items.reverse s
    have hfree : ∀ i∈q.items, ((q.items.reverse.foldl fsFreeSlot s).nodes i).type = .free :=
      fun i hm => (hfold i).1 (by simpa using hm)
    have hkeep : ∀ i, i∉q.items → (q.items.reverse.foldl fsFreeSlot s).nodes i=s.nodes i :=
      fun i hm => (hfold i).2.1 (by simpa using hm)
    exact ⟨q.items,_,hsub,rfl,hi.cut hsub h0 (fun hin => hcwd (hmem.mp hin)) hfree hkeep
      (hfold 0).2.2,hfree,hkeep⟩

theorem fsRmSubtree_inv (hi : FsInv s) (idx : Nat) : ∃ r t, fsRmSubtree s idx=some (r,t) ∧ FsInv t := by
  by_cases hb : FS_MAX_NODES ≤ idx
  · exact ⟨_,_,by rw [fsRmSubtree,if_pos hb],hi⟩
  by_cases hf : (s.nodes idx).type = .free
  · exact ⟨_,_,by rw [fsRmSubtree,if_neg hb,if_pos hf],hi⟩
  by_cases h0 : idx=FS_ROOT_INDEX
  · exact ⟨_,_,by rw [fsRmSubtree,if_neg hb,if_neg hf,if_pos h0],hi⟩
  obtain ⟨_,t,_,hrm,ht,_⟩ := fsRmSubtree_spec hi ⟨by omega,hf⟩ h0
  exact ⟨_,t,hrm,ht⟩

end MyKernel.RamFs
