import MyKernel.Lib.Runs
import MyKernel.RamFs.Subtree

/-! Every mutator keeps the tree, and so does every run of calls from
`fs_init`. -/
namespace MyKernel.RamFs
open CString Chains Runs

variable {s t : Fs} {i : Nat} {n : FsNode} {name text data src dst : List UInt8} {r : FsResult}

theorem goodFile_of_dir (h : n.type = .dir) : GoodFile n := by
  intro hf
  rw [h] at hf
  cases hf

theorem FsInv.create (hi : FsInv s) (hn : 0∉name) (hv : fsIsValidName name=true)
    (hfind : fsFindChild s s.cwd name=none) (ha : fsAllocNode s=some i)
    (hname : n.name=kStrcpyTruncate (s.nodes i).name name FS_NAME_MAX)
    (hpar : n.parent=some s.cwd) (hfile : GoodFile n) : FsInv (s.setNode i n) := by
  obtain ⟨hlt,hfree⟩ := allocNode_some ha
  obtain ⟨he,hg⟩ := goodName_of_copy hv hn _ hname
  refine hi.addNode hfree hlt hi.cwd hpar hg hfile ?_
  intro j hj hp
  rw [he]
  exact hi.fresh_name hn hfind hj hp

/-- The form of `fs_mkdir`, of `fs_touch` and of the end of `fs_cp`. -/
def createNode (s : Fs) (name : List UInt8) (n : Nat → FsNode) : FsResult × Fs :=
  if !fsIsValidName name then (.invalidName,s)
  else if fsFindChild s s.cwd name≠none then (.alreadyExists,s)
  else match fsAllocNode s with
    | none => (.noSpace,s)
    | some idx => (.ok,s.setNode idx (n idx))

theorem createNode_cases (s : Fs) (name : List UInt8) (n : Nat → FsNode) :
    (∃ r, r ≠ .ok ∧ createNode s name n=(r,s)) ∨
      ∃ idx, fsIsValidName name=true ∧ fsFindChild s s.cwd name=none ∧ fsAllocNode s=some idx ∧
        createNode s name n=(.ok,s.setNode idx (n idx)) := by
  unfold createNode
  cases hv : fsIsValidName name with
  | false => exact .inl ⟨.invalidName,nofun,rfl⟩
  | true =>
    rw [if_neg (by decide)]
    cases hf : fsFindChild s s.cwd name with
    | some j => exact .inl ⟨.alreadyExists,nofun,rfl⟩
    | none =>
      rw [if_neg (not_not.mpr rfl)]
      cases ha : fsAllocNode s with
      | none => exact .inl ⟨.noSpace,nofun,rfl⟩
      | some idx => exact .inr ⟨idx,rfl,rfl,rfl,rfl⟩

theorem FsInv.createNode {n : Nat → FsNode} (hi : FsInv s) (hn : 0∉name)
    (hname : ∀ i, (n i).name=kStrcpyTruncate (s.nodes i).name name FS_NAME_MAX)
    (hpar : ∀ i, (n i).parent=some s.cwd) (hfile : ∀ i, GoodFile (n i)) : FsInv (createNode s name n).2 := by
  rcases createNode_cases s name n with ⟨r,_,hout⟩ | ⟨idx,hv,hf,ha,hout⟩
  · rwa [hout]
  · rw [hout]
    exact hi.create hn hv hf ha (hname idx) (hpar idx) (hfile idx)

theorem fsMkdir_inv (hi : FsInv s) (hn : 0∉name) : FsInv (fsMkdir s name).2 :=
  hi.createNode hn (fun _ => rfl) (fun _ => rfl) fun _ => goodFile_of_dir rfl

theorem fsTouch_inv (hi : FsInv s) (hn : 0∉name) : FsInv (fsTouch s name).2 :=
  hi.createNode hn (fun _ => rfl) (fun _ => rfl) fun _ _ => ⟨by simp,by simp [setByte]⟩

theorem fsCd_inv (hi : FsInv s) : FsInv (fsCd s name).2 := by
  rw [fsCd]
  split
  · exact hi
  · split
    · cases hp : (s.nodes s.cwd).parent with
      | none => exact hi
      | some p => exact hi.setCwd (hi.live_parent hi.cwd.live hp)
    · split
      · exact hi.setCwd hi.liveRoot
      · cases hf : fsFindChild s s.cwd name with
        | none => exact hi
        | some j =>
          simp only
          split
          · exact hi
          · rename_i hd
            exact hi.setCwd ⟨(findChild_some hf).1.1,by simpa using hd⟩

theorem fsRm_inv (hi : FsInv s) : ∃ r t, fsRm s name=some (r,t) ∧ FsInv t := by
  rw [fsRm]
  split
  · exact ⟨_,_,rfl,hi⟩
  · split
    · exact ⟨_,_,rfl,hi⟩
    · cases hf : fsFindChild s s.cwd name with
      | none => exact ⟨_,_,rfl,hi⟩
      | some j =>
        simp only
        split
        · exact ⟨_,_,rfl,hi⟩
        · exact fsRmSubtree_inv hi j

theorem fsRmRf_inv (hi : FsInv s) : ∃ r t, fsRmRf s name=some (r,t) ∧ FsInv t := by
  rw [fsRmRf]
  split
  · exact ⟨_,_,rfl,hi⟩
  · split
    · exact ⟨_,_,rfl,hi⟩
    · cases hf : fsFindChild s s.cwd name with
      | none => exact ⟨_,_,rfl,hi⟩
      | some j => exact fsRmSubtree_inv hi j

theorem findOrTouch_spec {o : Option Nat} (hi : FsInv s) (hn : 0∉name) (h : findOrTouch s name=(r,o,t)) :
    FsInv t ∧ ∀ i, o=some i → Live t i ∧ i≠0 := by
  rw [findOrTouch] at h
  cases hf : fsFindChild s s.cwd name with
  | some j =>
    rw [hf] at h
    cases h
    refine ⟨hi,?_⟩
    rintro i ⟨⟩
    exact ⟨(findChild_some hf).1,hi.findChild_ne_zero hf⟩
  | none =>
    rw [hf] at h
    have ht := fsTouch_inv hi hn
    simp only at h
    split at h
    · cases h
      exact ⟨ht,by simp⟩
    · cases h
      refine ⟨ht,?_⟩
      intro i hfi
      exact ⟨(findChild_some hfi).1,ht.findChild_ne_zero hfi⟩

theorem fsWriteBin_inv (hi : FsInv s) (hn : 0∉name) : FsInv (fsWriteBin s name data).2 := by
  rw [fsWriteBin]
  split
  · exact hi
  · rename_i hlen
    have hlt : data.length<8192 := by simpa [FS_FILE_MAX] using hlen
    split
    · rename_i t he
      exact (findOrTouch_spec hi hn he).1
    · rename_i idx t he
      obtain ⟨ht,hidx⟩ := findOrTouch_spec hi hn he
      obtain ⟨hl,h0⟩ := hidx idx rfl
      split
      · exact ht
      · exact ht.updateContent hl h0 rfl rfl rfl (fun _ => ⟨by simp only; omega,by simp [setByte]⟩)
    · rename_i r o t _ _ he
      exact (findOrTouch_spec hi hn he).1

theorem appendLoop_le {pos : Nat} (content : Nat → UInt8) (h : pos≤8191) : (appendLoop text content pos).2≤8191 := by
  induction text generalizing content pos with
  | nil => exact h
  | cons c cs ih =>
    rw [appendLoop]
    split
    · rename_i hlt
      simp only [FS_FILE_MAX] at hlt
      exact ih _ (by omega)
    · exact h

theorem appendText_good (h : n.contentLen≤8191) :
    (appendText n text).contentLen≤8191 ∧
      (appendText n text).content (appendText n text).contentLen=0 := by
  refine ⟨?_,by simp [appendText,setByte]⟩
  rw [appendText]
  by_cases hnl : 0<n.contentLen ∧ n.contentLen<FS_FILE_MAX - 1
  · simp only [if_pos hnl]
    simp only [FS_FILE_MAX] at hnl
    exact appendLoop_le _ (by omega)
  · simp only [if_neg hnl]
    exact appendLoop_le _ h

theorem fsAppend_inv (hi : FsInv s) (hn : 0∉name) : FsInv (fsAppend s name text).2 := by
  rw [fsAppend]
  split
  · rename_i t he
    exact (findOrTouch_spec hi hn he).1
  · rename_i idx t he
    obtain ⟨ht,hidx⟩ := findOrTouch_spec hi hn he
    obtain ⟨hl,h0⟩ := hidx idx rfl
    split
    · exact ht
    · rename_i hty
      have hfile := ht.files idx hl (by simpa using hty)
      exact ht.updateContent hl h0 rfl rfl rfl (fun _ => appendText_good hfile.1)
  · rename_i r o t _ _ he
    exact (findOrTouch_spec hi hn he).1

theorem fsCp_inv (hi : FsInv s) (hd : 0∉dst) : FsInv (fsCp s src dst).2 := by
  rw [fsCp]
  cases hs : fsFindChild s s.cwd src with
  | none => exact hi
  | some j =>
    simp only
    split
    · exact hi
    · rename_i hty
      have hfile := hi.files j (findChild_some hs).1 (by simpa using hty)
      exact hi.createNode hd (fun _ => rfl) (fun _ => rfl) fun _ _ => ⟨hfile.1,by simp [setByte]⟩

theorem fsMv_inv (hi : FsInv s) (hd : 0∉dst) : FsInv (fsMv s src dst).2 := by
  rw [fsMv]
  cases hs : fsFindChild s s.cwd src with
  | none => exact hi
  | some j =>
    obtain ⟨hl,hp,_⟩ := findChild_some hs
    cases hv : fsIsValidName dst with
    | false => simpa using hi
    | true =>
      simp only [Bool.not_true,Bool.false_eq_true,if_false]
      cases hf : fsFindChild s s.cwd dst with
      | some k => simpa using hi
      | none =>
        simp only [ne_eq,not_true,if_false]
        obtain ⟨he,hg⟩ := @goodName_of_copy { s.nodes j with
          name := kStrcpyTruncate (s.nodes j).name dst FS_NAME_MAX } dst hv hd _ rfl
        refine hi.updateNode hl (hi.findChild_ne_zero hs) rfl rfl hg (hi.files j hl) ?_
        intro k hk _ hpk
        rw [he]
        exact hi.fresh_name hd hf hk (by rw [hpk,hp])

/-- Every stretch of the path without a slash fits the component buffer. -/
def ComponentsShort (path : List UInt8) : Prop :=
  ∀ pre comp post, path=pre++comp++post → (∀ b∈comp, b≠0x2F) → comp.length<48

theorem ComponentsShort.suffix {pre rest : List UInt8} (h : ComponentsShort (pre++rest)) : ComponentsShort rest := by
  intro a comp b he hc
  exact h (pre++a) comp b (by simp [he]) hc

theorem ComponentsShort.head {path : List UInt8} (h : ComponentsShort path) :
    (path.takeWhile (fun b => b != 0x2F)).length<48 := by
  refine h [] _ (path.dropWhile (fun b => b != 0x2F)) (by simp [List.takeWhile_append_dropWhile]) ?_
  intro b hb
  have hall := List.all_takeWhile (p := fun b : UInt8 => b != 0x2F) (l := path)
  simpa using List.all_eq_true.mp hall b hb

theorem findChild_setNode_new (hf : fsFindChild s p name=none) (hidx : idx<FS_MAX_NODES)
    (htype : n.type ≠ .free) (hparent : n.parent=some p) (hname : kStreq n.name name=true) :
    fsFindChild (s.setNode idx n) p name=some idx := by
  cases hfound : fsFindChild (s.setNode idx n) p name with
  | none =>
    have hlive : Live (s.setNode idx n) idx := ⟨hidx,by rw [setNode_self]; exact htype⟩
    have hno := findChild_none hfound hlive (by rw [setNode_self]; exact hparent)
    rw [setNode_self,hname] at hno
    cases hno
  | some j =>
    by_cases hj : j=idx
    · rw [hj]
    · obtain ⟨hlive,hp,hstreq⟩ := findChild_some hfound
      rw [setNode_other hj] at hp hstreq
      rw [findChild_none hf ((live_setNode_other hj).mp hlive) hp] at hstreq
      cases hstreq

theorem length_of_valid (hv : fsIsValidName name=true) : name.length<FS_NAME_MAX := by
  by_contra hlen
  simp [fsIsValidName,Nat.not_lt.mp hlen] at hv

/-- What a successful `fs_touch` or `fs_mkdir` did. -/
structure Created (s : Fs) (name : List UInt8) (idx : Nat) (n : FsNode) : Prop where
  valid : fsIsValidName name=true
  fresh : fsFindChild s s.cwd name=none
  slot : fsAllocNode s=some idx
  type : n.type ≠ .free
  name : n.name=kStrcpyTruncate (s.nodes idx).name name FS_NAME_MAX
  parent : n.parent=some s.cwd

theorem Created.found (h : Created s name idx n) (hn : 0∉name) :
    fsFindChild (s.setNode idx n) s.cwd name=some idx := by
  apply findChild_setNode_new h.fresh (allocNode_some h.slot).1 h.type h.parent
  rw [h.name]
  exact (streq_iff (strcpyTruncate_isCString _ hn (length_of_valid h.valid)) hn).mpr rfl

def madeDir (s : Fs) (name : List UInt8) (idx : Nat) : FsNode :=
  { s.nodes idx with
    type := .dir
    name := kStrcpyTruncate (s.nodes idx).name name FS_NAME_MAX
    parent := some s.cwd }

def touched (s : Fs) (name : List UInt8) (idx : Nat) : FsNode where
  type := .file
  name := kStrcpyTruncate (s.nodes idx).name name FS_NAME_MAX
  parent := some s.cwd
  contentLen := 0
  content := setByte (s.nodes idx).content 0 0

theorem fsMkdir_found (hn : 0∉name) (hok : (fsMkdir s name).1 = .ok) :
    (fsMkdir s name).2.cwd=s.cwd ∧
      ∃ idx, fsFindChild (fsMkdir s name).2 s.cwd name=some idx := by
  rcases createNode_cases s name (madeDir s name) with ⟨r,hr,hout⟩ | ⟨idx,hv,hf,ha,hout⟩
  · exact absurd ((congrArg Prod.fst hout).symm.trans hok) hr
  · rw [show fsMkdir s name=_ from hout]
    exact ⟨rfl,idx,Created.found ⟨hv,hf,ha,nofun,rfl,rfl⟩ hn⟩

theorem drop_slash_suffix (path : List UInt8) : ∃ pre, path=pre++(path.dropWhile (fun b => b != 0x2F)).drop 1 := by
  refine ⟨path.takeWhile (fun b => b != 0x2F)++(path.dropWhile (fun b => b != 0x2F)).take 1,?_⟩
  rw [List.append_assoc,List.take_append_drop,List.takeWhile_append_dropWhile]

theorem drop_slash_length (c : UInt8) (cs : List UInt8) :
    (((c::cs).dropWhile (fun b => b != 0x2F)).drop 1).length≤cs.length := by
  rw [List.length_drop]
  have h : ((c::cs).dropWhile (fun b => b != 0x2F)).length≤(c::cs).length :=
    (List.dropWhile_sublist _).length_le
  simp only [List.length_cons] at h
  omega

theorem fsMkdir_liveDir {j : Nat} (h : LiveDir s j) : LiveDir (fsMkdir s name).2 j := by
  rw [fsMkdir]
  split
  · exact h
  · split
    · exact h
    · cases ha : fsAllocNode s with
      | none => exact h
      | some k =>
        have hne : j≠k := by
          rintro rfl
          have hfree := (allocNode_some ha).2
          rw [h.2] at hfree
          cases hfree
        exact ⟨h.1,by rw [setNode_other hne]; exact h.2⟩

/-- The walk of `fs_mkdir_p` ends, and the working directory it saved is still a
directory when it is restored. -/
theorem mkdirPLoop_inv {saved fuel : Nat} {path : List UInt8} (hi : FsInv s)
    (hs : LiveDir s saved) (hp : 0∉path) (hshort : ComponentsShort path) (hf : path.length≤fuel) :
    ∃ r t, mkdirPLoop saved fuel path s=some (r,t) ∧ FsInv t := by
  induction fuel generalizing path s with
  | zero =>
    cases path with
    | nil => exact ⟨_,_,by rw [mkdirPLoop],hi.setCwd hs⟩
    | cons c cs => simp at hf
  | succ fuel ih =>
    cases path with
    | nil => exact ⟨_,_,by rw [mkdirPLoop],hi.setCwd hs⟩
    | cons c cs =>
      have hcomp := hshort.head
      obtain ⟨pre,hpre⟩ := drop_slash_suffix (c::cs)
      have hrest : ComponentsShort (((c::cs).dropWhile (fun b => b != 0x2F)).drop 1) :=
        @ComponentsShort.suffix pre _ (hpre ▸ hshort)
      have hp' : 0∉((c::cs).dropWhile (fun b => b != 0x2F)).drop 1 := by
        intro hm
        exact hp (hpre ▸ List.mem_append_right pre hm)
      have hf' := drop_slash_length c cs
      have hn : 0∉(c::cs).takeWhile (fun b => b != 0x2F) := by
        intro hm
        exact hp ((List.takeWhile_sublist _).mem hm)
      have hfuel : (((c::cs).dropWhile (fun b => b != 0x2F)).drop 1).length≤fuel := by
        simp only [List.length_cons] at hf
        omega
      rw [mkdirPLoop]
      generalize (c::cs).takeWhile (fun b => b != 0x2F)=comp at hcomp hn ⊢
      generalize ((c::cs).dropWhile (fun b => b != 0x2F)).drop 1=rest at hrest hp' hfuel ⊢
      simp only [FS_NAME_MAX,if_neg (Nat.not_le.mpr hcomp)]
      split
      · exact ih hi hs hp' hrest hfuel
      · cases hfind : fsFindChild s s.cwd comp with
        | some idx =>
          simp only
          split
          · exact ⟨_,_,rfl,hi.setCwd hs⟩
          · rename_i hd
            have hdir : LiveDir s idx := ⟨(findChild_some hfind).1.1,by simpa using hd⟩
            exact ih (hi.setCwd hdir) hs hp' hrest hfuel
        | none =>
          have hmk := fsMkdir_inv hi hn
          have hs' : LiveDir (fsMkdir s comp).2 saved := fsMkdir_liveDir hs
          simp only
          split
          · exact ⟨_,_,rfl,hmk.setCwd hs'⟩
          · rename_i hok
            obtain ⟨hcwd,idx,hidx⟩ := fsMkdir_found hn (by simpa using hok)
            rw [hcwd,hidx]
            simp only
            split
            · exact ⟨_,_,rfl,hmk.setCwd hs'⟩
            · rename_i hd
              have hdir : LiveDir (fsMkdir s comp).2 idx :=
                ⟨(findChild_some hidx).1.1,by simpa using hd⟩
              exact ih (hmk.setCwd hdir) hs' hp' hrest hfuel

theorem fsMkdirP_inv {path : List UInt8} (hi : FsInv s) (hp : 0∉path)
    (hshort : ComponentsShort path) : ∃ r t, fsMkdirP s path=some (r,t) ∧ FsInv t := by
  cases path with
  | nil => exact ⟨_,_,rfl,hi⟩
  | cons c cs =>
    rw [fsMkdirP]
    split
    · exact ⟨_,_,rfl,hi⟩
    · refine mkdirPLoop_inv (hi.setCwd hi.liveRoot) hi.cwd ?_ ?_ (Nat.le_refl _)
      · intro hm
        exact hp (List.mem_cons_of_mem c hm)
      · exact @ComponentsShort.suffix [c] cs hshort

theorem rootOnly_inv {nodes : Nat → FsNode} (hroot : (nodes 0).type = .dir)
    (hpar : (nodes 0).parent=none) (hfree : ∀ i, i≠0 → (nodes i).type = .free) : FsInv ⟨nodes,0⟩ := by
  have hlive : ∀ i, Live ⟨nodes,0⟩ i → i=0 := by
    intro i hl
    by_contra h0
    exact hl.2 (hfree i h0)
  refine ⟨⟨hroot,hpar⟩,?_,⟨fun _ => 0,?_⟩,⟨Nat.zero_lt_succ _,hroot⟩,?_,?_,?_⟩
  · intro i hl h0
    exact absurd (hlive i hl) h0
  · intro i p hl hp
    rw [hlive i hl,hpar] at hp
    cases hp
  · intro i j hl hj _ _
    rw [hlive i hl,hlive j hj]
  · intro i hl h0
    exact absurd (hlive i hl) h0
  · intro i hl
    rw [hlive i hl]
    exact goodFile_of_dir hroot

theorem fsInit_inv (s : Fs) : FsInv (fsInit s) := by
  rw [fsInit]
  refine fsCd_inv (fsMkdir_inv (fsCd_inv (fsMkdir_inv (fsMkdir_inv (fsMkdir_inv ?_ ?_) ?_) ?_)) ?_)
  · refine rootOnly_inv (by simp [Fs.setNode,FS_ROOT_INDEX]) (by simp [Fs.setNode,FS_ROOT_INDEX]) ?_
    intro i h0
    simp [Fs.setNode,FS_ROOT_INDEX,h0]
  all_goals decide

inductive FsCall where
  | mkdir (name : CStr)
  | touch (name : CStr)
  | cd (name : CStr)
  | rm (name : CStr)
  | rmRf (name : CStr)
  | write (name text : CStr)
  | writeBin (name : CStr) (data : List UInt8)
  | append (name text : CStr)
  | cp (src dst : CStr)
  | mv (src dst : CStr)
  | mkdirP (path : CStr)

def Fs.call (s : Fs) : FsCall → Option (FsResult × Fs)
  | .mkdir name => some (fsMkdir s name.bytes)
  | .touch name => some (fsTouch s name.bytes)
  | .cd name => some (fsCd s name.bytes)
  | .rm name => fsRm s name.bytes
  | .rmRf name => fsRmRf s name.bytes
  | .write name text => some (fsWrite s name.bytes text.bytes)
  | .writeBin name data => some (fsWriteBin s name.bytes data)
  | .append name text => some (fsAppend s name.bytes text.bytes)
  | .cp src dst => some (fsCp s src.bytes dst.bytes)
  | .mv src dst => some (fsMv s src.bytes dst.bytes)
  | .mkdirP path => fsMkdirP s path.bytes

/-- `fs_mkdir_p` ends each component with an unchecked store, so only components that fit are allowed. -/
def FsCall.Allowed : FsCall → Prop
  | .mkdirP path => ComponentsShort path.bytes
  | _ => True

def FsBooted (s : Fs) : Prop := ∃ old, s=fsInit old

def FsStepped (s : Fs) (k : FsCall) (t : Fs) : Prop :=
  k.Allowed ∧ ∃ r, s.call k=some (r,t)

def FsReachable : Fs → Prop := Reachable FsBooted FsStepped

theorem call_inv (hi : FsInv s) {k : FsCall} (hk : k.Allowed) : ∃ r t, s.call k=some (r,t) ∧ FsInv t := by
  cases k with
  | mkdir name => exact ⟨_,_,rfl,fsMkdir_inv hi name.nul_free⟩
  | touch name => exact ⟨_,_,rfl,fsTouch_inv hi name.nul_free⟩
  | cd name => exact ⟨_,_,rfl,fsCd_inv hi⟩
  | rm name => exact fsRm_inv hi
  | rmRf name => exact fsRmRf_inv hi
  | write name text => exact ⟨_,_,rfl,fsWriteBin_inv hi name.nul_free⟩
  | writeBin name data => exact ⟨_,_,rfl,fsWriteBin_inv hi name.nul_free⟩
  | append name text => exact ⟨_,_,rfl,fsAppend_inv hi name.nul_free⟩
  | cp src dst => exact ⟨_,_,rfl,fsCp_inv hi dst.nul_free⟩
  | mv src dst => exact ⟨_,_,rfl,fsMv_inv hi dst.nul_free⟩
  | mkdirP path => exact fsMkdirP_inv hi path.nul_free hk

theorem fsReachable_inv (hr : FsReachable s) : FsInv s := by
  refine hr.invariant FsInv ?_ ?_
  · intro s h
    obtain ⟨old,rfl⟩ := h
    exact fsInit_inv old
  · intro s k t hi h
    obtain ⟨hk,r,hc⟩ := h
    obtain ⟨r',t',hc',hi'⟩ := call_inv hi hk
    rw [hc] at hc'
    cases hc'
    exact hi'

theorem FsReachable.call {k : FsCall} (h : FsReachable s) (hk : k.Allowed)
    (hc : s.call k=some (r,t)) : FsReachable t := .next k h ⟨hk,r,hc⟩

/-- Every state of every run is a tree, and every call made there returns. -/
theorem ram_fs_tree_invariant (s : Fs) (hr : FsReachable s) :
    FsTree s ∧ ∀ k : FsCall, k.Allowed → ∃ r t, s.call k=some (r,t) ∧ FsTree t := by
  have hi := fsReachable_inv hr
  refine ⟨hi.tree,?_⟩
  intro k hk
  obtain ⟨r,t,hc,ht⟩ := call_inv hi hk
  exact ⟨r,t,hc,ht.tree⟩

def blankFs : Fs := ⟨fun _ => ⟨.free,fun _ => 0, none, fun _ => 0, 0⟩, 0⟩

/-- Making `a`, renaming it to `b` and removing it again. -/
theorem ram_fs_tree_invariant_mv_rm :
    ∃ s, (do
        let (_,s) ← (fsInit blankFs).call (.mkdir ⟨[0x61],by decide⟩)
        let (_,s) ← s.call (.mv ⟨[0x61],by decide⟩ ⟨[0x62],by decide⟩)
        let (_,s) ← s.call (.rm ⟨[0x62],by decide⟩)
        some s)=some s ∧ FsReachable s ∧
      FsTree s ∧ ∀ k : FsCall, k.Allowed → ∃ r t, s.call k=some (r,t) ∧ FsTree t := by
  have h0 : FsReachable (fsInit blankFs) := .init ⟨blankFs,rfl⟩
  obtain ⟨r1,s1,hc1,_⟩ := call_inv (fsReachable_inv h0)
    (k := .mkdir ⟨[0x61],by decide⟩) trivial
  have h1 : FsReachable s1 := h0.call (by trivial) hc1
  obtain ⟨r2,s2,hc2,_⟩ := call_inv (fsReachable_inv h1)
    (k := .mv ⟨[0x61],by decide⟩ ⟨[0x62],by decide⟩) trivial
  have h2 : FsReachable s2 := h1.call (by trivial) hc2
  obtain ⟨r3,s3,hc3,_⟩ := call_inv (fsReachable_inv h2)
    (k := .rm ⟨[0x62],by decide⟩) trivial
  have h3 : FsReachable s3 := h2.call (by trivial) hc3
  refine ⟨s3,?_,h3,ram_fs_tree_invariant s3 h3⟩
  simp only [hc1,hc2,hc3,Option.bind_eq_bind,Option.bind_some]

end MyKernel.RamFs
