import MyKernel.RamFs.Frame

/-! A call that fails leaves the file system as it was. -/
namespace MyKernel.RamFs
open CString

variable {s t : Fs} {i p idx : Nat} {n : FsNode} {r : FsResult} {name text data src dst : List UInt8}

/-- A result other than `FS_OK` comes with the state the call was made in. -/
def Atomic (s : Fs) (out : FsResult × Fs) : Prop := out.1 ≠ .ok → out.2=s

theorem atomic_same (r : FsResult) : Atomic s (r,s) := fun _ => rfl

theorem atomic_ok : Atomic s (.ok,t) := fun h => absurd rfl h

theorem createNode_atomic {n : Nat → FsNode} : Atomic s (createNode s name n) := by
  rcases createNode_cases s name n with ⟨r,_,hout⟩ | ⟨idx,_,_,_,hout⟩
  · rw [hout]
    exact atomic_same r
  · rw [hout]
    exact atomic_ok

theorem fsMkdir_atomic : Atomic s (fsMkdir s name) := createNode_atomic

theorem fsTouch_atomic : Atomic s (fsTouch s name) := createNode_atomic

theorem fsCd_atomic : Atomic s (fsCd s name) := by
  rw [fsCd]
  split
  · exact atomic_same _
  · split
    · split
      · exact atomic_same _
      · exact atomic_ok
    · split
      · exact atomic_ok
      · split
        · exact atomic_same _
        · split
          · exact atomic_same _
          · exact atomic_ok

theorem fsCp_atomic : Atomic s (fsCp s src dst) := by
  rw [fsCp]
  cases fsFindChild s s.cwd src with
  | none => exact atomic_same _
  | some sidx =>
    dsimp only
    split
    · exact atomic_same _
    · exact createNode_atomic

theorem fsMv_atomic : Atomic s (fsMv s src dst) := by
  rw [fsMv]
  cases fsFindChild s s.cwd src with
  | none => exact atomic_same _
  | some sidx =>
    dsimp only
    split
    · exact atomic_same _
    · split
      · exact atomic_same _
      · exact atomic_ok

theorem fsRmRf_atomic {out : FsResult × Fs} (hinv : FsInv s) (h : fsRmRf s name=some out) : Atomic s out := by
  rcases fsRmRf_cases hinv name with ⟨_,r,hr⟩ | ⟨root,t,_,_,_,hr,_⟩
  · rw [← Option.some_inj.mp (hr.symm.trans h)]
    exact atomic_same r
  · rw [← Option.some_inj.mp (hr.symm.trans h)]
    exact atomic_ok

theorem fsRm_atomic {out : FsResult × Fs} (hinv : FsInv s) (h : fsRm s name=some out) : Atomic s out := by
  rcases fsRm_cases hinv name with ⟨_,r,hr⟩ | ⟨root,t,_,_,_,hr,_⟩
  · rw [← Option.some_inj.mp (hr.symm.trans h)]
    exact atomic_same r
  · rw [← Option.some_inj.mp (hr.symm.trans h)]
    exact atomic_ok

theorem findChild_setNode_same (htype : n.type=(s.nodes idx).type)
    (hparent : n.parent=(s.nodes idx).parent) (hname : n.name=(s.nodes idx).name) :
    fsFindChild (s.setNode idx n) p name=fsFindChild s p name := by
  rw [fsFindChild,fsFindChild]
  congr 1
  funext j
  by_cases hj : j=idx
  · rw [hj,setNode_self,htype,hparent,hname]
  · rw [setNode_other hj]

/-- `t` has the file `idx` under `name`, and differs from `s` at most in it. -/
structure Opened (s t : Fs) (name : List UInt8) (idx : Nat) : Prop where
  cwd : t.cwd=s.cwd
  found : fsFindChild t t.cwd name=some idx
  file : (t.nodes idx).type = .file
  others : ∀ j, j≠idx → t.nodes j=s.nodes j

theorem opened_touched (h0 : 0∉name) (hv : fsIsValidName name=true)
    (hf : fsFindChild s s.cwd name=none) (ha : fsAllocNode s=some idx) :
    Opened s (s.setNode idx (touched s name idx)) name idx := by
  obtain ⟨hlt,_⟩ := allocNode_some ha
  have hname := strcpyTruncate_isCString (s.nodes idx).name h0 (length_of_valid hv)
  refine ⟨rfl,?_,by rw [setNode_self]; rfl,fun j hj => setNode_other hj⟩
  exact findChild_setNode_new hf hlt (by simp [touched]) rfl ((streq_iff hname h0).mpr rfl)

/-- `fs_touch` leads to a file that is found, and then there is nothing left to fail. -/
theorem findOrTouch_cases (h0 : 0∉name) :
    (∃ r, r ≠ .ok ∧ findOrTouch s name=(r,none,s)) ∨
    (∃ idx, findOrTouch s name=(.ok,some idx,s) ∧ fsFindChild s s.cwd name=some idx) ∨
    ∃ idx t, findOrTouch s name=(.ok,some idx,t) ∧ Opened s t name idx := by
  rw [findOrTouch]
  cases hf : fsFindChild s s.cwd name with
  | some idx => exact .inr (.inl ⟨idx,rfl,rfl⟩)
  | none =>
    rcases createNode_cases s name (touched s name) with ⟨r,hr,hout⟩ | ⟨idx,hv,_,ha,hout⟩
    · refine .inl ⟨r,hr,?_⟩
      rw [show fsTouch s name=_ from hout]
      cases r with
      | ok => exact absurd rfl hr
      | _ => rfl
    · have ho := opened_touched h0 hv hf ha
      refine .inr (.inr ⟨idx,_,?_,ho⟩)
      rw [show fsTouch s name=_ from hout]
      simp [ho.found]

theorem fsAppend_atomic (h0 : 0∉name) : Atomic s (fsAppend s name text) := by
  rw [fsAppend]
  rcases findOrTouch_cases (s := s) h0 with ⟨r,hr,he⟩ | ⟨idx,he,_⟩ | ⟨idx,t,he,ho⟩
  · rw [he]
    split
    next h => simp_all
    next h => simp_all
    next h =>
      simp only [Prod.mk.injEq] at h
      rw [← h.2.2]
      exact atomic_same _
  · simp only [he]
    split
    · exact atomic_same _
    · exact atomic_ok
  · simp only [he,ho.file,ne_eq,not_true,if_false]
    exact atomic_ok

def contentOf (n : FsNode) : List UInt8 := (List.range n.contentLen).map n.content

/-- `fs_read` of `name` gives `data`, and nothing else has changed. -/
def Stored (s t : Fs) (name data : List UInt8) : Prop :=
  ∃ idx, fsRead t name = .ok idx ∧ contentOf (t.nodes idx)=data ∧
    (t.nodes idx).contentLen=data.length ∧ t.cwd=s.cwd ∧ ∀ j, j≠idx → t.nodes j=s.nodes j

def filledWith (n : FsNode) (data : List UInt8) : FsNode :=
  { n with
    content := setByte (kMemcpy n.content (bytesAt data) data.length) data.length 0
    contentLen := data.length }

theorem contentOf_filledWith : contentOf (filledWith n data)=data := by
  apply List.ext_getElem
  · simp [contentOf,filledWith]
  · intro i _ hi
    have hne : i≠data.length := by omega
    simp [contentOf,filledWith,setByte,kMemcpy,bytesAt,hi,hne]

theorem fsRead_found (hf : fsFindChild s s.cwd name=some idx) (ht : (s.nodes idx).type = .file) :
    fsRead s name = .ok idx := by
  simp [fsRead,hf,ht]

theorem Opened.stored (h : Opened s t name idx) (data : List UInt8) :
    Stored s (t.setNode idx (filledWith (t.nodes idx) data)) name data := by
  have hsame : fsFindChild (t.setNode idx (filledWith (t.nodes idx) data)) t.cwd name =
      fsFindChild t t.cwd name := by
    apply findChild_setNode_same
    · rfl
    · rfl
    · rfl
  have hfound := hsame.trans h.found
  refine ⟨idx,fsRead_found hfound ?_,?_,?_,h.cwd,?_⟩
  · rw [setNode_self]
    exact h.file
  · rw [setNode_self,contentOf_filledWith]
  · rw [setNode_self]
    rfl
  · intro j hj
    rw [setNode_other hj,h.others j hj]

theorem fsWriteBin_outcome (s : Fs) (data : List UInt8) (h0 : 0∉name) :
    (∃ r, r ≠ .ok ∧ fsWriteBin s name data=(r,s)) ∨
    ∃ t, fsWriteBin s name data=(.ok,t) ∧ Stored s t name data := by
  rw [fsWriteBin]
  by_cases hbig : FS_FILE_MAX≤data.length
  · rw [if_pos hbig]
    exact .inl ⟨.tooBig,by simp,rfl⟩
  rw [if_neg hbig]
  rcases findOrTouch_cases (s := s) h0 with ⟨r,hr,he⟩ | ⟨idx,he,hf⟩ | ⟨idx,t,he,ho⟩
  · refine .inl ⟨r,hr,?_⟩
    rw [he]
    split
    next h => simp_all
    next h => simp_all
    next h =>
      simp only [Prod.mk.injEq] at h
      rw [h.1,h.2.2]
  · simp only [he]
    by_cases htype : (s.nodes idx).type = .file
    · refine .inr ⟨_,if_neg (by simp [htype]),?_⟩
      have ho : Opened s s name idx := ⟨rfl,hf,htype,fun _ _ => rfl⟩
      exact ho.stored data
    · exact .inl ⟨.isADirectory,by simp,if_pos htype⟩
  · simp only [he]
    exact .inr ⟨_,if_neg (by simp [ho.file]),ho.stored data⟩

theorem fsWriteBin_atomic (h0 : 0∉name) : Atomic s (fsWriteBin s name data) := by
  rcases fsWriteBin_outcome s data h0 with ⟨r,_,he⟩ | ⟨t,he,_⟩
  · rw [he]
    exact atomic_same r
  · rw [he]
    exact atomic_ok

theorem call_atomic {k : FsCall} (hinv : FsInv s) (hk : ∀ path, k ≠ .mkdirP path) (hc : s.call k=some (r,t)) :
    Atomic s (r,t) := by
  cases k with
  | mkdir name => exact Option.some_inj.mp hc ▸ fsMkdir_atomic
  | touch name => exact Option.some_inj.mp hc ▸ fsTouch_atomic
  | cd name => exact Option.some_inj.mp hc ▸ fsCd_atomic
  | rm name => exact fsRm_atomic hinv hc
  | rmRf name => exact fsRmRf_atomic hinv hc
  | write name text => exact Option.some_inj.mp hc ▸ fsWriteBin_atomic name.nul_free
  | writeBin name data => exact Option.some_inj.mp hc ▸ fsWriteBin_atomic name.nul_free
  | append name text => exact Option.some_inj.mp hc ▸ fsAppend_atomic name.nul_free
  | cp src dst => exact Option.some_inj.mp hc ▸ fsCp_atomic
  | mv src dst => exact Option.some_inj.mp hc ▸ fsMv_atomic
  | mkdirP path => exact absurd rfl (hk path)

/-- Every call returns in every state of every run. If it fails the state is the one before the call; a
binary write that succeeds is read back and has changed nothing else. -/
theorem ram_fs_mutators_atomic (hr : FsReachable s) (k : FsCall) (hk : ∀ path, k ≠ .mkdirP path) :
    ∃ r t, s.call k=some (r,t) ∧ (r ≠ .ok → t=s) ∧
      ∀ name data, k = .writeBin name data → r = .ok → Stored s t name.bytes data := by
  have hallowed : k.Allowed := by
    cases k with
    | mkdirP path => exact absurd rfl (hk path)
    | _ => trivial
  obtain ⟨r,t,hc,_⟩ := call_inv (fsReachable_inv hr) hallowed
  refine ⟨r,t,hc,call_atomic (fsReachable_inv hr) hk hc,?_⟩
  rintro name data rfl hok
  have he : fsWriteBin s name.bytes data=(r,t) := Option.some_inj.mp hc
  rcases fsWriteBin_outcome s data name.nul_free with ⟨r',hr',he'⟩ | ⟨t',he',hst⟩
  · rw [he,Prod.mk.injEq] at he'
    exact absurd hok (he'.1 ▸ hr')
  · rw [he,Prod.mk.injEq] at he'
    exact he'.2 ▸ hst

/-- Two bytes written to a new file `a` after the start. -/
theorem ram_fs_mutators_atomic_new_file :
    ∃ t, (fsInit blankFs).call (.writeBin ⟨[0x61],by decide⟩ [1,2])=some (.ok,t) ∧
      Stored (fsInit blankFs) t [0x61] [1,2] := by
  obtain ⟨r,t,hc,_,hst⟩ := ram_fs_mutators_atomic (.init ⟨blankFs,rfl⟩)
    (.writeBin ⟨[0x61],by decide⟩ [1,2]) (fun _ h => by cases h)
  have hr : ((fsInit blankFs).call (.writeBin ⟨[0x61],by decide⟩ [1,2])).map Prod.fst=some .ok := by
    decide +kernel
  rw [hc] at hr
  obtain rfl : r = .ok := by simpa using hr
  exact ⟨t,hc,hst _ _ rfl rfl⟩

end MyKernel.RamFs
