import MyKernel.Lib.Traces
import MyKernel.RamFs.Frame
import MyKernel.Syscall.Model

/-! Open descriptors against file system calls. -/
namespace MyKernel.Syscall
open Memory Signed CString RamFs Traces

inductive KernelCall where
  | sysOpen (path : CStr) (flags : UInt32)
  | sysRead (fd : Int32) (buf : UInt32) (count : Int32)
  | sysLseek (fd offset whence : Int32)
  | sysDup (fd : Int32)
  | sysDup2 (oldfd newfd : Int32)
  | sysClose (fd : Int32)
  | fsTouch (name : CStr)
  | fsWrite (name text : CStr)
  | fsAppend (name text : CStr)
  | fsRm (name : CStr)
  | fsRmRf (name : CStr)
  | fsMv (src dst : CStr)
  | fsCp (src dst : CStr)
  | fsMkdir (name : CStr)
  | fsCd (name : CStr)

def Kernel.call (k : Kernel) : KernelCall → Option Kernel
  | .sysOpen path flags => some (sysOpen k path.bytes flags).2
  | .sysRead fd buf count => some (sysRead k fd.toInt buf.toNat count.toInt).2
  | .sysLseek fd offset whence => some (sysLseek k fd.toInt offset.toInt whence.toInt).2
  | .sysDup fd => some (sysDup k fd.toInt).2
  | .sysDup2 oldfd newfd => some (sysDup2 k oldfd.toInt newfd.toInt).2
  | .sysClose fd => some (sysClose k fd.toInt).2
  | .fsTouch name => some (k.setFs (fsTouch k.fs name.bytes).2)
  | .fsWrite name text => some (k.setFs (fsWrite k.fs name.bytes text.bytes).2)
  | .fsAppend name text => some (k.setFs (fsAppend k.fs name.bytes text.bytes).2)
  | .fsRm name => (fsRm k.fs name.bytes).map fun r => k.setFs r.2
  | .fsRmRf name => (fsRmRf k.fs name.bytes).map fun r => k.setFs r.2
  | .fsMv src dst => some (k.setFs (fsMv k.fs src.bytes dst.bytes).2)
  | .fsCp src dst => some (k.setFs (fsCp k.fs src.bytes dst.bytes).2)
  | .fsMkdir name => some (k.setFs (fsMkdir k.fs name.bytes).2)
  | .fsCd name => some (k.setFs (fsCd k.fs name.bytes).2)

def bootKernel (old : Fs) (lives : Nat → Nat) (fds : Nat → FdEntry) : Kernel :=
  fdTableReset ⟨fsInit old,lives,fds⟩

structure IsOpen (k : Kernel) (fd : Nat) : Prop where
  bound : fd<FD_MAX
  used : (k.fds fd).used=true
  type : (k.fds fd).type = .ramfile

/-- The pointer leads to the file it was made for, and that file is as long as it was then. -/
structure PointsTo (k : Kernel) (e : FdEntry) (p : ContentPtr) : Prop where
  data : e.data=some p
  same : k.lives p.node=p.life
  bound : p.node<FS_MAX_NODES
  file : (k.fs.nodes p.node).type = .file
  len : e.len≤(k.fs.nodes p.node).contentLen

/-- Every byte that `sys_read` returns is a byte of the file as it is now. -/
def ReadsCurrent (k : Kernel) (fd : Nat) (p : ContentPtr) : Prop :=
  ∀ (buf : UInt32) (count : Int32) (n : Int) (bytes : List UInt8) (k' : Kernel),
    sysRead k fd buf.toNat count.toInt=(.ok (n,bytes),k') → ∀ i b, bytes[i]?=some b →
      (k.fds fd).pos+i<(k.fs.nodes p.node).contentLen ∧
      b=(k.fs.nodes p.node).content ((k.fds fd).pos+i)

def Denotes (k : Kernel) : Prop :=
  ∀ fd, IsOpen k fd → ∃ p, PointsTo k (k.fds fd) p ∧ ReadsCurrent k fd p

structure OpenOn (k : Kernel) (fd i : Nat) : Prop where
  isOpen : IsOpen k fd
  node : ∃ life, (k.fds fd).data=some ⟨i,life⟩

/-- The call removes no file that is open, and writes none anew with less than its length was when
it was opened. -/
def SparesOpenFiles (k : Kernel) : KernelCall → Prop
  | .fsRm name => name.bytes≠[] → name.bytes≠slash → ∀ root,
      fsFindChild k.fs k.fs.cwd name.bytes=some root → ∀ fd, ¬ OpenOn k fd root
  | .fsRmRf name => name.bytes≠[] → name.bytes≠slash → ∀ root,
      fsFindChild k.fs k.fs.cwd name.bytes=some root → ∀ fd i, OpenOn k fd i → ¬ Below k.fs root i
  | .fsWrite name text => text.bytes.length<FS_FILE_MAX → ∀ idx,
      fsFindChild k.fs k.fs.cwd name.bytes=some idx → ∀ fd, OpenOn k fd idx →
        (k.fds fd).len≤text.bytes.length
  | _ => True

variable {k k' : Kernel} {fd fd' i idx root : Nat} {e : FdEntry} {p : ContentPtr} {fs : Fs}

def Sane (e : FdEntry) : Prop := e.pos≤e.len ∧ e.len≤8191

structure KernelInv (k : Kernel) : Prop where
  fs : FsInv k.fs
  sane : ∀ fd, IsOpen k fd → Sane (k.fds fd)

def Valid (k : Kernel) : Prop := ∀ fd, IsOpen k fd → ∃ p, PointsTo k (k.fds fd) p

theorem isUsed_iff {fd : Int} : k.isUsed fd=true ↔
    0≤fd ∧ fd<FD_MAX ∧ (k.fds fd.toNat).used=true := by
  simp [Kernel.isUsed,and_assoc]

theorem isOpen_of_used {fd : Int} (h : k.isUsed fd=true) (ht : (k.fds fd.toNat).type = .ramfile) :
    IsOpen k fd.toNat := by
  obtain ⟨h0,hlt,hu⟩ := isUsed_iff.mp h
  exact ⟨by omega,hu,ht⟩

theorem readCount_spec {count : Int} (hs : Sane e) (h0 : 0≤count) (hc : count≤2147483647) :
    0≤readCount e count ∧ (e.pos : Int)+readCount e count≤e.len := by
  obtain ⟨hpos,hlen⟩ := hs
  have hleft : sub32 e.len e.pos=e.len-e.pos := sub32_of_le hpos (by omega)
  have hword := toWord_of_nonneg h0 (by omega)
  rw [readCount,hleft]
  split
  · rw [wrap32_of_range (by omega) (by omega)]
    omega
  · omega

theorem contentOf_eq (h : e.data=some p) : contentOf k e=(k.fs.nodes p.node).content := by
  simp [contentOf,h]

theorem PointsTo.readsCurrent (h : PointsTo k (k.fds fd) p) (ho : IsOpen k fd) (hs : Sane (k.fds fd)) :
    ReadsCurrent k fd p := by
  intro buf count n bytes k' hread i b hb
  have hmax : count.toInt<2147483648 := Int32.toInt_lt count
  rw [sysRead] at hread
  split at hread
  · simp at hread
  next hneg =>
    split at hread
    · simp at hread
    split at hread
    · simp at hread
    obtain ⟨hc0,hcend⟩ := readCount_spec hs (Int.not_lt.mp hneg) (by omega)
    simp only [Int.toNat_natCast,ho.type,Prod.mk.injEq,Except.ok.injEq] at hread
    rw [← hread.1.2,bytesRead,List.getElem?_map] at hb
    obtain ⟨j,hj,hbj⟩ := Option.map_eq_some_iff.mp hb
    obtain ⟨hlt,hij⟩ := List.getElem?_eq_some_iff.mp hj
    rw [List.length_range] at hlt
    rw [List.getElem_range] at hij
    have hend : (k.fds fd).pos+i<(k.fds fd).len := by omega
    have hlen := hs.2
    rw [← hij,u32_of_lt (by omega),contentOf_eq h.data] at hbj
    exact ⟨Nat.lt_of_lt_of_le hend h.len,hbj.symm⟩

theorem KernelInv.denotes_iff (hi : KernelInv k) : Denotes k ↔ Valid k := by
  constructor
  · intro h fd ho
    obtain ⟨p,hp,_⟩ := h fd ho
    exact ⟨p,hp⟩
  · intro h fd ho
    obtain ⟨p,hp⟩ := h fd ho
    exact ⟨p,hp,hp.readsCurrent ho (hi.sane fd ho)⟩

/-- The same file, at a position that is not beyond its length either. -/
structure SameFile (e e' : FdEntry) : Prop where
  data : e'.data=e.data
  len : e'.len=e.len
  pos : Sane e → e'.pos≤e.len

theorem SameFile.refl (e : FdEntry) : SameFile e e := ⟨rfl,rfl,fun hs => hs.1⟩

/-- Every descriptor open afterwards goes back to one that was open before. -/
structure Traced (k k' : Kernel) : Prop where
  fs : k'.fs=k.fs
  lives : k'.lives=k.lives
  entries : ∀ fd, IsOpen k' fd → ∃ fd', IsOpen k fd' ∧ SameFile (k.fds fd') (k'.fds fd)

theorem Traced.refl (k : Kernel) : Traced k k := ⟨rfl,rfl,fun fd ho => ⟨fd,ho,SameFile.refl _⟩⟩

theorem setFd_self : (k.setFd fd e).fds fd=e := by simp [Kernel.setFd]

theorem setFd_other (h : fd'≠fd) : (k.setFd fd e).fds fd'=k.fds fd' := by simp [Kernel.setFd,h]

theorem isOpen_setFd_other (h : fd'≠fd) : IsOpen (k.setFd fd e) fd' ↔ IsOpen k fd' := by
  constructor
  · intro ho
    have hu := ho.used
    have ht := ho.type
    rw [setFd_other h] at hu ht
    exact ⟨ho.bound,hu,ht⟩
  · intro ho
    exact ⟨ho.bound,by rw [setFd_other h]; exact ho.used,by rw [setFd_other h]; exact ho.type⟩

theorem traced_setFd (h : e.type = .ramfile → ∃ fd', IsOpen k fd' ∧ SameFile (k.fds fd') e) :
    Traced k (k.setFd fd e) := by
  refine ⟨rfl,rfl,?_⟩
  intro j ho
  by_cases hj : j=fd
  · have ht := ho.type
    rw [hj,setFd_self] at ht
    rw [hj,setFd_self]
    exact h ht
  · rw [setFd_other hj]
    exact ⟨j,(isOpen_setFd_other hj).mp ho,SameFile.refl _⟩

theorem Traced.valid (h : Traced k k') (hv : Valid k) : Valid k' := by
  intro fd ho
  obtain ⟨fd',ho',hsame⟩ := h.entries fd ho
  obtain ⟨p,hp⟩ := hv fd' ho'
  refine ⟨p,hsame.data.trans hp.data,?_,hp.bound,?_,?_⟩
  · rw [h.lives]
    exact hp.same
  · rw [h.fs]
    exact hp.file
  · rw [h.fs,hsame.len]
    exact hp.len

theorem Traced.inv (h : Traced k k') (hi : KernelInv k) : KernelInv k' := by
  constructor
  · rw [h.fs]
    exact hi.fs
  · intro fd ho
    obtain ⟨fd',ho',hsame⟩ := h.entries fd ho
    have hs := hi.sane fd' ho'
    rw [Sane,hsame.len]
    exact ⟨hsame.pos hs,hs.2⟩

theorem sysRead_traced {fd count : Int} {buf : Nat} (hc : count≤2147483647) :
    Traced k (sysRead k fd buf count).2 := by
  rw [sysRead]
  split
  · exact Traced.refl k
  next hneg =>
    split
    · exact Traced.refl k
    split
    · exact Traced.refl k
    next hused =>
      simp only
      split
      · exact Traced.refl k
      next ht =>
        apply traced_setFd
        intro _
        refine ⟨fd.toNat,isOpen_of_used (by simpa using hused) ht,rfl,rfl,?_⟩
        intro hs
        obtain ⟨hc0,hcend⟩ := readCount_spec hs (Int.not_lt.mp hneg) hc
        have hlen := hs.2
        have hword := toWord_of_nonneg hc0 (by omega)
        have hsum : u32 ((k.fds fd.toNat).pos+toWord (readCount (k.fds fd.toNat) count)) =
            (k.fds fd.toNat).pos+toWord (readCount (k.fds fd.toNat) count) := u32_of_lt (by omega)
        simp only [hsum]
        omega
      · exact Traced.refl k

theorem sysLseek_traced {fd offset whence : Int} : Traced k (sysLseek k fd offset whence).2 := by
  rw [sysLseek]
  split
  · exact Traced.refl k
  next hused =>
    split
    · exact Traced.refl k
    next ht =>
      simp only
      split
      · exact Traced.refl k
      next base _ =>
        split
        · exact Traced.refl k
        next hneg =>
          apply traced_setFd
          intro _
          refine ⟨fd.toNat,isOpen_of_used (by simpa using hused) (by simpa using ht),rfl,rfl,?_⟩
          intro hs
          have hlen := hs.2
          simp only
          split
          · rw [wrap32_of_range (by omega) (by omega),toWord_natCast (by omega)]
          · omega

theorem sysDup_traced {fd : Int} : Traced k (sysDup k fd).2 := by
  rw [sysDup]
  split
  · exact Traced.refl k
  next hused =>
    split
    · exact Traced.refl k
    · apply traced_setFd
      intro ht
      exact ⟨fd.toNat,isOpen_of_used (by simpa using hused) ht,rfl,rfl,fun hs => hs.1⟩

theorem sysDup2_traced {oldfd newfd : Int} : Traced k (sysDup2 k oldfd newfd).2 := by
  rw [sysDup2]
  split
  · exact Traced.refl k
  next hused =>
    split
    · exact Traced.refl k
    split
    · exact Traced.refl k
    · apply traced_setFd
      intro ht
      exact ⟨oldfd.toNat,isOpen_of_used (by simpa using hused) ht,rfl,rfl,fun hs => hs.1⟩

theorem sysClose_traced {fd : Int} : Traced k (sysClose k fd).2 := by
  rw [sysClose]
  split
  · exact Traced.refl k
  · apply traced_setFd
    intro ht
    cases ht

theorem setFs_lives_of_same (h : (fs.nodes i).type=(k.fs.nodes i).type) :
    (k.setFs fs).lives i=k.lives i := if_pos h

theorem isOpen_setFs : IsOpen (k.setFs fs) fd ↔ IsOpen k fd :=
  ⟨fun h => ⟨h.bound,h.used,h.type⟩,fun h => ⟨h.bound,h.used,h.type⟩⟩

theorem KernelInv.setFs (hi : KernelInv k) (hfs : FsInv fs) : KernelInv (k.setFs fs) :=
  ⟨hfs,fun fd ho => hi.sane fd (isOpen_setFs.mp ho)⟩

theorem PointsTo.live (h : PointsTo k e p) : Live k.fs p.node := ⟨h.bound,by rw [h.file]; simp⟩

theorem PointsTo.openOn (h : PointsTo k (k.fds fd) p) (ho : IsOpen k fd) : OpenOn k fd p.node :=
  ⟨ho,p.life,h.data⟩

theorem PointsTo.node_eq (h : PointsTo k (k.fds fd) p) (ho : OpenOn k fd i) : p.node=i := by
  obtain ⟨life,hlife⟩ := ho.node
  rw [Option.some_inj.mp (h.data.symm.trans hlife)]

theorem PointsTo.setFs (h : PointsTo k e p) (ht : (fs.nodes p.node).type=(k.fs.nodes p.node).type)
    (hlen : e.len≤(fs.nodes p.node).contentLen) : PointsTo (k.setFs fs) e p :=
  ⟨h.data,(setFs_lives_of_same ht).trans h.same,h.bound,ht.trans h.file,hlen⟩

theorem Valid.grows (hv : Valid k) (hg : Grows k.fs fs) : Valid (k.setFs fs) := by
  intro fd ho
  obtain ⟨p,hp⟩ := hv fd (isOpen_setFs.mp ho)
  exact ⟨p,hp.setFs (hg.type p.node hp.live) (Nat.le_trans hp.len (hg.content p.node hp.live))⟩

theorem Valid.not_freed (hv : Valid (k.setFs fs)) (hp : PointsTo k (k.fds fd) p) (ho : IsOpen k fd) :
    (fs.nodes p.node).type ≠ .free := by
  intro hfree
  obtain ⟨p',hp'⟩ := hv fd (isOpen_setFs.mpr ho)
  have he : p'=p := Option.some_inj.mp (hp'.data.symm.trans hp.data)
  have hfile : (fs.nodes p'.node).type = .file := hp'.file
  rw [he,hfree] at hfile
  cases hfile

theorem Valid.cut_iff {t : Fs} (hv : Valid k) (hcut : Cut k.fs root t) :
    Valid (k.setFs t) ↔ ∀ fd i, OpenOn k fd i → ¬ Below k.fs root i := by
  constructor
  · intro hv' fd i ho hb
    obtain ⟨p,hp⟩ := hv fd ho.isOpen
    rw [← hp.node_eq ho] at hb
    exact hv'.not_freed hp ho.isOpen (hcut.freed p.node hp.live hb)
  · intro hspares fd ho
    obtain ⟨p,hp⟩ := hv fd (isOpen_setFs.mp ho)
    have hkept := hcut.kept p.node hp.live (hspares fd p.node (hp.openOn (isOpen_setFs.mp ho)))
    exact ⟨p,hp.setFs (by rw [hkept]) (by rw [hkept]; exact hp.len)⟩

theorem fsWrite_valid_iff {name text : List UInt8} (hv : Valid k) :
    Valid (k.setFs (fsWrite k.fs name text).2) ↔ (text.length<FS_FILE_MAX → ∀ idx,
      fsFindChild k.fs k.fs.cwd name=some idx → ∀ fd, OpenOn k fd idx →
        (k.fds fd).len≤text.length) := by
  by_cases hmeets : text.length<FS_FILE_MAX ∧
      ∃ idx, fsFindChild k.fs k.fs.cwd name=some idx ∧ (k.fs.nodes idx).type = .file
  · obtain ⟨hlen,idx,hf,ht⟩ := hmeets
    rw [fsWrite_found hf ht hlen]
    constructor
    · intro hv' _ idx' hf' fd ho
      rw [hf,Option.some_inj] at hf'
      rw [← hf'] at ho
      obtain ⟨p,hp⟩ := hv' fd (isOpen_setFs.mpr ho.isOpen)
      have hle := hp.len
      simp only [Kernel.setFs,hp.node_eq ⟨isOpen_setFs.mpr ho.isOpen,ho.node⟩,setNode_self] at hle
      exact hle
    · intro hspares fd ho
      obtain ⟨p,hp⟩ := hv fd (isOpen_setFs.mp ho)
      refine ⟨p,?_⟩
      by_cases hpi : p.node=idx
      · have ho' := hp.openOn (isOpen_setFs.mp ho)
        rw [hpi] at ho'
        exact hp.setFs (by rw [hpi,setNode_self])
          (by rw [hpi,setNode_self]; exact hspares hlen idx hf fd ho')
      · exact hp.setFs (by rw [setNode_other hpi]) (by rw [setNode_other hpi]; exact hp.len)
  · have hgrows : Grows k.fs (fsWrite k.fs name text).2 := by
      by_cases hlen : text.length<FS_FILE_MAX
      · apply fsWrite_grows
        intro idx hf ht
        exact hmeets ⟨hlen,idx,hf,ht⟩
      · rw [fsWrite_tooBig (not_lt.mp hlen)]
        exact Grows.refl k.fs
    constructor
    · intro _ hlen idx hf fd ho
      -- what a descriptor is open on is a file
      obtain ⟨p,hp⟩ := hv fd ho.isOpen
      have hfile := hp.file
      rw [hp.node_eq ho] at hfile
      exact absurd ⟨hlen,idx,hf,hfile⟩ hmeets
    · intro _
      exact hv.grows hgrows

theorem fsRead_ok {s : Fs} {name : List UInt8} (h : fsRead s name = .ok idx) :
    Live s idx ∧ (s.nodes idx).type = .file ∧ fsFindChild s s.cwd name=some idx := by
  rw [fsRead] at h
  cases hf : fsFindChild s s.cwd name with
  | none =>
    rw [hf] at h
    cases h
  | some j =>
    simp only [hf] at h
    split at h
    · cases h
    next ht =>
      have he : j=idx := Except.ok.inj h
      rw [he] at ht hf
      exact ⟨(findChild_some hf).1,by simpa using ht,by rw [he]⟩

theorem fsRead_error {s : Fs} {name : List UInt8} {r : FsResult} (h : fsRead s name = .error r)
    (hf : fsFindChild s s.cwd name=some idx) : (s.nodes idx).type ≠ .file := by
  intro ht
  simp [fsRead,hf,ht] at h

theorem openNode_kept {path : List UInt8} {flags : UInt32} (hl : Live k.fs idx)
    (ht : (k.fs.nodes idx).type = .file) (hi : KernelInv k) (hv : Valid k) :
    KernelInv (openNode k idx path flags).2 ∧ Valid (openNode k idx path flags).2 := by
  rw [openNode]
  cases ha : fdAlloc k with
  | none => exact ⟨hi,hv⟩
  | some fd =>
    have hlen := (hi.fs.files idx hl ht).1
    refine ⟨⟨hi.fs,?_⟩,?_⟩
    · intro j ho
      by_cases hj : j=fd
      · rw [hj,setFd_self,Sane,openedEntry]
        refine ⟨?_,hlen⟩
        dsimp only
        split
        · exact Nat.zero_le _
        · exact Nat.le_refl _
      · rw [setFd_other hj]
        exact hi.sane j ((isOpen_setFd_other hj).mp ho)
    · intro j ho
      by_cases hj : j=fd
      · rw [hj,setFd_self]
        exact ⟨⟨idx,k.lives idx⟩,rfl,rfl,hl.1,ht,Nat.le_refl _⟩
      · rw [setFd_other hj]
        obtain ⟨p,hp⟩ := hv j ((isOpen_setFd_other hj).mp ho)
        exact ⟨p,hp.data,hp.same,hp.bound,hp.file,hp.len⟩

theorem createFile_grows {s : Fs} {path : List UInt8}
    (h : ∀ idx, fsFindChild s s.cwd path=some idx → (s.nodes idx).type ≠ .file) : Grows s (createFile s path).2 := by
  rw [createFile]
  split
  · exact fsTouch_grows
  next hfail =>
    rcases fsTouch_cases s path with ⟨r,_,he⟩ | ⟨idx,n,_,he⟩
    · rw [he]
      exact fsWrite_grows h
    · rw [he] at hfail
      exact absurd rfl hfail

theorem createFile_inv {s : Fs} {path : List UInt8} (hi : FsInv s) (hn : 0∉path) : FsInv (createFile s path).2 := by
  rw [createFile]
  split
  · exact fsTouch_inv hi hn
  · exact fsWriteBin_inv (fsTouch_inv hi hn) hn

theorem sysOpen_kept {path : CStr} {flags : UInt32} (hi : KernelInv k) (hv : Valid k) :
    KernelInv (sysOpen k path.bytes flags).2 ∧ Valid (sysOpen k path.bytes flags).2 := by
  rw [sysOpen]
  split
  · exact ⟨hi,hv⟩
  cases hr : fsRead k.fs path.bytes with
  | ok idx =>
    obtain ⟨hl,ht,_⟩ := fsRead_ok hr
    exact openNode_kept hl ht hi hv
  | error r =>
    dsimp only
    split
    · exact ⟨hi,hv⟩
    have hi' : KernelInv (k.setFs (createFile k.fs path.bytes).2) :=
      hi.setFs (createFile_inv hi.fs path.nul_free)
    have hv' : Valid (k.setFs (createFile k.fs path.bytes).2) :=
      hv.grows (createFile_grows fun idx hf => fsRead_error hr hf)
    split
    · exact ⟨hi',hv'⟩
    cases hr' : fsRead (k.setFs (createFile k.fs path.bytes).2).fs path.bytes with
    | ok idx =>
      obtain ⟨hl,ht,_⟩ := fsRead_ok hr'
      exact openNode_kept hl ht hi' hv'
    | error r => exact ⟨hi',hv'⟩

theorem call_inv {c : KernelCall} (hi : KernelInv k) (hv : Valid k) (h : k.call c=some k') : KernelInv k' := by
  cases c with
  | sysOpen path flags =>
    rw [← Option.some_inj.mp h]
    exact (sysOpen_kept hi hv).1
  | sysRead fd buf count =>
    rw [← Option.some_inj.mp h]
    exact (sysRead_traced (Int.lt_add_one_iff.mp (Int32.toInt_lt count))).inv hi
  | sysLseek fd offset whence =>
    rw [← Option.some_inj.mp h]
    exact sysLseek_traced.inv hi
  | sysDup fd =>
    rw [← Option.some_inj.mp h]
    exact sysDup_traced.inv hi
  | sysDup2 oldfd newfd =>
    rw [← Option.some_inj.mp h]
    exact sysDup2_traced.inv hi
  | sysClose fd =>
    rw [← Option.some_inj.mp h]
    exact sysClose_traced.inv hi
  | fsTouch name =>
    rw [← Option.some_inj.mp h]
    exact hi.setFs (fsTouch_inv hi.fs name.nul_free)
  | fsWrite name text =>
    rw [← Option.some_inj.mp h]
    exact hi.setFs (fsWriteBin_inv hi.fs name.nul_free)
  | fsAppend name text =>
    rw [← Option.some_inj.mp h]
    exact hi.setFs (fsAppend_inv hi.fs name.nul_free)
  | fsRm name =>
    have hrm : ∃ r t, fsRm k.fs name.bytes=some (r,t) ∧ FsInv t := fsRm_inv hi.fs
    obtain ⟨r,t,hr,ht⟩ := hrm
    rw [Kernel.call,hr,Option.map_some,Option.some_inj] at h
    rw [← h]
    exact hi.setFs ht
  | fsRmRf name =>
    have hrm : ∃ r t, fsRmRf k.fs name.bytes=some (r,t) ∧ FsInv t := fsRmRf_inv hi.fs
    obtain ⟨r,t,hr,ht⟩ := hrm
    rw [Kernel.call,hr,Option.map_some,Option.some_inj] at h
    rw [← h]
    exact hi.setFs ht
  | fsMv src dst =>
    rw [← Option.some_inj.mp h]
    exact hi.setFs (fsMv_inv hi.fs dst.nul_free)
  | fsCp src dst =>
    rw [← Option.some_inj.mp h]
    exact hi.setFs (fsCp_inv hi.fs dst.nul_free)
  | fsMkdir name =>
    rw [← Option.some_inj.mp h]
    exact hi.setFs (fsMkdir_inv hi.fs name.nul_free)
  | fsCd name =>
    rw [← Option.some_inj.mp h]
    exact hi.setFs (fsCd_inv hi.fs)

theorem returns_valid {c : KernelCall} (h : k.call c=some k') :
    (∀ k'', k.call c=some k'' → Valid k'') ↔ Valid k' := by
  simp [h]

theorem fsRm_valid_iff {name : CStr} (hi : KernelInv k) (hv : Valid k) :
    (∀ k', k.call (.fsRm name)=some k' → Valid k') ↔ SparesOpenFiles k (.fsRm name) := by
  rcases fsRm_cases hi.fs name.bytes with ⟨hwhy,r,hr⟩ | ⟨root,t,h0,hslash,hf,hr,hcut,hleaf⟩
  · have hcall : k.call (.fsRm name)=some (k.setFs k.fs) := by rw [Kernel.call,hr]; rfl
    rw [returns_valid hcall]
    refine ⟨fun _ h0 hslash root hf fd ho => ?_,fun _ => hv.grows (Grows.refl k.fs)⟩
    obtain ⟨p,hp⟩ := hv fd ho.isOpen
    have hfile := hp.file
    rw [hp.node_eq ho] at hfile
    rcases hwhy with he | he | hdir
    · exact h0 he
    · exact hslash he
    · exact hdir root hf hfile
  · have hcall : k.call (.fsRm name)=some (k.setFs t) := by rw [Kernel.call,hr]; rfl
    rw [returns_valid hcall,hv.cut_iff hcut]
    constructor
    · intro h _ _ root' hf' fd ho
      rw [hf,Option.some_inj] at hf'
      rw [← hf'] at ho
      apply h fd root ho
      obtain ⟨path,hp,_⟩ := hi.fs.path (findChild_some hf).1
      exact ⟨path,hp,by simpa using List.mem_of_mem_head? hp.start_eq.symm⟩
    · intro h fd i ho hb
      obtain ⟨p,hp⟩ := hv fd ho.isOpen
      have hl := hp.live
      rw [hp.node_eq ho] at hl
      rw [hleaf i hl hb] at ho
      exact h h0 hslash root hf fd ho

theorem fsRmRf_valid_iff {name : CStr} (hi : KernelInv k) (hv : Valid k) :
    (∀ k', k.call (.fsRmRf name)=some k' → Valid k') ↔ SparesOpenFiles k (.fsRmRf name) := by
  rcases fsRmRf_cases hi.fs name.bytes with ⟨hwhy,r,hr⟩ | ⟨root,t,h0,hslash,hf,hr,hcut⟩
  · have hcall : k.call (.fsRmRf name)=some (k.setFs k.fs) := by rw [Kernel.call,hr]; rfl
    rw [returns_valid hcall]
    refine ⟨fun _ h0 hslash root hf fd i ho => ?_,fun _ => hv.grows (Grows.refl k.fs)⟩
    rcases hwhy with he | he | hnone
    · exact absurd he h0
    · exact absurd he hslash
    · rw [hnone] at hf
      cases hf
  · have hcall : k.call (.fsRmRf name)=some (k.setFs t) := by rw [Kernel.call,hr]; rfl
    rw [returns_valid hcall,hv.cut_iff hcut]
    constructor
    · intro h _ _ root' hf' fd i ho
      rw [hf,Option.some_inj] at hf'
      rw [← hf']
      exact h fd i ho
    · intro h fd i ho
      exact h h0 hslash root hf fd i ho

theorem call_valid_iff (hi : KernelInv k) (hv : Valid k) (c : KernelCall) :
    (∀ k', k.call c=some k' → Valid k') ↔ SparesOpenFiles k c := by
  cases c with
  | sysOpen path flags =>
    rw [returns_valid rfl]
    exact iff_of_true (sysOpen_kept hi hv).2 trivial
  | sysRead fd buf count =>
    rw [returns_valid rfl]
    exact iff_of_true
      ((sysRead_traced (Int.lt_add_one_iff.mp (Int32.toInt_lt count))).valid hv) trivial
  | sysLseek fd offset whence =>
    rw [returns_valid rfl]
    exact iff_of_true (sysLseek_traced.valid hv) trivial
  | sysDup fd =>
    rw [returns_valid rfl]
    exact iff_of_true (sysDup_traced.valid hv) trivial
  | sysDup2 oldfd newfd =>
    rw [returns_valid rfl]
    exact iff_of_true (sysDup2_traced.valid hv) trivial
  | sysClose fd =>
    rw [returns_valid rfl]
    exact iff_of_true (sysClose_traced.valid hv) trivial
  | fsTouch name =>
    rw [returns_valid rfl]
    exact iff_of_true (hv.grows fsTouch_grows) trivial
  | fsWrite name text =>
    rw [returns_valid rfl]
    exact fsWrite_valid_iff hv
  | fsAppend name text =>
    rw [returns_valid rfl]
    exact iff_of_true (hv.grows fsAppend_grows) trivial
  | fsRm name => exact fsRm_valid_iff hi hv
  | fsRmRf name => exact fsRmRf_valid_iff hi hv
  | fsMv src dst =>
    rw [returns_valid rfl]
    exact iff_of_true (hv.grows fsMv_grows) trivial
  | fsCp src dst =>
    rw [returns_valid rfl]
    exact iff_of_true (hv.grows fsCp_grows) trivial
  | fsMkdir name =>
    rw [returns_valid rfl]
    exact iff_of_true (hv.grows fsMkdir_grows) trivial
  | fsCd name =>
    rw [returns_valid rfl]
    exact iff_of_true (hv.grows fsCd_grows) trivial

theorem reset_not_open (k : Kernel) (fd : Nat) : ¬ IsOpen (fdTableReset k) fd := by
  intro ho
  have hb := ho.bound
  have ht := ho.type
  by_cases h2 : fd≤2
  · simp [fdTableReset,h2] at ht
  · simp [fdTableReset,h2,hb] at ht

theorem boot_not_open (old : Fs) (lives : Nat → Nat) (fds : Nat → FdEntry) (fd : Nat) :
    ¬ IsOpen (bootKernel old lives fds) fd := reset_not_open _ fd

theorem boot_inv (old : Fs) (lives : Nat → Nat) (fds : Nat → FdEntry) : KernelInv (bootKernel old lives fds) :=
  ⟨fsInit_inv old,fun fd ho => absurd ho (boot_not_open old lives fds fd)⟩

/-- In a run from the resets every open descriptor points to the file it was opened for, with its
length within that of the file, and reads that file's bytes, exactly when every call spares the open
files. -/
theorem descriptors_denote_iff (old : Fs) (lives : Nat → Nat) (fds : Nat → FdEntry)
    (cs : List KernelCall) :
    Always Kernel.call Denotes cs (bootKernel old lives fds) ↔
      EachStep Kernel.call SparesOpenFiles cs (bootKernel old lives fds) := by
  have hboot : Denotes (bootKernel old lives fds) := fun fd ho =>
    absurd ho (boot_not_open old lives fds fd)
  apply always_iff (I := KernelInv) _ _ (boot_inv old lives fds) hboot
  · intro k c hi hd
    have hv := hi.denotes_iff.mp hd
    rw [← call_valid_iff hi hv c]
    constructor
    · intro h k' hc
      exact (call_inv hi hv hc).denotes_iff.mp (h k' hc)
    · intro h k' hc
      exact (call_inv hi hv hc).denotes_iff.mpr (h k' hc)
  · intro k c k' hi hd _ hc
    exact call_inv hi (hi.denotes_iff.mp hd) hc

def fileA : CStr := ⟨[0x61],by decide⟩

/-- A file is opened and removed; its descriptor stays in use. -/
theorem descriptors_denote_fails :
    ¬ ∀ (old : Fs) (lives : Nat → Nat) (fds : Nat → FdEntry) (cs : List KernelCall),
      Always Kernel.call Denotes cs (bootKernel old lives fds) := by
  intro h
  have hrun : (runFrom Kernel.call [.sysOpen fileA O_CREAT,.fsRm fileA]
      (bootKernel blankFs (fun _ => 0) fun _ => ⟨.none,false,none,0,0,false,[]⟩)).map
        (fun k => ((k.fds 3).used,(k.fds 3).type,(k.fds 3).data,(k.fs.nodes 5).type)) =
      some (true,.ramfile,some ⟨5,1⟩,.free) := by decide +kernel
  obtain ⟨k,hk,hparts⟩ := Option.map_eq_some_iff.mp hrun
  simp only [Prod.mk.injEq] at hparts
  obtain ⟨hu,ht,hdata,hfree⟩ := hparts
  obtain ⟨p,hpoints,_⟩ := h _ _ _ _ _ [] k (List.append_nil _).symm hk 3 ⟨by decide,hu,ht⟩
  have hfile := hpoints.file
  rw [← Option.some_inj.mp (hdata.symm.trans hpoints.data),hfree] at hfile
  cases hfile

end MyKernel.Syscall
