import MyKernel.RamFs.Atomic
import MyKernel.Syscall.Positions

/-! What an open that fails leaves behind. -/
namespace MyKernel.Syscall
open CString RamFs

variable {k : Kernel} {s : Fs} {path : List UInt8} {flags : UInt32} {r : FsResult}

def FailsInert (k : Kernel) (path : List UInt8) (flags : UInt32) : Prop :=
  ∀ e, (sysOpen k path flags).1 = .error e →
    (sysOpen k path flags).2.fs=k.fs ∧ (sysOpen k path flags).2.fds=k.fds

/-- The call creates a file and then finds no descriptor for it. -/
structure CreatesInVain (k : Kernel) (path : List UInt8) (flags : UInt32) : Prop where
  creat : flags &&& O_CREAT≠0
  touch : (fsTouch k.fs path).1 = .ok
  full : fdAlloc k=none

theorem fsTouch_ok (h : (fsTouch s path).1 = .ok) (h0 : 0∉path) : path≠[] ∧ fsFindChild s s.cwd path=none ∧
    ∃ idx, fsAllocNode s=some idx ∧ Opened s (fsTouch s path).2 path idx := by
  by_cases hv : fsIsValidName path=true
  · by_cases hf : fsFindChild s s.cwd path=none
    · cases ha : fsAllocNode s with
      | none =>
        simp [fsTouch,hv,hf,ha] at h
      | some idx =>
        have ht : (fsTouch s path).2=s.setNode idx (touched s path idx) := by
          simp [fsTouch,hv,hf,ha,touched]
        refine ⟨?_,hf,idx,rfl,?_⟩
        · rintro rfl
          exact absurd hv (by decide)
        · rw [ht]
          exact opened_touched h0 hv hf ha
    · simp [fsTouch,hv,hf] at h
  · simp [fsTouch,hv] at h

/-- Where `fs_touch` fails, `fs_write` fails as well. -/
theorem createFile_failed (h0 : 0∉path) (hread : fsRead s path = .error r) (ht : (fsTouch s path).1 ≠ .ok) :
    createFile s path=(false,s) := by
  have hsame : (fsTouch s path).2=s := fsTouch_atomic ht
  have hwrite : ∃ r', r' ≠ .ok ∧ fsWrite s path []=(r',s) := by
    rcases fsWriteBin_outcome s [] h0 with hfailed | ⟨t,hwrite,_⟩
    · exact hfailed
    · -- a write that succeeds has found a file, or created one
      exfalso
      rw [fsWriteBin,if_neg (by decide)] at hwrite
      cases hf : fsFindChild s s.cwd path with
      | some idx =>
        rw [findOrTouch,hf] at hwrite
        simp only [if_pos (fsRead_error hread hf)] at hwrite
        cases hwrite
      | none =>
        have hfind : findOrTouch s path=((fsTouch s path).1,none,s) := by
          simp only [findOrTouch,hf,if_pos ht,hsame]
        rw [hfind] at hwrite
        split at hwrite
        next h => exact ht (congrArg Prod.fst h)
        next h => exact ht (congrArg Prod.fst h)
        next h =>
          rw [(Prod.mk.inj h).1] at ht
          exact ht (congrArg Prod.fst hwrite)
  obtain ⟨r',hr,hwrite⟩ := hwrite
  simp only [createFile,if_neg ht,hsame,hwrite,beq_eq_false_iff_ne.mpr hr]

theorem fdAlloc_setFs (k : Kernel) (fs : Fs) : fdAlloc (k.setFs fs)=fdAlloc k := rfl

theorem openNode_error {idx : Nat} {e : Errno} (h : (openNode k idx path flags).1 = .error e) :
    fdAlloc k=none ∧ (openNode k idx path flags).2=k := by
  rw [openNode] at h ⊢
  cases ha : fdAlloc k with
  | none => exact ⟨rfl,rfl⟩
  | some fd =>
    rw [ha] at h
    cases h

theorem sysOpen_created (h0 : 0∉path) (hcreat : flags &&& O_CREAT≠0) (htouch : (fsTouch k.fs path).1 = .ok) :
    ∃ idx, fsAllocNode k.fs=some idx ∧ Opened k.fs (fsTouch k.fs path).2 path idx ∧
      sysOpen k path flags=openNode (k.setFs (fsTouch k.fs path).2) idx path flags := by
  obtain ⟨hne,hfind,idx,halloc,hopened⟩ := fsTouch_ok htouch h0
  have hread : fsRead k.fs path = .error .notFound := by rw [fsRead,hfind]
  have hagain : fsRead (k.setFs (fsTouch k.fs path).2).fs path = .ok idx := fsRead_found hopened.found hopened.file
  refine ⟨idx,halloc,hopened,?_⟩
  simp only [sysOpen,if_neg hne,hread,if_neg hcreat,createFile,if_pos htouch,Bool.not_true,Bool.false_eq_true,
    if_false,hagain]

theorem CreatesInVain.not_inert (h : CreatesInVain k path flags) (h0 : 0∉path) : ¬ FailsInert k path flags := by
  intro hinert
  obtain ⟨idx,halloc,hopened,hopen⟩ := sysOpen_created h0 h.creat h.touch
  rw [openNode,fdAlloc_setFs,h.full] at hopen
  have hfs := (hinert .emfile (by rw [hopen])).1
  rw [hopen] at hfs
  -- the node was free
  have hfile := hopened.file
  rw [show (fsTouch k.fs path).2=k.fs from hfs,(allocNode_some halloc).2] at hfile
  cases hfile

/-- An open that fails is without effect unless it has created a file and all descriptors are in use. -/
theorem open_failure_inert_iff (k : Kernel) (path : CStr) (flags : UInt32) :
    FailsInert k path.bytes flags ↔ ¬ CreatesInVain k path.bytes flags := by
  constructor
  · exact fun hinert hvain => hvain.not_inert path.nul_free hinert
  · intro hvain e herror
    by_cases hmade : flags &&& O_CREAT≠0 ∧ (fsTouch k.fs path.bytes).1 = .ok
    · obtain ⟨idx,_,_,hopen⟩ := sysOpen_created path.nul_free hmade.1 hmade.2
      rw [hopen] at herror
      exact absurd ⟨hmade.1,hmade.2,(openNode_error herror).1⟩ hvain
    · rw [sysOpen] at herror ⊢
      split at herror
      next hempty =>
        rw [if_pos hempty]
        exact ⟨rfl,rfl⟩
      next hne =>
        rw [if_neg hne]
        cases hread : fsRead k.fs path.bytes with
        | ok idx =>
          rw [hread] at herror
          rw [(openNode_error herror).2]
          exact ⟨rfl,rfl⟩
        | error r =>
          dsimp only
          split
          next => exact ⟨rfl,rfl⟩
          next hcreat =>
            rw [createFile_failed path.nul_free hread fun htouch => hmade ⟨hcreat,htouch⟩]
            exact ⟨rfl,rfl⟩

/-- Standard input is duplicated until no descriptor is left. -/
def fullKernel : Kernel := (List.replicate 29 (FdCall.sysDup 0)).foldl FdCall.run freshKernel

theorem fullKernel_vain : CreatesInVain fullKernel fileA.bytes O_CREAT := by
  have hfacts : (fsTouch fullKernel.fs fileA.bytes).1 = .ok ∧ fdAlloc fullKernel=none := by decide +kernel
  exact ⟨by decide,hfacts.1,hfacts.2⟩

theorem open_failure_not_inert : ¬ ∀ (k : Kernel) (path : CStr) (flags : UInt32), FailsInert k path.bytes flags :=
  fun hall => fullKernel_vain.not_inert fileA.nul_free (hall _ fileA _)

end MyKernel.Syscall
