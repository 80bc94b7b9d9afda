import MyKernel.RamFs.Undo

/-! Two tasks in `fs_write_bin` at once, between whose critical sections the other may run. -/
namespace MyKernel.RamFs
open CString

variable {s t : Fs} {n : FsNode} {idx : Nat} {name d : List UInt8} {data : Bool → List UInt8} {r : FsResult}
  {b c : Bool} {sched : List Bool}

/-- Where a call of `fs_write_bin` stands between two critical sections. -/
inductive WriterPc where
  | start | touching
  | relock (r : FsResult)
  | done (r : FsResult)
  deriving DecidableEq

def writeFound (s : Fs) (data : List UInt8) : Option Nat → FsResult × Fs
  | none => (.notFound,s)
  | some idx =>
    if (s.nodes idx).type ≠ .file then (.isADirectory,s)
    else (.ok,s.setNode idx (filledWith (s.nodes idx) data))

def writerStep (name data : List UInt8) (s : Fs) : WriterPc → WriterPc × Fs
  | .start =>
    if FS_FILE_MAX≤data.length then (.done .tooBig,s)
    else match fsFindChild s s.cwd name with
      | none => (.touching,s)
      | some idx => ((.done (writeFound s data (some idx)).1),(writeFound s data (some idx)).2)
  | .touching => (.relock (fsTouch s name).1,(fsTouch s name).2)
  | .relock r =>
    if r ≠ .ok then (.done r,s)
    else (.done (writeFound s data (fsFindChild s s.cwd name)).1,(writeFound s data (fsFindChild s s.cwd name)).2)
  | .done r => (.done r,s)

structure Writers where
  fs : Fs
  pc : Bool → WriterPc

def Writers.step (name : List UInt8) (data : Bool → List UInt8) (w : Writers) (b : Bool) : Writers where
  fs := (writerStep name (data b) w.fs (w.pc b)).2
  pc c := if c=b then (writerStep name (data b) w.fs (w.pc b)).1 else w.pc c

def Writers.run (name : List UInt8) (data : Bool → List UInt8) (sched : List Bool) (w : Writers) : Writers :=
  sched.foldl (Writers.step name data) w

def Writers.entered (s : Fs) : Writers := ⟨s,fun _ => .start⟩

theorem Writers.step_pc_self (w : Writers) :
    (w.step name data b).pc b=(writerStep name (data b) w.fs (w.pc b)).1 := if_pos rfl

theorem Writers.step_pc_other (w : Writers) (h : c≠b) : (w.step name data b).pc c=w.pc c := if_neg h

theorem Writers.run_invariant {P : Writers → Prop} {w : Writers} (h : P w)
    (hstep : ∀ w b, P w → P (w.step name data b)) (sched : List Bool) : P (w.run name data sched) := by
  induction sched generalizing w with
  | nil => exact h
  | cons b sched ih => exact ih (hstep w b h)

/-- A task that runs its sections without the other one in between does what the sequential model says. -/
theorem Writers.run_alone (s : Fs) (b : Bool) :
    ((Writers.entered s).run name data [b,b,b]).pc b = .done (fsWriteBin s name (data b)).1 ∧
      ((Writers.entered s).run name data [b,b,b]).fs=(fsWriteBin s name (data b)).2 := by
  simp only [Writers.run,List.foldl_cons,List.foldl_nil,Writers.step,if_true,Writers.entered]
  by_cases hbig : FS_FILE_MAX≤(data b).length
  · simp [writerStep,fsWriteBin,hbig]
  cases hf : fsFindChild s s.cwd name with
  | some idx =>
    by_cases ht : (s.nodes idx).type = .file
    all_goals simp [writerStep,writeFound,fsWriteBin,findOrTouch,hbig,hf,ht,filledWith]
  | none =>
    rcases hout : fsTouch s name with ⟨r,t⟩
    cases r with
    | ok =>
      cases hf' : fsFindChild t t.cwd name with
      | none => simp [writerStep,writeFound,fsWriteBin,findOrTouch,hbig,hf,hout,hf']
      | some idx =>
        by_cases ht : (t.nodes idx).type = .file
        all_goals simp [writerStep,writeFound,fsWriteBin,findOrTouch,hbig,hf,hout,hf',ht,filledWith]
    | _ => simp [writerStep,fsWriteBin,findOrTouch,hbig,hf,hout]

structure Present (s : Fs) (name : List UInt8) (idx : Nat) : Prop where
  inv : FsInv s
  found : fsFindChild s s.cwd name=some idx
  file : (s.nodes idx).type = .file

theorem Present.write (h : Present s name idx) (h0 : 0∉name) (hd : d.length<FS_FILE_MAX) :
    writeFound s d (some idx)=(.ok,s.setNode idx (filledWith (s.nodes idx) d)) ∧
      Present (s.setNode idx (filledWith (s.nodes idx) d)) name idx := by
  have hsame : fsFindChild (s.setNode idx (filledWith (s.nodes idx) d)) s.cwd name=some idx :=
    (findChild_setNode_same (n := filledWith (s.nodes idx) d) rfl rfl rfl).trans h.found
  have hinv : FsInv (s.setNode idx (filledWith (s.nodes idx) d)) := by
    have hw := @fsWriteBin_inv s name d h.inv h0
    rw [show fsWriteBin s name d=fsWrite s name d from rfl,fsWrite_found h.found h.file hd] at hw
    exact hw
  refine ⟨?_,hinv,hsame,?_⟩
  · simp [writeFound,h.file]
  · rw [setNode_self]
    exact h.file

theorem Present.touch (h : Present s name idx) : ∃ r, r ≠ .ok ∧ fsTouch s name=(r,s) := by
  rcases fsTouch_cases s name with hfail | ⟨i,n,ha,he⟩
  · exact hfail
  · obtain ⟨_,hc,_⟩ := fsTouch_ok he
    have hfresh := hc.fresh
    rw [h.found] at hfresh
    cases hfresh

theorem Present.step (h : Present s name idx) (h0 : 0∉name) (hd : d.length<FS_FILE_MAX) (pc : WriterPc) :
    Present (writerStep name d s pc).2 name idx := by
  obtain ⟨hwrite,hpresent⟩ := h.write h0 hd
  cases pc with
  | start =>
    simp only [writerStep,if_neg (Nat.not_le.mpr hd),h.found,hwrite]
    exact hpresent
  | touching =>
    obtain ⟨r,_,ht⟩ := h.touch
    simp only [writerStep,ht]
    exact h
  | relock r =>
    by_cases hr : r = .ok
    · simp only [writerStep,hr,ne_eq,not_true,if_false,h.found,hwrite]
      exact hpresent
    · simp only [writerStep,ne_eq,hr,not_false_eq_true,if_true]
      exact h
  | done r => exact h

/-- No call has failed or can fail, and once a call is through, the file holds the data of one of them. -/
structure GoingWell (name : List UInt8) (data : Bool → List UInt8) (idx : Nat) (w : Writers) : Prop where
  present : Present w.fs name idx
  pcs : ∀ b, w.pc b = .start ∨ w.pc b = .relock .ok ∨ w.pc b = .done .ok
  content : (∃ b, w.pc b = .done .ok) → ∃ b, contentOf (w.fs.nodes idx)=data b

theorem GoingWell.step {w : Writers} (h : GoingWell name data idx w) (h0 : 0∉name)
    (hd : ∀ b, (data b).length<FS_FILE_MAX) (b : Bool) : GoingWell name data idx (w.step name data b) := by
  obtain ⟨hwrite,_⟩ := h.present.write h0 (hd b)
  have hpresent := h.present.step h0 (hd b) (w.pc b)
  have hbig := Nat.not_le.mpr (hd b)
  -- a call at its start or back with the lock writes its data; one that is through does nothing
  have hnext : (writerStep name (data b) w.fs (w.pc b)).1 = .done .ok ∧
      (contentOf ((writerStep name (data b) w.fs (w.pc b)).2.nodes idx)=data b ∨
        (writerStep name (data b) w.fs (w.pc b)).2=w.fs ∧ w.pc b = .done .ok) := by
    rcases h.pcs b with hpc | hpc | hpc
    · simp only [hpc,writerStep,if_neg hbig,h.present.found,hwrite,setNode_self,contentOf_filledWith,
        true_or,and_self]
    · simp only [hpc,writerStep,ne_eq,not_true,if_false,h.present.found,hwrite,setNode_self,
        contentOf_filledWith,true_or,and_self]
    · exact ⟨by rw [hpc]; rfl,.inr ⟨by rw [hpc]; rfl,hpc⟩⟩
  refine ⟨hpresent,?_,?_⟩
  · intro c
    by_cases hc : c=b
    · rw [hc,Writers.step_pc_self]
      exact .inr (.inr hnext.1)
    · rw [Writers.step_pc_other w hc]
      exact h.pcs c
  · intro _
    rcases hnext.2 with hnew | ⟨hsame,hpc⟩
    · exact ⟨b,hnew⟩
    · obtain ⟨c,hc⟩ := h.content ⟨b,hpc⟩
      exact ⟨c,by rw [Writers.step,hsame,hc]⟩

/-- One of the two calls has lost: its `fs_touch` meets the other's file, or has met it. -/
def OneLost (name : List UInt8) (w : Writers) : Prop :=
  (FsInv w.fs ∧ ∀ b, w.pc b = .touching) ∨ ∃ b, (w.pc b = .touching ∧ ∃ idx, Present w.fs name idx) ∨
    ∃ r, r ≠ .ok ∧ (w.pc b = .relock r ∨ w.pc b = .done r)

theorem OneLost.step {w : Writers} (h : OneLost name w) (h0 : 0∉name)
    (hd : ∀ b, (data b).length<FS_FILE_MAX) (b : Bool) : OneLost name (w.step name data b) := by
  rcases h with ⟨hinv,hboth⟩ | ⟨c,⟨hpc,idx,hpresent⟩ | ⟨r,hr,hpc⟩⟩
  · -- the first of the two to create the file leaves the other to fail
    rcases hout : fsTouch w.fs name with ⟨r,t⟩
    by_cases hr : r = .ok
    · subst hr
      obtain ⟨idx,hc,ht⟩ := fsTouch_ok hout
      refine .inr ⟨!b,.inl ⟨?_,idx,?_⟩⟩
      · rw [Writers.step_pc_other w (by simp)]
        exact hboth (!b)
      · have hfs : (w.step name data b).fs=t := by simp [Writers.step,hboth b,writerStep,hout]
        have hinv' := @fsTouch_inv w.fs name hinv h0
        rw [hout] at hinv'
        rw [hfs]
        refine ⟨hinv',?_,?_⟩
        · rw [ht]
          exact hc.found h0
        · rw [ht,setNode_self]
          rfl
    · refine .inr ⟨b,.inr ⟨r,hr,.inl ?_⟩⟩
      rw [Writers.step_pc_self,hboth b]
      simp [writerStep,hout]
  · by_cases hcb : c=b
    · obtain ⟨r,hr,ht⟩ := hpresent.touch
      refine .inr ⟨b,.inr ⟨r,hr,.inl ?_⟩⟩
      rw [Writers.step_pc_self,← hcb,hpc]
      simp [writerStep,ht]
    · refine .inr ⟨c,.inl ⟨?_,idx,hpresent.step h0 (hd b) _⟩⟩
      rw [Writers.step_pc_other w hcb,hpc]
  · refine .inr ⟨c,.inr ⟨r,hr,?_⟩⟩
    by_cases hcb : c=b
    · right
      rw [← hcb,Writers.step_pc_self]
      rcases hpc with hpc | hpc
      · simp [hpc,writerStep,hr]
      · simp [hpc,writerStep]
    · rw [Writers.step_pc_other w hcb]
      exact hpc

/-- Both calls report success, one node carries the name, and it holds the data of one of them. -/
def BothWritten (name : List UInt8) (data : Bool → List UInt8) (w : Writers) : Prop :=
  (∀ b, w.pc b = .done .ok) ∧
    ∃ idx, (∀ i, Live w.fs i ∧ (w.fs.nodes i).parent=some w.fs.cwd ∧ nameOf (w.fs.nodes i)=name ↔ i=idx) ∧
      (w.fs.nodes idx).type = .file ∧ ∃ b, contentOf (w.fs.nodes idx)=data b

theorem GoingWell.bothWritten {w : Writers} (h : GoingWell name data idx w) (h0 : 0∉name)
    (hdone : ∀ b, ∃ r, w.pc b = .done r) : BothWritten name data w := by
  have hok : ∀ b, w.pc b = .done .ok := by
    intro b
    obtain ⟨r,hr⟩ := hdone b
    have hpc := h.pcs b
    rw [hr] at hpc ⊢
    simpa using hpc
  refine ⟨hok,idx,?_,h.present.file,h.content ⟨true,hok true⟩⟩
  intro i
  rw [← h.present.inv.findChild_iff h0,h.present.found,Option.some_inj,eq_comm]

theorem OneLost.not_bothWritten {w : Writers} (h : OneLost name w) : ¬ BothWritten name data w := by
  rintro ⟨hok,_⟩
  rcases h with ⟨_,hboth⟩ | ⟨b,⟨hpc,_⟩ | ⟨r,hr,hpc | hpc⟩⟩
  · have hpc := hboth true
    rw [hok true] at hpc
    cases hpc
  · rw [hok b] at hpc
    cases hpc
  · rw [hok b] at hpc
    cases hpc
  · rw [hok b] at hpc
    exact hr (WriterPc.done.inj hpc).symm

theorem Writers.step_start {w : Writers} (hpc : w.pc b = .start) (hnew : fsFindChild w.fs w.fs.cwd name=none)
    (hd : (data b).length<FS_FILE_MAX) : (w.step name data b).fs=w.fs ∧ (w.step name data b).pc b = .touching := by
  have hbig := Nat.not_le.mpr hd
  rw [Writers.step_pc_self]
  simp [Writers.step,writerStep,hpc,hnew,hbig]

theorem goingWell_first (hinv : FsInv s) (h0 : 0∉name) (hv : fsIsValidName name=true)
    (hnew : fsFindChild s s.cwd name=none) (ha : fsAllocNode s=some idx) (hd : (data b).length<FS_FILE_MAX) :
    GoingWell name data idx (((Writers.entered s).step name data b).step name data b) := by
  have htouch : fsTouch s name=(.ok,s.setNode idx (touched s name idx)) := by simp [fsTouch,hv,hnew,ha,touched]
  have hc : Created s name idx (touched s name idx) := ⟨hv,hnew,ha,by simp [touched],rfl,rfl⟩
  obtain ⟨hfs,hpc⟩ := @Writers.step_start name data b (Writers.entered s) rfl hnew hd
  refine ⟨?_,?_,?_⟩
  · have hfs' : (((Writers.entered s).step name data b).step name data b).fs=s.setNode idx (touched s name idx) := by
      rw [Writers.step,hpc,hfs]
      simp [writerStep,Writers.entered,htouch]
    have hinv' := @fsTouch_inv s name hinv h0
    rw [htouch] at hinv'
    rw [hfs']
    exact ⟨hinv',hc.found h0,by rw [setNode_self]; rfl⟩
  · intro c
    by_cases hcb : c=b
    · rw [hcb,Writers.step_pc_self,hpc,hfs]
      simp [writerStep,Writers.entered,htouch]
    · rw [Writers.step_pc_other _ hcb,Writers.step_pc_other _ hcb]
      exact .inl rfl
  · rintro ⟨c,hpc'⟩
    by_cases hcb : c=b
    · rw [hcb,Writers.step_pc_self,hpc] at hpc'
      cases hpc'
    · rw [Writers.step_pc_other _ hcb,Writers.step_pc_other _ hcb] at hpc'
      cases hpc'

theorem oneLost_both (hinv : FsInv s) (hnew : fsFindChild s s.cwd name=none)
    (hd : ∀ b, (data b).length<FS_FILE_MAX) (hbc : c≠b) :
    OneLost name (((Writers.entered s).step name data b).step name data c) := by
  obtain ⟨hfs,hpc⟩ := @Writers.step_start name data b (Writers.entered s) rfl hnew (hd b)
  have hstill : ((Writers.entered s).step name data b).pc c = .start := Writers.step_pc_other _ hbc
  obtain ⟨hfs',hpc'⟩ := @Writers.step_start name data c ((Writers.entered s).step name data b) hstill
    (by rw [hfs]; exact hnew) (hd c)
  refine .inl ⟨by rw [hfs',hfs]; exact hinv,?_⟩
  intro e
  by_cases hec : e=c
  · rw [hec,hpc']
  · have heb : e=b := by rw [Bool.eq_not.mpr hec,Bool.eq_not.mpr hbc,Bool.not_not]
    rw [Writers.step_pc_other _ hec,heb,hpc]

/-- All goes well exactly when the first task creates the file before the second looks for it. -/
theorem concurrent_writers_iff (hr : FsReachable s) (name : CStr) (hv : fsIsValidName name.bytes=true)
    (hnew : fsFindChild s s.cwd name.bytes=none) (hfree : fsAllocNode s≠none)
    (data : Bool → List UInt8) (hd : ∀ b, (data b).length<8192) (sched : List Bool)
    (hdone : ∀ b, ∃ r, ((Writers.entered s).run name.bytes data sched).pc b = .done r) :
    BothWritten name.bytes data ((Writers.entered s).run name.bytes data sched) ↔
      ∃ b rest, sched=b::b::rest := by
  have hinv := fsReachable_inv hr
  have h0 := name.nul_free
  cases sched with
  | nil =>
    obtain ⟨r,hr⟩ := hdone true
    cases hr
  | cons a sched =>
    cases sched with
    | nil =>
      obtain ⟨_,hpc⟩ := @Writers.step_start name.bytes data a (Writers.entered s) rfl hnew (hd a)
      obtain ⟨r,hr⟩ := hdone a
      change ((Writers.entered s).step name.bytes data a).pc a = .done r at hr
      rw [hpc] at hr
      cases hr
    | cons b sched =>
      by_cases hab : b=a
      · subst hab
        refine iff_of_true ?_ ⟨b,sched,rfl⟩
        obtain ⟨idx,ha⟩ := Option.ne_none_iff_exists'.mp hfree
        have hwell := goingWell_first hinv h0 hv hnew ha (hd b)
        exact (Writers.run_invariant hwell (fun w c hw => hw.step h0 hd c) sched).bothWritten h0 hdone
      · refine iff_of_false ?_ ?_
        · have hlost := oneLost_both hinv hnew hd hab
          exact (Writers.run_invariant hlost (fun w c hw => hw.step h0 hd c) sched).not_bothWritten
        · rintro ⟨c,rest,he⟩
          simp only [List.cons.injEq] at he
          exact hab (he.2.1.trans he.1.symm)

/-- The first task is through before the second begins. -/
theorem concurrent_writers_one_after_the_other :
    BothWritten [0x61] (fun b => if b then [1] else [2])
      ((Writers.entered (fsInit blankFs)).run [0x61] (fun b => if b then [1] else [2])
        [true,true,true,false,false,false]) := by
  refine (concurrent_writers_iff (.init ⟨blankFs,rfl⟩) ⟨[0x61],by decide⟩ (by decide) (by decide +kernel)
    (by decide +kernel) (fun b => if b then [1] else [2]) (by decide) _ ?_).mpr ⟨true,_,rfl⟩
  intro b
  refine ⟨.ok,?_⟩
  cases b <;> decide +kernel

/-- Both tasks find the name free; the second `fs_touch` fails, and so does its call. -/
theorem concurrent_writer_fails :
    ¬ ∀ (s : Fs) (name : CStr) (data : Bool → List UInt8) (sched : List Bool), FsReachable s →
      fsIsValidName name.bytes=true → fsFindChild s s.cwd name.bytes=none → fsAllocNode s≠none →
      (∀ b, (data b).length<8192) →
      (∀ b, ∃ r, ((Writers.entered s).run name.bytes data sched).pc b = .done r) →
      BothWritten name.bytes data ((Writers.entered s).run name.bytes data sched) := by
  intro hall
  have htrue : ((Writers.entered (fsInit blankFs)).run [0x61] (fun _ => [])
      [true,false,true,false,true,false]).pc true = .done .ok := by decide +kernel
  have hfalse : ((Writers.entered (fsInit blankFs)).run [0x61] (fun _ => [])
      [true,false,true,false,true,false]).pc false = .done .alreadyExists := by decide +kernel
  have hboth := hall (fsInit blankFs) ⟨[0x61],by decide⟩ (fun _ => []) [true,false,true,false,true,false]
    (.init ⟨blankFs,rfl⟩) (by decide) (by decide +kernel) (by decide +kernel) (by decide)
  obtain ⟨hok,_⟩ := hboth fun b => by
    cases b
    · exact ⟨_,hfalse⟩
    · exact ⟨_,htrue⟩
  have hok := (hok false).symm.trans hfalse
  cases hok

end MyKernel.RamFs
