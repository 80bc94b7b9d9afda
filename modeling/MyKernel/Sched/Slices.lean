import MyKernel.Sched.Preempt

/-! Time slices. `ticks_slice` is one counter for all tasks. -/
namespace MyKernel.Sched
open Kmalloc Cyclic Traces

/-- The system with the ticks since the current task became current, and the ticks of the slice before. -/
structure Watched where
  sys : Sys
  ran : Nat
  inherited : Nat

def Watched.next (m : Watched) (a : Act) (sys : Sys) : Watched :=
  if sys.sched.current≠m.sys.sched.current then ⟨sys,0,sys.sched.ticksSlice⟩
  else if a ≠ .tick then ⟨sys,m.ran,m.inherited⟩
  else ⟨sys,m.ran+1,if sys.sched.ticksSlice=0 then 0 else m.inherited⟩

def Watched.act (kmalloc : Allocator) (bootstrap : Nat) (m : Watched) (a : Act) : Option Watched :=
  (m.sys.act kmalloc bootstrap a).map (m.next a)

def watch (sys : Sys) : Watched := ⟨sys,0,0⟩

/-- The tick takes the processor from the current task. -/
def SwitchedOut (s : Scheduler) : Prop := (schedOnTick s).current≠s.current

variable {s t : Scheduler} {m m' : Watched} {a : Act} {kmalloc : Allocator} {bootstrap : Nat}

/-- What a step does to the counter. -/
inductive SliceStep (s t : Scheduler) (a : Act) : Prop where
  | kept (ha : a ≠ .tick) (hcur : t.current=s.current) (hslice : t.ticksSlice=s.ticksSlice)
  | counted (ha : a = .tick) (hcur : t.current=s.current) (hlt : s.ticksSlice+1<TICKS_PER_SLICE)
      (hslice : t.ticksSlice=s.ticksSlice+1)
  | ended (ha : a = .tick) (hcur : t.current=s.current) (hslice : t.ticksSlice=0)
  | renewed (hcur : t.current≠s.current) (hslice : t.ticksSlice=0)
  | handedOn (ha : a = .exit) (hcur : t.current≠s.current) (hslice : t.ticksSlice=s.ticksSlice)

theorem ticksSlice_switchTo {next : Nat} : (switchTo s next).ticksSlice=s.ticksSlice := by
  unfold switchTo preempt
  split
  · rfl
  · rfl

theorem sliceStep_yield (hi : SchedInv s) : SliceStep s (schedYield s) .yield := by
  rcases yield_cases hi with he | ⟨next,hf,he⟩
  · rw [he]
    exact .kept (by simp) rfl rfl
  · rw [he]
    exact .renewed (hi.next_ne hf) rfl

theorem sliceStep_tick (hi : SchedInv s) : SliceStep s (schedOnTick s) .tick := by
  have hs := tickCurrent_same (s := s) 0
  rw [schedOnTick]
  simp only [hi.enabled,Bool.not_true,Bool.false_eq_true,if_false]
  by_cases hslice : TICKS_PER_SLICE≤(tickCurrent s).ticksSlice
  · rw [if_pos hslice]
    split
    next => exact .ended rfl rfl rfl
    next hpick => exact .renewed hpick ticksSlice_switchTo
  · rw [if_neg hslice]
    exact .counted rfl rfl (Nat.not_le.mp hslice) rfl

theorem sliceStep_exit (hi : SchedInv s) : SliceStep s (schedExit s) .exit := by
  by_cases h0 : s.current=0
  · rw [schedExit,hi.ids s.current hi.bound,if_pos h0]
    exact .kept (by simp) rfl rfl
  · obtain ⟨next,hf,hne⟩ := hi.exit_picks h0
    rw [exit_eq hi h0 hf]
    exact .handedOn rfl hne rfl

theorem sliceStep_act {s t : Sys} (hi : SchedInv s.sched) (h : s.act kmalloc bootstrap a=some t) :
    SliceStep s.sched t.sched a := by
  cases a with
  | spawn new =>
    obtain ⟨r,hr,rfl⟩ := Option.map_eq_some_iff.mp h
    rcases schedSpawn_cases hr with ⟨_,rfl⟩ | ⟨i,stack,heap,_,rfl⟩
    · exact .kept (by simp) rfl rfl
    · simp only [startTask]
      split
      · exact .kept (by simp) rfl rfl
      · exact .kept (by simp) rfl rfl
  | yield => exact Option.some_inj.mp h ▸ sliceStep_yield hi
  | tick => exact Option.some_inj.mp h ▸ sliceStep_tick hi
  | exit => exact Option.some_inj.mp h ▸ sliceStep_exit hi

/-- The counter does not pass the ticks of the current task, unless its slice had already begun. -/
structure Counts (slice ran inherited : Nat) : Prop where
  lt : slice<TICKS_PER_SLICE
  own : inherited=0 → slice≤ran
  begun : inherited≠0 → slice=ran+inherited

structure Watching (m : Watched) : Prop where
  inv : SchedInv m.sys.sched
  counts : Counts m.sys.sched.ticksSlice m.ran m.inherited

theorem counts_fresh (ran : Nat) : Counts 0 ran 0 :=
  ⟨by decide,fun _ => Nat.zero_le ran,fun hbegun => absurd rfl hbegun⟩

theorem Counts.tick {slice ran inherited : Nat} (h : Counts slice ran inherited) (hlt : slice+1<TICKS_PER_SLICE) :
    Counts (slice+1) (ran+1) inherited := by
  refine ⟨hlt,?_,?_⟩
  · intro hown
    exact Nat.succ_le_succ (h.own hown)
  · intro hbegun
    rw [h.begun hbegun]
    omega

theorem Counts.handOn {slice ran inherited : Nat} (h : Counts slice ran inherited) : Counts slice 0 slice :=
  ⟨h.lt,fun hown => Nat.le_of_eq hown,fun _ => (Nat.zero_add slice).symm⟩

theorem Watching.next {sys : Sys} (h : Watching m) (hstep : SliceStep m.sys.sched sys.sched a)
    (hinv : SchedInv sys.sched) : Watching (m.next a sys) := by
  cases hstep with
  | kept ha hcur hslice =>
    rw [Watched.next,if_neg (not_not.mpr hcur),if_pos ha]
    exact ⟨hinv,hslice ▸ h.counts⟩
  | counted ha hcur hlt hslice =>
    rw [Watched.next,if_neg (not_not.mpr hcur),if_neg (not_not.mpr ha),if_neg (by omega)]
    exact ⟨hinv,hslice ▸ h.counts.tick hlt⟩
  | ended ha hcur hslice =>
    rw [Watched.next,if_neg (not_not.mpr hcur),if_neg (not_not.mpr ha),if_pos hslice]
    exact ⟨hinv,hslice ▸ counts_fresh (m.ran+1)⟩
  | renewed hcur hslice =>
    rw [Watched.next,if_pos hcur,hslice]
    exact ⟨hinv,hslice ▸ counts_fresh 0⟩
  | handedOn ha hcur hslice =>
    rw [Watched.next,if_pos hcur,hslice]
    exact ⟨hinv,hslice ▸ h.counts.handOn⟩

theorem Watching.act (h : Watching m) (hm : m.act kmalloc bootstrap a=some m') : Watching m' := by
  obtain ⟨sys,hsys,rfl⟩ := Option.map_eq_some_iff.mp hm
  exact h.next (sliceStep_act h.inv hsys) ((act_step h.inv hsys).inv h.inv)

theorem watching_boot (old : Scheduler) (heap : Heap) : Watching (watch ⟨schedInit old,heap⟩) :=
  ⟨schedInit_inv old,counts_fresh 0⟩

theorem switchedOut_iff (hi : SchedInv s) : SwitchedOut s ↔ Preempts s := by
  constructor
  · intro hout
    rcases tick_cases hi with ⟨n,he⟩ | ⟨next,hf,hslice,_⟩
    · rw [SwitchedOut,he] at hout
      exact absurd rfl hout
    · exact ⟨hslice,next,firstAfter_ready hf⟩
  · rintro ⟨hslice,j,hj,hready⟩
    exact tick_switches hi hj hready hslice

/-- In a run from boot the timer takes the processor only from tasks that have had their ten ticks, exactly when
it never takes it from a task in the slice that the task has inherited. -/
theorem full_slices_iff (kmalloc : Allocator) (bootstrap : Nat) (old : Scheduler) (heap : Heap) (as : List Act) :
    EachStep (Watched.act kmalloc bootstrap)
      (fun m a => a = .tick → SwitchedOut m.sys.sched → TICKS_PER_SLICE ≤ m.ran+1) as
      (watch ⟨schedInit old,heap⟩) ↔
    EachStep (Watched.act kmalloc bootstrap) (fun m a => a = .tick → Preempts m.sys.sched → m.inherited=0) as
      (watch ⟨schedInit old,heap⟩) := by
  apply eachStep_congr (I := Watching) _ (fun m a m' h hm => h.act hm) (watching_boot old heap)
  intro m a h
  rw [switchedOut_iff h.inv]
  apply forall_congr'
  intro _
  apply forall_congr'
  intro hpre
  have hlt := h.counts.lt
  have hfull := hpre.1
  constructor
  · intro hran
    by_contra hbegun
    have hslice := h.counts.begun hbegun
    omega
  · intro hown
    have hslice := h.counts.own hown
    omega

/-- The first of two workers ends after five ticks; the second one has the processor for the other five. -/
theorem slice_cut_short :
    ¬ ∀ (bootstrap : Nat) (old : Scheduler) (heap : Heap) (as : List Act),
      EachStep (Watched.act Kmalloc.kmalloc bootstrap)
        (fun m a => a = .tick → SwitchedOut m.sys.sched → TICKS_PER_SLICE ≤ m.ran+1) as
        (watch ⟨schedInit old,heap⟩) := by
  intro h
  have hrun : EachStep (Watched.act Kmalloc.kmalloc 0x100000) _
      ([.spawn ⟨none,0,0⟩,.spawn ⟨none,0,0⟩,.yield]++List.replicate 5 .tick++.exit::List.replicate 5 .tick)
      (watch bootSys) := h 0x100000 ⟨fun _ => ⟨0,.free,[],0,0,0,0⟩,0,false,0⟩ (kmallocInit fun _ => 0) _
  obtain ⟨m,hm,hran,hout⟩ : ∃ m, runFrom (Watched.act Kmalloc.kmalloc 0x100000)
      ([.spawn ⟨none,0,0⟩,.spawn ⟨none,0,0⟩,.yield]++List.replicate 5 .tick++.exit::List.replicate 4 .tick)
      (watch bootSys)=some m ∧ m.ran=4 ∧ (schedOnTick m.sys.sched).current≠m.sys.sched.current :=
    ⟨_,rfl,rfl,by decide⟩
  have hlate := hrun _ .tick [] m rfl hm rfl hout
  rw [hran] at hlate
  exact absurd hlate (by decide)

end MyKernel.Sched
