import MyKernel.Sched.Fairness

/-! The timer interrupt. Only a task left in `sched_on_tick` gets back to the `pic_send_eoi` of `irq_handler`. -/
namespace MyKernel.Sched
open Memory Kmalloc Cyclic Traces

/-- The call of `context_switch` a task returns from. A new task starts in `task_bootstrap`. -/
inductive Resume where
  | fresh | inYield | inTick | inExit
  deriving DecidableEq, Repr

/-- The PIC sets `irq0InService` when it delivers IRQ0. -/
structure Machine where
  sys : Sys
  gTicks : Nat
  irq0InService : Bool
  resume : Nat → Resume

variable {m m' : Machine} {kmalloc : Allocator} {bootstrap j : Nat} {s t : Scheduler}

def picSendEoi (m : Machine) : Machine := { m with irq0InService := false }

/-- The way back to the task's own code, through the end of `irq_handler` after `sched_on_tick`. -/
def goOn (m : Machine) : Resume → Machine
  | .inTick => picSendEoi m
  | .fresh => m
  | .inYield => m
  | .inExit => m

/-- The task that is left can be resumed at `left`; the stack pointer of the next one is an argument,
read before that. -/
def contextSwitch (m : Machine) (left : Resume) (sched : Scheduler) : Machine :=
  goOn
    { m with
      sys := { m.sys with sched := sched },
      resume := fun i => if i=m.sys.sched.current then left else m.resume i }
    (m.resume sched.current)

/-- `left` is also where the task goes on that is not left at all. -/
def maySwitch (m : Machine) (left : Resume) (sched : Scheduler) : Machine :=
  if sched.current=m.sys.sched.current then goOn { m with sys := { m.sys with sched := sched } } left
  else contextSwitch m left sched

def timerCount (m : Machine) : Machine :=
  { m with irq0InService := true, gTicks := u32 (m.gTicks+1) }

/-- `irq_handler` for IRQ0, with `timer_callback` in it. It is not entered while IRQ0 is in service. -/
def irqHandler (m : Machine) : Machine :=
  if m.irq0InService then m else maySwitch (timerCount m) .inTick (schedOnTick m.sys.sched)

def exitTask (m : Machine) : Machine :=
  if (m.sys.sched.tasks m.sys.sched.current).id=0 then m
  else contextSwitch m .inExit (schedExit m.sys.sched)

def spawned (m : Machine) (r : Option Nat × Scheduler × Heap) : Machine :=
  { m with
    sys := ⟨r.2.1,r.2.2⟩,
    resume := fun i => if r.1.isSome && freeSlot m.sys.sched == some i then .fresh else m.resume i }

/-- From one state in which a task runs its own code to the next. -/
def Machine.act (kmalloc : Allocator) (bootstrap : Nat) (m : Machine) : Act → Option Machine
  | .spawn new => (schedSpawn kmalloc bootstrap m.sys.sched m.sys.heap new).map (spawned m)
  | .yield => some (maySwitch m .inYield (schedYield m.sys.sched))
  | .tick => some (irqHandler m)
  | .exit => some (exitTask m)

def bootMachine (sys : Sys) (gTicks : Nat) (resume : Nat → Resume) : Machine :=
  ⟨sys,gTicks,false,resume⟩

/-- The PIC delivers the next tick. -/
def Armed (m : Machine) : Prop := m.irq0InService=false

/-- The tick would complete a slice while another task is ready. -/
def Preempts (s : Scheduler) : Prop :=
  TICKS_PER_SLICE ≤ s.ticksSlice+1 ∧ ∃ j, j<SCHED_MAX_TASKS ∧ stateOf s j = .ready

theorem goOn_sys (r : Resume) : (goOn m r).sys=m.sys := by
  cases r with
  | fresh => rfl
  | inYield => rfl
  | inTick => rfl
  | inExit => rfl

theorem goOn_resume (r : Resume) : (goOn m r).resume=m.resume := by
  cases r with
  | fresh => rfl
  | inYield => rfl
  | inTick => rfl
  | inExit => rfl

theorem goOn_inService (r : Resume) : (goOn m r).irq0InService=false ↔ r = .inTick ∨ m.irq0InService=false := by
  cases r with
  | fresh | inYield => simp [goOn]
  | inTick => simp [goOn,picSendEoi]
  | inExit => simp [goOn]

theorem maySwitch_same {left : Resume} (h : t.current=m.sys.sched.current) :
    maySwitch m left t=goOn { m with sys := { m.sys with sched := t } } left := if_pos h

theorem maySwitch_other {left : Resume} (h : t.current≠m.sys.sched.current) :
    maySwitch m left t=contextSwitch m left t := if_neg h

structure NoneInTick (m : Machine) : Prop where
  inv : SchedInv m.sys.sched
  ready : ∀ j, j<SCHED_MAX_TASKS → stateOf m.sys.sched j = .ready → m.resume j ≠ .inTick

theorem Step.ready_cases (h : Step s t) (hj : stateOf t j = .ready) :
    stateOf s j = .ready ∨ stateOf s j = .free ∨ j=s.current ∧ t.current≠s.current := by
  cases h.effect with
  | same hcur hst =>
    rw [hst] at hj
    exact .inl hj
  | spawned i hpos hlt hfree hcur hst =>
    rw [hst] at hj
    split at hj
    next he => exact .inr (.inl (he ▸ hfree))
    next => exact .inl hj
  | switched left hleft hnext hst =>
    rw [hst] at hj
    split at hj
    next => cases hj
    next hne =>
      split at hj
      next he =>
        refine .inr (.inr ⟨he,?_⟩)
        intro hcur
        exact hne (he.trans hcur.symm)
      next => exact .inl hj

theorem Effect.not_spawned (h : Effect s t) (hi : SchedInv s) (hcur : t.current≠s.current)
    (hj : stateOf t j = .ready) : stateOf s j ≠ .free := by
  intro hfree
  cases h with
  | same hsame hst => exact hcur hsame
  | spawned i hpos hlt hf hsame hst => exact hcur hsame
  | switched left hleft hnext hst =>
    rw [hst] at hj
    split at hj
    next => cases hj
    next =>
      split at hj
      next he =>
        rw [he,(hi.running s.current hi.bound).mpr rfl] at hfree
        cases hfree
      next =>
        rw [hj] at hfree
        cases hfree

theorem NoneInTick.contextSwitch {left : Resume} (h : NoneInTick m) (hstep : Step m.sys.sched t)
    (hcur : t.current≠m.sys.sched.current) (hleft : left ≠ .inTick) : NoneInTick (contextSwitch m left t) := by
  constructor
  · rw [Sched.contextSwitch,goOn_sys]
    exact hstep.inv h.inv
  · intro j hj hready
    rw [Sched.contextSwitch,goOn_sys] at hready
    rw [Sched.contextSwitch,goOn_resume]
    by_cases hjc : j=m.sys.sched.current
    · simpa only [if_pos hjc] using hleft
    · simp only [if_neg hjc]
      rcases hstep.ready_cases hready with hr | hfree | ⟨he,_⟩
      · exact h.ready j hj hr
      · exact absurd hfree (hstep.effect.not_spawned h.inv hcur hready)
      · exact absurd he hjc

theorem NoneInTick.same (h : NoneInTick m) (hs : Same m.sys.sched m'.sys.sched)
    (hr : m'.resume=m.resume) : NoneInTick m' := by
  constructor
  · exact hs.inv h.inv
  · intro j hj hready
    rw [hs.states] at hready
    rw [hr]
    exact h.ready j hj hready

theorem Same.refl (s : Scheduler) : Same s s := ⟨rfl,rfl,fun _ => rfl, fun _ => rfl⟩

theorem NoneInTick.yield (h : NoneInTick m) : NoneInTick (maySwitch m .inYield (schedYield m.sys.sched)) := by
  rcases yield_cases h.inv with he | ⟨next,hf,he⟩
  · rw [he,maySwitch_same rfl]
    exact h.same (Same.refl _) rfl
  · have hne : (schedYield m.sys.sched).current≠m.sys.sched.current := by
      rw [he]
      exact h.inv.next_ne hf
    rw [maySwitch_other hne]
    exact h.contextSwitch (step_yield h.inv) hne (by simp)

theorem NoneInTick.exit (h : NoneInTick m) : NoneInTick (exitTask m) := by
  rw [exitTask,h.inv.ids _ h.inv.bound]
  by_cases h0 : m.sys.sched.current=0
  · rw [if_pos h0]
    exact h
  · rw [if_neg h0]
    obtain ⟨next,hf,hne⟩ := h.inv.exit_picks h0
    apply h.contextSwitch (step_exit h.inv) _ (by simp)
    rw [exit_eq h.inv h0 hf]
    exact hne

theorem NoneInTick.spawn {new : Spawn} (h : NoneInTick m)
    (hm : m.act kmalloc bootstrap (.spawn new)=some m') : NoneInTick m' := by
  obtain ⟨r,hr,rfl⟩ := Option.map_eq_some_iff.mp hm
  rcases schedSpawn_cases hr with ⟨_,rfl⟩ | ⟨i,stack,heap,hslot,rfl⟩
  · exact h.same (Same.refl _) (by simp [spawned])
  · by_cases h0 : stack=0
    · simp only [startTask,if_pos h0]
      exact h.same (Same.refl _) (by simp [spawned])
    · have hstep : Step m.sys.sched (startTask bootstrap m.sys.sched i new stack heap).2.1 :=
        step_start hslot stack heap
      constructor
      · exact hstep.inv h.inv
      · intro j hj hready
        simp only [spawned,hslot,startTask,if_neg h0,Option.isSome_some,Bool.true_and,
          beq_iff_eq,Option.some_inj] at hready ⊢
        by_cases hji : i=j
        · simp [if_pos hji]
        · rw [stateOf_setTask,if_neg (Ne.symm hji)] at hready
          rw [if_neg hji]
          exact h.ready j hj hready

theorem irqHandler_returns (hi : SchedInv m.sys.sched) (hs : Armed m) (hp : ¬ Preempts m.sys.sched) :
    Same m.sys.sched (irqHandler m).sys.sched ∧ (irqHandler m).resume=m.resume ∧
      Armed (irqHandler m) := by
  rw [irqHandler,hs,if_neg (by simp)]
  rcases tick_cases hi with ⟨n,he⟩ | ⟨next,hf,hslice,_⟩
  · have hcur : (schedOnTick m.sys.sched).current=m.sys.sched.current := by rw [he]; rfl
    rw [maySwitch_same (m := timerCount m) hcur,he]
    exact ⟨tickCurrent_same n,rfl,rfl⟩
  · exact absurd ⟨hslice,next,firstAfter_ready hf⟩ hp

theorem NoneInTick.stuck (h : NoneInTick m) (hs : Armed m)
    (hp : Preempts m.sys.sched) : (irqHandler m).irq0InService=true := by
  obtain ⟨hslice,j,hj,hready⟩ := hp
  have hne := tick_switches h.inv hj hready hslice
  have hnext : (schedOnTick m.sys.sched).current<SCHED_MAX_TASKS ∧
      stateOf m.sys.sched (schedOnTick m.sys.sched).current = .ready := by
    cases (step_tick h.inv).effect with
    | same hcur hst => exact absurd hcur hne
    | spawned i hpos hlt hfree hcur hst => exact absurd hcur hne
    | switched left hleft hnext hst => exact firstAfter_ready hnext
  rw [irqHandler,hs,if_neg (by simp),maySwitch_other (m := timerCount m) hne,
    Sched.contextSwitch,← Bool.not_eq_false,
    goOn_inService]
  rintro (hr | hr)
  · exact h.ready _ hnext.1 hnext.2 hr
  · cases hr

theorem irq0_kept (hs : Armed m) {a : Act} (ha : a ≠ .tick)
    (hm : m.act kmalloc bootstrap a=some m') : Armed m' := by
  cases a with
  | spawn new =>
    obtain ⟨r,_,rfl⟩ := Option.map_eq_some_iff.mp hm
    exact hs
  | yield =>
    rw [← Option.some_inj.mp hm,maySwitch]
    split
    · exact hs
    · exact (goOn_inService _).mpr (.inr hs)
  | tick => exact absurd rfl ha
  | exit =>
    rw [← Option.some_inj.mp hm,exitTask]
    split
    · exact hs
    · exact (goOn_inService _).mpr (.inr hs)

theorem NoneInTick.act {a : Act} (h : NoneInTick m) (hs : Armed m)
    (ha : a = .tick → ¬ Preempts m.sys.sched) (hm : m.act kmalloc bootstrap a=some m') : NoneInTick m' := by
  cases a with
  | spawn new => exact h.spawn hm
  | yield => exact Option.some_inj.mp hm ▸ h.yield
  | tick =>
    obtain ⟨hsame,hresume,_⟩ := irqHandler_returns h.inv hs (ha rfl)
    rw [← Option.some_inj.mp hm]
    exact h.same hsame hresume
  | exit => exact Option.some_inj.mp hm ▸ h.exit

theorem noneInTick_boot {old : Scheduler} {heap : Heap} {gTicks : Nat} {resume : Nat → Resume} :
    NoneInTick (bootMachine ⟨schedInit old,heap⟩ gTicks resume) := by
  constructor
  · exact schedInit_inv old
  · intro j hj hready
    by_cases h0 : j=0
    · simp [bootMachine,stateOf,schedInit,h0] at hready
    · simp [bootMachine,stateOf,schedInit,h0,hj] at hready

/-- In a run from boot IRQ0 is never in service while a task runs its own code, exactly when no
tick completes a slice while another task is ready: the timer must never preempt anyone. -/
theorem preemption_armed_iff (kmalloc : Allocator) (bootstrap : Nat) (old : Scheduler) (heap : Heap)
    (gTicks : Nat) (resume : Nat → Resume) (as : List Act) :
    Always (Machine.act kmalloc bootstrap) Armed as
      (bootMachine ⟨schedInit old,heap⟩ gTicks resume) ↔
    EachStep (Machine.act kmalloc bootstrap) (fun m a => a = .tick → ¬ Preempts m.sys.sched) as
      (bootMachine ⟨schedInit old,heap⟩ gTicks resume) := by
  have hboot : Armed (bootMachine ⟨schedInit old,heap⟩ gTicks resume) := rfl
  apply always_iff (I := NoneInTick) _ _ noneInTick_boot hboot
  · intro m a hi hs
    constructor
    · rintro hnext rfl hp
      have hserved := hi.stuck hs hp
      rw [hnext _ rfl] at hserved
      cases hserved
    · intro ha m' hm
      by_cases htick : a = .tick
      · have hret := irqHandler_returns hi.inv hs (ha htick)
        rw [htick] at hm
        rw [← Option.some_inj.mp hm]
        exact hret.2.2
      · exact irq0_kept hs htick hm
  · intro m a m' hi hs ha hm
    exact hi.act hs ha hm

/-- One worker is spawned; the tenth tick switches to it and sends no EOI. -/
theorem preemption_armed_fails :
    ¬ ∀ (bootstrap : Nat) (old : Scheduler) (heap : Heap) (gTicks : Nat) (resume : Nat → Resume)
      (as : List Act),
      Always (Machine.act Kmalloc.kmalloc bootstrap) Armed as
        (bootMachine ⟨schedInit old,heap⟩ gTicks resume) := by
  intro h
  have hboot : Always (Machine.act Kmalloc.kmalloc 0x100000) Armed
      (.spawn ⟨none,0,0⟩::List.replicate 10 .tick) (bootMachine bootSys 0 fun _ => .fresh) :=
    h 0x100000 ⟨fun _ => ⟨0,.free,[],0,0,0,0⟩,0,false,0⟩ (kmallocInit fun _ => 0) 0
      (fun _ => .fresh) _
  obtain ⟨m,hm,hs⟩ : ∃ m, runFrom (Machine.act Kmalloc.kmalloc 0x100000)
      (.spawn ⟨none,0,0⟩::List.replicate 10 .tick) (bootMachine bootSys 0 fun _ => .fresh)=some m ∧
      m.irq0InService=true := ⟨_,rfl,rfl⟩
  rw [hboot _ [] m (List.append_nil _).symm hm] at hs
  cases hs

end MyKernel.Sched
