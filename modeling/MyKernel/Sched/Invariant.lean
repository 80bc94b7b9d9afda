import MyKernel.Lib.Runs
import MyKernel.Lib.Traces
import MyKernel.Sched.Model

/-! What one step of the scheduler can do, and the invariant that follows. -/
namespace MyKernel.Sched
open Kmalloc Cyclic Runs Traces

variable {s t : Scheduler} {i j next : Nat} {st : TaskState} {u : Task}

def stateOf (s : Scheduler) (i : Nat) : TaskState := (s.tasks i).state

structure SchedInv (s : Scheduler) : Prop where
  enabled : s.schedEnabled=true
  bound : s.current<SCHED_MAX_TASKS
  ids : ∀ i, i<SCHED_MAX_TASKS → (s.tasks i).id=i
  running : ∀ i, i<SCHED_MAX_TASKS → (stateOf s i = .running ↔ i=s.current)
  zero : stateOf s 0 = .ready ∨ stateOf s 0 = .running
  known : ∀ i, i<SCHED_MAX_TASKS → stateOf s i = .free ∨ stateOf s i = .ready ∨ stateOf s i = .running

/-- What a step does to the states of the tasks and to `current`. -/
inductive Effect (s t : Scheduler) : Prop where
  | same (hcur : t.current=s.current) (hst : ∀ j, stateOf t j=stateOf s j)
  | spawned (i : Nat) (hpos : 1 ≤ i) (hlt : i<SCHED_MAX_TASKS) (hfree : stateOf s i = .free)
      (hcur : t.current=s.current) (hst : ∀ j, stateOf t j=if j=i then .ready else stateOf s j)
  | switched (left : TaskState) (hleft : left = .ready ∨ left = .free ∧ s.current≠0)
      (hnext : firstAfter SCHED_MAX_TASKS s.current s.isReady=some t.current)
      (hst : ∀ j, stateOf t j=if j=t.current then .running
        else if j=s.current then left else stateOf s j)

structure Step (s t : Scheduler) : Prop where
  enabled : t.schedEnabled=s.schedEnabled
  ids : ∀ i, (t.tasks i).id=(s.tasks i).id
  effect : Effect s t

theorem stateOf_setTask : stateOf (s.setTask i u) j=if j=i then u.state else stateOf s j := by
  by_cases h : j=i
  · simp [stateOf,Scheduler.setTask,h]
  · simp [stateOf,Scheduler.setTask,h]

theorem stateOf_setState : stateOf (s.setState i st) j=if j=i then st else stateOf s j :=
  stateOf_setTask

theorem id_setTask (h : u.id=(s.tasks i).id) : ((s.setTask i u).tasks j).id=(s.tasks j).id := by
  by_cases hj : j=i
  · simp [Scheduler.setTask,hj,h]
  · simp [Scheduler.setTask,hj]

theorem setState_part {α : Type} (f : Task → α) (hf : ∀ u st, f { u with state := st }=f u) :
    f ((s.setState i st).tasks j)=f (s.tasks j) := by
  by_cases hj : j=i
  · simp [Scheduler.setState,Scheduler.setTask,hj,hf]
  · simp [Scheduler.setState,Scheduler.setTask,hj]

theorem isReady_eq : s.isReady j=true ↔ stateOf s j = .ready := by simp [Scheduler.isReady,stateOf]

theorem SchedInv.not_ready (h : SchedInv s) : stateOf s s.current ≠ .ready := by
  rw [(h.running s.current h.bound).mpr rfl]
  simp

theorem pickNext_none (h : SchedInv s)
    (hf : firstAfter SCHED_MAX_TASKS s.current s.isReady=none) : pickNext s=s.current := by
  rw [pickNext,h.ids s.current h.bound,hf,Option.getD_none]

theorem pickNext_some (h : SchedInv s)
    (hf : firstAfter SCHED_MAX_TASKS s.current s.isReady=some next) : pickNext s=next := by
  rw [pickNext,h.ids s.current h.bound,hf,Option.getD_some]

theorem firstAfter_ready (hf : firstAfter SCHED_MAX_TASKS i s.isReady=some next) :
    next<SCHED_MAX_TASKS ∧ stateOf s next = .ready := by
  obtain ⟨_,_,_,_,hready,_⟩ := firstAfter_some hf
  exact ⟨firstAfter_lt (by decide) hf,isReady_eq.mp hready⟩

theorem SchedInv.next_ne (h : SchedInv s)
    (hf : firstAfter SCHED_MAX_TASKS s.current s.isReady=some next) : next≠s.current := by
  intro he
  apply h.not_ready
  rw [← he]
  exact (firstAfter_ready hf).2

/-- Some task is ready, so the choice falls on one. -/
theorem SchedInv.picks (h : SchedInv s) (hj : j<SCHED_MAX_TASKS) (hr : stateOf s j = .ready) :
    ∃ next, firstAfter SCHED_MAX_TASKS s.current s.isReady=some next ∧ pickNext s=next ∧
      next≠s.current := by
  cases hf : firstAfter SCHED_MAX_TASKS s.current s.isReady with
  | none => exact absurd hf (firstAfter_ne_none h.bound hj (isReady_eq.mpr hr))
  | some next => exact ⟨next,rfl,pickNext_some h hf,h.next_ne hf⟩

theorem stateOf_switchTo (h : SchedInv s) :
    stateOf (switchTo s next) j=if j=next then .running
      else if j=s.current then .ready else stateOf s j := by
  have hrun : (s.tasks s.current).state = .running := (h.running s.current h.bound).mpr rfl
  unfold switchTo preempt
  rw [if_pos hrun]
  show stateOf ((s.setState s.current .ready).setState next .running) j=_
  rw [stateOf_setState,stateOf_setState]

theorem switchTo_part {α : Type} (f : Task → α) (hf : ∀ u st, f { u with state := st }=f u) :
    f ((switchTo s next).tasks i)=f (s.tasks i) := by
  show f (((preempt s s.current).setState next .running).tasks i)=_
  rw [setState_part f hf,preempt]
  split
  · exact setState_part f hf
  · rfl

theorem enabled_switchTo : (switchTo s next).schedEnabled=s.schedEnabled := by
  unfold switchTo preempt
  split
  · rfl
  · rfl

theorem step_switch (h : SchedInv s)
    (hf : firstAfter SCHED_MAX_TASKS s.current s.isReady=some next) : Step s (switchTo s next) where
  enabled := enabled_switchTo
  ids _ := switchTo_part Task.id fun _ _ => rfl
  effect := .switched .ready (.inl rfl) hf fun _ => stateOf_switchTo h

theorem Step.refl (s : Scheduler) : Step s s := ⟨rfl,fun _ => rfl, .same rfl fun _ => rfl⟩

theorem Step.setSlice {n : Nat} (h : Step s t) : Step s { t with ticksSlice := n } :=
  ⟨h.enabled,h.ids,by
    cases h.effect with
    | same hcur hst => exact .same hcur hst
    | spawned i hpos hlt hfree hcur hst => exact .spawned i hpos hlt hfree hcur hst
    | switched left hleft hnext hst => exact .switched left hleft hnext hst⟩

theorem yield_cases (h : SchedInv s) :
    schedYield s=s ∨ ∃ next, firstAfter SCHED_MAX_TASKS s.current s.isReady=some next ∧
      schedYield s={ switchTo s next with ticksSlice := 0 } := by
  rw [schedYield,schedule]
  simp only [h.enabled,Bool.not_true,Bool.false_eq_true,if_false]
  cases hf : firstAfter SCHED_MAX_TASKS s.current s.isReady with
  | none => exact .inl (if_pos (pickNext_none h hf))
  | some next =>
    rw [pickNext_some h hf,if_neg (h.next_ne hf)]
    exact .inr ⟨next,rfl,rfl⟩

theorem step_yield (h : SchedInv s) : Step s (schedYield s) := by
  rcases yield_cases h with he | ⟨next,hf,he⟩
  · rw [he]
    exact Step.refl s
  · rw [he]
    exact (step_switch h hf).setSlice

structure Same (s t : Scheduler) : Prop where
  enabled : t.schedEnabled=s.schedEnabled
  current : t.current=s.current
  ids : ∀ i, (t.tasks i).id=(s.tasks i).id
  states : ∀ i, stateOf t i=stateOf s i

theorem Same.inv (hs : Same s t) (h : SchedInv s) : SchedInv t where
  enabled := hs.enabled.trans h.enabled
  bound := by
    rw [hs.current]
    exact h.bound
  ids i hi := (hs.ids i).trans (h.ids i hi)
  running i hi := by
    rw [hs.states,hs.current]
    exact h.running i hi
  zero := by
    rw [hs.states]
    exact h.zero
  known i hi := by
    rw [hs.states]
    exact h.known i hi

theorem Same.isReady (hs : Same s t) : t.isReady=s.isReady := by
  funext i
  rw [Bool.eq_iff_iff,isReady_eq,isReady_eq,hs.states]

theorem Same.step (hs : Same s t) : Step s t := ⟨hs.enabled,hs.ids,.same hs.current hs.states⟩

theorem Same.andThen {v : Scheduler} (hs : Same s t) (h : Step t v) : Step s v where
  enabled := h.enabled.trans hs.enabled
  ids i := (h.ids i).trans (hs.ids i)
  effect := by
    cases h.effect with
    | same hcur hst =>
      apply Effect.same (hcur.trans hs.current)
      intro j
      rw [hst,hs.states]
    | spawned i hpos hlt hfree hcur hst =>
      rw [hs.states] at hfree
      apply Effect.spawned i hpos hlt hfree (hcur.trans hs.current)
      intro j
      rw [hst,hs.states]
    | switched left hleft hnext hst =>
      rw [hs.current] at hleft
      rw [hs.current,hs.isReady] at hnext
      apply Effect.switched left hleft hnext
      intro j
      rw [hst,hs.current,hs.states]

theorem tickCurrent_same (n : Nat) : Same s { tickCurrent s with ticksSlice := n } where
  enabled := rfl
  current := rfl
  ids _ := id_setTask rfl
  states i := by
    show stateOf (s.setTask s.current _) i=stateOf s i
    rw [stateOf_setTask]
    split
    next he => rw [he]; rfl
    next => rfl

/-- A tick counts, and at the end of a slice switches like `sched_yield`. -/
theorem tick_cases (h : SchedInv s) :
    (∃ n, schedOnTick s={ tickCurrent s with ticksSlice := n }) ∨
    ∃ next, firstAfter SCHED_MAX_TASKS s.current s.isReady=some next ∧
      TICKS_PER_SLICE ≤ s.ticksSlice+1 ∧
      schedOnTick s=switchTo { tickCurrent s with ticksSlice := 0 } next := by
  have hs := tickCurrent_same (s := s) 0
  have h' := hs.inv h
  rw [schedOnTick]
  simp only [h.enabled,Bool.not_true,Bool.false_eq_true,if_false]
  by_cases hslice : TICKS_PER_SLICE≤(tickCurrent s).ticksSlice
  · rw [if_pos hslice]
    cases hf : firstAfter SCHED_MAX_TASKS s.current s.isReady with
    | none =>
      rw [← hs.current,← hs.isReady] at hf
      rw [if_pos (pickNext_none h' hf)]
      exact .inl ⟨0,rfl⟩
    | some next =>
      refine .inr ⟨next,rfl,hslice,?_⟩
      rw [← hs.current,← hs.isReady] at hf
      rw [pickNext_some h' hf,if_neg (h'.next_ne hf)]
  · rw [if_neg hslice]
    exact .inl ⟨s.ticksSlice+1,rfl⟩

theorem step_tick (h : SchedInv s) : Step s (schedOnTick s) := by
  have hs := tickCurrent_same (s := s) 0
  rcases tick_cases h with ⟨n,he⟩ | ⟨next,hf,_,he⟩
  · rw [he]
    exact (tickCurrent_same n).step
  · rw [he]
    apply hs.andThen
    rw [← hs.current,← hs.isReady] at hf
    exact step_switch (hs.inv h) hf

theorem stateOf_freeCurrent :
    stateOf (freeCurrent s) j=if j=s.current then .free else stateOf s j := stateOf_setTask

theorem isReady_freeCurrent (h : SchedInv s) : (freeCurrent s).isReady=s.isReady := by
  funext j
  rw [Bool.eq_iff_iff,isReady_eq,isReady_eq,stateOf_freeCurrent]
  by_cases hj : j=s.current
  · rw [if_pos hj,hj]
    constructor
    · intro hfree
      cases hfree
    · intro hready
      exact absurd hready h.not_ready
  · rw [if_neg hj]

theorem pickNext_freeCurrent (h : SchedInv s) (hf : firstAfter SCHED_MAX_TASKS s.current s.isReady=some next) :
    pickNext (freeCurrent s)=next := by
  have hkept : ((freeCurrent s).tasks s.current).id=(s.tasks s.current).id := id_setTask rfl
  have hid := hkept.trans (h.ids s.current h.bound)
  rw [pickNext,isReady_freeCurrent h]
  show (firstAfter SCHED_MAX_TASKS ((freeCurrent s).tasks s.current).id s.isReady).getD s.current=next
  rw [hid,hf,Option.getD_some]

/-- Task 0 is ready when another task ends, so there is a task to switch to. -/
theorem SchedInv.exit_picks (h : SchedInv s) (h0 : s.current≠0) :
    ∃ next, firstAfter SCHED_MAX_TASKS s.current s.isReady=some next ∧ next≠s.current := by
  have hready : stateOf s 0 = .ready := by
    cases h.zero with
    | inl hr => exact hr
    | inr hr => exact absurd ((h.running 0 (by decide)).mp hr).symm h0
  obtain ⟨next,hf,_,hne⟩ := h.picks (by decide) hready
  exact ⟨next,hf,hne⟩

theorem exit_eq (h : SchedInv s) (h0 : s.current≠0) (hf : firstAfter SCHED_MAX_TASKS s.current s.isReady=some next) :
    schedExit s={ freeCurrent s with current := next }.setState next .running := by
  rw [schedExit,h.ids s.current h.bound,if_neg h0]
  simp only [pickNext_freeCurrent h hf]

theorem step_exit (h : SchedInv s) : Step s (schedExit s) := by
  by_cases h0 : s.current=0
  · rw [schedExit,h.ids s.current h.bound,if_pos h0]
    exact Step.refl s
  · obtain ⟨next,hf,hne⟩ := h.exit_picks h0
    rw [exit_eq h h0 hf]
    refine ⟨rfl,fun i => (setState_part Task.id fun _ _ => rfl).trans (id_setTask rfl),.switched .free (.inr ⟨rfl,h0⟩) hf ?_⟩
    intro j
    show stateOf ((Scheduler.mk (freeCurrent s).tasks next s.schedEnabled s.ticksSlice).setState
      next .running) j=_
    rw [stateOf_setState]
    show (if j=next then _ else stateOf (freeCurrent s) j)=_
    rw [stateOf_freeCurrent]
    rfl

theorem freeSlot_some (h : freeSlot s=some i) : 1 ≤ i ∧ i<SCHED_MAX_TASKS ∧ stateOf s i = .free := by
  have hmem := List.mem_range'_1.mp (List.mem_of_find?_eq_some h)
  have hfree := List.find?_some h
  unfold SCHED_MAX_TASKS at hmem ⊢
  exact ⟨hmem.1,by omega,by simpa [stateOf] using hfree⟩

theorem step_start {bootstrap : Nat} {new : Spawn} (hi : freeSlot s=some i) (stack : Nat)
    (heap : Heap) : Step s (startTask bootstrap s i new stack heap).2.1 := by
  obtain ⟨hpos,hlt,hfree⟩ := freeSlot_some hi
  by_cases h0 : stack=0
  · rw [startTask,if_pos h0]
    exact Step.refl s
  · rw [startTask,if_neg h0]
    exact ⟨rfl,fun _ => id_setTask rfl,.spawned i hpos hlt hfree rfl fun _ => stateOf_setTask⟩

theorem schedSpawn_cases {kmalloc : Allocator} {bootstrap : Nat} {h : Heap} {new : Spawn}
    {r : Option Nat × Scheduler × Heap} (hr : schedSpawn kmalloc bootstrap s h new=some r) :
    freeSlot s=none ∧ r=(none,s,h) ∨
      ∃ i stack heap, freeSlot s=some i ∧ r=startTask bootstrap s i new stack heap := by
  rw [schedSpawn] at hr
  cases hslot : freeSlot s with
  | none =>
    rw [hslot,Option.some_inj] at hr
    exact .inl ⟨rfl,hr.symm⟩
  | some i =>
    rw [hslot] at hr
    obtain ⟨⟨stack,heap⟩,_,rfl⟩ := Option.map_eq_some_iff.mp hr
    exact .inr ⟨i,stack,heap,rfl,rfl⟩

theorem act_step {kmalloc : Allocator} {bootstrap : Nat} {a : Act} {s t : Sys} (hi : SchedInv s.sched)
    (h : s.act kmalloc bootstrap a=some t) : Step s.sched t.sched := by
  cases a with
  | spawn new =>
    obtain ⟨r,hr,rfl⟩ := Option.map_eq_some_iff.mp h
    rcases schedSpawn_cases hr with ⟨_,rfl⟩ | ⟨i,stack,heap,hslot,rfl⟩
    · exact Step.refl s.sched
    · exact step_start hslot stack heap
  | yield =>
    rw [← Option.some_inj.mp h]
    exact step_yield hi
  | tick =>
    rw [← Option.some_inj.mp h]
    exact step_tick hi
  | exit =>
    rw [← Option.some_inj.mp h]
    exact step_exit hi

theorem Step.inv (h : Step s t) (hi : SchedInv s) : SchedInv t := by
  have hids : ∀ i, i<SCHED_MAX_TASKS → (t.tasks i).id=i := fun i hi' =>
    (h.ids i).trans (hi.ids i hi')
  cases h.effect with
  | same hcur hst => exact Same.inv ⟨h.enabled,hcur,h.ids,hst⟩ hi
  | spawned i hpos hlt hfree hcur hst =>
    refine ⟨h.enabled.trans hi.enabled,hcur ▸ hi.bound,hids,?_,?_,?_⟩
    · intro j hj
      rw [hst,hcur,← hi.running j hj]
      split
      next he => simp [he,hfree]
      next => rfl
    · rw [hst,if_neg (by omega)]
      exact hi.zero
    · intro j hj
      rw [hst]
      split
      · exact .inr (.inl rfl)
      · exact hi.known j hj
  | switched left hleft hnext hst =>
    obtain ⟨hlt,hready⟩ := firstAfter_ready hnext
    have hne := hi.next_ne hnext
    have hleft' : left ≠ .running := by
      rcases hleft with rfl | ⟨rfl,_⟩
      · simp
      · simp
    refine ⟨h.enabled.trans hi.enabled,hlt,hids,?_,?_,?_⟩
    · intro j hj
      rw [hst]
      by_cases hjt : j=t.current
      · simp [hjt]
      · by_cases hjs : j=s.current
        · rw [if_neg hjt,if_pos hjs]
          exact ⟨fun hl => absurd hl hleft',fun he => absurd he hjt⟩
        · rw [if_neg hjt,if_neg hjs,hi.running j hj]
          exact ⟨fun he => absurd he hjs,fun he => absurd he hjt⟩
    · rw [hst]
      by_cases h0t : 0=t.current
      · simp [h0t]
      · by_cases h0s : 0=s.current
        · have hl : left = .ready := by
            cases hleft with
            | inl hl => exact hl
            | inr hl => exact absurd h0s.symm hl.2
          rw [if_neg h0t,if_pos h0s]
          exact .inl hl
        · rw [if_neg h0t,if_neg h0s]
          exact hi.zero
    · intro j hj
      rw [hst]
      split
      · exact .inr (.inr rfl)
      · split
        · rcases hleft with rfl | ⟨rfl,_⟩
          · exact .inr (.inl rfl)
          · exact .inl rfl
        · exact hi.known j hj

theorem schedInit_inv (s : Scheduler) : SchedInv (schedInit s) where
  enabled := rfl
  bound := Nat.zero_lt_succ 7
  ids i hi := by
    by_cases h0 : i=0
    · simp [schedInit,h0]
    · simp [schedInit,h0,hi]
  running i hi := by
    by_cases h0 : i=0
    · simp [stateOf,schedInit,h0]
    · simp [stateOf,schedInit,h0,hi]
  zero := .inr rfl
  known i hi := by
    by_cases h0 : i=0
    · simp [stateOf,schedInit,h0]
    · simp [stateOf,schedInit,h0,hi]

def Booted (s : Sys) : Prop := ∃ old, s.sched=schedInit old

def Stepped (s : Sys) (a : Act) (t : Sys) : Prop :=
  ∃ kmalloc bootstrap, s.act kmalloc bootstrap a=some t

def SchedReachable : Sys → Prop := Reachable Booted Stepped

theorem schedReachable_inv {s : Sys} (hr : SchedReachable s) : SchedInv s.sched := by
  refine hr.invariant (fun s => SchedInv s.sched) ?_ ?_
  · rintro s ⟨old,hs⟩
    rw [hs]
    exact schedInit_inv old
  · rintro s a t hi ⟨kmalloc,bootstrap,h⟩
    exact (act_step hi h).inv hi

/-- In every state of every run one task runs, the one `current` points to, task 0 is ready or
running, every slot is free, ready or running; and a task that ends gives way to one that was
ready. -/
theorem scheduler_invariant (s : Sys) (hr : SchedReachable s) :
    (∃! i, i<SCHED_MAX_TASKS ∧ stateOf s.sched i = .running) ∧
    s.sched.current<SCHED_MAX_TASKS ∧ stateOf s.sched s.sched.current = .running ∧
    (stateOf s.sched 0 = .ready ∨ stateOf s.sched 0 = .running) ∧
    (∀ i, i<SCHED_MAX_TASKS → stateOf s.sched i = .free ∨ stateOf s.sched i = .ready ∨
      stateOf s.sched i = .running) ∧
    (s.sched.current≠0 →
      stateOf (schedExit s.sched) s.sched.current = .free ∧
      (schedExit s.sched).current≠s.sched.current ∧
      stateOf s.sched (schedExit s.sched).current = .ready ∧
      stateOf (schedExit s.sched) (schedExit s.sched).current = .running) := by
  have hi := schedReachable_inv hr
  have hrun := (hi.running s.sched.current hi.bound).mpr rfl
  refine ⟨⟨s.sched.current,⟨hi.bound,hrun⟩,?_⟩,hi.bound,hrun,hi.zero,hi.known,?_⟩
  · intro i hrunning
    exact (hi.running i hrunning.1).mp hrunning.2
  · intro h0
    obtain ⟨next,hf,hne⟩ := hi.exit_picks h0
    rw [exit_eq hi h0 hf,stateOf_setState,stateOf_setState]
    refine ⟨?_,hne,(firstAfter_ready hf).2,if_pos rfl⟩
    rw [if_neg hne.symm]
    exact stateOf_freeCurrent.trans (if_pos rfl)

def bootSys : Sys :=
  ⟨schedInit ⟨fun _ => ⟨0,.free,[],0,0,0,0⟩, 0, false, 0⟩,kmallocInit fun _ => 0⟩

/-- The state after some steps, each of which returns. -/
def runActs (kmalloc : Allocator) (bootstrap : Nat) : List Act → Sys → Option Sys :=
  runFrom (Sys.act kmalloc bootstrap)

theorem reachable_runActs {kmalloc : Allocator} {bootstrap : Nat} {as : List Act} {s t : Sys}
    (hr : SchedReachable s) (h : runActs kmalloc bootstrap as s=some t) : SchedReachable t :=
  runFrom_invariant (fun _ a _ hs hstep => .next a hs ⟨kmalloc,bootstrap,hstep⟩) hr h

/-- A worker is spawned, runs and ends. -/
theorem scheduler_invariant_worker :
    ∃ s, runActs Kmalloc.kmalloc 0x100000 [.spawn ⟨none,0,0⟩,.yield] bootSys=some s ∧
      s.sched.current=1 ∧ stateOf (schedExit s.sched) 1 = .free ∧ (schedExit s.sched).current=0 := by
  obtain ⟨s,hs,h1,h0⟩ : ∃ s, runActs Kmalloc.kmalloc 0x100000 [.spawn ⟨none,0,0⟩,.yield] bootSys =
      some s ∧ s.sched.current=1 ∧ (schedExit s.sched).current=0 := ⟨_,rfl,rfl,rfl⟩
  have hr : SchedReachable s := reachable_runActs (.init ⟨_,rfl⟩) hs
  have hexit := (scheduler_invariant s hr).2.2.2.2.2 (by rw [h1]; decide)
  rw [h1] at hexit
  exact ⟨s,hs,h1,hexit.1,h0⟩

end MyKernel.Sched
