import MyKernel.Kmalloc.Heap
import MyKernel.Sched.Invariant

/-! The stacks of the tasks on the kernel heap. -/
namespace MyKernel.Sched
open Memory Kmalloc Tiling Cyclic Traces

variable {s t : Sys} {i j k p next bootstrap : Nat} {m : Mem}

def LiveBlock (h : Heap) (p : Nat) : Prop := ∃ cs, BlockList h cs ∧ p∈pointers cs

/-- Task `i`, other than task 0, has not ended. -/
def HasStack (s : Scheduler) (i : Nat) : Prop :=
  1 ≤ i ∧ i<SCHED_MAX_TASKS ∧ stateOf s i ≠ .free

structure StacksOwned (s : Sys) : Prop where
  live : ∀ p, LiveBlock s.heap p ↔ ∃ i, HasStack s.sched i ∧ (s.sched.tasks i).stackBase=p
  once : ∀ i j, HasStack s.sched i → HasStack s.sched j →
    (s.sched.tasks i).stackBase=(s.sched.tasks j).stackBase → i=j

/-- `sched_spawn` succeeds whenever there is a free slot. -/
def SpawnFits (bootstrap : Nat) (s : Sys) : Prop :=
  freeSlot s.sched≠none → ∀ new, ∃ id sched heap,
    schedSpawn kmalloc bootstrap s.sched s.heap new=some (some id,sched,heap)

def stackTop (stack : Nat) : Nat := (stack+SCHED_STACK_SIZE)/16*16

theorem initStack_eq (m : Mem) (bootstrap : Nat) {stack : Nat} (h : stack+4096<4294967296) :
    ∃ sp, stackTop stack=sp+36 ∧ stack ≤ sp ∧ sp+36 ≤ stack+4096 ∧
      initStack m stack bootstrap=pushWords m (sp+36) [bootstrap,0,0,0,0,0,0,0,0] := by
  obtain ⟨sp,hsp,hlo,hhi⟩ : ∃ sp, stackTop stack=sp+36 ∧ stack ≤ sp ∧ sp+36 ≤ stack+4096 := by
    refine ⟨stackTop stack-36,?_⟩
    unfold stackTop SCHED_STACK_SIZE
    omega
  have htop : u32 (stack+SCHED_STACK_SIZE)/16*16=sp+36 := (congrArg (·/16*16) (u32_of_lt h)).trans hsp
  refine ⟨sp,hsp,hlo,hhi,?_⟩
  simp (disch := omega) [initStack,htop,List.range'_succ,pushWords,sub32_of_le]

theorem initStack_outside {stack x : Nat} (hs : stack+4096<4294967296)
    (hx : x<stack ∨ stack+4096≤x) : initStack m stack bootstrap x=m x := by
  obtain ⟨sp,_,_,_,heq⟩ := initStack_eq m bootstrap hs
  rw [heq]
  exact pushWords_outside [bootstrap,0,0,0,0,0,0,0,0] (by simp; omega) (by simp; omega)

def stackCell (i : Nat) : Cell := ⟨KHEAP_START+i*4108,SCHED_STACK_SIZE,false⟩

def restCell (k : Nat) : Cell := ⟨KHEAP_START+k*4108,KHEAP_SIZE-12-k*4108,true⟩

def packedCells (k : Nat) : List Cell := (List.range k).map stackCell++[restCell k]

structure Packed (k : Nat) (s : Sys) : Prop where
  count : k≤7
  inv : SchedInv s.sched
  heap : HeapInv s.heap (packedCells k)
  slots : ∀ i, 1 ≤ i → i<SCHED_MAX_TASKS → (stateOf s.sched i ≠ .free ↔ i≤k)
  bases : ∀ i, 1 ≤ i → i≤k → (s.sched.tasks i).stackBase=KHEAP_START+(i-1)*4108+12

theorem mem_pointers_packed : p∈pointers (packedCells k) ↔ ∃ i, 1 ≤ i ∧ i≤k ∧ p=KHEAP_START+(i-1)*4108+12 := by
  rw [mem_pointers]
  constructor
  · rintro ⟨c,hc,hused,rfl⟩
    rw [packedCells,List.mem_append,List.mem_singleton] at hc
    cases hc with
    | inl hc =>
      obtain ⟨i,hi,rfl⟩ := List.mem_map.mp hc
      exact ⟨i+1,by omega,List.mem_range.mp hi,rfl⟩
    | inr hc => simp [hc,restCell] at hused
  · rintro ⟨i,h1,hk,rfl⟩
    refine ⟨stackCell (i-1),?_,rfl,rfl⟩
    rw [packedCells,List.mem_append]
    exact .inl (List.mem_map.mpr ⟨i-1,List.mem_range.mpr (by omega),rfl⟩)

theorem split_at_free {pre post us : List Cell} {c l : Cell} (h : us++[l]=pre++c::post)
    (hus : ∀ u∈us, u.free=false) (hc : c.free=true) : pre=us ∧ c=l ∧ post=[] := by
  induction us generalizing pre with
  | nil =>
    cases pre with
    | nil => simp_all
    | cons x pre => simp at h
  | cons u us ih =>
    cases pre with
    | nil =>
      simp only [List.cons_append,List.nil_append,List.cons.injEq] at h
      have hu := hus u (by simp)
      simp [h.1,hc] at hu
    | cons x pre =>
      simp only [List.cons_append,List.cons.injEq] at h
      obtain ⟨hpre,hcl,hpost⟩ := ih h.2 fun v hv => hus v (List.mem_cons_of_mem u hv)
      exact ⟨by rw [h.1,hpre],hcl,hpost⟩

theorem allocCells_rest (hk : k<7) : allocCells SCHED_STACK_SIZE (restCell k)=[stackCell k,restCell (k+1)] := by
  unfold allocCells restCell stackCell KHEAP_SIZE KHEAP_START SCHED_STACK_SIZE
  rw [if_neg (by dsimp only; omega)]
  simp only [List.cons.injEq,Cell.mk.injEq,and_true,true_and]
  omega

theorem kmalloc_packed {h : Heap} (hi : HeapInv h (packedCells k)) (hk : k<7) :
    ∃ h', kmalloc h SCHED_STACK_SIZE=some (KHEAP_START+k*4108+12,h') ∧
      HeapInv h' (packedCells (k+1)) := by
  have halign : alignUp SCHED_STACK_SIZE=SCHED_STACK_SIZE := by decide
  have hfits : Fits SCHED_STACK_SIZE (restCell k) := by
    unfold Fits restCell KHEAP_SIZE SCHED_STACK_SIZE
    exact ⟨rfl,by dsimp only; omega⟩
  have hspec := kmalloc_spec hi (n := SCHED_STACK_SIZE) (by decide)
  rw [halign] at hspec
  rcases hspec with ⟨hnone,_⟩ | ⟨pre,c,post,h',hcs,hf,_,hret,hi',_⟩
  · exact absurd hfits (hnone (restCell k) (by simp [packedCells]))
  · have hused : ∀ u∈(List.range k).map stackCell, u.free=false := by
      intro u hu
      obtain ⟨i,_,rfl⟩ := List.mem_map.mp hu
      rfl
    obtain ⟨rfl,rfl,rfl⟩ := split_at_free hcs hused hf.1
    refine ⟨h',hret,?_⟩
    rw [allocCells_rest hk,List.append_nil] at hi'
    rw [packedCells,List.range_succ,List.map_append,List.append_assoc]
    exact hi'

theorem Packed.liveBlock (h : Packed k s) : LiveBlock s.heap p ↔ p∈pointers (packedCells k) := by
  constructor
  · rintro ⟨cs,hcs,hp⟩
    rwa [hcs.unique h.heap.blockList] at hp
  · exact fun hp => ⟨packedCells k,h.heap.blockList,hp⟩

theorem Packed.hasStack (h : Packed k s) : HasStack s.sched i ↔ 1 ≤ i ∧ i≤k := by
  have hk := h.count
  constructor
  · rintro ⟨h1,hlt,hne⟩
    exact ⟨h1,(h.slots i h1 hlt).mp hne⟩
  · rintro ⟨h1,hik⟩
    have hlt : i<SCHED_MAX_TASKS := by
      unfold SCHED_MAX_TASKS
      omega
    exact ⟨h1,hlt,(h.slots i h1 hlt).mpr hik⟩

theorem Packed.owned (h : Packed k s) : StacksOwned s := by
  constructor
  · intro p
    rw [h.liveBlock,mem_pointers_packed]
    constructor
    · rintro ⟨i,h1,hik,rfl⟩
      exact ⟨i,h.hasStack.mpr ⟨h1,hik⟩,h.bases i h1 hik⟩
    · rintro ⟨i,hi,rfl⟩
      obtain ⟨h1,hik⟩ := h.hasStack.mp hi
      exact ⟨i,h1,hik,h.bases i h1 hik⟩
  · intro i j hi hj heq
    obtain ⟨hi1,hik⟩ := h.hasStack.mp hi
    obtain ⟨hj1,hjk⟩ := h.hasStack.mp hj
    rw [h.bases i hi1 hik,h.bases j hj1 hjk] at heq
    omega

theorem Packed.freeSlot_eq (h : Packed k s) (hi : freeSlot s.sched=some i) : i=k+1 ∧ k<7 := by
  obtain ⟨h1,hlt,hfree⟩ := freeSlot_some hi
  have hik : ¬ i≤k := by
    rw [← h.slots i h1 hlt,not_not]
    exact hfree
  unfold SCHED_MAX_TASKS at hlt
  obtain ⟨_,_,hbefore⟩ := List.find?_range'_eq_some.mp hi
  have hle : ¬ k+1 < i := by
    intro hki
    have hused := hbefore (k+1) (by omega) hki
    have hslot := h.slots (k+1) (by omega) (by unfold SCHED_MAX_TASKS; omega)
    have hnot : stateOf s.sched (k+1) ≠ .free := by simpa [stateOf] using hused
    have := hslot.mp hnot
    omega
  omega

theorem Packed.spawn (bootstrap : Nat) (h : Packed k s) (hslot : freeSlot s.sched=some i) (new : Spawn) :
    ∃ id sched heap, schedSpawn kmalloc bootstrap s.sched s.heap new=some (some id,sched,heap) ∧
      Packed (k+1) ⟨sched,heap⟩ := by
  obtain ⟨rfl,hk⟩ := h.freeSlot_eq hslot
  obtain ⟨heap,hret,hheap⟩ := kmalloc_packed h.heap hk
  have hpos : KHEAP_START+k*4108+12≠0 := by omega
  have hstep : Step s.sched (startTask bootstrap s.sched (k+1) new (KHEAP_START+k*4108+12) heap).2.1 :=
    step_start hslot (KHEAP_START+k*4108+12) heap
  rw [startTask,if_neg hpos] at hstep
  refine ⟨(s.sched.tasks (k+1)).id,
    s.sched.setTask (k+1) (fillTask (s.sched.tasks (k+1)) (KHEAP_START+k*4108+12) new),
    { heap with mem := initStack heap.mem (KHEAP_START+k*4108+12) bootstrap },?_,by omega,
    hstep.inv h.inv,?_,?_,?_⟩
  · rw [schedSpawn,hslot]
    simp only [hret,Option.map_some,startTask,if_neg hpos]
  · have hmem : stackCell k∈packedCells (k+1) := by
      rw [packedCells,List.mem_append]
      exact .inl (List.mem_map.mpr ⟨k,by simp,rfl⟩)
    apply hheap.write_payload hmem
    intro x hx
    exact initStack_outside (by unfold KHEAP_START; omega) hx
  · intro j h1 hlt
    rw [stateOf_setTask]
    by_cases hj : j=k+1
    · simp [hj,fillTask]
    · rw [if_neg hj,h.slots j h1 hlt]
      omega
  · intro j h1 hjk
    by_cases hj : j=k+1
    · simp [hj,Scheduler.setTask,fillTask]
    · simp only [Scheduler.setTask,if_neg hj]
      exact h.bases j h1 (by omega)

theorem Packed.fits (h : Packed k s) : SpawnFits bootstrap s := by
  intro hslot new
  obtain ⟨i,hi⟩ := Option.ne_none_iff_exists'.mp hslot
  obtain ⟨id,sched,heap,hret,_⟩ := h.spawn bootstrap hi new
  exact ⟨id,sched,heap,hret⟩

/-- The stacks and the tasks that have one stay the same. -/
structure StacksKept (s t : Scheduler) : Prop where
  free : ∀ i, stateOf t i = .free ↔ stateOf s i = .free
  base : ∀ i, (t.tasks i).stackBase=(s.tasks i).stackBase

theorem stacksKept_switch {s : Scheduler} (h : SchedInv s)
    (hf : firstAfter SCHED_MAX_TASKS s.current s.isReady=some next) : StacksKept s (switchTo s next) := by
  constructor
  · intro i
    have hrun := (h.running s.current h.bound).mpr rfl
    rw [stateOf_switchTo h]
    by_cases hin : i=next
    · simp [hin,(firstAfter_ready hf).2]
    · by_cases hic : i=s.current
      · rw [if_neg hin,if_pos hic,hic,hrun]
        simp
      · rw [if_neg hin,if_neg hic]
  · exact fun i => switchTo_part Task.stackBase fun _ _ => rfl

theorem stacksKept_tick {s : Scheduler} (n : Nat) : StacksKept s { tickCurrent s with ticksSlice := n } := by
  constructor
  · intro i
    rw [(tickCurrent_same n).states]
  · intro i
    by_cases hi : i=s.current
    · simp [tickCurrent,Scheduler.setTask,hi]
    · simp [tickCurrent,Scheduler.setTask,hi]

theorem StacksKept.trans {s t u : Scheduler} (h : StacksKept s t) (h' : StacksKept t u) : StacksKept s u :=
  ⟨fun i => (h'.free i).trans (h.free i),fun i => (h'.base i).trans (h.base i)⟩

theorem stacksKept_yield {s : Scheduler} (h : SchedInv s) : StacksKept s (schedYield s) := by
  rcases yield_cases h with he | ⟨next,hf,he⟩
  · rw [he]
    exact ⟨fun _ => Iff.rfl,fun _ => rfl⟩
  · rw [he]
    have hk := stacksKept_switch h hf
    exact ⟨hk.free,hk.base⟩

theorem stacksKept_onTick {s : Scheduler} (h : SchedInv s) : StacksKept s (schedOnTick s) := by
  rcases tick_cases h with ⟨n,he⟩ | ⟨next,hf,_,he⟩
  · rw [he]
    exact stacksKept_tick n
  · have hs := tickCurrent_same (s := s) 0
    rw [he]
    rw [← hs.current,← hs.isReady] at hf
    exact (stacksKept_tick 0).trans (stacksKept_switch (hs.inv h) hf)

theorem Packed.kept {t : Scheduler} (h : Packed k s) (hi : SchedInv t) (hk : StacksKept s.sched t) :
    Packed k { s with sched := t } where
  count := h.count
  inv := hi
  heap := h.heap
  slots i h1 hlt := by
    rw [← h.slots i h1 hlt]
    exact not_congr (hk.free i)
  bases i h1 hik := (hk.base i).trans (h.bases i h1 hik)

/-- One lemma for every step but the end of a task. -/
theorem Packed.step {a : Act} (h : Packed k s) (ha : a = .exit → s.sched.current=0)
    (ht : s.act kmalloc bootstrap a=some t) : ∃ k', Packed k' t := by
  have hinv := (act_step h.inv ht).inv h.inv
  cases a with
  | spawn new =>
    cases hslot : freeSlot s.sched with
    | none =>
      have he : t=s := by simpa [Sys.act,schedSpawn,hslot] using ht.symm
      exact ⟨k,he ▸ h⟩
    | some i =>
      obtain ⟨id,sched,heap,hret,hp⟩ := h.spawn bootstrap hslot new
      have he : (⟨sched,heap⟩ : Sys)=t := by simpa [Sys.act,hret] using ht
      exact ⟨k+1,he ▸ hp⟩
  | yield =>
    obtain rfl := Option.some_inj.mp ht
    exact ⟨k,h.kept hinv (stacksKept_yield h.inv)⟩
  | tick =>
    obtain rfl := Option.some_inj.mp ht
    exact ⟨k,h.kept hinv (stacksKept_onTick h.inv)⟩
  | exit =>
    have h0 := ha rfl
    have he : schedExit s.sched=s.sched := by
      rw [schedExit,h.inv.ids s.sched.current h.inv.bound,if_pos h0]
    obtain rfl := Option.some_inj.mp ht
    exact ⟨k,by rw [he]; exact h⟩

theorem packed_boot (old : Scheduler) (m : Mem) : Packed 0 ⟨schedInit old,kmallocInit m⟩ where
  count := by omega
  inv := schedInit_inv old
  heap := kmallocInit_inv m
  slots i h1 hlt := by
    have h0 : i≠0 := by omega
    simp [stateOf,schedInit,h0,hlt]
  bases i h1 hi := by omega

/-- The stack of a task that ends stays allocated and belongs to nobody. -/
theorem StacksOwned.exit_leaks (h : StacksOwned s) (hi : SchedInv s.sched) (h0 : s.sched.current≠0) :
    ¬ StacksOwned { s with sched := schedExit s.sched } := by
  intro h'
  obtain ⟨next,hf,hne⟩ := hi.exit_picks h0
  have hexit := exit_eq hi h0 hf
  have hrun := (hi.running s.sched.current hi.bound).mpr rfl
  have hcur : HasStack s.sched s.sched.current :=
    ⟨by omega,hi.bound,by rw [hrun]; simp⟩
  obtain ⟨i,⟨h1,hlt,hnf⟩,hbase⟩ := (h'.live _).mp ((h.live _).mpr ⟨_,hcur,rfl⟩)
  have hstate : stateOf (schedExit s.sched) i=if i=next then .running
      else if i=s.sched.current then .free else stateOf s.sched i := by
    rw [hexit,stateOf_setState]
    exact ite_congr rfl (fun _ => rfl) fun _ => stateOf_freeCurrent
  have hic : i≠s.sched.current := by
    intro he
    apply hnf
    show stateOf (schedExit s.sched) i = .free
    rw [hstate,if_neg (by rw [he]; exact hne.symm),if_pos he]
  have hsame : ((schedExit s.sched).tasks i).stackBase=(s.sched.tasks i).stackBase := by
    rw [hexit,setState_part Task.stackBase fun _ _ => rfl]
    simp [freeCurrent,Scheduler.setTask,hic]
  have hstack : HasStack s.sched i := by
    refine ⟨h1,hlt,?_⟩
    by_cases hin : i=next
    · rw [hin,(firstAfter_ready hf).2]
      simp
    · have hkept : stateOf (schedExit s.sched) i=stateOf s.sched i := by
        rw [hstate,if_neg hin,if_neg hic]
      rw [← hkept]
      exact hnf
  exact hic (h.once i s.sched.current hstack hcur (hsame.symm.trans hbase))

def NoTaskEnds (s : Sys) (a : Act) : Prop := a = .exit → s.sched.current=0

/-- In a run from boot the blocks that are live are in every state the stacks of the tasks, each
of one task, and no spawn fails for lack of memory, exactly when no task ends. -/
theorem kernel_stacks_iff (old : Scheduler) (m : Mem) (bootstrap : Nat) (as : List Act) :
    Always (Sys.act kmalloc bootstrap) (fun t => StacksOwned t ∧ SpawnFits bootstrap t) as
      ⟨schedInit old,kmallocInit m⟩ ↔
    EachStep (Sys.act kmalloc bootstrap) NoTaskEnds as ⟨schedInit old,kmallocInit m⟩ := by
  have hboot := packed_boot old m
  apply always_iff (I := fun s => ∃ k, Packed k s) _ _ ⟨0,hboot⟩ ⟨hboot.owned,hboot.fits⟩
  · rintro s a ⟨k,hk⟩ ⟨howned,_⟩
    constructor
    · rintro hnext rfl
      by_contra h0
      exact howned.exit_leaks hk.inv h0 (hnext _ rfl).1
    · intro ha t ht
      obtain ⟨k',hk'⟩ := hk.step ha ht
      exact ⟨hk'.owned,hk'.fits⟩
  · rintro s a t ⟨k,hk⟩ _ ha ht
    exact hk.step ha ht

/-- A worker that is spawned, runs and ends leaves its stack behind. -/
theorem kernel_stacks_fail :
    ¬ ∀ (old : Scheduler) (m : Mem) (bootstrap : Nat) (as : List Act),
      Always (Sys.act kmalloc bootstrap) (fun t => StacksOwned t ∧ SpawnFits bootstrap t) as
        ⟨schedInit old,kmallocInit m⟩ := by
  intro h
  have hboot : Always (Sys.act kmalloc 0x100000) (fun t => StacksOwned t ∧ SpawnFits 0x100000 t)
      ([.spawn ⟨none,0,0⟩,.yield]++[.exit]) bootSys :=
    h ⟨fun _ => ⟨0,.free,[],0,0,0,0⟩,0,false,0⟩ (fun _ => 0) 0x100000 _
  obtain ⟨s,hs,h1⟩ : ∃ s, runActs kmalloc 0x100000 [.spawn ⟨none,0,0⟩,.yield] bootSys=some s ∧
      s.sched.current=1 := ⟨_,rfl,rfl⟩
  have hr : SchedReachable s := reachable_runActs (.init ⟨_,rfl⟩) hs
  have hexit : runActs kmalloc 0x100000 ([.spawn ⟨none,0,0⟩,.yield]++[.exit]) bootSys =
      some { s with sched := schedExit s.sched } := by
    rw [runActs,runFrom_append]
    rw [runActs] at hs
    rw [hs]
    rfl
  have hbefore := (hboot _ [.exit] s rfl hs).1
  have hafter := (hboot _ [] _ (List.append_nil _).symm hexit).1
  exact hbefore.exit_leaks (schedReachable_inv hr) (by rw [h1]; decide) hafter

end MyKernel.Sched
