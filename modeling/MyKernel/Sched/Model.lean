import MyKernel.Kmalloc.Model
import MyKernel.Lib.Cyclic

/-! The scheduler of `sched.c`. `current` is a task number. `kmalloc` is an argument of `sched_spawn`; `none` is a
call that does not return. -/
namespace MyKernel.Sched
open Memory Kmalloc Cyclic

def SCHED_MAX_TASKS : Nat := 8
def SCHED_STACK_SIZE : Nat := 4096
def TICKS_PER_SLICE : Nat := 10

inductive TaskState where
  | free | ready | running | blocked | zombie
  deriving DecidableEq, Repr

structure Task where
  id : Nat
  state : TaskState
  name : List UInt8
  stackBase : Nat
  entry : Nat
  arg : Nat
  ticksRan : Nat
  deriving DecidableEq, Repr

structure Scheduler where
  tasks : Nat → Task
  current : Nat
  schedEnabled : Bool
  ticksSlice : Nat

def Scheduler.setTask (s : Scheduler) (i : Nat) (t : Task) : Scheduler :=
  { s with tasks := fun j => if j=i then t else s.tasks j }

def Scheduler.setState (s : Scheduler) (i : Nat) (st : TaskState) : Scheduler :=
  s.setTask i { s.tasks i with state := st }

def strCopy16 (s : List UInt8) : List UInt8 := s.take 15

def shellName : List UInt8 := [0x73,0x68,0x65,0x6C,0x6C]
def taskName : List UInt8 := [0x74,0x61,0x73,0x6B]

def schedInit (s : Scheduler) : Scheduler where
  tasks i :=
    if i=0 then
      { s.tasks 0 with
        id := 0, state := .running, name := strCopy16 shellName, stackBase := 0, entry := 0, arg := 0,
        ticksRan := 0 }
    else if i<SCHED_MAX_TASKS then
      { s.tasks i with id := i, state := .free, name := [], stackBase := 0, ticksRan := 0 }
    else s.tasks i
  current := 0
  schedEnabled := true
  ticksSlice := 0

def Scheduler.isReady (s : Scheduler) (i : Nat) : Bool := (s.tasks i).state == .ready

/-- The next task that is ready, in a round that ends at the current one. -/
def pickNext (s : Scheduler) : Nat :=
  (firstAfter SCHED_MAX_TASKS (s.tasks s.current).id s.isReady).getD s.current

/-- `if (prev->state == TASK_RUNNING) prev->state = TASK_READY;` -/
def preempt (s : Scheduler) (prev : Nat) : Scheduler :=
  if (s.tasks prev).state = .running then s.setState prev .ready else s

def switchTo (s : Scheduler) (next : Nat) : Scheduler :=
  { (preempt s s.current).setState next .running with current := next }

def schedule (s : Scheduler) : Scheduler :=
  if !s.schedEnabled then s
  else if pickNext s=s.current then s
  else { switchTo s (pickNext s) with ticksSlice := 0 }

def schedYield (s : Scheduler) : Scheduler := if !s.schedEnabled then s else schedule s

def tickCurrent (s : Scheduler) : Scheduler :=
  { s.setTask s.current
      { s.tasks s.current with ticksRan := u32 ((s.tasks s.current).ticksRan+1) } with
    ticksSlice := s.ticksSlice+1 }

/-- The tick that completes a slice switches without calling `schedule`. -/
def schedOnTick (s : Scheduler) : Scheduler :=
  if !s.schedEnabled then s
  else if TICKS_PER_SLICE≤(tickCurrent s).ticksSlice then
    let s := { tickCurrent s with ticksSlice := 0 }
    if pickNext s=s.current then s else switchTo s (pickNext s)
  else tickCurrent s

def freeCurrent (s : Scheduler) : Scheduler :=
  s.setTask s.current { s.tasks s.current with state := .free, stackBase := 0 }

/-- The task that ends is no longer running when the next one is picked. -/
def schedExit (s : Scheduler) : Scheduler :=
  if (s.tasks s.current).id=0 then s
  else
    let s := freeCurrent s
    { s with current := pickNext s }.setState (pickNext s) .running

def freeSlot (s : Scheduler) : Option Nat :=
  (List.range' 1 (SCHED_MAX_TASKS-1)).find? fun i => (s.tasks i).state == .free

/-- Eight registers and the return address, below the top of the stack. -/
def initStack (m : Mem) (stack taskBootstrap : Nat) : Mem :=
  let top := u32 (stack+SCHED_STACK_SIZE)/16*16
  let m := store32 m (sub32 top 4) taskBootstrap
  (List.range' 2 8).foldl (fun m k => store32 m (sub32 top (4*k)) 0) m

structure Spawn where
  name : Option (List UInt8)
  entry : Nat
  arg : Nat
  deriving DecidableEq, Repr

def fillTask (t : Task) (stack : Nat) (new : Spawn) : Task :=
  { t with
    stackBase := stack, entry := new.entry, arg := new.arg, ticksRan := 0,
    name := strCopy16 (new.name.getD taskName), state := .ready }

abbrev Allocator := Heap → Nat → Option (Nat × Heap)

/-- `none` as the number returned is -1. -/
def startTask (taskBootstrap : Nat) (s : Scheduler) (i : Nat) (new : Spawn) (stack : Nat) (h : Heap) :
    Option Nat × Scheduler × Heap :=
  if stack=0 then (none,s,h)
  else (some (s.tasks i).id,s.setTask i (fillTask (s.tasks i) stack new),
    { h with mem := initStack h.mem stack taskBootstrap })

def schedSpawn (kmalloc : Allocator) (taskBootstrap : Nat) (s : Scheduler) (h : Heap) (new : Spawn) :
    Option (Option Nat × Scheduler × Heap) :=
  match freeSlot s with
  | none => some (none,s,h)
  | some i =>
    (kmalloc h SCHED_STACK_SIZE).map fun r => startTask taskBootstrap s i new r.1 r.2

structure Sys where
  sched : Scheduler
  heap : Heap

inductive Act where
  | spawn (new : Spawn)
  | yield
  | tick
  | exit
  deriving DecidableEq, Repr

def Sys.act (kmalloc : Allocator) (taskBootstrap : Nat) (s : Sys) : Act → Option Sys
  | .spawn new => (schedSpawn kmalloc taskBootstrap s.sched s.heap new).map fun r => ⟨r.2.1,r.2.2⟩
  | .yield => some { s with sched := schedYield s.sched }
  | .tick => some { s with sched := schedOnTick s.sched }
  | .exit => some { s with sched := schedExit s.sched }

end MyKernel.Sched
