import MyKernel.Lib.Runs
import MyKernel.Sched.Stacks

/-! `context_switch.s` on the stacks of the tasks, whichever of them run in between. -/
namespace MyKernel.Switch
open Memory Runs Sched

structure Cpu where
  (eax ecx edx ebx esp ebp esi edi eip : Nat)

/-- The registers in the order of `pusha`. -/
def Cpu.words (c : Cpu) : List Nat := [c.eax,c.ecx,c.edx,c.ebx,c.esp,c.ebp,c.esi,c.edi]

/-- `popa` and `ret`. The word of `esp` is skipped. -/
def popaRet (m : Mem) (sp : Nat) : Cpu where
  edi := load32 m sp
  esi := load32 m (sp+4)
  ebp := load32 m (sp+8)
  ebx := load32 m (sp+16)
  edx := load32 m (sp+20)
  ecx := load32 m (sp+24)
  eax := load32 m (sp+28)
  eip := load32 m (sp+32)
  esp := sp+36

def contextSwitch (c : Cpu) (m : Mem) : Cpu × Mem :=
  let m := pushWords m c.esp c.words
  let esp := c.esp-32
  let m := store32 m (load32 m (esp+36)) esp
  (popaRet m (load32 m (esp+40)),m)

/-- `left` is not in the source: the registers with which a task that does not run is to go on. -/
structure State where
  cpu : Cpu
  mem : Mem
  current : Nat
  left : Nat → Option Cpu

/-- Address `a` is in the frame of a task that does not run, or in its `sp`, which is at `spAt j`. -/
def Kept (spAt : Nat → Nat) (left : Nat → Option Cpu) (a : Nat) : Prop :=
  ∃ j c, left j=some c ∧ (c.esp-36≤a ∧ a<c.esp ∨ spAt j≤a ∧ a<spAt j+4)

inductive Event where
  | run
  | spawn (j stack : Nat)
  | switch (j : Nat) (ends : Bool)

/-- The words at `spAt i` and from `lo` to `hi` lie apart, in memory, and off the frames that are kept. -/
structure Room (spAt : Nat → Nat) (left : Nat → Option Cpu) (i lo hi : Nat) : Prop where
  slot : spAt i+4≤4294967296
  apart : spAt i+4≤lo ∨ hi ≤ spAt i
  top : hi<4294967296
  free : ∀ a, Kept spAt left a → ¬ (lo≤a ∧ a<hi ∨ spAt i≤a ∧ a<spAt i+4)

/-- Between the calls the running task may do anything outside the frames of the others. A call of `context_switch`
has the address of its own `sp` and the `sp` of the next task as arguments. -/
def Step (spAt : Nat → Nat) (bootstrap : Nat) (s : State) (e : Event) (t : State) : Prop :=
  match e with
  | .run => t.current=s.current ∧ t.left=s.left ∧ ∀ a, Kept spAt s.left a → t.mem a=s.mem a
  | .spawn j stack => bootstrap<4294967296 ∧ Room spAt s.left j stack (stack+SCHED_STACK_SIZE) ∧
      t={ s with
        mem := store32 (initStack s.mem stack bootstrap) (spAt j) (stackTop stack-36),
        left := Function.update s.left j (some ⟨0,0,0,0,stackTop stack,0,0,0,bootstrap⟩) }
  | .switch j ends => s.left j≠none ∧ 32 ≤ s.cpu.esp ∧ (∀ v∈s.cpu.words, v<4294967296) ∧
      load32 s.mem (s.cpu.esp+4)=spAt s.current ∧ load32 s.mem (s.cpu.esp+8)=load32 s.mem (spAt j) ∧
      Room spAt s.left s.current (s.cpu.esp-32) (s.cpu.esp+12) ∧
      t=⟨(contextSwitch s.cpu s.mem).1,(contextSwitch s.cpu s.mem).2,j,
        Function.update (Function.update s.left j none) s.current
          (if ends then none else some { s.cpu with esp := s.cpu.esp+4, eip := load32 s.mem s.cpu.esp })⟩

variable {spAt : Nat → Nat} {left : Nat → Option Cpu} {m m' : Mem} {c : Cpu} {s t : State}
variable {bootstrap stack sp i j : Nat}

theorem popaRet_push {a c d b w bp si di : Nat} (hsp : sp+36≤4294967296)
    (hv : ∀ v∈[a,c,d,b,w,bp,si,di], v<4294967296) :
    popaRet (pushWords m (sp+32) [a,c,d,b,w,bp,si,di]) sp=⟨a,c,d,b,sp+36,bp,si,di,load32 m (sp+32)⟩ := by
  simp only [List.forall_mem_cons] at hv
  simp (disch := omega) only [popaRet,pushWords,Nat.reduceSubDiff,load32_store32_self,load32_store32_of_disjoint]

theorem popaRet_congr (hsp : sp+36≤4294967296) (h : ∀ x, sp≤x → x<sp+36 → m' x=m x) :
    popaRet m' sp=popaRet m sp := by
  have hload : ∀ k, k+4≤36 → load32 m' (sp+k)=load32 m (sp+k) := by
    intro k hk
    refine load32_congr fun i hi => ?_
    rw [u32_of_lt (by omega)]
    exact h _ (by omega) (by omega)
  have h0 : load32 m' sp=load32 m sp := hload 0 (by decide)
  simp (disch := omega) only [popaRet,h0,hload]

/-- A switch to task `j` puts the registers `c` in place. -/
structure Suspended (spAt : Nat → Nat) (m : Mem) (j : Nat) (c : Cpu) : Prop where
  frame : popaRet m (load32 m (spAt j))=c
  top : c.esp≤4294967296
  slot : spAt j+4≤4294967296

def Inv (spAt : Nat → Nat) (s : State) : Prop := ∀ j c, s.left j=some c → Suspended spAt s.mem j c

/-- What is kept of a suspended task is all it needs. -/
theorem Inv.kept (h : Inv spAt s) (hm : ∀ a, Kept spAt s.left a → m a=s.mem a) (hj : s.left j=some c) :
    Suspended spAt m j c := by
  obtain ⟨hframe,htop,hslot⟩ := h j c hj
  have hesp : load32 s.mem (spAt j)+36=c.esp := congrArg Cpu.esp hframe
  have hsp : load32 m (spAt j)=load32 s.mem (spAt j) := by
    refine load32_congr fun k hk => hm _ ⟨j,c,hj,.inr ?_⟩
    rw [u32_of_lt (by omega)]
    omega
  refine ⟨?_,htop,hslot⟩
  rw [hsp,← hframe]
  exact popaRet_congr (by omega) fun x _ _ => hm x ⟨j,c,hj,.inl (by omega)⟩

/-- A frame just pushed, once its place is in the `sp` of the task. -/
theorem Suspended.stored {lo hi : Nat} (hr : Room spAt left i lo hi) (hlo : lo ≤ sp) (hhi : sp+36≤hi)
    (hf : popaRet m sp=c) : Suspended spAt (store32 m (spAt i) sp) i c := by
  have := hr.slot
  have := hr.top
  have := hr.apart
  have hesp : sp+36=c.esp := congrArg Cpu.esp hf
  refine ⟨?_,by omega,hr.slot⟩
  rw [load32_store32_self m _ (by omega),← hf]
  exact popaRet_congr (by omega) fun x _ _ => store32_of_outside m _ (by omega) (by omega)

theorem Inv.of_kept (h : Inv spAt s) (hm : ∀ a, Kept spAt s.left a → t.mem a=s.mem a)
    (hleft : ∀ j c, t.left j=some c → s.left j=some c ∨ Suspended spAt t.mem j c) : Inv spAt t :=
  fun j c hj => (hleft j c hj).elim (h.kept hm) id

theorem Room.kept {lo hi v a : Nat} (hr : Room spAt left i lo hi) (vs : List Nat) (hlo : lo ≤ sp)
    (hhi : sp+4*vs.length≤hi) (ha : Kept spAt left a) :
    store32 (pushWords m (sp+4*vs.length) vs) (spAt i) v a=m a := by
  have := hr.top
  have := hr.free a ha
  rw [store32_of_outside _ _ hr.slot (by omega),pushWords_outside vs (by omega) (by omega)]

theorem spawn_inv (h : Inv spAt s) (hstep : Step spAt bootstrap s (.spawn j stack) t) : Inv spAt t := by
  obtain ⟨hb,hr,rfl⟩ := hstep
  have htop : stack+4096<4294967296 := hr.top
  obtain ⟨sp,hsp,hlo,hhi,heq⟩ := initStack_eq s.mem bootstrap htop
  rw [heq,hsp,Nat.add_sub_cancel]
  refine h.of_kept (fun a => hr.kept [bootstrap,0,0,0,0,0,0,0,0] hlo hhi) fun i c hi => ?_
  simp only [Function.update_apply] at hi
  split at hi
  case isFalse => exact .inl hi
  case isTrue hij =>
    cases hij
    cases hi
    refine .inr (Suspended.stored hr hlo hhi ?_)
    rw [pushWords,show sp+36-4=sp+32 by omega,popaRet_push (by omega) (by simp),load32_store32_self _ _ hb]

theorem contextSwitch_eq (hr : Room spAt left i sp (sp+44)) (hesp : c.esp=sp+32) (hi : load32 m (sp+36)=spAt i) :
    contextSwitch c m=(popaRet (store32 (pushWords m (sp+32) c.words) (spAt i) sp) (load32 m (sp+40)),
      store32 (pushWords m (sp+32) c.words) (spAt i) sp) := by
  have := hr.slot
  have := hr.top
  have := hr.apart
  simp (disch := omega) only [contextSwitch,hesp,Nat.add_sub_cancel,Cpu.words,pushWords,Nat.reduceSubDiff,
    load32_store32_of_disjoint,hi]

theorem switch_inv {ends : Bool} (h : Inv spAt s) (hstep : Step spAt bootstrap s (.switch j ends) t) :
    Inv spAt t ∧ s.left j=some t.cpu := by
  obtain ⟨hj,h32,hv,hi,hnext,hr,rfl⟩ := hstep
  obtain ⟨c,hj⟩ := Option.ne_none_iff_exists'.mp hj
  obtain ⟨sp,hesp⟩ := Nat.exists_eq_add_of_le' h32
  rw [hesp,Nat.add_sub_cancel] at hr
  rw [hesp] at hi hnext
  have := hr.top
  rw [contextSwitch_eq hr hesp hi,hnext]
  have hkept := fun a => hr.kept (m := s.mem) (v := sp) (a := a) s.cpu.words (Nat.le_refl sp) (by simp [Cpu.words])
  refine ⟨h.of_kept hkept fun i d hd => ?_,?_⟩
  · simp only [Function.update_apply] at hd
    split at hd
    case isTrue hij =>
      cases hij
      cases (Option.ite_none_left_eq_some.mp hd).2
      refine .inr (Suspended.stored hr (Nat.le_refl _) (by omega) ?_)
      rw [hesp]
      exact popaRet_push (by omega) hv
    case isFalse => exact .inl (Option.ite_none_left_eq_some.mp hd).2
  · have hframe := (h.kept hkept hj).frame
    have hsp := Nat.add_right_cancel (congrArg Cpu.esp (hframe.trans (h j c hj).frame.symm))
    rw [hj,← hsp]
    exact congrArg some hframe.symm

theorem step_inv {e : Event} (h : Inv spAt s) (hstep : Step spAt bootstrap s e t) : Inv spAt t := by
  cases e with
  | run => exact h.of_kept hstep.2.2 fun j c hj => .inl (hstep.2.1 ▸ hj)
  | spawn j stack => exact spawn_inv h hstep
  | switch j ends => exact (switch_inv h hstep).1

/-- However the tasks took turns: the task that is switched to goes on as if its own call of `context_switch` had just
returned, and a new task enters `task_bootstrap` on its own stack. -/
theorem context_switch_resumes {ends : Bool}
    (hrun : Reachable (fun s => s.left=fun _ => none) (Step spAt bootstrap) s)
    (hstep : Step spAt bootstrap s (.switch j ends) t) : s.left j=some t.cpu :=
  (switch_inv (hrun.invariant (Inv spAt) (fun s hs j c hj => by simp [hs] at hj) fun _ _ _ => step_inv) hstep).2

/-- Task 0 has made task 1 and calls for it, with its arguments on the stack. -/
def spawned : State where
  cpu := ⟨1,2,3,4,65536,6,7,8,9⟩
  mem := store32 (initStack (store32 (store32 (fun _ => 0) 65540 4096) 65544 12252) 8192 256) 4100 12252
  current := 0
  left := Function.update (fun _ => none) 1 (some ⟨0,0,0,0,12288,0,0,0,256⟩)

theorem context_switch_resumes_spawned :
    (contextSwitch spawned.cpu spawned.mem).1=⟨0,0,0,0,12288,0,0,0,256⟩ := by
  have hrun : Reachable (fun s => s.left=fun _ => none) (Step (fun i => 4096+4*i) 256) spawned :=
    .next (.spawn 1 8192) (.init (s := ⟨_,_,_,fun _ => none⟩) rfl)
      ⟨by decide,⟨by decide,by decide,by decide,fun a ⟨j,c,hj,_⟩ => by cases hj⟩,rfl⟩
  have hroom : Room (fun i => 4096+4*i) spawned.left 0 65504 65548 := by
    refine ⟨by decide,by decide,by decide,fun a ⟨j,c,hj,ha⟩ => ?_⟩
    simp only [spawned,Function.update_apply] at hj
    obtain ⟨rfl,hc⟩ := Option.ite_none_right_eq_some.mp hj
    cases hc
    simp only at ha
    omega
  have hstep : Step (fun i => 4096+4*i) 256 spawned (.switch 1 false) _ :=
    ⟨by simp [spawned],by decide,by decide,by decide +kernel,by decide +kernel,hroom,rfl⟩
  exact (Option.some_inj.mp (context_switch_resumes hrun hstep)).symm

end MyKernel.Switch
