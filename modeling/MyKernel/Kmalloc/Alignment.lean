import MyKernel.Lib.Traces
import MyKernel.Kmalloc.Heap

/-! The addresses that `kmalloc` hands out. -/
namespace MyKernel.Kmalloc
open Memory Tiling Traces

variable {s t : Client} {n : Nat} {k : Call} {ks : List Call}

def Client.result (s : Client) : Call → Option Nat
  | .kmalloc n => (kmalloc s.heap n).map Prod.fst
  | .krealloc p n => (krealloc s.heap p n).map Prod.fst
  | .kfree _ => none
  | .write _ _ => none

def Held (s : Client) : Call → Prop
  | .kmalloc n => n<4294967296
  | .kfree p => p=0 ∨ p∈s.live
  | .krealloc p n => (p=0 ∨ p∈s.live) ∧ n<4294967296
  | .write a _ => ∃ p∈s.live, p≤a ∧ a<p+blockSize s.heap.mem (sub32 p blockHeader)

def ReturnsAligned (s : Client) (k : Call) : Prop := ∀ p, s.result k=some p → p≠0 → ALIGN ∣ p

/-- The request is for nothing, or for more than the whole heap. -/
def Unservable : Call → Prop
  | .kmalloc n => n=0 ∨ KHEAP_SIZE-blockHeader<alignUp n
  | .krealloc _ n => n=0 ∨ KHEAP_SIZE-blockHeader<alignUp n
  | .kfree _ => True
  | .write _ _ => True

structure Idle (s : Client) : Prop where
  heap : HeapInv s.heap [⟨KHEAP_START,KHEAP_SIZE-blockHeader,true⟩]
  live : s.live=[]

theorem idle_boot (m : Mem) : Idle ⟨kmallocInit m,[]⟩ := ⟨kmallocInit_inv m,rfl⟩

theorem Idle.kmalloc_fails (h : Idle s) (hn : n=0 ∨ KHEAP_SIZE-blockHeader<alignUp n) :
    kmalloc s.heap n=some (0,s.heap) := by
  by_cases h0 : n=0
  · rw [kmalloc,if_pos h0]
  · rcases kmalloc_spec h.heap h0 with ⟨_,he⟩ | ⟨pre,c,post,h',hsplit,hf,_⟩
    · exact he
    · have hc : c∈pre++c::post := by simp
      rw [← hsplit,List.mem_singleton] at hc
      exact absurd hf.2 (by rw [hc]; exact Nat.not_le.mpr (hn.resolve_left h0))

theorem Idle.kmalloc_first (h : Idle s) (h0 : n≠0) (hn : alignUp n≤KHEAP_SIZE-blockHeader) :
    ∃ h', kmalloc s.heap n=some (0x20000C,h') := by
  rcases kmalloc_spec h.heap h0 with ⟨hnone,_⟩ | ⟨pre,c,post,h',hsplit,_,_,he,_⟩
  · exact absurd ⟨rfl,hn⟩ (hnone _ (List.mem_singleton_self _))
  · have hc : c∈pre++c::post := by simp
    rw [← hsplit,List.mem_singleton] at hc
    rw [hc] at he
    exact ⟨h',he⟩

theorem Idle.not_held (h : Idle s) {p : Nat} (hp : p=0 ∨ p∈s.live) : p=0 := by
  rcases hp with hp | hp
  · exact hp
  · rw [h.live] at hp
    cases hp

theorem Idle.kmalloc_aligned_iff (h : Idle s) :
    (∀ p, (kmalloc s.heap n).map Prod.fst=some p → p≠0 → ALIGN ∣ p) ↔
      n=0 ∨ KHEAP_SIZE-blockHeader<alignUp n := by
  constructor
  · intro haligned
    by_contra hserved
    obtain ⟨h0,hn⟩ := not_or.mp hserved
    obtain ⟨h',he⟩ := h.kmalloc_first h0 (Nat.not_lt.mp hn)
    have hdvd := haligned 0x20000C (by rw [he]; rfl) (by decide)
    exact absurd hdvd (by decide)
  · intro hn p hp hp0
    rw [h.kmalloc_fails hn] at hp
    exact absurd (Option.some_inj.mp hp).symm hp0

theorem Idle.aligned_iff (h : Idle s) (hk : Held s k) : ReturnsAligned s k ↔ Unservable k := by
  cases k with
  | kmalloc n => exact h.kmalloc_aligned_iff
  | krealloc p n =>
    have hcall : krealloc s.heap p n=kmalloc s.heap n := by rw [h.not_held hk.1,krealloc,if_pos rfl]
    rw [ReturnsAligned,Client.result,hcall]
    exact h.kmalloc_aligned_iff
  | kfree p =>
    refine iff_of_true ?_ trivial
    intro q hq
    cases hq
  | write a v =>
    refine iff_of_true ?_ trivial
    intro q hq
    cases hq

theorem Idle.call (h : Idle s) (hk : Held s k) (hu : Unservable k) : ∃ t, s.call k=some t ∧ Idle t := by
  have hlive := h.live
  have hnone : dropped s.live 0=[] := by simp [dropped,hlive]
  cases k with
  | kmalloc n =>
    refine ⟨⟨s.heap,s.live⟩,?_,h⟩
    rw [Client.call,h.kmalloc_fails hu]
    rfl
  | krealloc p n =>
    refine ⟨if n=0 ∨ (0 : Nat)≠0 then ⟨s.heap,granted (dropped s.live 0) 0⟩ else ⟨s.heap,s.live⟩,?_,?_⟩
    · rw [Client.call,h.not_held hk.1,krealloc,if_pos rfl,h.kmalloc_fails hu]
      rfl
    · split
      · exact ⟨h.heap,hnone⟩
      · exact h
  | kfree p =>
    refine ⟨⟨s.heap,dropped s.live 0⟩,?_,h.heap,hnone⟩
    rw [Client.call,h.not_held hk,kfree,if_pos rfl]
    rfl
  | write a v =>
    obtain ⟨p,hp,_⟩ := hk
    rw [hlive] at hp
    cases hp

/-- In a run from `kmalloc_init` all pointers returned are multiples of `ALIGN` exactly when no pointer is
returned: every request is for nothing or for more than there is. -/
theorem aligned_run_iff (m : Mem) (ks : List Call) (hheld : EachStep Client.call Held ks ⟨kmallocInit m,[]⟩) :
    EachStep Client.call ReturnsAligned ks ⟨kmallocInit m,[]⟩ ↔ ∀ k∈ks, Unservable k := by
  have hidle := idle_boot m
  revert hheld hidle
  generalize (⟨kmallocInit m,[]⟩ : Client)=s
  induction ks generalizing s with
  | nil =>
    intro _ _
    exact iff_of_true eachStep_nil (by simp)
  | cons k ks ih =>
    intro hheld hidle
    rw [eachStep_cons] at hheld ⊢
    rw [List.forall_mem_cons,hidle.aligned_iff hheld.1]
    apply and_congr_right
    intro hu
    obtain ⟨t,ht,hidle'⟩ := hidle.call hheld.1 hu
    have hrest := ih t (hheld.2 t ht) hidle'
    constructor
    · intro hall
      exact hrest.mp (hall t ht)
    · intro hall u hu
      rw [← Option.some_inj.mp (ht.symm.trans hu)]
      exact hrest.mpr hall

/-- Two mebibytes are refused. -/
theorem aligned_run_refused :
    EachStep Client.call ReturnsAligned [.kmalloc 0x200000] bootClient := by
  refine (aligned_run_iff (fun _ => 0) [.kmalloc 0x200000] ?_).mpr ?_
  · exact eachStep_cons.mpr ⟨show 0x200000<4294967296 by decide,fun _ _ => eachStep_nil⟩
  · exact List.forall_mem_singleton.mpr (.inr (by decide))

/-- The first block of all is four bytes off. -/
theorem first_block_unaligned :
    ¬ ∀ (m : Mem) (ks : List Call), EachStep Client.call Held ks ⟨kmallocInit m,[]⟩ →
      EachStep Client.call ReturnsAligned ks ⟨kmallocInit m,[]⟩ := by
  intro h
  have hheld : EachStep Client.call Held [.kmalloc 1] ⟨kmallocInit fun _ => 0,[]⟩ :=
    eachStep_cons.mpr ⟨show 1<4294967296 by decide,fun _ _ => eachStep_nil⟩
  have hone := ((idle_boot fun _ => 0).aligned_iff (k := .kmalloc 1) (by decide : 1<4294967296)).mp
    (eachStep_cons.mp (h _ _ hheld)).1
  exact absurd hone (by decide : ¬ (1=0 ∨ KHEAP_SIZE-blockHeader<alignUp 1))

end MyKernel.Kmalloc
