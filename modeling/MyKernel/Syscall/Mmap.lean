import MyKernel.Lib.Ranges
import MyKernel.Lib.Traces
import MyKernel.Syscall.Model

/-! Histories of `sys_mmap2` calls: when the ranges lie in the arena and apart. -/
namespace MyKernel.Syscall
open Memory Ranges Traces

structure Grant where
  base : Nat
  len : Nat
  fixed : Bool
  deriving DecidableEq, Repr

/-- The ranges granted so far, the last one first. -/
structure History where
  heap : UserHeap
  granted : List Grant

def History.note (h : History) (c : MmapArgs) (r : Except Errno Nat × UserHeap) : History :=
  match r.1 with
  | .ok base => ⟨r.2,⟨base,c.len.toNat,c.fixed⟩::h.granted⟩
  | .error _ => ⟨r.2,h.granted⟩

def History.call (h : History) (c : MmapArgs) : Option History := some (h.note c (sysMmap2 h.heap c))

def History.fresh (mem : Mem) (userBrk mmapBump : Nat) : History :=
  ⟨userHeapReset ⟨mem,userBrk,mmapBump,[]⟩,[]⟩

def InArena (x : Nat) : Prop := MMAP_BASE≤x ∧ x<MMAP_END

def Grant.Apart (g g' : Grant) : Prop := Disjoint32 g.base g.len g'.base g'.len

structure Confined (h : History) : Prop where
  zeroed : ∀ x∈h.heap.written, InArena x
  inside : ∀ g∈h.granted, ∀ x, InRange g.base g.len x → InArena x
  apart : h.granted.Pairwise fun later earlier => later.fixed=true ∨ later.Apart earlier

variable {h : History} {c : MmapArgs} {s : UserHeap} {n base x : Nat}

theorem zeroPages_mmapBump : (zeroPages base n s).mmapBump=s.mmapBump := by
  induction n with
  | zero => rfl
  | succ n ih => exact ih

end MyKernel.Syscall
