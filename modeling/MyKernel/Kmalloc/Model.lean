import MyKernel.Lib.Memory

/-! The kernel heap of `kmalloc.c`. A walk that has not ended after `walkFuel` blocks gives `none`. -/
namespace MyKernel.Kmalloc
open Memory

def KHEAP_START : Nat := 0x200000
def KHEAP_SIZE : Nat := 0x100000
def ALIGN : Nat := 8
def blockHeader : Nat := 12

structure Heap where
  mem : Mem
  head : Nat
  heapUsed : Nat

def blockSize (m : Mem) (b : Nat) : Nat := load32 m b
def blockFree (m : Mem) (b : Nat) : Nat := load32 m (b+4)
def blockNext (m : Mem) (b : Nat) : Nat := load32 m (b+8)

def setSize (m : Mem) (b v : Nat) : Mem := store32 m b v
def setFree (m : Mem) (b v : Nat) : Mem := store32 m (b+4) v
def setNext (m : Mem) (b v : Nat) : Mem := store32 m (b+8) v

/-- `(n + (ALIGN - 1)) & ~(ALIGN - 1)` on 32-bit words. -/
def alignUp (n : Nat) : Nat := u32 (n+(ALIGN-1))/ALIGN*ALIGN

def kmallocInit (m : Mem) : Heap :=
  let m := setSize m KHEAP_START (KHEAP_SIZE - blockHeader)
  let m := setFree m KHEAP_START 1
  let m := setNext m KHEAP_START 0
  { mem := m, head := KHEAP_START, heapUsed := 0 }

def splitBlock (m : Mem) (b size : Nat) : Mem :=
  let total := u32 (blockHeader+blockSize m b)
  let need := u32 (blockHeader+size)
  if total<u32 (need+blockHeader+ALIGN) then m
  else
    let n := u32 (b+need)
    let m := setSize m n (sub32 (sub32 (blockSize m b) size) blockHeader)
    let m := setFree m n 1
    let m := setNext m n (blockNext m b)
    let m := setSize m b size
    setNext m b n

def walkFuel : Nat := 0x100000

/-- The merging branch of `coalesce`: block `b` takes over its successor. -/
def absorbNext (m : Mem) (b : Nat) : Mem :=
  let m := setSize m b (u32 (blockSize m b+(blockHeader+blockSize m (blockNext m b))))
  setNext m b (blockNext m (blockNext m b))

def coalesceLoop : Nat → Mem → Nat → Option Mem
  | 0, _, _ => none
  | fuel+1, m, b =>
    if b=0 ∨ blockNext m b=0 then some m
    else if blockFree m b≠0 ∧ blockFree m (blockNext m b)≠0 then
      coalesceLoop fuel (absorbNext m b) b
    else coalesceLoop fuel m (blockNext m b)

def coalesce (h : Heap) : Option Heap :=
  (coalesceLoop walkFuel h.mem h.head).map fun m => { h with mem := m }

/-- The body of the search loop once block `b` fits. -/
def takeBlock (h : Heap) (size b : Nat) : Nat × Heap :=
  let m := splitBlock h.mem b size
  let m := setFree m b 0
  (u32 (b+blockHeader),{ h with mem := m, heapUsed := u32 (h.heapUsed+blockSize m b) })

def kmallocLoop (h : Heap) (size : Nat) : Nat → Nat → Option (Nat × Heap)
  | 0, _ => none
  | fuel+1, b =>
    if b=0 then some (0,h)
    else if blockFree h.mem b≠0 ∧ size≤blockSize h.mem b then some (takeBlock h size b)
    else kmallocLoop h size fuel (blockNext h.mem b)

/-- The pointer returned (0 for NULL) and the heap after the call. -/
def kmalloc (h : Heap) (size : Nat) : Option (Nat × Heap) :=
  if size=0 then some (0,h)
  else kmallocLoop h (alignUp size) walkFuel h.head

def kfree (h : Heap) (ptr : Nat) : Option Heap :=
  if ptr=0 then some h
  else
    let b := sub32 ptr blockHeader
    if blockFree h.mem b≠0 then some h
    else
      let used := if blockSize h.mem b≤h.heapUsed
        then sub32 h.heapUsed (blockSize h.mem b) else 0
      coalesce { h with mem := setFree h.mem b 1, heapUsed := used }

/-- `for (i = 0; i < b->size; i++) dst[i] = src[i];` with `b->size` read again
before each byte. -/
def copyLoop (b dst src : Nat) : Nat → Nat → Mem → Option Mem
  | 0, _, _ => none
  | fuel+1, i, m =>
    if i<blockSize m b then
      copyLoop b dst src fuel (i+1) (store8 m (dst+i) (load8 m (src+i)))
    else some m

def copyFuel : Nat := 0x100000000

def krealloc (h : Heap) (ptr size : Nat) : Option (Nat × Heap) :=
  if ptr=0 then kmalloc h size
  else if size=0 then (kfree h ptr).map fun h => (0,h)
  else
    let b := sub32 ptr blockHeader
    if size≤blockSize h.mem b then some (ptr,h)
    else
      (kmalloc h size).bind fun (n,h) =>
        if n=0 then some (0,h)
        else
          (copyLoop b n ptr copyFuel 0 h.mem).bind fun m =>
            (kfree { h with mem := m } ptr).map fun h => (n,h)

structure Stats where
  used : Nat
  total : Nat
  freeBytes : Nat
  deriving DecidableEq, Repr

def freeBytesLoop (m : Mem) : Nat → Nat → Nat → Option Nat
  | 0, _, _ => none
  | fuel+1, b, f =>
    if b=0 then some f
    else freeBytesLoop m fuel (blockNext m b)
      (if blockFree m b≠0 then u32 (f+blockSize m b) else f)

def kmallocStats (h : Heap) : Option Stats :=
  (freeBytesLoop h.mem walkFuel h.head 0).map fun f =>
    { used := h.heapUsed, total := KHEAP_SIZE, freeBytes := f }

end MyKernel.Kmalloc
