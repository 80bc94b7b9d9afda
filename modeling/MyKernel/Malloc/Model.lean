import MyKernel.Kmalloc.Model
import MyKernel.Lib.Loops
import MyKernel.Syscall.Model

/-! The heap of user programs in `malloc.c`. `struct mhdr` has the fields of a block of the kernel heap. -/
namespace MyKernel.Malloc
open Memory Loops Syscall
open Kmalloc (blockHeader blockSize blockFree blockNext setSize setFree setNext alignUp copyLoop copyFuel)

/-- `blocks` is not in the source: the headers that `more_core` has made. -/
structure Process where
  sys : UserHeap
  heapHead : Nat
  blocks : List Nat

def Process.mem (s : Process) : Mem := s.sys.mem
def Process.brk (s : Process) : Nat := s.sys.userBrk
def Process.setMem (s : Process) (m : Mem) : Process := { s with sys := { s.sys with mem := m } }

def callBrk (addr : Nat) (s : Process) : Nat × Process :=
  let (ret,sys) := sysBrk s.sys addr
  (ret,{ s with sys := sys })

def heapInit (s : Process) : Bool × Process :=
  if s.heapHead≠0 then (true,s)
  else
    let (cur,s) := callBrk 0 s
    if cur=0 then (false,s) else (true,{ s with heapHead := 0 })

def moreCore (need : Nat) (s : Process) : Nat × Process :=
  let need := alignUp (u32 (need+blockHeader))
  let (old,s) := callBrk 0 s
  let (neu,s) := callBrk (u32 (old+need)) s
  if neu<u32 (old+need) then (0,s)
  else
    let m := setSize s.mem old (sub32 need blockHeader)
    let m := setFree m old 1
    let m := setNext m old 0
    (old,{ s.setMem m with blocks := s.blocks++[old] })

inductive Search where
  | found (b : Nat)
  | ended (prev : Nat)
  deriving DecidableEq, Repr

/-- A walk with more steps has met a header twice. -/
def walkFuel : Nat := 0x100000000

def search (m : Mem) (size : Nat) : Nat → Nat → Nat → Option Search
  | 0, _, _ => none
  | fuel+1, prev, b =>
    if b=0 then some (.ended prev)
    else if blockFree m b≠0 ∧ size≤blockSize m b then some (.found b)
    else search m size fuel b (blockNext m b)

def useBlock (b : Nat) (s : Process) : Process := s.setMem (setFree s.mem b 0)

def linkBlock (prev b : Nat) (s : Process) : Process :=
  if prev≠0 then s.setMem (setNext s.mem prev b) else { s with heapHead := b }

def afterSearch (size : Nat) (s : Process) : Search → Nat × Process
  | .found b => (u32 (b+blockHeader),useBlock b s)
  | .ended prev =>
    let (b,s) := moreCore size s
    if b=0 then (0,s) else (u32 (b+blockHeader),linkBlock prev b (useBlock b s))

def malloc (size : Nat) (s : Process) : Option (Nat × Process) :=
  if size=0 then some (0,s)
  else
    match heapInit s with
    | (false,s) => some (0,s)
    | (true,s) => (search s.mem (alignUp size) walkFuel 0 s.heapHead).map (afterSearch (alignUp size) s)

def free (ptr : Nat) (s : Process) : Process :=
  if ptr=0 then s else s.setMem (setFree s.mem (sub32 ptr blockHeader) 1)

/-- What `realloc` does with the new block. -/
def moveBlock (ptr n : Nat) (s : Process) : Option (Nat × Process) :=
  if n=0 then some (0,s)
  else (copyLoop (sub32 ptr blockHeader) n ptr copyFuel 0 s.mem).map fun m => (n,free ptr (s.setMem m))

def realloc (ptr size : Nat) (s : Process) : Option (Nat × Process) :=
  if ptr=0 then malloc size s
  else if size=0 then some (0,free ptr s)
  else if size≤blockSize s.mem (sub32 ptr blockHeader) then some (ptr,s)
  else (malloc size s).bind fun (n,s) => moveBlock ptr n s

def zeroBytes (p total : Nat) (m : Mem) : Mem := upTo (fun i m => store8 m (p+i) 0) total m

def calloc (n size : Nat) (s : Process) : Option (Nat × Process) :=
  let total := u32 (n*size)
  (malloc total s).map fun (p,s) => if p=0 then (0,s) else (p,s.setMem (zeroBytes p total s.mem))

/-- The blocks that the program holds, with the bytes asked for, and the block of the last `calloc`. -/
structure Client where
  proc : Process
  live : List (Nat × Nat)
  zeroed : Option (Nat × Nat)

/-- `store` is a store of the program into a block it holds. -/
inductive Call where
  | malloc (size : UInt32)
  | calloc (n size : UInt32)
  | realloc (ptr : Nat) (size : UInt32)
  | free (ptr : Nat)
  | store (ptr i : Nat) (v : UInt8)

def granted (live : List (Nat × Nat)) (p n : Nat) : List (Nat × Nat) := if p=0 then live else (p,n)::live
def dropped (live : List (Nat × Nat)) (p : Nat) : List (Nat × Nat) := live.filter fun b => b.1≠p

def Client.Holds (c : Client) (p : Nat) : Prop := p=0 ∨ p∈c.live.map Prod.fst

instance (c : Client) (p : Nat) : Decidable (c.Holds p) := inferInstanceAs (Decidable (_ ∨ _))

def Client.moved (c : Client) (p n q : Nat) : List (Nat × Nat) :=
  if q=0 then (if n=0 then dropped c.live p else c.live) else granted (dropped c.live p) q n

/-- A call that is not allowed is no step. -/
def Client.step (c : Client) : Call → Option Client
  | .malloc size => (malloc size.toNat c.proc).map fun (p,s) => ⟨s,granted c.live p size.toNat,none⟩
  | .calloc n size => (calloc n.toNat size.toNat c.proc).map fun (p,s) =>
      ⟨s,granted c.live p (n.toNat*size.toNat),if p=0 then none else some (p,n.toNat*size.toNat)⟩
  | .realloc p size =>
      if c.Holds p then (realloc p size.toNat c.proc).map fun (q,s) => ⟨s,c.moved p size.toNat q,none⟩
      else none
  | .free p => if c.Holds p then some ⟨free p c.proc,dropped c.live p,none⟩ else none
  | .store p i v =>
      if ∃ b∈c.live, b.1=p ∧ i<b.2 then some ⟨c.proc.setMem (store8 c.proc.mem (p+i) v),c.live,none⟩
      else none

def atStart (sys : UserHeap) : Client := ⟨⟨userHeapReset sys,0,[]⟩,[],none⟩

end MyKernel.Malloc
