import MyKernel.Lib.Memory
import MyKernel.Lib.Signed
import MyKernel.RamFs.Model

/-! The system calls of `syscall.c` on memory and on files. A failing call returns the number whose negative the
source returns. -/
namespace MyKernel.Syscall
open Memory Signed CString RamFs

inductive Errno where
  | enoent | ebadf | enomem | efault | einval | emfile | espipe | enosys
  deriving DecidableEq, Repr

def USER_HEAP_BASE : Nat := 0x500000
def USER_HEAP_MAX : Nat := 0x600000
def MMAP_BASE : Nat := 0x01000000
def MMAP_END : Nat := 0x02000000
def PAGE_SIZE : Nat := 4096
def MAP_FIXED : UInt32 := 0x10
def MAP_ANONYMOUS : UInt32 := 0x20

/-- `written` is not in the source: the addresses stored to, the last one first. -/
structure UserHeap where
  mem : Mem
  userBrk : Nat
  mmapBump : Nat
  written : List Nat

def userHeapReset (s : UserHeap) : UserHeap :=
  { s with userBrk := USER_HEAP_BASE, mmapBump := MMAP_BASE }

def sysBrk (s : UserHeap) (newBrk : Nat) : Nat × UserHeap :=
  if newBrk=0 then (s.userBrk,s)
  else if newBrk<USER_HEAP_BASE ∨ USER_HEAP_MAX<newBrk then (s.userBrk,s)
  else (newBrk,{ s with userBrk := newBrk })

def alignUpPage (n : Nat) : Nat := u32 (n+(PAGE_SIZE-1))/PAGE_SIZE*PAGE_SIZE

structure MmapArgs where
  addr : UInt32
  len : UInt32
  flags : UInt32
  deriving DecidableEq, Repr

def MmapArgs.fixed (c : MmapArgs) : Bool := c.flags &&& MAP_FIXED != 0 && c.addr != 0

def UserHeap.put (s : UserHeap) (a : Nat) (v : UInt8) : UserHeap :=
  { s with mem := store8 s.mem a v, written := u32 a::s.written }

/-- `for (uint32_t i = 0; i < len; i++) p[i] = 0;` -/
def zeroPages (base : Nat) : Nat → UserHeap → UserHeap
  | 0, s => s
  | n+1, s => (zeroPages base n s).put (base+n) 0

def sysMmap2 (s : UserHeap) (c : MmapArgs) : Except Errno Nat × UserHeap :=
  if c.len=0 then (.error .einval,s)
  else
    let len := alignUpPage c.len.toNat
    if MMAP_END-MMAP_BASE<len then (.error .enomem,s)
    else if c.flags &&& MAP_ANONYMOUS=0 then (.error .enosys,s)
    else if c.fixed then
      if c.addr.toNat<MMAP_BASE ∨ MMAP_END<u32 (c.addr.toNat+len) then (.error .einval,s)
      else (.ok c.addr.toNat,zeroPages c.addr.toNat len s)
    else if MMAP_END<u32 (s.mmapBump+len) then (.error .enomem,s)
    else (.ok s.mmapBump,zeroPages s.mmapBump len { s with mmapBump := u32 (s.mmapBump+len) })

def FD_MAX : Nat := 32
def O_WRONLY : UInt32 := 1
def O_RDWR : UInt32 := 2
def O_CREAT : UInt32 := 64
def O_APPEND : UInt32 := 1024
def SEEK_SET : Int := 0
def SEEK_CUR : Int := 1
def SEEK_END : Int := 2

inductive FdType where
  | none | console | ramfile
  deriving DecidableEq, Repr

/-- A pointer to the content of a node. `life` is not in the source: it numbers the files the slot has held. -/
structure ContentPtr where
  node : Nat
  life : Nat
  deriving DecidableEq, Repr

structure FdEntry where
  type : FdType
  used : Bool
  data : Option ContentPtr
  len : Nat
  pos : Nat
  writable : Bool
  name : List UInt8
  deriving DecidableEq, Repr

/-- `lives` counts how often each slot of the node table was taken or freed. -/
structure Kernel where
  fs : Fs
  lives : Nat → Nat
  fds : Nat → FdEntry

def Kernel.setFs (k : Kernel) (fs : Fs) : Kernel :=
  { k with
    fs := fs,
    lives := fun i => if (fs.nodes i).type=(k.fs.nodes i).type then k.lives i else k.lives i+1 }

def Kernel.setFd (k : Kernel) (fd : Nat) (e : FdEntry) : Kernel :=
  { k with fds := fun j => if j=fd then e else k.fds j }

def fdTableReset (k : Kernel) : Kernel :=
  { k with
    fds := fun i =>
      if i≤2 then ⟨.console,true,none,0,0,i != 0,[]⟩
      else if i<FD_MAX then ⟨.none,false,none,0,0,false,[]⟩
      else k.fds i }

def fdAlloc (k : Kernel) : Option Nat :=
  (List.range' 3 (FD_MAX-3)).find? fun i => !(k.fds i).used

def nameCopy (s : List UInt8) (n : Nat) : List UInt8 := s.take (n-1)

/-- `!(fd < 0 || fd >= FD_MAX || !fds[fd].used)` -/
def Kernel.isUsed (k : Kernel) (fd : Int) : Bool :=
  decide (0≤fd) && decide (fd<FD_MAX) && (k.fds fd.toNat).used

def contentOf (k : Kernel) (e : FdEntry) : Nat → UInt8 :=
  match e.data with
  | some p => (k.fs.nodes p.node).content
  | none => fun _ => 0

/-- The number of bytes `sys_read` takes from a file, as the signed word it works with. -/
def readCount (e : FdEntry) (count : Int) : Int :=
  if sub32 e.len e.pos<toWord count then wrap32 (sub32 e.len e.pos) else count

def bytesRead (k : Kernel) (e : FdEntry) (count : Int) : List UInt8 :=
  (List.range (readCount e count).toNat).map fun i => contentOf k e (u32 (e.pos+i))

/-- The bytes stored from `buf` on are put out. -/
def sysRead (k : Kernel) (fd : Int) (buf : Nat) (count : Int) :
    Except Errno (Int × List UInt8) × Kernel :=
  if count<0 then (.error .einval,k)
  else if buf=0 then (.error .efault,k)
  else if !k.isUsed fd then (.error .ebadf,k)
  else
    let e := k.fds fd.toNat
    match e.type with
    | .console => (.ok (0,[]),k)
    | .ramfile =>
      (.ok (readCount e count,bytesRead k e count),
        k.setFd fd.toNat { e with pos := u32 (e.pos+toWord (readCount e count)) })
    | .none => (.error .ebadf,k)

def sysWrite (k : Kernel) (mem : Mem) (fd : Int) (buf : Nat) (count : Int) : Except Errno (Int × List UInt8) :=
  if count<0 then .error .einval
  else if buf=0 then .error .efault
  else if !k.isUsed fd then .error .ebadf
  else if (k.fds fd.toNat).type = .console then
    .ok (count,(List.range count.toNat).map fun i => load8 mem (buf+i))
  else .error .ebadf

def openedEntry (k : Kernel) (idx : Nat) (path : List UInt8) (flags : UInt32) : FdEntry where
  type := .ramfile
  used := true
  data := some ⟨idx,k.lives idx⟩
  len := (k.fs.nodes idx).contentLen
  pos := if flags &&& O_APPEND=0 then 0 else (k.fs.nodes idx).contentLen
  writable := flags &&& (O_WRONLY ||| O_RDWR) != 0
  name := nameCopy path 48

def openNode (k : Kernel) (idx : Nat) (path : List UInt8) (flags : UInt32) :
    Except Errno Nat × Kernel :=
  match fdAlloc k with
  | none => (.error .emfile,k)
  | some fd => (.ok fd,k.setFd fd (openedEntry k idx path flags))

/-- `fs_touch(path) != FS_OK && fs_write(path, "") != FS_OK`: with `true` the file is thought to
exist now. -/
def createFile (s : Fs) (path : List UInt8) : Bool × Fs :=
  if (fsTouch s path).1 = .ok then (true,(fsTouch s path).2)
  else
    let w := fsWrite (fsTouch s path).2 path []
    (w.1 == .ok,w.2)

def sysOpen (k : Kernel) (path : List UInt8) (flags : UInt32) : Except Errno Nat × Kernel :=
  if path=[] then (.error .enoent,k)
  else match fsRead k.fs path with
    | .ok idx => openNode k idx path flags
    | .error _ =>
      if flags &&& O_CREAT=0 then (.error .enoent,k)
      else
        let c := createFile k.fs path
        let k := k.setFs c.2
        if !c.1 then (.error .enoent,k)
        else match fsRead k.fs path with
          | .ok idx => openNode k idx path flags
          | .error _ => (.error .enoent,k)

def sysClose (k : Kernel) (fd : Int) : Except Errno Int × Kernel :=
  if fd<3 ∨ !k.isUsed fd then (.error .ebadf,k)
  else (.ok 0,k.setFd fd.toNat { k.fds fd.toNat with used := false, type := .none })

/-- `none` is a `whence` that is not known. -/
def seekBase (e : FdEntry) (whence : Int) : Option Int :=
  if whence=SEEK_SET then some 0
  else if whence=SEEK_CUR then some (wrap32 e.pos)
  else if whence=SEEK_END then some (wrap32 e.len)
  else none

def sysLseek (k : Kernel) (fd offset whence : Int) : Except Errno Int × Kernel :=
  if !k.isUsed fd then (.error .ebadf,k)
  else if (k.fds fd.toNat).type ≠ .ramfile then (.error .espipe,k)
  else
    let e := k.fds fd.toNat
    match seekBase e whence with
    | none => (.error .einval,k)
    | some base =>
      let neu := wrap32 (base+offset)
      if neu<0 then (.error .einval,k)
      else
        let neu := if e.len<toWord neu then wrap32 e.len else neu
        (.ok neu,k.setFd fd.toNat { e with pos := toWord neu })

def sysDup (k : Kernel) (fd : Int) : Except Errno Int × Kernel :=
  if !k.isUsed fd then (.error .ebadf,k)
  else match fdAlloc k with
    | none => (.error .emfile,k)
    | some n => (.ok n,k.setFd n { k.fds fd.toNat with used := true })

def sysDup2 (k : Kernel) (oldfd newfd : Int) : Except Errno Int × Kernel :=
  if !k.isUsed oldfd then (.error .ebadf,k)
  else if newfd<0 ∨ (FD_MAX : Int)≤newfd then (.error .ebadf,k)
  else if oldfd=newfd then (.ok newfd,k)
  else (.ok newfd,k.setFd newfd.toNat { k.fds oldfd.toNat with used := true })

structure IoVec where
  iovBase : UInt32
  iovLen : UInt32
  deriving DecidableEq, Repr

def IoVec.addrs (seg : IoVec) : List Nat := (List.range seg.iovLen.toNat).map fun i => u32 (seg.iovBase.toNat+i)

/-- `out` is what was stored or printed, by a call that fails in the end as well. -/
structure VecOut (β : Type) where
  result : Except Errno Int
  out : List β
  kernel : Kernel

/-- The loop of `sys_writev` and `sys_readv`, for the call made for a segment. -/
def vecLoop {β : Type} (io : Kernel → IoVec → Except Errno (Int × List β) × Kernel) :
    List IoVec → Int → List β → Kernel → VecOut β
  | [], total, out, k => ⟨.ok total,out,k⟩
  | seg::segs, total, out, k =>
    if seg.iovBase=0 ∧ seg.iovLen≠0 then ⟨.error .efault,out,k⟩
    else match io k seg with
      | (.error e,k) => ⟨.error e,out,k⟩
      | (.ok (n,items),k) =>
        if toWord n<seg.iovLen.toNat then ⟨.ok (wrap32 (total+n)),out++items,k⟩
        else vecLoop io segs (wrap32 (total+n)) (out++items) k

def vectored {β : Type} (io : Kernel → IoVec → Except Errno (Int × List β) × Kernel) (k : Kernel)
    (iov : Option (Nat → IoVec)) (iovcnt : Int) : VecOut β :=
  if iovcnt<0 ∨ 64 < iovcnt then ⟨.error .einval,[],k⟩
  else match iov with
    | none => if iovcnt≠0 then ⟨.error .efault,[],k⟩ else ⟨.ok 0,[],k⟩
    | some iov => vecLoop io ((List.range iovcnt.toNat).map iov) 0 [] k

def writeSegment (mem : Mem) (fd : Int) (k : Kernel) (seg : IoVec) : Except Errno (Int × List UInt8) × Kernel :=
  (sysWrite k mem fd seg.iovBase.toNat (wrap32 seg.iovLen.toNat),k)

/-- Each byte goes with the address it is stored to. -/
def IoVec.deliver (seg : IoVec) (r : Except Errno (Int × List UInt8) × Kernel) :
    Except Errno (Int × List (Nat × UInt8)) × Kernel :=
  (r.1.map fun o => (o.1,seg.addrs.zip o.2), r.2)

def readSegment (fd : Int) (k : Kernel) (seg : IoVec) : Except Errno (Int × List (Nat × UInt8)) × Kernel :=
  seg.deliver (sysRead k fd seg.iovBase.toNat (wrap32 seg.iovLen.toNat))

def sysWritev (k : Kernel) (mem : Mem) (fd : Int) (iov : Option (Nat → IoVec)) (iovcnt : Int) : VecOut UInt8 :=
  vectored (writeSegment mem fd) k iov iovcnt

def sysReadv (k : Kernel) (fd : Int) (iov : Option (Nat → IoVec)) (iovcnt : Int) : VecOut (Nat × UInt8) :=
  vectored (readSegment fd) k iov iovcnt

end MyKernel.Syscall
