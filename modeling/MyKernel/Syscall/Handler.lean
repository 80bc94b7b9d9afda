import MyKernel.Syscall.Mmap
import MyKernel.Syscall.Vectored

/-! `syscall_handler`. The rows of `switchBodies` are its bodies in order, with the labels that lead there. -/
namespace MyKernel.Syscall
open Memory Signed RamFs Ranges

def SYS_EXIT : UInt32 := 1
def SYS_FORK : UInt32 := 2
def SYS_READ : UInt32 := 3
def SYS_WRITE : UInt32 := 4
def SYS_OPEN : UInt32 := 5
def SYS_CLOSE : UInt32 := 6
def SYS_WAITPID : UInt32 := 7
def SYS_CREAT : UInt32 := 8
def SYS_LINK : UInt32 := 9
def SYS_UNLINK : UInt32 := 10
def SYS_EXECVE : UInt32 := 11
def SYS_CHDIR : UInt32 := 12
def SYS_TIME : UInt32 := 13
def SYS_CHMOD : UInt32 := 15
def SYS_LSEEK : UInt32 := 19
def SYS_GETPID : UInt32 := 20
def SYS_ALARM : UInt32 := 27
def SYS_PAUSE : UInt32 := 29
def SYS_ACCESS : UInt32 := 33
def SYS_NICE : UInt32 := 34
def SYS_SYNC : UInt32 := 36
def SYS_KILL : UInt32 := 37
def SYS_RENAME : UInt32 := 38
def SYS_MKDIR : UInt32 := 39
def SYS_RMDIR : UInt32 := 40
def SYS_DUP : UInt32 := 41
def SYS_PIPE : UInt32 := 42
def SYS_TIMES : UInt32 := 43
def SYS_BRK : UInt32 := 45
def SYS_IOCTL : UInt32 := 54
def SYS_FCNTL : UInt32 := 55
def SYS_UMASK : UInt32 := 60
def SYS_DUP2 : UInt32 := 63
def SYS_GETPPID : UInt32 := 64
def SYS_SETSID : UInt32 := 66
def SYS_SIGACTION : UInt32 := 67
def SYS_SETHOSTNAME : UInt32 := 74
def SYS_SETRLIMIT : UInt32 := 75
def SYS_GETRLIMIT : UInt32 := 76
def SYS_GETTIMEOFDAY : UInt32 := 78
def SYS_SYMLINK : UInt32 := 83
def SYS_READLINK : UInt32 := 85
def SYS_REBOOT : UInt32 := 88
def SYS_MMAP : UInt32 := 90
def SYS_MUNMAP : UInt32 := 91
def SYS_STAT : UInt32 := 106
def SYS_LSTAT : UInt32 := 107
def SYS_FSTAT : UInt32 := 108
def SYS_SYSINFO : UInt32 := 116
def SYS_UNAME : UInt32 := 122
def SYS_MPROTECT : UInt32 := 125
def SYS_SIGPROCMASK : UInt32 := 126
def SYS_GETPGID : UInt32 := 132
def SYS_GETDENTS : UInt32 := 141
def SYS_SELECT : UInt32 := 142
def SYS_MSYNC : UInt32 := 144
def SYS_READV : UInt32 := 145
def SYS_WRITEV : UInt32 := 146
def SYS_GETSID : UInt32 := 147
def SYS_MLOCK : UInt32 := 150
def SYS_MUNLOCK : UInt32 := 151
def SYS_MLOCKALL : UInt32 := 152
def SYS_MUNLOCKALL : UInt32 := 153
def SYS_YIELD : UInt32 := 158
def SYS_NANOSLEEP : UInt32 := 162
def SYS_MREMAP : UInt32 := 163
def SYS_POLL : UInt32 := 168
def SYS_PRCTL : UInt32 := 172
def SYS_RT_SIGACTION : UInt32 := 174
def SYS_RT_SIGPROCMASK : UInt32 := 175
def SYS_GETCWD : UInt32 := 183
def SYS_UGETRLIMIT : UInt32 := 191
def SYS_MMAP2 : UInt32 := 192
def SYS_MADVISE : UInt32 := 219
def SYS_GETDENTS64 : UInt32 := 220
def SYS_GETTID : UInt32 := 224
def SYS_FUTEX : UInt32 := 240
def SYS_SET_THREAD_AREA : UInt32 := 243
def SYS_GET_THREAD_AREA : UInt32 := 244
def SYS_EXIT_GROUP : UInt32 := 252
def SYS_CLOCK_GETTIME : UInt32 := 265
def SYS_CLOCK_GETRES : UInt32 := 266
def SYS_CLOCK_NANOSLEEP : UInt32 := 267
def SYS_TGKILL : UInt32 := 270
def SYS_OPENAT : UInt32 := 295
def SYS_PIPE2 : UInt32 := 331
def SYS_GETRANDOM : UInt32 := 355

/-- What the bodies do. Those that call nothing are named by what they return. -/
inductive Service where
  | processExit | sysRead | sysWrite | sysOpen | sysClose | sysCreat | sysLseek | sysDup | sysDup2 | sysBrk
  | currentId | zero | sysChdir | sysMkdir | sysUnlink | sysRename | sysAccess | sysGetcwd | sysStat | sysFstat
  | sysTime | clockGettime | schedYield | sysMmap | sysMmap2 | sysUname | sysGettimeofday | sysSysinfo
  | sysWritev | sysReadv | clockNanosleep | sysSetThreadArea | sysGetThreadArea | sysFutex | sysPipe
  | sysGetrlimit | sysPrctl | sysClockGetres | enosys | umask | eintr | times | one | sysOpenat | reboot
  | sysGetrandom | sysSethostname
  deriving DecidableEq, Repr

def switchBodies : List (List UInt32 × Service) :=
  [([SYS_EXIT,SYS_EXIT_GROUP],.processExit),([SYS_READ],.sysRead),([SYS_WRITE],.sysWrite),
   ([SYS_OPEN],.sysOpen),([SYS_CLOSE],.sysClose),([SYS_CREAT],.sysCreat),([SYS_LSEEK],.sysLseek),
   ([SYS_DUP],.sysDup),([SYS_DUP2],.sysDup2),([SYS_BRK],.sysBrk),([SYS_GETPID,SYS_GETTID],.currentId),
   ([SYS_GETPPID],.zero),([24,47,49,50,199,200,201,202],.zero),([SYS_CHDIR],.sysChdir),
   ([SYS_MKDIR],.sysMkdir),([SYS_RMDIR,SYS_UNLINK],.sysUnlink),([SYS_RENAME],.sysRename),
   ([SYS_ACCESS],.sysAccess),([SYS_GETCWD],.sysGetcwd),([SYS_STAT,SYS_LSTAT],.sysStat),
   ([SYS_FSTAT],.sysFstat),([SYS_TIME],.sysTime),([SYS_CLOCK_GETTIME],.clockGettime),
   ([SYS_YIELD],.schedYield),([SYS_NANOSLEEP],.schedYield),([SYS_IOCTL,SYS_FCNTL,SYS_CHMOD],.zero),
   ([SYS_SETSID],.currentId),
   ([SYS_FORK,SYS_WAITPID,SYS_EXECVE,SYS_PIPE,SYS_LINK,SYS_SYMLINK,SYS_READLINK,SYS_MMAP],.sysMmap),
   ([SYS_MMAP2],.sysMmap2),([SYS_MUNMAP],.zero),([SYS_MPROTECT],.zero),([SYS_MADVISE,SYS_MREMAP],.zero),
   ([SYS_MSYNC,SYS_MLOCK,SYS_MUNLOCK,SYS_MLOCKALL,SYS_MUNLOCKALL],.zero),([SYS_UNAME],.sysUname),
   ([SYS_GETTIMEOFDAY],.sysGettimeofday),([SYS_SYSINFO],.sysSysinfo),([SYS_WRITEV],.sysWritev),
   ([SYS_READV],.sysReadv),([SYS_SYNC],.zero),([SYS_CLOCK_NANOSLEEP],.clockNanosleep),
   ([SYS_SET_THREAD_AREA],.sysSetThreadArea),([SYS_GET_THREAD_AREA],.sysGetThreadArea),([SYS_FUTEX],.sysFutex),
   ([SYS_PIPE2],.sysPipe),([SYS_GETRLIMIT,SYS_UGETRLIMIT],.sysGetrlimit),([SYS_SETRLIMIT],.zero),
   ([SYS_PRCTL],.sysPrctl),([SYS_CLOCK_GETRES],.sysClockGetres),([SYS_GETDENTS64,SYS_GETDENTS],.enosys),
   ([SYS_RT_SIGPROCMASK,SYS_SIGPROCMASK,SYS_RT_SIGACTION,SYS_SIGACTION],.zero),([SYS_UMASK],.umask),
   ([SYS_PAUSE],.eintr),([SYS_ALARM],.zero),([SYS_TIMES],.times),([SYS_GETPGID,SYS_GETSID],.one),
   ([SYS_TGKILL,SYS_KILL],.enosys),([SYS_OPENAT],.sysOpenat),([SYS_POLL,SYS_SELECT],.zero),
   ([SYS_REBOOT],.reboot),([SYS_GETRANDOM],.sysGetrandom),([SYS_NICE],.zero),
   ([SYS_SETHOSTNAME],.sysSethostname)]

/-- `default` returns `-ENOSYS`. -/
def serviceOf (num : UInt32) : Service :=
  ((switchBodies.find? fun row => row.1.contains num).map Prod.snd).getD .enosys

structure Registers where
  eax : UInt32
  ebx : UInt32
  ecx : UInt32
  edx : UInt32
  esi : UInt32
  edi : UInt32
  ebp : UInt32
  deriving DecidableEq, Repr

structure Machine where
  kernel : Kernel
  heap : UserHeap
  umask : UInt32
  screen : List UInt8

/-- The bodies that are not modelled: the scheduler, the timer, the power supply, records of the caller's. -/
abbrev Outside := Service → Registers → Machine → Option (Int × Machine)

def EINTR : Int := 4
def EEXIST : Int := 17
def ENOTDIR : Int := 20
def ENOSPC : Int := 28
def ENOTEMPTY : Int := 39
def O_TRUNC : UInt32 := 512

def Errno.code : Errno → Int
  | .enoent => 2
  | .ebadf => 9
  | .enomem => 12
  | .efault => 14
  | .einval => 22
  | .emfile => 24
  | .espipe => 29
  | .enosys => 38

def returned {α : Type} (value : α → Int) : Except Errno α → Int
  | .ok a => value a
  | .error e => -e.code

def asInt (w : UInt32) : Int := wrap32 w.toNat

def asWord (x : Int) : UInt32 := UInt32.ofNat (toWord x)

def stringFrom (mem : Mem) : Nat → Nat → List UInt8
  | 0, _ => []
  | n+1, a => if load8 mem a=0 then [] else load8 mem a::stringFrom mem n (a+1)

def pathAt (mem : Mem) (a : UInt32) : Option (List UInt8) :=
  if a=0 then none else some (stringFrom mem 4294967296 a.toNat)

def putBytes (s : UserHeap) (stores : List (Nat × UInt8)) : UserHeap :=
  stores.foldl (fun s store => s.put store.1 store.2) s

def putWord (s : UserHeap) (a v : Nat) : UserHeap :=
  putBytes s ((List.range 4).map fun i => (a+i,byteOf v i))

def iovAt (mem : Mem) (a : UInt32) : Option (Nat → IoVec) :=
  if a=0 then none
  else some fun i => ⟨UInt32.ofNat (load32 mem (a.toNat+8*i)),UInt32.ofNat (load32 mem (a.toNat+8*i+4))⟩

def sysChdir (k : Kernel) : Option (List UInt8) → Int × Kernel
  | none => (-Errno.efault.code,k)
  | some path =>
    let r := fsCd k.fs path
    (if r.1 = .ok then 0 else if r.1 = .notFound then -Errno.enoent.code
      else if r.1 = .notADirectory then -ENOTDIR else -Errno.einval.code,k.setFs r.2)

def sysMkdir (k : Kernel) : Option (List UInt8) → Int × Kernel
  | none => (-Errno.efault.code,k)
  | some path =>
    let r := fsMkdir k.fs path
    (if r.1 = .ok then 0 else if r.1 = .alreadyExists then -EEXIST
      else if r.1 = .noSpace then -ENOSPC else -Errno.einval.code,k.setFs r.2)

def sysUnlink (k : Kernel) : Option (List UInt8) → Option (Int × Kernel)
  | none => some (-Errno.efault.code,k)
  | some path => (fsRm k.fs path).map fun r =>
    (if r.1 = .ok then 0 else if r.1 = .notFound then -Errno.enoent.code
      else if r.1 = .dirNotEmpty then -ENOTEMPTY else -Errno.einval.code,k.setFs r.2)

def sysRename (k : Kernel) : Option (List UInt8) → Option (List UInt8) → Int × Kernel
  | some oldp, some newp =>
    let r := fsMv k.fs oldp newp
    (if r.1 = .ok then 0 else if r.1 = .notFound then -Errno.enoent.code else -Errno.einval.code,k.setFs r.2)
  | _, _ => (-Errno.efault.code,k)

def sysAccess (k : Kernel) : Option (List UInt8) → Int
  | none => -Errno.efault.code
  | some path =>
    match fsRead k.fs path with
    | .ok _ => 0
    | .error _ => -Errno.enoent.code

/-- `sys_open` refuses a null pointer and an empty path alike. -/
def openAt (m : Machine) (a flags : UInt32) : Int × Machine :=
  let r := sysOpen m.kernel ((pathAt m.heap.mem a).getD []) flags
  (returned (fun fd => (fd : Int)) r.1,{ m with kernel := r.2 })

def mapAnonymous (m : Machine) (r : Registers) : Int × Machine :=
  let out := sysMmap2 m.heap ⟨r.ebx,r.ecx,r.esi⟩
  (returned (fun base => wrap32 base) out.1,{ m with heap := out.2 })

def serve (outside : Outside) (m : Machine) (r : Registers) : Service → Option (Int × Machine)
  | .sysRead =>
    let out := sysRead m.kernel (asInt r.ebx) r.ecx.toNat (asInt r.edx)
    let bytes := out.1.toOption.elim [] Prod.snd
    some (returned Prod.fst out.1,{ m with
      kernel := out.2
      heap := putBytes m.heap (bytes.mapIdx fun i b => (r.ecx.toNat+i,b)) })
  | .sysWrite =>
    let out := sysWrite m.kernel m.heap.mem (asInt r.ebx) r.ecx.toNat (asInt r.edx)
    some (returned Prod.fst out,{ m with screen := m.screen++out.toOption.elim [] Prod.snd })
  | .sysOpen => some (openAt m r.ebx r.ecx)
  | .sysCreat => some (openAt m r.ebx (O_CREAT ||| O_WRONLY ||| O_TRUNC))
  | .sysOpenat => some (openAt m r.ecx r.edx)
  | .sysClose =>
    let out := sysClose m.kernel (asInt r.ebx)
    some (returned id out.1,{ m with kernel := out.2 })
  | .sysLseek =>
    let out := sysLseek m.kernel (asInt r.ebx) (asInt r.ecx) (asInt r.edx)
    some (returned id out.1,{ m with kernel := out.2 })
  | .sysDup =>
    let out := sysDup m.kernel (asInt r.ebx)
    some (returned id out.1,{ m with kernel := out.2 })
  | .sysDup2 =>
    let out := sysDup2 m.kernel (asInt r.ebx) (asInt r.ecx)
    some (returned id out.1,{ m with kernel := out.2 })
  | .sysBrk =>
    let out := sysBrk m.heap r.ebx.toNat
    some (wrap32 out.1,{ m with heap := out.2 })
  | .sysChdir =>
    let out := sysChdir m.kernel (pathAt m.heap.mem r.ebx)
    some (out.1,{ m with kernel := out.2 })
  | .sysMkdir =>
    let out := sysMkdir m.kernel (pathAt m.heap.mem r.ebx)
    some (out.1,{ m with kernel := out.2 })
  | .sysUnlink =>
    (sysUnlink m.kernel (pathAt m.heap.mem r.ebx)).map fun out => (out.1,{ m with kernel := out.2 })
  | .sysRename =>
    let out := sysRename m.kernel (pathAt m.heap.mem r.ebx) (pathAt m.heap.mem r.ecx)
    some (out.1,{ m with kernel := out.2 })
  | .sysAccess => some (sysAccess m.kernel (pathAt m.heap.mem r.ebx),m)
  -- the offset, in bytes for one and in pages for the other, is ignored
  | .sysMmap => some (mapAnonymous m r)
  | .sysMmap2 => some (mapAnonymous m r)
  | .sysWritev =>
    let out := sysWritev m.kernel m.heap.mem (asInt r.ebx) (iovAt m.heap.mem r.ecx) (asInt r.edx)
    some (returned id out.result,{ m with screen := m.screen++out.out })
  | .sysReadv =>
    let out := sysReadv m.kernel (asInt r.ebx) (iovAt m.heap.mem r.ecx) (asInt r.edx)
    some (returned id out.result,{ m with kernel := out.kernel, heap := putBytes m.heap out.out })
  | .sysFutex =>
    let cmd := r.ecx &&& 0x7F
    some (if cmd=0 then 0 else if cmd=1 then 0 else -Errno.enosys.code,m)
  | .sysPipe => some (if r.ebx=0 then -Errno.efault.code else -Errno.enosys.code,m)
  | .sysGetrlimit =>
    if r.ecx=0 then some (-Errno.efault.code,m)
    else some (0,{ m with heap := putWord (putWord m.heap r.ecx.toNat 0xFFFFFFFF) (r.ecx.toNat+4) 0xFFFFFFFF })
  | .sysPrctl => some (if r.ebx=15 ∨ r.ebx=4 then 0 else -Errno.enosys.code,m)
  | .sysClockGetres =>
    if r.ecx=0 then some (-Errno.efault.code,m)
    else some (0,{ m with heap := putWord (putWord m.heap r.ecx.toNat 0) (r.ecx.toNat+4) 10000000 })
  | .umask =>
    some (asInt m.umask,{ m with umask := if r.ebx=0xFFFFFFFF then m.umask else r.ebx &&& 0o777 })
  | .zero => some (0,m)
  | .one => some (1,m)
  | .eintr => some (-EINTR,m)
  | .enosys => some (-Errno.enosys.code,m)
  | service => outside service r m

def syscallHandler (outside : Outside) (m : Machine) (r : Registers) : Option (Registers × Machine) :=
  (serve outside m r (serviceOf r.eax)).map fun out => ({ r with eax := asWord out.1 },out.2)

def stubs : List UInt32 := [SYS_FORK,SYS_WAITPID,SYS_EXECVE,SYS_PIPE,SYS_LINK,SYS_SYMLINK,SYS_READLINK]

structure Unchanged (m m' : Machine) : Prop where
  fds : m'.kernel.fds=m.kernel.fds
  fs : m'.kernel.fs=m.kernel.fs
  userBrk : m'.heap.userBrk=m.heap.userBrk
  mmapBump : m'.heap.mmapBump=m.heap.mmapBump
  mem : m'.heap.mem=m.heap.mem

def Inert (outside : Outside) (m : Machine) (r : Registers) : Prop :=
  ∃ r' m', syscallHandler outside m r=some (r',m') ∧ r'.eax=asWord (-Errno.enosys.code) ∧ Unchanged m m'

/-- The registers ask for a mapping that is not anonymous. -/
structure MapsFile (r : Registers) : Prop where
  len : r.ecx≠0
  size : alignUpPage r.ecx.toNat≤MMAP_END-MMAP_BASE
  flags : r.esi &&& MAP_ANONYMOUS=0

/-- The registers ask for zeros at the address that is `-ENOSYS` as a number, and they are there already. -/
structure MapsZeros (m : Machine) (r : Registers) : Prop where
  size : alignUpPage r.ecx.toNat≤MMAP_END-MMAP_BASE
  pages : alignUpPage r.ecx.toNat≠0
  anonymous : r.esi &&& MAP_ANONYMOUS≠0
  fixed : r.esi &&& MAP_FIXED≠0
  addr : r.ebx=asWord (-Errno.enosys.code)
  zeros : ∀ i, i<alignUpPage r.ecx.toNat → m.heap.mem (u32 (r.ebx.toNat+i))=0

variable {outside : Outside} {m : Machine} {r : Registers} {s : UserHeap} {base n : Nat}

theorem stub_serves (h : r.eax∈stubs) : serviceOf r.eax = .sysMmap := by
  have hall : stubs.map serviceOf=List.replicate 7 .sysMmap := rfl
  exact List.eq_of_mem_replicate (hall ▸ List.mem_map_of_mem h)

theorem asWord_error_iff (e : Errno) : asWord (-e.code)=asWord (-Errno.enosys.code) ↔ e = .enosys := by
  cases e with
  | enosys => exact iff_of_true rfl rfl
  | _ => exact iff_of_false (by decide) (by decide)

theorem asWord_base_iff : asWord (wrap32 base)=asWord (-Errno.enosys.code) ↔ u32 base=0xFFFFFFDA := by
  have hword : toWord (wrap32 base)=u32 base := by
    have hmod : (base : Int).bmod 4294967296%4294967296=base%4294967296 := Int.bmod_emod
    unfold toWord wrap32 u32
    rw [hmod]
    omega
  have hcode : toWord (-Errno.enosys.code)=0xFFFFFFDA := by decide
  rw [asWord,asWord,hword,hcode,← UInt32.toNat_inj,UInt32.toNat_ofNat',UInt32.toNat_ofNat']
  have := u32_lt base
  omega

theorem zeroPages_at {i : Nat} (h : i<n) : (zeroPages base n s).mem (u32 (base+i))=0 := by
  induction n with
  | zero => omega
  | succ n ih =>
    simp only [zeroPages,UserHeap.put,store8]
    split
    · rfl
    next hne =>
      apply ih
      by_contra hge
      exact hne (by rw [show i=n by omega])

theorem zeroPages_mem_iff : (zeroPages base n s).mem=s.mem ↔ ∀ i, i<n → s.mem (u32 (base+i))=0 := by
  constructor
  · intro hsame i hi
    rw [← hsame]
    exact zeroPages_at hi
  · intro hzero
    induction n with
    | zero => rfl
    | succ n ih =>
      have hrest := ih fun i hi => hzero i (by omega)
      funext a
      simp only [zeroPages,UserHeap.put,store8,hrest]
      split
      next ha => rw [ha,hzero n (Nat.lt_succ_self n)]
      next => rfl

theorem zeroPages_userBrk : (zeroPages base n s).userBrk=s.userBrk := by
  induction n with
  | zero => rfl
  | succ n ih => exact ih

theorem inert_iff_mmap (h : r.eax∈stubs) : Inert outside m r ↔
    asWord (mapAnonymous m r).1=asWord (-Errno.enosys.code) ∧ Unchanged m (mapAnonymous m r).2 := by
  have hrun : syscallHandler outside m r =
      some ({ r with eax := asWord (mapAnonymous m r).1 },(mapAnonymous m r).2) := by
    rw [syscallHandler,stub_serves h]
    rfl
  constructor
  · rintro ⟨r',m',hret,heax,hsame⟩
    rw [hrun] at hret
    obtain ⟨rfl,rfl⟩ := Prod.mk.inj (Option.some_inj.mp hret)
    exact ⟨heax,hsame⟩
  · rintro ⟨heax,hsame⟩
    exact ⟨_,_,hrun,heax,hsame⟩

theorem mapAnonymous_error {e : Errno} (h : sysMmap2 m.heap ⟨r.ebx,r.ecx,r.esi⟩=(.error e,m.heap)) :
    (asWord (mapAnonymous m r).1=asWord (-Errno.enosys.code) ∧ Unchanged m (mapAnonymous m r).2) ↔ e = .enosys := by
  have hmap : mapAnonymous m r=(-e.code,m) := by
    rw [mapAnonymous,h]
    rfl
  rw [hmap,asWord_error_iff]
  exact and_iff_left ⟨rfl,rfl,rfl,rfl,rfl⟩

theorem mapAnonymous_ok {heap : UserHeap} (h : sysMmap2 m.heap ⟨r.ebx,r.ecx,r.esi⟩=(.ok base,heap)) :
    (asWord (mapAnonymous m r).1=asWord (-Errno.enosys.code) ∧ Unchanged m (mapAnonymous m r).2) ↔
      u32 base=0xFFFFFFDA ∧ heap.userBrk=m.heap.userBrk ∧ heap.mmapBump=m.heap.mmapBump ∧
        heap.mem=m.heap.mem := by
  have hmap : mapAnonymous m r=(wrap32 base,{ m with heap := heap }) := by
    rw [mapAnonymous,h]
    rfl
  rw [hmap,asWord_base_iff]
  exact and_congr_right fun _ => ⟨fun hsame => ⟨hsame.userBrk,hsame.mmapBump,hsame.mem⟩,
    fun ⟨hbrk,hbump,hmem⟩ => ⟨rfl,rfl,hbrk,hbump,hmem⟩⟩

section Stub
variable (hlen : r.ecx≠0) (hsize : ¬ MMAP_END-MMAP_BASE<alignUpPage r.ecx.toNat)
  (hanon : r.esi &&& MAP_ANONYMOUS≠0)
include hlen hsize hanon

theorem fixed_inert_iff (hfix : MmapArgs.fixed ⟨r.ebx,r.ecx,r.esi⟩=true) :
    (asWord (mapAnonymous m r).1=asWord (-Errno.enosys.code) ∧ Unchanged m (mapAnonymous m r).2) ↔ MapsZeros m r := by
  have hend : MMAP_END=0x02000000 := rfl
  have hbase : MMAP_BASE=0x01000000 := rfl
  have haddr : asWord (-Errno.enosys.code)=0xFFFFFFDA := by decide
  have htop : (0xFFFFFFDA : UInt32).toNat=0xFFFFFFDA := rfl
  have hflag : r.esi &&& MAP_FIXED≠0 := by
    simp only [MmapArgs.fixed,Bool.and_eq_true,bne_iff_ne] at hfix
    exact hfix.1
  by_cases hout : r.ebx.toNat<MMAP_BASE ∨ MMAP_END<u32 (r.ebx.toNat+alignUpPage r.ecx.toNat)
  · have hcall : sysMmap2 m.heap ⟨r.ebx,r.ecx,r.esi⟩=(.error .einval,m.heap) := by
      simp only [sysMmap2,if_neg hlen,if_neg hsize,if_neg hanon,if_pos hfix,if_pos hout]
    rw [mapAnonymous_error hcall]
    refine iff_of_false (by decide) fun hzeros => ?_
    -- the sum wraps, so the address passes the test
    have hpages := hzeros.pages
    rw [hzeros.addr,haddr,htop] at hout
    unfold alignUpPage PAGE_SIZE u32 at *
    omega
  · have hcall : sysMmap2 m.heap ⟨r.ebx,r.ecx,r.esi⟩ =
        (.ok r.ebx.toNat,zeroPages r.ebx.toNat (alignUpPage r.ecx.toNat) m.heap) := by
      simp only [sysMmap2,if_neg hlen,if_neg hsize,if_neg hanon,if_pos hfix,if_neg hout]
    rw [mapAnonymous_ok hcall,zeroPages_mem_iff,u32_of_lt (UInt32.toNat_lt _)]
    constructor
    · rintro ⟨htoNat,_,_,hzeros⟩
      refine ⟨by omega,?_,hanon,hflag,?_,hzeros⟩
      · intro hpages
        rw [hpages,htoNat,Nat.add_zero,u32_of_lt (by decide)] at hout
        omega
      · rw [haddr]
        exact UInt32.toNat_inj.mp (htoNat.trans htop.symm)
    · intro hzeros
      exact ⟨by rw [hzeros.addr,haddr,htop],zeroPages_userBrk,zeroPages_mmapBump,hzeros.zeros⟩

theorem bump_not_inert (hfix : MmapArgs.fixed ⟨r.ebx,r.ecx,r.esi⟩=false) :
    ¬ (asWord (mapAnonymous m r).1=asWord (-Errno.enosys.code) ∧ Unchanged m (mapAnonymous m r).2) := by
  have hend : MMAP_END=0x02000000 := rfl
  have hbase : MMAP_BASE=0x01000000 := rfl
  by_cases hout : MMAP_END<u32 (m.heap.mmapBump+alignUpPage r.ecx.toNat)
  · have hcall : sysMmap2 m.heap ⟨r.ebx,r.ecx,r.esi⟩=(.error .enomem,m.heap) := by
      simp only [sysMmap2,if_neg hlen,if_neg hsize,if_neg hanon,hfix,Bool.false_eq_true,if_false,if_pos hout]
    rw [mapAnonymous_error hcall]
    decide
  · have hcall : sysMmap2 m.heap ⟨r.ebx,r.ecx,r.esi⟩=(.ok m.heap.mmapBump,
        zeroPages m.heap.mmapBump (alignUpPage r.ecx.toNat)
          { m.heap with mmapBump := u32 (m.heap.mmapBump+alignUpPage r.ecx.toNat) }) := by
      simp only [sysMmap2,if_neg hlen,if_neg hsize,if_neg hanon,hfix,Bool.false_eq_true,if_false,if_neg hout]
    rw [mapAnonymous_ok hcall,zeroPages_mmapBump]
    rintro ⟨hword,_,hbump,_⟩
    have hbump : u32 (m.heap.mmapBump+alignUpPage r.ecx.toNat)=m.heap.mmapBump := hbump
    rw [← hbump,u32_u32] at hword
    omega

end Stub

/-- A stub is inert exactly if `sys_mmap2` takes its registers for a mapping of a file, or for zeros where zeros
are, at the one address that reads as the error. -/
theorem stub_inert_iff (outside : Outside) (m : Machine) (r : Registers) (h : r.eax∈stubs) :
    Inert outside m r ↔ MapsFile r ∨ MapsZeros m r := by
  rw [inert_iff_mmap h]
  by_cases hlen : r.ecx=0
  · have hcall : sysMmap2 m.heap ⟨r.ebx,r.ecx,r.esi⟩=(.error .einval,m.heap) := by rw [sysMmap2,if_pos hlen]
    rw [mapAnonymous_error hcall]
    refine iff_of_false (by decide) ?_
    rintro (hfile | hzeros)
    · exact hfile.len hlen
    · exact hzeros.pages (by rw [hlen]; decide)
  by_cases hsize : MMAP_END-MMAP_BASE<alignUpPage r.ecx.toNat
  · have hcall : sysMmap2 m.heap ⟨r.ebx,r.ecx,r.esi⟩=(.error .enomem,m.heap) := by
      simp only [sysMmap2,if_neg hlen,if_pos hsize]
    rw [mapAnonymous_error hcall]
    refine iff_of_false (by decide) ?_
    rintro (hfile | hzeros)
    · exact absurd hfile.size (Nat.not_le.mpr hsize)
    · exact absurd hzeros.size (Nat.not_le.mpr hsize)
  by_cases hanon : r.esi &&& MAP_ANONYMOUS=0
  · have hcall : sysMmap2 m.heap ⟨r.ebx,r.ecx,r.esi⟩=(.error .enosys,m.heap) := by
      simp only [sysMmap2,if_neg hlen,if_neg hsize,if_pos hanon]
    rw [mapAnonymous_error hcall]
    exact iff_of_true rfl (.inl ⟨hlen,Nat.not_lt.mp hsize,hanon⟩)
  have hfile : ¬ MapsFile r := fun hfile => hanon hfile.flags
  cases hfix : MmapArgs.fixed ⟨r.ebx,r.ecx,r.esi⟩ with
  | true => rw [fixed_inert_iff hlen hsize hanon hfix,or_iff_right hfile]
  | false =>
    refine iff_of_false (bump_not_inert hlen hsize hanon hfix) ?_
    rintro (hmaps | hzeros)
    · exact hfile hmaps
    · have hfixed : MmapArgs.fixed ⟨r.ebx,r.ecx,r.esi⟩=true := by
        simp only [MmapArgs.fixed,Bool.and_eq_true,bne_iff_ne]
        exact ⟨hzeros.fixed,by rw [hzeros.addr]; decide⟩
      rw [hfix] at hfixed
      cases hfixed

def freshMachine : Machine := ⟨freshKernel,⟨fun _ => 0, USER_HEAP_BASE, MMAP_BASE, []⟩,0o022,[]⟩

/-- `fork`, with what the caller happens to have in two of the other registers. -/
def forkRegs (ecx esi : UInt32) : Registers := ⟨SYS_FORK,0,ecx,0,esi,0,0⟩

theorem stub_inert_file : Inert (fun _ _ _ => none) freshMachine (forkRegs 1 0) :=
  (stub_inert_iff _ freshMachine (forkRegs 1 0) (by decide)).mpr (.inl ⟨by decide,by decide,by decide⟩)

/-- A `fork` that maps a page. -/
theorem stub_not_inert : ¬ ∀ (outside : Outside) (m : Machine) (r : Registers), r.eax∈stubs → Inert outside m r := by
  intro hall
  have hinert := hall (fun _ _ _ => none) freshMachine (forkRegs 4096 MAP_ANONYMOUS) (by decide)
  rw [inert_iff_mmap (by decide)] at hinert
  exact bump_not_inert (by decide) (by decide) (by decide) (by decide) hinert

end MyKernel.Syscall
