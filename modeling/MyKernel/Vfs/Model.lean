import MyKernel.RamFs.Model

/-! The mount table of `vfs.c`. Whether a FAT32 volume is mounted is an input; the path for `fs_mkdir_p` is a result.
-/
namespace MyKernel.Vfs
open CString RamFs

def VFS_MAX_MOUNTS : Nat := 4
def VFS_MP_NAME_MAX : Nat := 16

inductive VfsFsType where
  | none | ram | fat32
  deriving DecidableEq, Repr

structure VfsMount where
  used : Bool
  path : Nat → UInt8
  type : VfsFsType

structure MountTable where
  mounts : Nat → VfsMount

def MountTable.setMount (v : MountTable) (i : Nat) (m : VfsMount) : MountTable :=
  { v with mounts := fun j => if j=i then m else v.mounts j }

def strEq (a : Nat → UInt8) (b : List UInt8) : Bool := streq a b

def strCopy (d : Nat → UInt8) (s : List UInt8) (max : Nat) : Nat → UInt8 := strcpyTruncate d s max

def vfsInit (v : MountTable) : MountTable :=
  let v : MountTable := { v with mounts := fun i => { v.mounts i with used := false } }
  v.setMount 0 { v.mounts 0 with
    used := true
    path := strCopy (v.mounts 0).path slash VFS_MP_NAME_MAX
    type := .ram }

def findMount (v : MountTable) (path : List UInt8) : Option Nat :=
  (List.range VFS_MAX_MOUNTS).find? fun i => (v.mounts i).used && strEq (v.mounts i).path path

def freeMount (v : MountTable) : Option Nat :=
  (List.range VFS_MAX_MOUNTS).find? fun i => !(v.mounts i).used

structure MountOut where
  result : FsResult
  table : MountTable
  mkdirP : Option (List UInt8)

/-- `fatReady`: the volume is mounted already, or `fat32_mount` succeeds. -/
def vfsMount (v : MountTable) (fatReady : Bool) (path : List UInt8) (type : VfsFsType) : MountOut :=
  if path.head?≠some 0x2F then ⟨.invalidName,v,none⟩
  else if type = .none then ⟨.invalidName,v,none⟩
  else if path=slash then ⟨.alreadyExists,v,none⟩
  else if (findMount v path).isSome then ⟨.alreadyExists,v,none⟩
  else if type = .fat32 ∧ !fatReady then ⟨.notFound,v,none⟩
  else match freeMount v with
    | none => ⟨.noSpace,v,none⟩
    | some slot =>
      ⟨.ok,v.setMount slot ⟨true,strCopy (v.mounts slot).path path VFS_MP_NAME_MAX,type⟩,
        if type = .fat32 then some path else none⟩

def vfsUmount (v : MountTable) (path : List UInt8) : FsResult × MountTable :=
  if path=slash then (.invalidName,v)
  else match findMount v path with
    | none => (.notFound,v)
    | some idx => (.ok,v.setMount idx ⟨false,setByte (v.mounts idx).path 0 0,.none⟩)

def strLen (s : Nat → UInt8) : Nat := (readString VFS_MP_NAME_MAX s).length

/-- One pass of the loop of `vfs_resolve`. `none` stands for `best = -1` and `best_len = -1`. -/
def resolveStep (v : MountTable) (path : List UInt8) (best : Option (Nat × Nat)) (i : Nat) : Option (Nat × Nat) :=
  let m := v.mounts i
  let len := strLen m.path
  if !m.used then best
  else if !(List.range len).all fun k => path.getD k 0 == m.path k then best
  else if path.getD len 0≠0 ∧ path.getD len 0≠0x2F ∧ ¬ (len=1 ∧ m.path 0=0x2F) then best
  else if best.all fun b => decide (b.2<len) then some (i,len) else best

def afterSlash (rest : List UInt8) : List UInt8 := if rest.head?=some 0x2F then rest.tail else rest

/-- A null `rest_out` and a `rest_max` below 1 are a buffer of no bytes. -/
def vfsResolve (v : MountTable) (path : List UInt8) (restOut : Nat → UInt8) (restMax : Nat) :
    VfsFsType × (Nat → UInt8) :=
  if path=[] then (.ram,if 0<restMax then setByte restOut 0 0 else restOut)
  else match (List.range VFS_MAX_MOUNTS).foldl (resolveStep v path) none with
    | some (best,bestLen) => ((v.mounts best).type,
        if 0<restMax then strCopy restOut (afterSlash (path.drop bestLen)) restMax else restOut)
    | none => (.ram,if 0<restMax then strCopy restOut path restMax else restOut)

theorem vfsMount_mkdirP {v : MountTable} {fatReady : Bool} {path p : List UInt8} {type : VfsFsType}
    (h : (vfsMount v fatReady path type).mkdirP=some p) : p=path := by
  rw [vfsMount] at h
  split at h
  · cases h
  · split at h
    · cases h
    · split at h
      · cases h
      · split at h
        · cases h
        · split at h
          · cases h
          · split at h
            · cases h
            · dsimp only at h
              split at h
              · exact (Option.some_inj.mp h).symm
              · cases h

end MyKernel.Vfs
