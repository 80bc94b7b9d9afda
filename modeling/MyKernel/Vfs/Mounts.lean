import Mathlib.Data.Set.Insert
import MyKernel.Lib.Traces
import MyKernel.Vfs.Model

/-! What the mount table holds. -/
namespace MyKernel.Vfs
open CString RamFs Traces

inductive VfsCall where
  | mount (fatReady : Bool) (path : CStr) (type : VfsFsType)
  | umount (path : CStr)

def VfsCall.path : VfsCall → CStr
  | .mount _ path _ => path
  | .umount path => path

def VfsCall.run (v : MountTable) : VfsCall → MountTable
  | .mount fatReady path type => (vfsMount v fatReady path.bytes type).table
  | .umount path => (vfsUmount v path.bytes).2

def Reachable (v : MountTable) : Prop := ∃ (v₀ : MountTable) (calls : List VfsCall), calls.foldl VfsCall.run (vfsInit v₀)=v

structure MountReq where
  fatReady : Bool
  path : CStr
  type : VfsFsType

def mountStep (v : MountTable) (r : MountReq) : Option MountTable :=
  if (vfsMount v r.fatReady r.path.bytes r.type).result = .ok then
    some (vfsMount v r.fatReady r.path.bytes r.type).table
  else none

variable {v w : MountTable} {m : VfsMount} {i j slot : Nat} {p q path : List UInt8} {type t : VfsFsType} {ready : Bool}

structure MountedAt (v : MountTable) (i : Nat) (p : List UInt8) : Prop where
  lt : i<VFS_MAX_MOUNTS
  used : (v.mounts i).used=true
  path : IsCString (v.mounts i).path p

def Terminated (v : MountTable) : Prop :=
  ∀ i, i<VFS_MAX_MOUNTS → (v.mounts i).used=true → ∃ k, k<VFS_MP_NAME_MAX ∧ (v.mounts i).path k=0

def mountSet (v : MountTable) : Set (List UInt8 × VfsFsType) :=
  { m | ∃ i, MountedAt v i m.1 ∧ (v.mounts i).type=m.2 }

def DistinctPaths (v : MountTable) : Prop := ∀ i j p, MountedAt v i p → MountedAt v j p → i=j

theorem Terminated.mountedAt (h : Terminated v) (hi : i<VFS_MAX_MOUNTS) (hused : (v.mounts i).used=true) :
    MountedAt v i (readString VFS_MP_NAME_MAX (v.mounts i).path) :=
  ⟨hi,hused,isCString_readString (h i hi hused)⟩

theorem MountedAt.readString_eq (h : MountedAt v i p) (hv : Terminated v) :
    readString VFS_MP_NAME_MAX (v.mounts i).path=p :=
  (isCString_readString (hv i h.lt h.used)).unique h.path

theorem MountedAt.length_le (h : MountedAt v i p) (hv : Terminated v) : p.length≤15 := by
  obtain ⟨k,hk,hzero⟩ := hv i h.lt h.used
  by_contra hlong
  have hlt : k<p.length := by
    unfold VFS_MP_NAME_MAX at hk
    omega
  rw [(isCString_iff.mp h.path).2 k (by omega),List.getD_eq_getElem _ _ hlt] at hzero
  exact h.path.1 (hzero ▸ List.getElem_mem hlt)

theorem setMount_self (v : MountTable) (i : Nat) (m : VfsMount) : (v.setMount i m).mounts i=m := if_pos rfl

theorem setMount_of_ne (h : j≠i) : (v.setMount i m).mounts j=v.mounts j := if_neg h

theorem mountedAt_setMount_of_ne (h : i≠slot) : MountedAt (v.setMount slot m) i p ↔ MountedAt v i p := by
  have hm : (v.setMount slot m).mounts i=v.mounts i := setMount_of_ne h
  constructor
  · rintro ⟨hlt,hused,hpath⟩
    exact ⟨hlt,hm ▸ hused,hm ▸ hpath⟩
  · rintro ⟨hlt,hused,hpath⟩
    exact ⟨hlt,hm.symm ▸ hused,hm.symm ▸ hpath⟩

theorem Terminated.setMount (h : Terminated v)
    (hm : m.used=true → ∃ k, k<VFS_MP_NAME_MAX ∧ m.path k=0) : Terminated (v.setMount slot m) := by
  intro i hi hused
  by_cases heq : i=slot
  · subst heq
    rw [setMount_self] at hused ⊢
    exact hm hused
  · rw [setMount_of_ne heq] at hused ⊢
    exact h i hi hused

theorem findMount_some (hv : Terminated v) (hpath : 0∉path) (h : findMount v path=some i) : MountedAt v i path := by
  have hi := List.mem_range.mp (List.mem_of_find?_eq_some h)
  have htest := List.find?_some h
  rw [Bool.and_eq_true] at htest
  have hmounted := hv.mountedAt hi htest.1
  rw [← (streq_iff hmounted.path hpath).mp htest.2]
  exact hmounted

theorem findMount_none_iff (hv : Terminated v) (hpath : 0∉path) :
    findMount v path=none ↔ ∀ i, ¬ MountedAt v i path := by
  constructor
  · intro h i hmounted
    have htest := List.find?_eq_none.mp h i (List.mem_range.mpr hmounted.lt)
    rw [Bool.and_eq_true] at htest
    exact htest ⟨hmounted.used,(streq_iff hmounted.path hpath).mpr rfl⟩
  · intro h
    cases hfind : findMount v path with
    | none => rfl
    | some i => exact absurd (findMount_some hv hpath hfind) (h i)

def newMount (v : MountTable) (slot : Nat) (path : List UInt8) (type : VfsFsType) : MountTable :=
  v.setMount slot ⟨true,strCopy (v.mounts slot).path path VFS_MP_NAME_MAX,type⟩

structure Made (v w : MountTable) (slot : Nat) (path : List UInt8) (type : VfsFsType) : Prop where
  slot_lt : slot<VFS_MAX_MOUNTS
  free : (v.mounts slot).used=false
  table : w=newMount v slot path type
  absolute : path.head?=some 0x2F
  type_ne : type ≠ .none
  not_root : path≠slash
  new : findMount v path=none

theorem vfsMount_ok (h : (vfsMount v ready path type).result = .ok) :
    ∃ slot, Made v (vfsMount v ready path type).table slot path type := by
  rw [vfsMount] at h ⊢
  split at h
  · cases h
  next habs =>
    rw [if_neg habs]
    split at h
    · cases h
    next htype =>
      rw [if_neg htype]
      split at h
      · cases h
      next hroot =>
        rw [if_neg hroot]
        split at h
        · cases h
        next hnew =>
          rw [if_neg hnew]
          split at h
          · cases h
          next hready =>
            rw [if_neg hready]
            cases hfree : freeMount v with
            | none =>
              rw [hfree] at h
              cases h
            | some slot =>
              have htest := List.find?_some hfree
              exact ⟨slot,List.mem_range.mp (List.mem_of_find?_eq_some hfree),by simpa using htest,rfl,
                not_not.mp habs,htype,hroot,by simpa using hnew⟩

theorem vfsMount_failed (h : (vfsMount v ready path type).result ≠ .ok) : (vfsMount v ready path type).table=v := by
  rw [vfsMount] at h ⊢
  split
  · rfl
  next habs =>
    rw [if_neg habs] at h
    split
    · rfl
    next htype =>
      rw [if_neg htype] at h
      split
      · rfl
      next hroot =>
        rw [if_neg hroot] at h
        split
        · rfl
        next hnew =>
          rw [if_neg hnew] at h
          split
          · rfl
          next hready =>
            rw [if_neg hready] at h
            cases hfree : freeMount v with
            | none => rfl
            | some slot =>
              rw [hfree] at h
              exact absurd rfl h

def dropMount (v : MountTable) (i : Nat) : MountTable :=
  v.setMount i ⟨false,setByte (v.mounts i).path 0 0,.none⟩

theorem vfsUmount_cases (v : MountTable) (path : List UInt8) : (vfsUmount v path).2=v ∨
    ∃ i, findMount v path=some i ∧ vfsUmount v path=(.ok,dropMount v i) := by
  rw [vfsUmount]
  split
  · exact .inl rfl
  · cases hfind : findMount v path with
    | none => exact .inl rfl
    | some i => exact .inr ⟨i,rfl,rfl⟩

section Made
variable (h : Made v w slot path type) (hpath : 0∉path)
include h

theorem Made.mountedAt_of_ne (hi : i≠slot) : MountedAt w i p ↔ MountedAt v i p := by
  rw [h.table,newMount]
  exact mountedAt_setMount_of_ne hi

theorem Made.keeps (hp : MountedAt v i p) : i≠slot ∧ MountedAt w i p := by
  have hne : i≠slot := by
    rintro rfl
    exact absurd (hp.used.symm.trans h.free) (by decide)
  exact ⟨hne,(h.mountedAt_of_ne hne).mpr hp⟩

theorem Made.type_of_ne (hi : i≠slot) : (w.mounts i).type=(v.mounts i).type := by
  rw [h.table,newMount,setMount_of_ne hi]

theorem Made.type_self : (w.mounts slot).type=type := by rw [h.table,newMount,setMount_self]

include hpath

theorem Made.isCString : IsCString (w.mounts slot).path (path.take 15) := by
  rw [h.table,newMount,setMount_self]
  exact strcpyTruncate_take _ hpath (by decide)

theorem Made.mountedAt : MountedAt w slot (path.take 15) := by
  refine ⟨h.slot_lt,?_,h.isCString hpath⟩
  rw [h.table,newMount,setMount_self]

theorem Made.terminated (hv : Terminated v) : Terminated w := by
  have hend := (h.isCString hpath).2.1
  rw [h.table,newMount,setMount_self] at hend
  rw [h.table,newMount]
  refine hv.setMount fun _ => ⟨_,?_,hend⟩
  rw [List.length_take]
  unfold VFS_MP_NAME_MAX
  omega

theorem Made.mountSet_eq : mountSet w=insert (path.take 15,type) (mountSet v) := by
  ext ⟨p,t⟩
  constructor
  · rintro ⟨i,hp,ht⟩
    by_cases hi : i=slot
    · subst hi
      have hpeq : p=path.take 15 := hp.path.unique (h.isCString hpath)
      exact .inl (Prod.ext hpeq (ht.symm.trans h.type_self))
    · exact .inr ⟨i,(h.mountedAt_of_ne hi).mp hp,(h.type_of_ne hi).symm.trans ht⟩
  · rintro (heq | ⟨i,hp,ht⟩)
    · obtain ⟨rfl,rfl⟩ := Prod.mk.inj heq
      exact ⟨slot,h.mountedAt hpath,h.type_self⟩
    · obtain ⟨hne,hp'⟩ := h.keeps hp
      exact ⟨i,hp',(h.type_of_ne hne).trans ht⟩

theorem Made.distinct (hv : Terminated v) (hd : DistinctPaths v) (hshort : path.length≤15) : DistinctPaths w := by
  have htake : path.take 15=path := List.take_of_length_le hshort
  have hnew := (findMount_none_iff hv hpath).mp h.new
  have hother : ∀ i, MountedAt w i path → i=slot := by
    intro i hp
    by_contra hi
    exact hnew i ((h.mountedAt_of_ne hi).mp hp)
  have hself : ∀ p, MountedAt w slot p → p=path := fun p hp =>
    (hp.path.unique (h.isCString hpath)).trans htake
  intro i j p hi hj
  by_cases hislot : i=slot
  · subst hislot
    obtain rfl := hself p hi
    exact (hother j hj).symm
  · by_cases hjslot : j=slot
    · subst hjslot
      obtain rfl := hself p hj
      exact hother i hi
    · exact hd i j p ((h.mountedAt_of_ne hislot).mp hi) ((h.mountedAt_of_ne hjslot).mp hj)

end Made

theorem dropMount_terminated (hv : Terminated v) : Terminated (dropMount v i) :=
  hv.setMount fun hused => Bool.noConfusion hused

theorem VfsCall.run_cases (v : MountTable) (call : VfsCall) : call.run v=v ∨ (∃ i, call.run v=dropMount v i) ∨
    ∃ slot type, Made v (call.run v) slot call.path.bytes type := by
  cases call with
  | mount fatReady path type =>
    by_cases hok : (vfsMount v fatReady path.bytes type).result = .ok
    · obtain ⟨slot,hmade⟩ := vfsMount_ok hok
      exact .inr (.inr ⟨slot,type,hmade⟩)
    · exact .inl (vfsMount_failed hok)
  | umount path =>
    rcases vfsUmount_cases v path.bytes with heq | ⟨i,_,heq⟩
    · exact .inl heq
    · exact .inr (.inl ⟨i,congrArg Prod.snd heq⟩)

theorem VfsCall.run_terminated (hv : Terminated v) (call : VfsCall) : Terminated (call.run v) := by
  rcases call.run_cases v with heq | ⟨i,heq⟩ | ⟨slot,type,hmade⟩
  · rwa [heq]
  · rw [heq]
    exact dropMount_terminated hv
  · exact hmade.terminated call.path.nul_free hv

theorem vfsInit_used (h : ((vfsInit v).mounts i).used=true) : i=0 := by
  by_contra hi
  rw [vfsInit,setMount_of_ne hi] at h
  cases h

theorem vfsInit_terminated (v : MountTable) : Terminated (vfsInit v) := by
  intro i _ hused
  obtain rfl := vfsInit_used hused
  refine ⟨1,by decide,?_⟩
  rw [vfsInit,setMount_self]
  exact (strcpyTruncate_isCString _ (by decide) (by decide)).2.1

theorem run_terminated {calls : List VfsCall} (hv : Terminated v) : Terminated (calls.foldl VfsCall.run v) := by
  induction calls generalizing v with
  | nil => exact hv
  | cons call calls ih => exact ih (call.run_terminated hv)

theorem Reachable.terminated (h : Reachable v) : Terminated v := by
  obtain ⟨v₀,calls,rfl⟩ := h
  exact run_terminated (vfsInit_terminated v₀)

theorem vfsInit_distinct (v : MountTable) : DistinctPaths (vfsInit v) := by
  intro i j _ hi hj
  rw [vfsInit_used hi.used,vfsInit_used hj.used]

theorem mountedAt_dropMount : MountedAt (dropMount v i) j p ↔ j≠i ∧ MountedAt v j p := by
  by_cases h : j=i
  · subst h
    refine ⟨fun hp => ?_,fun hp => absurd rfl hp.1⟩
    have hused := hp.used
    rw [dropMount,setMount_self] at hused
    cases hused
  · rw [dropMount,mountedAt_setMount_of_ne h]
    exact (and_iff_right h).symm

theorem VfsCall.run_distinct {call : VfsCall} (hv : Terminated v) (hd : DistinctPaths v)
    (hshort : call.path.bytes.length≤15) : DistinctPaths (call.run v) := by
  rcases call.run_cases v with heq | ⟨i,heq⟩ | ⟨slot,type,hmade⟩
  · rwa [heq]
  · rw [heq]
    intro j k p hj hk
    exact hd j k p (mountedAt_dropMount.mp hj).2 (mountedAt_dropMount.mp hk).2
  · exact hmade.distinct call.path.nul_free hv hd hshort

theorem run_distinct {calls : List VfsCall} (hv : Terminated v) (hd : DistinctPaths v)
    (hshort : ∀ call∈calls, call.path.bytes.length≤15) : DistinctPaths (calls.foldl VfsCall.run v) := by
  induction calls generalizing v with
  | nil => exact hd
  | cons call calls ih =>
    have hcall := hshort call (List.mem_cons_self ..)
    exact ih (call.run_terminated hv) (VfsCall.run_distinct hv hd hcall) fun c hc =>
      hshort c (List.mem_cons_of_mem _ hc)

theorem runFrom_mountSet {reqs : List MountReq} (hv : Terminated v) (h : runFrom mountStep reqs v=some w) :
    Terminated w ∧ mountSet w=mountSet v ∪ { m | ∃ r∈reqs, m=(r.path.bytes.take 15,r.type) } := by
  induction reqs generalizing v with
  | nil =>
    obtain rfl := Option.some_inj.mp h
    exact ⟨hv,by simp⟩
  | cons r reqs ih =>
    obtain ⟨u,hu,h⟩ := runFrom_cons.mp h
    rw [mountStep] at hu
    split at hu
    next hok =>
      obtain rfl := Option.some_inj.mp hu
      obtain ⟨slot,hmade⟩ := vfsMount_ok hok
      obtain ⟨hterm,hset⟩ := ih (hmade.terminated r.path.nul_free hv) h
      refine ⟨hterm,?_⟩
      rw [hset,hmade.mountSet_eq r.path.nul_free]
      ext m
      simp only [Set.mem_union,Set.mem_insert_iff,Set.mem_ofPred_eq,List.mem_cons,exists_eq_or_imp]
      tauto
    next => cases hu

end MyKernel.Vfs
