import Mathlib.Algebra.GroupWithZero.Nat
import MyKernel.Syscall.Descriptors

/-! Vectored reads and writes against one plain call for all segments. -/
namespace MyKernel.Syscall
open Memory Signed CString RamFs

def lenSum (segs : List IoVec) : Nat := (segs.map fun seg => seg.iovLen.toNat).sum

def allAddrs (segs : List IoVec) : List Nat := segs.flatMap IoVec.addrs

variable {β : Type} {k : Kernel} {fd : Int} {seg : IoVec} {segs pre post : List IoVec} {mem : Mem} {total : Int}
  {out : List β}

theorem lenSum_cons (seg : IoVec) (segs : List IoVec) : lenSum (seg::segs)=seg.iovLen.toNat+lenSum segs := by
  rw [lenSum,List.map_cons,List.sum_cons,lenSum]

theorem lenSum_single (seg : IoVec) : lenSum [seg]=seg.iovLen.toNat := by
  rw [lenSum_cons]
  rfl

theorem length_addrs (seg : IoVec) : seg.addrs.length=seg.iovLen.toNat := by
  rw [IoVec.addrs,List.length_map,List.length_range]

theorem allAddrs_cons (seg : IoVec) (segs : List IoVec) : allAddrs (seg::segs)=seg.addrs++allAddrs segs :=
  List.flatMap_cons

theorem allAddrs_single (seg : IoVec) : allAddrs [seg]=seg.addrs := by
  rw [allAddrs_cons]
  exact List.append_nil _

/-- What a plain call for a list of segments transfers. -/
structure Transfer (β : Type) where
  count : Nat
  items : List β
  kernel : Kernel

/-- The plain call from the states with `Ok` can be cut behind any segment; `io` is the call for one segment. -/
structure Splits (io : Kernel → IoVec → Except Errno (Int × List β) × Kernel)
    (plain : Kernel → List IoVec → Transfer β) (Ok : Kernel → Prop) : Prop where
  nil : ∀ k, Ok k → plain k []=⟨0,[],k⟩
  keeps : ∀ k segs, Ok k → Ok (plain k segs).kernel
  count_le : ∀ k segs, (plain k segs).count≤lenSum segs
  short : ∀ k seg segs, Ok k → (plain k [seg]).count<seg.iovLen.toNat → plain k (seg::segs)=plain k [seg]
  full : ∀ k seg segs, Ok k → (plain k [seg]).count=seg.iovLen.toNat → plain k (seg::segs) =
    ⟨(plain k [seg]).count+(plain (plain k [seg]).kernel segs).count,
      (plain k [seg]).items++(plain (plain k [seg]).kernel segs).items,(plain (plain k [seg]).kernel segs).kernel⟩
  served : ∀ k seg, Ok k → seg.iovBase≠0 → seg.iovLen.toNat<2147483648 →
    io k seg=(.ok ((plain k [seg]).count,(plain k [seg]).items),(plain k [seg]).kernel)
  refused : ∀ k seg, seg.iovBase=0 → seg.iovLen=0 → io k seg=(.error .efault,k)

def NullMet (plain : Kernel → List IoVec → Transfer β) : List IoVec → Kernel → Prop
  | [], _ => False
  | seg::segs, k => seg.iovBase=0 ∨
      (plain k [seg]).count=seg.iovLen.toNat ∧ NullMet plain segs (plain k [seg]).kernel

section Splits
variable {io : Kernel → IoVec → Except Errno (Int × List β) × Kernel} {plain : Kernel → List IoVec → Transfer β}
  {Ok : Kernel → Prop} (h : Splits io plain Ok)
include h

/-- It is met exactly if the plain call fills the segments in front of it. -/
theorem Splits.nullMet_iff (hk : Ok k) (segs : List IoVec) : NullMet plain segs k ↔
    ∃ pre seg post, segs=pre++seg::post ∧ seg.iovBase=0 ∧ (plain k pre).count=lenSum pre := by
  induction segs generalizing k with
  | nil =>
    refine ⟨fun hnull => hnull.elim,?_⟩
    rintro ⟨pre,seg,post,hsplit,_⟩
    exact absurd hsplit (by simp)
  | cons a segs ih =>
    have hle := h.count_le k [a]
    rw [lenSum_single] at hle
    rw [NullMet,ih (h.keeps k [a] hk)]
    constructor
    · rintro (hbase | ⟨hfull,pre,seg,post,hsplit,hbase,hpre⟩)
      · exact ⟨[],a,segs,rfl,hbase,by rw [h.nil k hk]; rfl⟩
      · refine ⟨a::pre,seg,post,by rw [hsplit,List.cons_append],hbase,?_⟩
        rw [h.full k a pre hk hfull,lenSum_cons,← hfull,← hpre]
    · rintro ⟨pre,seg,post,hsplit,hbase,hpre⟩
      cases pre with
      | nil =>
        obtain ⟨rfl,rfl⟩ := List.cons.inj hsplit
        exact .inl hbase
      | cons b pre =>
        obtain ⟨rfl,htail⟩ := List.cons.inj hsplit
        rw [lenSum_cons] at hpre
        by_cases hfull : (plain k [a]).count=a.iovLen.toNat
        · rw [h.full k a pre hk hfull,← hfull] at hpre
          exact .inr ⟨hfull,pre,seg,post,htail,hbase,Nat.add_left_cancel hpre⟩
        · rw [h.short k a pre hk (by omega)] at hpre
          omega

theorem Splits.vecLoop_eq (hk : Ok k) (hnull : ¬ NullMet plain segs k) (total : Int) (out : List β) (h0 : 0≤total)
    (hsum : total+lenSum segs<2147483648) : vecLoop io segs total out k =
      ⟨.ok (total+(plain k segs).count),out++(plain k segs).items,(plain k segs).kernel⟩ := by
  induction segs generalizing k total out with
  | nil => rw [vecLoop,h.nil k hk,List.append_nil,Nat.cast_zero,add_zero]
  | cons a segs ih =>
    have hle := h.count_le k [a]
    rw [lenSum_single] at hle
    rw [lenSum_cons] at hsum
    rw [NullMet,not_or] at hnull
    have hword := toWord_natCast (show (plain k [a]).count<4294967296 by omega)
    have hwrap := wrap32_of_range (show -2147483648≤total+(plain k [a]).count by omega) (by omega)
    rw [vecLoop,if_neg fun hn => hnull.1 hn.1,h.served k a hk hnull.1 (by omega)]
    by_cases hfull : (plain k [a]).count=a.iovLen.toNat
    · have hrest := ih (h.keeps k [a] hk) (fun hn => hnull.2 ⟨hfull,hn⟩) (total+(plain k [a]).count)
        (out++(plain k [a]).items) (by omega) (by omega)
      simp only [hword,hwrap,hrest]
      rw [if_neg (by omega),h.full k a segs hk hfull,List.append_assoc,Nat.cast_add,add_assoc]
    · simp only [hword,hwrap]
      rw [if_pos (by omega),h.short k a segs hk (by omega)]

theorem Splits.vecLoop_null (hk : Ok k) (hnull : NullMet plain segs k) (hsum : lenSum segs<2147483648)
    (hzero : ∀ seg∈segs, seg.iovBase=0 → seg.iovLen=0) : (vecLoop io segs total out k).result = .error .efault := by
  induction segs generalizing k total out with
  | nil => exact hnull.elim
  | cons a segs ih =>
    rw [lenSum_cons] at hsum
    have hzeros := hzero a (List.mem_cons_self ..)
    rw [vecLoop,if_neg fun hn => hn.2 (hzeros hn.1)]
    by_cases hbase : a.iovBase=0
    · rw [h.refused k a hbase (hzeros hbase)]
    · obtain ⟨hfull,hnull⟩ := hnull.resolve_left hbase
      have hword := toWord_natCast (show (plain k [a]).count<4294967296 by omega)
      rw [h.served k a hk hbase (by omega)]
      simp only [hword]
      rw [if_neg (by omega)]
      exact ih (h.keeps k [a] hk) hnull (by omega) fun seg hseg => hzero seg (List.mem_cons_of_mem _ hseg)

end Splits

def fileTransfer (fd : Int) (k : Kernel) (segs : List IoVec) : Transfer (Nat × UInt8) :=
  let e := k.fds fd.toNat
  let n := min (sub32 e.len e.pos) (lenSum segs)
  ⟨n,(allAddrs segs).zip ((List.range n).map fun i => contentOf k e (u32 (e.pos+i))),
    k.setFd fd.toNat { e with pos := u32 (e.pos+n) }⟩

def idleTransfer (k : Kernel) (_ : List IoVec) : Transfer (Nat × UInt8) := ⟨0,[],k⟩

def printTransfer (mem : Mem) (k : Kernel) (segs : List IoVec) : Transfer UInt8 :=
  ⟨lenSum segs,(allAddrs segs).map mem,k⟩

structure OnFile (fd : Int) (k : Kernel) : Prop where
  used : k.isUsed fd=true
  type : (k.fds fd.toNat).type = .ramfile
  pos : (k.fds fd.toNat).pos<4294967296

structure OnConsole (fd : Int) (k : Kernel) : Prop where
  used : k.isUsed fd=true
  type : (k.fds fd.toNat).type = .console

theorem sysRead_console {buf n : Nat} (h : OnConsole fd k) (hbuf : buf≠0) : sysRead k fd buf n=(.ok (0,[]),k) := by
  rw [sysRead,if_neg (by omega),if_neg hbuf,if_neg (by rw [h.used]; decide)]
  simp only [h.type]

theorem readCount_eq {e : FdEntry} {n : Nat} (hn : n<2147483648) :
    readCount e n=(min (sub32 e.len e.pos) n : Nat) := by
  rw [readCount,toWord_natCast (by omega)]
  split
  · rw [wrap32_of_range (by omega) (by omega)]
    omega
  · omega

theorem sysRead_file {buf n : Nat} (h : OnFile fd k) (hbuf : buf≠0) (hn : n<2147483648) :
    sysRead k fd buf n=(.ok ((min (sub32 (k.fds fd.toNat).len (k.fds fd.toNat).pos) n : Nat),
      (List.range (min (sub32 (k.fds fd.toNat).len (k.fds fd.toNat).pos) n)).map fun i =>
        contentOf k (k.fds fd.toNat) (u32 ((k.fds fd.toNat).pos+i))),
      k.setFd fd.toNat { k.fds fd.toNat with
        pos := u32 ((k.fds fd.toNat).pos+min (sub32 (k.fds fd.toNat).len (k.fds fd.toNat).pos) n) }) := by
  rw [sysRead,if_neg (by omega),if_neg hbuf,if_neg (by rw [h.used]; decide)]
  simp only [h.type,bytesRead,readCount_eq hn,Int.toNat_natCast]
  rw [toWord_natCast (by omega)]

theorem isUsed_setFd {e : FdEntry} (h : k.isUsed fd=true) (he : e.used=true) :
    (k.setFd fd.toNat e).isUsed fd=true := by
  obtain ⟨h0,hlt,_⟩ := isUsed_iff.mp h
  exact isUsed_iff.mpr ⟨h0,hlt,by rw [setFd_self,he]⟩

theorem setFd_same (k : Kernel) (fd : Nat) : k.setFd fd (k.fds fd)=k := by
  have hfds : (k.setFd fd (k.fds fd)).fds=k.fds := by
    funext j
    by_cases hj : j=fd
    · rw [hj,setFd_self]
    · rw [setFd_other hj]
  exact congrArg (Kernel.mk k.fs k.lives) hfds

theorem setFd_setFd (k : Kernel) (fd : Nat) (e e' : FdEntry) : (k.setFd fd e).setFd fd e'=k.setFd fd e' := by
  simp only [Kernel.setFd,Kernel.mk.injEq,true_and]
  funext j
  split
  · rfl
  · rfl

theorem zip_append_short {α γ : Type} {xs ys : List α} {zs : List γ} (h : zs.length≤xs.length) :
    (xs++ys).zip zs=xs.zip zs := by
  induction xs generalizing zs with
  | nil =>
    obtain rfl := List.length_eq_zero_iff.mp (Nat.le_zero.mp h)
    rw [List.zip_nil_right,List.zip_nil_right]
  | cons x xs ih =>
    cases zs with
    | nil => rfl
    | cons z zs => rw [List.cons_append,List.zip_cons_cons,List.zip_cons_cons,ih (Nat.le_of_succ_le_succ h)]

theorem OnFile.setPos {pos : Nat} (h : OnFile fd k) (hpos : pos<4294967296) :
    OnFile fd (k.setFd fd.toNat { k.fds fd.toNat with pos := pos }) := by
  refine ⟨isUsed_setFd h.used (isUsed_iff.mp h.used).2.2,?_,?_⟩
  · rw [setFd_self]
    exact h.type
  · rw [setFd_self]
    exact hpos

theorem contentOf_setPos (k : Kernel) (fd pos : Nat) : contentOf (k.setFd fd { k.fds fd with pos := pos })
    { k.fds fd with pos := pos }=contentOf k (k.fds fd) := rfl

theorem u32_add_add (pos n i : Nat) : u32 (u32 (pos+n)+i)=u32 (pos+(n+i)) := by
  unfold u32
  omega

theorem sub32_advance {len pos n : Nat} (hn : n ≤ sub32 len pos) : sub32 len (u32 (pos+n))=sub32 len pos-n := by
  unfold sub32 u32 at *
  omega

theorem toNat_ne_zero {w : UInt32} (h : w≠0) : w.toNat≠0 := fun hz => h (UInt32.toNat_inj.mp hz)

theorem file_splits (fd : Int) : Splits (readSegment fd) (fileTransfer fd) (OnFile fd) where
  nil k h := by
    have hzero : min (sub32 (k.fds fd.toNat).len (k.fds fd.toNat).pos) (lenSum [])=0 := Nat.min_zero _
    simp only [fileTransfer,hzero,Nat.add_zero,u32_of_lt h.pos]
    rw [setFd_same]
    rfl
  keeps k segs h := h.setPos (u32_lt _)
  count_le k segs := Nat.min_le_right _ _
  short k seg segs _ hlt := by
    simp only [fileTransfer,lenSum_single] at hlt
    have hone : min (sub32 (k.fds fd.toNat).len (k.fds fd.toNat).pos) seg.iovLen.toNat =
        sub32 (k.fds fd.toNat).len (k.fds fd.toNat).pos := by omega
    have hall : min (sub32 (k.fds fd.toNat).len (k.fds fd.toNat).pos) (lenSum (seg::segs)) =
        sub32 (k.fds fd.toNat).len (k.fds fd.toNat).pos := by
      rw [lenSum_cons]
      omega
    simp only [fileTransfer,lenSum_single,hone,hall,allAddrs_single]
    rw [allAddrs_cons,zip_append_short]
    rw [List.length_map,List.length_range,length_addrs]
    omega
  full k seg segs _ hfull := by
    simp only [fileTransfer,lenSum_single] at hfull
    have hadv := sub32_advance (show seg.iovLen.toNat ≤ sub32 (k.fds fd.toNat).len (k.fds fd.toNat).pos by omega)
    have hall : min (sub32 (k.fds fd.toNat).len (k.fds fd.toNat).pos) (lenSum (seg::segs))=seg.iovLen.toNat+
        min (sub32 (k.fds fd.toNat).len (k.fds fd.toNat).pos-seg.iovLen.toNat) (lenSum segs) := by
      rw [lenSum_cons]
      omega
    simp only [fileTransfer,lenSum_single,hfull,setFd_self,hadv,hall,setFd_setFd,u32_add_add,
      contentOf_setPos,allAddrs_single,List.range_add,List.map_append,List.map_map]
    rw [allAddrs_cons,List.zip_append (by rw [List.length_map,List.length_range,length_addrs])]
    rfl
  served k seg h hbase hlen := by
    rw [readSegment,wrap32_of_range (by omega) (by omega),sysRead_file h (toNat_ne_zero hbase) hlen]
    simp only [fileTransfer,lenSum_single,allAddrs_single]
    rfl
  refused k seg hbase hlen := by
    rw [readSegment,hbase,hlen]
    rfl

theorem idle_splits (fd : Int) : Splits (readSegment fd) idleTransfer (OnConsole fd) where
  nil _ _ := rfl
  keeps _ _ h := h
  count_le _ _ := Nat.zero_le _
  short _ _ _ _ _ := rfl
  full _ _ _ _ _ := rfl
  served k seg h hbase hlen := by
    rw [readSegment,wrap32_of_range (by omega) (by omega),sysRead_console h (toNat_ne_zero hbase)]
    simp only [IoVec.deliver,Except.map,List.zip_nil_right]
    rfl
  refused k seg hbase hlen := by
    rw [readSegment,hbase,hlen]
    rfl

theorem sysWrite_console {buf : Nat} (h : OnConsole fd k) (mem : Mem) (n : Nat) (hbuf : buf≠0) :
    sysWrite k mem fd buf n = .ok (n,(List.range n).map fun i => load8 mem (buf+i)) := by
  rw [sysWrite,if_neg (by omega),if_neg hbuf,if_neg (by rw [h.used]; decide),if_pos h.type,Int.toNat_natCast]

theorem print_splits (mem : Mem) (fd : Int) : Splits (writeSegment mem fd) (printTransfer mem) (OnConsole fd) where
  nil _ _ := rfl
  keeps _ _ h := h
  count_le _ _ := Nat.le_refl _
  short k seg segs _ hlt := by
    simp only [printTransfer,lenSum_single] at hlt
    omega
  full k seg segs _ _ := by
    simp only [printTransfer,lenSum_single,allAddrs_single]
    rw [lenSum_cons,allAddrs_cons,List.map_append]
  served k seg h hbase hlen := by
    rw [writeSegment,wrap32_of_range (by omega) (by omega),sysWrite_console h mem _ (toNat_ne_zero hbase)]
    simp only [printTransfer,lenSum_single,allAddrs_single,IoVec.addrs,List.map_map]
    rfl
  refused k seg hbase hlen := by
    rw [writeSegment,hbase,hlen,UInt32.toNat_zero,Nat.cast_zero,wrap32_of_range (by decide) (by decide),sysWrite,
      if_neg (by decide),if_pos rfl]

/-- A list of segments as the array the calls are given. -/
def iovOf (segs : List IoVec) : Option (Nat → IoVec) := some fun i => segs.getD i ⟨0,0⟩

theorem vectored_eq {io : Kernel → IoVec → Except Errno (Int × List β) × Kernel} (hlen : segs.length≤64) :
    vectored io k (iovOf segs) segs.length=vecLoop io segs 0 [] k := by
  have hsegs : (List.range segs.length).map (fun i => segs.getD i ⟨0,0⟩)=segs := by
    apply List.ext_getElem
    · rw [List.length_map,List.length_range]
    · intro i _ hi
      rw [List.getElem_map,List.getElem_range,List.getD_eq_getElem _ _ hi]
  rw [iovOf,vectored,if_neg (by omega),Int.toNat_natCast,hsegs]

/-- `sys_readv` does what one `sys_read` for the whole length does, and after an error nothing is changed. -/
structure ReadsAsOne (k : Kernel) (fd : Int) (segs : List IoVec) (buf : Nat) : Prop where
  result : (sysReadv k fd (iovOf segs) segs.length).result=(sysRead k fd buf (lenSum segs)).1.map Prod.fst
  kernel : (sysReadv k fd (iovOf segs) segs.length).kernel=(sysRead k fd buf (lenSum segs)).2
  delivered : ∀ n bytes, (sysRead k fd buf (lenSum segs)).1 = .ok (n,bytes) →
    (sysReadv k fd (iovOf segs) segs.length).out=(allAddrs segs).zip bytes
  clean : ∀ e, (sysReadv k fd (iovOf segs) segs.length).result = .error e →
    (sysReadv k fd (iovOf segs) segs.length).kernel=k ∧ (sysReadv k fd (iovOf segs) segs.length).out=[]

/-- `sys_writev` does what one `sys_write` of the bytes at `buf` does. -/
structure WritesAsOne (k : Kernel) (mem : Mem) (fd : Int) (segs : List IoVec) (mem' : Mem) (buf : Nat) : Prop where
  result : (sysWritev k mem fd (iovOf segs) segs.length).result=(sysWrite k mem' fd buf (lenSum segs)).map Prod.fst
  kernel : (sysWritev k mem fd (iovOf segs) segs.length).kernel=k
  printed : ∀ n bytes, sysWrite k mem' fd buf (lenSum segs) = .ok (n,bytes) →
    (sysWritev k mem fd (iovOf segs) segs.length).out=bytes
  clean : ∀ e, (sysWritev k mem fd (iovOf segs) segs.length).result = .error e →
    (sysWritev k mem fd (iovOf segs) segs.length).out=[]

def Gathered (mem : Mem) (segs : List IoVec) (mem' : Mem) (buf : Nat) : Prop :=
  (List.range (lenSum segs)).map (fun i => load8 mem' (buf+i))=(allAddrs segs).map mem

theorem length_allAddrs (segs : List IoVec) : (allAddrs segs).length=lenSum segs := by
  induction segs with
  | nil => rfl
  | cons a segs ih => rw [allAddrs_cons,List.length_append,length_addrs,ih,lenSum_cons]

theorem exists_gathered (mem : Mem) (hsum : lenSum segs<2147483648) : ∃ mem', Gathered mem segs mem' 1 := by
  refine ⟨fun a => ((allAddrs segs).map mem).getD (a-1) 0,?_⟩
  apply List.ext_getElem
  · rw [List.length_map,List.length_range,List.length_map,length_allAddrs]
  · intro i hi hi'
    rw [List.length_map,List.length_range] at hi
    rw [List.getElem_map,List.getElem_range,load8,u32_of_lt (by omega),Nat.add_sub_cancel_left,
      List.getD_eq_getElem _ _ hi']

def readCapacity (k : Kernel) (fd : Int) : Option Nat :=
  if !k.isUsed fd then none
  else match (k.fds fd.toNat).type with
    | .console => some 0
    | .ramfile => some (sub32 (k.fds fd.toNat).len (k.fds fd.toNat).pos)
    | .none => none

def canPrint (k : Kernel) (fd : Int) : Bool := k.isUsed fd && (k.fds fd.toNat).type == .console

def FirstHasBase (segs : List IoVec) : Prop := ∃ seg rest, segs=seg::rest ∧ seg.iovBase≠0

structure ReadsMeetBases (k : Kernel) (fd : Int) (segs : List IoVec) : Prop where
  unreadable : readCapacity k fd=none → FirstHasBase segs
  readable : ∀ cap, readCapacity k fd=some cap → ∀ pre seg post, segs=pre++seg::post → seg.iovBase=0 →
    cap<lenSum pre

structure WritesMeetBases (k : Kernel) (fd : Int) (segs : List IoVec) : Prop where
  unprintable : canPrint k fd=false → FirstHasBase segs
  printable : canPrint k fd=true → ∀ seg∈segs, seg.iovBase≠0

/-- Where every plain call is refused, the first segment decides what the loop returns. -/
theorem vecLoop_refused {io : Kernel → IoVec → Except Errno (Int × List β) × Kernel}
    (hbad : ∀ seg : IoVec, seg.iovBase≠0 → seg.iovLen.toNat<2147483648 → io k seg=(.error .ebadf,k))
    (hnull : ∀ seg : IoVec, seg.iovBase=0 → seg.iovLen=0 → io k seg=(.error .efault,k))
    (hsum : lenSum segs<2147483648) (hzero : ∀ seg∈segs, seg.iovBase=0 → seg.iovLen=0) :
    (FirstHasBase segs → vecLoop io segs 0 [] k=⟨.error .ebadf,[],k⟩) ∧
      ((vecLoop io segs 0 [] k).result = .error .ebadf → FirstHasBase segs) := by
  cases segs with
  | nil =>
    refine ⟨?_,fun h => by cases h⟩
    rintro ⟨seg,rest,hcons,_⟩
    cases hcons
  | cons a segs =>
    have hzeros := hzero a (List.mem_cons_self ..)
    rw [lenSum_cons] at hsum
    rw [vecLoop,if_neg fun hn => hn.2 (hzeros hn.1)]
    by_cases hbase : a.iovBase=0
    · rw [hnull a hbase (hzeros hbase)]
      refine ⟨?_,fun h => by cases h⟩
      rintro ⟨seg,rest,hcons,hne⟩
      rw [(List.cons.inj hcons).1] at hbase
      exact absurd hbase hne
    · rw [hbad a hbase (by omega)]
      exact ⟨fun _ => rfl,fun _ => ⟨a,segs,rfl,hbase⟩⟩

section Calls
variable (hlen : segs.length≤64) (hsum : lenSum segs<2147483648)
  (hzero : ∀ seg∈segs, seg.iovBase=0 → seg.iovLen=0)
include hlen hsum hzero

theorem Splits.reads_iff {plain : Kernel → List IoVec → Transfer (Nat × UInt8)} {Ok : Kernel → Prop}
    (h : Splits (readSegment fd) plain Ok) (hk : Ok k)
    (hplain : ∀ buf, buf≠0 → ∃ bytes, sysRead k fd buf (lenSum segs) =
      (.ok ((plain k segs).count,bytes),(plain k segs).kernel) ∧
        (plain k segs).items=(allAddrs segs).zip bytes) :
    (∀ buf, buf≠0 → ReadsAsOne k fd segs buf) ↔
      ∀ pre seg post, segs=pre++seg::post → seg.iovBase=0 → (plain k pre).count≠lenSum pre := by
  have hloop : sysReadv k fd (iovOf segs) segs.length=_ := vectored_eq hlen
  have hmet := h.nullMet_iff hk segs
  constructor
  · intro hall pre seg post hsplit hbase hfull
    have hnull := hmet.mpr ⟨pre,seg,post,hsplit,hbase,hfull⟩
    obtain ⟨bytes,hread,_⟩ := hplain 1 (by decide)
    have hresult := (hall 1 (by decide)).result
    rw [hloop,h.vecLoop_null hk hnull hsum hzero,hread] at hresult
    cases hresult
  · intro hnone buf hbuf
    have hnull : ¬ NullMet plain segs k := by
      intro hn
      obtain ⟨pre,seg,post,hsplit,hbase,hfull⟩ := hmet.mp hn
      exact hnone pre seg post hsplit hbase hfull
    obtain ⟨bytes,hread,hitems⟩ := hplain buf hbuf
    have hv := hloop.trans (h.vecLoop_eq hk hnull 0 [] (Int.le_refl 0) (by omega))
    rw [zero_add,List.nil_append] at hv
    refine ⟨?_,?_,?_,?_⟩
    · rw [hv,hread]
      rfl
    · rw [hv,hread]
    · intro n bytes' hok
      rw [hread] at hok
      rw [hv,hitems,(Prod.mk.inj (Except.ok.inj hok)).2]
    · intro e herror
      rw [hv] at herror
      cases herror

theorem reads_file_iff (h : OnFile fd k) : (∀ buf, buf≠0 → ReadsAsOne k fd segs buf) ↔
    ∀ pre seg post, segs=pre++seg::post → seg.iovBase=0 →
      sub32 (k.fds fd.toNat).len (k.fds fd.toNat).pos<lenSum pre := by
  rw [(file_splits fd).reads_iff hlen hsum hzero h fun buf hbuf => ⟨_,sysRead_file h hbuf hsum,rfl⟩]
  simp only [fileTransfer]
  refine forall_congr' fun pre => forall_congr' fun seg => forall_congr' fun post => imp_congr_right fun _ =>
    imp_congr_right fun _ => ?_
  omega

theorem reads_console_iff (h : OnConsole fd k) : (∀ buf, buf≠0 → ReadsAsOne k fd segs buf) ↔
    ∀ pre seg post, segs=pre++seg::post → seg.iovBase=0 → 0<lenSum pre := by
  rw [(idle_splits fd).reads_iff hlen hsum hzero h fun buf hbuf => ⟨[],sysRead_console h hbuf,?_⟩]
  · simp only [idleTransfer]
    refine forall_congr' fun pre => forall_congr' fun seg => forall_congr' fun post => imp_congr_right fun _ =>
      imp_congr_right fun _ => ?_
    omega
  · rw [List.zip_nil_right]
    rfl

theorem reads_refused_iff (h : readCapacity k fd=none) :
    (∀ buf, buf≠0 → ReadsAsOne k fd segs buf) ↔ FirstHasBase segs := by
  have hbad : ∀ buf n : Nat, buf≠0 → sysRead k fd buf n=(.error .ebadf,k) := by
    intro buf n hbuf
    rw [readCapacity] at h
    rw [sysRead,if_neg (by omega),if_neg hbuf]
    split
    · rfl
    next hused =>
      rw [if_neg hused] at h
      cases htype : (k.fds fd.toNat).type with
      | none => simp only [htype]
      | console | ramfile =>
        rw [htype] at h
        cases h
  have hsegment : ∀ seg : IoVec, seg.iovBase≠0 → seg.iovLen.toNat<2147483648 →
      readSegment fd k seg=(.error .ebadf,k) := by
    intro seg hbase hlen
    rw [readSegment,wrap32_of_range (by omega) (by omega),hbad _ _ (toNat_ne_zero hbase)]
    rfl
  obtain ⟨heq,hfirst⟩ := vecLoop_refused hsegment (fun seg => (file_splits fd).refused k seg) hsum hzero
  have hloop : sysReadv k fd (iovOf segs) segs.length=_ := vectored_eq hlen
  constructor
  · intro hall
    have hresult := (hall 1 (by decide)).result
    rw [hloop,hbad 1 _ (by decide)] at hresult
    exact hfirst hresult
  · intro hbase buf hbuf
    rw [heq hbase] at hloop
    refine ⟨?_,?_,?_,?_⟩
    · rw [hloop,hbad _ _ hbuf]
      rfl
    · rw [hloop,hbad _ _ hbuf]
    · intro n bytes hok
      rw [hbad _ _ hbuf] at hok
      cases hok
    · intro e _
      rw [hloop]
      exact ⟨rfl,rfl⟩

theorem writes_console_iff (h : OnConsole fd k) :
    (∀ mem' buf, buf≠0 → Gathered mem segs mem' buf → WritesAsOne k mem fd segs mem' buf) ↔
      ∀ seg∈segs, seg.iovBase≠0 := by
  have hloop : sysWritev k mem fd (iovOf segs) segs.length=_ := vectored_eq hlen
  have hmet := (print_splits mem fd).nullMet_iff h segs
  constructor
  · intro hall seg hseg hbase
    obtain ⟨pre,post,hsplit⟩ := List.append_of_mem hseg
    obtain ⟨mem',hgather⟩ := exists_gathered mem hsum
    have hnull := hmet.mpr ⟨pre,seg,post,hsplit,hbase,rfl⟩
    have hresult := (hall mem' 1 (by decide) hgather).result
    rw [hloop,(print_splits mem fd).vecLoop_null h hnull hsum hzero,sysWrite_console h mem' _ (by decide)] at hresult
    cases hresult
  · intro hbase mem' buf hbuf hgather
    have hnull : ¬ NullMet (printTransfer mem) segs k := by
      intro hn
      obtain ⟨pre,seg,post,hsplit,hzero,_⟩ := hmet.mp hn
      exact hbase seg (by simp [hsplit]) hzero
    have heq := (print_splits mem fd).vecLoop_eq h hnull 0 [] (Int.le_refl 0) (by omega)
    rw [heq,zero_add,List.nil_append] at hloop
    have hwrite := sysWrite_console h mem' (lenSum segs) hbuf
    rw [hgather] at hwrite
    refine ⟨?_,?_,?_,?_⟩
    · rw [hloop,hwrite]
      rfl
    · rw [hloop]
      rfl
    · intro n bytes hok
      rw [hwrite] at hok
      rw [hloop,← (Prod.mk.inj (Except.ok.inj hok)).2]
      rfl
    · intro e herror
      rw [hloop] at herror
      cases herror

theorem writes_refused_iff (h : canPrint k fd=false) :
    (∀ mem' buf, buf≠0 → Gathered mem segs mem' buf → WritesAsOne k mem fd segs mem' buf) ↔ FirstHasBase segs := by
  have hbad : ∀ (mem : Mem) (buf n : Nat), buf≠0 → sysWrite k mem fd buf n = .error .ebadf := by
    intro mem buf n hbuf
    rw [sysWrite,if_neg (by omega),if_neg hbuf]
    split
    · rfl
    next hused =>
      rw [Bool.not_eq_true',Bool.not_eq_false] at hused
      rw [if_neg]
      intro htype
      rw [canPrint,hused,htype] at h
      exact absurd h (by decide)
  have hsegment : ∀ seg : IoVec, seg.iovBase≠0 → seg.iovLen.toNat<2147483648 →
      writeSegment mem fd k seg=(.error .ebadf,k) := by
    intro seg hbase hlen
    rw [writeSegment,wrap32_of_range (by omega) (by omega),hbad _ _ _ (toNat_ne_zero hbase)]
  obtain ⟨heq,hfirst⟩ := vecLoop_refused hsegment (fun seg => (print_splits mem fd).refused k seg) hsum hzero
  have hloop : sysWritev k mem fd (iovOf segs) segs.length=_ := vectored_eq hlen
  constructor
  · intro hall
    obtain ⟨mem',hgather⟩ := exists_gathered mem hsum
    have hresult := (hall mem' 1 (by decide) hgather).result
    rw [hloop,hbad _ 1 _ (by decide)] at hresult
    exact hfirst hresult
  · intro hbase mem' buf hbuf _
    rw [heq hbase] at hloop
    refine ⟨?_,?_,?_,?_⟩
    · rw [hloop,hbad _ _ _ hbuf]
      rfl
    · rw [hloop]
    · intro n bytes hok
      rw [hbad _ _ _ hbuf] at hok
      cases hok
    · intro e _
      rw [hloop]

theorem reads_iff (hpos : (k.fds fd.toNat).pos<4294967296) :
    (∀ buf, buf≠0 → ReadsAsOne k fd segs buf) ↔ ReadsMeetBases k fd segs := by
  cases hcap : readCapacity k fd with
  | none =>
    rw [reads_refused_iff hlen hsum hzero hcap]
    refine ⟨fun hfirst => ⟨fun _ => hfirst,fun cap hsome => ?_⟩,fun h => h.unreadable hcap⟩
    rw [hcap] at hsome
    cases hsome
  | some cap =>
    have hiff : (∀ buf, buf≠0 → ReadsAsOne k fd segs buf) ↔
        ∀ pre seg post, segs=pre++seg::post → seg.iovBase=0 → cap<lenSum pre := by
      rw [readCapacity] at hcap
      split at hcap
      · cases hcap
      next hused =>
        rw [Bool.not_eq_true',Bool.not_eq_false] at hused
        cases htype : (k.fds fd.toNat).type with
        | none =>
          rw [htype] at hcap
          cases hcap
        | console =>
          rw [htype] at hcap
          obtain rfl := Option.some_inj.mp hcap
          exact reads_console_iff hlen hsum hzero ⟨hused,htype⟩
        | ramfile =>
          rw [htype] at hcap
          obtain rfl := Option.some_inj.mp hcap
          exact reads_file_iff hlen hsum hzero ⟨hused,htype,hpos⟩
    rw [hiff]
    refine ⟨fun hmeets => ⟨fun hnone => ?_,fun cap' hsome => ?_⟩,fun h => h.readable cap hcap⟩
    · rw [hcap] at hnone
      cases hnone
    · rw [hcap] at hsome
      obtain rfl := Option.some_inj.mp hsome
      exact hmeets

theorem writes_iff : (∀ mem' buf, buf≠0 → Gathered mem segs mem' buf → WritesAsOne k mem fd segs mem' buf) ↔
    WritesMeetBases k fd segs := by
  cases hprint : canPrint k fd with
  | false =>
    rw [writes_refused_iff hlen hsum hzero hprint]
    refine ⟨fun hfirst => ⟨fun _ => hfirst,fun htrue => ?_⟩,fun h => h.unprintable hprint⟩
    rw [hprint] at htrue
    cases htrue
  | true =>
    have hconsole : OnConsole fd k := by
      rw [canPrint,Bool.and_eq_true,beq_iff_eq] at hprint
      exact ⟨hprint.1,hprint.2⟩
    rw [writes_console_iff hlen hsum hzero hconsole]
    refine ⟨fun hmeets => ⟨fun hfalse => ?_,fun _ => hmeets⟩,fun h => h.printable hprint⟩
    rw [hprint] at hfalse
    cases hfalse

end Calls

/-- A vectored call does what one plain call for all its segments does exactly if the loop meets no segment
without a base, and has a segment to be refused for where the plain call is refused. -/
theorem vectored_as_one_iff (k : Kernel) (mem : Mem) (fd : Int) (segs : List IoVec) (hlen : segs.length≤64)
    (hsum : lenSum segs<2147483648) (hzero : ∀ seg∈segs, seg.iovBase=0 → seg.iovLen=0)
    (hpos : (k.fds fd.toNat).pos<4294967296) :
    ((∀ buf, buf≠0 → ReadsAsOne k fd segs buf) ↔ ReadsMeetBases k fd segs) ∧
    ((∀ mem' buf, buf≠0 → Gathered mem segs mem' buf → WritesAsOne k mem fd segs mem' buf) ↔
      WritesMeetBases k fd segs) :=
  ⟨reads_iff hlen hsum hzero hpos,writes_iff hlen hsum hzero⟩

def freshKernel : Kernel := bootKernel blankFs (fun _ => 0) fun _ => ⟨.none,false,none,0,0,false,[]⟩

def helloSegment : IoVec := ⟨0x1000,5⟩

theorem vectored_as_one_hello : (∀ buf, buf≠0 → ReadsAsOne freshKernel 1 [helloSegment] buf) ∧
    ∀ mem' buf, buf≠0 → Gathered (fun _ => 0x61) [helloSegment] mem' buf →
      WritesAsOne freshKernel (fun _ => 0x61) 1 [helloSegment] mem' buf := by
  have hbases : ∀ seg∈[helloSegment], seg.iovBase≠0 := by decide
  obtain ⟨hreads,hwrites⟩ := vectored_as_one_iff freshKernel (fun _ => 0x61) 1 [helloSegment] (by decide)
    (by decide) (by decide) (by decide)
  refine ⟨hreads.mpr ⟨fun hnone => ?_,fun cap _ pre seg post hsplit hbase => ?_⟩,
    hwrites.mpr ⟨fun _ => ⟨helloSegment,[],rfl,by decide⟩,fun _ => hbases⟩⟩
  · exact ⟨helloSegment,[],rfl,by decide⟩
  · exact absurd hbase (hbases seg (by simp [hsplit]))

/-- A null segment of no bytes behind one that is printed. -/
theorem vectored_not_as_one : ¬ ∀ (k : Kernel) (mem : Mem) (fd : Int) (segs : List IoVec), segs.length≤64 →
    lenSum segs<2147483648 → (∀ seg∈segs, seg.iovBase=0 → seg.iovLen=0) →
    (k.fds fd.toNat).pos<4294967296 → (∀ buf, buf≠0 → ReadsAsOne k fd segs buf) ∧
      ∀ mem' buf, buf≠0 → Gathered mem segs mem' buf → WritesAsOne k mem fd segs mem' buf := by
  intro hall
  have hzero : ∀ seg∈[helloSegment,⟨0,0⟩], seg.iovBase=0 → seg.iovLen=0 := by decide
  have hwrites := (hall freshKernel (fun _ => 0x61) 1 [helloSegment,⟨0,0⟩] (by decide) (by decide) hzero
    (by decide)).2
  have hmeets := (writes_iff (by decide) (by decide) hzero).mp hwrites
  exact hmeets.printable (by decide) ⟨0,0⟩ (by simp) rfl

end MyKernel.Syscall
