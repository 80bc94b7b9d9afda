import MyKernel.Syscall.Vectored

/-! Positions of open files stay within the recorded length. -/
namespace MyKernel.Syscall
open Memory Signed CString RamFs

inductive FdCall where
  | sysOpen (path : CStr) (flags : UInt32)
  | sysRead (fd : Int32) (buf : UInt32) (count : Int32)
  | sysLseek (fd offset whence : Int32)
  | sysDup (fd : Int32)
  | sysDup2 (oldfd newfd : Int32)
  | sysClose (fd : Int32)
  | sysReadv (fd : Int32) (iov : Option (Nat → IoVec)) (iovcnt : Int32)

def FdCall.run (k : Kernel) : FdCall → Kernel
  | .sysOpen path flags => (MyKernel.Syscall.sysOpen k path.bytes flags).2
  | .sysRead fd buf count => (MyKernel.Syscall.sysRead k fd.toInt buf.toNat count.toInt).2
  | .sysLseek fd offset whence => (MyKernel.Syscall.sysLseek k fd.toInt offset.toInt whence.toInt).2
  | .sysDup fd => (MyKernel.Syscall.sysDup k fd.toInt).2
  | .sysDup2 oldfd newfd => (MyKernel.Syscall.sysDup2 k oldfd.toInt newfd.toInt).2
  | .sysClose fd => (MyKernel.Syscall.sysClose k fd.toInt).2
  | .sysReadv fd iov iovcnt => (MyKernel.Syscall.sysReadv k fd.toInt iov iovcnt.toInt).kernel

def StdUsed (k : Kernel) : Prop := ∀ fd, fd≤2 → (k.fds fd).used=true

/-- Reads in pieces, each into a buffer of its own, and their bytes put together. -/
def readChunks (fd : Int) : List (UInt32 × Int32) → Kernel → Except Errno (List UInt8) × Kernel
  | [], k => (.ok [],k)
  | (buf,count)::chunks, k =>
    match sysRead k fd buf.toNat count.toInt with
    | (.error e,k) => (.error e,k)
    | (.ok (_,bytes),k) =>
      let r := readChunks fd chunks k
      (r.1.map fun rest => bytes++rest, r.2)

def chunkSum (chunks : List (UInt32 × Int32)) : Nat := (chunks.map fun c => c.2.toInt.toNat).sum

def remaining (k : Kernel) (fd : Nat) : List UInt8 :=
  (List.range ((k.fds fd).len-(k.fds fd).pos)).map fun i => contentOf k (k.fds fd) ((k.fds fd).pos+i)

variable {β : Type} {k k' : Kernel} {fd : Nat} {e : FdEntry}

theorem StdUsed.setFd (h : StdUsed k) (he : 3≤fd ∨ e.used=true) : StdUsed (k.setFd fd e) := by
  intro j hj
  by_cases hjf : j=fd
  · subst hjf
    rw [setFd_self]
    exact he.resolve_left (by omega)
  · rw [setFd_other hjf]
    exact h j hj

theorem sysRead_std {fd count : Int} {buf : Nat} (h : StdUsed k) : StdUsed (sysRead k fd buf count).2 := by
  rw [sysRead]
  split
  · exact h
  split
  · exact h
  split
  · exact h
  next hused =>
    simp only
    split
    · exact h
    · exact h.setFd (.inr (isUsed_iff.mp (by simpa using hused)).2.2)
    · exact h

theorem openNode_std {idx : Nat} {path : List UInt8} {flags : UInt32} (h : StdUsed k) :
    StdUsed (openNode k idx path flags).2 := by
  rw [openNode]
  split
  · exact h
  · exact h.setFd (.inr rfl)

theorem sysOpen_std {path : List UInt8} {flags : UInt32} (h : StdUsed k) : StdUsed (sysOpen k path flags).2 := by
  rw [sysOpen]
  split
  · exact h
  split
  · exact openNode_std h
  split
  · exact h
  dsimp only
  split
  · exact h
  split
  · exact openNode_std h
  · exact h

theorem sysLseek_std {fd offset whence : Int} (h : StdUsed k) : StdUsed (sysLseek k fd offset whence).2 := by
  rw [sysLseek]
  split
  · exact h
  next hused =>
    split
    · exact h
    dsimp only
    split
    · exact h
    split
    · exact h
    · exact h.setFd (.inr (isUsed_iff.mp (by simpa using hused)).2.2)

theorem sysDup_std {fd : Int} (h : StdUsed k) : StdUsed (sysDup k fd).2 := by
  rw [sysDup]
  split
  · exact h
  split
  · exact h
  · exact h.setFd (.inr rfl)

theorem sysDup2_std {oldfd newfd : Int} (h : StdUsed k) : StdUsed (sysDup2 k oldfd newfd).2 := by
  rw [sysDup2]
  split
  · exact h
  split
  · exact h
  split
  · exact h
  · exact h.setFd (.inr rfl)

theorem sysClose_std {fd : Int} (h : StdUsed k) : StdUsed (sysClose k fd).2 := by
  rw [sysClose]
  split
  · exact h
  next hbad => exact h.setFd (.inl (by omega))

theorem vecLoop_keeps {io : Kernel → IoVec → Except Errno (Int × List β) × Kernel} {P : Kernel → Prop}
    (hio : ∀ k seg, P k → P (io k seg).2) {segs : List IoVec} {total : Int} {out : List β} (h : P k) :
    P (vecLoop io segs total out k).kernel := by
  induction segs generalizing k total out with
  | nil => exact h
  | cons seg segs ih =>
    have hseg := hio k seg h
    rw [vecLoop]
    split
    · exact h
    split
    next heq =>
      rw [heq] at hseg
      exact hseg
    next heq =>
      rw [heq] at hseg
      split
      · exact hseg
      · exact ih hseg

theorem deliver_kernel (seg : IoVec) (r : Except Errno (Int × List UInt8) × Kernel) : (seg.deliver r).2=r.2 := rfl

theorem sysReadv_keeps {P : Kernel → Prop} {fd : Int} {iov : Option (Nat → IoVec)} {iovcnt : Int}
    (hio : ∀ (k : Kernel) (buf : Nat) (count : Int), count≤2147483647 → P k → P (sysRead k fd buf count).2)
    (h : P k) : P (sysReadv k fd iov iovcnt).kernel := by
  have hsegment : ∀ k seg, P k → P (readSegment fd k seg).2 := by
    intro k seg hk
    rw [readSegment,deliver_kernel]
    exact hio k _ _ (wrap32_range _).2 hk
  rw [sysReadv]
  unfold vectored
  split
  · exact h
  split
  · split
    · exact h
    · exact h
  · exact vecLoop_keeps hsegment h

structure FdInv (k : Kernel) : Prop where
  inv : KernelInv k
  valid : Valid k
  std : StdUsed k

theorem FdInv.traced (h : FdInv k) (ht : Traced k k') (hstd : StdUsed k') : FdInv k' :=
  ⟨ht.inv h.inv,ht.valid h.valid,hstd⟩

theorem FdInv.run (h : FdInv k) (c : FdCall) : FdInv (c.run k) := by
  cases c with
  | sysOpen path flags =>
    have hkept : KernelInv (sysOpen k path.bytes flags).2 ∧ Valid (sysOpen k path.bytes flags).2 :=
      sysOpen_kept h.inv h.valid
    exact ⟨hkept.1,hkept.2,sysOpen_std h.std⟩
  | sysRead fd buf count =>
    exact h.traced (sysRead_traced (Int.lt_add_one_iff.mp (Int32.toInt_lt count))) (sysRead_std h.std)
  | sysLseek fd offset whence => exact h.traced sysLseek_traced (sysLseek_std h.std)
  | sysDup fd => exact h.traced sysDup_traced (sysDup_std h.std)
  | sysDup2 oldfd newfd => exact h.traced sysDup2_traced (sysDup2_std h.std)
  | sysClose fd => exact h.traced sysClose_traced (sysClose_std h.std)
  | sysReadv fd iov iovcnt =>
    exact sysReadv_keeps (fun k buf count hc hk => hk.traced (sysRead_traced hc) (sysRead_std hk.std)) h

theorem reset_fdInv (hfs : FsInv k.fs) : FdInv (fdTableReset k) where
  inv := ⟨hfs,fun fd ho => absurd ho (reset_not_open k fd)⟩
  valid fd ho := absurd ho (reset_not_open k fd)
  std fd hfd := by simp [fdTableReset,hfd]

theorem run_fdInv {calls : List FdCall} (h : FdInv k) : FdInv (calls.foldl FdCall.run k) := by
  induction calls generalizing k with
  | nil => exact h
  | cons c calls ih => exact ih (h.run c)

theorem IsOpen.onFile (h : IsOpen k fd) (hs : Sane (k.fds fd)) : OnFile fd k := by
  refine ⟨isUsed_iff.mpr ⟨by omega,?_,h.used⟩,h.type,?_⟩
  · have := h.bound
    omega
  · have := hs.1
    have := hs.2
    rw [Int.toNat_natCast]
    omega

/-- Each piece starts where the one before it ended, and the first that is short is the last with any bytes. -/
theorem readChunks_eq {fd : Int} {chunks : List (UInt32 × Int32)} (h : OnFile fd k)
    (hchunks : ∀ c∈chunks, c.1≠0 ∧ 0≤c.2.toInt) : (readChunks fd chunks k).1 =
      .ok ((List.range (min (sub32 (k.fds fd.toNat).len (k.fds fd.toNat).pos) (chunkSum chunks))).map fun i =>
        contentOf k (k.fds fd.toNat) (u32 ((k.fds fd.toNat).pos+i))) := by
  induction chunks generalizing k with
  | nil => rw [readChunks,chunkSum,List.map_nil,List.sum_nil,Nat.min_zero,List.range_zero,List.map_nil]
  | cons c chunks ih =>
    obtain ⟨buf,count⟩ := c
    obtain ⟨hbuf,hcount⟩ : buf≠0 ∧ 0≤count.toInt := hchunks (buf,count) (List.mem_cons_self ..)
    have hmax := Int32.toInt_lt count
    obtain ⟨n,hn⟩ := Int.eq_ofNat_of_zero_le hcount
    have hread := sysRead_file (n := n) h (fun hz => hbuf (UInt32.toNat_inj.mp hz)) (by omega)
    have hsum : chunkSum ((buf,count)::chunks)=n+chunkSum chunks := by
      rw [chunkSum,List.map_cons,List.sum_cons,hn,Int.toNat_natCast,chunkSum]
    generalize hm : min (sub32 (k.fds fd.toNat).len (k.fds fd.toNat).pos) n=m at hread
    have hall : min (sub32 (k.fds fd.toNat).len (k.fds fd.toNat).pos) (n+chunkSum chunks) =
        m+min (sub32 (k.fds fd.toNat).len (k.fds fd.toNat).pos-m) (chunkSum chunks) := by omega
    have hrest := ih (h.setPos (u32_lt ((k.fds fd.toNat).pos+m))) fun c hc => hchunks c (List.mem_cons_of_mem _ hc)
    simp only [setFd_self,contentOf_setPos,u32_add_add,
      sub32_advance (show m ≤ sub32 (k.fds fd.toNat).len (k.fds fd.toNat).pos by omega)] at hrest
    rw [readChunks,hn,hread]
    simp only [hrest,hsum,hall,List.range_add,List.map_append,List.map_map]
    rfl

theorem take_remaining (k : Kernel) (fd n : Nat) (h : n≤(k.fds fd).len-(k.fds fd).pos) :
    (remaining k fd).take n=(List.range n).map fun i => contentOf k (k.fds fd) ((k.fds fd).pos+i) := by
  rw [remaining,← List.map_take,List.take_range,Nat.min_eq_left h]

/-- In every state that the calls lead to no position is beyond its length, so no byte behind the end is read; the
first three descriptors are in use; and reads in pieces give what is left up to the sum of their counts. -/
theorem positions_valid (k₀ : Kernel) (hfs : FsInv k₀.fs) (calls : List FdCall) (k : Kernel)
    (hk : calls.foldl FdCall.run (fdTableReset k₀)=k) :
    (∀ fd, IsOpen k fd → (k.fds fd).pos≤(k.fds fd).len ∧ (k.fds fd).len≤8191 ∧
      sub32 (k.fds fd).len (k.fds fd).pos=(k.fds fd).len-(k.fds fd).pos ∧
      ∀ count : Int32, 0≤count.toInt → ∀ i, i<(readCount (k.fds fd) count.toInt).toNat →
        u32 ((k.fds fd).pos+i)=(k.fds fd).pos+i ∧ (k.fds fd).pos+i<(k.fds fd).len) ∧
    (∀ fd, fd≤2 → (k.fds fd).used=true) ∧
    ∀ (fd : Nat) (chunks : List (UInt32 × Int32)), IsOpen k fd → (∀ c∈chunks, c.1≠0 ∧ 0≤c.2.toInt) →
      (readChunks fd chunks k).1 =
        .ok ((remaining k fd).take (min (chunkSum chunks) ((k.fds fd).len-(k.fds fd).pos))) := by
  have hinv : FdInv k := hk ▸ run_fdInv (reset_fdInv hfs)
  have hleft : ∀ fd, IsOpen k fd → sub32 (k.fds fd).len (k.fds fd).pos=(k.fds fd).len-(k.fds fd).pos := by
    intro fd ho
    have hs := hinv.inv.sane fd ho
    exact sub32_of_le hs.1 (Nat.lt_of_le_of_lt hs.2 (by decide))
  refine ⟨?_,hinv.std,?_⟩
  · intro fd ho
    have hs := hinv.inv.sane fd ho
    refine ⟨hs.1,hs.2,hleft fd ho,?_⟩
    intro count hcount i hi
    obtain ⟨hc0,hcend⟩ := readCount_spec hs hcount (Int.lt_add_one_iff.mp (Int32.toInt_lt count))
    have hlen := hs.2
    exact ⟨u32_of_lt (by omega),by omega⟩
  · intro fd chunks ho hchunks
    have hs := hinv.inv.sane fd ho
    rw [readChunks_eq (ho.onFile hs) hchunks,Int.toNat_natCast,hleft fd ho,Nat.min_comm,take_remaining k fd _
      (Nat.min_le_right _ _)]
    congr 1
    apply List.map_congr_left
    intro i hi
    have hlt := List.mem_range.mp hi
    have hlen := hs.2
    rw [u32_of_lt (by omega)]

def openedKernel : Kernel := [FdCall.sysOpen fileA O_CREAT].foldl FdCall.run (fdTableReset freshKernel)

theorem positions_valid_opened : IsOpen openedKernel 3 ∧ (openedKernel.fds 3).pos≤(openedKernel.fds 3).len ∧
    (readChunks (3 : Nat) [(0x1000,2),(0x1000,5)] openedKernel).1 =
      .ok ((remaining openedKernel 3).take (min 7 ((openedKernel.fds 3).len-(openedKernel.fds 3).pos))) := by
  have hfacts : (openedKernel.fds 3).used=true ∧ (openedKernel.fds 3).type = .ramfile := by decide +kernel
  have hopen : IsOpen openedKernel 3 := ⟨by decide,hfacts.1,hfacts.2⟩
  obtain ⟨hpos,_,hchunks⟩ := positions_valid freshKernel (fsInit_inv _) _ openedKernel rfl
  refine ⟨hopen,(hpos 3 hopen).1,hchunks 3 _ hopen ?_⟩
  exact List.forall_mem_cons.mpr ⟨by decide,List.forall_mem_singleton.mpr (by decide)⟩

end MyKernel.Syscall
