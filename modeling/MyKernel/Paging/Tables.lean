import MyKernel.Lib.Words

/-! The page tables of `boot64.s`. Its labels are one page each, one after the other. -/
namespace MyKernel.Paging
open Memory

structure Labels where
  pml4 : Nat
  aligned : pml4%4096=0
  below : pml4+0x8000≤0x40000000

def Labels.pdpt (T : Labels) : Nat := T.pml4+0x1000
def Labels.pdptHh (T : Labels) : Nat := T.pml4+0x2000
def Labels.pd0 (T : Labels) : Nat := T.pml4+0x3000
def Labels.pd1 (T : Labels) : Nat := T.pml4+0x4000
def Labels.pd2 (T : Labels) : Nat := T.pml4+0x5000
def Labels.pd3 (T : Labels) : Nat := T.pml4+0x6000
def Labels.pdHh (T : Labels) : Nat := T.pml4+0x7000

theorem Labels.layout (T : Labels) : (T.pml4%4096=0 ∧ T.pml4+0x8000≤0x40000000) ∧ T.pdpt=T.pml4+0x1000 ∧
    T.pdptHh=T.pml4+0x2000 ∧ T.pd0=T.pml4+0x3000 ∧ T.pd1=T.pml4+0x4000 ∧ T.pd2=T.pml4+0x5000 ∧
    T.pd3=T.pml4+0x6000 ∧ T.pdHh=T.pml4+0x7000 :=
  ⟨⟨T.aligned,T.below⟩,rfl,rfl,rfl,rfl,rfl,rfl,rfl⟩

def repStosl : Nat → Nat → Mem → Mem
  | 0, _, m => m
  | ecx+1, edi, m => repStosl ecx (u32 (edi+4)) (store32 m edi 0)

/-- The stores of one pass; every entry but the one with `%ebx` zero gets the NX bit. -/
def pdPass (edi eax ebx : Nat) (m : Mem) : Mem :=
  let m := store32 (store32 m edi eax) (edi+4) 0
  if ebx=0 then m else store32 m (edi+4) 0x80000000

def pdLoop : Nat → Nat → Nat → Nat → Mem → Mem
  | 0, _, _, _, m => m
  | ecx+1, edi, eax, ebx, m =>
    pdLoop ecx (u32 (edi+8)) (u32 (eax+0x200000)) (u32 (ebx+1)) (pdPass edi eax ebx m)

def idPdLoop (T : Labels) : Mem → Mem := pdLoop (512*4) T.pd0 0x83 0
def hhPdLoop (T : Labels) : Mem → Mem := pdLoop 512 T.pdHh 0x83 0

def upperEntries (T : Labels) (m : Mem) : Mem :=
  let m := store32 m T.pml4 (T.pdpt ||| 3)
  let m := store32 m (T.pml4+511*8) (T.pdptHh ||| 3)
  let m := store32 m T.pdpt (T.pd0 ||| 3)
  let m := store32 m (T.pdpt+8) (T.pd1 ||| 3)
  let m := store32 m (T.pdpt+16) (T.pd2 ||| 3)
  let m := store32 m (T.pdpt+24) (T.pd3 ||| 3)
  store32 m T.pdptHh (T.pdHh ||| 3)

def bootTables (T : Labels) (m : Mem) : Mem :=
  hhPdLoop T (idPdLoop T (upperEntries T (repStosl (4096*7/4) T.pml4 m)))

variable {m : Mem} {n edi eax ebx x i : Nat} {T : Labels}

theorem load32_repStosl (hedi : edi%4=0) (hend : edi+4*n<4294967296) (hx : x%4=0) (hx' : x<4294967296) :
    load32 (repStosl n edi m) x=if edi≤x ∧ x<edi+4*n then 0 else load32 m x := by
  induction n generalizing edi m with
  | zero => rw [repStosl,if_neg (by omega)]
  | succ n ih =>
    rw [repStosl,u32_of_lt (by omega),ih (by omega) (by omega),load32_store32 hedi hx (by omega) hx']
    by_cases hhere : x=edi
    · rw [if_neg (by omega),if_pos hhere,if_pos (by omega)]
      rfl
    · by_cases hin : edi+4≤x ∧ x<edi+4+4*n
      · rw [if_pos hin,if_pos (by omega)]
      · rw [if_neg hin,if_neg hhere,if_neg (by omega)]

def largeEntry (eax ebx : Nat) : Nat := u32 eax+if ebx=0 then 0 else 0x8000000000000000

theorem load64_pdPass (hedi : edi%8=0) (hedi' : edi<4294967296) (hx : x%8=0) (hx' : x<4294967296) :
    load64 (pdPass edi eax ebx m) x=if x=edi then largeEntry eax ebx else load64 m x := by
  have hlow : load32 (pdPass edi eax ebx m) x=if x=edi then u32 eax else load32 m x := by
    unfold pdPass
    split <;> simp (disch := omega) only [load32_store32,if_neg]
  have hhigh : load32 (pdPass edi eax ebx m) (x+4) =
      if x=edi then (if ebx=0 then 0 else 0x80000000) else load32 m (x+4) := by
    have hshift : (x+4=edi+4)=(x=edi) := by
      rw [Nat.add_right_cancel_iff]
    unfold pdPass
    split <;> simp (disch := omega) only [load32_store32,hshift] <;> split <;> simp (disch := omega) [u32,if_neg]
  rw [load64,hlow,hhigh,load64,largeEntry]
  split
  · split <;> rfl
  · rfl

theorem load64_pdLoop (hedi : edi%8=0) (hend : edi+8*n<4294967296) (hebx : ebx+n<4294967296) (hx : x%8=0)
    (hx' : x<4294967296) :
    load64 (pdLoop n edi eax ebx m) x =
      if edi≤x ∧ x<edi+8*n then largeEntry (eax+0x200000*((x-edi)/8)) (ebx+(x-edi)/8) else load64 m x := by
  induction n generalizing edi eax ebx m with
  | zero => rw [pdLoop,if_neg (by omega)]
  | succ n ih =>
    rw [pdLoop,u32_of_lt (by omega : edi+8<_),u32_of_lt (by omega : ebx+1<_),ih (by omega) (by omega) (by omega),
      load64_pdPass hedi (by omega) hx hx']
    by_cases hhere : x=edi
    · rw [if_neg (by omega),if_pos hhere,if_pos (by omega),hhere,Nat.sub_self]
      rfl
    · by_cases hin : edi+8≤x ∧ x<edi+8+8*n
      · have hstep : (x-edi)/8=(x-(edi+8))/8+1 := by omega
        have heax : u32 (u32 (eax+0x200000)+0x200000*((x-(edi+8))/8))=u32 (eax+0x200000*((x-(edi+8))/8+1)) := by
          rw [u32,u32,Nat.mod_add_mod,← u32,Nat.mul_succ,Nat.add_assoc,Nat.add_comm 0x200000]
        have hebx' : ebx+1+(x-(edi+8))/8=ebx+((x-(edi+8))/8+1) := by omega
        rw [if_pos hin,if_pos (by omega),hstep,largeEntry,largeEntry,heax,hebx']
      · rw [if_neg hin,if_neg hhere,if_neg (by omega)]

/-- The low word at `x` in the three pages of the upper levels. -/
def upperOf (T : Labels) (x old : Nat) : Nat :=
  if x=T.pdptHh then T.pdHh+3
  else if x=T.pdpt+24 then T.pd3+3
  else if x=T.pdpt+16 then T.pd2+3
  else if x=T.pdpt+8 then T.pd1+3
  else if x=T.pdpt then T.pd0+3
  else if x=T.pml4+511*8 then T.pdptHh+3
  else if x=T.pml4 then T.pdpt+3
  else old

theorem pointer (hx : x%4096=0) (hx' : x<0x40000000) : u32 (x ||| 3)=x+3 := by
  rw [or_low (a := 12) hx (by decide),u32_of_lt (by omega)]

theorem load32_upperEntries (hx : x%4=0) (hx' : x<4294967296) :
    load32 (upperEntries T m) x=upperOf T x (load32 m x) := by
  have hT := T.layout
  unfold upperEntries upperOf
  simp (disch := omega) only [load32_store32,pointer]

theorem upperOf_high (hx : x%8=0) (old : Nat) : upperOf T (x+4) old=old := by
  have hne : ∀ a, a%8=0 → x+4≠a := by
    intro a ha
    omega
  have hpml4 : T.pml4%8=0 := by
    have haligned := T.aligned
    omega
  rw [upperOf,Labels.pdptHh,Labels.pdpt,if_neg (hne _ (by omega)),if_neg (hne _ (by omega)),
    if_neg (hne _ (by omega)),if_neg (hne _ (by omega)),if_neg (hne _ (by omega)),if_neg (hne _ (by omega)),
    if_neg (hne _ hpml4)]

theorem load64_upper (hlo : T.pml4≤x) (hhi : x<T.pml4+0x3000) (hx : x%8=0) :
    load64 (bootTables T m) x=upperOf T x 0 := by
  have hT := T.layout
  rw [bootTables,hhPdLoop,load64_pdLoop (by omega) (by omega) (by decide) hx
    (by omega),if_neg (by omega),idPdLoop,load64_pdLoop (by omega)
    (by omega) (by decide) hx (by omega),if_neg (by omega)]
  rw [load64,load32_upperEntries (by omega) (by omega),load32_upperEntries (by omega) (by omega),
    load32_repStosl (by omega) (by omega) (by omega) (by omega),
    load32_repStosl (by omega) (by omega) (by omega) (by omega),upperOf_high hx]
  -- both words lie in the cleared pages
  rw [if_pos (by omega),if_pos (by omega),Nat.mul_zero,Nat.add_zero]

theorem pml4_entry (hi : i<512) : load64 (bootTables T m) (T.pml4+8*i) =
    if i=0 then T.pdpt+3 else if i=511 then T.pdptHh+3 else 0 := by
  have hT := T.layout
  rw [load64_upper (by omega) (by omega) (by omega)]
  unfold upperOf
  by_cases h0 : i=0
  · simp (disch := omega) only [if_neg,if_pos]
  · by_cases hlast : i=511
    · simp (disch := omega) only [if_neg,if_pos]
    · simp (disch := omega) only [if_neg]

theorem pdpt_entry (hi : i<512) : load64 (bootTables T m) (T.pdpt+8*i) =
    if i<4 then T.pd0+4096*i+3 else 0 := by
  have hT := T.layout
  rw [load64_upper (by omega) (by omega) (by omega)]
  unfold upperOf
  by_cases h4 : i<4
  · rw [if_pos h4]
    obtain h | h | h | h : i=0 ∨ i=1 ∨ i=2 ∨ i=3 := by omega
    all_goals simp (disch := omega) only [if_neg,if_pos]
    all_goals omega
  · simp (disch := omega) only [if_neg]

theorem pdptHh_entry (hi : i<512) : load64 (bootTables T m) (T.pdptHh+8*i) =
    if i=0 then T.pdHh+3 else 0 := by
  have hT := T.layout
  rw [load64_upper (by omega) (by omega) (by omega)]
  unfold upperOf
  by_cases h0 : i=0
  · simp (disch := omega) only [if_pos]
  · simp (disch := omega) only [if_neg]

theorem pd_entry (hi : i<2048) : load64 (bootTables T m) (T.pd0+8*i)=largeEntry (0x83+0x200000*i) i := by
  have hT := T.layout
  have hsub : (T.pd0+8*i-T.pd0)/8=i := by omega
  rw [bootTables,hhPdLoop,load64_pdLoop (by omega) (by omega) (by decide)
    (by omega) (by omega),if_neg (by omega),
    idPdLoop,load64_pdLoop (by omega) (by omega) (by decide)
    (by omega) (by omega),if_pos (by omega),hsub,Nat.zero_add]

theorem pdHh_entry (hi : i<512) : load64 (bootTables T m) (T.pdHh+8*i)=largeEntry (0x83+0x200000*i) i := by
  have hT := T.layout
  have hsub : (T.pdHh+8*i-T.pdHh)/8=i := by omega
  rw [bootTables,hhPdLoop,load64_pdLoop (by omega) (by omega) (by decide)
    (by omega) (by omega),if_pos (by omega),hsub,Nat.zero_add]

end MyKernel.Paging
