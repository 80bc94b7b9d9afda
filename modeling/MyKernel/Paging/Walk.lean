import MyKernel.Paging.Tables

/-! The walk of `paging_virt_to_phys`. Physical memory is seen from `KERNEL_VMA` on. -/
namespace MyKernel.Paging
open Memory

def KERNEL_VMA : Nat := 0xFFFFFFFF80000000
def PAGE_PRESENT : Nat := 2^0
def PAGE_WRITE : Nat := 2^1
def PAGE_LARGE : Nat := 2^7
def PAGE_NX : Nat := 2^63
def PTE_ADDR_MASK : Nat := 0x000FFFFFFFFFF000

def u64 (n : Nat) : Nat := n%18446744073709551616

def pml4Index (va : Nat) : Nat := (va >>> 39) &&& 0x1FF
def pdptIndex (va : Nat) : Nat := (va >>> 30) &&& 0x1FF
def pdIndex (va : Nat) : Nat := (va >>> 21) &&& 0x1FF
def ptIndex (va : Nat) : Nat := (va >>> 12) &&& 0x1FF

def virtToTablePtr (phys : Nat) : Nat := u64 (phys+KERNEL_VMA)

def physOf (va : Nat) : Nat := u64 (va+(18446744073709551616-KERNEL_VMA))

def entryAt (m : Mem) (t i : Nat) : Nat := load64 m (physOf (t+8*i))

def pagingVirtToPhys (T : Labels) (m : Mem) (va : Nat) : Nat :=
  let e := entryAt m (virtToTablePtr T.pml4) (pml4Index va)
  if e &&& PAGE_PRESENT=0 then 0
  else
    let e := entryAt m (virtToTablePtr (e &&& PTE_ADDR_MASK)) (pdptIndex va)
    if e &&& PAGE_PRESENT=0 then 0
    else if e &&& PAGE_LARGE≠0 then (e &&& 0x000FFFFFC0000000) ||| (va &&& 0x3FFFFFFF)
    else
      let e := entryAt m (virtToTablePtr (e &&& PTE_ADDR_MASK)) (pdIndex va)
      if e &&& PAGE_PRESENT=0 then 0
      else if e &&& PAGE_LARGE≠0 then (e &&& 0x000FFFFFFFE00000) ||| (va &&& 0x1FFFFF)
      else
        let e := entryAt m (virtToTablePtr (e &&& PTE_ADDR_MASK)) (ptIndex va)
        if e &&& PAGE_PRESENT=0 then 0 else (e &&& PTE_ADDR_MASK) ||| (va &&& 0xFFF)

variable {m : Mem} {va p i x e eax ebx : Nat} {T : Labels}

theorem pml4Index_eq : pml4Index va=va/2^39%512 := by
  rw [pml4Index,Nat.shiftRight_eq_div_pow]
  exact Nat.and_two_pow_sub_one_eq_mod _ 9

theorem pdptIndex_eq : pdptIndex va=va/2^30%512 := by
  rw [pdptIndex,Nat.shiftRight_eq_div_pow]
  exact Nat.and_two_pow_sub_one_eq_mod _ 9

theorem pdIndex_eq : pdIndex va=va/2^21%512 := by
  rw [pdIndex,Nat.shiftRight_eq_div_pow]
  exact Nat.and_two_pow_sub_one_eq_mod _ 9

theorem ptIndex_eq : ptIndex va=va/2^12%512 := by
  rw [ptIndex,Nat.shiftRight_eq_div_pow]
  exact Nat.and_two_pow_sub_one_eq_mod _ 9

theorem pml4Index_lt : pml4Index va<512 := pml4Index_eq ▸ Nat.mod_lt _ (by decide)
theorem pdptIndex_lt : pdptIndex va<512 := pdptIndex_eq ▸ Nat.mod_lt _ (by decide)
theorem pdIndex_lt : pdIndex va<512 := pdIndex_eq ▸ Nat.mod_lt _ (by decide)
theorem ptIndex_lt : ptIndex va<512 := ptIndex_eq ▸ Nat.mod_lt _ (by decide)

theorem and_present : e &&& PAGE_PRESENT=0 ↔ e%2=0 := by
  rw [PAGE_PRESENT,and_bit_eq_zero,Nat.pow_zero,Nat.div_one]

theorem and_write : e &&& PAGE_WRITE=0 ↔ e/2%2=0 := by
  rw [PAGE_WRITE,and_bit_eq_zero,Nat.pow_one]

theorem and_large : e &&& PAGE_LARGE=0 ↔ e/128%2=0 := and_bit_eq_zero

theorem and_nx : e &&& PAGE_NX=0 ↔ e/9223372036854775808%2=0 := and_bit_eq_zero

theorem and_addr : e &&& PTE_ADDR_MASK=e/4096%1099511627776*4096 := and_field e 12 40

theorem pointer_addr (hx : x%4096=0) (hx' : x<0x40000000) : (x+3) &&& PTE_ADDR_MASK=x := by
  rw [and_addr]
  omega

theorem entryAt_ptr (h : x+8*i<0x80000000) : entryAt m (virtToTablePtr x) i=load64 m (x+8*i) := by
  have haddr : physOf (virtToTablePtr x+8*i)=x+8*i := by
    unfold physOf virtToTablePtr u64 KERNEL_VMA
    omega
  rw [entryAt,haddr]

theorem largeEntry_bits (ebx : Nat) (h : i<2048) : (largeEntry (0x83+0x200000*i) ebx)%2=1 ∧
    (largeEntry (0x83+0x200000*i) ebx)/128%2=1 ∧
    (largeEntry (0x83+0x200000*i) ebx)/2097152%2147483648=i := by
  unfold largeEntry u32
  split <;> omega

theorem pointer_present (hx : x%4096=0) : (x+3) &&& PAGE_PRESENT≠0 := by
  rw [Ne,and_present]
  omega

theorem pointer_not_large (hx : x%4096=0) : (x+3) &&& PAGE_LARGE=0 := by
  rw [and_large]
  omega

theorem virtToPhys_through {pdpt pd : Nat} (hpdpt : pdpt%4096=0) (hpdpt' : pdpt<0x40000000) (hpd : pd%4096=0)
    (hpd' : pd<0x40000000) (hfour : entryAt m (virtToTablePtr T.pml4) (pml4Index va)=pdpt+3)
    (hthree : entryAt m (virtToTablePtr pdpt) (pdptIndex va)=pd+3)
    (hpresent : entryAt m (virtToTablePtr pd) (pdIndex va)%2=1)
    (hlarge : entryAt m (virtToTablePtr pd) (pdIndex va)/128%2=1) :
    pagingVirtToPhys T m va =
      entryAt m (virtToTablePtr pd) (pdIndex va)/2097152%2147483648*2097152+va%2097152 := by
  have hframe : entryAt m (virtToTablePtr pd) (pdIndex va) &&& 0x000FFFFFFFE00000 =
      entryAt m (virtToTablePtr pd) (pdIndex va)/2097152%2147483648*2097152 := and_field _ 21 31
  have hoffset : va &&& 0x1FFFFF=va%2097152 := Nat.and_two_pow_sub_one_eq_mod va 21
  have hsum : entryAt m (virtToTablePtr pd) (pdIndex va)/2097152%2147483648*2097152 ||| va%2097152=_ :=
    or_low (a := 21) (Nat.mul_mod_left _ _) (Nat.mod_lt _ (by decide))
  have hp : entryAt m (virtToTablePtr pd) (pdIndex va) &&& PAGE_PRESENT≠0 := by
    rw [Ne,and_present]
    omega
  have hl : entryAt m (virtToTablePtr pd) (pdIndex va) &&& PAGE_LARGE≠0 := by
    rw [Ne,and_large]
    omega
  rw [pagingVirtToPhys]
  dsimp only
  rw [hfour,if_neg (pointer_present hpdpt),pointer_addr hpdpt hpdpt',hthree,if_neg (pointer_present hpd),
    if_neg (not_not_intro (pointer_not_large hpd)),pointer_addr hpd hpd',if_neg hp,if_pos hl,hframe,hoffset,hsum]

theorem virtToPhys_identity (hp : p<0x100000000) : pagingVirtToPhys T (bootTables T m) p=p := by
  have hT := T.layout
  obtain ⟨hpresent,hlarge,hframe⟩ := largeEntry_bits (i := p/2^21) (p/2^21) (by omega)
  have hfour : entryAt (bootTables T m) (virtToTablePtr T.pml4) (pml4Index p)=T.pdpt+3 := by
    rw [pml4Index_eq,entryAt_ptr (by omega),pml4_entry (by omega),if_pos (by omega)]
  have hthree : entryAt (bootTables T m) (virtToTablePtr T.pdpt) (pdptIndex p)=T.pd0+4096*(p/2^30)+3 := by
    have hidx : p/2^30%512=p/2^30 := by omega
    rw [pdptIndex_eq,hidx,entryAt_ptr (by omega),pdpt_entry (by omega),if_pos (by omega)]
  have htwo : entryAt (bootTables T m) (virtToTablePtr (T.pd0+4096*(p/2^30))) (pdIndex p) =
      largeEntry (0x83+0x200000*(p/2^21)) (p/2^21) := by
    have haddr : T.pd0+4096*(p/2^30)+8*(p/2^21%512)=T.pd0+8*(p/2^21) := by omega
    rw [pdIndex_eq,entryAt_ptr (by omega),haddr,pd_entry (by omega)]
  rw [virtToPhys_through (by omega) (by omega) (by omega)
    (by omega) hfour hthree (by rw [htwo,hpresent]) (by rw [htwo,hlarge]),htwo,hframe]
  omega

/-- The higher half has the last entry of the first level, and there the entry 510 of the next, which is empty. -/
theorem virtToPhys_higher (hp : p<0x40000000) : pagingVirtToPhys T (bootTables T m) (KERNEL_VMA+p)=0 := by
  have hT := T.layout
  have hidx4 : pml4Index (KERNEL_VMA+p)=511 := by
    rw [pml4Index_eq,KERNEL_VMA]
    omega
  have hidx3 : pdptIndex (KERNEL_VMA+p)=510 := by
    rw [pdptIndex_eq,KERNEL_VMA]
    omega
  have hpage : T.pdptHh%4096=0 ∧ T.pdptHh<0x40000000 := by
    omega
  have hfour : entryAt (bootTables T m) (virtToTablePtr T.pml4) (pml4Index (KERNEL_VMA+p))=T.pdptHh+3 := by
    rw [hidx4,entryAt_ptr (by omega),pml4_entry (by decide),if_neg (by decide),if_pos rfl]
  have hthree : entryAt (bootTables T m) (virtToTablePtr T.pdptHh) (pdptIndex (KERNEL_VMA+p))=0 := by
    rw [hidx3,entryAt_ptr (by omega),pdptHh_entry (by decide),if_neg (by decide)]
  rw [pagingVirtToPhys]
  dsimp only
  rw [hfour,if_neg (pointer_present hpage.1),pointer_addr hpage.1 hpage.2,hthree,if_pos (Nat.zero_and _)]

/-- The identity window is mapped, and of the higher half only address 0, by the value for failure. -/
theorem boot_mapping_iff (T : Labels) (m : Mem) :
    (∀ p<0x100000000, pagingVirtToPhys T (bootTables T m) p=p) ∧
      ∀ p<0x40000000, pagingVirtToPhys T (bootTables T m) (KERNEL_VMA+p)=p ↔ p=0 := by
  refine ⟨fun p hp => virtToPhys_identity hp,?_⟩
  intro p hp
  rw [virtToPhys_higher hp]
  exact eq_comm

/-- The image of the kernel, at 1 MiB. -/
theorem boot_mapping_fails : ¬ ∀ (T : Labels) (m : Mem),
    (∀ p<0x100000000, pagingVirtToPhys T (bootTables T m) p=p) ∧
      ∀ p<0x40000000, pagingVirtToPhys T (bootTables T m) (KERNEL_VMA+p)=p := by
  intro h
  have hone := (h ⟨0x200000,by decide,by decide⟩ fun _ => 0).2 0x100000 (by decide)
  rw [virtToPhys_higher (by decide)] at hone
  exact absurd hone (by decide)

end MyKernel.Paging
