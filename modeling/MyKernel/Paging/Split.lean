import MyKernel.Paging.Permissions

/-! The split of the large page at `pd_hh[0]`, as `paging_virt_to_phys` sees it. -/
namespace MyKernel.Paging
open Memory MyKernel.Computation

def FirstLargePage (e : Nat) : Prop := e &&& PAGE_PRESENT≠0 ∧ e &&& PAGE_LARGE≠0 ∧ e &&& 0x000FFFFFFFE00000=0

/-- The walk for `va` goes through `pd_hh[0]`, by a table in the first GiB that is not the page of `pt_hh0`. -/
structure ThroughFirst (T : Tables) (m : Mem) (va pdpt : Nat) : Prop where
  four : entryAt m (virtToTablePtr T.pml4) (pml4Index va) &&& PAGE_PRESENT≠0
  table : entryAt m (virtToTablePtr T.pml4) (pml4Index va) &&& PTE_ADDR_MASK=pdpt
  below : pdpt<0x40000000
  apart : pdpt≠T.pt
  three : entryAt m (virtToTablePtr pdpt) (pdptIndex va) &&& PAGE_PRESENT≠0
  small : entryAt m (virtToTablePtr pdpt) (pdptIndex va) &&& PAGE_LARGE=0
  directory : entryAt m (virtToTablePtr pdpt) (pdptIndex va) &&& PTE_ADDR_MASK=T.pdHh
  first : pdIndex va=0

/-- Translations through `pd_hh[0]` are as before, and so is every other entry outside `pt_hh0`. -/
structure TranslationKept (T : Tables) (m t : Mem) : Prop where
  walks : FirstLargePage (load64 m T.pdHh) → ∀ va pdpt, ThroughFirst T m va pdpt →
    pagingVirtToPhys T.toLabels t va=pagingVirtToPhys T.toLabels m va
  others : ∀ x, x%8=0 → x<4294967296 → x<T.pt ∨ T.pt+0x1000≤x → x≠T.pdHh → load64 t x=load64 m x

variable {m t : Mem} {T : Tables} {S : Symbols} {nx : Bool} {va pdpt i : Nat}

theorem pageEntry_addr (hi : i<512) : pageEntry i (finalFlags S nx i) &&& PTE_ADDR_MASK=i*0x1000 := by
  have hflags : finalFlags S nx i &&& PTE_ADDR_MASK=0 := by
    rcases finalFlags_cases S nx i with hf | hf | hf
    · rw [hf]
      decide
    · rw [hf]
      cases nx <;> decide
    · rw [hf]
      cases nx <;> decide
  rw [pageEntry,Nat.and_or_distrib_right,hflags,Nat.or_zero,and_addr,and_addr]
  omega

theorem pageEntry_present (S : Symbols) (nx : Bool) (i : Nat) :
    pageEntry i (finalFlags S nx i) &&& PAGE_PRESENT≠0 := by
  rw [(pageEntry_bits i _).1]
  rcases finalFlags_cases S nx i with hf | hf | hf
  · rw [hf]
    decide
  · rw [hf]
    cases nx <;> decide
  · rw [hf]
    cases nx <;> decide

theorem ThroughFirst.before (h : ThroughFirst T m va pdpt) (hpage : FirstLargePage (load64 m T.pdHh)) :
    pagingVirtToPhys T.toLabels m va=va%2097152 := by
  have hT := T.toLabels.layout
  have hentry : entryAt m (virtToTablePtr T.pdHh) 0=load64 m T.pdHh := entryAt_ptr (by omega)
  obtain ⟨hpresent,hlarge,hzero⟩ := hpage
  rw [pagingVirtToPhys]
  dsimp only
  rw [if_neg h.four,h.table,if_neg h.three,if_neg (not_not_intro h.small),h.directory,h.first,hentry,
    if_neg hpresent,if_pos hlarge,hzero,Nat.zero_or]
  exact Nat.and_two_pow_sub_one_eq_mod va 21

/-- The levels above the directory stay, and the small pages give the same bits. -/
theorem ThroughFirst.after (h : ThroughFirst T m va pdpt) (hpage : FirstLargePage (load64 m T.pdHh))
    (ha : Applied T S nx m t) : pagingVirtToPhys T.toLabels t va=va%2097152 := by
  have hT := T.toLabels.layout
  have hpt := T.ptAligned
  have hpt' := T.ptBelow
  have hapart := T.ptApart
  have hbelow := h.below
  have hne := h.apart
  have hidx4 : pml4Index va<512 := pml4Index_lt
  have hidx3 : pdptIndex va<512 := pdptIndex_lt
  have hidx1 : ptIndex va<512 := ptIndex_lt
  have hpdpt : pdpt%4096=0 := by
    rw [← h.table,and_addr]
    omega
  have hfour : entryAt t (virtToTablePtr T.pml4) (pml4Index va)=entryAt m (virtToTablePtr T.pml4) (pml4Index va) := by
    rw [entryAt_ptr (by omega),entryAt_ptr (by omega)]
    exact ha.frame _ (by omega) (by omega) (by omega) (by omega)
  -- the entry read on the third level is not a large page, so it is not `pd_hh[0]`
  have hother : pdpt+8*pdptIndex va≠T.pdHh := by
    intro heq
    have hsmall := h.small
    rw [entryAt_ptr (by omega),heq] at hsmall
    exact hpage.2.1 hsmall
  have hthree : entryAt t (virtToTablePtr pdpt) (pdptIndex va)=entryAt m (virtToTablePtr pdpt) (pdptIndex va) := by
    rw [entryAt_ptr (by omega),entryAt_ptr (by omega)]
    exact ha.frame _ (by omega) (by omega) (by omega) hother
  have htwo : entryAt t (virtToTablePtr T.pdHh) 0=T.pt+3 := (entryAt_ptr (by omega)).trans ha.first
  have hone : entryAt t (virtToTablePtr T.pt) (ptIndex va)=pageEntry (ptIndex va) (finalFlags S nx (ptIndex va)) :=
    (entryAt_ptr (by omega)).trans (ha.entries _ hidx1)
  have hoffset : va &&& 0xFFF=va%4096 := Nat.and_two_pow_sub_one_eq_mod va 12
  have hsum : ptIndex va*0x1000 ||| va%4096=ptIndex va*0x1000+va%4096 :=
    or_low (a := 12) (Nat.mul_mod_left _ _) (Nat.mod_lt _ (by decide))
  rw [pagingVirtToPhys]
  dsimp only
  rw [hfour,if_neg h.four,h.table,hthree,if_neg h.three,if_neg (not_not_intro h.small),h.directory,h.first,htwo,
    if_neg (pointer_present hpt),if_neg (not_not_intro (pointer_not_large hpt)),pointer_addr hpt (by omega),hone,
    if_neg (pageEntry_present S nx _),pageEntry_addr hidx1,hoffset,hsum,ptIndex_eq]
  omega

theorem Applied.kept (ha : Applied T S nx m t) : TranslationKept T m t := by
  refine ⟨?_,ha.frame⟩
  intro hpage va pdpt h
  rw [h.before hpage,h.after hpage ha]

theorem ending_of_returns (hS : S.Higher) (h : Returns (fun n => pagingApplyWXorX n T S nx) m () t) : S.Ending := by
  simp only [Symbols.Higher,List.mem_cons,List.not_mem_nil,or_false,forall_eq_or_imp,forall_eq] at hS
  obtain ⟨htext,_,hro,_,hdata,_⟩ := hS
  have hstart : ∀ a, a<18446744073709551616 → pageDown a%0x1000=0 ∧ pageDown a<18446744073709551616 := by
    intro a ha
    unfold pageDown
    omega
  obtain ⟨n,hn⟩ := h
  dsimp only at hn
  rw [pagingApplyWXorX] at hn
  obtain ⟨_,t₁,_,hn⟩ := bind_ended hn
  obtain ⟨_,t₂,hrun₂,hn⟩ := bind_ended hn
  obtain ⟨_,t₃,hrun₃,hn⟩ := bind_ended hn
  obtain ⟨_,t₄,hrun₄,_⟩ := bind_ended hn
  simp only [Symbols.Ending,List.mem_cons,List.not_mem_nil,or_false,forall_eq_or_imp,forall_eq]
  exact ⟨sectionLoop_ends (hstart _ htext.2).1 (hstart _ htext.2).2 hrun₂,
    sectionLoop_ends (hstart _ hro.2).1 (hstart _ hro.2).2 hrun₃,
    sectionLoop_ends (hstart _ hdata.2).1 (hstart _ hdata.2).2 hrun₄⟩

/-- The function ends with every translation kept exactly if no section ends in the last page of the address space;
`va += PAGE_SIZE_4K` would go on from address 0 there. -/
theorem split_keeps_translation_iff (T : Tables) (S : Symbols) (nx : Bool) (m : Mem) (hS : S.Higher) :
    (∃ t, Returns (fun n => pagingApplyWXorX n T S nx) m () t ∧ TranslationKept T m t) ↔ S.Ending := by
  constructor
  · rintro ⟨t,hrun,_⟩
    exact ending_of_returns hS hrun
  · intro hend
    obtain ⟨t,hrun,ha⟩ := pagingApplyWXorX_applied T hS hend nx m
    exact ⟨t,hrun,ha.kept⟩

/-- The tables of `boot64.s` reach `pd_hh[0]` by the last entry of `pml4` and the first of `pdpt_hh`. -/
theorem boot_through (T : Tables) (m : Mem) (h4 : pml4Index va=511) (h3 : pdptIndex va=0) (h2 : pdIndex va=0) :
    FirstLargePage (load64 (bootTables T.toLabels m) T.pdHh) ∧
      ThroughFirst T (bootTables T.toLabels m) va T.pdptHh := by
  have hT := T.toLabels.layout
  have hapart := T.ptApart
  have hfour : entryAt (bootTables T.toLabels m) (virtToTablePtr T.pml4) (pml4Index va)=T.pdptHh+3 := by
    rw [h4,entryAt_ptr (by omega),pml4_entry (by decide),if_neg (by decide),if_pos rfl]
  have hthree : entryAt (bootTables T.toLabels m) (virtToTablePtr T.pdptHh) (pdptIndex va)=T.pdHh+3 := by
    rw [h3,entryAt_ptr (by omega),pdptHh_entry (by decide),if_pos rfl]
  have htwo : load64 (bootTables T.toLabels m) T.pdHh=0x83 := pdHh_entry (T := T.toLabels) (m := m) (i := 0) (by decide)
  constructor
  · rw [htwo]
    exact ⟨by decide,by decide,by decide⟩
  · refine ⟨?_,?_,by omega,by omega,?_,?_,?_,h2⟩
    · rw [hfour]
      exact pointer_present (by omega)
    · rw [hfour,pointer_addr (by omega) (by omega)]
    · rw [hthree]
      exact pointer_present (by omega)
    · rw [hthree]
      exact pointer_not_large (by omega)
    · rw [hthree,pointer_addr (by omega) (by omega)]

/-- A small kernel after the boot; an address of the window goes through `pd_hh[0]`. -/
theorem split_keeps_translation_plain : plainImage.sections.Higher ∧
    ThroughFirst plainImage.toTables (bootTables plainImage.toLabels fun _ => 0) 0xFFFFFF8000000000 plainImage.pdptHh ∧
    ((∃ t, Returns (fun n => pagingApplyWXorX n plainImage.toTables plainImage.sections.toSymbols true)
        (bootTables plainImage.toLabels fun _ => 0) () t ∧
      TranslationKept plainImage.toTables (bootTables plainImage.toLabels fun _ => 0) t) ↔ plainImage.sections.Ending) :=
  ⟨plainImage.sections.higher,(boot_through plainImage.toTables _ (by decide) (by decide) (by decide)).2,
    split_keeps_translation_iff plainImage.toTables plainImage.sections.toSymbols true _ plainImage.sections.higher⟩

def topSymbols : Symbols where
  textStart := KERNEL_VMA+0x101000
  textEnd := KERNEL_VMA+0x105000
  rodataStart := KERNEL_VMA+0x105000
  rodataEnd := KERNEL_VMA+0x106000
  dataStart := KERNEL_VMA+0x106000
  bssEnd := 18446744073709551615
  kernelVirtualStart := KERNEL_VMA+0x100000
  kernelVirtualEnd := 18446744073709551615

/-- A `.bss` that ends in the last page: the loop over it never ends. -/
theorem split_keeps_translation_fails : ¬ ∀ (T : Tables) (S : Symbols) (nx : Bool) (m : Mem), S.Higher →
    ∃ t, Returns (fun n => pagingApplyWXorX n T S nx) m () t ∧ TranslationKept T m t := by
  intro hall
  have hhigher : topSymbols.Higher := by
    simp only [Symbols.Higher,List.mem_cons,List.not_mem_nil,or_false,forall_eq_or_imp,forall_eq]
    decide
  obtain ⟨t,hrun,_⟩ := hall plainImage.toTables topSymbols true (fun _ => 0) hhigher
  have hend := ending_of_returns hhigher hrun topSymbols.bssEnd (by simp)
  exact absurd hend (by decide)

end MyKernel.Paging
