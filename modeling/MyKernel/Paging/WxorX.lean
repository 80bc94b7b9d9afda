import MyKernel.Paging.Apply

/-! Which addresses can be written and executed after `paging_apply_w_xor_x`. -/
namespace MyKernel.Paging
open Memory MyKernel.Computation

/-- The linker symbols, in the first 2 MiB of the higher half. -/
structure Sections extends Symbols where
  window : ∀ a∈[textStart,textEnd,rodataStart,rodataEnd,dataStart,bssEnd,kernelVirtualStart,
    kernelVirtualEnd], KERNEL_VMA≤a ∧ a≤KERNEL_VMA+0x200000

structure Image extends Tables where
  sections : Sections

def applyWXorX (fuel : Nat) (I : Image) (nx : Bool) : Comp Mem Unit :=
  pagingApplyWXorX fuel I.toTables I.sections.toSymbols nx

def present (e : Nat) : Option Nat := if e &&& PAGE_PRESENT=0 then none else some e

/-- The entries by which the processor translates an address, from the first level down. -/
def translation (m : Mem) (cr3 va : Nat) : Option (List Nat) := do
  let e4 ← present (load64 m (cr3+8*pml4Index va))
  let e3 ← present (load64 m ((e4 &&& PTE_ADDR_MASK)+8*pdptIndex va))
  if e3 &&& PAGE_LARGE≠0 then return [e4,e3]
  let e2 ← present (load64 m ((e3 &&& PTE_ADDR_MASK)+8*pdIndex va))
  if e2 &&& PAGE_LARGE≠0 then return [e4,e3,e2]
  let e1 ← present (load64 m ((e2 &&& PTE_ADDR_MASK)+8*ptIndex va))
  return [e4,e3,e2,e1]

/-- The address can be written and executed: the write bit at every level, the NX bit at none. -/
def Exposed (m : Mem) (cr3 va : Nat) : Prop :=
  ∃ es, translation m cr3 va=some es ∧ ∀ e∈es, e &&& PAGE_WRITE≠0 ∧ e &&& PAGE_NX=0

def Canonical (va : Nat) : Prop := va<2^47 ∨ 2^64-2^47≤va ∧ va<2^64

variable {m m₀ : Mem} {I : Image} {i va x : Nat}

/-- An entry that does not give both permissions. -/
def Sealed (e : Nat) : Prop := e &&& PAGE_WRITE=0 ∨ e &&& PAGE_NX≠0

theorem sealed_finalFlags (S : Symbols) (i : Nat) : Sealed (finalFlags S true i) := by
  rcases finalFlags_cases S true i with h | h | h
  · rw [h]
    exact .inl (by decide)
  · rw [h]
    exact .inr (by decide)
  · rw [h]
    exact .inr (by decide)

theorem Applied.sealed {S : Symbols} {T : Tables} (h : Applied T S true m₀ m) (hi : i<512) :
    Sealed (load64 m (T.pt+8*i)) := by
  obtain ⟨_,hwrite,hnx⟩ := pageEntry_bits i (finalFlags S true i)
  rw [h.entries i hi,Sealed,hwrite,hnx]
  exact sealed_finalFlags S i

theorem Sections.higher (S : Sections) : S.Higher := by
  intro a ha
  have hwindow := S.window a ha
  unfold KERNEL_VMA at hwindow ⊢
  omega

theorem Sections.ending (S : Sections) : S.Ending := by
  intro a ha
  have hmem : a∈[S.textStart,S.textEnd,S.rodataStart,S.rodataEnd,S.dataStart,S.bssEnd,S.kernelVirtualStart,
      S.kernelVirtualEnd] := by
    simp only [List.mem_cons] at ha ⊢
    tauto
  have hwindow := S.window a hmem
  unfold KERNEL_VMA at hwindow
  omega

theorem applyWXorX_applied (I : Image) (m : Mem) :
    ∃ t, Returns (fun n => applyWXorX n I true) m () t ∧ Applied I.toTables I.sections.toSymbols true m t :=
  pagingApplyWXorX_applied I.toTables I.sections.higher I.sections.ending true m

theorem present_zero : present 0=none := if_pos (Nat.zero_and _)

theorem present_some {d e : Nat} (h : present d=some e) : d=e := by
  unfold present at h
  split at h
  · cases h
  · exact Option.some_inj.mp h

theorem present_odd {e : Nat} (h : e%2=1) : present e=some e := by
  rw [present,if_neg]
  rw [and_present]
  omega

theorem not_exposed_of_none {cr3 : Nat} (h : translation m cr3 va=none) : ¬ Exposed m cr3 va := by
  rintro ⟨es,hes,_⟩
  rw [h] at hes
  cases hes

theorem translation_through {cr3 pdpt pd : Nat} (hpdpt : pdpt%4096=0 ∧ pdpt<0x40000000)
    (hpd : pd%4096=0 ∧ pd<0x40000000) (hfour : load64 m (cr3+8*pml4Index va)=pdpt+3)
    (hthree : load64 m (pdpt+8*pdptIndex va)=pd+3) :
    translation m cr3 va=(present (load64 m (pd+8*pdIndex va))).bind fun e2 =>
      if e2 &&& PAGE_LARGE≠0 then some [pdpt+3,pd+3,e2]
      else (present (load64 m ((e2 &&& PTE_ADDR_MASK)+8*ptIndex va))).bind fun e1 =>
        some [pdpt+3,pd+3,e2,e1] := by
  rw [translation,hfour,present_odd (by omega),Option.bind_eq_bind,Option.bind_some,pointer_addr hpdpt.1 hpdpt.2,
    hthree,present_odd (by omega),Option.bind_some,if_neg (not_not_intro (pointer_not_large hpd.1)),
    pointer_addr hpd.1 hpd.2]
  rfl

theorem pointer_open (hx : x%4096=0 ∧ x<0x40000000) : (x+3) &&& PAGE_WRITE≠0 ∧ (x+3) &&& PAGE_NX=0 := by
  rw [Ne,and_write,and_nx]
  omega

theorem exposed_iff {cr3 e : Nat} (es : List Nat) (h : translation m cr3 va=some (es++[e]))
    (hes : ∀ e∈es, e &&& PAGE_WRITE≠0 ∧ e &&& PAGE_NX=0) : Exposed m cr3 va ↔ ¬ Sealed e := by
  unfold Sealed
  rw [not_or,not_not]
  constructor
  · rintro ⟨es',hes',hall⟩
    rw [h] at hes'
    obtain rfl := Option.some_inj.mp hes'
    exact hall e (by simp)
  · intro he
    refine ⟨es++[e],h,?_⟩
    intro d hd
    cases List.mem_append.mp hd with
    | inl hd => exact hes d hd
    | inr hd =>
      rw [List.mem_singleton.mp hd]
      exact he

theorem translation_large {f : Nat → Option (List Nat)} {g : Nat → List Nat} (h : i<2048) :
    ((present (largeEntry (0x83+0x200000*i) i)).bind fun e => if e &&& PAGE_LARGE≠0 then some (g e) else f e) =
      some (g (largeEntry (0x83+0x200000*i) i)) := by
  obtain ⟨hpresent,hlarge,_⟩ := largeEntry_bits i h
  rw [present_odd hpresent,Option.bind_some,if_pos]
  rw [Ne,and_large]
  omega

theorem sealed_largeEntry (h : i<2048) : Sealed (largeEntry (0x83+0x200000*i) i) ↔ i≠0 := by
  unfold Sealed
  rw [and_write,Ne,and_nx]
  unfold largeEntry u32
  split
  next h0 =>
    subst h0
    decide
  next h0 => omega

section Exposed
variable {t : Mem} (ha : Applied I.toTables I.sections.toSymbols true (bootTables I.toLabels m) t)
include ha

theorem Applied.boot (hx : x%8=0) (hlo : I.pml4≤x) (hhi : x<I.pml4+0x8000) (hne : x≠I.pdHh) :
    load64 t x=load64 (bootTables I.toLabels m) x := by
  have hT := I.toLabels.layout
  have hapart := I.ptApart
  exact ha.frame x hx (by omega) (by omega) hne

theorem Applied.pml4_entry (hi : i<512) : load64 t (I.pml4+8*i) =
    if i=0 then I.pdpt+3 else if i=511 then I.pdptHh+3 else 0 := by
  have hT := I.toLabels.layout
  rw [ha.boot (by omega) (by omega) (by omega) (by omega),Paging.pml4_entry hi]

theorem Applied.pdpt_entry (hi : i<512) : load64 t (I.pdpt+8*i)=if i<4 then I.pd0+4096*i+3 else 0 := by
  have hT := I.toLabels.layout
  rw [ha.boot (by omega) (by omega) (by omega)
    (by omega),Paging.pdpt_entry hi]

theorem Applied.pdptHh_entry (hi : i<512) : load64 t (I.pdptHh+8*i)=if i=0 then I.pdHh+3 else 0 := by
  have hT := I.toLabels.layout
  rw [ha.boot (by omega) (by omega) (by omega)
    (by omega),Paging.pdptHh_entry hi]

theorem Applied.pd_entry (hi : i<2048) : load64 t (I.pd0+8*i)=largeEntry (0x83+0x200000*i) i := by
  have hT := I.toLabels.layout
  rw [ha.boot (by omega) (by omega) (by omega)
    (by omega),Paging.pd_entry hi]

theorem Applied.pdHh_entry (hi : i<512) (h0 : i≠0) : load64 t (I.pdHh+8*i)=largeEntry (0x83+0x200000*i) i := by
  have hT := I.toLabels.layout
  rw [ha.boot (by omega) (by omega) (by omega)
    (by omega),Paging.pdHh_entry hi]

omit ha in
theorem Image.page_bounds (I : Image) : (I.pdpt%4096=0 ∧ I.pdpt<0x40000000) ∧
    (I.pdptHh%4096=0 ∧ I.pdptHh<0x40000000) ∧ (I.pdHh%4096=0 ∧ I.pdHh<0x40000000) ∧
    I.pt%4096=0 ∧ I.pt<0x40000000 := by
  have hT := I.toLabels.layout
  have hpt := I.ptAligned
  have hpt' := I.ptBelow
  omega

/-- The identity window: only its first large page is not sealed. -/
theorem Applied.exposed_identity (h4 : pml4Index va=0) : Exposed t I.pml4 va ↔ pdptIndex va=0 ∧ pdIndex va=0 := by
  have hT := I.toLabels.layout
  have hpdpt := I.page_bounds.1
  have hidx : pdIndex va<512 := pdIndex_lt
  have hfour : load64 t (I.pml4+8*pml4Index va)=I.pdpt+3 := by
    rw [ha.pml4_entry pml4Index_lt,if_pos h4]
  by_cases h3 : pdptIndex va<4
  · have hpd : (I.pd0+4096*pdptIndex va)%4096=0 ∧ I.pd0+4096*pdptIndex va<0x40000000 := by
      omega
    have hthree : load64 t (I.pdpt+8*pdptIndex va)=I.pd0+4096*pdptIndex va+3 := by
      rw [ha.pdpt_entry pdptIndex_lt,if_pos h3]
    have htwo : load64 t (I.pd0+4096*pdptIndex va+8*pdIndex va) =
        largeEntry (0x83+0x200000*(512*pdptIndex va+pdIndex va)) (512*pdptIndex va+pdIndex va) := by
      rw [← ha.pd_entry (by omega)]
      congr 1
      omega
    have hwalk := translation_through hpdpt hpd hfour hthree
    rw [htwo,translation_large (by omega)] at hwalk
    rw [exposed_iff [I.pdpt+3,I.pd0+4096*pdptIndex va+3] hwalk,sealed_largeEntry (by omega)]
    · omega
    · simp only [List.mem_cons,List.not_mem_nil,or_false,forall_eq_or_imp,forall_eq]
      exact ⟨pointer_open hpdpt,pointer_open hpd⟩
  · have hnone : translation t I.pml4 va=none := by
      rw [translation,hfour,present_odd (by omega),Option.bind_eq_bind,Option.bind_some,
        pointer_addr hpdpt.1 hpdpt.2,ha.pdpt_entry pdptIndex_lt,if_neg h3,present_zero]
      rfl
    refine iff_of_false (not_exposed_of_none hnone) ?_
    omega

/-- The window of the higher half: large pages with the NX bit, and small pages that are sealed. -/
theorem Applied.not_exposed_window (h4 : pml4Index va=511) (h3 : pdptIndex va=0) : ¬ Exposed t I.pml4 va := by
  obtain ⟨_,hpdpt,hpd,hpt⟩ := I.page_bounds
  have hfour : load64 t (I.pml4+8*pml4Index va)=I.pdptHh+3 := by
    rw [ha.pml4_entry pml4Index_lt,if_neg (by omega),if_pos h4]
  have hthree : load64 t (I.pdptHh+8*pdptIndex va)=I.pdHh+3 := by
    rw [ha.pdptHh_entry pdptIndex_lt,if_pos h3]
  have hwalk := translation_through hpdpt hpd hfour hthree
  by_cases h2 : pdIndex va=0
  · rw [h2,Nat.mul_zero,Nat.add_zero,ha.first,present_odd (by omega),Option.bind_some,
      if_neg (not_not_intro (pointer_not_large hpt.1)),pointer_addr hpt.1 hpt.2] at hwalk
    cases hpage : present (load64 t (I.pt+8*ptIndex va)) with
    | none =>
      rw [hpage,Option.bind_none] at hwalk
      exact not_exposed_of_none hwalk
    | some e =>
      rw [hpage,Option.bind_some,← present_some hpage] at hwalk
      rw [exposed_iff [I.pdptHh+3,I.pdHh+3,I.pt+3] hwalk,not_not]
      · exact ha.sealed ptIndex_lt
      · simp only [List.mem_cons,List.not_mem_nil,or_false,forall_eq_or_imp,forall_eq]
        exact ⟨pointer_open hpdpt,pointer_open hpd,pointer_open hpt⟩
  · have hidx : pdIndex va<512 := pdIndex_lt
    rw [ha.pdHh_entry hidx h2,translation_large (by omega)] at hwalk
    rw [exposed_iff [I.pdptHh+3,I.pdHh+3] hwalk,not_not,sealed_largeEntry (by omega)]
    · exact h2
    · simp only [List.mem_cons,List.not_mem_nil,or_false,forall_eq_or_imp,forall_eq]
      exact ⟨pointer_open hpdpt,pointer_open hpd⟩

theorem Applied.not_exposed_higher (h4 : pml4Index va≠0) : ¬ Exposed t I.pml4 va := by
  obtain ⟨_,hpdpt,_⟩ := I.page_bounds
  by_cases hlast : pml4Index va=511
  · by_cases h3 : pdptIndex va=0
    · exact ha.not_exposed_window hlast h3
    · apply not_exposed_of_none
      rw [translation,ha.pml4_entry pml4Index_lt,if_neg h4,if_pos hlast,present_odd (by omega),
        Option.bind_eq_bind,Option.bind_some,pointer_addr hpdpt.1 hpdpt.2,ha.pdptHh_entry pdptIndex_lt,if_neg h3,
        present_zero]
      rfl
  · apply not_exposed_of_none
    rw [translation,ha.pml4_entry pml4Index_lt,if_neg h4,if_neg hlast,present_zero]
    rfl

theorem Applied.exposed_iff_low (hva : Canonical va) : Exposed t I.pml4 va ↔ va<0x200000 := by
  unfold Canonical at hva
  by_cases h4 : pml4Index va=0
  · rw [ha.exposed_identity h4,pdptIndex_eq,pdIndex_eq]
    rw [pml4Index_eq] at h4
    omega
  · refine iff_of_false (ha.not_exposed_higher h4) ?_
    rw [pml4Index_eq] at h4
    omega

end Exposed

/-- With NX available the function ends, and after it an address can be written and executed exactly if it lies in
the first 2 MiB of the identity window. -/
theorem w_xor_x_iff (I : Image) (m : Mem) :
    ∃ t, Returns (fun n => applyWXorX n I true) (bootTables I.toLabels m) () t ∧
      ∀ va, Canonical va → (¬ Exposed t I.pml4 va ↔ 0x200000≤va) := by
  obtain ⟨t,hrun,ha⟩ := applyWXorX_applied I (bootTables I.toLabels m)
  refine ⟨t,hrun,?_⟩
  intro va hva
  rw [ha.exposed_iff_low hva,Nat.not_lt]

def plainImage : Image where
  pml4 := 0x110000
  aligned := by decide
  below := by decide
  pt := 0x120000
  ptAligned := by decide
  ptBelow := by decide
  ptApart := by decide
  sections := {
    textStart := KERNEL_VMA+0x101000
    textEnd := KERNEL_VMA+0x105000
    rodataStart := KERNEL_VMA+0x105000
    rodataEnd := KERNEL_VMA+0x106000
    dataStart := KERNEL_VMA+0x106000
    bssEnd := KERNEL_VMA+0x140000
    kernelVirtualStart := KERNEL_VMA+0x100000
    kernelVirtualEnd := KERNEL_VMA+0x140000
    window := by decide }

/-- Address 0, in the identity window. -/
theorem w_xor_x_fails : ¬ ∀ (I : Image) (m t : Mem),
    Returns (fun n => applyWXorX n I true) (bootTables I.toLabels m) () t →
      ∀ va, Canonical va → ¬ Exposed t I.pml4 va := by
  intro h
  obtain ⟨t,hrun,ha⟩ := applyWXorX_applied plainImage (bootTables plainImage.toLabels fun _ => 0)
  have hzero : Canonical 0 := .inl (by decide)
  exact h plainImage _ t hrun 0 hzero ((ha.exposed_iff_low hzero).mpr (by decide))

end MyKernel.Paging
