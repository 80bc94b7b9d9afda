import MyKernel.Lib.Comp
import MyKernel.Paging.Walk

/-! `paging_apply_w_xor_x`: the first 2 MiB of `pd_hh` become small pages. -/
namespace MyKernel.Paging
open Memory MyKernel.Computation

structure Symbols where
  textStart : Nat
  textEnd : Nat
  rodataStart : Nat
  rodataEnd : Nat
  dataStart : Nat
  bssEnd : Nat
  kernelVirtualStart : Nat
  kernelVirtualEnd : Nat

structure Tables extends Labels where
  pt : Nat
  ptAligned : pt%4096=0
  ptBelow : pt+0x1000≤0x40000000
  ptApart : pt+0x1000≤pml4 ∨ pml4+0x8000≤pt

def inRange (va a b : Nat) : Bool := a≤va && va<b

def nxFlag (nx : Bool) : Nat := if nx then PAGE_NX else 0

def flagsForVa (S : Symbols) (va : Nat) (nx : Bool) : Nat :=
  if inRange va S.textStart S.textEnd then PAGE_PRESENT
  else if inRange va S.rodataStart S.rodataEnd then PAGE_PRESENT ||| nxFlag nx
  else PAGE_PRESENT ||| PAGE_WRITE ||| nxFlag nx

def windowFlags (S : Symbols) (nx : Bool) (i : Nat) : Nat :=
  let va := KERNEL_VMA+i*0x1000
  if va<S.kernelVirtualStart ∨ S.kernelVirtualEnd≤va then
    if 0x100000 ≤ i*0x1000 ∧ i*0x1000<0x101000 ∧ !nx then PAGE_PRESENT
    else PAGE_PRESENT ||| PAGE_WRITE ||| nxFlag nx
  else flagsForVa S va nx

def setPage (pt i phys flags : Nat) : Comp Mem Unit :=
  update fun m => store64 m (pt+8*i) ((phys &&& PTE_ADDR_MASK) ||| flags)

def windowLoop (pt : Nat) (S : Symbols) (nx : Bool) : Nat → Nat → Comp Mem Unit
  | 0, _ => pure ()
  | n+1, i => do
    setPage pt i (i*0x1000) (windowFlags S nx i)
    windowLoop pt S nx n (i+1)

def sectionLoop (pt stop flags : Nat) : Nat → Nat → Comp Mem Unit
  | 0, _ => running
  | fuel+1, va =>
    if va<stop then do
      let idx := u32 (physOf va/0x1000)
      if idx<512 then setPage pt idx (physOf va) flags
      sectionLoop pt stop flags fuel (u64 (va+0x1000))
    else pure ()

def pageDown (a : Nat) : Nat := a-a%0x1000

def pagingApplyWXorX (fuel : Nat) (T : Tables) (S : Symbols) (nx : Bool) : Comp Mem Unit := do
  windowLoop T.pt S nx 512 0
  sectionLoop T.pt S.textEnd PAGE_PRESENT fuel (pageDown S.textStart)
  sectionLoop T.pt S.rodataEnd (PAGE_PRESENT ||| nxFlag nx) fuel (pageDown S.rodataStart)
  sectionLoop T.pt S.bssEnd (PAGE_PRESENT ||| PAGE_WRITE ||| nxFlag nx) fuel (pageDown S.dataStart)
  update fun m => store64 m T.pdHh ((T.pt &&& PTE_ADDR_MASK) ||| PAGE_PRESENT ||| PAGE_WRITE)

/-- The loop that starts at `a` and stops at `b` comes to page `i`. -/
def Covers (a b i : Nat) : Prop := pageDown a≤KERNEL_VMA+i*0x1000 ∧ KERNEL_VMA+i*0x1000<b

instance (a b i : Nat) : Decidable (Covers a b i) := inferInstanceAs (Decidable (_ ∧ _))

/-- The flags of the last loop that comes to the page. -/
def finalFlags (S : Symbols) (nx : Bool) (i : Nat) : Nat :=
  if Covers S.dataStart S.bssEnd i then PAGE_PRESENT ||| PAGE_WRITE ||| nxFlag nx
  else if Covers S.rodataStart S.rodataEnd i then PAGE_PRESENT ||| nxFlag nx
  else if Covers S.textStart S.textEnd i then PAGE_PRESENT
  else windowFlags S nx i

def pageEntry (i flags : Nat) : Nat := (i*0x1000 &&& PTE_ADDR_MASK) ||| flags

def Symbols.Higher (S : Symbols) : Prop :=
  ∀ a∈[S.textStart,S.textEnd,S.rodataStart,S.rodataEnd,S.dataStart,S.bssEnd,S.kernelVirtualStart,
    S.kernelVirtualEnd], KERNEL_VMA≤a ∧ a<18446744073709551616

/-- No loop has to go on behind the last page of the address space. -/
def Symbols.Ending (S : Symbols) : Prop :=
  ∀ a∈[S.textEnd,S.rodataEnd,S.bssEnd], a≤18446744073709547520

variable {m m₀ : Mem} {T : Tables} {S : Symbols} {nx : Bool} {E : Nat → Nat} {f a i n va x stop fuel pt : Nat}

theorem flags_lt (nx : Bool) : PAGE_PRESENT ||| nxFlag nx<18446744073709551616 ∧
    PAGE_PRESENT ||| PAGE_WRITE ||| nxFlag nx<18446744073709551616 := by
  cases nx <;> decide

theorem windowFlags_cases (S : Symbols) (nx : Bool) (i : Nat) : windowFlags S nx i=PAGE_PRESENT ∨
    windowFlags S nx i=PAGE_PRESENT ||| nxFlag nx ∨ windowFlags S nx i=PAGE_PRESENT ||| PAGE_WRITE ||| nxFlag nx := by
  unfold windowFlags flagsForVa
  dsimp only
  split
  · split
    · exact .inl rfl
    · exact .inr (.inr rfl)
  · split
    · exact .inl rfl
    · split
      · exact .inr (.inl rfl)
      · exact .inr (.inr rfl)

theorem finalFlags_cases (S : Symbols) (nx : Bool) (i : Nat) : finalFlags S nx i=PAGE_PRESENT ∨
    finalFlags S nx i=PAGE_PRESENT ||| nxFlag nx ∨ finalFlags S nx i=PAGE_PRESENT ||| PAGE_WRITE ||| nxFlag nx := by
  unfold finalFlags
  split
  · exact .inr (.inr rfl)
  · split
    · exact .inr (.inl rfl)
    · split
      · exact .inl rfl
      · exact windowFlags_cases S nx i

theorem windowFlags_lt (S : Symbols) (nx : Bool) (i : Nat) : windowFlags S nx i<18446744073709551616 := by
  rcases windowFlags_cases S nx i with h | h | h
  · rw [h]
    decide
  · rw [h]
    exact (flags_lt nx).1
  · rw [h]
    exact (flags_lt nx).2

theorem pageEntry_lt (hf : f<18446744073709551616) : pageEntry i f<18446744073709551616 := by
  have haddr : i*0x1000 &&& PTE_ADDR_MASK<2^64 := by
    rw [and_addr]
    omega
  exact Nat.or_lt_two_pow haddr hf

theorem pageEntry_bits (i f : Nat) : pageEntry i f &&& PAGE_PRESENT=f &&& PAGE_PRESENT ∧
    pageEntry i f &&& PAGE_WRITE=f &&& PAGE_WRITE ∧ pageEntry i f &&& PAGE_NX=f &&& PAGE_NX := by
  have hpresent : (i*0x1000 &&& PTE_ADDR_MASK) &&& PAGE_PRESENT=0 := by
    rw [and_present,and_addr]
    omega
  have hwrite : (i*0x1000 &&& PTE_ADDR_MASK) &&& PAGE_WRITE=0 := by
    rw [and_write,and_addr]
    omega
  have hnx : (i*0x1000 &&& PTE_ADDR_MASK) &&& PAGE_NX=0 := by
    rw [and_nx,and_addr]
    omega
  unfold pageEntry
  rw [Nat.and_or_distrib_right,Nat.and_or_distrib_right,Nat.and_or_distrib_right,hpresent,hwrite,hnx,
    Nat.zero_or,Nat.zero_or,Nat.zero_or]
  exact ⟨rfl,rfl,rfl⟩

/-- The small pages have the entries `E`, and nothing outside their table has changed. -/
structure Pages (m₀ : Mem) (pt : Nat) (E : Nat → Nat) (m : Mem) : Prop where
  entries : ∀ i, i<512 → load64 m (pt+8*i)=E i
  frame : ∀ x, x%8=0 → x<4294967296 → x<pt ∨ pt+0x1000≤x → load64 m x=load64 m₀ x

theorem Pages.start (m : Mem) (pt : Nat) : Pages m pt (fun i => load64 m (pt+8*i)) m := ⟨fun _ _ => rfl, fun _ _ _ _ => rfl⟩

theorem Pages.congr {E' : Nat → Nat} (h : Pages m₀ pt E m) (hE : ∀ i, i<512 → E i=E' i) : Pages m₀ pt E' m :=
  ⟨fun i hi => (h.entries i hi).trans (hE i hi),h.frame⟩

theorem physOf_page {p : Nat} (hp : p<524288) : physOf (KERNEL_VMA+p*0x1000)=p*0x1000 := by
  unfold physOf u64 KERNEL_VMA
  omega

theorem next_page {p : Nat} (hp : p+1<524288) : u64 (KERNEL_VMA+p*0x1000+0x1000)=KERNEL_VMA+(p+1)*0x1000 := by
  unfold u64 KERNEL_VMA
  omega

section Loops
variable (hpt : pt%4096=0) (hpt' : pt+0x1000≤0x40000000)
include hpt hpt'

theorem Pages.setPage (h : Pages m₀ pt E m) (hi : i<512) (hf : f<18446744073709551616) :
    ∃ t, setPage pt i (i*0x1000) f m=(some (),t) ∧
      Pages m₀ pt (fun j => if j=i then pageEntry i f else E j) t := by
  have hload : ∀ x, x%8=0 → x<4294967296 → load64 (store64 m (pt+8*i) (pageEntry i f)) x =
      if x=pt+8*i then pageEntry i f else load64 m x :=
    fun x hx hx' => load64_store64 (by omega) hx (by omega) hx' (pageEntry_lt hf)
  refine ⟨_,rfl,?_,?_⟩
  · intro j hj
    refine (hload _ (by omega) (by omega)).trans ?_
    by_cases hji : j=i
    · rw [if_pos (by omega),if_pos hji]
    · rw [if_neg (by omega),if_neg hji]
      exact h.entries j hj
  · intro x hx hx' hout
    refine (hload x hx hx').trans ?_
    rw [if_neg (by omega)]
    exact h.frame x hx hx' hout

theorem windowLoop_pages (S : Symbols) (nx : Bool) (h : Pages m₀ pt E m) (hn : i+n≤512) :
    ∃ t, windowLoop pt S nx n i m=(some (),t) ∧
      Pages m₀ pt (fun j => if i≤j ∧ j < i+n then pageEntry j (windowFlags S nx j) else E j) t := by
  induction n generalizing i m E with
  | zero =>
    refine ⟨m,rfl,h.congr ?_⟩
    intro j _
    rw [if_neg (by omega)]
  | succ n ih =>
    obtain ⟨t,hset,hpages⟩ := h.setPage hpt hpt' (by omega : i<512) (windowFlags_lt S nx i)
    obtain ⟨u,hrun,hpages'⟩ := ih hpages (by omega : i+1+n≤512)
    refine ⟨u,by rw [windowLoop,bind_some hset,hrun],hpages'.congr ?_⟩
    intro j _
    by_cases hji : j=i
    · rw [if_neg (by omega),if_pos hji,if_pos (by omega),hji]
    · rw [if_neg hji]
      by_cases hin : i+1≤j ∧ j < i+1+n
      · rw [if_pos hin,if_pos (by omega)]
      · rw [if_neg hin,if_neg (by omega)]

theorem sectionLoop_pages {e p : Nat} (fuel : Nat) (hf : f<18446744073709551616) (he : e<524288)
    (hstop : ∀ j, KERNEL_VMA+j*0x1000<stop ↔ j<e) (h : Pages m₀ pt E m) (hfuel : e≤p+fuel) :
    ∃ t, sectionLoop pt stop f (fuel+1) (KERNEL_VMA+p*0x1000) m=(some (),t) ∧
      Pages m₀ pt (fun j => if p≤j ∧ j<e then pageEntry j f else E j) t := by
  induction fuel generalizing p m E with
  | zero =>
    refine ⟨m,by rw [sectionLoop,if_neg (by rw [hstop]; omega),pure_eq],h.congr ?_⟩
    intro j _
    rw [if_neg (by omega)]
  | succ fuel ih =>
    rw [sectionLoop]
    by_cases hlt : p<e
    · have hidx : u32 (p*0x1000/0x1000)=p := by
        rw [Nat.mul_div_cancel _ (by decide)]
        exact u32_of_lt (by omega)
      -- a page outside the window is passed over
      obtain ⟨t,hpass,hpages⟩ : ∃ t, (∀ c : Comp Mem Unit,
          (if p<512 then do setPage pt p (p*0x1000) f; c else c) m=c t) ∧
          Pages m₀ pt (fun j => if j=p then pageEntry p f else E j) t := by
        by_cases hp : p<512
        · obtain ⟨t,hset,hpages⟩ := h.setPage hpt hpt' hp hf
          refine ⟨t,?_,hpages⟩
          intro c
          rw [if_pos hp,bind_some hset]
        · refine ⟨m,?_,h.congr ?_⟩
          · intro c
            rw [if_neg hp]
          · intro j hj
            rw [if_neg (by omega)]
      obtain ⟨u,hrun,hpages'⟩ := ih hpages (by omega : e≤p+1+fuel)
      refine ⟨u,?_,hpages'.congr ?_⟩
      · rw [if_pos ((hstop p).mpr hlt),physOf_page (by omega),next_page (by omega)]
        dsimp only
        rw [hidx,hpass,hrun]
      · intro j _
        by_cases hjp : j=p
        · rw [if_neg (by omega),if_pos hjp,if_pos (by omega),hjp]
        · rw [if_neg hjp]
          by_cases hin : p+1≤j ∧ j<e
          · rw [if_pos hin,if_pos (by omega)]
          · rw [if_neg hin,if_neg (by omega)]
    · refine ⟨m,by rw [if_neg (by rw [hstop]; exact hlt),pure_eq],h.congr ?_⟩
      intro j _
      rw [if_neg (by omega)]

theorem sectionLoop_covers {b : Nat} (hfuel : 524288<fuel) (hf : f<18446744073709551616) (ha : KERNEL_VMA≤a)
    (ha' : a<18446744073709551616) (hb : b≤18446744073709547520) (h : Pages m₀ pt E m) :
    ∃ t, sectionLoop pt b f fuel (pageDown a) m=(some (),t) ∧
      Pages m₀ pt (fun j => if Covers a b j then pageEntry j f else E j) t := by
  obtain ⟨p,hp⟩ : ∃ p, pageDown a=KERNEL_VMA+p*0x1000 := ⟨(a-KERNEL_VMA)/0x1000,by
    unfold KERNEL_VMA at *
    unfold pageDown
    omega⟩
  obtain ⟨e,he,hstop⟩ : ∃ e, e<524288 ∧ ∀ j, KERNEL_VMA+j*0x1000<b ↔ j<e := by
    refine ⟨(b-KERNEL_VMA+4095)/0x1000,?_,?_⟩
    · unfold KERNEL_VMA
      omega
    · intro j
      unfold KERNEL_VMA
      omega
  obtain ⟨n,rfl⟩ := Nat.exists_eq_succ_of_ne_zero (Nat.ne_of_gt (Nat.zero_lt_of_lt hfuel))
  rw [hp]
  obtain ⟨t,hrun,hpages⟩ := sectionLoop_pages hpt hpt' (p := p) n hf he hstop h (by omega)
  refine ⟨t,hrun,hpages.congr ?_⟩
  intro j _
  have hiff : (p≤j ∧ j<e) ↔ Covers a b j := by
    rw [Covers,hp,hstop,Nat.add_le_add_iff_left,Nat.mul_le_mul_right_iff (by decide)]
  by_cases hc : Covers a b j
  · rw [if_pos hc,if_pos (hiff.mpr hc)]
  · rw [if_neg hc,if_neg (fun hin => hc (hiff.mp hin))]

end Loops

theorem sectionLoop_pass (pt f fuel : Nat) (m : Mem) (hlt : va<stop) : ∃ t,
    sectionLoop pt stop f (fuel+1) va m=sectionLoop pt stop f fuel (u64 (va+0x1000)) t := by
  rw [sectionLoop,if_pos hlt]
  dsimp only
  by_cases hidx : u32 (physOf va/0x1000)<512
  · rw [if_pos hidx,setPage,update_bind]
    exact ⟨_,rfl⟩
  · rw [if_neg hidx]
    exact ⟨_,rfl⟩

theorem sectionLoop_ends {t : Mem} (haligned : va%0x1000=0) (hva : va<18446744073709551616)
    (h : sectionLoop pt stop f fuel va m=(some (),t)) : stop≤18446744073709547520 := by
  induction fuel generalizing va m with
  | zero =>
    rw [sectionLoop,running_eq] at h
    cases h
  | succ fuel ih =>
    by_cases hlt : va<stop
    · obtain ⟨u,hpass⟩ := sectionLoop_pass pt f fuel m hlt
      rw [hpass] at h
      have haligned' : u64 (va+0x1000)%0x1000=0 := by
        unfold u64
        omega
      exact ih haligned' (Nat.mod_lt _ (by decide)) h
    · omega

structure Applied (T : Tables) (S : Symbols) (nx : Bool) (m₀ m : Mem) : Prop where
  frame : ∀ x, x%8=0 → x<4294967296 → x<T.pt ∨ T.pt+0x1000≤x → x≠T.pdHh → load64 m x=load64 m₀ x
  first : load64 m T.pdHh=T.pt+3
  entries : ∀ i, i<512 → load64 m (T.pt+8*i)=pageEntry i (finalFlags S nx i)

theorem pagingApplyWXorX_applied (T : Tables) (hS : S.Higher) (hend : S.Ending) (nx : Bool) (m : Mem) :
    ∃ t, Returns (fun n => pagingApplyWXorX n T S nx) m () t ∧ Applied T S nx m t := by
  have hT := T.toLabels.layout
  have hpt := T.ptAligned
  have hpt' := T.ptBelow
  have hapart := T.ptApart
  simp only [Symbols.Higher,Symbols.Ending,List.mem_cons,List.not_mem_nil,or_false,forall_eq_or_imp,
    forall_eq] at hS hend
  obtain ⟨htext,_,hro,_,hdata,_⟩ := hS
  obtain ⟨htext',hro',hbss'⟩ := hend
  obtain ⟨fuel,hfuel⟩ : ∃ n, 524288<n := ⟨524289,by decide⟩
  obtain ⟨t₁,hrun₁,h₁⟩ := windowLoop_pages (i := 0) (n := 512) hpt hpt' S nx (Pages.start m T.pt)
    (by decide)
  obtain ⟨t₂,hrun₂,h₂⟩ := sectionLoop_covers hpt hpt' hfuel (by decide : PAGE_PRESENT<_) htext.1 htext.2 htext' h₁
  obtain ⟨t₃,hrun₃,h₃⟩ := sectionLoop_covers hpt hpt' hfuel (flags_lt nx).1 hro.1 hro.2 hro' h₂
  obtain ⟨t₄,hrun₄,h₄⟩ := sectionLoop_covers hpt hpt' hfuel (flags_lt nx).2 hdata.1 hdata.2 hbss' h₃
  have hentry : (T.pt &&& PTE_ADDR_MASK) ||| PAGE_PRESENT ||| PAGE_WRITE=T.pt+3 := by
    have haddr : T.pt &&& PTE_ADDR_MASK=T.pt := by
      rw [and_addr]
      omega
    rw [haddr,Nat.or_assoc,or_low (a := 12) hpt (by decide)]
    rfl
  have hload : ∀ x, x%8=0 → x<4294967296 → load64 (store64 t₄ T.pdHh (T.pt+3)) x =
      if x=T.pdHh then T.pt+3 else load64 t₄ x :=
    fun x hx hx' => load64_store64 (by omega) hx (by omega) hx' (by omega)
  refine ⟨store64 t₄ T.pdHh (T.pt+3),⟨fuel,?_⟩,?_,?_,?_⟩
  · dsimp only
    rw [pagingApplyWXorX,bind_some hrun₁,bind_some hrun₂,bind_some hrun₃,bind_some hrun₄,hentry,update_eq]
  · intro x hx hx' hout hne
    rw [hload x hx hx',if_neg hne]
    exact h₄.frame x hx hx' hout
  · rw [hload _ (by omega) (by omega),if_pos rfl]
  · intro i hi
    have hwindow : 0 ≤ i ∧ i<0+512 := by omega
    rw [hload _ (by omega) (by omega),if_neg (by omega),h₄.entries i hi,finalFlags,apply_ite (pageEntry i),
      apply_ite (pageEntry i),apply_ite (pageEntry i),if_pos hwindow]

end MyKernel.Paging
