import MyKernel.Paging.WxorX

/-! The permissions of the sections after `paging_apply_w_xor_x`. -/
namespace MyKernel.Paging
open Memory MyKernel.Computation

structure Layout where
  multiboot : Nat
  text : Nat
  rodata : Nat
  data : Nat
  bss : Nat
  fits : multiboot+text+rodata+data+bss<0x100000

namespace Layout
variable (L : Layout)

def textAt : Nat := 0x100000+L.multiboot
def rodataAt : Nat := L.textAt+L.text
def dataAt : Nat := L.rodataAt+L.rodata
def endAt : Nat := L.dataAt+L.data+L.bss

def symbols : Symbols where
  textStart := KERNEL_VMA+L.textAt
  textEnd := KERNEL_VMA+L.rodataAt
  rodataStart := KERNEL_VMA+L.rodataAt
  rodataEnd := KERNEL_VMA+L.dataAt
  dataStart := KERNEL_VMA+L.dataAt
  bssEnd := KERNEL_VMA+L.endAt
  kernelVirtualStart := KERNEL_VMA+0x100000
  kernelVirtualEnd := KERNEL_VMA+L.endAt

theorem order : 0x100000≤L.textAt ∧ L.rodataAt=L.textAt+L.text ∧ L.dataAt=L.rodataAt+L.rodata ∧
    L.dataAt≤L.endAt ∧ L.endAt<0x200000 := by
  have hfits := L.fits
  unfold endAt dataAt rodataAt textAt
  omega

end Layout

/-- The entries of page `i` of the window, from the directory `pd_hh` down. -/
def windowWalk (T : Tables) (m : Mem) (i : Nat) : Option (List Nat) := do
  let e2 ← present (load64 m T.pdHh)
  if e2 &&& PAGE_LARGE≠0 then return [e2]
  let e1 ← present (load64 m ((e2 &&& PTE_ADDR_MASK)+8*i))
  return [e2,e1]

def Executable (T : Tables) (m : Mem) (i : Nat) : Prop :=
  ∃ es, windowWalk T m i=some es ∧ ∀ e∈es, e &&& PAGE_NX=0

def Writable (T : Tables) (m : Mem) (i : Nat) : Prop :=
  ∃ es, windowWalk T m i=some es ∧ ∀ e∈es, e &&& PAGE_WRITE≠0

def HoldsByte (a b i : Nat) : Prop := ∃ x, a≤x ∧ x<b ∧ pageDown x=KERNEL_VMA+i*0x1000

structure Protected (T : Tables) (S : Symbols) (m : Mem) : Prop where
  text : ∀ i, HoldsByte S.textStart S.textEnd i → Executable T m i ∧ ¬ Writable T m i
  rodata : ∀ i, HoldsByte S.rodataStart S.rodataEnd i → ¬ Writable T m i
  data : ∀ i, HoldsByte S.dataStart S.bssEnd i → Writable T m i

variable {m m₀ : Mem} {T : Tables} {S : Symbols} {L : Layout} {a b f i : Nat}

section Flags
variable (h : Applied T S true m₀ m) (hi : i<512)
include h hi

theorem Applied.windowWalk : windowWalk T m i=some [T.pt+3,pageEntry i (finalFlags S true i)] := by
  have hpt : T.pt%4096=0 ∧ T.pt<0x40000000 := ⟨T.ptAligned,by have := T.ptBelow; omega⟩
  have hpresent : finalFlags S true i &&& PAGE_PRESENT≠0 := by
    rcases finalFlags_cases S true i with hf | hf | hf
    · rw [hf]
      decide
    · rw [hf]
      decide
    · rw [hf]
      decide
  rw [Paging.windowWalk,h.first,present_odd (by omega),Option.bind_eq_bind,Option.bind_some,
    if_neg (not_not_intro (pointer_not_large hpt.1)),pointer_addr hpt.1 hpt.2,h.entries i hi,present,
    (pageEntry_bits i _).1,if_neg hpresent]
  rfl

theorem Applied.executable_iff : Executable T m i ↔ finalFlags S true i &&& PAGE_NX=0 := by
  have hpt : T.pt%4096=0 ∧ T.pt<0x40000000 := ⟨T.ptAligned,by have := T.ptBelow; omega⟩
  rw [Executable,h.windowWalk hi,← (pageEntry_bits i _).2.2]
  simp only [Option.some.injEq,exists_eq_left',List.mem_cons,List.not_mem_nil,or_false,forall_eq_or_imp,forall_eq]
  exact and_iff_right (pointer_open hpt).2

theorem Applied.writable_iff : Writable T m i ↔ finalFlags S true i &&& PAGE_WRITE≠0 := by
  have hpt : T.pt%4096=0 ∧ T.pt<0x40000000 := ⟨T.ptAligned,by have := T.ptBelow; omega⟩
  rw [Writable,h.windowWalk hi,← (pageEntry_bits i _).2.1]
  simp only [Option.some.injEq,exists_eq_left',List.mem_cons,List.not_mem_nil,or_false,forall_eq_or_imp,forall_eq]
  exact and_iff_right (pointer_open hpt).1

theorem Applied.of_data (hc : Covers S.dataStart S.bssEnd i) : ¬ Executable T m i ∧ Writable T m i := by
  rw [h.executable_iff hi,h.writable_iff hi,finalFlags,if_pos hc]
  decide

theorem Applied.of_rodata (hd : ¬ Covers S.dataStart S.bssEnd i) (hc : Covers S.rodataStart S.rodataEnd i) :
    ¬ Executable T m i ∧ ¬ Writable T m i := by
  rw [h.executable_iff hi,h.writable_iff hi,finalFlags,if_neg hd,if_pos hc]
  decide

theorem Applied.of_text (hd : ¬ Covers S.dataStart S.bssEnd i) (hr : ¬ Covers S.rodataStart S.rodataEnd i)
    (hc : Covers S.textStart S.textEnd i) : Executable T m i ∧ ¬ Writable T m i := by
  rw [h.executable_iff hi,h.writable_iff hi,finalFlags,if_neg hd,if_neg hr,if_pos hc]
  decide

end Flags

theorem covers_iff : Covers (KERNEL_VMA+a) (KERNEL_VMA+b) i ↔ a < i*0x1000+0x1000 ∧ i*0x1000<b := by
  unfold Covers pageDown KERNEL_VMA
  omega

/-- A loop comes to every page that holds a byte of its section, and to a page more if the section is empty. -/
theorem holdsByte_iff : HoldsByte (KERNEL_VMA+a) (KERNEL_VMA+b) i ↔ a<b ∧ a < i*0x1000+0x1000 ∧ i*0x1000<b := by
  constructor
  · rintro ⟨x,hax,hxb,hpage⟩
    unfold pageDown KERNEL_VMA at *
    omega
  · rintro ⟨hab,hai,hib⟩
    refine ⟨KERNEL_VMA+max a (i*0x1000),?_,?_,?_⟩
    · omega
    · omega
    · unfold pageDown KERNEL_VMA
      omega

theorem Layout.higher (L : Layout) : L.symbols.Higher := by
  have horder := L.order
  simp only [Symbols.Higher,symbols,List.mem_cons,List.not_mem_nil,or_false,forall_eq_or_imp,forall_eq]
  unfold KERNEL_VMA
  omega

theorem Layout.ending (L : Layout) : L.symbols.Ending := by
  have horder := L.order
  simp only [Symbols.Ending,symbols,List.mem_cons,List.not_mem_nil,or_false,forall_eq_or_imp,forall_eq]
  unfold KERNEL_VMA
  omega

section Layout
variable (h : Applied T L.symbols true m₀ m)
include h

theorem Applied.data_writable (i : Nat) (hb : HoldsByte L.symbols.dataStart L.symbols.bssEnd i) : Writable T m i := by
  have horder := L.order
  obtain ⟨_,hin⟩ := holdsByte_iff.mp hb
  exact (h.of_data (by omega) (covers_iff.mpr hin)).2

theorem Applied.rodata_iff : (∀ i, HoldsByte L.symbols.rodataStart L.symbols.rodataEnd i → ¬ Writable T m i) ↔
    L.rodata=0 ∨ L.dataAt%0x1000=0 := by
  have horder := L.order
  constructor
  · intro hall
    by_contra hcon
    have hlast : HoldsByte L.symbols.rodataStart L.symbols.rodataEnd (L.dataAt/0x1000) :=
      holdsByte_iff.mpr (by omega)
    have hdata : Covers L.symbols.dataStart L.symbols.bssEnd (L.dataAt/0x1000) := covers_iff.mpr (by omega)
    exact hall _ hlast (h.of_data (by omega) hdata).2
  · intro hend i hb
    obtain ⟨hne,hin⟩ := holdsByte_iff.mp hb
    have hdata : ¬ Covers L.symbols.dataStart L.symbols.bssEnd i := by
      rintro hc
      have hin' := covers_iff.mp hc
      omega
    exact (h.of_rodata (by omega) hdata (covers_iff.mpr hin)).2

/-- The last page of `.text` belongs to the loop for `.rodata` unless the section ends with the page. -/
theorem Applied.text_iff : (∀ i, HoldsByte L.symbols.textStart L.symbols.textEnd i →
    Executable T m i ∧ ¬ Writable T m i) ↔ L.text=0 ∨ L.rodataAt%0x1000=0 := by
  have horder := L.order
  constructor
  · intro hall
    by_contra hcon
    have hlast : HoldsByte L.symbols.textStart L.symbols.textEnd (L.rodataAt/0x1000) := holdsByte_iff.mpr (by omega)
    have hrodata : Covers L.symbols.rodataStart L.symbols.rodataEnd (L.rodataAt/0x1000) := covers_iff.mpr (by omega)
    obtain ⟨hexec,_⟩ := hall _ hlast
    by_cases hdata : Covers L.symbols.dataStart L.symbols.bssEnd (L.rodataAt/0x1000)
    · exact (h.of_data (by omega) hdata).1 hexec
    · exact (h.of_rodata (by omega) hdata hrodata).1 hexec
  · intro hend i hb
    obtain ⟨hne,hin⟩ := holdsByte_iff.mp hb
    have hrodata : ¬ Covers L.symbols.rodataStart L.symbols.rodataEnd i := by
      rintro hc
      have hin' := covers_iff.mp hc
      omega
    have hdata : ¬ Covers L.symbols.dataStart L.symbols.bssEnd i := by
      rintro hc
      have hin' := covers_iff.mp hc
      omega
    exact h.of_text (by omega) hdata hrodata (covers_iff.mpr hin)

end Layout

/-- With NX the function ends, and the sections have their permissions exactly if `.text` and `.rodata` each end with
a page or are empty. -/
theorem section_permissions_iff (T : Tables) (L : Layout) (m : Mem) :
    ∃ t, Returns (fun n => pagingApplyWXorX n T L.symbols true) m () t ∧
      (Protected T L.symbols t ↔
        (L.text=0 ∨ L.symbols.textEnd%0x1000=0) ∧ (L.rodata=0 ∨ L.symbols.rodataEnd%0x1000=0)) := by
  obtain ⟨t,hrun,h⟩ := pagingApplyWXorX_applied T L.higher L.ending true m
  have haligned : ∀ a, (KERNEL_VMA+a)%0x1000=0 ↔ a%0x1000=0 := by
    intro a
    unfold KERNEL_VMA
    omega
  refine ⟨t,hrun,?_⟩
  show _ ↔ (L.text=0 ∨ (KERNEL_VMA+L.rodataAt)%0x1000=0) ∧ (L.rodata=0 ∨ (KERNEL_VMA+L.dataAt)%0x1000=0)
  rw [haligned,haligned,← h.text_iff,← h.rodata_iff]
  exact ⟨fun hp => ⟨hp.text,hp.rodata⟩,fun hp => ⟨hp.1,hp.2,h.data_writable⟩⟩

/-- A `.text` of 100 bytes over four pages. -/
def unevenLayout : Layout where
  multiboot := 0x1000
  text := 0x4064
  rodata := 0x1000
  data := 0x1000
  bss := 0x20000
  fits := by decide

/-- The last 100 bytes of `.text` lie in the first page of `.rodata`, which cannot be executed. -/
theorem section_permissions_fail : ¬ ∀ (T : Tables) (L : Layout) (m t : Mem),
    Returns (fun n => pagingApplyWXorX n T L.symbols true) m () t → Protected T L.symbols t := by
  intro hall
  obtain ⟨t,hrun,h⟩ := pagingApplyWXorX_applied plainImage.toTables unevenLayout.higher unevenLayout.ending true
    fun _ => 0
  have htext := h.text_iff.mp (hall plainImage.toTables unevenLayout _ t hrun).text
  exact absurd htext (by decide)

end MyKernel.Paging
