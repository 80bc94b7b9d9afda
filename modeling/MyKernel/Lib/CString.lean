import Mathlib.Data.List.Basic
import Mathlib.Data.List.GetD

/-! NUL-terminated strings. An argument is the list of its bytes; a buffer is a function. -/
namespace MyKernel.CString

structure CStr where
  bytes : List UInt8
  nul_free : 0∉bytes

def ascii (text : String) : List UInt8 := text.toList.map fun c => c.toNat.toUInt8

variable {buf : Nat → UInt8} {l l' : List UInt8} {n : Nat}

def setByte (buf : Nat → UInt8) (i : Nat) (v : UInt8) : Nat → UInt8 :=
  fun j => if j=i then v else buf j

def IsCString (buf : Nat → UInt8) (l : List UInt8) : Prop :=
  0∉l ∧ buf l.length=0 ∧ ∀ i, i<l.length → l[i]?=some (buf i)

def readString (n : Nat) (buf : Nat → UInt8) : List UInt8 :=
  ((List.range n).map buf).takeWhile (fun c => c != 0)

theorem isCString_nil : IsCString buf [] ↔ buf 0=0 := by
  simp [IsCString]

theorem isCString_cons {c : UInt8} : IsCString buf (c::l) ↔ c≠0 ∧ buf 0=c ∧ IsCString (fun i => buf (i+1)) l := by
  constructor
  · rintro ⟨h0,hend,hget⟩
    simp only [List.mem_cons,not_or] at h0
    refine ⟨fun h => h0.1 h.symm,?_,h0.2,hend,?_⟩
    · simpa using (hget 0 (by simp)).symm
    · intro i hi
      simpa using hget (i+1) (by simpa using hi)
  · rintro ⟨hc,h0,hn,hend,hget⟩
    refine ⟨?_,hend,?_⟩
    · simp only [List.mem_cons,not_or]
      exact ⟨fun h => hc h.symm,hn⟩
    · intro i hi
      cases i with
      | zero => simp [h0]
      | succ i => simpa using hget i (by simpa using hi)

theorem IsCString.unique (h : IsCString buf l) (h' : IsCString buf l') : l=l' := by
  induction l generalizing buf l' with
  | nil =>
    cases l' with
    | nil => rfl
    | cons c l' =>
      obtain ⟨hc,h0,_⟩ := isCString_cons.mp h'
      exact absurd (h0.symm.trans (isCString_nil.mp h)) hc
  | cons c l ih =>
    obtain ⟨hc,h0,ht⟩ := isCString_cons.mp h
    cases l' with
    | nil => exact absurd (h0.symm.trans (isCString_nil.mp h')) hc
    | cons d l' =>
      obtain ⟨_,h0',ht'⟩ := isCString_cons.mp h'
      rw [← h0,← h0',ih ht ht']

theorem isCString_iff : IsCString buf l ↔ 0∉l ∧ ∀ i, i≤l.length → buf i=l.getD i 0 := by
  constructor
  · rintro ⟨hfree,hend,hget⟩
    refine ⟨hfree,?_⟩
    intro i hi
    by_cases hlt : i<l.length
    · rw [List.getD_eq_getElem?_getD,hget i hlt,Option.getD_some]
    · rw [List.getD_eq_default _ _ (by omega),Nat.le_antisymm hi (by omega),hend]
  · rintro ⟨hfree,hget⟩
    refine ⟨hfree,?_,?_⟩
    · rw [hget _ (Nat.le_refl _),List.getD_eq_default _ _ (Nat.le_refl _)]
    · intro i hi
      rw [hget i (by omega),List.getD_eq_getElem _ _ hi,List.getElem?_eq_getElem hi]

theorem readString_succ (n : Nat) (buf : Nat → UInt8) :
    readString (n+1) buf=if buf 0=0 then [] else buf 0::readString n (fun i => buf (i+1)) := by
  simp only [readString,List.range_succ_eq_map,List.map_cons,List.map_map,List.takeWhile_cons]
  by_cases h : buf 0=0
  · simp [h]
  · simp [h,Function.comp_def]

theorem isCString_readString (h : ∃ k, k<n ∧ buf k=0) : IsCString buf (readString n buf) := by
  induction n generalizing buf with
  | zero =>
    obtain ⟨k,hk,_⟩ := h
    omega
  | succ n ih =>
    rw [readString_succ]
    by_cases h0 : buf 0=0
    · simpa [h0] using isCString_nil.mpr h0
    · obtain ⟨k,hk,hz⟩ := h
      cases k with
      | zero => exact absurd hz h0
      | succ k =>
        rw [if_neg h0,isCString_cons]
        exact ⟨h0,rfl,ih ⟨k,by omega,hz⟩⟩

theorem readString_eq (h : IsCString buf l) (hl : l.length<n) : readString n buf=l :=
  (isCString_readString ⟨l.length,hl,h.2.1⟩).unique h

def streq (a : Nat → UInt8) : List UInt8 → Bool
  | [] => a 0 == 0
  | c::cs =>
    if a 0=0 then a 0 == c
    else if a 0≠c then false
    else streq (fun i => a (i+1)) cs

theorem streq_iff (h : IsCString buf l) (hl : 0∉l') : streq buf l'=true ↔ l=l' := by
  induction l' generalizing buf l with
  | nil =>
    simp only [streq,beq_iff_eq]
    constructor
    · exact fun h0 => h.unique (isCString_nil.mpr h0)
    · rintro rfl
      exact isCString_nil.mp h
  | cons c cs ih =>
    simp only [List.mem_cons,not_or] at hl
    rw [streq]
    by_cases h0 : buf 0=0
    · have hnil : l=[] := h.unique (isCString_nil.mpr h0)
      simp [h0,hnil,hl.1]
    · rw [if_neg h0]
      cases l with
      | nil => exact absurd (isCString_nil.mp h) h0
      | cons d ds =>
        obtain ⟨_,hd,ht⟩ := isCString_cons.mp h
        by_cases hdc : d=c
        · simp [hd,hdc,ih ht hl.2]
        · simp [hd,hdc]

/-- The copy stops at the end of the source or one byte before that of the destination. -/
def copyTruncate (dstSize : Nat) : Nat → List UInt8 → (Nat → UInt8) → Nat → UInt8
  | i, [], dst => setByte dst i 0
  | i, c::cs, dst =>
    if i<dstSize - 1 then copyTruncate dstSize (i+1) cs (setByte dst i c)
    else setByte dst i 0

def strcpyTruncate (dst : Nat → UInt8) (src : List UInt8) (dstSize : Nat) : Nat → UInt8 :=
  copyTruncate dstSize 0 src dst

theorem copyTruncate_before {dstSize i j : Nat} (src : List UInt8) (dst : Nat → UInt8)
    (h : j < i) : copyTruncate dstSize i src dst j=dst j := by
  induction src generalizing i dst with
  | nil => simp [copyTruncate,setByte,Nat.ne_of_lt h]
  | cons c cs ih =>
    rw [copyTruncate]
    split
    · rw [ih (setByte dst i c) (by omega)]
      simp [setByte,Nat.ne_of_lt h]
    · simp [setByte,Nat.ne_of_lt h]

theorem copyTruncate_take {dstSize i : Nat} (src : List UInt8) (dst : Nat → UInt8) (hs : 0∉src) (hi : i<dstSize) :
    IsCString (fun j => copyTruncate dstSize i src dst (i+j)) (src.take (dstSize-1-i)) := by
  induction src generalizing i dst with
  | nil => simp [isCString_nil,copyTruncate,setByte]
  | cons c cs ih =>
    simp only [List.mem_cons,not_or] at hs
    by_cases hroom : i<dstSize-1
    · rw [show dstSize-1-i=dstSize-1-(i+1)+1 by omega,List.take_succ_cons,isCString_cons]
      simp only [copyTruncate,if_pos hroom]
      refine ⟨fun h => hs.1 h.symm,?_,?_⟩
      · rw [copyTruncate_before cs (setByte dst i c) (by omega)]
        simp [setByte]
      · have h := ih (i := i+1) (setByte dst i c) hs.2 (by omega)
        have he : ∀ j, i+1+j=i+(j+1) := by omega
        simpa [he] using h
    · rw [show dstSize-1-i=0 by omega,List.take_zero,isCString_nil]
      simp [copyTruncate,if_neg hroom,setByte]

theorem strcpyTruncate_take (dst : Nat → UInt8) {src : List UInt8} {dstSize : Nat} (hs : 0∉src)
    (h : 0<dstSize) : IsCString (strcpyTruncate dst src dstSize) (src.take (dstSize-1)) := by
  simpa [strcpyTruncate] using copyTruncate_take (i := 0) src dst hs h

theorem strcpyTruncate_isCString (dst : Nat → UInt8) {src : List UInt8} {dstSize : Nat}
    (hs : 0∉src) (hl : src.length<dstSize) : IsCString (strcpyTruncate dst src dstSize) src := by
  have h := strcpyTruncate_take dst hs (show 0<dstSize by omega)
  rwa [List.take_of_length_le (by omega)] at h

end MyKernel.CString
