import MyKernel.Fat32.Model

/-! The two scans over a directory. -/
namespace MyKernel.Fat32

def Live (N : Nat) (D : Nat → Dirent) (i : Nat) : Prop :=
  i<N ∧ (∀ j, j < i+1 → (D j).mark≠0) ∧ (D i).listed=true

instance (N : Nat) (D : Nat → Dirent) (i : Nat) : Decidable (Live N D i) :=
  inferInstanceAs (Decidable (_ ∧ _ ∧ _))

/-- After the first end mark there is nothing but end marks. -/
def ZeroTail (N : Nat) (D : Nat → Dirent) : Prop :=
  ∀ i j, i≤j → j<N → (D i).mark=0 → (D j).mark=0

def DistinctNames (N : Nat) (D : Nat → Dirent) : Prop :=
  ∀ i j, Live N D i → Live N D j → (D i).name=(D j).name → i=j

def Absent (N : Nat) (D : Nat → Dirent) (want : List UInt8) : Prop :=
  ∀ i, Live N D i → (D i).name≠want

def Vacant (N : Nat) (D : Nat → Dirent) (i : Nat) : Prop :=
  i<N ∧ ((D i).mark=0 ∨ (D i).mark=0xE5) ∧ ∀ j, j < i → (D j).mark≠0

def Taken (de : Dirent) : Prop := de.mark≠0 ∧ de.mark≠0xE5

def Full (N : Nat) (D : Nat → Dirent) : Prop := ∀ i, i<N → Taken (D i)

def Wanted (want : List UInt8) (de : Dirent) : Prop :=
  de.mark≠0 ∧ de.listed=true ∧ de.name=want

variable {β : Type} {D D' : Nat → Dirent} {fn : Dirent → Option β} {m n N i j : Nat}
variable {want name : List UInt8} {slotOf slotOf' : Nat → Slot} {found : Option Slot}

theorem listed_mark {de : Dirent} (h : de.listed=true) : de.mark≠0xE5 := by
  simp only [Dirent.listed,Bool.and_eq_true,bne_iff_ne,ne_eq] at h
  exact h.1.1

inductive AtEntry (fn : Dirent → Option β) (de : Dirent) : Prop where
  | ends (h0 : de.mark=0)
  | passes (h0 : de.mark≠0) (h : de.listed=true → fn de=none)
  | hits (h0 : de.mark≠0) (hl : de.listed=true) (b : β) (h : fn de=some b)

theorem atEntry (fn : Dirent → Option β) (de : Dirent) : AtEntry fn de := by
  by_cases h0 : de.mark=0
  · exact .ends h0
  · by_cases hl : de.listed=true
    · cases hfn : fn de with
      | none => exact .passes h0 fun _ => hfn
      | some b => exact .hits h0 hl b hfn
    · exact .passes h0 fun h => absurd h hl

theorem scanEntries_end (h0 : (D i).mark=0) : scanEntries D fn (n+1) i = .stop := by
  simp [scanEntries,h0]

theorem scanEntries_pass (h0 : (D i).mark≠0) (h : (D i).listed=true → fn (D i)=none) :
    scanEntries D fn (n+1) i=scanEntries D fn n (i+1) := by
  by_cases hl : (D i).listed=true
  · simp [scanEntries,h0,hl,h hl]
  · simp [scanEntries,h0,hl]

theorem scanEntries_stop {b : β} (h0 : (D i).mark≠0) (hl : (D i).listed=true)
    (h : fn (D i)=some b) : scanEntries D fn (n+1) i = .hit b := by
  simp [scanEntries,h0,hl,h]

theorem scanEntries_congr (h : ∀ k, i≤k → k < i+n → D k=D' k) : scanEntries D fn n i=scanEntries D' fn n i := by
  induction n generalizing i with
  | zero => rfl
  | succ n ih =>
    have hi := h i (by omega) (by omega)
    have hrest := ih (i := i+1) (fun k hk hk' => h k (by omega) (by omega))
    simp only [scanEntries,hi,hrest]

theorem dirIsEmpty_congr (h : ∀ k, i≤k → k < i+n → D k=D' k) : dirIsEmpty D n i=dirIsEmpty D' n i := by
  induction n generalizing i with
  | zero => rfl
  | succ n ih =>
    have hi := h i (by omega) (by omega)
    have hrest := ih (i := i+1) (fun k hk hk' => h k (by omega) (by omega))
    simp only [dirIsEmpty,hi,hrest]

theorem scanEntries_shift : scanEntries D fn n (m+i)=scanEntries (fun k => D (m+k)) fn n i := by
  induction n generalizing i with
  | zero => rfl
  | succ n ih =>
    have hrest := ih (i := i+1)
    rw [← Nat.add_assoc] at hrest
    simp only [scanEntries,hrest]

theorem scanEntries_add (D : Nat → Dirent) (fn : Dirent → Option β) (m n i : Nat) :
    scanEntries D fn m i = .more ∧
      scanEntries D fn (m+n) i=scanEntries D fn n (i+m) ∨
    scanEntries D fn m i ≠ .more ∧ scanEntries D fn (m+n) i=scanEntries D fn m i := by
  induction m generalizing i with
  | zero => simp [scanEntries]
  | succ m ih =>
    have hadd : m+1+n=(m+n)+1 := by omega
    have hpos : i+(m+1)=i+1+m := by omega
    rw [hadd,hpos]
    cases atEntry fn (D i) with
    | ends h0 => simp [scanEntries_end h0]
    | passes h0 h =>
      rw [scanEntries_pass h0 h,scanEntries_pass h0 h]
      exact ih _
    | hits h0 hl b h => simp [scanEntries_stop h0 hl h]

theorem scanEntries_hit {b : β} (h : scanEntries D fn n i = .hit b)
    (hbefore : ∀ k, k < i → (D k).mark≠0) : ∃ j, Live (i+n) D j ∧ fn (D j)=some b := by
  induction n generalizing i with
  | zero => simp [scanEntries] at h
  | succ n ih =>
    have hbefore' : (D i).mark≠0 → ∀ k, k < i+1 → (D k).mark≠0 := by
      intro h0 k hk
      by_cases hki : k=i
      · exact hki ▸ h0
      · exact hbefore k (by omega)
    have hadd : i+(n+1)=i+1+n := by omega
    rw [hadd]
    cases atEntry fn (D i) with
    | ends h0 => simp [scanEntries_end h0] at h
    | passes h0 hp =>
      rw [scanEntries_pass h0 hp] at h
      exact ih h (hbefore' h0)
    | hits h0 hl b' hfn =>
      rw [scanEntries_stop h0 hl hfn,Scan.hit.injEq] at h
      exact ⟨i,⟨by omega,hbefore' h0,hl⟩,h ▸ hfn⟩

theorem scanEntries_miss (h : ∀ b, scanEntries D fn n i ≠ .hit b) (hj : Live (i+n) D j)
    (hij : i≤j) : fn (D j)=none := by
  induction n generalizing i with
  | zero =>
    have := hj.1
    omega
  | succ n ih =>
    have hadd : i+(n+1)=i+1+n := by omega
    rw [hadd] at hj
    cases atEntry fn (D i) with
    | ends h0 => exact absurd h0 (hj.2.1 i (by omega))
    | passes h0 hp =>
      rw [scanEntries_pass h0 hp] at h
      by_cases he : i=j
      · subst he
        exact hp hj.2.2
      · exact ih h hj (by omega)
    | hits h0 hl b hfn => exact absurd (scanEntries_stop h0 hl hfn) (h b)

theorem scan_find (hd : DistinctNames N D) (hi : Live N D i) (hname : (D i).name=nameTo83 name) :
    scanEntries D (findCb name) N 0 = .hit (D i) := by
  have hmatch : findCb name (D i)=some (D i) := by simp [findCb,direntMatch,hname]
  have hmiss : ¬ ∀ b, scanEntries D (findCb name) N 0 ≠ .hit b := by
    intro hno
    have hnone := scanEntries_miss hno (by simpa using hi) (Nat.zero_le i)
    simp [hmatch] at hnone
  simp only [not_forall,not_not] at hmiss
  obtain ⟨de,hscan⟩ := hmiss
  obtain ⟨j,hj,hfn⟩ := scanEntries_hit hscan (by omega)
  rw [Nat.zero_add] at hj
  simp only [findCb,direntMatch,Option.ite_none_right_eq_some,beq_iff_eq,Option.some.injEq] at hfn
  rw [hscan,hd i j hi hj (hname.trans hfn.1.symm),hfn.2]

theorem scan_absent (h : Absent N D (nameTo83 name)) (de : Dirent) : scanEntries D (findCb name) N 0 ≠ .hit de := by
  intro hscan
  obtain ⟨j,hj,hfn⟩ := scanEntries_hit hscan (by omega)
  rw [Nat.zero_add] at hj
  simp only [findCb,direntMatch,Option.ite_none_right_eq_some,beq_iff_eq] at hfn
  exact h j hj hfn.1

/-- What the search over slots `i` to `i+n` gives, by what it had found before. -/
inductive Searched (want : List UInt8) (D : Nat → Dirent) (slotOf : Nat → Slot) (i n : Nat) :
    Option Slot → SlotScan → Prop where
  | existing {found : Option Slot} (j : Nat) (hj : i≤j ∧ j < i+n) (h : Wanted want (D j)) :
      Searched want D slotOf i n found (.existing (slotOf j) (D j))
  | atEnd (j : Nat) (hj : i≤j ∧ j < i+n) (h0 : (D j).mark=0)
      (h : ∀ k, i≤k → k<j → Taken (D k) ∧ ¬ Wanted want (D k)) :
      Searched want D slotOf i n none (.free (slotOf j))
  | deleted (j : Nat) (hj : i≤j ∧ j < i+n) (h5 : (D j).mark=0xE5)
      (hbefore : ∀ k, i≤k → k<j → Taken (D k))
      (h : ∀ k, i≤k → k < i+n → ¬ Wanted want (D k)) :
      Searched want D slotOf i n none (.more (some (slotOf j)))
  | kept (slot : Slot) (h : ∀ k, i≤k → k < i+n → ¬ Wanted want (D k)) :
      Searched want D slotOf i n (some slot) (.more (some slot))
  | full (h : ∀ k, i≤k → k < i+n → Taken (D k) ∧ ¬ Wanted want (D k)) :
      Searched want D slotOf i n none (.more none)

theorem Searched.pass {r : SlotScan} (h : Searched want D slotOf (i+1) n found r)
    (hi : ¬ Wanted want (D i)) (ht : found=none → Taken (D i)) : Searched want D slotOf i (n+1) found r := by
  cases h with
  | existing j hj h => exact .existing j (by omega) h
  | atEnd j hj h0 h =>
    refine .atEnd j (by omega) h0 ?_
    intro k hk hkj
    by_cases hki : k=i
    · exact hki ▸ ⟨ht rfl,hi⟩
    · exact h k (by omega) hkj
  | deleted j hj h5 hbefore h =>
    refine .deleted j (by omega) h5 ?_ ?_
    · intro k hk hkj
      by_cases hki : k=i
      · exact hki ▸ ht rfl
      · exact hbefore k (by omega) hkj
    · intro k hk hkn
      by_cases hki : k=i
      · exact hki ▸ hi
      · exact h k (by omega) (by omega)
  | kept slot h =>
    refine .kept slot ?_
    intro k hk hkn
    by_cases hki : k=i
    · exact hki ▸ hi
    · exact h k (by omega) (by omega)
  | full h =>
    refine .full ?_
    intro k hk hkn
    by_cases hki : k=i
    · exact hki ▸ ⟨ht rfl,hi⟩
    · exact h k (by omega) (by omega)

theorem Searched.delete {r : SlotScan} (h : Searched want D slotOf (i+1) n (some (slotOf i)) r)
    (h5 : (D i).mark=0xE5) (hi : ¬ Wanted want (D i)) : Searched want D slotOf i (n+1) none r := by
  cases h with
  | existing j hj h => exact .existing j (by omega) h
  | kept slot h =>
    refine .deleted i (by omega) h5 (by omega) ?_
    intro k hk hkn
    by_cases hki : k=i
    · exact hki ▸ hi
    · exact h k (by omega) (by omega)

theorem slotEntries_searched : Searched want D slotOf i n found (slotEntries want D slotOf n i found) := by
  induction n generalizing i found with
  | zero =>
    cases found with
    | none => exact .full (by omega)
    | some slot => exact .kept slot (by omega)
  | succ n ih =>
    by_cases hw : (D i).mark≠0 ∧ (D i).listed=true ∧ (D i).name=want
    · have hstep : slotEntries want D slotOf (n+1) i found = .existing (slotOf i) (D i) := by
        rw [slotEntries,if_pos hw]
      rw [hstep]
      exact .existing i (by omega) hw
    · rw [slotEntries,if_neg hw]
      by_cases hfree : found=none ∧ ((D i).mark=0 ∨ (D i).mark=0xE5)
      · obtain ⟨rfl,hmark⟩ := hfree
        rw [if_pos ⟨rfl,hmark⟩]
        by_cases h0 : (D i).mark=0
        · rw [if_pos h0]
          exact .atEnd i (by omega) h0 (by omega)
        · rw [if_neg h0]
          exact ih.delete (hmark.resolve_left h0) hw
      · rw [if_neg hfree]
        refine ih.pass hw ?_
        intro hnone
        constructor
        · exact fun h0 => hfree ⟨hnone,.inl h0⟩
        · exact fun h5 => hfree ⟨hnone,.inr h5⟩

theorem slotEntries_congr (h : ∀ k, i≤k → k < i+n → D k=D' k) (hslot : ∀ k, i≤k → k < i+n → slotOf k=slotOf' k) :
    slotEntries want D slotOf n i found=slotEntries want D' slotOf' n i found := by
  induction n generalizing i found with
  | zero => rfl
  | succ n ih =>
    have hi := h i (by omega) (by omega)
    have hs := hslot i (by omega) (by omega)
    have hrest : ∀ f, slotEntries want D slotOf n (i+1) f=slotEntries want D' slotOf' n (i+1) f :=
      fun f => ih (fun k hk hk' => h k (by omega) (by omega))
        (fun k hk hk' => hslot k (by omega) (by omega))
    simp only [slotEntries,hi,hs,hrest]

theorem slotEntries_shift : slotEntries want D slotOf n (m+i) found =
    slotEntries want (fun k => D (m+k)) (fun k => slotOf (m+k)) n i found := by
  induction n generalizing i found with
  | zero => rfl
  | succ n ih =>
    have hrest : ∀ f, slotEntries want D slotOf n (m+i+1) f =
        slotEntries want (fun k => D (m+k)) (fun k => slotOf (m+k)) n (i+1) f :=
      fun f => by rw [Nat.add_assoc]; exact ih
    simp only [slotEntries,hrest]

theorem slotEntries_add (want : List UInt8) (D : Nat → Dirent) (slotOf : Nat → Slot) (m n i : Nat)
    (found : Option Slot) : (∃ f, slotEntries want D slotOf m i found = .more f ∧
      slotEntries want D slotOf (m+n) i found=slotEntries want D slotOf n (i+m) f) ∨
    (∀ f, slotEntries want D slotOf m i found ≠ .more f) ∧
      slotEntries want D slotOf (m+n) i found=slotEntries want D slotOf m i found := by
  induction m generalizing i found with
  | zero => simp [slotEntries]
  | succ m ih =>
    have hadd : m+1+n=(m+n)+1 := by omega
    have hpos : i+(m+1)=i+1+m := by omega
    rw [hadd,hpos]
    simp only [slotEntries]
    by_cases hw : (D i).mark≠0 ∧ (D i).listed=true ∧ (D i).name=want
    · simp only [if_pos hw]
      simp
    · simp only [if_neg hw]
      by_cases hfree : found=none ∧ ((D i).mark=0 ∨ (D i).mark=0xE5)
      · simp only [if_pos hfree]
        by_cases h0 : (D i).mark=0
        · simp [h0]
        · simp only [if_neg h0]
          exact ih _ _
      · simp only [if_neg hfree]
        exact ih _ _

theorem Wanted.live (h : Wanted want (D j)) (ht : ZeroTail N D) (hj : j<N) : Live N D j := by
  refine ⟨hj,?_,h.2.1⟩
  intro k hk h0
  exact h.1 (ht k j (by omega) hj h0)

theorem Live.wanted (h : Live N D j) (hname : (D j).name=want) : Wanted want (D j) :=
  ⟨h.2.1 j (by omega),h.2.2,hname⟩

inductive Lookup (N : Nat) (D : Nat → Dirent) (want : List UInt8) (slotOf : Nat → Slot) :
    SlotScan → Prop where
  | existing (j : Nat) (hj : Live N D j) (hname : (D j).name=want) :
      Lookup N D want slotOf (.existing (slotOf j) (D j))
  | atEnd (j : Nat) (hj : Vacant N D j) (h : Absent N D want) :
      Lookup N D want slotOf (.free (slotOf j))
  | deleted (j : Nat) (hj : Vacant N D j) (h : Absent N D want) :
      Lookup N D want slotOf (.more (some (slotOf j)))
  | full (hf : Full N D) (h : Absent N D want) : Lookup N D want slotOf (.more none)

theorem slotEntries_lookup (ht : ZeroTail N D) : Lookup N D want slotOf (slotEntries want D slotOf N 0 none) := by
  have h : Searched want D slotOf 0 N none (slotEntries want D slotOf N 0 none) :=
    slotEntries_searched
  generalize slotEntries want D slotOf N 0 none=r at h
  cases h with
  | existing j hj h => exact .existing j (h.live ht (by omega)) h.2.2
  | atEnd j hj h0 h =>
    refine .atEnd j ⟨by omega,.inl h0,fun k hk => (h k (by omega) hk).1.1⟩ ?_
    intro k hk hname
    -- the end mark at `j` leaves no listed entry behind it
    have hkj : k<j := by
      by_contra hge
      exact hk.2.1 j (by omega) h0
    exact (h k (by omega) hkj).2 (hk.wanted hname)
  | deleted j hj h5 hbefore h =>
    refine .deleted j ⟨by omega,.inr h5,fun k hk => (hbefore k (by omega) hk).1⟩ ?_
    intro k hk hname
    have hkN := hk.1
    exact h k (by omega) (by omega) (hk.wanted hname)
  | full h =>
    refine .full (fun k hk => (h k (by omega) (by omega)).1) ?_
    intro k hk hname
    have hkN := hk.1
    exact (h k (by omega) (by omega)).2 (hk.wanted hname)

end MyKernel.Fat32
