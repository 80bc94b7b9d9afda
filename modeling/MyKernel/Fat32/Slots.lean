import MyKernel.Fat32.Files

/-! The slot an operation works on, and what writing it leaves behind. -/
namespace MyKernel.Fat32
open Chains

/-- All used clusters but those in `X` have an owner. -/
def OwnedBut (X : List Nat) (g : Geo) (V : View) (rc : List Nat) (ch : Nat → List Nat) : Prop :=
  Covers (InVolume g) (fun c => V.fat c≠0 ∧ c∉X)
    (Owner.Present (dirSize g rc) (dirAt g V rc)) (Owner.chain rc ch)

/-- The slot for a name: the slot of its entry, or the first one not in use. -/
structure Target (g : Geo) (V : View) (rc : List Nat) (ch : Nat → List Nat) (key : List UInt8)
    (slot : Slot) (existing : Option Dirent) (i : Nat) : Prop where
  sound : Sound g V rc ch
  slot_eq : slot=slotAt g rc i
  bound : i<dirSize g rc
  before : ∀ k, k < i → (dirAt g V rc k).mark≠0
  only : ∀ j, j≠i → Live (dirSize g rc) (dirAt g V rc) j → (dirAt g V rc j).name≠key
  old : existing=none ∧ ¬ Live (dirSize g rc) (dirAt g V rc) i ∨
    existing=some (dirAt g V rc i) ∧ Live (dirSize g rc) (dirAt g V rc) i ∧
      (dirAt g V rc i).name=key

variable {g : Geo} {V W : View} {i j c last nc : Nat} {rc rc' cs X rest : List Nat}
variable {ch ch' : Nat → List Nat} {key : List UInt8} {slot : Slot} {existing : Option Dirent}

theorem ownedBut_nil : OwnedBut [] g V rc ch ↔ Owned g V rc ch := by
  simp [OwnedBut,Owned]

theorem Vacant.not_live {N : Nat} {D : Nat → Dirent} (h : Vacant N D i) : ¬ Live N D i := by
  intro hl
  cases h.2.1 with
  | inl h0 => exact hl.2.1 i (by omega) h0
  | inr h5 => exact listed_mark hl.2.2 h5

section Grow
variable (ha : Area g) (hs : Sound g V rc ch) (hlast : rc.getLast?=some last)
  (hfree : freeClusters g V=nc::rest) (hfull : Full (dirSize g rc) (dirAt g V rc))

theorem slotAt_append_left (hpos : 0<entriesPerCluster g) (hi : i<dirSize g rc) :
    slotAt g (rc++[nc]) i=slotAt g rc i := by
  have hk : i/entriesPerCluster g<rc.length := (Nat.div_lt_iff_lt_mul hpos).mpr hi
  simp only [slotAt,List.getD_append _ _ _ _ hk]

theorem slotAt_append_right (hpos : 0<entriesPerCluster g) (hi : i<entriesPerCluster g) :
    slotAt g (rc++[nc]) (dirSize g rc+i)=⟨nc,32*i⟩ := by
  have hdiv : (dirSize g rc+i)/entriesPerCluster g=rc.length := by
    rw [dirSize,Nat.add_comm,Nat.add_mul_div_right _ _ hpos,Nat.div_eq_of_lt hi,Nat.zero_add]
  have hmod : (dirSize g rc+i)%entriesPerCluster g=i := by
    rw [dirSize,Nat.add_comm,Nat.add_mul_mod_self_right,Nat.mod_eq_of_lt hi]
  rw [slotAt,hdiv,hmod]
  simp

theorem dirSize_append : dirSize g (rc++[nc])=dirSize g rc+entriesPerCluster g := by
  simp only [dirSize,List.length_append,List.length_singleton,Nat.succ_mul]

include hfree in
theorem free_head : InVolume g nc ∧ V.fat nc=0 :=
  mem_freeClusters.mp (hfree ▸ List.mem_cons_self)

include hs hfree in
theorem free_not_root : nc∉rc := by
  intro hmem
  exact ChainFrom.fat_ne_zero hs.root_path hs.root_in hmem (free_head hfree).2

include ha hs hfree hfull in
theorem extend_grownTo :
    GrownTo (dirSize g rc) (dirSize g (rc++[nc])) (dirAt g V rc)
      (dirAt g (V.extend last nc) (rc++[nc])) where
  le := by
    rw [dirSize_append]
    omega
  full := hfull
  same k hk := by
    have hpos := entriesPerCluster_pos ha
    have hne : (slotAt g rc k).cluster≠nc :=
      fun he => free_not_root hs hfree (he ▸ slotAt_mem hpos hk)
    simp only [dirAt,slotAt_append_left hpos hk,View.extend,setData_data,if_neg hne,
      setFat_data]
  zero k hk hk' := by
    have hpos := entriesPerCluster_pos ha
    rw [dirSize_append] at hk'
    obtain ⟨i,rfl⟩ : ∃ i, k=dirSize g rc+i := ⟨k - dirSize g rc,by omega⟩
    rw [dirAt,slotAt_append_right hpos (by omega),mark_direntAt]
    simp [View.extend,setData_data]

include ha hs hlast hfree in
theorem extend_rootLinked : RootLinked g V.fat (V.extend last nc).fat rc last nc where
  ends := hlast
  inVolume := (free_head hfree).1
  free := (free_head hfree).2
  link := by
    refine ⟨?_,(free_head hfree).1.lt_eoc ha⟩
    simp [View.extend]
  mark := by
    have hne : nc≠last :=
      fun he => free_not_root hs hfree (he ▸ List.mem_of_getLast? hlast)
    simp [View.extend,hne,LAST,EOC]
  same c hcl hcn := by simp [View.extend,hcl,hcn]

include ha hs hlast hfree hfull

omit ha hfull in
theorem freeClusters_extend : freeClusters g (V.extend last nc)=rest := by
  have hmem := List.mem_of_getLast? hlast
  have hne : last≠nc := fun he => free_not_root hs hfree (he ▸ hmem)
  have hused : (V.setFat nc LAST).fat last≠0 := by
    rw [setFat_fat,if_neg hne]
    exact ChainFrom.fat_ne_zero hs.root_path hs.root_in hmem
  have hnc := (free_head hfree).1.1
  have hlast0 : LAST≠0 := by decide
  rw [← freeClusters_setFat_head hfree hlast0,
    ← freeClusters_setFat_used hused (by omega : nc≠0)]
  rfl

theorem sound_extend : Sound g (V.extend last nc) (rc++[nc]) ch :=
  hs.grow (extend_grownTo ha hs hfree hfull) (extend_rootLinked ha hs hlast hfree)

theorem ownedBut_extend (h : OwnedBut X g V rc ch) : OwnedBut X g (V.extend last nc) (rc++[nc]) ch := by
  refine (extend_grownTo ha hs hfree hfull).covers ?_ h
  intro c hc hcn huse
  have hcl : c≠last := fun he => hc (he ▸ List.mem_of_getLast? hlast)
  rw [(extend_rootLinked ha hs hlast hfree).same c hcl hcn] at huse
  exact huse

omit hlast in
theorem sized_extend (h : Sized g V rc ch) : Sized g (V.extend last nc) (rc++[nc]) ch := by
  have hg : GrownTo _ _ _ (dirAt g (V.extend last nc) _) := extend_grownTo ha hs hfree hfull
  intro i hi hdir
  have hi' := hg.live_iff.mp hi
  rw [hg.same i hi'.1] at hdir ⊢
  exact h i hi' hdir

theorem filesOf_extend : filesOf g (V.extend last nc) (rc++[nc]) ch key=filesOf g V rc ch key := by
  have hg : GrownTo _ _ _ (dirAt g (V.extend last nc) _) := extend_grownTo ha hs hfree hfull
  apply filesOf_congr (sound_extend ha hs hlast hfree hfull)
  · intro i
    constructor
    · rintro ⟨hi,hname⟩
      exact ⟨hg.live_iff.mpr hi,(hg.same i hi.1).symm ▸ hname⟩
    · rintro ⟨hi,hname⟩
      have hi' := hg.live_iff.mp hi
      exact ⟨hi',hg.same i hi'.1 ▸ hname⟩
  · intro i hi _
    apply nodeOf_congr (hg.same i hi.1)
    apply chainBytes_congr
    intro c hc k _
    have hcn : c≠nc := by
      intro he
      exact ChainFrom.fat_ne_zero (hs.path hi) (hs.inVolume hi) hc (he ▸ (free_head hfree).2)
    simp [View.extend,setData_data,hcn]

end Grow

/-- What the search has done to the volume: nothing, or the directory has grown. -/
inductive SearchedTo (g : Geo) (V : View) (rc : List Nat) (ch : Nat → List Nat) :
    View → List Nat → Prop where
  | same : SearchedTo g V rc ch V rc
  | grown (last nc : Nat) (rest : List Nat) (hlast : rc.getLast?=some last)
      (hfree : freeClusters g V=nc::rest) (hfull : Full (dirSize g rc) (dirAt g V rc)) :
      SearchedTo g V rc ch (V.extend last nc) (rc++[nc])

theorem SlotOutcome.target (ha : Area g) (hs : Sound g V rc ch)
    (ho : SlotOutcome g V rc key (.found slot existing) W rc') :
    SearchedTo g V rc ch W rc' ∧ ∃ i, Target g W rc' ch key slot existing i := by
  cases ho with
  | existing i hi hname =>
    refine ⟨.same,i,hs,rfl,hi.1,fun k hk => hi.2.1 k (by omega),?_,.inr ⟨rfl,hi,hname⟩⟩
    intro j hji hj hjname
    exact hji (hs.names j i hj hi (hjname.trans hname.symm))
  | vacant i hi habs =>
    exact ⟨.same,i,hs,rfl,hi.1,hi.2.2,fun j _ hj => habs j hj,.inl ⟨rfl,hi.not_live⟩⟩
  | grown last nc rest hlast hfree hfull habs =>
    have hpos := entriesPerCluster_pos ha
    have hg : GrownTo _ _ _ (dirAt g (V.extend last nc) _) := extend_grownTo ha hs hfree hfull
    have hslot : slotAt g (rc++[nc]) (dirSize g rc+0)=⟨nc,32*0⟩ := slotAt_append_right hpos hpos
    have hvac := hg.vacant (by rw [dirSize_append]; omega)
    refine ⟨.grown last nc rest hlast hfree hfull,dirSize g rc,
      sound_extend ha hs hlast hfree hfull,hslot.symm,hvac.1,hvac.2.2,?_,
      .inl ⟨rfl,hvac.not_live⟩⟩
    intro j _ hj
    have hj' := hg.live_iff.mp hj
    rw [hg.same j hj'.1]
    exact habs j hj'

section Search
variable (ha : Area g) (hs : Sound g V rc ch) (hw : SearchedTo g V rc ch W rc')
include ha hs hw

theorem SearchedTo.ownedBut (h : OwnedBut X g V rc ch) : OwnedBut X g W rc' ch := by
  cases hw with
  | same => exact h
  | grown last nc rest hlast hfree hfull => exact ownedBut_extend ha hs hlast hfree hfull h

theorem SearchedTo.sized (h : Sized g V rc ch) : Sized g W rc' ch := by
  cases hw with
  | same => exact h
  | grown last nc rest hlast hfree hfull => exact sized_extend ha hs hfree hfull h

theorem SearchedTo.files : filesOf g W rc' ch key=filesOf g V rc ch key := by
  cases hw with
  | same => rfl
  | grown last nc rest hlast hfree hfull => exact filesOf_extend ha hs hlast hfree hfull

end Search

/-- `W` is `V` with slot `i` and the chain it owns changed. -/
structure PutStep (g : Geo) (V W : View) (rc : List Nat) (ch ch' : Nat → List Nat)
    (key : List UInt8) (i : Nat) : Prop where
  put : PutAt (dirSize g rc) (dirAt g V rc) (dirAt g W rc) i
  others : OthersKept (dirSize g rc) (dirAt g V rc) rc ch i V.fat W.fat
  bytes : ∀ j, j≠i → Live (dirSize g rc) (dirAt g V rc) j → ∀ c∈ch j, W.data c=V.data c
  chains : ∀ j, j≠i → ch' j=ch j
  fits : (dirAt g W rc i).listed=true → (dirAt g W rc i).name=key ∧
    Fits g W.fat (dirSize g rc) (dirAt g V rc) rc ch i (dirAt g W rc i) (ch' i)

variable (ht : Target g V rc ch key slot existing i) (hp : PutStep g V W rc ch ch' key i)
include ht hp

theorem PutStep.sound : Sound g W rc ch' :=
  ht.sound.put hp.put hp.others hp.chains fun hl => (hp.fits hl).2

theorem PutStep.files_of_ne {key' : List UInt8} (hne : key'≠key) :
    filesOf g W rc ch' key'=filesOf g V rc ch key' := by
  have htail := ht.sound.tail
  have hother : ∀ j, Live (dirSize g rc) (dirAt g V rc) j → (dirAt g V rc j).name=key' → j≠i := by
    intro j hj hname he
    subst he
    cases ht.old with
    | inl hold => exact hold.2 hj
    | inr hold => exact hne (hname.symm.trans hold.2.2)
  apply filesOf_congr (hp.sound ht)
  · intro j
    constructor
    · rintro ⟨hj,hname⟩
      have hji := hother j hj hname
      exact ⟨(hp.put.live_iff htail hji).mpr hj,(hp.put.same j hj.1 hji).symm ▸ hname⟩
    · rintro ⟨hj,hname⟩
      have hji : j≠i := by
        intro he
        subst he
        exact hne (hname.symm.trans (hp.fits hj.2.2).1)
      exact ⟨(hp.put.live_iff htail hji).mp hj,hp.put.same j hj.1 hji ▸ hname⟩
  · intro j hj hname
    have hji := hother j hj hname
    rw [hp.chains j hji]
    apply nodeOf_congr (hp.put.same j hj.1 hji)
    apply chainBytes_congr
    intro c hc k _
    rw [hp.bytes j hji hj c hc]

theorem PutStep.files_self (hl : (dirAt g W rc i).listed=true) :
    filesOf g W rc ch' key=some (nodeOf g W (dirAt g W rc i) (ch' i)) :=
  filesOf_eq (hp.sound ht) (hp.put.live_self.mpr hl) (hp.fits hl).1

theorem PutStep.files_deleted (hl : (dirAt g W rc i).listed≠true) : filesOf g W rc ch' key=none := by
  apply filesOf_eq_none
  intro j hj
  have hji : j≠i := by
    intro he
    subst he
    exact hl hj.2.2
  rw [hp.put.same j hj.1 hji]
  exact ht.only j hji ((hp.put.live_iff ht.sound.tail hji).mp hj)

theorem PutStep.owned (h : OwnedBut X g V rc ch)
    (hused : ∀ c, InVolume g c → W.fat c≠0 → (dirAt g W rc i).listed=true ∧ c∈ch' i ∨
      (V.fat c≠0 ∧ c∉X) ∧ (Live (dirSize g rc) (dirAt g V rc) i → c∉ch i)) : Owned g W rc ch' :=
  hp.put.covers ht.sound.tail h hp.chains hused

theorem PutStep.sized (h : Sized g V rc ch)
    (hsize : (dirAt g W rc i).listed=true → (dirAt g W rc i).isDir=false →
      (ch' i).length=clustersFor g.clusterBytes (dirAt g W rc i).fileSize) : Sized g W rc ch' := by
  intro j hj hdir
  by_cases hji : j=i
  · subst hji
    exact hsize hj.2.2 hdir
  · rw [hp.put.same j hj.1 hji] at hdir ⊢
    rw [hp.chains j hji]
    exact h j ((hp.put.live_iff ht.sound.tail hji).mp hj) hdir

end MyKernel.Fat32
