import Mathlib.Data.Nat.Find
import Mathlib.Logic.Function.Iterate
import MyKernel.Fat32.Volume

/-! The two searches for a name in the root directory, whatever the disk holds. -/
namespace MyKernel.Fat32
open Memory MyKernel.Computation Disk

variable {g : Geo} {disk : Nat → Nat → UInt8} {s : Fat} {c v i j k n fuel : Nat} {β : Type}
variable {D : Nat → Dirent} {name want : List UInt8} {found : Option Slot} {slot : Slot} {e : Dirent}

structure Reads (g : Geo) (disk : Nat → Nat → UInt8) (s : Fat) : Prop where
  geo : s.geo=g
  ideal : Ideal s.ata
  disk : s.ata.disk=disk

theorem readCluster_reads (h : Reads g disk s) (hspc : 0<g.sectorsPerCluster) (c : Nat) :
    ∃ t, readCluster c s=(some true,t) ∧ Reads g disk t ∧
      ∀ i, i<g.clusterBytes → t.clusterBuf i=dataOf g disk c i := by
  have hspc' : 0<s.geo.sectorsPerCluster := h.geo ▸ hspc
  refine ⟨_,readCluster_ideal h.ideal hspc' c,⟨h.geo,h.ideal,h.disk⟩,?_⟩
  intro i hi
  rw [← h.geo,← h.disk]
  simp only [readInto,dataOf]
  rw [if_pos (by rw [h.geo]; exact hi)]

theorem fatGet_reads (h : Reads g disk s) (c : Nat) : ∃ t, fatGet c s=(some (fatOf g disk c),t) ∧ Reads g disk t := by
  have hget := fatGet_ideal h.ideal c
  rw [h.geo,h.disk] at hget
  exact ⟨_,hget,rfl,h.ideal,h.disk⟩

def chainCluster (g : Geo) (disk : Nat → Nat → UInt8) (v k : Nat) : Nat := (fatOf g disk)^[k] v

def chainSlot (g : Geo) (disk : Nat → Nat → UInt8) (v i : Nat) : Slot :=
  ⟨chainCluster g disk v (i/entriesPerCluster g),32*(i%entriesPerCluster g)⟩

def chainEntry (g : Geo) (disk : Nat → Nat → UInt8) (v i : Nat) : Dirent :=
  direntAt (dataOf g disk (chainSlot g disk v i).cluster) (chainSlot g disk v i).offset

def Clusters (g : Geo) (disk : Nat → Nat → UInt8) (v k : Nat) : Prop :=
  ∀ q, q<k → 2≤chainCluster g disk v q ∧ chainCluster g disk v q<EOC

theorem chainCluster_succ : chainCluster g disk v (k+1)=chainCluster g disk (fatOf g disk v) k :=
  Function.iterate_succ_apply _ _ _

theorem clusters_succ : Clusters g disk v (k+1) ↔ (2≤v ∧ v<EOC) ∧ Clusters g disk (fatOf g disk v) k := by
  constructor
  · intro h
    refine ⟨h 0 (by omega),?_⟩
    intro q hq
    rw [← chainCluster_succ]
    exact h (q+1) (by omega)
  · rintro ⟨hv,h⟩ q hq
    cases q with
    | zero => exact hv
    | succ q =>
      rw [chainCluster_succ]
      exact h q (by omega)

theorem chainSlot_head (h : i<entriesPerCluster g) : chainSlot g disk v i=⟨v,32*i⟩ := by
  rw [chainSlot,Nat.div_eq_of_lt h,Nat.mod_eq_of_lt h]
  rfl

theorem chainSlot_tail (hpos : 0<entriesPerCluster g) :
    chainSlot g disk v (entriesPerCluster g+i)=chainSlot g disk (fatOf g disk v) i := by
  have hdiv : (entriesPerCluster g+i)/entriesPerCluster g=i/entriesPerCluster g+1 := by
    rw [Nat.add_comm,Nat.add_div_right i hpos]
  rw [chainSlot,hdiv,chainCluster_succ,Nat.add_mod_left]
  rfl

theorem chainEntry_tail (hpos : 0<entriesPerCluster g) :
    chainEntry g disk v (entriesPerCluster g+i)=chainEntry g disk (fatOf g disk v) i := by
  rw [chainEntry,chainSlot_tail hpos,chainEntry]

theorem direntAt_chain {buf : Nat → UInt8} (h : ∀ k, k<g.clusterBytes → buf k=dataOf g disk v k)
    (hi : i<entriesPerCluster g) : direntAt buf (32*i)=chainEntry g disk v i := by
  have hb := slot_bound hi
  rw [chainEntry,chainSlot_head hi]
  apply direntAt_congr
  intro k hk
  exact h _ (by omega)

theorem scanEntries_chain (fn : Dirent → Option β) (hpos : 0<entriesPerCluster g) :
    scanEntries (chainEntry g disk v) fn ((k+1)*entriesPerCluster g) 0 =
      match scanEntries (chainEntry g disk v) fn (entriesPerCluster g) 0 with
      | .more => scanEntries (chainEntry g disk (fatOf g disk v)) fn (k*entriesPerCluster g) 0
      | r => r := by
  have hrest : scanEntries (chainEntry g disk v) fn (k*entriesPerCluster g) (0+entriesPerCluster g) =
      scanEntries (chainEntry g disk (fatOf g disk v)) fn (k*entriesPerCluster g) 0 := by
    rw [Nat.zero_add,← Nat.add_zero (entriesPerCluster g),scanEntries_shift]
    apply scanEntries_congr
    intro i _ _
    exact chainEntry_tail hpos
  rw [Nat.succ_mul,Nat.add_comm]
  rcases scanEntries_add (chainEntry g disk v) fn (entriesPerCluster g) (k*entriesPerCluster g) 0 with
    ⟨hmore,hall⟩ | ⟨hend,hall⟩
  · rw [hall,hmore,hrest]
  · rw [hall]
    cases hr : scanEntries (chainEntry g disk v) fn (entriesPerCluster g) 0 with
    | more => exact absurd hr hend
    | stop => rfl
    | hit b => rfl

theorem slotEntries_chain (want : List UInt8) (found : Option Slot) (hpos : 0<entriesPerCluster g) :
    slotEntries want (chainEntry g disk v) (chainSlot g disk v) ((k+1)*entriesPerCluster g) 0 found =
      match slotEntries want (chainEntry g disk v) (chainSlot g disk v) (entriesPerCluster g) 0 found with
      | .more f => slotEntries want (chainEntry g disk (fatOf g disk v)) (chainSlot g disk (fatOf g disk v))
          (k*entriesPerCluster g) 0 f
      | r => r := by
  have hrest : ∀ f, slotEntries want (chainEntry g disk v) (chainSlot g disk v) (k*entriesPerCluster g)
        (0+entriesPerCluster g) f =
      slotEntries want (chainEntry g disk (fatOf g disk v)) (chainSlot g disk (fatOf g disk v))
        (k*entriesPerCluster g) 0 f := by
    intro f
    rw [Nat.zero_add,← Nat.add_zero (entriesPerCluster g),slotEntries_shift]
    apply slotEntries_congr
    · intro i _ _
      exact chainEntry_tail hpos
    · intro i _ _
      exact chainSlot_tail hpos
  rw [Nat.succ_mul,Nat.add_comm]
  rcases slotEntries_add want (chainEntry g disk v) (chainSlot g disk v) (entriesPerCluster g)
    (k*entriesPerCluster g) 0 found with ⟨f,hmore,hall⟩ | ⟨hend,hall⟩
  · rw [hall,hmore,hrest]
  · rw [hall]
    cases hr : slotEntries want (chainEntry g disk v) (chainSlot g disk v) (entriesPerCluster g) 0 found with
    | more f => exact absurd hr (hend f)
    | existing slot e => rfl
    | free slot => rfl

theorem exists_clusters_succ {P : Nat → Prop} (h0 : ¬ P 0) :
    (∃ k, k≤fuel+1 ∧ Clusters g disk v k ∧ P k) ↔
      (2≤v ∧ v<EOC) ∧ ∃ k, k≤fuel ∧ Clusters g disk (fatOf g disk v) k ∧ P (k+1) := by
  constructor
  · rintro ⟨k,hk,hc,hP⟩
    cases k with
    | zero => exact absurd hP h0
    | succ k =>
      obtain ⟨hv,hc⟩ := clusters_succ.mp hc
      exact ⟨hv,k,by omega,hc,hP⟩
  · rintro ⟨hv,k,hk,hc,hP⟩
    exact ⟨k+1,by omega,clusters_succ.mpr ⟨hv,hc⟩,hP⟩

theorem entriesPerCluster_pos_of_spc (hspc : 0<g.sectorsPerCluster) : 0<entriesPerCluster g := by
  unfold entriesPerCluster
  omega

theorem iterateDir_cluster (fn : Dirent → Option β) (h : Reads g disk s) (hspc : 0<g.sectorsPerCluster)
    (hv : 2≤v ∧ v<EOC) : ∃ t, Reads g disk t ∧ ∀ fuel, iterateDir fn (fuel+1) v s =
      afterScan (do let next ← fatGet v; iterateDir fn fuel next)
        (scanEntries (chainEntry g disk v) fn (entriesPerCluster g) 0) t := by
  obtain ⟨t,hread,ht,hbuf⟩ := readCluster_reads h hspc v
  have hscan : scanEntries (fun k => direntAt t.clusterBuf (32*k)) fn (entriesPerCluster g) 0 =
      scanEntries (chainEntry g disk v) fn (entriesPerCluster g) 0 := by
    apply scanEntries_congr
    intro k _ hk
    exact direntAt_chain hbuf (by omega)
  refine ⟨t,ht,fun fuel => ?_⟩
  rw [iterateDir,if_pos hv,bind_some hread,if_pos rfl,state_bind,ht.geo,hscan]

theorem findSlotLoop_cluster (want : List UInt8) (found : Option Slot) (h : Reads g disk s)
    (hspc : 0<g.sectorsPerCluster) (hv : 2≤v ∧ v<EOC) : ∃ t, Reads g disk t ∧ ∀ fuel,
      findSlotLoop want (fuel+1) v found s =
        afterSlots
          (fun found => do
            let next ← fatGet v
            if EOC≤next then atChainEnd v found else findSlotLoop want fuel next found)
          (slotEntries want (chainEntry g disk v) (chainSlot g disk v) (entriesPerCluster g) 0 found) t := by
  obtain ⟨t,hread,ht,hbuf⟩ := readCluster_reads h hspc v
  have hscan : slotEntries want (fun k => direntAt t.clusterBuf (32*k)) (fun k => ⟨v,32*k⟩)
        (entriesPerCluster g) 0 found =
      slotEntries want (chainEntry g disk v) (chainSlot g disk v) (entriesPerCluster g) 0 found := by
    apply slotEntries_congr
    · intro k _ hk
      exact direntAt_chain hbuf (by omega)
    · intro k _ hk
      exact (chainSlot_head (by omega)).symm
  refine ⟨t,ht,fun fuel => ?_⟩
  rw [findSlotLoop,if_pos hv,bind_some hread,if_pos rfl,state_bind,ht.geo,hscan]

theorem iterateDir_chain (fn : Dirent → Option β) {b : β} (h : Reads g disk s) (hspc : 0<g.sectorsPerCluster) :
    (iterateDir fn fuel v s).1=some (.hit b) ↔ ∃ k, k≤fuel ∧ Clusters g disk v k ∧
      scanEntries (chainEntry g disk v) fn (k*entriesPerCluster g) 0 = .hit b := by
  have hpos := entriesPerCluster_pos_of_spc hspc
  induction fuel generalizing v s with
  | zero =>
    refine iff_of_false (by simp [iterateDir]) ?_
    rintro ⟨k,hk,_,hscan⟩
    rw [Nat.le_zero.mp hk,Nat.zero_mul] at hscan
    cases hscan
  | succ fuel ih =>
    rw [exists_clusters_succ (by simp [scanEntries])]
    by_cases hv : 2≤v ∧ v<EOC
    · obtain ⟨t,ht,hpass⟩ := iterateDir_cluster fn h hspc hv
      rw [hpass]
      simp only [hv,true_and,scanEntries_chain fn hpos]
      cases scanEntries (chainEntry g disk v) fn (entriesPerCluster g) 0 with
      | stop => simp [afterScan]
      | hit b' =>
        simp only [afterScan,pure_eq,Option.some_inj,Iter.hit.injEq,Scan.hit.injEq]
        constructor
        · intro hb
          exact ⟨0,Nat.zero_le _,fun q hq => absurd hq (by omega),hb⟩
        · rintro ⟨_,_,_,hb⟩
          exact hb
      | more =>
        obtain ⟨u,hget,hu⟩ := fatGet_reads ht v
        simp only [afterScan]
        rw [bind_some hget]
        exact ih hu
    · rw [iterateDir,if_neg hv]
      refine iff_of_false (by simp) ?_
      rintro ⟨hv',_⟩
      exact hv hv'

theorem atChainEnd_no_entry (last : Nat) (found : Option Slot) (s : Fat) :
    (atChainEnd last found s).1≠some (.found slot (some e)) := by
  cases found with
  | some slot' => simp [atChainEnd]
  | none =>
    have h : Ensures (fun _ => True) (extendDir last) (fun r _ => r ≠ .found slot (some e)) s := by
      rw [extendDir]
      refine Ensures.bind (Q := fun _ _ => True) ⟨trivial,fun _ _ => trivial⟩ ?_
      intro nc t _ _
      split
      · exact .pure trivial (by simp)
      · refine Ensures.bind (Q := fun _ _ => True) ⟨trivial,fun _ _ => trivial⟩ ?_
        intro ok t _ _
        split
        · refine Ensures.bind (Q := fun _ _ => True) ⟨trivial,fun _ _ => trivial⟩ ?_
          intro u t _ _
          refine Ensures.bind (Q := fun _ _ => True) ⟨trivial,fun _ _ => trivial⟩ ?_
          intro _ t _ _
          refine Ensures.bind (Q := fun _ _ => True) ⟨trivial,fun _ _ => trivial⟩ ?_
          intro ok t _ _
          split
          · exact .pure trivial (by simp)
          · exact .pure trivial (by simp)
        · exact .pure trivial (by simp)
    intro hr
    exact h.2 _ hr rfl

theorem findSlotLoop_chain (want : List UInt8) (h : Reads g disk s) (hspc : 0<g.sectorsPerCluster) :
    (findSlotLoop want fuel v found s).1=some (.found slot (some e)) ↔ ∃ k, k≤fuel ∧ Clusters g disk v k ∧
      slotEntries want (chainEntry g disk v) (chainSlot g disk v) (k*entriesPerCluster g) 0 found =
        .existing slot e := by
  have hpos := entriesPerCluster_pos_of_spc hspc
  induction fuel generalizing v s found with
  | zero =>
    refine iff_of_false (by simp [findSlotLoop]) ?_
    rintro ⟨k,hk,_,hscan⟩
    rw [Nat.le_zero.mp hk,Nat.zero_mul] at hscan
    cases hscan
  | succ fuel ih =>
    rw [exists_clusters_succ (by simp [slotEntries])]
    by_cases hv : 2≤v ∧ v<EOC
    · obtain ⟨t,ht,hpass⟩ := findSlotLoop_cluster want found h hspc hv
      rw [hpass]
      simp only [hv,true_and,slotEntries_chain want found hpos]
      cases slotEntries want (chainEntry g disk v) (chainSlot g disk v) (entriesPerCluster g) 0 found with
      | free slot' => simp [afterSlots]
      | existing slot' e' =>
        simp only [afterSlots,pure_eq,Option.some_inj,SlotResult.found.injEq,SlotScan.existing.injEq]
        constructor
        · intro he
          exact ⟨0,Nat.zero_le _,fun q hq => absurd hq (by omega),he⟩
        · rintro ⟨_,_,_,he⟩
          exact he
      | more f =>
        obtain ⟨u,hget,hu⟩ := fatGet_reads ht v
        simp only [afterSlots]
        rw [bind_some hget]
        by_cases hlast : EOC≤fatOf g disk v
        · rw [if_pos hlast]
          refine iff_of_false (atChainEnd_no_entry v f u) ?_
          rintro ⟨k,_,hc,hrest⟩
          cases k with
          | zero =>
            rw [Nat.zero_mul] at hrest
            cases hrest
          | succ k => exact Nat.not_lt.mpr hlast (clusters_succ.mp hc).1.2
        · rw [if_neg hlast]
          exact ih hu
    · rw [findSlotLoop,if_neg hv]
      refine iff_of_false ?_ ?_
      · cases found <;> simp [slotFound]
      · rintro ⟨hv',_⟩
        exact hv hv'

theorem exists_index_succ {P : Nat → Prop} : (∃ j, i≤j ∧ j < i+(n+1) ∧ P j) ↔ P i ∨ ∃ j, i+1≤j ∧ j < i+1+n ∧ P j := by
  constructor
  · rintro ⟨j,hij,hjn,hP⟩
    by_cases he : j=i
    · exact .inl (he ▸ hP)
    · exact .inr ⟨j,by omega,by omega,hP⟩
  · rintro (hP | ⟨j,hij,hjn,hP⟩)
    · exact ⟨i,by omega,by omega,hP⟩
    · exact ⟨j,by omega,by omega,hP⟩

theorem forall_before_succ {P : Nat → Prop} (h : i+1≤j) : (∀ k, i≤k → k<j → P k) ↔ P i ∧ ∀ k, i+1≤k → k<j → P k := by
  constructor
  · intro hall
    exact ⟨hall i (Nat.le_refl i) (by omega),fun k hk hkj => hall k (by omega) hkj⟩
  · rintro ⟨hi,hall⟩ k hk hkj
    by_cases hki : k=i
    · exact hki ▸ hi
    · exact hall k (by omega) hkj

theorem findCb_eq_some {de b : Dirent} : findCb name de=some b ↔ de.name=nameTo83 name ∧ de=b := by
  simp [findCb,direntMatch]

/-- The scan by name gives the first entry of the name, if no end mark comes before it. -/
theorem scanEntries_findCb : scanEntries D (findCb name) n i = .hit e ↔
    ∃ j, i≤j ∧ j < i+n ∧ (Wanted (nameTo83 name) (D j) ∧ D j=e ∧
      ∀ k, i≤k → k<j → (D k).mark≠0 ∧ ¬ Wanted (nameTo83 name) (D k)) := by
  induction n generalizing i with
  | zero =>
    refine iff_of_false (by simp [scanEntries]) ?_
    rintro ⟨j,hij,hjn,_⟩
    omega
  | succ n ih =>
    rw [exists_index_succ]
    cases atEntry (findCb name) (D i) with
    | ends h0 =>
      rw [scanEntries_end h0]
      refine iff_of_false (by simp) ?_
      rintro (⟨hw,_⟩ | ⟨j,hij,_,_,_,hbefore⟩)
      · exact hw.1 h0
      · exact (hbefore i (Nat.le_refl i) (by omega)).1 h0
    | passes h0 h =>
      have hno : ¬ Wanted (nameTo83 name) (D i) := by
        intro hw
        have hsome : findCb name (D i)=some (D i) := findCb_eq_some.mpr ⟨hw.2.2,rfl⟩
        rw [h hw.2.1] at hsome
        cases hsome
      rw [scanEntries_pass h0 h,ih]
      constructor
      · rintro ⟨j,hij,hjn,hw,he,hbefore⟩
        exact .inr ⟨j,hij,hjn,hw,he,(forall_before_succ hij).mpr ⟨⟨h0,hno⟩,hbefore⟩⟩
      · rintro (⟨hw,_⟩ | ⟨j,hij,hjn,hw,he,hbefore⟩)
        · exact absurd hw hno
        · exact ⟨j,hij,hjn,hw,he,((forall_before_succ hij).mp hbefore).2⟩
    | hits h0 hl b h =>
      obtain ⟨hname,hb⟩ := findCb_eq_some.mp h
      have hw : Wanted (nameTo83 name) (D i) := ⟨h0,hl,hname⟩
      rw [scanEntries_stop h0 hl h,Scan.hit.injEq,← hb]
      constructor
      · intro he
        exact .inl ⟨hw,he,fun k hk hki => by omega⟩
      · rintro (⟨_,he,_⟩ | ⟨j,hij,_,_,_,hbefore⟩)
        · exact he
        · exact absurd hw (hbefore i (Nat.le_refl i) (by omega)).2

/-- The search for a slot gives the first entry of the name, if a deleted entry comes before the end mark. -/
theorem slotEntries_existing {slotOf : Nat → Slot} : slotEntries want D slotOf n i found = .existing slot e ↔
    ∃ j, i≤j ∧ j < i+n ∧ (Wanted want (D j) ∧ (slotOf j=slot ∧ D j=e) ∧
      (∀ k, i≤k → k<j → ¬ Wanted want (D k)) ∧
      (found=none → ∀ m, i ≤ m → m<j → (D m).mark=0 → ∃ d, i≤d ∧ d < m ∧ (D d).mark=0xE5)) := by
  induction n generalizing i found with
  | zero =>
    refine iff_of_false (by simp [slotEntries]) ?_
    rintro ⟨j,hij,hjn,_⟩
    omega
  | succ n ih =>
    rw [exists_index_succ,slotEntries]
    by_cases hw : (D i).mark≠0 ∧ (D i).listed=true ∧ (D i).name=want
    · rw [if_pos hw,SlotScan.existing.injEq]
      constructor
      · intro he
        exact .inl ⟨hw,he,fun k hk hki => by omega,fun _ m hm hmi => by omega⟩
      · rintro (⟨_,he,_⟩ | ⟨j,hij,_,_,_,hbefore,_⟩)
        · exact he
        · exact absurd hw (hbefore i (Nat.le_refl i) (by omega))
    rw [if_neg hw]
    by_cases hfree : found=none ∧ ((D i).mark=0 ∨ (D i).mark=0xE5)
    · obtain ⟨rfl,hmark⟩ := hfree
      rw [if_pos ⟨rfl,hmark⟩]
      by_cases h0 : (D i).mark=0
      · rw [if_pos h0]
        refine iff_of_false (by simp) ?_
        rintro (⟨hw',_⟩ | ⟨j,hij,_,_,_,_,hend⟩)
        · exact hw hw'
        · obtain ⟨d,hid,hdi,_⟩ := hend rfl i (Nat.le_refl i) (by omega) h0
          omega
      · have h5 := hmark.resolve_left h0
        rw [if_neg h0,ih]
        constructor
        · rintro ⟨j,hij,hjn,hwj,he,hbefore,_⟩
          refine .inr ⟨j,hij,hjn,hwj,he,(forall_before_succ hij).mpr ⟨hw,hbefore⟩,?_⟩
          intro _ m hm hmj hm0
          have hne : m≠i := fun he => h0 (he ▸ hm0)
          exact ⟨i,Nat.le_refl i,by omega,h5⟩
        · rintro (⟨hw',_⟩ | ⟨j,hij,hjn,hwj,he,hbefore,_⟩)
          · exact absurd hw' hw
          · exact ⟨j,hij,hjn,hwj,he,((forall_before_succ hij).mp hbefore).2,fun h => absurd h (by simp)⟩
    · rw [if_neg hfree,ih]
      have hplain : found=none → (D i).mark≠0 ∧ (D i).mark≠0xE5 := fun hn =>
        ⟨fun h => hfree ⟨hn,.inl h⟩,fun h => hfree ⟨hn,.inr h⟩⟩
      constructor
      · rintro ⟨j,hij,hjn,hwj,he,hbefore,hend⟩
        refine .inr ⟨j,hij,hjn,hwj,he,(forall_before_succ hij).mpr ⟨hw,hbefore⟩,?_⟩
        intro hn m hm hmj hm0
        have hne : m≠i := fun he => (hplain hn).1 (he ▸ hm0)
        obtain ⟨d,hid,hdm,hd⟩ := hend hn m (by omega) hmj hm0
        exact ⟨d,by omega,hdm,hd⟩
      · rintro (⟨hw',_⟩ | ⟨j,hij,hjn,hwj,he,hbefore,hend⟩)
        · exact absurd hw' hw
        · refine ⟨j,hij,hjn,hwj,he,((forall_before_succ hij).mp hbefore).2,?_⟩
          intro hn m hm hmj hm0
          obtain ⟨d,hid,hdm,hd⟩ := hend hn m (by omega) hmj hm0
          have hne : d≠i := fun he => (hplain hn).2 (he ▸ hd)
          exact ⟨d,by omega,hdm,hd⟩

def FindsSlot (s : Fat) (name : List UInt8) (e : Dirent) : Prop :=
  ∃ fuel slot, (findSlotInRoot fuel (nameTo83 name) s).1=some (.found slot (some e))

def FindsFirst (s : Fat) (name : List UInt8) (e : Dirent) : Prop :=
  ∃ fuel, (iterateDir (findCb name) fuel s.geo.rootCluster s).1=some (.hit e)

def rootEntry (s : Fat) (i : Nat) : Dirent := chainEntry s.geo s.ata.disk s.geo.rootCluster i

def InRoot (s : Fat) (i : Nat) : Prop :=
  Clusters s.geo s.ata.disk s.geo.rootCluster (i/entriesPerCluster s.geo+1)

/-- There is a deleted entry before the first end mark and none of the name, but one behind the mark. -/
def StaleEntry (s : Fat) (want : List UInt8) : Prop :=
  ∃ d m j, d < m ∧ m<j ∧ InRoot s j ∧ (rootEntry s d).mark=0xE5 ∧ (rootEntry s m).mark=0 ∧
    (∀ k, k < m → (rootEntry s k).mark≠0 ∧ ¬ Wanted want (rootEntry s k)) ∧ Wanted want (rootEntry s j)

theorem InRoot.mono (h : InRoot s j) (hij : i≤j) : InRoot s i := by
  intro q hq
  have hle := Nat.div_le_div_right (c := entriesPerCluster s.geo) hij
  exact h q (by omega)

theorem exists_clusters_iff (hspc : 0<s.geo.sectorsPerCluster) {P : Nat → Prop} :
    (∃ fuel k, k≤fuel ∧ Clusters s.geo s.ata.disk s.geo.rootCluster k ∧
      ∃ j, 0≤j ∧ j<0+k*entriesPerCluster s.geo ∧ P j) ↔ ∃ j, InRoot s j ∧ P j := by
  have hpos := entriesPerCluster_pos_of_spc hspc
  constructor
  · rintro ⟨_,k,_,hc,j,_,hj,hP⟩
    refine ⟨j,?_,hP⟩
    have hlt : j/entriesPerCluster s.geo<k := (Nat.div_lt_iff_lt_mul hpos).mpr (by omega)
    intro q hq
    exact hc q (by omega)
  · rintro ⟨j,hin,hP⟩
    refine ⟨_,_,Nat.le_refl _,hin,j,Nat.zero_le j,?_,hP⟩
    rw [Nat.zero_add]
    exact (Nat.div_lt_iff_lt_mul hpos).mp (Nat.lt_succ_self _)

theorem findsFirst_iff (hideal : Ideal s.ata) (hspc : 0<s.geo.sectorsPerCluster) :
    FindsFirst s name e ↔ ∃ j, InRoot s j ∧ (Wanted (nameTo83 name) (rootEntry s j) ∧ rootEntry s j=e ∧
      ∀ k, k<j → (rootEntry s k).mark≠0 ∧ ¬ Wanted (nameTo83 name) (rootEntry s k)) := by
  rw [← exists_clusters_iff hspc]
  simp only [FindsFirst,iterateDir_chain (findCb name) ⟨rfl,hideal,rfl⟩ hspc,scanEntries_findCb,
    Nat.zero_le,true_imp_iff]
  rfl

theorem findsSlot_iff (hideal : Ideal s.ata) (hspc : 0<s.geo.sectorsPerCluster) :
    FindsSlot s name e ↔ ∃ j, InRoot s j ∧ (Wanted (nameTo83 name) (rootEntry s j) ∧ rootEntry s j=e ∧
      (∀ k, k<j → ¬ Wanted (nameTo83 name) (rootEntry s k)) ∧
      ∀ m, m<j → (rootEntry s m).mark=0 → ∃ d, d < m ∧ (rootEntry s d).mark=0xE5) := by
  have hloop : ∀ fuel slot, (findSlotInRoot fuel (nameTo83 name) s).1=some (.found slot (some e)) ↔ _ :=
    fun fuel slot => findSlotLoop_chain (nameTo83 name) ⟨rfl,hideal,rfl⟩ hspc
  rw [← exists_clusters_iff hspc]
  simp only [FindsSlot,hloop,slotEntries_existing,Nat.zero_le,true_imp_iff,true_and]
  constructor
  · rintro ⟨fuel,slot,k,hk,hc,j,hj,hw,⟨_,he⟩,hrest⟩
    exact ⟨fuel,k,hk,hc,j,hj,hw,he,hrest⟩
  · rintro ⟨fuel,k,hk,hc,j,hj,hw,he,hrest⟩
    exact ⟨fuel,_,k,hk,hc,j,hj,hw,⟨rfl,he⟩,hrest⟩

theorem exists_first {P : Nat → Prop} (h : P n) : ∃ i, P i ∧ ∀ k, k < i → ¬ P k := by
  classical
  exact ⟨Nat.find ⟨n,h⟩,Nat.find_spec ⟨n,h⟩,fun _ hk => Nat.find_min ⟨n,h⟩ hk⟩

/-- For every content of the drive: the two searches agree on every entry, unless an entry of the name
lies behind the end mark and a deleted one in front of it. -/
theorem scanners_agree_iff (s : Fat) (hideal : Ideal s.ata) (hspc : 0<s.geo.sectorsPerCluster) (name : List UInt8) :
    (∀ e, FindsSlot s name e ↔ FindsFirst s name e) ↔ ¬ StaleEntry s (nameTo83 name) := by
  simp only [findsSlot_iff hideal hspc,findsFirst_iff hideal hspc]
  constructor
  · rintro hagree ⟨d,m,j,hdm,hmj,hin,hd,hm,hbefore,hw⟩
    -- the first entry of the name: it lies behind the mark, and the search for a slot gets there
    obtain ⟨i,hwi,hfirst⟩ := exists_first (P := fun k => Wanted (nameTo83 name) (rootEntry s k)) hw
    have hij : i≤j := Nat.le_of_not_lt fun hlt => hfirst j hlt hw
    have hslot := (hagree (rootEntry s i)).mp ⟨i,hin.mono hij,hwi,rfl,hfirst,fun q hq h0 => ⟨d,?_,hd⟩⟩
    · obtain ⟨q,_,hwq,_,hall⟩ := hslot
      rcases Nat.lt_trichotomy q m with hqm | rfl | hmq
      · exact (hbefore q hqm).2 hwq
      · exact hwq.1 hm
      · exact (hall m hmq).1 hm
    · by_contra hdq
      exact (hbefore q (by omega)).1 h0
  · intro hstale e
    constructor
    · rintro ⟨j,hin,hw,he,hbefore,hend⟩
      refine ⟨j,hin,hw,he,fun k hk => ⟨fun h0 => hstale ?_,hbefore k hk⟩⟩
      obtain ⟨m,hm,hfirst⟩ := exists_first (P := fun k => (rootEntry s k).mark=0) h0
      have hmk : m≤k := Nat.le_of_not_lt fun hlt => hfirst k hlt h0
      have hmj : m<j := by omega
      obtain ⟨d,hdm,hd⟩ := hend m hmj hm
      exact ⟨d,m,j,hdm,hmj,hin,hd,hm,fun q hq => ⟨hfirst q hq,hbefore q (by omega)⟩,hw⟩
    · rintro ⟨j,hin,hw,he,hbefore⟩
      exact ⟨j,hin,hw,he,fun k hk => (hbefore k hk).2,fun m hm h0 => absurd h0 (hbefore m hm).1⟩

/-- Both find nothing on an empty volume. -/
theorem scanners_agree_empty : ¬ StaleEntry emptyVolume (nameTo83 [0x41]) ∧
    ∀ e, FindsSlot emptyVolume [0x41] e ↔ FindsFirst emptyVolume [0x41] e := by
  have hstale : ¬ StaleEntry emptyVolume (nameTo83 [0x41]) := by
    rintro ⟨d,m,j,hdm,_,_,_,_,hbefore,_⟩
    have h0 : (rootEntry emptyVolume 0).mark=0 := by decide
    exact (hbefore 0 (by omega)).1 h0
  exact ⟨hstale,(scanners_agree_iff emptyVolume emptyVolume_consistent.ideal (by decide) [0x41]).mpr hstale⟩

/-- A deleted entry, an end mark, and behind it an entry of the name `A`. -/
def staleEntries : List UInt8 :=
  0xE5::List.replicate 63 0++direntBytes (nameTo83 [0x41]) ATTR_ARCHIVE 3 1

def staleDisk (sector offset : Nat) : UInt8 :=
  if sector=2 then staleEntries.getD offset 0 else emptyDisk (bootSector 1 8 1) sector offset

def staleVolume : Fat := (fat32Mount (attachedTo staleDisk)).2

/-- The search for a slot finds the entry behind the end mark. -/
theorem scanners_disagree :
    ¬ ∀ (s : Fat), Ideal s.ata → 0<s.geo.sectorsPerCluster → ∀ (name : List UInt8) (e : Dirent),
      FindsSlot s name e ↔ FindsFirst s name e := by
  intro h
  have hideal : Ideal staleVolume.ata := ⟨by decide,fun _ => rfl⟩
  have hspc : 0<staleVolume.geo.sectorsPerCluster := by decide
  have hslot : FindsSlot staleVolume [0x41] (rootEntry staleVolume 2) := ⟨1,⟨2,64⟩,by decide +kernel⟩
  obtain ⟨j,_,hw,_,hbefore⟩ := (findsFirst_iff hideal hspc).mp ((h _ hideal hspc _ _).mp hslot)
  have hmark : (rootEntry staleVolume 1).mark=0 := by decide
  have hj : j<2 := Nat.lt_of_not_le fun hle => (hbefore 1 (by omega)).1 hmark
  have hnone : ∀ k, k<2 → (rootEntry staleVolume k).name≠nameTo83 [0x41] := by decide
  exact hnone j hj hw.2.2

end MyKernel.Fat32
