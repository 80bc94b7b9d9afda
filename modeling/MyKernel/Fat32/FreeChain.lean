import Mathlib.Data.Finset.Prod
import MyKernel.Fat32.Scanners

/-! Freeing a chain. On a circle `fat_free_chain` comes to an entry that is 0. -/
namespace MyKernel.Fat32
open Memory MyKernel.Computation Disk

variable {g : Geo} {s t : Fat} {c d v m n sec j : Nat} {xs : List Nat} {P Q : Nat → Nat → Prop}
variable {disk disk' disk'' : Nat → Nat → UInt8}

/-- The low 28 bits of the words in `P` are cleared, and no other word of the disk has changed. -/
def Cleared (P : Nat → Nat → Prop) (disk disk' : Nat → Nat → UInt8) : Prop :=
  ∀ sec j, j<128 → (P sec j → wordAt (disk' sec) (4*j)=mergeEntry (wordAt (disk sec) (4*j)) 0) ∧
    (¬ P sec j → wordAt (disk' sec) (4*j)=wordAt (disk sec) (4*j))

/-- Where the entries of the clusters are, in every copy of the table. -/
def Places (g : Geo) (xs : List Nat) (sec j : Nat) : Prop :=
  ∃ c∈xs, ∃ f, f<g.numFats ∧ sec=copySector g c f ∧ j=c%128

theorem cleared_nothing (hP : ∀ sec j, ¬ P sec j) : Cleared P disk disk :=
  fun sec j _ => ⟨fun h => absurd h (hP sec j),fun _ => rfl⟩

theorem Cleared.comp {R : Nat → Nat → Prop} (h : Cleared P disk disk') (h' : Cleared Q disk' disk'')
    (hR : ∀ sec j, R sec j ↔ P sec j ∨ Q sec j) : Cleared R disk disk'' := by
  intro sec j hj
  rw [hR]
  by_cases hP : P sec j
  · have hfirst := (h sec j hj).1 hP
    refine ⟨fun _ => ?_,fun hnot => absurd (.inl hP) hnot⟩
    by_cases hQ : Q sec j
    · rw [(h' sec j hj).1 hQ,hfirst]
      unfold mergeEntry
      omega
    · rw [(h' sec j hj).2 hQ,hfirst]
  · have hfirst := (h sec j hj).2 hP
    rw [← hfirst,or_iff_right hP]
    exact h' sec j hj

theorem copySet_cleared (c f : Nat) (s : Fat) :
    Cleared (fun sec j => sec=copySector s.geo c f ∧ j=c%128) s.ata.disk (copySet c 0 f s).ata.disk := by
  intro sec j hj
  simp only [copySet,Ata.store]
  by_cases hsec : sec=copySector s.geo c f
  · rw [hsec,writeFrom_self,wordAt_patched _ _ _ _ _ hj]
    exact ⟨fun h => if_pos h.2,fun h => if_neg fun hjc => h ⟨rfl,hjc⟩⟩
  · rw [writeFrom_of_ne hsec]
    exact ⟨fun h => absurd h.1 hsec,fun _ => rfl⟩

theorem fatSetLoop_cleared (h : Ideal s.ata) (c n f : Nat) :
    ∃ t, fatSetLoop c 0 n f s=(some true,t) ∧ Ideal t.ata ∧ t.geo=s.geo ∧
      Cleared (fun sec j => ∃ e, (f≤e ∧ e<f+n) ∧ sec=copySector s.geo c e ∧ j=c%128) s.ata.disk t.ata.disk := by
  induction n generalizing f s with
  | zero => exact ⟨s,rfl,h,rfl,cleared_nothing fun sec j ⟨e,he,_⟩ => by omega⟩
  | succ n ih =>
    obtain ⟨t,hrun,ht,hgeo,hrest⟩ := ih (s := copySet c 0 f s) ⟨h.1,h.2⟩ (f+1)
    refine ⟨t,(fatSetLoop_ideal h c 0 n f).trans hrun,ht,hgeo,(copySet_cleared c f s).comp hrest fun sec j => ?_⟩
    constructor
    · rintro ⟨e,he,hplace⟩
      by_cases hef : e=f
      · exact .inl (hef ▸ hplace)
      · exact .inr ⟨e,by omega,hplace⟩
    · rintro (hplace | ⟨e,he,hplace⟩)
      · exact ⟨f,by omega,hplace⟩
      · exact ⟨e,by omega,hplace⟩

theorem fatFreeChain_round (h : Ideal s.ata) (hc : 2≤c ∧ c<EOC) :
    ∃ t, Ideal t.ata ∧ t.geo=s.geo ∧ Cleared (Places s.geo [c]) s.ata.disk t.ata.disk ∧
      ∀ n, fatFreeChain (n+1) c s=fatFreeChain n (fatOf s.geo s.ata.disk c) t := by
  obtain ⟨u,hget,hu⟩ := fatGet_reads ⟨rfl,h,rfl⟩ c
  obtain ⟨t,hloop,ht,hgeo,hclear⟩ := fatSetLoop_cleared hu.ideal c u.geo.numFats 0
  have hset : fatSet c 0 u=(some true,t) := by rw [fatSet,state_bind,hloop]
  rw [hu.geo,hu.disk] at hclear
  refine ⟨t,ht,hgeo.trans hu.geo,?_,fun n => ?_⟩
  · refine hclear.comp (cleared_nothing (P := fun _ _ => False) fun _ _ => id) fun sec j => ?_
    simp [Places]
  · rw [fatFreeChain,if_pos hc,bind_some hget,bind_some hset,if_pos rfl]

/-- The words of the first `m` sectors that are not 0 in their low 28 bits. -/
def usedWords (m : Nat) (disk : Nat → Nat → UInt8) : Finset (Nat × Nat) :=
  (Finset.range m ×ˢ Finset.range 128).filter fun p => wordAt (disk p.1) (4*p.2)%0x10000000≠0

theorem mem_usedWords {p : Nat × Nat} : p∈usedWords m disk ↔
    (p.1 < m ∧ p.2<128) ∧ wordAt (disk p.1) (4*p.2)%0x10000000≠0 := by
  simp only [usedWords,Finset.mem_filter,Finset.mem_product,Finset.mem_range]

theorem Cleared.fewer (h : Cleared P disk disk') {p : Nat × Nat} (hp : P p.1 p.2) (hmem : p∈usedWords m disk) :
    (usedWords m disk').card<(usedWords m disk).card := by
  have hsub : usedWords m disk' ⊆ (usedWords m disk).erase p := by
    intro q hq
    obtain ⟨hin,hword⟩ := mem_usedWords.mp hq
    have hkept : ¬ P q.1 q.2 := by
      intro hP
      rw [(h q.1 q.2 hin.2).1 hP] at hword
      unfold mergeEntry at hword
      omega
    rw [(h q.1 q.2 hin.2).2 hkept] at hword
    exact Finset.mem_erase.mpr ⟨fun he => hkept (he ▸ hp),mem_usedWords.mpr ⟨hin,hword⟩⟩
  calc (usedWords m disk').card
     ≤((usedWords m disk).erase p).card := Finset.card_le_card hsub
    _ < (usedWords m disk).card := Finset.card_erase_lt_of_mem hmem

theorem fatOf_word (g : Geo) (disk : Nat → Nat → UInt8) (c : Nat) :
    fatOf g disk c=wordAt (disk (copySector g c 0)) (4*(c%128))%0x10000000 := by
  rw [fatOf,entOffset_eq,← copySector_zero]

theorem fatFreeChain_ends (h : Ideal s.ata) (hcopies : 0<s.geo.numFats) (c : Nat) :
    ∃ n t, fatFreeChain n c s=(some true,t) := by
  obtain ⟨m,hall⟩ : ∃ m, 268435456 ≤ m := ⟨_,Nat.le_refl _⟩
  -- by induction on how many entries are left
  induction hk : (usedWords m s.ata.disk).card using Nat.strong_induction_on generalizing s c with
  | _ k ih =>
    by_cases hc : 2≤c ∧ c<EOC
    · obtain ⟨u,hu,hgeo,hclear,hround⟩ := fatFreeChain_round h hc
      by_cases hnext : fatOf s.geo s.ata.disk c=0
      · refine ⟨2,u,?_⟩
        rw [hround,hnext]
        rfl
      · have hmem : (copySector s.geo c 0,c%128)∈usedWords m s.ata.disk := by
          rw [fatOf_word] at hnext
          exact mem_usedWords.mpr ⟨⟨Nat.lt_of_lt_of_le (u28_lt _) hall,Nat.mod_lt c (by decide)⟩,hnext⟩
        have hless := hclear.fewer ⟨c,List.mem_singleton_self c,0,hcopies,rfl,rfl⟩ hmem
        obtain ⟨n,w,hn⟩ := ih _ (hk ▸ hless) hu (hgeo.symm ▸ hcopies) (fatOf s.geo s.ata.disk c) rfl
        exact ⟨n+1,w,(hround n).trans hn⟩
    · exact ⟨1,s,by rw [fatFreeChain,if_neg hc,pure_eq]⟩

/-- No copy of an entry of these clusters is what the driver takes for the entry of another cluster. -/
def PlacesApart (g : Geo) (xs : List Nat) : Prop :=
  ∀ c∈xs, ∀ d, InVolume g d → d≠c → ¬ Places g [c] (copySector g d 0) (d%128)

/-- A chain of clusters of the volume, without a repetition, up to an end mark. -/
structure Chain (s : Fat) (v : Nat) (xs : List Nat) : Prop where
  linked : Linked (fatOf s.geo s.ata.disk) v xs
  inRange : ∀ c∈xs, InVolume s.geo c ∧ c<EOC
  acyclic : xs.Nodup

structure Freed (g : Geo) (xs : List Nat) (disk disk' : Nat → Nat → UInt8) : Prop where
  entries : ∀ d, InVolume g d → fatOf g disk' d=if d∈xs then 0 else fatOf g disk d
  words : Cleared (Places g xs) disk disk'

theorem Area.placesApart (h : Area g) (hin : ∀ c∈xs, InVolume g c) : PlacesApart g xs := by
  rintro c hc d hd hne ⟨c',hc',f,hf,hsec,hj⟩
  obtain rfl := List.mem_singleton.mp hc'
  have htab := h.table
  have hcin := (hin c' hc).2
  have hdin := hd.2
  rw [fatLba h hdin h.copies,fatLba h hcin hf] at hsec
  obtain ⟨_,hdiv⟩ := copy_entry_inj (by omega) (by omega) hsec
  omega

theorem Cleared.fatOf_kept (h : Cleared P disk disk') (hd : ¬ P (copySector g d 0) (d%128)) :
    fatOf g disk' d=fatOf g disk d := by
  rw [fatOf_word,fatOf_word,(h _ _ (Nat.mod_lt d (by decide))).2 hd]

theorem Cleared.fatOf_zero (h : Cleared P disk disk') (hd : P (copySector g d 0) (d%128)) : fatOf g disk' d=0 := by
  rw [fatOf_word,(h _ _ (Nat.mod_lt d (by decide))).1 hd]
  unfold mergeEntry
  omega

theorem places_cons : Places g (c::xs) sec j ↔ Places g [c] sec j ∨ Places g xs sec j := by
  simp [Places]

theorem Chain.freed (hideal : Ideal s.ata) (h : Chain s v xs) (hapart : PlacesApart s.geo xs) :
    ∃ t, fatFreeChain (xs.length+1) v s=(some true,t) ∧ Cleared (Places s.geo xs) s.ata.disk t.ata.disk := by
  induction xs generalizing v s with
  | nil =>
    refine ⟨s,?_,cleared_nothing fun sec j ⟨c,hc,_⟩ => absurd hc List.not_mem_nil⟩
    rw [fatFreeChain,if_neg h.linked,pure_eq]
  | cons c xs ih =>
    obtain ⟨rfl,hl⟩ := h.linked
    have hv := h.inRange v List.mem_cons_self
    obtain ⟨hnew,hnd⟩ := List.nodup_cons.mp h.acyclic
    obtain ⟨u,hu,hgeo,hclear,hround⟩ := fatFreeChain_round hideal ⟨hv.1.1,hv.2⟩
    -- the rest of the chain is as it was
    have hrest : Chain u (fatOf s.geo s.ata.disk v) xs := by
      refine ⟨?_,fun c hc => hgeo ▸ h.inRange c (List.mem_cons_of_mem v hc),hnd⟩
      refine hl.congr fun d hd => ?_
      have hne : d≠v := fun he => hnew (he ▸ hd)
      rw [hgeo]
      exact hclear.fatOf_kept
        (hapart v List.mem_cons_self d (h.inRange d (List.mem_cons_of_mem v hd)).1 hne)
    obtain ⟨t,hrun,hmore⟩ := ih hu hrest (hgeo ▸ fun c hc => hapart c (List.mem_cons_of_mem v hc))
    rw [hgeo] at hmore
    exact ⟨t,(hround _).trans hrun,hclear.comp hmore fun _ _ => places_cons⟩

theorem Cleared.freed (h : Cleared (Places g xs) disk disk') (hcopies : 1≤g.numFats) (hapart : PlacesApart g xs) :
    Freed g xs disk disk' := by
  refine ⟨fun d hd => ?_,h⟩
  by_cases hmem : d∈xs
  · rw [if_pos hmem]
    exact h.fatOf_zero ⟨d,hmem,0,hcopies,rfl,rfl⟩
  · rw [if_neg hmem]
    refine h.fatOf_kept ?_
    rintro ⟨c,hc,hplace⟩
    exact hapart c hc d hd (fun he => hmem (he ▸ hc)) ⟨c,List.mem_singleton_self c,hplace⟩

/-- For every content of the disk and every start: `fat_free_chain` ends, and a chain whose entries lie apart from
those of the other clusters is freed, and nothing else. -/
theorem free_chain_ends (hideal : Ideal s.ata) (hcopies : 1 ≤ s.geo.numFats) (v : Nat) :
    (∃ n t, fatFreeChain n v s=(some true,t)) ∧ ∀ xs n t, Chain s v xs → PlacesApart s.geo xs →
      fatFreeChain n v s=(some true,t) → Freed s.geo xs s.ata.disk t.ata.disk := by
  refine ⟨fatFreeChain_ends hideal hcopies v,fun xs n t hchain hapart hrun => ?_⟩
  obtain ⟨u,hu,hclear⟩ := hchain.freed hideal hapart
  obtain ⟨_,rfl⟩ := Returns.unique (fun n => mono_fatFreeChain n v) ⟨n,hrun⟩ ⟨_,hu⟩
  exact hclear.freed hcopies hapart

/-- Two copies of a table of one sector, in each of which the entry of cluster 2 is an end mark. -/
def twoTables (clusters : Nat) : Fat where
  mounted := true
  geo := ⟨0,0,2,2,1,1,2,clusters⟩
  ata := ⟨true,true,fun _ => none,0,fun sec o => if sec<2 ∧ 8≤o ∧ o<12 then 0xFF else 0,[]⟩
  sectorBuf := fun _ => 0
  clusterBuf := fun _ => 0

theorem twoTables_chain (hclusters : 1 ≤ m) : Chain (twoTables m) 2 [2] := by
  refine ⟨⟨rfl,?_⟩,?_,List.nodup_singleton 2⟩
  · have hend : EOC≤fatOf (twoTables 0).geo (twoTables 0).ata.disk 2 := by decide +kernel
    exact fun h => Nat.not_lt.mpr hend h.2
  · intro c hc
    obtain rfl := List.mem_singleton.mp hc
    exact ⟨⟨Nat.le_refl 2,Nat.succ_le_succ hclusters⟩,by decide⟩

theorem free_chain_ends_single : ∃ t, fatFreeChain 2 2 (twoTables 100)=(some true,t) ∧
    Freed (twoTables 100).geo [2] (twoTables 100).ata.disk t.ata.disk := by
  obtain ⟨t,ht⟩ : ∃ t, fatFreeChain 2 2 (twoTables 100)=(some true,t) := ⟨_,eq_of_fst (by decide +kernel)⟩
  have harea : Area (twoTables 100).geo := ⟨by decide,by decide,by decide,by decide,by decide⟩
  have hchain : Chain (twoTables 100) 2 [2] := twoTables_chain (by decide)
  exact ⟨t,ht,(free_chain_ends ⟨rfl,fun _ => rfl⟩ (by decide) 2).2 [2] 2 t hchain
    (harea.placesApart fun c hc => (hchain.inRange c hc).1) ht⟩

/-- With 200 clusters the second copy is where the entries from 128 on would be: freeing cluster 2 frees
cluster 130. -/
theorem free_chain_clears_more : ¬ ∀ (s : Fat) (v : Nat), Ideal s.ata → 1 ≤ s.geo.numFats →
    (∃ n t, fatFreeChain n v s=(some true,t)) ∧ ∀ xs n t, Chain s v xs →
      fatFreeChain n v s=(some true,t) → Freed s.geo xs s.ata.disk t.ata.disk := by
  intro h
  obtain ⟨t,ht,hzero⟩ : ∃ t, fatFreeChain 2 2 (twoTables 200)=(some true,t) ∧
      fatOf (twoTables 200).geo t.ata.disk 130=0 := ⟨_,eq_of_fst (by decide +kernel),by decide +kernel⟩
  have hfreed := (h (twoTables 200) 2 ⟨rfl,fun _ => rfl⟩ (by decide)).2 [2] 2 t (twoTables_chain (by decide)) ht
  have hkept := hfreed.entries 130 ⟨by decide,by decide⟩
  rw [hzero] at hkept
  revert hkept
  decide +kernel

end MyKernel.Fat32
