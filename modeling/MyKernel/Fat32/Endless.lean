import MyKernel.Fat32.Scanners

/-! When the two searches of the root directory end. -/
namespace MyKernel.Fat32
open MyKernel.Computation Disk

variable {g : Geo} {disk : Nat → Nat → UInt8} {s : Fat} {c v i n : Nat} {β : Type}
variable {D : Nat → Dirent} {fn : Dirent → Option β} {want : List UInt8} {found : Option Slot}

/-- The chain of the root directory comes to a number that is not that of a cluster. -/
def RootEnds (s : Fat) : Prop := ∃ k, ¬ Clusters s.geo s.ata.disk s.geo.rootCluster k

/-- There is an end mark on the way, or an entry the callback stops at. -/
def StopsScan (s : Fat) (fn : Dirent → Option β) : Prop :=
  ∃ i, ¬ ((rootEntry s i).mark≠0 ∧ ((rootEntry s i).listed=true → fn (rootEntry s i)=none))

/-- There is an entry of the name on the way, or an end mark with no deleted entry in front of it. -/
def StopsSearch (s : Fat) (want : List UInt8) : Prop :=
  ∃ i, ¬ (¬ Wanted want (rootEntry s i) ∧
    ((rootEntry s i).mark=0 → ∃ d, d < i ∧ (rootEntry s d).mark=0xE5))

def ScanEnds (s : Fat) (fn : Dirent → Option β) : Prop :=
  ∃ r t, Returns (fun n => iterateDir fn n s.geo.rootCluster) s r t

def SearchEnds (s : Fat) (want : List UInt8) : Prop := ∃ r t, Returns (fun n => findSlotInRoot n want) s r t

theorem ends_sectorRead (lba : Nat) : Ends (sectorRead lba) := fun _ => Option.some_ne_none _

theorem ends_sectorWrite (lba : Nat) : Ends (sectorWrite lba) := fun _ => Option.some_ne_none _

theorem ends_fatGet (c : Nat) : Ends (fatGet c) := by
  refine ends_state.bind fun s => (ends_sectorRead _).bind fun b => ?_
  exact Ends.ite (ends_state.bind fun _ => ends_pure _) (ends_pure _)

theorem ends_fatSetLoop (c v n f : Nat) : Ends (fatSetLoop c v n f) := by
  induction n generalizing f with
  | zero => exact ends_pure true
  | succ n ih =>
    refine ends_state.bind fun s => (ends_sectorRead _).bind fun b => ?_
    refine Ends.ite ((ends_update _).bind fun _ => (ends_sectorWrite _).bind fun b' => ?_) (ends_pure false)
    exact Ends.ite (ih (f+1)) (ends_pure false)

theorem ends_fatSet (c v : Nat) : Ends (fatSet c v) := ends_state.bind fun s => ends_fatSetLoop c v s.geo.numFats 0

theorem ends_fatAllocCluster : Ends fatAllocCluster := by
  have hloop : ∀ n c, Ends (fatAllocLoop n c) := by
    intro n
    induction n with
    | zero => exact fun _ => ends_pure 0
    | succ n ih =>
      intro c
      refine (ends_fatGet c).bind fun v => Ends.ite ((ends_fatSet c LAST).bind fun b => ?_) (ih (c+1))
      exact Ends.ite (ends_pure c) (ends_pure 0)
  exact ends_state.bind fun s => (hloop _ 2).bind fun c => fun _ => Option.some_ne_none c

theorem ends_extendDir (last : Nat) : Ends (extendDir last) := by
  refine ends_fatAllocCluster.bind fun nc => Ends.ite (ends_pure _) ((ends_fatSet last nc).bind fun b => ?_)
  refine Ends.ite (ends_state.bind fun s => (ends_update _).bind fun _ => ?_) (ends_pure _)
  exact Ends.bind (fun _ => Option.some_ne_none _) fun b' => Ends.ite (ends_pure _) (ends_pure _)

theorem ends_atChainEnd (last : Nat) (found : Option Slot) : Ends (atChainEnd last found) := by
  cases found with
  | some slot => exact ends_pure _
  | none => exact ends_extendDir last

theorem scanEntries_more_iff : scanEntries D fn n i = .more ↔
    ∀ j, i≤j → j < i+n → (D j).mark≠0 ∧ ((D j).listed=true → fn (D j)=none) := by
  induction n generalizing i with
  | zero => exact iff_of_true rfl fun j hij hj => by omega
  | succ n ih =>
    cases atEntry fn (D i) with
    | ends h0 =>
      rw [scanEntries_end h0]
      refine iff_of_false (by simp) ?_
      intro h
      exact (h i (Nat.le_refl i) (by omega)).1 h0
    | hits h0 hl b hb =>
      rw [scanEntries_stop h0 hl hb]
      refine iff_of_false (by simp) ?_
      intro h
      have hnone := (h i (Nat.le_refl i) (by omega)).2 hl
      rw [hb] at hnone
      cases hnone
    | passes h0 hp =>
      rw [scanEntries_pass h0 hp,ih]
      constructor
      · intro h j hij hj
        by_cases hji : j=i
        · exact hji ▸ ⟨h0,hp⟩
        · exact h j (by omega) (by omega)
      · intro h j hij hj
        exact h j (by omega) (by omega)

theorem slotEntries_more_iff {slotOf : Nat → Slot} : (∃ f, slotEntries want D slotOf n i none = .more f) ↔
    ∀ j, i≤j → j < i+n → ¬ Wanted want (D j) ∧
      ((D j).mark=0 → ∃ d, i≤d ∧ d<j ∧ (D d).mark=0xE5) := by
  have hs : Searched want D slotOf i n none (slotEntries want D slotOf n i none) := slotEntries_searched
  generalize slotEntries want D slotOf n i none=r at hs
  cases hs with
  | existing j hj hw =>
    refine iff_of_false (by simp) ?_
    intro h
    exact (h j hj.1 hj.2).1 hw
  | atEnd j hj h0 hbefore =>
    refine iff_of_false (by simp) ?_
    intro h
    obtain ⟨d,hid,hdj,hd⟩ := (h j hj.1 hj.2).2 h0
    exact (hbefore d hid hdj).1.2 hd
  | deleted d hd h5 hbefore hnone =>
    refine iff_of_true ⟨_,rfl⟩ ?_
    intro j hij hj
    refine ⟨hnone j hij hj,?_⟩
    intro h0
    refine ⟨d,hd.1,?_,h5⟩
    -- an end mark can stand neither in front of the deleted entry nor in its place
    by_contra hle
    rcases Nat.lt_or_eq_of_le (Nat.le_of_not_lt hle) with hlt | rfl
    · exact (hbefore j hij hlt).1 h0
    · rw [h0] at h5
      cases h5
  | full h =>
    refine iff_of_true ⟨_,rfl⟩ ?_
    intro j hij hj
    exact ⟨(h j hij hj).2,fun h0 => absurd h0 (h j hij hj).1.1⟩

section Chain
variable (hspc : 0<g.sectorsPerCluster)
include hspc

theorem scanEntries_chain_more {k : Nat} :
    scanEntries (chainEntry g disk v) fn ((k+1)*entriesPerCluster g) 0 = .more ↔
      scanEntries (chainEntry g disk v) fn (entriesPerCluster g) 0 = .more ∧
        scanEntries (chainEntry g disk (fatOf g disk v)) fn (k*entriesPerCluster g) 0 = .more := by
  rw [scanEntries_chain fn (entriesPerCluster_pos_of_spc hspc)]
  cases scanEntries (chainEntry g disk v) fn (entriesPerCluster g) 0 with
  | more => simp
  | stop => simp
  | hit b => simp

theorem slotEntries_chain_more {k : Nat} :
    (∃ f, slotEntries want (chainEntry g disk v) (chainSlot g disk v) ((k+1)*entriesPerCluster g) 0 found = .more f) ↔
      ∃ f', slotEntries want (chainEntry g disk v) (chainSlot g disk v) (entriesPerCluster g) 0 found = .more f' ∧
        ∃ f, slotEntries want (chainEntry g disk (fatOf g disk v)) (chainSlot g disk (fatOf g disk v))
          (k*entriesPerCluster g) 0 f' = .more f := by
  rw [slotEntries_chain want found (entriesPerCluster_pos_of_spc hspc)]
  cases slotEntries want (chainEntry g disk v) (chainSlot g disk v) (entriesPerCluster g) 0 found with
  | more f => simp
  | existing slot e => simp
  | free slot => simp

theorem iterateDir_ends_iff (h : Reads g disk s) : (∃ n, (iterateDir fn n v s).1≠none) ↔
    ∃ k, ¬ (Clusters g disk v k ∧ scanEntries (chainEntry g disk v) fn (k*entriesPerCluster g) 0 = .more) := by
  constructor
  · rintro ⟨n,hn⟩
    -- as many clusters as there were passes
    refine ⟨n,?_⟩
    induction n generalizing v s with
    | zero => exact absurd rfl hn
    | succ n ih =>
      rintro ⟨hc,hscan⟩
      obtain ⟨hv,hc⟩ := clusters_succ.mp hc
      obtain ⟨hfirst,hrest⟩ := (scanEntries_chain_more hspc).mp hscan
      obtain ⟨t,ht,hpass⟩ := iterateDir_cluster fn h hspc hv
      obtain ⟨u,hget,hu⟩ := fatGet_reads ht v
      rw [hpass,hfirst,afterScan,bind_some hget] at hn
      exact ih hu hn ⟨hc,hrest⟩
  · rintro ⟨k,hk⟩
    induction k generalizing v s with
    | zero => exact absurd ⟨fun q hq => absurd hq (Nat.not_lt_zero q),by rw [Nat.zero_mul]; rfl⟩ hk
    | succ k ih =>
      by_cases hv : 2≤v ∧ v<EOC
      · rw [clusters_succ,scanEntries_chain_more hspc] at hk
        obtain ⟨t,ht,hpass⟩ := iterateDir_cluster fn h hspc hv
        cases hfirst : scanEntries (chainEntry g disk v) fn (entriesPerCluster g) 0 with
        | stop => exact ⟨1,by rw [hpass,hfirst]; exact Option.some_ne_none _⟩
        | hit b => exact ⟨1,by rw [hpass,hfirst]; exact Option.some_ne_none _⟩
        | more =>
          obtain ⟨u,hget,hu⟩ := fatGet_reads ht v
          obtain ⟨n,hn⟩ := ih hu fun hrest => hk ⟨⟨hv,hrest.1⟩,hfirst,hrest.2⟩
          refine ⟨n+1,?_⟩
          rw [hpass,hfirst,afterScan,bind_some hget]
          exact hn
      · exact ⟨1,by rw [iterateDir,if_neg hv]; exact Option.some_ne_none _⟩

theorem findSlotLoop_ends_iff (h : Reads g disk s) : (∃ n, (findSlotLoop want n v found s).1≠none) ↔
    ∃ k, ¬ (Clusters g disk v k ∧ ∃ f, slotEntries want (chainEntry g disk v) (chainSlot g disk v)
      (k*entriesPerCluster g) 0 found = .more f) := by
  constructor
  · rintro ⟨n,hn⟩
    -- the loop looks one number ahead for the end of the chain
    refine ⟨n+1,?_⟩
    induction n generalizing v s found with
    | zero => exact absurd rfl hn
    | succ n ih =>
      rintro ⟨hc,hscan⟩
      obtain ⟨hv,hc⟩ := clusters_succ.mp hc
      obtain ⟨f,hfirst,hrest⟩ := (slotEntries_chain_more hspc).mp hscan
      obtain ⟨t,ht,hpass⟩ := findSlotLoop_cluster want found h hspc hv
      obtain ⟨u,hget,hu⟩ := fatGet_reads ht v
      have hnext := (clusters_succ.mp hc).1.2
      rw [hpass,hfirst,afterSlots,bind_some hget,if_neg (Nat.not_le.mpr hnext)] at hn
      exact ih hu hn ⟨hc,hrest⟩
  · rintro ⟨k,hk⟩
    induction k generalizing v s found with
    | zero => exact absurd ⟨fun q hq => absurd hq (Nat.not_lt_zero q),found,by rw [Nat.zero_mul]; rfl⟩ hk
    | succ k ih =>
      by_cases hv : 2≤v ∧ v<EOC
      · rw [clusters_succ,slotEntries_chain_more hspc] at hk
        obtain ⟨t,ht,hpass⟩ := findSlotLoop_cluster want found h hspc hv
        cases hfirst : slotEntries want (chainEntry g disk v) (chainSlot g disk v) (entriesPerCluster g) 0 found with
        | existing slot e => exact ⟨1,by rw [hpass,hfirst]; exact Option.some_ne_none _⟩
        | free slot => exact ⟨1,by rw [hpass,hfirst]; exact Option.some_ne_none _⟩
        | more f =>
          obtain ⟨u,hget,hu⟩ := fatGet_reads ht v
          obtain ⟨n,hn⟩ := ih hu fun hrest => hk ⟨⟨hv,hrest.1⟩,f,hfirst,hrest.2⟩
          refine ⟨n+1,?_⟩
          rw [hpass,hfirst,afterSlots,bind_some hget]
          split
          · exact ends_atChainEnd v f u
          · exact hn
      · refine ⟨1,?_⟩
        rw [findSlotLoop,if_neg hv]
        exact Option.some_ne_none _

end Chain

theorem exists_not_iff (hpos : 0<n) {C P : Nat → Prop} :
    (∃ k, ¬ (C k ∧ ∀ j, j<k*n → P j)) ↔ (∃ k, ¬ C k) ∨ ∃ j, ¬ P j := by
  constructor
  · rintro ⟨k,hk⟩
    by_cases hc : C k
    · right
      by_contra hall
      exact hk ⟨hc,fun j _ => by_contra fun hj => hall ⟨j,hj⟩⟩
    · exact .inl ⟨k,hc⟩
  · rintro (⟨k,hk⟩ | ⟨j,hj⟩)
    · exact ⟨k,fun h => hk h.1⟩
    · refine ⟨j+1,fun h => hj (h.2 j ?_)⟩
      exact Nat.lt_of_lt_of_le (Nat.lt_succ_self j) (Nat.le_mul_of_pos_right _ hpos)

theorem exists_returns_iff {α : Type} {x : Nat → FatM α} : (∃ r t, Returns x s r t) ↔ ∃ n, (x n s).1≠none := by
  constructor
  · rintro ⟨r,t,n,hn⟩
    exact ⟨n,by rw [hn]; exact Option.some_ne_none r⟩
  · rintro ⟨n,hn⟩
    obtain ⟨r,hr⟩ := Option.ne_none_iff_exists'.mp hn
    exact ⟨r,_,n,Prod.ext hr rfl⟩

section Root
variable (hideal : Ideal s.ata) (hspc : 0<s.geo.sectorsPerCluster)
include hideal hspc

theorem scanEnds_iff : ScanEnds s fn ↔ RootEnds s ∨ StopsScan s fn := by
  rw [ScanEnds,exists_returns_iff,iterateDir_ends_iff hspc ⟨rfl,hideal,rfl⟩]
  simp only [scanEntries_more_iff,Nat.zero_le,true_imp_iff,Nat.zero_add]
  exact exists_not_iff (entriesPerCluster_pos_of_spc hspc)

theorem searchEnds_iff : SearchEnds s want ↔ RootEnds s ∨ StopsSearch s want := by
  have hloop : (∃ n, (findSlotInRoot n want s).1≠none) ↔
      ∃ n, (findSlotLoop want n s.geo.rootCluster none s).1≠none := Iff.rfl
  rw [SearchEnds,exists_returns_iff,hloop,findSlotLoop_ends_iff hspc ⟨rfl,hideal,rfl⟩]
  simp only [slotEntries_more_iff,Nat.zero_le,true_imp_iff,true_and,Nat.zero_add]
  exact exists_not_iff (entriesPerCluster_pos_of_spc hspc)

/-- For every content of the table and of the directory: both searches end, whatever the callback and the name,
if the chain of the root directory does; if it runs in a circle, each ends exactly when an entry stops it. -/
theorem scans_end_iff (fn : Dirent → Option β) (want : List UInt8) :
    ScanEnds s fn ∧ SearchEnds s want ↔ RootEnds s ∨ StopsScan s fn ∧ StopsSearch s want := by
  rw [scanEnds_iff hideal hspc,searchEnds_iff hideal hspc,or_and_left]

end Root

/-- On an empty volume both end. -/
theorem scans_end_empty :
    ScanEnds emptyVolume (findCb [0x41]) ∧ SearchEnds emptyVolume (nameTo83 [0x41]) := by
  apply (scans_end_iff emptyVolume_consistent.ideal (by decide) (findCb [0x41]) (nameTo83 [0x41])).mpr
  refine .inl ⟨2,fun hc => ?_⟩
  have hlast := (hc 1 (by decide)).2
  have hend : EOC≤chainCluster emptyVolume.geo emptyVolume.ata.disk emptyVolume.geo.rootCluster 1 := by
    decide
  omega

/-- A root directory of one cluster that is its own successor, full of entries of one name. -/
def loopDisk (sector offset : Nat) : UInt8 :=
  if sector=1 then (if offset=8 then 2 else 0)
  else if sector=2 then (if offset%32=0 then 0x42 else 0)
  else emptyDisk (bootSector 1 8 1) sector offset

def loopVolume : Fat := (fat32Mount (attachedTo loopDisk)).2

/-- The search for another name never ends. -/
theorem scans_never_end :
    ¬ ∀ (s₀ s : Fat), fat32Mount s₀=(some .ok,s) → Ideal s.ata → ∀ name : List UInt8,
      ScanEnds s (findCb name) ∧ SearchEnds s (nameTo83 name) := by
  intro h
  obtain ⟨s,hm,hpresent,hspc,hroot,hnext,hentries⟩ : ∃ s, fat32Mount (attachedTo loopDisk)=(some .ok,s) ∧
      Ideal s.ata ∧ 0<s.geo.sectorsPerCluster ∧ s.geo.rootCluster=2 ∧ fatOf s.geo s.ata.disk 2=2 ∧
      entriesPerCluster s.geo=16 ∧ ∀ k, k<16 → (direntAt (dataOf s.geo s.ata.disk 2) (32*k)).mark=0x42 ∧
        (direntAt (dataOf s.geo s.ata.disk 2) (32*k)).name≠nameTo83 [0x41] :=
    ⟨loopVolume,eq_of_fst (by decide),⟨by decide,fun _ => rfl⟩,by decide,
      by decide,by decide,by decide,by decide⟩
  have hchain : ∀ k, chainCluster s.geo s.ata.disk s.geo.rootCluster k=2 := by
    intro k
    rw [hroot]
    exact Function.iterate_fixed hnext k
  rcases (scanEnds_iff hpresent hspc).mp (h _ s hm hpresent [0x41]).1 with ⟨k,hk⟩ | ⟨i,hi⟩
  · apply hk
    intro q _
    rw [hchain]
    decide
  · apply hi
    have hat : rootEntry s i=direntAt (dataOf s.geo s.ata.disk 2) (32*(i%16)) := by
      simp only [rootEntry,chainEntry,chainSlot,hchain,hentries.1]
    obtain ⟨hmark,hname⟩ := hentries.2 (i%16) (Nat.mod_lt i (by decide))
    rw [hat]
    refine ⟨by rw [hmark]; decide,fun _ => ?_⟩
    rw [findCb,direntMatch,if_neg]
    simpa using hname

end MyKernel.Fat32
