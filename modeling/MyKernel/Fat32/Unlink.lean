import MyKernel.Fat32.FreeChain

/-! What `fat32_unlink` does besides removing an entry. -/
namespace MyKernel.Fat32
open Memory MyKernel.Computation Chains Disk

variable {g : Geo} {V : View} {s t : Fat} {c v i j m n fuel : Nat} {rc : List Nat} {ch : Nat → List Nat}
variable {disk : Nat → Nat → UInt8} {name want : List UInt8}

def unlinkFound (fuel : Nat) : SlotResult → FatM FatResult
  | .noSpace => pure .io
  | .io => pure .io
  | .found _ none => pure .notFound
  | .found slot (some de) => unlinkAt fuel slot de

theorem fat32Unlink_found {r : SlotResult} (hm : s.mounted=true) (hne : name≠[])
    (h : findSlotInRoot fuel (nameTo83 name) s=(some r,t)) : fat32Unlink fuel name s=unlinkFound fuel r t := by
  rw [fat32Unlink,state_bind,hm]
  simp only [Bool.not_true,Bool.false_eq_true,if_false,hne]
  rw [bind_some h]
  cases r with
  | noSpace => rfl
  | io => rfl
  | found slot existing =>
    cases existing with
    | none => rfl
    | some de => rfl

theorem fat32Unlink_nil (hm : s.mounted=true) (fuel : Nat) : fat32Unlink fuel [] s=(some .notFound,s) := by
  rw [fat32Unlink,state_bind,hm]
  rfl

/-- `fat32_unlink` reports that the name is not there, and every sector is as it was. -/
def LeavesAlone (s : Fat) (name : List UInt8) : Prop :=
  ∃ t, Returns (fun n => fat32Unlink n name) s .notFound t ∧
    ∀ sector o, o<SECTOR_SIZE → t.ata.disk sector o=s.ata.disk sector o

theorem findSlotInRoot_vacant (h : Sees s g V) (hs : Sound g V rc ch) (hfuel : g.totalClusters<fuel)
    (habs : Absent (dirSize g rc) (dirAt g V rc) want) (hroom : ¬ Full (dirSize g rc) (dirAt g V rc)) :
    ∃ slot t, findSlotInRoot fuel want s=(some (.found slot none),t) ∧ t.ata.disk=s.ata.disk := by
  have hlen := length_le_of_inVolume hs.root_path.nodup hs.root_in
  obtain ⟨last,hlast⟩ : ∃ last, rc.getLast?=some last := by
    cases hrc : rc.getLast? with
    | some last => exact ⟨last,rfl⟩
    | none =>
      have hpath := hs.root_path
      rw [List.getLast?_eq_none_iff] at hrc
      simp [hrc,ChainFrom] at hpath
  obtain ⟨t,hloop,_,hdisk⟩ := findSlotLoop_run want none h hs.root_path hs.root_in hlast
    (Nat.lt_of_le_of_lt hlen hfuel)
  have hlook : Lookup (dirSize g rc) (dirAt g V rc) want (slotAt g rc)
      (slotEntries want (dirAt g V rc) (slotAt g rc) (dirSize g rc) 0 none) := slotEntries_lookup hs.tail
  rw [findSlotInRoot,state_bind,h.geo,hloop]
  generalize slotEntries want (dirAt g V rc) (slotAt g rc) (dirSize g rc) 0 none=r at hlook
  cases hlook with
  | existing i hi hname => exact absurd hname (habs i hi)
  | atEnd i _ _ | deleted i _ _ => exact ⟨_,t,rfl,hdisk⟩
  | full hfull _ => exact absurd hfull hroom

theorem Sees.grown_ne {last nc : Nat} {rest : List Nat} (h : Sees s g V) (h' : Sees t g (V.extend last nc))
    (hs : Sound g V rc ch) (hlast : rc.getLast?=some last) (hfree : freeClusters g V=nc::rest) :
    ¬ ∀ sector o, o<SECTOR_SIZE → t.ata.disk sector o=s.ata.disk sector o := by
  intro hsame
  obtain ⟨hnc,_⟩ := mem_freeClusters.mp (hfree ▸ List.mem_cons_self : nc∈freeClusters g V)
  have hin := hs.root_in last (List.mem_of_getLast? hlast)
  have hend : EOC≤V.fat last := nextOf_eq_none.mp (hs.root_path.last_none hlast)
  have hword : fatOf g t.ata.disk last=fatOf g s.ata.disk last := by
    have hoff := entOffset_le last
    unfold fatOf
    congr 1
    apply wordAt_congr
    intro k hk
    exact hsame _ _ (by unfold SECTOR_SIZE; omega)
  rw [h.fat last hin.2,h'.fat last hin.2] at hword
  have hnew : (V.extend last nc).fat last=nc := by simp [View.extend,View.setFat,View.setData]
  have hlt := hnc.lt_eoc h.area
  omega

section Absent
variable (hm : s.mounted=true) (hideal : Ideal s.ata) (harea : Area s.geo)
  (hc : ConsistentWith s.geo (viewOf s) rc ch)
include hm hideal harea hc

/-- On a consistent volume, for every name without a live entry: `fat32_unlink` says so and leaves the disk
alone exactly when the name is empty or the root directory has a slot that is not in use. -/
theorem unlink_absent_iff
    (habs : Absent (dirSize s.geo rc) (dirAt s.geo (viewOf s) rc) (nameTo83 name)) :
    LeavesAlone s name ↔ name=[] ∨ ¬ Full (dirSize s.geo rc) (dirAt s.geo (viewOf s) rc) := by
  have hsees := sees_viewOf hm hideal harea
  have hs := hc.sound
  by_cases hne : name=[]
  · subst hne
    exact iff_of_true ⟨s,⟨0,fat32Unlink_nil hm 0⟩,fun _ _ _ => rfl⟩ (.inl rfl)
  · rw [or_iff_right hne]
    constructor
    · rintro ⟨t,hret,hsame⟩ hfull
      obtain ⟨fuel,hfuel,hrun⟩ := hret.at_least (mono_fat32Unlink name) s.geo.totalClusters
      obtain ⟨r,u,W,rc',hfind,hu,ho⟩ := hs.findSlot hsees hfuel (nameTo83 name)
      rw [fat32Unlink_found hm hne hfind] at hrun
      cases ho with
      | existing i hi hname => exact habs i hi hname
      | vacant i hi _ =>
        obtain ⟨hz,he5⟩ := hfull i hi.1
        exact hi.2.1.elim hz he5
      | grown last nc rest hlast hfree _ _ =>
        obtain rfl : u=t := by simpa [unlinkFound] using hrun
        exact hsees.grown_ne hu hs hlast hfree hsame
      | noSpace _ _ _ => simp [unlinkFound] at hrun
    · intro hroom
      obtain ⟨slot,t,hfind,hdisk⟩ := findSlotInRoot_vacant hsees hs (Nat.lt_succ_self s.geo.totalClusters)
        habs hroom
      exact ⟨t,⟨s.geo.totalClusters+1,fat32Unlink_found hm hne hfind⟩,fun _ _ _ => by rw [hdisk]⟩

end Absent

theorem unlink_absent_empty : LeavesAlone emptyVolume [0x41] := by
  have ha := emptyVolume_empty
  refine (unlink_absent_iff emptyVolume_consistent.mounted emptyVolume_consistent.ideal emptyVolume_area
    ha.consistentWith fun i hi => absurd hi (ha.not_live i)).mpr (.inr fun hfull => ?_)
  have hpos : 0<dirSize emptyVolume.geo [emptyVolume.geo.rootCluster] := by decide +kernel
  exact (hfull 0 hpos).1 (ha.mark hpos)

/-- A root directory of one cluster with sixteen empty files `A` to `P`. -/
def fullDisk (sector offset : Nat) : UInt8 :=
  if sector=2 then
    (if offset%32=0 then UInt8.ofNat (0x41+offset/32) else if offset%32<12 then 0x20 else 0)
  else emptyDisk (bootSector 1 8 1) sector offset

def fullVolume : Fat := (fat32Mount (attachedTo fullDisk)).2

/-- To look for `Z` takes a cluster for the directory. -/
theorem unlink_absent_grows :
    ¬ ∀ (s : Fat) (rc : List Nat) (ch : Nat → List Nat) (name : List UInt8), s.mounted=true → Ideal s.ata →
      Area s.geo → ConsistentWith s.geo (viewOf s) rc ch →
      Absent (dirSize s.geo rc) (dirAt s.geo (viewOf s) rc) (nameTo83 name) → LeavesAlone s name := by
  intro h
  have hflat : FlatRoot fullVolume.geo (viewOf fullVolume) := by decide +kernel
  have hnames : ∀ k, k<dirSize fullVolume.geo [fullVolume.geo.rootCluster] →
      (dirAt fullVolume.geo (viewOf fullVolume) [fullVolume.geo.rootCluster] k).name≠nameTo83 [0x5A] := by
    decide
  obtain ⟨t,⟨n,hn⟩,hsame⟩ := h fullVolume _ _ [0x5A] (by decide) ⟨by decide,fun _ => rfl⟩
    ⟨by decide,by decide,by decide,by decide,by decide⟩
    hflat.consistentWith fun i hi => hnames i hi.1
  obtain ⟨u,hu,hbyte⟩ : ∃ u, fat32Unlink 9 [0x5A] fullVolume=(some .notFound,u) ∧
      u.ata.disk 1 8≠fullVolume.ata.disk 1 8 := ⟨_,eq_of_fst (by decide +kernel),by decide +kernel⟩
  obtain ⟨_,rfl⟩ := Returns.unique (mono_fat32Unlink [0x5A]) ⟨n,hn⟩ ⟨9,hu⟩
  exact hbyte (hsame 1 8 (by decide))

def dirEntry (s : Fat) (v i : Nat) : Dirent := chainEntry s.geo s.ata.disk v i

def InDir (s : Fat) (v i : Nat) : Prop := Clusters s.geo s.ata.disk v (i/entriesPerCluster s.geo+1)

def Reached (s : Fat) (v i : Nat) : Prop := ∀ j, j ≤ i → (dirEntry s v j).mark≠0

/-- A live entry other than `.` and `..` in front of the first end mark of the directory. -/
def Occupies (s : Fat) (v i : Nat) : Prop :=
  InDir s v i ∧ Reached s v i ∧ (dirEntry s v i).listed=true ∧ (dirEntry s v i).name≠dotName ∧
    (dirEntry s v i).name≠dotdotName

/-- The check before a directory is removed goes on behind the entry. -/
def PassedOver (de : Dirent) : Prop :=
  de.mark=0xE5 ∨ de.attr=ATTR_LFN ∨ de.name.take 2=[0x2E,0x20] ∨ de.name.take 3=[0x2E,0x2E,0x20]

/-- The check finds nothing in the first cluster of the directory. -/
def LooksEmpty (s : Fat) (v : Nat) : Prop :=
  ∀ i, i<entriesPerCluster s.geo → Reached s v i → PassedOver (dirEntry s v i)

/-- A directory that `fat32_unlink` removes has no live entry other than `.` and `..`. -/
def RemovesOnlyEmpty (s : Fat) (name : List UInt8) : Prop :=
  ∀ t, Returns (fun n => fat32Unlink n name) s .ok t → ∀ e, FindsSlot s name e → e.isDir=true →
    ∀ i, ¬ Occupies s e.first i

theorem dirIsEmpty_iff {D : Nat → Dirent} : dirIsEmpty D n i=true ↔
    ∀ j, i≤j → j < i+n → (∀ k, i≤k → k≤j → (D k).mark≠0) → PassedOver (D j) := by
  induction n generalizing i with
  | zero => exact iff_of_true rfl fun j hij hj => absurd hj (by omega)
  | succ n ih =>
    by_cases h0 : (D i).mark=0
    · rw [dirIsEmpty,if_pos h0]
      refine iff_of_true rfl fun j hij _ hmark => ?_
      exact absurd h0 (hmark i (Nat.le_refl i) hij)
    · have hstep : dirIsEmpty D (n+1) i=true ↔ PassedOver (D i) ∧ dirIsEmpty D n (i+1)=true := by
        rw [dirIsEmpty,if_neg h0,PassedOver]
        grind
      rw [hstep,ih]
      constructor
      · rintro ⟨hi,hrest⟩ j hij hj hmark
        by_cases he : j=i
        · exact he ▸ hi
        · exact hrest j (by omega) (by omega) fun k hk => hmark k (by omega)
      · intro h
        refine ⟨h i (Nat.le_refl i) (by omega) fun k hk hki => Nat.le_antisymm hk hki ▸ h0,?_⟩
        intro j hij hj hmark
        refine h j (by omega) (by omega) fun k hk hkj => ?_
        by_cases he : k=i
        · exact he ▸ h0
        · exact hmark k (by omega) hkj

theorem looksEmpty_iff : dirIsEmpty (dirEntry s v) (entriesPerCluster s.geo) 0=true ↔ LooksEmpty s v := by
  simp only [dirIsEmpty_iff,LooksEmpty,Reached,Nat.zero_le,true_imp_iff,Nat.zero_add]

theorem findSlotLoop_existing {found : Option Slot} {slot : Slot} {e : Dirent} (h : Reads g disk s)
    (hspc : 0<g.sectorsPerCluster)
    (hrun : findSlotLoop want fuel v found s=(some (.found slot (some e)),t)) : Reads g disk t := by
  induction fuel generalizing v s found with
  | zero => cases hrun
  | succ fuel ih =>
    by_cases hv : 2≤v ∧ v<EOC
    · obtain ⟨u,hu,hpass⟩ := findSlotLoop_cluster want found h hspc hv
      rw [hpass] at hrun
      cases hr : slotEntries want (chainEntry g disk v) (chainSlot g disk v) (entriesPerCluster g) 0 found with
      | existing slot' e' =>
        rw [hr] at hrun
        cases hrun
        exact hu
      | free slot' =>
        rw [hr] at hrun
        cases hrun
      | more f =>
        obtain ⟨w,hget,hw⟩ := fatGet_reads hu v
        rw [hr,afterSlots,bind_some hget] at hrun
        by_cases hlast : EOC≤fatOf g disk v
        · rw [if_pos hlast] at hrun
          exact absurd (congrArg Prod.fst hrun) (atChainEnd_no_entry v f w)
        · rw [if_neg hlast] at hrun
          exact ih hw hrun
    · rw [findSlotLoop,if_neg hv] at hrun
      cases found <;> cases hrun

theorem putEntry_ideal (h : Reads g disk s) (hspc : 0<g.sectorsPerCluster) (slot : Slot)
    (f : (Nat → UInt8) → Nat → UInt8) : ∃ t, putEntry slot f s=(some .ok,t) ∧ Ideal t.ata ∧ t.geo=g := by
  obtain ⟨t,hread,ht,_⟩ := readCluster_reads h hspc slot.cluster
  have hspc' : 0<t.geo.sectorsPerCluster := ht.geo.symm ▸ hspc
  obtain ⟨u,hwrite,hu,hgeo⟩ : ∃ u, writeCluster slot.cluster { t with clusterBuf := f t.clusterBuf } =
      (some true,u) ∧ Ideal u.ata ∧ u.geo=g := by
    rw [writeCluster,ataWriteSectors_ideal ht.ideal hspc']
    exact ⟨_,rfl,⟨ht.ideal.1,ht.ideal.2⟩,ht.geo⟩
  refine ⟨u,?_,hu,hgeo⟩
  rw [putEntry,bind_some hread,if_pos rfl,setClusterBuf,update_bind,bind_some hwrite,if_pos rfl,pure_eq]

theorem unlinkCheck_reads (h : Reads g disk s) (hspc : 0<g.sectorsPerCluster) (de : Dirent) :
    ∃ r t, unlinkCheck de s=(some r,t) ∧ Reads g disk t ∧ (r = .ok ∨ r = .notEmpty) ∧
      (r = .ok ↔ ¬ (de.isDir=true ∧ 2≤de.first) ∨
        dirIsEmpty (chainEntry g disk de.first) (entriesPerCluster g) 0=true) := by
  by_cases hdir : de.isDir=true ∧ 2≤de.first
  · obtain ⟨t,hread,ht,hbuf⟩ := readCluster_reads h hspc de.first
    have hsame : dirIsEmpty (fun k => direntAt t.clusterBuf (32*k)) (entriesPerCluster t.geo) 0 =
        dirIsEmpty (chainEntry g disk de.first) (entriesPerCluster g) 0 := by
      rw [ht.geo]
      exact dirIsEmpty_congr fun k _ hk => direntAt_chain hbuf (by omega)
    have hrun : unlinkCheck de s=(if dirIsEmpty (fun k => direntAt t.clusterBuf (32*k))
        (entriesPerCluster t.geo) 0 then pure .ok else pure .notEmpty : FatM FatResult) t := by
      rw [unlinkCheck,if_pos hdir,bind_some hread,if_pos rfl,state_bind]
    rw [hrun]
    by_cases hempty : dirIsEmpty (fun k => direntAt t.clusterBuf (32*k)) (entriesPerCluster t.geo) 0=true
    · rw [if_pos hempty]
      exact ⟨.ok,t,rfl,ht,.inl rfl,iff_of_true rfl (.inr (hsame ▸ hempty))⟩
    · rw [if_neg hempty]
      refine ⟨.notEmpty,t,rfl,ht,.inr rfl,iff_of_false (by simp) ?_⟩
      rintro (hnot | hyes)
      · exact hnot hdir
      · exact hempty (hsame.trans hyes)
  · refine ⟨.ok,s,?_,h,.inl rfl,iff_of_true rfl (.inl hdir)⟩
    rw [unlinkCheck,if_neg hdir,pure_eq]

section Directory
variable (hm : s.mounted=true) (hideal : Ideal s.ata) (hspc : 0<s.geo.sectorsPerCluster)
  (hcopies : 0<s.geo.numFats)
include hm hideal hspc hcopies

theorem unlink_ok_iff {e : Dirent} (hne : name≠[]) (hfind : FindsSlot s name e) (hdir : e.isDir=true) :
    (∃ t, Returns (fun n => fat32Unlink n name) s .ok t) ↔ ¬ 2≤e.first ∨ LooksEmpty s e.first := by
  obtain ⟨fuel,slot,hslot⟩ := hfind
  obtain ⟨t,ht⟩ : ∃ t, findSlotInRoot fuel (nameTo83 name) s=(some (.found slot (some e)),t) :=
    ⟨_,eq_of_fst hslot⟩
  have hreads : Reads s.geo s.ata.disk t := findSlotLoop_existing ⟨rfl,hideal,rfl⟩ hspc ht
  obtain ⟨r,u,hcheck,hu,hr,hok⟩ := unlinkCheck_reads hreads hspc e
  have hlook : r = .ok ↔ ¬ 2≤e.first ∨ LooksEmpty s e.first := by
    rw [hok,← looksEmpty_iff,hdir,eq_self,true_and]
    rfl
  have hmore : ∀ n, fuel≤n → fat32Unlink n name s=unlinkAt n slot e t := by
    intro n hn
    have hlonger : findSlotInRoot n (nameTo83 name) s=(some (.found slot (some e)),t) :=
      Mono.le (mono_findSlotInRoot (nameTo83 name)) hn s _ _ ht
    exact fat32Unlink_found hm hne hlonger
  rw [← hlook]
  constructor
  · rintro ⟨w,hret⟩
    obtain ⟨n,hn,hrun⟩ := hret.at_least (mono_fat32Unlink name) fuel
    rw [hmore n (by omega),unlinkAt,bind_some hcheck] at hrun
    refine hr.resolve_right fun hbad => ?_
    subst hbad
    cases hrun
  · rintro rfl
    obtain ⟨w,hput,hw,hgeo⟩ := putEntry_ideal hu hspc slot (patch slot.offset [0xE5])
    obtain ⟨m,x,hfree⟩ : ∃ m x, freeOld m (some e) w=(some (),x) := by
      by_cases h2 : 2≤e.first
      · obtain ⟨m,x,hx⟩ := fatFreeChain_ends hw (hgeo.symm ▸ hcopies) e.first
        refine ⟨m,x,?_⟩
        rw [freeOld,if_pos h2,bind_some hx,pure_eq]
      · refine ⟨0,w,?_⟩
        rw [freeOld,if_neg h2,pure_eq]
    have hfree' : freeOld (max fuel m) (some e) w=(some (),x) :=
      Mono.le (mono_freeOld (some e)) (Nat.le_max_right fuel m) w _ _ hfree
    refine ⟨x,max fuel m,(hmore _ (Nat.le_max_left fuel m)).trans ?_⟩
    rw [unlinkAt,bind_some hcheck,if_neg (by simp),bind_some hput,
      if_neg (by simp),bind_some hfree',pure_eq]

/-- For every content of the disk: `fat32_unlink` removes no directory with a live entry exactly when there is
no such entry in a directory of the name whose first cluster shows the check nothing. -/
theorem unlink_removes_empty_iff :
    RemovesOnlyEmpty s name ↔ name=[] ∨ ∀ e, FindsSlot s name e → e.isDir=true → LooksEmpty s e.first →
      ∀ i, ¬ Occupies s e.first i := by
  by_cases hne : name=[]
  · subst hne
    refine iff_of_true ?_ (.inl rfl)
    rintro t ⟨n,hn⟩
    cases (fat32Unlink_nil hm n).symm.trans hn
  · rw [or_iff_right hne]
    constructor
    · intro h e hfind hdir hlook
      obtain ⟨t,ht⟩ := (unlink_ok_iff hm hideal hspc hcopies hne hfind hdir).mpr (.inr hlook)
      exact h t ht e hfind hdir
    · intro h t ht e hfind hdir
      rcases (unlink_ok_iff hm hideal hspc hcopies hne hfind hdir).mp ⟨t,ht⟩ with hnone | hlook
      · exact fun i hi => hnone (hi.1 0 (Nat.succ_pos _)).1
      · exact h e hfind hdir hlook

end Directory

/-- A new directory `D` on an empty volume. -/
theorem unlink_removes_empty_new :
    ∃ s, Returns (fun n => fat32Mkdir n [0x44]) emptyVolume .ok s ∧ RemovesOnlyEmpty s [0x44] := by
  have hsees := sees_viewOf emptyVolume_consistent.mounted emptyVolume_consistent.ideal emptyVolume_area
  obtain ⟨r,s,W,hrun,hs,_⟩ : ∃ r s W, fat32Mkdir 9 [0x44] emptyVolume=(some r,s) ∧
      Sees s emptyVolume.geo W ∧ _ :=
    call_sees (.mkdir [0x44]) hsees emptyVolume_empty.consistentWith.sound (List.forall_mem_singleton.mpr (by decide))
      (by decide +kernel)
  have hafter : (fat32Mkdir 9 [0x44] emptyVolume).1=some .ok ∧
      (rootEntry (fat32Mkdir 9 [0x44] emptyVolume).2 0).mark=0x44 ∧
      (rootEntry (fat32Mkdir 9 [0x44] emptyVolume).2 1).mark=0 ∧
      (rootEntry (fat32Mkdir 9 [0x44] emptyVolume).2 0).first=3 ∧
      (dirEntry (fat32Mkdir 9 [0x44] emptyVolume).2 3 0).name=dotName ∧
      (dirEntry (fat32Mkdir 9 [0x44] emptyVolume).2 3 1).name=dotdotName ∧
      (dirEntry (fat32Mkdir 9 [0x44] emptyVolume).2 3 2).mark=0 := by decide +kernel
  rw [hrun] at hafter
  obtain ⟨hok,hmark,hzero,hfirst,hdots,hdotdots,hend⟩ := hafter
  obtain rfl : r = .ok := by simpa using hok
  refine ⟨s,⟨9,hrun⟩,(unlink_removes_empty_iff hs.mounted hs.ideal (hs.geo.symm ▸ hs.area.spc)
    (hs.geo.symm ▸ hs.area.copies)).mpr (.inr ?_)⟩
  intro e hfind _ _ i hi
  obtain ⟨j,_,hw,rfl,_,hbefore⟩ := (findsSlot_iff hs.ideal (hs.geo.symm ▸ hs.area.spc)).mp hfind
  obtain rfl : j=0 := by
    by_contra hj
    by_cases hj1 : j=1
    · exact hw.1 (hj1 ▸ hzero)
    · obtain ⟨d,hd,hdel⟩ := hbefore 1 (by omega) hzero
      obtain rfl : d=0 := by omega
      rw [hmark] at hdel
      exact absurd hdel (by decide)
  rw [hfirst] at hi
  obtain ⟨_,hreach,_,hdot,hdotdot⟩ := hi
  have hlt : i<2 := by
    by_contra hge
    exact hreach 2 (by omega) hend
  rcases Nat.lt_succ_iff_lt_or_eq.mp hlt with h0 | rfl
  · obtain rfl : i=0 := by omega
    exact hdot hdots
  · exact hdotdot hdotdots

/-- A directory `D` of two clusters: `.`, `..` and fourteen deleted entries, then a file `X`. -/
def hiddenDisk (sector offset : Nat) : UInt8 :=
  if sector=1 then
    (if offset=12 then 4 else if offset=11 ∨ offset=19 then 0x0F
      else if 8≤offset ∧ offset<20 ∧ (offset<12 ∨ 16≤offset) then 0xFF else 0)
  else if sector=2 then
    (if offset=0 then 0x44 else if offset<11 then 0x20 else if offset=11 then 0x10
      else if offset=26 then 3 else 0)
  else if sector=3 then
    (if 64≤offset then (if offset%32=0 then 0xE5 else 0)
      else if offset%32=0 ∨ offset=33 then 0x2E else if offset%32<11 then 0x20
      else if offset%32=11 then 0x10 else if offset=26 then 3 else if offset=58 then 2 else 0)
  else if sector=4 then (if offset=0 then 0x58 else if offset<12 then 0x20 else 0)
  else emptyDisk (bootSector 1 8 1) sector offset

def hiddenVolume : Fat := (fat32Mount (attachedTo hiddenDisk)).2

theorem hiddenVolume_consistent : ConsistentVolume hiddenVolume where
  mounted := by decide
  ideal := ⟨by decide,fun _ => rfl⟩
  consistent := by
    obtain ⟨g,V,hg,hV,hcluster,htable,hroot,hnext,hsize,hone,hmark,hin,hused,hentry⟩ : ∃ g V,
        hiddenVolume.geo=g ∧ viewOf hiddenVolume=V ∧
        (1≤g.sectorsPerCluster ∧ g.sectorsPerCluster≤8) ∧ g.totalClusters+2≤128*g.fatSizeSectors ∧
        g.rootCluster=2 ∧
        (nextOf V.fat 2=none ∧ nextOf V.fat 3=some 4 ∧ nextOf V.fat 4=none) ∧ dirSize g [2]=16 ∧
        (∀ i, i<16 → Live 16 (dirAt g V [2]) i → i=0) ∧
        (∀ i, i<16 → 0 < i → (dirAt g V [2] i).mark=0) ∧ (InVolume g 2 ∧ InVolume g 3 ∧ InVolume g 4) ∧
        (∀ c, c<g.totalClusters+2 → 2≤c → V.fat c≠0 → c=2 ∨ c∈[3,4]) ∧
        Live 16 (dirAt g V [2]) 0 ∧ (dirAt g V [2] 0).first=3 ∧ (dirAt g V [2] 0).isDir=true :=
      ⟨_,_,rfl,rfl,by decide,by decide,by decide,by decide,
        by decide,by decide,by decide,by unfold InVolume; decide,
        by decide,by decide,by decide,by decide⟩
    have hzero : ∀ i, Live (dirSize g [2]) (dirAt g V [2]) i → i=0 := by
      intro i hi
      rw [hsize] at hi
      exact hone i hi.1 hi
    rw [hg,hV]
    refine ⟨[2],fun _ => [3,4],hcluster,htable,⟨⟨?_,?_,?_⟩,?_,?_⟩,?_,?_⟩
    · intro y hy
      cases y with
      | root =>
        rw [Owner.first,hroot]
        exact ⟨rfl,hnext.1⟩
      | entry i =>
        obtain rfl := hzero i hy
        rw [Owner.first,hentry.2.1]
        exact ⟨rfl,hnext.2.1,hnext.2.2⟩
    · intro y hy c hc
      cases y with
      | root => exact List.mem_singleton.mp hc ▸ hin.1
      | entry i =>
        rcases List.mem_pair.mp hc with rfl | rfl
        · exact hin.2.1
        · exact hin.2.2
    · intro y z hy hz c hcy hcz
      cases y with
      | root =>
        cases z with
        | root => rfl
        | entry i => exact absurd (List.mem_singleton.mp hcy ▸ hcz) (show 2∉[3,4] by decide)
      | entry i =>
        cases z with
        | root => exact absurd (List.mem_singleton.mp hcz ▸ hcy) (show 2∉[3,4] by decide)
        | entry j => rw [hzero i hy,hzero j hz]
    · intro i j hi hj _
      rw [hzero i hi,hzero j hj]
    · intro i j hij hj h0
      rw [hsize] at hj
      rcases Nat.eq_zero_or_pos j with rfl | hpos
      · obtain rfl := Nat.le_zero.mp hij
        exact h0
      · exact hmark j hj hpos
    · intro c hc huse
      rcases hused c (Nat.lt_succ_of_le hc.2) hc.1 huse with rfl | hmem
      · exact ⟨.root,trivial,List.mem_singleton_self 2⟩
      · refine ⟨.entry 0,?_,hmem⟩
        rw [← hsize] at hentry
        exact hentry.1
    · intro i hi hdir
      rw [hzero i hi,hentry.2.2] at hdir
      cases hdir

/-- The file lies in the second cluster, which the check does not look at. -/
theorem unlink_removes_occupied :
    ¬ ∀ (s : Fat) (name : List UInt8), ConsistentVolume s → Area s.geo → RemovesOnlyEmpty s name := by
  intro h
  obtain ⟨t,ht⟩ : ∃ t, fat32Unlink 9 [0x44] hiddenVolume=(some .ok,t) := ⟨_,eq_of_fst (by decide +kernel)⟩
  have harea : Area hiddenVolume.geo :=
    ⟨by decide +kernel,by decide,by decide,by decide,by decide⟩
  have hchain : ∀ q, q<2 → 2≤chainCluster hiddenVolume.geo hiddenVolume.ata.disk 3 q ∧
      chainCluster hiddenVolume.geo hiddenVolume.ata.disk 3 q<EOC := by decide
  have hentries : entriesPerCluster hiddenVolume.geo=16 ∧
      (∀ j, j<17 → (dirEntry hiddenVolume 3 j).mark≠0) ∧ (dirEntry hiddenVolume 3 16).listed=true ∧
      (dirEntry hiddenVolume 3 16).name≠dotName ∧ (dirEntry hiddenVolume 3 16).name≠dotdotName := by
    decide
  refine h hiddenVolume [0x44] hiddenVolume_consistent harea t ⟨9,ht⟩ (rootEntry hiddenVolume 0)
    ⟨9,⟨2,0⟩,by decide +kernel⟩ (by decide) 16 ?_
  have hfirst : (rootEntry hiddenVolume 0).first=3 := by decide
  rw [hfirst]
  refine ⟨?_,fun j hj => hentries.2.1 j (by omega),hentries.2.2⟩
  rw [InDir,hentries.1]
  exact hchain

end MyKernel.Fat32
