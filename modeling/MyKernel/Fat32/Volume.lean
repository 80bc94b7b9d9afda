import MyKernel.Fat32.Entries
import MyKernel.Fat32.Fuel

/-! Mounted volumes over whole runs of calls, as a map from names to directories and files. -/
namespace MyKernel.Fat32
open Memory MyKernel.Computation Chains Disk

inductive Call where
  | write (name text : List UInt8)
  | mkdir (name : List UInt8)
  | unlink (name : List UInt8)
  deriving DecidableEq, Repr

def Call.name : Call → List UInt8
  | .write name _ => name
  | .mkdir name => name
  | .unlink name => name

def call (c : Call) (fuel : Nat) : FatM FatResult :=
  match c with
  | .write name text => fat32Write fuel name text
  | .mkdir name => fat32Mkdir fuel name
  | .unlink name => fat32Unlink fuel name

def Call.node : Call → Option Node
  | .write _ text => some (.file text)
  | .mkdir _ => some .dir
  | .unlink _ => none

def Call.apply (c : Call) (m : List UInt8 → Option Node) : List UInt8 → Option Node :=
  Function.update m (nameTo83 c.name) c.node

def PrintableName (name : List UInt8) : Prop := ∀ c∈name, 0x20≤c ∧ c≤0x7E

instance (name : List UInt8) : Decidable (PrintableName name) :=
  inferInstanceAs (Decidable (∀ _∈_, _))

structure ConsistentVolume (s : Fat) : Prop where
  mounted : s.mounted=true
  ideal : Ideal s.ata
  consistent : Consistent s.geo (viewOf s)

def CallStep (s : Fat) (c : Call) (t : Fat) : Prop :=
  PrintableName c.name ∧ Returns (call c) s .ok t

structure Holds (s : Fat) (m : List UInt8 → Option Node) : Prop where
  mounted : s.mounted=true
  ideal : Ideal s.ata
  volume : ∃ rc ch, ConsistentWith s.geo (viewOf s) rc ch ∧ filesOf s.geo (viewOf s) rc ch=m

variable {g : Geo} {V W : View} {s t : Fat} {i j c fuel : Nat} {rc rc' : List Nat}
variable {ch ch' : Nat → List Nat} {key name text : List UInt8} {m : List UInt8 → Option Node}

theorem mono_call (c : Call) : Mono (call c) := by
  cases c with
  | write name text => exact mono_fat32Write name text
  | mkdir name => exact mono_fat32Mkdir name
  | unlink name => exact mono_fat32Unlink name

def ended (s : Fat) (a : Call × Nat) : Option Fat := (call a.1 a.2 s).1.map fun _ => (call a.1 a.2 s).2

theorem ended_eq {a : Call × Nat} {r : FatResult} (h : call a.1 a.2 s=(some r,t)) : ended s a=some t := by
  rw [ended,h]
  rfl

theorem call_of_ended {a : Call × Nat} (h : ended s a=some t) : ∃ r, call a.1 a.2 s=(some r,t) := by
  unfold ended at h
  cases hc : call a.1 a.2 s with
  | mk o u =>
    rw [hc] at h
    cases o with
    | none => cases h
    | some r => exact ⟨r,by rw [← Option.some_inj.mp h]⟩

structure Agree (g : Geo) (V W : View) : Prop where
  fat : ∀ c, InVolume g c → W.fat c=V.fat c
  data : ∀ c, InVolume g c → ∀ i, i<g.clusterBytes → W.data c i=V.data c i

section Agree
variable (ha : Area g) (hs : Sound g V rc ch) (hag : Agree g V W)
include ha hs hag

theorem Agree.dirAt_eq (hj : j<dirSize g rc) : dirAt g W rc j=dirAt g V rc j := by
  have hpos := entriesPerCluster_pos ha
  have hc := hs.root_in _ (slotAt_mem hpos hj)
  have hb := slot_bound (Nat.mod_lt j hpos)
  apply direntAt_congr
  intro k hk
  apply hag.data _ hc
  simp only [slotAt]
  omega

theorem Agree.sound : Sound g W rc ch := by
  refine SoundDir.congr hs (fun k hk => hag.dirAt_eq ha hs hk) ?_ ?_
  · exact fun c hc => hag.fat c (hs.root_in c hc)
  · exact fun j hj c hc => hag.fat c (hs.inVolume hj c hc)

theorem Agree.live_iff : Live (dirSize g rc) (dirAt g W rc) j ↔ Live (dirSize g rc) (dirAt g V rc) j :=
  live_congr fun _ hk => hag.dirAt_eq ha hs hk

theorem Agree.owned (h : Owned g V rc ch) : Owned g W rc ch := by
  intro c hc huse
  simp only [hag.fat c hc] at huse
  obtain ⟨y,hy,hcy⟩ := h c hc huse
  cases y with
  | root => exact ⟨.root,trivial,hcy⟩
  | entry j => exact ⟨.entry j,(hag.live_iff ha hs).mpr hy,hcy⟩

theorem Agree.sized (h : Sized g V rc ch) : Sized g W rc ch := by
  intro j hj hdir
  have hj' := (hag.live_iff ha hs).mp hj
  rw [hag.dirAt_eq ha hs hj.1] at hdir ⊢
  exact h j hj' hdir

theorem Agree.files : filesOf g W rc ch=filesOf g V rc ch := by
  funext key
  apply filesOf_congr (hag.sound ha hs)
  · intro j
    constructor
    · rintro ⟨hj,hname⟩
      exact ⟨(hag.live_iff ha hs).mpr hj,(hag.dirAt_eq ha hs hj.1).symm ▸ hname⟩
    · rintro ⟨hj,hname⟩
      exact ⟨(hag.live_iff ha hs).mp hj,hag.dirAt_eq ha hs hj.1 ▸ hname⟩
  · intro j hj _
    apply nodeOf_congr (hag.dirAt_eq ha hs hj.1)
    apply chainBytes_congr
    exact fun c hc i hi => hag.data c (hs.inVolume hj c hc) i hi

end Agree

theorem Sees.agree (h : Sees s g V) : Agree g V (viewOf s) where
  fat c hc := by
    rw [viewOf,h.geo]
    exact h.fat c hc.2
  data c hc i hi := by
    rw [viewOf,h.geo]
    exact h.data c hc i hi

theorem sees_viewOf (hm : s.mounted=true) (hi : Ideal s.ata) (ha : Area s.geo) : Sees s s.geo (viewOf s) :=
  ⟨rfl,hi,hm,ha,fun _ _ => rfl,fun _ _ _ _ => rfl⟩

theorem Sees.holds (h : Sees s g V) (hc : ConsistentWith g V rc ch) : Holds s (filesOf g V rc ch) := by
  have hag := h.agree
  obtain ⟨rfl⟩ := h.geo
  refine ⟨h.mounted,h.ideal,rc,ch,?_,hag.files h.area hc.sound⟩
  exact ⟨hc.cluster,hc.table,hag.sound h.area hc.sound,hag.owned h.area hc.sound hc.owned,
    hag.sized h.area hc.sound hc.sized⟩

theorem upper_range {b : UInt8} (h : 0x20≤b ∧ b≤0x7E) : upper b≠0 ∧ upper b≠0xE5 := by
  unfold upper
  grind

theorem upper_ne_zero {b : UInt8} (h : b≠0) : upper b≠0 := by
  unfold upper
  grind

theorem head_nameTo83 (c : UInt8) (rest : List UInt8) :
    (nameTo83 (c::rest)).headD 0=if c=0x2E then 0x20 else upper c := by
  by_cases hdot : c=0x2E
  · simp [nameTo83,baseOf,hdot,padTo,List.replicate]
  · simp [nameTo83,baseOf,hdot,padTo]

theorem keyOk_nameTo83 (hne : name≠[]) (hp : PrintableName name) : KeyOk (nameTo83 name) := by
  obtain ⟨c,rest,rfl⟩ := List.exists_cons_of_ne_nil hne
  refine ⟨length_nameTo83 _,?_⟩
  rw [head_nameTo83]
  split
  · decide
  · exact upper_range (hp c (by simp))

theorem keyShape_nameTo83 (hne : name≠[]) (h0 : 0∉name) : KeyShape (nameTo83 name) := by
  obtain ⟨c,rest,rfl⟩ := List.exists_cons_of_ne_nil hne
  refine ⟨length_nameTo83 _,?_⟩
  rw [head_nameTo83]
  split
  · decide
  · apply upper_ne_zero
    intro hc
    exact h0 (by simp [hc])

theorem fat32Write_refused (fuel : Nat) (h : Sees s g V) (hbad : name=[] ∨ WRITE_MAX_BYTES<text.length) :
    ∃ r, fat32Write fuel name text s=(some r,s) ∧ r ≠ .ok := by
  rw [fat32Write,state_bind,h.mounted]
  by_cases hne : name=[]
  · exact ⟨.notFound,by simp [hne],by simp⟩
  · exact ⟨.tooBig,by simp [hne,hbad.resolve_left hne],by simp⟩

theorem call_sees (c : Call) (h : Sees s g V) (hs : Sound g V rc ch) (hp : PrintableName c.name)
    (hfuel : g.totalClusters<fuel) :
    ∃ r t W, call c fuel s=(some r,t) ∧ Sees t g W ∧
      (r = .ok → ∃ rc' ch', Done g V rc ch W rc' ch' (nameTo83 c.name) c.node) := by
  cases c with
  | write name text =>
    by_cases hbad : name=[] ∨ WRITE_MAX_BYTES<text.length
    · obtain ⟨r,hr,hne⟩ := fat32Write_refused fuel h hbad
      exact ⟨r,s,V,hr,h,fun hok => absurd hok hne⟩
    · rw [not_or,Nat.not_lt] at hbad
      obtain ⟨r,t,W,hrun,hsees,ho⟩ := fat32Write_outcome h hs hfuel hbad.1 hbad.2
      refine ⟨r,t,W,hrun,hsees,?_⟩
      intro hok
      subst hok
      exact ho.done h.area hs (keyOk_nameTo83 hbad.1 hp) hbad.2
  | mkdir name =>
    by_cases hne : name=[]
    · refine ⟨.notFound,s,V,?_,h,nofun⟩
      rw [call,fat32Mkdir,state_bind,h.mounted]
      simp [hne]
    · exact fat32Mkdir_sees h hs hfuel hne (keyOk_nameTo83 hne hp)
  | unlink name =>
    by_cases hne : name=[]
    · refine ⟨.notFound,s,V,?_,h,nofun⟩
      rw [call,fat32Unlink,state_bind,h.mounted]
      simp [hne]
    · exact fat32Unlink_sees h hs hfuel hne

theorem Holds.step {c : Call} (h : Holds s m) (ha : Area s.geo) (hstep : CallStep s c t) :
    Holds t (c.apply m) ∧ t.geo=s.geo := by
  obtain ⟨rc,ch,hc,hm⟩ := h.volume
  obtain ⟨hp,hret⟩ := hstep
  obtain ⟨fuel,hfuel,hrun⟩ := hret.at_least (mono_call c) s.geo.totalClusters
  have hsees := sees_viewOf h.mounted h.ideal ha
  obtain ⟨r,u,W,hrun',hsees',hdone⟩ := call_sees c hsees hc.sound hp hfuel
  obtain ⟨rfl,rfl⟩ : r = .ok ∧ u=t := by simpa using hrun'.symm.trans hrun
  obtain ⟨rc',ch',hd⟩ := hdone rfl
  have hmap : filesOf s.geo W rc' ch'=c.apply m := by
    funext key
    by_cases hkey : key=nameTo83 c.name
    · rw [hkey,hd.here,Call.apply,Function.update_self]
    · rw [hd.others key hkey,hm,Call.apply,Function.update_of_ne hkey]
  exact ⟨hmap ▸ hsees'.holds (hd.consistent hc),hsees'.geo⟩

theorem Holds.consistent (h : Holds s m) : ConsistentVolume s := by
  obtain ⟨rc,ch,hc,_⟩ := h.volume
  exact ⟨h.mounted,h.ideal,rc,ch,hc⟩

theorem ConsistentVolume.holds (h : ConsistentVolume s) : ∃ m, Holds s m := by
  obtain ⟨rc,ch,hc⟩ := h.consistent
  exact ⟨_,h.mounted,h.ideal,rc,ch,hc,rfl⟩

inductive Run : Fat → List Call → Fat → Prop where
  | nil (s : Fat) : Run s [] s
  | cons {s t u : Fat} {c : Call} {cs : List Call} (h : CallStep s c t) (hr : Run t cs u) :
      Run s (c::cs) u

theorem Run.holds {cs : List Call} (hr : Run s cs t) (ha : Area s.geo) (h : Holds s m) :
    Holds t (cs.foldl (fun m c => c.apply m) m) ∧ t.geo=s.geo := by
  induction hr generalizing m with
  | nil s => exact ⟨h,rfl⟩
  | cons hstep _ ih =>
    obtain ⟨hmid,hgeo⟩ := h.step ha hstep
    obtain ⟨hend,hgeo'⟩ := ih (hgeo ▸ ha) hmid
    exact ⟨hend,hgeo'.trans hgeo⟩

/-- A root directory of one zeroed cluster, and no other cluster in use. -/
def EmptyRoot (g : Geo) (V : View) : Prop :=
  (1≤g.sectorsPerCluster ∧ g.sectorsPerCluster≤8) ∧
  g.totalClusters+2≤128*g.fatSizeSectors ∧
  (2≤g.rootCluster ∧ g.rootCluster≤g.totalClusters+1) ∧
  EOC≤V.fat g.rootCluster ∧
  (∀ c, c<g.totalClusters+2 → 2≤c → c≠g.rootCluster → V.fat c=0) ∧
  ∀ k, k<entriesPerCluster g → V.data g.rootCluster (32*k)=0

instance (g : Geo) (V : View) : Decidable (EmptyRoot g V) :=
  inferInstanceAs (Decidable (_ ∧ _ ∧ _ ∧ _ ∧ _ ∧ _))

/-- Entry `k`, if it is in use, has no clusters and a name that no entry before it has. -/
def FlatEntry (D : Nat → Dirent) (k : Nat) : Prop :=
  (D k).mark≠0 → ((D k).first=0 ∧ (D k).fileSize=0) ∧ ∀ j, j<k → (D j).mark≠0 ∧ (D j).name≠(D k).name

instance (D : Nat → Dirent) (k : Nat) : Decidable (FlatEntry D k) := inferInstanceAs (Decidable (_ → _ ∧ _))

/-- A root directory of one cluster of such entries, and no other cluster in use. -/
def FlatRoot (g : Geo) (V : View) : Prop :=
  (1≤g.sectorsPerCluster ∧ g.sectorsPerCluster≤8) ∧
  g.totalClusters+2≤128*g.fatSizeSectors ∧
  (2≤g.rootCluster ∧ g.rootCluster≤g.totalClusters+1) ∧
  EOC≤V.fat g.rootCluster ∧
  (∀ c, c<g.totalClusters+2 → 2≤c → c≠g.rootCluster → V.fat c=0) ∧
  ∀ k, k<entriesPerCluster g → FlatEntry (fun k => direntAt (V.data g.rootCluster) (32*k)) k

instance (g : Geo) (V : View) : Decidable (FlatRoot g V) :=
  inferInstanceAs (Decidable (_ ∧ _ ∧ _ ∧ _ ∧ _ ∧ _))

theorem FlatRoot.entry (h : FlatRoot g V) {k : Nat} (hk : k<dirSize g [g.rootCluster]) :
    FlatEntry (dirAt g V [g.rootCluster]) k := by
  simp only [dirSize,List.length_singleton,Nat.one_mul] at hk
  intro hmark
  rw [dirAt_head hk] at hmark ⊢
  obtain ⟨hnone,hnames⟩ := h.2.2.2.2.2 k hk hmark
  refine ⟨hnone,fun j hj => ?_⟩
  rw [dirAt_head (by omega)]
  exact hnames j hj

theorem FlatRoot.live (h : FlatRoot g V) (hi : Live (dirSize g [g.rootCluster]) (dirAt g V [g.rootCluster]) i) :
    ((dirAt g V [g.rootCluster] i).first=0 ∧ (dirAt g V [g.rootCluster] i).fileSize=0) ∧
      ∀ j, j < i → (dirAt g V [g.rootCluster] j).name≠(dirAt g V [g.rootCluster] i).name := by
  obtain ⟨hnone,hnames⟩ := h.entry hi.1 (hi.2.1 i (by omega))
  exact ⟨hnone,fun j hj => (hnames j hj).2⟩

theorem FlatRoot.consistentWith (h : FlatRoot g V) : ConsistentWith g V [g.rootCluster] fun _ => [] := by
  have hlive := fun i => h.live (i := i)
  have hentry := fun k (hk : k<dirSize g [g.rootCluster]) => h.entry hk
  obtain ⟨hcluster,htable,hroot,hend,hfree,_⟩ := h
  refine ⟨hcluster,htable,⟨⟨?_,?_,?_⟩,?_,?_⟩,?_,?_⟩
  · intro y hy
    cases y with
    | root => exact ⟨rfl,nextOf_eq_none.mpr hend⟩
    | entry i => simp [Owner.first,Owner.chain,(hlive i hy).1.1,startOf,ChainFrom]
  · intro y hy c hc
    cases y with
    | root => exact List.mem_singleton.mp hc ▸ hroot
    | entry i => exact absurd hc List.not_mem_nil
  · intro y z hy hz c hcy hcz
    cases y with
    | root =>
      cases z with
      | root => rfl
      | entry i => exact absurd hcz List.not_mem_nil
    | entry i => exact absurd hcy List.not_mem_nil
  · intro i j hi hj hname
    by_contra hne
    rcases Nat.lt_or_gt_of_ne hne with hlt | hgt
    · exact (hlive j hj).2 i hlt hname
    · exact (hlive i hi).2 j hgt hname.symm
  · intro i j hij hj h0
    by_contra hmark
    rcases Nat.lt_or_ge i j with hlt | hge
    · exact ((hentry j hj hmark).2 i hlt).1 h0
    · exact hmark (Nat.le_antisymm hij hge ▸ h0)
  · intro c hc huse
    refine ⟨.root,trivial,?_⟩
    by_cases hcr : c=g.rootCluster
    · exact List.mem_singleton.mpr hcr
    · exact absurd (hfree c (by have := hc.2; omega) hc.1 hcr) huse
  · intro i hi _
    have hpos : 0<g.clusterBytes := by
      simp only [Geo.clusterBytes,SECTOR_SIZE]
      omega
    rw [(hlive i hi).1.2,clustersFor,List.length_nil,Nat.zero_add,Nat.div_eq_of_lt (by omega)]

theorem EmptyRoot.mark (h : EmptyRoot g V) {k : Nat} (hk : k<dirSize g [g.rootCluster]) :
    (dirAt g V [g.rootCluster] k).mark=0 := by
  simp only [dirSize,List.length_singleton,Nat.one_mul] at hk
  rw [dirAt_head hk,mark_direntAt]
  exact h.2.2.2.2.2 k hk

theorem EmptyRoot.not_live (h : EmptyRoot g V) (i : Nat) :
    ¬ Live (dirSize g [g.rootCluster]) (dirAt g V [g.rootCluster]) i :=
  fun hi => hi.2.1 i (by omega) (h.mark hi.1)

theorem EmptyRoot.flat (h : EmptyRoot g V) : FlatRoot g V := by
  obtain ⟨hcluster,htable,hroot,hend,hfree,hzero⟩ := h
  refine ⟨hcluster,htable,hroot,hend,hfree,fun k hk => ?_⟩
  have hmark : (direntAt (V.data g.rootCluster) (32*k)).mark=0 := by
    rw [mark_direntAt]
    exact hzero k hk
  exact fun hne => absurd hmark hne

theorem EmptyRoot.consistentWith (h : EmptyRoot g V) :
    ConsistentWith g V [g.rootCluster] fun _ => [] := h.flat.consistentWith

theorem EmptyRoot.consistent (h : EmptyRoot g V) : Consistent g V := ⟨_,_,h.consistentWith⟩

def attachedTo (disk : Nat → Nat → UInt8) : Fat where
  mounted := false
  geo := ⟨0,0,0,0,0,0,0,0⟩
  ata := ⟨true,true,fun _ => none, 0, disk, []⟩
  sectorBuf := fun _ => 0
  clusterBuf := fun _ => 0

def bootSector (numFats totalSectors : UInt8) (fatSize : Nat) : List (Nat × UInt8) :=
  [(12,2),(13,1),(14,1),(16,numFats),(19,totalSectors),(36,byteOf fatSize 0),
    (39,byteOf fatSize 3),(44,2),(66,0x29)]

/-- A boot sector, and a table whose only used entry ends the chain of cluster 2. -/
def emptyDisk (boot : List (Nat × UInt8)) (sector offset : Nat) : UInt8 :=
  if sector=0 then (boot.lookup offset).getD 0
  else if sector=1 ∧ 8≤offset ∧ offset<12 then (if offset=11 then 0x0F else 0xFF)
  else 0

def mountedOn (boot : List (Nat × UInt8)) : Fat := (fat32Mount (attachedTo (emptyDisk boot))).2

theorem eq_of_fst {α β : Type} {x : α × β} {a : α} (h : x.1=a) : x=(a,x.2) := by
  rw [← h]

theorem callStep_of_fst (s : Fat) (c : Call) (fuel : Nat) (hp : PrintableName c.name)
    (h : (call c fuel s).1=some .ok) : CallStep s c (call c fuel s).2 :=
  ⟨hp,fuel,eq_of_fst h⟩

def emptyVolume : Fat := mountedOn (bootSector 1 8 1)

theorem emptyVolume_mounted :
    (emptyVolume.mounted=true ∧ emptyVolume.ata.present=true ∧ emptyVolume.geo=⟨0,1,2,2,1,1,1,6⟩) ∧
      EmptyRoot emptyVolume.geo (viewOf emptyVolume) := by
  decide

theorem emptyVolume_geo : emptyVolume.geo=⟨0,1,2,2,1,1,1,6⟩ := emptyVolume_mounted.1.2.2

theorem emptyVolume_empty : EmptyRoot emptyVolume.geo (viewOf emptyVolume) := emptyVolume_mounted.2

theorem emptyVolume_consistent : ConsistentVolume emptyVolume where
  mounted := emptyVolume_mounted.1.1
  ideal := ⟨emptyVolume_mounted.1.2.1,fun _ => rfl⟩
  consistent := emptyVolume_empty.consistent

theorem emptyVolume_area : Area emptyVolume.geo := by
  rw [emptyVolume_geo]
  exact ⟨by decide,by decide,by decide,by decide,by decide⟩

/-- Two tables of 2^31 sectors, so that the start of the clusters wraps to the first table. -/
def overlaidVolume : Fat := mountedOn (bootSector 2 8 0x80000000)

theorem overlaidVolume_facts :
    (fat32Mount (attachedTo (emptyDisk (bootSector 2 8 0x80000000)))).1=some .ok ∧
      (overlaidVolume.mounted=true ∧ overlaidVolume.ata.present=true) ∧
      EmptyRoot overlaidVolume.geo (viewOf overlaidVolume) := by
  decide +kernel

theorem overlaidVolume_mounted :
    fat32Mount (attachedTo (emptyDisk (bootSector 2 8 0x80000000)))=(some .ok,overlaidVolume) :=
  eq_of_fst overlaidVolume_facts.1

theorem overlaidVolume_consistent : ConsistentVolume overlaidVolume where
  mounted := overlaidVolume_facts.2.1.1
  ideal := ⟨overlaidVolume_facts.2.1.2,fun _ => rfl⟩
  consistent := overlaidVolume_facts.2.2.consistent

/-- Every run of successful calls on a consistent volume whose areas lie apart keeps it
consistent. -/
theorem fat_volume_invariant {cs : List Call} (hv : ConsistentVolume s) (ha : Area s.geo)
    (hr : Run s cs t) : ConsistentVolume t := by
  obtain ⟨m,hm⟩ := hv.holds
  exact (hr.holds ha hm).1.consistent

/-- A file `A`, then a directory `D`, then `A` removed. -/
theorem fat_volume_invariant_three_calls :
    ∃ t, Run emptyVolume [.write [0x41] [0x68,0x69],.mkdir [0x44],.unlink [0x41]] t ∧
      ConsistentVolume t := by
  have hfirst := callStep_of_fst emptyVolume (.write [0x41] [0x68,0x69]) 9 (by decide +kernel)
    (by decide +kernel)
  have hsecond := callStep_of_fst (call (.write [0x41] [0x68,0x69]) 9 emptyVolume).2
    (.mkdir [0x44]) 9 (by decide +kernel) (by decide +kernel)
  have hthird := callStep_of_fst (call (.mkdir [0x44]) 9
    (call (.write [0x41] [0x68,0x69]) 9 emptyVolume).2).2 (.unlink [0x41]) 9 (by decide +kernel)
    (by decide +kernel)
  have hrun := Run.cons hfirst (Run.cons hsecond (Run.cons hthird (Run.nil _)))
  exact ⟨_,hrun,fat_volume_invariant emptyVolume_consistent emptyVolume_area hrun⟩

/-- Where the clusters lie over the table, an entry put into the root directory
overwrites the end mark of the root chain. -/
theorem fat_volume_invariant_fails :
    ¬ ∀ (s₀ s t : Fat) (cs : List Call), fat32Mount s₀=(some .ok,s) → ConsistentVolume s →
      Run s cs t → ConsistentVolume t := by
  intro h
  have hstep := callStep_of_fst overlaidVolume (.write [0x41] []) 9 (by decide +kernel) (by decide)
  have hbad := h _ _ _ _ overlaidVolume_mounted overlaidVolume_consistent
    (Run.cons hstep (Run.nil _))
  obtain ⟨rc,ch,hc⟩ := hbad.consistent
  have hpath := hc.sound.root_path
  have hin := hc.sound.root_in
  have hroot : (call (.write [0x41] []) 9 overlaidVolume).2.geo.rootCluster=2 := by decide
  have htotal : (call (.write [0x41] []) 9 overlaidVolume).2.geo.totalClusters=7 := by
    decide
  have hnext : nextOf (viewOf (call (.write [0x41] []) 9 overlaidVolume).2).fat 2=some 0x202020 := by
    decide
  rw [hroot] at hpath
  cases rc with
  | nil => simp [ChainFrom] at hpath
  | cons x rest =>
    obtain ⟨hx,hrest⟩ := hpath
    obtain rfl : 2=x := by simpa using hx
    rw [hnext] at hrest
    cases rest with
    | nil => simp [ChainFrom] at hrest
    | cons y rest =>
      obtain rfl : 0x202020=y := by simpa using hrest.1
      have hy := (hin 0x202020 (by simp)).2
      rw [htotal] at hy
      omega

end MyKernel.Fat32
