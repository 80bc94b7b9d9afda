import MyKernel.Fat32.Format
import MyKernel.Fat32.Outside

/-! The two copies of the table. A volume with too short a table behaves as if only the clusters with an entry of
their own were counted. -/
namespace MyKernel.Fat32
open Memory MyKernel.Computation Chains Disk Traces

/-- The entries in use, and all those of the first sector, are the same in both copies. -/
structure Mirrored (g : Geo) (disk : Nat → Nat → UInt8) : Prop where
  small : ∀ f c, f<2 → c<128*g.fatSizeSectors → copyWord g disk f c<0x10000000
  same : ∀ c, c<128*g.fatSizeSectors → c<128 ∨ copyWord g disk 0 c≠0 →
    copyWord g disk 1 c=copyWord g disk 0 c
  marks : ∀ c, c<2 → copyWord g disk 0 c≠0

structure Paired (g : Geo) (s : Fat) : Prop where
  geo : s.geo=g
  ideal : Ideal s.ata
  mirrored : Mirrored g s.ata.disk

/-- `n` clusters are counted on a volume of two copies; `g` counts those that have an entry. -/
structure TwoCopies (n : Nat) (g : Geo) : Prop where
  area : Area g
  copies : g.numFats=2
  count : g.totalClusters=min n (128*g.fatSizeSectors-2)
  table : n+2≤256*g.fatSizeSectors
  short : g.fatSizeSectors<4194304

variable {g : Geo} {V : View} {s t u : Fat} {c v d f n k m total part size : Nat} {S rt : Nat → Prop}
variable {disk : Nat → Nat → UInt8} {P : Fat → Prop} {rc : List Nat} {ch : Nat → List Nat}

theorem fatSet_copies (hg : TwoCopies n g) (hgeo : s.geo=g) (h : Ideal s.ata) (hc : c≤g.totalClusters+1) (v : Nat) :
    ∃ t, fatSet c v s=(some true,t) ∧ t.geo=g ∧ Ideal t.ata ∧ ∀ f d, f<2 → d<128*g.fatSizeSectors →
      copyWord g t.ata.disk f d =
        if d=c then mergeEntry (copyWord g s.ata.disk f d) v else copyWord g s.ata.disk f d := by
  have htab := hg.area.table
  have hcopies := hg.copies
  have hone : ∀ (e : Nat) (u : Fat), u.geo=g → e<2 → ∀ f d, d<128*g.fatSizeSectors →
      copyWord g (copySet c v e u).ata.disk f d =
        if f=e ∧ d=c then mergeEntry (copyWord g u.ata.disk f d) v else copyWord g u.ata.disk f d := by
    intro e u hu he f d hd
    simp only [copySet,Ata.store,hu]
    rw [fatLba hg.area hc (by omega)]
    exact copyWord_patched (by omega) hd _ _
  have hrun : fatSet c v s=(some true,copySet c v 1 (copySet c v 0 s)) := by
    rw [fatSet,state_bind,hgeo,hcopies,fatSetLoop_ideal h,fatSetLoop_ideal (s := copySet c v 0 s) h]
    rfl
  refine ⟨_,hrun,hgeo,h,?_⟩
  intro f d hf hd
  rw [hone 1 (copySet c v 0 s) hgeo (by omega) f d hd,hone 0 s hgeo (by omega) f d hd]
  by_cases hdc : d=c
  · rcases Nat.lt_or_ge f 1 with hf1 | hf1
    · rw [if_neg (by omega),if_pos ⟨by omega,hdc⟩,if_pos hdc]
    · rw [if_pos ⟨by omega,hdc⟩,if_neg (by omega),if_pos hdc]
  · rw [if_neg (by omega),if_neg (by omega),if_neg hdc]

theorem mergeEntry_of_small {old : Nat} (h : old<0x10000000) (v : Nat) : mergeEntry old v=v%0x10000000 := by
  unfold mergeEntry
  omega

section Paired
variable (hg : TwoCopies n g) (h : Paired g s)
include hg h

theorem paired_fatSet (h2 : 2≤c) (hc : c≤g.totalClusters+1) (v : Nat) :
    Ensures (Paired g) (fatSet c v) (fun _ _ => True) s := by
  obtain ⟨t,ht,hgeo,hideal,hword⟩ := fatSet_copies hg h.geo h.ideal hc v
  have hm := h.mirrored
  have hpos : 2≤128*g.fatSizeSectors := by
    have htab := hg.area.table
    omega
  refine Ensures.of_eq ht ⟨hgeo,hideal,?_,?_,?_⟩ trivial
  · intro f d hf hd
    rw [hword f d hf hd]
    split
    · rw [mergeEntry_of_small (hm.small f d hf hd)]
      exact Nat.mod_lt _ (by decide)
    · exact hm.small f d hf hd
  · intro d hd hused
    rw [hword 0 d (by decide) hd] at hused ⊢
    rw [hword 1 d (by decide) hd]
    by_cases hdc : d=c
    · rw [if_pos hdc,if_pos hdc,mergeEntry_of_small (hm.small 1 d (by decide) hd),
        mergeEntry_of_small (hm.small 0 d (by decide) hd)]
    · rw [if_neg hdc] at hused
      rw [if_neg hdc,if_neg hdc]
      exact hm.same d hd hused
  · intro d hd
    rw [hword 0 d (by decide) (by omega),if_neg (by omega)]
    exact hm.marks d hd

omit hg in
theorem paired_fatGet (c : Nat) : Ensures (Paired g) (fatGet c) (fun _ _ => True) s :=
  Ensures.of_eq (fatGet_ideal h.ideal c) ⟨h.geo,h.ideal,h.mirrored⟩ trivial

theorem Paired.spc : 0<s.geo.sectorsPerCluster := by
  rw [h.geo]
  exact hg.area.spc

theorem paired_readCluster (c : Nat) : Ensures (Paired g) (readCluster c) (fun _ _ => True) s :=
  Ensures.of_eq (readCluster_ideal h.ideal (h.spc hg) c) ⟨h.geo,h.ideal,h.mirrored⟩ trivial

/-- The clusters lie behind both copies. -/
theorem paired_writeCluster (hc : InVolume g c) : Ensures (Paired g) (writeCluster c) (fun _ _ => True) s := by
  have hword : ∀ f d, f<2 → d<128*g.fatSizeSectors →
      copyWord g (writeFrom s.ata.disk (g.partitionLba+g.dataStart+(c-2)*g.sectorsPerCluster) g.sectorsPerCluster
        s.clusterBuf) f d=copyWord g s.ata.disk f d := by
    intro f d hf hd
    have hfat := hg.area.fat_le (show f<g.numFats by rw [hg.copies]; exact hf)
    rw [copyWord,writeFrom_outside (by omega),copyWord]
  have hpos : 2≤128*g.fatSizeSectors := by
    have htab := hg.area.table
    omega
  have hm := h.mirrored
  have hrun := writeCluster_ideal h.ideal (h.spc hg) c
  rw [h.geo,dataLba hg.area hc] at hrun
  refine Ensures.of_eq hrun ⟨rfl,h.ideal,?_,?_,?_⟩ trivial
  · intro f d hf hd
    simp only [Ata.store]
    rw [hword f d hf hd]
    exact hm.small f d hf hd
  · intro d hd
    simp only [Ata.store]
    rw [hword 0 d (by decide) hd,hword 1 d (by decide) hd]
    exact hm.same d hd
  · intro d hd
    simp only [Ata.store]
    rw [hword 0 d (by decide) (by omega)]
    exact hm.marks d hd

omit hg in
theorem paired_setClusterBuf (f : (Nat → UInt8) → Nat → UInt8) :
    Ensures (Paired g) (setClusterBuf f) (fun _ _ => True) s :=
  Ensures.update _ ⟨h.geo,h.ideal,h.mirrored⟩ trivial

theorem paired_fatAllocLoop (h2 : 2≤c) (hn : c+k≤g.totalClusters+2) :
    Ensures (Paired g) (fatAllocLoop k c) (fun _ _ => True) s := by
  induction k generalizing c s with
  | zero => exact Ensures.pure h trivial
  | succ k ih =>
    apply Ensures.bind (paired_fatGet h c)
    intro v t ht _
    by_cases hv : v=0
    · rw [if_pos hv]
      apply Ensures.bind (paired_fatSet hg ht h2 (by omega) LAST)
      intro b u hu _
      split
      · exact Ensures.pure hu trivial
      · exact Ensures.pure hu trivial
    · rw [if_neg hv]
      exact ih ht (by omega) (by omega)

theorem paired_fatAllocCluster (ht : Sees s g V) : Ensures (Paired g) fatAllocCluster (fun _ _ => True) s := by
  have hnote : Ensures (Paired g) (fatAllocLoop g.totalClusters 2 >>= noteAllocated) (fun _ _ => True) s := by
    apply Ensures.bind (paired_fatAllocLoop hg h (Nat.le_refl 2) (by omega))
    intro d t ht _
    exact Ensures.of_eq rfl ⟨ht.geo,ht.ideal,ht.mirrored⟩ trivial
  unfold Ensures at hnote ⊢
  rw [fatAllocCluster_eq ht]
  exact hnote

end Paired

/-- `s` is `t` with `n` clusters counted, as far as the calls can tell. -/
structure Recounted (n : Nat) (s t : Fat) : Prop where
  geo : s.geo={ t.geo with totalClusters := n }
  mounted : s.mounted=t.mounted
  left : Ideal s.ata
  right : Ideal t.ata
  disk : ∀ sec o, o<SECTOR_SIZE → s.ata.disk sec o=t.ata.disk sec o
  buf : s.clusterBuf=t.clusterBuf

section Recounted
variable (h : Recounted n s t)
include h

theorem Recounted.wordAt_eq (lba : Nat) {i : Nat} (hi : i+4≤SECTOR_SIZE) :
    wordAt (s.ata.disk lba) i=wordAt (t.ata.disk lba) i :=
  wordAt_congr fun k hk => h.disk lba (i+k) (by omega)

theorem Recounted.fatOf_eq (c : Nat) : fatOf s.geo s.ata.disk c=fatOf t.geo t.ata.disk c := by
  rw [fatOf,h.geo,h.wordAt_eq _ (entOffset_le c)]
  rfl

theorem Recounted.copySet (c v f : Nat) : Recounted n (copySet c v f s) (copySet c v f t) := by
  have hlba : copySector s.geo c f=copySector t.geo c f := by
    rw [h.geo]
    rfl
  refine ⟨h.geo,h.mounted,h.left,h.right,?_,h.buf⟩
  intro sec o ho
  simp only [Fat32.copySet,Ata.store,hlba]
  by_cases hsec : sec=copySector t.geo c f
  · have hword : wordAt (readInto s.ata.disk (copySector t.geo c f) 1 s.sectorBuf) (entOffset c) =
        wordAt (readInto t.ata.disk (copySector t.geo c f) 1 t.sectorBuf) (entOffset c) := by
      rw [wordAt_readInto _ _ _ (entOffset_le c),wordAt_readInto _ _ _ (entOffset_le c),
        h.wordAt_eq _ (entOffset_le c)]
    have hbyte : readInto s.ata.disk (copySector t.geo c f) 1 s.sectorBuf o =
        readInto t.ata.disk (copySector t.geo c f) 1 t.sectorBuf o := by
      rw [readInto_front _ _ _ ho,readInto_front _ _ _ ho]
      exact h.disk _ o ho
    rw [hsec,writeFrom_self,writeFrom_self,patchedSector,patchedSector,hword]
    simp only [patch,hbyte]
  · rw [writeFrom_of_ne hsec,writeFrom_of_ne hsec]
    exact h.disk sec o ho

theorem recounted_fatGet (c : Nat) : Alike (Recounted n) (fatGet c) (fun _ _ => True) s t := by
  unfold Alike
  rw [fatGet_ideal h.left,fatGet_ideal h.right]
  exact ⟨congrArg some (h.fatOf_eq c),⟨h.geo,h.mounted,h.left,h.right,h.disk,h.buf⟩,fun _ _ => trivial⟩

theorem recounted_fatSet (c v : Nat) : Alike (Recounted n) (fatSet c v) (fun _ _ => True) s t := by
  have hloop : ∀ k f s t, Recounted n s t → Alike (Recounted n) (fatSetLoop c v k f) (fun _ _ => True) s t := by
    intro k
    induction k with
    | zero => exact fun f s t h => Alike.pure h trivial
    | succ k ih =>
      intro f s t h
      unfold Alike
      rw [fatSetLoop_ideal h.left,fatSetLoop_ideal h.right]
      exact ih (f+1) _ _ (h.copySet c v f)
  exact alike_state (by rw [h.geo]) (hloop _ 0 s t h)

theorem Recounted.spc_eq : s.geo.sectorsPerCluster=t.geo.sectorsPerCluster := by
  rw [h.geo]

theorem Recounted.lba_eq (c : Nat) :
    s.geo.partitionLba+clusterToLba s.geo c=t.geo.partitionLba+clusterToLba t.geo c := by
  rw [h.geo]
  rfl

theorem recounted_readCluster (hspc : 0<t.geo.sectorsPerCluster) (c : Nat) :
    Alike (Recounted n) (readCluster c) (fun _ _ => True) s t := by
  unfold Alike
  rw [readCluster_ideal h.left (h.spc_eq ▸ hspc),readCluster_ideal h.right hspc,h.lba_eq,h.spc_eq]
  refine ⟨rfl,⟨h.geo,h.mounted,h.left,h.right,h.disk,?_⟩,fun _ _ => trivial⟩
  funext i
  simp only [readInto,h.buf,h.disk _ _ (Nat.mod_lt i (by decide : 0<SECTOR_SIZE))]

theorem recounted_writeCluster (hspc : 0<t.geo.sectorsPerCluster) (c : Nat) :
    Alike (Recounted n) (writeCluster c) (fun _ _ => True) s t := by
  unfold Alike
  rw [writeCluster_ideal h.left (h.spc_eq ▸ hspc),writeCluster_ideal h.right hspc,h.lba_eq,h.spc_eq]
  refine ⟨rfl,⟨h.geo,h.mounted,h.left,h.right,?_,h.buf⟩,fun _ _ => trivial⟩
  intro sec o ho
  simp only [Ata.store,writeFrom,h.buf,h.disk sec o ho]

theorem recounted_setClusterBuf (f : (Nat → UInt8) → Nat → UInt8) :
    Alike (Recounted n) (setClusterBuf f) (fun _ _ => True) s t :=
  Alike.update ⟨h.geo,h.mounted,h.left,h.right,h.disk,congrArg f h.buf⟩

theorem recounted_fatAllocLoop (k c : Nat) : Alike (Recounted n) (fatAllocLoop k c) (fun _ _ => True) s t := by
  induction k generalizing c s t with
  | zero => exact Alike.pure h trivial
  | succ k ih =>
    refine (recounted_fatGet h c).bind fun v u w h _ => Alike.ite (fun _ => ?_) fun _ => ih h (c+1)
    refine (recounted_fatSet h c LAST).bind fun b u w h _ => ?_
    exact Alike.return_or h fun _ => Alike.pure h trivial

end Recounted

theorem fatAllocLoop_more (hd : d≠0) (m : Nat) (h : fatAllocLoop k c s=(some d,t)) :
    fatAllocLoop (k+m) c s=(some d,t) := by
  induction k generalizing c s with
  | zero =>
    have hzero : 0=d := Option.some_inj.mp (congrArg Prod.fst h)
    exact absurd hzero.symm hd
  | succ k ih =>
    obtain ⟨v,u,hget,hrest⟩ := bind_ended h
    rw [Nat.succ_add,fatAllocLoop,bind_some hget]
    by_cases hv : v=0
    · rw [if_pos hv] at hrest ⊢
      exact hrest
    · rw [if_neg hv] at hrest ⊢
      exact ih hrest

theorem fatAllocLoop_full (h : Ideal s.ata) (hused : ∀ d, c≤d → d<c+k → fatOf s.geo s.ata.disk d≠0) :
    ∃ ops buf, fatAllocLoop k c s =
      (some 0,{ s with ata := { s.ata with ops := ops }, sectorBuf := buf }) := by
  induction k generalizing c s with
  | zero => exact ⟨_,_,rfl⟩
  | succ k ih =>
    rw [fatAllocLoop,bind_some (fatGet_ideal h c),if_neg (hused c (by omega) (by omega))]
    -- reading an entry changes the sector buffer and the count of operations only
    refine ih ?_ ?_
    · exact h
    · exact fun d hd hlt => hused d (by omega) (by omega)

theorem fatOf_overhang (hg : TwoCopies n g) {j : Nat} (hj : j<128*g.fatSizeSectors) (disk : Nat → Nat → UInt8) :
    fatOf g disk (128*g.fatSizeSectors+j)=copyWord g disk 1 j%0x10000000 := by
  have hlay := hg.area.layout
  have hdisk := hg.area.onDisk
  have hshort := hg.short
  rw [hg.copies] at hlay
  have hlba : u28 (u32 (g.partitionLba+fatSector g (128*g.fatSizeSectors+j))) =
      g.partitionLba+g.fatStart+j/128+1*g.fatSizeSectors := by
    unfold fatSector SECTOR_SIZE u28 u32
    omega
  have hoff : entOffset (128*g.fatSizeSectors+j)=4*(j%128) := by
    rw [entOffset_eq]
    omega
  rw [fatOf,hlba,hoff,copyWord]

theorem overhang_used (hg : TwoCopies n g) (hm : Mirrored g disk) (hfull : ∀ c, InVolume g c → fatOf g disk c≠0)
    (h2 : 2≤c) (hc : c<n+2) : fatOf g disk c≠0 := by
  have hcount := hg.count
  have htable := hg.table
  rcases Nat.lt_or_ge c (128*g.fatSizeSectors) with hlt | hge
  · exact hfull c ⟨h2,by omega⟩
  · obtain ⟨j,rfl⟩ := Nat.exists_eq_add_of_le hge
    have hj : j<128*g.fatSizeSectors := by omega
    have hused : copyWord g disk 0 j≠0 := by
      rcases Nat.lt_or_ge j 2 with hj2 | hj2
      · exact hm.marks j hj2
      · have hentry := hfull j ⟨hj2,by omega⟩
        rw [fatOf_copyWord hg.area (by omega)] at hentry
        intro h0
        rw [h0] at hentry
        exact hentry rfl
    rw [fatOf_overhang hg hj,hm.same j hj (.inr hused),Nat.mod_eq_of_lt (hm.small 0 j (by decide) hj)]
    exact hused

/-- The count of the clusters makes no difference to the allocator. -/
theorem recounted_fatAllocCluster (hg : TwoCopies n g) (h : Recounted n s t) (ht : Sees t g V)
    (hm : Mirrored g t.ata.disk) : Alike (Recounted n) fatAllocCluster (fun _ _ => True) s t := by
  have hcount := hg.count
  have hpasses : fatAllocCluster s=(fatAllocLoop n 2 >>= noteAllocated) s := by
    have hall : u32 (n+2) - 2=n := by
      have htable := hg.table
      have hshort := hg.short
      unfold u32
      omega
    rw [fatAllocCluster,state_bind,h.geo,hall]
  have hnote : ∀ d u w, Recounted n u w → Alike (Recounted n) (noteAllocated d) (fun _ _ => True) u w :=
    fun d u w h => ⟨rfl,⟨h.geo,h.mounted,h.left,h.right,h.disk,h.buf⟩,fun _ _ => trivial⟩
  suffices hloop : ∃ d u w, fatAllocLoop n 2 s=(some d,u) ∧ fatAllocLoop g.totalClusters 2 t=(some d,w) ∧
      Recounted n u w by
    obtain ⟨d,u,w,hs,ht',huw⟩ := hloop
    have hlast := hnote d u w huw
    unfold Alike at hlast ⊢
    rw [hpasses,fatAllocCluster_eq ht,bind_some hs,bind_some ht']
    exact hlast
  obtain ⟨w,hw,_⟩ := fatAllocLoop_sees ht g.totalClusters (c := 2) (by omega) (by omega)
  rw [← freeClusters] at hw
  cases hfree : freeClusters g V with
  | nil =>
    have hfull : ∀ c, InVolume g c → fatOf g t.ata.disk c≠0 := by
      intro c hc h0
      rw [ht.fat c hc.2] at h0
      have hmem : c∈freeClusters g V := mem_freeClusters.mpr ⟨hc,h0⟩
      rw [hfree] at hmem
      exact absurd hmem List.not_mem_nil
    obtain ⟨ops,buf,hs⟩ := fatAllocLoop_full h.left (c := 2) (k := n) fun d h2 hd => by
      rw [h.fatOf_eq,ht.geo]
      exact overhang_used hg hm hfull h2 (by omega)
    obtain ⟨ops',buf',ht'⟩ := fatAllocLoop_full h.right (c := 2) (k := g.totalClusters) fun d h2 hd => by
      rw [ht.geo]
      exact hfull d ⟨h2,by omega⟩
    exact ⟨_,_,_,hs,ht',h.geo,h.mounted,h.left,h.right,h.disk,h.buf⟩
  | cons d rest =>
    have hd : d≠0 := by
      have hmem : d∈freeClusters g V := by
        rw [hfree]
        exact List.mem_cons_self
      have h2 := (mem_freeClusters.mp hmem).1.1
      omega
    obtain ⟨hval,hrel,_⟩ := recounted_fatAllocLoop h g.totalClusters 2
    rw [hfree] at hw
    rw [hw] at hval hrel
    have hfound : fatAllocLoop g.totalClusters 2 s=(some d,(fatAllocLoop g.totalClusters 2 s).2) :=
      Prod.ext hval rfl
    have hmore := fatAllocLoop_more hd (n-g.totalClusters) hfound
    rw [Nat.add_sub_cancel' (by omega)] at hmore
    exact ⟨d,_,w,hmore,hw,hrel⟩

/-- `t` counts the clusters that have an entry, and `P` is known of it. -/
def Shadowed (n : Nat) (g : Geo) (P : Fat → Prop) (s t : Fat) : Prop := Recounted n s t ∧ Paired g t ∧ P t

theorem shadowed_alike {α : Type} {x : FatM α} {Q Q' : α → Fat → Prop}
    (h : Alike (Recounted n) x (fun _ _ => True) s t) (hp : Ensures (Paired g) x (fun _ _ => True) t)
    (hP : Ensures P x Q t) (hQ : ∀ a u w, Recounted n u w → P w → Q a w → Q' a u) :
    Alike (Shadowed n g P) x Q' s t := by
  refine ⟨h.1,⟨h.2.1,hp.1,hP.1⟩,fun a ha => ?_⟩
  exact hQ a _ _ h.2.1 hP.1 (hP.2 a (h.1 ▸ ha))

theorem shadowed_steps (hg : TwoCopies n g) :
    Steps (max g.clusterBytes 64) S (Shadowed n g (Safe (fun _ => True) g total S)) where
  room := Nat.le_max_right _ _
  mounted h := h.1.mounted
  root h := by rw [h.1.geo]
  spc h := h.1.spc_eq
  fits := by
    rintro s t ⟨h,hp,_⟩
    rw [Geo.clusterBytes,h.spc_eq,hp.geo]
    exact Nat.le_max_left _ _
  buf h i _ := congrFun h.1.buf i
  get := by
    rintro s t c ⟨h,hp,hs⟩ hc
    exact shadowed_alike (recounted_fatGet h c) (paired_fatGet hp c) (safe_fatGet hs hc) fun _ _ _ _ _ => id
  set := by
    rintro s t c v ⟨h,hp,hs⟩ hc hv
    obtain ⟨V,hV⟩ := hs
    have hin := hV.inVolume c hc
    exact shadowed_alike (recounted_fatSet h c v) (paired_fatSet hg hp hin.1 hin.2 v) (safe_set ⟨V,hV⟩ hc hv)
      fun _ _ _ _ _ => id
  alloc := by
    rintro s t ⟨h,hp,hs⟩
    obtain ⟨V,hV⟩ := hs
    exact shadowed_alike (recounted_fatAllocCluster hg h hV.sees hp.mirrored) (paired_fatAllocCluster hg hp hV.sees)
      (safe_fatAllocCluster ⟨V,hV⟩) fun _ _ _ _ _ => id
  read := by
    rintro s t c ⟨h,hp,hs⟩
    exact shadowed_alike (recounted_readCluster h (hp.spc hg) c) (paired_readCluster hg hp c) (safe_readCluster hs c)
      fun _ _ _ _ _ => id
  write := by
    rintro s t c ⟨h,hp,hs⟩ hc
    obtain ⟨V,hV⟩ := hs
    exact shadowed_alike (recounted_writeCluster h (hp.spc hg) c) (paired_writeCluster hg hp (hV.inVolume c hc))
      (safe_writeCluster ⟨V,hV⟩ hc) fun _ _ _ _ _ => id
  fill := by
    rintro s t f ⟨h,hp,hs⟩ _
    exact shadowed_alike (recounted_setClusterBuf h f) (paired_setClusterBuf hp f) (safe_setClusterBuf hs f)
      fun _ _ _ _ _ => id

theorem shadowed_dirSteps (hg : TwoCopies n g) {E : Dirent → Prop} (hd : DirGuarded g S rt E V) :
    DirSteps S rt E (Shadowed n g (Safe (fun _ => True) g total S))
      (Shadowed n g (Guarded (fun _ => True) g total S V)) where
  rel _ _ h := ⟨h.1,h.2.1,V,h.2.2⟩
  sub := hd.sub
  get := by
    rintro s t c ⟨h,hp,hV⟩ hc
    exact shadowed_alike (recounted_fatGet h c) (paired_fatGet hp c) (hd.get hV hc) fun _ _ _ _ _ => id
  read := by
    rintro s t c ⟨h,hp,hV⟩ hc
    refine shadowed_alike (recounted_readCluster h (hp.spc hg) c) (paired_readCluster hg hp c) (hd.read hV hc) ?_
    intro b u w huw hw hent _ k hk
    have hgeo : entriesPerCluster u.geo=entriesPerCluster g := by
      rw [entriesPerCluster,huw.spc_eq,hw.sees.geo]
      rfl
    rw [huw.buf]
    exact hent k (hgeo ▸ hk)

/-- Beside the state there is a sound volume whose clusters all have an entry. -/
def Shadow (n : Nat) (g : Geo) (s : Fat) : Prop :=
  ∃ t V rc ch, Recounted n s t ∧ Sees t g V ∧ Sound g V rc ch ∧ Paired g t

theorem Shadow.step (hg : TwoCopies n g) (hcb : WRITE_MAX_BYTES≤g.clusterBytes) {a : Call × Nat}
    (h0 : 0∉a.1.name) (h : Shadow n g s) (hu : ended s a=some u) : Shadow n g u := by
  obtain ⟨t,V,rc,ch,hrec,hsees,hs,hp⟩ := h
  obtain ⟨r,hrun⟩ := call_of_ended hu
  have hI : Confined g g.endSector (fun _ => True) := ⟨fun _ _ _ => trivial,fun _ _ _ _ _ _ => trivial⟩
  have hguard := hs.guarded hsees hI (Nat.le_refl _) trivial
  have hroot : g.rootCluster∈rc := List.mem_of_head? hs.root_path.start_eq.symm
  obtain ⟨hval,⟨hrec',hp',_⟩,_⟩ := alike_call (shadowed_steps hg)
    (shadowed_dirSteps hg (hs.dirGuarded hsees.area)) ⟨hrec,hp,hguard⟩
    (fun {u w} h _ => by rw [h.1.geo,h.2.1.geo]; exact hroot) a.1 a.2
  rw [hrun] at hval hrec'
  -- with passes enough the call ends in the same state
  have hend : call a.1 a.2 t=(some r,(call a.1 a.2 t).2) := Prod.ext hval.symm rfl
  have hmore := (mono_call a.1).le (Nat.le_add_right a.2 (g.totalClusters+1)) t r _ hend
  obtain ⟨r',w,W,hlong,hsees',_,rc',ch',hs',_⟩ :=
    call_leftSound (m := 0) hs a.1 hsees hcb h0 (show g.totalClusters<a.2+(g.totalClusters+1) by omega)
  rw [hmore] at hlong
  obtain ⟨_,rfl⟩ := Prod.mk.inj hlong
  exact ⟨_,W,rc',ch',hrec',hsees',hs',hp'⟩

def cappedGeo (part size fatSz : Nat) : Geo :=
  { mkfsGeo part size fatSz with
    totalClusters := min (mkfsGeo part size fatSz).totalClusters (128*fatSz-2) }

theorem cappedGeo_twoCopies (hsize : 2048 ≤ size) (hend : part+size<268435456) :
    TwoCopies (mkfsGeo part size (mkfsFatSize size)).totalClusters (cappedGeo part size (mkfsFatSize size)) := by
  obtain ⟨htwo,hroom,_⟩ := mkfsFatSize_room hsize (show size<4294967296 by omega)
  have hF := mkfsFatSize_eq hsize (show size<4294967296 by omega)
  refine ⟨⟨(by decide : 1≤8),(by decide : 1≤2),?_,rfl,?_⟩,rfl,rfl,?_,?_⟩
  all_goals
    simp only [cappedGeo,mkfsGeo,MKFS_RESERVED,MKFS_FATS,MKFS_SPC]
    omega

theorem MadeFrom.copyWord_eq {disk' : Nat → Nat → UInt8} {fatSz : Nat} (h : MadeFrom part size fatSz disk disk')
    (hc : c<128*fatSz) :
    copyWord (mkfsGeo part size fatSz) disk' 1 c=wordAt (patch 0 tableMarks fun _ => 0) (4*(c%128)) := by
  have hsec : part+MKFS_RESERVED+c/128+1*fatSz=part+MKFS_RESERVED+fatSz+c/128 := by omega
  rw [copyWord]
  apply wordAt_congr
  intro k hk
  simp only [mkfsGeo,hsec]
  exact h.second (by omega) (by omega)

theorem mirrored_made {disk' : Nat → Nat → UInt8} {fatSz : Nat} (h : MadeFrom part size fatSz disk disk')
    (hpos : 1≤fatSz) : Mirrored (mkfsGeo part size fatSz) disk' := by
  have hf := h.formatted hpos
  have hmark : ∀ j, wordAt (patch 0 tableMarks fun _ => 0) (4*j)<0x10000000 := by
    intro j
    have hfew : ∀ j, j<3 → wordAt (patch 0 tableMarks fun _ => 0) (4*j)<0x10000000 := by decide
    rcases Nat.lt_or_ge j 3 with hj | hj
    · exact hfew j hj
    · rw [wordAt_marks hj]
      decide
  refine ⟨?_,?_,?_⟩
  · intro f c hf2 hc
    rcases Nat.lt_or_ge f 1 with hf1 | hf1
    · obtain rfl : f=0 := by omega
      rw [hf.copyWord_eq hc]
      split
      · exact hmark _
      · exact (by decide : (0 : Nat)<0x10000000)
    · obtain rfl : f=1 := by omega
      rw [h.copyWord_eq hc]
      exact hmark _
  · intro c hc hused
    rw [hf.copyWord_eq hc] at hused ⊢
    by_cases hlt : c<128
    · rw [h.copyWord_eq hc,if_pos hlt]
    · rw [if_neg hlt] at hused
      rcases hused with hc' | hne
      · exact absurd hc' hlt
      · exact absurd rfl hne
  · intro c hc
    have hfew : ∀ c, c<2 → wordAt (patch 0 tableMarks fun _ => 0) (4*(c%128))≠0 := by decide
    rw [hf.copyWord_eq (by omega),if_pos (by omega)]
    exact hfew c hc

theorem fatOf_cappedGeo (part size fatSz : Nat) (disk : Nat → Nat → UInt8) (c : Nat) :
    fatOf (cappedGeo part size fatSz) disk c=fatOf (mkfsGeo part size fatSz) disk c := by
  simp only [fatOf,fatSector,cappedGeo]

theorem dataOf_cappedGeo (part size fatSz : Nat) (disk : Nat → Nat → UInt8) (c i : Nat) :
    dataOf (cappedGeo part size fatSz) disk c i=dataOf (mkfsGeo part size fatSz) disk c i := by
  simp only [dataOf,clusterToLba,cappedGeo]

theorem copyWord_cappedGeo (part size fatSz : Nat) (disk : Nat → Nat → UInt8) (f c : Nat) :
    copyWord (cappedGeo part size fatSz) disk f c=copyWord (mkfsGeo part size fatSz) disk f c := by
  simp only [copyWord,cappedGeo]

section Made
variable (hsize : 2048 ≤ size) (hend : part+size<268435456)
include hsize hend

theorem emptyRoot_cappedGeo (hf : Formatted part size (mkfsFatSize size) disk) :
    EmptyRoot (cappedGeo part size (mkfsFatSize size))
      ⟨fatOf (cappedGeo part size (mkfsFatSize size)) disk,dataOf (cappedGeo part size (mkfsFatSize size)) disk⟩ := by
  have hroom := mkfsRoom_of_size hsize hend
  have hg := cappedGeo_twoCopies hsize hend
  have hcl := hg.area.clusters_lt
  obtain ⟨_,hdata,_⟩ := mkfsFatSize_room hsize (show size<4294967296 by omega)
  have htab : (cappedGeo part size (mkfsFatSize size)).totalClusters+2≤128*mkfsFatSize size := hg.area.table
  have hroot : 2≤(cappedGeo part size (mkfsFatSize size)).totalClusters+1 := by
    simp only [cappedGeo,mkfsGeo,MKFS_RESERVED,MKFS_FATS,MKFS_SPC]
    omega
  refine ⟨⟨(by decide : 1≤8),Nat.le_refl 8⟩,htab,⟨Nat.le_refl 2,hroot⟩,?_,?_,?_⟩
  · exact (hf.root_end hroom).trans_eq (fatOf_cappedGeo part size _ disk 2).symm
  · intro c hc h2 hne
    have hne' : c≠2 := hne
    exact (fatOf_cappedGeo part size _ disk c).trans (hf.free hroom (by omega) (by omega) (by omega))
  · intro k hk
    have hk' : k<128 := hk
    exact (dataOf_cappedGeo part size _ disk 2 (32*k)).trans (hf.root_zero hroom (by omega))

theorem shadow_made (hm : u.mounted=true) (h : Ideal u.ata) (hgeo : u.geo=mkfsGeo part size (mkfsFatSize size))
    (hmade : MadeFrom part size (mkfsFatSize size) disk u.ata.disk) :
    Shadow (mkfsGeo part size (mkfsFatSize size)).totalClusters (cappedGeo part size (mkfsFatSize size)) u := by
  have hpos := (mkfsRoom_of_size hsize hend).pos
  have hempty := emptyRoot_cappedGeo hsize hend (hmade.formatted hpos)
  have hmirror := mirrored_made hmade hpos
  refine ⟨{ u with geo := cappedGeo part size (mkfsFatSize size) },_,_,_,
    ⟨?_,rfl,h,h,fun _ _ _ => rfl,rfl⟩,
    ⟨rfl,h,hm,(cappedGeo_twoCopies hsize hend).area,fun _ _ => rfl,fun _ _ _ _ => rfl⟩,
    hempty.consistentWith.sound,rfl,h,?_,?_,?_⟩
  · rw [hgeo]
    rfl
  · simp only [copyWord_cappedGeo]
    exact hmirror.small
  · simp only [copyWord_cappedGeo]
    exact hmirror.same
  · simp only [copyWord_cappedGeo]
    exact hmirror.marks

end Made

def SectorMirrored (k : Nat) (s : Fat) : Prop :=
  ∀ o, o<SECTOR_SIZE → s.ata.disk (s.geo.partitionLba+s.geo.fatStart+s.geo.fatSizeSectors+k) o =
    s.ata.disk (s.geo.partitionLba+s.geo.fatStart+k) o

/-- Sector `k` of the new volume stays the same in both copies, whatever is written, made and deleted on it. -/
def StaysMirrored (s : Fat) (part size k : Nat) : Prop :=
  ∀ t u calls, fat32Mkfs part size s=(some .ok,t) → fat32Mount t=(some .ok,u) →
    (∀ a∈calls, 0∉a.1.name) → Always ended (SectorMirrored k) calls u

theorem wordAt_inj {buf buf' : Nat → UInt8} {i : Nat} (h : wordAt buf i=wordAt buf' i) (hk : k<4) :
    buf (i+k)=buf' (i+k) := by
  obtain ⟨h0,h1,h2,h3⟩ := le32_inj h
  obtain rfl | rfl | rfl | rfl : k=0 ∨ k=1 ∨ k=2 ∨ k=3 := by omega
  · exact h0
  · exact h1
  · exact h2
  · exact h3

theorem Shadow.first_sector (hg : TwoCopies n g) (h : Shadow n g s) : SectorMirrored 0 s := by
  obtain ⟨t,V,rc,ch,hrec,_,_,hp⟩ := h
  have htab := hg.area.table
  intro o ho
  have hlt : o<512 := ho
  have hword := hp.mirrored.same (o/4) (by omega) (.inl (by omega))
  have hbyte := wordAt_inj hword (Nat.mod_lt o (by decide : 0<4))
  have hat : 4*(o/4%128)+o%4=o := by omega
  rw [hat,Nat.div_eq_of_lt (show o/4<128 by omega),Nat.one_mul,Nat.zero_mul] at hbyte
  rw [hrec.disk _ o ho,hrec.disk _ o ho,hrec.geo,hp.geo]
  exact hbyte

theorem made_differs {fatSz : Nat} (hgeo : u.geo=mkfsGeo part size fatSz)
    (hmade : MadeFrom part size fatSz disk u.ata.disk) (hk0 : k≠0) (hk : k<fatSz) : ¬ SectorMirrored k u := by
  intro h
  have hbyte := h 0 (by decide)
  rw [hgeo] at hbyte
  have hsecond := hmade.second hk (o := 0) (by decide)
  have hfirst := (hmade.formatted (by omega)).table k (by omega) hk 0 (by decide)
  simp only [mkfsGeo] at hbyte
  rw [hsecond,hfirst] at hbyte
  exact absurd hbyte (by decide)

/-- For every content of the disk, every partition and every size: of the sectors of the table, the first alone
stays the same in both copies. -/
theorem fat_copies_mirror_iff (h : Ideal s.ata) (hsize : 2048 ≤ size) (hend : part+size<268435456)
    (hk : k < mkfsFatSize size) : StaysMirrored s part size k ↔ k=0 := by
  obtain ⟨t,u,hmkfs,hmount,hm,hideal,hgeo,hmade⟩ := mkfs_mount_made h hsize hend
  constructor
  · intro hstays
    by_contra hk0
    have hnow := always_nil.mp (hstays t u [] hmkfs hmount fun _ ha => absurd ha List.not_mem_nil)
    exact made_differs hgeo hmade hk0 hk hnow
  · rintro rfl t' u' calls hmkfs' hmount' hnames
    rw [hmkfs] at hmkfs'
    obtain ⟨_,rfl⟩ := Prod.mk.inj hmkfs'
    rw [hmount] at hmount'
    obtain ⟨_,rfl⟩ := Prod.mk.inj hmount'
    have hg := cappedGeo_twoCopies hsize hend
    have hcb : WRITE_MAX_BYTES≤(cappedGeo part size (mkfsFatSize size)).clusterBytes := Nat.le_refl 4096
    have heach : EachStep ended (fun _ a => 0∉a.1.name) calls u := by
      intro pre a post w hsplit _
      exact hnames a (by simp [hsplit])
    have hrun := always_of_eachStep (fun _ _ _ hshadow h0 hstep => Shadow.step hg hcb h0 hshadow hstep)
      (shadow_made hsize hend hm hideal hgeo hmade) heach
    exact fun pre post w hsplit hw => (hrun pre post w hsplit hw).first_sector hg

/-- The smallest volume, with its table of two sectors. -/
theorem fat_copies_mirror_small :
    StaysMirrored (attachedTo fun _ _ => 0) 0 2048 0 ∧ ¬ StaysMirrored (attachedTo fun _ _ => 0) 0 2048 1 := by
  have hideal : Ideal (attachedTo fun _ _ => 0).ata := ⟨rfl,fun _ => rfl⟩
  have hend : 0+2048<268435456 := by decide
  have hfirst := fat_copies_mirror_iff (k := 0) hideal (Nat.le_refl 2048) hend (by decide)
  have hsecond := fat_copies_mirror_iff (k := 1) hideal (Nat.le_refl 2048) hend (by decide)
  exact ⟨hfirst.mpr rfl,fun h => absurd (hsecond.mp h) (by decide)⟩

/-- The second sector differs as soon as the smallest volume is mounted. -/
theorem fat_copies_differ :
    ¬ ∀ (s : Fat) (part size k : Nat), Ideal s.ata → 2048 ≤ size → part+size<268435456 → k < mkfsFatSize size →
      StaysMirrored s part size k := by
  intro h
  have hideal : Ideal (attachedTo fun _ _ => 0).ata := ⟨rfl,fun _ => rfl⟩
  obtain ⟨t,u,hmkfs,hmount,_,_,hgeo,hmade⟩ :=
    mkfs_mount_made hideal (Nat.le_refl 2048) (show 0+2048<268435456 by decide)
  have hstays := h (attachedTo fun _ _ => 0) 0 2048 1 hideal (by decide) (by decide) (by decide) t u [] hmkfs hmount
    (fun _ ha => absurd ha List.not_mem_nil)
  exact made_differs hgeo hmade (by decide) (by decide) (always_nil.mp hstays)

end MyKernel.Fat32
