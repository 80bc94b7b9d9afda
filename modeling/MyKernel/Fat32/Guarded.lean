import MyKernel.Fat32.Traversal

/-! Where the driver writes: to clusters that are free or linked from the directory. -/
namespace MyKernel.Fat32
open Memory MyKernel.Computation Disk

def Inside (g : Geo) (total sec : Nat) : Prop :=
  g.partitionLba+g.fatStart ≤ sec ∧ sec<g.partitionLba+total

/-- What is known of the drive survives a read, and a write inside the partition. -/
structure Confined (g : Geo) (total : Nat) (I : Ata → Prop) : Prop where
  ops : ∀ a n, I a → I { a with ops := n }
  store : ∀ a lba n buf, I a → (∀ sec, lba ≤ sec → sec<lba+n → Inside g total sec) →
    I (a.store lba n buf)

structure Guarded (I : Ata → Prop) (g : Geo) (total : Nat) (S : Nat → Prop) (V : View) (s : Fat) :
    Prop where
  sees : Sees s g V
  room : g.dataStart+g.totalClusters*g.sectorsPerCluster≤total
  confined : Confined g total I
  drive : I s.ata
  inVolume : ∀ c, S c → InVolume g c
  closed : ∀ c, S c → IsLink (V.fat c) → S (V.fat c)
  free : ∀ c, InVolume g c → V.fat c=0 → S c

def Safe (I : Ata → Prop) (g : Geo) (total : Nat) (S : Nat → Prop) (s : Fat) : Prop :=
  ∃ V, Guarded I g total S V s

variable {I : Ata → Prop} {g : Geo} {V : View} {s t : Fat} {S T rt : Nat → Prop} {c d v total lba n : Nat}

theorem Confined.write (h : Confined g total I) {a : Ata} {count : Nat} {buf : Nat → UInt8} (ha : I a)
    (hin : ∀ sec, u28 lba ≤ sec → sec<u28 lba+count → Inside g total sec) :
    I (ataWriteSectors a lba count buf).2 := by
  unfold ataWriteSectors
  split
  · exact ha
  · split
    · exact h.store _ _ _ _ ha hin
    · apply h.store _ _ _ _ ha
      intro sec hle hlt
      exact hin sec hle (by omega)

theorem Confined.fatSetLoop (hI : Confined g total I) (ha : Area g) (hdata : g.dataStart≤total)
    (hc : c≤g.totalClusters+1) {f : Nat} (hf : f+n≤g.numFats) (hgeo : s.geo=g) (h : I s.ata) :
    Ensures (fun t => t.geo=g ∧ I t.ata) (fatSetLoop c v n f) (fun _ _ => True) s := by
  induction n generalizing f s with
  | zero => exact Ensures.pure ⟨hgeo,h⟩ trivial
  | succ n ih =>
    rw [Fat32.fatSetLoop]
    apply Ensures.bind_eq (state_eq s)
    have hread : Ensures (fun t => t.geo=g ∧ I t.ata)
        (sectorRead (u32 (s.geo.partitionLba+u32 (fatSector s.geo c+u32 (f*s.geo.fatSizeSectors)))))
        (fun _ _ => True) s := by
      obtain ⟨ops,hops⟩ := sectorRead_drive
        (u32 (s.geo.partitionLba+u32 (fatSector s.geo c+u32 (f*s.geo.fatSizeSectors)))) s
      refine ⟨⟨hgeo,?_⟩,fun _ _ => trivial⟩
      rw [hops]
      exact hI.ops _ _ h
    apply Ensures.bind hread
    intro b t ht _
    split
    · apply Ensures.bind (Ensures.update _ (Q := fun _ u => u.geo=g ∧ I u.ata) ht ht)
      intro _ u hu _
      -- the sector of the entry in copy `f`
      have hlba := fatLba ha hc (show f<g.numFats by omega)
      have hfat := ha.fat_le (show f<g.numFats by omega)
      have htab := ha.table
      have hwrite : Ensures (fun t => t.geo=g ∧ I t.ata)
          (sectorWrite (u32 (s.geo.partitionLba +
            u32 (fatSector s.geo c+u32 (f*s.geo.fatSizeSectors))))) (fun _ _ => True) u := by
        refine ⟨⟨hu.1,hI.write hu.2 ?_⟩,fun _ _ => trivial⟩
        intro sec hle hlt
        rw [hgeo,← copySector,hlba] at hle hlt
        exact ⟨by omega,by omega⟩
      apply Ensures.bind hwrite
      intro b' w hw _
      split
      · exact ih (by omega) hw.1 hw.2
      · exact Ensures.pure hw trivial
    · exact Ensures.pure ht trivial

theorem Guarded.of_sees (h : Guarded I g total S V s) (ht : Sees t g V) {ops : Nat}
    (hd : t.ata={ s.ata with ops := ops }) : Guarded I g total S V t where
  sees := ht
  room := h.room
  confined := h.confined
  drive := by
    rw [hd]
    exact h.confined.ops _ _ h.drive
  inVolume := h.inVolume
  closed := h.closed
  free := h.free

theorem Guarded.fatGet (h : Guarded I g total S V s) (hc : InVolume g c) :
    ∃ t, fatGet c s=(some (V.fat c),t) ∧ Guarded I g total S V t ∧ t.clusterBuf=s.clusterBuf := by
  obtain ⟨t,ht,hsees,hbuf⟩ := fatGet_sees h.sees hc.2
  obtain ⟨ops,hd⟩ := fatGet_drive c s
  rw [ht] at hd
  exact ⟨t,ht,h.of_sees hsees hd,hbuf⟩

theorem Guarded.readCluster (h : Guarded I g total S V s) (hc : InVolume g c) :
    ∃ t, readCluster c s=(some true,t) ∧ Guarded I g total S V t ∧
      ∀ i, i<g.clusterBytes → t.clusterBuf i=V.data c i := by
  obtain ⟨t,ht,hsees,hbuf⟩ := readCluster_sees h.sees hc
  obtain ⟨ops,hd⟩ := readCluster_drive c s
  rw [ht] at hd
  exact ⟨t,ht,h.of_sees hsees hd,hbuf⟩

theorem Guarded.readAny (h : Guarded I g total S V s) (c : Nat) :
    ∃ b t, Fat32.readCluster c s=(some b,t) ∧ Guarded I g total S V t := by
  obtain ⟨ops,hd⟩ := readCluster_drive c s
  refine ⟨_,_,rfl,h.of_sees ?_ hd⟩
  obtain ⟨ops',hr⟩ := ataReadSectors_drive s.ata (u32 (s.geo.partitionLba+clusterToLba s.geo c))
    s.geo.sectorsPerCluster s.clusterBuf
  simp only [hr]
  exact h.sees.of_disk rfl rfl rfl rfl rfl

theorem Guarded.fatSet (h : Guarded I g total S V s) (hc : S c) (hv : IsLink (v%0x10000000) → S (v%0x10000000)) :
    ∃ t, fatSet c v s=(some true,t) ∧ Guarded I g total S (V.setFat c (v%0x10000000)) t := by
  have hin := h.inVolume c hc
  have hroom := h.room
  obtain ⟨t,ht,hsees,_⟩ := fatSet_sees h.sees hin.2 v
  have hdrive : I t.ata := by
    have hloop : Ensures (fun t => t.geo=g ∧ I t.ata) (Fat32.fatSet c v) (fun _ _ => True) s :=
      h.confined.fatSetLoop h.sees.area (by omega) hin.2 (by rw [h.sees.geo,Nat.zero_add])
        h.sees.geo h.drive
    unfold Ensures at hloop
    rw [ht] at hloop
    exact hloop.1.2
  refine ⟨t,ht,hsees,h.room,h.confined,hdrive,h.inVolume,?_,?_⟩
  · intro d hd
    by_cases hdc : d=c
    · simp only [setFat_fat,if_pos hdc]
      exact hv
    · simp only [setFat_fat,if_neg hdc]
      exact h.closed d hd
  · intro d hd
    by_cases hdc : d=c
    · intro _
      rw [hdc]
      exact hc
    · simp only [setFat_fat,if_neg hdc]
      exact h.free d hd

theorem Guarded.writeCluster (h : Guarded I g total S V s) (hc : S c) :
    ∃ t, writeCluster c s=(some true,t) ∧ Guarded I g total S (V.setData c s.clusterBuf) t := by
  have hin := h.inVolume c hc
  obtain ⟨t,ht,hsees⟩ := writeCluster_sees h.sees hin (fun _ _ => rfl)
  have hdrive : I (Fat32.writeCluster c s).2.ata := by
    apply h.confined.write h.drive
    intro sec hle hlt
    rw [h.sees.geo,dataLba h.sees.area hin] at hle hlt
    have hlay := h.sees.area.layout
    have hroom := h.room
    have hmul : (c-2+1)*g.sectorsPerCluster≤g.totalClusters*g.sectorsPerCluster :=
      Nat.mul_le_mul_right _ (by have := hin.1; have := hin.2; omega)
    rw [Nat.succ_mul] at hmul
    exact ⟨by omega,by omega⟩
  rw [ht] at hdrive
  exact ⟨t,ht,hsees,h.room,h.confined,hdrive,h.inVolume,h.closed,h.free⟩

section Calls
variable (h : Safe I g total S s)
include h

theorem safe_fatGet (hc : S c) : Ensures (Safe I g total S) (fatGet c) (fun v _ => IsLink v → S v) s := by
  obtain ⟨V,hV⟩ := h
  obtain ⟨t,ht,hg,_⟩ := hV.fatGet (hV.inVolume c hc)
  exact Ensures.of_eq ht ⟨V,hg⟩ (hV.closed c hc)

theorem safe_fatSet (hc : S c) (hv : IsLink (v%0x10000000) → S (v%0x10000000)) :
    Ensures (Safe I g total S) (fatSet c v) (fun _ _ => True) s := by
  obtain ⟨V,hV⟩ := h
  obtain ⟨t,ht,hg⟩ := hV.fatSet hc hv
  exact Ensures.of_eq ht ⟨_,hg⟩ trivial

theorem safe_link (hc : S c) (hd : S d) : Ensures (Safe I g total S) (fatSet c d) (fun _ _ => True) s := by
  obtain ⟨V,hV⟩ := h
  have hlt := hV.sees.area.clusters_lt
  have hle := (hV.inVolume d hd).2
  have hmod : d%0x10000000=d := Nat.mod_eq_of_lt (by omega)
  apply safe_fatSet ⟨V,hV⟩ hc
  rw [hmod]
  exact fun _ => hd

theorem safe_readCluster (c : Nat) : Ensures (Safe I g total S) (readCluster c) (fun _ _ => True) s := by
  obtain ⟨V,hV⟩ := h
  obtain ⟨b,t,ht,hg⟩ := hV.readAny c
  exact Ensures.of_eq ht ⟨V,hg⟩ trivial

theorem safe_writeCluster (hc : S c) : Ensures (Safe I g total S) (writeCluster c) (fun _ _ => True) s := by
  obtain ⟨V,hV⟩ := h
  obtain ⟨t,ht,hg⟩ := hV.writeCluster hc
  exact Ensures.of_eq ht ⟨_,hg⟩ trivial

theorem safe_setClusterBuf (f : (Nat → UInt8) → Nat → UInt8) :
    Ensures (Safe I g total S) (setClusterBuf f) (fun _ _ => True) s := by
  obtain ⟨V,hV⟩ := h
  obtain ⟨t,ht,hsees,_⟩ := setClusterBuf_sees hV.sees f
  have hd : t.ata={ s.ata with ops := s.ata.ops } := by
    have hs : t=(setClusterBuf f s).2 := by rw [ht]
    rw [hs]
    rfl
  exact Ensures.of_eq ht ⟨V,hV.of_sees hsees hd⟩ trivial

end Calls

theorem not_link_zero : ¬ IsLink (0%0x10000000) := by
  unfold IsLink
  omega

theorem not_link_last : ¬ IsLink (LAST%0x10000000) := by
  unfold IsLink LAST EOC
  omega

theorem safe_fatAllocLoop (h : Safe I g total S s) (hc : 2≤c) (hn : c+n≤g.totalClusters+2) :
    Ensures (Safe I g total S) (fatAllocLoop n c) (fun d _ => d≠0 → S d) s := by
  induction n generalizing c s with
  | zero => exact Ensures.pure h (fun hne => absurd rfl hne)
  | succ n ih =>
    obtain ⟨V,hV⟩ := h
    have hin : InVolume g c := ⟨hc,by omega⟩
    obtain ⟨t,ht,hg,_⟩ := hV.fatGet hin
    rw [fatAllocLoop]
    apply Ensures.bind_eq ht
    split
    next h0 =>
      have hS := hV.free c hin h0
      apply Ensures.bind (safe_fatSet ⟨V,hg⟩ hS (fun hl => absurd hl not_link_last))
      intro b u hu _
      split
      · exact Ensures.pure hu fun _ => hS
      · exact Ensures.pure hu (fun hne => absurd rfl hne)
    next => exact ih ⟨V,hg⟩ (by omega) (by omega)

theorem safe_fatAllocCluster (h : Safe I g total S s) :
    Ensures (Safe I g total S) fatAllocCluster (fun d _ => d≠0 → S d) s := by
  obtain ⟨V,hV⟩ := h
  have heq := fatAllocCluster_eq hV.sees
  have hnote : Ensures (Safe I g total S) (fatAllocLoop g.totalClusters 2 >>= noteAllocated)
      (fun d _ => d≠0 → S d) s := by
    apply Ensures.bind (safe_fatAllocLoop ⟨V,hV⟩ (Nat.le_refl 2) (by omega))
    intro d t ht hd
    obtain ⟨W,hW⟩ := ht
    exact Ensures.of_eq rfl ⟨W,hW.of_sees (hW.sees.of_disk rfl rfl rfl rfl rfl) rfl⟩ hd
  unfold Ensures at hnote ⊢
  rw [heq]
  exact hnote

/-- The clusters of the directory have `rt`. Every entry in them that a search may find has `E`. -/
structure DirGuarded (g : Geo) (S rt : Nat → Prop) (E : Dirent → Prop) (V : View) : Prop where
  sub : ∀ c, rt c → S c
  closed : ∀ c, rt c → IsLink (V.fat c) → rt (V.fat c)
  entry : ∀ c, rt c → ∀ k, k<entriesPerCluster g → (direntAt (V.data c) (32*k)).mark≠0 →
    (direntAt (V.data c) (32*k)).listed=true → E (direntAt (V.data c) (32*k))

theorem safe_set (h : Safe I g total S s) (hc : S c) (hv : v=0 ∨ v=LAST ∨ S v) :
    Ensures (Safe I g total S) (fatSet c v) (fun _ _ => True) s := by
  rcases hv with rfl | rfl | hv
  · exact safe_fatSet h hc fun hl => absurd hl not_link_zero
  · exact safe_fatSet h hc fun hl => absurd hl not_link_last
  · exact safe_link h hc hv

theorem safe_steps : Steps (max g.clusterBytes 64) S (fun s t => s=t ∧ Safe I g total S s) where
  room := Nat.le_max_right _ _
  mounted h := congrArg Fat.mounted h.1
  root h := by rw [h.1]
  spc h := by rw [h.1]
  fits := by
    rintro s t ⟨_,V,hV⟩
    rw [hV.sees.geo]
    exact Nat.le_max_left _ _
  buf h i _ := by rw [h.1]
  get := by
    rintro s _ c ⟨rfl,h⟩ hc
    exact (safe_fatGet h hc).alike
  set := by
    rintro s _ c v ⟨rfl,h⟩ hc hv
    exact (safe_set h hc hv).alike
  alloc := by
    rintro s _ ⟨rfl,h⟩
    exact (safe_fatAllocCluster h).alike
  read := by
    rintro s _ c ⟨rfl,h⟩
    exact (safe_readCluster h c).alike
  write := by
    rintro s _ c ⟨rfl,h⟩ hc
    exact (safe_writeCluster h hc).alike
  fill := by
    rintro s _ f ⟨rfl,h⟩ _
    exact (safe_setClusterBuf h f).alike

section Directory
variable {E : Dirent → Prop} (hd : DirGuarded g S rt E V)
include hd

theorem DirGuarded.get (h : Guarded I g total S V s) (hc : rt c) :
    Ensures (Guarded I g total S V) (fatGet c) (fun v _ => IsLink v → rt v) s := by
  obtain ⟨t,ht,hg,_⟩ := h.fatGet (h.inVolume c (hd.sub c hc))
  exact Ensures.of_eq ht hg (hd.closed c hc)

theorem DirGuarded.read (h : Guarded I g total S V s) (hc : rt c) :
    Ensures (Guarded I g total S V) (readCluster c) (fun _ t => ∀ k, k<entriesPerCluster g →
      (direntAt t.clusterBuf (32*k)).mark≠0 → (direntAt t.clusterBuf (32*k)).listed=true →
        E (direntAt t.clusterBuf (32*k))) s := by
  obtain ⟨t,ht,hg,hbuf⟩ := h.readCluster (h.inVolume c (hd.sub c hc))
  refine Ensures.of_eq ht hg fun k hk => ?_
  have hread : direntAt t.clusterBuf (32*k)=direntAt (V.data c) (32*k) := by
    have hb := slot_bound hk
    exact direntAt_congr fun j hj => hbuf _ (by omega)
  rw [hread]
  exact hd.entry c hc k hk

theorem DirGuarded.steps :
    DirSteps S rt E (fun s t => s=t ∧ Safe I g total S s) (fun s t => s=t ∧ Guarded I g total S V s) where
  rel _ _ h := ⟨h.1,V,h.2⟩
  sub := hd.sub
  get := by
    rintro s _ c ⟨rfl,h⟩ hc
    exact (hd.get h hc).alike
  read := by
    rintro s _ c ⟨rfl,h⟩ hc
    refine ⟨rfl,⟨rfl,(hd.read h hc).1⟩,fun b hb _ => ?_⟩
    rw [(hd.read h hc).1.sees.geo]
    exact (hd.read h hc).2 b hb

end Directory

theorem safe_call (h : Guarded I g total S V s) (hroot : IsLink g.rootCluster → rt g.rootCluster)
    (hd : DirGuarded g S rt (EntryLinks S) V) (a : Call) (n : Nat) :
    Ensures (Safe I g total S) (call a n) (fun _ _ => True) s := by
  refine (alike_call safe_steps hd.steps ⟨rfl,h⟩ ?_ a n).ensures
  rintro u w ⟨_,W,hW⟩
  rw [hW.sees.geo]
  exact hroot

end MyKernel.Fat32
