import MyKernel.Fat32.Guarded
import MyKernel.Lib.Traces

/-! When the driver stays inside its partition. -/
namespace MyKernel.Fat32
open Memory MyKernel.Computation Disk Traces

def Bpb.totalSectors (b : Bpb) : Nat :=
  if b.totalSectors16≠0 then b.totalSectors16 else b.totalSectors32

def bootOf (s : Fat) : Bpb := bpbOf (s.ata.disk (u28 s.geo.partitionLba))

/-- Going along the links of the table from `c` one comes to `d`. -/
inductive Reaches (fat : Nat → Nat) : Nat → Nat → Prop
  | here {c : Nat} (h : IsLink c) : Reaches fat c c
  | next {c d : Nat} (h : IsLink c) (h' : Reaches fat (fat c) d) : Reaches fat c d

/-- What the driver takes for granted. -/
structure Contained (total : Nat) (s : Fat) : Prop where
  buffer : s.geo.sectorsPerCluster≤8
  layout : s.geo.dataStart=s.geo.fatStart+s.geo.numFats*s.geo.fatSizeSectors
  data : s.geo.dataStart<total
  table : s.geo.totalClusters+2≤128*s.geo.fatSizeSectors
  onDisk : s.geo.partitionLba+total≤268435456
  ideal : Ideal s.ata
  root : ∀ c, Reaches (viewOf s).fat s.geo.rootCluster c → InVolume s.geo c
  entries : ∀ c, Reaches (viewOf s).fat s.geo.rootCluster c → ∀ k, k<entriesPerCluster s.geo →
    (direntAt ((viewOf s).data c) (32*k)).mark≠0 →
    (direntAt ((viewOf s).data c) (32*k)).listed=true →
    ∀ d, Reaches (viewOf s).fat (direntAt ((viewOf s).data c) (32*k)).first d → InVolume s.geo d

/-- A call of which `n` passes of its loops have been made. -/
def passes (s : Fat) (a : Call × Nat) : Option Fat := some (call a.1 a.2 s).2

def WrittenInside (g : Geo) (total : Nat) (s : Fat) : Prop := ∀ sec∈s.ata.written, Inside g total sec

variable {g : Geo} {s s₀ t : Fat} {fat : Nat → Nat} {c d total lba : Nat} {rt : Nat → Prop}

theorem Reaches.snoc (h : Reaches fat c d) (hlink : IsLink (fat d)) : Reaches fat c (fat d) := by
  induction h with
  | here hc => exact .next hc (.here hlink)
  | next hc _ ih => exact .next hc (ih hlink)

theorem Reaches.eq_of_end (h : Reaches fat c d) (hend : ¬ IsLink (fat c)) : d=c := by
  cases h with
  | here => rfl
  | next _ h' =>
    cases h' with
    | here hlink => exact absurd hlink hend
    | next hlink _ => exact absurd hlink hend

def Trapped (g : Geo) (fat : Nat → Nat) (c : Nat) : Prop :=
  InVolume g c ∧ ∀ d, Reaches fat c d → InVolume g d

theorem trapped_of_link (hlink : IsLink c) (h : ∀ d, Reaches fat c d → InVolume g d) : Trapped g fat c :=
  ⟨h c (.here hlink),h⟩

theorem Trapped.next (ha : Area g) (h : Trapped g fat c) (hlink : IsLink (fat c)) : Trapped g fat (fat c) := by
  have hc : IsLink c := ⟨h.1.1,h.1.lt_eoc ha⟩
  apply trapped_of_link hlink
  intro d hd
  exact h.2 d (.next hc hd)

theorem trapped_of_free (hc : InVolume g c) (h0 : fat c=0) : Trapped g fat c := by
  refine ⟨hc,?_⟩
  intro d hd
  have hend : ¬ IsLink (fat c) := by
    rw [h0]
    exact not_link_zero
  rw [hd.eq_of_end hend]
  exact hc

structure Mounted (s : Fat) : Prop where
  mounted : s.mounted=true
  geo : s.geo=geoOf s.geo.partitionLba (bootOf s)
  spc : 1 ≤ s.geo.sectorsPerCluster

theorem sectorRead_true (h : sectorRead lba s=(some true,t)) :
    bpbOf t.sectorBuf=bpbOf (t.ata.disk (u28 lba)) ∧ t.ata.written=s.ata.written := by
  have hw := sectorRead_written lba s
  rw [h] at hw
  refine ⟨?_,hw⟩
  simp only [sectorRead,ataReadSectors] at h
  split at h
  · cases h
  · split at h
    · cases h
      exact bpbOf_readInto _ _ _
    · cases h

theorem sectorRead_ensures {old : List Nat} (h : s.ata.written=old) (lba : Nat) :
    Ensures (fun t => t.ata.written=old) (sectorRead lba)
      (fun b t => b=true → bpbOf t.sectorBuf=bpbOf (t.ata.disk (u28 lba))) s := by
  refine ⟨(sectorRead_written lba s).trans h,?_⟩
  intro b hb hbt
  rw [hbt] at hb
  exact (sectorRead_true (eq_of_fst hb)).1

theorem ataReady_written (s : Fat) : (ataReady s).2.ata.written=s.ata.written := by
  unfold ataReady
  split
  · rfl
  · rfl

section Mounting
variable {old : List Nat} (h : s.ata.written=old)
include h

theorem tryMountAt_ensures (lba : Nat) : Ensures (fun t => t.ata.written=old) (tryMountAt lba)
    (fun b t => b=true → t.geo=geoOf t.geo.partitionLba (bootOf t) ∧ 1≤t.geo.sectorsPerCluster) s := by
  rw [tryMountAt]
  apply Ensures.bind (Ensures.update _ (Q := fun _ t => t.ata.written=old) h h)
  intro _ t ht _
  apply Ensures.bind (sectorRead_ensures ht lba)
  intro b u hu hb
  split
  next hbt =>
    apply Ensures.bind_eq (state_eq u)
    dsimp only
    split
    · exact Ensures.pure hu (fun hf => nomatch hf)
    · split
      · exact Ensures.pure hu (fun hf => nomatch hf)
      next hspc =>
        apply Ensures.bind_eq (update_eq _ u)
        refine Ensures.pure hu fun _ => ⟨?_,?_⟩
        · show geoOf lba (bpbOf u.sectorBuf)=geoOf lba (bpbOf (u.ata.disk (u28 lba)))
          rw [hb hbt]
        · simp only [geoOf]
          omega
  next => exact Ensures.pure hu (fun hf => nomatch hf)

theorem findFatPartition_ensures : Ensures (fun t => t.ata.written=old) findFatPartition (fun _ _ => True) s := by
  have hset : ∀ (lba : Nat) (t : Fat), t.ata.written=old → Ensures (fun t => t.ata.written=old)
      (do setPartitionLba lba; pure true) (fun _ _ => True) t := by
    intro lba t ht
    apply Ensures.bind_eq (update_eq _ t)
    exact Ensures.pure ht trivial
  rw [findFatPartition]
  apply Ensures.bind (sectorRead_ensures h 0)
  intro b t ht _
  split
  · apply Ensures.bind_eq (state_eq t)
    dsimp only
    split
    · exact hset 0 t ht
    split
    · exact Ensures.pure ht trivial
    split
    · exact hset _ t ht
    apply Ensures.bind (sectorRead_ensures ht 2048)
    intro b' u hu _
    split
    · apply Ensures.bind_eq (state_eq u)
      split
      · exact hset 2048 u hu
      · exact Ensures.pure hu trivial
    · exact Ensures.pure hu trivial
  · exact Ensures.pure ht trivial

theorem mountAt_ensures {x : FatM FatResult} (lba : Nat)
    (hx : ∀ t, t.ata.written=old → Ensures (fun t => t.ata.written=old) x
      (fun r t => r = .ok → Mounted t) t) :
    Ensures (fun t => t.ata.written=old)
      (do if ← tryMountAt lba then setMounted true; pure FatResult.ok else x)
      (fun r t => r = .ok → Mounted t) s := by
  apply Ensures.bind (tryMountAt_ensures h lba)
  intro b t ht hb
  split
  next hbt =>
    apply Ensures.bind_eq (update_eq _ t)
    exact Ensures.pure ht fun _ => ⟨rfl,(hb hbt).1,(hb hbt).2⟩
  next => exact hx t ht

theorem mountFound_ensures : Ensures (fun t => t.ata.written=old) mountFound
    (fun r t => r = .ok → Mounted t) s := by
  rw [mountFound]
  apply Ensures.bind (findFatPartition_ensures h)
  intro b t ht _
  split
  · apply Ensures.bind_eq (state_eq t)
    exact mountAt_ensures ht _ fun u hu => Ensures.pure hu (fun hf => nomatch hf)
  · exact Ensures.pure ht (fun hf => nomatch hf)

theorem fat32Mount_ensures : Ensures (fun t => t.ata.written=old) fat32Mount
    (fun r t => r = .ok → Mounted t) s := by
  rw [fat32Mount]
  apply Ensures.bind_eq (update_eq _ s)
  have hready : Ensures (fun t => t.ata.written=old) ataReady (fun _ _ => True)
      { s with mounted := false } := ⟨(ataReady_written _).trans h,fun _ _ => trivial⟩
  apply Ensures.bind hready
  intro b t ht _
  split
  · apply Ensures.bind_eq (state_eq t)
    dsimp only
    split
    · exact mountAt_ensures ht _ fun u hu => mountFound_ensures hu
    · exact mountFound_ensures ht
  · exact Ensures.pure ht (fun hf => nomatch hf)

end Mounting

theorem mounted_of_mount (h : fat32Mount s₀=(some .ok,s)) : Mounted s ∧ s.ata.written=s₀.ata.written := by
  obtain ⟨hw,hm⟩ := fat32Mount_ensures (s := s₀) rfl
  rw [h] at hw hm
  exact ⟨hm _ rfl rfl,hw⟩

theorem geoOf_room {b : Bpb} (h : (geoOf lba b).dataStart<b.totalSectors) :
    (geoOf lba b).dataStart+(geoOf lba b).totalClusters*(geoOf lba b).sectorsPerCluster ≤
      b.totalSectors := by
  have hclusters : (geoOf lba b).totalClusters =
      (b.totalSectors-(geoOf lba b).dataStart)/(geoOf lba b).sectorsPerCluster := if_pos h
  have hmul := Nat.div_mul_le_self (b.totalSectors-(geoOf lba b).dataStart)
    (geoOf lba b).sectorsPerCluster
  rw [hclusters]
  omega

theorem Contained.area (h : Contained total s) (hspc : 1 ≤ s.geo.sectorsPerCluster) (hcopies : 1 ≤ s.geo.numFats)
    (hroom : s.geo.dataStart+s.geo.totalClusters*s.geo.sectorsPerCluster≤total) : Area s.geo where
  spc := hspc
  copies := hcopies
  table := h.table
  layout := h.layout
  onDisk := by
    have hdisk := h.onDisk
    omega

structure Held (g : Geo) (total : Nat) (s : Fat) : Prop where
  mounted : s.mounted=true
  geo : s.geo=g
  spc : 1≤g.sectorsPerCluster
  copies : 1≤g.numFats
  room : g.dataStart<total → g.dataStart+g.totalClusters*g.sectorsPerCluster≤total
  written : WrittenInside g total s

theorem confined_written (g : Geo) (total : Nat) :
    Confined g total (fun a => ∀ sec∈a.written, Inside g total sec) where
  ops := fun _ _ h => h
  store := by
    intro a lba n buf h hin sec hsec
    cases List.mem_append.mp hsec with
    | inl hnew =>
      have hrange := List.mem_range'_1.mp hnew
      exact hin sec hrange.1 hrange.2
    | inr hold => exact h sec hold

theorem Held.guarded (h : Held g total s) (hc : Contained total s) :
    Guarded (fun a => ∀ sec∈a.written, Inside g total sec) g total (Trapped g (viewOf s).fat)
      (viewOf s) s := by
  obtain rfl := h.geo
  have hroom := h.room hc.data
  have ha := hc.area h.spc h.copies hroom
  exact ⟨sees_viewOf h.mounted hc.ideal ha,hroom,confined_written _ _,h.written,
    fun _ hk => hk.1,fun _ hk hlink => hk.next ha hlink,fun _ hin h0 => trapped_of_free hin h0⟩

theorem Held.call (h : Held g total s) (hc : Contained total s) (a : Call) (n : Nat) :
    Held g total (call a n s).2 := by
  have hguard := h.guarded hc
  have hgeo := h.geo
  have hd : DirGuarded g (Trapped g (viewOf s).fat) (Reaches (viewOf s).fat g.rootCluster)
      (EntryLinks (Trapped g (viewOf s).fat)) (viewOf s) := by
    subst hgeo
    refine ⟨?_,?_,?_⟩
    · intro c hr
      refine ⟨hc.root c hr,?_⟩
      intro d hd
      apply hc.root d
      -- what is reached from `c` is reached from the root
      induction hd with
      | here => exact hr
      | next hlink hd' ih =>
        apply ih
        cases hd' with
        | here hl => exact hr.snoc hl
        | next hl _ => exact hr.snoc hl
    · intro c hr hlink
      exact hr.snoc hlink
    · intro c hr k hk hmark hlisted hlink
      exact trapped_of_link hlink (hc.entries c hr k hk hmark hlisted)
  have hroot : IsLink g.rootCluster → Reaches (viewOf s).fat g.rootCluster g.rootCluster := .here
  obtain ⟨W,hW⟩ := (safe_call hguard hroot hd a n).1
  exact ⟨hW.sees.mounted,hW.sees.geo,h.spc,h.copies,h.room,hW.drive⟩

/-- The sectors written by any run of calls on a mounted volume lie behind the reserved sectors and
inside the partition, if every call finds the volume contained. -/
theorem partition_confined (hm : fat32Mount s₀=(some .ok,s)) (hlog : s₀.ata.written=[])
    (calls : List (Call × Nat))
    (hcalls : EachStep passes (fun t _ => Contained (bootOf s).totalSectors t) calls s) :
    Always passes (WrittenInside s.geo (bootOf s).totalSectors) calls s := by
  obtain ⟨hmount,hw⟩ := mounted_of_mount hm
  have hstart : Held s.geo (bootOf s).totalSectors s := by
    refine ⟨hmount.mounted,rfl,hmount.spc,?_,?_,?_⟩
    · rw [hmount.geo]
      simp only [geoOf]
      split
      · omega
      · omega
    · rw [hmount.geo]
      exact geoOf_room
    · intro sec hsec
      rw [hw,hlog] at hsec
      cases hsec
  have hheld : Always passes (Held s.geo (bootOf s).totalSectors) calls s := by
    apply always_of_eachStep _ hstart hcalls
    intro t a u ht hc hu
    rw [← Option.some_inj.mp hu]
    exact ht.call hc a.1 a.2
  intro pre post t hsplit ht
  exact (hheld pre post t hsplit ht).written

theorem emptyVolume_contained : Contained (bootOf emptyVolume).totalSectors emptyVolume := by
  have hend : ¬ IsLink ((viewOf emptyVolume).fat emptyVolume.geo.rootCluster) := by
    have hfat : (viewOf emptyVolume).fat emptyVolume.geo.rootCluster=LAST := by decide +kernel
    rw [hfat]
    exact not_link_last
  have hmark : ∀ k<entriesPerCluster emptyVolume.geo,
      (direntAt ((viewOf emptyVolume).data emptyVolume.geo.rootCluster) (32*k)).mark=0 := by
    decide +kernel
  refine ⟨by decide +kernel,by decide +kernel,by decide +kernel,by decide +kernel,by decide +kernel,
    ⟨by decide +kernel,fun _ => rfl⟩,?_,?_⟩
  · intro c hc
    rw [hc.eq_of_end hend]
    exact ⟨by decide +kernel,by decide +kernel⟩
  · intro c hc k hk hne
    rw [hc.eq_of_end hend] at hne
    exact absurd (hmark k hk) hne

/-- A file written to an empty volume of eight sectors. -/
theorem partition_confined_write :
    Always passes (WrittenInside emptyVolume.geo (bootOf emptyVolume).totalSectors)
      [(.write [0x41] [0x68,0x69],9)] emptyVolume := by
  have hm : fat32Mount (attachedTo (emptyDisk (bootSector 1 8 1)))=(some .ok,emptyVolume) :=
    eq_of_fst (by decide +kernel)
  apply partition_confined hm rfl
  exact eachStep_cons.mpr ⟨emptyVolume_contained,fun _ _ => eachStep_nil⟩

def strayEntry : List UInt8 := direntBytes (nameTo83 [0x41]) ATTR_ARCHIVE 1000 1

def strayDisk (sector offset : Nat) : UInt8 :=
  if sector=2 then strayEntry.getD offset 0 else emptyDisk (bootSector 1 8 1) sector offset

def strayVolume : Fat := (fat32Mount (attachedTo strayDisk)).2

/-- To free the cluster of the entry the driver writes to the sector behind the partition. -/
theorem partition_confined_fails :
    ¬ ∀ (s₀ s : Fat) (calls : List (Call × Nat)), fat32Mount s₀=(some .ok,s) → s₀.ata.written=[] →
      Always passes (WrittenInside s.geo (bootOf s).totalSectors) calls s := by
  intro h
  obtain ⟨s,hm,hmem,hend⟩ : ∃ s, fat32Mount (attachedTo strayDisk)=(some .ok,s) ∧
      8∈(call (.unlink [0x41]) 9 s).2.ata.written ∧ s.geo.partitionLba+(bootOf s).totalSectors=8 :=
    ⟨strayVolume,eq_of_fst (by decide +kernel),by decide +kernel,by decide +kernel⟩
  have hall := h _ s [(.unlink [0x41],9)] hm rfl [(.unlink [0x41],9)] [] _ rfl rfl
  have hlt := (hall 8 hmem).2
  omega

end MyKernel.Fat32
