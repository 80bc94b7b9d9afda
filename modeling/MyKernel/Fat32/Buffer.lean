import MyKernel.Fat32.Partition

/-! The cluster buffer has room for eight sectors. What stays within it does not depend on the bytes behind. -/
namespace MyKernel.Fat32
open Memory MyKernel.Computation Disk

def CLUSTER_BUF : Nat := SECTOR_SIZE*8

structure SameDrive (a b : Ata) : Prop where
  present : a.present=b.present
  attached : a.attached=b.attached
  outcome : a.outcome=b.outcome
  ops : a.ops=b.ops
  written : a.written=b.written
  disk : ∀ sec o, o<SECTOR_SIZE → a.disk sec o=b.disk sec o

/-- Two states that differ at most behind the cluster buffer. -/
structure SameFront (s t : Fat) : Prop where
  mounted : s.mounted=t.mounted
  geo : s.geo=t.geo
  drive : SameDrive s.ata t.ata
  sector : s.sectorBuf=t.sectorBuf
  cluster : ∀ i, i<CLUSTER_BUF → s.clusterBuf i=t.clusterBuf i
  allocated : s.allocated=t.allocated

def InBuffer {α : Type} (g : Geo) (x : FatM α) : Prop :=
  ∀ s t, s.geo=g → SameFront s t → (x s).1=(x t).1 ∧ SameFront (x s).2 (x t).2 ∧
    ∀ i, CLUSTER_BUF ≤ i → (x s).2.clusterBuf i=s.clusterBuf i

/-- The users of the buffer stay within it. -/
structure StaysInBuffer (g : Geo) : Prop where
  readCluster : ∀ c, InBuffer g (readCluster c)
  writeCluster : ∀ c, InBuffer g (writeCluster c)
  iterateDir : ∀ (β : Type) (fn : Dirent → Option β) n c, InBuffer g (iterateDir fn n c)
  findSlotInRoot : ∀ n want, InBuffer g (findSlotInRoot n want)
  fat32Write : ∀ n name text, InBuffer g (fat32Write n name text)
  fat32Mkdir : ∀ n name, InBuffer g (fat32Mkdir n name)
  fat32Unlink : ∀ n name, InBuffer g (fat32Unlink n name)
  fat32Cat : ∀ n path, InBuffer g (fat32Cat n path)
  fat32ReadFile : ∀ n name bufSize, InBuffer g (fat32ReadFile n name bufSize)

/-- Two states with the geometry `g` that agree but for `p` and `q` behind the buffer. -/
structure Beside (g : Geo) (p q : Nat → UInt8) (s t : Fat) : Prop where
  same : SameFront s t
  geo : s.geo=g
  left : ∀ i, CLUSTER_BUF ≤ i → s.clusterBuf i=p i
  right : ∀ i, CLUSTER_BUF ≤ i → t.clusterBuf i=q i

variable {g : Geo} {p q buf buf' : Nat → UInt8} {s t : Fat} {a b : Ata} {α β : Type}
variable {c v n k lba count fuel : Nat} {name text want key : List UInt8}

theorem Beside.geo' (h : Beside g p q s t) : t.geo=g := h.same.geo.symm.trans h.geo

theorem inBuffer_of_alike {x : FatM α} {Q : α → Fat → Prop}
    (h : ∀ p q s t, Beside g p q s t → Alike (Beside g p q) x Q s t) : InBuffer g x := by
  intro s t hgeo hsame
  obtain ⟨hval,hrel,_⟩ := h s.clusterBuf t.clusterBuf s t ⟨hsame,hgeo,fun _ _ => rfl,fun _ _ => rfl⟩
  exact ⟨hval,hrel.same,hrel.left⟩

theorem readInto_same (h : SameDrive a b) (lba n : Nat) {m i : Nat} (hb : ∀ i, i < m → buf i=buf' i) (hi : i < m) :
    readInto a.disk lba n buf i=readInto b.disk lba n buf' i := by
  unfold readInto
  split
  · exact h.disk _ _ (Nat.mod_lt _ (by decide))
  · exact hb i hi

theorem readInto_behind {disk : Nat → Nat → UInt8} {i : Nat} (hi : SECTOR_SIZE*n ≤ i) :
    readInto disk lba n buf i=buf i := if_neg (by omega)

theorem SameDrive.store (h : SameDrive a b) (lba : Nat) (hb : ∀ i, i<SECTOR_SIZE*n → buf i=buf' i) :
    SameDrive (a.store lba n buf) (b.store lba n buf') := by
  refine ⟨h.present,h.attached,h.outcome,congrArg (·+1) h.ops,?_,?_⟩
  · simp only [Ata.store,h.written]
  · intro sec o ho
    simp only [Ata.store,writeFrom]
    split
    next hin =>
      apply hb
      have hmul : SECTOR_SIZE*(sec-lba+1)≤SECTOR_SIZE*n := Nat.mul_le_mul_left _ (by omega)
      rw [Nat.mul_succ] at hmul
      omega
    next => exact h.disk sec o ho

theorem ataReadSectors_same (h : SameDrive a b) (lba count : Nat) {m : Nat} (hb : ∀ i, i < m → buf i=buf' i) :
    (ataReadSectors a lba count buf).1=(ataReadSectors b lba count buf').1 ∧
      (∀ i, i < m → (ataReadSectors a lba count buf).2.1 i=(ataReadSectors b lba count buf').2.1 i) ∧
      SameDrive (ataReadSectors a lba count buf).2.2 (ataReadSectors b lba count buf').2.2 := by
  unfold ataReadSectors
  rw [← h.present,← h.outcome,← h.ops]
  split
  · exact ⟨rfl,hb,h⟩
  · split
    · exact ⟨rfl,fun i hi => readInto_same h _ _ hb hi,
        ⟨rfl,h.attached,rfl,rfl,h.written,h.disk⟩⟩
    · exact ⟨rfl,fun i hi => readInto_same h _ _ hb hi,
        ⟨rfl,h.attached,rfl,rfl,h.written,h.disk⟩⟩

theorem ataReadSectors_behind (a : Ata) {i : Nat} (hi : SECTOR_SIZE*count ≤ i) :
    (ataReadSectors a lba count buf).2.1 i=buf i := by
  unfold ataReadSectors
  split
  · rfl
  · split
    · exact readInto_behind hi
    · refine readInto_behind ((Nat.mul_le_mul_left _ (Nat.min_le_right _ _)).trans hi)

theorem ataWriteSectors_same (h : SameDrive a b) (lba count : Nat) (hb : ∀ i, i<SECTOR_SIZE*count → buf i=buf' i) :
    (ataWriteSectors a lba count buf).1=(ataWriteSectors b lba count buf').1 ∧
      SameDrive (ataWriteSectors a lba count buf).2 (ataWriteSectors b lba count buf').2 := by
  unfold ataWriteSectors
  rw [← h.present,← h.outcome,← h.ops]
  split
  · exact ⟨rfl,h⟩
  · split
    · exact ⟨rfl,h.store _ hb⟩
    · refine ⟨rfl,h.store _ fun i hi => hb i ?_⟩
      exact Nat.lt_of_lt_of_le hi (Nat.mul_le_mul_left _ (Nat.min_le_right _ _))

section Sectors
variable (h : Beside g p q s t)
include h

theorem alike_sectorRead (lba : Nat) : Alike (Beside g p q) (sectorRead lba) (fun _ _ => True) s t := by
  obtain ⟨hval,hbuf,hdrive⟩ := ataReadSectors_same (m := SECTOR_SIZE) h.same.drive lba 1
    fun i _ => congrFun h.same.sector i
  refine ⟨congrArg some hval,⟨⟨h.same.mounted,h.same.geo,hdrive,?_,h.same.cluster,h.same.allocated⟩,h.geo,h.left,
    h.right⟩,fun _ _ => trivial⟩
  funext i
  by_cases hi : i<SECTOR_SIZE
  · exact hbuf i hi
  · have hi' : SECTOR_SIZE*1 ≤ i := by omega
    refine (ataReadSectors_behind s.ata hi').trans (Eq.trans ?_ (ataReadSectors_behind t.ata hi').symm)
    exact congrFun h.same.sector i

theorem alike_sectorWrite (lba : Nat) : Alike (Beside g p q) (sectorWrite lba) (fun _ _ => True) s t := by
  obtain ⟨hval,hdrive⟩ := ataWriteSectors_same h.same.drive lba 1 fun i _ => congrFun h.same.sector i
  exact ⟨congrArg some hval,⟨⟨h.same.mounted,h.same.geo,hdrive,h.same.sector,h.same.cluster,h.same.allocated⟩,
    h.geo,h.left,h.right⟩,fun _ _ => trivial⟩

theorem alike_setSectorBuf (f : (Nat → UInt8) → Nat → UInt8) :
    Alike (Beside g p q) (setSectorBuf f) (fun _ _ => True) s t :=
  Alike.update ⟨⟨h.same.mounted,h.same.geo,h.same.drive,congrArg f h.same.sector,h.same.cluster,
    h.same.allocated⟩,h.geo,h.left,h.right⟩

theorem alike_setClusterBuf {f : (Nat → UInt8) → Nat → UInt8} (hf : NearOnly CLUSTER_BUF f) :
    Alike (Beside g p q) (setClusterBuf f) (fun _ _ => True) s t := by
  refine Alike.update ⟨⟨h.same.mounted,h.same.geo,h.same.drive,h.same.sector,?_,h.same.allocated⟩,h.geo,?_,?_⟩
  · exact hf.1 _ _ h.same.cluster
  · exact fun i hi => (hf.2 _ i hi).trans (h.left i hi)
  · exact fun i hi => (hf.2 _ i hi).trans (h.right i hi)

theorem alike_noteAllocated (c : Nat) : Alike (Beside g p q) (noteAllocated c) (fun _ _ => True) s t :=
  ⟨rfl,⟨⟨h.same.mounted,h.same.geo,h.same.drive,h.same.sector,h.same.cluster,
    congrArg (c::·) h.same.allocated⟩,h.geo,h.left,h.right⟩,fun _ _ => trivial⟩

theorem alike_fatGet (c : Nat) : Alike (Beside g p q) (fatGet c) (fun _ _ => True) s t := by
  refine alike_state (by rw [h.same.geo]) ((alike_sectorRead h _).bind fun b u w h _ => ?_)
  refine Alike.or_return h fun _ => alike_state ?_ (Alike.pure h trivial)
  rw [h.same.sector]

theorem alike_fatSet (c v : Nat) : Alike (Beside g p q) (fatSet c v) (fun _ _ => True) s t := by
  have hloop : ∀ n f s t, Beside g p q s t → Alike (Beside g p q) (fatSetLoop c v n f) (fun _ _ => True) s t := by
    intro n
    induction n with
    | zero => exact fun f s t h => Alike.pure h trivial
    | succ n ih =>
      intro f s t h
      refine alike_state (by rw [h.same.geo]) ((alike_sectorRead h _).bind fun b u w h _ => ?_)
      refine Alike.or_return h fun _ => (alike_setSectorBuf h _).bind fun _ u w h _ => ?_
      refine (alike_sectorWrite h _).bind fun b u w h _ => ?_
      exact Alike.or_return h fun _ => ih (f+1) u w h
  exact alike_state (by rw [h.same.geo]) (hloop _ 0 s t h)

theorem alike_fatAllocCluster : Alike (Beside g p q) fatAllocCluster (fun _ _ => True) s t := by
  have hloop : ∀ n c s t, Beside g p q s t → Alike (Beside g p q) (fatAllocLoop n c) (fun _ _ => True) s t := by
    intro n
    induction n with
    | zero => exact fun c s t h => Alike.pure h trivial
    | succ n ih =>
      intro c s t h
      refine (alike_fatGet h c).bind fun v u w h _ => Alike.ite (fun _ => ?_) fun _ => ih (c+1) u w h
      refine (alike_fatSet h c LAST).bind fun b u w h _ => ?_
      exact Alike.return_or h fun _ => Alike.pure h trivial
  refine alike_state (by rw [h.same.geo]) ((hloop _ 2 s t h).bind fun c u w h _ => ?_)
  exact alike_noteAllocated h c

variable (hspc : g.sectorsPerCluster≤8)
include hspc

theorem alike_readCluster (c : Nat) : Alike (Beside g p q) (readCluster c) (fun _ _ => True) s t := by
  have hle : SECTOR_SIZE*g.sectorsPerCluster≤CLUSTER_BUF := Nat.mul_le_mul_left _ hspc
  obtain ⟨hval,hbuf,hdrive⟩ := ataReadSectors_same h.same.drive
    (u32 (g.partitionLba+clusterToLba g c)) g.sectorsPerCluster h.same.cluster
  unfold Alike readCluster
  simp only [h.geo,h.geo']
  refine ⟨congrArg some hval,⟨⟨h.same.mounted,rfl,hdrive,h.same.sector,hbuf,h.same.allocated⟩,rfl,?_,?_⟩,
    fun _ _ => trivial⟩
  · intro i hi
    exact (ataReadSectors_behind s.ata (by omega)).trans (h.left i hi)
  · intro i hi
    exact (ataReadSectors_behind t.ata (by omega)).trans (h.right i hi)

theorem alike_writeCluster (c : Nat) : Alike (Beside g p q) (writeCluster c) (fun _ _ => True) s t := by
  have hle : SECTOR_SIZE*g.sectorsPerCluster≤CLUSTER_BUF := Nat.mul_le_mul_left _ hspc
  obtain ⟨hval,hdrive⟩ := ataWriteSectors_same h.same.drive (u32 (g.partitionLba+clusterToLba g c))
    g.sectorsPerCluster fun i hi => h.same.cluster i (by omega)
  unfold Alike writeCluster
  simp only [h.geo,h.geo']
  exact ⟨congrArg some hval,⟨⟨h.same.mounted,rfl,hdrive,h.same.sector,h.same.cluster,h.same.allocated⟩,
    rfl,h.left,h.right⟩,fun _ _ => trivial⟩

end Sectors

section Geometry
variable (hspc : g.sectorsPerCluster≤8)
include hspc

theorem beside_steps (p q : Nat → UInt8) : Steps CLUSTER_BUF (fun _ => True) (Beside g p q) where
  room := by decide
  mounted h := h.same.mounted
  root h := by rw [h.same.geo]
  spc h := by rw [h.same.geo]
  fits h := by
    rw [h.geo]
    exact Nat.mul_le_mul_left _ hspc
  buf h := h.same.cluster
  get h _ := (alike_fatGet h _).mono fun _ _ _ _ => trivial
  set h _ _ := alike_fatSet h _ _
  alloc h := (alike_fatAllocCluster h).mono fun _ _ _ _ => trivial
  read c h := alike_readCluster h hspc c
  write h _ := alike_writeCluster h hspc _
  fill h hf := alike_setClusterBuf h hf

theorem beside_dirSteps (p q : Nat → UInt8) :
    DirSteps (fun _ => True) (fun _ => True) (EntryLinks fun _ => True) (Beside g p q) (Beside g p q) where
  rel _ _ := id
  sub _ := id
  get := (beside_steps hspc p q).get
  read h _ := (alike_readCluster h hspc _).mono fun _ _ _ _ _ _ _ _ _ => trivial

theorem chunk_same (h : Beside g p q s t) (m : Nat) :
    (List.range (min s.geo.clusterBytes m)).map s.clusterBuf=(List.range (min t.geo.clusterBytes m)).map t.clusterBuf := by
  have hfits := (beside_steps hspc p q).fits h
  rw [← h.same.geo]
  refine List.map_congr_left fun i hi => h.same.cluster i ?_
  have hlt := List.mem_range.mp hi
  omega

theorem alike_readLoop (bufSize fuel c remaining : Nat) (out : List UInt8) (h : Beside g p q s t) :
    Alike (Beside g p q) (readLoop bufSize fuel c remaining out) (fun _ _ => True) s t := by
  induction fuel generalizing c remaining out s t with
  | zero => exact Alike.running h
  | succ fuel ih =>
    refine Alike.or_return h fun _ => (alike_readCluster h hspc c).bind fun b u w h _ => ?_
    refine Alike.or_return h fun _ => alike_state ?_ ?_
    · simp only [Nat.min_assoc,chunk_same hspc h]
      rw [h.same.geo]
    · exact (alike_fatGet h c).bind fun next u w h _ => ih _ _ _ h

theorem alike_fat32ReadFile (fuel : Nat) (name : List UInt8) (bufSize : Nat) (h : Beside g p q s t) :
    Alike (Beside g p q) (fat32ReadFile fuel name bufSize) (fun _ _ => True) s t := by
  refine alike_state (by rw [h.same.mounted,h.same.geo]) ?_
  refine Alike.return_or h fun _ => Alike.return_or h fun _ => ?_
  refine (alike_iterateDir (beside_steps hspc p q) (findCb name) fuel h fun _ => trivial).bind fun r u w h _ => ?_
  cases r with
  | error | done => exact Alike.pure h trivial
  | hit de => exact Alike.return_or h fun _ => alike_readLoop hspc bufSize fuel _ _ _ h

theorem alike_catLoop (fuel c remaining : Nat) (shown : List UInt8) (h : Beside g p q s t) :
    Alike (Beside g p q) (catLoop fuel c remaining shown) (fun _ _ => True) s t := by
  induction fuel generalizing c remaining shown s t with
  | zero => exact Alike.running h
  | succ fuel ih =>
    refine Alike.or_return h fun _ => (alike_readCluster h hspc c).bind fun b u w h _ => ?_
    refine Alike.or_return h fun _ => alike_state ?_ ?_
    · simp only [chunk_same hspc h]
      rw [h.same.geo]
    · refine Alike.return_or h fun _ => ?_
      exact (alike_fatGet h c).bind fun next u w h _ => ih _ _ _ h

theorem alike_fat32Cat (fuel : Nat) (path : List UInt8) (h : Beside g p q s t) :
    Alike (Beside g p q) (fat32Cat fuel path) (fun _ _ => True) s t := by
  refine alike_state (by rw [h.same.mounted,h.same.geo]) ?_
  refine Alike.return_or h fun _ => Alike.return_or h fun _ => ?_
  refine (alike_iterateDir (beside_steps hspc p q) (findCb path) fuel h fun _ => trivial).bind fun r u w h _ => ?_
  cases r with
  | error | done => exact Alike.pure h trivial
  | hit de => exact Alike.return_or h fun _ => alike_catLoop hspc fuel _ _ _ h

theorem staysInBuffer : StaysInBuffer g where
  readCluster c := inBuffer_of_alike fun _ _ _ _ h => alike_readCluster h hspc c
  writeCluster c := inBuffer_of_alike fun _ _ _ _ h => alike_writeCluster h hspc c
  iterateDir _ fn n _ := inBuffer_of_alike fun p q _ _ h => alike_iterateDir (beside_steps hspc p q) fn n h fun _ => trivial
  findSlotInRoot n want := inBuffer_of_alike fun p q _ _ h =>
    alike_findSlotInRoot (beside_steps hspc p q) (beside_dirSteps hspc p q) n want h fun _ => trivial
  fat32Write n name text := inBuffer_of_alike fun p q _ _ h =>
    alike_fat32Write (beside_steps hspc p q) (beside_dirSteps hspc p q) n name text h fun _ => trivial
  fat32Mkdir n name := inBuffer_of_alike fun p q _ _ h =>
    alike_fat32Mkdir (beside_steps hspc p q) n name h fun _ _ => trivial
  fat32Unlink n name := inBuffer_of_alike fun p q _ _ h =>
    alike_fat32Unlink (beside_steps hspc p q) (beside_dirSteps hspc p q) n name h fun _ => trivial
  fat32Cat n path := inBuffer_of_alike fun _ _ _ _ h => alike_fat32Cat hspc n path h
  fat32ReadFile n name bufSize := inBuffer_of_alike fun _ _ _ _ h => alike_fat32ReadFile hspc n name bufSize h

end Geometry

theorem readCluster_leaves (h : 8<g.sectorsPerCluster) (c : Nat) : ¬ InBuffer g (readCluster c) := by
  intro hin
  obtain ⟨s,rfl,hideal,hdisk,hbuf⟩ : ∃ s : Fat, s.geo=g ∧ Ideal s.ata ∧ (∀ sec o, s.ata.disk sec o=0) ∧
      ∀ i, s.clusterBuf i=1 :=
    ⟨{ attachedTo (fun _ _ => 0) with geo := g, clusterBuf := fun _ => 1 },rfl,⟨rfl,fun _ => rfl⟩,
      fun _ _ => rfl,fun _ => rfl⟩
  have hsame : SameFront s s := ⟨rfl,rfl,⟨rfl,rfl,rfl,rfl,rfl,fun _ _ _ => rfl⟩,rfl,fun _ _ => rfl,rfl⟩
  obtain ⟨_,_,hkept⟩ := hin s s rfl hsame
  have hpos : 0<s.geo.sectorsPerCluster := by omega
  have hread : (readCluster c s).2.clusterBuf =
      readInto s.ata.disk (u28 (u32 (s.geo.partitionLba+clusterToLba s.geo c))) s.geo.sectorsPerCluster
        s.clusterBuf := by
    rw [readCluster_ideal hideal hpos]
  have hin : CLUSTER_BUF<SECTOR_SIZE*s.geo.sectorsPerCluster := by
    unfold CLUSTER_BUF SECTOR_SIZE
    omega
  have hone := hkept CLUSTER_BUF (Nat.le_refl _)
  rw [hread,readInto,if_pos hin,hdisk,hbuf] at hone
  exact absurd hone (by decide)

/-- The accepted boot sectors whose clusters fit the buffer are those with at most eight sectors a cluster. -/
theorem buffer_large_enough_iff {s₀ : Fat} (hm : fat32Mount s₀=(some .ok,s)) :
    StaysInBuffer s.geo ↔ (bootOf s).sectorsPerCluster≤8 := by
  have hgeo : s.geo.sectorsPerCluster=(bootOf s).sectorsPerCluster :=
    congrArg Geo.sectorsPerCluster (mounted_of_mount hm).1.geo
  rw [← hgeo]
  constructor
  · intro h
    by_contra hlong
    exact readCluster_leaves (by omega) 0 (h.readCluster 0)
  · exact staysInBuffer

theorem buffer_large_enough_single :
    ∃ s, fat32Mount (attachedTo (emptyDisk (bootSector 1 8 1)))=(some .ok,s) ∧ StaysInBuffer s.geo := by
  have hm : fat32Mount (attachedTo (emptyDisk (bootSector 1 8 1)))=(some .ok,emptyVolume) :=
    eq_of_fst (by decide)
  exact ⟨emptyVolume,hm,(buffer_large_enough_iff hm).mpr (by decide)⟩

/-- Clusters of 16 sectors are accepted. -/
theorem buffer_too_small : ¬ ∀ s₀ s, fat32Mount s₀=(some .ok,s) → StaysInBuffer s.geo := by
  intro hall
  have hm : fat32Mount (attachedTo (emptyDisk ((13,16)::bootSector 1 64 1))) =
      (some .ok,mountedOn ((13,16)::bootSector 1 64 1)) := eq_of_fst (by decide)
  exact readCluster_leaves (by decide) 0 ((hall _ _ hm).readCluster 0)

end MyKernel.Fat32
