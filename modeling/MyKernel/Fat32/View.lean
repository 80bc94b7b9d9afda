import MyKernel.Fat32.Model

/-! What the driver sees of a volume: the table, and the bytes of each cluster. -/
namespace MyKernel.Fat32
open Memory MyKernel.Computation Disk

structure View where
  fat : Nat → Nat
  data : Nat → Nat → UInt8

def View.setFat (V : View) (c v : Nat) : View :=
  { V with fat := fun d => if d=c then v else V.fat d }

def View.setData (V : View) (c : Nat) (buf : Nat → UInt8) : View :=
  { V with data := fun d => if d=c then buf else V.data d }

def fatOf (g : Geo) (disk : Nat → Nat → UInt8) (c : Nat) : Nat :=
  wordAt (disk (u28 (u32 (g.partitionLba+fatSector g c)))) (entOffset c)%0x10000000

def dataOf (g : Geo) (disk : Nat → Nat → UInt8) (c i : Nat) : UInt8 :=
  disk (u28 (u32 (g.partitionLba+clusterToLba g c))+i/SECTOR_SIZE) (i%SECTOR_SIZE)

def viewOf (s : Fat) : View := ⟨fatOf s.geo s.ata.disk,dataOf s.geo s.ata.disk⟩

/-- The copies of the table and the clusters follow each other and end below the last sector. -/
structure Area (g : Geo) : Prop where
  spc : 1≤g.sectorsPerCluster
  copies : 1≤g.numFats
  table : g.totalClusters+2≤128*g.fatSizeSectors
  layout : g.dataStart=g.fatStart+g.numFats*g.fatSizeSectors
  onDisk : g.partitionLba+g.dataStart+g.totalClusters*g.sectorsPerCluster≤268435456

def InVolume (g : Geo) (c : Nat) : Prop := 2≤c ∧ c≤g.totalClusters+1

/-- The state shows the view `V` of a volume with geometry `g`. -/
structure Sees (s : Fat) (g : Geo) (V : View) : Prop where
  geo : s.geo=g
  ideal : Ideal s.ata
  mounted : s.mounted=true
  area : Area g
  fat : ∀ c, c≤g.totalClusters+1 → fatOf g s.ata.disk c=V.fat c
  data : ∀ c, InVolume g c → ∀ i, i<g.clusterBytes → dataOf g s.ata.disk c i=V.data c i

variable {g : Geo} {V : View} {s : Fat} {c d v f : Nat}

theorem Area.fat_le (h : Area g) (hf : f<g.numFats) : g.fatStart+f*g.fatSizeSectors+g.fatSizeSectors≤g.dataStart := by
  have hmul : (f+1)*g.fatSizeSectors≤g.numFats*g.fatSizeSectors := Nat.mul_le_mul_right _ hf
  have hlay := h.layout
  rw [Nat.succ_mul] at hmul
  omega

theorem Area.clusters_lt (h : Area g) : g.totalClusters+1<0x0FFFFFF0 := by
  have hmul : g.totalClusters*1≤g.totalClusters*g.sectorsPerCluster :=
    Nat.mul_le_mul_left _ h.spc
  have hfat := h.fat_le h.copies
  have htab := h.table
  have hdisk := h.onDisk
  omega

theorem entOffset_eq (c : Nat) : entOffset c=4*(c%128) := by
  unfold entOffset SECTOR_SIZE u32
  omega

theorem entOffset_le (c : Nat) : entOffset c+4≤512 := by
  rw [entOffset_eq]
  omega

/-- The sector the driver takes for the entry of `c` in copy `f` of the table. -/
def copySector (g : Geo) (c f : Nat) : Nat :=
  u28 (u32 (g.partitionLba+u32 (fatSector g c+u32 (f*g.fatSizeSectors))))

theorem copySector_zero (g : Geo) (c : Nat) : copySector g c 0=u28 (u32 (g.partitionLba+fatSector g c)) := by
  simp [copySector,fatSector,u32]

theorem fatLba (h : Area g) (hc : c≤g.totalClusters+1) (hf : f<g.numFats) :
    copySector g c f=g.partitionLba+g.fatStart+c/128+f*g.fatSizeSectors := by
  have hfat := h.fat_le hf
  have htab := h.table
  have hdisk := h.onDisk
  have hlt := h.clusters_lt
  unfold copySector fatSector SECTOR_SIZE u28 u32
  omega

theorem fatLba_zero (h : Area g) (hc : c≤g.totalClusters+1) :
    u28 (u32 (g.partitionLba+fatSector g c))=g.partitionLba+g.fatStart+c/128 := by
  rw [← copySector_zero,fatLba h hc h.copies,Nat.zero_mul,Nat.add_zero]

theorem dataLba (h : Area g) (hc : InVolume g c) :
    u28 (u32 (g.partitionLba+clusterToLba g c)) =
      g.partitionLba+g.dataStart+(c-2)*g.sectorsPerCluster := by
  obtain ⟨h2,hle⟩ := hc
  have hlt := h.clusters_lt
  have hmul : (c-2+1)*g.sectorsPerCluster≤g.totalClusters*g.sectorsPerCluster :=
    Nat.mul_le_mul_right _ (by omega)
  have hspc := h.spc
  have hdisk := h.onDisk
  have hsub : sub32 c 2=c-2 := sub32_of_le h2 (by omega)
  rw [Nat.succ_mul] at hmul
  unfold clusterToLba u28
  rw [hsub]
  unfold u32
  omega

theorem readInto_front (disk : Nat → Nat → UInt8) (lba : Nat) (buf : Nat → UInt8) {k : Nat} (hk : k<512) :
    readInto disk lba 1 buf k=disk lba k := by
  simp [readInto,SECTOR_SIZE,hk,Nat.div_eq_of_lt hk,Nat.mod_eq_of_lt hk]

theorem wordAt_readInto (disk : Nat → Nat → UInt8) (lba : Nat) (buf : Nat → UInt8) {i : Nat}
    (h : i+4≤512) : wordAt (readInto disk lba 1 buf) i=wordAt (disk lba) i := by
  simp (disch := omega) only [wordAt,readInto_front]

theorem bpbOf_front {buf buf' : Nat → UInt8} (h : ∀ k, k<90 → buf k=buf' k) : bpbOf buf=bpbOf buf' := by
  simp (disch := omega) only [bpbOf,halfAt,wordAt,h]

theorem bpbOf_congr {buf buf' : Nat → UInt8} (h : ∀ k, k<512 → buf k=buf' k) : bpbOf buf=bpbOf buf' :=
  bpbOf_front fun k hk => h k (by omega)

theorem bpbOf_readInto (disk : Nat → Nat → UInt8) (lba : Nat) (buf : Nat → UInt8) :
    bpbOf (readInto disk lba 1 buf)=bpbOf (disk lba) :=
  bpbOf_congr fun _ hk => readInto_front disk lba buf hk

theorem sectorRead_ideal (h : Ideal s.ata) (lba : Nat) :
    sectorRead lba s=(some true,{ s with
      sectorBuf := readInto s.ata.disk (u28 lba) 1 s.sectorBuf
      ata := { s.ata with ops := s.ata.ops+1 } }) := by
  simp [sectorRead,ataReadSectors_ideal h]

theorem sectorWrite_ideal (h : Ideal s.ata) (lba : Nat) :
    sectorWrite lba s=(some true,{ s with ata := s.ata.store (u28 lba) 1 s.sectorBuf }) := by
  simp [sectorWrite,ataWriteSectors_ideal h]

theorem ataReadSectors_drive (a : Ata) (lba count : Nat) (buf : Nat → UInt8) :
    ∃ ops, (ataReadSectors a lba count buf).2.2={ a with ops := ops } := by
  unfold ataReadSectors
  split
  · exact ⟨a.ops,rfl⟩
  · split
    · exact ⟨a.ops+1,rfl⟩
    · exact ⟨a.ops+1,rfl⟩

theorem sectorRead_drive (lba : Nat) (s : Fat) : ∃ ops, (sectorRead lba s).2.ata={ s.ata with ops := ops } :=
  ataReadSectors_drive s.ata lba 1 s.sectorBuf

theorem readCluster_drive (c : Nat) (s : Fat) : ∃ ops, (readCluster c s).2.ata={ s.ata with ops := ops } :=
  ataReadSectors_drive s.ata (u32 (s.geo.partitionLba+clusterToLba s.geo c))
    s.geo.sectorsPerCluster s.clusterBuf

theorem fatGet_drive (c : Nat) (s : Fat) : ∃ ops, (fatGet c s).2.ata={ s.ata with ops := ops } := by
  obtain ⟨ops,hread⟩ := sectorRead_drive (u32 (s.geo.partitionLba+fatSector s.geo c)) s
  refine ⟨ops,?_⟩
  rw [fatGet,state_bind]
  cases hr : sectorRead (u32 (s.geo.partitionLba+fatSector s.geo c)) s with
  | mk o t =>
    rw [hr] at hread
    cases o with
    | none =>
      rw [bind_none hr]
      exact hread
    | some b =>
      rw [bind_some hr]
      cases b with
      | true | false => exact hread

theorem readCluster_disk {c : Nat} {o : Option Bool} {t : Fat} (h : readCluster c s=(o,t)) :
    t.ata.disk=s.ata.disk := by
  obtain ⟨ops,hread⟩ := readCluster_drive c s
  rw [h] at hread
  rw [hread]

theorem fatGet_disk {c : Nat} {o : Option Nat} {t : Fat} (h : fatGet c s=(o,t)) : t.ata.disk=s.ata.disk := by
  obtain ⟨ops,hread⟩ := fatGet_drive c s
  rw [h] at hread
  rw [hread]

theorem sectorRead_written (lba : Nat) (s : Fat) : (sectorRead lba s).2.ata.written=s.ata.written := by
  obtain ⟨ops,h⟩ := sectorRead_drive lba s
  rw [h]

theorem Sees.of_disk {t : Fat} (h : Sees s g V) (hg : t.geo=s.geo) (hm : t.mounted=s.mounted)
    (hp : t.ata.present=s.ata.present) (ho : t.ata.outcome=s.ata.outcome)
    (hd : t.ata.disk=s.ata.disk) : Sees t g V where
  geo := hg.trans h.geo
  ideal := ⟨hp.trans h.ideal.1,fun n => by rw [ho]; exact h.ideal.2 n⟩
  mounted := hm.trans h.mounted
  area := h.area
  fat := by rw [hd]; exact h.fat
  data := by rw [hd]; exact h.data

theorem fatGet_ideal (h : Ideal s.ata) (c : Nat) :
    fatGet c s=(some (fatOf s.geo s.ata.disk c),{ s with
      sectorBuf := readInto s.ata.disk (u28 (u32 (s.geo.partitionLba+fatSector s.geo c))) 1 s.sectorBuf
      ata := { s.ata with ops := s.ata.ops+1 } }) := by
  rw [fatGet,state_bind,bind_some (sectorRead_ideal h _)]
  simp only [if_true,state_bind,pure_eq,wordAt_readInto _ _ _ (entOffset_le c),fatOf]

theorem fatGet_sees (h : Sees s g V) (hc : c≤g.totalClusters+1) :
    ∃ t, fatGet c s=(some (V.fat c),t) ∧ Sees t g V ∧ t.clusterBuf=s.clusterBuf := by
  have hget := fatGet_ideal h.ideal c
  rw [h.geo,h.fat c hc] at hget
  exact ⟨_,hget,h.of_disk h.geo.symm rfl rfl rfl rfl,rfl⟩

theorem patch_of_outside {off i : Nat} {bytes : List UInt8} {buf : Nat → UInt8}
    (h : i<off ∨ off+bytes.length ≤ i) : patch off bytes buf i=buf i := by
  simp only [patch]
  rw [if_neg (by omega)]

theorem patch_of_inside {off k : Nat} {bytes : List UInt8} {buf : Nat → UInt8}
    (h : k<bytes.length) : patch off bytes buf (off+k)=bytes.getD k 0 := by
  simp only [patch]
  rw [if_pos (by omega),Nat.add_sub_cancel_left]

theorem mergeEntry_lt (old value : Nat) (h : old<4294967296) : mergeEntry old value<4294967296 := by
  unfold mergeEntry
  omega

theorem wordAt_lt (buf : Nat → UInt8) (i : Nat) : wordAt buf i<4294967296 := le32_lt _ _ _ _

theorem wordAt_patch_self (off w : Nat) (buf : Nat → UInt8) (h : w<4294967296) :
    wordAt (patch off (wordBytes w) buf) off=w := by
  have hbyte : ∀ k, k<4 → patch off (wordBytes w) buf (off+k)=(wordBytes w).getD k 0 :=
    fun k hk => patch_of_inside (by simpa [wordBytes] using hk)
  have h0 := hbyte 0 (by omega)
  rw [Nat.add_zero] at h0
  simp only [wordAt,h0,hbyte 1 (by omega),hbyte 2 (by omega),hbyte 3 (by omega)]
  exact le32_byteOf h

theorem wordAt_congr {buf buf' : Nat → UInt8} {i : Nat}
    (h : ∀ k, k<4 → buf (i+k)=buf' (i+k)) : wordAt buf i=wordAt buf' i := by
  have h0 := h 0 (by omega)
  rw [Nat.add_zero] at h0
  simp only [wordAt,h0,h 1 (by omega),h 2 (by omega),h 3 (by omega)]

theorem writeFrom_of_ne {disk : Nat → Nat → UInt8} {lba sec : Nat} {buf : Nat → UInt8}
    (h : sec≠lba) : writeFrom disk lba 1 buf sec=disk sec := by
  funext o
  simp only [writeFrom]
  rw [if_neg (by omega)]

theorem writeFrom_self {disk : Nat → Nat → UInt8} {lba : Nat} {buf : Nat → UInt8} :
    writeFrom disk lba 1 buf lba=buf := by
  funext o
  simp [writeFrom]

theorem fatOf_eq (h : Area g) (hc : c≤g.totalClusters+1) (disk : Nat → Nat → UInt8) :
    fatOf g disk c =
      wordAt (disk (g.partitionLba+g.fatStart+c/128)) (4*(c%128))%0x10000000 := by
  rw [fatOf,fatLba_zero h hc,entOffset_eq]

theorem dataOf_eq (h : Area g) (hc : InVolume g c) (disk : Nat → Nat → UInt8) (i : Nat) :
    dataOf g disk c i =
      disk (g.partitionLba+g.dataStart+(c-2)*g.sectorsPerCluster+i/512) (i%512) := by
  rw [dataOf,dataLba h hc]
  rfl

/-- The sector of copy `f` that holds the entry of `c`, with that entry replaced. -/
def patchedSector (disk : Nat → Nat → UInt8) (lba c v : Nat) (buf : Nat → UInt8) : Nat → UInt8 :=
  patch (entOffset c)
    (wordBytes (mergeEntry (wordAt (readInto disk lba 1 buf) (entOffset c)) v))
    (readInto disk lba 1 buf)

theorem wordAt_patched (disk : Nat → Nat → UInt8) (lba c v : Nat) (buf : Nat → UInt8) {k : Nat} (hk : k<128) :
    wordAt (patchedSector disk lba c v buf) (4*k) =
      if k=c%128 then mergeEntry (wordAt (disk lba) (4*k)) v else wordAt (disk lba) (4*k) := by
  have hread := wordAt_readInto disk lba buf (i := 4*k) (by omega)
  by_cases hkc : k=c%128
  · rw [if_pos hkc,patchedSector,entOffset_eq,← hkc,wordAt_patch_self _ _ _ (mergeEntry_lt _ _ (wordAt_lt _ _)),
      hread]
  · rw [if_neg hkc,← hread]
    apply wordAt_congr
    intro i hi
    rw [patchedSector,patch_of_outside]
    simp only [entOffset_eq,wordBytes,List.length_cons,List.length_nil]
    omega

def copyWord (g : Geo) (disk : Nat → Nat → UInt8) (f c : Nat) : Nat :=
  wordAt (disk (g.partitionLba+g.fatStart+c/128+f*g.fatSizeSectors)) (4*(c%128))

theorem copy_entry_inj {a n e : Nat} (hc : c<128*n) (hd : d<128*n) (h : a+d/128+e*n=a+c/128+f*n) :
    e=f ∧ d/128=c/128 := by
  have hcn : c/128<n := by omega
  have hdn : d/128<n := by omega
  have hsum : d/128+e*n=c/128+f*n := by omega
  have hdiv := congrArg (·/n) hsum
  have hmod := congrArg (·%n) hsum
  simp only [Nat.add_mul_div_right _ _ (Nat.zero_lt_of_lt hcn),Nat.div_eq_of_lt hcn,Nat.div_eq_of_lt hdn,
    Nat.zero_add] at hdiv
  simp only [Nat.add_mul_mod_self_right,Nat.mod_eq_of_lt hcn,Nat.mod_eq_of_lt hdn] at hmod
  exact ⟨hdiv,hmod⟩

theorem copyWord_patched {e : Nat} (hc : c<128*g.fatSizeSectors) (hd : d<128*g.fatSizeSectors)
    (disk : Nat → Nat → UInt8) (buf : Nat → UInt8) :
    copyWord g (writeFrom disk (g.partitionLba+g.fatStart+c/128+f*g.fatSizeSectors) 1
        (patchedSector disk (g.partitionLba+g.fatStart+c/128+f*g.fatSizeSectors) c v buf)) e d =
      if e=f ∧ d=c then mergeEntry (copyWord g disk e d) v else copyWord g disk e d := by
  unfold copyWord
  by_cases hsec : g.partitionLba+g.fatStart+d/128+e*g.fatSizeSectors =
      g.partitionLba+g.fatStart+c/128+f*g.fatSizeSectors
  · obtain ⟨hef,hdc⟩ := copy_entry_inj hc hd hsec
    rw [hsec,writeFrom_self,wordAt_patched _ _ _ _ _ (Nat.mod_lt d (by omega))]
    by_cases heq : d=c
    · rw [if_pos (by rw [heq]),if_pos ⟨hef,heq⟩]
    · rw [if_neg (by omega),if_neg fun h => heq h.2]
  · rw [writeFrom_of_ne hsec,if_neg]
    rintro ⟨rfl,rfl⟩
    exact hsec rfl

theorem fatOf_copyWord (h : Area g) (hc : c≤g.totalClusters+1) (disk : Nat → Nat → UInt8) :
    fatOf g disk c=copyWord g disk 0 c%0x10000000 := by
  rw [fatOf_eq h hc,copyWord,Nat.zero_mul,Nat.add_zero]

theorem fatOf_patched (h : Area g) (hc : c≤g.totalClusters+1) (hd : d≤g.totalClusters+1)
    (disk : Nat → Nat → UInt8) (buf : Nat → UInt8) :
    fatOf g (writeFrom disk (g.partitionLba+g.fatStart+c/128+f*g.fatSizeSectors) 1
        (patchedSector disk (g.partitionLba+g.fatStart+c/128+f*g.fatSizeSectors) c v buf)) d =
      if f=0 ∧ d=c then v%0x10000000 else fatOf g disk d := by
  have htab := h.table
  rw [fatOf_copyWord h hd,fatOf_copyWord h hd,copyWord_patched (by omega) (by omega)]
  by_cases heq : f=0 ∧ d=c
  · rw [if_pos ⟨heq.1.symm,heq.2⟩,if_pos heq]
    unfold mergeEntry
    omega
  · rw [if_neg fun h => heq ⟨h.1.symm,h.2⟩,if_neg heq]

theorem dataOf_patched (h : Area g) (hc : c≤g.totalClusters+1) (hd : InVolume g d)
    (hf : f<g.numFats) (disk : Nat → Nat → UInt8) (buf : Nat → UInt8) (i : Nat) :
    dataOf g (writeFrom disk (g.partitionLba+g.fatStart+c/128+f*g.fatSizeSectors) 1 buf) d i =
      dataOf g disk d i := by
  have hfat := h.fat_le hf
  have htab := h.table
  rw [dataOf_eq h hd,dataOf_eq h hd,writeFrom_of_ne (by omega)]

def copySet (c v f : Nat) (s : Fat) : Fat :=
  { s with
    sectorBuf := patchedSector s.ata.disk (copySector s.geo c f) c v s.sectorBuf
    ata := { s.ata with ops := s.ata.ops+1 }.store (copySector s.geo c f) 1
      (patchedSector s.ata.disk (copySector s.geo c f) c v s.sectorBuf) }

theorem fatSetLoop_ideal (h : Ideal s.ata) (c v n f : Nat) :
    fatSetLoop c v (n+1) f s=fatSetLoop c v n (f+1) (copySet c v f s) := by
  have hread := sectorRead_ideal h
    (u32 (s.geo.partitionLba+u32 (fatSector s.geo c+u32 (f*s.geo.fatSizeSectors))))
  have hwrite : ∀ u : Fat, Ideal u.ata → sectorWrite
      (u32 (s.geo.partitionLba+u32 (fatSector s.geo c+u32 (f*s.geo.fatSizeSectors)))) u =
      (some true,{ u with ata := u.ata.store (copySector s.geo c f) 1 u.sectorBuf }) :=
    fun u hu => sectorWrite_ideal hu _
  rw [fatSetLoop,state_bind,bind_some hread]
  simp only [if_true,setSectorBuf,update_bind]
  refine (bind_some (hwrite _ ?_)).trans rfl
  exact ⟨h.1,h.2⟩

theorem fatSetLoop_step (h : Sees s g V) (hc : c≤g.totalClusters+1) (hf : f<g.numFats) (n : Nat) :
    ∃ t, fatSetLoop c v (n+1) f s=fatSetLoop c v n (f+1) t ∧ t.clusterBuf=s.clusterBuf ∧
      Sees t g (if f=0 then V.setFat c (v%0x10000000) else V) := by
  have hlba := fatLba h.area hc hf
  rw [← h.geo] at hlba
  refine ⟨_,fatSetLoop_ideal h.ideal c v n f,rfl,h.geo,⟨h.ideal.1,h.ideal.2⟩,h.mounted,h.area,?_,?_⟩
  · intro d hd
    simp only [copySet,Ata.store]
    rw [hlba,h.geo,fatOf_patched h.area hc hd,h.fat d hd]
    by_cases hf0 : f=0
    · simp [hf0,View.setFat]
    · simp [hf0]
  · intro d hd i hi
    simp only [copySet,Ata.store]
    rw [hlba,h.geo,dataOf_patched h.area hc hd hf,h.data d hd i hi]
    by_cases hf0 : f=0
    · simp [hf0,View.setFat]
    · simp [hf0]

theorem fatSetLoop_rest (hc : c≤g.totalClusters+1) (n : Nat) (h : Sees s g V) (hf0 : f≠0) (hf : f+n=g.numFats) :
    ∃ t, fatSetLoop c v n f s=(some true,t) ∧ Sees t g V ∧ t.clusterBuf=s.clusterBuf := by
  induction n generalizing f s with
  | zero => exact ⟨s,rfl,h,rfl⟩
  | succ n ih =>
    obtain ⟨t,ht,hbuf,hsees⟩ := fatSetLoop_step (f := f) (v := v) h hc (by omega) n
    rw [if_neg hf0] at hsees
    obtain ⟨u,hu,hsees',hbuf'⟩ := ih (f := f+1) hsees (by omega) (by omega)
    exact ⟨u,ht.trans hu,hsees',hbuf'.trans hbuf⟩

theorem fatSet_sees (h : Sees s g V) (hc : c≤g.totalClusters+1) (v : Nat) :
    ∃ t, fatSet c v s=(some true,t) ∧ Sees t g (V.setFat c (v%0x10000000)) ∧
      t.clusterBuf=s.clusterBuf := by
  have hcopies := h.area.copies
  obtain ⟨n,hn⟩ : ∃ n, g.numFats=n+1 := ⟨g.numFats-1,by omega⟩
  obtain ⟨t,ht,hbuf,hsees⟩ := fatSetLoop_step (f := 0) (v := v) h hc hcopies n
  obtain ⟨u,hu,hsees',hbuf'⟩ := fatSetLoop_rest (f := 0+1) (v := v) hc n hsees (by omega) (by omega)
  refine ⟨u,?_,hsees',hbuf'.trans hbuf⟩
  rw [fatSet,state_bind,h.geo,hn,ht,hu]

theorem readCluster_ideal (h : Ideal s.ata) (hspc : 0<s.geo.sectorsPerCluster) (c : Nat) :
    readCluster c s=(some true,{ s with
      clusterBuf := readInto s.ata.disk (u28 (u32 (s.geo.partitionLba+clusterToLba s.geo c)))
        s.geo.sectorsPerCluster s.clusterBuf
      ata := { s.ata with ops := s.ata.ops+1 } }) := by
  simp [readCluster,ataReadSectors_ideal h hspc]

theorem writeCluster_ideal (h : Ideal s.ata) (hspc : 0<s.geo.sectorsPerCluster) (c : Nat) :
    writeCluster c s=(some true,{ s with
      ata := s.ata.store (u28 (u32 (s.geo.partitionLba+clusterToLba s.geo c))) s.geo.sectorsPerCluster
        s.clusterBuf }) := by
  simp [writeCluster,ataWriteSectors_ideal h hspc]

theorem Sees.spc (h : Sees s g V) : 0<s.geo.sectorsPerCluster := by
  rw [h.geo]
  exact h.area.spc

theorem readCluster_sees (h : Sees s g V) (hc : InVolume g c) :
    ∃ t, readCluster c s=(some true,t) ∧ Sees t g V ∧
      ∀ i, i<g.clusterBytes → t.clusterBuf i=V.data c i := by
  refine ⟨_,readCluster_ideal h.ideal h.spc c,h.of_disk rfl rfl rfl rfl rfl,?_⟩
  intro i hi
  rw [← h.data c hc i hi,← h.geo]
  simp only [readInto,dataOf]
  rw [if_pos (by rw [h.geo]; exact hi)]

theorem setClusterBuf_sees (h : Sees s g V) (f : (Nat → UInt8) → Nat → UInt8) :
    ∃ t, setClusterBuf f s=(some (),t) ∧ Sees t g V ∧ t.clusterBuf=f s.clusterBuf :=
  ⟨{ s with clusterBuf := f s.clusterBuf },rfl,h.of_disk rfl rfl rfl rfl rfl,rfl⟩

theorem data_sector_ne (hc : InVolume g c) (hd : InVolume g d) (hne : d≠c) {i : Nat} (hi : i<g.clusterBytes) :
    ¬ ((c-2)*g.sectorsPerCluster≤(d-2)*g.sectorsPerCluster+i/512 ∧
      (d-2)*g.sectorsPerCluster+i/512<(c-2)*g.sectorsPerCluster+g.sectorsPerCluster) := by
  have hsec : i/512<g.sectorsPerCluster := by
    simp only [Geo.clusterBytes,SECTOR_SIZE] at hi
    omega
  obtain ⟨hc2,_⟩ := hc
  obtain ⟨hd2,_⟩ := hd
  cases Nat.lt_or_gt_of_ne hne with
  | inl hlt =>
    have hmul : (d-2+1)*g.sectorsPerCluster≤(c-2)*g.sectorsPerCluster :=
      Nat.mul_le_mul_right _ (by omega)
    rw [Nat.succ_mul] at hmul
    omega
  | inr hgt =>
    have hmul : (c-2+1)*g.sectorsPerCluster≤(d-2)*g.sectorsPerCluster :=
      Nat.mul_le_mul_right _ (by omega)
    rw [Nat.succ_mul] at hmul
    omega

theorem writeCluster_sees {buf : Nat → UInt8} (h : Sees s g V) (hc : InVolume g c)
    (hbuf : ∀ i, i<g.clusterBytes → s.clusterBuf i=buf i) :
    ∃ t, writeCluster c s=(some true,t) ∧ Sees t g (V.setData c buf) := by
  have hlba := dataLba h.area hc
  have hwrite : writeCluster c s=(some true,{ s with
      ata := s.ata.store (g.partitionLba+g.dataStart+(c-2)*g.sectorsPerCluster)
        g.sectorsPerCluster s.clusterBuf }) := by
    rw [writeCluster_ideal h.ideal h.spc,h.geo,hlba]
  refine ⟨_,hwrite,h.geo,⟨h.ideal.1,h.ideal.2⟩,h.mounted,h.area,?_,?_⟩
  · -- the table ends before the first cluster
    intro d hd
    have hfat := h.area.fat_le h.area.copies
    have htab := h.area.table
    have hsec : writeFrom s.ata.disk (g.partitionLba+g.dataStart+(c-2)*g.sectorsPerCluster)
        g.sectorsPerCluster s.clusterBuf (g.partitionLba+g.fatStart+d/128) =
        s.ata.disk (g.partitionLba+g.fatStart+d/128) := by
      funext o
      simp only [writeFrom]
      rw [if_neg (by omega)]
    simp only [View.setData,Ata.store]
    rw [← h.fat d hd,fatOf_eq h.area hd,fatOf_eq h.area hd,hsec]
  · intro d hd i hi
    rw [dataOf_eq h.area hd]
    simp only [Ata.store,writeFrom,SECTOR_SIZE]
    by_cases hdc : d=c
    · subst hdc
      have hin : i/512<g.sectorsPerCluster := by
        simp only [Geo.clusterBytes,SECTOR_SIZE] at hi
        omega
      rw [if_pos (by omega)]
      simp only [View.setData,if_true]
      rw [← hbuf i hi]
      congr 1
      omega
    · have hne := data_sector_ne hc hd hdc hi
      rw [if_neg (by omega)]
      simp only [View.setData,if_neg hdc]
      rw [← h.data d hd i hi,dataOf_eq h.area hd]

end MyKernel.Fat32
