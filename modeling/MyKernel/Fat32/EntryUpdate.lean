import MyKernel.Fat32.View

/-! `fat_set` on the copies of the table, byte by byte. -/
namespace MyKernel.Fat32
open Memory MyKernel.Computation Disk

def tableSector (g : Geo) (f k : Nat) : Nat := u28 (g.partitionLba+g.fatStart+k+f*g.fatSizeSectors)

def tableByte (g : Geo) (disk : Nat → Nat → UInt8) (f i : Nat) : UInt8 :=
  disk (tableSector g f (i/512)) (i%512)

def tableEntry (g : Geo) (disk : Nat → Nat → UInt8) (f c : Nat) : Nat := wordAt (tableByte g disk f) (4*c)

structure EntrySet (g : Geo) (c v : Nat) (disk disk' : Nat → Nat → UInt8) : Prop where
  high : ∀ f, f<g.numFats → tableEntry g disk' f c/0x10000000=tableEntry g disk f c/0x10000000
  low : ∀ f, f<g.numFats → tableEntry g disk' f c%0x10000000=v%0x10000000
  others : ∀ f i, f<g.numFats → i<512*g.fatSizeSectors → i<4*c ∨ 4*c+4 ≤ i →
    tableByte g disk' f i=tableByte g disk f i
  outside : ∀ sec, (∀ f k, f<g.numFats → k<g.fatSizeSectors → sec≠tableSector g f k) → disk' sec=disk sec

variable {g : Geo} {s : Fat} {c d v e f i k n : Nat} {disk disk' : Nat → Nat → UInt8}

theorem copySector_eq (hc : c<0x40000000) : copySector g c f=tableSector g f (c/128) := by
  unfold copySector tableSector fatSector SECTOR_SIZE u28 u32
  omega

theorem tableSector_inj (hapart : g.numFats*g.fatSizeSectors≤0x10000000) (he : e<g.numFats) (hf : f<g.numFats)
    (hi : i<g.fatSizeSectors) (hk : k<g.fatSizeSectors) (h : tableSector g e i=tableSector g f k) : e=f ∧ i=k := by
  have hle : ∀ {e i}, e<g.numFats → i<g.fatSizeSectors → i+e*g.fatSizeSectors<0x10000000 := by
    intro e i he hi
    have hmul : (e+1)*g.fatSizeSectors≤g.numFats*g.fatSizeSectors := Nat.mul_le_mul_right _ he
    rw [Nat.succ_mul] at hmul
    omega
  have hei := hle he hi
  have hfk := hle hf hk
  have hsum : 0+128*i/128+e*g.fatSizeSectors=0+128*k/128+f*g.fatSizeSectors := by
    unfold tableSector u28 at h
    omega
  obtain ⟨hef,hik⟩ := copy_entry_inj (by omega) (by omega) hsum
  exact ⟨hef,by omega⟩

theorem patch_word (off w : Nat) (buf : Nat → UInt8) (i : Nat) :
    patch off (wordBytes w) buf i=if off ≤ i ∧ i<off+4 then (wordBytes w).getD (i-off) 0 else buf i := rfl

theorem patchedSector_byte (disk : Nat → Nat → UInt8) (lba c v : Nat) (buf : Nat → UInt8) (hi : i<512) :
    patchedSector disk lba c v buf i =
      patch (4*(c%128)) (wordBytes (mergeEntry (wordAt (disk lba) (4*(c%128))) v)) (disk lba) i := by
  rw [patchedSector,wordAt_readInto _ _ _ (entOffset_le c),entOffset_eq,patch_word,patch_word,
    readInto_front _ _ _ hi]

theorem tableByte_copySet (hapart : s.geo.numFats*s.geo.fatSizeSectors≤0x10000000) (hc : c<0x40000000)
    (hin : 4*c<512*s.geo.fatSizeSectors) (hf : f<s.geo.numFats) (he : e<s.geo.numFats)
    (hi : i<512*s.geo.fatSizeSectors) :
    tableByte s.geo (copySet c v f s).ata.disk e i =
      if e=f then patch (4*c) (wordBytes (mergeEntry (tableEntry s.geo s.ata.disk e c) v))
        (tableByte s.geo s.ata.disk e) i
      else tableByte s.geo s.ata.disk e i := by
  have hinj := tableSector_inj hapart he hf (i := i/512) (k := c/128) (by omega) (by omega)
  simp only [tableByte,copySet,Ata.store,copySector_eq hc]
  by_cases hsec : tableSector s.geo e (i/512)=tableSector s.geo f (c/128)
  · obtain ⟨rfl,hik⟩ := hinj hsec
    have hword : wordAt (s.ata.disk (tableSector s.geo e (c/128))) (4*(c%128))=tableEntry s.geo s.ata.disk e c := by
      have hbyte : ∀ j, j<4 → s.ata.disk (tableSector s.geo e (c/128)) (4*(c%128)+j) =
          tableByte s.geo s.ata.disk e (4*c+j) := by
        intro j hj
        rw [tableByte,show (4*c+j)/512=c/128 by omega,show (4*c+j)%512=4*(c%128)+j by omega]
      unfold tableEntry wordAt
      rw [← hbyte 1 (by omega),← hbyte 2 (by omega),← hbyte 3 (by omega),← Nat.add_zero (4*c),
        ← hbyte 0 (by omega)]
      rfl
    rw [if_pos rfl,hsec,writeFrom_self,patchedSector_byte _ _ _ _ _ (Nat.mod_lt _ (by decide)),hword]
    rw [patch_word,patch_word]
    by_cases hat : 4*c ≤ i ∧ i<4*c+4
    · rw [if_pos (by omega),if_pos (by omega),show i%512-4*(c%128)=i-4*c by omega]
    · rw [if_neg (by omega),if_neg (by omega),tableByte,hsec]
  · rw [writeFrom_of_ne hsec]
    split
    next hef =>
      subst hef
      have hne : i/512≠c/128 := fun h => hsec (by rw [h])
      rw [patch_word,if_neg (by omega),tableByte]
    next => rfl

structure SetFrom (g : Geo) (c v lo : Nat) (disk disk' : Nat → Nat → UInt8) : Prop where
  bytes : ∀ f i, f<g.numFats → i<512*g.fatSizeSectors → tableByte g disk' f i =
    if lo≤f then patch (4*c) (wordBytes (mergeEntry (tableEntry g disk f c) v)) (tableByte g disk f) i
    else tableByte g disk f i
  outside : ∀ sec, (∀ f k, f<g.numFats → k<g.fatSizeSectors → sec≠tableSector g f k) → disk' sec=disk sec

theorem tableEntry_congr (hin : 4*c+4≤512*g.fatSizeSectors)
    (h : ∀ i, i<512*g.fatSizeSectors → tableByte g disk' f i=tableByte g disk f i) :
    tableEntry g disk' f c=tableEntry g disk f c :=
  wordAt_congr fun k hk => h (4*c+k) (by omega)

theorem fatSetLoop_setFrom (hapart : g.numFats*g.fatSizeSectors≤0x10000000) (hc : c<0x40000000)
    (hin : 4*c<512*g.fatSizeSectors) (hgeo : s.geo=g) (h : Ideal s.ata) (hn : f+n=g.numFats) :
    ∃ t, fatSetLoop c v n f s=(some true,t) ∧ t.geo=g ∧ Ideal t.ata ∧
      SetFrom g c v f s.ata.disk t.ata.disk := by
  induction n generalizing f s with
  | zero =>
    refine ⟨s,rfl,hgeo,h,?_,fun _ _ => rfl⟩
    intro e i he _
    rw [if_neg (by omega)]
  | succ n ih =>
    subst hgeo
    have hone := fun e i he hi => tableByte_copySet (v := v) hapart hc hin (f := f) (e := e) (i := i) (by omega) he hi
    obtain ⟨t,hrun,hgeo,hideal,hbytes,hout⟩ := ih (s := copySet c v f s) (f := f+1) rfl h (by omega)
    refine ⟨t,(fatSetLoop_ideal h c v n f).trans hrun,hgeo,hideal,?_,?_⟩
    · intro e i he hi
      rw [hbytes e i he hi]
      -- the copies after `f` are as they were when their turn comes
      by_cases hlater : f+1≤e
      · have hsame : ∀ j, j<512*s.geo.fatSizeSectors →
            tableByte s.geo (copySet c v f s).ata.disk e j=tableByte s.geo s.ata.disk e j := by
          intro j hj
          rw [hone e j he hj,if_neg (by omega)]
        rw [if_pos hlater,if_pos (by omega),tableEntry_congr (by omega) hsame]
        rw [patch_word,patch_word,hsame i hi]
      · rw [if_neg hlater,hone e i he hi]
        by_cases hef : e=f
        · rw [if_pos hef,if_pos (by omega)]
        · rw [if_neg hef,if_neg (by omega)]
    · intro sec hsec
      rw [hout sec hsec]
      simp only [copySet,Ata.store,copySector_eq hc]
      exact writeFrom_of_ne (hsec f (c/128) (by omega) (by omega))

theorem SetFrom.entrySet (h : SetFrom g c v 0 disk disk') (hin : 4*c<512*g.fatSizeSectors) :
    EntrySet g c v disk disk' := by
  have hentry : ∀ f, f<g.numFats → tableEntry g disk' f c=mergeEntry (tableEntry g disk f c) v := by
    intro f hf
    have hbytes : tableEntry g disk' f c =
        wordAt (patch (4*c) (wordBytes (mergeEntry (tableEntry g disk f c) v)) (tableByte g disk f)) (4*c) := by
      apply wordAt_congr
      intro k hk
      rw [h.bytes f (4*c+k) hf (by omega),if_pos (Nat.zero_le f)]
    rw [hbytes]
    exact wordAt_patch_self _ _ _ (mergeEntry_lt _ _ (wordAt_lt _ _))
  refine ⟨?_,?_,?_,h.outside⟩
  · intro f hf
    rw [hentry f hf]
    unfold mergeEntry
    omega
  · intro f hf
    rw [hentry f hf]
    unfold mergeEntry
    omega
  · intro f i hf hi hout
    rw [h.bytes f i hf hi,if_pos (Nat.zero_le f),patch_word,if_neg (by omega)]

theorem fatOf_tableEntry (hc : c<0x40000000) : fatOf g disk c=tableEntry g disk 0 c%0x10000000 := by
  have hbyte : ∀ k, k<4 → disk (tableSector g 0 (c/128)) (4*(c%128)+k)=tableByte g disk 0 (4*c+k) := by
    intro k hk
    rw [tableByte,show (4*c+k)/512=c/128 by omega,show (4*c+k)%512=4*(c%128)+k by omega]
  rw [fatOf,← copySector_zero,copySector_eq hc,entOffset_eq]
  unfold tableEntry wordAt
  rw [← hbyte 1 (by omega),← hbyte 2 (by omega),← hbyte 3 (by omega),← Nat.add_zero (4*c),← hbyte 0 (by omega)]
  rfl

/-- What `fat_set(c, v)` is to do, with the entry of another cluster `d`. -/
structure EntryUpdated (s t : Fat) (c d v : Nat) : Prop where
  set : (fatGet c t).1=some (v%0x10000000)
  kept : (fatGet d t).1=(fatGet d s).1
  disk : EntrySet s.geo c v s.ata.disk t.ata.disk

/-- Setting an entry, wherever the copies of the table lie apart for the drive. -/
theorem fat_entry_update (hideal : Ideal s.ata) (hcopies : 1 ≤ s.geo.numFats)
    (hapart : s.geo.numFats*s.geo.fatSizeSectors≤0x10000000) (hc : 4*c<512*s.geo.fatSizeSectors)
    (hd : 4*d<512*s.geo.fatSizeSectors) (hc' : 4*c<4294967296) (hd' : 4*d<4294967296) (hcd : c≠d) (v : Nat) :
    ∃ t, fatSet c v s=(some true,t) ∧ EntryUpdated s t c d v := by
  obtain ⟨t,hrun,hgeo,hideal',hfrom⟩ :=
    fatSetLoop_setFrom (v := v) (f := 0) hapart (by omega) hc rfl hideal (Nat.zero_add _)
  have hset := hfrom.entrySet hc
  refine ⟨t,?_,?_,?_,hset⟩
  · rw [fatSet,state_bind,hrun]
  · rw [fatGet_ideal hideal' c,hgeo,fatOf_tableEntry (by omega),hset.low 0 hcopies]
  · have hsame : tableEntry s.geo t.ata.disk 0 d=tableEntry s.geo s.ata.disk 0 d := by
      apply wordAt_congr
      intro k hk
      exact hset.others 0 (4*d+k) hcopies (by omega) (by omega)
    rw [fatGet_ideal hideal' d,fatGet_ideal hideal d,hgeo,fatOf_tableEntry (by omega),fatOf_tableEntry (by omega),
      hsame]

/-- A drive of zeros, with a volume of the given copies and table size. -/
def blankVolume (copies size : Nat) : Fat where
  mounted := true
  geo := ⟨0,0,0,2,1,size,copies,0⟩
  ata := ⟨true,true,fun _ => none, 0, fun _ _ => 0, []⟩
  sectorBuf := fun _ => 0
  clusterBuf := fun _ => 0

theorem fat_entry_update_two_copies :
    ∃ t, fatSet 5 7 (blankVolume 2 1)=(some true,t) ∧ EntryUpdated (blankVolume 2 1) t 5 6 7 :=
  fat_entry_update ⟨rfl,fun _ => rfl⟩ (by decide) (by decide) (by decide) (by decide) (by decide) (by decide)
    (by decide) 7

/-- Two copies of 2^28-1 sectors: the drive takes sector 1 of the second copy for sector 0 of the first. -/
theorem fat_entry_update_fails : ¬ ∀ (s t : Fat) (c d v : Nat), Ideal s.ata → 1 ≤ s.geo.numFats →
    4*c<512*s.geo.fatSizeSectors → 4*d<512*s.geo.fatSizeSectors → c≠d → fatSet c v s=(some true,t) →
      EntryUpdated s t c d v := by
  intro h
  have hideal : Ideal (blankVolume 2 0xFFFFFFF).ata := ⟨rfl,fun _ => rfl⟩
  have hrun : fatSet 0 1 (blankVolume 2 0xFFFFFFF) =
      (some true,copySet 0 1 1 (copySet 0 1 0 (blankVolume 2 0xFFFFFFF))) := by
    rw [fatSet,state_bind]
    exact (fatSetLoop_ideal hideal 0 1 1 0).trans (fatSetLoop_ideal ⟨rfl,fun _ => rfl⟩ 0 1 0 1)
  have hother := (h _ _ 0 1 1 hideal (by decide) (by decide) (by decide) (by decide) hrun).disk.others 1 512
    (by decide) (by decide) (by decide)
  revert hother
  decide

end MyKernel.Fat32
