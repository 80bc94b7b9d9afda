import MyKernel.Install.Part

/-! The table of sector 0, written and found again. -/
namespace MyKernel.Install
open Memory MyKernel.Computation Disk Fat32

/-- What `find_fat_partition` takes for the boot sector of a volume. -/
def PassesForBoot (b : Bpb) : Prop :=
  b.bytesPerSector=512 ∧ 1≤b.sectorsPerCluster ∧ 1≤b.numFats ∧ b.fatSize32≠0 ∧
    (b.fsType0=0x46 ∨ b.bootSignature=0x29)

instance (b : Bpb) : Decidable (PassesForBoot b) := inferInstanceAs (Decidable (_ ∧ _ ∧ _ ∧ _ ∧ _))

def FoundAgain (s : Fat) (start size : Nat) : Prop :=
  ∀ t, partCreateMbrFat32 start size s=(some true,t) →
    ∃ u, findFatPartition t=(some true,u) ∧ u.geo.partitionLba=start

variable {s : Fat} {lba start size : Nat} {sec sec' : Nat → UInt8}

theorem rawWrite_ideal (h : Ideal s.ata) (hlba : lba<268435456) (buf : Nat → UInt8) :
    rawWrite lba buf s=(some true,{ s with ata := s.ata.store lba 1 buf }) := by
  rw [rawWrite,ataWriteSectors_ideal h (by decide),u28_of_lt hlba]

theorem store_disk (a : Ata) (lba n : Nat) (buf : Nat → UInt8) :
    (a.store lba n buf).disk=writeFrom a.disk lba n buf := rfl

theorem hasCode_congr (h : ∀ o, o<446 → sec' o=sec o) : hasCode sec'=hasCode sec := by
  simp only [hasCode,h 0 (by omega),h 1 (by omega),h 2 (by omega)]

theorem mbrSector_front (start size : Nat) {o : Nat} (h : o<446) :
    mbrSector start size sec o=if hasCode sec then sec o else patch 0 haltStub zeros o := by
  rw [mbrSector,patch_of_outside (by omega),patch_of_outside (by omega)]
  split
  · rfl
  · rfl

theorem mbrSector_table {k : Nat} (h : k<64) : mbrSector start size sec (446+k) =
    (tableEntry 0x80 0x0C start size++List.replicate 48 0).getD k 0 := by
  rw [mbrSector,patch_of_outside (by omega),patch_of_inside]
  simp only [tableEntry,wordBytes,List.length_append,List.length_cons,List.length_nil,List.length_replicate]
  omega

theorem mbrSector_signature {k : Nat} (h : k<2) : mbrSector start size sec (510+k)=signature.getD k 0 := by
  rw [mbrSector,patch_of_inside h]

def tableDrive (start size : Nat) (a : Ata) : Ata :=
  ({ a with ops := a.ops+1 } : Ata).store 0 1 (mbrSector start size (readInto a.disk 0 1 zeros))

theorem partCreateMbr_ideal (h : Ideal s.ata) (hstart : 1 ≤ start) (hsize : 0<size) :
    partCreateMbrFat32 start size s=(some true,{ s with ata := tableDrive start size s.ata }) := by
  have hread : rawRead 0 zeros s=(some (true,readInto s.ata.disk 0 1 zeros),
      { s with ata := { s.ata with ops := s.ata.ops+1 } }) := by
    rw [rawRead,ataReadSectors_ideal h (by decide)]
    rfl
  rw [partCreateMbrFat32,state_bind,if_neg h.not_absent]
  dsimp only
  rw [if_neg (by omega),if_neg (by omega),bind_some hread]
  exact rawWrite_ideal (s := { s with ata := { s.ata with ops := s.ata.ops+1 } }) h (by decide) _

theorem bpbOf_mbrSector (start size : Nat) (sec : Nat → UInt8) :
    bpbOf (mbrSector start size sec)=if hasCode sec then bpbOf sec else bpbOf (patch 0 haltStub zeros) := by
  split
  next hcode =>
    apply bpbOf_front
    intro k hk
    rw [mbrSector_front start size (by omega),if_pos hcode]
  next hcode =>
    apply bpbOf_front
    intro k hk
    rw [mbrSector_front start size (by omega),if_neg hcode]

theorem not_passesForBoot_stub : ¬ PassesForBoot (bpbOf (patch 0 haltStub zeros)) := by decide

theorem find_first_entry (h : ∀ k, k<512 → sec k=mbrSector start size sec' k) :
    (List.range 4).find? (isFatEntry sec)=some 0 := by
  have htype : sec (446+0*16+4)=0x0C := by
    rw [h _ (by omega)]
    exact mbrSector_table (by omega)
  have hfirst : isFatEntry sec 0=true := by
    simp only [isFatEntry,htype]
    decide
  rw [show List.range 4=0::[1,2,3] from rfl,List.find?_cons_of_pos hfirst]

theorem wordAt_entry (hstart : start<4294967296) (h : ∀ k, k<512 → sec k=mbrSector start size sec' k) :
    wordAt sec (446+0*16+8)=start := by
  have hbyte : ∀ k, k<4 → sec (446+0*16+8+k)=(wordBytes start).getD k 0 := by
    intro k hk
    rw [h _ (by omega),show 446+0*16+8+k=446+(8+k) from by omega,mbrSector_table (by omega)]
    obtain rfl | rfl | rfl | rfl : k=0 ∨ k=1 ∨ k=2 ∨ k=3 := by omega
    all_goals rfl
  have h0 := hbyte 0 (by omega)
  rw [Nat.add_zero] at h0
  simp only [wordAt,h0,hbyte 1 (by omega),hbyte 2 (by omega),hbyte 3 (by omega)]
  exact le32_byteOf hstart

/-- The partition is found unless the sector passes for the boot sector of a volume. -/
theorem findFatPartition_mbr {u : Fat} (h : Ideal u.ata) (hstart : start<4294967296)
    (hdisk : u.ata.disk 0=mbrSector start size sec') :
    ∃ t, findFatPartition u=(some true,t) ∧
      t.geo.partitionLba=if PassesForBoot (bpbOf (mbrSector start size sec')) then 0 else start := by
  have hread := sectorRead_ideal h 0
  rw [u28_of_lt (by decide)] at hread
  have hbuf : ∀ k, k<512 → readInto u.ata.disk 0 1 u.sectorBuf k=mbrSector start size sec' k := by
    intro k hk
    rw [readInto_front _ _ _ hk,hdisk]
  have hsig : ∀ k, k<2 → readInto u.ata.disk 0 1 u.sectorBuf (510+k)=signature.getD k 0 := by
    intro k hk
    rw [hbuf _ (by omega),mbrSector_signature hk]
  have hsigned : ¬ (readInto u.ata.disk 0 1 u.sectorBuf 510≠0x55 ∨ readInto u.ata.disk 0 1 u.sectorBuf 511≠0xAA) := by
    rw [hsig 0 (by omega),hsig 1 (by omega)]
    decide
  have hboot := bpbOf_congr hbuf
  rw [findFatPartition,bind_some hread,if_pos rfl,state_bind]
  dsimp only
  rw [hboot]
  by_cases hpass : PassesForBoot (bpbOf (mbrSector start size sec'))
  · rw [if_pos hpass]
    unfold PassesForBoot at hpass
    rw [if_pos hpass]
    exact ⟨_,rfl,rfl⟩
  · rw [if_neg hpass]
    unfold PassesForBoot at hpass
    rw [if_neg hpass,if_neg hsigned,find_first_entry hbuf]
    exact ⟨_,rfl,wordAt_entry hstart hbuf⟩

/-- For every content of the drive, the new partition is found again unless the old sector 0 begins with code and
holds the parameters of a volume. -/
theorem mbr_found_iff (h : Ideal s.ata) (hstart : 1 ≤ start ∧ start<4294967296)
    (hsize : 0<size ∧ size<4294967296) :
    FoundAgain s start size ↔ ¬ (hasCode (s.ata.disk 0)=true ∧ PassesForBoot (bpbOf (s.ata.disk 0))) := by
  have hmake := partCreateMbr_ideal h hstart.1 hsize.1
  have hcode : hasCode (readInto s.ata.disk 0 1 zeros)=hasCode (s.ata.disk 0) :=
    hasCode_congr fun o ho => readInto_front s.ata.disk 0 zeros (by omega)
  have hpass : PassesForBoot (bpbOf (mbrSector start size (readInto s.ata.disk 0 1 zeros))) ↔
      hasCode (s.ata.disk 0)=true ∧ PassesForBoot (bpbOf (s.ata.disk 0)) := by
    rw [bpbOf_mbrSector,hcode,bpbOf_readInto]
    split
    next hc => exact ⟨fun hp => ⟨hc,hp⟩,fun hp => hp.2⟩
    next hc => exact ⟨fun hp => absurd hp not_passesForBoot_stub,fun hp => absurd hp.1 hc⟩
  have hdisk : (tableDrive start size s.ata).disk 0=mbrSector start size (readInto s.ata.disk 0 1 zeros) := by
    rw [tableDrive,store_disk,writeFrom_self]
  obtain ⟨u,hfind,hlba⟩ := findFatPartition_mbr (u := { s with ata := tableDrive start size s.ata }) h hstart.2
    hdisk
  rw [← hpass]
  constructor
  · intro hfound hboot
    obtain ⟨v,hv,hvlba⟩ := hfound _ hmake
    obtain rfl : u=v := by simpa using hfind.symm.trans hv
    rw [if_pos hboot] at hlba
    omega
  · intro hboot t ht
    obtain rfl : _ = t := (Prod.mk.inj (hmake.symm.trans ht)).2
    rw [if_neg hboot] at hlba
    exact ⟨u,hfind,hlba⟩

/-- On a blank disk the partition is found. -/
theorem mbr_found_iff_blank : FoundAgain (attachedTo fun _ _ => 0) 2048 262144 :=
  (mbr_found_iff ⟨rfl,fun _ => rfl⟩ (by decide) (by decide)).mpr (by decide)

/-- A volume without a partition table: `fat32_mkfs(0, 65536)` has been run on the whole disk. -/
def wholeDisk (sector offset : Nat) : UInt8 := if sector=0 then bootBuf 0 65536 64 zeros offset else 0

/-- The old boot sector is kept, and the volume it describes is found instead of the partition. -/
theorem mbr_not_found :
    ¬ ∀ (s : Fat) (start size : Nat), Ideal s.ata → 1 ≤ start → start<4294967296 → 0<size →
      size<4294967296 → FoundAgain s start size := by
  intro h
  obtain ⟨t,hmake,hfind⟩ : ∃ t, partCreateMbrFat32 2048 262144 (attachedTo wholeDisk)=(some true,t) ∧
      (findFatPartition t).2.geo.partitionLba=0 := ⟨_,eq_of_fst (by decide),by decide +kernel⟩
  obtain ⟨u,hu,hlba⟩ := h (attachedTo wholeDisk) 2048 262144 ⟨rfl,fun _ => rfl⟩ (by decide) (by decide)
    (by decide) (by decide) t hmake
  rw [hu] at hfind
  exact absurd (hlba.symm.trans hfind) (by decide)

end MyKernel.Install
