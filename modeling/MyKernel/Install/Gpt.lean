import MyKernel.Install.BootCode

/-! The partition table `part_create_gpt_fat32` writes, against its own checksums. -/
namespace MyKernel.Install
open CString Memory MyKernel.Computation Disk Fat32

variable {s t : Fat} {disk disk' : Nat → Nat → UInt8} {lba n start size : Nat} {xs ys : List UInt8}

def bytesFrom (disk : Nat → Nat → UInt8) (lba n : Nat) : List UInt8 :=
  (List.range n).map fun i => disk (lba+i/SECTOR_SIZE) (i%SECTOR_SIZE)

def clearedHeader (disk : Nat → Nat → UInt8) : List UInt8 :=
  (bytesFrom disk 1 92).take 16++[0,0,0,0]++(bytesFrom disk 1 92).drop 20

def entriesLba (disk : Nat → Nat → UInt8) : Nat := wordAt (disk 1) 72+4294967296*wordAt (disk 1) 76

/-- Both checksums of the header are those of what is on the disk. -/
structure GptConsistent (disk : Nat → Nat → UInt8) : Prop where
  header : wordAt (disk 1) 16=(crc32 (clearedHeader disk)).toNat
  array : wordAt (disk 1) 88 =
    (crc32 (bytesFrom disk (entriesLba disk) (wordAt (disk 1) 80*wordAt (disk 1) 84))).toNat

def crcRegister (data : List UInt8) : UInt32 := data.foldl crcByte 0xFFFFFFFF

theorem length_bytesFrom : (bytesFrom disk lba n).length=n := by
  rw [bytesFrom,List.length_map,List.length_range]

theorem bytesFrom_congr (h : ∀ i, i<n → disk (lba+i/SECTOR_SIZE) (i%SECTOR_SIZE) =
    disk' (lba+i/SECTOR_SIZE) (i%SECTOR_SIZE)) : bytesFrom disk lba n=bytesFrom disk' lba n := by
  apply List.map_congr_left
  intro i hi
  exact h i (List.mem_range.mp hi)

theorem bytesFrom_sector (disk : Nat → Nat → UInt8) (lba n : Nat) :
    bytesFrom disk lba (512+n)=bytesFrom disk lba 512++bytesFrom disk (lba+1) n := by
  rw [bytesFrom,List.range_add,List.map_append,List.map_map]
  congr 1
  apply List.map_congr_left
  intro i _
  have hdiv : (512+i)/SECTOR_SIZE=1+i/SECTOR_SIZE := by
    unfold SECTOR_SIZE
    omega
  have hmod : (512+i)%SECTOR_SIZE=i%SECTOR_SIZE := by
    unfold SECTOR_SIZE
    omega
  rw [Function.comp_apply,hdiv,hmod,Nat.add_assoc]

theorem bytesFrom_patch (h : disk lba=patch 0 xs zeros) (hn : n≤512) (hx : xs.length≤n) :
    bytesFrom disk lba n=xs++List.replicate (n-xs.length) 0 := by
  have hlen : (xs++List.replicate (n-xs.length) 0).length=n := by
    rw [List.length_append,List.length_replicate]
    omega
  apply List.ext_getElem (by rw [length_bytesFrom,hlen])
  intro i hi _
  rw [length_bytesFrom] at hi
  have hdiv : i/SECTOR_SIZE=0 := Nat.div_eq_of_lt (show i<512 by omega)
  have hmod : i%SECTOR_SIZE=i := Nat.mod_eq_of_lt (show i<512 by omega)
  simp only [bytesFrom,List.getElem_map,List.getElem_range,hdiv,hmod,Nat.add_zero,h]
  by_cases hix : i<xs.length
  · rw [List.getElem_append_left hix,patch,if_pos (by omega),Nat.sub_zero,List.getD_eq_getElem _ _ hix]
  · rw [List.getElem_append_right (by omega),List.getElem_replicate,patch,if_neg (by omega)]
    rfl

theorem ascii_efi : ascii "EFI PART"=[0x45,0x46,0x49,0x20,0x50,0x41,0x52,0x54] := by decide +kernel

theorem length_gptEntry (start last : Nat) : (gptEntry start last).length=128 := by
  have hname : ((ascii "MYKERNEL").flatMap fun c => [c,0]).length=16 := by decide +kernel
  simp only [gptEntry,typeGuid,uniqueGuid,longBytes,wordBytes,List.length_append,List.length_cons,
    List.length_nil,List.length_replicate,hname]

def headerFront : List UInt8 := ascii "EFI PART"++wordBytes 0x00010000++wordBytes 92

def headerMiddle (startLba sizeSectors last : Nat) : List UInt8 :=
  wordBytes 0++longBytes 1++longBytes (u32 (sizeSectors+startLba+100))++longBytes 34++longBytes last++diskGuid

def headerBack (partCrc : Nat) : List Nat := [2,0,128,128,partCrc]

theorem gptHeader_eq (start size last hdrCrc partCrc : Nat) :
    gptHeader start size last hdrCrc partCrc =
      headerFront++(wordBytes hdrCrc++(headerMiddle start size last++(headerBack partCrc).flatMap wordBytes)) := by
  simp only [gptHeader,headerFront,headerMiddle,headerBack,longBytes,List.append_assoc,List.append_nil,
    List.flatMap_cons,List.flatMap_nil]

theorem length_headerFront : headerFront.length=16 := by
  rw [headerFront,ascii_efi]
  rfl

theorem length_headerMiddle (start size last : Nat) : (headerMiddle start size last).length=52 := by
  simp only [headerMiddle,diskGuid,longBytes,wordBytes,List.length_append,List.length_cons,List.length_nil,
    List.length_map,List.length_range]

theorem length_gptHeader (start size last hdrCrc partCrc : Nat) :
    (gptHeader start size last hdrCrc partCrc).length=92 := by
  rw [gptHeader_eq,List.length_append,List.length_append,List.length_append,length_headerFront,
    length_headerMiddle]
  rfl

theorem wordAt_patch {front back : List UInt8} {v : Nat} (hv : v<4294967296) (hn : front.length=n)
    (buf : Nat → UInt8) : wordAt (patch 0 (front++(wordBytes v++back)) buf) n=v := by
  have hbyte : ∀ k, k<4 → patch 0 (front++(wordBytes v++back)) buf (n+k)=(wordBytes v).getD k 0 := by
    intro k hk
    have hlen : (wordBytes v).length=4 := rfl
    rw [patch,if_pos (by rw [List.length_append,List.length_append]; omega),Nat.sub_zero,← hn,
      List.getD_append_right _ _ _ _ (by omega),Nat.add_sub_cancel_left,List.getD_append _ _ _ _ (by omega)]
  rw [wordAt,← Nat.add_zero n,hbyte 0 (by decide),Nat.add_zero,hbyte 1 (by decide),hbyte 2 (by decide),
    hbyte 3 (by decide)]
  exact le32_byteOf hv

theorem wordAt_words {front : List UInt8} {ws : List Nat} {i : Nat} (hws : ∀ w∈ws, w<4294967296)
    (hi : i<ws.length) (buf : Nat → UInt8) :
    wordAt (patch 0 (front++ws.flatMap wordBytes) buf) (front.length+4*i)=ws[i] := by
  have hsplit : front++ws.flatMap wordBytes =
      (front++(ws.take i).flatMap wordBytes)++(wordBytes ws[i]++(ws.drop (i+1)).flatMap wordBytes) := by
    rw [List.append_assoc,← List.flatMap_cons,List.getElem_cons_drop,← List.flatMap_append,List.take_append_drop]
  have hlen : ∀ l : List Nat, (l.flatMap wordBytes).length=4*l.length := by
    intro l
    induction l with
    | nil => rfl
    | cons w l ih =>
      rw [List.flatMap_cons,List.length_append,ih,List.length_cons,Nat.mul_succ,Nat.add_comm]
      rfl
  rw [hsplit]
  apply wordAt_patch (hws _ (List.getElem_mem hi))
  rw [List.length_append,hlen,List.length_take,Nat.min_eq_left (by omega)]

theorem rawWrite_true {buf : Nat → UInt8} (h : rawWrite lba buf s=(some true,t)) :
    t.ata.disk=writeFrom s.ata.disk (u28 lba) 1 buf := by
  rw [rawWrite,ataWriteSectors] at h
  split at h
  · cases h
  · cases hout : s.ata.outcome s.ata.ops with
    | none =>
      rw [hout] at h
      obtain ⟨_,rfl⟩ := Prod.mk.inj h
      rfl
    | some k =>
      rw [hout] at h
      cases h

/-- The sectors 0 to 2 are written, in whatever order, and no others. -/
theorem partCreateGpt_disk (hstart : 34 ≤ start) (hsize : 0<size)
    (h : partCreateGptFat32 start size s=(some true,t)) :
    t.ata.disk 1=headerSector start size ∧ t.ata.disk 2=entrySector start size ∧
      ∀ sec, 3 ≤ sec → t.ata.disk sec=s.ata.disk sec := by
  rw [partCreateGptFat32,state_bind] at h
  split at h
  · cases h
  · rw [if_neg (by omega),if_neg (by omega)] at h
    obtain ⟨ok,u,hmbr,h⟩ := bind_ended h
    cases ok with
    | false => cases h
    | true =>
      rw [if_pos rfl] at h
      obtain ⟨ok,w,hentry,h⟩ := bind_ended h
      cases ok with
      | false => cases h
      | true =>
        rw [if_pos rfl] at h
        have h0 := rawWrite_true hmbr
        have h2 := rawWrite_true hentry
        have h1 := rawWrite_true h
        rw [u28_of_lt (by decide)] at h0 h1 h2
        refine ⟨?_,?_,?_⟩
        · rw [h1,writeFrom_self]
        · rw [h1,writeFrom_of_ne (by decide),h2,writeFrom_self]
        · intro sec hsec
          rw [h1,writeFrom_of_ne (by omega),h2,writeFrom_of_ne (by omega),h0,writeFrom_of_ne (by omega)]

theorem crc32_eq_iff : crc32 xs=crc32 ys ↔ crcRegister xs=crcRegister ys := UInt32.not_inj

theorem crcRegister_append : crcRegister (xs++ys)=ys.foldl crcByte (crcRegister xs) := List.foldl_append

section Header
variable (h1 : disk 1=headerSector start size)
include h1

theorem gpt_header_word : wordAt (disk 1) 16=(crc32 (clearedHeader disk)).toNat := by
  rw [headerSector] at h1
  have hbytes := bytesFrom_patch h1 (show 92≤512 by decide) (length_gptHeader ..).le
  rw [length_gptHeader,Nat.sub_self,List.replicate_zero,List.append_nil] at hbytes
  generalize (crc32 (gptEntry start (gptLast start size))).toNat=partCrc at h1 hbytes
  have hcleared : clearedHeader disk=gptHeader start size (gptLast start size) 0 partCrc := by
    rw [clearedHeader,hbytes,gptHeader_eq,gptHeader_eq,List.take_left' length_headerFront,← List.append_assoc,
      List.drop_left' (by rw [List.length_append,length_headerFront]; rfl),List.append_assoc]
    rfl
  rw [hcleared,h1,gptHeader_eq start size]
  exact wordAt_patch (UInt32.toNat_lt _) length_headerFront _

theorem gpt_header_fields : entriesLba disk=2 ∧ wordAt (disk 1) 80*wordAt (disk 1) 84=16384 ∧
    wordAt (disk 1) 88=(crc32 (gptEntry start (gptLast start size))).toNat := by
  rw [headerSector] at h1
  have hpart := UInt32.toNat_lt (crc32 (gptEntry start (gptLast start size)))
  generalize (crc32 (gptEntry start (gptLast start size))).toNat=partCrc at h1 hpart
  generalize (crc32 (gptHeader start size (gptLast start size) 0 partCrc)).toNat=hdrCrc at h1
  obtain ⟨top,htop,hheader⟩ : ∃ top : List UInt8, top.length=72 ∧
      gptHeader start size (gptLast start size) hdrCrc partCrc=top++(headerBack partCrc).flatMap wordBytes := by
    refine ⟨headerFront++(wordBytes hdrCrc++headerMiddle start size (gptLast start size)),?_,?_⟩
    · rw [List.length_append,List.length_append,length_headerFront,length_headerMiddle]
      rfl
    · rw [gptHeader_eq,List.append_assoc,List.append_assoc]
  have hsmall : ∀ w∈headerBack partCrc, w<4294967296 := by
    simpa [headerBack] using hpart
  have hword : ∀ i (hi : i<5), wordAt (disk 1) (72+4*i)=(headerBack partCrc)[i] := by
    intro i hi
    rw [h1,hheader,← htop]
    exact wordAt_words hsmall hi zeros
  have h72 : wordAt (disk 1) 72=2 := hword 0 (by decide)
  have h76 : wordAt (disk 1) 76=0 := hword 1 (by decide)
  have h80 : wordAt (disk 1) 80=128 := hword 2 (by decide)
  have h84 : wordAt (disk 1) 84=128 := hword 3 (by decide)
  have h88 : wordAt (disk 1) 88=partCrc := hword 4 (by decide)
  rw [entriesLba,h72,h76,h80,h84]
  exact ⟨rfl,rfl,h88⟩

end Header

/-- The entries end with 384 zeros behind the one that is written, and the 31 sectors that were there before. -/
theorem gpt_array_iff (hheader : disk' 1=headerSector start size) (hentry : disk' 2=entrySector start size)
    (hrest : ∀ sec, 3 ≤ sec → disk' sec=disk sec) : wordAt (disk' 1) 88 =
      (crc32 (bytesFrom disk' (entriesLba disk') (wordAt (disk' 1) 80*wordAt (disk' 1) 84))).toNat ↔
      (List.replicate 384 0++bytesFrom disk 3 15872).foldl crcByte
        (crcRegister (gptEntry start (gptLast start size)))=crcRegister (gptEntry start (gptLast start size)) := by
  obtain ⟨hlba,hbytes,hpart⟩ := gpt_header_fields hheader
  have hsector : bytesFrom disk' 2 512=gptEntry start (gptLast start size)++List.replicate 384 0 := by
    rw [bytesFrom_patch hentry (Nat.le_refl _) (by rw [length_gptEntry]; decide),length_gptEntry]
  have hold : bytesFrom disk' 3 15872=bytesFrom disk 3 15872 :=
    bytesFrom_congr fun i _ => by rw [hrest _ (Nat.le_add_right 3 _)]
  have harray : bytesFrom disk' 2 16384 =
      gptEntry start (gptLast start size)++(List.replicate 384 0++bytesFrom disk 3 15872) := by
    rw [show 16384=512+15872 from rfl,bytesFrom_sector,hsector,hold,List.append_assoc]
  rw [hlba,hbytes,hpart,← crcRegister_append,← harray,← crc32_eq_iff,UInt32.toNat_inj,eq_comm]

/-- The table is consistent exactly if the rest of the array does not move the register of the checksum. -/
theorem gpt_consistent_iff (hstart : 34 ≤ start) (hsize : 0<size)
    (h : partCreateGptFat32 start size s=(some true,t)) : GptConsistent t.ata.disk ↔
      (List.replicate 384 0++bytesFrom s.ata.disk 3 15872).foldl crcByte
        (crcRegister (gptEntry start (gptLast start size)))=crcRegister (gptEntry start (gptLast start size)) := by
  obtain ⟨hheader,hentry,hrest⟩ := partCreateGpt_disk hstart hsize h
  rw [← gpt_array_iff hheader hentry hrest]
  exact ⟨fun hcons => hcons.array,fun harray => ⟨gpt_header_word hheader,harray⟩⟩

/-! Four bytes clear the register at the start of sector 3, and four more at the end of the array. -/

def clearing : List UInt8 := [0x95,0x56,0xD2,0x2A]

def restoring : List UInt8 := [0x92,0x5C,0xDD,0x11]

def forgedDisk (final : List UInt8) : Nat → Nat → UInt8 := fun sec =>
  if sec=3 then patch 0 clearing zeros else if sec=33 then patch 508 final zeros else zeros

theorem bytesFrom_forged {final : List UInt8} (hlen : final.length=4) :
    bytesFrom (forgedDisk final) 3 15872=clearing++(List.replicate 15864 0++final) := by
  have hc : clearing.length=4 := rfl
  apply List.ext_getElem
  · rw [length_bytesFrom,List.length_append,List.length_append,List.length_replicate,hlen,hc]
  · intro i hi hi'
    rw [length_bytesFrom] at hi
    rw [← List.getD_eq_getElem _ 0 hi']
    simp only [bytesFrom,List.getElem_map,List.getElem_range]
    change forgedDisk final (3+i/512) (i%512)=_
    rw [forgedDisk]
    by_cases hfirst : i<4
    · rw [if_pos (by omega),List.getD_append _ _ _ _ hfirst,Nat.mod_eq_of_lt (by omega),← Nat.zero_add i,
        patch_of_inside hfirst,Nat.zero_add]
    rw [List.getD_append_right _ _ _ _ (by omega),hc]
    by_cases hmid : i-4<15864
    · rw [List.getD_append _ _ _ _ (by rw [List.length_replicate]; exact hmid),List.getD_replicate _ hmid]
      split
      · rw [patch_of_outside (by omega)]
        rfl
      split
      · rw [patch_of_outside (by omega)]
        rfl
      rfl
    · rw [List.getD_append_right _ _ _ _ (by rw [List.length_replicate]; omega),List.length_replicate,
        if_neg (by omega),if_pos (by omega),show i%512=508+(i-4-15864) by omega,patch_of_inside (by omega)]

/-- The registers after the entry, after its sector, and after the four bytes behind; and from an empty one. -/
theorem forged_registers : crcRegister (gptEntry PART_START (gptLast PART_START PART_SIZE))=0x2CC9655B ∧
    (List.replicate 384 0++clearing).foldl crcByte 0x2CC9655B=0 ∧ restoring.foldl crcByte 0=0x2CC9655B := by
  decide +kernel

theorem crcByte_zeros (n : Nat) : (List.replicate n 0).foldl crcByte 0=0 := by
  induction n with
  | zero => rfl
  | succ n ih =>
    have hzero : crcByte 0 0=0 := by decide
    rw [List.replicate_succ,List.foldl_cons,hzero,ih]

theorem forged_register {final : List UInt8} (hlen : final.length=4) :
    (List.replicate 384 0++bytesFrom (forgedDisk final) 3 15872).foldl crcByte 0x2CC9655B =
      final.foldl crcByte 0 := by
  rw [bytesFrom_forged hlen,← List.append_assoc,List.foldl_append,forged_registers.2.1,List.foldl_append,
    crcByte_zeros]

/-- With both, the checksum of one entry is that of all. -/
theorem gpt_consistent_restored : ∃ t, partCreateGptFat32 PART_START PART_SIZE (attachedTo (forgedDisk restoring)) =
    (some true,t) ∧ GptConsistent t.ata.disk := by
  refine ⟨_,partCreateGptFat32_ideal (ideal_attachedTo _),?_⟩
  rw [gpt_consistent_iff (by decide) (by decide) (partCreateGptFat32_ideal (ideal_attachedTo _)),
    forged_registers.1]
  exact (forged_register rfl).trans forged_registers.2.2

/-- With the first four bytes alone, the checksum of the array is that of an empty register. -/
theorem gpt_not_consistent : ¬ ∀ (start size : Nat) (s t : Fat), 34 ≤ start → 0<size →
    start+size≤4294967296-200 → partCreateGptFat32 start size s=(some true,t) → GptConsistent t.ata.disk := by
  intro hall
  have hrun := partCreateGptFat32_ideal (ideal_attachedTo (forgedDisk [0,0,0,0]))
  have hcons := hall _ _ _ _ (by decide) (by decide) (by decide) hrun
  have harray := (gpt_array_iff gptDrive_header gptDrive_entry fun _ => gptDrive_rest).mp hcons.array
  rw [forged_registers.1] at harray
  exact absurd ((forged_register rfl).symm.trans harray) (by decide)

end MyKernel.Install
