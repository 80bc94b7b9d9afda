import MyKernel.Fat32.Volume

/-! A file that was written is read back, and the others as before. -/
namespace MyKernel.Fat32
open MyKernel.Computation Disk

def ValidPart (max : Nat) (part : List UInt8) : Prop :=
  1≤part.length ∧ part.length ≤ max ∧ ∀ c∈part, 0x20<c ∧ c≤0x7E ∧ c≠0x2E

/-- An 8.3 name: a base, and possibly a dot and an extension. -/
def Valid83 (name : List UInt8) : Prop :=
  ValidPart 8 name ∨ ∃ base ext, ValidPart 8 base ∧ ValidPart 3 ext ∧ name=base++0x2E::ext

def CaseVariant (name name' : List UInt8) : Prop := name'.map upper=name.map upper

/-- What `fat32_read_file` returns and stores for a buffer of `bufSize` bytes. -/
def ReadsAs (s : Fat) (name : List UInt8) (bufSize : Nat) (out : ReadOut) : Prop :=
  ∃ t, Returns (fun n => fat32ReadFile n name bufSize) s out t

/-- A mounted volume, on a drive that never fails, whose chains end and do not meet, with distinct names. -/
structure SoundVolume (s : Fat) : Prop where
  mounted : s.mounted=true
  ideal : Ideal s.ata
  cluster : 1 ≤ s.geo.sectorsPerCluster ∧ s.geo.sectorsPerCluster≤8
  sound : ∃ rc ch, Sound s.geo (viewOf s) rc ch

variable {g : Geo} {V : View} {s t : Fat} {rc : List Nat} {ch : Nat → List Nat}
variable {name name' text : List UInt8} {bufSize : Nat} {out out' : ReadOut}

theorem upper_upper (c : UInt8) : upper (upper c)=upper c := by
  unfold upper
  grind

theorem upper_eq_dot {c : UInt8} : upper c=0x2E ↔ c=0x2E := by
  unfold upper
  grind

theorem map_upper_upper (l : List UInt8) : (l.map upper).map upper=l.map upper := by
  rw [List.map_map]
  exact List.map_congr_left fun c _ => upper_upper c

theorem baseOf_upper (name : List UInt8) : baseOf (name.map upper)=(baseOf name).map upper := by
  have htake : (name.map upper).takeWhile (fun c => c != 0x2E) =
      (name.takeWhile fun c => c != 0x2E).map upper := by
    induction name with
    | nil => rfl
    | cons c rest ih =>
      by_cases hc : c=0x2E
      · simp [hc,upper_eq_dot]
      · simp [hc,upper_eq_dot,ih]
  rw [baseOf,htake,← List.map_take,baseOf]

theorem extOf_upper (l : List UInt8) : extOf (l.map upper)=(extOf l).map upper := by
  cases l with
  | nil => rfl
  | cons c rest =>
    by_cases hc : c=0x2E
    · simp [extOf,hc,upper_eq_dot]
    · simp [extOf,hc,upper_eq_dot]

theorem nameTo83_upper (name : List UInt8) : nameTo83 (name.map upper)=nameTo83 name := by
  rw [nameTo83,baseOf_upper,map_upper_upper,List.length_map,← List.map_drop,extOf_upper,
    map_upper_upper,nameTo83]

theorem CaseVariant.nameTo83_eq (h : CaseVariant name name') : nameTo83 name'=nameTo83 name := by
  rw [← nameTo83_upper name',← nameTo83_upper name,h]

theorem CaseVariant.ne_nil (h : CaseVariant name name') (hne : name≠[]) : name'≠[] := by
  intro hnil
  have hlen := congrArg List.length h
  simp only [hnil,List.map_nil,List.length_nil,List.length_map] at hlen
  exact hne (List.length_eq_zero_iff.mp hlen.symm)

theorem ValidPart.printable {max : Nat} {part : List UInt8} (h : ValidPart max part) : PrintableName part :=
  fun c hc => ⟨UInt8.le_of_lt (h.2.2 c hc).1,(h.2.2 c hc).2.1⟩

theorem Valid83.printable (h : Valid83 name) : name≠[] ∧ PrintableName name := by
  have hnonempty : ∀ {max part}, ValidPart max part → part≠[] := by
    intro max part hp hnil
    have hlen := hp.1
    simp [hnil] at hlen
  cases h with
  | inl hp => exact ⟨hnonempty hp,hp.printable⟩
  | inr hp =>
    obtain ⟨base,ext,hb,he,rfl⟩ := hp
    refine ⟨by simp,?_⟩
    intro c hc
    simp only [List.mem_append,List.mem_cons] at hc
    cases hc with
    | inl hc => exact hb.printable c hc
    | inr hc =>
      cases hc with
      | inl hc => exact hc ▸ (by decide)
      | inr hc => exact he.printable c hc

theorem ReadsAs.unique (h : ReadsAs s name bufSize out) (h' : ReadsAs s name bufSize out') : out=out' := by
  obtain ⟨t,ht⟩ := h
  obtain ⟨u,hu⟩ := h'
  exact (ht.unique (mono_fat32ReadFile name bufSize) hu).1

def readOf (files : List UInt8 → Option Node) (name : List UInt8) (bufSize : Nat) : ReadOut :=
  if name=[] ∨ bufSize=0 then ⟨.notFound,0,[]⟩ else readNode bufSize (files (nameTo83 name))

theorem Sees.readsAs (h : Sees s g V) (hs : Sound g V rc ch) (name : List UInt8) (bufSize : Nat) :
    ReadsAs s name bufSize (readOf (filesOf g V rc ch) name bufSize) := by
  by_cases hbad : name=[] ∨ bufSize=0
  · refine ⟨s,0,?_⟩
    rw [readOf,if_pos hbad]
    show fat32ReadFile 0 name bufSize s=_
    rw [fat32ReadFile,state_bind,h.mounted]
    simp [hbad]
  · rw [readOf,if_neg hbad]
    rw [not_or] at hbad
    obtain ⟨t,ht⟩ := fat32ReadFile_sees h hs (Nat.lt_succ_self g.totalClusters) hbad.1
      (Nat.pos_of_ne_zero hbad.2)
    exact ⟨t,_,ht⟩

theorem readsAs_iff (h : Sees s g V) (hs : Sound g V rc ch) :
    ReadsAs s name bufSize out ↔ out=readOf (filesOf g V rc ch) name bufSize := by
  constructor
  · exact fun hr => hr.unique (h.readsAs hs name bufSize)
  · rintro rfl
    exact h.readsAs hs name bufSize

theorem readOf_file {files : List UInt8 → Option Node} (hne : name≠[])
    (hfile : files (nameTo83 name)=some (.file text)) (hbuf : max 1 text.length≤bufSize) :
    readOf files name bufSize=⟨.ok,text.length,text⟩ := by
  have hpos : bufSize≠0 := by omega
  have htake : text.take bufSize=text := List.take_of_length_le (by omega)
  simp [readOf,hne,hpos,hfile,readNode,htake]

/-- A file that was written is read back, and every other name is read as before. -/
theorem fat_write_read_round_trip (hv : SoundVolume s) (ha : Area s.geo) (hname : Valid83 name)
    (hw : Returns (fun n => fat32Write n name text) s .ok t) :
    (∀ name' bufSize, CaseVariant name name' → max 1 text.length≤bufSize →
      ReadsAs t name' bufSize ⟨.ok,text.length,text⟩) ∧
    ∀ name' bufSize out, nameTo83 name'≠nameTo83 name →
      (ReadsAs t name' bufSize out ↔ ReadsAs s name' bufSize out) := by
  obtain ⟨rc,ch,hs⟩ := hv.sound
  obtain ⟨hne,hp⟩ := hname.printable
  have hsees := sees_viewOf hv.mounted hv.ideal ha
  obtain ⟨fuel,hfuel,hrun⟩ := hw.at_least (mono_fat32Write name text) s.geo.totalClusters
  obtain ⟨r,u,W,hrun',hsees',hdone⟩ := call_sees (.write name text) hsees hs hp hfuel
  obtain ⟨rfl,rfl⟩ : r = .ok ∧ u=t := by simpa using hrun'.symm.trans hrun
  obtain ⟨rc',ch',hd⟩ := hdone rfl
  constructor
  · intro name' bufSize hvar hbuf
    rw [readsAs_iff hsees' hd.sound]
    have hhere : filesOf s.geo W rc' ch' (nameTo83 name')=some (.file text) := by
      rw [hvar.nameTo83_eq]
      exact hd.here
    exact (readOf_file (hvar.ne_nil hne) hhere hbuf).symm
  · intro name' bufSize out hkey
    rw [readsAs_iff hsees' hd.sound,readsAs_iff hsees hs]
    simp only [readOf,hd.others (nameTo83 name') hkey]

theorem ConsistentVolume.sound (h : ConsistentVolume s) : SoundVolume s := by
  obtain ⟨rc,ch,hc⟩ := h.consistent
  exact ⟨h.mounted,h.ideal,hc.cluster,rc,ch,hc.sound⟩

/-- `A` written with two bytes is read as `a`. -/
theorem fat_write_read_round_trip_small :
    ReadsAs (fat32Write 9 [0x41] [0x68,0x69] emptyVolume).2 [0x61] 2 ⟨.ok,2,[0x68,0x69]⟩ := by
  have hwrite : Returns (fun n => fat32Write n [0x41] [0x68,0x69]) emptyVolume .ok
      (fat32Write 9 [0x41] [0x68,0x69] emptyVolume).2 := ⟨9,eq_of_fst (by decide +kernel)⟩
  have hname : Valid83 [0x41] := .inl ⟨by decide,by decide,by decide +kernel⟩
  exact (fat_write_read_round_trip emptyVolume_consistent.sound emptyVolume_area hname hwrite).1
    [0x61] 2 (by unfold CaseVariant; decide) (by decide)

/-- Where the clusters lie over the table, the entry of a file of two clusters overwrites the link
between them, and 512 of 513 bytes are read. -/
theorem fat_write_read_round_trip_fails :
    ¬ ∀ (s₀ s t : Fat) (name text : List UInt8), fat32Mount s₀=(some .ok,s) →
      ConsistentVolume s → Valid83 name → 0∉text → text.length≤4096 →
      Returns (fun n => fat32Write n name text) s .ok t →
      ∀ name' bufSize, CaseVariant name name' → max 1 text.length≤bufSize →
        ReadsAs t name' bufSize ⟨.ok,text.length,text⟩ := by
  intro h
  obtain ⟨t,hwrite,hlen⟩ : ∃ t, Returns (fun n => fat32Write n [0x41] (List.replicate 513 0x61)) overlaidVolume .ok t ∧
      (fat32ReadFile 9 [0x41] 513 t).1.map ReadOut.outLen=some 512 :=
    ⟨_,⟨9,eq_of_fst (by decide +kernel)⟩,by decide +kernel⟩
  have hread := h _ _ t [0x41] (List.replicate 513 0x61) overlaidVolume_mounted
    overlaidVolume_consistent (.inl ⟨by decide,by decide,by decide +kernel⟩) (by decide +kernel)
    (by decide +kernel) hwrite [0x41] 513 rfl (by decide +kernel)
  obtain ⟨out,hout,hout512⟩ := Option.map_eq_some_iff.mp hlen
  have hreal : ReadsAs t [0x41] 513 out := ⟨_,9,eq_of_fst hout⟩
  have he := hread.unique hreal
  have hlast : (List.replicate 513 (0x61 : UInt8)).length=512 := by
    rw [← he] at hout512
    exact hout512
  rw [List.length_replicate] at hlast
  omega

end MyKernel.Fat32
