import MyKernel.Fat32.Consistent

/-! What a volume is for: a map from 11-byte names to directories and files. -/
namespace MyKernel.Fat32
open MyKernel.Computation Chains

inductive Node where
  | dir
  | file (bytes : List UInt8)
  deriving DecidableEq, Repr

def entryOf (N : Nat) (D : Nat → Dirent) (key : List UInt8) : Option Nat :=
  (List.range N).find? fun i => decide (Live N D i ∧ (D i).name=key)

def nodeOf (g : Geo) (V : View) (de : Dirent) (xs : List Nat) : Node :=
  if de.isDir then .dir else .file ((chainBytes g V xs).take de.fileSize)

def filesOf (g : Geo) (V : View) (rc : List Nat) (ch : Nat → List Nat) (key : List UInt8) :
    Option Node :=
  (entryOf (dirSize g rc) (dirAt g V rc) key).map fun i => nodeOf g V (dirAt g V rc i) (ch i)

def readNode (bufSize : Nat) : Option Node → ReadOut
  | none => ⟨.notFound,0,[]⟩
  | some .dir => ⟨.isDir,0,[]⟩
  | some (.file bytes) => ⟨.ok,(bytes.take bufSize).length,bytes.take bufSize⟩

variable {g : Geo} {V W : View} {s : Fat} {fat fat' : Nat → Nat} {N M i j c fuel : Nat}
variable {D D' : Nat → Dirent} {rc rc' xs : List Nat} {ch ch' : Nat → List Nat}
variable {key name : List UInt8}

theorem entryOf_some (h : entryOf N D key=some i) : Live N D i ∧ (D i).name=key := by
  have hp := List.find?_some h
  simpa using hp

theorem entryOf_eq_none : entryOf N D key=none ↔ Absent N D key := by
  simp only [entryOf,List.find?_eq_none,List.mem_range,decide_eq_true_eq,not_and]
  exact ⟨fun h i hi => h i hi.1 hi,fun h i _ hi => h i hi⟩

theorem entryOf_eq_some (hd : DistinctNames N D) (hi : Live N D i) (hname : (D i).name=key) :
    entryOf N D key=some i := by
  cases he : entryOf N D key with
  | none => exact absurd hname (entryOf_eq_none.mp he i hi)
  | some j =>
    obtain ⟨hj,hjname⟩ := entryOf_some he
    rw [hd i j hi hj (hname.trans hjname.symm)]

theorem entryOf_congr (hd : DistinctNames M D')
    (h : ∀ i, Live N D i ∧ (D i).name=key ↔ Live M D' i ∧ (D' i).name=key) : entryOf M D' key=entryOf N D key := by
  cases he : entryOf N D key with
  | none =>
    rw [entryOf_eq_none] at he ⊢
    intro i hi hname
    obtain ⟨hl,hn⟩ := (h i).mpr ⟨hi,hname⟩
    exact he i hl hn
  | some i =>
    obtain ⟨hi,hname⟩ := (h i).mp (entryOf_some he)
    exact entryOf_eq_some hd hi hname

theorem filesOf_eq (h : Sound g V rc ch) (hi : Live (dirSize g rc) (dirAt g V rc) i)
    (hname : (dirAt g V rc i).name=key) : filesOf g V rc ch key=some (nodeOf g V (dirAt g V rc i) (ch i)) := by
  rw [filesOf,entryOf_eq_some h.names hi hname]
  rfl

theorem filesOf_eq_none (h : Absent (dirSize g rc) (dirAt g V rc) key) : filesOf g V rc ch key=none := by
  rw [filesOf,entryOf_eq_none.mpr h]
  rfl

theorem nodeOf_dir {de : Dirent} (h : de.isDir=true) : nodeOf g V de xs = .dir := if_pos h

theorem nodeOf_file {de : Dirent} (h : de.isDir=false) :
    nodeOf g V de xs = .file ((chainBytes g V xs).take de.fileSize) := by
  simp [nodeOf,h]

theorem nodeOf_congr {de de' : Dirent} {ys : List Nat} (hde : de'=de)
    (hbytes : chainBytes g W ys=chainBytes g V xs) : nodeOf g W de' ys=nodeOf g V de xs := by
  rw [nodeOf,nodeOf,hde,hbytes]

theorem filesOf_congr (h' : Sound g W rc' ch')
    (hlive : ∀ i, Live (dirSize g rc) (dirAt g V rc) i ∧ (dirAt g V rc i).name=key ↔
      Live (dirSize g rc') (dirAt g W rc') i ∧ (dirAt g W rc' i).name=key)
    (hnode : ∀ i, Live (dirSize g rc) (dirAt g V rc) i → (dirAt g V rc i).name=key →
      nodeOf g W (dirAt g W rc' i) (ch' i)=nodeOf g V (dirAt g V rc i) (ch i)) :
    filesOf g W rc' ch' key=filesOf g V rc ch key := by
  rw [filesOf,filesOf,entryOf_congr h'.names hlive]
  cases he : entryOf (dirSize g rc) (dirAt g V rc) key with
  | none => rfl
  | some i =>
    obtain ⟨hi,hname⟩ := entryOf_some he
    simp only [Option.map_some,hnode i hi hname]

section Read
variable {bufSize : Nat} (h : Sees s g V) (hroot : Linked V.fat g.rootCluster rc)
  (hin : ∀ c∈rc, InVolume g c) (hfuel : rc.length<fuel) (hne : name≠[]) (hbuf : 0<bufSize)
include h hroot hin hfuel hne hbuf

theorem fat32ReadFile_absent (habs : Absent (dirSize g rc) (dirAt g V rc) (nameTo83 name)) :
    ∃ t, fat32ReadFile fuel name bufSize s=(some ⟨.notFound,0,[]⟩,t) := by
  obtain ⟨t,hiter,hsees⟩ := iterateDir_sees (findCb name) h hroot hin hfuel
  have hdone : (scanEntries (dirAt g V rc) (findCb name) (dirSize g rc) 0).toIter = .done := by
    cases hscan : scanEntries (dirAt g V rc) (findCb name) (dirSize g rc) 0 with
    | hit de => exact absurd hscan (scan_absent habs de)
    | stop => rfl
    | more => rfl
  rw [hdone,← h.geo] at hiter
  refine ⟨t,?_⟩
  rw [fat32ReadFile,state_bind,h.mounted]
  simp only [Bool.not_true,Bool.false_eq_true,if_false,hne,Nat.ne_of_gt hbuf,false_or]
  rw [bind_some hiter]
  rfl

theorem fat32ReadFile_hit {de : Dirent} (hscan : scanEntries (dirAt g V rc) (findCb name) (dirSize g rc) 0 = .hit de)
    (hl : Linked V.fat de.first xs) (hxs : ∀ c∈xs, InVolume g c) (hlen : xs.length<fuel) :
    ∃ t, fat32ReadFile fuel name bufSize s=(some (readNode bufSize (some (nodeOf g V de xs))),t) := by
  obtain ⟨t,hiter,hsees⟩ := iterateDir_sees (findCb name) h hroot hin hfuel
  rw [hscan,Scan.toIter,← h.geo] at hiter
  rw [fat32ReadFile,state_bind,h.mounted]
  simp only [Bool.not_true,Bool.false_eq_true,if_false,hne,Nat.ne_of_gt hbuf,false_or]
  rw [bind_some hiter]
  cases hdir : de.isDir with
  | true =>
    refine ⟨t,?_⟩
    rw [nodeOf_dir hdir]
    simp [hdir,readNode]
  | false =>
    obtain ⟨u,bytes,hread,hbytes,_⟩ := readLoop_sees bufSize de.fileSize [] hsees hl hxs hlen
    have htake : bytes=((chainBytes g V xs).take de.fileSize).take bufSize := by
      rw [hbytes,List.nil_append,List.length_nil,Nat.sub_zero,List.take_take,Nat.min_comm]
    refine ⟨u,?_⟩
    rw [nodeOf_file hdir,readNode,← htake,← hread]
    simp [hdir]

end Read

theorem SoundDir.root_linked (h : SoundDir g fat N D rc ch) : Linked fat g.rootCluster rc := by
  have hp := h.root_path
  cases rc with
  | nil => simp [ChainFrom] at hp
  | cons c rest =>
    have hc : g.rootCluster=c := by simpa using hp.1
    exact ⟨hc,linked_of_next hp.2⟩

theorem fat32ReadFile_sees {bufSize : Nat} (h : Sees s g V) (hs : Sound g V rc ch)
    (hfuel : g.totalClusters<fuel) (hne : name≠[]) (hbuf : 0<bufSize) :
    ∃ t, fat32ReadFile fuel name bufSize s =
      (some (readNode bufSize (filesOf g V rc ch (nameTo83 name))),t) := by
  have hroot := hs.root_linked
  have hrc := length_le_of_inVolume hs.root_path.nodup hs.root_in
  cases he : entryOf (dirSize g rc) (dirAt g V rc) (nameTo83 name) with
  | none =>
    have habs := entryOf_eq_none.mp he
    rw [filesOf_eq_none habs]
    exact fat32ReadFile_absent h hroot hs.root_in (by omega) hne hbuf habs
  | some i =>
    obtain ⟨hi,hname⟩ := entryOf_some he
    have hlen := length_le_of_inVolume (hs.path hi).nodup (hs.inVolume hi)
    rw [filesOf_eq hs hi hname]
    exact fat32ReadFile_hit h hroot hs.root_in (by omega) hne hbuf (scan_find hs.names hi hname)
      (linked_of_start (hs.path hi)) (hs.inVolume hi) (by omega)

end MyKernel.Fat32
