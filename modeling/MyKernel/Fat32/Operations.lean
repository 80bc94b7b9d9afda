import Mathlib.Data.List.Sort
import MyKernel.Fat32.Slots

/-! The operations on the root directory, followed through their phases on the view. -/
namespace MyKernel.Fat32
open MyKernel.Computation Chains

def oldChain (ch : Nat → List Nat) (i : Nat) : Option Dirent → List Nat
  | none => []
  | some _ => ch i

variable {g : Geo} {V W : View} {s : Fat} {i j c fuel : Nat} {rc rc' cs X : List Nat}
variable {ch ch' : Nat → List Nat} {key name text : List UInt8} {slot : Slot}
variable {existing : Option Dirent}

theorem Target.old_cases (ht : Target g V rc ch key slot existing i) (hc : c∈oldChain ch i existing) :
    Live (dirSize g rc) (dirAt g V rc) i ∧ c∈ch i := by
  cases ht.old with
  | inl hold => simp [hold.1,oldChain] at hc
  | inr hold =>
    rw [hold.1,oldChain] at hc
    exact ⟨hold.2.1,hc⟩

theorem Target.mem_old (ht : Target g V rc ch key slot existing i)
    (hi : Live (dirSize g rc) (dirAt g V rc) i) : oldChain ch i existing=ch i := by
  cases ht.old with
  | inl hold => exact absurd hi hold.2
  | inr hold => rw [hold.1,oldChain]

theorem Target.old_inVolume (ht : Target g V rc ch key slot existing i) :
    ∀ c∈oldChain ch i existing, InVolume g c := by
  intro c hc
  obtain ⟨hi,hci⟩ := ht.old_cases hc
  exact ht.sound.inVolume hi c hci

theorem Target.old_nodup (ht : Target g V rc ch key slot existing i) : (oldChain ch i existing).Nodup := by
  cases ht.old with
  | inl hold => simp [hold.1,oldChain]
  | inr hold =>
    rw [hold.1,oldChain]
    exact (ht.sound.path hold.2.1).nodup

theorem Target.old_used (ht : Target g V rc ch key slot existing i) : ∀ c∈oldChain ch i existing, V.fat c≠0 := by
  intro c hc
  obtain ⟨hi,hci⟩ := ht.old_cases hc
  exact ChainFrom.fat_ne_zero (ht.sound.path hi) (ht.sound.inVolume hi) hci

theorem Target.fresh (ht : Target g V rc ch key slot existing i) (hc : V.fat c=0 ∨ c∈oldChain ch i existing) :
    c∉rc ∧ ∀ j, j≠i → Live (dirSize g rc) (dirAt g V rc) j → c∉ch j := by
  cases hc with
  | inl h0 =>
    constructor
    · exact fun hmem => ChainFrom.fat_ne_zero ht.sound.root_path ht.sound.root_in hmem h0
    · exact fun j _ hj hmem =>
        ChainFrom.fat_ne_zero (ht.sound.path hj) (ht.sound.inVolume hj) hmem h0
  | inr hold =>
    obtain ⟨hi,hci⟩ := ht.old_cases hold
    exact ⟨ht.sound.root_apart hi hci,fun j hji hj => ht.sound.apart hi hj hji.symm hci⟩

theorem freeOld_chain {de : Dirent} {xs : List Nat} (h : Sees s g V)
    (hpath : ChainFrom (nextOf V.fat) (startOf de.first) xs) (hin : ∀ c∈xs, InVolume g c)
    (hfuel : g.totalClusters<fuel) : ∃ t, freeOld fuel (some de) s=(some (),t) ∧ Sees t g (V.clear xs) := by
  have hlen := length_le_of_inVolume hpath.nodup hin
  by_cases h2 : 2≤de.first
  · obtain ⟨t,hfree,hsees⟩ := fatFreeChain_sees h (linked_of_start hpath) hin hpath.nodup
      (by omega : xs.length<fuel)
    refine ⟨t,?_,hsees⟩
    rw [freeOld,if_pos h2,bind_some hfree,pure_eq]
  · refine ⟨s,?_,?_⟩
    · rw [freeOld,if_neg h2,pure_eq]
    · -- an entry that points below cluster 2 has no chain
      cases xs with
      | nil => simpa [View.clear] using h
      | cons x xs =>
        have hx := (hin x (by simp)).1
        have hfirst := (linked_of_start hpath).1
        omega

theorem freeOld_sees (ht : Target g V rc ch key slot existing i) (h : Sees s g V) (hfuel : g.totalClusters<fuel) :
    ∃ t, freeOld fuel existing s=(some (),t) ∧ Sees t g (V.clear (oldChain ch i existing)) := by
  cases ht.old with
  | inl hold =>
    rw [hold.1]
    exact ⟨s,rfl,by simpa [View.clear,oldChain] using h⟩
  | inr hold =>
    obtain ⟨he,hi,_⟩ := hold
    rw [he,oldChain]
    exact freeOld_chain h (ht.sound.path hi) (ht.sound.inVolume hi) hfuel

def KeyOk (key : List UInt8) : Prop := key.length=11 ∧ key.headD 0≠0 ∧ key.headD 0≠0xE5

/-- The key of any name: its entry is not taken for an end mark. -/
def KeyShape (key : List UInt8) : Prop := key.length=11 ∧ key.headD 0≠0

theorem KeyOk.shape (h : KeyOk key) : KeyShape key := ⟨h.1,h.2.1⟩

def AttrOk (attr : UInt8) : Prop := attr≠ATTR_LFN ∧ attr &&& ATTR_VOLUME_ID=0

theorem attrOk_archive : AttrOk ATTR_ARCHIVE := ⟨by decide,by decide⟩
theorem attrOk_directory : AttrOk ATTR_DIRECTORY := ⟨by decide,by decide⟩

def entryFor (key : List UInt8) (attr : UInt8) (first size : Nat) : Dirent :=
  ⟨key,attr,first/65536,first%65536,size⟩

theorem first_entryFor {attr : UInt8} {first size : Nat} :
    (entryFor key attr first size).first=first := Nat.div_add_mod' first 65536

theorem isDir_archive {first size : Nat} : (entryFor key ATTR_ARCHIVE first size).isDir=false := by
  have hbits : ATTR_ARCHIVE &&& ATTR_DIRECTORY=0 := by decide
  simp [Dirent.isDir,entryFor,hbits]

theorem isDir_directory {first size : Nat} : (entryFor key ATTR_DIRECTORY first size).isDir=true := by
  simp [Dirent.isDir,entryFor,ATTR_DIRECTORY]

theorem listed_entryFor {attr : UInt8} (first size : Nat) (hkey : KeyOk key) (hattr : AttrOk attr) :
    (entryFor key attr first size).listed=true := by
  have hmark : (entryFor key attr first size).mark≠0xE5 := hkey.2.2
  simp only [Dirent.listed,Bool.and_eq_true,bne_iff_ne,ne_eq,beq_iff_eq]
  exact ⟨⟨hmark,hattr.1⟩,hattr.2⟩

theorem startOf_headD (hin : ∀ c∈cs, InVolume g c) : startOf (cs.headD 0)=cs.head? := by
  cases cs with
  | nil => rfl
  | cons x xs =>
    have hx := (hin x (by simp)).1
    rw [startOf,List.headD_cons,if_neg (by omega),List.head?_cons]

/-- `U` is `V` with the old chain of the slot gone and the clusters `cs` filled. -/
structure Filled (g : Geo) (V U : View) (rc : List Nat) (ch : Nat → List Nat) (i : Nat)
    (old cs : List Nat) : Prop where
  fat : ∀ c, c∉cs → c∉old → U.fat c=V.fat c
  data : ∀ c, c∉cs → U.data c=V.data c
  inVolume : ∀ c∈cs, InVolume g c
  fresh : ∀ c∈cs, c∉rc ∧ ∀ j, j≠i → Live (dirSize g rc) (dirAt g V rc) j → c∉ch j
  path : ChainFrom (nextOf U.fat) cs.head? cs

section Put
variable {U : View} {size : Nat} (ha : Area g)
  (ht : Target g V rc ch key slot existing i)
  (hf : Filled g V U rc ch i (oldChain ch i existing) cs) (hkey : KeyShape key)
  (hsize : size<4294967296)

include ha hf in
theorem Filled.first_lt : cs.headD 0<4294967296 := by
  cases cs with
  | nil => simp
  | cons x xs =>
    have hx := (hf.inVolume x (by simp)).2
    have hlt := ha.clusters_lt
    rw [List.headD_cons]
    omega

include hf in
theorem Filled.dirAt_eq (hpos : 0<entriesPerCluster g) (hj : j<dirSize g rc) : dirAt g U rc j=dirAt g V rc j := by
  have hmem := slotAt_mem hpos hj
  have hnot : (slotAt g rc j).cluster∉cs := fun hc => (hf.fresh _ hc).1 hmem
  rw [dirAt,hf.data _ hnot,dirAt]

include ht hf in
theorem Filled.others : OthersKept (dirSize g rc) (dirAt g V rc) rc ch i V.fat U.fat := by
  constructor
  · intro c hc
    exact hf.fat c (fun hcs => (hf.fresh c hcs).1 hc) (fun hold => (ht.fresh (.inr hold)).1 hc)
  · intro j hji hj c hc
    exact hf.fat c (fun hcs => (hf.fresh c hcs).2 j hji hj hc)
      (fun hold => (ht.fresh (.inr hold)).2 j hji hj hc)

include hf in
theorem Filled.bytes (hji : j≠i) (hj : Live (dirSize g rc) (dirAt g V rc) j) (hc : c∈ch j) : U.data c=V.data c :=
  hf.data c fun hcs => (hf.fresh c hcs).2 j hji hj hc

include ha hf hkey hsize in
theorem Filled.entry (attr : UInt8) :
    dirAt g (U.setSlot (slotAt g rc i) (direntBytes key attr (cs.headD 0) size)) rc i =
      entryFor key attr (cs.headD 0) size := by
  rw [dirAt_setSlot_self,direntAt_patch hkey.1 attr (hf.first_lt ha) hsize,entryFor]

include ha ht hf hkey hsize in
theorem Filled.putStep (attr : UInt8) :
    PutStep g V (U.setSlot slot (direntBytes key attr (cs.headD 0) size)) rc ch
      (Function.update ch i cs) key i := by
  have hpos := entriesPerCluster_pos ha
  have hentry := hf.entry ha hkey hsize attr
  have hroot := slotAt_mem hpos ht.bound
  have hothers := hf.others ht
  have hlen := length_direntBytes hkey.1 attr (cs.headD 0) size
  rw [ht.slot_eq]
  refine ⟨⟨ht.bound,ht.before,?_,?_⟩,hothers,?_,?_,?_⟩
  · intro k hk hki
    rw [dirAt_setSlot hpos ht.sound.root_path.nodup ht.bound hk (by omega) hki,hf.dirAt_eq hpos hk]
  · rw [hentry]
    exact hkey.2
  · intro j hji hj c hc
    have hne : c≠(slotAt g rc i).cluster := fun he => ht.sound.root_apart hj hc (he ▸ hroot)
    rw [View.setSlot,setData_data,if_neg hne]
    exact hf.bytes hji hj hc
  · intro j hji
    exact Function.update_of_ne hji cs ch
  · intro _
    rw [hentry,Function.update_self]
    refine ⟨rfl,?_,hf.inVolume,fun c hc => (hf.fresh c hc).1,?_,ht.only⟩
    · rw [first_entryFor,startOf_headD hf.inVolume]
      exact hf.path
    · exact fun j hji hj c hc => (hf.fresh c hc).2 j hji hj

end Put

/-- What an operation that succeeds leaves: `key` stands for `node`, the other names for what they stood for. -/
structure Done (g : Geo) (V : View) (rc : List Nat) (ch : Nat → List Nat) (W : View) (rc' : List Nat)
    (ch' : Nat → List Nat) (key : List UInt8) (node : Option Node) : Prop where
  sound : Sound g W rc' ch'
  owned : Owned g V rc ch → Owned g W rc' ch'
  sized : Sized g V rc ch → Sized g W rc' ch'
  here : filesOf g W rc' ch' key=node
  others : ∀ key', key'≠key → filesOf g W rc' ch' key'=filesOf g V rc ch key'

theorem Done.consistent {node : Option Node} (hd : Done g V rc ch W rc' ch' key node)
    (h : ConsistentWith g V rc ch) : ConsistentWith g W rc' ch' :=
  ⟨h.cluster,h.table,hd.sound,hd.owned h.owned,hd.sized h.sized⟩

def newChain (g : Geo) (V : View) (len : Nat) : List Nat :=
  (freeClusters g V).take (clustersFor g.clusterBytes len)

theorem mem_newChain {len : Nat} (hc : c∈newChain g V len) : InVolume g c ∧ V.fat c=0 :=
  mem_freeClusters.mp (List.mem_of_mem_take hc)

theorem Laid.filled {U : View} (ht : Target g V rc ch key slot existing i)
    (hl : Laid g.clusterBytes text (V.clear (oldChain ch i existing)) U cs)
    (hcs : ∀ c∈cs, InVolume g c ∧ (V.clear (oldChain ch i existing)).fat c=0) :
    Filled g V U rc ch i (oldChain ch i existing) cs where
  fat c hc hold := by
    rw [hl.fat_off c hc,clear_fat,if_neg hold]
  data c hc := hl.data_off c hc
  inVolume c hc := (hcs c hc).1
  fresh c hc := by
    have h0 := (hcs c hc).2
    rw [clear_fat] at h0
    by_cases hold : c∈oldChain ch i existing
    · exact ht.fresh (.inr hold)
    · rw [if_neg hold] at h0
      exact ht.fresh (.inl h0)
  path := hl.path

theorem written {U : View} (ha : Area g) (ht : Target g V rc ch key slot existing i)
    (hkey : KeyOk key) (hlen : text.length<4294967296)
    (hl : Laid g.clusterBytes text (V.clear (oldChain ch i existing)) U
      (newChain g (V.clear (oldChain ch i existing)) text.length))
    (hroom : clustersFor g.clusterBytes text.length ≤
      (freeClusters g (V.clear (oldChain ch i existing))).length) :
    Done g V rc ch
      (U.setSlot slot (direntBytes key ATTR_ARCHIVE
        ((newChain g (V.clear (oldChain ch i existing)) text.length).headD 0) text.length)) rc
      (Function.update ch i (newChain g (V.clear (oldChain ch i existing)) text.length)) key
      (some (.file text)) := by
  have hcs : ∀ c∈newChain g (V.clear (oldChain ch i existing)) text.length,
      InVolume g c ∧ (V.clear (oldChain ch i existing)).fat c=0 := fun c hc => mem_newChain hc
  have hcount : (newChain g (V.clear (oldChain ch i existing)) text.length).length =
      clustersFor g.clusterBytes text.length := by
    rw [newChain,List.length_take]
    omega
  generalize newChain g (V.clear (oldChain ch i existing)) text.length=cs at hl hcs hcount ⊢
  have hf := hl.filled ht hcs
  have hp := hf.putStep ha ht hkey.shape hlen ATTR_ARCHIVE
  have hentry := hf.entry ha hkey.shape hlen ATTR_ARCHIVE
  rw [← ht.slot_eq] at hentry
  have hlisted := listed_entryFor (cs.headD 0) text.length hkey attrOk_archive
  refine ⟨hp.sound ht,?_,?_,?_,fun key' hne => hp.files_of_ne ht hne⟩
  · intro howned
    refine hp.owned ht (ownedBut_nil.mpr howned) ?_
    intro c _ huse
    by_cases hc : c∈cs
    · left
      rw [hentry,Function.update_self]
      exact ⟨hlisted,hc⟩
    · right
      have hused : (V.clear (oldChain ch i existing)).fat c≠0 := by
        rw [← hl.fat_off c hc]
        exact huse
      rw [clear_fat] at hused
      by_cases hold : c∈oldChain ch i existing
      · simp [hold] at hused
      · rw [if_neg hold] at hused
        exact ⟨⟨hused,List.not_mem_nil⟩,fun hi => ht.mem_old hi ▸ hold⟩
  · intro hsized
    apply hp.sized ht hsized
    intro _ _
    rw [hentry,Function.update_self,hcount]
    rfl
  · have hl' : (dirAt g (U.setSlot slot (direntBytes key ATTR_ARCHIVE (cs.headD 0) text.length)) rc
        i).listed=true := hentry ▸ hlisted
    have hbytes : chainBytes g (U.setSlot slot (direntBytes key ATTR_ARCHIVE (cs.headD 0)
        text.length)) cs=chainBytes g U cs := by
      apply chainBytes_congr
      intro c hc k _
      have hmem := slotAt_mem (entriesPerCluster_pos ha) ht.bound
      have hne : c≠slot.cluster := by
        rw [ht.slot_eq]
        exact fun he => (hf.fresh c hc).1 (he ▸ hmem)
      rw [View.setSlot,setData_data,if_neg hne]
    have hfit : text.length≤cs.length*g.clusterBytes := by
      have hiff : cs.length<clustersFor g.clusterBytes text.length ↔
          cs.length*g.clusterBytes<text.length := lt_clustersFor (clusterBytes_pos ha)
      omega
    rw [hp.files_self ht hl',hentry,Function.update_self,nodeOf_file isDir_archive,hbytes]
    have htake := hl.take_chainBytes hfit (Nat.le_refl _)
    rw [List.take_length] at htake
    rw [← htake]
    simp [entryFor]

/-- How a write to a sound volume ends, unless it is refused. -/
inductive WriteOutcome (g : Geo) (V : View) (rc : List Nat) (ch : Nat → List Nat)
    (key text : List UInt8) : FatResult → View → Prop where
  | isDir (i : Nat) (hi : Live (dirSize g rc) (dirAt g V rc) i) (hname : (dirAt g V rc i).name=key)
      (hdir : (dirAt g V rc i).isDir=true) : WriteOutcome g V rc ch key text .isDir V
  | noSlot (hfree : freeClusters g V=[]) (hfull : Full (dirSize g rc) (dirAt g V rc))
      (habs : Absent (dirSize g rc) (dirAt g V rc) key) : WriteOutcome g V rc ch key text .noSpace V
  | noSpace (W U : View) (rc' : List Nat) (slot : Slot) (existing : Option Dirent) (i : Nat)
      (ho : SlotOutcome g V rc key (.found slot existing) W rc')
      (ht : Target g W rc' ch key slot existing i)
      (hdir : isDirEntry existing=false)
      (hl : Laid g.clusterBytes text (W.clear (oldChain ch i existing)) U
        (freeClusters g (W.clear (oldChain ch i existing))))
      (hroom : (freeClusters g (W.clear (oldChain ch i existing))).length <
        clustersFor g.clusterBytes text.length) :
      WriteOutcome g V rc ch key text .noSpace U
  | ok (W U : View) (rc' : List Nat) (slot : Slot) (existing : Option Dirent) (i : Nat)
      (ho : SlotOutcome g V rc key (.found slot existing) W rc')
      (ht : Target g W rc' ch key slot existing i)
      (hdir : isDirEntry existing=false)
      (hl : Laid g.clusterBytes text (W.clear (oldChain ch i existing)) U
        (newChain g (W.clear (oldChain ch i existing)) text.length))
      (hroom : clustersFor g.clusterBytes text.length ≤
        (freeClusters g (W.clear (oldChain ch i existing))).length) :
      WriteOutcome g V rc ch key text .ok
        (U.setSlot slot (direntBytes key ATTR_ARCHIVE
          ((newChain g (W.clear (oldChain ch i existing)) text.length).headD 0) text.length))

theorem length_freeClusters_le : (freeClusters g V).length≤g.totalClusters :=
  length_le_of_inVolume nodup_freeClusters fun _ hc => (mem_freeClusters.mp hc).1

theorem Sound.findSlot (hs : Sound g V rc ch) (h : Sees s g V) (hfuel : g.totalClusters<fuel) (want : List UInt8) :
    ∃ r t W rc', findSlotInRoot fuel want s=(some r,t) ∧ Sees t g W ∧
      SlotOutcome g V rc want r W rc' := by
  have hlen := length_le_of_inVolume hs.root_path.nodup hs.root_in
  exact findSlotInRoot_sees h hs.root_path hs.root_in hs.tail (by omega)

theorem writeAt_outcome (ho : SlotOutcome g V rc key (.found slot existing) W rc')
    (ht : Target g W rc' ch key slot existing i) (h : Sees s g W) (hfuel : g.totalClusters<fuel)
    (hdir : isDirEntry existing=false) :
    ∃ r t U, writeAt fuel key text slot existing s=(some r,t) ∧ Sees t g U ∧
      WriteOutcome g V rc ch key text r U := by
  obtain ⟨t,hold,hsees⟩ := freeOld_sees ht h hfuel
  have hlen : (freeClusters g (W.clear (oldChain ch i existing))).length<fuel :=
    Nat.lt_of_le_of_lt length_freeClusters_le hfuel
  rw [writeAt,bind_some hold]
  cases Nat.lt_or_ge (freeClusters g (W.clear (oldChain ch i existing))).length
      (clustersFor g.clusterBytes text.length) with
  | inl hroom =>
    obtain ⟨u,U,hdata,hsees',hl⟩ := writeData_noSpace hsees hlen hroom
    refine ⟨.noSpace,u,U,?_,hsees',.noSpace W U rc' slot existing i ho ht hdir hl hroom⟩
    rw [bind_some hdata]
    rfl
  | inr hroom =>
    obtain ⟨u,U,hdata,hsees',hl⟩ := writeData_sees hsees hlen hroom
    have hc : InVolume g slot.cluster := by
      rw [ht.slot_eq]
      exact ht.sound.root_in _ (slotAt_mem (entriesPerCluster_pos h.area) ht.bound)
    obtain ⟨w,hput,hsees''⟩ := putEntry_sees (direntBytes key ATTR_ARCHIVE
      ((newChain g (W.clear (oldChain ch i existing)) text.length).headD 0) text.length) hsees' hc
    refine ⟨.ok,w,_,?_,hsees'',.ok W U rc' slot existing i ho ht hdir hl hroom⟩
    rw [bind_some hdata]
    exact hput

theorem fat32Write_outcome (h : Sees s g V) (hs : Sound g V rc ch) (hfuel : g.totalClusters<fuel)
    (hne : name≠[]) (hlen : text.length≤WRITE_MAX_BYTES) :
    ∃ r t U, fat32Write fuel name text s=(some r,t) ∧ Sees t g U ∧
      WriteOutcome g V rc ch (nameTo83 name) text r U := by
  obtain ⟨r,t,W,rc',hfind,hsees,hout⟩ := hs.findSlot h hfuel (nameTo83 name)
  rw [fat32Write,state_bind,h.mounted]
  simp only [Bool.not_true,Bool.false_eq_true,if_false,hne,Nat.not_lt.mpr hlen]
  rw [bind_some hfind]
  cases r with
  | io => cases hout
  | noSpace =>
    cases hout with
    | noSpace hfree hfull habs => exact ⟨_,t,V,rfl,hsees,.noSlot hfree hfull habs⟩
  | found slot existing =>
    obtain ⟨_,i,ht⟩ := hout.target h.area hs
    cases hdir : isDirEntry existing with
    | true =>
      cases hout with
      | existing i hi hname => exact ⟨.isDir,t,V,by simp [hdir],hsees,.isDir i hi hname hdir⟩
      | vacant i hi habs => simp [isDirEntry] at hdir
      | grown last nc rest hlast hfree hfull habs => simp [isDirEntry] at hdir
    | false =>
      simp only [hdir,Bool.false_eq_true,if_false]
      exact writeAt_outcome hout ht hsees hfuel hdir

theorem WriteOutcome.others (ha : Area g) (hs : Sound g V rc ch) (hkey : KeyShape key)
    (hlen : text.length≤WRITE_MAX_BYTES) {U : View} (ho : WriteOutcome g V rc ch key text .ok U) :
    ∃ rc' ch', Sound g U rc' ch' ∧ ∀ key', key'≠key → filesOf g U rc' ch' key'=filesOf g V rc ch key' := by
  cases ho with
  | ok W U rc' slot existing i ho ht hdir hl hroom =>
    have hlt : text.length<4294967296 := by
      unfold WRITE_MAX_BYTES at hlen
      omega
    have hp := (hl.filled ht fun c hc => mem_newChain hc).putStep ha ht hkey hlt ATTR_ARCHIVE
    refine ⟨rc',_,hp.sound ht,?_⟩
    intro key' hne
    rw [hp.files_of_ne ht hne,(ho.target ha hs).1.files ha hs]

theorem WriteOutcome.done (ha : Area g) (hs : Sound g V rc ch) (hkey : KeyOk key)
    (hlen : text.length≤WRITE_MAX_BYTES) {U : View} (ho : WriteOutcome g V rc ch key text .ok U) :
    ∃ rc' ch', Done g V rc ch U rc' ch' key (some (.file text)) := by
  cases ho with
  | ok W U rc' slot existing i ho ht hdir hl hroom =>
    have hw := (ho.target ha hs).1
    have hlt : text.length<4294967296 := by
      unfold WRITE_MAX_BYTES at hlen
      omega
    have hd := written ha ht hkey hlt hl hroom
    refine ⟨rc',_,hd.sound,?_,?_,hd.here,?_⟩
    · exact fun ho => hd.owned (ownedBut_nil.mp (hw.ownedBut ha hs (ownedBut_nil.mpr ho)))
    · exact fun hz => hd.sized (hw.sized ha hs hz)
    · intro key' hne
      rw [hd.others key' hne,hw.files ha hs]

end MyKernel.Fat32
