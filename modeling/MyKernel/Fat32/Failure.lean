import Mathlib.Data.List.Infix
import MyKernel.Fat32.RoundTrip

/-! What a write that fails leaves behind. -/
namespace MyKernel.Fat32
open MyKernel.Computation Chains Disk

instance (de : Dirent) : Decidable (Taken de) := inferInstanceAs (Decidable (_ ∧ _))
instance (N : Nat) (D : Nat → Dirent) : Decidable (Full N D) :=
  inferInstanceAs (Decidable (∀ i, i<N → Taken (D i)))

/-- After a write that fails every name is read as before and the same clusters are free. -/
def LosesNothing (s : Fat) (name text : List UInt8) : Prop :=
  ∀ r t, Returns (fun n => fat32Write n name text) s r t → r ≠ .ok →
    (∀ name' bufSize out, ReadsAs t name' bufSize out ↔ ReadsAs s name' bufSize out) ∧
    ∀ c, InVolume s.geo c → ((viewOf t).fat c=0 ↔ (viewOf s).fat c=0)

/-- The free clusters and those of the old file suffice for the text, and for the directory if it has to grow. -/
def RoomFor (g : Geo) (V : View) (rc : List Nat) (ch : Nat → List Nat) (key : List UInt8)
    (len : Nat) : Prop :=
  match entryOf (dirSize g rc) (dirAt g V rc) key with
  | none => clustersFor g.clusterBytes len+(if Full (dirSize g rc) (dirAt g V rc) then 1 else 0) ≤
      (freeClusters g V).length
  | some i => clustersFor g.clusterBytes len≤(ch i).length+(freeClusters g V).length

/-- No cluster is free, and the name is new, or the old file begins at the first cluster of its chain and with the
text. -/
def NothingToLose (g : Geo) (V : View) (rc : List Nat) (ch : Nat → List Nat)
    (key text : List UInt8) : Prop :=
  freeClusters g V=[] ∧
  match entryOf (dirSize g rc) (dirAt g V rc) key with
  | none => True
  | some i => (∀ c∈ch i, (dirAt g V rc i).first≤c) ∧
      (chainBytes g V (ch i)).take (dirAt g V rc i).fileSize <+: text

def NamesDir (g : Geo) (V : View) (rc : List Nat) (key : List UInt8) : Prop :=
  ∃ i, entryOf (dirSize g rc) (dirAt g V rc) key=some i ∧ (dirAt g V rc i).isDir=true

def WriteSafe (g : Geo) (V : View) (rc : List Nat) (ch : Nat → List Nat) (name text : List UInt8) :
    Prop :=
  name=[] ∨ WRITE_MAX_BYTES<text.length ∨ NamesDir g V rc (nameTo83 name) ∨
  RoomFor g V rc ch (nameTo83 name) text.length ∨ NothingToLose g V rc ch (nameTo83 name) text

variable {g : Geo} {V W U : View} {s t : Fat} {i c fuel : Nat} {rc rc' xs cs : List Nat}
variable {ch : Nat → List Nat} {key name text : List UInt8} {slot : Slot} {existing : Option Dirent}

theorem Laid.none_free (hl : Laid g.clusterBytes text V U (freeClusters g V)) (hc : InVolume g c) : U.fat c≠0 := by
  have hin : ∀ c∈freeClusters g V, InVolume g c := fun c hc => (mem_freeClusters.mp hc).1
  by_cases hmem : c∈freeClusters g V
  · exact ChainFrom.fat_ne_zero hl.path hin hmem
  · rw [hl.fat_off c hmem]
    exact fun h0 => hmem (mem_freeClusters.mpr ⟨hc,h0⟩)

theorem length_free_clear (ht : Target g V rc ch key slot existing i) :
    (freeClusters g (V.clear (oldChain ch i existing))).length =
      (oldChain ch i existing).length+(freeClusters g V).length := by
  have hperm := freeClusters_clear_perm ht.old_inVolume ht.old_nodup ht.old_used
  rw [hperm.length_eq,List.length_append]

theorem head?_of_least {a : Nat} (h : cs.Pairwise (·<·)) (ha : a∈cs) (hle : ∀ c∈cs, a≤c) : cs.head?=some a := by
  cases cs with
  | nil => simp at ha
  | cons y ys =>
    have hy := hle y (by simp)
    cases List.mem_cons.mp ha with
    | inl he => rw [he,List.head?_cons]
    | inr hmem =>
      have hlt := List.rel_of_pairwise_cons h hmem
      omega

theorem startOf_eq_some {a x : Nat} (h : startOf a=some x) : a=x := by
  by_cases h0 : a=0
  · simp [startOf,h0] at h
  · simpa [startOf,h0] using h

theorem length_contents {n : Nat} (h : n≤xs.length*g.clusterBytes) : ((chainBytes g V xs).take n).length=n := by
  rw [List.length_take,length_chainBytes,Nat.min_eq_left h]

/-- Whether the data will fit shows before the write. -/
theorem SlotOutcome.room (hs : Sound g V rc ch) (len : Nat) (ho : SlotOutcome g V rc key (.found slot existing) W rc')
    (ht : Target g W rc' ch key slot existing i) :
    RoomFor g V rc ch key len ↔ clustersFor g.clusterBytes len ≤
      (freeClusters g (W.clear (oldChain ch i existing))).length := by
  rw [length_free_clear ht]
  cases ho with
  | existing j hj hname =>
    have he := entryOf_eq_some hs.names hj hname
    have hij : j=i := by
      by_contra hne
      exact ht.only j hne hj hname
    simp only [RoomFor,he,oldChain,hij]
  | vacant j hj habs =>
    have he := entryOf_eq_none.mpr habs
    have hnot : ¬ Full (dirSize g rc) (dirAt g V rc) := by
      intro hfull
      have htaken := hfull j hj.1
      cases hj.2.1 with
      | inl h0 => exact htaken.1 h0
      | inr h5 => exact htaken.2 h5
    simp [RoomFor,he,hnot,oldChain]
  | grown last nc rest hlast hfree hfull habs =>
    have he := entryOf_eq_none.mpr habs
    rw [freeClusters_extend hs hlast hfree]
    simp [RoomFor,he,hfull,hfree,oldChain]

section Overwritten
variable {de : Dirent} (ha : Area g) (ht : Target g V rc ch key slot (some de) i)
  (hl : Laid g.clusterBytes text (V.clear (oldChain ch i (some de))) U
    (freeClusters g (V.clear (oldChain ch i (some de)))))
include ht

theorem Target.live : Live (dirSize g rc) (dirAt g V rc) i := by
  cases ht.old with
  | inl hold => simp at hold
  | inr hold => exact hold.2.1

theorem Target.name_eq : (dirAt g V rc i).name=key := by
  cases ht.old with
  | inl hold => simp at hold
  | inr hold => exact hold.2.2

include ha hl

theorem overwritten_dirAt {j : Nat} (hj : j<dirSize g rc) : dirAt g U rc j=dirAt g V rc j :=
  (hl.filled ht fun _ hc => mem_freeClusters.mp hc).dirAt_eq (entriesPerCluster_pos ha) hj

theorem overwritten_putStep (hpath : ChainFrom (nextOf U.fat) (startOf (dirAt g V rc i).first) xs)
    (hxs : ∀ c∈xs, c∈freeClusters g (V.clear (oldChain ch i (some de)))) :
    PutStep g V U rc ch (Function.update ch i xs) key i := by
  have hf := hl.filled ht fun _ hc => mem_freeClusters.mp hc
  have hdir := fun {j : Nat} (hj : j<dirSize g rc) => overwritten_dirAt ha ht hl hj
  refine ⟨⟨ht.bound,ht.before,fun k hk _ => hdir hk,?_⟩,hf.others ht,
    fun j hji hj c hc => hf.bytes hji hj hc,fun j hji => Function.update_of_ne hji xs ch,?_⟩
  · rw [hdir ht.bound]
    exact ht.live.2.1 i (by omega)
  · intro _
    rw [hdir ht.bound,Function.update_self]
    refine ⟨ht.name_eq,hpath,fun c hc => hf.inVolume c (hxs c hc),
      fun c hc => (hf.fresh c (hxs c hc)).1,?_,fun j hji hj => ?_⟩
    · exact fun j hji hj c hc => (hf.fresh c (hxs c hc)).2 j hji hj
    · rw [ht.name_eq]
      exact ht.only j hji hj

omit ha hl in
theorem Target.old_perm (hfree : freeClusters g V=[]) :
    (freeClusters g (V.clear (oldChain ch i (some de)))).Perm (ch i) := by
  have hperm := freeClusters_clear_perm ht.old_inVolume ht.old_nodup ht.old_used
  rwa [hfree,List.append_nil] at hperm

omit ha hl in
theorem Target.start_of_least (hfree : freeClusters g V=[]) (hmin : ∀ c∈ch i, (dirAt g V rc i).first≤c) :
    startOf (dirAt g V rc i).first =
      (freeClusters g (V.clear (oldChain ch i (some de)))).head? := by
  have hperm := ht.old_perm hfree
  have hstart := (ht.sound.path ht.live).start_eq
  cases hch : ch i with
  | nil =>
    rw [hch] at hperm hstart
    rw [hstart,hperm.eq_nil]
  | cons x rest =>
    rw [hch] at hperm hstart hmin
    have hx := startOf_eq_some hstart
    rw [hstart,List.head?_cons]
    symm
    apply head?_of_least pairwise_freeClusters (hperm.mem_iff.mpr (by simp))
    intro c hc
    rw [← hx]
    exact hmin c (hperm.mem_iff.mp hc)

theorem overwritten_self (hdir : (dirAt g V rc i).isDir=false)
    (hp : PutStep g V U rc ch (Function.update ch i xs) key i) :
    filesOf g U rc (Function.update ch i xs) key =
      some (.file ((chainBytes g U xs).take (dirAt g V rc i).fileSize)) := by
  have hentry := overwritten_dirAt ha ht hl ht.bound
  have hlisted : (dirAt g U rc i).listed=true := by
    rw [hentry]
    exact ht.live.2.2
  rw [hp.files_self ht hlisted,hentry,nodeOf_file hdir,Function.update_self]

/-- The old file is still there when its chain was taken again in the same order and for the same
bytes. -/
theorem overwritten_files (hfree : freeClusters g V=[])
    (hfits : (dirAt g V rc i).fileSize≤(ch i).length*g.clusterBytes)
    (hdir : (dirAt g V rc i).isDir=false) (hmin : ∀ c∈ch i, (dirAt g V rc i).first≤c)
    (hpre : (chainBytes g V (ch i)).take (dirAt g V rc i).fileSize <+: text) :
    ∃ ch', Sound g U rc ch' ∧ ∀ key', filesOf g U rc ch' key'=filesOf g V rc ch key' := by
  have hpath := hl.path
  rw [← ht.start_of_least hfree hmin] at hpath
  have hp := overwritten_putStep ha ht hl hpath fun _ hc => hc
  refine ⟨_,hp.sound ht,?_⟩
  intro key'
  by_cases hkey : key'=key
  · have hlen := hpre.length_le
    rw [length_contents hfits] at hlen
    have hcs := (ht.old_perm hfree).length_eq
    have hnew := hl.take_chainBytes (hcs ▸ hfits) hlen
    have hold := List.prefix_iff_eq_take.mp hpre
    rw [length_contents hfits] at hold
    rw [hkey,overwritten_self ha ht hl hdir hp,filesOf_eq ht.sound ht.live ht.name_eq,
      nodeOf_file hdir,hnew,hold]
  · exact hp.files_of_ne ht hkey

/-- And only then. -/
theorem overwritten_least (hfree : freeClusters g V=[])
    (hsize : (ch i).length=clustersFor g.clusterBytes (dirAt g V rc i).fileSize) (hdir : (dirAt g V rc i).isDir=false)
    (hroom : (freeClusters g (V.clear (oldChain ch i (some de)))).length <
      clustersFor g.clusterBytes text.length)
    (hkept : ∀ ch', Sound g U rc ch' → filesOf g U rc ch' key=filesOf g V rc ch key) :
    (∀ c∈ch i, (dirAt g V rc i).first≤c) ∧
      (chainBytes g V (ch i)).take (dirAt g V rc i).fileSize <+: text := by
  have hcb := clusterBytes_pos ha
  have hperm := ht.old_perm hfree
  have hstart := (ht.sound.path ht.live).start_eq
  have hfits := (clustersFor_le hcb).mp (Nat.le_of_eq hsize.symm)
  have htext := (lt_clustersFor hcb).mp hroom
  have hcount := hperm.length_eq
  cases hch : ch i with
  | nil => exact ⟨by simp,by simp [chainBytes]⟩
  | cons x rest =>
    have hx : (dirAt g V rc i).first=x := startOf_eq_some (by rw [hstart,hch,List.head?_cons])
    have hmem : x∈freeClusters g (V.clear (oldChain ch i (some de))) :=
      hperm.mem_iff.mpr (by simp [hch])
    obtain ⟨pre,post,hcs,hpath⟩ := hl.path.tail_of_mem hmem
    -- the entry still names `x`, so the file is now what is left of the new chain from `x` on
    rw [← List.head?_cons,← hch,← hstart] at hpath
    have hp := overwritten_putStep ha ht hl hpath fun c hc => hcs ▸ List.mem_append_right pre hc
    have hsame := hkept _ (hp.sound ht)
    rw [overwritten_self ha ht hl hdir hp,filesOf_eq ht.sound ht.live ht.name_eq,nodeOf_file hdir,
      Option.some_inj,Node.file.injEq] at hsame
    -- as long as the old file, so nothing of the new chain stands before `x`
    have hlen := congrArg List.length hsame
    rw [length_contents hfits,List.length_take,length_chainBytes] at hlen
    have hpost := (clustersFor_le hcb).mpr (hlen ▸ Nat.min_le_right _ _ :
      (dirAt g V rc i).fileSize≤(x::post).length*g.clusterBytes)
    have hpre : pre=[] := by
      rw [hcs,List.length_append] at hcount
      exact List.length_eq_zero_iff.mp (by omega)
    rw [hpre,List.nil_append] at hcs
    constructor
    · intro c hc
      rw [← hch,← hperm.mem_iff,hcs] at hc
      have hsorted := pairwise_freeClusters (g := g) (V := V.clear (oldChain ch i (some de)))
      rw [hcs] at hsorted
      rw [hx]
      cases List.mem_cons.mp hc with
      | inl he => exact Nat.le_of_eq he.symm
      | inr hc => exact Nat.le_of_lt (List.rel_of_pairwise_cons hsorted hc)
    · rw [← hch,← hsame,← hcs,hl.take_chainBytes (hcount ▸ hfits) (by rw [hcount] at htext; omega)]
      exact List.take_prefix _ _

end Overwritten

structure Kept (g : Geo) (V : View) (rc : List Nat) (ch : Nat → List Nat) (U : View) : Prop where
  files : ∃ rc' ch', Sound g U rc' ch' ∧ ∀ key, filesOf g U rc' ch' key=filesOf g V rc ch key
  free : ∀ c, InVolume g c → (U.fat c=0 ↔ V.fat c=0)

theorem Kept.refl (hs : Sound g V rc ch) : Kept g V rc ch V :=
  ⟨⟨rc,ch,hs,fun _ => rfl⟩,fun _ _ => Iff.rfl⟩

theorem not_namesDir_of_absent (habs : Absent (dirSize g rc) (dirAt g V rc) key) : ¬ NamesDir g V rc key := by
  rintro ⟨i,hi,_⟩
  simp [entryOf_eq_none.mpr habs] at hi

theorem SlotOutcome.not_namesDir (hs : Sound g V rc ch) (hdir : isDirEntry existing=false)
    (ho : SlotOutcome g V rc key (.found slot existing) W rc') : ¬ NamesDir g V rc key := by
  cases ho with
  | existing j hj hname =>
    rintro ⟨i,hi,hidir⟩
    obtain rfl : j=i := by simpa [entryOf_eq_some hs.names hj hname] using hi
    simp [isDirEntry,hidir] at hdir
  | vacant j hj habs => exact not_namesDir_of_absent habs
  | grown last nc rest hlast hfree hfull habs => exact not_namesDir_of_absent habs

theorem WriteOutcome.kept {r : FatResult} (ha : Area g) (hc : ConsistentWith g V rc ch)
    (ho : WriteOutcome g V rc ch key text r U) (hr : r ≠ .ok)
    (hsafe : NamesDir g V rc key ∨ RoomFor g V rc ch key text.length ∨
      NothingToLose g V rc ch key text) : Kept g V rc ch U := by
  cases ho with
  | isDir i hi hname hdir => exact Kept.refl hc.sound
  | noSlot hfree hfull habs => exact Kept.refl hc.sound
  | ok W U rc' slot existing i ho ht hdir hl hroom => exact absurd rfl hr
  | noSpace W U rc' slot existing i ho ht hdir hl hroom =>
    have hnoroom : ¬ RoomFor g V rc ch key text.length := by
      rw [ho.room hc.sound text.length ht]
      omega
    have hnodir := ho.not_namesDir hc.sound hdir
    obtain ⟨hfree,hold⟩ := (hsafe.resolve_left hnodir).resolve_left hnoroom
    have hcount := length_free_clear ht
    cases ho with
    | existing j hj hname =>
      obtain rfl : j=i := by
        by_contra hne
        exact ht.only j hne hj hname
      rw [entryOf_eq_some hc.sound.names hj hname] at hold
      have hfits := (clustersFor_le (clusterBytes_pos ha)).mp (Nat.le_of_eq (hc.sized j hj hdir).symm)
      obtain ⟨ch',hs',hfiles⟩ := overwritten_files ha ht hl hfree hfits hdir hold.1 hold.2
      refine ⟨⟨rc,ch',hs',hfiles⟩,?_⟩
      intro c hin
      have hU := hl.none_free hin
      have hV : V.fat c≠0 := by
        intro h0
        have hmem := mem_freeClusters.mpr ⟨hin,h0⟩
        simp [hfree] at hmem
      exact ⟨fun h0 => absurd h0 hU,fun h0 => absurd h0 hV⟩
    | vacant j hj habs =>
      rw [hfree] at hcount
      rw [List.length_eq_zero_iff.mp hcount] at hl
      obtain rfl : U=V := hl.none_taken
      exact Kept.refl hc.sound
    | grown last nc rest hlast hfree' hfull habs => simp [hfree] at hfree'

theorem WriteOutcome.safe {r : FatResult} (ha : Area g) (hc : ConsistentWith g V rc ch)
    (ho : WriteOutcome g V rc ch key text r U)
    (hkept : r ≠ .ok →
      (∀ rc' ch', Sound g U rc' ch' → filesOf g U rc' ch' key=filesOf g V rc ch key) ∧
      ∀ c, InVolume g c → (U.fat c=0 ↔ V.fat c=0)) :
    NamesDir g V rc key ∨ RoomFor g V rc ch key text.length ∨ NothingToLose g V rc ch key text := by
  cases ho with
  | isDir i hi hname hdir => exact .inl ⟨i,entryOf_eq_some hc.sound.names hi hname,hdir⟩
  | noSlot hfree hfull habs =>
    refine .inr (.inr ⟨hfree,?_⟩)
    rw [entryOf_eq_none.mpr habs]
    trivial
  | ok W U rc' slot existing i ho ht hdir hl hroom =>
    exact .inr (.inl ((ho.room hc.sound text.length ht).mpr hroom))
  | noSpace W U rc' slot existing i ho ht hdir hl hroom =>
    obtain ⟨hfiles,hzero⟩ := hkept nofun
    have hfree : freeClusters g V=[] := by
      rw [List.eq_nil_iff_forall_not_mem]
      intro c hmem
      obtain ⟨hin,h0⟩ := mem_freeClusters.mp hmem
      exact hl.none_free hin ((hzero c hin).mpr h0)
    refine .inr (.inr ⟨hfree,?_⟩)
    cases ho with
    | existing j hj hname =>
      obtain rfl : j=i := by
        by_contra hne
        exact ht.only j hne hj hname
      rw [entryOf_eq_some hc.sound.names hj hname]
      exact overwritten_least ha ht hl hfree (hc.sized j hj hdir) hdir hroom (hfiles rc)
    | vacant j hj habs =>
      rw [entryOf_eq_none.mpr habs]
      trivial
    | grown last nc rest hlast hfree' hfull habs => simp [hfree] at hfree'

theorem readNode_injective {m m' : Option Node}
    (h : ∀ bufSize, 0<bufSize → readNode bufSize m=readNode bufSize m') : m=m' := by
  have hone := h 1 Nat.one_pos
  cases m with
  | none =>
    cases m' with
    | none => rfl
    | some n' => cases n' <;> simp [readNode] at hone
  | some n =>
    cases m' with
    | none => cases n <;> simp [readNode] at hone
    | some n' =>
      cases n with
      | dir =>
        cases n' with
        | dir => rfl
        | file bytes' => simp [readNode] at hone
      | file bytes =>
        cases n' with
        | dir => simp [readNode] at hone
        | file bytes' =>
          have hall := h (bytes.length+bytes'.length+1) (Nat.succ_pos _)
          simp only [readNode,ReadOut.mk.injEq] at hall
          have heq := hall.2.2
          rw [List.take_of_length_le (by omega),List.take_of_length_le (by omega)] at heq
          rw [heq]

theorem files_of_reads (h : Sees s g V) (hs : Sound g V rc ch) {ch' : Nat → List Nat}
    (h' : Sees t g U) (hs' : Sound g U rc' ch') (hne : name≠[])
    (hreads : ∀ bufSize out, ReadsAs t name bufSize out ↔ ReadsAs s name bufSize out) :
    filesOf g U rc' ch' (nameTo83 name)=filesOf g V rc ch (nameTo83 name) := by
  apply readNode_injective
  intro bufSize hbuf
  have hread := (hreads bufSize _).mp (h'.readsAs hs' name bufSize)
  rw [readsAs_iff h hs] at hread
  simpa [readOf,hne,Nat.ne_of_gt hbuf] using hread

theorem writeSafe_new (hne : name≠[]) (hlen : text.length≤WRITE_MAX_BYTES)
    (hnew : entryOf (dirSize g rc) (dirAt g V rc) (nameTo83 name)=none)
    (hslot : ¬ Full (dirSize g rc) (dirAt g V rc)) (hfree : freeClusters g V≠[]) :
    WriteSafe g V rc ch name text ↔
      clustersFor g.clusterBytes text.length≤(freeClusters g V).length := by
  simp [WriteSafe,NamesDir,RoomFor,NothingToLose,hne,Nat.not_lt.mpr hlen,hnew,hslot,hfree]

def smallVolume : Fat := mountedOn (bootSector 1 5 1)

theorem smallVolume_facts :
    (smallVolume.mounted=true ∧ smallVolume.ata.present=true ∧ smallVolume.geo=⟨0,1,2,2,1,1,1,3⟩) ∧
      EmptyRoot smallVolume.geo (viewOf smallVolume) ∧
      entryOf (dirSize smallVolume.geo [smallVolume.geo.rootCluster])
        (dirAt smallVolume.geo (viewOf smallVolume) [smallVolume.geo.rootCluster]) (nameTo83 [0x41])=none ∧
      ¬ Full (dirSize smallVolume.geo [smallVolume.geo.rootCluster])
        (dirAt smallVolume.geo (viewOf smallVolume) [smallVolume.geo.rootCluster]) ∧
      freeClusters smallVolume.geo (viewOf smallVolume)=[3,4] ∧ smallVolume.geo.clusterBytes=512 := by
  decide +kernel

theorem smallVolume_area : Area smallVolume.geo := by
  rw [smallVolume_facts.1.2.2]
  exact ⟨by decide,by decide,by decide,by decide,by decide⟩

theorem smallVolume_ideal : Ideal smallVolume.ata := ⟨smallVolume_facts.1.2.1,fun _ => rfl⟩

theorem smallVolume_empty : EmptyRoot smallVolume.geo (viewOf smallVolume) := smallVolume_facts.2.1

theorem smallVolume_safe_iff {text : List UInt8} (hlen : text.length≤WRITE_MAX_BYTES) :
    WriteSafe smallVolume.geo (viewOf smallVolume) [smallVolume.geo.rootCluster] (fun _ => []) [0x41] text ↔
      clustersFor 512 text.length≤2 := by
  obtain ⟨_,_,hnew,hslot,hfree,hbytes⟩ := smallVolume_facts
  rw [writeSafe_new (by decide) hlen hnew hslot (by rw [hfree]; decide),hfree,hbytes]
  rfl

def heldVolume : Fat := (call (.write [0x41] [0x68,0x69]) 9 smallVolume).2

theorem heldVolume_facts :
    (PrintableName [0x41] ∧ (call (.write [0x41] [0x68,0x69]) 9 smallVolume).1=some .ok) ∧
      (fat32Write 9 [0x41] (List.replicate 1025 0x61) heldVolume).1=some .noSpace ∧
      (fat32ReadFile 9 [0x41] 2 heldVolume).1=some ⟨.ok,2,[0x68,0x69]⟩ ∧
      (fat32ReadFile 9 [0x41] 2 (fat32Write 9 [0x41] (List.replicate 1025 0x61) heldVolume).2).1 =
        some ⟨.ok,2,[0x61,0x61]⟩ := by
  decide +kernel

theorem heldVolume_consistent : ConsistentVolume heldVolume ∧ Area heldVolume.geo := by
  have hstep : CallStep smallVolume (.write [0x41] [0x68,0x69]) heldVolume :=
    callStep_of_fst smallVolume (.write [0x41] [0x68,0x69]) 9 heldVolume_facts.1.1 heldVolume_facts.1.2
  have hv : ConsistentVolume smallVolume :=
    ⟨smallVolume_facts.1.1,smallVolume_ideal,smallVolume_empty.consistent⟩
  obtain ⟨m,hm⟩ := hv.holds
  obtain ⟨hholds,hgeo⟩ := hm.step smallVolume_area hstep
  rw [hgeo]
  exact ⟨hholds.consistent,smallVolume_area⟩

/-- On a consistent volume a write that fails loses nothing exactly when it is refused, finds room,
or finds nothing to lose. -/
theorem fat_write_failure_iff (hm : s.mounted=true) (hi : Ideal s.ata) (ha : Area s.geo)
    (hc : ConsistentWith s.geo (viewOf s) rc ch) :
    LosesNothing s name text ↔ WriteSafe s.geo (viewOf s) rc ch name text := by
  have hsees := sees_viewOf hm hi ha
  by_cases hbad : name=[] ∨ WRITE_MAX_BYTES<text.length
  · constructor
    · intro _
      exact hbad.elim .inl fun hlong => .inr (.inl hlong)
    · rintro _ r t ⟨fuel,hrun⟩ _
      obtain ⟨r',hrun',_⟩ := fat32Write_refused fuel hsees hbad
      obtain ⟨_,rfl⟩ : r'=r ∧ s=t := by simpa using hrun'.symm.trans hrun
      exact ⟨fun _ _ _ => Iff.rfl,fun _ _ => Iff.rfl⟩
  · rw [not_or,Nat.not_lt] at hbad
    constructor
    · intro hloses
      obtain ⟨r,t,U,hrun,hsees',ho⟩ := fat32Write_outcome hsees hc.sound
        (Nat.lt_succ_self s.geo.totalClusters) hbad.1 hbad.2
      refine .inr (.inr (ho.safe ha hc ?_))
      intro hr
      obtain ⟨hreads,hzero⟩ := hloses r t ⟨_,hrun⟩ hr
      constructor
      · intro rc' ch' hs'
        exact files_of_reads hsees hc.sound hsees' hs' hbad.1 (hreads name)
      · intro c hin
        rw [← hsees'.agree.fat c hin]
        exact hzero c hin
    · intro hsafe r t hret hr
      obtain ⟨fuel,hfuel,hrun⟩ := hret.at_least (mono_fat32Write name text) s.geo.totalClusters
      obtain ⟨r',t',U,hrun',hsees',ho⟩ :=
        fat32Write_outcome hsees hc.sound hfuel hbad.1 hbad.2
      obtain ⟨rfl,rfl⟩ : r'=r ∧ t'=t := by simpa using hrun'.symm.trans hrun
      have hkept := ho.kept ha hc hr
        ((hsafe.resolve_left hbad.1).resolve_left (Nat.not_lt.mpr hbad.2))
      obtain ⟨rc',ch',hs',hfiles⟩ := hkept.files
      constructor
      · intro name' bufSize out
        rw [readsAs_iff hsees' hs',readsAs_iff hsees hc.sound]
        simp only [readOf,hfiles]
      · intro c hin
        rw [hsees'.agree.fat c hin]
        exact hkept.free c hin

/-- 1024 bytes fit into the two free clusters of a fresh volume, and with one byte more the
clusters are lost. -/
theorem fat_write_failure_iff_small :
    LosesNothing smallVolume [0x41] (List.replicate 1024 0x61) ∧
      ¬ LosesNothing smallVolume [0x41] (List.replicate 1025 0x61) := by
  have hiff : ∀ text : List UInt8, LosesNothing smallVolume [0x41] text ↔
      WriteSafe smallVolume.geo (viewOf smallVolume) [smallVolume.geo.rootCluster] (fun _ => [])
        [0x41] text :=
    fun _ => fat_write_failure_iff smallVolume_facts.1.1 smallVolume_ideal smallVolume_area
      smallVolume_empty.consistentWith
  rw [hiff,hiff]
  constructor
  · rw [smallVolume_safe_iff (by rw [List.length_replicate]; decide),List.length_replicate]
    decide
  · rw [smallVolume_safe_iff (by rw [List.length_replicate]; decide),List.length_replicate]
    decide

/-- The old file is freed, its cluster is taken again for the text, and `hi` is now read as `aa`. -/
theorem fat_write_failure_fails :
    ¬ ∀ (s : Fat) (name text : List UInt8), ConsistentVolume s → Area s.geo →
      LosesNothing s name text := by
  intro h
  have hloses := h heldVolume [0x41] (List.replicate 1025 0x61) heldVolume_consistent.1
    heldVolume_consistent.2
  obtain ⟨_,hfail,hold,hnew⟩ := heldVolume_facts
  have hwrite : Returns (fun n => fat32Write n [0x41] (List.replicate 1025 0x61)) heldVolume .noSpace
      (fat32Write 9 [0x41] (List.replicate 1025 0x61) heldVolume).2 := ⟨9,eq_of_fst hfail⟩
  have hbefore : ReadsAs heldVolume [0x41] 2 ⟨.ok,2,[0x68,0x69]⟩ := ⟨_,9,eq_of_fst hold⟩
  have hafter : ReadsAs (fat32Write 9 [0x41] (List.replicate 1025 0x61) heldVolume).2 [0x41] 2
      ⟨.ok,2,[0x61,0x61]⟩ := ⟨_,9,eq_of_fst hnew⟩
  have hsame := (hloses _ _ hwrite nofun).1 [0x41] 2 ⟨.ok,2,[0x61,0x61]⟩
  have heq := (hsame.mp hafter).unique hbefore
  simp at heq

end MyKernel.Fat32
