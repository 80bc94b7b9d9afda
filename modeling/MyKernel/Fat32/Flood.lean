import Mathlib.Data.Finset.Card
import MyKernel.Fat32.Waterline

/-! The waterline crossed: short texts take the lowest free clusters, in the end `m+1`. -/
namespace MyKernel.Fat32
open Memory MyKernel.Computation Chains Disk

variable {g : Geo} {V W U : View} {s : Fat} {i c d m o x y fuel : Nat} {rc rc' cs rest : List Nat}
variable {ch ch' : Nat → List Nat} {key name text : List UInt8} {slot : Slot}

def lowFree (g : Geo) (m : Nat) (V : View) : Finset Nat :=
  (Finset.range (m+1)).filter fun c => c∈freeClusters g V

theorem mem_lowFree : c∈lowFree g m V ↔ c ≤ m ∧ c∈freeClusters g V := by
  simp [lowFree,Nat.lt_succ_iff]

theorem card_lowFree_le : (lowFree g m V).card ≤ m+1 := by
  have hcard := Finset.card_filter_le (Finset.range (m+1)) fun c => c∈freeClusters g V
  rwa [Finset.card_range] at hcard

def Fuller (g : Geo) (V W : View) : Prop := ∀ c, InVolume g c → W.fat c=0 → V.fat c=0

theorem Fuller.trans (h : Fuller g V W) (h' : Fuller g W U) : Fuller g V U :=
  fun c hc h0 => h c hc (h' c hc h0)

theorem Fuller.ssubset (h : Fuller g V W) (hc : c∈freeClusters g V) (hm : c ≤ m) (huse : W.fat c≠0) :
    lowFree g m W ⊂ lowFree g m V := by
  refine (Finset.ssubset_iff_of_subset ?_).mpr ⟨c,mem_lowFree.mpr ⟨hm,hc⟩,?_⟩
  · intro d hd
    obtain ⟨hle,hfree⟩ := mem_lowFree.mp hd
    obtain ⟨hin,h0⟩ := mem_freeClusters.mp hfree
    exact mem_lowFree.mpr ⟨hle,mem_freeClusters.mpr ⟨hin,h d hin h0⟩⟩
  · intro hmem
    exact huse (mem_freeClusters.mp (mem_lowFree.mp hmem).2).2

theorem Laid.fuller {cb : Nat} (hl : Laid cb text V W cs) (hcs : ∀ c∈cs, InVolume g c) : Fuller g V W := by
  intro c _ h0
  by_cases hc : c∈cs
  · exact absurd h0 (ChainFrom.fat_ne_zero hl.path hcs hc)
  · rw [← hl.fat_off c hc]
    exact h0

theorem clear_nil : V.clear []=V := by
  simp [View.clear]

theorem clustersFor_short (ha : Area g) (hpos : 0<text.length) (hlen : text.length≤g.clusterBytes) :
    clustersFor g.clusterBytes text.length=1 := by
  have hle := (clustersFor_le (clusterBytes_pos ha) (k := 1)).mpr (by omega : text.length≤1*g.clusterBytes)
  have hgt := (lt_clustersFor (clusterBytes_pos ha) (k := 0)).mpr (by omega : 0*g.clusterBytes<text.length)
  omega

section NewName
variable (ha : Area g) (hs : Sound g V rc ch) (hlow : Low g m V) (hm : 1 ≤ m) (hin : m+2≤g.totalClusters+1)
include hlow

theorem Low.free_above (hc : m<c) (hin : InVolume g c) : c∈freeClusters g V := by
  refine mem_freeClusters.mpr ⟨hin,?_⟩
  by_contra huse
  have hle := hlow c hin huse
  omega

include hm hin

theorem Low.head_le (hf : freeClusters g V=x::rest) : x ≤ m+1 :=
  free_head_le hf (hlow.free_above (Nat.lt_succ_self m) ⟨by omega,by omega⟩)

include ha hs

/-- The directory keeps below the line, or grows by cluster `m+1`; a cluster remains free. -/
theorem SlotOutcome.crosses (ho : SlotOutcome g V rc key (.found slot none) W rc') :
    Fuller g V W ∧ freeClusters g W≠[] ∧
      (Above m V W ∧ slot.cluster ≤ m ∨
        slot=⟨m+1,0⟩ ∧ W.fat (m+1)≠0 ∧ W.data (m+1)=fun _ => 0) := by
  have hnext := hlow.free_above (Nat.lt_succ_self m) ⟨by omega,by omega⟩
  cases ho with
  | vacant i hi habs =>
    refine ⟨fun _ _ h0 => h0,List.ne_nil_of_mem hnext,.inl ⟨Above.refl m V,?_⟩⟩
    exact hlow.root hs (slotAt_mem (entriesPerCluster_pos ha) hi.1)
  | grown last nc rest hlast hfree hfull habs =>
    have hmem := List.mem_of_getLast? hlast
    have hnc := hlow.head_le hm hin hfree
    have hused : (V.extend last nc).fat nc≠0 := by
      have hlt := (extend_rootLinked ha hs hlast hfree).mark
      unfold EOC at hlt
      omega
    have hafter : m+2∈freeClusters g V := hlow.free_above (by omega) ⟨by omega,hin⟩
    have hrest : m+2∈rest := by
      rw [hfree] at hafter
      cases List.mem_cons.mp hafter with
      | inl he => omega
      | inr hmem' => exact hmem'
    refine ⟨?_,?_,?_⟩
    · intro c hc h0
      by_contra huse
      by_cases hcn : c=nc
      · exact hused (hcn ▸ h0)
      · by_cases hcl : c=last
        · have hlink := (extend_rootLinked ha hs hlast hfree).link.1
          rw [hcl] at h0
          rw [h0] at hlink
          have h2 := (free_head hfree).1.1
          omega
        · rw [(extend_rootLinked ha hs hlast hfree).same c hcl hcn] at h0
          exact huse h0
    · rw [freeClusters_extend hs hlast hfree]
      exact List.ne_nil_of_mem hrest
    · by_cases hle : nc ≤ m
      · exact .inl ⟨above_extend (hlow.root hs hmem) hle,hle⟩
      · obtain rfl : nc=m+1 := by omega
        refine .inr ⟨rfl,hused,?_⟩
        simp [View.extend,setData_data]

omit hs in
/-- A text of one cluster, behind the search. It lies below the line, or in cluster `m+1`. -/
theorem crosses_laid (hW : Above m V W) (hpos : 0<text.length) (hlen : text.length≤o) (ho : o<g.clusterBytes)
    (hl : Laid g.clusterBytes text W U (newChain g W text.length)) (hne : freeClusters g W≠[]) :
    U.data (m+1) o=0 ∨ Above m W U ∧ ∃ y, y ≤ m ∧ y∈freeClusters g W ∧ U.fat y≠0 := by
  have hlowW := hlow.above hW
  have hone := clustersFor_short ha hpos (by omega)
  cases hf : freeClusters g W with
  | nil => exact absurd hf hne
  | cons y rest =>
    have hchain : newChain g W text.length=[y] := by
      rw [newChain,hone,hf,List.take_succ_cons,List.take_zero]
    rw [hchain] at hl
    have hy := hlowW.head_le hm hin hf
    have hfree := free_head hf
    by_cases hle : y ≤ m
    · right
      refine ⟨hl.above (by simpa using hle),y,hle,List.mem_cons_self,?_⟩
      exact ChainFrom.fat_ne_zero hl.path (by simpa using hfree.1) (List.mem_singleton_self y)
    · left
      obtain rfl : y=m+1 := by omega
      rw [hl.data_on 0 (m+1) rfl,chunkOf,List.getD_eq_default]
      omega

theorem WriteOutcome.crosses {r : FatResult} (hkey : KeyShape key) (hpos : 0<text.length)
    (hlen : text.length≤o) (h32 : 32≤o) (ho' : o<g.clusterBytes) (hmax : text.length≤WRITE_MAX_BYTES)
    (hnew : filesOf g V rc ch key=none) (ho : WriteOutcome g V rc ch key text r U) :
    (∃ rc' ch', Sound g U rc' ch' ∧
      ∀ key', key'≠key → filesOf g U rc' ch' key'=filesOf g V rc ch key') ∧
    (U.data (m+1) o=0 ∨ Above m V U ∧ lowFree g m U ⊂ lowFree g m V) := by
  have habsent : ∀ j, Live (dirSize g rc) (dirAt g V rc) j → (dirAt g V rc j).name≠key := by
    intro j hj hname
    rw [filesOf_eq hs hj hname] at hnew
    cases hnew
  have hnext := hlow.free_above (Nat.lt_succ_self m) ⟨by omega,by omega⟩
  cases ho with
  | isDir i hi hname hdir => exact absurd hname (habsent i hi)
  | noSlot hfree hfull habs => exact absurd hfree (List.ne_nil_of_mem hnext)
  | noSpace W _ rc' slot existing i ho ht hdir hl hroom =>
    cases existing with
    | some de =>
      cases ho with
      | existing i hi hname => exact absurd hname (habsent i hi)
    | none =>
      obtain ⟨_,hne,_⟩ := ho.crosses ha hs hlow hm hin
      rw [oldChain,clear_nil,clustersFor_short ha hpos (by omega)] at hroom
      have hlt := List.length_pos_iff.mpr hne
      omega
  | ok W U rc' slot existing i ho ht hdir hl hroom =>
    cases existing with
    | some de =>
      cases ho with
      | existing i hi hname => exact absurd hname (habsent i hi)
    | none =>
      obtain ⟨hfuller,hne,hline⟩ := ho.crosses ha hs hlow hm hin
      have hcs := fun c (hc : c∈newChain g (W.clear (oldChain ch i none)) text.length) => mem_newChain hc
      have hlt : text.length<4294967296 := by
        unfold WRITE_MAX_BYTES at hmax
        omega
      have hp := (hl.filled ht hcs).putStep ha ht hkey hlt ATTR_ARCHIVE
      refine ⟨⟨rc',_,hp.sound ht,?_⟩,?_⟩
      · intro key' hkey'
        rw [hp.files_of_ne ht hkey',(ho.target ha hs).1.files ha hs]
      rw [oldChain,clear_nil] at hl hcs ⊢
      have hentry := length_direntBytes hkey.1 ATTR_ARCHIVE ((newChain g W text.length).headD 0) text.length
      generalize direntBytes key ATTR_ARCHIVE ((newChain g W text.length).headD 0) text.length=entry at hentry ⊢
      cases hline with
      | inl hline =>
        obtain ⟨hW,hslot⟩ := hline
        cases crosses_laid ha hlow hm hin hW hpos hlen ho' hl hne with
        | inl hzero =>
          left
          rw [View.setSlot,setData_data,if_neg (by omega)]
          exact hzero
        | inr hlaid =>
          obtain ⟨hU,y,hy,hfree,huse⟩ := hlaid
          obtain ⟨hiny,h0⟩ := mem_freeClusters.mp hfree
          right
          refine ⟨(hW.trans hU).trans (above_setSlot hslot),?_⟩
          have hall : Fuller g V (U.setSlot slot entry) := hfuller.trans (hl.fuller fun c hc => (hcs c hc).1)
          exact hall.ssubset (mem_freeClusters.mpr ⟨hiny,hfuller y hiny h0⟩) hy huse
      | inr hline =>
        obtain ⟨hslot,huse,hzero⟩ := hline
        have hnot : m+1∉newChain g W text.length := fun hmem => huse (hcs (m+1) hmem).2
        left
        rw [hslot,View.setSlot,setData_data,if_pos rfl,hl.data_off (m+1) hnot,hzero]
        dsimp only [patch]
        rw [if_neg (by omega)]

end NewName

theorem fat32Write_crosses (h : Sees s g V) (hs : Sound g V rc ch) (hlow : Low g m V) (hm : 1 ≤ m)
    (hin : m+2≤g.totalClusters+1) (hfuel : g.totalClusters<fuel) (hne : name≠[]) (h0 : 0∉name)
    (hpos : 0<text.length) (hlen : text.length≤o) (h32 : 32≤o) (ho : o<g.clusterBytes)
    (hmax : text.length≤WRITE_MAX_BYTES) (hnew : filesOf g V rc ch (nameTo83 name)=none) :
    ∃ r t U, fat32Write fuel name text s=(some r,t) ∧ Sees t g U ∧
      (∃ rc' ch', Sound g U rc' ch' ∧
        ∀ key, key≠nameTo83 name → filesOf g U rc' ch' key=filesOf g V rc ch key) ∧
      (U.data (m+1) o=0 ∨ Above m V U ∧ lowFree g m U ⊂ lowFree g m V) := by
  obtain ⟨r,t,U,hrun,hsees,hout⟩ := fat32Write_outcome h hs hfuel hne hmax
  exact ⟨r,t,U,hrun,hsees,
    hout.crosses h.area hs hlow hm hin (keyShape_nameTo83 hne h0) hpos hlen h32 ho hmax hnew⟩

end MyKernel.Fat32
