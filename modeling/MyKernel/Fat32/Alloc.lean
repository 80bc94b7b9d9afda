import Mathlib.Data.List.Nodup
import Mathlib.Data.List.Perm.Subperm
import Mathlib.Data.List.Range
import MyKernel.Fat32.View
import MyKernel.Lib.Families

/-! Chains of clusters, and the allocator. -/
namespace MyKernel.Fat32
open Memory MyKernel.Computation Chains

def nextOf (fat : Nat → Nat) (c : Nat) : Option Nat := if EOC≤fat c then none else some (fat c)

def startOf (first : Nat) : Option Nat := if first=0 then none else some first

def freeClusters (g : Geo) (V : View) : List Nat :=
  (List.range' 2 g.totalClusters).filter fun c => V.fat c=0

def View.clear (V : View) (xs : List Nat) : View :=
  { V with fat := fun d => if d∈xs then 0 else V.fat d }

/-- A loop of the driver that begins at `v` passes through `xs` and then ends. -/
def Linked (fat : Nat → Nat) : Nat → List Nat → Prop
  | v, [] => ¬ (2≤v ∧ v<EOC)
  | v, c::xs => v=c ∧ Linked fat (fat c) xs

variable {g : Geo} {V W : View} {s : Fat} {c d v : Nat} {xs : List Nat} {fat fat' : Nat → Nat}

@[simp] theorem setFat_fat : (V.setFat c v).fat d=if d=c then v else V.fat d := rfl
@[simp] theorem setFat_data : (V.setFat c v).data=V.data := rfl
@[simp] theorem setData_fat {buf : Nat → UInt8} : (V.setData c buf).fat=V.fat := rfl
@[simp] theorem clear_fat : (V.clear xs).fat d=if d∈xs then 0 else V.fat d := rfl
@[simp] theorem clear_data : (V.clear xs).data=V.data := rfl

theorem setData_data {buf : Nat → UInt8} :
    (V.setData c buf).data d=if d=c then buf else V.data d := rfl

theorem InVolume.lt_eoc (ha : Area g) (hc : InVolume g c) : c<EOC := by
  have hlt := ha.clusters_lt
  have hle := hc.2
  unfold EOC
  omega

theorem nextOf_eq_none : nextOf fat c=none ↔ EOC≤fat c := by
  unfold nextOf
  split <;> simp [*]

theorem nextOf_eq_some : nextOf fat c=some d ↔ fat c<EOC ∧ fat c=d := by
  unfold nextOf
  split
  · simp only [reduceCtorEq,false_iff]
    omega
  · simp only [Option.some.injEq]
    omega

theorem nextOf_congr (h : fat' c=fat c) : nextOf fat' c=nextOf fat c := by
  simp only [nextOf,h]

theorem linked_of_next (h : ChainFrom (nextOf fat) (nextOf fat c) xs) : Linked fat (fat c) xs := by
  induction xs generalizing c with
  | nil =>
    have hend := nextOf_eq_none.mp h
    intro hv
    omega
  | cons x xs ih =>
    have hx := (nextOf_eq_some.mp h.1).2
    exact ⟨hx,ih h.2⟩

theorem linked_of_start (h : ChainFrom (nextOf fat) (startOf v) xs) : Linked fat v xs := by
  unfold startOf at h
  cases xs with
  | nil =>
    intro hv
    have hv0 : v≠0 := by omega
    rw [if_neg hv0] at h
    simp [ChainFrom] at h
  | cons x xs =>
    by_cases hv : v=0
    · simp [hv,ChainFrom] at h
    · rw [if_neg hv] at h
      have hx : v=x := by simpa using h.1
      exact ⟨hx,linked_of_next h.2⟩

theorem mem_freeClusters : c∈freeClusters g V ↔ InVolume g c ∧ V.fat c=0 := by
  simp only [freeClusters,List.mem_filter,List.mem_range'_1,decide_eq_true_eq,InVolume]
  omega

theorem pairwise_freeClusters : (freeClusters g V).Pairwise (·<·) :=
  (List.pairwise_lt_range').filter _

theorem nodup_freeClusters : (freeClusters g V).Nodup := (List.nodup_range').filter _

theorem freeClusters_congr (h : ∀ c, InVolume g c → (V.fat c=0 ↔ W.fat c=0)) : freeClusters g V=freeClusters g W := by
  refine List.filter_congr ?_
  intro c hc
  have hin : InVolume g c := by
    simp only [List.mem_range'_1] at hc
    unfold InVolume
    omega
  simp only [h c hin]

theorem ChainFrom.fat_ne_zero {o : Option Nat} (h : ChainFrom (nextOf fat) o xs)
    (hin : ∀ c∈xs, InVolume g c) (hc : c∈xs) : fat c≠0 := by
  obtain ⟨pre,post,hxs,hp⟩ := h.tail_of_mem hc
  intro h0
  cases post with
  | nil =>
    have hend := nextOf_eq_none.mp hp.2
    simp [h0,EOC] at hend
  | cons x post =>
    have hx := (nextOf_eq_some.mp hp.2.1).2
    have hx2 := (hin x (by simp [hxs])).1
    omega

theorem length_le_of_inVolume (hnd : xs.Nodup) (hin : ∀ c∈xs, InVolume g c) : xs.length≤g.totalClusters := by
  have hsub : xs ⊆ List.range' 2 g.totalClusters := by
    intro c hc
    have := hin c hc
    simp only [List.mem_range'_1,InVolume] at this ⊢
    omega
  have hlen := (List.Nodup.subperm hnd hsub).length_le
  rwa [List.length_range'] at hlen

theorem freeClusters_setFat_used (hc : V.fat c≠0) (hv : v≠0) : freeClusters g (V.setFat c v)=freeClusters g V := by
  apply freeClusters_congr
  intro d _
  by_cases hdc : d=c
  · simp [hdc,hc,hv]
  · simp [hdc]

theorem freeClusters_setFat_head {rest : List Nat} (hf : freeClusters g V=c::rest) (hv : v≠0) :
    freeClusters g (V.setFat c v)=rest := by
  have hnd : (c::rest).Nodup := hf ▸ nodup_freeClusters
  have hfilter : freeClusters g (V.setFat c v)=(freeClusters g V).filter fun d => d≠c := by
    simp only [freeClusters,List.filter_filter]
    refine List.filter_congr ?_
    intro d _
    by_cases hdc : d=c
    · simp [hdc,hv]
    · simp [hdc]
  rw [hfilter,hf,List.filter_cons_of_neg (by simp),List.filter_eq_self]
  intro d hd
  have hdc : d≠c := fun he => (List.nodup_cons.mp hnd).1 (he ▸ hd)
  simpa using hdc

theorem fatAllocLoop_sees (h : Sees s g V) (n : Nat) (hc : 2≤c) (hn : c+n≤g.totalClusters+2) :
    ∃ t, fatAllocLoop n c s =
        (some (((List.range' c n).filter fun d => V.fat d=0).headD 0),t) ∧
      Sees t g (((List.range' c n).filter fun d => V.fat d=0).head?.elim V fun d => V.setFat d LAST) ∧
      t.clusterBuf=s.clusterBuf := by
  induction n generalizing c s with
  | zero => exact ⟨s,rfl,h,rfl⟩
  | succ n ih =>
    obtain ⟨t,hget,hsees,hbuf⟩ := fatGet_sees (c := c) h (by omega)
    by_cases h0 : V.fat c=0
    · obtain ⟨u,hset,hsees',hbuf'⟩ := fatSet_sees hsees (c := c) (by omega) LAST
      refine ⟨u,?_,?_,hbuf'.trans hbuf⟩
      · rw [fatAllocLoop,bind_some hget]
        simp only [h0,if_true]
        rw [bind_some hset]
        simp [List.range'_succ,h0]
      · have hlast : LAST%0x10000000=LAST := rfl
        rw [hlast] at hsees'
        simpa [List.range'_succ,h0] using hsees'
    · obtain ⟨u,hu,hsees',hbuf'⟩ := ih hsees (c := c+1) (by omega) (by omega)
      refine ⟨u,?_,?_,hbuf'.trans hbuf⟩
      · rw [fatAllocLoop,bind_some hget]
        simp only [h0,if_false]
        rw [hu]
        simp [List.range'_succ,h0]
      · simpa [List.range'_succ,h0] using hsees'

theorem fatAllocCluster_eq (h : Sees s g V) :
    fatAllocCluster s=(fatAllocLoop g.totalClusters 2 >>= noteAllocated) s := by
  have hlt := h.area.clusters_lt
  have hcount : u32 (g.totalClusters+2) - 2=g.totalClusters := by
    unfold u32
    omega
  rw [fatAllocCluster,state_bind,h.geo,hcount]

theorem fatAllocCluster_sees (h : Sees s g V) :
    ∃ t, fatAllocCluster s=(some ((freeClusters g V).headD 0),t) ∧
      Sees t g ((freeClusters g V).head?.elim V fun d => V.setFat d LAST) ∧ t.clusterBuf=s.clusterBuf := by
  obtain ⟨t,ht,hsees,hbuf⟩ := fatAllocLoop_sees h g.totalClusters (c := 2) (by omega) (by omega)
  rw [← freeClusters] at ht hsees
  refine ⟨{ t with allocated := (freeClusters g V).headD 0::t.allocated },?_,?_,?_⟩
  · rw [fatAllocCluster_eq h,bind_some ht]
    rfl
  · exact hsees.of_disk rfl rfl rfl rfl rfl
  · exact hbuf

theorem fatAllocCluster_none (h : Sees s g V) (hf : freeClusters g V=[]) :
    ∃ t, fatAllocCluster s=(some 0,t) ∧ Sees t g V ∧ t.clusterBuf=s.clusterBuf := by
  obtain ⟨t,ht,hsees,hbuf⟩ := fatAllocCluster_sees h
  rw [hf] at ht hsees
  exact ⟨t,ht,hsees,hbuf⟩

theorem fatAllocCluster_some {rest : List Nat} (h : Sees s g V) (hf : freeClusters g V=c::rest) :
    ∃ t, fatAllocCluster s=(some c,t) ∧ Sees t g (V.setFat c LAST) ∧
      t.clusterBuf=s.clusterBuf := by
  obtain ⟨t,ht,hsees,hbuf⟩ := fatAllocCluster_sees h
  rw [hf] at ht hsees
  exact ⟨t,ht,hsees,hbuf⟩

theorem clear_cons : (V.setFat c 0).clear xs=V.clear (c::xs) := by
  simp only [View.clear,View.setFat,View.mk.injEq,and_true]
  funext d
  by_cases hdc : d=c
  · simp [hdc]
  · simp [hdc]

theorem Linked.congr (h : Linked fat v xs) (hn : ∀ x∈xs, fat' x=fat x) : Linked fat' v xs := by
  induction xs generalizing v with
  | nil => exact h
  | cons x xs ih =>
    refine ⟨h.1,?_⟩
    rw [hn x (by simp)]
    exact ih h.2 (fun y hy => hn y (by simp [hy]))

theorem fatFreeChain_sees {fuel : Nat} (h : Sees s g V) (hl : Linked V.fat v xs)
    (hin : ∀ c∈xs, InVolume g c) (hnd : xs.Nodup) (hfuel : xs.length<fuel) :
    ∃ t, fatFreeChain fuel v s=(some true,t) ∧ Sees t g (V.clear xs) := by
  induction xs generalizing fuel v s V with
  | nil =>
    obtain ⟨fuel,rfl⟩ : ∃ k, fuel=k+1 := ⟨fuel-1,by omega⟩
    refine ⟨s,?_,by simpa [View.clear] using h⟩
    rw [fatFreeChain,if_neg hl,pure_eq]
  | cons c xs ih =>
    obtain ⟨fuel,rfl⟩ : ∃ k, fuel=k+1 := ⟨fuel-1,by omega⟩
    obtain ⟨rfl,hl⟩ := hl
    have hc := hin v (by simp)
    obtain ⟨hv,hnd⟩ := List.nodup_cons.mp hnd
    obtain ⟨t,hget,hsees,_⟩ := fatGet_sees h hc.2
    obtain ⟨u,hset,hsees',_⟩ := fatSet_sees hsees hc.2 0
    have hl' : Linked (V.setFat v 0).fat (V.fat v) xs := by
      apply hl.congr
      intro x hx
      have hxv : x≠v := fun he => hv (he ▸ hx)
      simp [hxv]
    obtain ⟨w,hw,hsees''⟩ := ih hsees' hl' (fun x hx => hin x (by simp [hx])) hnd
      (by simpa using hfuel)
    refine ⟨w,?_,clear_cons ▸ hsees''⟩
    rw [fatFreeChain,if_pos ⟨hc.1,hc.lt_eoc h.area⟩,bind_some hget,bind_some hset,if_pos rfl,hw]

theorem freeClusters_clear_perm (hin : ∀ c∈xs, InVolume g c) (hnd : xs.Nodup) (hused : ∀ c∈xs, V.fat c≠0) :
    (freeClusters g (V.clear xs)).Perm (xs++freeClusters g V) := by
  have hnd' : (xs++freeClusters g V).Nodup := by
    refine List.Nodup.append hnd nodup_freeClusters ?_
    intro c hc hc'
    exact hused c hc (mem_freeClusters.mp hc').2
  rw [List.perm_ext_iff_of_nodup nodup_freeClusters hnd']
  intro c
  simp only [mem_freeClusters,List.mem_append,clear_fat]
  by_cases hc : c∈xs
  · simp [hc,hin c hc]
  · simp [hc]

end MyKernel.Fat32
