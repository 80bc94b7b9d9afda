import MyKernel.Fat32.Volume

/-! The waterline of a volume: with two free clusters up to `m`, a call leaves all above `m` alone. -/
namespace MyKernel.Fat32
open Memory MyKernel.Computation Chains Disk

structure Above (m : Nat) (V W : View) : Prop where
  fat : ∀ c, m<c → W.fat c=V.fat c
  data : ∀ c, m<c → W.data c=V.data c

def Low (g : Geo) (m : Nat) (V : View) : Prop := ∀ c, InVolume g c → V.fat c≠0 → c ≤ m

def Spare (g : Geo) (m : Nat) (V : View) : Prop :=
  ∃ a b, a<b ∧ b ≤ m ∧ a∈freeClusters g V ∧ b∈freeClusters g V

variable {g : Geo} {V W U : View} {s : Fat} {i c d v m x y fuel : Nat} {rc rc' cs xs rest : List Nat}
variable {ch ch' : Nat → List Nat} {key name text : List UInt8} {slot : Slot}
variable {existing : Option Dirent}

theorem Above.refl (m : Nat) (V : View) : Above m V V := ⟨fun _ _ => rfl, fun _ _ => rfl⟩

theorem Above.trans (h : Above m V W) (h' : Above m W U) : Above m V U :=
  ⟨fun c hc => (h'.fat c hc).trans (h.fat c hc),fun c hc => (h'.data c hc).trans (h.data c hc)⟩

theorem above_setFat (hc : c ≤ m) : Above m V (V.setFat c v) := by
  refine ⟨?_,fun _ _ => rfl⟩
  intro d hd
  rw [setFat_fat,if_neg (by omega)]

theorem above_setData {buf : Nat → UInt8} (hc : c ≤ m) : Above m V (V.setData c buf) := by
  refine ⟨fun _ _ => rfl,?_⟩
  intro d hd
  rw [setData_data,if_neg (by omega)]

theorem above_setSlot {bytes : List UInt8} (hc : slot.cluster ≤ m) : Above m V (V.setSlot slot bytes) :=
  above_setData hc

theorem above_clear (hxs : ∀ c∈xs, c ≤ m) : Above m V (V.clear xs) := by
  refine ⟨?_,fun _ _ => rfl⟩
  intro d hd
  rw [clear_fat,if_neg]
  intro hmem
  have hle := hxs d hmem
  omega

theorem above_extend {last nc : Nat} (hlast : last ≤ m) (hnc : nc ≤ m) : Above m V (V.extend last nc) :=
  ((above_setFat hnc).trans (above_setFat hlast)).trans (above_setData hnc)

theorem Laid.above {cb : Nat} (hl : Laid cb text V W cs) (hcs : ∀ c∈cs, c ≤ m) : Above m V W := by
  have hnot : ∀ c, m<c → c∉cs := by
    intro c hc hmem
    have hle := hcs c hmem
    omega
  exact ⟨fun c hc => hl.fat_off c (hnot c hc),fun c hc => hl.data_off c (hnot c hc)⟩

theorem Took.above (hk : Took g V W d) (hd : d ≤ m) : Above m V W :=
  ⟨fun c hc => hk.fat c (by omega),fun c hc => hk.data c (by omega)⟩

theorem Low.above (h : Low g m V) (ha : Above m V W) : Low g m W := by
  intro c hc huse
  by_contra hlt
  rw [ha.fat c (by omega)] at huse
  exact hlt (h c hc huse)

theorem Low.mono (h : Low g m V) (hle : m≤d) : Low g d V := by
  intro c hc huse
  have hcm := h c hc huse
  omega

theorem Low.root (h : Low g m V) (hs : Sound g V rc ch) (hc : c∈rc) : c ≤ m :=
  h c (hs.root_in c hc) (ChainFrom.fat_ne_zero hs.root_path hs.root_in hc)

theorem Low.chain (h : Low g m V) (hs : Sound g V rc ch) (hi : Live (dirSize g rc) (dirAt g V rc) i)
    (hc : c∈ch i) : c ≤ m :=
  h c (hs.inVolume hi c hc) (ChainFrom.fat_ne_zero (hs.path hi) (hs.inVolume hi) hc)

theorem Low.slot_le (h : Low g m V) (ha : Area g) (ht : Target g V rc ch key slot existing i) : slot.cluster ≤ m := by
  rw [ht.slot_eq]
  exact h.root ht.sound (slotAt_mem (entriesPerCluster_pos ha) ht.bound)

theorem Low.old_le (h : Low g m V) (ht : Target g V rc ch key slot existing i) :
    ∀ c∈oldChain ch i existing, c ≤ m := by
  intro c hc
  obtain ⟨hi,hci⟩ := ht.old_cases hc
  exact h.chain ht.sound hi hci

theorem free_head_le (hf : freeClusters g V=x::rest) (hy : y∈freeClusters g V) : x≤y := by
  have hp : (x::rest).Pairwise (·<·) := hf ▸ pairwise_freeClusters
  rw [hf] at hy
  cases List.mem_cons.mp hy with
  | inl he => omega
  | inr hmem =>
    have hlt := (List.pairwise_cons.mp hp).1 y hmem
    omega

theorem Spare.heads (h : Spare g m V) : ∃ x y rest, freeClusters g V=x::y::rest ∧ x ≤ m ∧ y ≤ m := by
  obtain ⟨a,b,hab,hb,hfa,hfb⟩ := h
  cases hf : freeClusters g V with
  | nil => simp [hf] at hfa
  | cons x l =>
    have hx := free_head_le hf hfa
    have hbl : b∈l := by
      rw [hf] at hfb
      cases List.mem_cons.mp hfb with
      | inl he => omega
      | inr hmem => exact hmem
    cases l with
    | nil => simp at hbl
    | cons y rest =>
      have hp : (x::y::rest).Pairwise (·<·) := hf ▸ pairwise_freeClusters
      have hy : y≤b := by
        cases List.mem_cons.mp hbl with
        | inl he => omega
        | inr hmem =>
          have hlt := (List.pairwise_cons.mp (List.pairwise_cons.mp hp).2).1 b hmem
          omega
      exact ⟨x,y,rest,rfl,by omega,by omega⟩

theorem Spare.mono (h : Spare g m V) (hle : m≤d) : Spare g d V := by
  obtain ⟨a,b,hab,hb,hfa,hfb⟩ := h
  exact ⟨a,b,hab,by omega,hfa,hfb⟩

theorem Sees.spare_iff (h : Sees s g V) : Spare g m (viewOf s) ↔ Spare g m V := by
  have hfree : freeClusters g (viewOf s)=freeClusters g V :=
    freeClusters_congr fun c hc => by rw [h.agree.fat c hc]
  rw [Spare,Spare,hfree]

theorem Low.spare (h : Low g c V) (hc : 1≤c) (hin : c+2≤g.totalClusters+1) : Spare g (c+2) V := by
  have hfree : ∀ d, c<d → d≤c+2 → d∈freeClusters g V := by
    intro d hd hle
    have hind : InVolume g d := ⟨by omega,by omega⟩
    refine mem_freeClusters.mpr ⟨hind,?_⟩
    by_contra huse
    have hle' := h d hind huse
    omega
  exact ⟨c+1,c+2,by omega,by omega,hfree _ (by omega) (by omega),hfree _ (by omega) (by omega)⟩

theorem freeClusters_took (hk : Took g V W d) (hf : freeClusters g V=d::rest) : freeClusters g W=rest := by
  have hd : W.fat d≠0 := by
    have hmark := hk.mark
    unfold EOC at hmark
    omega
  rw [← freeClusters_setFat_head hf hd]
  apply freeClusters_congr
  intro c _
  by_cases hcd : c=d
  · simp [hcd]
  · simp [hcd,hk.fat c hcd]

section Search
variable (ha : Area g) (hs : Sound g V rc ch) (hlow : Low g m V)
  (hfree : freeClusters g V=x::rest) (hx : x ≤ m)
include hs hlow hfree hx

theorem SlotOutcome.above {r : SlotResult} (ho : SlotOutcome g V rc key r W rc') : Above m V W := by
  cases ho with
  | existing i hi hname => exact Above.refl m V
  | vacant i hi habs => exact Above.refl m V
  | grown last nc rest' hlast hfree' hfull habs =>
    rw [hfree,List.cons.injEq] at hfree'
    rw [← hfree'.1]
    exact above_extend (hlow.root hs (List.mem_of_getLast? hlast)) hx
  | noSpace hfree' hfull habs => exact Above.refl m V

omit hlow in
theorem SlotOutcome.free_le {r : SlotResult} (ho : SlotOutcome g V rc key r W rc') (hy : y∈rest)
    (hym : y ≤ m) : ∃ z∈freeClusters g W, z ≤ m := by
  have hsame : ∃ z∈freeClusters g V, z ≤ m := ⟨x,hfree ▸ List.mem_cons_self,hx⟩
  cases ho with
  | existing i hi hname => exact hsame
  | vacant i hi habs => exact hsame
  | grown last nc rest' hlast hfree' hfull habs =>
    have hrest : rest=rest' := (List.cons.inj (hfree.symm.trans hfree')).2
    refine ⟨y,?_,hym⟩
    rw [freeClusters_extend hs hlast hfree',← hrest]
    exact hy
  | noSpace hfree' hfull habs => exact hsame

end Search

theorem mem_free_clear (hc : c∈freeClusters g V) (xs : List Nat) : c∈freeClusters g (V.clear xs) := by
  obtain ⟨hin,h0⟩ := mem_freeClusters.mp hc
  refine mem_freeClusters.mpr ⟨hin,?_⟩
  rw [clear_fat]
  split
  · rfl
  · exact h0

/-- What a call with the name `key` leaves: a sound volume, as before above `m`, the other names untouched. -/
def StillSound (g : Geo) (m : Nat) (V : View) (rc : List Nat) (ch : Nat → List Nat) (key : List UInt8)
    (W : View) : Prop :=
  Above m V W ∧ ∃ rc' ch', Sound g W rc' ch' ∧
    ∀ key', key'≠key → filesOf g W rc' ch' key'=filesOf g V rc ch key'

/-- The same of a volume that may be full: only with room below `m` does everything above stay. -/
def LeftSound (g : Geo) (m : Nat) (V : View) (rc : List Nat) (ch : Nat → List Nat) (key : List UInt8)
    (W : View) : Prop :=
  (Low g m V → Spare g m V → Above m V W) ∧ ∃ rc' ch', Sound g W rc' ch' ∧
    ∀ key', key'≠key → filesOf g W rc' ch' key'=filesOf g V rc ch key'

theorem LeftSound.stillSound (h : LeftSound g m V rc ch key W) (hlow : Low g m V) (hspare : Spare g m V) :
    StillSound g m V rc ch key W := ⟨h.1 hlow hspare,h.2⟩

/-- After a call that fails all names stand for what they stood for. -/
structure LeftBy (g : Geo) (m : Nat) (V : View) (rc : List Nat) (ch : Nat → List Nat) (key : List UInt8)
    (r : FatResult) (W : View) : Prop where
  left : LeftSound g m V rc ch key W
  failed : r ≠ .ok → ∃ rc', Sound g W rc' ch ∧ ∀ key', filesOf g W rc' ch key'=filesOf g V rc ch key'

theorem LeftBy.same {r : FatResult} (habove : Low g m V → Spare g m V → Above m V W) (hs : Sound g W rc' ch)
    (hm : ∀ key', filesOf g W rc' ch key'=filesOf g V rc ch key') : LeftBy g m V rc ch key r W :=
  ⟨⟨habove,rc',ch,hs,fun key' _ => hm key'⟩,fun _ => ⟨rc',hs,hm⟩⟩

theorem leftBy_refl {r : FatResult} (hs : Sound g V rc ch) : LeftBy g m V rc ch key r V :=
  .same (fun _ _ => Above.refl m V) hs fun _ => rfl

theorem LeftSound.leftBy (h : LeftSound g m V rc ch key W) : LeftBy g m V rc ch key .ok W :=
  ⟨h,fun h => absurd rfl h⟩

theorem filesOf_clear (rc : List Nat) (ch : Nat → List Nat) (xs : List Nat) (key : List UInt8) :
    filesOf g (V.clear xs) rc ch key=filesOf g V rc ch key := rfl

theorem Took.given_back (hs : Sound g V rc ch) (ha : Area g) (hk : Took g V W d) : Sound g (W.clear [d]) rc ch := by
  have hs' := hk.sound ha hs
  refine SoundDir.congr hs' (fun _ _ => rfl) ?_ ?_
  · intro c hc
    rw [clear_fat,if_neg]
    exact fun hmem => hk.not_root hs (List.mem_singleton.mp hmem ▸ hc)
  · intro j hj c hc
    rw [clear_fat,if_neg]
    exact fun hmem => hk.not_chain hs ((hk.live_iff ha hs).mp hj) (List.mem_singleton.mp hmem ▸ hc)

section Calls
variable (hs : Sound g V rc ch)
include hs

theorem mkdirAt_leftBy {r : SlotResult} {rest : List Nat} (h : Sees s g W) (hk : Took g V U d)
    (hfree : freeClusters g V=d::rest) (ho : SlotOutcome g U rc key r W rc') (hkey : KeyShape key)
    (hfuel : g.totalClusters<fuel) :
    ∃ r' t W', mkdirAt fuel key d r s=(some r',t) ∧ Sees t g W' ∧ LeftBy g m V rc ch key r' W' := by
  have ha := h.area
  have hs' := hk.sound ha hs
  have habove : Low g m V → Spare g m V → d ≤ m ∧ Above m V W := by
    intro hlow hspare
    obtain ⟨x,y,rest',hfree',hx,hy⟩ := hspare.heads
    obtain ⟨rfl,rfl⟩ := List.cons.inj (hfree.symm.trans hfree')
    have hU := hk.above hx
    exact ⟨hx,hU.trans (ho.above hs' (hlow.above hU) (freeClusters_took hk hfree) hy)⟩
  rcases mkdirAt_outcome hs hk h ho hfuel with ⟨r',t,hrun,_,rfl,hsees⟩ | ⟨slot,i,t,hput,hw,ht,hsees⟩
  · refine ⟨r',t,_,hrun,hsees,.same (fun hlow hspare => ?_) (hk.given_back hs ha) fun key' => ?_⟩
    · obtain ⟨hd,hV⟩ := habove hlow hspare
      exact hV.trans (above_clear (by simpa using hd))
    · rw [filesOf_clear,hk.files ha hs]
  · have hp := (hk.filled ha hs hw ht).putStep ha ht hkey (by omega : 0<4294967296) ATTR_DIRECTORY
    rw [List.headD_cons] at hp
    refine ⟨.ok,t,_,hput,hsees,LeftSound.leftBy ⟨fun hlow hspare => ?_,rc',_,hp.sound ht,?_⟩⟩
    · have hW := (habove hlow hspare).2
      exact hW.trans (above_setSlot ((hlow.above hW).slot_le ha ht))
    · intro key' hne
      rw [hp.files_of_ne ht hne,hw.files ha hs',hk.files ha hs]

/-- A text takes one cluster at most. If there is none, none was freed, and only the directory may have grown. -/
theorem WriteOutcome.leftBy {r : FatResult} (ha : Area g) (hkey : KeyShape key)
    (hcb : WRITE_MAX_BYTES≤g.clusterBytes) (hlen : text.length≤WRITE_MAX_BYTES)
    (ho : WriteOutcome g V rc ch key text r U) : LeftBy g m V rc ch key r U := by
  have hone : clustersFor g.clusterBytes text.length≤1 :=
    (clustersFor_le (clusterBytes_pos ha)).mpr (by omega)
  cases ho with
  | isDir i hi hname hdir => exact leftBy_refl hs
  | noSlot hfree hfull habs => exact leftBy_refl hs
  | noSpace W _ rc' slot existing i ho ht hdir hl hroom =>
    have hnone : freeClusters g (W.clear (oldChain ch i existing))=[] := List.length_eq_zero_iff.mp (by omega)
    have hold : oldChain ch i existing=[] := by
      refine List.eq_nil_iff_forall_not_mem.mpr fun c hc => ?_
      have hmem : c∈freeClusters g (W.clear (oldChain ch i existing)) :=
        mem_freeClusters.mpr ⟨ht.old_inVolume c hc,by rw [clear_fat,if_pos hc]⟩
      simp [hnone] at hmem
    rw [hnone,hold] at hl
    obtain rfl : U=W := hl.none_taken.trans (by simp [View.clear])
    refine .same (fun hlow hspare => ?_) ht.sound fun _ => (ho.target ha hs).1.files ha hs
    obtain ⟨x,y,rest,hfree,hx,hy⟩ := hspare.heads
    exact ho.above hs hlow hfree hx
  | ok W U rc' slot existing i ho ht hdir hl hroom =>
    refine LeftSound.leftBy ⟨fun hlow hspare => ?_,
      (WriteOutcome.ok W U rc' slot existing i ho ht hdir hl hroom).others ha hs hkey hlen⟩
    obtain ⟨x,y,rest,hfree,hx,hy⟩ := hspare.heads
    have hW := ho.above hs hlow hfree hx
    have hlowW := hlow.above hW
    obtain ⟨z,hz,hzm⟩ := ho.free_le hs hfree hx List.mem_cons_self hy
    -- the one cluster of the text is the lowest free one
    have hcs : ∀ c∈newChain g (W.clear (oldChain ch i existing)) text.length, c ≤ m := by
      intro c hc
      have hmem := mem_free_clear hz (oldChain ch i existing)
      cases hf : freeClusters g (W.clear (oldChain ch i existing)) with
      | nil => simp [hf] at hmem
      | cons c' rest' =>
        have hle := free_head_le hf hmem
        have hc' : c∈(c'::rest').take 1 := by
          rw [newChain,hf] at hc
          exact List.take_subset_take_left _ hone hc
        simp only [List.take_succ_cons,List.take_zero,List.mem_singleton] at hc'
        omega
    exact ((hW.trans (above_clear (hlowW.old_le ht))).trans (hl.above hcs)).trans
      (above_setSlot (hlowW.slot_le ha ht))

theorem fat32Mkdir_leftBy (h : Sees s g V) (hfuel : g.totalClusters<fuel) (hne : name≠[])
    (hkey : KeyShape (nameTo83 name)) :
    ∃ r t W, fat32Mkdir fuel name s=(some r,t) ∧ Sees t g W ∧
      LeftBy g m V rc ch (nameTo83 name) r W := by
  rcases fat32Mkdir_cases h hs hfuel hne with ⟨r,t,hrun,_,hsees⟩ | ⟨d,rest,r,t,U,W,rc',hfree,hk,hsees,ho,hrun⟩
  · exact ⟨r,t,V,hrun,hsees,leftBy_refl hs⟩
  · rw [hrun]
    exact mkdirAt_leftBy hs hsees hk hfree ho hkey hfuel

theorem fat32Unlink_leftBy (h : Sees s g V) (hfuel : g.totalClusters<fuel) (hne : name≠[]) :
    ∃ r t W, fat32Unlink fuel name s=(some r,t) ∧ Sees t g W ∧
      LeftBy g m V rc ch (nameTo83 name) r W := by
  rcases fat32Unlink_outcome h hs hfuel hne with ⟨r,t,e,W,rc',hrun,_,hsees,ho,hs',hm⟩ | ⟨t,slot,de,i,hrun,ht,hsees⟩
  · refine ⟨r,t,W,hrun,hsees,.same (fun hlow hspare => ?_) hs' hm⟩
    obtain ⟨x,y,rest,hfree,hx,hy⟩ := hspare.heads
    exact ho.above hs hlow hfree hx
  · have hd := removed h.area ht
    refine ⟨.ok,t,_,hrun,hsees,LeftSound.leftBy ⟨fun hlow _ => ?_,rc,ch,hd.sound,hd.others⟩⟩
    have hold : ∀ c∈ch i, c ≤ m := hlow.old_le ht
    exact (above_setSlot (hlow.slot_le h.area ht)).trans (above_clear hold)

theorem call_leftBy (a : Call) (h : Sees s g V) (hcb : WRITE_MAX_BYTES≤g.clusterBytes)
    (h0 : 0∉a.name) (hfuel : g.totalClusters<fuel) :
    ∃ r t W, call a fuel s=(some r,t) ∧ Sees t g W ∧
      LeftBy g m V rc ch (nameTo83 a.name) r W := by
  cases a with
  | write name text =>
    by_cases hbad : name=[] ∨ WRITE_MAX_BYTES<text.length
    · obtain ⟨r,hr,_⟩ := fat32Write_refused fuel h hbad
      exact ⟨r,s,V,hr,h,leftBy_refl hs⟩
    · rw [not_or,Nat.not_lt] at hbad
      obtain ⟨r,t,U,hrun,hsees,ho⟩ := fat32Write_outcome h hs hfuel hbad.1 hbad.2
      exact ⟨r,t,U,hrun,hsees,ho.leftBy hs h.area (keyShape_nameTo83 hbad.1 h0) hcb hbad.2⟩
  | mkdir name =>
    by_cases hne : name=[]
    · refine ⟨.notFound,s,V,?_,h,leftBy_refl hs⟩
      rw [call,fat32Mkdir,state_bind,h.mounted]
      simp [hne]
    · exact fat32Mkdir_leftBy hs h hfuel hne (keyShape_nameTo83 hne h0)
  | unlink name =>
    by_cases hne : name=[]
    · refine ⟨.notFound,s,V,?_,h,leftBy_refl hs⟩
      rw [call,fat32Unlink,state_bind,h.mounted]
      simp [hne]
    · exact fat32Unlink_leftBy hs h hfuel hne

theorem call_leftSound (a : Call) (h : Sees s g V) (hcb : WRITE_MAX_BYTES≤g.clusterBytes)
    (h0 : 0∉a.name) (hfuel : g.totalClusters<fuel) :
    ∃ r t W, call a fuel s=(some r,t) ∧ Sees t g W ∧
      LeftSound g m V rc ch (nameTo83 a.name) W := by
  obtain ⟨r,t,W,hrun,hsees,hleft⟩ := call_leftBy hs a h hcb h0 hfuel
  exact ⟨r,t,W,hrun,hsees,hleft.left⟩

theorem call_stillSound (hlow : Low g m V) (hspare : Spare g m V) (a : Call) (h : Sees s g V)
    (hcb : WRITE_MAX_BYTES≤g.clusterBytes) (h0 : 0∉a.name) (hfuel : g.totalClusters<fuel) :
    ∃ r t W, call a fuel s=(some r,t) ∧ Sees t g W ∧
      StillSound g m V rc ch (nameTo83 a.name) W := by
  obtain ⟨r,t,W,hrun,hsees,hleft⟩ := call_leftSound (m := m) hs a h hcb h0 hfuel
  exact ⟨r,t,W,hrun,hsees,hleft.stillSound hlow hspare⟩

end Calls

def Geo.lineSector (g : Geo) (m : Nat) : Nat := g.partitionLba+g.dataStart+(m-1)*g.sectorsPerCluster

def Geo.endSector (g : Geo) : Nat := g.dataStart+g.totalClusters*g.sectorsPerCluster

theorem dataOf_sector (ha : Area g) {sec o : Nat} (hlo : g.partitionLba+g.dataStart ≤ sec)
    (hhi : sec<g.partitionLba+g.endSector) (ho : o<512) :
    ∃ c i, c=(sec-(g.partitionLba+g.dataStart))/g.sectorsPerCluster+2 ∧ InVolume g c ∧
      i<g.clusterBytes ∧ ∀ disk, dataOf g disk c i=disk sec o := by
  have hspc : 0<g.sectorsPerCluster := ha.spc
  obtain ⟨k,rfl⟩ : ∃ k, sec=g.partitionLba+g.dataStart+k := ⟨_,(Nat.add_sub_cancel' hlo).symm⟩
  have hk : k<g.totalClusters*g.sectorsPerCluster := by
    unfold Geo.endSector at hhi
    omega
  rw [Nat.add_sub_cancel_left]
  have hc : InVolume g (k/g.sectorsPerCluster+2) := by
    have hlt := (Nat.div_lt_iff_lt_mul hspc).mpr hk
    exact ⟨Nat.le_add_left 2 _,Nat.succ_le_succ hlt⟩
  have hmod := Nat.mod_lt k hspc
  refine ⟨_,512*(k%g.sectorsPerCluster)+o,rfl,hc,?_,?_⟩
  · unfold Geo.clusterBytes SECTOR_SIZE
    omega
  · intro disk
    have hsec : (k/g.sectorsPerCluster+2-2)*g.sectorsPerCluster+(512*(k%g.sectorsPerCluster)+o)/512=k := by
      have hdiv := Nat.div_add_mod k g.sectorsPerCluster
      rw [Nat.mul_comm] at hdiv
      rw [Nat.add_sub_cancel]
      omega
    have hoff : (512*(k%g.sectorsPerCluster)+o)%512=o := by omega
    rw [dataOf_eq ha hc,Nat.add_assoc,hsec,hoff]

theorem Above.disk_eq {t : Fat} (hW : Above m V W) (h : Sees s g V) (h' : Sees t g W) (hm : 1 ≤ m)
    {sec o : Nat} (hlo : g.lineSector m ≤ sec) (hhi : sec<g.partitionLba+g.endSector) (ho : o<512) :
    t.ata.disk sec o=s.ata.disk sec o := by
  unfold Geo.lineSector at hlo
  obtain ⟨c,i,hc,hin,hi,hdata⟩ := dataOf_sector h.area (by omega) hhi ho
  have hline : m-1≤(sec-(g.partitionLba+g.dataStart))/g.sectorsPerCluster :=
    (Nat.le_div_iff_mul_le h.area.spc).mpr (by omega)
  rw [← hdata t.ata.disk,← hdata s.ata.disk,h'.data c hin i hi,h.data c hin i hi,hW.data c (by omega)]

/-- Sectors above the line are stored past the driver: it sees other bytes there, and nothing else. -/
theorem Sees.overlay {t : Fat} (h : Sees s g V) (hm : 1 ≤ m) (hgeo : t.geo=s.geo)
    (hmount : t.mounted=s.mounted) (hideal : Ideal t.ata)
    (hdisk : ∀ sec, sec<g.lineSector m → t.ata.disk sec=s.ata.disk sec) :
    ∃ W, Sees t g W ∧ W.fat=V.fat ∧ ∀ c, c ≤ m → W.data c=V.data c := by
  have ha := h.area
  refine ⟨⟨V.fat,fun c => if c ≤ m then V.data c else dataOf g t.ata.disk c⟩,
    ⟨hgeo.trans h.geo,hideal,hmount.trans h.mounted,ha,?_,?_⟩,rfl,fun c hc => if_pos hc⟩
  · intro c hc
    have hfat := ha.fat_le ha.copies
    have htab := ha.table
    rw [← h.fat c hc,fatOf_eq ha hc,fatOf_eq ha hc,hdisk]
    unfold Geo.lineSector
    omega
  · intro c hc i hi
    dsimp only
    split
    next hle =>
      have hmul : (c-2+1)*g.sectorsPerCluster≤(m-1)*g.sectorsPerCluster :=
        Nat.mul_le_mul_right _ (by have := hc.1; omega)
      rw [Nat.succ_mul] at hmul
      rw [← h.data c hc i hi,dataOf_eq ha hc,dataOf_eq ha hc,hdisk]
      unfold Geo.clusterBytes SECTOR_SIZE at hi
      unfold Geo.lineSector
      omega
    next => rfl

theorem Low.overlay (h : Low g m V) (hs : Sound g V rc ch) (ha : Area g) (hfat : W.fat=V.fat)
    (hdata : ∀ c, c ≤ m → W.data c=V.data c) :
    Low g m W ∧ Sound g W rc ch ∧ ∀ key, filesOf g V rc ch key=none → filesOf g W rc ch key=none := by
  have hdir : ∀ k, k<dirSize g rc → dirAt g W rc k=dirAt g V rc k := by
    intro k hk
    rw [dirAt,dirAt,hdata _ (h.root hs (slotAt_mem (entriesPerCluster_pos ha) hk))]
  refine ⟨?_,?_,?_⟩
  · intro c hc huse
    rw [hfat] at huse
    exact h c hc huse
  · exact SoundDir.congr hs hdir (fun c _ => congrFun hfat c) (fun _ _ c _ => congrFun hfat c)
  · intro key hnone
    apply filesOf_eq_none
    intro i hi hname
    have hi' := (live_congr hdir).mp hi
    rw [hdir i hi.1] at hname
    rw [filesOf_eq hs hi' hname] at hnone
    cases hnone

end MyKernel.Fat32
