import MyKernel.Fat32.Operations

/-! Making a directory and removing an entry. -/
namespace MyKernel.Fat32
open MyKernel.Computation Chains Disk

variable {g : Geo} {V W : View} {s : Fat} {i j c d fuel : Nat} {rc rc' cs X : List Nat}
variable {ch ch' : Nat → List Nat} {key name : List UInt8} {slot : Slot}
variable {existing : Option Dirent}

structure Took (g : Geo) (V W : View) (d : Nat) : Prop where
  inVolume : InVolume g d
  free : V.fat d=0
  mark : EOC≤W.fat d
  fat : ∀ c, c≠d → W.fat c=V.fat c
  data : ∀ c, c≠d → W.data c=V.data c

section Took
variable (ha : Area g) (hs : Sound g V rc ch) (hk : Took g V W d)

include hs hk in
theorem Took.not_root : d∉rc :=
  fun hmem => ChainFrom.fat_ne_zero hs.root_path hs.root_in hmem hk.free

include hs hk in
theorem Took.not_chain (hj : Live (dirSize g rc) (dirAt g V rc) j) : d∉ch j :=
  fun hmem => ChainFrom.fat_ne_zero (hs.path hj) (hs.inVolume hj) hmem hk.free

include ha hs hk

theorem Took.dirAt_eq (hj : j<dirSize g rc) : dirAt g W rc j=dirAt g V rc j := by
  have hmem := slotAt_mem (entriesPerCluster_pos ha) hj
  have hne : (slotAt g rc j).cluster≠d := fun he => hk.not_root hs (he ▸ hmem)
  rw [dirAt,hk.data _ hne,dirAt]

theorem Took.sound : Sound g W rc ch := by
  refine SoundDir.congr hs (fun k hkN => hk.dirAt_eq ha hs hkN) ?_ ?_
  · exact fun c hc => hk.fat c (fun he => hk.not_root hs (he ▸ hc))
  · exact fun j hj c hc => hk.fat c (fun he => hk.not_chain hs hj (he ▸ hc))

theorem Took.live_iff : Live (dirSize g rc) (dirAt g W rc) j ↔ Live (dirSize g rc) (dirAt g V rc) j :=
  live_congr fun _ hkN => hk.dirAt_eq ha hs hkN

theorem Took.ownedBut (h : Owned g V rc ch) : OwnedBut [d] g W rc ch := by
  intro c hc huse
  have hcd : c≠d := by simpa using huse.2
  have hused : V.fat c≠0 := by
    rw [← hk.fat c hcd]
    exact huse.1
  obtain ⟨y,hy,hcy⟩ := h c hc hused
  cases y with
  | root => exact ⟨.root,trivial,hcy⟩
  | entry j => exact ⟨.entry j,(hk.live_iff ha hs).mpr hy,hcy⟩

theorem Took.sized (h : Sized g V rc ch) : Sized g W rc ch := by
  intro j hj hdir
  have hj' := (hk.live_iff ha hs).mp hj
  rw [hk.dirAt_eq ha hs hj.1] at hdir ⊢
  exact h j hj' hdir

theorem Took.files : filesOf g W rc ch key=filesOf g V rc ch key := by
  apply filesOf_congr (hk.sound ha hs)
  · intro j
    constructor
    · rintro ⟨hj,hname⟩
      exact ⟨(hk.live_iff ha hs).mpr hj,(hk.dirAt_eq ha hs hj.1).symm ▸ hname⟩
    · rintro ⟨hj,hname⟩
      exact ⟨(hk.live_iff ha hs).mp hj,hk.dirAt_eq ha hs hj.1 ▸ hname⟩
  · intro j hj _
    apply nodeOf_congr (hk.dirAt_eq ha hs hj.1)
    apply chainBytes_congr
    intro c hc k _
    rw [hk.data c (fun he => hk.not_chain hs hj (he ▸ hc))]

end Took

theorem SearchedTo.fat_eq (hw : SearchedTo g V rc ch W rc') (hc : V.fat c≠0) (hrc : c∉rc) :
    W.fat c=V.fat c ∧ c∉rc' := by
  cases hw with
  | same => exact ⟨rfl,hrc⟩
  | grown last nc rest hlast hfree hfull =>
    have hcn : c≠nc := fun he => hc (he ▸ (free_head hfree).2)
    have hcl : c≠last := fun he => hrc (he ▸ List.mem_of_getLast? hlast)
    constructor
    · simp [View.extend,hcn,hcl]
    · simp [hrc,hcn]

theorem Took.filled {U : View} (ha : Area g) (hs : Sound g V rc ch) (hk : Took g V U d)
    (hw : SearchedTo g U rc ch W rc') (ht : Target g W rc' ch key slot none i) :
    Filled g W W rc' ch i (oldChain ch i none) [d] := by
  have hused : U.fat d≠0 := by
    have hmark := hk.mark
    unfold EOC at hmark
    omega
  obtain ⟨hfat,hrc'⟩ := hw.fat_eq hused (hk.not_root hs)
  refine ⟨fun _ _ _ => rfl,fun _ _ => rfl,?_,?_,?_⟩
  · intro c hc
    rw [List.mem_singleton.mp hc]
    exact hk.inVolume
  · intro c hc
    rw [List.mem_singleton.mp hc]
    refine ⟨hrc',?_⟩
    intro j _ hj
    have hj' : Live (dirSize g rc) (dirAt g U rc) j := by
      cases hw with
      | same => exact hj
      | grown last nc rest hlast hfree hfull =>
        exact (extend_grownTo ha (hk.sound ha hs) hfree hfull).live_iff.mp hj
    exact hk.not_chain hs ((hk.live_iff ha hs).mp hj')
  · refine ⟨rfl,nextOf_eq_none.mpr ?_⟩
    rw [hfat]
    exact hk.mark

theorem made {U : View} (ha : Area g) (hs : Sound g V rc ch) (hk : Took g V U d)
    (hw : SearchedTo g U rc ch W rc') (ht : Target g W rc' ch key slot none i) (hkey : KeyOk key) :
    Done g V rc ch (W.setSlot slot (direntBytes key ATTR_DIRECTORY d 0)) rc' (Function.update ch i [d])
      key (some .dir) := by
  have hs' := hk.sound ha hs
  have hf := hk.filled ha hs hw ht
  have hp := hf.putStep ha ht hkey.shape (by omega : 0<4294967296) ATTR_DIRECTORY
  have hentry := hf.entry ha hkey.shape (by omega : 0<4294967296) ATTR_DIRECTORY
  have hlisted := listed_entryFor d 0 hkey attrOk_directory
  rw [← ht.slot_eq] at hentry
  rw [List.headD_cons] at hp hentry
  refine ⟨hp.sound ht,?_,?_,?_,?_⟩
  · intro howned
    refine hp.owned ht (hw.ownedBut ha hs' (hk.ownedBut ha hs howned)) ?_
    intro c _ huse
    by_cases hcd : c=d
    · left
      rw [hentry,Function.update_self,hcd]
      exact ⟨hlisted,List.mem_singleton_self d⟩
    · right
      refine ⟨⟨huse,by simpa using hcd⟩,?_⟩
      intro hi
      cases ht.old with
      | inl hold => exact absurd hi hold.2
      | inr hold => simp at hold
  · intro hsized
    apply hp.sized ht (hw.sized ha hs' (hk.sized ha hs hsized))
    intro _ hdir
    rw [hentry,isDir_directory] at hdir
    simp at hdir
  · rw [hp.files_self ht (hentry ▸ hlisted),hentry,nodeOf_dir isDir_directory]
  · intro key' hne
    rw [hp.files_of_ne ht hne,hw.files ha hs',hk.files ha hs]

/-- The cluster taken is given back, or the entry is put into the slot that was found. -/
theorem mkdirAt_outcome {U : View} {r : SlotResult} (hs : Sound g V rc ch) (hk : Took g V U d) (h : Sees s g W)
    (ho : SlotOutcome g U rc key r W rc') (hfuel : g.totalClusters<fuel) :
    (∃ r' t, mkdirAt fuel key d r s=(some r',t) ∧ r' ≠ .ok ∧ W=U ∧ Sees t g (U.clear [d])) ∨
      ∃ slot i t, mkdirAt fuel key d r s=(some .ok,t) ∧ SearchedTo g U rc ch W rc' ∧
        Target g W rc' ch key slot none i ∧ Sees t g (W.setSlot slot (direntBytes key ATTR_DIRECTORY d 0)) := by
  have hback : W=U → ∃ t, fatFreeChain fuel d s=(some true,t) ∧ Sees t g (U.clear [d]) := by
    rintro rfl
    have hd := hk.inVolume
    have hl : Linked W.fat d [d] := ⟨rfl,fun hlt => absurd hk.mark (by omega)⟩
    exact fatFreeChain_sees h hl (by simpa using hd) (by simp)
      (by have := hd.1; have := hd.2; simp; omega : [d].length<fuel)
  cases r with
  | io => cases ho
  | noSpace =>
    cases ho with
    | noSpace hfree hfull habs =>
      obtain ⟨t,hrun,hsees⟩ := hback rfl
      exact .inl ⟨.noSpace,t,by rw [mkdirAt,bind_some hrun,pure_eq],nofun,rfl,hsees⟩
  | found slot existing =>
    cases existing with
    | some de =>
      cases ho with
      | existing i hi hname =>
        obtain ⟨t,hrun,hsees⟩ := hback rfl
        exact .inl ⟨.exists,t,by rw [mkdirAt,bind_some hrun,pure_eq],nofun,rfl,hsees⟩
    | none =>
      obtain ⟨hw,i,ht⟩ := ho.target h.area (hk.sound h.area hs)
      have hc : InVolume g slot.cluster := by
        rw [ht.slot_eq]
        exact ht.sound.root_in _ (slotAt_mem (entriesPerCluster_pos h.area) ht.bound)
      obtain ⟨t,hput,hsees⟩ := putEntry_sees (direntBytes key ATTR_DIRECTORY d 0) h hc
      exact .inr ⟨slot,i,t,hput,hw,ht,hsees⟩

theorem takeCluster_sees {rest : List Nat} (h : Sees s g V) (hfree : freeClusters g V=d::rest) :
    ∃ t u w U, fatAllocCluster s=(some d,t) ∧ setClusterBuf (emptyDir g d) t=(some (),u) ∧
      writeCluster d u=(some true,w) ∧ Sees w g U ∧ Took g V U d := by
  obtain ⟨hd,hd0⟩ := free_head hfree
  obtain ⟨t,halloc,hsees,_⟩ := fatAllocCluster_some h hfree
  obtain ⟨u,hset,hsees',_⟩ := setClusterBuf_sees hsees (emptyDir g d)
  obtain ⟨w,hwrite,hsees''⟩ := writeCluster_sees hsees' hd fun _ _ => rfl
  refine ⟨t,u,w,_,halloc,hset,hwrite,hsees'',hd,hd0,?_,?_,?_⟩
  · simp [LAST,EOC]
  · exact fun c hc => by simp [hc]
  · exact fun c hc => by simp [setData_data,hc]

/-- The name is taken or no cluster is free, or a cluster has been taken and filled, and a slot looked for. -/
theorem fat32Mkdir_cases (h : Sees s g V) (hs : Sound g V rc ch) (hfuel : g.totalClusters<fuel) (hne : name≠[]) :
    (∃ r t, fat32Mkdir fuel name s=(some r,t) ∧ r ≠ .ok ∧ Sees t g V) ∨
      ∃ d rest r t U W rc', freeClusters g V=d::rest ∧ Took g V U d ∧ Sees t g W ∧
        SlotOutcome g U rc (nameTo83 name) r W rc' ∧ fat32Mkdir fuel name s=mkdirAt fuel (nameTo83 name) d r t := by
  have hlen := length_le_of_inVolume hs.root_path.nodup hs.root_in
  obtain ⟨t,hiter,hsees⟩ := iterateDir_sees (findCb name) h hs.root_linked hs.root_in
    (by omega : rc.length<fuel)
  have herr := (scanEntries (dirAt g V rc) (findCb name) (dirSize g rc) 0).toIter_ne_error
  generalize (scanEntries (dirAt g V rc) (findCb name) (dirSize g rc) 0).toIter=r at hiter herr
  rw [← h.geo] at hiter
  rw [fat32Mkdir,state_bind,h.mounted]
  simp only [Bool.not_true,Bool.false_eq_true,if_false,hne]
  rw [bind_some hiter]
  cases r with
  | error => exact absurd rfl herr
  | hit de => exact .inl ⟨.exists,t,rfl,nofun,hsees⟩
  | done =>
    simp only [mkdirNew,state_bind]
    cases hfree : freeClusters g V with
    | nil =>
      obtain ⟨u,halloc,hsees,_⟩ := fatAllocCluster_none hsees hfree
      refine .inl ⟨.noSpace,u,?_,nofun,hsees⟩
      rw [bind_some halloc,if_pos rfl,pure_eq]
    | cons d rest =>
      obtain ⟨u,v,w,U,halloc,hset,hwrite,hsees',hk⟩ := takeCluster_sees hsees hfree
      obtain ⟨r,x,W,rc',hfind,hsees'',ho⟩ := (hk.sound h.area hs).findSlot hsees' hfuel (nameTo83 name)
      have hd := hk.inVolume.1
      refine .inr ⟨d,rest,r,x,U,W,rc',rfl,hk,hsees'',ho,?_⟩
      rw [bind_some halloc,if_neg (by omega),hsees.geo,bind_some hset,bind_some hwrite,if_pos rfl,
        bind_some hfind]

theorem fat32Mkdir_sees (h : Sees s g V) (hs : Sound g V rc ch) (hfuel : g.totalClusters<fuel)
    (hne : name≠[]) (hkey : KeyOk (nameTo83 name)) :
    ∃ r t W, fat32Mkdir fuel name s=(some r,t) ∧ Sees t g W ∧
      (r = .ok → ∃ rc' ch', Done g V rc ch W rc' ch' (nameTo83 name) (some .dir)) := by
  rcases fat32Mkdir_cases h hs hfuel hne with ⟨r,t,hrun,hr,hsees⟩ | ⟨d,rest,r,t,U,W,rc',_,hk,hsees,ho,hrun⟩
  · exact ⟨r,t,V,hrun,hsees,fun hok => absurd hok hr⟩
  · rw [hrun]
    rcases mkdirAt_outcome hs hk hsees ho hfuel with ⟨r',u,hput,hr,_,hu⟩ | ⟨slot,i,u,hput,hw,ht,hu⟩
    · exact ⟨r',u,_,hput,hu,fun hok => absurd hok hr⟩
    · exact ⟨.ok,u,_,hput,hu,fun _ => ⟨rc',_,made h.area hs hk hw ht hkey⟩⟩

theorem removed {de : Dirent} (ha : Area g) (ht : Target g V rc ch key slot (some de) i) :
    Done g V rc ch ((V.setSlot slot [0xE5]).clear (ch i)) rc ch key none := by
  have hpos := entriesPerCluster_pos ha
  have hroot := slotAt_mem hpos ht.bound
  have hi : Live (dirSize g rc) (dirAt g V rc) i := by
    cases ht.old with
    | inl hold => simp at hold
    | inr hold => exact hold.2.1
  have hdir : ∀ k, dirAt g ((V.setSlot slot [0xE5]).clear (ch i)) rc k =
      dirAt g (V.setSlot (slotAt g rc i) [0xE5]) rc k := by
    intro k
    rw [ht.slot_eq]
    rfl
  have hmark : (dirAt g ((V.setSlot slot [0xE5]).clear (ch i)) rc i).mark=0xE5 := by
    rw [hdir,dirAt_setSlot_self,mark_direntAt]
    simp [patch]
  have hnot : (dirAt g ((V.setSlot slot [0xE5]).clear (ch i)) rc i).listed≠true :=
    fun hl => listed_mark hl hmark
  have hp : PutStep g V ((V.setSlot slot [0xE5]).clear (ch i)) rc ch ch key i := by
    refine ⟨⟨ht.bound,ht.before,?_,?_⟩,⟨?_,?_⟩,?_,fun _ _ => rfl,fun hl => absurd hl hnot⟩
    · intro k hk hki
      rw [hdir,dirAt_setSlot hpos ht.sound.root_path.nodup ht.bound hk (by simp) hki]
    · rw [hmark]
      decide
    · intro c hc
      rw [clear_fat,if_neg fun hci => ht.sound.root_apart hi hci hc]
      rfl
    · intro j hji hj c hc
      rw [clear_fat,if_neg (ht.sound.apart hj hi hji hc)]
      rfl
    · intro j hji hj c hc
      have hne : c≠slot.cluster := by
        rw [ht.slot_eq]
        exact fun he => ht.sound.root_apart hj hc (he ▸ hroot)
      rw [clear_data,View.setSlot,setData_data,if_neg hne]
  refine ⟨hp.sound ht,?_,?_,hp.files_deleted ht hnot,fun key' hne => hp.files_of_ne ht hne⟩
  · intro howned
    refine hp.owned ht (ownedBut_nil.mpr howned) ?_
    intro c _ huse
    right
    rw [clear_fat] at huse
    by_cases hci : c∈ch i
    · simp [hci] at huse
    · rw [if_neg hci] at huse
      exact ⟨⟨huse,List.not_mem_nil⟩,fun _ => hci⟩
  · intro hsized
    exact hp.sized ht hsized fun hl => absurd hl hnot

theorem unlinkCheck_sees {de : Dirent} (h : Sees s g V) (hde : 2≤de.first → InVolume g de.first) :
    ∃ r t, unlinkCheck de s=(some r,t) ∧ Sees t g V := by
  rw [unlinkCheck]
  by_cases hcond : de.isDir=true ∧ 2≤de.first
  · obtain ⟨t,hread,hsees,_⟩ := readCluster_sees h (hde hcond.2)
    rw [if_pos hcond,bind_some hread,if_pos rfl,state_bind]
    by_cases hempty : dirIsEmpty (fun k => direntAt t.clusterBuf (32*k)) (entriesPerCluster t.geo) 0=true
    · exact ⟨.ok,t,by rw [if_pos hempty,pure_eq],hsees⟩
    · exact ⟨.notEmpty,t,by rw [if_neg hempty,pure_eq],hsees⟩
  · exact ⟨.ok,s,by rw [if_neg hcond,pure_eq],h⟩

theorem unlinkAt_sees {de : Dirent} (h : Sees s g V) (ht : Target g V rc ch key slot (some de) i)
    (hfuel : g.totalClusters<fuel) :
    ∃ r t W, unlinkAt fuel slot de s=(some r,t) ∧ Sees t g W ∧
      (r ≠ .ok ∧ W=V ∨ r = .ok ∧ W=(V.setSlot slot [0xE5]).clear (ch i)) := by
  obtain ⟨hde,hi⟩ : de=dirAt g V rc i ∧ Live (dirSize g rc) (dirAt g V rc) i := by
    cases ht.old with
    | inl hold => simp at hold
    | inr hold => exact ⟨by simpa using hold.1,hold.2.1⟩
  have hpath := ht.sound.path hi
  rw [← hde] at hpath
  have hfirst : 2≤de.first → InVolume g de.first := by
    intro h2
    cases hci : ch i with
    | nil =>
      rw [hci,ChainFrom,startOf,if_neg (by omega)] at hpath
      simp at hpath
    | cons x xs =>
      have hl := linked_of_start hpath
      rw [hci] at hl
      rw [hl.1]
      exact ht.sound.inVolume hi x (by simp [hci])
  obtain ⟨r,t,hcheck,hsees⟩ := unlinkCheck_sees h hfirst
  rw [unlinkAt,bind_some hcheck]
  by_cases hr : r = .ok
  · have hc : InVolume g slot.cluster := by
      rw [ht.slot_eq]
      exact ht.sound.root_in _ (slotAt_mem (entriesPerCluster_pos h.area) ht.bound)
    obtain ⟨u,hput,hsees'⟩ := putEntry_sees [0xE5] hsees hc
    obtain ⟨w,hfree,hsees''⟩ := freeOld_chain (V := V.setSlot slot [0xE5]) hsees' hpath
      (ht.sound.inVolume hi) hfuel
    refine ⟨.ok,w,_,?_,hsees'',.inr ⟨rfl,rfl⟩⟩
    rw [if_neg (by simp [hr]),bind_some hput,if_neg (by simp),bind_some hfree,pure_eq]
  · exact ⟨r,t,V,by rw [if_pos hr,pure_eq],hsees,.inl ⟨hr,rfl⟩⟩

/-- The name is not there or not to be removed, and at most the directory has grown; or the entry is removed. -/
theorem fat32Unlink_outcome (h : Sees s g V) (hs : Sound g V rc ch) (hfuel : g.totalClusters<fuel) (hne : name≠[]) :
    (∃ r t e W rc', fat32Unlink fuel name s=(some r,t) ∧ r ≠ .ok ∧ Sees t g W ∧
      SlotOutcome g V rc (nameTo83 name) e W rc' ∧ Sound g W rc' ch ∧
      ∀ key, filesOf g W rc' ch key=filesOf g V rc ch key) ∨
    ∃ t slot de i, fat32Unlink fuel name s=(some .ok,t) ∧ Target g V rc ch (nameTo83 name) slot (some de) i ∧
      Sees t g ((V.setSlot slot [0xE5]).clear (ch i)) := by
  obtain ⟨e,t,W,rc',hfind,hsees,ho⟩ := hs.findSlot h hfuel (nameTo83 name)
  rw [fat32Unlink,state_bind,h.mounted]
  simp only [Bool.not_true,Bool.false_eq_true,if_false,hne]
  rw [bind_some hfind]
  cases e with
  | io => cases ho
  | noSpace =>
    cases ho with
    | noSpace hfree hfull habs =>
      exact .inl ⟨.io,t,_,V,rc,rfl,nofun,hsees,.noSpace hfree hfull habs,hs,fun _ => rfl⟩
  | found slot existing =>
    obtain ⟨hw,i,ht⟩ := ho.target h.area hs
    cases existing with
    | none => exact .inl ⟨.notFound,t,_,W,rc',rfl,nofun,hsees,ho,ht.sound,fun _ => hw.files h.area hs⟩
    | some de =>
      obtain ⟨r,u,W',hrun,hsees',hview⟩ := unlinkAt_sees hsees ht hfuel
      rcases hview with ⟨hr,rfl⟩ | ⟨rfl,rfl⟩
      · exact .inl ⟨r,u,_,W',rc',hrun,hr,hsees',ho,ht.sound,fun _ => hw.files h.area hs⟩
      · cases ho with
        | existing i hi hname => exact .inr ⟨u,_,_,_,hrun,ht,hsees'⟩

theorem fat32Unlink_sees (h : Sees s g V) (hs : Sound g V rc ch) (hfuel : g.totalClusters<fuel) (hne : name≠[]) :
    ∃ r t W, fat32Unlink fuel name s=(some r,t) ∧ Sees t g W ∧
      (r = .ok → ∃ rc' ch', Done g V rc ch W rc' ch' (nameTo83 name) none) := by
  rcases fat32Unlink_outcome h hs hfuel hne with ⟨r,t,_,W,_,hrun,hr,hsees,_⟩ | ⟨t,slot,de,i,hrun,ht,hsees⟩
  · exact ⟨r,t,W,hrun,hsees,fun hok => absurd hok hr⟩
  · exact ⟨.ok,t,_,hrun,hsees,fun _ => ⟨rc,ch,removed h.area ht⟩⟩

end MyKernel.Fat32
