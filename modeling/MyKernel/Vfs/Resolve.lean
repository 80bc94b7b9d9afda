import MyKernel.Lib.Best
import MyKernel.Vfs.Mounts

/-! The mount a path belongs to. -/
namespace MyKernel.Vfs
open CString RamFs Best Traces

variable {v w : MountTable} {i j restMax : Nat} {p q path : List UInt8} {buf : Nat → UInt8}

/-- The path itself, a directory above it, or the root of an absolute path. -/
def Covers (p path : List UInt8) : Prop := p=path ∨ p++slash <+: path ∨ p=slash ∧ slash <+: path

instance (p path : List UInt8) : Decidable (Covers p path) := inferInstanceAs (Decidable (_ ∨ _ ∨ _))

/-- The first slot with the longest path that covers the given one. -/
structure Owner (v : MountTable) (path : List UInt8) (i : Nat) (p : List UInt8) : Prop where
  mounted : MountedAt v i p
  covers : Covers p path
  first : ∀ j q, MountedAt v j q → Covers q path → q.length<p.length ∨ q=p ∧ i≤j

theorem Covers.take_eq (h : Covers p path) : path.take p.length=p := by
  rcases h with rfl | h | ⟨rfl,h⟩
  · exact List.take_length
  · exact (List.prefix_iff_eq_take.mp ((List.prefix_append p slash).trans h)).symm
  · exact (List.prefix_iff_eq_take.mp h).symm

theorem all_bytes_iff (h : IsCString buf p) (path : List UInt8) :
    ((List.range p.length).all fun k => path.getD k 0 == buf k)=true ↔ p <+: path := by
  simp only [List.all_eq_true,List.mem_range,beq_iff_eq]
  rw [List.prefix_iff_getElem?]
  constructor
  · intro hall k hk
    have hbyte : path.getD k 0=p[k] := by
      rw [hall k hk,(isCString_iff.mp h).2 k (by omega),List.getD_eq_getElem _ _ hk]
    have hlt : k<path.length := by
      by_contra hge
      rw [List.getD_eq_default _ _ (by omega)] at hbyte
      exact h.1 (hbyte ▸ List.getElem_mem hk)
    rw [List.getElem?_eq_getElem hlt,← hbyte,List.getD_eq_getElem _ _ hlt]
  · intro hget k hk
    rw [List.getD_eq_getElem?_getD,hget k hk,Option.getD_some,(isCString_iff.mp h).2 k (by omega),
      List.getD_eq_getElem _ _ hk]

theorem eq_slash_iff (h : IsCString buf p) : p=slash ↔ p.length=1 ∧ buf 0=0x2F := by
  constructor
  · rintro rfl
    exact ⟨rfl,(isCString_iff.mp h).2 0 (by decide)⟩
  · rintro ⟨hlen,h0⟩
    obtain ⟨c,rfl⟩ := List.length_eq_one_iff.mp hlen
    rw [(isCString_iff.mp h).2 0 (Nat.zero_le _)] at h0
    rw [slash,← h0]
    rfl

theorem covers_iff (h : IsCString buf p) (hpath : 0∉path) : Covers p path ↔ p <+: path ∧
    ¬ (path.getD p.length 0≠0 ∧ path.getD p.length 0≠0x2F ∧ ¬ (p.length=1 ∧ buf 0=0x2F)) := by
  rw [← eq_slash_iff h]
  constructor
  · intro hcov
    refine ⟨List.prefix_iff_eq_take.mpr hcov.take_eq.symm,?_⟩
    rintro ⟨hend,hslash,hroot⟩
    rcases hcov with rfl | ⟨r,rfl⟩ | ⟨rfl,_⟩
    · exact hend (List.getD_eq_default _ _ (Nat.le_refl _))
    · rw [List.append_assoc,List.getD_append_right _ _ _ _ (Nat.le_refl _),Nat.sub_self] at hslash
      exact hslash rfl
    · exact hroot rfl
  · rintro ⟨⟨r,rfl⟩,htest⟩
    rw [List.getD_append_right _ _ _ _ (Nat.le_refl _),Nat.sub_self] at htest
    cases r with
    | nil => exact .inl (List.append_nil p).symm
    | cons c r =>
      have hc : c≠0 := by
        rintro rfl
        simp at hpath
      by_cases hslash : c=0x2F
      · exact .inr (.inl ⟨r,by rw [hslash,slash,List.append_assoc]; rfl⟩)
      · have hroot : p=slash := by
          by_contra hroot
          exact htest ⟨hc,hslash,hroot⟩
        exact .inr (.inr ⟨hroot,c::r,by rw [hroot]⟩)

def coverLen (path p : List UInt8) : Option Nat := if Covers p path then some p.length else none

def coverSize (v : MountTable) (path : List UInt8) (i : Nat) : Option Nat :=
  if (v.mounts i).used=true then coverLen path (readString VFS_MP_NAME_MAX (v.mounts i).path) else none

theorem resolveStep_eq (hv : Terminated v) (hpath : 0∉path) (hi : i<VFS_MAX_MOUNTS) (best : Option (Nat × Nat)) :
    resolveStep v path best i=keepBest (coverSize v path) best i := by
  by_cases hused : (v.mounts i).used=true
  · have hp := (hv.mountedAt hi hused).path
    have hall := all_bytes_iff hp path
    have hcov := covers_iff hp hpath
    rw [show (readString VFS_MP_NAME_MAX (v.mounts i).path).length=strLen (v.mounts i).path from rfl] at hall hcov
    simp only [resolveStep,keepBest,coverSize,hused,if_true,Bool.not_true,Bool.false_eq_true,if_false]
    by_cases hpre : readString VFS_MP_NAME_MAX (v.mounts i).path <+: path
    · simp only [hall.mpr hpre,Bool.not_true,Bool.false_eq_true,if_false]
      by_cases hc : Covers (readString VFS_MP_NAME_MAX (v.mounts i).path) path
      · rw [if_neg (hcov.mp hc).2,coverLen,if_pos hc]
        rfl
      · rw [if_pos (by_contra fun htest => hc (hcov.mpr ⟨hpre,htest⟩)),coverLen,if_neg hc]
        rfl
    · have hall := Bool.eq_false_iff.mpr fun h => hpre (hall.mp h)
      simp only [hall,Bool.not_false,if_true]
      rw [coverLen,if_neg fun hc => hpre (hcov.mp hc).1]
      rfl
  · simp [resolveStep,keepBest,coverSize,hused]

theorem MountedAt.coverSize_eq (h : MountedAt v i p) (hv : Terminated v) : coverSize v path i=coverLen path p := by
  rw [coverSize,if_pos h.used,h.readString_eq hv]

theorem coverSize_eq_some {l : Nat} (hv : Terminated v) (hi : i<VFS_MAX_MOUNTS) (h : coverSize v path i=some l) :
    ∃ p, MountedAt v i p ∧ Covers p path ∧ p.length=l := by
  rw [coverSize] at h
  split at h
  next hused =>
    rw [coverLen] at h
    split at h
    next hcov => exact ⟨_,hv.mountedAt hi hused,hcov,Option.some_inj.mp h⟩
    next => cases h
  next => cases h

theorem coverLen_of_covers (h : Covers p path) : coverLen path p=some p.length := if_pos h

theorem Covers.eq_of_length (h : Covers p path) (h' : Covers q path) (hlen : p.length=q.length) : p=q := by
  rw [← h.take_eq,← h'.take_eq,hlen]

theorem owner_of_isBest {l : Nat} (hv : Terminated v) (h : IsBest (coverSize v path) VFS_MAX_MOUNTS i l) :
    ∃ p, Owner v path i p ∧ p.length=l := by
  obtain ⟨p,hmounted,hcov,hlen⟩ := coverSize_eq_some hv h.lt h.size_eq
  refine ⟨p,⟨hmounted,hcov,?_⟩,hlen⟩
  intro j q hq hqcov
  have hfirst := h.first j hq.lt q.length (by rw [hq.coverSize_eq hv,coverLen_of_covers hqcov])
  rcases hfirst with hlt | ⟨heq,hle⟩
  · exact .inl (by omega)
  · exact .inr ⟨hqcov.eq_of_length hcov (by omega),hle⟩

theorem resolve_loop (hv : Terminated v) (hpath : 0∉path) :
    (List.range VFS_MAX_MOUNTS).foldl (resolveStep v path) none=bestBelow (coverSize v path) VFS_MAX_MOUNTS := by
  apply List.foldl_ext
  intro best i hi
  exact resolveStep_eq hv hpath (List.mem_range.mp hi) best

def Answers (r : VfsFsType × (Nat → UInt8)) (type : VfsFsType) (rest : List UInt8) (restMax : Nat) : Prop :=
  r.1=type ∧ (0<restMax → IsCString r.2 (rest.take (restMax-1)))

theorem not_mem_afterSlash (h : 0∉p) : 0∉afterSlash p := by
  rw [afterSlash]
  split
  · exact fun h0 => h (List.mem_of_mem_tail h0)
  · exact h

theorem vfsResolve_owned (hv : Terminated v) (hpath : 0∉path) (hne : path≠[]) (h : Owner v path i p) :
    vfsResolve v path buf restMax=((v.mounts i).type,
      if 0<restMax then strCopy buf (afterSlash (path.drop p.length)) restMax else buf) := by
  rw [vfsResolve,if_neg hne,resolve_loop hv hpath]
  rcases bestBelow_found (coverSize v path) VFS_MAX_MOUNTS with ⟨_,hnone⟩ | ⟨j,l,heq,hbest⟩
  · have hsome := hnone i h.mounted.lt
    rw [h.mounted.coverSize_eq hv,coverLen_of_covers h.covers] at hsome
    cases hsome
  · obtain ⟨q,howner,hlen⟩ := owner_of_isBest hv hbest
    -- both are first among the longest
    have hij : i=j ∧ p=q := by
      have h1 := h.first j q howner.mounted howner.covers
      have h2 := howner.first i p h.mounted h.covers
      rcases h1 with h1 | ⟨rfl,h1⟩
      · rcases h2 with h2 | ⟨rfl,h2⟩ <;> omega
      · rcases h2 with h2 | ⟨_,h2⟩
        · omega
        · exact ⟨Nat.le_antisymm h1 h2,rfl⟩
    rw [heq,hij.1,hij.2,hlen]

theorem vfsResolve_unowned (hv : Terminated v) (hpath : 0∉path) (hne : path≠[])
    (h : ∀ i p, MountedAt v i p → ¬ Covers p path) :
    vfsResolve v path buf restMax=(.ram,if 0<restMax then strCopy buf path restMax else buf) := by
  rw [vfsResolve,if_neg hne,resolve_loop hv hpath]
  rcases bestBelow_found (coverSize v path) VFS_MAX_MOUNTS with ⟨hnone,_⟩ | ⟨j,l,_,hbest⟩
  · rw [hnone]
  · obtain ⟨q,howner,_⟩ := owner_of_isBest hv hbest
    exact absurd howner.covers (h j q howner.mounted)

theorem owner_or_none (hv : Terminated v) (path : List UInt8) :
    (∃ i p, Owner v path i p) ∨ ∀ i p, MountedAt v i p → ¬ Covers p path := by
  rcases bestBelow_found (coverSize v path) VFS_MAX_MOUNTS with ⟨_,hnone⟩ | ⟨j,l,_,hbest⟩
  · refine .inr fun i p hmounted hcov => ?_
    have hsome := hnone i hmounted.lt
    rw [hmounted.coverSize_eq hv,coverLen_of_covers hcov] at hsome
    cases hsome
  · obtain ⟨q,howner,_⟩ := owner_of_isBest hv hbest
    exact .inl ⟨j,q,howner⟩

theorem vfsResolve_of_mountSet (hv : Terminated v) (hw : Terminated w) (hd : DistinctPaths v)
    (hset : mountSet w=mountSet v) (hpath : 0∉path) :
    vfsResolve w path buf restMax=vfsResolve v path buf restMax := by
  by_cases hne : path=[]
  · simp only [vfsResolve,hne,if_true]
  have hmem : ∀ {a b : MountTable} {i p}, mountSet a=mountSet b → MountedAt a i p →
      ∃ j, MountedAt b j p ∧ (b.mounts j).type=(a.mounts i).type := by
    intro a b i p heq hp
    have hin : (p,(a.mounts i).type)∈mountSet a := ⟨i,hp,rfl⟩
    rw [heq] at hin
    exact hin
  rcases owner_or_none hv path with ⟨i,p,howner⟩ | hnone
  · obtain ⟨k,hk,_⟩ := hmem hset.symm howner.mounted
    rcases owner_or_none hw path with ⟨j,q,howner'⟩ | hnone
    · obtain ⟨l,hl,htype⟩ := hmem hset howner'.mounted
      have hpq : p=q := by
        have h1 := howner.first l q hl howner'.covers
        have h2 := howner'.first k p hk howner.covers
        rcases h1 with h1 | ⟨h1,_⟩
        · rcases h2 with h2 | ⟨h2,_⟩
          · omega
          · exact h2
        · exact h1.symm
      subst hpq
      rw [vfsResolve_owned hv hpath hne howner,vfsResolve_owned hw hpath hne howner',
        hd i l p howner.mounted hl,htype]
    · exact absurd howner.covers (hnone k p hk)
  · rw [vfsResolve_unowned hv hpath hne hnone,vfsResolve_unowned hw hpath hne]
    intro j q hq hcov
    obtain ⟨l,hl,_⟩ := hmem hset hq
    exact hnone l q hl hcov

/-- `vfs_resolve` answers with the longest mounted path that covers the given one, the lowest slot among equals, and
what follows in the given path, or else with the RAM file system and the path itself. So the order of the mounts
matters only where two paths are cut to one. -/
theorem vfs_resolve_longest (hv : Terminated v) (path : CStr) (hne : path.bytes≠[]) (buf : Nat → UInt8)
    (restMax : Nat) :
    ((∃ i p, Owner v path.bytes i p ∧ Answers (vfsResolve v path.bytes buf restMax) (v.mounts i).type
        (afterSlash (path.bytes.drop p.length)) restMax) ∨
      (∀ i p, MountedAt v i p → ¬ Covers p path.bytes) ∧
        Answers (vfsResolve v path.bytes buf restMax) .ram path.bytes restMax) ∧
    (DistinctPaths v → ∀ w, Terminated w → mountSet w=mountSet v →
      vfsResolve w path.bytes buf restMax=vfsResolve v path.bytes buf restMax) ∧
    ∀ (reqs reqs' : List MountReq) (w w' : MountTable), reqs.Perm reqs' → runFrom mountStep reqs v=some w →
      runFrom mountStep reqs' v=some w' → DistinctPaths w →
      vfsResolve w' path.bytes buf restMax=vfsResolve w path.bytes buf restMax := by
  have hcopy : ∀ {rest : List UInt8} {type : VfsFsType}, 0∉rest →
      Answers (type,if 0<restMax then strCopy buf rest restMax else buf) type rest restMax := by
    intro rest type hrest
    refine ⟨rfl,fun hmax => ?_⟩
    simp only [if_pos hmax]
    exact strcpyTruncate_take buf hrest hmax
  refine ⟨?_,?_,?_⟩
  · rcases owner_or_none hv path.bytes with ⟨i,p,howner⟩ | hnone
    · refine .inl ⟨i,p,howner,?_⟩
      rw [vfsResolve_owned hv path.nul_free hne howner]
      exact hcopy (not_mem_afterSlash fun h0 => path.nul_free (List.mem_of_mem_drop h0))
    · refine .inr ⟨hnone,?_⟩
      rw [vfsResolve_unowned hv path.nul_free hne hnone]
      exact hcopy path.nul_free
  · intro hd w hw hset
    exact vfsResolve_of_mountSet hv hw hd hset path.nul_free
  · intro reqs reqs' w w' hperm hrun hrun' hd
    obtain ⟨hw,hset⟩ := runFrom_mountSet hv hrun
    obtain ⟨hw',hset'⟩ := runFrom_mountSet hv hrun'
    refine vfsResolve_of_mountSet hw hw' hd ?_ path.nul_free
    simp only [hset,hset',hperm.mem_iff]

def bootTable : MountTable := vfsInit ⟨fun _ => ⟨false,fun _ => 0, .none⟩⟩

def mntPath : CStr := ⟨[0x2F,0x6D,0x6E,0x74],by decide⟩

theorem vfs_resolve_longest_boot : Terminated bootTable ∧
    (vfsResolve bootTable mntPath.bytes (fun _ => 0) 16).1 = .ram := by
  refine ⟨vfsInit_terminated _,?_⟩
  rcases (vfs_resolve_longest (vfsInit_terminated _) mntPath (by decide) (fun _ => 0) 16).1 with
    ⟨i,p,howner,hanswers⟩ | ⟨_,hanswers⟩
  · obtain rfl := vfsInit_used howner.mounted.used
    exact hanswers.1
  · exact hanswers.1

/-- What is expected of a mount that made `w` out of `v`. -/
structure TakesEffect (v w : MountTable) (p : List UInt8) (t : VfsFsType) : Prop where
  distinct : DistinctPaths w
  resolves : ∀ (x : CStr) (buf : Nat → UInt8) (restMax : Nat), x.bytes≠[] → 0x2F∉x.bytes →
    x.bytes.length<restMax → (∀ i, ¬ MountedAt w i (p++slash++x.bytes)) →
    (vfsResolve w (p++slash++x.bytes) buf restMax).1=t ∧
      IsCString (vfsResolve w (p++slash++x.bytes) buf restMax).2 x.bytes
  again : ∀ ready, (vfsMount w ready p t).result = .alreadyExists
  undone : (vfsUmount w p).1 = .ok ∧ mountSet (vfsUmount w p).2=mountSet v

theorem vfsMount_exists_iff {t : VfsFsType} {ready : Bool} (habs : p.head?=some 0x2F) (htype : t ≠ .none)
    (hroot : p≠slash) : (vfsMount v ready p t).result = .alreadyExists ↔ findMount v p≠none := by
  rw [vfsMount,if_neg (not_not.mpr habs),if_neg htype,if_neg hroot]
  by_cases hsome : findMount v p=none
  · rw [if_neg (by rw [hsome]; decide)]
    refine ⟨fun h => ?_,fun h => absurd hsome h⟩
    split at h
    · cases h
    · split at h
      · cases h
      · cases h
  · rw [if_pos (Option.isSome_iff_ne_none.mpr hsome)]
    exact ⟨fun _ => hsome,fun _ => rfl⟩

section Effect
variable {t : VfsFsType} {slot : Nat} (h : Made v w slot p t) (hv : Terminated v) (hp : 0∉p)
include h hv hp

theorem Made.again_iff (ready : Bool) : (vfsMount w ready p t).result = .alreadyExists ↔ p.length≤15 := by
  rw [vfsMount_exists_iff h.absolute h.type_ne h.not_root]
  have hw := h.terminated hp hv
  constructor
  · intro hfound
    obtain ⟨i,hi⟩ := Option.ne_none_iff_exists'.mp hfound
    exact (findMount_some hw hp hi).length_le hw
  · intro hshort hnone
    have hmounted := h.mountedAt hp
    rw [List.take_of_length_le hshort] at hmounted
    exact (findMount_none_iff hw hp).mp hnone slot hmounted

theorem Made.slot_eq (hi : MountedAt w i p) : i=slot := by
  by_contra hne
  exact (findMount_none_iff hv hp).mp h.new i ((h.mountedAt_of_ne hne).mp hi)

theorem Made.undone (hshort : p.length≤15) : (vfsUmount w p).1 = .ok ∧ mountSet (vfsUmount w p).2=mountSet v := by
  have hw := h.terminated hp hv
  have hmounted := h.mountedAt hp
  rw [List.take_of_length_le hshort] at hmounted
  obtain ⟨i,hfind⟩ := Option.ne_none_iff_exists'.mp fun hnone =>
    (findMount_none_iff hw hp).mp hnone slot hmounted
  obtain rfl := h.slot_eq hv hp (findMount_some hw hp hfind)
  have hrun : vfsUmount w p=(.ok,dropMount w i) := by
    rw [vfsUmount,if_neg h.not_root,hfind]
    rfl
  rw [hrun]
  refine ⟨rfl,?_⟩
  have htype : ∀ {j}, j≠i → ((dropMount w i).mounts j).type=(v.mounts j).type := by
    intro j hj
    rw [dropMount,setMount_of_ne hj,h.type_of_ne hj]
  ext ⟨q,t'⟩
  constructor
  · rintro ⟨j,hj,ht⟩
    obtain ⟨hne,hj⟩ := mountedAt_dropMount.mp hj
    exact ⟨j,(h.mountedAt_of_ne hne).mp hj,(htype hne).symm.trans ht⟩
  · rintro ⟨j,hj,ht⟩
    obtain ⟨hne,hj⟩ := h.keeps hj
    exact ⟨j,mountedAt_dropMount.mpr ⟨hne,hj⟩,(htype hne).trans ht⟩

/-- Below the new path, only a path that is mounted itself is longer. -/
theorem Made.owner {x : List UInt8} (hshort : p.length≤15) (hslash : 0x2F∉x)
    (hnot : ∀ i, ¬ MountedAt w i (p++slash++x)) : Owner w (p++slash++x) slot p := by
  have hmounted := h.mountedAt hp
  rw [List.take_of_length_le hshort] at hmounted
  refine ⟨hmounted,.inr (.inl ⟨x,rfl⟩),?_⟩
  intro j q hq hcov
  by_cases hqp : q=p
  · exact .inr ⟨hqp,(h.slot_eq hv hp (hqp ▸ hq)).symm.le⟩
  refine .inl ?_
  rcases hcov with rfl | ⟨r,hr⟩ | ⟨rfl,_⟩
  · exact absurd hq (hnot j)
  · by_contra hlong
    have hpre : p.length≠q.length := by
      intro hlen
      rw [List.append_assoc,List.append_assoc] at hr
      exact hqp (List.append_inj_left hr hlen.symm)
    -- the slash behind `q` is a byte of `x`
    have hbyte : (p++slash++x).getD q.length 0=0x2F := by
      rw [← hr,List.append_assoc,List.getD_append_right _ _ _ _ (Nat.le_refl _),Nat.sub_self]
      rfl
    have hlen : (p++slash).length=p.length+1 := List.length_append
    rw [List.getD_append_right _ _ _ _ (by omega)] at hbyte
    by_cases hin : q.length-(p++slash).length<x.length
    · rw [List.getD_eq_getElem _ _ hin] at hbyte
      exact hslash (hbyte ▸ List.getElem_mem hin)
    · rw [List.getD_eq_default _ _ (by omega)] at hbyte
      exact absurd hbyte (by decide)
  · have habs := h.absolute
    have hroot := h.not_root
    cases p with
    | nil => cases habs
    | cons c p =>
      cases p with
      | nil => exact absurd (by rw [slash,Option.some_inj.mp habs]) hroot
      | cons d p => exact Nat.succ_lt_succ (Nat.succ_pos _)

theorem Made.resolves {x : CStr} {restMax : Nat} (hshort : p.length≤15) (hslash : 0x2F∉x.bytes)
    (hmax : x.bytes.length<restMax) (hnot : ∀ i, ¬ MountedAt w i (p++slash++x.bytes)) :
    (vfsResolve w (p++slash++x.bytes) buf restMax).1=t ∧
      IsCString (vfsResolve w (p++slash++x.bytes) buf restMax).2 x.bytes := by
  have hfree : 0∉p++slash++x.bytes := by
    simp only [List.mem_append,not_or]
    exact ⟨⟨hp,by decide⟩,x.nul_free⟩
  have hrest : afterSlash ((p++slash++x.bytes).drop p.length)=x.bytes := by
    rw [List.append_assoc,List.drop_left]
    rfl
  rw [vfsResolve_owned (h.terminated hp hv) hfree (by simp [slash]) (h.owner hv hp hshort hslash hnot),h.type_self,
    hrest,if_pos (by omega)]
  exact ⟨rfl,strcpyTruncate_isCString _ x.nul_free hmax⟩

end Effect

/-- A mount takes effect exactly if its path is not cut and no two paths in the table were equal before. -/
theorem mount_takes_effect_iff {t : VfsFsType} {ready : Bool} (hv : Reachable v) (p : CStr)
    (h : (vfsMount v ready p.bytes t).result = .ok) :
    TakesEffect v (vfsMount v ready p.bytes t).table p.bytes t ↔ p.bytes.length≤15 ∧ DistinctPaths v := by
  obtain ⟨slot,hmade⟩ := vfsMount_ok h
  constructor
  · intro heffect
    refine ⟨(hmade.again_iff hv.terminated p.nul_free true).mp (heffect.again true),?_⟩
    intro i j q hi hj
    exact heffect.distinct i j q (hmade.keeps hi).2 (hmade.keeps hj).2
  · rintro ⟨hshort,hd⟩
    exact {
      distinct := hmade.distinct p.nul_free hv.terminated hd hshort
      resolves := fun x buf restMax _ hslash hmax hnot =>
        hmade.resolves hv.terminated p.nul_free hshort hslash hmax hnot
      again := fun ready => (hmade.again_iff hv.terminated p.nul_free ready).mpr hshort
      undone := hmade.undone hv.terminated p.nul_free hshort }

theorem bootTable_reachable : Reachable bootTable := ⟨_,[],rfl⟩

def mntCalls : List VfsCall := [.mount true mntPath .fat32]

def innerPath : CStr := ⟨mntPath.bytes++slash++[0x61],by decide⟩

theorem mount_takes_effect_inner : TakesEffect (mntCalls.foldl VfsCall.run bootTable)
    (vfsMount (mntCalls.foldl VfsCall.run bootTable) false innerPath.bytes .ram).table innerPath.bytes .ram := by
  apply (mount_takes_effect_iff ⟨_,mntCalls,rfl⟩ innerPath (by decide)).mpr
  exact ⟨by decide,run_distinct (vfsInit_terminated _) (vfsInit_distinct _) (by simp [mntCalls,VfsCall.path,mntPath])⟩

def longPath : CStr := ⟨mntPath.bytes++List.replicate 12 0x61,by decide⟩

theorem mount_without_effect : ¬ ∀ (v : MountTable) (ready : Bool) (p : CStr) (t : VfsFsType), Reachable v →
    p.bytes.head?=some 0x2F → p.bytes≠slash → p.bytes.getLast?≠some 0x2F →
    (vfsMount v ready p.bytes t).result = .ok →
    TakesEffect v (vfsMount v ready p.bytes t).table p.bytes t := by
  intro hall
  have hok : (vfsMount bootTable false longPath.bytes .ram).result = .ok := by decide
  obtain ⟨slot,hmade⟩ := vfsMount_ok hok
  have heffect := hall bootTable false longPath .ram bootTable_reachable (by decide) (by decide) (by decide) hok
  have hshort := (hmade.again_iff bootTable_reachable.terminated longPath.nul_free true).mp (heffect.again true)
  exact absurd hshort (by decide)

end MyKernel.Vfs
