import MyKernel.Fat32.Directory
import MyKernel.Fat32.FileData

/-! Consistent volumes: every cluster in use is on the chain of one entry or of the root directory. -/
namespace MyKernel.Fat32
open Chains

inductive Owner where
  | root
  | entry (i : Nat)
  deriving DecidableEq

def Owner.Present (N : Nat) (D : Nat → Dirent) : Owner → Prop
  | .root => True
  | .entry i => Live N D i

def Owner.first (g : Geo) (D : Nat → Dirent) : Owner → Option Nat
  | .root => some g.rootCluster
  | .entry i => startOf (D i).first

def Owner.chain (rc : List Nat) (ch : Nat → List Nat) : Owner → List Nat
  | .root => rc
  | .entry i => ch i

/-- A directory of `N` slots on the chain `rc` whose entries have the chains `ch`. -/
structure SoundDir (g : Geo) (fat : Nat → Nat) (N : Nat) (D : Nat → Dirent) (rc : List Nat)
    (ch : Nat → List Nat) : Prop where
  chains : Family (InVolume g) (nextOf fat) (Owner.Present N D) (Owner.first g D) (Owner.chain rc ch)
  names : DistinctNames N D
  tail : ZeroTail N D

/-- Chains stay within the volume, end, and do not meet; names are distinct; nothing follows the end mark. -/
def Sound (g : Geo) (V : View) (rc : List Nat) (ch : Nat → List Nat) : Prop :=
  SoundDir g V.fat (dirSize g rc) (dirAt g V rc) rc ch

def Owned (g : Geo) (V : View) (rc : List Nat) (ch : Nat → List Nat) : Prop :=
  Covers (InVolume g) (fun c => V.fat c≠0) (Owner.Present (dirSize g rc) (dirAt g V rc))
    (Owner.chain rc ch)

def Sized (g : Geo) (V : View) (rc : List Nat) (ch : Nat → List Nat) : Prop :=
  ∀ i, Live (dirSize g rc) (dirAt g V rc) i → (dirAt g V rc i).isDir=false →
    (ch i).length=clustersFor g.clusterBytes (dirAt g V rc i).fileSize

structure ConsistentWith (g : Geo) (V : View) (rc : List Nat) (ch : Nat → List Nat) : Prop where
  cluster : 1≤g.sectorsPerCluster ∧ g.sectorsPerCluster≤8
  table : g.totalClusters+2≤128*g.fatSizeSectors
  sound : Sound g V rc ch
  owned : Owned g V rc ch
  sized : Sized g V rc ch

def Consistent (g : Geo) (V : View) : Prop := ∃ rc ch, ConsistentWith g V rc ch

variable {g : Geo} {V W : View} {fat fat' : Nat → Nat} {N M i j c : Nat} {D D' : Nat → Dirent}
variable {rc : List Nat} {ch ch' : Nat → List Nat}

theorem SoundDir.root_path (h : SoundDir g fat N D rc ch) :
    ChainFrom (nextOf fat) (some g.rootCluster) rc := h.chains.path .root trivial

theorem SoundDir.root_in (h : SoundDir g fat N D rc ch) : ∀ c∈rc, InVolume g c :=
  h.chains.bounded .root trivial

theorem SoundDir.path (h : SoundDir g fat N D rc ch) (hi : Live N D i) :
    ChainFrom (nextOf fat) (startOf (D i).first) (ch i) := h.chains.path (.entry i) hi

theorem SoundDir.inVolume (h : SoundDir g fat N D rc ch) (hi : Live N D i) :
    ∀ c∈ch i, InVolume g c := h.chains.bounded (.entry i) hi

theorem SoundDir.root_apart (h : SoundDir g fat N D rc ch) (hi : Live N D i) (hc : c∈ch i) : c∉rc := by
  intro hrc
  have he := h.chains.apart (.entry i) .root hi trivial c hc hrc
  simp at he

theorem SoundDir.apart (h : SoundDir g fat N D rc ch) (hi : Live N D i) (hj : Live N D j)
    (hij : i≠j) (hc : c∈ch i) : c∉ch j := by
  intro hcj
  have he := h.chains.apart (.entry i) (.entry j) hi hj c hc hcj
  simp at he
  exact hij he

theorem live_congr (h : ∀ k, k<N → D' k=D k) : Live N D' j ↔ Live N D j := by
  constructor
  · rintro ⟨hj,hbefore,hl⟩
    refine ⟨hj,?_,h j hj ▸ hl⟩
    intro k hk
    rw [← h k (by omega)]
    exact hbefore k hk
  · rintro ⟨hj,hbefore,hl⟩
    refine ⟨hj,?_,(h j hj).symm ▸ hl⟩
    intro k hk
    rw [h k (by omega)]
    exact hbefore k hk

/-- `D'` is `D` with a new entry, or the mark of a deleted one, in slot `i`. -/
structure PutAt (N : Nat) (D D' : Nat → Dirent) (i : Nat) : Prop where
  bound : i<N
  before : ∀ k, k < i → (D k).mark≠0
  same : ∀ k, k<N → k≠i → D' k=D k
  mark : (D' i).mark≠0

theorem PutAt.live_iff (hp : PutAt N D D' i) (htail : ZeroTail N D) (hji : j≠i) : Live N D' j ↔ Live N D j := by
  constructor
  · rintro ⟨hj,hm,hl⟩
    refine ⟨hj,?_,hp.same j hj hji ▸ hl⟩
    intro k hk h0
    -- an end mark at `k` would be followed by one at `j`
    have hj0 := htail k j (by omega) hj h0
    rw [← hp.same j hj hji] at hj0
    exact hm j (by omega) hj0
  · rintro ⟨hj,hm,hl⟩
    refine ⟨hj,?_,(hp.same j hj hji).symm ▸ hl⟩
    intro k hk
    by_cases hki : k=i
    · exact hki ▸ hp.mark
    · rw [hp.same k (by omega) hki]
      exact hm k hk

theorem PutAt.live_self (hp : PutAt N D D' i) : Live N D' i ↔ (D' i).listed=true := by
  constructor
  · exact fun h => h.2.2
  · intro hl
    have hi := hp.bound
    refine ⟨hi,?_,hl⟩
    intro k hk
    by_cases hki : k=i
    · exact hki ▸ hp.mark
    · rw [hp.same k (by omega) hki]
      exact hp.before k (by omega)

theorem PutAt.zeroTail (hp : PutAt N D D' i) (htail : ZeroTail N D) : ZeroTail N D' := by
  intro a b hab hb h0
  have hai : a≠i := fun he => hp.mark (he ▸ h0)
  rw [hp.same a (by omega) hai] at h0
  have hbi : b≠i := by
    intro he
    exact hp.before a (by omega) h0
  rw [hp.same b hb hbi]
  exact htail a b hab hb h0

/-- What the entry in slot `i` and its chain need not to get in the way of the others. -/
structure Fits (g : Geo) (fat' : Nat → Nat) (N : Nat) (D : Nat → Dirent) (rc : List Nat)
    (ch : Nat → List Nat) (i : Nat) (de : Dirent) (cs : List Nat) : Prop where
  path : ChainFrom (nextOf fat') (startOf de.first) cs
  inVolume : ∀ c∈cs, InVolume g c
  root_apart : ∀ c∈cs, c∉rc
  apart : ∀ j, j≠i → Live N D j → ∀ c∈cs, c∉ch j
  name : ∀ j, j≠i → Live N D j → (D j).name≠de.name

/-- The clusters that do not belong to the entry in slot `i`. -/
def OthersKept (N : Nat) (D : Nat → Dirent) (rc : List Nat) (ch : Nat → List Nat) (i : Nat)
    (fat fat' : Nat → Nat) : Prop :=
  (∀ c∈rc, fat' c=fat c) ∧ ∀ j, j≠i → Live N D j → ∀ c∈ch j, fat' c=fat c

theorem SoundDir.put (h : SoundDir g fat N D rc ch) (hp : PutAt N D D' i)
    (hfat : OthersKept N D rc ch i fat fat') (hch : ∀ j, j≠i → ch' j=ch j)
    (hnew : (D' i).listed=true → Fits g fat' N D rc ch i (D' i) (ch' i)) :
    SoundDir g fat' N D' rc ch' where
  chains := by
    refine h.chains.replace (.entry i) ?_ ?_ ?_ ?_
    · intro y hy hown
      cases y with
      | root => exact ⟨trivial,rfl,rfl,fun c hc => nextOf_congr (hfat.1 c hc)⟩
      | entry j =>
        have hji : j≠i := fun he => hy (he ▸ rfl)
        have hj := (hp.live_iff h.tail hji).mp hown
        refine ⟨hj,?_,hch j hji,fun c hc => nextOf_congr (hfat.2 j hji hj c hc)⟩
        rw [Owner.first,hp.same j hj.1 hji,Owner.first]
    · intro hown
      exact (hnew hown.2.2).path
    · intro hown
      exact (hnew hown.2.2).inVolume
    · intro y hy hown hown' c hc
      cases y with
      | root => exact (hnew hown.2.2).root_apart c hc
      | entry j =>
        have hji : j≠i := fun he => hy (he ▸ rfl)
        exact (hnew hown.2.2).apart j hji ((hp.live_iff h.tail hji).mp hown') c hc
  names := by
    have hother : ∀ j, j≠i → Live N D' j → Live N D' i → (D' j).name≠(D' i).name := by
      intro j hji hj hi
      rw [hp.same j hj.1 hji]
      exact (hnew hi.2.2).name j hji ((hp.live_iff h.tail hji).mp hj)
    intro a b ha hb hab
    by_cases hai : a=i
    · by_cases hbi : b=i
      · rw [hai,hbi]
      · subst hai
        exact absurd hab.symm (hother b hbi hb ha)
    · by_cases hbi : b=i
      · subst hbi
        exact absurd hab (hother a hai ha hb)
      · rw [hp.same a ha.1 hai,hp.same b hb.1 hbi] at hab
        exact h.names a b ((hp.live_iff h.tail hai).mp ha) ((hp.live_iff h.tail hbi).mp hb) hab
  tail := hp.zeroTail h.tail

theorem PutAt.covers {used used' : Nat → Prop} (hp : PutAt N D D' i) (htail : ZeroTail N D)
    (h : Covers (InVolume g) used (Owner.Present N D) (Owner.chain rc ch)) (hch : ∀ j, j≠i → ch' j=ch j)
    (hused : ∀ c, InVolume g c → used' c → (D' i).listed=true ∧ c∈ch' i ∨
      used c ∧ (Live N D i → c∉ch i)) : Covers (InVolume g) used' (Owner.Present N D') (Owner.chain rc ch') := by
  refine h.replace (.entry i) ?_ ?_
  · intro y hy hown
    cases y with
    | root => exact ⟨trivial,rfl⟩
    | entry j =>
      have hji : j≠i := fun he => hy (he ▸ rfl)
      exact ⟨(hp.live_iff htail hji).mpr hown,hch j hji⟩
  · intro c hc huse hnot
    cases hused c hc huse with
    | inl hnew =>
      have hlive := hp.live_self.mpr hnew.1
      cases hnot with
      | inl hnot => exact absurd hnew.2 hnot
      | inr hnot => exact absurd hlive hnot
    | inr hold => exact hold

/-- `D'` has end marks in the slots from `N` on. -/
structure GrownTo (N M : Nat) (D D' : Nat → Dirent) : Prop where
  le : N≤M
  full : Full N D
  same : ∀ k, k<N → D' k=D k
  zero : ∀ k, N≤k → k<M → (D' k).mark=0

theorem GrownTo.live_iff (hg : GrownTo N M D D') : Live M D' j ↔ Live N D j := by
  have hle := hg.le
  constructor
  · rintro ⟨hj,hm,hl⟩
    have hjN : j<N := by
      by_contra hge
      exact hm j (by omega) (hg.zero j (by omega) hj)
    exact (live_congr hg.same).mp ⟨hjN,hm,hl⟩
  · intro h
    have h' := (live_congr hg.same).mpr h
    have hjN := h.1
    exact ⟨by omega,h'.2⟩

theorem GrownTo.zeroTail (hg : GrownTo N M D D') : ZeroTail M D' := by
  intro a b hab hb h0
  have haN : N≤a := by
    by_contra hlt
    rw [hg.same a (by omega)] at h0
    exact (hg.full a (by omega)).1 h0
  exact hg.zero b (by omega) hb

theorem GrownTo.vacant (hg : GrownTo N M D D') (hlt : N<M) : Vacant M D' N := by
  refine ⟨hlt,.inl (hg.zero N (by omega) hlt),?_⟩
  intro k hk
  rw [hg.same k hk]
  exact (hg.full k hk).1

structure RootLinked (g : Geo) (fat fat' : Nat → Nat) (rc : List Nat) (last nc : Nat) : Prop where
  ends : rc.getLast?=some last
  inVolume : InVolume g nc
  free : fat nc=0
  link : fat' last=nc ∧ nc<EOC
  mark : EOC≤fat' nc
  same : ∀ c, c≠last → c≠nc → fat' c=fat c

theorem RootLinked.path {last nc : Nat} (hr : RootLinked g fat fat' rc last nc) (h : SoundDir g fat N D rc ch) :
    ChainFrom (nextOf fat') (some g.rootCluster) (rc++[nc]) := by
  have hnew : nc∉rc := fun hmem => ChainFrom.fat_ne_zero h.root_path h.root_in hmem hr.free
  obtain ⟨hlink,hlt⟩ := hr.link
  refine h.root_path.snoc hr.ends ?_ (nextOf_eq_some.mpr ⟨by omega,hlink⟩)
    (nextOf_eq_none.mpr hr.mark)
  intro x hx hxl
  apply nextOf_congr
  exact hr.same x hxl (fun he => hnew (he ▸ hx))

theorem SoundDir.grow {last nc : Nat} (h : SoundDir g fat N D rc ch) (hg : GrownTo N M D D')
    (hr : RootLinked g fat fat' rc last nc) : SoundDir g fat' M D' (rc++[nc]) ch where
  chains := by
    have hlast := List.mem_of_getLast? hr.ends
    refine h.chains.replace .root ?_ ?_ ?_ ?_
    · intro y hy hown
      cases y with
      | root => exact absurd rfl hy
      | entry j =>
        have hj := hg.live_iff.mp hown
        refine ⟨hj,?_,rfl,?_⟩
        · rw [Owner.first,hg.same j hj.1,Owner.first]
        · intro c hc
          apply nextOf_congr
          apply hr.same
          · exact fun he => h.root_apart hj hc (he ▸ hlast)
          · intro he
            exact ChainFrom.fat_ne_zero (h.path hj) (h.inVolume hj) hc (he ▸ hr.free)
    · exact fun _ => hr.path h
    · intro _ c hc
      simp only [Owner.chain,List.mem_append,List.mem_singleton] at hc
      cases hc with
      | inl hc => exact h.root_in c hc
      | inr hc => exact hc ▸ hr.inVolume
    · intro y hy _ hown c hc
      cases y with
      | root => exact absurd rfl hy
      | entry j =>
        have hj := hg.live_iff.mp hown
        simp only [Owner.chain,List.mem_append,List.mem_singleton] at hc ⊢
        intro hcj
        cases hc with
        | inl hc => exact h.root_apart hj hcj hc
        | inr hc => exact ChainFrom.fat_ne_zero (h.path hj) (h.inVolume hj) hcj (hc ▸ hr.free)
  names := by
    intro a b ha hb hab
    have ha' := hg.live_iff.mp ha
    have hb' := hg.live_iff.mp hb
    rw [hg.same a ha'.1,hg.same b hb'.1] at hab
    exact h.names a b ha' hb' hab
  tail := hg.zeroTail

theorem GrownTo.covers {used used' : Nat → Prop} {nc : Nat} (hg : GrownTo N M D D')
    (hused : ∀ c, c∉rc → c≠nc → used' c → used c)
    (h : Covers (InVolume g) used (Owner.Present N D) (Owner.chain rc ch)) :
    Covers (InVolume g) used' (Owner.Present M D') (Owner.chain (rc++[nc]) ch) := by
  intro c hc huse
  by_cases hnc : c∈rc++[nc]
  · exact ⟨.root,trivial,hnc⟩
  · simp only [List.mem_append,List.mem_singleton,not_or] at hnc
    obtain ⟨y,hy,hcy⟩ := h c hc (hused c hnc.1 hnc.2 huse)
    cases y with
    | root => exact absurd hcy hnc.1
    | entry j => exact ⟨.entry j,hg.live_iff.mpr hy,hcy⟩

theorem SoundDir.congr (h : SoundDir g fat N D rc ch) (hD : ∀ k, k<N → D' k=D k)
    (hroot : ∀ c∈rc, fat' c=fat c) (hfat : ∀ j, Live N D j → ∀ c∈ch j, fat' c=fat c) :
    SoundDir g fat' N D' rc ch where
  chains := by
    refine h.chains.replace .root ?_ ?_ (fun _ => h.root_in) ?_
    · intro y hy hown
      cases y with
      | root => exact absurd rfl hy
      | entry j =>
        have hj := (live_congr hD).mp hown
        refine ⟨hj,?_,rfl,fun c hc => nextOf_congr (hfat j hj c hc)⟩
        rw [Owner.first,hD j hj.1,Owner.first]
    · exact fun _ => h.root_path.congr fun c hc => nextOf_congr (hroot c hc)
    · intro y hy _ hown c hc
      cases y with
      | root => exact absurd rfl hy
      | entry j => exact fun hcj => h.root_apart ((live_congr hD).mp hown) hcj hc
  names := by
    intro a b ha hb hab
    rw [hD a ha.1,hD b hb.1] at hab
    exact h.names a b ((live_congr hD).mp ha) ((live_congr hD).mp hb) hab
  tail := by
    intro a b hab hb h0
    rw [hD a (by omega)] at h0
    rw [hD b hb]
    exact h.tail a b hab hb h0

end MyKernel.Fat32
