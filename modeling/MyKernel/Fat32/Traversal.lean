import MyKernel.Fat32.Volume

/-! A relation kept by the steps of the driver on clusters with `S` is kept by its operations. -/
namespace MyKernel.Fat32
open Memory MyKernel.Computation Disk

/-- The loops along a chain go on at `c`. -/
def IsLink (c : Nat) : Prop := 2≤c ∧ c<EOC

/-- The function sees and changes the first `m` bytes of the buffer only. -/
def NearOnly (m : Nat) (f : (Nat → UInt8) → Nat → UInt8) : Prop :=
  (∀ buf buf', (∀ i, i < m → buf i=buf' i) → ∀ i, i < m → f buf i=f buf' i) ∧
    ∀ buf i, m ≤ i → f buf i=buf i

/-- What the steps do to related states whose cluster buffers agree in the first `m` bytes. -/
structure Steps (m : Nat) (S : Nat → Prop) (R : Fat → Fat → Prop) : Prop where
  room : 64 ≤ m
  mounted : ∀ {s t}, R s t → s.mounted=t.mounted
  root : ∀ {s t}, R s t → s.geo.rootCluster=t.geo.rootCluster
  spc : ∀ {s t}, R s t → s.geo.sectorsPerCluster=t.geo.sectorsPerCluster
  fits : ∀ {s t}, R s t → s.geo.clusterBytes ≤ m
  buf : ∀ {s t}, R s t → ∀ i, i < m → s.clusterBuf i=t.clusterBuf i
  get : ∀ {s t c}, R s t → S c → Alike R (fatGet c) (fun v _ => IsLink v → S v) s t
  set : ∀ {s t c v}, R s t → S c → (v=0 ∨ v=LAST ∨ S v) → Alike R (fatSet c v) (fun _ _ => True) s t
  alloc : ∀ {s t}, R s t → Alike R fatAllocCluster (fun c _ => c≠0 → S c) s t
  read : ∀ {s t} c, R s t → Alike R (readCluster c) (fun _ _ => True) s t
  write : ∀ {s t c}, R s t → S c → Alike R (writeCluster c) (fun _ _ => True) s t
  fill : ∀ {s t f}, R s t → NearOnly m f → Alike R (setClusterBuf f) (fun _ _ => True) s t

/-- The clusters of the directory have `rt`, and the entries a search may find have `E`. Reading it keeps `D`. -/
structure DirSteps (S rt : Nat → Prop) (E : Dirent → Prop) (R D : Fat → Fat → Prop) : Prop where
  rel : ∀ s t, D s t → R s t
  sub : ∀ c, rt c → S c
  get : ∀ {s t c}, D s t → rt c → Alike D (fatGet c) (fun v _ => IsLink v → rt v) s t
  read : ∀ {s t c}, D s t → rt c → Alike D (readCluster c) (fun b u => b=true →
    ∀ k, k<entriesPerCluster u.geo → (direntAt u.clusterBuf (32*k)).mark≠0 →
      (direntAt u.clusterBuf (32*k)).listed=true → E (direntAt u.clusterBuf (32*k))) s t

variable {m n k c d : Nat} {S rt : Nat → Prop} {E : Dirent → Prop} {R D : Fat → Fat → Prop} {s t : Fat}
variable {g : Geo} {β : Type} {want key : List UInt8}

theorem nearOnly_zeroFront (hn : n ≤ m) : NearOnly m (zeroFront n) := by
  constructor
  · intro buf buf' h i hi
    simp only [zeroFront,h i hi]
  · intro buf i hi
    exact if_neg (by omega)

theorem nearOnly_patch {off : Nat} {bytes : List UInt8} (h : off+bytes.length ≤ m) : NearOnly m (patch off bytes) := by
  constructor
  · intro buf buf' hb i hi
    simp only [patch,hb i hi]
  · intro buf i hi
    exact patch_of_outside (by omega)

theorem NearOnly.comp {f f' : (Nat → UInt8) → Nat → UInt8} (h : NearOnly m f) (h' : NearOnly m f') :
    NearOnly m fun buf => f (f' buf) :=
  ⟨fun buf buf' hb => h.1 _ _ (h'.1 buf buf' hb),fun buf i hi => (h.2 _ i hi).trans (h'.2 buf i hi)⟩

theorem nearOnly_direntBytes {off first size : Nat} {attr : UInt8} (hkey : key.length=11) (hoff : off+32 ≤ m) :
    NearOnly m (patch off (direntBytes key attr first size)) :=
  nearOnly_patch (by rw [length_direntBytes hkey]; exact hoff)

theorem nearOnly_emptyDir (hm : 64 ≤ m) (hg : g.clusterBytes ≤ m) (dirCl : Nat) : NearOnly m (emptyDir g dirCl) :=
  (nearOnly_direntBytes (by decide) (by omega)).comp
    ((nearOnly_direntBytes (by decide) (by omega)).comp (nearOnly_zeroFront hg))

/-- The slots found lie in clusters with `S`, the entry found has `E`. -/
def SlotScan.Guarded (S : Nat → Prop) (E : Dirent → Prop) : SlotScan → Prop
  | .existing slot de => S slot.cluster ∧ E de
  | .free slot => S slot.cluster
  | .more found => ∀ slot, found=some slot → S slot.cluster

def SlotResult.Guarded (S : Nat → Prop) (E : Dirent → Prop) : SlotResult → Prop
  | .io => True
  | .noSpace => True
  | .found slot existing => S slot.cluster ∧ ∀ de, existing=some de → E de

theorem slotEntries_guarded {want : List UInt8} {D : Nat → Dirent} {slotOf : Nat → Slot}
    {E : Dirent → Prop} {i : Nat} {found : Option Slot} (hslot : ∀ k, S (slotOf k).cluster)
    (hent : ∀ k, k < i+n → (D k).mark≠0 → (D k).listed=true → E (D k))
    (hfound : ∀ slot, found=some slot → S slot.cluster) : (slotEntries want D slotOf n i found).Guarded S E := by
  induction n generalizing i found with
  | zero => exact hfound
  | succ n ih =>
    have hent' : ∀ k, k < i+1+n → (D k).mark≠0 → (D k).listed=true → E (D k) :=
      fun k hk => hent k (by omega)
    rw [slotEntries]
    split
    next hmatch => exact ⟨hslot i,hent i (by omega) hmatch.1 hmatch.2.1⟩
    next =>
      split
      next =>
        split
        · exact hslot i
        · apply ih hent'
          intro slot heq
          rw [← Option.some_inj.mp heq]
          exact hslot i
      next => exact ih hent' hfound

def Slot.Near (m : Nat) (slot : Slot) : Prop := slot.offset+32 ≤ m

def SlotScan.Near (m : Nat) : SlotScan → Prop
  | .existing slot _ => slot.Near m
  | .free slot => slot.Near m
  | .more found => ∀ slot, found=some slot → slot.Near m

def SlotResult.Near (m : Nat) : SlotResult → Prop
  | .found slot _ => slot.Near m
  | _ => True

theorem slotEntries_near {D : Nat → Dirent} {slotOf : Nat → Slot} {i : Nat} {found : Option Slot}
    (hslot : ∀ k, k < i+n → (slotOf k).Near m) (hfound : ∀ slot, found=some slot → slot.Near m) :
    (slotEntries want D slotOf n i found).Near m := by
  induction n generalizing i found with
  | zero => exact hfound
  | succ n ih =>
    have hrest : ∀ k, k < i+1+n → (slotOf k).Near m := fun k hk => hslot k (by omega)
    rw [slotEntries]
    split
    · exact hslot i (by omega)
    · split
      · split
        · exact hslot i (by omega)
        · refine ih hrest fun slot heq => ?_
          rw [← Option.some_inj.mp heq]
          exact hslot i (by omega)
      · exact ih hrest hfound

/-- What may be freed on behalf of an entry. -/
def EntryLinks (S : Nat → Prop) (de : Dirent) : Prop := IsLink de.first → S de.first

section Steps
variable (hR : Steps m S R)
include hR

theorem Steps.bytes (h : R s t) : s.geo.clusterBytes=t.geo.clusterBytes := congrArg (SECTOR_SIZE*·) (hR.spc h)

theorem Steps.entries (h : R s t) : entriesPerCluster s.geo=entriesPerCluster t.geo := congrArg (16*·) (hR.spc h)

theorem Steps.direntAt_eq (h : R s t) (hk : k<entriesPerCluster s.geo) :
    direntAt s.clusterBuf (32*k)=direntAt t.clusterBuf (32*k) := by
  have hb := slot_bound hk
  have hle := hR.fits h
  exact direntAt_congr fun j hj => hR.buf h _ (by omega)

theorem Steps.dir : DirSteps S S (fun _ => True) R R where
  rel _ _ := id
  sub _ := id
  get h hc := hR.get h hc
  read h _ := (hR.read _ h).mono fun _ _ _ _ _ _ _ _ => trivial

theorem alike_fatFreeChain (fuel : Nat) (h : R s t) (hc : IsLink c → S c) :
    Alike R (fatFreeChain fuel c) (fun _ _ => True) s t := by
  induction fuel generalizing c s t with
  | zero => exact Alike.running h
  | succ fuel ih =>
    refine Alike.ite (fun hlink => (hR.get h (hc hlink)).bind fun next u w h hnext => ?_)
      fun _ => Alike.pure h trivial
    refine (hR.set h (hc hlink) (.inl rfl)).bind fun b u w h _ => ?_
    exact Alike.or_return h fun _ => ih h hnext

theorem alike_freeOld (fuel : Nat) {existing : Option Dirent} (h : R s t)
    (hex : ∀ de, existing=some de → EntryLinks S de) : Alike R (freeOld fuel existing) (fun _ _ => True) s t := by
  cases existing with
  | none => exact Alike.pure h trivial
  | some de =>
    refine Alike.or_return h fun _ => ?_
    exact (alike_fatFreeChain hR fuel h (hex de rfl)).bind fun _ _ _ h _ => Alike.pure h trivial

theorem alike_iterateDir (fn : Dirent → Option β) (fuel : Nat) (h : R s t) (hc : IsLink c → S c) :
    Alike R (iterateDir fn fuel c) (fun _ _ => True) s t := by
  induction fuel generalizing c s t with
  | zero => exact Alike.running h
  | succ fuel ih =>
    refine Alike.or_return h fun hlink => (hR.read c h).bind fun b u w h _ => ?_
    refine Alike.or_return h fun _ => ?_
    have hscan : scanEntries (fun k => direntAt u.clusterBuf (32*k)) fn (entriesPerCluster u.geo) 0 =
        scanEntries (fun k => direntAt w.clusterBuf (32*k)) fn (entriesPerCluster w.geo) 0 := by
      rw [← hR.entries h]
      exact scanEntries_congr fun k _ hk => hR.direntAt_eq h (by omega)
    refine alike_state (by rw [hscan]) ?_
    cases scanEntries (fun k => direntAt u.clusterBuf (32*k)) fn (entriesPerCluster u.geo) 0 with
    | stop => exact Alike.pure h trivial
    | hit b => exact Alike.pure h trivial
    | more => exact (hR.get h (hc hlink)).bind fun next u w h hnext => ih h hnext

theorem alike_extendDir {last : Nat} (h : R s t) (hlast : S last) :
    Alike R (extendDir last) (fun r _ => r.Guarded S E ∧ r.Near m) s t := by
  refine (hR.alloc h).bind fun nc u w h hnc => ?_
  refine Alike.ite (fun _ => Alike.pure h ⟨trivial,trivial⟩) fun hne => ?_
  refine (hR.set h hlast (.inr (.inr (hnc hne)))).bind fun b u w h _ => ?_
  refine Alike.ite (fun _ => alike_state (by rw [hR.bytes h]) ?_) fun _ => Alike.pure h ⟨trivial,trivial⟩
  refine (hR.fill h (nearOnly_zeroFront (hR.fits h))).bind fun _ u w h _ => ?_
  refine (hR.write h (hnc hne)).bind fun b u w h _ => ?_
  refine Alike.ite (fun _ => Alike.pure h ⟨⟨hnc hne,nofun⟩,?_⟩) fun _ => Alike.pure h ⟨trivial,trivial⟩
  have hm := hR.room
  exact (by omega : 0+32 ≤ m)

theorem alike_findSlotLoop (hD : DirSteps S rt E R D) (want : List UInt8) (fuel : Nat) {found : Option Slot}
    (h : D s t) (hc : IsLink c → rt c) (hfound : ∀ slot, found=some slot → S slot.cluster ∧ slot.Near m) :
    Alike R (findSlotLoop want fuel c found) (fun r _ => r.Guarded S E ∧ r.Near m) s t := by
  induction fuel generalizing c s t found with
  | zero => exact Alike.running (hD.rel _ _ h)
  | succ fuel ih =>
    refine Alike.ite (fun hlink => ?_) fun _ => Alike.pure (hD.rel _ _ h) ?_
    · have hS := hD.sub c (hc hlink)
      refine (hD.read h (hc hlink)).bind_to hD.rel fun b u w h hent => ?_
      have hrel := hD.rel u w h
      refine Alike.ite (fun hb => ?_) fun _ => Alike.pure hrel ⟨trivial,trivial⟩
      have hscan : slotEntries want (fun k => direntAt u.clusterBuf (32*k)) (fun k => ⟨c,32*k⟩)
            (entriesPerCluster u.geo) 0 found =
          slotEntries want (fun k => direntAt w.clusterBuf (32*k)) (fun k => ⟨c,32*k⟩)
            (entriesPerCluster w.geo) 0 found := by
        rw [← hR.entries hrel]
        exact slotEntries_congr (fun k _ hk => hR.direntAt_eq hrel (by omega)) fun k _ _ => rfl
      have hguard : (slotEntries want (fun k => direntAt u.clusterBuf (32*k)) (fun k => ⟨c,32*k⟩)
          (entriesPerCluster u.geo) 0 found).Guarded S E :=
        slotEntries_guarded (fun _ => hS) (fun k hk => hent hb k (by omega)) fun slot hslot => (hfound slot hslot).1
      have hnear : (slotEntries want (fun k => direntAt u.clusterBuf (32*k)) (fun k => ⟨c,32*k⟩)
          (entriesPerCluster u.geo) 0 found).Near m := by
        refine slotEntries_near (fun k hk => ?_) fun slot hslot => (hfound slot hslot).2
        have hb := slot_bound (show k<entriesPerCluster u.geo by omega)
        have hle := hR.fits hrel
        exact (show 32*k+32 ≤ m by omega)
      refine alike_state (by rw [hscan]) ?_
      generalize slotEntries want (fun k => direntAt u.clusterBuf (32*k)) (fun k => ⟨c,32*k⟩)
        (entriesPerCluster u.geo) 0 found=r at hguard hnear
      cases r with
      | existing slot de =>
        refine Alike.pure hrel ⟨⟨hguard.1,fun de' hde => ?_⟩,hnear⟩
        rw [← Option.some_inj.mp hde]
        exact hguard.2
      | free slot => exact Alike.pure hrel ⟨⟨hguard,nofun⟩,hnear⟩
      | more found' =>
        refine (hD.get h (hc hlink)).bind_to hD.rel fun next u w h hnext => ?_
        refine Alike.ite (fun _ => ?_) fun _ => ih h hnext fun slot hslot => ⟨hguard slot hslot,hnear slot hslot⟩
        cases found' with
        | some slot => exact Alike.pure (hD.rel u w h) ⟨⟨hguard slot rfl,nofun⟩,hnear slot rfl⟩
        | none => exact alike_extendDir hR (hD.rel u w h) hS
    · cases found with
      | some slot => exact ⟨⟨(hfound slot rfl).1,nofun⟩,(hfound slot rfl).2⟩
      | none => exact ⟨trivial,trivial⟩

theorem alike_findSlotInRoot (hD : DirSteps S rt E R D) (fuel : Nat) (want : List UInt8) (h : D s t)
    (hroot : IsLink s.geo.rootCluster → rt s.geo.rootCluster) :
    Alike R (findSlotInRoot fuel want) (fun r _ => r.Guarded S E ∧ r.Near m) s t :=
  alike_state (by rw [hR.root (hD.rel s t h)]) (alike_findSlotLoop hR hD want fuel h hroot nofun)

theorem alike_putEntry {slot : Slot} {f : (Nat → UInt8) → Nat → UInt8} (h : R s t) (hslot : S slot.cluster)
    (hf : NearOnly m f) : Alike R (putEntry slot f) (fun _ _ => True) s t := by
  refine (hR.read _ h).bind fun b u w h _ => Alike.or_return h fun _ => ?_
  refine (hR.fill h hf).bind fun _ u w h _ => (hR.write h hslot).bind fun b u w h _ => ?_
  exact Alike.return_or h fun _ => Alike.pure h trivial

theorem alike_linkPrev {prev : Nat} (h : R s t) (hprev : prev≠0 → S prev) (hc : S c) :
    Alike R (linkPrev prev c) (fun _ _ => True) s t :=
  Alike.or_return h fun hne => hR.set h (hprev hne) (.inr (.inr hc))

theorem alike_writeLoop (text : List UInt8) (fuel pos first : Nat) {prev : Nat} (h : R s t)
    (hprev : prev≠0 → S prev) : Alike R (writeLoop text fuel pos first prev)
      (fun r _ => ∀ first' prev', r = .ok (first',prev') → prev'≠0 → S prev') s t := by
  induction fuel generalizing pos first prev s t with
  | zero => exact Alike.running h
  | succ fuel ih =>
    refine Alike.ite (fun _ => (hR.alloc h).bind fun c u w h hc => ?_) fun _ => Alike.pure h ?_
    · refine Alike.ite (fun _ => Alike.pure h nofun) fun hne => ?_
      refine (alike_linkPrev hR h hprev (hc hne)).bind fun b u w h _ => ?_
      refine Alike.ite (fun _ => alike_state (by rw [hR.bytes h]) ?_) fun _ => Alike.pure h nofun
      have hle := hR.fits h
      have hlen : 0+((text.drop pos).take (min (text.length-pos) u.geo.clusterBytes)).length ≤ m := by
        rw [List.length_take]
        omega
      refine (hR.fill h ((nearOnly_patch hlen).comp (nearOnly_zeroFront hle))).bind fun _ u w h _ => ?_
      refine (hR.write h (hc hne)).bind fun b u w h _ => ?_
      exact Alike.ite (fun _ => ih _ _ h fun _ => hc hne) fun _ => Alike.pure h nofun
    · intro first' prev' hr
      obtain ⟨_,rfl⟩ : first=first' ∧ prev=prev' := by simpa using hr
      exact hprev

theorem alike_writeData (fuel : Nat) (text : List UInt8) (h : R s t) :
    Alike R (writeData fuel text) (fun _ _ => True) s t := by
  refine (alike_writeLoop hR text fuel 0 0 h fun hne => absurd rfl hne).bind fun r u w h hr => ?_
  rcases r with r | ⟨first,prev⟩
  · exact Alike.pure h trivial
  · refine Alike.or_return h fun hne => ?_
    refine (hR.set h (hr first prev rfl hne) (.inr (.inl rfl))).bind fun b u w h _ => ?_
    exact Alike.return_or h fun _ => Alike.pure h trivial

theorem alike_writeAt (fuel : Nat) (text : List UInt8) {slot : Slot} {existing : Option Dirent} (h : R s t)
    (hkey : key.length=11) (hslot : (SlotResult.found slot existing).Guarded S (EntryLinks S))
    (hnear : slot.Near m) : Alike R (writeAt fuel key text slot existing) (fun _ _ => True) s t := by
  refine (alike_freeOld hR fuel h hslot.2).bind fun _ u w h _ => ?_
  refine (alike_writeData hR fuel text h).bind fun r u w h _ => ?_
  cases r with
  | error r => exact Alike.pure h trivial
  | ok first => exact alike_putEntry hR h hslot.1 (nearOnly_direntBytes hkey hnear)

theorem alike_fat32Write (hD : DirSteps S rt (EntryLinks S) R D) (fuel : Nat) (name text : List UInt8) (h : D s t)
    (hroot : IsLink s.geo.rootCluster → rt s.geo.rootCluster) :
    Alike R (fat32Write fuel name text) (fun _ _ => True) s t := by
  have hrel := hD.rel s t h
  refine alike_state (by rw [hR.mounted hrel]) ?_
  refine Alike.return_or hrel fun _ => Alike.return_or hrel fun _ => ?_
  refine Alike.return_or hrel fun _ => ?_
  refine (alike_findSlotInRoot hR hD fuel _ h hroot).bind fun r u w h hr => ?_
  cases r with
  | noSpace | io => exact Alike.pure h trivial
  | found slot existing =>
    refine Alike.return_or h fun _ => ?_
    exact alike_writeAt hR fuel text h (length_nameTo83 name) hr.1 hr.2

theorem alike_mkdirAt (fuel : Nat) {r : SlotResult} (h : R s t) (hd : S d) (hkey : key.length=11)
    (hr : r.Guarded S E) (hnear : r.Near m) : Alike R (mkdirAt fuel key d r) (fun _ _ => True) s t := by
  have hback : ∀ res : FatResult, Alike R (fatFreeChain fuel d >>= fun _ => pure res) (fun _ _ => True) s t :=
    fun res => (alike_fatFreeChain hR fuel h fun _ => hd).bind fun _ _ _ h _ => Alike.pure h trivial
  rcases r with _ | _ | ⟨slot,_ | de⟩
  · exact hback .io
  · exact hback .noSpace
  · exact alike_putEntry hR h hr.1 (nearOnly_direntBytes hkey hnear)
  · exact hback .exists

theorem alike_mkdirNew (fuel : Nat) (h : R s t) (hroot : ∀ {u w}, R u w → IsLink u.geo.rootCluster → S u.geo.rootCluster)
    (hkey : key.length=11) : Alike R (mkdirNew fuel key) (fun _ _ => True) s t := by
  have hdir : ∀ d, emptyDir s.geo d=emptyDir t.geo d := by
    intro d
    unfold emptyDir
    rw [hR.root h,hR.bytes h]
  have hfits := hR.fits h
  refine alike_state (by simp only [hdir]) ((hR.alloc h).bind fun d u w h hd => ?_)
  refine Alike.return_or h fun hne => ?_
  refine (hR.fill h (nearOnly_emptyDir hR.room hfits d)).bind fun _ u w h _ => ?_
  refine (hR.write h (hd hne)).bind fun b u w h _ => Alike.ite (fun _ => ?_) fun _ => ?_
  · refine (alike_findSlotInRoot hR hR.dir fuel key h (hroot h)).bind fun r u w h hr => ?_
    exact alike_mkdirAt hR fuel h (hd hne) hkey hr.1 hr.2
  · exact (hR.set h (hd hne) (.inl rfl)).bind fun _ _ _ h _ => Alike.pure h trivial

theorem alike_fat32Mkdir (fuel : Nat) (name : List UInt8) (h : R s t)
    (hroot : ∀ {u w}, R u w → IsLink u.geo.rootCluster → S u.geo.rootCluster) :
    Alike R (fat32Mkdir fuel name) (fun _ _ => True) s t := by
  refine alike_state (by rw [hR.mounted h,hR.root h]) ?_
  refine Alike.return_or h fun _ => Alike.return_or h fun _ => ?_
  refine (alike_iterateDir hR (findCb name) fuel h (hroot h)).bind fun r u w h _ => ?_
  cases r with
  | error => exact Alike.pure h trivial
  | hit de => exact Alike.pure h trivial
  | done => exact alike_mkdirNew hR fuel h hroot (length_nameTo83 name)

theorem alike_unlinkCheck (h : R s t) (de : Dirent) : Alike R (unlinkCheck de) (fun _ _ => True) s t := by
  refine Alike.or_return h fun _ => (hR.read de.first h).bind fun b u w h _ => ?_
  refine Alike.or_return h fun _ => ?_
  have hempty : dirIsEmpty (fun k => direntAt u.clusterBuf (32*k)) (entriesPerCluster u.geo) 0 =
      dirIsEmpty (fun k => direntAt w.clusterBuf (32*k)) (entriesPerCluster w.geo) 0 := by
    rw [← hR.entries h]
    exact dirIsEmpty_congr fun k _ hk => hR.direntAt_eq h (by omega)
  refine alike_state (by rw [hempty]) ?_
  exact Alike.return_or h fun _ => Alike.pure h trivial

theorem alike_unlinkAt (fuel : Nat) {slot : Slot} {de : Dirent} (h : R s t) (hslot : S slot.cluster)
    (hde : EntryLinks S de) (hnear : slot.Near m) : Alike R (unlinkAt fuel slot de) (fun _ _ => True) s t := by
  have hmark : slot.offset+[(0xE5 : UInt8)].length ≤ m := Nat.le_trans (Nat.add_le_add_left (by decide) _) hnear
  have hold : ∀ de', some de=some de' → EntryLinks S de' := fun de' heq => Option.some_inj.mp heq ▸ hde
  refine (alike_unlinkCheck hR h de).bind fun r u w h _ => Alike.return_or h fun _ => ?_
  refine (alike_putEntry hR h hslot (nearOnly_patch hmark)).bind fun r u w h _ => ?_
  refine Alike.return_or h fun _ => ?_
  exact (alike_freeOld hR fuel h hold).bind fun _ _ _ h _ => Alike.pure h trivial

theorem alike_fat32Unlink (hD : DirSteps S rt (EntryLinks S) R D) (fuel : Nat) (name : List UInt8) (h : D s t)
    (hroot : IsLink s.geo.rootCluster → rt s.geo.rootCluster) :
    Alike R (fat32Unlink fuel name) (fun _ _ => True) s t := by
  have hrel := hD.rel s t h
  refine alike_state (by rw [hR.mounted hrel]) ?_
  refine Alike.return_or hrel fun _ => Alike.return_or hrel fun _ => ?_
  refine (alike_findSlotInRoot hR hD fuel _ h hroot).bind fun r u w h hr => ?_
  rcases r with _ | _ | ⟨slot,_ | de⟩
  · exact Alike.pure h trivial
  · exact Alike.pure h trivial
  · exact Alike.pure h trivial
  · exact alike_unlinkAt hR fuel h hr.1.1 (hr.1.2 de rfl) hr.2

theorem alike_call (hD : DirSteps S rt (EntryLinks S) R D) (h : D s t)
    (hroot : ∀ {u w}, R u w → IsLink u.geo.rootCluster → rt u.geo.rootCluster) (a : Call) (n : Nat) :
    Alike R (call a n) (fun _ _ => True) s t := by
  have hrel := hD.rel s t h
  cases a with
  | write name text => exact alike_fat32Write hR hD n name text h (hroot hrel)
  | mkdir name => exact alike_fat32Mkdir hR n name hrel fun hrel hlink => hD.sub _ (hroot hrel hlink)
  | unlink name => exact alike_fat32Unlink hR hD n name h (hroot hrel)

end Steps

end MyKernel.Fat32
