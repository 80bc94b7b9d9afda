import MyKernel.Fat32.Flood
import MyKernel.Install.BootCode
import MyKernel.Lib.Traces

/-! The raw kernel image lies in clusters that the table shows as free. -/
namespace MyKernel.Install
open Memory MyKernel.Computation Disk Fat32 Traces

variable {s s₀ t : Fat} {V : View} {b : Blobs} {kernel : List UInt8} {fuel k n : Nat} {a : Call × Nat}

theorem rawWrite_keeps (h : Ideal s.ata) (lba : Nat) (buf : Nat → UInt8) :
    Ensures (fun t => Ideal t.ata) (rawWrite lba buf) (fun _ _ => True) s := by
  refine ⟨?_,fun _ _ => trivial⟩
  rw [rawWrite,ataWriteSectors_ideal h (by decide)]
  exact h

theorem writeRaw_keeps {data : List UInt8} {lba off : Nat} (h : Ideal s.ata) :
    Ensures (fun t => Ideal t.ata) (writeRaw data fuel lba off) (fun _ _ => True) s := by
  induction fuel generalizing lba off s with
  | zero => exact Ensures.running h
  | succ fuel ih =>
    rw [writeRaw]
    split
    · apply Ensures.bind (rawWrite_keeps h _ _)
      intro ok t ht _
      split
      · exact ih ht
      · exact Ensures.pure ht trivial
    · exact Ensures.pure h trivial

theorem partCreateMbrFat32_keeps (h : Ideal s.ata) :
    Ensures (fun t => Ideal t.ata) (partCreateMbrFat32 PART_START PART_SIZE) (fun _ _ => True) s :=
  Ensures.of_eq (partCreateMbrFat32_ideal h) h trivial

theorem partCreateGptFat32_keeps (h : Ideal s.ata) :
    Ensures (fun t => Ideal t.ata) (partCreateGptFat32 PART_START PART_SIZE) (fun _ _ => True) s :=
  Ensures.of_eq (partCreateGptFat32_ideal h) h trivial

theorem installBootloader_keeps (h : Ideal s.ata) :
    Ensures (fun t => Ideal t.ata) (installBootloader fuel b) (fun _ _ => True) s := by
  have hstage2 : ∀ u : Fat, Ideal u.ata →
      Ensures (fun t => Ideal t.ata) (installStage2 fuel b.stage2) (fun _ _ => True) u := by
    intro u hu
    rw [installStage2]
    split
    · exact writeRaw_keeps hu
    · exact Ensures.pure hu trivial
  rw [installBootloader]
  split
  · apply Ensures.bind (partCreateMbrFat32_keeps h)
    intro _ t ht _
    exact hstage2 t ht
  · apply Ensures.bind (rawWrite_keeps h _ _)
    intro ok t ht _
    split
    · exact hstage2 t ht
    · exact Ensures.pure ht trivial

theorem installBoot_keeps (fuel : Nat) (h : Ideal s.ata) :
    Ensures (fun t => Ideal t.ata) (installBoot b fuel) (fun _ _ => True) s := by
  rw [installBoot]
  apply Ensures.bind (installBootloader_keeps h)
  intro ok t ht _
  split
  · apply Ensures.bind (partCreateGptFat32_keeps ht)
    intro _ u hu _
    apply Ensures.bind (partCreateMbrFat32_keeps hu)
    intro _ w hw _
    exact installBootloader_keeps hw
  · exact Ensures.pure ht trivial

theorem installed (h : Ideal s₀.ata) (hrun : Returns (installRun b) s₀ true s) (hne : b.kernel≠[])
    (hle : b.kernel.length≤4194304) : ∃ V, Seeded s.ata.disk 12 V s ∧ ImageKept b.kernel s := by
  obtain ⟨n,hn,hrun⟩ := hrun.at_least (mono_installRun b) (kernelSectors b.kernel+32701)
  have hpresent : ¬ (!s₀.ata.present)=true := by simp [h.1]
  rw [installRun,state_bind,if_neg hpresent] at hrun
  obtain ⟨ok,s1,hboot,hrest⟩ := bind_ended hrun
  have hideal := (installBoot_keeps (b := b) n h).1
  rw [hboot] at hideal
  cases ok with
  | false => simp at hrest
  | true =>
    obtain ⟨t,V,hvolume,hseed,himage⟩ := installVolume_ideal (b := b) hideal (show 32700<n by omega) (by omega)
    rw [if_pos rfl,hvolume] at hrest
    obtain rfl : t=s := by simpa using hrest
    exact ⟨V,⟨hseed.sees,hseed.low,hseed.sound,fun _ _ => rfl⟩,himage hne hle⟩

/-- Nothing from cluster 701 on is in use, and the image is there. -/
def Guards (kernel : List UInt8) (s : Fat) : Prop :=
  (∃ V, Sees s installGeo V ∧ Low installGeo 700 V ∧ ∃ rc ch, Sound installGeo V rc ch) ∧ ImageKept kernel s

theorem Guards.call (hk : kernel.length≤4194304) (h : Guards kernel s) (h0 : 0∉a.1.name)
    (hspare : Spare installGeo 700 (viewOf s)) (hend : ended s a=some t) : Guards kernel t := by
  obtain ⟨⟨V,hsees,hlow,rc,ch,hs⟩,himage⟩ := h
  have hspare' := hsees.spare_iff.mp hspare
  obtain ⟨r,hcall⟩ := call_of_ended hend
  obtain ⟨r',t',W,hrun,ht,hW,rc',ch',hs',_⟩ := call_stillSound hs hlow hspare' a.1 hsees
    (by decide) h0 (show installGeo.totalClusters<a.2+32701 by rw [totalClusters_install]; omega)
  have hmore := (mono_call a.1).le (Nat.le_add_right a.2 32701) s r t hcall
  obtain ⟨_,rfl⟩ : r=r' ∧ t=t' := by simpa using hmore.symm.trans hrun
  exact ⟨⟨W,ht,hlow.above hW,rc',ch',hs'⟩,himage.of_above hk hsees ht (by decide) (by decide) hW⟩

/-- The image is kept through every run of calls each of which finds two free clusters below 701. -/
theorem kernel_image_kept (h : Ideal s₀.ata) (hrun : Returns (installRun b) s₀ true s) (hne : b.kernel≠[])
    (hle : b.kernel.length≤4194304) (calls : List (Call × Nat)) (hnames : ∀ a∈calls, 0∉a.1.name)
    (hspare : EachStep ended (fun t _ => Spare installGeo 700 (viewOf t)) calls s) :
    Always ended (ImageKept b.kernel) calls s := by
  obtain ⟨V,hseed,himage⟩ := installed h hrun hne hle
  obtain ⟨rc,ch,hs,_⟩ := hseed.sound
  have hlow : Low installGeo 700 V := hseed.low.mono (by decide)
  have hguards : Guards b.kernel s := ⟨⟨V,hseed.sees,hlow,rc,ch,hs⟩,himage⟩
  have hsteps : EachStep ended (fun t a => 0∉a.1.name ∧ Spare installGeo 700 (viewOf t)) calls s := by
    intro pre a post t hsplit ht
    exact ⟨hnames a (by simp [hsplit]),hspare pre a post t hsplit ht⟩
  have hall := always_of_eachStep (I := Guards b.kernel)
    (fun s a t hg hq hend => hg.call hle hq.1 hq.2 hend) hguards hsteps
  intro pre post t hsplit ht
  exact (hall pre post t hsplit ht).2

def tinyKernel : Blobs := ⟨[],[],[0],by decide⟩

/-- A file written to a new installation. -/
theorem kernel_image_kept_write : ∃ s, Returns (installRun tinyKernel) (attachedTo fun _ => zeros) true s ∧
    Always ended (ImageKept [0]) [(.write [0x41] [0x42],32701)] s := by
  obtain ⟨fuel,s,V,hrun,hseed,_⟩ := installRun_unlinked (b := tinyKernel) (s := attachedTo fun _ => zeros)
    rfl rfl (ideal_attachedTo _)
  have hspare : Spare installGeo 700 (viewOf s) :=
    hseed.sees.spare_iff.mpr ((hseed.low.spare (by decide) (by decide)).mono (by decide))
  refine ⟨s,⟨fuel,hrun⟩,kernel_image_kept (b := tinyKernel) (ideal_attachedTo _) ⟨fuel,hrun⟩ (by decide)
    (by decide) _ (by decide) ?_⟩
  rw [eachStep_cons]
  exact ⟨hspare,fun _ _ => eachStep_nil⟩

/-- A name of two characters for each of the numbers below 702. -/
def floodName (k : Nat) : List UInt8 := [byteOf (0x41+k%26) 0,byteOf (0x41+k/26) 0]

def floodCalls (n k : Nat) : List (Call × Nat) :=
  (List.range' k n).map fun j => (.write (floodName j) [1],32701)

theorem flood_letter : ∀ i, i<27 → byteOf (0x41+i) 0≠0 ∧ byteOf (0x41+i) 0≠0x2E ∧
    upper (byteOf (0x41+i) 0)=byteOf (0x41+i) 0 := by
  decide

theorem nameTo83_flood (k : Nat) (hk : k<702) : nameTo83 (floodName k)=floodName k++List.replicate 9 0x20 := by
  obtain ⟨_,hdot,hupper⟩ := flood_letter (k%26) (by omega)
  obtain ⟨_,hdot',hupper'⟩ := flood_letter (k/26) (by omega)
  simp [nameTo83,baseOf,extOf,padTo,floodName,hdot,hdot',hupper,hupper']

theorem flood_not_seed (hk : k<702) : nameTo83 (floodName k)∉seedKeys := by
  have hseed : ∀ key∈seedKeys, key.getD 2 0≠0x20 := by decide
  intro hmem
  have hne := hseed _ hmem
  rw [nameTo83_flood k hk] at hne
  exact hne rfl

theorem flood_injective {j : Nat} (hj : j<702) (hk : k<702)
    (h : nameTo83 (floodName j)=nameTo83 (floodName k)) : j=k := by
  rw [nameTo83_flood j hj,nameTo83_flood k hk] at h
  have hnames := List.append_cancel_right h
  simp only [floodName,List.cons.injEq,and_true] at hnames
  have hfirst := congrArg UInt8.toNat hnames.1
  have hsecond := congrArg UInt8.toNat hnames.2
  simp only [toNat_byteOf,Nat.mul_zero,Nat.shiftRight_zero] at hfirst hsecond
  omega

theorem flood_nonzero (k : Nat) (hk : k<702) : 0∉floodName k := by
  have hfirst := (flood_letter (k%26) (by omega)).1
  have hsecond := (flood_letter (k/26) (by omega)).1
  simp [floodName,Ne.symm hfirst,Ne.symm hsecond]

/-- As long as the image stands, every file takes a cluster below it. -/
theorem flood_le {rc : List Nat} {ch : Nat → List Nat} (h : Sees s installGeo V) (hs : Sound installGeo V rc ch)
    (hlow : Low installGeo 700 V) (hk : k+n≤702)
    (hnew : ∀ j, k≤j → j<702 → filesOf installGeo V rc ch (nameTo83 (floodName j))=none)
    (hkept : Always ended (ImageKept kernel) (floodCalls n k) s) : n≤(lowFree installGeo 700 V).card := by
  induction n generalizing k s V rc ch with
  | zero => exact Nat.zero_le _
  | succ n ih =>
    obtain ⟨r,t,U,hrun,ht,⟨rc',ch',hs',hsame⟩,hcross⟩ := fat32Write_crosses (o := 3584)
      h hs hlow (by decide) (by decide) (show installGeo.totalClusters<32701 by decide) (List.cons_ne_nil _ _)
      (flood_nonzero k (by omega)) (show 0<([1] : List UInt8).length by decide) (by decide) (by decide) (by decide) (by decide)
      (hnew k (Nat.le_refl k) (by omega))
    have hcalls : floodCalls (n+1) k=(.write (floodName k) [1],32701)::floodCalls n (k+1) := rfl
    rw [hcalls,always_cons] at hkept
    have hrest := hkept.2 t (ended_eq hrun)
    have himage := hrest [] _ t rfl rfl
    -- the first byte of the meta sector is not zero
    have hbyte : U.data 701 3584=0x4C := by
      have hin : InVolume installGeo 701 := ⟨by decide,by decide⟩
      have hheader := himage.header 0 (by decide)
      rw [← ht.data 701 hin 3584 (by decide),dataOf_eq ht.area hin]
      exact hheader
    cases hcross with
    | inl hzero => exact absurd (hbyte.symm.trans hzero) (by decide)
    | inr hfewer =>
      have hnew' : ∀ j, k+1≤j → j<702 → filesOf installGeo U rc' ch' (nameTo83 (floodName j))=none := by
        intro j hj hlt
        rw [hsame _ fun he => absurd (flood_injective hlt (by omega) he) (by omega)]
        exact hnew j (by omega) hlt
      have hle := ih ht hs' (hlow.above hfewer.1) (by omega) hnew' hrest
      have hcard := Finset.card_lt_card hfewer.2
      omega

/-- The image of a kernel of one byte does not survive 702 files of one byte. -/
theorem kernel_image_lost : ¬ ∀ (b : Blobs) (s₀ s : Fat), Ideal s₀.ata → Returns (installRun b) s₀ true s →
    b.kernel≠[] → b.kernel.length≤4194304 → ∀ calls : List (Call × Nat), (∀ a∈calls, 0∉a.1.name) →
    Always ended (ImageKept b.kernel) calls s := by
  intro hall
  obtain ⟨fuel,s,V,hrun,hseed,_⟩ := installRun_unlinked (b := tinyKernel) (s := attachedTo fun _ => zeros)
    rfl rfl (ideal_attachedTo _)
  obtain ⟨rc,ch,hs,hnone⟩ := hseed.sound
  have hlow : Low installGeo 700 V := hseed.low.mono (by decide)
  have hnames : ∀ a∈floodCalls 702 0, 0∉a.1.name := by
    intro a ha
    obtain ⟨k,hk,rfl⟩ := List.mem_map.mp ha
    exact flood_nonzero k (by have := List.mem_range'_1.mp hk; omega)
  have hkept := hall tinyKernel _ s (ideal_attachedTo _) ⟨fuel,hrun⟩ (by decide) (by decide)
    (floodCalls 702 0) hnames
  have hmany := flood_le hseed.sees hs hlow (Nat.le_refl 702)
    (fun j _ hj => hnone _ (flood_not_seed hj)) hkept
  have hfew := card_lowFree_le (g := installGeo) (m := 700) (V := V)
  omega

end MyKernel.Install
