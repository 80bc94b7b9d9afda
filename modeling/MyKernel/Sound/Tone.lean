import Mathlib.Logic.Function.Iterate
import MyKernel.Lib.Memory

/-! The test tone of `ac97.c`. -/
namespace MyKernel.Sound
open Memory

def SINE_TABLE_SIZE : Nat := 256
def sampleRate : Nat := 44100

structure Frame where
  phaseAccum : Nat
  sample : Int
  deriving DecidableEq

def advance (freqHz phaseAccum : Nat) : Nat :=
  let phaseAccum := u32 (phaseAccum+freqHz)
  if sampleRate≤phaseAccum then sub32 phaseAccum sampleRate else phaseAccum

def toneSample (sineTable : Nat → Int) (phaseAccum : Nat) : Int :=
  let tablePos := u32 (phaseAccum*SINE_TABLE_SIZE)/sampleRate
  sineTable (tablePos%SINE_TABLE_SIZE)

def toneFrames (sineTable : Nat → Int) (freqHz : Nat) : Nat → Nat → List Frame
  | 0, _ => []
  | n+1, phaseAccum =>
    ⟨phaseAccum,toneSample sineTable phaseAccum⟩::toneFrames sineTable freqHz n (advance freqHz phaseAccum)

inductive Outcome where
  | silent
  | outOfMemory
  | played (samples : List Int)
  deriving DecidableEq

/-- Each frame goes to the left and to the right channel; `kmalloc` tells whether a block of a size can be had. -/
def ac97PlayTestTone (present : Bool) (kmalloc : Nat → Bool) (sineTable : Nat → Int) (freqHz durationMs : Nat) : Outcome :=
  if present then
    let freqHz := if freqHz=0 then 440 else freqHz
    let frameCount := u32 (sampleRate*durationMs)/1000
    if frameCount=0 then .silent
    else if kmalloc (u32 (frameCount*2*2)) then
      .played ((toneFrames sineTable freqHz frameCount 0).flatMap fun frame => [frame.sample,frame.sample])
    else .outOfMemory
  else .silent

def beepFreq : List UInt8 → Nat → Nat
  | [], f => f
  | c::cs, f => if 48≤c.toNat ∧ c.toNat≤57 then beepFreq cs (u32 (f*10+(c.toNat-48))) else f

def cmdBeep97 (present : Bool) (kmalloc : Nat → Bool) (sineTable : Nat → Int) (arg : List UInt8) : Outcome :=
  if present then
    let f := beepFreq arg 0
    let f := if f=0 then 440 else f
    ac97PlayTestTone present kmalloc sineTable f 500
  else .silent

def exactSample (sineTable : Nat → Int) (freqHz i : Nat) : Int := sineTable (256*(i*freqHz%44100)/44100)

/-- At each frame the phase lies below the sample rate, and the sample is the exact one. -/
def TonePhase (sineTable : Nat → Int) (freqHz n : Nat) : Prop :=
  ∀ i frame, (toneFrames sineTable freqHz n 0)[i]?=some frame →
    frame.phaseAccum<44100 ∧ frame.sample=exactSample sineTable freqHz i

variable {sineTable : Nat → Int} {f n i acc : Nat}

theorem advance_exact (h : acc<44100) (hsum : acc+f<4294967296) (hnext : advance f acc<44100) :
    advance f acc=(acc+f)%44100 := by
  unfold advance sampleRate at *
  dsimp only at *
  rw [u32_of_lt hsum] at *
  split at hnext
  next hge =>
    rw [if_pos hge,sub32_of_le hge hsum] at *
    omega
  next hlt =>
    rw [if_neg hlt]
    omega

theorem advance_lt (hf : f≤44100) (h : acc<44100) : advance f acc<44100 := by
  unfold advance sampleRate
  dsimp only
  rw [u32_of_lt (by omega)]
  split
  next hge =>
    rw [sub32_of_le hge (by omega)]
    omega
  next hlt => omega

theorem advance_above (hf : 44100≤f) (hsum : acc+f<4294967296) : advance f acc=acc+(f-44100) := by
  unfold advance sampleRate
  dsimp only
  rw [u32_of_lt hsum,if_pos (by omega),sub32_of_le (by omega) hsum]
  omega

theorem toneSample_eq (sineTable : Nat → Int) (h : acc<44100) :
    toneSample sineTable acc=sineTable (256*acc/44100) := by
  unfold toneSample SINE_TABLE_SIZE sampleRate
  dsimp only
  rw [u32_of_lt (by omega),Nat.mod_eq_of_lt (by omega),Nat.mul_comm]

def phaseAt (f i : Nat) : Nat := (advance f)^[i] 0

theorem phaseAt_succ : phaseAt f (i+1)=advance f (phaseAt f i) := Function.iterate_succ_apply' _ _ _

theorem toneFrames_get : (toneFrames sineTable f n acc)[i]? =
    if i<n then some ⟨(advance f)^[i] acc,toneSample sineTable ((advance f)^[i] acc)⟩ else none := by
  induction n generalizing i acc with
  | zero => rfl
  | succ n ih =>
    cases i with
    | zero => rfl
    | succ i =>
      rw [toneFrames,List.getElem?_cons_succ,ih,Function.iterate_succ_apply]
      by_cases hi : i<n
      · rw [if_pos hi,if_pos (by omega)]
      · rw [if_neg hi,if_neg (by omega)]

/-- A frequency so high that the sum of phase and frequency could wrap has already failed at frame 1. -/
theorem sum_lt (hf : f<4294967296) (h : ∀ j, j ≤ i+1 → phaseAt f j<44100) : phaseAt f i+f<4294967296 := by
  cases i with
  | zero =>
    show 0+f<_
    omega
  | succ i =>
    have hfirst : phaseAt f 1<44100 := h 1 (by omega)
    have hhere := h (i+1) (by omega)
    by_cases hle : f≤44100
    · omega
    · have hone : phaseAt f 1=0+(f-44100) := advance_above (by omega) (by omega)
      omega

theorem phaseAt_exact (hf : f<4294967296) (h : ∀ j, j ≤ i → phaseAt f j<44100) : phaseAt f i=i*f%44100 := by
  induction i with
  | zero => rw [Nat.zero_mul]; rfl
  | succ i ih =>
    have hprev := ih fun j hj => h j (by omega)
    have hnext := h (i+1) (Nat.le_refl _)
    rw [phaseAt_succ] at hnext ⊢
    rw [advance_exact (h i (by omega)) (sum_lt hf h) hnext,hprev,Nat.mod_add_mod,Nat.add_mul,Nat.one_mul]

theorem phaseAt_above (hf : f<4294967296) (hle : 44100≤f) (h : ∀ j, j < i → phaseAt f j<44100) :
    phaseAt f i=i*(f-44100) := by
  induction i with
  | zero => exact (Nat.zero_mul _).symm
  | succ i ih =>
    have hprev := ih fun j hj => h j (by omega)
    have hsum : phaseAt f i+f<4294967296 := by
      cases i with
      | zero =>
        show 0+f<_
        omega
      | succ i =>
        have hhere := h (i+1) (by omega)
        have hstep : f-44100≤(i+1)*(f-44100) := Nat.le_mul_of_pos_left _ (by omega)
        omega
    rw [phaseAt_succ,advance_above hle hsum,hprev,Nat.add_mul,Nat.one_mul]

theorem phaseAt_lt_iff (hf : f<4294967296) : (∀ i, i<n → phaseAt f i<44100) ↔ (n-1)*(f-44100)<44100 := by
  by_cases hle : f≤44100
  · have hall : ∀ i, phaseAt f i<44100 := by
      intro i
      induction i with
      | zero => exact (by decide : 0<44100)
      | succ i ih =>
        rw [phaseAt_succ]
        exact advance_lt hle ih
    rw [Nat.sub_eq_zero_of_le hle,Nat.mul_zero]
    exact iff_of_true (fun i _ => hall i) (by decide)
  · constructor
    · intro h
      cases n with
      | zero => simp
      | succ n =>
        rw [Nat.add_sub_cancel,← phaseAt_above hf (by omega) fun j hj => h j (by omega)]
        exact h n (by omega)
    · intro h i
      -- each frame in turn: the frames before it are below the rate
      induction i using Nat.strongRecOn with
      | ind i ih =>
        intro hi
        rw [phaseAt_above hf (by omega) fun j hj => ih j hj (by omega)]
        exact Nat.lt_of_le_of_lt (Nat.mul_le_mul_right _ (by omega)) h

theorem toneFrames_exact (sineTable : Nat → Int) (hf : f<4294967296) (h : ∀ i, i<n → phaseAt f i<44100) :
    toneFrames sineTable f n 0=(List.range n).map fun i => ⟨i*f%44100,exactSample sineTable f i⟩ := by
  apply List.ext_getElem?
  intro i
  rw [toneFrames_get,List.getElem?_map]
  by_cases hi : i<n
  · have hphase : (advance f)^[i] 0=i*f%44100 := phaseAt_exact hf fun j hj => h j (by omega)
    rw [if_pos hi,List.getElem?_range hi,hphase,toneSample_eq sineTable (Nat.mod_lt _ (by decide))]
    rfl
  · rw [if_neg hi,List.getElem?_eq_none (by rw [List.length_range]; omega)]
    rfl

/-- The tone is exact for every frame exactly if the excess of the frequency over the sample rate, summed up to the
last frame, stays below the sample rate. -/
theorem tone_phase_iff (sineTable : Nat → Int) (freqHz n : Nat) (h : freqHz<4294967296) :
    TonePhase sineTable freqHz n ↔ (n-1)*(freqHz-44100)<44100 := by
  rw [← phaseAt_lt_iff h]
  constructor
  · intro htone i hi
    exact (htone i _ (toneFrames_get.trans (if_pos hi))).1
  · intro hall i frame hframe
    rw [toneFrames_exact sineTable h hall,List.getElem?_map,Option.map_eq_some_iff] at hframe
    obtain ⟨j,hj,rfl⟩ := hframe
    obtain ⟨_,rfl⟩ := List.getElem?_eq_some_iff.mp hj
    rw [List.getElem_range]
    exact ⟨Nat.mod_lt _ (by decide),rfl⟩

/-- The tone of `beep97` without an argument. -/
theorem tone_phase_440 : 440<4294967296 ∧ (TonePhase (fun k => k) 440 22050 ↔ (22050-1)*(440-44100)<44100) :=
  ⟨by decide,tone_phase_iff (fun k => k) 440 22050 (by decide)⟩

/-- Two frames of 88200 Hz: the phase of the second is the sample rate. -/
theorem tone_phase_fails : ¬ ∀ (sineTable : Nat → Int) (freqHz n : Nat), 0<freqHz → freqHz<4294967296 →
    TonePhase sineTable freqHz n := by
  intro h
  have hsecond := h (fun _ => 0) 88200 2 (by decide) (by decide) 1 ⟨44100,0⟩ (by decide)
  exact absurd hsecond.1 (by decide)

/-- What `beep97` sends for a frequency up to the sample rate: half a second of the exact tone on both channels. -/
theorem cmdBeep97_exact {kmalloc : Nat → Bool} {arg : List UInt8} {samples : List Int} (hpos : 0<beepFreq arg 0)
    (hf : beepFreq arg 0≤44100) (h : cmdBeep97 true kmalloc sineTable arg = .played samples) :
    samples=(List.range 22050).flatMap fun i =>
      [exactSample sineTable (beepFreq arg 0) i,exactSample sineTable (beepFreq arg 0) i] := by
  have hlt : ∀ i, i<22050 → phaseAt (beepFreq arg 0) i<44100 :=
    (phaseAt_lt_iff (by omega)).mpr (by rw [Nat.sub_eq_zero_of_le hf]; decide)
  have hcount : u32 (sampleRate*500)/1000=22050 := rfl
  have hfreq : (if beepFreq arg 0=0 then 440 else beepFreq arg 0)=beepFreq arg 0 := if_neg (by omega)
  rw [cmdBeep97,if_pos rfl] at h
  dsimp only at h
  rw [hfreq,ac97PlayTestTone,if_pos rfl] at h
  dsimp only at h
  rw [hfreq,hcount,if_neg (by decide : ¬ 22050=0)] at h
  split at h
  next =>
    rw [toneFrames_exact sineTable (by omega) hlt,List.flatMap_map] at h
    exact (Outcome.played.inj h).symm
  next => cases h

theorem cmdBeep97_exact_one :
    ∃ samples, cmdBeep97 true (fun _ => true) (fun _ => 7) [49] = .played samples ∧ ∀ x∈samples, x=7 := by
  obtain ⟨samples,h⟩ : ∃ samples, cmdBeep97 true (fun _ => true) (fun _ => 7) [49] = .played samples := by
    simp [cmdBeep97,ac97PlayTestTone,beepFreq,u32,sampleRate]
  exact ⟨samples,h,by simp [cmdBeep97_exact (by decide) (by decide) h,exactSample]⟩

end MyKernel.Sound
