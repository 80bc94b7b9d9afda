import MyKernel.Sched.Invariant

/-! Round robin: every switch brings the current task closer to a ready one. -/
namespace MyKernel.Sched
open Kmalloc Cyclic

variable {s t : Scheduler} {j n : Nat}

def distanceTo (s : Scheduler) (j : Nat) : Nat :=
  distance SCHED_MAX_TASKS (s.tasks s.current).id j

/-- A run in which task `j` is never the current one, with the number of its switches. -/
inductive Bypass (j : Nat) : Sys → Nat → Sys → Prop where
  | start (s : Sys) : Bypass j s 0 s
  | stay {s t u : Sys} {n : Nat} (a : Act) (hr : Bypass j s n t) (h : Stepped t a u)
      (hcur : u.sched.current=t.sched.current) : Bypass j s n u
  | switch {s t u : Sys} {n : Nat} (a : Act) (hr : Bypass j s n t) (h : Stepped t a u)
      (hcur : u.sched.current≠t.sched.current) (hj : u.sched.current≠j) : Bypass j s (n+1) u

theorem SchedInv.distanceTo_eq (hi : SchedInv s) : distanceTo s j=distance SCHED_MAX_TASKS s.current j := by
  rw [distanceTo,hi.ids s.current hi.bound]

theorem SchedInv.ready_ne (hi : SchedInv s) (hready : stateOf s j = .ready) : s.current≠j := by
  intro he
  apply hi.not_ready
  rw [he]
  exact hready

theorem Step.stays_ready (h : Step s t) (hi : SchedInv s) (hready : stateOf s j = .ready)
    (hne : t.current≠j) : stateOf t j = .ready := by
  cases h.effect with
  | same hcur hst => rw [hst,hready]
  | spawned i hpos hlt hfree hcur hst =>
    rw [hst]
    split
    · rfl
    · exact hready
  | switched left hleft hnext hst => rw [hst,if_neg hne.symm,if_neg (hi.ready_ne hready).symm,hready]

theorem Step.closer (h : Step s t) (hi : SchedInv s) (hj : j<SCHED_MAX_TASKS)
    (hready : stateOf s j = .ready) (hcur : t.current≠s.current) : distanceTo t j<distanceTo s j := by
  rw [(h.inv hi).distanceTo_eq,hi.distanceTo_eq]
  cases h.effect with
  | same hsame hst => exact absurd hsame hcur
  | spawned i hpos hlt hfree hsame hst => exact absurd hsame hcur
  | switched left hleft hnext hst =>
    have hne := hi.ready_ne hready
    by_cases htj : t.current=j
    · rw [htj,distance_of_le (Nat.le_refl j) hj,Nat.sub_self]
      exact distance_pos hi.bound hj hne
    · exact firstAfter_closer hi.bound hj hne (isReady_eq.mpr hready) hnext htj

/-- The switches so far have been paid for with distance. -/
theorem Bypass.distance_le {s t : Sys} (hb : Bypass j s n t) (hi : SchedInv s.sched)
    (hj : j<SCHED_MAX_TASKS) (hready : stateOf s.sched j = .ready) :
    SchedInv t.sched ∧ stateOf t.sched j = .ready ∧
      n+distanceTo t.sched j≤distanceTo s.sched j := by
  induction hb with
  | start => exact ⟨hi,hready,by omega⟩
  | stay a hr h hcur ih =>
    obtain ⟨hit,hrt,hle⟩ := ih
    obtain ⟨kmalloc,bootstrap,h⟩ := h
    have hstep := act_step hit h
    have hiu := hstep.inv hit
    refine ⟨hiu,hstep.stays_ready hit hrt ?_,?_⟩
    · rw [hcur]
      exact hit.ready_ne hrt
    · rw [hiu.distanceTo_eq,hcur,← hit.distanceTo_eq]
      exact hle
  | switch a hr h hcur hne ih =>
    obtain ⟨hit,hrt,hle⟩ := ih
    obtain ⟨kmalloc,bootstrap,h⟩ := h
    have hstep := act_step hit h
    have hlt := hstep.closer hit hj hrt hcur
    exact ⟨hstep.inv hit,hstep.stays_ready hit hrt hne,by omega⟩

theorem yield_switches (hi : SchedInv s) (hj : j<SCHED_MAX_TASKS) (hready : stateOf s j = .ready) :
    (schedYield s).current≠s.current := by
  obtain ⟨next,_,hpick,hne⟩ := hi.picks hj hready
  rw [schedYield,schedule]
  simp only [hi.enabled,Bool.not_true,Bool.false_eq_true,if_false]
  rw [hpick,if_neg hne]
  exact hne

theorem tick_switches (hi : SchedInv s) (hj : j<SCHED_MAX_TASKS) (hready : stateOf s j = .ready)
    (hslice : TICKS_PER_SLICE ≤ s.ticksSlice+1) : (schedOnTick s).current≠s.current := by
  have hs := tickCurrent_same (s := s) 0
  obtain ⟨next,_,hpick,hne⟩ := (hs.inv hi).picks hj ((hs.states j).trans hready)
  have hslice' : TICKS_PER_SLICE≤(tickCurrent s).ticksSlice := hslice
  rw [schedOnTick]
  simp only [hi.enabled,Bool.not_true,Bool.false_eq_true,if_false,if_pos hslice']
  rw [hpick,if_neg hne]
  exact hne

/-- A ready task is passed over fewer than `SCHED_MAX_TASKS` times: every switch comes closer to
it. While a task is ready, `sched_yield` and the tick that completes a slice do switch. -/
theorem round_robin_bypass (s : Sys) (j : Nat) (hr : SchedReachable s) (hj : j<SCHED_MAX_TASKS)
    (hready : stateOf s.sched j = .ready) :
    (∀ n t, Bypass j s n t → n<SCHED_MAX_TASKS ∧
      ∀ a u, Stepped t a u → u.sched.current≠t.sched.current →
        distanceTo u.sched j<distanceTo t.sched j) ∧
    (schedYield s.sched).current≠s.sched.current ∧
    (TICKS_PER_SLICE ≤ s.sched.ticksSlice+1 → (schedOnTick s.sched).current≠s.sched.current) := by
  have hi := schedReachable_inv hr
  refine ⟨?_,yield_switches hi hj hready,tick_switches hi hj hready⟩
  intro n t hb
  obtain ⟨hit,hrt,hle⟩ := hb.distance_le hi hj hready
  have hlt : distanceTo s.sched j<SCHED_MAX_TASKS := distance_lt (by decide)
  constructor
  · omega
  · rintro a u ⟨kmalloc,bootstrap,h⟩ hcur
    exact (act_step hit h).closer hit hj hrt hcur

/-- Two workers: the second is ready while the first one runs. -/
theorem round_robin_bypass_two_workers :
    ∃ s, runActs Kmalloc.kmalloc 0x100000 [.spawn ⟨none,0,0⟩,.spawn ⟨none,0,0⟩,.yield] bootSys =
        some s ∧ s.sched.current=1 ∧ stateOf s.sched 2 = .ready ∧
      (schedYield s.sched).current≠s.sched.current := by
  obtain ⟨s,hs,h1,h2⟩ : ∃ s, runActs Kmalloc.kmalloc 0x100000
      [.spawn ⟨none,0,0⟩,.spawn ⟨none,0,0⟩,.yield] bootSys=some s ∧ s.sched.current=1 ∧
      stateOf s.sched 2 = .ready := ⟨_,rfl,rfl,rfl⟩
  have hr : SchedReachable s := reachable_runActs (.init ⟨_,rfl⟩) hs
  exact ⟨s,hs,h1,h2,(round_robin_bypass s 2 hr (by decide) h2).2.1⟩

end MyKernel.Sched
