import MyKernel.Lib.Traces
import MyKernel.Display.Surfaces

/-! Where the windows can be. `mk_surface_move` clamps sums that may overflow. -/
namespace MyKernel.Display
open Signed Traces

inductive Call where
  | create (kmalloc : Nat → Bool) (w h : Int32) (title : Option (List UInt8))
  | move (id x y : Int32)
  | destroy (id : Int32)

def step (d : Scene) : Call → Option Scene
  | .create kmalloc w h title => some (mkSurfaceCreate kmalloc d w.toInt h.toInt title).2
  | .move id x y => some (mkSurfaceMove d id.toInt x.toInt y.toInt)
  | .destroy id => some (mkSurfaceDestroy d id.toInt)

def Surface.InArea (s : Surface) (screen : Screen) : Prop :=
  0 ≤ s.x ∧ s.x+s.w ≤ screen.w ∧ 0 ≤ s.y ∧ s.y+24+s.h ≤ screen.h-28

def InWorkArea (d : Scene) : Prop := ∀ i<MK_MAX_SURFACES, (d.surf i).used=true → (d.surf i).InArea d.screen

/-- A new window fits at the place of its slot; the sums of a move stay words. -/
def Fits (d : Scene) : Call → Prop
  | .create kmalloc w h _ => ¬ sizeRefused d.screen w.toInt h.toInt → ∀ id, freeSlot d MK_MAX_SURFACES 0=some id →
      kmalloc (toWord w.toInt*toWord h.toInt*4%4294967296)=true →
      40+24*id+w.toInt≤d.screen.w ∧ 40+24*id+24+h.toInt≤d.screen.h-28
  | .move id x y => ¬ noSurface d id.toInt →
      x.toInt+(d.surf id.toInt.toNat).w≤2147483647 ∧ y.toInt+24+(d.surf id.toInt.toNat).h≤2147483647
  | .destroy _ => True

/-- Every used surface has a size that `mk_surface_create` accepts. -/
def Sized (d : Scene) : Prop := ∀ i<MK_MAX_SURFACES, (d.surf i).used=true → 40≤(d.surf i).w ∧ 20≤(d.surf i).h

variable {d t : Scene} {s : Surface} {id i n : Nat}

@[simp] theorem set_surf (d : Scene) (id i : Nat) (s : Surface) : (d.set id s).surf i=if i=id then s else d.surf i := rfl
@[simp] theorem set_screen (d : Scene) (id : Nat) (s : Surface) : (d.set id s).screen=d.screen := rfl

theorem inWorkArea_set (h : InWorkArea d) (hid : id<MK_MAX_SURFACES) :
    InWorkArea (d.set id s) ↔ (s.used=true → s.InArea d.screen) := by
  constructor
  · intro hset hused
    have hslot := hset id hid
    rw [set_surf,if_pos rfl,set_screen] at hslot
    exact hslot hused
  · intro hs i hi hused
    rw [set_surf,set_screen] at *
    split
    next heq =>
      rw [if_pos heq] at hused
      exact hs hused
    next hne =>
      rw [if_neg hne] at hused
      exact h i hi hused

theorem sized_set (h : Sized d) (hs : s.used=true → 40 ≤ s.w ∧ 20 ≤ s.h) : Sized (d.set id s) := by
  intro i hi hused
  rw [set_surf] at *
  split
  next heq =>
    rw [if_pos heq] at hused
    exact hs hused
  next hne =>
    rw [if_neg hne] at hused
    exact h i hi hused

theorem freeSlot_lt {k : Nat} (h : freeSlot d n k=some id) : id<k+n := by
  induction n generalizing k with
  | zero => cases h
  | succ n ih =>
    rw [freeSlot] at h
    split at h
    · have hlt := ih h
      omega
    · have heq := Option.some_inj.mp h
      omega

theorem slot_lt {j : Int} (h : ¬ noSurface d j) : j.toNat<MK_MAX_SURFACES ∧ (d.surf j.toNat).used=true := by
  unfold noSurface at h
  rw [not_or,not_or,Bool.not_eq_false] at h
  obtain ⟨hneg,hbig,hused⟩ := h
  exact ⟨by omega,hused⟩

theorem newSurface_place (hid : id<MK_MAX_SURFACES) (w h : Int) (title : Option (List UInt8)) :
    (newSurface id w h title).x=40+24*id ∧ (newSurface id w h title).y=40+24*id := by
  have hplace : wrap32 (40+id*24)=40+24*id := by
    unfold MK_MAX_SURFACES at hid
    rw [wrap32_of_range (by omega) (by omega)]
    omega
  simp only [newSurface,hplace,and_self]

theorem create_cases (kmalloc : Nat → Bool) (d : Scene) (w h : Int) (title : Option (List UInt8)) :
    (mkSurfaceCreate kmalloc d w h title).2=d ∧ (sizeRefused d.screen w h ∨ freeSlot d MK_MAX_SURFACES 0=none ∨
      kmalloc (toWord w*toWord h*4%4294967296)=false) ∨
    ∃ id, ¬ sizeRefused d.screen w h ∧ freeSlot d MK_MAX_SURFACES 0=some id ∧
      kmalloc (toWord w*toWord h*4%4294967296)=true ∧
      (mkSurfaceCreate kmalloc d w h title).2=d.set id (newSurface id w h title) := by
  unfold mkSurfaceCreate
  by_cases hsize : sizeRefused d.screen w h
  · rw [if_pos hsize]
    exact .inl ⟨rfl,.inl hsize⟩
  · rw [if_neg hsize]
    cases hslot : freeSlot d MK_MAX_SURFACES 0 with
    | none => exact .inl ⟨rfl,.inr (.inl rfl)⟩
    | some id =>
      dsimp only
      cases hblock : kmalloc (toWord w*toWord h*4%4294967296) with
      | false => exact .inl ⟨rfl,.inr (.inr rfl)⟩
      | true => exact .inr ⟨id,hsize,rfl,rfl,rfl⟩

theorem create_iff (hd : InWorkArea d) (kmalloc : Nat → Bool) (w h : Int32) (title : Option (List UInt8)) :
    InWorkArea (mkSurfaceCreate kmalloc d w.toInt h.toInt title).2 ↔ Fits d (.create kmalloc w h title) := by
  rcases create_cases kmalloc d w.toInt h.toInt title with ⟨hsame,hwhy⟩ | ⟨id,hsize,hslot,hblock,hset⟩
  · rw [hsame]
    refine iff_of_true hd ?_
    intro hsize id hslot hblock
    rcases hwhy with hw | hw | hw
    · exact absurd hw hsize
    · rw [hw] at hslot
      cases hslot
    · rw [hw] at hblock
      cases hblock
  · have hid : id<MK_MAX_SURFACES := by
      have hlt := freeSlot_lt hslot
      omega
    obtain ⟨hx,hy⟩ := newSurface_place hid w.toInt h.toInt title
    rw [hset,inWorkArea_set hd hid]
    constructor
    · intro harea _ id' hslot' _
      obtain rfl := Option.some_inj.mp (hslot.symm.trans hslot')
      obtain ⟨_,hright,_,hbottom⟩ := harea rfl
      rw [hx] at hright
      rw [hy] at hbottom
      exact ⟨hright,hbottom⟩
    · intro hfits _
      obtain ⟨hright,hbottom⟩ := hfits hsize id hslot hblock
      unfold Surface.InArea
      rw [hx,hy]
      exact ⟨by omega,hright,by omega,hbottom⟩

theorem wrap32_sum {a : Int} (h : 0≤a) (h' : a<4294967296) : wrap32 a=if a≤2147483647 then a else a-4294967296 := by
  unfold wrap32
  rw [Int.bmod_def]
  split
  · split <;> omega
  · split <;> omega

/-- What `mk_surface_move` makes of a coordinate, on a side of length `sw`. -/
def clamp (sw w x : Int) : Int :=
  if wrap32 ((if x<0 then 0 else x)+w)>sw then wrap32 (sw-w) else if x<0 then 0 else x

theorem clamp_nonneg {sw w x : Int} (hw : 0<w) (hsw : w ≤ sw) (hsw' : sw≤2147483647) : 0≤clamp sw w x := by
  unfold clamp
  rw [wrap32_of_range (x := sw-w) (by omega) (by omega)]
  split
  · omega
  · split <;> omega

/-- A sum that overflows is negative, so the window stays where the caller put it, beyond the edge. -/
theorem clamp_iff {sw w x : Int} (hw : 0<w) (hsw : w ≤ sw) (hsw' : sw≤2147483647) (hx : x≤2147483647) :
    clamp sw w x+w ≤ sw ↔ x+w≤2147483647 := by
  unfold clamp
  rw [wrap32_of_range (x := sw-w) (by omega) (by omega)]
  by_cases hneg : x<0
  · rw [if_pos hneg,wrap32_of_range (by omega) (by omega),if_neg (by omega)]
    omega
  · rw [if_neg hneg,wrap32_sum (by omega) (by omega)]
    by_cases hfits : x+w≤2147483647
    · rw [if_pos hfits]
      split <;> omega
    · rw [if_neg hfits,if_neg (by omega)]
      omega

/-- The lower edge is the right edge of a window of height `24+h` on a screen of height `sh-28`. -/
theorem move_eq {j x y : Int} (hno : ¬ noSurface d j) (harea : (d.surf j.toNat).InArea d.screen)
    (hh : 20≤(d.surf j.toNat).h) : mkSurfaceMove d j x y=d.set j.toNat { d.surf j.toNat with
      x := clamp d.screen.w (d.surf j.toNat).w x, y := clamp (d.screen.h-28) (24+(d.surf j.toNat).h) y } := by
  obtain ⟨_,_,hy,hbottom⟩ := harea
  have htall := d.screen.tall
  have hpanel : wrap32 (d.screen.h-28)=d.screen.h-28 := wrap32_of_range (by omega) (by omega)
  have hdiff : wrap32 (wrap32 (d.screen.h-28-24)-(d.surf j.toNat).h)=wrap32 (d.screen.h-28-(24+(d.surf j.toNat).h)) := by
    rw [wrap32_of_range (x := d.screen.h-28-24) (by omega) (by omega),Int.sub_sub (d.screen.h-28)]
  have hlast := clamp_nonneg (x := y) (by omega : 0<24+(d.surf j.toNat).h) (by omega : _≤d.screen.h-28) (by omega)
  unfold clamp at hlast ⊢
  unfold mkSurfaceMove MK_TITLE_H MK_PANEL_H
  rw [if_neg hno]
  dsimp only
  rw [hpanel,hdiff,wrap32_wrap32_add,Int.add_assoc,if_neg (Int.not_lt.mpr hlast)]

theorem move_iff (hd : InWorkArea d) (hsized : Sized d) (id x y : Int32) :
    InWorkArea (mkSurfaceMove d id.toInt x.toInt y.toInt) ↔ Fits d (.move id x y) := by
  by_cases hno : noSurface d id.toInt
  · rw [mkSurfaceMove,if_pos hno]
    exact iff_of_true hd fun hyes => absurd hno hyes
  · obtain ⟨hid,hused⟩ := slot_lt hno
    obtain ⟨hw,hh⟩ := hsized _ hid hused
    have harea := hd _ hid hused
    rw [move_eq hno harea hh,inWorkArea_set hd hid]
    obtain ⟨hx0,hxw,hy0,hyh⟩ := harea
    have hwide := d.screen.wide
    have htall := d.screen.tall
    have hx := Int32.toInt_lt x
    have hy := Int32.toInt_lt y
    have hleft := clamp_nonneg (x := x.toInt) (by omega : 0<(d.surf id.toInt.toNat).w) (by omega) hwide.2
    have hright := clamp_iff (x := x.toInt) (by omega : 0<(d.surf id.toInt.toNat).w) (by omega) hwide.2 (by omega)
    have htop := clamp_nonneg (x := y.toInt) (by omega : 0<24+(d.surf id.toInt.toNat).h)
      (by omega : _≤d.screen.h-28) (by omega)
    have hbottom := clamp_iff (x := y.toInt) (by omega : 0<24+(d.surf id.toInt.toNat).h)
      (by omega : _≤d.screen.h-28) (by omega) (by omega)
    rw [← Int.add_assoc,← Int.add_assoc] at hbottom
    unfold Fits Surface.InArea
    dsimp only
    rw [hright,hbottom]
    exact ⟨fun h _ => ⟨(h hused).2.1,(h hused).2.2.2⟩,fun h _ => ⟨hleft,(h hno).1,htop,(h hno).2⟩⟩

theorem destroy_inWorkArea (hd : InWorkArea d) (j : Int) : InWorkArea (mkSurfaceDestroy d j) := by
  unfold mkSurfaceDestroy
  split
  · exact hd
  next hno =>
    rw [inWorkArea_set hd (slot_lt hno).1]
    intro hused
    cases hused

theorem step_sized (hd : Sized d) {c : Call} (h : step d c=some t) : Sized t := by
  cases c with
  | create kmalloc w h' title =>
    obtain rfl := Option.some_inj.mp h
    rcases create_cases kmalloc d w.toInt h'.toInt title with ⟨hsame,_⟩ | ⟨id,hsize,_,_,hset⟩
    · rw [hsame]
      exact hd
    · rw [hset]
      refine sized_set hd fun _ => ?_
      unfold sizeRefused at hsize
      exact ⟨by simp only [newSurface]; omega,by simp only [newSurface]; omega⟩
  | move id x y =>
    obtain rfl := Option.some_inj.mp h
    unfold mkSurfaceMove
    split
    · exact hd
    next hno => exact sized_set hd fun _ => hd _ (slot_lt hno).1 (slot_lt hno).2
  | destroy id =>
    obtain rfl := Option.some_inj.mp h
    unfold mkSurfaceDestroy
    split
    · exact hd
    · refine sized_set hd fun hused => ?_
      cases hused

theorem step_iff (hd : InWorkArea d) (hsized : Sized d) {c : Call} (h : step d c=some t) :
    InWorkArea t ↔ Fits d c := by
  cases c with
  | create kmalloc w h' title =>
    obtain rfl := Option.some_inj.mp h
    exact create_iff hd kmalloc w h' title
  | move id x y =>
    obtain rfl := Option.some_inj.mp h
    exact move_iff hd hsized id x y
  | destroy id =>
    obtain rfl := Option.some_inj.mp h
    exact iff_of_true (destroy_inWorkArea hd id.toInt) trivial

theorem mkInit_inWorkArea (d : Scene) (screen : Screen) : InWorkArea (mkInit d screen) := fun _ _ hused => by cases hused

theorem mkInit_sized (d : Scene) (screen : Screen) : Sized (mkInit d screen) := fun _ _ hused => by cases hused

theorem work_area_iff (d : Scene) (screen : Screen) (calls : List Call) :
    Always step InWorkArea calls (mkInit d screen) ↔ EachStep step Fits calls (mkInit d screen) := by
  refine always_iff (I := Sized) ?_ ?_ (mkInit_sized d screen) (mkInit_inWorkArea d screen)
  · intro s c hsized hs
    obtain ⟨t,ht⟩ : ∃ t, step s c=some t := by
      cases c <;> exact ⟨_,rfl⟩
    rw [← step_iff hs hsized ht]
    constructor
    · intro h
      exact h t ht
    · intro h t' ht'
      rw [← Option.some_inj.mp (ht.symm.trans ht')]
      exact h
  · intro s c t hsized _ _ ht
    exact step_sized hsized ht

/-- A window of 780 by 20 on a screen of 800 by 600 starts at 40 and ends at 820. -/
theorem work_area_fails : ¬ ∀ (d : Scene) (screen : Screen) (calls : List Call),
    Always step InWorkArea calls (mkInit d screen) := by
  intro h
  let screen : Screen := ⟨800,600,by decide,by decide⟩
  let d : Scene := ⟨screen,fun _ => ⟨false,0,0,0,0,false,[],none⟩⟩
  have hcall := always_nil.mp ((always_cons.mp (h d screen [.create (fun _ => true) 780 20 none])).2 _ rfl)
  have hfits := (create_iff (mkInit_inWorkArea d screen) (fun _ => true) 780 20 none).mp hcall
  have hright := (hfits (by decide) 0 rfl rfl).1
  revert hright
  decide

end MyKernel.Display
