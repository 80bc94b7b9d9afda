import MyKernel.Display.Surfaces
import MyKernel.Lib.Loops

/-! What `mk_compose` draws, point by point, against `mk_hit_test`. -/
namespace MyKernel.Display
open Signed Loops

/-- Who has painted a point last; of a client area also which pixel it is. -/
inductive Painter where
  | desktop
  | border (i : Nat)
  | title (i : Nat)
  | client (i k : Nat)
  | panel
  deriving DecidableEq

structure Pixel where
  colour : Nat
  painter : Painter

abbrev Point := Int × Int

abbrev Canvas := Point → Pixel

abbrev Font := UInt8 → Nat → Nat

def bbPut (sc : Screen) (x y : Int) (c : Pixel) (p : Canvas) : Canvas :=
  if toWord x≥toWord sc.w ∨ toWord y≥toWord sc.h then p else fun q => if q=(x,y) then c else p q

/-- The tests that skip a row or a point are those of `bb_put`. -/
def bbRect (sc : Screen) (x y : Int) (w h : Nat) (c : Nat → Nat → Pixel) : Canvas → Canvas :=
  upTo (fun row => upTo (fun col => bbPut sc (wrap32 (x+col)) (wrap32 (y+row)) (c row col)) w) h

def bbFill (sc : Screen) (x y w h : Int) (c : Pixel) : Canvas → Canvas := bbRect sc x y w.toNat h.toNat fun _ _ => c

section Text
variable (sc : Screen) (font : Font)

def bbChar (x y : Int) (c : UInt8) (fg bg : Pixel) : Canvas → Canvas :=
  bbRect sc x y 8 16 fun row col => if (font c row).testBit (7-col) then fg else bg

def textLoop (fg bg : Pixel) (x : Int) : List UInt8 → Int → Int → Canvas → Canvas
  | [], _, _, p => p
  | c::cs, cx, y, p =>
    if c=0x0A then textLoop fg bg x cs x (wrap32 (y+16)) p
    else textLoop fg bg x cs (wrap32 (cx+8)) y (bbChar sc font cx y c fg bg p)

def bbText (x y : Int) (s : List UInt8) (fg bg : Pixel) : Canvas → Canvas := textLoop sc font fg bg x s x y

end Text

inductive Draw where
  | fill (x y w h : Int) (c : Nat)
  | text (x y : Int) (s : List UInt8) (fg bg : Nat)

def Draw.run (sc : Screen) (font : Font) (who : Painter) (p : Canvas) : Draw → Canvas
  | .fill x y w h c => bbFill sc x y w h ⟨c,who⟩ p
  | .text x y s fg bg => bbText sc font x y s ⟨fg,who⟩ ⟨bg,who⟩ p

def titleDraws (s : Surface) (focused : Bool) : List Draw :=
  let titleBg := if focused then 0x00007ACC else 0x00666666
  let cx := wrap32 (wrap32 (s.x+s.w)-22)
  let cy := wrap32 (s.y+4)
  [.fill s.x s.y s.w MK_TITLE_H titleBg,.fill cx cy 16 16 0x00E81123,
    .text (wrap32 (cx+4)) cy [0x58] 0x00FFFFFF 0x00E81123,
    .text (wrap32 (s.x+8)) (wrap32 (s.y+4)) s.title 0x00FFFFFF titleBg]

def drawWindow (sc : Screen) (font : Font) (i : Nat) (s : Surface) (focused : Bool) (p : Canvas) : Canvas :=
  let fh := wrap32 (s.h+MK_TITLE_H)
  let p := bbFill sc (wrap32 (s.x-1)) (wrap32 (s.y-1)) (wrap32 (s.w+2)) (wrap32 (fh+2)) ⟨0x00222222,.border i⟩ p
  let p := (titleDraws s focused).foldl (Draw.run sc font (.title i)) p
  match s.pixels with
  | none => p
  | some pixels => bbRect sc s.x (wrap32 (s.y+MK_TITLE_H)) s.w.toNat s.h.toNat
      (fun row col => ⟨pixels (row*s.w.toNat+col),.client i (row*s.w.toNat+col)⟩) p

def panelDraws (sc : Screen) : List Draw :=
  let y := wrap32 (sc.h-MK_PANEL_H)
  let rx := wrap32 (sc.w-176)
  let sx := wrap32 (sc.w-88)
  [.fill 0 y sc.w MK_PANEL_H 0x001F1F1F,.fill 0 y sc.w 1 0x00444444,
    .fill 4 (wrap32 (y+3)) 88 22 0x00005A9E,.fill 6 (wrap32 (y+5)) 84 18 0x000078D7,
    .text 22 (wrap32 (y+6)) [83,116,97,114,116] 0x00FFFFFF 0x000078D7,
    .fill rx (wrap32 (y+4)) 80 20 0x00C19C00,
    .text (wrap32 (rx+12)) (wrap32 (wrap32 (y+4)+2)) [82,101,98,111,111,116] 0x00FFFFFF 0x00C19C00,
    .fill sx (wrap32 (y+4)) 80 20 0x00C42B1C,
    .text (wrap32 (sx+4)) (wrap32 (wrap32 (y+4)+2)) [83,104,117,116,100,111,119,110] 0x00FFFFFF 0x00C42B1C]

def Surface.shown (s : Surface) : Bool := s.used && s.mapped

def windows (font : Font) (d : Scene) (n : Nat) : Canvas → Canvas :=
  let top := upTo (fun i top => if (d.surf i).shown then some i else top) MK_MAX_SURFACES none
  upTo (fun i p => if (d.surf i).shown then drawWindow d.screen font i (d.surf i) (top=some i) p else p) n

/-- `desktop` is the wallpaper with what the hook for icons adds. -/
def composed (font : Font) (desktop : Point → Nat) (d : Scene) : Canvas :=
  (panelDraws d.screen).foldl (Draw.run d.screen font .panel)
    (windows font d MK_MAX_SURFACES fun q => ⟨desktop q,.desktop⟩)

/-- The hit is what the pixel shows. -/
def Agrees (d : Scene) (c : Pixel) : Option Hit → Prop
  | none => c.painter = .desktop
  | some hit =>
    if hit.onTitle then c.painter = .title hit.id
    else ∃ pixels, (d.surf hit.id).pixels=some pixels ∧ c =
      let k := hit.localY.toNat*(d.surf hit.id).w.toNat+hit.localX.toNat
      ⟨pixels k,.client hit.id k⟩

def within (q : Point) (x y : Int) (w h : Nat) : Bool := toWord (q.2-y)<h && toWord (q.1-x)<w

/-- A character of the text lies on the point. -/
def textAt (q : Point) (x : Int) : List UInt8 → Int → Int → Bool
  | [], _, _ => false
  | c::cs, cx, y =>
    if c=0x0A then textAt q x cs x (wrap32 (y+16)) else within q cx y 8 16 || textAt q x cs (wrap32 (cx+8)) y

def Draw.covers (q : Point) : Draw → Bool
  | .fill x y w h _ => within q x y w.toNat h.toNat
  | .text x y s _ _ => textAt q x s x y

def Surface.titleAt (s : Surface) (q : Point) : Bool :=
  textAt q (wrap32 (s.x+8)) s.title (wrap32 (s.x+8)) (wrap32 (s.y+4))

/-- The ring of one pixel around the window. -/
def Surface.InRing (s : Surface) (q : Point) : Prop :=
  (s.x-1≤q.1 ∧ q.1 ≤ s.x+s.w ∧ s.y-1≤q.2 ∧ q.2 ≤ s.y+24+s.h) ∧
    ¬ (s.x≤q.1 ∧ q.1<s.x+s.w ∧ s.y≤q.2 ∧ q.2<s.y+24+s.h)

/-- A shown surface as `mk_surface_create` makes it, at any position. -/
structure Surface.Made (s : Surface) (sc : Screen) : Prop where
  x : wrap32 s.x=s.x
  y : wrap32 s.y=s.y
  size : ¬ sizeRefused sc s.w s.h
  pixels : s.pixels≠none

/-- A point of a screen that lies in the address space. -/
structure OnScreen (sc : Screen) (q : Point) : Prop where
  fits : 4*(sc.w*sc.h)≤4294967296
  x : 0≤q.1 ∧ q.1<sc.w
  y : 0≤q.2 ∧ q.2<sc.h

/-- Every shown window is as it was made, and the point is on no ring. -/
def Scene.Fair (d : Scene) (q : Point) : Prop :=
  ∀ i<MK_MAX_SURFACES, (d.surf i).shown=true → (d.surf i).Made d.screen ∧ ¬ (d.surf i).InRing q

variable {sc : Screen} {font : Font} {q : Point} {x y : Int} {w h i : Nat} {s : Surface} {d : Scene}

theorem OnScreen.small (hq : OnScreen sc q) :
    (0≤q.1 ∧ q.1<sc.w) ∧ (0≤q.2 ∧ q.2<sc.h) ∧ sc.w≤1073741824 ∧ sc.h≤1073741824 := by
  have hx := hq.x
  have hy := hq.y
  have hfits := hq.fits
  have hw : sc.w*1 ≤ sc.w*sc.h := Int.mul_le_mul_of_nonneg_left (by omega) sc.wide.1
  have hh : 1*sc.h ≤ sc.w*sc.h := Int.mul_le_mul_of_nonneg_right (by omega) sc.tall.1
  omega

theorem bbPut_at (hq : OnScreen sc q) (x y : Int) (c : Pixel) (p : Canvas) :
    bbPut sc x y c p q=if q=(x,y) then c else p q := by
  unfold bbPut
  split
  next hout =>
    refine (if_neg ?_).symm
    rintro rfl
    have hsmall := hq.small
    unfold toWord at hout
    omega
  next => rfl

theorem bbRect_at (hq : OnScreen sc q) (hw : w≤2147483648) (hh : h≤2147483648) (c : Nat → Nat → Pixel) (p : Canvas) :
    bbRect sc x y w h c p q=if within q x y w h then c (toWord (q.2-y)) (toWord (q.1-x)) else p q := by
  have hsmall := hq.small
  have hat : ∀ row col : Nat, row<h → col<w → (q=(wrap32 (x+col),wrap32 (y+row)) ↔
      col=toWord (q.1-x) ∧ row=toWord (q.2-y)) := by
    intro row col hrow hcol
    rw [Prod.ext_iff,wrap32_eq_iff hq.x.1 (by omega) (by omega),wrap32_eq_iff hq.y.1 (by omega) (by omega)]
  have hrow : ∀ row, row<h → ∀ p, upTo (fun col => bbPut sc (wrap32 (x+col)) (wrap32 (y+row)) (c row col)) w p q =
      if row=toWord (q.2-y) then (if toWord (q.1-x)<w then c (toWord (q.2-y)) (toWord (q.1-x)) else p q) else p q := by
    intro row hrow p
    rw [upTo_at (k := toWord (q.1-x))
      (f := fun b => if row=toWord (q.2-y) then c (toWord (q.2-y)) (toWord (q.1-x)) else b)]
    · split <;> split <;> rfl
    · intro col hcol p
      rw [bbPut_at hq]
      have hat := hat row col hrow hcol
      by_cases hc : col=toWord (q.1-x) ∧ row=toWord (q.2-y)
      · rw [if_pos (hat.mpr hc),if_pos hc.1,if_pos hc.2,← hc.1,← hc.2]
      · rw [if_neg (mt hat.mp hc)]
        split
        next hcol => exact (if_neg fun hrow => hc ⟨hcol,hrow⟩).symm
        next => rfl
  rw [bbRect,upTo_at (f := fun b => if toWord (q.1-x)<w then c (toWord (q.2-y)) (toWord (q.1-x)) else b) hrow]
  simp only [within,Bool.and_eq_true,decide_eq_true_eq]
  split
  next hr => exact if_congr (by simp [hr]) rfl rfl
  next hr => exact (if_neg fun hin => hr hin.1).symm

/-- A drawing function that leaves the mark of `who` on the point if `A`, and else nothing. -/
structure Marks (q : Point) (who : Painter) (A : Bool) (f : Canvas → Canvas) : Prop where
  inside : A=true → ∀ p, (f p q).painter=who
  outside : A=false → ∀ p, f p q=p q

theorem Marks.comp {who : Painter} {A B : Bool} {f g : Canvas → Canvas} (hf : Marks q who A f) (hg : Marks q who B g) :
    Marks q who (A || B) fun p => g (f p) := by
  cases B with
  | true => exact ⟨fun _ p => hg.inside rfl (f p),fun h => by simp at h⟩
  | false =>
    rw [Bool.or_false]
    exact ⟨fun h p => (hg.outside rfl (f p)).symm ▸ hf.inside h p,fun h p => (hg.outside rfl (f p)).trans (hf.outside h p)⟩

theorem marks_rect {who : Painter} {c : Nat → Nat → Pixel} (hq : OnScreen sc q) (hw : w≤2147483648)
    (hh : h≤2147483648) (hc : ∀ row col, (c row col).painter=who) :
    Marks q who (within q x y w h) (bbRect sc x y w h c) := by
  constructor
  · intro hin p
    rw [bbRect_at hq hw hh,if_pos hin]
    exact hc _ _
  · intro hout p
    rw [bbRect_at hq hw hh,if_neg (by rw [hout]; decide)]

theorem marks_text (hq : OnScreen sc q) (font : Font) (fg bg : Pixel) (hbg : bg.painter=fg.painter) (x : Int)
    (cs : List UInt8) (cx y : Int) : Marks q fg.painter (textAt q x cs cx y) (textLoop sc font fg bg x cs cx y) := by
  induction cs generalizing cx y with
  | nil => exact ⟨fun h => Bool.noConfusion h,fun _ _ => rfl⟩
  | cons c cs ih =>
    simp only [textAt]
    split
    next hline =>
      have hloop : textLoop sc font fg bg x (c::cs) cx y=textLoop sc font fg bg x cs x (wrap32 (y+16)) := by
        funext p
        rw [textLoop,if_pos hline]
      rw [hloop]
      exact ih _ _
    next hchar =>
      have hloop : textLoop sc font fg bg x (c::cs) cx y =
          fun p => textLoop sc font fg bg x cs (wrap32 (cx+8)) y (bbChar sc font cx y c fg bg p) := by
        funext p
        rw [textLoop,if_neg hchar]
      rw [hloop]
      refine (marks_rect hq (by decide) (by decide) fun row col => ?_).comp (ih _ _)
      split
      · rfl
      · exact hbg

/-- The sides of a rectangle are words. -/
def Draw.small : Draw → Prop
  | .fill _ _ w h _ => w≤2147483648 ∧ h≤2147483648
  | .text _ _ _ _ _ => True

theorem marks_draws (hq : OnScreen sc q) (font : Font) (who : Painter) (ds : List Draw)
    (hsmall : ∀ e∈ds, e.small) : Marks q who (ds.any (Draw.covers q)) (ds.foldl (Draw.run sc font who)) := by
  induction ds with
  | nil => exact ⟨fun h => Bool.noConfusion h,fun _ _ => rfl⟩
  | cons e ds ih =>
    obtain ⟨he,hds⟩ := List.forall_mem_cons.mp hsmall
    have hone : Marks q who (e.covers q) fun p => e.run sc font who p := by
      cases e with
      | fill x y w h c => exact marks_rect hq (by have := he.1; omega) (by have := he.2; omega) fun _ _ => rfl
      | text x y s fg bg => exact marks_text hq font ⟨fg,who⟩ ⟨bg,who⟩ rfl x s x y
    exact hone.comp (ih hds)

theorem within_iff (hq : OnScreen sc q) (hx : -2147483649≤x ∧ x+w≤4294967296) (hy : -2147483649≤y ∧ y+h≤4294967296) :
    within q (wrap32 x) (wrap32 y) w h=true ↔ (x≤q.1 ∧ q.1<x+w) ∧ y≤q.2 ∧ q.2<y+h := by
  have hsmall := hq.small
  have hword : ∀ a b : Int, toWord (a-wrap32 b)=toWord (a-b) := by
    intro a b
    unfold toWord wrap32
    rw [Int.bmod_def]
    split <;> omega
  simp only [within,hword,Bool.and_eq_true,decide_eq_true_eq]
  unfold toWord
  omega

theorem Surface.Made.bounds (hs : s.Made sc) : (40 ≤ s.w ∧ s.w ≤ sc.w) ∧ (20 ≤ s.h ∧ s.h+52 ≤ sc.h) ∧
    (-2147483648 ≤ s.x ∧ s.x≤2147483647) ∧ -2147483648 ≤ s.y ∧ s.y≤2147483647 := by
  have hsize := hs.size
  have hx := wrap32_range s.x
  have hy := wrap32_range s.y
  have htall := sc.tall
  rw [hs.x] at hx
  rw [hs.y] at hy
  unfold sizeRefused MK_TITLE_H MK_PANEL_H at hsize
  rw [wrap32_of_range (x := sc.h-24) (by omega) (by omega),wrap32_of_range (by omega) (by omega)] at hsize
  omega

theorem missed_iff (hs : s.Made sc) (hq : OnScreen sc q) : missed s q.1 q.2 ↔
    ¬ ((s.x≤q.1 ∧ q.1<s.x+s.w) ∧ s.y≤q.2 ∧ q.2<s.y+24+s.h) := by
  obtain ⟨hw,hh,hx,hy⟩ := hs.bounds
  have hsmall := hq.small
  unfold missed MK_TITLE_H
  by_cases hfar : s.x≤q.1 ∧ s.y≤q.2
  · rw [wrap32_of_range (x := s.x+s.w) (by omega) (by omega),wrap32_of_range (x := s.y+24) (by omega) (by omega),
      wrap32_of_range (by omega) (by omega)]
    omega
  · omega

theorem bar_iff (hs : s.Made sc) (hq : OnScreen sc q) : within q s.x s.y s.w.toNat 24=true ↔
    (s.x≤q.1 ∧ q.1<s.x+s.w) ∧ s.y≤q.2 ∧ q.2<s.y+24 := by
  obtain ⟨hw,hh,hx,hy⟩ := hs.bounds
  have hsmall := hq.small
  have hin := within_iff (x := s.x) (y := s.y) (w := s.w.toNat) (h := 24) hq (by omega) (by omega)
  rw [hs.x,hs.y] at hin
  rw [hin]
  omega

theorem marks_title (hs : s.Made sc) (hq : OnScreen sc q) (font : Font) (i : Nat) (focused : Bool) :
    Marks q (.title i) (within q s.x s.y s.w.toNat 24 || s.titleAt q)
      ((titleDraws s focused).foldl (Draw.run sc font (.title i))) := by
  obtain ⟨hw,hh,hx,hy⟩ := hs.bounds
  have hsmall := hq.small
  have hmarks := marks_draws hq font (.title i) (titleDraws s focused) (by simp [titleDraws,Draw.small,MK_TITLE_H]; omega)
  have hclose : wrap32 (wrap32 (s.x+s.w)-22)=wrap32 (s.x+s.w-22) := by
    rw [Int.sub_eq_add_neg,wrap32_wrap32_add,← Int.sub_eq_add_neg]
  have hin := bar_iff hs hq
  have hbutton := within_iff (x := s.x+s.w-22) (y := s.y+4) (w := 16) (h := 16) hq (by omega) (by omega)
  have hcross := within_iff (x := s.x+s.w-22+4) (y := s.y+4) (w := 8) (h := 16) hq (by omega) (by omega)
  have hany : (titleDraws s focused).any (Draw.covers q)=(within q s.x s.y s.w.toNat 24 || s.titleAt q) := by
    rw [Bool.eq_iff_iff]
    simp only [titleDraws,List.any_cons,List.any_nil,Draw.covers,textAt,MK_TITLE_H,hclose,wrap32_wrap32_add,
      show ¬ (0x58 : UInt8)=0x0A by decide,if_false,Bool.or_false,Bool.or_eq_true]
    constructor
    · rintro (htitle | hclose | hcross' | htext)
      · exact .inl htitle
      · exact .inl (hin.mpr (by have := hbutton.mp hclose; omega))
      · exact .inl (hin.mpr (by have := hcross.mp hcross'; omega))
      · exact .inr htext
    · rintro (htitle | htext)
      · exact .inl htitle
      · exact .inr (.inr (.inr htext))
  rwa [hany] at hmarks

theorem client_iff (hs : s.Made sc) (hq : OnScreen sc q) :
    within q s.x (wrap32 (s.y+MK_TITLE_H)) s.w.toNat s.h.toNat=true ↔
      (s.x≤q.1 ∧ q.1<s.x+s.w) ∧ s.y+24≤q.2 ∧ q.2<s.y+24+s.h := by
  obtain ⟨hw,hh,hx,hy⟩ := hs.bounds
  have hsmall := hq.small
  have hin := within_iff (x := s.x) (y := s.y+24) (w := s.w.toNat) (h := s.h.toNat) hq (by omega) (by omega)
  rw [hs.x] at hin
  rw [MK_TITLE_H,hin]
  omega

theorem marks_window (hs : s.Made sc) (hq : OnScreen sc q) (hring : ¬ s.InRing q) (hmiss : missed s q.1 q.2)
    (font : Font) (i : Nat) (focused : Bool) :
    Marks q (.title i) (s.titleAt q) (drawWindow sc font i s focused) := by
  obtain ⟨hw,hh,hx,hy⟩ := hs.bounds
  have hsmall := hq.small
  have hout := (missed_iff hs hq).mp hmiss
  have hclient := mt (client_iff hs hq).mp (by omega)
  have htitle : within q s.x s.y s.w.toNat 24=false := by
    rw [← Bool.not_eq_true,bar_iff hs hq]
    omega
  have hborder := within_iff (x := s.x-1) (y := s.y-1) (w := (s.w+2).toNat) (h := (s.h+24+2).toNat) hq (by omega) (by omega)
  have hborder : within q (wrap32 (s.x-1)) (wrap32 (s.y-1)) (s.w+2).toNat (s.h+24+2).toNat=false := by
    rw [← Bool.not_eq_true,hborder]
    unfold Surface.InRing at hring
    omega
  have hmarks := marks_title hs hq font i focused
  rw [htitle,Bool.false_or] at hmarks
  obtain ⟨pixels,hpixels⟩ := Option.ne_none_iff_exists'.mp hs.pixels
  have hrest : ∀ p, drawWindow sc font i s focused p q=(titleDraws s focused).foldl (Draw.run sc font (.title i))
      (bbFill sc (wrap32 (s.x-1)) (wrap32 (s.y-1)) (s.w+2) (s.h+24+2) ⟨0x00222222,.border i⟩ p) q := by
    intro p
    simp only [drawWindow,hpixels]
    rw [bbRect_at hq (by omega) (by omega),if_neg hclient,MK_TITLE_H,wrap32_wrap32_add,
      wrap32_of_range (x := s.w+2) (by omega) (by omega),wrap32_of_range (x := s.h+24+2) (by omega) (by omega)]
  constructor
  · intro htext p
    rw [hrest]
    exact hmarks.inside htext _
  · intro htext p
    rw [hrest,hmarks.outside htext,bbFill,bbRect_at hq (by omega) (by omega),if_neg (by rw [hborder]; decide)]

theorem drawWindow_hit (hs : (d.surf i).Made d.screen) (hq : OnScreen d.screen q) (hhit : ¬ missed (d.surf i) q.1 q.2)
    (font : Font) (focused : Bool) (p : Canvas) :
    Agrees d (drawWindow d.screen font i (d.surf i) focused p q) (some (surfaceHit i (d.surf i) q.1 q.2)) := by
  obtain ⟨hw,hh,hx,hy⟩ := hs.bounds
  have hsmall := hq.small
  have hin := not_not.mp (mt (missed_iff hs hq).mpr hhit)
  have hclient := client_iff hs hq
  obtain ⟨pixels,hpixels⟩ := Option.ne_none_iff_exists'.mp hs.pixels
  have hbelow : wrap32 ((d.surf i).y+24)=(d.surf i).y+24 := wrap32_of_range (by omega) (by omega)
  simp only [drawWindow,hpixels]
  rw [bbRect_at hq (by omega) (by omega)]
  by_cases hbar : q.2<(d.surf i).y+24
  · have hhit' : (surfaceHit i (d.surf i) q.1 q.2).onTitle=true ∧ (surfaceHit i (d.surf i) q.1 q.2).id=i := by
      rw [surfaceHit,MK_TITLE_H,hbelow,if_pos hbar]
      exact ⟨rfl,rfl⟩
    rw [Agrees,if_pos hhit'.1,hhit'.2,if_neg (by rw [hclient]; omega)]
    refine (marks_title hs hq font i focused).inside ?_ _
    rw [(bar_iff hs hq).mpr (by omega),Bool.true_or]
  · rw [if_pos (hclient.mpr (by omega)),surfaceHit,MK_TITLE_H,hbelow,if_neg hbar,Agrees,if_neg Bool.false_ne_true]
    refine ⟨pixels,hpixels,?_⟩
    have hword : ∀ a : Int, 0≤a → a≤2147483647 → (wrap32 a).toNat=toWord a := by
      intro a h0 h1
      rw [wrap32_of_range (by omega) h1]
      unfold toWord
      omega
    dsimp only
    rw [hword _ (by omega) (by omega),hword _ (by omega) (by omega)]

/-- The text of a title is seen only where a window from its own on is hit. -/
def TitlesHidden (d : Scene) (q : Point) (n : Nat) : Prop :=
  ∀ j<n, (d.surf j).shown=true → (d.surf j).titleAt q=true →
    ∃ k, j≤k ∧ k<n ∧ (d.surf k).shown=true ∧ ¬ missed (d.surf k) q.1 q.2

theorem hitLoop_succ (d : Scene) (x y : Int) (n : Nat) : hitLoop d x y (n+1) =
    if (d.surf n).shown=true ∧ ¬ missed (d.surf n) x y then some (surfaceHit n (d.surf n) x y) else hitLoop d x y n := by
  rw [hitLoop]
  unfold Surface.shown
  cases (d.surf n).used <;> cases (d.surf n).mapped <;> simp

theorem Agrees.not_above {c : Pixel} {n : Nat} (h : Agrees d c (hitLoop d x y n)) : c.painter≠.title n := by
  intro hc
  cases hhit : hitLoop d x y n with
  | none =>
    rw [hhit,Agrees,hc] at h
    cases h
  | some hit =>
    have hlt := (hitLoop_some hhit).1
    rw [hhit,Agrees] at h
    split at h
    · rw [hc,Painter.title.injEq] at h
      omega
    · obtain ⟨pixels,_,rfl⟩ := h
      cases hc

theorem titlesHidden_succ {n : Nat} (hno : ¬ ((d.surf n).shown=true ∧ ¬ missed (d.surf n) q.1 q.2)) :
    TitlesHidden d q (n+1) ↔ TitlesHidden d q n ∧ ¬ ((d.surf n).shown=true ∧ (d.surf n).titleAt q=true) := by
  have hbelow : ∀ {k}, k<n+1 → (d.surf k).shown=true → ¬ missed (d.surf k) q.1 q.2 → k<n := by
    intro k hk hshown hhit
    refine Nat.lt_of_le_of_ne (Nat.le_of_lt_succ hk) ?_
    rintro rfl
    exact hno ⟨hshown,hhit⟩
  constructor
  · intro h
    constructor
    · intro j hj hshown htext
      obtain ⟨k,hjk,hk,hkshown,hhit⟩ := h j (Nat.lt_succ_of_lt hj) hshown htext
      exact ⟨k,hjk,hbelow hk hkshown hhit,hkshown,hhit⟩
    · rintro ⟨hshown,htext⟩
      obtain ⟨k,hnk,hk,hkshown,hhit⟩ := h n (Nat.lt_succ_self n) hshown htext
      have := hbelow hk hkshown hhit
      omega
  · rintro ⟨h,hlast⟩ j hj hshown htext
    have hjn : j<n := Nat.lt_of_le_of_ne (Nat.le_of_lt_succ hj) (by rintro rfl; exact hlast ⟨hshown,htext⟩)
    obtain ⟨k,hjk,hk,hrest⟩ := h j hjn hshown htext
    exact ⟨k,hjk,Nat.lt_succ_of_lt hk,hrest⟩

/-- By induction on the windows drawn so far. -/
theorem windows_agree (hq : OnScreen d.screen q) (hd : d.Fair q) (font : Font) (desktop : Point → Nat) {n : Nat}
    (hn : n≤MK_MAX_SURFACES) :
    Agrees d (windows font d n (fun q => ⟨desktop q,.desktop⟩) q) (hitLoop d q.1 q.2 n) ↔ TitlesHidden d q n := by
  induction n with
  | zero => exact iff_of_true rfl fun j hj => absurd hj (Nat.not_lt_zero j)
  | succ n ih =>
    have ih := ih (Nat.le_of_succ_le hn)
    rw [hitLoop_succ]
    simp only [windows,upTo] at ih ⊢
    by_cases hshown : (d.surf n).shown=true
    · obtain ⟨hmade,hring⟩ := hd n hn hshown
      rw [if_pos hshown]
      by_cases hmiss : missed (d.surf n) q.1 q.2
      · have hmarks := marks_window hmade hq hring hmiss font n
        rw [if_neg fun h => h.2 hmiss,titlesHidden_succ fun h => h.2 hmiss]
        by_cases htext : (d.surf n).titleAt q=true
        · refine iff_of_false (fun h => ?_) fun h => h.2 ⟨hshown,htext⟩
          exact h.not_above ((hmarks _).inside htext _)
        · rw [(hmarks _).outside (Bool.not_eq_true _ ▸ htext),ih]
          exact (and_iff_left fun h => htext h.2).symm
      · rw [if_pos ⟨hshown,hmiss⟩]
        refine iff_of_true (drawWindow_hit hmade hq hmiss font _ _) fun j hj _ _ => ?_
        exact ⟨n,Nat.le_of_lt_succ hj,Nat.lt_succ_self n,hshown,hmiss⟩
    · rw [if_neg hshown,if_neg fun h => hshown h.1,titlesHidden_succ fun h => hshown h.1,ih]
      exact (and_iff_left fun h => hshown h.1).symm

theorem within_above {y : Int} (hq : OnScreen sc q) (hy : q.2<y) (hy' : y≤1073741824) (x : Int) (w : Nat) {h : Nat}
    (hh : h≤1073741824) : within q x (wrap32 y) w h=false := by
  have hsmall := hq.small
  have hlow : ¬ toWord (q.2-wrap32 y)<h := by
    rw [wrap32_of_range (by omega) (by omega)]
    unfold toWord
    omega
  simp [within,hlow]

theorem textAt_above {y : Int} (hq : OnScreen sc q) (hy : q.2<y) (hy' : y≤1073741824) (x cx : Int) {cs : List UInt8}
    (hcs : 0x0A∉cs) : textAt q x cs cx (wrap32 y)=false := by
  induction cs generalizing cx with
  | nil => rfl
  | cons c cs ih =>
    rw [List.mem_cons,not_or] at hcs
    rw [textAt,if_neg (Ne.symm hcs.1),within_above hq hy hy' cx 8 (by decide),ih _ hcs.2]
    rfl

theorem composed_above (hq : OnScreen d.screen q) (habove : q.2<d.screen.h-MK_PANEL_H) (font : Font)
    (desktop : Point → Nat) :
    composed font desktop d q=windows font d MK_MAX_SURFACES (fun q => ⟨desktop q,.desktop⟩) q := by
  have hsmall := hq.small
  unfold MK_PANEL_H at habove
  refine (marks_draws hq font .panel _ ?_).outside ?_ _
  · simp [panelDraws,Draw.small,MK_PANEL_H]
    omega
  · simp (disch := first | omega | decide) [panelDraws,Draw.covers,MK_PANEL_H,within_above hq,textAt_above hq]

/-- For every scene and every point above the panel and off the rings: the hit is what is seen there exactly when the
text of every title on the point is hidden. -/
theorem hit_test_agrees_iff (hq : OnScreen d.screen q) (habove : q.2<d.screen.h-MK_PANEL_H) (hd : d.Fair q)
    (font : Font) (desktop : Point → Nat) :
    Agrees d (composed font desktop d q) (mkHitTest d q.1 q.2) ↔ TitlesHidden d q MK_MAX_SURFACES := by
  rw [composed_above hq habove]
  exact windows_agree hq hd font desktop (Nat.le_refl _)

/-- The first window that is created, with its default title. -/
def firstWindow (w h : Int) : Scene :=
  ⟨⟨640,480,by decide,by decide⟩,fun i => if i=0 then newSurface 0 w h none else ⟨false,0,0,0,0,false,[],none⟩⟩

theorem firstWindow_fair {w h : Int} (hsize : ¬ sizeRefused (firstWindow w h).screen w h)
    (hring : ¬ (newSurface 0 w h none).InRing q) : (firstWindow w h).Fair q := by
  intro i _ hshown
  by_cases hi : i=0
  · simp only [firstWindow,if_pos hi]
    exact ⟨⟨by rfl,by rfl,hsize,by simp [newSurface]⟩,hring⟩
  · simp [firstWindow,hi,Surface.shown] at hshown

theorem hit_test_agrees_client : Agrees (firstWindow 200 100)
    (composed (fun _ _ => 0) (fun _ => 0) (firstWindow 200 100) (60,80)) (some ⟨0,20,16,false,false⟩) := by
  refine (hit_test_agrees_iff (d := firstWindow 200 100) (q := (60,80)) ⟨by decide,by decide,by decide⟩ (by decide)
    (firstWindow_fair (by decide) (by simp [Surface.InRing,newSurface,wrap32])) _ _).mpr fun j hj hshown _ => ?_
  exact ⟨j,Nat.le_refl j,hj,hshown,by revert j; decide⟩

/-- The default title is longer than a window of 40 pixels is wide. -/
theorem hit_test_agrees_fails : ¬ ∀ (d : Scene) (q : Point) (font : Font) (desktop : Point → Nat),
    OnScreen d.screen q → q.2<d.screen.h-MK_PANEL_H → d.Fair q →
    Agrees d (composed font desktop d q) (mkHitTest d q.1 q.2) := by
  intro h
  have hq : OnScreen (firstWindow 40 20).screen (85,50) := ⟨by decide,by decide,by decide⟩
  have hd := firstWindow_fair (w := 40) (h := 20) (q := (85,50)) (by decide) (by simp [Surface.InRing,newSurface,wrap32])
  have hagrees := h (firstWindow 40 20) (85,50) (fun _ _ => 0) (fun _ => 0) hq (by decide) hd
  rw [composed_above hq (by decide)] at hagrees
  have hhidden := (windows_agree hq hd (fun _ _ => 0) (fun _ => 0) (Nat.le_refl MK_MAX_SURFACES)).mp hagrees
  obtain ⟨k,_,hk,hshown,hhit⟩ := hhidden 0 (by decide) (by decide) (by decide)
  revert k
  decide

end MyKernel.Display
