import MyKernel.Lib.Painting
import MyKernel.Lib.Signed

/-! The mouse pointer, drawn on the framebuffer only. -/
namespace MyKernel.Display
open Signed Painting Loops

/-- `if ((unsigned)x >= w || (unsigned)y >= h) return; p[y * w + x] = c;`. -/
def putPixel {β : Type} (w h : Nat) (x y : Int) (c : β) (p : Nat → β) : Nat → β :=
  if toWord x≥w ∨ toWord y≥h then p
  else fun i => if i=(toWord y*w+toWord x)%4294967296 then c else p i

/-- The framebuffer lies in the address space. -/
structure VbeInfo where
  active : Bool
  lfb : Nat
  width : Nat
  height : Nat
  fits : 4*(width*height)≤4294967296

def VbeInfo.off (vi : VbeInfo) : Prop := vi.active=false ∨ vi.lfb=0

instance (vi : VbeInfo) : Decidable vi.off := inferInstanceAs (Decidable (_ ∨ _))

def vbePutpixel (vi : VbeInfo) (x y : Int) (c : Nat) (fb : Nat → Nat) : Nat → Nat :=
  if vi.off then fb else putPixel vi.width vi.height x y c fb

def lfbGet (vi : VbeInfo) (fb : Nat → Nat) (x y : Int) : Nat :=
  if vi.off then 0
  else if toWord x≥vi.width ∨ toWord y≥vi.height then 0
  else fb ((toWord y*vi.width+toWord x)%4294967296)

def MK_CURSOR_W : Nat := 12
def MK_CURSOR_H : Nat := 20

def cursorMask (row col : Nat) : Nat :=
  (([[1],[1,1],[1,2,1],[1,2,2,1],[1,2,2,2,1],[1,2,2,2,2,1],[1,2,2,2,2,2,1],
    [1,2,2,2,2,2,2,1],[1,2,2,2,2,2,2,2,1],[1,2,2,2,2,2,1,1,1,1],[1,2,2,1,2,2,1],
    [1,2,1,0,1,2,2,1],[1,1,0,0,1,2,2,1],[1,0,0,0,0,1,2,2,1],[0,0,0,0,0,1,2,2,1],
    [0,0,0,0,0,0,1,2,2,1],[0,0,0,0,0,0,1,2,2,1],[0,0,0,0,0,0,0,1,1]] : List (List Nat)).getD
    row []).getD col 0

structure Frame where
  active : Bool
  backOk : Bool
  sw : Int
  sh : Int
  back : Nat → Nat
  vi : VbeInfo
  fb : Nat → Nat
  under : Nat → Nat
  ux : Int
  uy : Int
  underValid : Bool

def maskLoop (vi : VbeInfo) (x y : Int) (c : Nat → Nat → Nat) : (Nat → Nat) → Nat → Nat :=
  upTo (fun row => upTo (fun col fb =>
    if cursorMask row col=0 then fb else vbePutpixel vi (wrap32 (x+col)) (wrap32 (y+row)) (c row col) fb)
    MK_CURSOR_W) MK_CURSOR_H

def cursorRestoreUnder (d : Frame) : Frame :=
  if d.underValid=false ∨ d.active=false then d
  else { d with
    fb := maskLoop d.vi d.ux d.uy (fun row col => d.under (row*MK_CURSOR_W+col)) d.fb
    underValid := false }

def cursorSaveUnder (d : Frame) (x y : Int) : Frame :=
  if d.active=false then d
  else { d with
    under := upTo (fun row => upTo (fun col u i =>
      if i=row*MK_CURSOR_W+col then lfbGet d.vi d.fb (wrap32 (x+col)) (wrap32 (y+row)) else u i) MK_CURSOR_W)
      MK_CURSOR_H d.under
    ux := x
    uy := y
    underValid := true }

def cursorColour (v : Nat) : Nat := if v=1 then 0x00FFFFFF else 0x00000000

def cursorPaintAt (d : Frame) (x y : Int) : Frame :=
  { d with fb := maskLoop d.vi x y (fun row col => cursorColour (cursorMask row col)) d.fb }

def mkDrawCursor (d : Frame) (x y : Int) : Frame := cursorPaintAt (cursorSaveUnder (cursorRestoreUnder d) x y) x y

def mkCursorMove (d : Frame) (x y : Int) : Frame :=
  if d.active=false then d
  else if d.underValid=true ∧ d.ux=x ∧ d.uy=y then d
  else cursorPaintAt (cursorSaveUnder (cursorRestoreUnder d) x y) x y

def flipToLfb (d : Frame) : Frame :=
  if d.backOk=false ∨ d.active=false then d
  else if d.vi.off then d
  else { d with fb := upTo (fun k fb i => if i=k then d.back k else fb i) (toWord d.sw*toWord d.sh%4294967296) d.fb }

/-- `mk_compose` with the backbuffer in use; `draw` is all that it draws there. -/
def mkCompose (draw : (Nat → Nat) → Nat → Nat) (d : Frame) (mx my : Int) : Frame :=
  if d.active=false then d
  else
    let d := { d with underValid := false, back := draw d.back }
    let d := if d.backOk then flipToLfb d else d
    cursorPaintAt (cursorSaveUnder d mx my) mx my

inductive CursorCall where
  | move (x y : Int32)
  | draw (x y : Int32)

def CursorCall.pos : CursorCall → Int32 × Int32
  | .move x y | .draw x y => (x,y)

def cursorStep (d : Frame) : CursorCall → Frame
  | .move x y => mkCursorMove d x.toInt y.toInt
  | .draw x y => mkDrawCursor d x.toInt y.toInt

/-- The backbuffer is in use, and the framebuffer has the same size. -/
structure InUse (d : Frame) : Prop where
  active : d.active=true
  backOk : d.backOk=true
  on : ¬ d.vi.off
  width : d.sw=d.vi.width
  height : d.sh=d.vi.height

/-- The cell of the mask that a point is in, with the pointer at `(x, y)`. -/
def cellAt (x y : Int) (px py : Nat) : Nat :=
  if toWord (py-y)<MK_CURSOR_H ∧ toWord (px-x)<MK_CURSOR_W then cursorMask (toWord (py-y)) (toWord (px-x)) else 0

/-- A picture of width `w` under the pointer. -/
def overlaid (w : Nat) (p : Nat → Nat) (x y : Int) (i : Nat) : Nat :=
  if cellAt x y (i%w) (i/w)=0 then p i else cursorColour (cellAt x y (i%w) (i/w))

variable {vi : VbeInfo} {d t : Frame} {x y : Int} {w h i : Nat} {v : Nat → Nat}

theorem wrap32_wrap32 (x : Int) : wrap32 (wrap32 x)=wrap32 x := wrap32_of_range (wrap32_range x).1 (wrap32_range x).2

theorem toWord_eq_iff {a : Int} (ha : wrap32 a=a) {n : Nat} (hn : n<2147483648) : toWord a=n ↔ a=n := by
  have hrange := wrap32_range a
  rw [ha] at hrange
  unfold toWord
  omega

theorem sides_lt (hfits : 4*(w*h)≤4294967296) (hi : i<w*h) : w<2147483648 ∧ h<2147483648 ∧ i%w<w ∧ i/w<h := by
  have hw : 0<w := Nat.pos_of_mul_pos_right (Nat.zero_lt_of_lt hi)
  have hh : 0<h := Nat.pos_of_mul_pos_left (Nat.zero_lt_of_lt hi)
  have hw' := Nat.le_mul_of_pos_right w hh
  have hh' := Nat.le_mul_of_pos_left h hw
  exact ⟨by omega,by omega,Nat.mod_lt i hw,Nat.div_lt_of_lt_mul hi⟩

theorem paints_putPixel {β : Type} {v : Nat → β} {c : β} (hfits : 4*(w*h)≤4294967296) (hx : wrap32 x=x)
    (hy : wrap32 y=y) (hv : ∀ i, i<w*h → x=(i%w : Nat) → y=(i/w : Nat) → v i=c) :
    Paints (putPixel w h x y c) (fun i => i<w*h ∧ x=(i%w : Nat) ∧ y=(i/w : Nat)) v := by
  unfold putPixel
  split
  next hout =>
    refine paints_nothing fun i ⟨hi,hxi,hyi⟩ => ?_
    obtain ⟨hw,hh,hmod,hdiv⟩ := sides_lt hfits hi
    rw [(toWord_eq_iff hx (by omega)).mpr hxi,(toWord_eq_iff hy (by omega)).mpr hyi] at hout
    omega
  next hin =>
    rw [not_or,Nat.not_le,Nat.not_le] at hin
    have hlt : toWord y*w+toWord x<w*h := by
      have hrow := Nat.mul_le_mul_right w (Nat.succ_le_of_lt hin.2)
      rw [Nat.succ_mul,Nat.mul_comm h] at hrow
      omega
    rw [Nat.mod_eq_of_lt (by omega : toWord y*w+toWord x<4294967296)]
    constructor
    · intro p i ⟨hi,hxi,hyi⟩
      obtain ⟨hw,hh,hmod,hdiv⟩ := sides_lt hfits hi
      rw [(toWord_eq_iff hx (by omega)).mpr hxi,(toWord_eq_iff hy (by omega)).mpr hyi,Nat.div_add_mod',if_pos rfl]
      exact (hv i hi hxi hyi).symm
    · intro p i hi
      refine if_neg fun heq => hi ?_
      obtain ⟨hw,hh,_,_⟩ := sides_lt hfits hlt
      obtain ⟨hdiv,hmod⟩ : i/w=toWord y ∧ i%w=toWord x := by
        refine (Nat.div_mod_unique (Nat.zero_lt_of_lt hin.1)).mpr ⟨?_,hin.1⟩
        rw [heq,Nat.mul_comm w,Nat.add_comm]
      rw [hdiv,hmod,heq]
      exact ⟨hlt,(toWord_eq_iff hx (by omega)).mp rfl,(toWord_eq_iff hy (by omega)).mp rfl⟩

theorem offset_iff {p k : Nat} (hp : p<2147483648) (hk : k<2147483648) : wrap32 (x+k)=p ↔ toWord (p-x)=k := by
  rw [eq_comm,wrap32_eq_iff (by omega) (by omega) hk,eq_comm]

theorem lfbGet_of_lt (hon : ¬ vi.off) (fb : Nat → Nat) (hi : i<vi.width*vi.height) :
    lfbGet vi fb (i%vi.width : Nat) (i/vi.width : Nat)=fb i := by
  obtain ⟨hw,hh,hmod,hdiv⟩ := sides_lt vi.fits hi
  have hfits := vi.fits
  rw [lfbGet,if_neg hon,toWord_natCast (by omega),toWord_natCast (by omega),if_neg (by omega),Nat.div_add_mod',
    Nat.mod_eq_of_lt (by omega)]

theorem paints_maskLoop (hon : ¬ vi.off) {c : Nat → Nat → Nat}
    (hv : ∀ i, i<vi.width*vi.height → ∀ row col, row<20 → col<12 → toWord ((i/vi.width : Nat)-y)=row →
      toWord ((i%vi.width : Nat)-x)=col → cursorMask row col≠0 → v i=c row col) :
    Paints (maskLoop vi x y c) (fun i => i<vi.width*vi.height ∧ cellAt x y (i%vi.width) (i/vi.width)≠0) v := by
  have hcell : ∀ row col, row<20 → col<12 → Paints (fun fb => if cursorMask row col=0 then fb
      else vbePutpixel vi (wrap32 (x+col)) (wrap32 (y+row)) (c row col) fb)
      (fun i => i<vi.width*vi.height ∧ cursorMask row col≠0 ∧ toWord ((i/vi.width : Nat)-y)=row ∧
        toWord ((i%vi.width : Nat)-x)=col) v := by
    intro row col hrow hcol
    by_cases hmask : cursorMask row col=0
    · simp only [if_pos hmask]
      exact paints_nothing fun i hi => hi.2.1 hmask
    · simp only [if_neg hmask,vbePutpixel,if_neg hon]
      have hpoint : ∀ i, i<vi.width*vi.height → (wrap32 (x+col)=(i%vi.width : Nat) ↔ toWord ((i%vi.width : Nat)-x)=col) ∧
          (wrap32 (y+row)=(i/vi.width : Nat) ↔ toWord ((i/vi.width : Nat)-y)=row) := by
        intro i hi
        obtain ⟨hw,hh,hmod,hdiv⟩ := sides_lt vi.fits hi
        exact ⟨offset_iff (by omega) (by omega),offset_iff (by omega) (by omega)⟩
      refine (paints_putPixel vi.fits (wrap32_wrap32 _) (wrap32_wrap32 _) fun i hi hxi hyi => ?_).congr (fun i => ?_)
        fun _ _ => rfl
      · exact hv i hi row col hrow hcol ((hpoint i hi).2.mp hyi) ((hpoint i hi).1.mp hxi) hmask
      · constructor
        · rintro ⟨hi,hxi,hyi⟩
          exact ⟨hi,hmask,(hpoint i hi).2.mp hyi,(hpoint i hi).1.mp hxi⟩
        · rintro ⟨hi,_,hyi,hxi⟩
          exact ⟨hi,(hpoint i hi).1.mpr hxi,(hpoint i hi).2.mpr hyi⟩
  refine (paints_upTo fun row hrow => paints_upTo fun col hcol => hcell row col hrow hcol).congr (fun i => ?_)
    fun _ _ => rfl
  unfold cellAt
  constructor
  · rintro ⟨row,hrow,col,hcol,hi,hmask,rfl,rfl⟩
    rw [if_pos ⟨hrow,hcol⟩]
    exact ⟨hi,hmask⟩
  · rintro ⟨hi,hmask⟩
    split at hmask
    next hin => exact ⟨_,hin.1,_,hin.2,hi,hmask,rfl,rfl⟩
    next => exact absurd rfl hmask

theorem cellAt_eq {px py row col : Nat} (hrow : row<20) (hcol : col<12) (hy : toWord (py-y)=row)
    (hx : toWord (px-x)=col) : cellAt x y px py=cursorMask row col := by
  unfold cellAt
  rw [hy,hx,if_pos ⟨hrow,hcol⟩]

theorem saved_under (d : Frame) (x y : Int) (hactive : d.active=true) {row col : Nat} (hrow : row<20) (hcol : col<12) :
    (cursorSaveUnder d x y).under (row*12+col)=lfbGet d.vi d.fb (wrap32 (x+col)) (wrap32 (y+row)) := by
  have hcell : ∀ row col : Nat, col<12 → Paints (fun u i => if i=row*12+col then
      lfbGet d.vi d.fb (wrap32 (x+col)) (wrap32 (y+row)) else u i) (fun i => i=row*12+col)
      (fun i => lfbGet d.vi d.fb (wrap32 (x+(i%12 : Nat))) (wrap32 (y+(i/12 : Nat)))) := by
    intro row col hcol
    refine ⟨fun u i hi => ?_,fun u i hi => if_neg hi⟩
    have hmod : i%12=col := by omega
    have hdiv : i/12=row := by omega
    rw [if_pos hi,hmod,hdiv]
  have hsaved := (paints_upTo fun row (_ : row<20) => paints_upTo fun col hcol => hcell row col hcol).inside d.under
    (row*12+col) ⟨row,hrow,col,hcol,rfl⟩
  have hmod : (row*12+col)%12=col := by omega
  have hdiv : (row*12+col)/12=row := by omega
  unfold cursorSaveUnder
  rw [if_neg (by rw [hactive]; decide)]
  rw [hmod,hdiv] at hsaved
  exact hsaved

/-- The pointer is at `(x, y)` over the picture `p`, and what it covers is saved. -/
structure Pointing (p : Nat → Nat) (x y : Int) (d : Frame) : Prop where
  inUse : InUse d
  back : d.back=p
  pos : d.ux=x ∧ d.uy=y
  valid : d.underValid=true
  shown : ∀ i, i<d.vi.width*d.vi.height → d.fb i=overlaid d.vi.width p x y i
  saved : ∀ i, i<d.vi.width*d.vi.height → ∀ row col, row<20 → col<12 → toWord ((i/d.vi.width : Nat)-y)=row →
    toWord ((i%d.vi.width : Nat)-x)=col → d.under (row*12+col)=p i

structure Bare (p : Nat → Nat) (d : Frame) : Prop where
  inUse : InUse d
  back : d.back=p
  shown : ∀ i, i<d.vi.width*d.vi.height → d.fb i=p i

variable {p : Nat → Nat}

theorem Pointing.restore (h : Pointing p x y d) : Bare p (cursorRestoreUnder d) := by
  unfold cursorRestoreUnder
  rw [if_neg (by rw [h.valid,h.inUse.active]; decide),h.pos.1,h.pos.2]
  refine ⟨⟨h.inUse.active,h.inUse.backOk,h.inUse.on,h.inUse.width,h.inUse.height⟩,h.back,fun i hi => ?_⟩
  refine (paints_maskLoop h.inUse.on fun i hi row col hrow hcol hy hx _ =>
    (h.saved i hi row col hrow hcol hy hx).symm).apply fun hout => ?_
  rw [h.shown i hi,overlaid,if_pos (by_contra fun hcell => hout ⟨hi,hcell⟩)]

theorem Bare.paint (h : Bare p d) (x y : Int) : Pointing p x y (cursorPaintAt (cursorSaveUnder d x y) x y) := by
  have hunder := @saved_under d x y h.inUse.active
  have hsave : cursorSaveUnder d x y=
      { d with under := (cursorSaveUnder d x y).under, ux := x, uy := y, underValid := true } := by
    unfold cursorSaveUnder
    rw [if_neg (by rw [h.inUse.active]; decide)]
  rw [cursorPaintAt,hsave]
  refine ⟨⟨h.inUse.active,h.inUse.backOk,h.inUse.on,h.inUse.width,h.inUse.height⟩,h.back,⟨rfl,rfl⟩,rfl,?_,?_⟩
  · intro i hi
    refine (paints_maskLoop (v := overlaid d.vi.width p x y) h.inUse.on
      fun i hi row col hrow hcol hy hx hmask => ?_).apply fun hout => ?_
    · rw [overlaid,cellAt_eq hrow hcol hy hx,if_neg hmask]
    · rw [overlaid,if_pos (by_contra fun hcell => hout ⟨hi,hcell⟩)]
      exact h.shown i hi
  · intro i hi row col hrow hcol hy hx
    have hsides := sides_lt d.vi.fits hi
    refine (hunder hrow hcol).trans ?_
    rw [(offset_iff (Nat.lt_trans hsides.2.2.1 hsides.1) (by omega)).mpr hx,
      (offset_iff (Nat.lt_trans hsides.2.2.2 hsides.2.1) (by omega)).mpr hy,lfbGet_of_lt h.inUse.on _ hi]
    exact h.shown i hi

theorem mkCompose_pointing (draw : (Nat → Nat) → Nat → Nat) (h : InUse d) (mx my : Int) :
    Pointing (draw d.back) mx my (mkCompose draw d mx my) := by
  unfold mkCompose
  rw [if_neg (by rw [h.active]; decide)]
  dsimp only
  rw [if_pos h.backOk]
  refine Bare.paint ?_ mx my
  unfold flipToLfb
  rw [if_neg (by rw [h.backOk,h.active]; decide),if_neg h.on]
  refine ⟨⟨h.active,h.backOk,h.on,h.width,h.height⟩,rfl,fun i hi => ?_⟩
  have hcopy : ∀ k, Paints (fun fb i => if i=k then draw d.back k else fb i) (fun i => i=k) (draw d.back) := by
    intro k
    refine ⟨fun fb i hi => ?_,fun fb i hi => if_neg hi⟩
    rw [if_pos hi,hi]
  refine (paints_upTo fun k _ => hcopy k).inside d.fb i ⟨i,?_,rfl⟩
  obtain ⟨hw,hh,_,_⟩ := sides_lt d.vi.fits hi
  have hfits := d.vi.fits
  rw [h.width,h.height,toWord_natCast (by omega),toWord_natCast (by omega),Nat.mod_eq_of_lt (by omega)]
  exact hi

theorem Pointing.step (h : Pointing p x y d) (c : CursorCall) :
    Pointing p c.pos.1.toInt c.pos.2.toInt (cursorStep d c) := by
  cases c with
  | move mx my =>
    simp only [cursorStep,mkCursorMove,h.inUse.active,Bool.true_eq_false,if_false]
    split
    next hsame =>
      rw [h.pos.1,h.pos.2] at hsame
      obtain ⟨_,rfl,rfl⟩ := hsame
      exact h
    next => exact h.restore.paint _ _
  | draw mx my => exact h.restore.paint _ _

def lastPos (pos : Int32 × Int32) (calls : List CursorCall) : Int32 × Int32 := calls.foldl (fun _ c => c.pos) pos

theorem Pointing.run {pos : Int32 × Int32} (h : Pointing p pos.1.toInt pos.2.toInt d) (calls : List CursorCall) :
    Pointing p (lastPos pos calls).1.toInt (lastPos pos calls).2.toInt (calls.foldl cursorStep d) := by
  induction calls generalizing pos d with
  | nil => exact h
  | cons c calls ih => exact ih (h.step c)

/-- The framebuffer shows the picture `p` under the pointer, and the saved pixels turn it into `p` again. -/
def NoTrace (p : Nat → Nat) (pos : Int32 × Int32) (d : Frame) : Prop :=
  d.back=p ∧ ∀ i, i<d.vi.width*d.vi.height →
    d.fb i=overlaid d.vi.width d.back pos.1.toInt pos.2.toInt i ∧ (cursorRestoreUnder d).fb i=d.back i

theorem cursor_leaves_no_trace (draw : (Nat → Nat) → Nat → Nat) (d : Frame) (h : InUse d) (pos : Int32 × Int32)
    (calls : List CursorCall) : NoTrace (draw d.back) (lastPos pos calls)
      (calls.foldl cursorStep (mkCompose draw d pos.1.toInt pos.2.toInt)) := by
  have hend := (mkCompose_pointing draw h pos.1.toInt pos.2.toInt).run calls
  have hvi : ∀ t, (cursorRestoreUnder t).vi=t.vi := by
    intro t
    unfold cursorRestoreUnder
    split <;> rfl
  refine ⟨hend.back,fun i hi => ?_⟩
  rw [hend.back]
  exact ⟨hend.shown i hi,hend.restore.shown i ((hvi _).symm ▸ hi)⟩

def freshFrame : Frame where
  active := true
  backOk := true
  sw := 800
  sh := 600
  back := fun _ => 0
  vi := ⟨true,0xE0000000,800,600,by decide⟩
  fb := fun _ => 0
  under := fun _ => 0
  ux := -1
  uy := -1
  underValid := false

theorem cursor_leaves_no_trace_corner : NoTrace (fun _ => 0x002B579A) (-3,10)
    ([CursorCall.move 799 599,.draw (-3) 10].foldl cursorStep (mkCompose (fun _ _ => 0x002B579A) freshFrame 400 300)) :=
  cursor_leaves_no_trace (fun _ _ => 0x002B579A) freshFrame ⟨rfl,rfl,by decide,rfl,rfl⟩ (400,300)
    [.move 799 599,.draw (-3) 10]

end MyKernel.Display
