import MyKernel.Lib.Signed

/-! The surfaces of `mkdisp.c`. Coordinates are signed 32-bit words. -/
namespace MyKernel.Display
open Signed

def MK_MAX_SURFACES : Nat := 8
def MK_TITLE_H : Int := 24
def MK_PANEL_H : Int := 28

structure Screen where
  w : Int
  h : Int
  wide : 0≤w ∧ w≤2147483647
  tall : 0≤h ∧ h≤2147483647

/-- `pixels` is `none` for the null pointer. -/
structure Surface where
  used : Bool
  x : Int
  y : Int
  w : Int
  h : Int
  mapped : Bool
  title : List UInt8
  pixels : Option (Nat → Nat)

structure Scene where
  screen : Screen
  surf : Nat → Surface

def Scene.set (d : Scene) (id : Nat) (s : Surface) : Scene :=
  { d with surf := fun i => if i=id then s else d.surf i }

/-- The part of `mk_init` that concerns the surfaces. -/
def mkInit (d : Scene) (screen : Screen) : Scene :=
  ⟨screen,fun i => { d.surf i with used := false, pixels := none }⟩

/-- The bytes that are copied while `n` more have room, without the end mark. -/
def copyTitle : List UInt8 → Nat → List UInt8
  | _, 0 => []
  | [], _ => []
  | c::cs, n+1 => if c=0 then [] else c::copyTitle cs n

def windowTitle : List UInt8 := [87,105,110,100,111,119]

def freeSlot (d : Scene) : Nat → Nat → Option Nat
  | 0, _ => none
  | n+1, i => if (d.surf i).used then freeSlot d n (i+1) else some i

def sizeRefused (screen : Screen) (w h : Int) : Prop :=
  w<40 ∨ h<20 ∨ w>screen.w ∨ h>wrap32 (wrap32 (screen.h-MK_TITLE_H)-MK_PANEL_H)

instance (screen : Screen) (w h : Int) : Decidable (sizeRefused screen w h) := inferInstanceAs (Decidable (_ ∨ _))

def newSurface (id : Nat) (w h : Int) (title : Option (List UInt8)) : Surface where
  used := true
  x := wrap32 (40+id*24)
  y := wrap32 (40+id*24)
  w := w
  h := h
  mapped := true
  title := copyTitle (title.getD windowTitle) 39
  pixels := some fun _ => 0x00C0C0C0

/-- `none` is the result -1; `kmalloc` tells whether a block of a size can be had. -/
def mkSurfaceCreate (kmalloc : Nat → Bool) (d : Scene) (w h : Int) (title : Option (List UInt8)) :
    Option Nat × Scene :=
  if sizeRefused d.screen w h then (none,d)
  else match freeSlot d MK_MAX_SURFACES 0 with
    | none => (none,d)
    | some id =>
      if kmalloc (toWord w*toWord h*4%4294967296) then (some id,d.set id (newSurface id w h title))
      else (none,d)

/-- `id < 0 || id >= MK_MAX_SURFACES || !g_surf[id].used`. -/
def noSurface (d : Scene) (id : Int) : Prop := id<0 ∨ id≥MK_MAX_SURFACES ∨ (d.surf id.toNat).used=false

instance (d : Scene) (id : Int) : Decidable (noSurface d id) := inferInstanceAs (Decidable (_ ∨ _))

def mkSurfaceDestroy (d : Scene) (id : Int) : Scene :=
  if noSurface d id then d
  else d.set id.toNat { d.surf id.toNat with pixels := none, used := false, mapped := false }

def mkSurfaceMove (d : Scene) (id x y : Int) : Scene :=
  if noSurface d id then d
  else
    let s := d.surf id.toNat
    let x := if x<0 then 0 else x
    let y := if y<0 then 0 else y
    let x := if wrap32 (x+s.w)>d.screen.w then wrap32 (d.screen.w-s.w) else x
    let y := if wrap32 (wrap32 (y+MK_TITLE_H)+s.h)>wrap32 (d.screen.h-MK_PANEL_H) then
        wrap32 (wrap32 (wrap32 (d.screen.h-MK_PANEL_H)-MK_TITLE_H)-s.h)
      else y
    let y := if y<0 then 0 else y
    d.set id.toNat { s with x := x, y := y }

def mkSurfaceSetTitle (d : Scene) (id : Int) (title : Option (List UInt8)) : Scene :=
  if noSurface d id then d
  else d.set id.toNat { d.surf id.toNat with title := copyTitle (title.getD []) 39 }

structure Hit where
  id : Nat
  localX : Int
  localY : Int
  onTitle : Bool
  onClose : Bool
  deriving DecidableEq

def surfaceHit (i : Nat) (s : Surface) (sx sy : Int) : Hit :=
  if sy<wrap32 (s.y+MK_TITLE_H) then
    let cx := wrap32 (wrap32 (s.x+s.w)-22)
    let cy := wrap32 (s.y+4)
    ⟨i,0,0,true,decide (sx≥cx ∧ sx<wrap32 (cx+16) ∧ sy≥cy ∧ sy<wrap32 (cy+16))⟩
  else ⟨i,wrap32 (sx-s.x),wrap32 (sy-wrap32 (s.y+MK_TITLE_H)),false,false⟩

def missed (s : Surface) (sx sy : Int) : Prop :=
  sx<s.x ∨ sx≥wrap32 (s.x+s.w) ∨ sy<s.y ∨ sy≥wrap32 (wrap32 (s.y+MK_TITLE_H)+s.h)

instance (s : Surface) (sx sy : Int) : Decidable (missed s sx sy) := inferInstanceAs (Decidable (_ ∨ _))

/-- The loop over the surfaces below `i`, from above. -/
def hitLoop (d : Scene) (sx sy : Int) : Nat → Option Hit
  | 0 => none
  | i+1 =>
    if (d.surf i).used=false ∨ (d.surf i).mapped=false then hitLoop d sx sy i
    else if missed (d.surf i) sx sy then hitLoop d sx sy i
    else some (surfaceHit i (d.surf i) sx sy)

def mkHitTest (d : Scene) (sx sy : Int) : Option Hit := hitLoop d sx sy MK_MAX_SURFACES

theorem hitLoop_some {d : Scene} {sx sy : Int} {n : Nat} {hit : Hit} (h : hitLoop d sx sy n=some hit) :
    hit.id<n ∧ (d.surf hit.id).used=true ∧ (d.surf hit.id).mapped=true ∧ ¬ missed (d.surf hit.id) sx sy ∧
      hit=surfaceHit hit.id (d.surf hit.id) sx sy := by
  induction n with
  | zero => cases h
  | succ i ih =>
    have hbelow : ∀ h : hitLoop d sx sy i=some hit, _ := fun h => (ih h).imp Nat.lt_succ_of_lt id
    rw [hitLoop] at h
    split at h
    · exact hbelow h
    next hshown =>
      split at h
      · exact hbelow h
      next hin =>
        obtain rfl := Option.some_inj.mp h
        have hid : (surfaceHit i (d.surf i) sx sy).id=i := by
          unfold surfaceHit
          split <;> rfl
        rw [not_or,Bool.not_eq_false,Bool.not_eq_false] at hshown
        rw [hid]
        exact ⟨by omega,hshown.1,hshown.2,hin,rfl⟩

end MyKernel.Display
