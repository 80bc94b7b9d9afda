import MyKernel.Lib.Ring
import MyKernel.Lib.Signed

/-! The mouse driver `mouse.c`, without the commands of `mouse_init`. -/
namespace MyKernel.Mouse
open Cyclic Signed

def EVQ : Nat := 32

structure MouseEvent where
  type : Nat
  x : Int
  y : Int
  buttons : UInt8
  button : Nat
  pressed : Bool

structure MouseState where
  x : Int
  y : Int
  dx : Int
  dy : Int
  buttons : UInt8

/-- The static variables; `cycle` and `packet` are those of the handler. -/
structure Driver where
  mx : Int
  my : Int
  mbuttons : UInt8
  mdx : Int
  mdy : Int
  boundW : Int
  boundH : Int
  evq : Ring MouseEvent EVQ
  prevButtons : UInt8
  cycle : Fin 3
  packet : Fin 3 → UInt8

def Driver.init : Driver where
  mx := 160
  my := 100
  mbuttons := 0
  mdx := 0
  mdy := 0
  boundW := 320
  boundH := 200
  evq := ⟨fun _ => ⟨0,0,0,0,0,false⟩, ⟨0,by decide⟩, ⟨0,by decide⟩⟩
  prevButtons := 0
  cycle := 0
  packet := fun _ => 0

def int8 (b : UInt8) : Int := (b.toNat : Int).bmod 256

def confine (bound x : Int) : Int :=
  let x := if x<0 then 0 else x
  if bound≤x then bound-1 else x

def evPush (m : Driver) (e : MouseEvent) : Driver := { m with evq := m.evq.push e }

def buttonEvent (changed buttons : UInt8) (m : Driver) (b : Nat) : Driver :=
  if changed &&& (1 <<< UInt8.ofNat b)≠0 then
    evPush m ⟨1,m.mx,m.my,buttons,b,buttons &&& (1 <<< UInt8.ofNat b) != 0⟩
  else m

/-- The pointer and the buttons of `mouse_irq_handler`, when the packet is complete. -/
def movePointer (m : Driver) : Driver :=
  let dx := int8 (m.packet 1)
  let dy := -int8 (m.packet 2)
  { m with
    mx := confine m.boundW (wrap32 (m.mx+dx))
    my := confine m.boundH (wrap32 (m.my+dy))
    mdx := wrap32 (m.mdx+dx)
    mdy := wrap32 (m.mdy+dy)
    mbuttons := m.packet 0 &&& 0x07 }

/-- The events of `mouse_irq_handler`, after the pointer has moved. -/
def motionEvent (m : Driver) : Driver :=
  if int8 (m.packet 1)≠0 ∨ int8 (m.packet 2)≠0 then
    evPush m ⟨0,m.mx,m.my,m.packet 0 &&& 0x07,0,false⟩
  else m

def buttonEvents (m : Driver) : Driver :=
  let buttons := m.packet 0 &&& 0x07
  let changed := buttons ^^^ m.prevButtons
  if changed≠0 then { (List.range 3).foldl (buttonEvent changed buttons) m with prevButtons := buttons } else m

def mouseIrqHandler (m : Driver) (data : UInt8) : Driver :=
  if m.cycle=0 ∧ data &&& 0x08=0 then m
  else
    let m' := { m with packet := Function.update m.packet m.cycle data }
    if m.cycle.val+1<3 then { m' with cycle := m.cycle+1 }
    else buttonEvents (motionEvent (movePointer { m' with cycle := 0 }))

def mouseGet (m : Driver) : MouseState × Driver :=
  (⟨m.mx,m.my,m.mdx,m.mdy,m.mbuttons⟩,{ m with mdx := 0, mdy := 0 })

def mouseSetBounds (w h : Int) (m : Driver) : Driver :=
  { m with
    boundW := w
    boundH := h
    mx := if w ≤ m.mx then w-1 else m.mx
    my := if h ≤ m.my then h-1 else m.my }

end MyKernel.Mouse
