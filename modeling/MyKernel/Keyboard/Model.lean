import MyKernel.Lib.Ring
import MyKernel.Shell.Model

/-! The keyboard driver `keyboard.c`. -/
namespace MyKernel.Keyboard
open CString Cyclic Shell

def SC_RELEASE_MASK : UInt8 := 0x80
def SC_EXTENDED : UInt8 := 0xE0
def SC_LSHIFT : UInt8 := 0x2A
def SC_RSHIFT : UInt8 := 0x36
def SC_UP : UInt8 := 0x48
def SC_DOWN : UInt8 := 0x50
def SC_LEFT : UInt8 := 0x4B
def SC_RIGHT : UInt8 := 0x4D

def KBD_BUFFER_SIZE : Nat := 256

/-- The entries past the last one given are 0, in both tables. -/
def scancodeToAscii : List UInt8 :=
  [0,27]++ascii "1234567890-="++[0x08,0x09]++ascii "qwertyuiop[]"++[0x0A,0]++ascii "asdfghjkl;'`"++
    [0]++ascii "\\zxcvbnm,./"++[0]++ascii "*"++[0]++ascii " "++[0]

def scancodeToAsciiShift : List UInt8 :=
  [0,27]++ascii "!@#$%^&*()_+"++[0x08,0x09]++ascii "QWERTYUIOP\x7b\x7d"++[0x0A,0]++ascii "ASDFGHJKL:\"~"++
    [0]++ascii "|ZXCVBNM<>?"++[0]++ascii "*"++[0]++ascii " "++[0]

def translate (shiftPressed : Bool) (scancode : UInt8) : UInt8 :=
  (if shiftPressed then scancodeToAsciiShift else scancodeToAscii).getD scancode.toNat 0

structure Driver where
  shiftPressed : Bool
  extended : Bool
  buffer : Ring UInt8 KBD_BUFFER_SIZE

def Driver.reset : Driver := ⟨false,false,⟨fun _ => 0, ⟨0,by decide⟩, ⟨0,by decide⟩⟩⟩

def kbdBufferPush (k : Driver) (c : UInt8) : Driver := { k with buffer := k.buffer.push c }

@[simp] theorem kbdBufferPush_shiftPressed (k : Driver) (c : UInt8) :
    (kbdBufferPush k c).shiftPressed=k.shiftPressed := rfl

@[simp] theorem kbdBufferPush_extended (k : Driver) (c : UInt8) : (kbdBufferPush k c).extended=k.extended := rfl

def arrowKey (k : Driver) (scancode : UInt8) : Driver :=
  if scancode=SC_UP then kbdBufferPush k KEY_UP
  else if scancode=SC_DOWN then kbdBufferPush k KEY_DOWN
  else if scancode=SC_LEFT then kbdBufferPush k KEY_LEFT
  else if scancode=SC_RIGHT then kbdBufferPush k KEY_RIGHT
  else k

def keyboardIrqHandler (k : Driver) (scancode : UInt8) : Driver :=
  if scancode=SC_EXTENDED then { k with extended := true }
  else
    let isExtended := k.extended
    let k := { k with extended := false }
    if scancode &&& SC_RELEASE_MASK≠0 then
      let released := scancode &&& ~~~SC_RELEASE_MASK
      if ¬isExtended ∧ (released=SC_LSHIFT ∨ released=SC_RSHIFT) then { k with shiftPressed := false } else k
    else if isExtended then arrowKey k scancode
    else if scancode=SC_LSHIFT ∨ scancode=SC_RSHIFT then { k with shiftPressed := true }
    else if 128 ≤ scancode then k
    else
      let c := translate k.shiftPressed scancode
      if c≠0 then kbdBufferPush k c else k

def escapeKey (c3 : UInt8) : Option UInt8 :=
  if c3=0x41 then some KEY_UP
  else if c3=0x42 then some KEY_DOWN
  else if c3=0x43 then some KEY_RIGHT
  else if c3=0x44 then some KEY_LEFT
  else none

/-- The key taken from the bytes that wait at the serial port, and the bytes left. -/
def serialKey : List UInt8 → Option UInt8 × List UInt8
  | [] => (none,[])
  | c::rest =>
    if c=0x0D then (some KEY_ENTER,rest)
    else if c=0x7F then (some KEY_BACKSPACE,rest)
    else if c=0x1B then
      match rest with
      | [] => (none,[])
      | c2::rest =>
        if c2≠0x5B then (none,rest)
        else match rest with
          | [] => (none,[])
          | c3::rest => (escapeKey c3,rest)
    else (some c,rest)

/-- Interrupts may arrive during the call: `tested` are the characters they push after the test for an empty queue,
`fetched` those after the read. -/
def keyboardTrygetchar (serial tested fetched : List UInt8) (k : Driver) :
    Option UInt8 × List UInt8 × Driver :=
  if k.buffer.head≠k.buffer.tail then
    let k := tested.foldl kbdBufferPush k
    let out := k.buffer.slots k.buffer.tail
    let k := fetched.foldl kbdBufferPush k
    (some out,serial,{ k with buffer := k.buffer.advance })
  else
    let k := tested.foldl kbdBufferPush k
    let (out,serial) := serialKey serial
    (out,serial,fetched.foldl kbdBufferPush k)

end MyKernel.Keyboard
