import Mathlib.Logic.Function.Basic
import MyKernel.Lib.Loops

/-! The console in text mode: the 80x25 buffer and the CRT controller. -/
namespace MyKernel.Vga
open Loops

def VGA_TEXT_W : Nat := 80
def VGA_TEXT_H : Nat := 25
def VGA_COLOR_BLACK : UInt8 := 0
def VGA_COLOR_LIGHT_GREEN : UInt8 := 10

def vgaEntryColor (fg bg : UInt8) : UInt8 := fg ||| (bg <<< 4)
def vgaEntry (uc color : UInt8) : UInt16 := uc.toUInt16 ||| (color.toUInt16 <<< 8)

/-- `written` lists the indices of `terminal_buffer` that have been stored to. -/
structure Console where
  terminalRow : Nat
  terminalColumn : Nat
  terminalColor : UInt8
  termCols : Nat
  termRows : Nat
  terminalBuffer : Nat → UInt16
  crt : Nat → UInt8
  written : List Nat

def Console.store (c : Console) (i : Nat) (e : UInt16) : Console :=
  { c with terminalBuffer := Function.update c.terminalBuffer i e, written := i::c.written }

def Console.setCrt (c : Console) (reg : Nat) (v : UInt8) : Console :=
  { c with crt := Function.update c.crt reg v }

def hwCursor (x y : Nat) (c : Console) : Console :=
  let pos := (y*VGA_TEXT_W+x)%65536
  (c.setCrt 0x0F (UInt8.ofNat pos)).setCrt 0x0E (UInt8.ofNat (pos/256))

def terminalPutentryat (ch color : UInt8) (x y : Nat) (c : Console) : Console :=
  c.store (y*VGA_TEXT_W+x) (vgaEntry ch color)

def copyCell (y x : Nat) (c : Console) : Console :=
  c.store ((y-1)*VGA_TEXT_W+x) (c.terminalBuffer (y*VGA_TEXT_W+x))

def blankCell (y x : Nat) (c : Console) : Console :=
  c.store (y*VGA_TEXT_W+x) (vgaEntry 0x20 c.terminalColor)

def scrollCells (c : Console) : Console :=
  upTo (blankCell (VGA_TEXT_H-1)) VGA_TEXT_W
    (upTo (fun y => upTo (copyCell (y+1)) VGA_TEXT_W) (VGA_TEXT_H-1) c)

def terminalScroll (c : Console) : Console := { scrollCells c with terminalRow := VGA_TEXT_H-1 }

def blankCells (c : Console) : Console := upTo (fun y => upTo (blankCell y) VGA_TEXT_W) VGA_TEXT_H c

def terminalShowCursor (c : Console) : Console :=
  hwCursor c.terminalColumn c.terminalRow ((c.setCrt 0x0A 13).setCrt 0x0B 14)

def terminalInitialize (c : Console) : Console :=
  let c := { c with
    terminalRow := 0
    terminalColumn := 0
    terminalColor := vgaEntryColor VGA_COLOR_LIGHT_GREEN VGA_COLOR_BLACK
    termCols := VGA_TEXT_W
    termRows := VGA_TEXT_H }
  let c := terminalShowCursor (blankCells c)
  hwCursor c.terminalColumn c.terminalRow c

def advance (c : Console) : Console :=
  if c.terminalColumn+1=c.termCols then { c with terminalColumn := 0, terminalRow := c.terminalRow+1 }
  else { c with terminalColumn := c.terminalColumn+1 }

/-- `terminal_putchar` up to the test for the last row. -/
def placeChar (ch : UInt8) (c : Console) : Console :=
  if ch=0x0A then { c with terminalColumn := 0, terminalRow := c.terminalRow+1 }
  else if ch=0x0D then { c with terminalColumn := 0 }
  else advance (terminalPutentryat ch c.terminalColor c.terminalColumn c.terminalRow c)

def terminalPutchar (ch : UInt8) (c : Console) : Console :=
  let c := placeChar ch c
  let c := if c.termRows≤c.terminalRow then terminalScroll c else c
  hwCursor c.terminalColumn c.terminalRow c

def terminalBackspace (c : Console) : Console :=
  if 0<c.terminalColumn then
    let c := { c with terminalColumn := c.terminalColumn-1 }
    let c := terminalPutentryat 0x20 c.terminalColor c.terminalColumn c.terminalRow c
    hwCursor c.terminalColumn c.terminalRow c
  else c

inductive Output where
  | putchar (ch : UInt8)
  | backspace

def Console.step (c : Console) : Output → Console
  | .putchar ch => terminalPutchar ch c
  | .backspace => terminalBackspace c

def Console.run (c : Console) (outputs : List Output) : Console := outputs.foldl Console.step c

end MyKernel.Vga
