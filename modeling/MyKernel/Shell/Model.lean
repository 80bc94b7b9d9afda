import MyKernel.Lib.Memory
import MyKernel.RamFs.Model

/-! The line editor of `shell.c`, without output. The indices written are kept in two logs that the code does not
have. -/
namespace MyKernel.Shell
open CString Memory RamFs

def CMD_BUFFER_SIZE : Nat := 128
def HISTORY_SIZE : Nat := 16

def KEY_BACKSPACE : UInt8 := 0x08
def KEY_TAB : UInt8 := 0x09
def KEY_ENTER : UInt8 := 0x0A
def KEY_UP : UInt8 := 0x11
def KEY_DOWN : UInt8 := 0x12
def KEY_LEFT : UInt8 := 0x13
def KEY_RIGHT : UInt8 := 0x14

structure History where
  lines : Nat → Nat → UInt8
  count : Nat
  count_le : count≤HISTORY_SIZE

def noHistory : History := ⟨fun _ _ => 0, 0, by decide⟩

structure Buffer where
  bytes : Nat → UInt8
  written : List Nat

def Buffer.put (b : Buffer) (i : Nat) (c : UInt8) : Buffer := ⟨setByte b.bytes i c,i::b.written⟩

/-- `n` bytes are left before the last of the destination. -/
def strCopyLoop (src : Nat → UInt8) : Nat → Nat → Buffer → Buffer
  | 0, i, b => b.put i 0
  | n+1, i, b => if src i≠0 then strCopyLoop src n (i+1) (b.put i (src i)) else b.put i 0

def strCopy (src : Nat → UInt8) (max : Nat) (b : Buffer) : Buffer := strCopyLoop src (max-1) 0 b

/-- `str_len`, of a buffer with a NUL among its first 128 bytes. -/
def strLen (b : Buffer) : Nat := (readString CMD_BUFFER_SIZE b.bytes).length

/-- The rows from `n` down to 1, each a copy of the one before it. -/
def shiftLines : Nat → (Nat → Nat → UInt8) → Nat → Nat → UInt8
  | 0, lines => lines
  | n+1, lines => shiftLines n fun i =>
      if i=n+1 then (strCopy (lines n) CMD_BUFFER_SIZE ⟨lines (n+1),[]⟩).bytes else lines i

def historyAdd (h : History) (line : List UInt8) : History :=
  if line=[] then h
  else
    let lines := shiftLines (HISTORY_SIZE-1) h.lines
    { lines := fun i => if i=0 then strcpyTruncate (lines 0) line CMD_BUFFER_SIZE else lines i
      count := if h.count<HISTORY_SIZE then h.count+1 else h.count
      count_le := by
        split
        next hlt => exact hlt
        next => exact h.count_le }

/-- The local variables of `read_line` and `history_pos`. -/
structure Line where
  buffer : Buffer
  len : Nat
  cursor : Nat
  pos : Int
  done : Bool
  marks : List Nat

def Line.start (bytes : Nat → UInt8) : Line := ⟨(⟨bytes,[]⟩ : Buffer).put 0 0,0,0,-1,false,[]⟩

/-- `for (i = cursor - 1; i < len - 1; i++) buffer[i] = buffer[i + 1]`, with `n` passes left. -/
def closeUp : Nat → Nat → Buffer → Buffer
  | 0, _, b => b
  | n+1, i, b => closeUp n (i+1) (b.put i (b.bytes (i+1)))

/-- `for (i = len; i > cursor; i--) buffer[i + need] = buffer[i - 1]`, with `n` passes left. -/
def openUp (cursor need : Nat) : Nat → Buffer → Buffer
  | 0, b => b
  | n+1, b => openUp cursor need n (b.put (u32 (cursor+n+1+need)) (b.bytes (cursor+n)))

/-- `for (i = 0; i < need; i++) buffer[cursor + i] = m[plen + i]`, with `n` passes left. -/
def fillIn (m : List UInt8) (cursor plen : Nat) : Nat → Nat → Buffer → Buffer
  | 0, _, b => b
  | n+1, i, b => fillIn m cursor plen n (i+1) (b.put (u32 (cursor+i)) (m.getD (plen+i) 0))

def cmds : List (List UInt8) :=
  ["help", "clear", "echo", "about", "uname", "whoami", "free", "history", "reboot", "shutdown", "calc", "ls", "pwd",
    "cd", "mkdir", "touch", "cat", "rm", "write", "append", "cp", "mv", "mount", "umount", "fatmount", "fatinfo",
    "fatls", "fatcat", "fatwrite", "lang", "ps", "spawn", "snake", "pong", "beep", "lspci", "beep97", "exec",
    "settings", "vbetest", "dynhello", "desktop"].map ascii

/-- A name cut to 48 bytes, and whether it is a directory. -/
def fsCwdEntry (s : Fs) (index : Nat) : Option (List UInt8 × Bool) :=
  let children := (List.range FS_MAX_NODES).filter fun i =>
    (s.nodes i).type != .free && (s.nodes i).parent == some s.cwd
  children[index]?.map fun i => (readString (FS_NAME_MAX-1) (s.nodes i).name,(s.nodes i).type == .dir)

def tokStart (bytes : Nat → UInt8) : Nat → Nat
  | 0 => 0
  | t+1 => if bytes t≠0x20 then tokStart bytes t else t+1

def matchesPrefix : List UInt8 → List UInt8 → Bool
  | [], _ => true
  | p::ps, text =>
    if p=0 then true
    else match text with
      | [] => false
      | c::cs => if p=c then matchesPrefix ps cs else false

def cmdEntry (cmd : List UInt8) : List UInt8 := cmd.take (FS_NAME_MAX-1)

def nameEntry (name : List UInt8) (isDir : Bool) : List UInt8 :=
  name.take (FS_NAME_MAX-2)++if isDir then [0x2F] else []

/-- The commands, and then the directory from entry `idx` on; at most 64 entries. -/
def cmdLoop (pre : List UInt8) : List (List UInt8) → List (List UInt8) → List (List UInt8)
  | [], found => found
  | cmd::rest, found =>
    if found.length<64 then
      cmdLoop pre rest (if matchesPrefix pre cmd then found++[cmdEntry cmd] else found)
    else found

def nameLoop (fs : Fs) (pre : List UInt8) : Nat → Nat → List (List UInt8) → List (List UInt8)
  | 0, _, found => found
  | n+1, idx, found =>
    if found.length<64 then
      match fsCwdEntry fs idx with
      | none => found
      | some (name,isDir) =>
        nameLoop fs pre n (idx+1) (if matchesPrefix pre name then found++[nameEntry name isDir] else found)
    else found

def Line.prefixLen (s : Line) : Nat := min (s.cursor-tokStart s.buffer.bytes s.cursor) 63

/-- The entries of `matches`; the table has 256 nodes. -/
def completions (fs : Fs) (s : Line) : List (List UInt8) :=
  let tok := tokStart s.buffer.bytes s.cursor
  let pre := (List.range s.prefixLen).map fun i => s.buffer.bytes (tok+i)
  nameLoop fs pre (FS_MAX_NODES+1) 0 (if tok=0 then cmdLoop pre cmds [] else [])

def insertMatch (s : Line) (m : List UInt8) : Line :=
  let plen := s.prefixLen
  let need := sub32 m.length plen
  if u32 (s.len+need)<CMD_BUFFER_SIZE-1 then
    let b := openUp s.cursor need (s.len-s.cursor) s.buffer
    let b := fillIn m s.cursor plen need 0 b
    { s with
      buffer := b.put (u32 (s.len+need)) 0
      len := u32 (s.len+need)
      cursor := u32 (s.cursor+need) }
  else s

def tabKey (fs : Fs) (s : Line) : Line :=
  let found := completions fs s
  let s := { s with marks := found.flatMap (fun m => List.range (m.length+1))++s.marks }
  match found with
  | [m] => insertMatch s m
  | _ => s

def backspaceKey (s : Line) : Line :=
  if 0<s.cursor then
    { s with
      buffer := (closeUp (s.len-1-(s.cursor-1)) (s.cursor-1) s.buffer).put (s.len-1) 0
      len := s.len-1
      cursor := s.cursor-1 }
  else s

def recallLine (h : History) (s : Line) (pos : Int) : Line :=
  let b := strCopy (h.lines pos.toNat) CMD_BUFFER_SIZE s.buffer
  { s with buffer := b, len := strLen b, cursor := strLen b, pos := pos }

def upKey (h : History) (s : Line) : Line :=
  if h.count=0 then s else recallLine h s (if s.pos<h.count-1 then s.pos+1 else s.pos)

def downKey (h : History) (s : Line) : Line :=
  if 0<s.pos then recallLine h s (s.pos-1)
  else { s with buffer := s.buffer.put 0 0, len := 0, cursor := 0, pos := -1 }

def charKey (s : Line) (c : UInt8) : Line :=
  if 32≤c ∧ c<127 ∧ s.len<CMD_BUFFER_SIZE-1 then
    { s with
      buffer := ((openUp s.cursor 0 (s.len-s.cursor) s.buffer).put s.cursor c).put (s.len+1) 0
      len := s.len+1
      cursor := s.cursor+1 }
  else s

def readKey (fs : Fs) (h : History) (s : Line) (c : UInt8) : Line :=
  if c=KEY_ENTER then { s with buffer := s.buffer.put s.len 0, done := true }
  else if c=KEY_BACKSPACE then backspaceKey s
  else if c=KEY_LEFT then if 0<s.cursor then { s with cursor := s.cursor-1 } else s
  else if c=KEY_RIGHT then if s.cursor<s.len then { s with cursor := s.cursor+1 } else s
  else if c=KEY_UP then upKey h s
  else if c=KEY_DOWN then downKey h s
  else if c=KEY_TAB then tabKey fs s
  else charKey s c

/-- One pass of the loop; after Enter it takes no more keys. -/
def readStep (fs : Fs) (h : History) (s : Line) (c : UInt8) : Option Line :=
  if s.done then none else some (readKey fs h s c)

end MyKernel.Shell
