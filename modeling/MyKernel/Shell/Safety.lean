import MyKernel.Lib.Traces
import MyKernel.RamFs.Mutators
import MyKernel.Shell.Model

/-! The writes of the line editor stay in its buffers, unless a completion is too short. -/
namespace MyKernel.Shell
open CString Memory RamFs Traces

/-- What holds after every key of a safe run. -/
structure LineSafe (s : Line) : Prop where
  cursor : s.cursor ≤ s.len
  len : s.len≤127
  nul : s.buffer.bytes s.len=0
  written : ∀ i∈s.buffer.written, i<CMD_BUFFER_SIZE
  marks : ∀ i∈s.marks, i<FS_NAME_MAX

/-- The only completion is shorter than the word before the cursor. -/
def ShortMatch (fs : Fs) (s : Line) : Prop := ∃ m, completions fs s=[m] ∧ m.length<s.prefixLen

def SafeKey (fs : Fs) (s : Line) (c : UInt8) : Prop := s.done=true ∨ c≠KEY_TAB ∨ ¬ ShortMatch fs s

variable {fs : Fs} {h : History} {s t : Line} {b : Buffer} {src : Nat → UInt8} {c : UInt8} {i k n cursor need plen : Nat}
variable {m pre name : List UInt8} {found : List (List UInt8)}

theorem put_self : (b.put i c).bytes i=c := if_pos rfl

def Buffer.Within (b : Buffer) : Prop := ∀ i∈b.written, i<CMD_BUFFER_SIZE

theorem Buffer.Within.put (hb : b.Within) (hi : i<128) (c : UInt8) : (b.put i c).Within :=
  List.forall_mem_cons.mpr ⟨hi,hb⟩

theorem Buffer.Within.strCopyLoop (hb : b.Within) (hn : i+n<128) : (strCopyLoop src n i b).Within := by
  induction n generalizing i b with
  | zero => exact hb.put (by omega) 0
  | succ n ih =>
    rw [Shell.strCopyLoop]
    split
    · exact ih (hb.put (by omega) (src i)) (by omega)
    · exact hb.put (by omega) 0

theorem Buffer.Within.closeUp (hb : b.Within) (hn : i+n≤128) : (closeUp n i b).Within := by
  induction n generalizing i b with
  | zero => exact hb
  | succ n ih => exact ih (hb.put (by omega) (b.bytes (i+1))) (by omega)

theorem Buffer.Within.openUp (hb : b.Within) (hn : cursor+n+need<128) : (openUp cursor need n b).Within := by
  induction n generalizing b with
  | zero => exact hb
  | succ n ih =>
    have hindex : u32 (cursor+n+1+need)<128 := by
      rw [u32_of_lt (by omega)]
      omega
    exact ih (hb.put hindex (b.bytes (cursor+n))) (by omega)

theorem Buffer.Within.fillIn (hb : b.Within) (hn : cursor+i+n≤128) : (fillIn m cursor plen n i b).Within := by
  induction n generalizing i b with
  | zero => exact hb
  | succ n ih =>
    have hindex : u32 (cursor+i)<128 := by
      rw [u32_of_lt (by omega)]
      omega
    exact ih (hb.put hindex (m.getD (plen+i) 0)) (by omega)

theorem mem_fillIn (hb : k∈b.written) : k∈(fillIn m cursor plen n i b).written := by
  induction n generalizing i b with
  | zero => exact hb
  | succ n ih => exact ih (List.mem_cons_of_mem _ hb)

theorem fillIn_reaches (hk : i≤k) (hn : k < i+n) : u32 (cursor+k)∈(fillIn m cursor plen n i b).written := by
  induction n generalizing i b with
  | zero => omega
  | succ n ih =>
    rw [fillIn]
    by_cases hki : k=i
    · rw [hki]
      exact mem_fillIn List.mem_cons_self
    · exact ih (by omega) (by omega)

theorem strCopyLoop_nul (src : Nat → UInt8) : ∃ k, k ≤ i+n ∧ (strCopyLoop src n i b).bytes k=0 := by
  induction n generalizing i b with
  | zero => exact ⟨i,by omega,if_pos rfl⟩
  | succ n ih =>
    rw [strCopyLoop]
    split
    · obtain ⟨k,hk,hzero⟩ := ih (i := i+1) (b := b.put i (src i))
      exact ⟨k,by omega,hzero⟩
    · exact ⟨i,by omega,if_pos rfl⟩

theorem strLen_nul (hb : ∃ k, k<128 ∧ b.bytes k=0) : strLen b≤127 ∧ b.bytes (strLen b)=0 := by
  obtain ⟨hfree,hend,hget⟩ := isCString_readString hb
  obtain ⟨k,hk,hzero⟩ := hb
  refine ⟨?_,hend⟩
  by_contra hlong
  have hlt : k<(readString CMD_BUFFER_SIZE b.bytes).length := by
    unfold strLen at hlong
    omega
  have hmem := List.mem_of_getElem? (hget k hlt)
  rw [hzero] at hmem
  exact hfree hmem

theorem length_cmdEntry (cmd : List UInt8) : (cmdEntry cmd).length<FS_NAME_MAX := by
  rw [cmdEntry,List.length_take]
  unfold FS_NAME_MAX
  omega

theorem length_nameEntry (name : List UInt8) (isDir : Bool) : (nameEntry name isDir).length<FS_NAME_MAX := by
  rw [nameEntry,List.length_append,List.length_take]
  unfold FS_NAME_MAX
  cases isDir <;> simp only [Bool.false_eq_true,if_false,if_true,List.length_nil,List.length_singleton] <;> omega

theorem cmdLoop_fits (rest : List (List UInt8)) (hf : ∀ m∈found, m.length<FS_NAME_MAX) :
    ∀ m∈cmdLoop pre rest found, m.length<FS_NAME_MAX := by
  induction rest generalizing found with
  | nil => exact hf
  | cons cmd rest ih =>
    rw [cmdLoop]
    split
    · apply ih
      split
      · exact List.forall_mem_append.mpr ⟨hf,List.forall_mem_singleton.mpr (length_cmdEntry cmd)⟩
      · exact hf
    · exact hf

theorem nameLoop_fits (hf : ∀ m∈found, m.length<FS_NAME_MAX) :
    ∀ m∈nameLoop fs pre n i found, m.length<FS_NAME_MAX := by
  induction n generalizing i found with
  | zero => exact hf
  | succ n ih =>
    rw [nameLoop]
    split
    · split
      · exact hf
      next name isDir _ =>
        apply ih
        split
        · exact List.forall_mem_append.mpr ⟨hf,List.forall_mem_singleton.mpr (length_nameEntry name isDir)⟩
        · exact hf
    · exact hf

theorem completions_fit : ∀ m∈completions fs s, m.length<FS_NAME_MAX := by
  apply nameLoop_fits
  split
  · exact cmdLoop_fits cmds (by simp)
  · simp

theorem prefixLen_le : s.prefixLen ≤ s.cursor ∧ s.prefixLen≤63 := by
  unfold Line.prefixLen
  omega

section Keys
variable (hs : LineSafe s)
include hs

theorem LineSafe.insertMatch (hm : s.prefixLen ≤ m.length) (hm' : m.length<48) : LineSafe (insertMatch s m) := by
  have hcursor := hs.cursor
  have hlen := hs.len
  have hneed : sub32 m.length s.prefixLen=m.length-s.prefixLen := sub32_of_le hm (by omega)
  rw [Shell.insertMatch,hneed]
  dsimp only
  rw [u32_of_lt (by omega),u32_of_lt (by omega)]
  split
  next hroom =>
    have hroom : s.len+(m.length-s.prefixLen)<127 := hroom
    have hopen : (openUp s.cursor (m.length-s.prefixLen) (s.len-s.cursor) s.buffer).Within :=
      Buffer.Within.openUp hs.written (by omega)
    refine ⟨?_,?_,put_self,(hopen.fillIn (by omega)).put (by omega) 0,hs.marks⟩
    · show s.cursor+(m.length-s.prefixLen) ≤ s.len+(m.length-s.prefixLen)
      omega
    · show s.len+(m.length-s.prefixLen)≤127
      omega
  next => exact hs

/-- The difference wraps around, and the loop runs through 128. -/
theorem LineSafe.insertMatch_short (hshort : m.length<s.prefixLen) : ¬ LineSafe (Shell.insertMatch s m) := by
  have hcursor := hs.cursor
  have hlen := hs.len
  obtain ⟨hplen,_⟩ := prefixLen_le (s := s)
  have hneed : sub32 m.length s.prefixLen=4294967296-(s.prefixLen-m.length) := by
    unfold sub32 u32
    omega
  have hroom : u32 (s.len+(4294967296-(s.prefixLen-m.length)))<CMD_BUFFER_SIZE-1 := by
    unfold u32 CMD_BUFFER_SIZE
    omega
  have hmem : u32 (s.cursor+(128-s.cursor))∈(fillIn m s.cursor s.prefixLen (4294967296-(s.prefixLen-m.length)) 0
      (openUp s.cursor (4294967296-(s.prefixLen-m.length)) (s.len-s.cursor) s.buffer)).written :=
    fillIn_reaches (by omega) (by omega)
  have hindex : u32 (s.cursor+(128-s.cursor))=128 := by
    rw [u32_of_lt (by omega)]
    omega
  rw [hindex] at hmem
  intro hbad
  have hwritten := hbad.written 128
  rw [Shell.insertMatch,hneed] at hwritten
  dsimp only at hwritten
  rw [if_pos hroom] at hwritten
  exact absurd (hwritten (List.mem_cons_of_mem _ hmem)) (by decide)

theorem LineSafe.marked (fs : Fs) :
    LineSafe { s with marks := (completions fs s).flatMap (fun m => List.range (m.length+1))++s.marks } := by
  refine ⟨hs.cursor,hs.len,hs.nul,hs.written,List.forall_mem_append.mpr ⟨?_,hs.marks⟩⟩
  intro i hi
  obtain ⟨m,hmem,hrange⟩ := List.mem_flatMap.mp hi
  have hlen := completions_fit m hmem
  have hlt := List.mem_range.mp hrange
  omega

theorem LineSafe.tabKey_iff : LineSafe (tabKey fs s) ↔ ¬ ShortMatch fs s := by
  have hmarked := hs.marked fs
  rw [tabKey]
  split
  next m hone =>
    have hlen : m.length<48 := completions_fit m (hone ▸ List.mem_singleton_self m)
    have hiff : ShortMatch fs s ↔ m.length<s.prefixLen := by
      rw [ShortMatch,hone]
      constructor
      · rintro ⟨m',hm',hlt⟩
        rwa [List.singleton_inj.mp hm']
      · exact fun hlt => ⟨m,rfl,hlt⟩
    rw [hiff]
    constructor
    · exact fun hsafe hlt => hmarked.insertMatch_short hlt hsafe
    · intro hge
      exact hmarked.insertMatch (Nat.le_of_not_lt hge) hlen
  next hmany =>
    refine iff_of_true hmarked ?_
    rintro ⟨m,hone,_⟩
    exact hmany m hone

theorem LineSafe.backspaceKey : LineSafe (backspaceKey s) := by
  have hcursor := hs.cursor
  have hlen := hs.len
  rw [Shell.backspaceKey]
  split
  · refine ⟨?_,?_,put_self,(Buffer.Within.closeUp hs.written (by omega)).put (by omega) 0,hs.marks⟩
    · show s.cursor-1 ≤ s.len-1
      omega
    · show s.len-1≤127
      omega
  · exact hs

theorem LineSafe.recallLine (h : History) (pos : Int) : LineSafe (recallLine h s pos) := by
  obtain ⟨k,hk,hzero⟩ := strCopyLoop_nul (h.lines pos.toNat) (n := 127) (i := 0) (b := s.buffer)
  obtain ⟨hlen,hnul⟩ := strLen_nul (b := strCopy (h.lines pos.toNat) CMD_BUFFER_SIZE s.buffer) ⟨k,by omega,hzero⟩
  exact ⟨Nat.le_refl _,hlen,hnul,Buffer.Within.strCopyLoop hs.written (by decide),hs.marks⟩

theorem LineSafe.upKey (h : History) : LineSafe (upKey h s) := by
  rw [Shell.upKey]
  split
  · exact hs
  · exact hs.recallLine h _

theorem LineSafe.downKey (h : History) : LineSafe (downKey h s) := by
  rw [Shell.downKey]
  split
  · exact hs.recallLine h _
  · exact ⟨Nat.le_refl 0,Nat.zero_le _,put_self,Buffer.Within.put hs.written (by decide) 0,hs.marks⟩

theorem LineSafe.charKey (c : UInt8) : LineSafe (charKey s c) := by
  have hcursor := hs.cursor
  rw [Shell.charKey]
  split
  next hroom =>
    have hlen : s.len<127 := hroom.2.2
    have hopen : (openUp s.cursor 0 (s.len-s.cursor) s.buffer).Within := Buffer.Within.openUp hs.written (by omega)
    refine ⟨?_,?_,put_self,(hopen.put (by omega) c).put (by omega) 0,hs.marks⟩
    · show s.cursor+1 ≤ s.len+1
      omega
    · show s.len+1≤127
      omega
  next => exact hs

/-- Every key but a Tab keeps the line safe, and a Tab does unless its completion is too short. -/
theorem LineSafe.readKey_iff (h : History) (c : UInt8) :
    LineSafe (readKey fs h s c) ↔ c≠KEY_TAB ∨ ¬ ShortMatch fs s := by
  have hcursor := hs.cursor
  have hlen := hs.len
  by_cases htab : c=KEY_TAB
  · have hkey : readKey fs h s c=Shell.tabKey fs s := by
      rw [htab]
      rfl
    rw [hkey,hs.tabKey_iff]
    exact (or_iff_right (not_not_intro htab)).symm
  · refine iff_of_true ?_ (.inl htab)
    rw [readKey]
    split
    · exact ⟨hcursor,hlen,put_self,Buffer.Within.put hs.written (by omega) 0,hs.marks⟩
    split
    · exact hs.backspaceKey
    split
    · split
      · exact ⟨by show s.cursor-1 ≤ s.len; omega,hlen,hs.nul,hs.written,hs.marks⟩
      · exact hs
    split
    · split
      · exact ⟨by assumption,hlen,hs.nul,hs.written,hs.marks⟩
      · exact hs
    split
    · exact hs.upKey h
    split
    · exact hs.downKey h
    exact hs.charKey c

end Keys

theorem lineSafe_start (bytes : Nat → UInt8) : LineSafe (Line.start bytes) :=
  ⟨Nat.le_refl 0,Nat.zero_le _,put_self,List.forall_mem_singleton.mpr (by decide),by simp [Line.start]⟩

theorem readStep_safe_iff (hs : LineSafe s) (c : UInt8) :
    (∀ t, readStep fs h s c=some t → LineSafe t) ↔ SafeKey fs s c := by
  rw [SafeKey,readStep]
  cases hdone : s.done with
  | true => simp
  | false =>
    rw [if_neg (by decide),← hs.readKey_iff h c]
    simp

/-- A run stays in its buffers exactly if no Tab in it has a completion that is too short. -/
theorem read_line_safe_iff (fs : Fs) (h : History) (bytes : Nat → UInt8) (keys : List UInt8) :
    Always (readStep fs h) LineSafe keys (Line.start bytes) ↔
      EachStep (readStep fs h) (SafeKey fs) keys (Line.start bytes) :=
  always_iff (I := fun _ => True) (fun _ c _ hs => readStep_safe_iff hs c) (fun _ _ _ _ _ _ _ => trivial) trivial
    (lineSafe_start bytes)

/-- `whoabc`, three steps back, Tab, and three steps to the end: the line holds `whoami`, a NUL and `ab`. -/
def brokenKeys : List UInt8 :=
  ascii "whoabc"++[KEY_LEFT,KEY_LEFT,KEY_LEFT,KEY_TAB,KEY_RIGHT,KEY_RIGHT,KEY_RIGHT]

theorem brokenKeys_short : (runFrom (readStep (fsInit blankFs) noHistory) brokenKeys (Line.start fun _ => 0)).map
    (fun s => (s.done,completions (fsInit blankFs) s,s.prefixLen))=some (false,[ascii "whoami"],9) := by
  decide +kernel

theorem read_line_unsafe : ¬ ∀ fs h bytes keys, FsReachable fs →
    Always (readStep fs h) LineSafe keys (Line.start bytes) := by
  intro hall
  have h := hall (fsInit blankFs) noHistory (fun _ => 0) (brokenKeys++[KEY_TAB]) (.init ⟨blankFs,rfl⟩)
  obtain ⟨s,hrun,hs⟩ := Option.map_eq_some_iff.mp brokenKeys_short
  simp only [Prod.mk.injEq] at hs
  obtain ⟨hdone,hone,hplen⟩ := hs
  have hsafe := h brokenKeys [KEY_TAB] s rfl hrun
  have hshort : ShortMatch (fsInit blankFs) s := by
    refine ⟨_,hone,?_⟩
    rw [hplen]
    decide
  have hstep : readStep (fsInit blankFs) noHistory s KEY_TAB=some (tabKey (fsInit blankFs) s) := by
    rw [readStep,hdone]
    rfl
  have hbad := h (brokenKeys++[KEY_TAB]) [] (tabKey (fsInit blankFs) s) (List.append_nil _).symm (by
    rw [runFrom_append,hrun]
    exact runFrom_cons.mpr ⟨_,hstep,rfl⟩)
  exact hsafe.tabKey_iff.mp hbad hshort

end MyKernel.Shell
