import MyKernel.Lib.Traces
import MyKernel.RamFs.Mutators
import MyKernel.Shell.Model

/-! What the line editor returns, against an editor with a text before and after its cursor. -/
namespace MyKernel.Shell
open CString Memory RamFs Traces

inductive Key where
  | char (c : UInt8) (printable : 32≤c ∧ c<127)
  | backspace | left | right | up | down

def Key.code : Key → UInt8
  | .char c _ => c
  | .backspace => KEY_BACKSPACE
  | .left => KEY_LEFT
  | .right => KEY_RIGHT
  | .up => KEY_UP
  | .down => KEY_DOWN

/-- The text around the cursor, and the entry of the history that is shown. -/
structure Editor where
  before : List UInt8
  after : List UInt8
  browsing : Option Nat

def Editor.empty : Editor := ⟨[],[],none⟩

def Editor.text (e : Editor) : List UInt8 := e.before++e.after

def older (history : List (List UInt8)) : Option Nat → Nat
  | none => 0
  | some k => min (k+1) (history.length-1)

def Editor.press (history : List (List UInt8)) (e : Editor) : Key → Editor
  | .char c _ => if e.text.length<127 then { e with before := e.before++[c] } else e
  | .backspace => { e with before := e.before.dropLast }
  | .left => match e.before.getLast? with
    | none => e
    | some c => { e with before := e.before.dropLast, after := c::e.after }
  | .right => match e.after with
    | [] => e
    | c::rest => { e with before := e.before++[c], after := rest }
  | .up =>
    if history=[] then e
    else ⟨history.getD (older history e.browsing) [],[],some (older history e.browsing)⟩
  | .down => match e.browsing with
    | some (k+1) => ⟨history.getD k [],[],some k⟩
    | _ => .empty

/-- The table holds the lines of the list, the newest first. -/
structure History.Holds (h : History) (history : List (List UInt8)) : Prop where
  count : h.count=history.length
  lines : ∀ i l, history[i]?=some l → IsCString (h.lines i) l ∧ l.length≤127

/-- The entry the editor browses. -/
def Browses (history : List (List UInt8)) (pos : Int) : Option Nat → Prop
  | none => pos = -1
  | some k => pos=k ∧ k<history.length

structure Shows (history : List (List UInt8)) (s : Line) (e : Editor) : Prop where
  text : IsCString s.buffer.bytes e.text
  cursor : s.cursor=e.before.length
  len : s.len=e.text.length
  fits : s.len≤127
  browses : Browses history s.pos e.browsing
  running : s.done=false

variable {fs : Fs} {h : History} {s t : Line} {b : Buffer} {src : Nat → UInt8} {c : UInt8} {i j k n cursor need : Nat}
variable {l line : List UInt8} {history : List (List UInt8)} {e : Editor}

theorem bytes_put : (b.put i c).bytes j=if j=i then c else b.bytes j := rfl

theorem closeUp_bytes : (closeUp n i b).bytes j=if i≤j ∧ j < i+n then b.bytes (j+1) else b.bytes j := by
  induction n generalizing i b with
  | zero => rw [closeUp,if_neg (by omega)]
  | succ n ih =>
    rw [closeUp,ih,bytes_put,bytes_put]
    by_cases hj : j=i
    · rw [if_neg (by omega),if_pos hj,if_pos (by omega),hj]
    · by_cases hin : i+1≤j ∧ j < i+1+n
      · rw [if_pos hin,if_neg (by omega),if_pos (by omega)]
      · rw [if_neg hin,if_neg hj,if_neg (by omega)]

theorem openUp_bytes (hn : cursor+need+n<4294967296) : (openUp cursor need n b).bytes j =
    if cursor+need<j ∧ j≤cursor+need+n then b.bytes (j-need-1) else b.bytes j := by
  induction n generalizing b with
  | zero => rw [openUp,if_neg (by omega)]
  | succ n ih =>
    rw [openUp,ih (by omega),bytes_put,bytes_put,u32_of_lt (by omega)]
    by_cases hj : j=cursor+n+1+need
    · have hsrc : cursor+n=j-need-1 := by omega
      rw [if_neg (by omega),if_pos hj,if_pos (by omega),hsrc]
    · by_cases hin : cursor+need<j ∧ j≤cursor+need+n
      · rw [if_pos hin,if_neg (by omega),if_pos (by omega)]
      · rw [if_neg hin,if_neg hj,if_neg (by omega)]

theorem strCopyLoop_eq (hl : IsCString (fun j => src (i+j)) l) (hn : l.length≤n) :
    (strCopyLoop src n i b).bytes=copyTruncate (i+n+1) i l b.bytes := by
  induction n generalizing i l b with
  | zero =>
    obtain rfl := List.length_eq_zero_iff.mp (Nat.le_zero.mp hn)
    rfl
  | succ n ih =>
    cases l with
    | nil =>
      have hend : src i=0 := isCString_nil.mp hl
      rw [strCopyLoop,if_neg (not_not_intro hend)]
      rfl
    | cons c l =>
      obtain ⟨hc,hsrc,htail⟩ := isCString_cons.mp hl
      have hsrc : src i=c := hsrc
      have hshift : (fun j => src (i+1+j))=fun j => src (i+(j+1)) := by
        funext j
        rw [Nat.add_assoc,Nat.add_comm 1]
      rw [← hshift] at htail
      rw [strCopyLoop,if_pos (hsrc ▸ hc),ih htail (Nat.le_of_succ_le_succ hn),copyTruncate,if_pos (by omega),hsrc]
      congr 1
      omega

theorem strCopy_isCString (hl : IsCString src l) (hlen : l.length≤127) :
    IsCString (strCopy src CMD_BUFFER_SIZE b).bytes l ∧ strLen (strCopy src CMD_BUFFER_SIZE b)=l.length := by
  have hcopy : IsCString (strCopy src CMD_BUFFER_SIZE b).bytes l := by
    have heq : (strCopy src CMD_BUFFER_SIZE b).bytes=strcpyTruncate b.bytes l CMD_BUFFER_SIZE :=
      strCopyLoop_eq (by simpa only [Nat.zero_add] using hl) hlen
    rw [heq]
    exact strcpyTruncate_isCString b.bytes hl.1 (Nat.lt_succ_of_le hlen)
  exact ⟨hcopy,congrArg List.length (readString_eq hcopy (Nat.lt_succ_of_le hlen))⟩

theorem getD_insert (a l : List UInt8) (c : UInt8) (j : Nat) : (a++c::l).getD j 0 =
    if j<a.length then (a++l).getD j 0 else if j=a.length then c else (a++l).getD (j-1) 0 := by
  split
  next hlt => rw [List.getD_append _ _ _ _ hlt,List.getD_append _ _ _ _ hlt]
  next hge =>
    rw [List.getD_append_right _ _ _ _ (by omega)]
    split
    next heq => rw [heq,Nat.sub_self,List.getD_cons_zero]
    next hne =>
      obtain ⟨k,rfl⟩ : ∃ k, j=a.length+k+1 := ⟨j-a.length-1,by omega⟩
      rw [List.getD_append_right _ _ _ _ (by omega),Nat.add_assoc,Nat.add_sub_cancel_left,List.getD_cons_succ,
        ← Nat.add_assoc,Nat.add_sub_cancel,Nat.add_sub_cancel_left]

theorem isCString_inserted {a : List UInt8} (hl : IsCString b.bytes (a++l)) (hc : c≠0) (hlen : (a++l).length≤127) :
    IsCString (((openUp a.length 0 l.length b).put a.length c).put (a.length+l.length+1) 0).bytes (a++c::l) := by
  obtain ⟨hfree,hget⟩ := isCString_iff.mp hl
  rw [List.length_append] at hget hlen
  rw [isCString_iff]
  constructor
  · simp only [List.mem_append,List.mem_cons,hc.symm,false_or] at hfree ⊢
    exact hfree
  · intro j hj
    rw [List.length_append,List.length_cons] at hj
    rw [getD_insert,bytes_put,bytes_put,openUp_bytes (by omega)]
    by_cases hbefore : j<a.length
    · rw [if_neg (by omega),if_neg (by omega),if_neg (by omega),if_pos hbefore,hget j (by omega)]
    · by_cases hhere : j=a.length
      · rw [if_neg (by omega),if_pos hhere,if_neg hbefore,if_pos hhere]
      · rw [if_neg hbefore,if_neg hhere,if_neg hhere]
        by_cases hend : j=a.length+l.length+1
        · rw [if_pos hend,List.getD_eq_default _ _ (by rw [List.length_append]; omega)]
        · rw [if_neg hend,if_pos (by omega),Nat.sub_zero,hget (j-1) (by omega)]

theorem isCString_removed {a : List UInt8} (hl : IsCString b.bytes (a++c::l)) :
    IsCString ((closeUp l.length a.length b).put (a.length+l.length) 0).bytes (a++l) := by
  obtain ⟨hfree,hget⟩ := isCString_iff.mp hl
  rw [List.length_append,List.length_cons] at hget
  rw [isCString_iff,List.length_append]
  constructor
  · simp only [List.mem_append,List.mem_cons,not_or] at hfree ⊢
    exact ⟨hfree.1,hfree.2.2⟩
  · intro j hj
    rw [bytes_put,closeUp_bytes]
    by_cases hend : j=a.length+l.length
    · rw [if_pos hend,List.getD_eq_default _ _ (by rw [List.length_append]; omega)]
    · rw [if_neg hend]
      by_cases hbefore : j<a.length
      · rw [if_neg (by omega),hget j (by omega),getD_insert,if_pos hbefore]
      · rw [if_pos (by omega),hget (j+1) (by omega),getD_insert,if_neg (by omega),if_neg (by omega),
          Nat.add_sub_cancel]

theorem readKey_printable (hc : 32≤c) : readKey fs h s c=charKey s c := by
  have hne : ∀ d : UInt8, d<32 → c≠d := by
    rintro d hd rfl
    exact absurd hc (UInt8.not_le.mpr hd)
  rw [readKey,if_neg (hne _ (by decide)),if_neg (hne _ (by decide)),if_neg (hne _ (by decide)),
    if_neg (hne _ (by decide)),if_neg (hne _ (by decide)),if_neg (hne _ (by decide)),if_neg (hne _ (by decide))]

section Press
variable (hs : Shows history s e)
include hs

theorem Shows.lengths : s.len-s.cursor=e.after.length ∧ s.len=e.before.length+e.after.length := by
  have hlen := hs.len
  have hcursor := hs.cursor
  rw [Editor.text,List.length_append] at hlen
  omega

theorem Shows.char (hc : 32≤c ∧ c<127) : Shows history (charKey s c) (e.press history (.char c hc)) := by
  obtain ⟨hafter,hlen⟩ := hs.lengths
  have hfits := hs.fits
  have hne : c≠0 := by
    rintro rfl
    exact absurd hc.1 (by decide)
  rw [charKey,Editor.press,← hs.len]
  by_cases hroom : s.len<127
  · have hnew : (⟨e.before++[c],e.after,e.browsing⟩ : Editor).text=e.before++c::e.after := List.append_assoc _ [c] _
    rw [if_pos ⟨hc.1,hc.2,hroom⟩,if_pos hroom]
    refine ⟨?_,?_,?_,hroom,hs.browses,hs.running⟩
    · rw [hnew,hafter,hlen,hs.cursor]
      exact isCString_inserted hs.text hne (hs.len ▸ hfits)
    · show s.cursor+1=(e.before++[c]).length
      rw [List.length_append,List.length_singleton,hs.cursor]
    · show s.len+1=_
      rw [hnew,List.length_append,List.length_cons,hlen,Nat.add_assoc]
  · rw [if_neg fun h => hroom h.2.2,if_neg hroom]
    exact hs

theorem Shows.backspace : Shows history (backspaceKey s) (e.press history .backspace) := by
  obtain ⟨hafter,hlen⟩ := hs.lengths
  have hfits := hs.fits
  have hcursor := hs.cursor
  have htext := hs.text
  rw [backspaceKey,Editor.press]
  cases List.eq_nil_or_concat e.before with
  | inl hnil =>
    have hsame : (⟨e.before.dropLast,e.after,e.browsing⟩ : Editor)=e := by
      rw [hnil]
      cases e
      simp_all
    rw [hnil] at hcursor
    rw [if_neg (by simp [hcursor]),hsame]
    exact hs
  | inr hconcat =>
    obtain ⟨a,d,hbefore⟩ := hconcat
    rw [List.concat_eq_append] at hbefore
    rw [Editor.text,hbefore,List.append_assoc] at htext
    rw [hbefore,List.length_append,List.length_singleton] at hcursor hlen
    have hdrop : e.before.dropLast=a := by rw [hbefore,List.dropLast_concat]
    have hpasses : s.len-1-(s.cursor-1)=e.after.length := by omega
    have hback : s.cursor-1=a.length := by omega
    have hend : s.len-1=a.length+e.after.length := by omega
    rw [if_pos (by omega),hdrop,hpasses,hback,hend]
    refine ⟨isCString_removed htext,rfl,List.length_append.symm,?_,hs.browses,hs.running⟩
    show a.length+e.after.length≤127
    omega

theorem Shows.left : Shows history (if 0<s.cursor then { s with cursor := s.cursor-1 } else s)
    (e.press history .left) := by
  have hcursor := hs.cursor
  rw [Editor.press]
  cases List.eq_nil_or_concat e.before with
  | inl hnil =>
    rw [hnil] at hcursor ⊢
    rw [if_neg (by simp [hcursor])]
    exact hs
  | inr hconcat =>
    obtain ⟨a,d,hbefore⟩ := hconcat
    rw [List.concat_eq_append] at hbefore
    have hsame : (⟨a,d::e.after,e.browsing⟩ : Editor).text=e.text := by
      rw [Editor.text,Editor.text,hbefore,List.append_assoc,List.singleton_append]
    rw [hbefore,List.length_append,List.length_singleton] at hcursor
    rw [hbefore,List.getLast?_concat,if_pos (by omega)]
    dsimp only
    rw [List.dropLast_concat]
    refine ⟨?_,?_,?_,hs.fits,hs.browses,hs.running⟩
    · rw [hsame]
      exact hs.text
    · show s.cursor-1=a.length
      omega
    · rw [hsame]
      exact hs.len

theorem Shows.right : Shows history (if s.cursor<s.len then { s with cursor := s.cursor+1 } else s)
    (e.press history .right) := by
  obtain ⟨hafter,hlen⟩ := hs.lengths
  have hcursor := hs.cursor
  rw [Editor.press]
  cases hrest : e.after with
  | nil =>
    rw [hrest,List.length_nil] at hlen
    rw [if_neg (by omega)]
    exact hs
  | cons d rest =>
    have hsame : (⟨e.before++[d],rest,e.browsing⟩ : Editor).text=e.text := by
      rw [Editor.text,Editor.text,hrest,List.append_assoc,List.singleton_append]
    rw [hrest,List.length_cons] at hlen
    rw [if_pos (by omega)]
    refine ⟨?_,?_,?_,hs.fits,hs.browses,hs.running⟩
    · rw [hsame]
      exact hs.text
    · show s.cursor+1=(e.before++[d]).length
      rw [List.length_append,List.length_singleton,hcursor]
    · rw [hsame]
      exact hs.len

theorem Shows.recallLine (hh : h.Holds history) (hk : k<history.length) :
    Shows history (recallLine h s k) ⟨history.getD k [],[],some k⟩ := by
  obtain ⟨hline,hlen⟩ := hh.lines k _ (List.getElem?_eq_getElem hk)
  obtain ⟨hcopy,hcount⟩ := strCopy_isCString (b := s.buffer) hline hlen
  have hget : history.getD k []=history[k] := List.getD_eq_getElem _ _ hk
  have htext : (⟨history.getD k [],[],some k⟩ : Editor).text=history[k] := by
    rw [Editor.text,List.append_nil,hget]
  refine ⟨?_,?_,?_,?_,⟨rfl,hk⟩,hs.running⟩
  · rw [htext]
    exact hcopy
  · show strLen _ = (history.getD k []).length
    rw [hget]
    exact hcount
  · rw [htext]
    exact hcount
  · exact Nat.le_trans (Nat.le_of_eq hcount) hlen

theorem Shows.up (hh : h.Holds history) : Shows history (upKey h s) (e.press history .up) := by
  have hcount := hh.count
  have hbrowses := hs.browses
  rw [upKey,Editor.press]
  by_cases hnil : history=[]
  · rw [hnil,List.length_nil] at hcount
    rw [if_pos hcount,if_pos hnil]
    exact hs
  · have hpos := List.length_pos_iff.mpr hnil
    rw [if_neg (by omega),if_neg hnil]
    have hpos' : (if s.pos<h.count-1 then s.pos+1 else s.pos)=(older history e.browsing : Int) := by
      cases hb : e.browsing with
      | none =>
        rw [hb] at hbrowses
        rw [show s.pos = -1 from hbrowses,if_pos (by omega)]
        rfl
      | some k =>
        rw [hb] at hbrowses
        obtain ⟨hk,hlt⟩ := hbrowses
        rw [hk,older]
        split <;> omega
    rw [hpos']
    apply hs.recallLine hh
    cases hb : e.browsing with
    | none => exact hpos
    | some k =>
      rw [older]
      omega

theorem Shows.down (hh : h.Holds history) : Shows history (downKey h s) (e.press history .down) := by
  have hbrowses := hs.browses
  have hempty : Shows history { s with buffer := s.buffer.put 0 0, len := 0, cursor := 0, pos := -1 } .empty :=
    ⟨isCString_nil.mpr rfl,rfl,rfl,Nat.zero_le _,rfl,hs.running⟩
  rw [downKey,Editor.press]
  cases hb : e.browsing with
  | none =>
    rw [hb] at hbrowses
    rw [if_neg (by rw [show s.pos = -1 from hbrowses]; decide)]
    exact hempty
  | some k =>
    rw [hb] at hbrowses
    obtain ⟨hk,hlt⟩ := hbrowses
    cases k with
    | zero =>
      rw [if_neg (by omega)]
      exact hempty
    | succ k =>
      have hnext : s.pos-1=(k : Int) := by omega
      rw [if_pos (by omega),hnext]
      exact hs.recallLine hh (by omega)

theorem Shows.press (fs : Fs) (hh : h.Holds history) (key : Key) :
    ∃ t, readStep fs h s key.code=some t ∧ Shows history t (e.press history key) := by
  refine ⟨readKey fs h s key.code,?_,?_⟩
  · rw [readStep,hs.running]
    rfl
  · cases key with
    | char c hc =>
      have hkey : readKey fs h s c=charKey s c := readKey_printable hc.1
      exact hkey ▸ hs.char hc
    | backspace => exact hs.backspace
    | left => exact hs.left
    | right => exact hs.right
    | up => exact hs.up hh
    | down => exact hs.down hh

end Press

theorem Shows.run (fs : Fs) (hh : h.Holds history) (keys : List Key) (hs : Shows history s e) :
    ∃ t, runFrom (readStep fs h) (keys.map Key.code++[KEY_ENTER]) s=some t ∧ t.done=true ∧
      IsCString t.buffer.bytes (keys.foldl (Editor.press history) e).text := by
  induction keys generalizing s e with
  | nil =>
    have hstep : readStep fs h s KEY_ENTER=some { s with buffer := s.buffer.put s.len 0, done := true } := by
      rw [readStep,hs.running]
      rfl
    refine ⟨_,runFrom_cons.mpr ⟨_,hstep,rfl⟩,rfl,?_⟩
    obtain ⟨hfree,hget⟩ := isCString_iff.mp hs.text
    rw [List.foldl_nil,isCString_iff]
    refine ⟨hfree,?_⟩
    intro i hi
    have hlen := hs.len
    rw [bytes_put]
    split
    next heq => rw [heq,List.getD_eq_default _ _ (by omega)]
    next => exact hget i hi
  | cons key keys ih =>
    obtain ⟨t,hstep,ht⟩ := hs.press fs hh key
    obtain ⟨u,hrun,hu⟩ := ih ht
    exact ⟨u,runFrom_cons.mpr ⟨t,hstep,hrun⟩,hu⟩

theorem shows_start (history : List (List UInt8)) (bytes : Nat → UInt8) : Shows history (Line.start bytes) .empty :=
  ⟨isCString_nil.mpr rfl,rfl,rfl,Nat.zero_le _,rfl,rfl⟩

theorem shiftLines_above {lines : Nat → Nat → UInt8} (hi : n < i) : shiftLines n lines i=lines i := by
  induction n generalizing lines with
  | zero => rfl
  | succ n ih =>
    rw [shiftLines,ih (by omega)]
    exact if_neg (by omega)

theorem shiftLines_isCString {lines : Nat → Nat → UInt8} (hl : IsCString (lines i) l) (hlen : l.length≤127)
    (hi : i<n) : IsCString (shiftLines n lines (i+1)) l := by
  induction n generalizing lines with
  | zero => omega
  | succ n ih =>
    rw [shiftLines]
    by_cases hlast : i=n
    · rw [shiftLines_above (by omega),hlast,if_pos rfl]
      exact (strCopy_isCString (hlast ▸ hl) hlen).1
    · apply ih _ (by omega)
      rwa [if_neg (by omega)]

theorem History.Holds.add (hh : h.Holds history) (hfree : 0∉line) (hlen : line.length≤127) :
    (historyAdd h line).Holds (if line=[] then history else (line::history).take HISTORY_SIZE) := by
  rw [historyAdd]
  split
  next => exact hh
  next hne =>
    have hcount := hh.count
    have hle := h.count_le
    constructor
    · rw [List.length_take,List.length_cons,← hcount]
      show (if h.count<HISTORY_SIZE then h.count+1 else h.count)=_
      split <;> omega
    · intro i l hl
      rw [List.getElem?_take] at hl
      obtain ⟨hi,hl⟩ := Option.ite_none_right_eq_some.mp hl
      cases i with
      | zero =>
        obtain rfl : line=l := by simpa using hl
        exact ⟨strcpyTruncate_isCString _ hfree (Nat.lt_succ_of_le hlen),hlen⟩
      | succ i =>
        obtain ⟨hold,hold'⟩ := hh.lines i l hl
        refine ⟨?_,hold'⟩
        show IsCString (shiftLines (HISTORY_SIZE-1) h.lines (i+1)) l
        exact shiftLines_isCString hold hold' (by omega)

theorem take_append_take (a l : List (List UInt8)) (n : Nat) : (a++l.take n).take n=(a++l).take n := by
  rw [List.take_append,List.take_append,List.take_take]
  congr 2
  omega

theorem History.Holds.submit (hh : h.Holds history) {lines : List (List UInt8)}
    (hlines : ∀ l∈lines, 0∉l ∧ l.length≤127) :
    (lines.foldl historyAdd h).Holds (((lines.filter fun l => l≠[]).reverse++history).take HISTORY_SIZE) := by
  induction lines generalizing h history with
  | nil =>
    have hle := hh.count ▸ h.count_le
    rw [List.filter_nil,List.reverse_nil,List.nil_append,List.take_of_length_le hle]
    exact hh
  | cons line lines ih =>
    obtain ⟨⟨hfree,hlen⟩,hrest⟩ := List.forall_mem_cons.mp hlines
    have hnext := ih (hh.add hfree hlen) hrest
    rw [List.foldl_cons]
    by_cases hnil : line=[]
    · rw [if_pos hnil] at hnext
      rwa [List.filter_cons_of_neg (by simp [hnil])]
    · rw [if_neg hnil,take_append_take] at hnext
      rwa [List.filter_cons_of_pos (by simp [hnil]),List.reverse_cons,List.append_assoc]

/-- The line editor returns the text of the reference, and the history holds the last 16 lines that are not empty,
the newest first. -/
theorem read_line_reference :
    (∀ (fs : Fs) (h : History) (history : List (List UInt8)) (bytes : Nat → UInt8) (keys : List Key),
      h.Holds history → ∃ t, runFrom (readStep fs h) (keys.map Key.code++[KEY_ENTER]) (Line.start bytes)=some t ∧
        t.done=true ∧ IsCString t.buffer.bytes (keys.foldl (Editor.press history) .empty).text) ∧
    ∀ (h : History) (lines : List (List UInt8)), h.Holds [] → (∀ l∈lines, 0∉l ∧ l.length≤127) →
      (lines.foldl historyAdd h).Holds ((lines.filter fun l => l≠[]).reverse.take HISTORY_SIZE) := by
  constructor
  · intro fs h history bytes keys hh
    exact (shows_start history bytes).run fs hh keys
  · intro h lines hh hlines
    have hsubmit := hh.submit hlines
    rwa [List.append_nil] at hsubmit

theorem noHistory_holds : noHistory.Holds [] := ⟨rfl,by simp⟩

/-- `ls` is recalled and edited to `lsx`. -/
theorem read_line_reference_recall :
    ∃ t, runFrom (readStep (fsInit blankFs) (historyAdd noHistory (ascii "ls")))
        ([Key.up,.left,.right,.char 0x78 (by decide)].map Key.code++[KEY_ENTER]) (Line.start fun _ => 0)=some t ∧
      t.done=true ∧ IsCString t.buffer.bytes (ascii "lsx") := by
  have hholds : (historyAdd noHistory (ascii "ls")).Holds [ascii "ls"] :=
    noHistory_holds.add (by decide) (by decide)
  have htext : ([Key.up,.left,.right,.char 0x78 (by decide)].foldl (Editor.press [ascii "ls"]) .empty).text =
      ascii "lsx" := by decide
  obtain ⟨t,hrun,hdone,hline⟩ := read_line_reference.1 (fsInit blankFs) _ _ (fun _ => 0)
    [Key.up,.left,.right,.char 0x78 (by decide)] hholds
  exact ⟨t,hrun,hdone,htext ▸ hline⟩

end MyKernel.Shell
