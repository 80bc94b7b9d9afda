import Mathlib.Data.List.Induction
import Mathlib.Data.List.TakeWhile
import MyKernel.Shell.Editor

/-! Completion by the Tab key. -/
namespace MyKernel.Shell
open CString Memory RamFs

structure Line.Has (s : Line) (t u : List UInt8) : Prop where
  text : IsCString s.buffer.bytes (t++u)
  cursor : s.cursor=t.length
  len : s.len=t.length+u.length

def lastWord (t : List UInt8) : List UInt8 := (t.reverse.takeWhile fun c => c != 0x20).reverse

def cwdNames (fs : Fs) : List (List UInt8 × Bool) :=
  ((List.range FS_MAX_NODES).filter fun i =>
    (fs.nodes i).type != .free && (fs.nodes i).parent == some fs.cwd).map fun i =>
      (readString (FS_NAME_MAX-1) (fs.nodes i).name,(fs.nodes i).type == .dir)

/-- The commands, for the first word of the line only, and the names in the directory. -/
def candidates (fs : Fs) (t : List UInt8) : List (List UInt8 × Bool) :=
  (if lastWord t=t then cmds.map fun cmd => (cmd,false) else [])++cwdNames fs

def matching (fs : Fs) (t : List UInt8) : List (List UInt8 × Bool) :=
  (candidates fs t).filter fun e => (lastWord t).isPrefixOf e.1

def shown (e : List UInt8 × Bool) : List UInt8 := e.1++if e.2 then [0x2F] else []

def missing (t : List UInt8) (e : List UInt8 × Bool) : List UInt8 := (shown e).drop (lastWord t).length

variable {fs : Fs} {s : Line} {b : Buffer} {bytes : Nat → UInt8} {c : UInt8} {i j k n cursor need plen : Nat}
variable {t u l pre m x : List UInt8} {found : List (List UInt8)} {e : List UInt8 × Bool}

theorem lastWord_concat (t : List UInt8) (c : UInt8) : lastWord (t++[c])=if c=0x20 then [] else lastWord t++[c] := by
  simp only [lastWord,List.reverse_append,List.reverse_singleton,List.singleton_append,List.takeWhile_cons]
  by_cases hc : c=0x20
  · simp [hc]
  · simp [hc]

theorem lastWord_suffix (t : List UInt8) : lastWord t <:+ t := by
  have h := List.takeWhile_prefix (l := t.reverse) fun c => c != 0x20
  rw [← List.reverse_suffix,List.reverse_reverse] at h
  exact h

theorem tokStart_eq (h : ∀ i, i<t.length → bytes i=t.getD i 0) :
    tokStart bytes t.length+(lastWord t).length=t.length := by
  induction t using List.reverseRecOn with
  | nil => rfl
  | append_singleton t c ih =>
    have hlast : bytes t.length=c := by
      rw [h t.length (by simp),List.getD_append_right _ _ _ _ (Nat.le_refl _),Nat.sub_self,List.getD_cons_zero]
    have hbefore := ih fun i hi => by
      rw [h i (by rw [List.length_append]; omega),List.getD_append _ _ _ _ hi]
    rw [List.length_append,List.length_singleton,tokStart,hlast,lastWord_concat]
    by_cases hc : c=0x20
    · rw [if_neg (not_not_intro hc),if_pos hc,List.length_nil]
    · rw [if_pos hc,if_neg hc,List.length_append,List.length_singleton]
      omega

theorem fsCwdEntry_eq (fs : Fs) (i : Nat) : fsCwdEntry fs i=(cwdNames fs)[i]? := by
  rw [fsCwdEntry,cwdNames,List.getElem?_map]

theorem cwdNames_length (fs : Fs) : (cwdNames fs).length≤FS_MAX_NODES := by
  rw [cwdNames,List.length_map]
  exact Nat.le_trans (List.length_filter_le _ _) (Nat.le_of_eq List.length_range)

theorem matchesPrefix_eq (h : 0∉pre) (l : List UInt8) : matchesPrefix pre l=pre.isPrefixOf l := by
  induction pre generalizing l with
  | nil => rfl
  | cons p pre ih =>
    rw [List.mem_cons,not_or] at h
    cases l with
    | nil => simp [matchesPrefix,Ne.symm h.1]
    | cons c l =>
      rw [matchesPrefix,if_neg (Ne.symm h.1),List.isPrefixOf,ih h.2]
      by_cases hpc : p=c
      · simp [hpc]
      · simp [hpc]

theorem cmdLoop_eq {commands : List (List UInt8)} (h : found.length+(commands.filter (matchesPrefix pre)).length≤64) :
    cmdLoop pre commands found=found++(commands.filter (matchesPrefix pre)).map cmdEntry := by
  induction commands generalizing found with
  | nil => rw [cmdLoop,List.filter_nil,List.map_nil,List.append_nil]
  | cons cmd commands ih =>
    rw [cmdLoop]
    rw [List.filter_cons] at h ⊢
    split at h
    next hmatch =>
      rw [List.length_cons] at h
      rw [if_pos (by omega),if_pos hmatch,ih (by rw [List.length_append,List.length_singleton]; omega),
        if_pos hmatch,List.map_cons,List.append_assoc,List.singleton_append]
    next hmatch =>
      rw [if_neg hmatch,if_neg hmatch]
      split
      next => exact ih h
      next hfull =>
        have hnil : commands.filter (matchesPrefix pre)=[] := by
          apply List.eq_nil_of_length_eq_zero
          omega
        rw [hnil,List.map_nil,List.append_nil]

theorem nameLoop_eq (hn : (cwdNames fs).length < i+n)
    (h : found.length+(((cwdNames fs).drop i).filter fun e => matchesPrefix pre e.1).length≤64) :
    nameLoop fs pre n i found =
      found++(((cwdNames fs).drop i).filter fun e => matchesPrefix pre e.1).map fun e => nameEntry e.1 e.2 := by
  induction n generalizing i found with
  | zero =>
    rw [nameLoop,List.drop_eq_nil_of_le (by omega),List.filter_nil,List.map_nil,List.append_nil]
  | succ n ih =>
    rw [nameLoop,fsCwdEntry_eq]
    cases hentry : (cwdNames fs)[i]? with
    | none =>
      rw [List.drop_eq_nil_of_le (List.getElem?_eq_none_iff.mp hentry),List.filter_nil,List.map_nil,List.append_nil]
      exact ite_self found
    | some e =>
      obtain ⟨name,isDir⟩ := e
      obtain ⟨hi,hget⟩ := List.getElem?_eq_some_iff.mp hentry
      rw [List.drop_eq_getElem_cons hi,hget,List.filter_cons] at h ⊢
      dsimp only at h ⊢
      split at h
      next hmatch =>
        rw [List.length_cons] at h
        rw [if_pos (by omega),if_pos hmatch,
          ih (by omega) (by rw [List.length_append,List.length_singleton]; omega),if_pos hmatch,List.map_cons,
          List.append_assoc,List.singleton_append]
      next hmatch =>
        rw [if_neg hmatch,if_neg hmatch]
        split
        next => exact ih (by omega) h
        next hfull =>
          have hnil : ((cwdNames fs).drop (i+1)).filter (fun e => matchesPrefix pre e.1)=[] := by
            apply List.eq_nil_of_length_eq_zero
            omega
          rw [hnil,List.map_nil,List.append_nil]

theorem cmds_short : ∀ cmd∈cmds, cmd.length≤46 ∧ 0∉cmd := by decide +kernel

theorem candidates_short (h : e∈candidates fs t) : e.1.length≤47 := by
  rw [candidates,List.mem_append] at h
  cases h with
  | inl h =>
    split at h
    next =>
      obtain ⟨cmd,hcmd,rfl⟩ := List.mem_map.mp h
      exact Nat.le_succ_of_le (cmds_short cmd hcmd).1
    next => cases h
  | inr h =>
    obtain ⟨i,_,rfl⟩ := List.mem_map.mp h
    have hle := (List.takeWhile_prefix (l := (List.range 47).map (fs.nodes i).name) fun c => c != 0).length_le
    rw [List.length_map,List.length_range] at hle
    exact hle

theorem candidates_nul (h : e∈candidates fs t) : 0∉e.1 := by
  rw [candidates,List.mem_append] at h
  cases h with
  | inl h =>
    split at h
    next =>
      obtain ⟨cmd,hcmd,rfl⟩ := List.mem_map.mp h
      exact (cmds_short cmd hcmd).2
    next => cases h
  | inr h =>
    obtain ⟨i,_,rfl⟩ := List.mem_map.mp h
    intro hzero
    exact absurd (List.mem_takeWhile_imp hzero) (by simp)

def entry (e : List UInt8 × Bool) : List UInt8 := nameEntry e.1 e.2

theorem cmdEntry_eq {cmd : List UInt8} (h : cmd∈cmds) : cmdEntry cmd=entry (cmd,false) := by
  have hshort : cmd.length≤FS_NAME_MAX-2 := (cmds_short cmd h).1
  have hshort' : cmd.length≤FS_NAME_MAX-1 := Nat.le_succ_of_le hshort
  rw [cmdEntry,entry,nameEntry,List.take_of_length_le hshort',List.take_of_length_le hshort,
    if_neg Bool.false_ne_true,List.append_nil]

theorem Line.Has.byte_eq (hs : s.Has t u) (hi : i≤t.length+u.length) : s.buffer.bytes i=(t++u).getD i 0 :=
  (isCString_iff.mp hs.text).2 i (by rw [List.length_append]; exact hi)

theorem Line.Has.tokStart (hs : s.Has t u) : Shell.tokStart s.buffer.bytes s.cursor+(lastWord t).length=t.length := by
  rw [hs.cursor]
  apply tokStart_eq
  intro i hi
  rw [hs.byte_eq (by omega),List.getD_append _ _ _ _ hi]

theorem Line.Has.word (hs : s.Has t u) :
    (List.range (lastWord t).length).map (fun i => s.buffer.bytes (Shell.tokStart s.buffer.bytes s.cursor+i)) =
      lastWord t := by
  have htok := hs.tokStart
  obtain ⟨a,ha⟩ := lastWord_suffix t
  generalize lastWord t=w at htok ha ⊢
  subst ha
  rw [List.length_append,Nat.add_right_cancel_iff] at htok
  rw [htok]
  apply List.ext_getElem
  · rw [List.length_map,List.length_range]
  · intro i hi hi'
    rw [List.getElem_map,List.getElem_range,hs.byte_eq (by rw [List.length_append]; omega),List.append_assoc,
      List.getD_append_right _ _ _ _ (Nat.le_add_right _ _),Nat.add_sub_cancel_left,List.getD_append _ _ _ _ hi',
      List.getD_eq_getElem _ _ hi']

theorem Line.Has.prefixLen (hs : s.Has t u) (hw : (lastWord t).length≤63) : s.prefixLen=(lastWord t).length := by
  have htok := hs.tokStart
  have hcursor := hs.cursor
  rw [Line.prefixLen]
  omega

theorem Line.Has.completions (hs : s.Has t u) (hw : (lastWord t).length≤63) (hm : (matching fs t).length≤64) :
    completions fs s=(matching fs t).map entry := by
  have hnul : 0∉lastWord t := by
    intro hmem
    exact (isCString_iff.mp hs.text).1 (List.mem_append_left _ ((lastWord_suffix t).subset hmem))
  have hmatch : (lastWord t).isPrefixOf=matchesPrefix (lastWord t) := by
    funext l
    exact (matchesPrefix_eq hnul l).symm
  have htok := hs.tokStart
  have hfirst : Shell.tokStart s.buffer.bytes s.cursor=0 ↔ lastWord t=t := by
    constructor
    · intro h0
      exact (lastWord_suffix t).eq_of_length (by omega)
    · intro he
      rw [he] at htok
      omega
  have hnames : (cwdNames fs).length<0+(FS_MAX_NODES+1) := by
    have hle := cwdNames_length fs
    omega
  rw [Shell.completions,hs.prefixLen hw,hs.word]
  simp only [hfirst]
  unfold matching candidates at hm ⊢
  rw [List.filter_append] at hm ⊢
  simp only [hmatch] at hm ⊢
  by_cases hword : lastWord t=t
  · have hcmds : (cmds.map fun cmd => (cmd,false)).filter (fun e => matchesPrefix (lastWord t) e.1) =
        (cmds.filter (matchesPrefix (lastWord t))).map fun cmd => (cmd,false) := List.filter_map
    rw [if_pos hword,hcmds,List.length_append,List.length_map] at hm
    rw [if_pos hword,if_pos hword,hcmds,cmdLoop_eq (by rw [List.length_nil]; omega),List.nil_append,
      nameLoop_eq hnames (by rw [List.length_map,List.drop_zero]; exact hm),List.drop_zero,List.map_append,
      List.map_map]
    congr 1
    apply List.map_congr_left
    intro cmd hcmd
    exact cmdEntry_eq (List.mem_of_mem_filter hcmd)
  · rw [if_neg hword,List.filter_nil,List.nil_append] at hm
    rw [if_neg hword,if_neg hword,List.filter_nil,List.nil_append,
      nameLoop_eq hnames (by rw [List.length_nil,Nat.zero_add,List.drop_zero]; exact hm),List.nil_append,
      List.drop_zero]
    rfl

theorem fillIn_bytes (hn : cursor+i+n<4294967296) : (fillIn m cursor plen n i b).bytes j =
    if cursor+i≤j ∧ j<cursor+i+n then m.getD (plen+(j-cursor)) 0 else b.bytes j := by
  induction n generalizing i b with
  | zero => rw [fillIn,if_neg (by omega)]
  | succ n ih =>
    rw [fillIn,ih (by omega),bytes_put,u32_of_lt (by omega)]
    by_cases hj : j=cursor+i
    · have hsrc : plen+i=plen+(j-cursor) := by omega
      rw [if_neg (by omega),if_pos hj,if_pos (by omega),hsrc]
    · by_cases hin : cursor+(i+1)≤j ∧ j<cursor+(i+1)+n
      · rw [if_pos hin,if_pos (by omega)]
      · rw [if_neg hin,if_neg hj,if_neg (by omega)]

theorem getD_behind (a u : List UInt8) (i : Nat) : (a++u).getD (a.length+i) 0=u.getD i 0 := by
  rw [List.getD_append_right _ _ _ _ (Nat.le_add_right _ _),Nat.add_sub_cancel_left]

section Insert
variable (hs : s.Has t u) (hplen : s.prefixLen+x.length=m.length) (hdrop : m.drop s.prefixLen=x)
  (hroom : t.length+u.length+x.length<127)
include hs hplen hroom

theorem Line.Has.insertMatch_eq : insertMatch s m =
    { s with
      buffer := (fillIn m t.length s.prefixLen x.length 0 (openUp t.length x.length u.length s.buffer)).put
        (t.length+u.length+x.length) 0
      len := t.length+u.length+x.length
      cursor := t.length+x.length } := by
  have hle : s.prefixLen≤63 := Nat.min_le_right _ _
  have hneed : sub32 m.length s.prefixLen=x.length := by
    rw [sub32_of_le (by omega) (by omega)]
    omega
  have hfits : t.length+u.length+x.length<CMD_BUFFER_SIZE-1 := hroom
  rw [insertMatch,hneed,hs.cursor,hs.len,u32_of_lt (by omega),u32_of_lt (by omega),Nat.add_sub_cancel_left,
    if_pos hfits]

include hdrop

theorem Line.Has.inserted_bytes (j : Nat) : (insertMatch s m).buffer.bytes j =
    if j=t.length+u.length+x.length then 0
    else if t.length≤j ∧ j<t.length+x.length then x.getD (j-t.length) 0
    else if t.length+x.length<j ∧ j≤t.length+x.length+u.length then s.buffer.bytes (j-x.length-1)
    else s.buffer.bytes j := by
  rw [hs.insertMatch_eq hplen hroom]
  dsimp only
  rw [bytes_put,fillIn_bytes (by omega),openUp_bytes (by omega),Nat.add_zero,← hdrop,List.getD_eq_getElem?_getD,
    List.getD_eq_getElem?_getD,List.getElem?_drop]

theorem Line.Has.inserted_tail {i : Nat} (hi : i<u.length) : (insertMatch s m).buffer.bytes ((t++x).length+i) =
    if i=0 then s.buffer.bytes (t.length+x.length) else u.getD (i-1) 0 := by
  rw [List.length_append,hs.inserted_bytes hplen hdrop hroom,if_neg (by omega),if_neg (by omega)]
  by_cases h0 : i=0
  · rw [if_pos h0,if_neg (by omega),h0,Nat.add_zero]
  · have hsrc : t.length+x.length+i-x.length-1=t.length+(i-1) := by omega
    rw [if_neg h0,if_pos (by omega),hsrc,hs.byte_eq (by omega),getD_behind]

theorem Line.Has.inserted_front {j : Nat} (hj : j<(t++x).length) :
    (insertMatch s m).buffer.bytes j=(t++x).getD j 0 := by
  rw [List.length_append] at hj
  rw [hs.inserted_bytes hplen hdrop hroom,if_neg (by omega)]
  by_cases hbefore : j<t.length
  · rw [if_neg (by omega),if_neg (by omega),hs.byte_eq (by omega),List.getD_append _ _ _ _ hbefore,
      List.getD_append _ _ _ _ hbefore]
  · rw [if_pos (by omega),List.getD_append_right _ _ _ _ (by omega)]

/-- The tail comes out as it was, if it consists of one character that also stands in the place left out. -/
theorem Line.Has.inserted_iff (hx : 0∉x) : (insertMatch s m).Has (t++x) u ↔
    ∀ c∈u, c=s.buffer.bytes (t.length+x.length) := by
  have hafter := fun i => @Line.Has.inserted_tail _ _ _ _ _ hs hplen hdrop hroom i
  constructor
  · intro h
    -- each place of the tail has the character before it, and the first the one left out
    have hsame : ∀ i, i<u.length → u.getD i 0=s.buffer.bytes (t.length+x.length) := by
      intro i hi
      induction i with
      | zero => rw [← getD_behind (t++x),← h.byte_eq (by omega),hafter 0 hi,if_pos rfl]
      | succ i ih =>
        rw [← getD_behind (t++x),← h.byte_eq (by omega),hafter _ hi,if_neg (Nat.succ_ne_zero i),
          Nat.add_sub_cancel,ih (by omega)]
    intro c hc
    obtain ⟨i,hi,hget⟩ := List.mem_iff_getElem.mp hc
    rw [← hsame i hi,List.getD_eq_getElem _ _ hi,hget]
  · intro hall
    have hsame : ∀ i, i<u.length → u.getD i 0=s.buffer.bytes (t.length+x.length) := by
      intro i hi
      rw [List.getD_eq_getElem _ _ hi]
      exact hall _ (List.getElem_mem hi)
    have hold := isCString_iff.mp hs.text
    have hlen : (t++x).length+u.length=t.length+u.length+x.length := by
      rw [List.length_append]
      omega
    refine ⟨isCString_iff.mpr ⟨?_,?_⟩,?_,?_⟩
    · simp only [List.mem_append,not_or] at hold ⊢
      exact ⟨⟨hold.1.1,hx⟩,hold.1.2⟩
    · intro j hj
      rw [List.length_append,hlen] at hj
      by_cases hend : j=t.length+u.length+x.length
      · rw [hs.inserted_bytes hplen hdrop hroom,if_pos hend,List.getD_eq_default _ _ (by rw [List.length_append]; omega)]
      by_cases hin : j<(t++x).length
      · rw [hs.inserted_front hplen hdrop hroom hin,List.getD_append _ _ _ _ hin]
      obtain ⟨i,rfl⟩ : ∃ i, j=(t++x).length+i := ⟨j-(t++x).length,by omega⟩
      have hi : i<u.length := by omega
      rw [hafter i hi,getD_behind,hsame i hi]
      split
      next => rfl
      next => exact hsame _ (by omega)
    · rw [hs.insertMatch_eq hplen hroom,List.length_append]
    · rw [hs.insertMatch_eq hplen hroom]
      exact hlen.symm

end Insert

theorem readKey_tab (fs : Fs) (h : History) (s : Line) : readKey fs h s KEY_TAB=tabKey fs s := rfl

theorem Line.Has.marked (hs : s.Has t u) (marks : List Nat) : ({ s with marks := marks } : Line).Has t u :=
  ⟨hs.text,hs.cursor,hs.len⟩

theorem matching_word (hm : matching fs t=[e]) : e∈candidates fs t ∧ lastWord t <+: e.1 := by
  have hmem : e∈matching fs t := by rw [hm]; exact List.mem_singleton_self e
  obtain ⟨hcand,hword⟩ := List.mem_filter.mp hmem
  exact ⟨hcand,List.isPrefixOf_iff_prefix.mp hword⟩

theorem Line.Has.tabKey (hs : s.Has t u) (hm : matching fs t=[e]) :
    ∃ marks, tabKey fs s=insertMatch { s with marks := marks } (entry e) := by
  obtain ⟨hcand,hword⟩ := matching_word hm
  have hshort := candidates_short hcand
  have hle := hword.length_le
  have hone : Shell.completions fs s=[entry e] := by
    rw [hs.completions (by omega) (by rw [hm,List.length_singleton]; decide),hm]
    rfl
  exact ⟨_,by rw [Shell.tabKey,hone]⟩

theorem insertMatch_refused (h : ¬ u32 (s.len+sub32 m.length s.prefixLen)<127) : insertMatch s m=s := if_neg h

theorem insertMatch_cursor (s : Line) (m : List UInt8) : (insertMatch s m).cursor =
    if u32 (s.len+sub32 m.length s.prefixLen)<127 then u32 (s.cursor+sub32 m.length s.prefixLen) else s.cursor := by
  by_cases h : u32 (s.len+sub32 m.length s.prefixLen)<127
  · rw [if_pos h]
    exact congrArg Line.cursor (if_pos h)
  · rw [if_neg h,insertMatch_refused h]

theorem shown_length (e : List UInt8 × Bool) : (shown e).length=e.1.length+if e.2 then 1 else 0 := by
  rw [shown,List.length_append]
  cases e.2 with
  | true => rfl
  | false => rfl

theorem entry_length (e : List UInt8 × Bool) : (entry e).length=min 46 e.1.length+if e.2 then 1 else 0 := by
  rw [entry,nameEntry,List.length_append,List.length_take]
  cases e.2 with
  | true => rfl
  | false => rfl

theorem shown_nul (h : 0∉e.1) : 0∉shown e := by
  rw [shown,List.mem_append,not_or]
  refine ⟨h,?_⟩
  cases e.2 with
  | true => decide
  | false => exact List.not_mem_nil

theorem Line.Has.cut (hs : s.Has t u) (hfits : t.length+u.length≤127) (hword : lastWord t <+: e.1)
    (he : e.1.length=47) : ¬ (insertMatch s (entry e)).Has (t++missing t e) u := by
  intro h
  have hw := hword.length_le
  have hsuffix := (lastWord_suffix t).length_le
  have hcursor := h.cursor
  rw [insertMatch_cursor,hs.prefixLen (by omega),hs.cursor,hs.len,entry_length,List.length_append,missing,
    List.length_drop,shown_length,he] at hcursor
  unfold sub32 u32 at hcursor
  cases he2 : e.2 with
  | true =>
    rw [he2,if_pos rfl] at hcursor
    split at hcursor
    · omega
    · omega
  | false =>
    rw [he2,if_neg Bool.false_ne_true] at hcursor
    split at hcursor
    · omega
    · omega

theorem Line.Has.insert_iff (hs : s.Has t u) (hcand : e∈candidates fs t) (hword : lastWord t <+: e.1)
    (he : e.1.length≤46) (hroom : t.length+u.length+(missing t e).length≤127) :
    (insertMatch s (entry e)).Has (t++missing t e) u ↔
      missing t e=[] ∧ t.length+u.length=127 ∨
        t.length+u.length+(missing t e).length<127 ∧
          ∀ c∈u, c=s.buffer.bytes (t.length+(missing t e).length) := by
  have hw := hword.length_le
  have hshown := shown_length e
  have hplen := hs.prefixLen (by omega)
  have hentry : entry e=shown e := by
    have htake : e.1.take (FS_NAME_MAX-2)=e.1 := List.take_of_length_le he
    rw [entry,nameEntry,shown,htake]
  have hx : 0∉missing t e := fun hmem => shown_nul (candidates_nul hcand) (List.mem_of_mem_drop hmem)
  have hlen : (lastWord t).length+(missing t e).length=(shown e).length := by
    rw [missing,List.length_drop]
    omega
  rw [hentry]
  by_cases hspare : t.length+u.length+(missing t e).length<127
  · rw [hs.inserted_iff (by rw [hplen]; exact hlen) (by rw [hplen]; rfl) hspare hx]
    constructor
    · intro hall
      exact .inr ⟨hspare,hall⟩
    · rintro (⟨hnil,hfull⟩ | hall)
      · rw [hnil,List.length_nil] at hspare
        omega
      · exact hall.2
  · have hneed : sub32 (shown e).length (lastWord t).length=(missing t e).length := by
      rw [sub32_of_le (by omega) (by omega)]
      omega
    rw [insertMatch_refused (by rw [hplen,hneed,hs.len,u32_of_lt (by omega)]; exact hspare)]
    constructor
    · intro hkept
      have hcursor := hkept.cursor
      rw [hs.cursor,List.length_append] at hcursor
      have hnil : missing t e=[] := List.eq_nil_of_length_eq_zero (by omega)
      rw [hnil,List.length_nil] at hspare hroom
      exact .inl ⟨hnil,by omega⟩
    · rintro (⟨hnil,_⟩ | hall)
      · rw [hnil,List.append_nil]
        exact hs
      · exact absurd hall.1 hspare

/-- With one match, and room for what is missing, a Tab inserts it and moves the cursor behind it exactly if the name
has at most 46 bytes, there is a place to spare (or nothing to do on a full line), and what follows the cursor may be
moved too far. -/
theorem tab_inserts_iff (fs : Fs) (h : History) (s : Line) (t u : List UInt8) (e : List UInt8 × Bool)
    (hs : s.Has t u) (hm : matching fs t=[e]) (hroom : t.length+u.length+(missing t e).length≤127) :
    (readKey fs h s KEY_TAB).Has (t++missing t e) u ↔ e.1.length≤46 ∧
      (missing t e=[] ∧ t.length+u.length=127 ∨
        t.length+u.length+(missing t e).length<127 ∧
          ∀ c∈u, c=s.buffer.bytes (t.length+(missing t e).length)) := by
  obtain ⟨marks,hkey⟩ := hs.tabKey hm
  obtain ⟨hcand,hword⟩ := matching_word hm
  have hshort := candidates_short hcand
  have hmarked := hs.marked marks
  rw [readKey_tab,hkey]
  by_cases he : e.1.length≤46
  · rw [and_iff_right he]
    exact hmarked.insert_iff hcand hword he hroom
  · exact iff_of_false (hmarked.cut (by omega) hword (by omega)) fun h => he h.1

def lineOf (t u : List UInt8) : Line := ⟨⟨fun i => (t++u).getD i 0, []⟩,t.length+u.length,t.length,-1,false,[]⟩

theorem lineOf_has (h : 0∉t++u) : (lineOf t u).Has t u :=
  ⟨isCString_iff.mpr ⟨h,fun _ _ => rfl⟩,rfl,rfl⟩

theorem hel_matches : matching (fsInit blankFs) (ascii "hel")=[(ascii "help",false)] := by decide +kernel

/-- At the end of the line. -/
theorem tab_inserts_help : (readKey (fsInit blankFs) noHistory (lineOf (ascii "hel") []) KEY_TAB).Has
    (ascii "hel"++missing (ascii "hel") (ascii "help",false)) [] :=
  (tab_inserts_iff _ _ _ _ _ _ (lineOf_has (by decide)) hel_matches (by decide)).mpr
    ⟨by decide,.inr ⟨by decide,List.forall_mem_nil _⟩⟩

/-- Before ` x`. -/
theorem tab_spoils_tail : ¬ ∀ (fs : Fs) (h : History) (s : Line) (t u : List UInt8) (e : List UInt8 × Bool),
    s.Has t u → matching fs t=[e] → t.length+u.length+(missing t e).length≤127 →
      (readKey fs h s KEY_TAB).Has (t++missing t e) u := by
  intro hall
  have hs : (lineOf (ascii "hel") [0x20,0x78]).Has (ascii "hel") [0x20,0x78] := lineOf_has (by decide)
  obtain ⟨marks,hkey⟩ := hs.tabKey hel_matches
  obtain ⟨hcand,hword⟩ := matching_word hel_matches
  have htab := hall _ noHistory _ _ _ _ hs hel_matches (by decide)
  rw [readKey_tab,hkey,(hs.marked marks).insert_iff hcand hword (by decide) (by decide)] at htab
  cases htab with
  | inl h => exact absurd h.1 (by decide)
  | inr h =>
    have hblank : (0x20 : UInt8)=(lineOf (ascii "hel") [0x20,0x78]).buffer.bytes 4 := h.2 0x20 List.mem_cons_self
    exact absurd hblank (by decide)

end MyKernel.Shell
