import Mathlib.Data.List.TakeDrop
import MyKernel.RamFs.Undo

/-! `fs_append` against the text it is given. -/
namespace MyKernel.RamFs
open CString

variable {s : Fs} {n : FsNode} {idx pos : Nat} {name text old : List UInt8} {content : Nat → UInt8}

/-- The old content, a line break when there was any, and the text. -/
def appended (old text : List UInt8) : List UInt8 := old++(if old=[] then [] else [0x0A])++text

def oldContent (s : Fs) (name : List UInt8) : List UInt8 :=
  match fsRead s name with
  | .ok idx => contentOf (s.nodes idx)
  | .error _ => []

/-- The name belongs to a file, or one can be made under it. -/
def CanOpen (s : Fs) (name : List UInt8) : Prop :=
  match fsFindChild s s.cwd name with
  | some idx => (s.nodes idx).type = .file
  | none => fsIsValidName name=true ∧ fsAllocNode s≠none

def prefixOf (content : Nat → UInt8) (pos : Nat) : List UInt8 := (List.range pos).map content

theorem prefixOf_setByte (c : UInt8) : prefixOf (setByte content pos c) (pos+1)=prefixOf content pos++[c] := by
  simp only [prefixOf,List.range_succ,List.map_append,List.map_cons,List.map_nil]
  congr 1
  · apply List.map_congr_left
    intro i hi
    simp [setByte,Nat.ne_of_lt (List.mem_range.mp hi)]
  · simp [setByte]

theorem prefixOf_setByte_end (c : UInt8) : prefixOf (setByte content pos c) pos=prefixOf content pos := by
  apply List.map_congr_left
  intro i hi
  simp [setByte,Nat.ne_of_lt (List.mem_range.mp hi)]

theorem appendLoop_kept (text : List UInt8) (hpos : pos≤8191) :
    prefixOf (appendLoop text content pos).1 (appendLoop text content pos).2 =
      (prefixOf content pos++text).take 8191 := by
  induction text generalizing content pos with
  | nil =>
    rw [List.append_nil,List.take_of_length_le (by simp [prefixOf,hpos])]
    rfl
  | cons c cs ih =>
    rw [appendLoop]
    by_cases hroom : pos<FS_FILE_MAX - 1
    · have hlt : pos+1≤8191 := hroom
      rw [if_pos hroom,ih hlt,prefixOf_setByte,List.append_assoc,List.singleton_append]
    · have hfull : pos=8191 := by
        simp only [FS_FILE_MAX] at hroom
        omega
      rw [if_neg hroom,List.take_left' (by simp [prefixOf,hfull])]

theorem contentOf_appendText (h : n.contentLen≤8191) :
    contentOf (appendText n text)=(appended (contentOf n) text).take 8191 := by
  have hnil : contentOf n=[] ↔ n.contentLen=0 := by simp [contentOf]
  have hlen : (contentOf n).length=n.contentLen := by simp [contentOf]
  rw [appendText]
  by_cases hsep : 0<n.contentLen ∧ n.contentLen<FS_FILE_MAX - 1
  · have hlt : n.contentLen+1≤8191 := hsep.2
    simp only [if_pos hsep]
    refine (prefixOf_setByte_end 0).trans ?_
    rw [appendLoop_kept text hlt,prefixOf_setByte,appended,if_neg (by rw [hnil]; omega)]
    rfl
  · simp only [if_neg hsep]
    refine (prefixOf_setByte_end 0).trans ?_
    rw [appendLoop_kept text h]
    by_cases h0 : n.contentLen=0
    · rw [appended,if_pos (hnil.mpr h0),List.append_nil]
      rfl
    · -- the array is full: neither the line break nor the text has room
      have hfull : n.contentLen=8191 := by
        simp only [FS_FILE_MAX] at hsep
        omega
      have hlen' : (prefixOf n.content n.contentLen).length=8191 := by simp [prefixOf,hfull]
      rw [appended,List.append_assoc,List.take_left' hlen',List.take_left' (by rw [hlen,hfull])]
      rfl

theorem fsAppend_cases (h0 : 0∉name) (text : List UInt8) :
    (¬ CanOpen s name ∧ ∃ r, r ≠ .ok ∧ fsAppend s name text=(r,s)) ∨
    (CanOpen s name ∧ ∃ idx, fsFindChild s s.cwd name=some idx ∧ (s.nodes idx).type = .file ∧
      fsAppend s name text=(.ok,s.setNode idx (appendText (s.nodes idx) text))) ∨
    (CanOpen s name ∧ ∃ idx, Created s name idx (touched s name idx) ∧
      fsAppend s name text=(.ok,(s.setNode idx (touched s name idx)).setNode idx
        (appendText (touched s name idx) text))) := by
  cases hf : fsFindChild s s.cwd name with
  | some idx =>
    by_cases ht : (s.nodes idx).type = .file
    · refine .inr (.inl ⟨by simpa [CanOpen,hf] using ht,idx,rfl,ht,?_⟩)
      simp [fsAppend,findOrTouch,hf,ht]
    · refine .inl ⟨by simpa [CanOpen,hf] using ht,.isADirectory,by simp,?_⟩
      simp [fsAppend,findOrTouch,hf,ht]
  | none =>
    rcases hout : fsTouch s name with ⟨r,t⟩
    by_cases hr : r = .ok
    · subst hr
      obtain ⟨idx,hc,ht⟩ := fsTouch_ok hout
      have hfound := hc.found h0
      have htype : (touched s name idx).type = .file := rfl
      refine .inr (.inr ⟨by simp [CanOpen,hf,hc.valid,hc.slot],idx,hc,?_⟩)
      subst ht
      have hcwd : (s.setNode idx (touched s name idx)).cwd=s.cwd := rfl
      simp only [fsAppend,findOrTouch,hf,hout,hcwd,hfound,setNode_self,htype,ne_eq,not_true,if_false]
    · have hsame : t=s := by
        have hat := @fsTouch_atomic s name
        rw [hout] at hat
        exact hat hr
      refine .inl ⟨?_,r,hr,?_⟩
      · -- a name that can be opened is one `fs_touch` takes
        intro hopen
        simp only [CanOpen,hf] at hopen
        obtain ⟨idx,ha⟩ := Option.ne_none_iff_exists'.mp hopen.2
        simp only [fsTouch,hopen.1,hf,ha,Bool.not_true,Bool.false_eq_true,if_false,ne_eq,
          not_true,Prod.mk.injEq] at hout
        exact hr hout.1.symm
      · rw [fsAppend]
        simp only [findOrTouch,hf,hout,ne_eq,hr,not_false_eq_true,if_true,hsame]
        cases r with
        | ok => exact absurd rfl hr
        | _ => rfl

/-- The call fails and changes nothing, or the file then reads as the old content and all of the text. -/
def AppendKeepsAll (s : Fs) (name text : List UInt8) : Prop :=
  ((fsAppend s name text).1 = .ok → oldContent (fsAppend s name text).2 name=appended (oldContent s name) text ∧
    ∃ idx, fsRead (fsAppend s name text).2 name = .ok idx) ∧
  ((fsAppend s name text).1 ≠ .ok → (fsAppend s name text).2=s)

theorem oldContent_appendText (text : List UInt8) (hf : fsFindChild s s.cwd name=some idx)
    (ht : (s.nodes idx).type = .file) :
    fsRead (s.setNode idx (appendText (s.nodes idx) text)) name = .ok idx ∧
    oldContent (s.setNode idx (appendText (s.nodes idx) text)) name =
      contentOf (appendText (s.nodes idx) text) := by
  have hread : fsRead (s.setNode idx (appendText (s.nodes idx) text)) name = .ok idx := by
    apply fsRead_found
    · exact (findChild_setNode_same (n := appendText (s.nodes idx) text) rfl rfl rfl).trans hf
    · rw [setNode_self]
      exact ht
  exact ⟨hread,by rw [oldContent,hread]; simp only [setNode_self]⟩

theorem fsAppend_refused (text : List UInt8) (h0 : 0∉name) (hno : ¬ CanOpen s name) :
    ∃ r, r ≠ .ok ∧ fsAppend s name text=(r,s) := by
  rcases fsAppend_cases (s := s) h0 text with ⟨_,h⟩ | ⟨hopen,_⟩ | ⟨hopen,_⟩
  · exact h
  · exact absurd hopen hno
  · exact absurd hopen hno

/-- A call that gets as far as the file reports success and keeps what fits. -/
theorem fsAppend_opened (text : List UInt8) (hinv : FsInv s) (h0 : 0∉name) (hopen : CanOpen s name) :
    (fsAppend s name text).1 = .ok ∧ (∃ idx, fsRead (fsAppend s name text).2 name = .ok idx) ∧
      oldContent (fsAppend s name text).2 name=(appended (oldContent s name) text).take 8191 := by
  rcases fsAppend_cases (s := s) h0 text with ⟨hno,_⟩ | ⟨_,idx,hf,ht,he⟩ | ⟨_,idx,hc,he⟩
  · exact absurd hopen hno
  · have hlen : (s.nodes idx).contentLen≤8191 := (hinv.files idx (findChild_some hf).1 ht).1
    obtain ⟨hread,hnew⟩ := oldContent_appendText text hf ht
    have hold : oldContent s name=contentOf (s.nodes idx) := by rw [oldContent,fsRead_found hf ht]
    rw [he,hold,← contentOf_appendText hlen]
    exact ⟨rfl,⟨idx,hread⟩,hnew⟩
  · have hf : fsFindChild (s.setNode idx (touched s name idx)) (s.setNode idx (touched s name idx)).cwd name =
        some idx := hc.found h0
    have ht : ((s.setNode idx (touched s name idx)).nodes idx).type = .file := by
      rw [setNode_self]
      rfl
    obtain ⟨hread,hnew⟩ := oldContent_appendText text hf ht
    rw [setNode_self] at hread hnew
    have hold : oldContent s name=contentOf (touched s name idx) := by
      rw [oldContent,fsRead,hc.fresh]
      rfl
    have hlen : (touched s name idx).contentLen≤8191 := Nat.zero_le _
    rw [he,hold,← contentOf_appendText hlen]
    exact ⟨rfl,⟨idx,hread⟩,hnew⟩

theorem append_keeps_all_iff (hr : FsReachable s) (name text : CStr) :
    AppendKeepsAll s name.bytes text.bytes ↔
      (CanOpen s name.bytes → (appended (oldContent s name.bytes) text.bytes).length≤8191) := by
  by_cases hopen : CanOpen s name.bytes
  · obtain ⟨hok,hread,hnew⟩ := fsAppend_opened text.bytes (fsReachable_inv hr) name.nul_free hopen
    rw [AppendKeepsAll,hnew,List.take_eq_self_iff]
    simp [hok,hread,hopen]
  · obtain ⟨r,hne,he⟩ := fsAppend_refused text.bytes name.nul_free hopen
    rw [AppendKeepsAll,he]
    simp [hopen,hne]

theorem canOpen_a : CanOpen (fsInit blankFs) [0x61] ∧ oldContent (fsInit blankFs) [0x61]=[] := by
  have hf : fsFindChild (fsInit blankFs) (fsInit blankFs).cwd [0x61]=none := by decide +kernel
  constructor
  · rw [CanOpen,hf]
    decide +kernel
  · rw [oldContent,fsRead,hf]

theorem append_keeps_all_b : AppendKeepsAll (fsInit blankFs) [0x61] [0x62] := by
  refine (append_keeps_all_iff (.init ⟨blankFs,rfl⟩) ⟨[0x61],by decide⟩ ⟨[0x62],by decide⟩).mpr ?_
  intro _
  rw [canOpen_a.2]
  decide

/-- 8192 bytes appended to a new file: the last one is lost and the call reports success. -/
theorem append_loses_the_end :
    ¬ ∀ (s : Fs) (name text : CStr), FsReachable s → AppendKeepsAll s name.bytes text.bytes := by
  intro hall
  have hfree : (0 : UInt8)∉List.replicate 8192 0x62 := by
    intro h
    exact absurd (List.eq_of_mem_replicate h) (by decide)
  obtain ⟨text,hlen⟩ : ∃ text : CStr, text.bytes.length=8192 :=
    ⟨⟨List.replicate 8192 0x62,hfree⟩,by simp only [List.length_replicate]⟩
  obtain ⟨name,hname⟩ : ∃ name : CStr, name.bytes=[0x61] := ⟨⟨[0x61],by decide⟩,rfl⟩
  obtain ⟨s,hs,hopen,hold⟩ : ∃ s, FsReachable s ∧ CanOpen s [0x61] ∧ oldContent s [0x61]=[] :=
    ⟨fsInit blankFs,.init ⟨blankFs,rfl⟩,canOpen_a⟩
  rw [← hname] at hopen hold
  obtain ⟨hok,_,hnew⟩ := fsAppend_opened text.bytes (fsReachable_inv hs) name.nul_free hopen
  have hkept := ((hall s name text hs).1 hok).1
  rw [hnew,hold,List.take_eq_self_iff] at hkept
  simp [appended,hlen] at hkept

end MyKernel.RamFs
