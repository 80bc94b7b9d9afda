import MyKernel.Lib.Parts
import MyKernel.Lib.Signed

/-! The text of `SETTINGS.CFG`. `apply_cfg_text` copies it through a buffer of 64 bytes. -/
namespace MyKernel.Settings
open Parts Signed

structure SystemSettings where
  soundEnabled : Int
  gfxMode : Int
  gfxUseVbe : Int

@[ext] structure Change where
  soundEnabled : Option Int
  gfxMode : Option Int
  gfxUseVbe : Option Int

def noChange : Change := ⟨none,none,none⟩

def SystemSettings.change (cfg : SystemSettings) (c : Change) : SystemSettings :=
  ⟨c.soundEnabled.getD cfg.soundEnabled,c.gfxMode.getD cfg.gfxMode,c.gfxUseVbe.getD cfg.gfxUseVbe⟩

def Change.andThen (c d : Change) : Change :=
  ⟨d.soundEnabled.or c.soundEnabled,d.gfxMode.or c.gfxMode,d.gfxUseVbe.or c.gfxUseVbe⟩

def afterKey : List UInt8 → List UInt8 → Option (List UInt8)
  | [], 61::s => some s
  | k::key, c::line => if c=k then afterKey key line else none
  | _, _ => none

def isDigit (c : UInt8) : Bool := 48≤c ∧ c≤57

def digitLoop (v : Int) (any : Bool) : List UInt8 → Option Int
  | [] => if any then some v else none
  | c::s =>
    if isDigit c then digitLoop (wrap32 (wrap32 (v*10)+(c.toNat-48))) true s else if any then some v else none

def signed (number : List UInt8 → Option Int) (minus : Int → Int) : List UInt8 → Option Int
  | 45::s => (number s).map minus
  | s => number s

def parseIntAfter (line key : List UInt8) : Option Int :=
  (afterKey key line).bind (signed (digitLoop 0 false) fun v => wrap32 (-v))

def soundKey : List UInt8 := [115,111,117,110,100]
def gfxModeKey : List UInt8 := [103,102,120,95,109,111,100,101]
def useVbeKey : List UInt8 := [117,115,101,95,118,98,101]

def lineChange (number : List UInt8 → Option Int) : Change :=
  match number soundKey with
  | some v => { noChange with soundEnabled := some (if v≠0 then 1 else 0) }
  | none =>
    match number gfxModeKey with
    | some v => if v≥0 ∧ v≤2 then { noChange with gfxMode := some v } else noChange
    | none =>
      match number useVbeKey with
      | some v => { noChange with gfxUseVbe := some (if v≠0 then 1 else 0) }
      | none => noChange

def skipNewline : List UInt8 → List UInt8
  | [] => []
  | c::p => if c=10 then p else c::p

def decimal (s : List UInt8) : Option Int :=
  if s.takeWhile isDigit=[] then none else some ((s.takeWhile isDigit).foldl (fun v c => v*10+(c.toNat-48)) 0)

def numberAfter (line key : List UInt8) : Option Int := (afterKey key line).bind (signed decimal fun n => -n)

/-- What a line sets when it is taken in pieces of 63 bytes, each with its number in a word. -/
def piecesChange : List UInt8 → Change
  | [] => noChange
  | c::line => (lineChange (parseIntAfter ((c::line).take 63))).andThen (piecesChange ((c::line).drop 63))
termination_by line => line.length
decreasing_by simp only [List.length_drop,List.length_cons]; omega

/-- The pieces of a line set what the line does. -/
def Honoured (line : List UInt8) : Prop := piecesChange line=lineChange (numberAfter line)

variable {cfg : SystemSettings} {line tail text : List UInt8}

@[simp] theorem change_noChange : cfg.change noChange=cfg := rfl

@[simp] theorem change_andThen (c d : Change) : cfg.change (c.andThen d)=(cfg.change c).change d := by
  simp only [SystemSettings.change,Change.andThen,Option.getD_or]

theorem change_inj {c d : Change} (h : ∀ cfg : SystemSettings, cfg.change c=cfg.change d) : c=d := by
  have hone : ∀ a b : Option Int, (∀ x, a.getD x=b.getD x) → a=b := by
    intro a b hab
    cases a with
    | none =>
      cases b with
      | none => rfl
      | some y =>
        have hy := hab (y+1)
        simp at hy
    | some x =>
      cases b with
      | none =>
        have hx := hab (x+1)
        simp at hx
      | some y => exact congrArg some (hab 0)
  have hfield := fun x => SystemSettings.mk.inj (h ⟨x,x,x⟩)
  exact Change.ext (hone _ _ fun x => (hfield x).1) (hone _ _ fun x => (hfield x).2.1) (hone _ _ fun x => (hfield x).2.2)

theorem change_piecesChange (cfg : SystemSettings) (line : List UInt8) : cfg.change (piecesChange line)=
    (cfg.change (lineChange (parseIntAfter (line.take 63)))).change (piecesChange (line.drop 63)) := by
  cases line with
  | nil =>
    rw [List.drop_nil,piecesChange]
    rfl
  | cons c line => rw [piecesChange,change_andThen]

theorem digitLoop_eq (v : Int) (any : Bool) (s : List UInt8) : digitLoop (wrap32 v) any s=
    if any=true ∨ s.takeWhile isDigit≠[] then
      some (wrap32 ((s.takeWhile isDigit).foldl (fun v c => v*10+(c.toNat-48)) v)) else none := by
  induction s generalizing v any with
  | nil => cases any <;> rfl
  | cons c s ih =>
    rw [digitLoop,List.takeWhile_cons]
    by_cases hc : isDigit c=true
    · rw [if_pos hc,if_pos hc,wrap32_wrap32_mul,wrap32_wrap32_add,ih,if_pos (.inl rfl),if_pos (.inr (List.cons_ne_nil _ _)),
        List.foldl_cons]
    · rw [if_neg hc,if_neg hc]
      cases any <;> rfl

theorem parseIntAfter_eq (line key : List UInt8) : parseIntAfter line key=(numberAfter line key).map wrap32 := by
  have hnum : ∀ s, digitLoop 0 false s=(decimal s).map wrap32 := by
    intro s
    have hloop := digitLoop_eq 0 false s
    rw [wrap32_of_range (by decide) (by decide)] at hloop
    rw [hloop,decimal]
    by_cases hs : s.takeWhile isDigit=[]
    · simp [hs]
    · simp [hs]
  have hneg : ∀ n : Int, wrap32 (-wrap32 n)=wrap32 (-n) := by
    intro n
    rw [← Int.mul_neg_one,wrap32_wrap32_mul,Int.mul_neg_one]
  unfold parseIntAfter numberAfter
  cases afterKey key line with
  | none => rfl
  | some s =>
    rw [Option.bind_some,Option.bind_some]
    unfold signed
    split
    · rw [hnum,Option.map_map,Option.map_map]
      congr 1
      funext n
      exact hneg n
    · exact hnum s

theorem honoured_of_short (hlen : line.length≤63) (hfit : ∀ key n, numberAfter line key=some n → wrap32 n=n) :
    Honoured line := by
  have hnumbers : parseIntAfter line=numberAfter line := by
    funext key
    rw [parseIntAfter_eq]
    cases hn : numberAfter line key with
    | none => rfl
    | some n => exact congrArg some (hfit key n hn)
  refine change_inj fun cfg => ?_
  rw [change_piecesChange,List.take_of_length_le hlen,List.drop_eq_nil_of_le hlen,piecesChange,hnumbers]
  rfl

end MyKernel.Settings
