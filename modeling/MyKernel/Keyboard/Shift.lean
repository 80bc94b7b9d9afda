import MyKernel.Keyboard.Model
import MyKernel.Lib.Traces

/-! The flag `shift_pressed` and the keys that are held. -/
namespace MyKernel.Keyboard
open Traces

/-- A key with its make code. The break code of 0x60 is the prefix byte 0xE0, so no key has this code. -/
structure Key where
  extended : Bool
  code : Fin 128
  code_ne : code.val≠0x60
deriving DecidableEq

def leftShift : Key := ⟨false,0x2A,by decide⟩
def rightShift : Key := ⟨false,0x36,by decide⟩

structure Code where
  key : Key
  release : Bool

def Code.lastByte (c : Code) : UInt8 :=
  if c.release then UInt8.ofNat c.key.code ||| SC_RELEASE_MASK else UInt8.ofNat c.key.code

def Code.bytes (c : Code) : List UInt8 := (if c.key.extended then [SC_EXTENDED] else [])++[c.lastByte]

/-- The driver and the keys that have been pressed and not yet released. -/
structure Typing where
  kbd : Driver
  held : Key → Bool

def Typing.start : Typing := ⟨.reset,fun _ => false⟩

/-- The bytes of a code reach the handler one by one. -/
def Typing.type (s : Typing) (c : Code) : Option Typing :=
  some { kbd := c.bytes.foldl keyboardIrqHandler s.kbd
         held := Function.update s.held c.key !c.release }

def Typing.Follows (s : Typing) : Prop :=
  s.kbd.shiftPressed=true ↔ s.held leftShift=true ∨ s.held rightShift=true

def Typing.Legal (s : Typing) (c : Code) : Prop := c.release=true → s.held c.key=true

/-- A shift key is released while the other one is not held. -/
def Typing.LastShift (s : Typing) (c : Code) : Prop :=
  c.release=true → (c.key=leftShift → s.held rightShift=false) ∧ (c.key=rightShift → s.held leftShift=false)

theorem make_byte : ∀ code : Fin 128, UInt8.ofNat code≠SC_EXTENDED ∧ UInt8.ofNat code &&& SC_RELEASE_MASK=0 ∧
    (UInt8.ofNat code=SC_LSHIFT ↔ code=0x2A) ∧
    (UInt8.ofNat code=SC_RSHIFT ↔ code=0x36) := by decide

theorem break_byte : ∀ code : Fin 128,
    ((UInt8.ofNat code ||| SC_RELEASE_MASK)=SC_EXTENDED ↔ code.val=0x60) ∧
    (UInt8.ofNat code ||| SC_RELEASE_MASK) &&& SC_RELEASE_MASK≠0 ∧
    (UInt8.ofNat code ||| SC_RELEASE_MASK) &&& ~~~SC_RELEASE_MASK=UInt8.ofNat code := by decide

@[simp] theorem arrowKey_extended (k : Driver) (b : UInt8) : (arrowKey k b).extended=k.extended := by
  unfold arrowKey
  repeat' split
  all_goals rfl

@[simp] theorem arrowKey_shiftPressed (k : Driver) (b : UInt8) : (arrowKey k b).shiftPressed=k.shiftPressed := by
  unfold arrowKey
  repeat' split
  all_goals rfl

def IsShift (b : UInt8) : Prop := b=SC_LSHIFT ∨ b=SC_RSHIFT

instance (b : UInt8) : Decidable (IsShift b) := inferInstanceAs (Decidable (_ ∨ _))

theorem handler_make (k : Driver) {b : UInt8} (hne : b≠SC_EXTENDED) (hmake : b &&& SC_RELEASE_MASK=0) :
    (keyboardIrqHandler k b).extended=false ∧
    (keyboardIrqHandler k b).shiftPressed =
      if k.extended=false ∧ IsShift b then true else k.shiftPressed := by
  rw [keyboardIrqHandler,if_neg hne,if_neg (not_ne_iff.mpr hmake)]
  split
  next hext => simp [hext]
  next hext =>
    split
    next hshift => simp [hext,IsShift,hshift]
    next hshift =>
      have hnot : ¬ (k.extended=false ∧ IsShift b) := fun h => hshift h.2
      rw [if_neg hnot]
      split
      next => exact ⟨rfl,rfl⟩
      next =>
        dsimp only
        split
        next => exact ⟨rfl,rfl⟩
        next => exact ⟨rfl,rfl⟩

theorem handler_break (k : Driver) {b : UInt8} (hne : b≠SC_EXTENDED) (hbreak : b &&& SC_RELEASE_MASK≠0) :
    (keyboardIrqHandler k b).extended=false ∧
    (keyboardIrqHandler k b).shiftPressed =
      if k.extended=false ∧ IsShift (b &&& ~~~SC_RELEASE_MASK) then false else k.shiftPressed := by
  rw [keyboardIrqHandler,if_neg hne,if_pos hbreak]
  by_cases hshift : k.extended=false ∧ IsShift (b &&& ~~~SC_RELEASE_MASK)
  · rw [if_pos ⟨by simp [hshift.1],hshift.2⟩,if_pos hshift]
    exact ⟨rfl,rfl⟩
  · rw [if_neg (fun h => hshift ⟨by simpa using h.1,h.2⟩),if_neg hshift]
    exact ⟨rfl,rfl⟩

theorem isShift_code {key : Key} : key.extended=false ∧ IsShift (UInt8.ofNat key.code) ↔
    key=leftShift ∨ key=rightShift := by
  obtain ⟨extended,code,hcode⟩ := key
  obtain ⟨_,_,hleft,hright⟩ := make_byte code
  simp only [IsShift,hleft,hright,leftShift,rightShift,Key.mk.injEq]
  exact and_or_left

theorem feed_code {k : Driver} (hk : k.extended=false) (c : Code) :
    (c.bytes.foldl keyboardIrqHandler k).extended=false ∧
    (c.bytes.foldl keyboardIrqHandler k).shiftPressed =
      if c.key=leftShift ∨ c.key=rightShift then !c.release else k.shiftPressed := by
  obtain ⟨hmake,hzero,_⟩ := make_byte c.key.code
  obtain ⟨hpre,hbreak,hreleased⟩ := break_byte c.key.code
  -- the driver when the last byte arrives
  obtain ⟨k',hbytes,hext,hsame⟩ : ∃ k', c.bytes.foldl keyboardIrqHandler k=keyboardIrqHandler k' c.lastByte ∧
      k'.extended=c.key.extended ∧ k'.shiftPressed=k.shiftPressed := by
    cases he : c.key.extended with
    | false => exact ⟨k,by simp [Code.bytes,he],hk,rfl⟩
    | true =>
      refine ⟨keyboardIrqHandler k SC_EXTENDED,by simp [Code.bytes,he],?_⟩
      rw [keyboardIrqHandler,if_pos rfl]
      exact ⟨rfl,rfl⟩
  rw [hbytes,← hsame]
  simp only [← isShift_code,← hext]
  cases hr : c.release with
  | true =>
    rw [Code.lastByte,hr,if_pos rfl]
    have h := handler_break k' (hpre.not.mpr c.key.code_ne) hbreak
    rw [hreleased] at h
    exact h
  | false =>
    rw [Code.lastByte,hr,if_neg Bool.false_ne_true]
    exact handler_make k' hmake hzero

variable {s : Typing} {c : Code}

theorem type_follows_iff (hk : s.kbd.extended=false) (h : s.Follows) :
    (∀ t, s.type c=some t → t.Follows) ↔ s.LastShift c := by
  have hflag := (feed_code hk c).2
  have hdiff : leftShift≠rightShift := by decide
  simp only [Typing.type,Option.some_inj,forall_eq',Typing.Follows,hflag,Typing.LastShift]
  by_cases hl : c.key=leftShift
  · rw [hl,Function.update_self,Function.update_of_ne hdiff.symm,if_pos (Or.inl rfl)]
    cases c.release with
    | true => simp [hdiff]
    | false => simp
  · by_cases hr : c.key=rightShift
    · rw [hr,Function.update_self,Function.update_of_ne hdiff,if_pos (Or.inr rfl)]
      cases c.release with
      | true => simp [hdiff.symm]
      | false => simp
    · have hnone : ¬ (c.key=leftShift ∨ c.key=rightShift) := not_or.mpr ⟨hl,hr⟩
      rw [Function.update_of_ne (Ne.symm hl),Function.update_of_ne (Ne.symm hr),if_neg hnone]
      unfold Typing.Follows at h
      simp [h,hl,hr]

/-- Over any series of codes the flag follows the two keys in every state, if and only if no shift key is released
while the other one is held. -/
theorem shift_follows_iff (codes : List Code) :
    Always Typing.type Typing.Follows codes .start ↔ EachStep Typing.type Typing.LastShift codes .start := by
  apply always_iff (I := fun s : Typing => s.kbd.extended=false)
  · intro s c hk hfollows
    exact type_follows_iff hk hfollows
  · intro s c t hk _ _ ht
    rw [Typing.type,Option.some_inj] at ht
    rw [← ht]
    exact (feed_code hk c).1
  · rfl
  · simp [Typing.Follows,Typing.start,Driver.reset]

/-- Both shift keys go down and the left one is released: the right one is held, and the flag is 0. -/
theorem shift_lost : EachStep Typing.type Typing.Legal
      [⟨leftShift,false⟩,⟨rightShift,false⟩,⟨leftShift,true⟩] .start ∧
    ¬ Always Typing.type Typing.Follows [⟨leftShift,false⟩,⟨rightShift,false⟩,⟨leftShift,true⟩] .start := by
  constructor
  · simp [eachStep_cons,eachStep_nil,Typing.type,Typing.Legal,leftShift,rightShift,Typing.start]
  · intro h
    have hend := h _ [] _ (List.append_nil _).symm rfl
    revert hend
    unfold Typing.Follows
    decide

end MyKernel.Keyboard
