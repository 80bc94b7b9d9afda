import MyKernel.Keyboard.Model

/-! The queue of the keyboard over any interleaving of interrupts and calls, without serial input. -/
namespace MyKernel.Keyboard
open Cyclic

/-- A push outside a call, or a call with the characters that are pushed during it. -/
inductive Event where
  | push (c : UInt8)
  | call (tested fetched : List UInt8)

/-- The driver, the characters of the pushes that found room, and the characters returned. -/
structure Session where
  kbd : Driver
  accepted : List UInt8
  returned : List UInt8

namespace Session

def start : Session := ⟨.reset,[],[]⟩

def push (s : Session) (c : UInt8) : Session :=
  { s with
    kbd := kbdBufferPush s.kbd c
    accepted := if s.accepted.length-s.returned.length<255 then s.accepted++[c] else s.accepted }

def call (s : Session) (tested fetched : List UInt8) : Session :=
  let answer := keyboardTrygetchar [] tested fetched s.kbd
  { kbd := answer.2.2
    accepted := ((tested++fetched).foldl push s).accepted
    returned := s.returned++answer.1.toList }

def step (s : Session) : Event → Session
  | .push c => s.push c
  | .call tested fetched => s.call tested fetched

def run (events : List Event) : Session := events.foldl step start

/-- What has been accepted has been returned or is queued, in this order. -/
def Holds (s : Session) : Prop := s.returned++s.kbd.buffer.contents=s.accepted

variable {s : Session} (c : UInt8) (l tested fetched : List UInt8)

theorem Holds.queued (h : s.Holds) : s.accepted.length-s.returned.length=s.kbd.buffer.used := by
  rw [← h,List.length_append,Nat.add_sub_cancel_left,Ring.length_contents]

theorem Holds.push (h : s.Holds) : (s.push c).Holds := by
  have hlt := s.kbd.buffer.used_lt
  unfold Holds Session.push kbdBufferPush
  rw [h.queued]
  split
  next hroom =>
    have hnot : s.kbd.buffer.used≠KBD_BUFFER_SIZE-1 := Nat.ne_of_lt hroom
    rw [Ring.contents_push _ _ hnot,← List.append_assoc,h]
  next hfull =>
    have hfull : s.kbd.buffer.used=KBD_BUFFER_SIZE-1 :=
      Nat.le_antisymm (Nat.le_pred_of_lt hlt) (Nat.le_of_not_lt hfull)
    rw [Ring.push_full _ _ hfull,h]

theorem foldl_push_returned : (l.foldl Session.push s).returned=s.returned := by
  induction l generalizing s with
  | nil => rfl
  | cons c l ih => rw [List.foldl_cons,ih,Session.push]

theorem foldl_push_kbd : (l.foldl Session.push s).kbd=l.foldl kbdBufferPush s.kbd := by
  induction l generalizing s with
  | nil => rfl
  | cons c l ih => rw [List.foldl_cons,List.foldl_cons,ih,Session.push]

theorem Holds.foldl_push (h : s.Holds) : (l.foldl Session.push s).Holds := by
  induction l generalizing s with
  | nil => exact h
  | cons c l ih => exact ih (h.push c)

theorem accepted_grows : s.accepted <+: (l.foldl Session.push s).accepted := by
  induction l generalizing s with
  | nil => exact List.prefix_rfl
  | cons c l ih =>
    apply List.IsPrefix.trans _ ih
    unfold Session.push
    split
    next => exact List.prefix_append _ _
    next => exact List.prefix_rfl

theorem Holds.contents_grow (h : s.Holds) :
    s.kbd.buffer.contents <+: (l.foldl kbdBufferPush s.kbd).buffer.contents := by
  have hgrow := accepted_grows (s := s) l
  have hlater := h.foldl_push l
  unfold Holds at hlater
  rw [← h,← hlater,foldl_push_returned,List.prefix_append_right_inj,foldl_push_kbd] at hgrow
  exact hgrow

theorem Holds.front (h : s.Holds) (hne : s.kbd.buffer.head≠s.kbd.buffer.tail) :
    (l.foldl kbdBufferPush s.kbd).buffer.contents =
      s.kbd.buffer.slots s.kbd.buffer.tail::(l.foldl kbdBufferPush s.kbd).buffer.advance.contents ∧
    (l.foldl kbdBufferPush s.kbd).buffer.slots (l.foldl kbdBufferPush s.kbd).buffer.tail =
      s.kbd.buffer.slots s.kbd.buffer.tail := by
  obtain ⟨more,hmore⟩ := h.contents_grow l
  have hfront := (l.foldl kbdBufferPush s.kbd).buffer.head_contents
  rw [← hmore,Ring.contents_advance _ hne,List.cons_append,List.head?_cons] at hfront
  split at hfront
  next => cases hfront
  next hne' =>
    rw [Ring.contents_advance _ hne',← Option.some_inj.mp hfront]
    exact ⟨rfl,rfl⟩

theorem Holds.answer_eq (h : s.Holds) :
    (keyboardTrygetchar [] tested fetched s.kbd).1=s.kbd.buffer.contents.head? := by
  unfold keyboardTrygetchar
  split
  next hne =>
    rw [Ring.contents_advance _ hne,List.head?_cons]
    exact congrArg some (h.front tested hne).2
  next heq => rw [Ring.head_contents,if_pos (not_ne_iff.mp heq),serialKey]

theorem Holds.call_contents (h : s.Holds) :
    (keyboardTrygetchar [] tested fetched s.kbd).1.toList++
        (keyboardTrygetchar [] tested fetched s.kbd).2.2.buffer.contents =
      ((tested++fetched).foldl kbdBufferPush s.kbd).buffer.contents := by
  rw [h.answer_eq]
  unfold keyboardTrygetchar
  split
  next hne =>
    rw [(h.front (tested++fetched) hne).1,Ring.contents_advance _ hne,List.head?_cons,Option.toList_some,
      List.singleton_append,List.foldl_append]
  next heq => rw [Ring.head_contents,if_pos (not_ne_iff.mp heq),Option.toList_none,List.nil_append,List.foldl_append]

theorem Holds.call (h : s.Holds) : (s.call tested fetched).Holds := by
  have hlater := h.foldl_push (tested++fetched)
  unfold Holds at hlater
  unfold Holds Session.call
  rw [List.append_assoc,h.call_contents,← hlater,foldl_push_returned,foldl_push_kbd]

theorem Holds.step (h : s.Holds) (e : Event) : (s.step e).Holds := by
  cases e with
  | push c => exact h.push c
  | call tested fetched => exact h.call tested fetched

theorem start_holds : start.Holds := by
  have hempty : start.kbd.buffer.used=0 := start.kbd.buffer.used_eq_zero.mpr rfl
  unfold Holds
  rw [← Ring.length_contents,List.length_eq_zero_iff] at hempty
  rw [hempty]
  rfl

theorem run_holds (events : List Event) : (run events).Holds := by
  have hrun : ∀ (es : List Event) (s : Session), s.Holds → (es.foldl step s).Holds := by
    intro es
    induction es with
    | nil => exact fun _ h => h
    | cons e es ih => exact fun s h => ih _ (h.step e)
  exact hrun events start start_holds

end Session
open Session

/-- After any interleaving the characters returned are the first of those accepted and the queue holds the others in
order; a push on a full queue changes nothing; a call returns the next character, or 0 if there is none. -/
theorem keyboard_queue_fifo (events : List Event) :
    (run events).returned++(run events).kbd.buffer.contents=(run events).accepted ∧
    (∀ c, ¬ (run events).accepted.length-(run events).returned.length<255 →
      kbdBufferPush (run events).kbd c=(run events).kbd) ∧
    ∀ tested fetched,
      ((keyboardTrygetchar [] tested fetched (run events).kbd).1=none ↔
        (run events).returned=(run events).accepted) ∧
      ∀ c, (keyboardTrygetchar [] tested fetched (run events).kbd).1=some c →
        (run events).returned++[c] <+: (run events).accepted := by
  have h := run_holds events
  refine ⟨h,?_,?_⟩
  · intro c hfull
    rw [h.queued] at hfull
    have hused : (run events).kbd.buffer.used=KBD_BUFFER_SIZE-1 :=
      Nat.le_antisymm (Nat.le_pred_of_lt (run events).kbd.buffer.used_lt) (Nat.le_of_not_lt hfull)
    rw [kbdBufferPush,Ring.push_full _ _ hused]
  · intro tested fetched
    rw [h.answer_eq]
    constructor
    · rw [List.head?_eq_none_iff,← h,List.self_eq_append_right]
    · intro c hc
      obtain ⟨rest,hrest⟩ := List.head?_eq_some_iff.mp hc
      rw [← h,hrest,List.prefix_append_right_inj]
      exact List.prefix_append [c] rest

end MyKernel.Keyboard
