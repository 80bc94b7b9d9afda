import MyKernel.Lib.Traces
import MyKernel.Mouse.Model

/-! The pointer over sequences of packets. -/
namespace MyKernel.Mouse
open Cyclic Signed Traces

structure Packet where
  flags : UInt8
  x : UInt8
  y : UInt8
  sync : flags &&& 0x08≠0
  no_overflow : flags &&& 0xC0=0

/-- A delta of 9 bits: its low byte, and its sign among the flags. -/
def delta (flags sign b : UInt8) : Int := b.toNat-if flags &&& sign≠0 then 256 else 0

def Packet.dx (p : Packet) : Int := delta p.flags 0x10 p.x
def Packet.dy (p : Packet) : Int := delta p.flags 0x20 p.y

def deliver (m : Driver) (p : Packet) : Option Driver := some ([p.flags,p.x,p.y].foldl mouseIrqHandler m)

def clamp (bound x : Int) : Int := max 0 (min x (bound-1))

structure Driver.Ready (m : Driver) : Prop where
  cycle : m.cycle=0
  mx_nonneg : 0 ≤ m.mx
  mx_lt : m.mx < m.boundW
  my_nonneg : 0 ≤ m.my
  my_lt : m.my < m.boundH
  boundW_le : m.boundW≤2147483647
  boundH_le : m.boundH≤2147483647

/-- The packet moves the pointer by its deltas, and its buttons are reported. -/
def Exact (m : Driver) (p : Packet) : Prop :=
  ∀ m', deliver m p=some m' →
    (mouseGet m').1.x=clamp m.boundW (m.mx+p.dx) ∧ (mouseGet m').1.y=clamp m.boundH (m.my-p.dy) ∧
    (mouseGet m').1.buttons=p.flags &&& 0x07

/-- The delta fits a signed byte and the sum a signed word; or there is one place only; or the delta is -256 and the
pointer at the border already. -/
def Followed (m : Driver) (p : Packet) : Prop :=
  (-128≤p.dx ∧ p.dx≤127 ∧ m.mx+p.dx≤2147483647 ∨ m.boundW=1 ∨ p.dx = -256 ∧ m.mx=0) ∧
  (-128≤p.dy ∧ p.dy≤127 ∧ m.my-p.dy≤2147483647 ∨ m.boundH=1 ∨ p.dy = -256 ∧ m.my=m.boundH-1)

instance (m : Driver) (p : Packet) : Decidable (Followed m p) := inferInstanceAs (Decidable (_ ∧ _))

theorem bmod_delta {d : Int} (h : -256≤d) (h' : d≤255) :
    d.bmod 256=if d < -128 then d+256 else if 127<d then d-256 else d := by
  rw [Int.bmod_def]
  repeat' split
  all_goals omega

theorem confine_wrap32 {bound x : Int} (hbound : 0<bound) (h : bound≤2147483647) (hx : -2147483648≤x)
    (hx' : x≤2147483647+2147483648) : confine bound (wrap32 x)=if x≤2147483647 then clamp bound x else 0 := by
  split
  next hle =>
    rw [wrap32_of_range hx hle]
    unfold confine clamp
    dsimp only
    repeat' split
    all_goals omega
  next hgt =>
    have hneg : wrap32 x<0 := by
      rw [wrap32,Int.bmod_def]
      split
      · omega
      · omega
    unfold confine
    rw [if_pos hneg,if_neg (by omega)]

theorem add_iff {bound x d : Int} (hx : 0≤x) (hlt : x<bound) (hbound : bound≤2147483647) (hd : -256≤d)
    (hd' : d≤255) : confine bound (wrap32 (x+d.bmod 256))=clamp bound (x+d) ↔
      -128≤d ∧ d≤127 ∧ x+d≤2147483647 ∨ bound=1 ∨ d = -256 ∧ x=0 := by
  rw [bmod_delta hd hd']
  rw [confine_wrap32 (by omega) hbound (by omega) (by omega)]
  unfold clamp
  repeat' split
  all_goals omega

theorem sub_iff {bound y d : Int} (hy : 0≤y) (hlt : y<bound) (hbound : bound≤2147483647) (hd : -256≤d)
    (hd' : d≤255) : confine bound (wrap32 (y+-d.bmod 256))=clamp bound (y-d) ↔
      -128≤d ∧ d≤127 ∧ y-d≤2147483647 ∨ bound=1 ∨ d = -256 ∧ y=bound-1 := by
  rw [bmod_delta hd hd']
  rw [confine_wrap32 (by omega) hbound (by omega) (by omega)]
  unfold clamp
  repeat' split
  all_goals omega

theorem confine_range {bound : Int} (x : Int) (h : 0<bound) : 0≤confine bound x ∧ confine bound x<bound := by
  unfold confine
  dsimp only
  repeat' split
  all_goals omega

variable {m : Driver} (p : Packet)

theorem delta_range (flags sign b : UInt8) : -256≤delta flags sign b ∧ delta flags sign b≤255 := by
  have hlt := b.toNat_lt
  unfold delta
  split
  · omega
  · omega

theorem int8_eq (flags sign b : UInt8) : int8 b=(delta flags sign b).bmod 256 := by
  unfold int8 delta
  split
  · rw [Int.bmod_def,Int.bmod_def]
    omega
  · rw [Int.sub_zero]

theorem buttonEvent_frame (changed buttons : UInt8) (bs : List Nat) (m : Driver) :
    ∃ evq, bs.foldl (buttonEvent changed buttons) m={ m with evq := evq } := by
  induction bs generalizing m with
  | nil => exact ⟨m.evq,rfl⟩
  | cons b bs ih =>
    obtain ⟨evq,hevq⟩ := ih (buttonEvent changed buttons m b)
    refine ⟨evq,hevq.trans ?_⟩
    unfold buttonEvent
    split
    next => rfl
    next => rfl

theorem events_frame (m : Driver) :
    ∃ evq prev, buttonEvents (motionEvent m)={ m with evq := evq, prevButtons := prev } := by
  obtain ⟨evq,hevq⟩ : ∃ evq, motionEvent m={ m with evq := evq } := by
    unfold motionEvent
    split
    next => exact ⟨_,rfl⟩
    next => exact ⟨m.evq,rfl⟩
  rw [hevq]
  unfold buttonEvents
  dsimp only
  split
  next =>
    obtain ⟨evq',hevq'⟩ := buttonEvent_frame (m.packet 0 &&& 0x07 ^^^ m.prevButtons) (m.packet 0 &&& 0x07)
      (List.range 3) { m with evq := evq }
    rw [hevq']
    exact ⟨evq',_,rfl⟩
  next => exact ⟨evq,m.prevButtons,rfl⟩

def Packet.byte (p : Packet) (i : Fin 3) : UInt8 := if i.val=0 then p.flags else if i.val=1 then p.x else p.y

theorem deliver_eq (hm : m.cycle=0) :
    deliver m p=some (buttonEvents (motionEvent (movePointer { m with packet := p.byte, cycle := 0 }))) := by
  have hpacket : Function.update (Function.update (Function.update m.packet 0 p.flags) 1 p.x) 2 p.y=p.byte := by
    funext i
    match i with
    | 0 => rfl
    | 1 => rfl
    | 2 => rfl
  simp [deliver,mouseIrqHandler,hm,p.sync,hpacket]

theorem deliver_frame (hm : m.cycle=0) : ∃ m', deliver m p=some m' ∧ m'.cycle=0 ∧
    m'.boundW=m.boundW ∧ m'.boundH=m.boundH ∧
    m'.mx=confine m.boundW (wrap32 (m.mx+p.dx.bmod 256)) ∧
    m'.my=confine m.boundH (wrap32 (m.my+-p.dy.bmod 256)) ∧ m'.mbuttons=p.flags &&& 0x07 := by
  obtain ⟨evq,prev,hframe⟩ := events_frame (movePointer { m with packet := p.byte, cycle := 0 })
  refine ⟨_,deliver_eq p hm,?_⟩
  rw [hframe,Packet.dx,Packet.dy,← int8_eq,← int8_eq]
  exact ⟨rfl,rfl,rfl,rfl,rfl,rfl⟩

theorem exact_iff (h : m.Ready) : Exact m p ↔ Followed m p := by
  obtain ⟨m',hdeliver,-,-,-,hx,hy,hbuttons⟩ := deliver_frame p h.cycle
  have hdx : -256≤p.dx ∧ p.dx≤255 := delta_range _ _ _
  have hdy : -256≤p.dy ∧ p.dy≤255 := delta_range _ _ _
  unfold Exact Followed
  rw [hdeliver,← add_iff h.mx_nonneg h.mx_lt h.boundW_le hdx.1 hdx.2,
    ← sub_iff h.my_nonneg h.my_lt h.boundH_le hdy.1 hdy.2,← hx,← hy]
  simp only [Option.some_inj,forall_eq',mouseGet,hbuttons,and_true]

theorem Driver.Ready.deliver {m' : Driver} (h : m.Ready) (hdeliver : deliver m p=some m') : m'.Ready := by
  obtain ⟨m₁,hdeliver₁,hcycle,hw,hh,hx,hy,-⟩ := deliver_frame p h.cycle
  rw [hdeliver₁,Option.some_inj] at hdeliver
  subst hdeliver
  have hxr := confine_range (wrap32 (m.mx+p.dx.bmod 256)) (Int.lt_of_le_of_lt h.mx_nonneg h.mx_lt)
  have hyr := confine_range (wrap32 (m.my+-p.dy.bmod 256)) (Int.lt_of_le_of_lt h.my_nonneg h.my_lt)
  rw [← hx] at hxr
  rw [← hy] at hyr
  exact ⟨hcycle,hxr.1,hw ▸ hxr.2,hyr.1,hh ▸ hyr.2,hw ▸ h.boundW_le,hh ▸ h.boundH_le⟩

theorem Driver.Ready.setBounds {w h : Int} (hm : m.Ready) (hw : 1≤w) (hw' : w≤2147483647) (hh : 1≤h)
    (hh' : h≤2147483647) : (mouseSetBounds w h m).Ready := by
  have hx := hm.mx_nonneg
  have hy := hm.my_nonneg
  have hcell : ∀ {bound x : Int}, 1≤bound → 0≤x →
      0≤(if bound≤x then bound-1 else x) ∧ (if bound≤x then bound-1 else x)<bound := by
    intro bound x hb hx
    split
    · omega
    · omega
  exact ⟨hm.cycle,(hcell hw hx).1,(hcell hw hx).2,(hcell hh hy).1,(hcell hh hy).2,hw',hh'⟩

theorem init_ready : Driver.init.Ready := by
  constructor
  all_goals decide

/-- Over any sequence of packets the pointer moves by the deltas, if and only if every packet is one that the handler
follows. -/
theorem mouse_motion_iff (m : Driver) (h : m.Ready) (packets : List Packet) :
    EachStep deliver Exact packets m ↔ EachStep deliver Followed packets m := by
  apply eachStep_congr (I := Driver.Ready)
  · intro m p hm
    exact exact_iff p hm
  · intro m p m' hm hdeliver
    exact hm.deliver p hdeliver
  · exact h

/-- On a screen of 640 by 480 places. -/
theorem mouse_motion_screen : EachStep deliver Exact [⟨0x18,0xF6,0x05,by decide,by decide⟩]
      (mouseSetBounds 640 480 .init) := by
  apply (mouse_motion_iff _ (init_ready.setBounds (by decide) (by decide) (by decide) (by decide)) _).mpr
  simp only [eachStep_cons,eachStep_nil,implies_true,and_true]
  decide

/-- A move by 200 to the right goes 56 to the left. -/
theorem fast_move_reversed :
    (deliver (mouseSetBounds 640 480 .init) ⟨0x08,200,0,by decide,by decide⟩).map Driver.mx=some (160-56) ∧
    ¬ EachStep deliver Exact [⟨0x08,200,0,by decide,by decide⟩] (mouseSetBounds 640 480 .init) := by
  constructor
  · decide
  · rw [eachStep_cons,exact_iff _ (init_ready.setBounds (by decide) (by decide) (by decide) (by decide))]
    intro h
    exact absurd h.1 (by decide)

end MyKernel.Mouse
