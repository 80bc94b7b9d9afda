import MyKernel.Display.Surfaces

/-! The click dispatch of `desktop_run`, which asks `icon_at` first. -/
namespace MyKernel.Desktop
open Signed Display

inductive App where
  | clock | sysinfo | calc | about | tasks | notes | help | welcome | demo | trash

def ICON_W : Int := 60
def ICON_H : Int := 70
def PANEL_H : Int := 28

structure Icon where
  x : Int
  y : Int
  anchor : Bool
  app : App

def icons : List Icon :=
  [⟨20,48,false,.clock⟩,⟨20,118,false,.sysinfo⟩,⟨20,188,false,.calc⟩,⟨20,258,false,.about⟩,
    ⟨100,48,false,.tasks⟩,⟨100,118,false,.notes⟩,⟨100,188,false,.help⟩,⟨100,258,false,.welcome⟩,
    ⟨180,48,false,.demo⟩,⟨-1,-1,true,.trash⟩]

def iconPos (screen : Screen) (ic : Icon) : Int × Int :=
  if ic.anchor then
    (wrap32 (wrap32 (screen.w-ICON_W)-16),wrap32 (wrap32 (wrap32 (screen.h-PANEL_H)-ICON_H)-12))
  else (ic.x,ic.y)

/-- `mx >= x && mx < x + w && my >= y && my < y + h`. -/
def inBox (mx my x y w h : Int) : Bool := mx≥x ∧ mx<wrap32 (x+w) ∧ my≥y ∧ my<wrap32 (y+h)

def iconAt (screen : Screen) (mx my : Int) : Option Icon :=
  icons.find? fun ic => inBox mx my (iconPos screen ic).1 (iconPos screen ic).2 ICON_W ICON_H

inductive MenuItem where
  | app (a : App)
  | reboot
  | shutdown
  | outside
  | nothing

def SM_ITEM_H : Int := 22

def startMenuH : Int := 28+8*SM_ITEM_H+8+3*SM_ITEM_H+8

def menuItemAt (my : Int) : List (MenuItem × Int) → Int → MenuItem
  | [], _ => .nothing
  | (item,gap)::items, iy =>
    let iy := wrap32 (iy+gap)
    if my≥iy ∧ my<wrap32 (iy+SM_ITEM_H) then item else menuItemAt my items (wrap32 (iy+SM_ITEM_H))

def menuItems : List (MenuItem × Int) :=
  [(.app .clock,0),(.app .sysinfo,0),(.app .calc,0),(.app .about,0),(.app .tasks,0),(.app .notes,0),
    (.app .help,0),(.app .welcome,0),(.app .trash,6),(.reboot,0),(.shutdown,0)]

def startMenuClick (screen : Screen) (mx my : Int) : MenuItem :=
  let y := wrap32 (wrap32 (screen.h-28)-startMenuH)
  if inBox mx my 4 y 200 startMenuH then menuItemAt my menuItems (wrap32 (y+28)) else .outside

/-- `ids` are `id_clock` and the others; `opened` records the icons that were opened. -/
structure Session where
  scene : Scene
  ids : App → Int
  startOpen : Bool
  dragging : Bool
  dragId : Int
  dragOffX : Int
  dragOffY : Int
  needRedraw : Bool
  opened : List Icon

def onCloseId (g : Session) (id : Int) : Session :=
  { g with ids := fun a => if id=g.ids a then -1 else g.ids a }

/-- `openApp` stands for `open_clock` and the others. The result is `none` when the machine goes down. -/
def menuClick (openApp : App → Session → Session) (g : Session) : MenuItem → Option Session
  | .app a => some { openApp a g with startOpen := false, needRedraw := true }
  | .reboot | .shutdown => none
  | .outside => some { g with startOpen := false, needRedraw := true }
  | .nothing => some g

def windowClick (g : Session) (mx my : Int) : Session :=
  match mkHitTest g.scene mx my with
  | none => g
  | some hit =>
    if hit.onClose then
      { onCloseId g hit.id with scene := mkSurfaceDestroy g.scene hit.id, needRedraw := true, dragging := false }
    else if hit.onTitle then
      { g with
        dragging := true
        dragId := hit.id
        dragOffX := wrap32 (mx-(g.scene.surf hit.id).x)
        dragOffY := wrap32 (my-(g.scene.surf hit.id).y) }
    else g

def desktopClick (openApp : App → Session → Session) (g : Session) (mx my : Int) : Session :=
  match iconAt g.scene.screen mx my with
  | some ic => { openApp ic.app g with needRedraw := true, opened := ic::g.opened }
  | none => windowClick g mx my

def leftDown (openApp : App → Session → Session) (g : Session) (mx my : Int) : Option Session :=
  let screen := g.scene.screen
  let panel := wrap32 (screen.h-MK_PANEL_H)
  if inBox mx my (wrap32 (screen.w-176)) (wrap32 (panel+4)) 80 20 then none
  else if inBox mx my (wrap32 (screen.w-88)) (wrap32 (panel+4)) 80 20 then none
  else if inBox mx my 4 (wrap32 (panel+3)) 88 22 then some { g with startOpen := !g.startOpen, needRedraw := true }
  else if g.startOpen then menuClick openApp g (startMenuClick screen mx my)
  else some (desktopClick openApp g mx my)

/-- The click has gone to the window that was hit, and to no icon. -/
structure Dispatched (g g' : Session) (mx my : Int) (hit : Hit) : Prop where
  opened : g'.opened=g.opened
  /-- The close button: this window goes, and the others stay. -/
  close : hit.onClose=true → (g'.scene.surf hit.id).used=false ∧ g'.dragging=false ∧ (∀ a, g'.ids a≠hit.id) ∧
    ∀ i, i≠hit.id → g'.scene.surf i=g.scene.surf i
  /-- The title bar: the window is held at the point of the click. -/
  title : hit.onClose=false → hit.onTitle=true → g'.scene=g.scene ∧ g'.dragging=true ∧ g'.dragId=hit.id ∧
    wrap32 ((g.scene.surf hit.id).x+g'.dragOffX)=wrap32 mx ∧ wrap32 ((g.scene.surf hit.id).y+g'.dragOffY)=wrap32 my
  /-- The client area takes the click and does nothing. -/
  client : hit.onTitle=false → g'=g

variable {g : Session} {mx my : Int} {hit : Hit}

theorem not_inBox {x y w h : Int} (hy : my<y) : inBox mx my x y w h=false := by
  unfold inBox
  rw [decide_eq_false_iff_not]
  omega

theorem onTitle_of_onClose {i : Nat} {s : Surface} (h : (surfaceHit i s mx my).onClose=true) :
    (surfaceHit i s mx my).onTitle=true := by
  unfold surfaceHit at h ⊢
  split at h
  next htitle => rw [if_pos htitle]
  · cases h

theorem windowClick_dispatched (hhit : mkHitTest g.scene mx my=some hit) :
    Dispatched g (windowClick g mx my) mx my hit := by
  obtain ⟨hid,hused,_,_,heq⟩ := hitLoop_some hhit
  have hboth : hit.onClose=true → hit.onTitle=true := by
    rw [heq]
    exact onTitle_of_onClose
  have hthere : ¬ noSurface g.scene hit.id := by
    unfold noSurface
    rw [not_or,not_or,Bool.not_eq_false,Int.toNat_natCast]
    exact ⟨by omega,by omega,hused⟩
  have hback : ∀ a b : Int, wrap32 (a+wrap32 (b-a))=wrap32 b := by
    intro a b
    rw [Int.add_comm,wrap32_wrap32_add,Int.sub_add_cancel]
  unfold windowClick
  rw [hhit]
  dsimp only
  by_cases hclose : hit.onClose=true
  · rw [if_pos hclose]
    refine ⟨rfl,fun _ => ?_,fun h => ?_,fun h => ?_⟩
    · unfold mkSurfaceDestroy
      rw [if_neg hthere,Int.toNat_natCast]
      refine ⟨?_,rfl,?_,?_⟩
      · simp only [Scene.set,if_pos]
      · intro a
        simp only [onCloseId]
        split <;> omega
      · intro i hi
        simp only [Scene.set,if_neg hi]
    · rw [hclose] at h
      cases h
    · rw [hboth hclose] at h
      cases h
  · rw [if_neg hclose]
    by_cases htitle : hit.onTitle=true
    · rw [if_pos htitle]
      refine ⟨rfl,fun h => absurd h hclose,fun _ _ => ⟨rfl,rfl,rfl,hback _ _,hback _ _⟩,fun h => ?_⟩
      rw [htitle] at h
      cases h
    · rw [if_neg htitle]
      exact ⟨rfl,fun h => absurd h hclose,fun _ h => absurd h htitle,fun _ => rfl⟩

theorem leftDown_above (openApp : App → Session → Session) (hmenu : g.startOpen=false)
    (hpanel : my<g.scene.screen.h-28) : leftDown openApp g mx my=some (desktopClick openApp g mx my) := by
  have htall := g.scene.screen.tall
  have hedge : wrap32 (g.scene.screen.h-28)=g.scene.screen.h-28 := wrap32_of_range (by omega) (by omega)
  have hlower : ∀ k : Int, 0<k → k<28 → my<wrap32 (wrap32 (g.scene.screen.h-28)+k) := by
    intro k hk hk'
    rw [hedge,wrap32_of_range (by omega) (by omega)]
    omega
  unfold leftDown MK_PANEL_H
  simp only [not_inBox (hlower 4 (by decide) (by decide)),not_inBox (hlower 3 (by decide) (by decide)),hmenu,
    Bool.false_eq_true,if_false]

theorem click_dispatched_iff (openApp : App → Session → Session) (g : Session) (mx my : Int) (hit : Hit)
    (hmenu : g.startOpen=false) (hpanel : my<g.scene.screen.h-28) (hhit : mkHitTest g.scene mx my=some hit) :
    (∃ g', leftDown openApp g mx my=some g' ∧ Dispatched g g' mx my hit) ↔ iconAt g.scene.screen mx my=none := by
  rw [leftDown_above openApp hmenu hpanel,desktopClick]
  cases hicon : iconAt g.scene.screen mx my with
  | none => exact iff_of_true ⟨_,rfl,windowClick_dispatched hhit⟩ rfl
  | some ic =>
    refine iff_of_false ?_ nofun
    rintro ⟨g',heq,hdone⟩
    -- the icon has been opened
    have hopened := hdone.opened
    rw [← Option.some_inj.mp heq] at hopened
    exact List.cons_ne_self _ _ hopened

/-- One window of 260 by 140 at `x`, on a screen of 800 by 600. -/
def oneWindow (x : Int) : Session where
  scene := ⟨⟨800,600,by decide,by decide⟩,fun i => ⟨i=0,x,40,260,140,i=0,[],none⟩⟩
  ids := fun _ => -1
  startOpen := false
  dragging := false
  dragId := -1
  dragOffX := 0
  dragOffY := 0
  needRedraw := false
  opened := []

theorem click_dispatched_clock : ∃ g', leftDown (fun _ g => g) (oneWindow 520) 600 50=some g' ∧
    Dispatched (oneWindow 520) g' 600 50 ⟨0,0,0,true,false⟩ :=
  (click_dispatched_iff (fun _ g => g) (oneWindow 520) 600 50 ⟨0,0,0,true,false⟩ rfl (by decide) (by decide)).mpr
    (by decide)

/-- The first window that is created lies over the icon of the clock. -/
theorem click_dispatched_fails : ¬ ∀ (openApp : App → Session → Session) (g : Session) (mx my : Int) (hit : Hit),
    g.startOpen=false → my<g.scene.screen.h-28 → mkHitTest g.scene mx my=some hit →
    ∃ g', leftDown openApp g mx my=some g' ∧ Dispatched g g' mx my hit := by
  intro h
  obtain ⟨g',heq,hdone⟩ := h (fun _ g => g) (oneWindow 40) 50 70 ⟨0,10,6,false,false⟩ rfl (by decide) (by decide)
  have hopened := hdone.opened
  rw [leftDown_above _ rfl (by decide)] at heq
  rw [← Option.some_inj.mp heq] at hopened
  exact List.cons_ne_self _ _ hopened

end MyKernel.Desktop
