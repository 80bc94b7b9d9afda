import Mathlib.Tactic.SplitIfs
import MyKernel.Vga.Model

/-! The console refines a terminal with unboundedly many rows. -/
namespace MyKernel.Vga
open Loops

/-- A terminal that never scrolls. -/
structure Terminal where
  cells : Nat → Nat → UInt8
  row : Nat
  column : Nat

namespace Terminal

def blank : Terminal := ⟨fun _ _ => 0x20, 0, 0⟩

def newRow (t : Terminal) : Terminal := { t with row := t.row+1, column := 0 }

def setCell (t : Terminal) (r x : Nat) (ch : UInt8) : Terminal :=
  { t with cells := fun r' x' => if r'=r ∧ x'=x then ch else t.cells r' x' }

def advance (t : Terminal) : Terminal := if t.column=79 then t.newRow else { t with column := t.column+1 }

def put (t : Terminal) (ch : UInt8) : Terminal :=
  if ch=0x0A then t.newRow
  else if ch=0x0D then { t with column := 0 }
  else (t.setCell t.row t.column ch).advance

def backspace (t : Terminal) : Terminal :=
  if t.column=0 then t else { t.setCell t.row (t.column-1) 0x20 with column := t.column-1 }

def step (t : Terminal) : Output → Terminal
  | .putchar ch => t.put ch
  | .backspace => t.backspace

def run (t : Terminal) (outputs : List Output) : Terminal := outputs.foldl step t

def top (t : Terminal) : Nat := t.row-24

end Terminal

def Console.cursor (c : Console) : Nat := 256*(c.crt 0x0E).toNat+(c.crt 0x0F).toNat

/-- The buffer and the cursor are those of the 25 rows of `t` from row `top` on. -/
structure Shows (top : Nat) (c : Console) (t : Terminal) : Prop where
  row : top+c.terminalRow=t.row
  column : c.terminalColumn=t.column
  cells : ∀ y x, y<VGA_TEXT_H → x<VGA_TEXT_W →
    c.terminalBuffer (y*VGA_TEXT_W+x)=vgaEntry (t.cells (top+y) x) c.terminalColor

variable {c d : Console} {t : Terminal} {f g b : Nat → UInt16} {e : UInt16} {ch : UInt8} {i m n y x top : Nat}

structure Paints (c : Console) (f : Nat → UInt16) (d : Console) : Prop where
  same : d={ c with terminalBuffer := f, written := d.written }
  written : ∀ i, i∈d.written → i∈c.written ∨ i<VGA_TEXT_W*VGA_TEXT_H

theorem paints_refl (c : Console) : Paints c c.terminalBuffer c := ⟨rfl,fun _ => .inl⟩

theorem Paints.color (h : Paints c f d) : d.terminalColor=c.terminalColor := by rw [h.same]

theorem Paints.buffer (h : Paints c f d) : d.terminalBuffer=f := by rw [h.same]

theorem Paints.store (h : Paints c f d) (hi : i<VGA_TEXT_W*VGA_TEXT_H)
    (hg : ∀ k, g k=if k=i then e else f k) : Paints c g (d.store i e) := by
  have hgf : g=Function.update f i e := by
    funext k
    rw [hg,Function.update_apply]
  constructor
  · rw [hgf,Console.store,h.buffer,h.same]
  · intro k hk
    rcases List.mem_cons.mp hk with rfl | hk
    · exact .inr hi
    · exact h.written k hk

def shifted (b : Nat → UInt16) (m i : Nat) : UInt16 := if i < m then b (i+VGA_TEXT_W) else b i

theorem cell_lt (hy : y<VGA_TEXT_H) (hx : x<VGA_TEXT_W) : y*VGA_TEXT_W+x<VGA_TEXT_W*VGA_TEXT_H := by
  simp only [VGA_TEXT_W,VGA_TEXT_H] at *
  omega

theorem Paints.copyCell (h : Paints c (shifted b (y*VGA_TEXT_W+x)) d) (hy : y<VGA_TEXT_H-1) (hx : x<VGA_TEXT_W) :
    Paints c (shifted b (y*VGA_TEXT_W+(x+1))) (copyCell (y+1) x d) := by
  apply h.store
  · exact cell_lt (by omega) hx
  · intro k
    have hsucc : (y+1)*VGA_TEXT_W+x=y*VGA_TEXT_W+x+VGA_TEXT_W := by
      rw [Nat.succ_mul]
      omega
    rw [h.buffer,Nat.add_sub_cancel,hsucc]
    simp only [shifted]
    -- the cell read lies behind the cells that have moved
    rw [if_neg (show ¬ y*VGA_TEXT_W+x+VGA_TEXT_W<y*VGA_TEXT_W+x by omega)]
    by_cases hk : k=y*VGA_TEXT_W+x
    · rw [if_pos hk,if_pos (by omega),hk]
    · rw [if_neg hk]
      exact if_congr (by omega) rfl rfl

theorem Paints.copyRows (h : Paints c b d) :
    Paints c (shifted b ((VGA_TEXT_H-1)*VGA_TEXT_W))
      (upTo (fun y => upTo (Vga.copyCell (y+1)) VGA_TEXT_W) (VGA_TEXT_H-1) d) := by
  apply upTo_invariant fun y d => Paints c (shifted b (y*VGA_TEXT_W)) d
  · have h0 : shifted b (0*VGA_TEXT_W)=b := by
      funext i
      simp [shifted]
    rw [h0]
    exact h
  · intro y d hy hd
    rw [Nat.succ_mul]
    apply upTo_invariant fun x d => Paints c (shifted b (y*VGA_TEXT_W+x)) d
    · exact hd
    · exact fun x d hx hd => hd.copyCell hy hx

def filled (b : Nat → UInt16) (e : UInt16) (lo m i : Nat) : UInt16 := if lo ≤ i ∧ i < m then e else b i

theorem Paints.blankRow {lo : Nat} (h : Paints c (filled b (vgaEntry 0x20 c.terminalColor) lo (y*VGA_TEXT_W)) d)
    (hlo : lo≤y*VGA_TEXT_W) (hy : y<VGA_TEXT_H) :
    Paints c (filled b (vgaEntry 0x20 c.terminalColor) lo ((y+1)*VGA_TEXT_W))
      (upTo (blankCell y) VGA_TEXT_W d) := by
  rw [Nat.succ_mul]
  apply upTo_invariant fun x d => Paints c (filled b (vgaEntry 0x20 c.terminalColor) lo (y*VGA_TEXT_W+x)) d
  · exact h
  · intro x d hx hd
    rw [← hd.color]
    apply Paints.store (hd.color ▸ hd)
    · exact cell_lt hy hx
    · intro k
      simp only [filled]
      by_cases hk : k=y*VGA_TEXT_W+x
      · rw [if_pos hk,if_pos (by omega)]
      · rw [if_neg hk]
        exact if_congr (by omega) rfl rfl

theorem filled_empty (lo : Nat) : filled b e lo lo=b := by
  funext i
  rw [filled,if_neg (by omega)]

theorem paints_scroll (c : Console) :
    Paints c (filled (shifted c.terminalBuffer ((VGA_TEXT_H-1)*VGA_TEXT_W)) (vgaEntry 0x20 c.terminalColor)
      ((VGA_TEXT_H-1)*VGA_TEXT_W) (VGA_TEXT_H*VGA_TEXT_W)) (scrollCells c) := by
  apply Paints.blankRow _ (Nat.le_refl _) (by decide)
  rw [filled_empty]
  exact (paints_refl c).copyRows

theorem paints_blank (c : Console) :
    Paints c (filled c.terminalBuffer (vgaEntry 0x20 c.terminalColor) 0 (VGA_TEXT_H*VGA_TEXT_W)) (blankCells c) := by
  apply upTo_invariant fun y d =>
    Paints c (filled c.terminalBuffer (vgaEntry 0x20 c.terminalColor) 0 (y*VGA_TEXT_W)) d
  · rw [Nat.zero_mul,filled_empty]
    exact paints_refl c
  · exact fun y d hy hd => hd.blankRow (Nat.zero_le _) hy

theorem setCell_cells (t : Terminal) (r x r' x' : Nat) (ch : UInt8) :
    (t.setCell r x ch).cells r' x'=if r'=r ∧ x'=x then ch else t.cells r' x' := rfl

/-- Nothing stands below the cursor, and the cursor is in a column. -/
structure Terminal.Ok (t : Terminal) : Prop where
  column : t.column<VGA_TEXT_W
  below : ∀ r x, t.row<r → t.cells r x=0x20

theorem Terminal.Ok.newRow (h : t.Ok) : t.newRow.Ok where
  column := show 0<VGA_TEXT_W by decide
  below := fun r x hr => h.below r x (Nat.lt_of_succ_lt hr)

theorem Terminal.Ok.setCell (h : t.Ok) : (t.setCell t.row x ch).Ok where
  column := h.column
  below := by
    intro r x' hr
    change t.row<r at hr
    rw [setCell_cells,if_neg (by omega),h.below r x' hr]

theorem Terminal.Ok.moved (h : t.Ok) (hx : x<VGA_TEXT_W) : Terminal.Ok { t with column := x } :=
  ⟨hx,h.below⟩

theorem Terminal.Ok.advance (h : t.Ok) : t.advance.Ok := by
  have hcol : t.column<80 := h.column
  rw [Terminal.advance]
  split_ifs with h79
  · exact h.newRow
  · exact h.moved (show t.column+1<80 by omega)

theorem Terminal.Ok.put (h : t.Ok) : (t.put ch).Ok := by
  rw [Terminal.put]
  split_ifs with h1 h2
  · exact h.newRow
  · exact h.moved (by decide)
  · exact h.setCell.advance

theorem Terminal.Ok.put_row (h : t.Ok) (ch : UInt8) : (t.put ch).row=t.row ∨
    (t.put ch).row=t.row+1 ∧ ∀ x, (t.put ch).cells (t.row+1) x=0x20 := by
  have hbelow : ∀ x, t.cells (t.row+1) x=0x20 := fun x => h.below (t.row+1) x (Nat.lt_succ_self _)
  rw [Terminal.put,Terminal.advance]
  split_ifs with h1 h2 h3
  · exact .inr ⟨rfl,hbelow⟩
  · exact .inl rfl
  · refine .inr ⟨rfl,fun x => ?_⟩
    change (t.setCell t.row t.column ch).cells (t.row+1) x=0x20
    rw [setCell_cells,if_neg (by omega),hbelow]
  · exact .inl rfl

theorem cell_inj {y' x' : Nat} (hx : x<VGA_TEXT_W) (hx' : x'<VGA_TEXT_W) :
    y'*VGA_TEXT_W+x'=y*VGA_TEXT_W+x ↔ y'=y ∧ x'=x := by
  simp only [VGA_TEXT_W] at *
  omega

theorem Shows.putentry (h : Shows top c t) (ch : UInt8) (hx : x<VGA_TEXT_W) :
    Shows top (terminalPutentryat ch c.terminalColor x c.terminalRow c) (t.setCell t.row x ch) where
  row := h.row
  column := h.column
  cells := by
    intro y' x' hy' hx'
    have hsame : y'=c.terminalRow ∧ x'=x ↔ top+y'=t.row ∧ x'=x := by
      rw [← h.row]
      omega
    rw [setCell_cells,terminalPutentryat,Console.store]
    simp only [Function.update_apply,cell_inj hx hx',hsame]
    by_cases hat : top+y'=t.row ∧ x'=x
    · rw [if_pos hat,if_pos hat]
    · rw [if_neg hat,if_neg hat]
      exact h.cells y' x' hy' hx'

theorem Shows.newRow (h : Shows top c t) :
    Shows top { c with terminalColumn := 0, terminalRow := c.terminalRow+1 } t.newRow :=
  ⟨congrArg Nat.succ h.row,rfl,h.cells⟩

theorem Shows.moved (h : Shows top c t) (x : Nat) : Shows top { c with terminalColumn := x } { t with column := x } :=
  ⟨h.row,rfl,h.cells⟩

theorem Shows.advance (h : Shows top c t) (hcols : c.termCols=VGA_TEXT_W) : Shows top (advance c) t.advance := by
  have hwrap : c.terminalColumn+1=c.termCols ↔ t.column=79 := by
    rw [hcols,h.column,VGA_TEXT_W]
    omega
  rw [Vga.advance,Terminal.advance]
  by_cases hlast : t.column=79
  · rw [if_pos (hwrap.mpr hlast),if_pos hlast]
    exact h.newRow
  · rw [if_neg fun he => hlast (hwrap.mp he),if_neg hlast,h.column]
    exact h.moved (t.column+1)

theorem Shows.place (h : Shows top c t) (ht : t.Ok) (hcols : c.termCols=VGA_TEXT_W) (ch : UInt8) :
    Shows top (placeChar ch c) (t.put ch) := by
  rw [placeChar,Terminal.put]
  by_cases h1 : ch=0x0A
  · rw [if_pos h1,if_pos h1]
    exact h.newRow
  by_cases h2 : ch=0x0D
  · rw [if_neg h1,if_neg h1,if_pos h2,if_pos h2]
    exact h.moved 0
  · rw [if_neg h1,if_neg h1,if_neg h2,if_neg h2,h.column]
    exact (h.putentry ch ht.column).advance hcols

theorem Shows.setCrt (h : Shows top c t) (reg : Nat) (v : UInt8) : Shows top (c.setCrt reg v) t :=
  ⟨h.row,h.column,h.cells⟩

theorem Shows.setCursor (h : Shows top c t) (x y : Nat) : Shows top (hwCursor x y c) t :=
  (h.setCrt _ _).setCrt _ _

theorem Shows.showCursor (h : Shows top c t) : Shows top (terminalShowCursor c) t :=
  ((h.setCrt _ _).setCrt _ _).setCursor _ _

/-- Once the cursor has left the window for a blank row, scrolling moves the window by one. -/
theorem Shows.scroll (h : Shows top c t) (hrow : c.terminalRow=VGA_TEXT_H)
    (hblank : ∀ x, t.cells t.row x=0x20) : Shows (top+1) (terminalScroll c) t := by
  have hp := paints_scroll c
  have hr := h.row
  rw [terminalScroll]
  generalize scrollCells c=d at hp ⊢
  constructor
  · rw [← hr,hrow,Nat.add_assoc]
    rfl
  · rw [hp.same]
    exact h.column
  · intro y x hy hx
    rw [hp.color,hp.buffer]
    simp only [filled,shifted]
    by_cases hlast : y=VGA_TEXT_H-1
    · rw [if_pos ⟨by rw [hlast]; omega,Nat.mul_comm _ _ ▸ cell_lt hy hx⟩]
      have hat : top+1+y=t.row := by omega
      rw [hat,hblank]
    · have hsucc : y*VGA_TEXT_W+x+VGA_TEXT_W=(y+1)*VGA_TEXT_W+x := by
        rw [Nat.succ_mul]
        omega
      have hlt : y*VGA_TEXT_W+x<(VGA_TEXT_H-1)*VGA_TEXT_W := by
        simp only [VGA_TEXT_W,VGA_TEXT_H] at *
        omega
      have hcell := h.cells (y+1) x (by omega) hx
      rw [if_neg (by omega),if_pos hlt,hsucc,hcell,Nat.add_right_comm,Nat.add_assoc]

/-- What no output changes, and where it stores. -/
structure Frame (c d : Console) : Prop where
  color : d.terminalColor=c.terminalColor
  cols : d.termCols=c.termCols
  rows : d.termRows=c.termRows
  written : ∀ i, i∈d.written → i∈c.written ∨ i<VGA_TEXT_W*VGA_TEXT_H

theorem frame_of_written (hw : d.written=c.written) (hcolor : d.terminalColor=c.terminalColor)
    (hcols : d.termCols=c.termCols) (hrows : d.termRows=c.termRows) : Frame c d :=
  ⟨hcolor,hcols,hrows,fun _ hi => .inl (hw ▸ hi)⟩

theorem Frame.trans {e : Console} (h : Frame c d) (h' : Frame d e) : Frame c e where
  color := h'.color.trans h.color
  cols := h'.cols.trans h.cols
  rows := h'.rows.trans h.rows
  written := fun i hi => (h'.written i hi).elim (h.written i) .inr

theorem Paints.frame (h : Paints c f d) : Frame c d where
  color := h.color
  cols := by rw [h.same]
  rows := by rw [h.same]
  written := h.written

theorem putentry_frame (ch : UInt8) (hy : y<VGA_TEXT_H) (hx : x<VGA_TEXT_W) :
    Frame c (terminalPutentryat ch c.terminalColor x y c) :=
  ((paints_refl c).store (cell_lt hy hx) fun _ => rfl).frame

theorem advance_frame (c : Console) : Frame c (advance c) := by
  rw [advance]
  split_ifs <;> exact frame_of_written rfl rfl rfl rfl

theorem placeChar_frame (ch : UInt8) (hy : c.terminalRow<VGA_TEXT_H) (hx : c.terminalColumn<VGA_TEXT_W) :
    Frame c (placeChar ch c) := by
  rw [placeChar]
  split_ifs
  · exact frame_of_written rfl rfl rfl rfl
  · exact frame_of_written rfl rfl rfl rfl
  · exact (putentry_frame ch hy hx).trans (advance_frame _)

theorem scroll_frame (c : Console) : Frame c (terminalScroll c) := by
  have hp := (paints_scroll c).frame
  rw [terminalScroll]
  generalize scrollCells c=d at hp ⊢
  exact ⟨hp.color,hp.cols,hp.rows,hp.written⟩

theorem setCrt_frame (c : Console) (reg : Nat) (v : UInt8) : Frame c (c.setCrt reg v) :=
  frame_of_written rfl rfl rfl rfl

theorem hwCursor_frame (x y : Nat) (c : Console) : Frame c (hwCursor x y c) :=
  (setCrt_frame c _ _).trans (setCrt_frame _ _ _)

theorem showCursor_frame (c : Console) : Frame c (terminalShowCursor c) :=
  ((setCrt_frame c _ _).trans (setCrt_frame _ _ _)).trans (hwCursor_frame _ _ _)

theorem hwCursor_cursor (hy : y<VGA_TEXT_H) (hx : x<VGA_TEXT_W) : (hwCursor x y c).cursor=y*VGA_TEXT_W+x := by
  have hlt : y*VGA_TEXT_W+x<2000 := cell_lt hy hx
  have hlow : (hwCursor x y c).crt 0x0F=UInt8.ofNat (y*VGA_TEXT_W+x) := by
    simp [hwCursor,Console.setCrt,Nat.mod_eq_of_lt (show y*VGA_TEXT_W+x<65536 by omega)]
  have hhigh : (hwCursor x y c).crt 0x0E=UInt8.ofNat ((y*VGA_TEXT_W+x)/256) := by
    simp [hwCursor,Console.setCrt,Nat.mod_eq_of_lt (show y*VGA_TEXT_W+x<65536 by omega)]
  rw [Console.cursor,hlow,hhigh,UInt8.toNat_ofNat',UInt8.toNat_ofNat']
  omega

structure Ready (c : Console) : Prop where
  cols : c.termCols=VGA_TEXT_W
  rows : c.termRows=VGA_TEXT_H
  color : c.terminalColor=vgaEntryColor VGA_COLOR_LIGHT_GREEN VGA_COLOR_BLACK
  written : ∀ i, i∈c.written → i<VGA_TEXT_W*VGA_TEXT_H

theorem Ready.frame (h : Ready c) (hframe : Frame c d) : Ready d where
  cols := hframe.cols.trans h.cols
  rows := hframe.rows.trans h.rows
  color := hframe.color.trans h.color
  written := fun i hi => (hframe.written i hi).elim (h.written i) id

/-- The console between two outputs. -/
structure Refines (c : Console) (t : Terminal) : Prop where
  shows : Shows t.top c t
  ok : t.Ok
  row_lt : c.terminalRow<VGA_TEXT_H
  cursor : c.cursor=c.terminalRow*VGA_TEXT_W+c.terminalColumn
  ready : Ready c

theorem Refines.column_lt (h : Refines c t) : c.terminalColumn<VGA_TEXT_W := h.shows.column ▸ h.ok.column

theorem Shows.refines (h : Shows t.top c t) (hok : t.Ok) (hrow : c.terminalRow<VGA_TEXT_H) (hready : Ready c) :
    Refines (hwCursor c.terminalColumn c.terminalRow c) t where
  shows := h.setCursor _ _
  ok := hok
  row_lt := hrow
  cursor := hwCursor_cursor hrow (h.column ▸ hok.column)
  ready := hready.frame (hwCursor_frame _ _ c)

theorem Refines.putchar (h : Refines c t) (ch : UInt8) : Refines (terminalPutchar ch c) (t.put ch) := by
  have hplaced := h.shows.place h.ok h.ready.cols ch
  have hframe := placeChar_frame ch h.row_lt h.column_lt
  have hrows : (placeChar ch c).termRows=25 := hframe.rows.trans h.ready.rows
  have hlt : c.terminalRow<25 := h.row_lt
  have hrow : t.row-24+c.terminalRow=t.row := h.shows.row
  have hrow' : t.row-24+(placeChar ch c).terminalRow=(t.put ch).row := hplaced.row
  have hnext := h.ok.put_row ch
  rw [terminalPutchar]
  by_cases hfull : (placeChar ch c).termRows≤(placeChar ch c).terminalRow
  · rw [if_pos hfull]
    obtain ⟨hnew,hblank⟩ := hnext.resolve_left (by omega)
    have h25 : (placeChar ch c).terminalRow=25 := by omega
    have hscrolled := hplaced.scroll h25 fun x => hnew ▸ hblank x
    -- the cursor was in the last row, so the window begins one row further down
    have htop : (t.put ch).top=t.top+1 := by
      rw [Terminal.top,Terminal.top]
      omega
    have hready := (h.ready.frame hframe).frame (scroll_frame _)
    exact Shows.refines (htop ▸ hscrolled) h.ok.put (show 24<25 by omega) hready
  · rw [if_neg hfull]
    have htop : (t.put ch).top=t.top := by
      rw [Terminal.top,Terminal.top]
      omega
    exact Shows.refines (htop ▸ hplaced) h.ok.put (show _<25 by omega) (h.ready.frame hframe)

theorem Refines.backspace (h : Refines c t) : Refines (terminalBackspace c) t.backspace := by
  have hcol := h.shows.column
  have hlt := h.column_lt
  rw [terminalBackspace,Terminal.backspace]
  by_cases h0 : t.column=0
  · rw [if_neg (by omega),if_pos h0]
    exact h
  · rw [if_pos (by omega),if_neg h0]
    rw [hcol] at hlt ⊢
    have hx : t.column-1<VGA_TEXT_W := by omega
    have hframe : Frame c { c with terminalColumn := t.column-1 } := frame_of_written rfl rfl rfl rfl
    have hput := (h.shows.moved (t.column-1)).putentry 0x20 hx
    have hready := (h.ready.frame hframe).frame (putentry_frame 0x20 h.row_lt hx)
    exact Shows.refines hput (h.ok.setCell.moved hx) h.row_lt hready

theorem refines_start (hw : c.written=[]) : Refines (terminalInitialize c) Terminal.blank := by
  have hp := paints_blank { c with
    terminalRow := 0
    terminalColumn := 0
    terminalColor := vgaEntryColor VGA_COLOR_LIGHT_GREEN VGA_COLOR_BLACK
    termCols := VGA_TEXT_W
    termRows := VGA_TEXT_H }
  dsimp only [terminalInitialize]
  generalize blankCells _ = d at hp ⊢
  have hrow : d.terminalRow=0 := by rw [hp.same]
  have hcolumn : d.terminalColumn=0 := by rw [hp.same]
  have hshows : Shows Terminal.blank.top d Terminal.blank := by
    refine ⟨(Nat.zero_add _).trans hrow,hcolumn,fun y x hy hx => ?_⟩
    rw [hp.buffer,hp.color,filled,if_pos ⟨Nat.zero_le _,Nat.mul_comm _ _ ▸ cell_lt hy hx⟩]
    rfl
  have hready : Ready d := Ready.frame ⟨rfl,rfl,rfl,fun i hi => absurd hi (by simp [hw])⟩ hp.frame
  have hshown := hshows.showCursor
  have hok : Terminal.blank.Ok := ⟨show 0<80 by omega,fun _ _ _ => rfl⟩
  apply Shows.refines hshown hok
  · rw [(Nat.zero_add _).symm.trans hshown.row]
    decide
  · exact hready.frame (showCursor_frame d)

/-- After any outputs the buffer and the cursor are the last 25 rows and the cursor of the terminal, and every
store has been to the buffer. -/
theorem console_refines_terminal (c : Console) (hw : c.written=[]) (outputs : List Output) :
    let d := (terminalInitialize c).run outputs
    let t := Terminal.blank.run outputs
    d.terminalRow<VGA_TEXT_H ∧ d.terminalColumn<VGA_TEXT_W ∧
      (∀ i, i∈d.written → i<VGA_TEXT_W*VGA_TEXT_H) ∧ Shows t.top d t ∧
      d.terminalColor=vgaEntryColor VGA_COLOR_LIGHT_GREEN VGA_COLOR_BLACK ∧
      d.cursor=d.terminalRow*VGA_TEXT_W+d.terminalColumn := by
  have h : Refines ((terminalInitialize c).run outputs) (Terminal.blank.run outputs) := by
    apply List.foldl_rel (refines_start hw)
    intro o _ c t h
    cases o with
    | putchar ch => exact h.putchar ch
    | backspace => exact h.backspace
  exact ⟨h.row_lt,h.column_lt,h.ready.written,h.shows,h.ready.color,h.cursor⟩

/-- A screen of zeroes, a character and a line break. -/
theorem console_refines_terminal_x :
    let d := (terminalInitialize ⟨0,0,0,80,25,fun _ => 0, fun _ => 0, []⟩).run [.putchar 0x78,.putchar 0x0A]
    let t := Terminal.blank.run [.putchar 0x78,.putchar 0x0A]
    d.terminalRow<VGA_TEXT_H ∧ d.terminalColumn<VGA_TEXT_W ∧
      (∀ i, i∈d.written → i<VGA_TEXT_W*VGA_TEXT_H) ∧ Shows t.top d t ∧
      d.terminalColor=vgaEntryColor VGA_COLOR_LIGHT_GREEN VGA_COLOR_BLACK ∧
      d.cursor=d.terminalRow*VGA_TEXT_W+d.terminalColumn :=
  console_refines_terminal ⟨0,0,0,80,25,fun _ => 0,fun _ => 0,[]⟩ rfl [.putchar 0x78,.putchar 0x0A]

end MyKernel.Vga
