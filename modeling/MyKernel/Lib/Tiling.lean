import Mathlib.Data.List.Basic

/-! An interval tiled by cells: a header of `hdr` bytes and its payload. -/
namespace MyKernel.Tiling

structure Cell where
  addr : Nat
  size : Nat
  free : Bool
  deriving DecidableEq, Repr

variable {hdr lo mid hi : Nat} {c d : Cell} {cs xs ys : List Cell}

def Cell.stop (hdr : Nat) (c : Cell) : Nat := c.addr+hdr+c.size

def Tiles (hdr lo hi : Nat) : List Cell → Prop
  | [] => lo=hi
  | c::cs => c.addr=lo ∧ Tiles hdr (c.stop hdr) hi cs

def NoAdjacentFree : List Cell → Prop
  | c::d::cs => ¬(c.free=true ∧ d.free=true) ∧ NoAdjacentFree (d::cs)
  | _ => True

def usedCells (cs : List Cell) : List Cell := cs.filter (fun c => !c.free)

def usedBytes : List Cell → Nat
  | [] => 0
  | c::cs => (if c.free then 0 else c.size)+usedBytes cs

def freeBytes : List Cell → Nat
  | [] => 0
  | c::cs => (if c.free then c.size else 0)+freeBytes cs

theorem usedBytes_append (xs ys : List Cell) : usedBytes (xs++ys)=usedBytes xs+usedBytes ys := by
  induction xs with
  | nil => simp [usedBytes]
  | cons c xs ih => simp [usedBytes,ih,Nat.add_assoc]

theorem mem_usedCells : c∈usedCells cs ↔ c∈cs ∧ c.free=false := by
  simp [usedCells]

theorem tiles_append : Tiles hdr lo hi (xs++ys) ↔ ∃ mid, Tiles hdr lo mid xs ∧ Tiles hdr mid hi ys := by
  induction xs generalizing lo with
  | nil => simp [Tiles]
  | cons c xs ih => simp [Tiles,ih,and_assoc]

theorem Tiles.le (h : Tiles hdr lo hi cs) : lo≤hi := by
  induction cs generalizing lo with
  | nil => exact Nat.le_of_eq h
  | cons c cs ih =>
    have hc := ih h.2
    have ha := h.1
    unfold Cell.stop at hc
    omega

theorem Tiles.bounds (h : Tiles hdr lo hi cs) (hc : c∈cs) : lo≤c.addr ∧ c.addr+hdr+c.size≤hi := by
  obtain ⟨xs,ys,rfl⟩ := List.append_of_mem hc
  obtain ⟨mid,hx,ha,hy⟩ := tiles_append.mp h
  have hlo := hx.le
  have hhi := Tiles.le hy
  unfold Cell.stop at hhi
  omega

theorem Tiles.separated (h : Tiles hdr lo hi cs) (hc : c∈cs) (hd : d∈cs) :
    c=d ∨ c.addr+hdr+c.size≤d.addr ∨ d.addr+hdr+d.size≤c.addr := by
  induction cs generalizing lo with
  | nil => simp at hc
  | cons e cs ih =>
    have ha := h.1
    rcases List.mem_cons.mp hc with rfl | hc'
    · rcases List.mem_cons.mp hd with rfl | hd'
      · exact Or.inl rfl
      · exact Or.inr (Or.inl (h.2.bounds hd').1)
    · rcases List.mem_cons.mp hd with rfl | hd'
      · exact Or.inr (Or.inr (h.2.bounds hc').1)
      · exact ih h.2 hc' hd'

theorem Tiles.addr_inj (hh : 0<hdr) (h : Tiles hdr lo hi cs) (hc : c∈cs) (hd : d∈cs)
    (he : c.addr=d.addr) : c=d := by
  rcases h.separated hc hd with hs | hs | hs
  · exact hs
  · omega
  · omega

theorem Tiles.total (h : Tiles hdr lo hi cs) : usedBytes cs+freeBytes cs+hdr*cs.length+lo=hi := by
  induction cs generalizing lo with
  | nil => simpa [usedBytes,freeBytes,Tiles] using h
  | cons c cs ih =>
    have hi := ih h.2
    have ha := h.1
    unfold Cell.stop at hi
    simp only [usedBytes,freeBytes,List.length_cons,Nat.mul_add,Nat.mul_one] at hi ⊢
    cases hf : c.free <;> simp <;> omega

theorem Tiles.usedBytes_le (h : Tiles hdr lo hi cs) : usedBytes cs≤hi := by
  have ht := h.total
  omega

theorem noAdjacentFree_of_append (h : NoAdjacentFree (xs++c::ys)) : NoAdjacentFree (c::ys) := by
  induction xs with
  | nil => exact h
  | cons x xs ih =>
    cases xs with
    | nil => exact h.2
    | cons y xs => exact ih h.2

/-- Replacing the head of a tail keeps the property when its new head is free only if the old one was. -/
theorem noAdjacentFree_replace {zs : List Cell} (h : NoAdjacentFree (xs++c::ys)) (hf : d.free=true → c.free=true)
    (ht : NoAdjacentFree (d::zs)) : NoAdjacentFree (xs++d::zs) := by
  induction xs with
  | nil => exact ht
  | cons x xs ih =>
    cases xs with
    | nil => exact ⟨fun hx => h.1 ⟨hx.1,hf hx.2⟩,ht⟩
    | cons y xs => exact ⟨h.1,ih h.2⟩

theorem NoAdjacentFree.length_le_one (h : NoAdjacentFree cs) (hf : usedCells cs=[]) : cs.length≤1 := by
  match cs with
  | [] => simp
  | [_] => simp
  | c::d::cs =>
    simp only [usedCells,List.filter_eq_nil_iff,List.mem_cons] at hf
    have hc := hf c (by simp)
    have hd := hf d (by simp)
    exact absurd ⟨by simpa using hc,by simpa using hd⟩ h.1

def merge (hdr : Nat) : List Cell → List Cell
  | [] => []
  | [c] => [c]
  | c::d::cs =>
    if c.free && d.free then merge hdr ({ c with size := c.size+(hdr+d.size) }::cs)
    else c::merge hdr (d::cs)
  termination_by cs => cs.length

theorem merge_join (h : c.free=true ∧ d.free=true) :
    merge hdr (c::d::cs)=merge hdr ({ c with size := c.size+(hdr+d.size) }::cs) := by
  simp [merge,h.1,h.2]

theorem merge_skip (h : ¬(c.free=true ∧ d.free=true)) : merge hdr (c::d::cs)=c::merge hdr (d::cs) := by
  rw [merge]
  simp only [Bool.and_eq_true,h,if_false]

/-- The induction of `merge`: one case per branch of its definition. -/
theorem merge_induction {P : List Cell → Prop} (hdr : Nat) (nil : P []) (one : ∀ c, P [c])
    (join : ∀ c d cs, c.free=true ∧ d.free=true →
      P ({ c with size := c.size+(hdr+d.size) }::cs) → P (c::d::cs))
    (skip : ∀ c d cs, ¬(c.free=true ∧ d.free=true) → P (d::cs) → P (c::d::cs)) :
    ∀ cs, P cs := by
  intro cs
  induction hn : cs.length generalizing cs with
  | zero => simpa [List.eq_nil_of_length_eq_zero hn] using nil
  | succ n ih =>
    match cs with
    | [c] => exact one c
    | c::d::cs =>
      simp only [List.length_cons,Nat.add_right_cancel_iff] at hn
      by_cases h : c.free=true ∧ d.free=true
      · exact join c d cs h (ih _ (by simpa using hn))
      · exact skip c d cs h (ih _ (by simpa using hn))

theorem Tiles.join (h : Tiles hdr lo hi (c::d::cs)) :
    Tiles hdr lo hi ({ c with size := c.size+(hdr+d.size) }::cs) := by
  obtain ⟨ha,hb,ht⟩ := h
  have hs : Cell.stop hdr { c with size := c.size+(hdr+d.size) }=d.stop hdr := by
    unfold Cell.stop at *
    simp only
    omega
  exact ⟨ha,by rwa [hs]⟩

theorem tiles_merge (cs : List Cell) (h : Tiles hdr lo hi cs) : Tiles hdr lo hi (merge hdr cs) := by
  induction cs using merge_induction hdr generalizing lo with
  | nil => simpa [merge] using h
  | one c => simpa [merge] using h
  | join c d cs hf ih =>
    rw [merge_join hf]
    exact ih h.join
  | skip c d cs hf ih =>
    rw [merge_skip hf]
    exact ⟨h.1,ih h.2⟩

theorem merge_head (hdr : Nat) (c : Cell) (cs : List Cell) : ∃ e es, merge hdr (c::cs)=e::es ∧ e.free=c.free := by
  induction hn : cs.length generalizing c cs with
  | zero =>
    rw [List.eq_nil_of_length_eq_zero hn]
    exact ⟨c,[],by simp [merge],rfl⟩
  | succ n ih =>
    match cs with
    | d::cs =>
      by_cases h : c.free=true ∧ d.free=true
      · rw [merge_join h]
        exact ih { c with size := c.size+(hdr+d.size) } cs (by simpa using hn)
      · exact ⟨c,_,merge_skip h,rfl⟩

theorem noAdjacentFree_merge (cs : List Cell) : NoAdjacentFree (merge hdr cs) := by
  induction cs using merge_induction hdr with
  | nil => simp [merge,NoAdjacentFree]
  | one c => simp [merge,NoAdjacentFree]
  | join c d cs hf ih => rwa [merge_join hf]
  | skip c d cs hf ih =>
    rw [merge_skip hf]
    obtain ⟨e,es,he,hef⟩ := merge_head hdr d cs
    rw [he] at ih ⊢
    exact ⟨by rwa [hef],ih⟩

theorem usedCells_merge (hdr : Nat) (cs : List Cell) : usedCells (merge hdr cs)=usedCells cs := by
  induction cs using merge_induction hdr with
  | nil => simp [merge]
  | one c => simp [merge]
  | join c d cs hf ih =>
    rw [merge_join hf,ih]
    simp [usedCells,hf.1,hf.2]
  | skip c d cs hf ih =>
    rw [merge_skip hf]
    simp only [usedCells,List.filter_cons] at ih ⊢
    rw [ih]

theorem usedBytes_merge (hdr : Nat) (cs : List Cell) : usedBytes (merge hdr cs)=usedBytes cs := by
  induction cs using merge_induction hdr with
  | nil => simp [merge]
  | one c => simp [merge]
  | join c d cs hf ih =>
    rw [merge_join hf,ih]
    simp [usedBytes,hf.1,hf.2]
  | skip c d cs hf ih =>
    rw [merge_skip hf]
    simp only [usedBytes,ih]

/-- A range off all used cells meets one cell only, since the next one would be free as well. -/
theorem NoAdjacentFree.covers {a b : Nat} (hn : NoAdjacentFree cs) (ht : Tiles hdr lo hi cs) (hpos : 0<hdr) (hlo : lo≤a) (hhi : b≤hi)
    (hab : a<b) (hoff : ∀ c∈cs, c.free=false → b≤c.addr ∨ c.addr+hdr+c.size≤a) :
    ∃ c∈cs, c.free=true ∧ c.addr≤a ∧ b≤c.addr+hdr+c.size := by
  induction cs generalizing lo with
  | nil =>
    have hend : lo=hi := ht
    omega
  | cons c cs ih =>
    obtain ⟨rfl,ht⟩ := ht
    rw [Cell.stop] at ht
    by_cases hnext : c.addr+hdr+c.size≤a
    · have hn' : NoAdjacentFree cs := by
        cases cs with
        | nil => trivial
        | cons d cs => exact hn.2
      obtain ⟨d,hd,hgap⟩ := ih hn' ht hnext fun d hd => hoff d (List.mem_cons_of_mem c hd)
      exact ⟨d,List.mem_cons_of_mem c hd,hgap⟩
    · have hfree : c.free=true := by
        by_contra hused
        have := hoff c List.mem_cons_self (by simpa using hused)
        omega
      refine ⟨c,List.mem_cons_self,hfree,hlo,?_⟩
      by_contra hlt
      cases cs with
      | nil =>
        have hend : c.addr+hdr+c.size=hi := ht
        omega
      | cons d cs =>
        have hd := ht.1
        have hused : d.free=false := by simpa [hfree] using hn.1
        have := hoff d (by simp) hused
        omega

end MyKernel.Tiling
