import Mathlib.Data.List.Chain
import MyKernel.Lib.Traces
import MyKernel.Shell.Model

/-! The game of `snake.c` without pictures and sounds. Only the first `slen` cells are kept. -/
namespace MyKernel.Snake
open Shell Traces

def MAX_LEN : Nat := 200

abbrev Cell := Int × Int

structure Grid where
  w : Nat
  h : Nat

structure Game where
  body : List Cell
  dir : Cell
  next : Cell
  food : Cell
  score : Nat
  dead : Bool
  rng : Nat

/-- The number drawn, and the new state. -/
def randU (rng : Nat) : Nat × Nat :=
  let rng := (rng*1103515245+12345)%4294967296
  (rng/65536%32768,rng)

/-- `none` is a loop that has not found a free cell in `fuel` passes. -/
def placeFood (g : Grid) : Nat → Game → Option Game
  | 0, _ => none
  | fuel+1, s =>
    let (x,rng) := randU s.rng
    let (y,rng) := randU rng
    let s := { s with food := (((x%g.w : Nat) : Int),((y%g.h : Nat) : Int)), rng := rng }
    if s.food∈s.body then placeFood g fuel s else some s

def newGame (g : Grid) (fuel rng : Nat) : Option Game :=
  let x : Int := g.w/2
  let y : Int := g.h/2
  placeFood g fuel ⟨[(x,y),(x-1,y),(x-2,y)],(1,0),(1,0),(0,0),0,false,rng⟩

def back (d : Cell) : Cell := (-d.1,-d.2)

def Grid.Has (g : Grid) (c : Cell) : Prop := ¬ (c.1<0 ∨ c.2<0 ∨ c.1≥g.w ∨ c.2≥g.h)

instance (g : Grid) (c : Cell) : Decidable (g.Has c) := inferInstanceAs (Decidable (¬ _))

/-- `score++` has no meaning in C when the score is the largest `int`. -/
def eat (g : Grid) (fuel : Nat) (s : Game) (tail : Cell) : Option Game :=
  if s.score<2147483647 then
    placeFood g fuel { s with
      body := if s.body.length<MAX_LEN then s.body++[tail] else s.body
      score := s.score+1 }
  else none

def step (g : Grid) (fuel : Nat) (s : Game) : Option Game :=
  if s.dead then some s
  else
    let s := { s with dir := if s.next=back s.dir then s.dir else s.next }
    let head := ((s.body.headD (0,0)).1+s.dir.1,(s.body.headD (0,0)).2+s.dir.2)
    if ¬ g.Has head ∨ head∈s.body then some { s with dead := true }
    else
      let moved := { s with body := head::s.body.dropLast }
      if head=s.food then eat g fuel moved (s.body.getLastD (0,0)) else some moved

def keyDir (c : UInt8) : Option Cell :=
  if c=0x77 ∨ c=0x57 ∨ c=KEY_UP then some (0,-1)
  else if c=0x73 ∨ c=0x53 ∨ c=KEY_DOWN then some (0,1)
  else if c=0x61 ∨ c=0x41 ∨ c=KEY_LEFT then some (-1,0)
  else if c=0x64 ∨ c=0x44 ∨ c=KEY_RIGHT then some (1,0)
  else none

def handleKey (c : UInt8) (s : Game) : Game :=
  match keyDir c with
  | none => s
  | some d => if d=back s.dir then s else { s with next := d }

/-- The keys that quit end the input. -/
inductive Input where
  | key (c : UInt8)
  | tick

def play (g : Grid) (fuel : Nat) (s : Game) : Input → Option Game
  | .key c => if s.dead ∧ (c=0x72 ∨ c=0x52) then newGame g fuel s.rng else some (handleKey c s)
  | .tick => step g fuel s

def snakeRun (g : Grid) (fuel rng : Nat) (inputs : List Input) : Option Game :=
  (newGame g fuel rng).bind (runFrom (play g fuel) inputs)

def UnitVector (d : Cell) : Prop := d.1.natAbs+d.2.natAbs=1

def Adjacent (a b : Cell) : Prop := UnitVector (a.1-b.1,a.2-b.2)

/-- Cells of the grid, each once and each beside the next. -/
structure Trail (g : Grid) (cs : List Cell) : Prop where
  inside : ∀ c∈cs, g.Has c
  distinct : cs.Nodup
  linked : cs.IsChain Adjacent

structure Ok (g : Grid) (s : Game) : Prop where
  trail : Trail g s.body
  food : s.food∉s.body
  length : s.body.length=min MAX_LEN (3+s.score)
  dir : UnitVector s.dir
  next : UnitVector s.next

/-- What is asked of a step. -/
structure Stepped (s t : Game) : Prop where
  straight : t.dir≠back s.dir
  death : t.dead=true → t.body=s.body

variable {g : Grid} {s t : Game} {c d : Cell} {cs : List Cell} {fuel rng : Nat}

theorem placeFood_cases (h : placeFood g fuel s=some t) :
    ∃ food rng, t={ s with food := food, rng := rng } ∧ food∉s.body := by
  induction fuel generalizing s with
  | zero => cases h
  | succ fuel ih =>
    simp only [placeFood] at h
    split at h
    · obtain ⟨food,rng,ht,hfree⟩ := ih h
      exact ⟨food,rng,ht,hfree⟩
    next hfree => exact ⟨_,_,(Option.some_inj.mp h).symm,hfree⟩

theorem UnitVector.ne_back (h : UnitVector d) : d≠back d := by
  intro he
  have hx : d.1=-d.1 := congrArg Prod.fst he
  have hy : d.2=-d.2 := congrArg Prod.snd he
  unfold UnitVector at h
  omega

theorem Trail.cons (h : Trail g (c::cs)) (hin : g.Has d) (hnew : d∉c::cs) (hadj : Adjacent d c) :
    Trail g (d::c::cs) where
  inside := List.forall_mem_cons.mpr ⟨hin,h.inside⟩
  distinct := List.nodup_cons.mpr ⟨hnew,h.distinct⟩
  linked := List.isChain_cons_cons.mpr ⟨hadj,h.linked⟩

theorem Trail.dropLast (h : Trail g cs) : Trail g cs.dropLast where
  inside := fun c hc => h.inside c ((List.dropLast_sublist cs).subset hc)
  distinct := h.distinct.sublist (List.dropLast_sublist cs)
  linked := h.linked.dropLast

theorem newGame_ok (hw : 4≤g.w) (hh : 1≤g.h) (h : newGame g fuel rng=some s) : Ok g s := by
  obtain ⟨food,rng',rfl,hfree⟩ := placeFood_cases h
  refine ⟨⟨?_,?_,?_⟩,hfree,rfl,rfl,rfl⟩
  · simp only [List.forall_mem_cons,Grid.Has]
    refine ⟨?_,?_,?_,fun c hc => absurd hc List.not_mem_nil⟩ <;> omega
  · simp only [List.nodup_cons,List.mem_cons,Prod.mk.injEq]
    grind
  · simp only [List.isChain_cons_cons,Adjacent,UnitVector]
    grind

theorem keyDir_unit {k : UInt8} (h : keyDir k=some d) : UnitVector d := by
  unfold keyDir at h
  split at h
  · cases h; rfl
  split at h
  · cases h; rfl
  split at h
  · cases h; rfl
  split at h
  · cases h; rfl
  · cases h

theorem Ok.handleKey (h : Ok g s) (k : UInt8) : Ok g (handleKey k s) := by
  unfold Snake.handleKey
  cases hk : keyDir k with
  | none => exact h
  | some d =>
    dsimp only
    split
    · exact h
    · exact ⟨h.trail,h.food,h.length,h.dir,keyDir_unit hk⟩

theorem Ok.turned (h : Ok g s) : UnitVector (if s.next=back s.dir then s.dir else s.next) ∧
    (if s.next=back s.dir then s.dir else s.next)≠back s.dir := by
  split
  next => exact ⟨h.dir,h.dir.ne_back⟩
  next hback => exact ⟨h.next,hback⟩

theorem dropLast_getLastD (c d : Cell) (cs : List Cell) : (c::cs).dropLast++[(c::cs).getLastD d]=c::cs := by
  induction cs generalizing c d with
  | nil => rfl
  | cons e cs ih => rw [List.dropLast_cons_cons,List.cons_append,List.getLastD_cons,ih]

/-- The head has come to a free cell: nothing else moves, if the snake is taken one cell longer at its end. -/
theorem Ok.moved {head : Cell} (h : Ok g s) (hlive : s.dead=false) (hbody : s.body=c::cs) (hdir : UnitVector d) (hback : d≠back s.dir)
    (htrail : Trail g (head::c::cs))
    (hstep : (if head=s.food then eat g fuel { s with dir := d, body := head::(c::cs).dropLast }
        ((c::cs).getLastD (0,0)) else some { s with dir := d, body := head::(c::cs).dropLast })=some t) :
    Ok g t ∧ Stepped s t := by
  have hlen := h.length
  have hfood := h.food
  rw [hbody] at hlen hfood
  have hmoved : head::(c::cs).dropLast=(head::c::cs).dropLast := rfl
  rw [hmoved] at hstep
  split at hstep
  next heaten =>
    unfold eat at hstep
    split at hstep
    next =>
      obtain ⟨food,rng,rfl,hfree⟩ := placeFood_cases hstep
      refine ⟨⟨?_,hfree,?_,hdir,h.next⟩,hback,fun hdead => absurd hdead (by simp [hlive])⟩
      · dsimp only
        split
        · rw [← hmoved,List.cons_append,dropLast_getLastD]
          exact htrail
        · exact htrail.dropLast
      · dsimp only
        simp only [List.length_cons,MAX_LEN] at hlen
        split
        next hroom =>
          simp only [List.length_append,List.length_dropLast,List.length_cons,List.length_nil,MAX_LEN] at hroom ⊢
          omega
        next hfull =>
          simp only [List.length_dropLast,List.length_cons,MAX_LEN] at hfull ⊢
          omega
    next => cases hstep
  next hmiss =>
    cases hstep
    refine ⟨⟨htrail.dropLast,?_,?_,hdir,h.next⟩,hback,fun hdead => absurd hdead (by simp [hlive])⟩
    · intro hmem
      cases List.mem_cons.mp ((List.dropLast_sublist _).subset hmem) with
      | inl heq => exact hmiss heq.symm
      | inr hold => exact hfood hold
    · rw [List.length_dropLast,List.length_cons,Nat.add_sub_cancel]
      exact hlen

theorem Ok.step (h : Ok g s) (hstep : step g fuel s=some t) : Ok g t ∧ Stepped s t := by
  obtain ⟨hdir,hback⟩ := h.turned
  simp only [Snake.step] at hstep
  split at hstep
  next hdead =>
    cases hstep
    exact ⟨h,h.dir.ne_back,fun _ => rfl⟩
  next hlive =>
    generalize (if s.next=back s.dir then s.dir else s.next)=d at hstep hdir hback
    split at hstep
    next =>
      cases hstep
      exact ⟨⟨h.trail,h.food,h.length,hdir,h.next⟩,hback,fun _ => rfl⟩
    next hfree =>
      obtain ⟨hin,hnew⟩ := not_or.mp hfree
      cases hbody : s.body with
      | nil =>
        have hlen := h.length
        simp only [hbody,List.length_nil,MAX_LEN] at hlen
        omega
      | cons c cs =>
        rw [hbody] at hin hnew hstep
        have hadj : Adjacent (c.1+d.1,c.2+d.2) c := by
          unfold Adjacent UnitVector at *
          omega
        have htrail : Trail g ((c.1+d.1,c.2+d.2)::c::cs) :=
          (hbody ▸ h.trail).cons (not_not.mp hin) hnew hadj
        exact h.moved (Bool.not_eq_true _ ▸ hlive) hbody hdir hback htrail hstep

theorem Ok.play (hw : 4≤g.w) (hh : 1≤g.h) (h : Ok g s) (a : Input) (hplay : play g fuel s a=some t) : Ok g t := by
  cases a with
  | key k =>
    simp only [Snake.play] at hplay
    split at hplay
    · exact newGame_ok hw hh hplay
    · cases hplay
      exact h.handleKey k
  | tick => exact (h.step hplay).1

/-- After any input, on any grid of at least 4 by 1 cells. -/
theorem snake_invariant (hw : 4≤g.w) (hh : 1≤g.h) {inputs : List Input} (hrun : snakeRun g fuel rng inputs=some s) :
    Ok g s ∧ ∀ m t, step g m s=some t → Stepped s t := by
  obtain ⟨s₀,hstart,hrun⟩ := Option.bind_eq_some_iff.mp hrun
  have hok : Ok g s := runFrom_invariant (I := Ok g) (fun _ a _ h hplay => h.play hw hh a hplay)
    (newGame_ok hw hh hstart) hrun
  exact ⟨hok,fun m t hstep => (hok.step hstep).2⟩

theorem snake_invariant_mode13 : ∃ s, snakeRun ⟨40,25⟩ 9 0xA5A5 [.tick,.key 0x77,.tick]=some s ∧ Ok ⟨40,25⟩ s := by
  obtain ⟨s,hs⟩ : ∃ s, snakeRun ⟨40,25⟩ 9 0xA5A5 [.tick,.key 0x77,.tick]=some s :=
    Option.isSome_iff_exists.mp (by decide +kernel)
  exact ⟨s,hs,(snake_invariant (by decide) (by decide) hs).1⟩

end MyKernel.Snake
