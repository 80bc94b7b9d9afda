import MyKernel.Lib.Simulation
import MyKernel.Mlang.Lines

/-! The structured interpreter, and the script interpreter compared with it. -/
namespace MyKernel.Mlang
open CString MyKernel.Computation

def Simple (line : List UInt8) : Prop :=
  isIf (skipWs line)=false ∧ isWhile (skipWs line)=false ∧ isEnd (skipWs line)=false

instance (line : List UInt8) : Decidable (Simple line) := inferInstanceAs (Decidable (_ ∧ _ ∧ _))

/-- Every line is of the kind that its place in the tree asks for. -/
inductive Block where
  | nil
  | line (text : { line // Simple line }) (rest : Block)
  | ifs (header : { line // isIf (skipWs line) }) (body : Block) (close : { line // isEnd (skipWs line) })
    (rest : Block)
  | whiles (header : { line // isWhile (skipWs line) }) (body : Block) (close : { line // isEnd (skipWs line) })
    (rest : Block)

def Block.lines : Block → List (List UInt8)
  | .nil => []
  | .line text rest => text.1::rest.lines
  | .ifs header body close rest => header.1::(body.lines++close.1::rest.lines)
  | .whiles header body close rest => header.1::(body.lines++close.1::rest.lines)

/-- What happens in a run. The number is that of the iterations so far. -/
inductive Event where
  | iteration (n : Nat)
  | badCheck (n : Nat)
  | nested
  deriving DecidableEq, Repr

def event (e : Event) : Comp (With (List Event)) Unit := note fun g => g++[e]

def loop (cond : List UInt8) (body : Comp (With (List Event)) Int) : Nat → Nat → Comp (With (List Event)) Int
  | 0, _ => running
  | fuel+1, n => do
    match ← onState (condition cond) with
    | none => do
      event (.badCheck n)
      onState (fail "mlang: bad condition\n")
    | some false => pure 0
    | some true => do
      event (.iteration (n+1))
      if (← body)≠0 then pure (-1) else loop cond body fuel (n+1)

def branch (cond : List UInt8) (body rest : Comp (With (List Event)) Int) : Comp (With (List Event)) Int := do
  match ← onState (condition cond) with
  | none => onState (fail "mlang: bad condition\n")
  | some false => rest
  | some true => if (← body)≠0 then pure (-1) else rest

def reached (inLoop : Bool) : Comp (With (List Event)) Unit := if inLoop then event .nested else pure ()

def Block.interpret (fuel : Nat) : Block → Bool → Comp (With (List Event)) Int
  | .nil, _ => pure 0
  | .line text rest, inLoop => do
    if (← onState (mlangExecLine text.1))≠0 then pure (-1) else rest.interpret fuel inLoop
  | .ifs header body _ rest, inLoop => do
    reached inLoop
    branch (skipWs ((skipWs header.1).drop 2)) (body.interpret fuel inLoop) (rest.interpret fuel inLoop)
  | .whiles header body _ rest, inLoop => do
    reached inLoop
    if (← loop (skipWs ((skipWs header.1).drop 5)) (body.interpret fuel true) fuel 0)≠0 then pure (-1)
    else rest.interpret fuel inLoop

section Lines
variable {t : List UInt8}

theorem isIf_eq (h : isIf t=true) : ∃ r, t=0x69::0x66::r := by
  simp only [isIf,Bool.and_eq_true,beq_iff_eq] at h
  exact ⟨t.drop 2,(List.take_append_drop 2 t).symm.trans (by rw [h.1]; rfl)⟩

theorem isWhile_eq (h : isWhile t=true) : ∃ r, t=0x77::0x68::0x69::0x6C::0x65::r := by
  simp only [isWhile,startsWhile,Bool.and_eq_true,beq_iff_eq] at h
  exact ⟨t.drop 5,(List.take_append_drop 5 t).symm.trans (by rw [h.1]; rfl)⟩

theorem isEnd_of_isIf (h : isIf t=true) : isEnd t=false := by
  obtain ⟨r,rfl⟩ := isIf_eq h
  rfl

theorem isEnd_of_isWhile (h : isWhile t=true) : isEnd t=false := by
  obtain ⟨r,rfl⟩ := isWhile_eq h
  rfl

theorem isIf_of_isWhile (h : isWhile t=true) : isIf t=false := by
  obtain ⟨r,rfl⟩ := isWhile_eq h
  rfl

theorem not_blank_of_header (h : isIf t=true ∨ isWhile t=true) : ¬ (t=[] ∨ t.headD 0=0x23) := by
  rcases h with h | h
  · obtain ⟨r,rfl⟩ := isIf_eq h
    simp
  · obtain ⟨r,rfl⟩ := isWhile_eq h
    simp

theorem isEnd_opens (h : isEnd t=true) : (isIf t || isWhile t)=false := by
  rw [isEnd,beq_iff_eq] at h
  rw [h]
  rfl

end Lines

theorem findEnd_lines (P : Block) (depth : Nat) (tail : List (List UInt8)) :
    findEnd (depth+1) (P.lines++tail) =
      (findEnd (depth+1) tail).map fun found => (P.lines++found.1,found.2) := by
  induction P generalizing depth tail with
  | nil => simp [Block.lines]
  | line text rest ih =>
    obtain ⟨text,hi,hw,he⟩ := text
    simp [Block.lines,findEnd,hi,hw,he,ih,Function.comp_def]
  | ifs header body close rest ihb ihr | whiles header body close rest ihb ihr =>
    have hopens : (isIf (skipWs header.1) || isWhile (skipWs header.1))=true := by simp [header.2]
    simp [Block.lines,findEnd,hopens,ihb,ihr,isEnd_opens close.2,close.2,Function.comp_def]

theorem findEnd_body (body rest : Block) (close : { line // isEnd (skipWs line) }) :
    findEnd 1 (body.lines++close.1::rest.lines)=some (body.lines,rest.lines) := by
  rw [findEnd_lines body 0]
  simp [findEnd,isEnd_opens close.2,close.2]

/-- No loop makes more than 10000 iterations or reaches a block, and every condition can be evaluated after 10000. -/
structure Good (g : List Event) : Prop where
  loops : ∀ n, Event.iteration n∈g → n≤10000
  nested : Event.nested∉g
  check : Event.badCheck 10000∉g

def GoodRun (t : With (List Event)) : Prop := Good t.ghost

def SameState (s : With Trace) (t : With (List Event)) : Prop := s.state=t.state

theorem condition_state (cond : List UInt8) (s : State) : (condition cond s).2=s := by
  simp only [condition,state_bind]
  cases evalCondition s.vars cond <;> rfl

section Rules
variable {α : Type} {e : Event} {x x' : Comp (With Trace) Int} {y y' : Comp (With (List Event)) Int}

theorem Good.of_append {g : List Event} (h : Good (g++[e])) : Good g :=
  ⟨fun n hn => h.loops n (List.mem_append_left _ hn),fun hn => h.nested (List.mem_append_left _ hn),
    fun hn => h.check (List.mem_append_left _ hn)⟩

theorem reflects_onState (x : Comp State α) : Reflects GoodRun (onState x) := by
  intro t a t' h hgood
  rw [← (Prod.mk.inj h).2] at hgood
  exact hgood

theorem reflects_event (e : Event) : Reflects GoodRun (event e) := by
  intro t a t' h hgood
  rw [← (Prod.mk.inj h).2] at hgood
  exact Good.of_append hgood

theorem reflects_next (hy : Reflects GoodRun y) (hy' : Reflects GoodRun y') :
    Reflects GoodRun (do if (← y)≠0 then pure (-1) else y') :=
  hy.bind fun _ => (reflects_pure _).ite hy'

theorem follows_onState (x : Comp State α) : Follows SameState GoodRun (onState x) (onState x) := by
  intro s t a t' hs h _
  have hrun : x s.state=(some a,t'.state) := by
    rw [show s.state=t.state from hs]
    exact Prod.ext (Prod.mk.inj h).1 (congrArg With.state (Prod.mk.inj h).2)
  exact ⟨⟨t'.state,s.ghost⟩,by simp [onState,hrun],rfl⟩

theorem follows_next (h : Follows SameState GoodRun x y) (hy' : Reflects GoodRun y')
    (h' : Follows SameState GoodRun x' y') :
    Follows SameState GoodRun (do if (← x)≠0 then pure (-1) else x')
      (do if (← y)≠0 then pure (-1) else y') :=
  h.bind (fun _ => (reflects_pure _).ite hy') fun _ => (follows_pure _).ite h'

theorem follows_note (f : Trace → Trace) (h : Follows SameState GoodRun x y) :
    Follows SameState GoodRun (note f >>= fun _ => x) y :=
  fun s t a t' hs hrun hgood => h ⟨s.state,f s.ghost⟩ t a t' hs hrun hgood

theorem follows_event (e : Event) (h : Follows SameState GoodRun x y) :
    Follows SameState GoodRun x (event e >>= fun _ => y) :=
  fun s t a t' hs hrun hgood => h s ⟨t.state,t.ghost++[e]⟩ a t' hs hrun hgood

theorem follows_bad (he : ∀ g, ¬ Good (g++[e])) (hy : Reflects GoodRun y) :
    Follows SameState GoodRun x (event e >>= fun _ => y) :=
  fun _ t a t' _ hrun hgood => absurd (hy ⟨t.state,t.ghost++[e]⟩ a t' hrun hgood) (he t.ghost)

theorem follows_look (cond : List UInt8) {g : Option Bool → Comp (With (List Event)) Int}
    (h : ∀ b, Follows SameState GoodRun x (g b)) : Follows SameState GoodRun x (onState (condition cond) >>= g) := by
  intro s t a t' hs hrun hgood
  obtain ⟨b,u,hcond,hrun⟩ := bind_ended hrun
  have hu : u=t := by
    rw [← (Prod.mk.inj hcond).2,condition_state]
  rw [hu] at hrun
  exact h b s t a t' hs hrun hgood

end Rules

theorem reflects_loop (cond : List UInt8) {body : Comp (With (List Event)) Int} (hbody : Reflects GoodRun body)
    (fuel n : Nat) : Reflects GoodRun (loop cond body fuel n) := by
  induction fuel generalizing n with
  | zero => exact reflects_running
  | succ fuel ih =>
    refine (reflects_onState _).bind ?_
    intro b
    match b with
    | none => exact (reflects_event _).bind fun _ => reflects_onState _
    | some false => exact reflects_pure _
    | some true => exact (reflects_event _).bind fun _ => reflects_next hbody (ih (n+1))

theorem reflects_branch (cond : List UInt8) {body rest : Comp (With (List Event)) Int}
    (hbody : Reflects GoodRun body) (hrest : Reflects GoodRun rest) : Reflects GoodRun (branch cond body rest) := by
  refine (reflects_onState _).bind ?_
  intro b
  match b with
  | none => exact reflects_onState _
  | some false => exact hrest
  | some true => exact reflects_next hbody hrest

theorem reflects_reached (inLoop : Bool) : Reflects GoodRun (reached inLoop) := by
  cases inLoop with
  | false => exact reflects_pure _
  | true => exact reflects_event _

theorem reflects_interpret (fuel : Nat) (P : Block) (inLoop : Bool) : Reflects GoodRun (P.interpret fuel inLoop) := by
  induction P generalizing inLoop with
  | nil => exact reflects_pure _
  | line text rest ih => exact reflects_next (reflects_onState _) (ih inLoop)
  | ifs header body close rest ihb ihr =>
    exact (reflects_reached inLoop).bind fun _ => reflects_branch _ (ihb inLoop) (ihr inLoop)
  | whiles header body close rest ihb ihr =>
    exact (reflects_reached inLoop).bind fun _ => reflects_next (reflects_loop _ (ihb true) fuel 0) (ihr inLoop)

def Code (y : Comp (With (List Event)) Int) : Prop := ∀ t a t', y t=(some a,t') → a=0 ∨ a = -1

theorem code_pure {r : Int} (h : r=0 ∨ r = -1) : Code (pure r) := by
  intro t a t' hrun
  rw [← Option.some_inj.mp (Prod.mk.inj hrun).1]
  exact h

theorem code_bind {α : Type} {y : Comp (With (List Event)) α} {g : α → Comp (With (List Event)) Int}
    (h : ∀ a, Code (g a)) : Code (y >>= g) := by
  intro t a t' hrun
  obtain ⟨b,u,_,hga⟩ := bind_ended hrun
  exact h b u a t' hga

theorem code_next {y y' : Comp (With (List Event)) Int} (h : Code y') :
    Code (do if (← y)≠0 then pure (-1) else y') := by
  apply code_bind
  intro r
  by_cases hr : r≠0
  · rw [if_pos hr]
    exact code_pure (.inr rfl)
  · rw [if_neg hr]
    exact h

theorem code_fail (message : String) : Code (onState (fail message)) := by
  intro t a t' hrun
  exact .inr (Option.some_inj.mp (Prod.mk.inj hrun).1).symm

theorem code_interpret (fuel : Nat) (P : Block) (inLoop : Bool) : Code (P.interpret fuel inLoop) := by
  induction P generalizing inLoop with
  | nil => exact code_pure (.inl rfl)
  | line text rest ih => exact code_next (ih inLoop)
  | ifs header body close rest ihb ihr =>
    refine code_bind fun _ => code_bind ?_
    intro b
    match b with
    | none => exact code_fail _
    | some false => exact ihr inLoop
    | some true => exact code_next (ihr inLoop)
  | whiles header body close rest ihb ihr => exact code_bind fun _ => code_next (ihr inLoop)

theorem follows_execLines (fuel : Nat) (P : Block) :
    Follows SameState GoodRun (execLines P.lines) (P.interpret fuel true) := by
  have hnested : ∀ g, ¬ Good (g++[Event.nested]) := fun g h => h.nested (by simp)
  have hreflects (P : Block) := reflects_interpret fuel P true
  induction P with
  | nil => exact follows_pure _
  | line text rest ih => exact follows_next (follows_onState _) (hreflects rest) ih
  | ifs header body close rest _ _ =>
    exact follows_bad hnested (reflects_branch _ (hreflects body) (hreflects rest))
  | whiles header body close rest _ _ =>
    exact follows_bad hnested (reflects_next (reflects_loop _ (hreflects body) _ _) (hreflects rest))

/-- A loop of at most 10000 iterations is run as the tree asks for, if its condition is seen to be false at its end.
-/
theorem follows_whileLoop (cond : List UInt8) (fuel : Nat) (P : Block) {k n : Nat} (m : Nat) (checks : List Bool)
    (hk : n+k=10000) :
    Follows SameState GoodRun (whileLoop cond P.lines k checks) (loop cond (P.interpret fuel true) m n) := by
  have hbody := reflects_interpret fuel P true
  induction m generalizing k n checks with
  | zero => exact follows_running
  | succ m ih =>
    cases k with
    | zero =>
      -- the code leaves the loop here, the tree looks at the condition once more
      refine follows_look cond ?_
      intro b
      match b with
      | none => exact follows_bad (fun g h => h.check (by simp [← hk])) (reflects_onState _)
      | some false => exact follows_note _ (follows_pure 0)
      | some true =>
        refine follows_bad ?_ (reflects_next hbody (reflects_loop _ hbody m (n+1)))
        intro g h
        have := h.loops (n+1) (by simp)
        omega
    | succ k =>
      refine (follows_onState _).bind ?_ ?_
      · intro b
        match b with
        | none => exact (reflects_event _).bind fun _ => reflects_onState _
        | some false => exact reflects_pure _
        | some true => exact (reflects_event _).bind fun _ => reflects_next hbody (reflects_loop _ hbody m (n+1))
      · intro b
        match b with
        | none => exact follows_event _ (follows_onState _)
        | some false => exact follows_note _ (follows_pure 0)
        | some true =>
          exact follows_event _ (follows_next (follows_execLines fuel P) (reflects_loop _ hbody m (n+1))
            (ih (checks++[true]) (by omega)))

theorem execFrom_simple {line : List UInt8} (h : Simple line) (lines : List (List UInt8)) (n : Nat) :
    execFrom (n+1) (line::lines) =
      (do if (← onState (mlangExecLine line))≠0 then pure (-1) else execFrom n lines) := by
  obtain ⟨hi,hw,he⟩ := h
  by_cases hblank : skipWs line=[] ∨ (skipWs line).headD 0=0x23
  · simp only [execFrom,mlangExecLine,if_pos hblank]
    rfl
  · simp only [execFrom,if_neg hblank,hi,hw,he,Bool.false_eq_true,if_false]

theorem execFrom_if {header : List UInt8} (h : isIf (skipWs header)=true) {lines body after : List (List UInt8)}
    (hend : findEnd 1 lines=some (body,after)) (n : Nat) :
    execFrom (n+1) (header::lines)=(do
      match ← onState (condition (skipWs ((skipWs header).drop 2))) with
      | none => onState (fail "mlang: bad condition\n")
      | some false => execFrom n after
      | some true =>
        if (← ifBody (fun lines => callScript (execFrom n) lines (assemble lines)) body)≠0 then pure (-1)
        else execFrom n after) := by
  simp only [execFrom,if_neg (not_blank_of_header (.inl h)),isEnd_of_isIf h,h,hend,if_true,Bool.false_eq_true,
    if_false]
  congr 1
  funext b
  match b with
  | none => rfl
  | some false => rfl
  | some true => rfl

theorem execFrom_while {header : List UInt8} (h : isWhile (skipWs header)=true)
    {lines body after : List (List UInt8)} (hend : findEnd 1 lines=some (body,after)) (n : Nat) :
    execFrom (n+1) (header::lines)=(do
      if (← whileLoop (skipWs ((skipWs header).drop 5)) body 10000 [])≠0 then pure (-1) else execFrom n after) := by
  simp only [execFrom,if_neg (not_blank_of_header (.inr h)),isEnd_of_isWhile h,isIf_of_isWhile h,h,hend,if_true,
    Bool.false_eq_true,if_false]

section Paths
variable {fuel n : Nat} {P body rest : Block}

theorem follows_opening {line : List UInt8} {lines : List (List UInt8)} (hP : P.lines=line::lines)
    (hopens : (isIf (skipWs line) || startsWhile (skipWs line))=true) (hfits : Fits 63 P.lines)
    (h : Follows SameState GoodRun (execFrom n P.lines) (P.interpret fuel false)) :
    Follows SameState GoodRun (ifBody (fun lines => callScript (execFrom n) lines (assemble lines)) P.lines)
      (P.interpret fuel false) := by
  have hcall : Follows SameState GoodRun (callScript (execFrom n) P.lines (assemble P.lines))
      (P.interpret fuel false) := by
    rw [callScript,splitLines_assemble hfits]
    exact follows_note _ h
  intro s t a t' hs hrun hgood
  obtain ⟨s',hrest,hs'⟩ := hcall s t a t' hs hrun hgood
  refine ⟨s',?_,hs'⟩
  rw [hP] at hrest
  rw [hP,ifBody,if_pos hopens,bind_some hrest]
  rcases code_interpret fuel P false t a t' hrun with rfl | rfl <;> rfl

theorem follows_simple (text : { line // Simple line })
    (hrest : Follows SameState GoodRun (execFrom n rest.lines) (rest.interpret fuel false)) :
    Follows SameState GoodRun (execFrom (n+1) (Block.line text rest).lines)
      ((Block.line text rest).interpret fuel false) := by
  rw [Block.lines,execFrom_simple text.2]
  exact follows_next (follows_onState _) (reflects_interpret fuel rest false) hrest

theorem follows_ifs (header : { line // isIf (skipWs line) }) (close : { line // isEnd (skipWs line) })
    (hbody : Follows SameState GoodRun
      (ifBody (fun lines => callScript (execFrom n) lines (assemble lines)) body.lines) (body.interpret fuel false))
    (hrest : Follows SameState GoodRun (execFrom n rest.lines) (rest.interpret fuel false)) :
    Follows SameState GoodRun (execFrom (n+1) (Block.ifs header body close rest).lines)
      ((Block.ifs header body close rest).interpret fuel false) := by
  have hreflects (P : Block) := reflects_interpret fuel P false
  rw [Block.lines,execFrom_if header.2 (findEnd_body body rest close)]
  refine (follows_onState (condition (skipWs ((skipWs header.1).drop 2)))).bind ?_ ?_
  · intro b
    match b with
    | none => exact reflects_onState _
    | some false => exact hreflects rest
    | some true => exact reflects_next (hreflects body) (hreflects rest)
  · intro b
    match b with
    | none => exact follows_onState _
    | some false => exact hrest
    | some true => exact follows_next hbody (hreflects rest) hrest

theorem follows_whiles (header : { line // isWhile (skipWs line) }) (close : { line // isEnd (skipWs line) })
    (hrest : Follows SameState GoodRun (execFrom n rest.lines) (rest.interpret fuel false)) :
    Follows SameState GoodRun (execFrom (n+1) (Block.whiles header body close rest).lines)
      ((Block.whiles header body close rest).interpret fuel false) := by
  rw [Block.lines,execFrom_while header.2 (findEnd_body body rest close)]
  exact follows_next (follows_whileLoop _ fuel body fuel [] rfl) (reflects_interpret fuel rest false) hrest

end Paths

/-- The script and the body of an if. The induction is on the tree for both at once: a body goes over to the first
where it meets a block. -/
theorem follows_script (fuel : Nat) (P : Block) (n : Nat) (hn : P.lines.length<n) :
    (Fits 64 P.lines → Follows SameState GoodRun (execFrom n P.lines) (P.interpret fuel false)) ∧
    (Fits 63 P.lines → Follows SameState GoodRun
      (ifBody (fun lines => callScript (execFrom n) lines (assemble lines)) P.lines) (P.interpret fuel false)) := by
  induction P generalizing n with
  | nil =>
    obtain ⟨n,rfl⟩ := Nat.exists_eq_add_of_lt hn
    exact ⟨fun _ => follows_pure 0,fun _ => follows_pure 0⟩
  | line text rest ih =>
    obtain ⟨n,rfl⟩ : ∃ m, n=m+1 := ⟨n-1,by omega⟩
    simp only [Block.lines,List.length_cons] at hn
    have hscript (hfits : Fits 64 (Block.line text rest).lines) :=
      follows_simple text ((ih n (by omega)).1 (hfits.tail.mono (by omega)))
    refine ⟨hscript,?_⟩
    intro hfits
    by_cases hopens : (isIf (skipWs text.1) || startsWhile (skipWs text.1))=true
    · exact follows_opening rfl hopens hfits (hscript (hfits.mono (by omega)))
    · rw [Block.lines,ifBody,if_neg hopens]
      exact follows_next (follows_onState _) (reflects_interpret fuel rest false)
        ((ih (n+1) (by omega)).2 (hfits.tail.mono (by omega)))
  | ifs header body close rest ihb ihr =>
    obtain ⟨n,rfl⟩ : ∃ m, n=m+1 := ⟨n-1,by omega⟩
    simp only [Block.lines,List.length_cons,List.length_append] at hn
    have hscript (hfits : Fits 64 (Block.ifs header body close rest).lines) :=
      follows_ifs header close ((ihb n (by omega)).2 (hfits.tail.split.1.mono (by omega)))
        ((ihr n (by omega)).1 (hfits.tail.split.2.mono (by omega)))
    exact ⟨hscript,fun hfits => follows_opening rfl (by simp [header.2]) hfits (hscript (hfits.mono (by omega)))⟩
  | whiles header body close rest ihb ihr =>
    obtain ⟨n,rfl⟩ : ∃ m, n=m+1 := ⟨n-1,by omega⟩
    simp only [Block.lines,List.length_cons,List.length_append] at hn
    have hopens : startsWhile (skipWs header.1)=true := (Bool.and_eq_true_iff.mp header.2).1
    have hscript (hfits : Fits 64 (Block.whiles header body close rest).lines) :
        Follows SameState GoodRun (execFrom (n+1) (Block.whiles header body close rest).lines)
          ((Block.whiles header body close rest).interpret fuel false) :=
      follows_whiles header close ((ihr n (by omega)).1 (hfits.tail.split.2.mono (by omega)))
    exact ⟨hscript,fun hfits => follows_opening rfl (by simp [hopens]) hfits (hscript (hfits.mono (by omega)))⟩

/-- A script that fits the table is run as its tree of blocks asks for, with the same output, variables and return
code, if no loop needs more than 10000 iterations, no block is reached in the body of a loop, and no condition fails
to be evaluated right after iteration 10000. -/
theorem exec_script_structured (text : CStr) (P : Block) (hP : P.lines=linesOf text.bytes)
    (hcount : (linesOf text.bytes).length≤64) (hlength : ∀ line∈linesOf text.bytes, line.length≤127)
    (s : State) (r : Int) (t : With (List Event))
    (hrun : Returns (fun fuel => P.interpret fuel false) ⟨s,[]⟩ r t)
    (hloops : ∀ n, Event.iteration n∈t.ghost → n≤10000)
    (hnested : Event.nested∉t.ghost) (hcheck : Event.badCheck 10000∉t.ghost) (trace : Trace) :
    ∃ trace', Returns (fun fuel => mlangExecScript fuel text.bytes) ⟨s,trace⟩ r ⟨t.state,trace'⟩ := by
  obtain ⟨fuel,hrun⟩ := hrun
  have hfits : Fits 64 P.lines := by
    rw [hP]
    exact ⟨hcount,fun line hline => ⟨hlength line hline,newline_notMem_linesOf line hline⟩⟩
  have hscript := (follows_script fuel P (P.lines.length+1) (Nat.lt_succ_self _)).1 hfits
  have hcall : Follows SameState GoodRun (mlangExecScript (P.lines.length+1) text.bytes)
      (P.interpret fuel false) := by
    rw [mlangExecScript,callScript,splitLines_eq_iff.mpr ⟨hcount,hlength⟩,← hP]
    exact follows_note _ hscript
  obtain ⟨⟨u,trace'⟩,hrun',rfl⟩ := hcall ⟨s,trace⟩ ⟨s,[]⟩ r t rfl hrun ⟨hloops,hnested,hcheck⟩
  exact ⟨trace',P.lines.length+1,hrun'⟩

/-- `if x` with a loop in it. -/
def countdown : Block :=
  .line ⟨ascii "x = 2",by decide⟩
    (.ifs ⟨ascii "if x > 1",by decide⟩
      (.line ⟨ascii "print x",by decide⟩
        (.whiles ⟨ascii "  while x > 0",by decide⟩ (.line ⟨ascii "x = x - 1",by decide⟩ .nil)
          ⟨ascii "  end",by decide⟩ .nil))
      ⟨ascii "end",by decide⟩ .nil)

theorem exec_script_structured_countdown :
    ∃ trace', Returns (fun fuel => mlangExecScript fuel (ascii
        "x = 2\nif x > 1\nprint x\n  while x > 0\nx = x - 1\n  end\nend\n"))
      ⟨⟨[],[]⟩,⟨false,[]⟩⟩ 0 ⟨⟨[(ascii "x",0)],[.int 2,.char 0x0A]⟩,trace'⟩ :=
  exec_script_structured ⟨ascii "x = 2\nif x > 1\nprint x\n  while x > 0\nx = x - 1\n  end\nend\n",by decide⟩
    countdown (by decide +kernel) (by decide +kernel) (by decide +kernel) ⟨[],[]⟩ 0
    ⟨⟨[(ascii "x",0)],[.int 2,.char 0x0A]⟩,[.iteration 1,.iteration 2]⟩ ⟨10,by decide +kernel⟩
    (by
      intro n hn
      simp only [List.mem_cons,Event.iteration.injEq,List.not_mem_nil,or_false] at hn
      omega)
    (by decide) (by decide) ⟨false,[]⟩

def ifInLoop : Block :=
  .whiles ⟨ascii "while x < 1",by decide⟩
    (.ifs ⟨ascii "if 1",by decide⟩ (.line ⟨ascii "x = 1",by decide⟩ .nil) ⟨ascii "end",by decide⟩ .nil)
    ⟨ascii "end",by decide⟩ .nil

/-- An if in the body of a loop is a syntax error. -/
theorem exec_script_not_structured :
    ¬ ∀ (text : CStr) (P : Block), P.lines=linesOf text.bytes → (linesOf text.bytes).length≤64 →
      (∀ line∈linesOf text.bytes, line.length≤127) → ∀ (s : State) (r : Int) (t : With (List Event)),
      Returns (fun fuel => P.interpret fuel false) ⟨s,[]⟩ r t → t.state.vars.length≤MAX_VARS →
      (∀ n, Event.iteration n∈t.ghost → n≤10000) → ∀ trace,
      ∃ trace', Returns (fun fuel => mlangExecScript fuel text.bytes) ⟨s,trace⟩ r ⟨t.state,trace'⟩ := by
  intro h
  let text : List UInt8 := ascii "while x < 1\nif 1\nx = 1\nend\nend\n"
  have htree : Returns (fun fuel => ifInLoop.interpret fuel false) ⟨⟨[],[]⟩,[]⟩ 0
      ⟨⟨[(ascii "x",1)],[]⟩,[.iteration 1,.nested]⟩ := ⟨10,by decide +kernel⟩
  have hcode : Returns (fun fuel => mlangExecScript fuel text) ⟨⟨[],[]⟩,⟨false,[]⟩⟩ (-1)
      ⟨⟨[],(ascii "mlang: syntax error\n").map Out.char⟩,⟨false,[]⟩⟩ := ⟨10,by decide +kernel⟩
  obtain ⟨trace',hsame⟩ := h ⟨text,by decide⟩ ifInLoop (by decide +kernel) (by decide +kernel) (by decide +kernel)
    ⟨[],[]⟩ 0 _ htree (by decide) (by
      intro n hn
      simp only [List.mem_cons,Event.iteration.injEq,List.not_mem_nil,or_false,reduceCtorEq] at hn
      omega) ⟨false,[]⟩
  exact absurd (hcode.unique (mlangExecScript_mono text) hsame).1 (by decide)

end MyKernel.Mlang
