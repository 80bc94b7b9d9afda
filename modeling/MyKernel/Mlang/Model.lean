import MyKernel.Calc.Model
import MyKernel.Lib.Comp
import MyKernel.Lib.CString

/-! The interpreter of `mlang.c`. Only variables in use are kept. The output is the sequence of terminal calls. A
divide exception does not return. -/
namespace MyKernel.Mlang
open CString MyKernel.Computation

def MAX_VARS : Nat := 32
def MAX_NAME : Nat := 16
def MAX_LINE : Nat := 128
def MAX_LINES : Nat := 64

inductive Out where
  | char (c : UInt8)
  | int (v : Int)
  deriving DecidableEq, Repr

structure State where
  vars : List (List UInt8 × Int)
  out : List Out
  deriving DecidableEq, Repr

def skipWs (p : List UInt8) : List UInt8 := p.dropWhile fun c => c == 0x20 || c == 0x09

def isIdentStart (c : UInt8) : Bool := (0x61≤c && c≤0x7A) || (0x41≤c && c≤0x5A) || c == 0x5F

def isIdent (c : UInt8) : Bool := isIdentStart c || (0x30≤c && c≤0x39)

def takeName (p : List UInt8) : List UInt8 × List UInt8 :=
  let name := (p.takeWhile isIdent).take (MAX_NAME-1)
  (name,p.drop name.length)

def varFind (vars : List (List UInt8 × Int)) (name : List UInt8) : Option Int :=
  (vars.find? fun v => v.1 == name).map Prod.snd

def replaceFirst (name : List UInt8) (value : Int) : List (List UInt8 × Int) → List (List UInt8 × Int)
  | [] => []
  | v::vars => if v.1=name then (name,value)::vars else v::replaceFirst name value vars

def varSet (vars : List (List UInt8 × Int)) (name : List UInt8) (value : Int) : Option (List (List UInt8 × Int)) :=
  if (varFind vars name).isSome then some (replaceFirst name value vars)
  else if vars.length<MAX_VARS then some (vars++[(name,value)])
  else none

/-- `fail` is the result -1. -/
inductive Eval (α : Type) where
  | fail
  | trap
  | value (a : α)
  deriving DecidableEq, Repr

def Eval.bind {α β : Type} (x : Eval α) (f : α → Eval β) : Eval β :=
  match x with
  | .fail => .fail
  | .trap => .trap
  | .value a => f a

def decimalLoop : Nat → Nat → List UInt8 → List UInt8
  | 0, _, text => text
  | n+1, u, text => if u=0 then text else decimalLoop n (u/10) ((48+u%10).toUInt8::text)

def decimal (u : Nat) : List UInt8 := if u=0 then [0x30] else decimalLoop 20 u []

def numberText (val : Int) : List UInt8 := if val<0 then 0x2D::decimal (-val).toNat else decimal val.toNat

/-- Every pass takes at least one byte off the expression, so the fuel is its length. -/
def expandLoop (vars : List (List UInt8 × Int)) : Nat → List UInt8 → List UInt8 → Option (List UInt8)
  | _, [], out => some out
  | 0, _::_, _ => none
  | n+1, c::cs, out =>
    if isIdentStart c then
      let out := out++numberText ((varFind vars (takeName (c::cs)).1).getD 0)
      if out.length<128 then expandLoop vars n (takeName (c::cs)).2 out else none
    else if out.length+1<128 then expandLoop vars n cs (out++[c])
    else none

def expandExpr (vars : List (List UInt8 × Int)) (expr : List UInt8) : Option (List UInt8) :=
  expandLoop vars expr.length expr []

def evalExpr (vars : List (List UInt8 × Int)) (expr : List UInt8) : Eval Int :=
  match expandExpr vars expr with
  | none => .fail
  | some buf => match Calc.calcEval buf with
    | .running => .trap
    | .trap _ => .trap
    | .value v pr => if pr.error then .fail else .value v

inductive Op where
  | eq | ne | le | ge | lt | gt
  deriving DecidableEq, Repr

def Op.holds : Op → Int → Int → Bool
  | .eq, a, b => a == b
  | .ne, a, b => a != b
  | .le, a, b => a≤b
  | .ge, a, b => b≤a
  | .lt, a, b => a<b
  | .gt, a, b => b<a

/-- The first operator with the text on its two sides. -/
def findOp : List UInt8 → Option (List UInt8 × Op × List UInt8)
  | [] => none
  | c::cs =>
    if c=0x3D ∧ cs.headD 0=0x3D then some ([],.eq,cs.tail)
    else if c=0x21 ∧ cs.headD 0=0x3D then some ([],.ne,cs.tail)
    else if c=0x3C ∧ cs.headD 0=0x3D then some ([],.le,cs.tail)
    else if c=0x3E ∧ cs.headD 0=0x3D then some ([],.ge,cs.tail)
    else if c=0x3C then some ([],.lt,cs)
    else if c=0x3E then some ([],.gt,cs)
    else (findOp cs).map fun found => (c::found.1,found.2)

def evalCondition (vars : List (List UInt8 × Int)) (cond : List UInt8) : Eval Bool :=
  let p := skipWs cond
  match findOp p with
  | none => (evalExpr vars p).bind fun v => .value (v != 0)
  | some (left,op,right) =>
    (evalExpr vars (left.take 63)).bind fun a =>
      (evalExpr vars (right.take 63)).bind fun b => .value (op.holds a b)

def emit (out : List Out) : Comp State Unit := update fun s => { s with out := s.out++out }

def say (message : String) : Comp State Unit := emit ((ascii message).map Out.char)

def fail (message : String) : Comp State Int := do
  say message
  pure (-1)

def blankAt (p : List UInt8) (i : Nat) : Bool := p.getD i 0 == 0x20 || p.getD i 0 == 0x09

def isPrint (p : List UInt8) : Bool := p.take 5 == ascii "print" && (blankAt p 5 || p.length == 5)

def execPrint (p : List UInt8) : Comp State Int := do
  if p.headD 0=0x22 then
    emit ((p.tail.takeWhile fun c => c != 0x22).map Out.char++[.char 0x0A])
    pure 0
  else
    let s ← state
    match evalExpr s.vars p with
    | .fail => fail "mlang: bad expression\n"
    | .trap => running
    | .value v => do
      emit [.int v,.char 0x0A]
      pure 0

def execAssign (name q : List UInt8) : Comp State Int := do
  let s ← state
  match evalExpr s.vars q with
  | .fail => fail "mlang: bad expression\n"
  | .trap => running
  | .value v => match varSet s.vars name v with
    | none => fail "mlang: too many variables\n"
    | some vars => do
      update fun s => { s with vars }
      pure 0

def mlangExecLine (line : List UInt8) : Comp State Int :=
  let p := skipWs line
  let q := skipWs (takeName p).2
  if p=[] ∨ p.headD 0=0x23 then pure 0
  else if isPrint p then execPrint (skipWs (p.drop 5))
  else if isIdentStart (p.headD 0) ∧ q.headD 0=0x3D then execAssign (takeName p).1 (skipWs q.tail)
  else fail "mlang: syntax error\n"

/-- A state with a record that the source does not keep. -/
structure With (γ : Type) where
  state : State
  ghost : γ
  deriving DecidableEq, Repr

variable {γ α : Type}

def onState (x : Comp State α) : Comp (With γ) α :=
  fun m => ((x m.state).1,{ m with state := (x m.state).2 })

def note (f : γ → γ) : Comp (With γ) Unit := update fun m => { m with ghost := f m.ghost }

/-- `none` is a condition that cannot be evaluated. -/
def condition (cond : List UInt8) : Comp State (Option Bool) := do
  let s ← state
  match evalCondition s.vars cond with
  | .fail => pure none
  | .trap => running
  | .value b => pure (some b)

/-- Whether the lines of a script were not those it was given, and for every loop that was left the values of its
condition. -/
structure Trace where
  cut : Bool
  loops : List (List Bool)
  deriving DecidableEq, Repr

def skipNewline : List UInt8 → List UInt8
  | [] => []
  | c::cs => if c=0x0A then cs else c::cs

def firstLine (text : List UInt8) : List UInt8 := (text.takeWhile fun c => c != 0x0A).take (MAX_LINE-1)

def splitLoop : Nat → List UInt8 → List (List UInt8)
  | 0, _ => []
  | n+1, text =>
    if text=[] then []
    else firstLine text::splitLoop n (skipNewline (text.drop (firstLine text).length))

def splitLines (text : List UInt8) : List (List UInt8) := splitLoop MAX_LINES text

def linesOf : List UInt8 → List (List UInt8)
  | [] => []
  | c::cs =>
    if c=0x0A then []::linesOf cs
    else match linesOf cs with
      | [] => [[c]]
      | line::lines => (c::line)::lines

/-- A buffer of 8192 bytes, of which `so` are in use. -/
def assembleLoop : Nat → List (List UInt8) → List UInt8
  | _, [] => []
  | so, line::lines =>
    if so+line.length+2≥MAX_LINES*MAX_LINE then []
    else line++0x0A::assembleLoop (so+line.length+1) lines

def assemble (lines : List (List UInt8)) : List UInt8 := assembleLoop 0 lines

def isIf (t : List UInt8) : Bool := t.take 2 == ascii "if" && blankAt t 2

def startsWhile (t : List UInt8) : Bool := t.take 5 == ascii "while"

def isWhile (t : List UInt8) : Bool := startsWhile t && blankAt t 5

def isEnd (t : List UInt8) : Bool := t == ascii "end"

/-- The lines before the `end` that closes `depth` open blocks, and those after it. -/
def findEnd : Nat → List (List UInt8) → Option (List (List UInt8) × List (List UInt8))
  | _, [] => none
  | depth, line::lines =>
    let t := skipWs line
    if isIf t || isWhile t then (findEnd (depth+1) lines).map fun found => (line::found.1,found.2)
    else if isEnd t then
      if depth-1=0 then some ([],lines)
      else (findEnd (depth-1) lines).map fun found => (line::found.1,found.2)
    else (findEnd depth lines).map fun found => (line::found.1,found.2)

/-- The body of a loop: every line is a simple one. -/
def execLines : List (List UInt8) → Comp (With γ) Int
  | [] => pure 0
  | line::lines => do
    if (← onState (mlangExecLine line))≠0 then pure (-1) else execLines lines

def leaveLoop (checks : List Bool) : Comp (With Trace) Int := do
  note fun g => { g with loops := g.loops++[checks] }
  pure 0

/-- `n` iterations are left, and `checks` are the values of the condition so far. -/
def whileLoop (cond : List UInt8) (body : List (List UInt8)) : Nat → List Bool → Comp (With Trace) Int
  | 0, checks => leaveLoop checks
  | n+1, checks => do
    match ← onState (condition cond) with
    | none => onState (fail "mlang: bad condition\n")
    | some false => leaveLoop (checks++[false])
    | some true =>
      if (← execLines body)≠0 then pure (-1) else whileLoop cond body n (checks++[true])

/-- From the first line that may open a block the rest is run as a script. -/
def ifBody (sub : List (List UInt8) → Comp (With Trace) Int) : List (List UInt8) → Comp (With Trace) Int
  | [] => pure 0
  | line::lines =>
    let t := skipWs line
    if isIf t || startsWhile t then do
      if (← sub (line::lines))≠0 then pure (-1) else pure 0
    else do
      if (← onState (mlangExecLine line))≠0 then pure (-1) else ifBody sub lines

def callScript (run : List (List UInt8) → Comp (With Trace) Int) (lines : List (List UInt8)) (text : List UInt8) :
    Comp (With Trace) Int := do
  note fun g => { g with cut := g.cut || splitLines text != lines }
  run (splitLines text)

/-- The loop of `mlang_exec_script`, on the lines from `pc` on. -/
def execFrom : Nat → List (List UInt8) → Comp (With Trace) Int
  | 0, _ => running
  | _+1, [] => pure 0
  | n+1, line::lines =>
    let p := skipWs line
    if p=[] ∨ p.headD 0=0x23 then execFrom n lines
    else if isEnd p then onState (fail "mlang: unexpected end\n")
    else if isIf p then do
      match ← onState (condition (skipWs (p.drop 2))), findEnd 1 lines with
      | none, _ => onState (fail "mlang: bad condition\n")
      | some _, none => onState (fail "mlang: if without end\n")
      | some false, some (_,after) => execFrom n after
      | some true, some (body,after) =>
        if (← ifBody (fun lines => callScript (execFrom n) lines (assemble lines)) body)≠0 then pure (-1)
        else execFrom n after
    else if isWhile p then do
      match findEnd 1 lines with
      | none => onState (fail "mlang: while without end\n")
      | some (body,after) =>
        if (← whileLoop (skipWs (p.drop 5)) body 10000 [])≠0 then pure (-1) else execFrom n after
    else do
      if (← onState (mlangExecLine line))≠0 then pure (-1) else execFrom n lines

/-- Every pass and every call takes one from `fuel`. -/
def mlangExecScript (fuel : Nat) (text : List UInt8) : Comp (With Trace) Int :=
  callScript (execFrom fuel) (linesOf text) text

theorem le_next {x x' y y' : Comp (With Trace) Int} (h : Le x y) (h' : Le x' y') :
    Le (do if (← x)≠0 then pure (-1) else x') (do if (← y)≠0 then pure (-1) else y') :=
  h.bind fun _ => (Le.refl _).ite h'

theorem ifBody_le {sub sub' : List (List UInt8) → Comp (With Trace) Int} (h : ∀ lines, Le (sub lines) (sub' lines))
    (lines : List (List UInt8)) : Le (ifBody sub lines) (ifBody sub' lines) := by
  induction lines with
  | nil => exact Le.refl _
  | cons line lines ih => exact (le_next (h _) (Le.refl _)).ite (le_next (Le.refl _) ih)

theorem execFrom_le (n : Nat) (lines : List (List UInt8)) : Le (execFrom n lines) (execFrom (n+1) lines) := by
  induction n generalizing lines with
  | zero => exact le_running _
  | succ n ih =>
    cases lines with
    | nil => exact Le.refl _
    | cons line lines =>
      have hsub (lines : List (List UInt8)) : Le (callScript (execFrom n) lines (assemble lines))
          (callScript (execFrom (n+1)) lines (assemble lines)) := Le.bind_right fun _ => ih _
      refine (ih lines).ite ((Le.refl _).ite (Le.ite ?_ (Le.ite ?_ (le_next (Le.refl _) (ih lines)))))
      · apply Le.bind_right
        intro b
        match b, findEnd 1 lines with
        | none, _ => exact Le.refl _
        | some _, none => exact Le.refl _
        | some false, some (_,after) => exact ih after
        | some true, some (body,after) => exact le_next (ifBody_le hsub body) (ih after)
      · match findEnd 1 lines with
        | none => exact Le.refl _
        | some (body,after) => exact le_next (Le.refl _) (ih after)

theorem mlangExecScript_mono (text : List UInt8) : Mono fun fuel => mlangExecScript fuel text :=
  fun n => Le.bind_right fun _ => execFrom_le n (splitLines text)

end MyKernel.Mlang
