import MyKernel.Lib.Signed

/-! The calculator of `calc.c`. A parser holds the rest of the string. `running` is a call without fuel, `trap` the
divide exception. -/
namespace MyKernel.Calc
open Signed

def LONG_MIN : Int := -2147483648

/-- `divisions` is not in the source: the operands of the divisions executed, the last one first. -/
structure CalcParser where
  p : List UInt8
  error : Bool
  divisions : List (Int × Int)
  deriving DecidableEq, Repr

inductive Outcome where
  | running
  | trap (pr : CalcParser)
  | value (v : Int) (pr : CalcParser)
  deriving DecidableEq, Repr

def Outcome.andThen (o : Outcome) (f : Int → CalcParser → Outcome) : Outcome :=
  match o with
  | .running => .running
  | .trap pr => .trap pr
  | .value v pr => f v pr

def CalcParser.cur (pr : CalcParser) : UInt8 := pr.p.headD 0

def CalcParser.advance (pr : CalcParser) : CalcParser := { pr with p := pr.p.tail }

def CalcParser.fail (pr : CalcParser) : CalcParser := { pr with error := true }

def CalcParser.divide (pr : CalcParser) (value rhs : Int) : CalcParser :=
  { pr with divisions := (value,rhs)::pr.divisions }

def isBlank (c : UInt8) : Bool := c == 0x20 || c == 0x09

def isDigit (c : UInt8) : Bool := decide (0x30≤c) && decide (c≤0x39)

def skipSpaces (pr : CalcParser) : CalcParser := { pr with p := pr.p.dropWhile isBlank }

/-- An exponent has at most 31 bits, so the loop makes no more than 31 passes. -/
def ipowLoop : Nat → Int → Nat → Int → Int
  | 0, _, _, result => result
  | n+1, base, exp, result =>
    if exp=0 then result
    else ipowLoop n (wrap32 (base*base)) (exp/2) (if exp%2=1 then wrap32 (result*base) else result)

/-- `none` sets the error flag. -/
def ipow (base exp : Int) : Option Int :=
  if exp<0 then none else some (ipowLoop 32 base exp.toNat 1)

def readDigits : List UInt8 → Int → Int × List UInt8
  | [], value => (value,[])
  | c::cs, value =>
    if isDigit c then readDigits cs (wrap32 (value*10+(c.toNat-48 : Nat))) else (value,c::cs)

def negated (v : Int) (pr : CalcParser) : Outcome := .value (wrap32 (-v)) pr

def closeParen (value : Int) (pr : CalcParser) : Outcome :=
  if (skipSpaces pr).cur≠0x29 then .value 0 (skipSpaces pr).fail
  else .value value (skipSpaces pr).advance

def number (pr : CalcParser) : Outcome :=
  if !isDigit pr.cur then .value 0 pr.fail
  else .value (readDigits pr.p 0).1 { pr with p := (readDigits pr.p 0).2 }

def raised (base exp : Int) (pr : CalcParser) : Outcome :=
  match ipow base exp with
  | none => .value 0 pr.fail
  | some v => .value v pr

mutual

def parseFactor : Nat → CalcParser → Outcome
  | 0, _ => .running
  | n+1, pr =>
    let pr := skipSpaces pr
    if pr.cur=0x2D then (parseFactor n pr.advance).andThen negated
    else if pr.cur=0x2B then parseFactor n pr.advance
    else if pr.cur=0x28 then (parseExpr n pr.advance).andThen closeParen
    else number pr

def parsePower : Nat → CalcParser → Outcome
  | 0, _ => .running
  | n+1, pr =>
    (parseFactor n pr).andThen fun base pr =>
      let pr := skipSpaces pr
      if pr.cur=0x5E then (parsePower n pr.advance).andThen (raised base) else .value base pr

def parseTerm : Nat → CalcParser → Outcome
  | 0, _ => .running
  | n+1, pr => (parsePower n pr).andThen (termLoop n)

def termLoop : Nat → Int → CalcParser → Outcome
  | 0, _, _ => .running
  | n+1, value, pr =>
    let pr := skipSpaces pr
    if pr.cur=0x2A then
      (parsePower n pr.advance).andThen fun rhs pr => termLoop n (wrap32 (value*rhs)) pr
    else if pr.cur=0x2F then
      (parsePower n pr.advance).andThen fun rhs pr =>
        if rhs=0 then .value 0 pr.fail
        else if value=LONG_MIN ∧ rhs = -1 then .trap (pr.divide value rhs)
        else termLoop n (value.tdiv rhs) (pr.divide value rhs)
    else .value value pr

def parseExpr : Nat → CalcParser → Outcome
  | 0, _ => .running
  | n+1, pr => (parseTerm n pr).andThen (exprLoop n)

def exprLoop : Nat → Int → CalcParser → Outcome
  | 0, _, _ => .running
  | n+1, value, pr =>
    let pr := skipSpaces pr
    if pr.cur=0x2B then
      (parseTerm n pr.advance).andThen fun rhs pr => exprLoop n (wrap32 (value+rhs)) pr
    else if pr.cur=0x2D then
      (parseTerm n pr.advance).andThen fun rhs pr => exprLoop n (wrap32 (value-rhs)) pr
    else .value value pr

end

def checkEnd (result : Int) (pr : CalcParser) : Outcome :=
  if (skipSpaces pr).cur≠0 then .value result (skipSpaces pr).fail else .value result (skipSpaces pr)

/-- Calls are nested at most four deep for every character. -/
def calcEval (expr : List UInt8) : Outcome :=
  (parseExpr (6*expr.length+4) ⟨expr,false,[]⟩).andThen checkEnd

example : calcEval [0x32,0x5E,0x33,0x5E,0x32] = .value 512 ⟨[],false,[]⟩ := by decide

end MyKernel.Calc
