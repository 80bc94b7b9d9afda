import Mathlib.Data.List.Chain
import MyKernel.Mlang.Expand

/-! The grammar of `calc.c` with identifiers: the specification of `eval_expr`. -/
namespace MyKernel.Mlang
open Signed
open Calc (isDigit Blanks)

inductive Tok where
  | char (c : UInt8)
  | ident (name : List UInt8)
  deriving DecidableEq

/-- Identifiers are as long as they can be. Every token takes at least one byte, so the fuel is the length. -/
def lexLoop : Nat → List UInt8 → List Tok
  | _, [] => []
  | 0, _::_ => []
  | n+1, c::cs =>
    if isIdentStart c then .ident ((c::cs).takeWhile isIdent)::lexLoop n ((c::cs).dropWhile isIdent)
    else .char c::lexLoop n cs

def lex (s : List UInt8) : List Tok := lexLoop s.length s

mutual

inductive Expr where
  | mk (first : Term) (rest : ExprTail)

inductive ExprTail where
  | done
  | add (t : Term) (rest : ExprTail)
  | sub (t : Term) (rest : ExprTail)

inductive Term where
  | mk (first : Power) (rest : TermTail)

inductive TermTail where
  | done
  | mul (p : Power) (rest : TermTail)
  | div (p : Power) (rest : TermTail)

inductive Power where
  | factor (f : Factor)
  | pow (f : Factor) (exp : Power)

inductive Factor where
  | neg (f : Factor)
  | pos (f : Factor)
  | paren (e : Expr)
  | digits (ds : List UInt8)
  | ident (name : List UInt8)

end

/-- The character `c` after some blanks, followed by `rest`. -/
def CharTok (c : UInt8) (rest ts : List Tok) : Prop := ∃ b, Blanks b ∧ ts=b.map Tok.char++.char c::rest

mutual

def Expr.Derives : Expr → List Tok → Prop
  | .mk t rest, ts => ∃ a b, ts=a++b ∧ t.Derives a ∧ rest.Derives b

def ExprTail.Derives : ExprTail → List Tok → Prop
  | .done, ts => ts=[]
  | .add t rest, ts => ∃ a b, CharTok 0x2B (a++b) ts ∧ t.Derives a ∧ rest.Derives b
  | .sub t rest, ts => ∃ a b, CharTok 0x2D (a++b) ts ∧ t.Derives a ∧ rest.Derives b

def Term.Derives : Term → List Tok → Prop
  | .mk p rest, ts => ∃ a b, ts=a++b ∧ p.Derives a ∧ rest.Derives b

def TermTail.Derives : TermTail → List Tok → Prop
  | .done, ts => ts=[]
  | .mul p rest, ts => ∃ a b, CharTok 0x2A (a++b) ts ∧ p.Derives a ∧ rest.Derives b
  | .div p rest, ts => ∃ a b, CharTok 0x2F (a++b) ts ∧ p.Derives a ∧ rest.Derives b

def Power.Derives : Power → List Tok → Prop
  | .factor f, ts => f.Derives ts
  | .pow f exp, ts => ∃ a b c, ts=a++b ∧ f.Derives a ∧ CharTok 0x5E c b ∧ exp.Derives c

def Factor.Derives : Factor → List Tok → Prop
  | .neg f, ts => ∃ a, CharTok 0x2D a ts ∧ f.Derives a
  | .pos f, ts => ∃ a, CharTok 0x2B a ts ∧ f.Derives a
  | .paren e, ts => ∃ a b, CharTok 0x28 (a++b) ts ∧ e.Derives a ∧ CharTok 0x29 [] b
  | .digits ds, ts => ∃ b, Blanks b ∧ ts=b.map Tok.char++ds.map Tok.char ∧ ds≠[] ∧ ∀ c∈ds, isDigit c=true
  | .ident name, ts => ∃ b, Blanks b ∧ ts=b.map Tok.char++[.ident name]

end

def DerivesAll (e : Expr) (ts : List Tok) : Prop := ∃ a b, ts=a++b.map Tok.char ∧ e.Derives a ∧ Blanks b

def power (base exp : Int) : Option Int := if exp<0 then none else some (wrap32 (base^exp.toNat))

def quotient (a b : Int) : Option Int := if b=0 then none else some (wrap32 (a.tdiv b))

section Eval
variable (env : List UInt8 → Int)

mutual

def Expr.eval : Expr → Option Int
  | .mk t rest => t.eval.bind rest.eval

def ExprTail.eval : ExprTail → Int → Option Int
  | .done, v => some v
  | .add t rest, v => t.eval.bind fun rhs => rest.eval (wrap32 (v+rhs))
  | .sub t rest, v => t.eval.bind fun rhs => rest.eval (wrap32 (v-rhs))

def Term.eval : Term → Option Int
  | .mk p rest => p.eval.bind rest.eval

def TermTail.eval : TermTail → Int → Option Int
  | .done, v => some v
  | .mul p rest, v => p.eval.bind fun rhs => rest.eval (wrap32 (v*rhs))
  | .div p rest, v => p.eval.bind fun rhs => (quotient v rhs).bind rest.eval

def Power.eval : Power → Option Int
  | .factor f => f.eval
  | .pow f exp => f.eval.bind fun base => exp.eval.bind (power base)

def Factor.eval : Factor → Option Int
  | .neg f => f.eval.bind fun v => some (wrap32 (-v))
  | .pos f => f.eval
  | .paren e => e.eval
  | .digits ds => some (wrap32 (Calc.decimal ds))
  | .ident name => some (env name)

end

end Eval

def lookup (vars : List (List UInt8 × Int)) (name : List UInt8) : Int := (varFind vars name).getD 0

/-- The string is a valid expression with this value under the table. -/
def HasValue (vars : List (List UInt8 × Int)) (s : List UInt8) (v : Int) : Prop :=
  ∃ e, DerivesAll e (lex s) ∧ e.eval (lookup vars)=some v

variable {n : Nat} {s : List UInt8}

/-- What may follow a token directly: an identifier ends before neither an identifier nor a digit. -/
def Apart : Tok → Tok → Prop
  | .char _, _ => True
  | .ident _, .char c => isDigit c=false
  | .ident _, .ident _ => False

end MyKernel.Mlang
