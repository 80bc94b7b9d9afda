import Mathlib.Algebra.Group.Nat.Defs
import MyKernel.Calc.Model

/-! The grammar in the comment of `calc.c`. Operators of one precedence are an operand and a tail. -/
namespace MyKernel.Calc
open Signed

mutual

inductive Expr where
  | mk (first : Term) (rest : ExprTail)

inductive ExprTail where
  | done
  | add (t : Term) (rest : ExprTail)
  | sub (t : Term) (rest : ExprTail)

inductive Term where
  | mk (first : Power) (rest : TermTail)

inductive TermTail where
  | done
  | mul (p : Power) (rest : TermTail)
  | div (p : Power) (rest : TermTail)

inductive Power where
  | factor (f : Factor)
  | pow (f : Factor) (exp : Power)

inductive Factor where
  | neg (f : Factor)
  | pos (f : Factor)
  | paren (e : Expr)
  | digits (ds : List UInt8)

end

def Blanks (s : List UInt8) : Prop := ∀ c∈s, isBlank c=true

/-- `s` is the token `c` after some blanks, followed by `rest`. -/
def Token (c : UInt8) (rest s : List UInt8) : Prop := ∃ b, Blanks b ∧ s=b++c::rest

mutual

def Expr.Derives : Expr → List UInt8 → Prop
  | .mk t rest, s => ∃ a b, s=a++b ∧ t.Derives a ∧ rest.Derives b

def ExprTail.Derives : ExprTail → List UInt8 → Prop
  | .done, s => s=[]
  | .add t rest, s => ∃ a b, Token 0x2B (a++b) s ∧ t.Derives a ∧ rest.Derives b
  | .sub t rest, s => ∃ a b, Token 0x2D (a++b) s ∧ t.Derives a ∧ rest.Derives b

def Term.Derives : Term → List UInt8 → Prop
  | .mk p rest, s => ∃ a b, s=a++b ∧ p.Derives a ∧ rest.Derives b

def TermTail.Derives : TermTail → List UInt8 → Prop
  | .done, s => s=[]
  | .mul p rest, s => ∃ a b, Token 0x2A (a++b) s ∧ p.Derives a ∧ rest.Derives b
  | .div p rest, s => ∃ a b, Token 0x2F (a++b) s ∧ p.Derives a ∧ rest.Derives b

def Power.Derives : Power → List UInt8 → Prop
  | .factor f, s => f.Derives s
  | .pow f exp, s => ∃ a b c, s=a++b ∧ f.Derives a ∧ Token 0x5E c b ∧ exp.Derives c

def Factor.Derives : Factor → List UInt8 → Prop
  | .neg f, s => ∃ a, Token 0x2D a s ∧ f.Derives a
  | .pos f, s => ∃ a, Token 0x2B a s ∧ f.Derives a
  | .paren e, s => ∃ a b, Token 0x28 (a++b) s ∧ e.Derives a ∧ Token 0x29 [] b
  | .digits ds, s => ∃ b, Blanks b ∧ s=b++ds ∧ ds≠[] ∧ ∀ c∈ds, isDigit c=true

end

def DerivesString (e : Expr) (s : List UInt8) : Prop := ∃ a b, s=a++b ∧ e.Derives a ∧ Blanks b

inductive EvalError where
  | zeroDivisor | negativeExponent | overflow
  deriving DecidableEq, Repr

abbrev Value := Except EvalError Int

def decimal (ds : List UInt8) : Int := ds.foldl (fun v c => v*10+(c.toNat-48 : Nat)) 0

def power (base exp : Int) : Value :=
  if exp<0 then .error .negativeExponent else .ok (wrap32 (base^exp.toNat))

/-- The quotient of `LONG_MIN` by -1 does not fit a word. -/
def quotient (a b : Int) : Value :=
  if b=0 then .error .zeroDivisor
  else if a=LONG_MIN ∧ b = -1 then .error .overflow
  else .ok (a.tdiv b)

mutual

def Expr.eval : Expr → Value
  | .mk t rest => t.eval.bind rest.eval

def ExprTail.eval : ExprTail → Int → Value
  | .done, v => .ok v
  | .add t rest, v => t.eval.bind fun rhs => rest.eval (wrap32 (v+rhs))
  | .sub t rest, v => t.eval.bind fun rhs => rest.eval (wrap32 (v-rhs))

def Term.eval : Term → Value
  | .mk p rest => p.eval.bind rest.eval

def TermTail.eval : TermTail → Int → Value
  | .done, v => .ok v
  | .mul p rest, v => p.eval.bind fun rhs => rest.eval (wrap32 (v*rhs))
  | .div p rest, v => p.eval.bind fun rhs => (quotient v rhs).bind rest.eval

def Power.eval : Power → Value
  | .factor f => f.eval
  | .pow f exp => f.eval.bind fun base => exp.eval.bind (power base)

def Factor.eval : Factor → Value
  | .neg f => f.eval.bind fun v => .ok (wrap32 (-v))
  | .pos f => f.eval
  | .paren e => e.eval
  | .digits ds => .ok (wrap32 (decimal ds))

end

variable {base v x : Int} {exp n : Nat} {ds r s b : List UInt8}

theorem ipowLoop_eq (h : exp<2^n) (base result : Int) :
    ipowLoop n base exp (wrap32 result)=wrap32 (result*base^exp) := by
  induction n generalizing exp base result with
  | zero =>
    have h0 : exp=0 := by simpa using h
    rw [ipowLoop,h0,pow_zero,mul_one]
  | succ n ih =>
    rw [ipowLoop]
    by_cases h0 : exp=0
    · rw [if_pos h0,h0,pow_zero,mul_one]
    rw [if_neg h0]
    have hhalf : exp/2<2^n := by
      rw [pow_succ] at h
      omega
    have hsquare : wrap32 ((wrap32 (base*base))^(exp/2))=wrap32 (base^(2*(exp/2))) := by
      rw [wrap32_pow,pow_mul,pow_two]
    by_cases hodd : exp%2=1
    · rw [if_pos hodd,wrap32_wrap32_mul,ih hhalf]
      calc wrap32 (result*base*(wrap32 (base*base))^(exp/2))
         =wrap32 (result*base*wrap32 ((wrap32 (base*base))^(exp/2))) := by rw [wrap32_mul_wrap32]
        _ = wrap32 (result*base*base^(2*(exp/2))) := by rw [hsquare,wrap32_mul_wrap32]
        _ = wrap32 (result*base^(2*(exp/2)+1)) := by rw [mul_assoc,← pow_succ']
        _ = wrap32 (result*base^exp) := by rw [show 2*(exp/2)+1 = exp by omega]
    · rw [if_neg hodd,ih hhalf]
      calc wrap32 (result*(wrap32 (base*base))^(exp/2))
         =wrap32 (result*wrap32 ((wrap32 (base*base))^(exp/2))) := by rw [wrap32_mul_wrap32]
        _ = wrap32 (result*base^(2*(exp/2))) := by rw [hsquare,wrap32_mul_wrap32]
        _ = wrap32 (result*base^exp) := by rw [show 2*(exp/2) = exp by omega]

theorem ipow_eq {exp : Int} (h : exp≤2147483647) (base : Int) : ipow base exp=(power base exp).toOption := by
  rw [ipow,power]
  by_cases hneg : exp<0
  · rw [if_pos hneg,if_pos hneg]
    rfl
  · have hlt : exp.toNat<2^32 := by
      have hword : exp.toNat<4294967296 := by omega
      exact Nat.lt_of_lt_of_le hword (by decide)
    have hone : (1 : Int)=wrap32 1 := (wrap32_of_range (by omega) (by omega)).symm
    rw [if_neg hneg,if_neg hneg,hone,ipowLoop_eq hlt,one_mul]
    rfl

theorem readDigits_eq (s : List UInt8) (x : Int) :
    readDigits s (wrap32 x)=(wrap32 ((s.takeWhile isDigit).foldl (fun v c => v*10+(c.toNat-48 : Nat)) x),
      s.dropWhile isDigit) := by
  induction s generalizing x with
  | nil => rfl
  | cons c cs ih =>
    rw [readDigits]
    by_cases hd : isDigit c=true
    · rw [if_pos hd,List.takeWhile_cons_of_pos hd,List.dropWhile_cons_of_pos hd,List.foldl_cons,
        ← ih]
      congr 1
      rw [← wrap32_wrap32_add (wrap32 x*10),wrap32_wrap32_mul,wrap32_wrap32_add]
    · rw [if_neg hd,List.takeWhile_cons_of_neg hd,List.dropWhile_cons_of_neg hd]
      rfl

theorem number_eq {pr : CalcParser} (h : isDigit pr.cur=true) :
    number pr = .value (wrap32 (decimal (pr.p.takeWhile isDigit)))
      { pr with p := pr.p.dropWhile isDigit } := by
  have h0 : (0 : Int)=wrap32 0 := (wrap32_of_range (by omega) (by omega)).symm
  rw [number,if_neg (by simp [h]),h0,readDigits_eq,decimal]

end MyKernel.Calc
