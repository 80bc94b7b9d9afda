import MyKernel.Mlang.Grammar

/-! The text `expand_expr` makes of tokens, with a number for every name. -/
namespace MyKernel.Mlang
open Signed
open Calc (isDigit Blanks Word)

variable {vars : List (List UInt8 × Int)} {env : List UInt8 → Int} {n : Nat} {s out buf b name : List UInt8}
  {c : UInt8} {ts rest : List Tok} {v w : Int}

def Tok.paste (env : List UInt8 → Int) : Tok → List UInt8
  | .char c => [c]
  | .ident name => numberText (env name)

def splice (env : List UInt8 → Int) (ts : List Tok) : List UInt8 := ts.flatMap (Tok.paste env)

@[simp] theorem splice_nil : splice env []=[] := rfl

@[simp] theorem splice_char : splice env (.char c::ts)=c::splice env ts := rfl

@[simp] theorem splice_ident : splice env (.ident name::ts)=numberText (env name)++splice env ts := rfl

@[simp] theorem splice_append (ts rest : List Tok) : splice env (ts++rest)=splice env ts++splice env rest :=
  List.flatMap_append

@[simp] theorem splice_chars (b : List UInt8) : splice env (b.map Tok.char)=b := by
  induction b with
  | nil => rfl
  | cons c b ih => rw [List.map_cons,splice_char,ih]

def numeral (v : Int) : Calc.Factor :=
  if v<0 then .neg (.digits (decimal (-v).toNat)) else .digits (decimal v.toNat)

section Subst
variable (env)

mutual

def Expr.subst : Expr → Calc.Expr
  | .mk t rest => .mk t.subst rest.subst

def ExprTail.subst : ExprTail → Calc.ExprTail
  | .done => .done
  | .add t rest => .add t.subst rest.subst
  | .sub t rest => .sub t.subst rest.subst

def Term.subst : Term → Calc.Term
  | .mk p rest => .mk p.subst rest.subst

def TermTail.subst : TermTail → Calc.TermTail
  | .done => .done
  | .mul p rest => .mul p.subst rest.subst
  | .div p rest => .div p.subst rest.subst

def Power.subst : Power → Calc.Power
  | .factor f => .factor f.subst
  | .pow f exp => .pow f.subst exp.subst

def Factor.subst : Factor → Calc.Factor
  | .neg f => .neg f.subst
  | .pos f => .pos f.subst
  | .paren e => .paren e.subst
  | .digits ds => .digits ds
  | .ident name => numeral (env name)

end

end Subst

theorem numeral_derives (hb : Blanks b) (v : Int) : (numeral v).Derives (b++numberText v) := by
  unfold numeral numberText
  split
  · simp only [Calc.Factor.Derives]
    exact ⟨decimal (-v).toNat,⟨b,hb,rfl⟩,[],List.forall_mem_nil _,rfl,decimal_ne_nil _,decimal_digits _⟩
  · simp only [Calc.Factor.Derives]
    exact ⟨b,hb,rfl,decimal_ne_nil _,decimal_digits _⟩

theorem CharTok.splice (h : CharTok c rest ts) : Calc.Token c (splice env rest) (splice env ts) := by
  obtain ⟨b,hb,rfl⟩ := h
  refine ⟨b,hb,?_⟩
  rw [splice_append,splice_chars,splice_char]

theorem CharTok.splice_append {a b : List Tok} (h : CharTok c (a++b) ts) :
    Calc.Token c (Mlang.splice env a++Mlang.splice env b) (Mlang.splice env ts) := by
  rw [← Mlang.splice_append]
  exact h.splice

mutual

theorem Expr.splice_derives (e : Expr) {ts : List Tok} (h : e.Derives ts) :
    (e.subst env).Derives (splice env ts) := by
  cases e with
  | mk t rest =>
    simp only [Expr.Derives] at h
    obtain ⟨a,b,rfl,ha,hb⟩ := h
    simp only [Expr.subst,Calc.Expr.Derives]
    exact ⟨_,_,splice_append a b,Term.splice_derives t ha,ExprTail.splice_derives rest hb⟩

theorem ExprTail.splice_derives (e : ExprTail) {ts : List Tok} (h : e.Derives ts) :
    (e.subst env).Derives (splice env ts) := by
  cases e with
  | done =>
    simp only [ExprTail.Derives] at h
    rw [h]
    rfl
  | add t rest | sub t rest =>
    simp only [ExprTail.Derives] at h
    obtain ⟨a,b,htok,ha,hb⟩ := h
    simp only [ExprTail.subst,Calc.ExprTail.Derives]
    exact ⟨_,_,htok.splice_append,Term.splice_derives t ha,ExprTail.splice_derives rest hb⟩

theorem Term.splice_derives (e : Term) {ts : List Tok} (h : e.Derives ts) :
    (e.subst env).Derives (splice env ts) := by
  cases e with
  | mk p rest =>
    simp only [Term.Derives] at h
    obtain ⟨a,b,rfl,ha,hb⟩ := h
    simp only [Term.subst,Calc.Term.Derives]
    exact ⟨_,_,splice_append a b,Power.splice_derives p ha,TermTail.splice_derives rest hb⟩

theorem TermTail.splice_derives (e : TermTail) {ts : List Tok} (h : e.Derives ts) :
    (e.subst env).Derives (splice env ts) := by
  cases e with
  | done =>
    simp only [TermTail.Derives] at h
    rw [h]
    rfl
  | mul p rest | div p rest =>
    simp only [TermTail.Derives] at h
    obtain ⟨a,b,htok,ha,hb⟩ := h
    simp only [TermTail.subst,Calc.TermTail.Derives]
    exact ⟨_,_,htok.splice_append,Power.splice_derives p ha,TermTail.splice_derives rest hb⟩

theorem Power.splice_derives (e : Power) {ts : List Tok} (h : e.Derives ts) :
    (e.subst env).Derives (splice env ts) := by
  cases e with
  | factor f =>
    simp only [Power.Derives] at h
    simp only [Power.subst,Calc.Power.Derives]
    exact Factor.splice_derives f h
  | pow f exp =>
    simp only [Power.Derives] at h
    obtain ⟨a,b,c,rfl,ha,htok,hc⟩ := h
    simp only [Power.subst,Calc.Power.Derives]
    exact ⟨_,_,_,splice_append a b,Factor.splice_derives f ha,htok.splice,Power.splice_derives exp hc⟩

theorem Factor.splice_derives (e : Factor) {ts : List Tok} (h : e.Derives ts) :
    (e.subst env).Derives (splice env ts) := by
  cases e with
  | neg f | pos f =>
    simp only [Factor.Derives] at h
    obtain ⟨a,htok,ha⟩ := h
    simp only [Factor.subst,Calc.Factor.Derives]
    exact ⟨_,htok.splice,Factor.splice_derives f ha⟩
  | paren e =>
    simp only [Factor.Derives] at h
    obtain ⟨a,b,htok,ha,hclose⟩ := h
    simp only [Factor.subst,Calc.Factor.Derives]
    exact ⟨_,_,htok.splice_append,Expr.splice_derives e ha,hclose.splice⟩
  | digits ds =>
    simp only [Factor.Derives] at h
    obtain ⟨b,hb,rfl,hds⟩ := h
    simp only [Factor.subst,Calc.Factor.Derives]
    refine ⟨b,hb,?_,hds⟩
    rw [splice_append,splice_chars,splice_chars]
  | ident name =>
    simp only [Factor.Derives] at h
    obtain ⟨b,hb,rfl⟩ := h
    rw [splice_append,splice_chars,splice_ident,splice_nil,List.append_nil]
    exact numeral_derives hb _

end

theorem DerivesAll.splice {e : Expr} (h : DerivesAll e ts) : Calc.DerivesString (e.subst env) (splice env ts) := by
  obtain ⟨a,b,rfl,ha,hb⟩ := h
  refine ⟨_,b,?_,e.splice_derives ha,hb⟩
  rw [Mlang.splice_append,splice_chars]

/-- A value of the calculator is the value under wrapping arithmetic, the overflow of a quotient apart. -/
def Refines : Calc.Value → Option Int → Prop
  | .ok v, val => val=some v ∧ Word v
  | .error .overflow, _ => True
  | .error _, val => val=none

theorem Refines.bind {x : Calc.Value} {y : Option Int} {f : Int → Calc.Value} {g : Int → Option Int} (h : Refines x y)
    (hf : ∀ v, Word v → Refines (f v) (g v)) : Refines (x.bind f) (y.bind g) := by
  cases x with
  | ok v =>
    obtain ⟨rfl,hv⟩ := h
    exact hf v hv
  | error err =>
    cases err with
    | overflow => trivial
    | zeroDivisor | negativeExponent =>
      have hnone : y=none := h
      rw [hnone]
      rfl

theorem refines_wrap (x : Int) : Refines (.ok (wrap32 x)) (some (wrap32 x)) := ⟨rfl,Calc.word_wrap32 x⟩

theorem refines_power (v w : Int) : Refines (Calc.power v w) (power v w) := by
  unfold Calc.power power
  split
  · rfl
  · exact refines_wrap _

theorem refines_quotient (hv : Word v) (w : Int) : Refines (Calc.quotient v w) (quotient v w) := by
  unfold Calc.quotient quotient
  split
  · rfl
  split
  · trivial
  next h0 hover =>
    have hword : Word (v.tdiv w) := Calc.word_tdiv hv ⟨h0,hover⟩
    rw [wrap32_of_range hword.1 hword.2]
    exact ⟨rfl,hword⟩

theorem numeral_eval (hv : Word v) : (numeral v).eval = .ok v := by
  obtain ⟨hmin,hmax⟩ := hv
  unfold numeral
  split
  next hneg =>
    have hcast : ((-v).toNat : Int) = -v := Int.toNat_of_nonneg (by omega)
    have hwrap : wrap32 (-wrap32 (-v))=v := by
      rw [← Int.neg_one_mul (wrap32 _),wrap32_mul_wrap32,Int.neg_one_mul,Int.neg_neg,wrap32_of_range hmin hmax]
    simp only [Calc.Factor.eval,Except.bind]
    rw [decimal_read (by omega),hcast,hwrap]
  next hpos =>
    have hcast : (v.toNat : Int)=v := Int.toNat_of_nonneg (by omega)
    simp only [Calc.Factor.eval]
    rw [decimal_read (by omega),hcast,wrap32_of_range hmin hmax]

mutual

theorem Expr.refines (henv : ∀ name, Word (env name)) (e : Expr) : Refines (e.subst env).eval (e.eval env) := by
  cases e with
  | mk t rest =>
    simp only [Expr.subst,Calc.Expr.eval,Expr.eval]
    exact (Term.refines henv t).bind fun v hv => ExprTail.refines henv rest hv

theorem ExprTail.refines (henv : ∀ name, Word (env name)) (e : ExprTail) {v : Int} (hv : Word v) :
    Refines ((e.subst env).eval v) (e.eval env v) := by
  cases e with
  | done => exact ⟨rfl,hv⟩
  | add t rest | sub t rest =>
    simp only [ExprTail.subst,Calc.ExprTail.eval,ExprTail.eval]
    exact (Term.refines henv t).bind fun rhs _ => ExprTail.refines henv rest (Calc.word_wrap32 _)

theorem Term.refines (henv : ∀ name, Word (env name)) (e : Term) : Refines (e.subst env).eval (e.eval env) := by
  cases e with
  | mk p rest =>
    simp only [Term.subst,Calc.Term.eval,Term.eval]
    exact (Power.refines henv p).bind fun v hv => TermTail.refines henv rest hv

theorem TermTail.refines (henv : ∀ name, Word (env name)) (e : TermTail) {v : Int} (hv : Word v) :
    Refines ((e.subst env).eval v) (e.eval env v) := by
  cases e with
  | done => exact ⟨rfl,hv⟩
  | mul p rest =>
    simp only [TermTail.subst,Calc.TermTail.eval,TermTail.eval]
    exact (Power.refines henv p).bind fun rhs _ => TermTail.refines henv rest (Calc.word_wrap32 _)
  | div p rest =>
    simp only [TermTail.subst,Calc.TermTail.eval,TermTail.eval]
    refine (Power.refines henv p).bind fun rhs _ => ?_
    exact (refines_quotient hv rhs).bind fun q hq => TermTail.refines henv rest hq

theorem Power.refines (henv : ∀ name, Word (env name)) (e : Power) : Refines (e.subst env).eval (e.eval env) := by
  cases e with
  | factor f =>
    simp only [Power.subst,Calc.Power.eval,Power.eval]
    exact Factor.refines henv f
  | pow f exp =>
    simp only [Power.subst,Calc.Power.eval,Power.eval]
    exact (Factor.refines henv f).bind fun base _ => (Power.refines henv exp).bind fun e _ => refines_power base e

theorem Factor.refines (henv : ∀ name, Word (env name)) (e : Factor) : Refines (e.subst env).eval (e.eval env) := by
  cases e with
  | neg f =>
    simp only [Factor.subst,Calc.Factor.eval,Factor.eval]
    exact (Factor.refines henv f).bind fun v _ => refines_wrap _
  | pos f =>
    simp only [Factor.subst,Calc.Factor.eval,Factor.eval]
    exact Factor.refines henv f
  | paren e =>
    simp only [Factor.subst,Calc.Factor.eval,Factor.eval]
    exact Expr.refines henv e
  | digits ds =>
    simp only [Factor.subst,Calc.Factor.eval,Factor.eval]
    exact refines_wrap _
  | ident name =>
    simp only [Factor.subst,Factor.eval,numeral_eval (henv name)]
    exact ⟨rfl,henv name⟩

end

end MyKernel.Mlang
