import MyKernel.Lib.CString
import MyKernel.Calc.Sound

/-! The calculator computes the value of every derivable string. -/
namespace MyKernel.Calc
open Signed CString

variable {o : Outcome} {f : Int → CalcParser → Outcome} {g : Int → Value} {val : Value} {n : Nat} {v : Int}
  {c : UInt8} {a b r s x p rest rest' ops : List UInt8} {ds : List (Int × Int)} {e : Bool}

/-- The call returns the value and stops at `rest`, or traps if it overflows. Nothing is asked of a running call. -/
def Outcome.Meets (o : Outcome) (rest : List UInt8) (e : Bool) : Value → Prop
  | .ok v => o = .running ∨ ∃ ds, o = .value v ⟨rest,e,ds⟩
  | .error .overflow => o = .running ∨ ∃ pr, o = .trap pr
  | .error _ => True

theorem meets_running (rest : List UInt8) (e : Bool) (val : Value) : Outcome.running.Meets rest e val := by
  cases val with
  | ok v => exact .inl rfl
  | error err =>
    cases err with
    | overflow => exact .inl rfl
    | zeroDivisor | negativeExponent => trivial

theorem meets_value : (Outcome.value v ⟨rest,e,ds⟩).Meets rest e (.ok v) := .inr ⟨ds,rfl⟩

theorem Outcome.Meets.andThen (h : o.Meets rest e val)
    (hf : ∀ v ds, o = .value v ⟨rest,e,ds⟩ → (f v ⟨rest,e,ds⟩).Meets rest' e (g v)) :
    (o.andThen f).Meets rest' e (val.bind g) := by
  cases val with
  | ok v =>
    cases h with
    | inl h =>
      rw [h]
      exact meets_running ..
    | inr h =>
      obtain ⟨ds,h⟩ := h
      have hv := hf v ds h
      rw [h]
      exact hv
  | error err =>
    cases err with
    | overflow =>
      cases h with
      | inl h => exact .inl (by rw [h]; rfl)
      | inr h =>
        obtain ⟨pr,h⟩ := h
        exact .inr ⟨pr,by rw [h]; rfl⟩
    | zeroDivisor | negativeExponent => trivial

theorem bind_ok (val : Value) : val.bind .ok=val := by
  cases val with
  | ok v => rfl
  | error err => rfl

def NoDigit (r : List UInt8) : Prop := isDigit (r.headD 0)=false

/-- A parser that stands before `r` sees neither a digit nor, after blanks, one of the operators. -/
def Stops (ops r : List UInt8) : Prop := NoDigit r ∧ (r.dropWhile isBlank).headD 0∉ops

def powerOps : List UInt8 := [0x5E]
def termOps : List UInt8 := [0x5E,0x2A,0x2F]
def exprOps : List UInt8 := [0x5E,0x2A,0x2F,0x2B,0x2D]

theorem Stops.weaken {ops' : List UInt8} (h : Stops ops r) (hsub : ∀ c∈ops', c∈ops) : Stops ops' r :=
  ⟨h.1,fun hmem => h.2 (hsub _ hmem)⟩

theorem Stops.cur_ne (h : Stops ops r) (e : Bool) (ds : List (Int × Int)) (hc : c∈ops) :
    (CalcParser.mk (r.dropWhile isBlank) e ds).cur≠c := by
  intro hcur
  rw [← hcur] at hc
  exact h.2 hc

theorem dropWhile_blanks (hb : Blanks b) (r : List UInt8) : (b++r).dropWhile isBlank=r.dropWhile isBlank := by
  induction b with
  | nil => rfl
  | cons d b ih =>
    rw [List.cons_append,List.dropWhile_cons_of_pos (hb d (by simp))]
    exact ih fun c hc => hb c (List.mem_cons_of_mem _ hc)

theorem dropWhile_token (ht : Token c x s) (hc : isBlank c=false) : s.dropWhile isBlank=c::x := by
  obtain ⟨b,hb,hs⟩ := ht
  rw [hs,dropWhile_blanks hb,List.dropWhile_cons_of_neg (by simp [hc])]

theorem noDigit_blanks (hb : Blanks b) (h : NoDigit r) : NoDigit (b++r) := by
  cases b with
  | nil => exact h
  | cons d b =>
    have hd : isBlank d=true := hb d (by simp)
    simp only [isBlank,Bool.or_eq_true,beq_iff_eq] at hd
    cases hd with
    | inl hd | inr hd =>
      rw [hd]
      rfl

theorem stops_token (ht : Token c x s) (hblank : isBlank c=false) (hdigit : isDigit c=false)
    (hops : c∉ops) : Stops ops s := by
  refine ⟨?_,by rw [dropWhile_token ht hblank]; exact hops⟩
  obtain ⟨b,hb,hs⟩ := ht
  rw [hs]
  exact noDigit_blanks hb hdigit

theorem skip_token (ht : Token c x s) (hc : isBlank c=false) (e : Bool) (ds : List (Int × Int)) :
    skipSpaces ⟨s,e,ds⟩=⟨c::x,e,ds⟩ := by
  rw [skipSpaces,dropWhile_token ht hc]

theorem TermTail.stops {tail : TermTail} (h : tail.Derives s) (hr : Stops termOps r) : Stops powerOps (s++r) := by
  cases tail with
  | done =>
    simp only [TermTail.Derives] at h
    rw [h]
    exact hr.weaken (by simp [powerOps,termOps])
  | mul q tail | div q tail =>
    simp only [TermTail.Derives] at h
    obtain ⟨x,y,ht,_⟩ := h
    exact stops_token (ht.append r) (by decide) (by decide) (by decide)

theorem ExprTail.stops {tail : ExprTail} (h : tail.Derives s) (hr : Stops exprOps r) : Stops termOps (s++r) := by
  cases tail with
  | done =>
    simp only [ExprTail.Derives] at h
    rw [h]
    exact hr.weaken (by simp [termOps,exprOps])
  | add q tail | sub q tail =>
    simp only [ExprTail.Derives] at h
    obtain ⟨x,y,ht,_⟩ := h
    exact stops_token (ht.append r) (by decide) (by decide) (by decide)

structure AllComplete (n : Nat) : Prop where
  factor : ∀ (t : Factor) s r e ds, t.Derives s → NoDigit r →
    (parseFactor n ⟨s++r,e,ds⟩).Meets r e t.eval
  power : ∀ (t : Power) s r e ds, t.Derives s → Stops powerOps r →
    (parsePower n ⟨s++r,e,ds⟩).Meets (r.dropWhile isBlank) e t.eval
  term : ∀ (t : Term) s r e ds, t.Derives s → Stops termOps r →
    (parseTerm n ⟨s++r,e,ds⟩).Meets (r.dropWhile isBlank) e t.eval
  /- the loop starts after blanks that the call before it may have skipped -/
  termLoop : ∀ (t : TermTail) v s r p e ds, t.Derives s → Stops termOps r →
    p.dropWhile isBlank=(s++r).dropWhile isBlank →
    (termLoop n v ⟨p,e,ds⟩).Meets (r.dropWhile isBlank) e (t.eval v)
  expr : ∀ (t : Expr) s r e ds, t.Derives s → Stops exprOps r →
    (parseExpr n ⟨s++r,e,ds⟩).Meets (r.dropWhile isBlank) e t.eval
  exprLoop : ∀ (t : ExprTail) v s r p e ds, t.Derives s → Stops exprOps r →
    p.dropWhile isBlank=(s++r).dropWhile isBlank →
    (exprLoop n v ⟨p,e,ds⟩).Meets (r.dropWhile isBlank) e (t.eval v)

theorem dropWhile_idem (p : List UInt8) : (p.dropWhile isBlank).dropWhile isBlank=p.dropWhile isBlank := by
  induction p with
  | nil => rfl
  | cons d p ih =>
    cases hd : isBlank d with
    | true =>
      rw [List.dropWhile_cons_of_pos hd]
      exact ih
    | false => rw [List.dropWhile_cons_of_neg (by simp [hd]),List.dropWhile_cons_of_neg (by simp [hd])]

theorem takeWhile_digits (hall : ∀ d∈s, isDigit d=true) (hr : NoDigit r) :
    (s++r).takeWhile isDigit=s ∧ (s++r).dropWhile isDigit=r := by
  induction s with
  | nil =>
    cases r with
    | nil => exact ⟨rfl,rfl⟩
    | cons d r =>
      have hd : ¬ isDigit d=true := by
        have hd : isDigit d=false := hr
        simp [hd]
      exact ⟨List.takeWhile_cons_of_neg hd,List.dropWhile_cons_of_neg hd⟩
  | cons d s ih =>
    have hd := hall d (by simp)
    obtain ⟨htake,hdrop⟩ := ih fun c hc => hall c (List.mem_cons_of_mem _ hc)
    rw [List.cons_append,List.takeWhile_cons_of_pos hd,List.dropWhile_cons_of_pos hd,htake,hdrop]
    exact ⟨rfl,rfl⟩

theorem digit_first (h : isDigit c=true) : isBlank c=false ∧ c≠0x2D ∧ c≠0x2B ∧ c≠0x28 := by
  simp only [isDigit,Bool.and_eq_true,decide_eq_true_eq,UInt8.le_iff_toNat_le] at h
  have hne : ∀ d : UInt8, d.toNat<48 → c≠d := by
    intro d hd heq
    rw [heq] at h
    have h48 : (0x30 : UInt8).toNat=48 := rfl
    omega
  refine ⟨?_,hne _ (by decide),hne _ (by decide),hne _ (by decide)⟩
  simp [isBlank,hne 0x20 (by decide),hne 0x09 (by decide)]

theorem digits_meets (hb : Blanks b) (hne : x≠[]) (hall : ∀ d∈x, isDigit d=true)
    (hr : NoDigit r) (e : Bool) (ds : List (Int × Int)) :
    (parseFactor (n+1) ⟨(b++x)++r,e,ds⟩).Meets r e (.ok (wrap32 (decimal x))) := by
  obtain ⟨d,y,hx⟩ := List.exists_cons_of_ne_nil hne
  have hd : isDigit d=true := hall d (by simp [hx])
  obtain ⟨hblank,hneg,hpos,hparen⟩ := digit_first hd
  obtain ⟨htake,hdrop⟩ := takeWhile_digits hall hr
  have hskip : skipSpaces ⟨(b++x)++r,e,ds⟩=⟨x++r,e,ds⟩ := by
    rw [skipSpaces,List.append_assoc,dropWhile_blanks hb,hx,List.cons_append,
      List.dropWhile_cons_of_neg (by simp [hblank])]
  have hcur : (CalcParser.mk (x++r) e ds).cur=d := by
    rw [hx]
    rfl
  rw [parseFactor,hskip]
  rw [hcur,if_neg hneg,if_neg hpos,if_neg hparen,number_eq (by rw [hcur]; exact hd),htake,hdrop]
  exact meets_value

theorem AllComplete.factor_succ (h : AllComplete n) (t : Factor) (hs : t.Derives s) (hr : NoDigit r) :
    (parseFactor (n+1) ⟨s++r,e,ds⟩).Meets r e t.eval := by
  cases t with
  | neg t =>
    simp only [Factor.Derives] at hs
    obtain ⟨x,ht,hx⟩ := hs
    rw [parseFactor,skip_token (ht.append r) (by decide)]
    simp only [Factor.eval]
    apply (h.factor t x r e ds hx hr).andThen
    intro v ds' _
    exact meets_value
  | pos t =>
    simp only [Factor.Derives] at hs
    obtain ⟨x,ht,hx⟩ := hs
    rw [parseFactor,skip_token (ht.append r) (by decide)]
    simp only [Factor.eval]
    exact h.factor t x r e ds hx hr
  | paren t =>
    simp only [Factor.Derives] at hs
    obtain ⟨x,y,ht,hx,hy⟩ := hs
    rw [parseFactor,skip_token (ht.append r) (by decide)]
    simp only [Factor.eval]
    have hclose : Token 0x29 r (y++r) := hy.append r
    have hexpr := h.expr t x (y++r) e ds hx (stops_token hclose (by decide) (by decide) (by decide))
    rw [dropWhile_token hclose (by decide),← List.append_assoc] at hexpr
    rw [← bind_ok t.eval]
    apply hexpr.andThen
    intro v ds' _
    have hskip : skipSpaces ⟨0x29::r,e,ds'⟩=⟨0x29::r,e,ds'⟩ := rfl
    rw [closeParen,hskip]
    exact meets_value
  | digits xs =>
    simp only [Factor.Derives] at hs
    obtain ⟨b,hb,hs,hne,hall⟩ := hs
    rw [hs]
    simp only [Factor.eval]
    exact digits_meets hb hne hall hr e ds

theorem AllComplete.power_succ (h : AllComplete n) (t : Power) (hs : t.Derives s) (hr : Stops powerOps r) :
    (parsePower (n+1) ⟨s++r,e,ds⟩).Meets (r.dropWhile isBlank) e t.eval := by
  rw [parsePower]
  cases t with
  | factor t =>
    simp only [Power.Derives] at hs
    simp only [Power.eval]
    rw [← bind_ok t.eval]
    apply (h.factor t s r e ds hs hr.1).andThen
    intro v ds' _
    have hcur : (skipSpaces ⟨r,e,ds'⟩).cur≠0x5E := fun hc => hr.2 (List.mem_singleton.mpr hc)
    rw [if_neg hcur]
    exact meets_value
  | pow t q =>
    simp only [Power.Derives] at hs
    obtain ⟨x,y,z,rfl,hx,ht,hz⟩ := hs
    have htok := ht.append r
    have hstop : Stops [] (y++r) := stops_token htok (by decide) (by decide) (by simp)
    simp only [Power.eval]
    rw [List.append_assoc]
    apply (h.factor t x (y++r) e ds hx hstop.1).andThen
    intro base ds' _
    have hcur : (CalcParser.mk (0x5E::(z++r)) e ds').cur=0x5E := rfl
    rw [skip_token htok (by decide),if_pos hcur]
    apply (h.power q z r e ds' hz hr).andThen
    intro exp ds'' hexp
    have hword : Word exp := by
      have hgood := (allGood n).power ⟨z++r,e,ds'⟩
      rw [hexp] at hgood
      exact hgood.word
    rw [raised_eq hword,Calc.power]
    split
    · trivial
    · exact meets_value

theorem AllComplete.term_succ (h : AllComplete n) (t : Term) (hs : t.Derives s) (hr : Stops termOps r) :
    (parseTerm (n+1) ⟨s++r,e,ds⟩).Meets (r.dropWhile isBlank) e t.eval := by
  obtain ⟨q,tail⟩ := t
  simp only [Term.Derives] at hs
  obtain ⟨x,y,rfl,hx,hy⟩ := hs
  rw [parseTerm,List.append_assoc]
  simp only [Term.eval]
  apply (h.power q x (y++r) e ds hx (TermTail.stops hy hr)).andThen
  intro v ds' _
  exact h.termLoop tail v y r _ e ds' hy hr (dropWhile_idem _)

theorem AllComplete.term_operand (h : AllComplete n) {q : Power} {tail : TermTail} (ha : q.Derives a)
    (hb : tail.Derives b) (hr : Stops termOps r) :
    (parsePower n ⟨(a++b)++r,e,ds⟩).Meets ((b++r).dropWhile isBlank) e q.eval := by
  rw [List.append_assoc]
  exact h.power q a (b++r) e ds ha (TermTail.stops hb hr)

theorem AllComplete.termLoop_succ (h : AllComplete n) (t : TermTail) (v : Int) (hs : t.Derives s)
    (hr : Stops termOps r) (hp : p.dropWhile isBlank=(s++r).dropWhile isBlank) :
    (Calc.termLoop (n+1) v ⟨p,e,ds⟩).Meets (r.dropWhile isBlank) e (t.eval v) := by
  rw [Calc.termLoop,skipSpaces,hp]
  cases t with
  | done =>
    simp only [TermTail.Derives] at hs
    simp only [TermTail.eval,hs,List.nil_append]
    have hmul := hr.cur_ne e ds (show 0x2A∈_ by decide)
    have hdiv := hr.cur_ne e ds (show 0x2F∈_ by decide)
    rw [if_neg hmul,if_neg hdiv]
    exact meets_value
  | mul q tail =>
    simp only [TermTail.Derives] at hs
    obtain ⟨x,y,ht,hx,hy⟩ := hs
    rw [dropWhile_token (ht.append r) (by decide)]
    simp only [TermTail.eval]
    apply (h.term_operand hx hy hr).andThen
    intro rhs ds' _
    exact h.termLoop tail _ y r _ e ds' hy hr (dropWhile_idem _)
  | div q tail =>
    simp only [TermTail.Derives] at hs
    obtain ⟨x,y,ht,hx,hy⟩ := hs
    rw [dropWhile_token (ht.append r) (by decide)]
    simp only [TermTail.eval]
    apply (h.term_operand hx hy hr).andThen
    intro rhs ds' _
    rw [quotient]
    split
    · trivial
    · split
      · exact .inr ⟨_,rfl⟩
      · exact h.termLoop tail _ y r _ e _ hy hr (dropWhile_idem _)

theorem AllComplete.expr_succ (h : AllComplete n) (t : Expr) (hs : t.Derives s) (hr : Stops exprOps r) :
    (parseExpr (n+1) ⟨s++r,e,ds⟩).Meets (r.dropWhile isBlank) e t.eval := by
  obtain ⟨q,tail⟩ := t
  simp only [Expr.Derives] at hs
  obtain ⟨x,y,rfl,hx,hy⟩ := hs
  rw [parseExpr,List.append_assoc]
  simp only [Expr.eval]
  apply (h.term q x (y++r) e ds hx (ExprTail.stops hy hr)).andThen
  intro v ds' _
  exact h.exprLoop tail v y r _ e ds' hy hr (dropWhile_idem _)

theorem AllComplete.expr_operand (h : AllComplete n) {q : Term} {tail : ExprTail} (ha : q.Derives a)
    (hb : tail.Derives b) (hr : Stops exprOps r) :
    (parseTerm n ⟨(a++b)++r,e,ds⟩).Meets ((b++r).dropWhile isBlank) e q.eval := by
  rw [List.append_assoc]
  exact h.term q a (b++r) e ds ha (ExprTail.stops hb hr)

theorem AllComplete.exprLoop_succ (h : AllComplete n) (t : ExprTail) (v : Int) (hs : t.Derives s)
    (hr : Stops exprOps r) (hp : p.dropWhile isBlank=(s++r).dropWhile isBlank) :
    (Calc.exprLoop (n+1) v ⟨p,e,ds⟩).Meets (r.dropWhile isBlank) e (t.eval v) := by
  rw [Calc.exprLoop,skipSpaces,hp]
  cases t with
  | done =>
    simp only [ExprTail.Derives] at hs
    simp only [ExprTail.eval,hs,List.nil_append]
    have hadd := hr.cur_ne e ds (show 0x2B∈_ by decide)
    have hsub := hr.cur_ne e ds (show 0x2D∈_ by decide)
    rw [if_neg hadd,if_neg hsub]
    exact meets_value
  | add q tail | sub q tail =>
    simp only [ExprTail.Derives] at hs
    obtain ⟨x,y,ht,hx,hy⟩ := hs
    rw [dropWhile_token (ht.append r) (by decide)]
    simp only [ExprTail.eval]
    apply (h.expr_operand hx hy hr).andThen
    intro rhs ds' _
    exact h.exprLoop tail _ y r _ e ds' hy hr (dropWhile_idem _)

theorem allComplete (n : Nat) : AllComplete n := by
  induction n with
  | zero => constructor <;> intros <;> exact meets_running ..
  | succ n ih =>
    exact ⟨fun t _ _ _ _ => ih.factor_succ t,fun t _ _ _ _ => ih.power_succ t,
      fun t _ _ _ _ => ih.term_succ t,fun t v _ _ _ _ _ => ih.termLoop_succ t v,
      fun t _ _ _ _ => ih.expr_succ t,fun t v _ _ _ _ _ => ih.exprLoop_succ t v⟩

theorem parse_complete (n : Nat) {t : Expr} (h : DerivesString t s) :
    ((parseExpr n ⟨s,false,[]⟩).andThen checkEnd).Meets [] false t.eval := by
  obtain ⟨x,b,rfl,hx,hb⟩ := h
  have hdrop : b.dropWhile isBlank=[] := by
    have hd := dropWhile_blanks hb []
    rwa [List.append_nil] at hd
  have hstop : Stops exprOps b := by
    refine ⟨?_,by rw [hdrop]; decide⟩
    have hd := noDigit_blanks hb (show NoDigit [] from rfl)
    rwa [List.append_nil] at hd
  have hmeets := (allComplete n).expr t x b false [] hx hstop
  rw [hdrop] at hmeets
  rw [← bind_ok t.eval]
  apply hmeets.andThen
  intro v ds _
  exact meets_value

theorem calcEval_complete {t : Expr} (h : DerivesString t s) : (calcEval s).Meets [] false t.eval :=
  parse_complete _ h

theorem calcEval_not_running (s : List UInt8) : calcEval s ≠ .running := by
  intro h
  have hgood := good_calcEval s
  rw [h] at hgood
  exact hgood trivial

theorem parse_iff (hn : 0∉s) (hrun : (parseExpr n ⟨s,false,[]⟩).andThen checkEnd ≠ .running) :
    (∃ pr, (parseExpr n ⟨s,false,[]⟩).andThen checkEnd = .value v pr ∧ pr.error=false) ↔
      ∃ t, DerivesString t s ∧ t.eval = .ok v := by
  constructor
  · rintro ⟨pr,h,he⟩
    exact parse_sound hn h he
  · rintro ⟨t,ht,hv⟩
    have hmeets := parse_complete n ht
    rw [hv] at hmeets
    obtain ⟨ds,h⟩ := hmeets.resolve_left hrun
    exact ⟨_,h,rfl⟩

def Accepts (s : List UInt8) (v : Int) : Prop := ∃ pr, calcEval s = .value v pr ∧ pr.error=false

theorem accepts_iff (hn : 0∉s) : Accepts s v ↔ ∃ t, DerivesString t s ∧ t.eval = .ok v :=
  parse_iff hn (calcEval_not_running s)

/-- The calculator returns or traps on every string. It reports no error with value `v` exactly if the
string is derivable with value `v`, and a derivable string whose evaluation comes to `LONG_MIN` by -1
traps. -/
theorem calc_correct (s : CStr) : calcEval s.bytes ≠ .running ∧
    (∀ v, (∃ pr, calcEval s.bytes = .value v pr ∧ pr.error=false) ↔
      ∃ t, DerivesString t s.bytes ∧ t.eval = .ok v) ∧
    ∀ t, DerivesString t s.bytes → t.eval = .error .overflow → ∃ pr, calcEval s.bytes = .trap pr := by
  refine ⟨calcEval_not_running _,?_,?_⟩
  · intro v
    exact accepts_iff s.nul_free
  · intro t ht hv
    have hmeets := calcEval_complete ht
    rw [hv] at hmeets
    exact hmeets.resolve_left (calcEval_not_running _)

def Outcome.divisions : Outcome → List (Int × Int)
  | .running => []
  | .trap pr => pr.divisions
  | .value _ pr => pr.divisions

end MyKernel.Calc
