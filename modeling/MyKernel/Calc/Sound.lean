import Mathlib.Data.List.TakeWhile
import MyKernel.Calc.Returns

/-! What the calculator accepts is derived by its part of the grammar. -/
namespace MyKernel.Calc
open Signed

variable {pr pr' pr1 : CalcParser} {o : Outcome} {f : Int → CalcParser → Outcome} {v w : Int} {n : Nat}
  {c : UInt8} {a b s r x : List UInt8}

theorem andThen_value : o.andThen f = .value v pr' ↔
    ∃ u pr1, o = .value u pr1 ∧ f u pr1 = .value v pr' := by
  cases o with
  | running => simp [Outcome.andThen]
  | trap pr => simp [Outcome.andThen]
  | value u pr1 => simp [Outcome.andThen]

theorem Blanks.append (ha : Blanks a) (hb : Blanks b) : Blanks (a++b) := by
  intro c hc
  cases List.mem_append.mp hc with
  | inl hc => exact ha c hc
  | inr hc => exact hb c hc

theorem Token.blanks (h : Token c x s) (hb : Blanks b) : Token c x (b++s) := by
  obtain ⟨b',hb',hs⟩ := h
  exact ⟨b++b',hb.append hb',by rw [hs,List.append_assoc]⟩

theorem Token.append (h : Token c x s) (r : List UInt8) : Token c (x++r) (s++r) := by
  obtain ⟨b,hb,hs⟩ := h
  exact ⟨b,hb,by simp [hs]⟩

theorem skip_eq (pr : CalcParser) : ∃ b, Blanks b ∧ pr.p=b++(skipSpaces pr).p := by
  refine ⟨pr.p.takeWhile isBlank,?_,List.takeWhile_append_dropWhile.symm⟩
  intro c hc
  exact List.mem_takeWhile_imp hc

theorem token_of_cur (h : (skipSpaces pr).cur=c) (hc : c≠0) : Token c (skipSpaces pr).advance.p pr.p := by
  obtain ⟨b,hb,hp⟩ := skip_eq pr
  refine ⟨b,hb,?_⟩
  cases hs : (skipSpaces pr).p with
  | nil =>
    rw [CalcParser.cur,hs] at h
    exact absurd h.symm hc
  | cons d ds =>
    rw [CalcParser.cur,hs] at h
    have hd : d=c := h
    simp only [CalcParser.advance,hs,List.tail_cons]
    rw [hp,hs,hd]

/-- From `pr` to `pr'` the parser has passed a string with property `D`, and the blanks after it. -/
def Passed (D : List UInt8 → Prop) (pr pr' : CalcParser) : Prop :=
  pr.error=false ∧ ∃ s b, pr.p=s++(b++pr'.p) ∧ Blanks b ∧ D s

theorem Passed.mono {D E : List UInt8 → Prop} (h : Passed D pr pr') (hD : ∀ s, D s → E s) : Passed E pr pr' := by
  obtain ⟨he,s,b,hp,hb,hs⟩ := h
  exact ⟨he,s,b,hp,hb,hD s hs⟩

/-- A string may take in the blanks before it, or leave them to what follows. -/
def Absorbs (D : List UInt8 → Prop) : Prop := ∀ s b b' r, D s → Blanks b → Blanks b' →
  ∃ s' b'', b++(s++(b'++r))=s'++(b''++r) ∧ Blanks b'' ∧ D s'

theorem absorbs_nil {D : List UInt8 → Prop} (h : ∀ s, D s ↔ s=[]) : Absorbs D := by
  intro s b b' r hs hb hb'
  refine ⟨[],b++b',?_,hb.append hb',(h []).mpr rfl⟩
  rw [(h s).mp hs]
  simp

theorem absorbs_blanks {D : List UInt8 → Prop} (h : ∀ s b, D s → Blanks b → D (b++s)) : Absorbs D := by
  intro s b b' r hs hb hb'
  exact ⟨b++s,b',by simp,hb',h s b hs hb⟩

theorem TermTail.absorbs (tail : TermTail) : Absorbs tail.Derives := by
  cases tail with
  | done => exact absorbs_nil fun s => by simp only [TermTail.Derives]
  | mul p rest | div p rest =>
    refine absorbs_blanks fun s b hs hb => ?_
    simp only [TermTail.Derives] at hs ⊢
    obtain ⟨x,y,ht,hxy⟩ := hs
    exact ⟨x,y,ht.blanks hb,hxy⟩

theorem ExprTail.absorbs (tail : ExprTail) : Absorbs tail.Derives := by
  cases tail with
  | done => exact absorbs_nil fun s => by simp only [ExprTail.Derives]
  | add t rest | sub t rest =>
    refine absorbs_blanks fun s b hs hb => ?_
    simp only [ExprTail.Derives] at hs ⊢
    obtain ⟨x,y,ht,hxy⟩ := hs
    exact ⟨x,y,ht.blanks hb,hxy⟩

theorem Passed.join {D E : List UInt8 → Prop} (h : Passed D pr pr1) (h' : Passed E pr1 pr') (habs : Absorbs E) :
    Passed (fun s => ∃ a b, s=a++b ∧ D a ∧ E b) pr pr' := by
  obtain ⟨he,s1,b1,hp1,hb1,hs1⟩ := h
  obtain ⟨_,s2,b2,hp2,hb2,hs2⟩ := h'
  obtain ⟨s,b,heq,hb,hs⟩ := habs s2 b1 b2 pr'.p hs2 hb1 hb2
  refine ⟨he,s1++s,b,?_,hb,s1,s,rfl,hs1,hs⟩
  rw [hp1,hp2,heq,List.append_assoc]

theorem Passed.operator {D E : List UInt8 → Prop} (hc : (skipSpaces pr).cur=c) (h0 : c≠0)
    (h : Passed D (skipSpaces pr).advance pr1) (h' : Passed E pr1 pr') (habs : Absorbs E) :
    Passed (fun s => ∃ a b, Token c (a++b) s ∧ D a ∧ E b) pr pr' := by
  obtain ⟨he,s,b,hp,hb,x,y,rfl,hx,hy⟩ := h.join h' habs
  obtain ⟨bt,hbt,htok⟩ := token_of_cur hc h0
  refine ⟨he,bt++c::(x++y),b,?_,hb,x,y,⟨bt,hbt,rfl⟩,hx,hy⟩
  rw [htok,hp]
  simp

structure AllSound (n : Nat) : Prop where
  factor : ∀ pr v pr', parseFactor n pr = .value v pr' → pr'.error=false →
    pr.error=false ∧ ∃ (t : Factor) (s : List UInt8), pr.p=s++pr'.p ∧ t.Derives s ∧ t.eval = .ok v
  power : ∀ pr v pr', parsePower n pr = .value v pr' → pr'.error=false →
    ∃ t : Power, Passed t.Derives pr pr' ∧ t.eval = .ok v
  term : ∀ pr v pr', parseTerm n pr = .value v pr' → pr'.error=false →
    ∃ t : Term, Passed t.Derives pr pr' ∧ t.eval = .ok v
  termLoop : ∀ u pr v pr', termLoop n u pr = .value v pr' → pr'.error=false →
    ∃ t : TermTail, Passed t.Derives pr pr' ∧ t.eval u = .ok v
  expr : ∀ pr v pr', parseExpr n pr = .value v pr' → pr'.error=false →
    ∃ t : Expr, Passed t.Derives pr pr' ∧ t.eval = .ok v
  exprLoop : ∀ u pr v pr', exprLoop n u pr = .value v pr' → pr'.error=false →
    ∃ t : ExprTail, Passed t.Derives pr pr' ∧ t.eval u = .ok v

theorem number_sound (h : number (skipSpaces pr) = .value v pr') (he : pr'.error=false) :
    pr.error=false ∧ ∃ (t : Factor) (s : List UInt8), pr.p=s++pr'.p ∧ t.Derives s ∧ t.eval = .ok v := by
  cases hd : isDigit (skipSpaces pr).cur with
  | false =>
    rw [number,if_pos (by simp [hd])] at h
    obtain ⟨_,rfl⟩ := Outcome.value.inj h
    cases he
  | true =>
    rw [number_eq hd] at h
    obtain ⟨rfl,rfl⟩ := Outcome.value.inj h
    obtain ⟨b,hb,hp⟩ := skip_eq pr
    have hsplit : (skipSpaces pr).p=(skipSpaces pr).p.takeWhile isDigit++
        (skipSpaces pr).p.dropWhile isDigit := List.takeWhile_append_dropWhile.symm
    refine ⟨he,.digits ((skipSpaces pr).p.takeWhile isDigit),
      b++(skipSpaces pr).p.takeWhile isDigit,?_,?_,?_⟩
    · rw [List.append_assoc,← hsplit]
      exact hp
    · simp only [Factor.Derives]
      refine ⟨b,hb,rfl,?_,fun c hc => List.mem_takeWhile_imp hc⟩
      cases hs : (skipSpaces pr).p with
      | nil =>
        rw [CalcParser.cur,hs] at hd
        cases hd
      | cons d ds =>
        rw [CalcParser.cur,hs] at hd
        have hdd : isDigit d=true := hd
        simp [List.takeWhile_cons_of_pos hdd]
    · simp only [Factor.eval]

theorem AllSound.factor_succ (h : AllSound n) (hv : parseFactor (n+1) pr = .value v pr')
    (he : pr'.error=false) : pr.error=false ∧ ∃ (t : Factor) (s : List UInt8),
      pr.p=s++pr'.p ∧ t.Derives s ∧ t.eval = .ok v := by
  rw [parseFactor] at hv
  split at hv
  next hc =>
    obtain ⟨u,pr1,hu,hneg⟩ := andThen_value.mp hv
    obtain ⟨rfl,rfl⟩ := Outcome.value.inj hneg
    obtain ⟨he',t,s,hp,hs,ht⟩ := h.factor _ _ _ hu he
    obtain ⟨b,hb,htok⟩ := token_of_cur hc (by decide)
    refine ⟨he',.neg t,b++0x2D::s,by rw [htok,hp]; simp,?_,?_⟩
    · simp only [Factor.Derives]
      exact ⟨s,⟨b,hb,rfl⟩,hs⟩
    · simp only [Factor.eval,ht]
      rfl
  next =>
    split at hv
    next hc =>
      obtain ⟨he',t,s,hp,hs,ht⟩ := h.factor _ _ _ hv he
      obtain ⟨b,hb,htok⟩ := token_of_cur hc (by decide)
      refine ⟨he',.pos t,b++0x2B::s,by rw [htok,hp]; simp,?_,?_⟩
      · simp only [Factor.Derives]
        exact ⟨s,⟨b,hb,rfl⟩,hs⟩
      · simp only [Factor.eval,ht]
    next =>
      split at hv
      next hc =>
        obtain ⟨u,pr1,hu,hclose⟩ := andThen_value.mp hv
        rw [closeParen] at hclose
        split at hclose
        next =>
          obtain ⟨_,rfl⟩ := Outcome.value.inj hclose
          cases he
        next hend =>
          obtain ⟨rfl,rfl⟩ := Outcome.value.inj hclose
          obtain ⟨t,⟨he',s,b2,hp,hb2,hs⟩,ht⟩ := h.expr _ _ _ hu he
          obtain ⟨b,hb,htok⟩ := token_of_cur hc (by decide)
          obtain ⟨b3,hb3,htok'⟩ := token_of_cur (not_not.mp hend) (by decide)
          refine ⟨he',.paren t,b++0x28::(s++((b2++b3)++[0x29])),?_,?_,?_⟩
          · rw [htok,hp,htok']
            simp
          · simp only [Factor.Derives]
            exact ⟨s,(b2++b3)++[0x29],⟨b,hb,rfl⟩,hs,b2++b3,hb2.append hb3,rfl⟩
          · simp only [Factor.eval,ht]
      next => exact number_sound hv he

theorem AllSound.power_succ (h : AllSound n) (hv : parsePower (n+1) pr = .value v pr')
    (he : pr'.error=false) : ∃ t : Power, Passed t.Derives pr pr' ∧ t.eval = .ok v := by
  rw [parsePower] at hv
  obtain ⟨base,pr1,hbase,hv⟩ := andThen_value.mp hv
  dsimp only at hv
  split at hv
  next hc =>
    obtain ⟨exp,pr2,hexp,hv⟩ := andThen_value.mp hv
    have hword : Word exp := by
      have hgood := (allGood n).power (skipSpaces pr1).advance
      rw [hexp] at hgood
      exact hgood.word
    rw [raised_eq hword] at hv
    split at hv
    next =>
      obtain ⟨_,rfl⟩ := Outcome.value.inj hv
      cases he
    next hneg =>
      obtain ⟨rfl,rfl⟩ := Outcome.value.inj hv
      obtain ⟨q,⟨he',s2,b2,hp2,hb2,hs2⟩,hq⟩ := h.power _ _ _ hexp he
      obtain ⟨he'',t,s1,hp1,hs1,ht⟩ := h.factor _ _ _ hbase he'
      obtain ⟨b,hb,htok⟩ := token_of_cur hc (by decide)
      refine ⟨.pow t q,⟨he'',s1++(b++0x5E::s2),b2,?_,hb2,?_⟩,?_⟩
      · rw [hp1,htok,hp2]
        simp
      · simp only [Power.Derives]
        exact ⟨s1,b++0x5E::s2,s2,rfl,hs1,⟨b,hb,rfl⟩,hs2⟩
      · simp only [Power.eval,ht,hq,Except.bind,Calc.power,if_neg hneg]
  next =>
    obtain ⟨rfl,rfl⟩ := Outcome.value.inj hv
    obtain ⟨he',t,s,hp,hs,ht⟩ := h.factor _ _ _ hbase he
    obtain ⟨b,hb,hskip⟩ := skip_eq pr1
    refine ⟨.factor t,⟨he',s,b,by rw [hp,hskip],hb,?_⟩,?_⟩
    · simp only [Power.Derives]
      exact hs
    · simp only [Power.eval,ht]

theorem AllSound.term_succ (h : AllSound n) (hv : parseTerm (n+1) pr = .value v pr')
    (he : pr'.error=false) : ∃ t : Term, Passed t.Derives pr pr' ∧ t.eval = .ok v := by
  rw [parseTerm] at hv
  obtain ⟨u,pr1,hu,hloop⟩ := andThen_value.mp hv
  obtain ⟨tail,hpass',htail⟩ := h.termLoop _ _ _ _ hloop he
  obtain ⟨q,hpass,hq⟩ := h.power _ _ _ hu hpass'.1
  refine ⟨.mk q tail,(hpass.join hpass' tail.absorbs).mono ?_,?_⟩
  · simp only [Term.Derives,imp_self,implies_true]
  · simp only [Term.eval,hq,Except.bind,htail]

theorem AllSound.termLoop_succ (h : AllSound n) {u : Int}
    (hv : Calc.termLoop (n+1) u pr = .value v pr') (he : pr'.error=false) :
    ∃ t : TermTail, Passed t.Derives pr pr' ∧ t.eval u = .ok v := by
  rw [Calc.termLoop] at hv
  split at hv
  next hc =>
    obtain ⟨rhs,pr1,hrhs,hloop⟩ := andThen_value.mp hv
    obtain ⟨tail,hpass',htail⟩ := h.termLoop _ _ _ _ hloop he
    obtain ⟨q,hpass,hq⟩ := h.power _ _ _ hrhs hpass'.1
    refine ⟨.mul q tail,(Passed.operator hc (by decide) hpass hpass' tail.absorbs).mono ?_,?_⟩
    · simp only [TermTail.Derives,imp_self,implies_true]
    · simp only [TermTail.eval,hq,Except.bind,htail]
  next =>
    split at hv
    next hc =>
      obtain ⟨rhs,pr1,hrhs,hv⟩ := andThen_value.mp hv
      split at hv
      next =>
        obtain ⟨_,rfl⟩ := Outcome.value.inj hv
        cases he
      next h0 =>
        split at hv
        next => cases hv
        next hsafe =>
          obtain ⟨tail,hpass',htail⟩ := h.termLoop _ _ _ _ hv he
          -- the record of divisions has no part in what has been passed
          have hsame : Passed tail.Derives pr1 pr' := hpass'
          obtain ⟨q,hpass,hq⟩ := h.power _ _ _ hrhs hsame.1
          refine ⟨.div q tail,(Passed.operator hc (by decide) hpass hsame tail.absorbs).mono ?_,?_⟩
          · simp only [TermTail.Derives,imp_self,implies_true]
          · simp only [TermTail.eval,hq,Except.bind,quotient,if_neg h0,if_neg hsafe,htail]
    next =>
      obtain ⟨rfl,rfl⟩ := Outcome.value.inj hv
      obtain ⟨b,hb,hskip⟩ := skip_eq pr
      refine ⟨.done,⟨he,[],b,hskip,hb,?_⟩,?_⟩
      · simp only [TermTail.Derives]
      · simp only [TermTail.eval]

theorem AllSound.expr_succ (h : AllSound n) (hv : parseExpr (n+1) pr = .value v pr')
    (he : pr'.error=false) : ∃ t : Expr, Passed t.Derives pr pr' ∧ t.eval = .ok v := by
  rw [parseExpr] at hv
  obtain ⟨u,pr1,hu,hloop⟩ := andThen_value.mp hv
  obtain ⟨tail,hpass',htail⟩ := h.exprLoop _ _ _ _ hloop he
  obtain ⟨q,hpass,hq⟩ := h.term _ _ _ hu hpass'.1
  refine ⟨.mk q tail,(hpass.join hpass' tail.absorbs).mono ?_,?_⟩
  · simp only [Expr.Derives,imp_self,implies_true]
  · simp only [Expr.eval,hq,Except.bind,htail]

theorem AllSound.exprLoop_succ (h : AllSound n) {u : Int}
    (hv : Calc.exprLoop (n+1) u pr = .value v pr') (he : pr'.error=false) :
    ∃ t : ExprTail, Passed t.Derives pr pr' ∧ t.eval u = .ok v := by
  -- one operator; `w` is the value the loop goes on with
  have hone : ∀ (w : Int → Int) c, (skipSpaces pr).cur=c → c≠0 →
      ((parseTerm n (skipSpaces pr).advance).andThen fun rhs pr => Calc.exprLoop n (w rhs) pr) = .value v pr' →
      ∃ (q : Term) (tail : ExprTail) (rhs : Int), Passed (fun s => ∃ a b, Token c (a++b) s ∧ q.Derives a ∧
        tail.Derives b) pr pr' ∧ q.eval = .ok rhs ∧ tail.eval (w rhs) = .ok v := by
    intro w c hc h0 hv
    obtain ⟨rhs,pr1,hrhs,hloop⟩ := andThen_value.mp hv
    obtain ⟨tail,hpass',htail⟩ := h.exprLoop _ _ _ _ hloop he
    obtain ⟨q,hpass,hq⟩ := h.term _ _ _ hrhs hpass'.1
    exact ⟨q,tail,rhs,Passed.operator hc h0 hpass hpass' tail.absorbs,hq,htail⟩
  rw [Calc.exprLoop] at hv
  split at hv
  next hc =>
    obtain ⟨q,tail,rhs,hpass,hq,htail⟩ := hone _ _ hc (by decide) hv
    refine ⟨.add q tail,hpass.mono ?_,?_⟩
    · simp only [ExprTail.Derives,imp_self,implies_true]
    · simp only [ExprTail.eval,hq,Except.bind,htail]
  next =>
    split at hv
    next hc =>
      obtain ⟨q,tail,rhs,hpass,hq,htail⟩ := hone _ _ hc (by decide) hv
      refine ⟨.sub q tail,hpass.mono ?_,?_⟩
      · simp only [ExprTail.Derives,imp_self,implies_true]
      · simp only [ExprTail.eval,hq,Except.bind,htail]
    next =>
      obtain ⟨rfl,rfl⟩ := Outcome.value.inj hv
      obtain ⟨b,hb,hskip⟩ := skip_eq pr
      refine ⟨.done,⟨he,[],b,hskip,hb,?_⟩,?_⟩
      · simp only [ExprTail.Derives]
      · simp only [ExprTail.eval]

theorem allSound (n : Nat) : AllSound n := by
  induction n with
  | zero =>
    constructor
    · intro pr v pr' h
      simp [parseFactor] at h
    · intro pr v pr' h
      simp [parsePower] at h
    · intro pr v pr' h
      simp [parseTerm] at h
    · intro u pr v pr' h
      simp [termLoop] at h
    · intro pr v pr' h
      simp [parseExpr] at h
    · intro u pr v pr' h
      simp [exprLoop] at h
  | succ n ih =>
    exact ⟨fun _ _ _ => ih.factor_succ,fun _ _ _ => ih.power_succ,fun _ _ _ => ih.term_succ,
      fun _ _ _ _ => ih.termLoop_succ,fun _ _ _ => ih.expr_succ,fun _ _ _ _ => ih.exprLoop_succ⟩

theorem parse_sound (hn : 0∉s) (h : (parseExpr n ⟨s,false,[]⟩).andThen checkEnd = .value v pr')
    (he : pr'.error=false) : ∃ e, DerivesString e s ∧ e.eval = .ok v := by
  obtain ⟨u,pr1,hu,hend⟩ := andThen_value.mp h
  rw [checkEnd] at hend
  split at hend
  next =>
    obtain ⟨_,rfl⟩ := Outcome.value.inj hend
    cases he
  next hcur =>
    obtain ⟨rfl,rfl⟩ := Outcome.value.inj hend
    obtain ⟨e,⟨_,x,b,hp,hb,hx⟩,hv⟩ := (allSound _).expr _ _ _ hu he
    obtain ⟨b',hb',hskip⟩ := skip_eq pr1
    have hs : s=x++(b++pr1.p) := hp
    -- what is left is not more than the terminator
    have hnil : (skipSpaces pr1).p=[] := by
      cases hleft : (skipSpaces pr1).p with
      | nil => rfl
      | cons d ds =>
        have hd : d=0 := by
          have hc := not_not.mp hcur
          rw [CalcParser.cur,hleft] at hc
          exact hc
        exfalso
        apply hn
        rw [hs,hskip,hleft,hd]
        simp
    refine ⟨e,⟨x,b++b',?_,hx,hb.append hb'⟩,hv⟩
    rw [hs,hskip,hnil,List.append_nil]

end MyKernel.Calc
