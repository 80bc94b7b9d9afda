import Mathlib.Data.List.Basic
import MyKernel.Calc.Grammar

/-! Every call of the calculator returns or traps, and never divides by zero. -/
namespace MyKernel.Calc
open Signed

variable {pr pr' pr1 : CalcParser} {o : Outcome} {f : Int → CalcParser → Outcome} {v w : Int} {n : Nat}
  {c : UInt8} {enough enough1 : Prop}

def Word (v : Int) : Prop := -2147483648≤v ∧ v≤2147483647

def SafeDivision (d : Int × Int) : Prop := d.2≠0 ∧ ¬ (d.1=LONG_MIN ∧ d.2 = -1)

structure Onward (pr pr' : CalcParser) : Prop where
  length : pr'.p.length≤pr.p.length
  sticky : pr.error=true → pr'.error=true
  safe : (∀ d∈pr.divisions, SafeDivision d) → ∀ d∈pr'.divisions, SafeDivision d

/-- The call returned a word, or the last division was `LONG_MIN` by -1, or it had too little fuel. -/
def Outcome.Good (enough : Prop) (pr : CalcParser) : Outcome → Prop
  | .running => ¬ enough
  | .trap pr' => ∃ pr1, Onward pr pr1 ∧ pr'=pr1.divide LONG_MIN (-1)
  | .value v pr' => Onward pr pr' ∧ Word v

theorem Onward.refl (pr : CalcParser) : Onward pr pr := ⟨Nat.le_refl _,id,id⟩

theorem Onward.trans {pr2 : CalcParser} (h : Onward pr pr1) (h' : Onward pr1 pr2) : Onward pr pr2 :=
  ⟨Nat.le_trans h'.length h.length,fun he => h'.sticky (h.sticky he),fun hd => h'.safe (h.safe hd)⟩

theorem onward_skip (pr : CalcParser) : Onward pr (skipSpaces pr) :=
  ⟨(List.dropWhile_sublist _).length_le,id,id⟩

theorem onward_advance (pr : CalcParser) : Onward pr pr.advance :=
  ⟨by simp [CalcParser.advance],id,id⟩

theorem onward_fail (pr : CalcParser) : Onward pr pr.fail := ⟨Nat.le_refl _,fun _ => rfl, id⟩

theorem onward_divide (h : SafeDivision (v,w)) : Onward pr (pr.divide v w) := by
  refine ⟨Nat.le_refl _,id,?_⟩
  intro hd d hmem
  cases List.mem_cons.mp hmem with
  | inl he =>
    rw [he]
    exact h
  | inr hmem => exact hd d hmem

theorem word_wrap32 (x : Int) : Word (wrap32 x) := wrap32_range x

theorem word_zero : Word 0 := ⟨by omega,by omega⟩

theorem advance_length (h : (skipSpaces pr).cur=c) (hc : c≠0) : (skipSpaces pr).advance.p.length+1≤pr.p.length := by
  have hle := (onward_skip pr).length
  cases hp : (skipSpaces pr).p with
  | nil =>
    rw [CalcParser.cur,hp] at h
    exact absurd h.symm hc
  | cons d ds =>
    rw [hp,List.length_cons] at hle
    simp only [CalcParser.advance,hp,List.tail_cons]
    exact hle

theorem onward_next (pr : CalcParser) : Onward pr (skipSpaces pr).advance :=
  (onward_skip pr).trans (onward_advance _)

theorem Outcome.Good.onward (h : o.Good enough1 pr1) (ho : Onward pr pr1) (he : enough → enough1) :
    o.Good enough pr := by
  cases o with
  | running => exact fun hen => h (he hen)
  | trap pr' =>
    obtain ⟨pr2,h2,heq⟩ := h
    exact ⟨pr2,ho.trans h2,heq⟩
  | value v pr' => exact ⟨ho.trans h.1,h.2⟩

theorem Outcome.Good.andThen (h : o.Good enough1 pr) (he : enough → enough1)
    (hf : ∀ v pr', Onward pr pr' → Word v → (f v pr').Good enough pr') : (o.andThen f).Good enough pr := by
  cases o with
  | running => exact fun hen => h (he hen)
  | trap pr' => exact h
  | value v pr' => exact (hf v pr' h.1 h.2).onward h.1 id

theorem good_negated : (negated v pr).Good enough pr := ⟨Onward.refl pr,word_wrap32 _⟩

theorem good_closeParen (hv : Word v) : (closeParen v pr).Good enough pr := by
  rw [closeParen]
  split
  · exact ⟨(onward_skip pr).trans (onward_fail _),word_zero⟩
  · exact ⟨onward_next pr,hv⟩

theorem good_number : (number pr).Good enough pr := by
  cases hd : isDigit pr.cur with
  | false =>
    rw [number,if_pos (by simp [hd])]
    exact ⟨onward_fail pr,word_zero⟩
  | true =>
    rw [number_eq hd]
    exact ⟨⟨(List.dropWhile_sublist _).length_le,id,id⟩,word_wrap32 _⟩

theorem raised_eq (hw : Word w) : raised v w pr =
    if w<0 then .value 0 pr.fail else .value (wrap32 (v^w.toNat)) pr := by
  rw [raised,ipow_eq hw.2,power]
  split
  next h =>
    split at h
    next hneg => rw [if_pos hneg]
    next => simp [Except.toOption] at h
  next h =>
    split at h
    next => simp [Except.toOption] at h
    next hneg =>
      rw [if_neg hneg]
      rw [Except.toOption,Option.some_inj] at h
      rw [h]

theorem good_raised (hw : Word w) : (raised v w pr).Good enough pr := by
  rw [raised_eq hw]
  split
  · exact ⟨onward_fail pr,word_zero⟩
  · exact ⟨Onward.refl pr,word_wrap32 _⟩

theorem word_tdiv (hv : Word v) (hsafe : SafeDivision (v,w)) : Word (v.tdiv w) := by
  have habs : (v.tdiv w).natAbs=v.natAbs/w.natAbs := Int.natAbs_tdiv v w
  have hle := Nat.div_le_self v.natAbs w.natAbs
  unfold Word at hv ⊢
  unfold SafeDivision LONG_MIN at hsafe
  by_cases hone : w.natAbs=1
  · have hw : w=1 ∨ w = -1 := by omega
    cases hw with
    | inl hw =>
      rw [hw,Int.tdiv_one]
      exact hv
    | inr hw =>
      rw [hw,Int.tdiv_neg,Int.tdiv_one]
      have hne : v ≠ -2147483648 := fun he => hsafe.2 ⟨he,hw⟩
      omega
  · have hhalf : v.natAbs/w.natAbs≤v.natAbs/2 := Nat.div_le_div_left (by omega) (by omega)
    omega

/-- Six calls for every character and a few more are enough. -/
structure AllGood (n : Nat) : Prop where
  factor : ∀ pr, (parseFactor n pr).Good (6*pr.p.length+1≤n) pr
  power : ∀ pr, (parsePower n pr).Good (6*pr.p.length+2≤n) pr
  term : ∀ pr, (parseTerm n pr).Good (6*pr.p.length+3≤n) pr
  termLoop : ∀ v pr, Word v → (termLoop n v pr).Good (6*pr.p.length+2≤n) pr
  expr : ∀ pr, (parseExpr n pr).Good (6*pr.p.length+4≤n) pr
  exprLoop : ∀ v pr, Word v → (exprLoop n v pr).Good (6*pr.p.length+3≤n) pr

theorem AllGood.factor_succ (h : AllGood n) (pr : CalcParser) :
    (parseFactor (n+1) pr).Good (6*pr.p.length+1≤n+1) pr := by
  rw [parseFactor]
  split
  next hc =>
    have hlt := advance_length hc (by decide)
    apply Outcome.Good.onward _ (onward_next pr) id
    exact (h.factor _).andThen (by omega) fun _ _ _ _ => good_negated
  next =>
    split
    next hc =>
      have hlt := advance_length hc (by decide)
      exact (h.factor _).onward (onward_next pr) (by omega)
    next =>
      split
      next hc =>
        have hlt := advance_length hc (by decide)
        apply Outcome.Good.onward _ (onward_next pr) id
        exact (h.expr _).andThen (by omega) fun _ _ _ hv => good_closeParen hv
      next => exact good_number.onward (onward_skip pr) id

theorem AllGood.power_succ (h : AllGood n) (pr : CalcParser) :
    (parsePower (n+1) pr).Good (6*pr.p.length+2≤n+1) pr := by
  rw [parsePower]
  apply (h.factor pr).andThen (by omega)
  intro base pr' ho hbase
  have hle := ho.length
  dsimp only
  split
  next hc =>
    have hlt := advance_length hc (by decide)
    apply Outcome.Good.onward _ (onward_next pr') id
    exact (h.power _).andThen (by omega) fun _ _ _ hexp => good_raised hexp
  next => exact ⟨onward_skip pr',hbase⟩

theorem AllGood.term_succ (h : AllGood n) (pr : CalcParser) : (parseTerm (n+1) pr).Good (6*pr.p.length+3≤n+1) pr := by
  rw [parseTerm]
  apply (h.power pr).andThen (by omega)
  intro v pr' ho hv
  have hle := ho.length
  exact (h.termLoop v pr' hv).onward (Onward.refl pr') (by omega)

theorem AllGood.termLoop_succ (h : AllGood n) (v : Int) (pr : CalcParser) (hv : Word v) :
    (Calc.termLoop (n+1) v pr).Good (6*pr.p.length+2≤n+1) pr := by
  rw [Calc.termLoop]
  split
  next hc =>
    have hlt := advance_length hc (by decide)
    apply Outcome.Good.onward _ (onward_next pr) id
    apply (h.power _).andThen (by omega)
    intro rhs pr' ho _
    have hle := ho.length
    exact (h.termLoop _ pr' (word_wrap32 _)).onward (Onward.refl pr') (by omega)
  next =>
    split
    next hc =>
      have hlt := advance_length hc (by decide)
      apply Outcome.Good.onward _ (onward_next pr) id
      apply (h.power _).andThen (by omega)
      intro rhs pr' ho hrhs
      have hle := ho.length
      split
      next => exact ⟨onward_fail pr',word_zero⟩
      next h0 =>
        split
        next htrap => exact ⟨pr',Onward.refl pr',by rw [htrap.1,htrap.2]⟩
        next hsafe =>
          have hd : SafeDivision (v,rhs) := ⟨h0,hsafe⟩
          have hp : (pr'.divide v rhs).p=pr'.p := rfl
          apply (h.termLoop _ (pr'.divide v rhs) (word_tdiv hv hd)).onward (onward_divide hd)
          rw [hp]
          omega
    next => exact ⟨onward_skip pr,hv⟩

theorem AllGood.expr_succ (h : AllGood n) (pr : CalcParser) : (parseExpr (n+1) pr).Good (6*pr.p.length+4≤n+1) pr := by
  rw [parseExpr]
  apply (h.term pr).andThen (by omega)
  intro v pr' ho hv
  have hle := ho.length
  exact (h.exprLoop v pr' hv).onward (Onward.refl pr') (by omega)

theorem AllGood.exprLoop_succ (h : AllGood n) (v : Int) (pr : CalcParser) (hv : Word v) :
    (Calc.exprLoop (n+1) v pr).Good (6*pr.p.length+3≤n+1) pr := by
  have hop : ∀ g : Int → Int, ∀ c, (skipSpaces pr).cur=c → c≠0 →
      ((parseTerm n (skipSpaces pr).advance).andThen fun rhs pr' =>
        Calc.exprLoop n (wrap32 (g rhs)) pr').Good (6*pr.p.length+3≤n+1) pr := by
    intro g c hc hc0
    have hlt := advance_length hc hc0
    apply Outcome.Good.onward _ (onward_next pr) id
    apply (h.term _).andThen (by omega)
    intro rhs pr' ho _
    have hle := ho.length
    exact (h.exprLoop _ pr' (word_wrap32 _)).onward (Onward.refl pr') (by omega)
  rw [Calc.exprLoop]
  split
  next hc => exact hop (fun rhs => v+rhs) _ hc (by decide)
  next =>
    split
    next hc => exact hop (fun rhs => v-rhs) _ hc (by decide)
    next => exact ⟨onward_skip pr,hv⟩

theorem allGood (n : Nat) : AllGood n := by
  induction n with
  | zero => exact ⟨fun _ => Nat.not_succ_le_zero _,fun _ => Nat.not_succ_le_zero _,fun _ => Nat.not_succ_le_zero _,
      fun _ _ _ => Nat.not_succ_le_zero _,fun _ => Nat.not_succ_le_zero _,fun _ _ _ => Nat.not_succ_le_zero _⟩
  | succ n ih =>
    exact ⟨ih.factor_succ,ih.power_succ,ih.term_succ,ih.termLoop_succ,ih.expr_succ,
      ih.exprLoop_succ⟩

theorem Outcome.Good.word (h : (Outcome.value v pr').Good enough pr) : Word v := h.2

theorem good_checkEnd (hv : Word v) : (checkEnd v pr).Good enough pr := by
  rw [checkEnd]
  split
  · exact ⟨(onward_skip pr).trans (onward_fail _),hv⟩
  · exact ⟨onward_skip pr,hv⟩

theorem good_calcEval (expr : List UInt8) : (calcEval expr).Good True ⟨expr,false,[]⟩ := by
  rw [calcEval]
  exact ((allGood _).expr ⟨expr,false,[]⟩).andThen (fun _ => Nat.le_refl _)
    fun _ _ _ hv => good_checkEnd hv

end MyKernel.Calc
