import MyKernel.Mlang.Expand

/-! Conditions. Each side is cut to the 64 bytes of its buffer. -/
namespace MyKernel.Mlang
open Calc (isBlank Blanks)

variable {vars : List (List UInt8 × Int)} {cond l r : List UInt8} {op : Op} {c : UInt8} {res : Bool}

def Op.text : Op → List UInt8
  | .eq => [0x3D,0x3D]
  | .ne => [0x21,0x3D]
  | .le => [0x3C,0x3D]
  | .ge => [0x3E,0x3D]
  | .lt => [0x3C]
  | .gt => [0x3E]

def beginsWith (text : List UInt8) (op : Op) : Bool := op.text.isPrefixOf text

def opAt (text : List UInt8) : Option Op := [Op.eq,.ne,.le,.ge,.lt,.gt].find? (beginsWith text)

/-- `op` is the first operator of the condition, between `l` and `r`. -/
structure FirstOp (cond l : List UInt8) (op : Op) (r : List UInt8) : Prop where
  split : cond=l++op.text++r
  longest : opAt (op.text++r)=some op
  first : ∀ pre c post, l=pre++c::post → opAt (c::post++op.text++r)=none

theorem isPrefixOf_pair (a b c : UInt8) (cs : List UInt8) (hb : b≠0) :
    [a,b].isPrefixOf (c::cs)=decide (c=a ∧ cs.headD 0=b) := by
  cases cs with
  | nil => simp [List.isPrefixOf,hb.symm]
  | cons d ds => simp [List.isPrefixOf,Bool.decide_and,eq_comm,beq_eq_decide]

theorem isPrefixOf_single (a c : UInt8) (cs : List UInt8) : [a].isPrefixOf (c::cs)=decide (c=a) := by
  simp [List.isPrefixOf,eq_comm,beq_eq_decide]

theorem find_begins {text : List UInt8} {q : Prop} [Decidable q] (op : Op) (ops : List Op)
    (h : beginsWith text op=decide q) :
    (op::ops).find? (beginsWith text)=if q then some op else ops.find? (beginsWith text) := by
  rw [List.find?_cons,h]
  by_cases hq : q
  · rw [decide_eq_true hq,if_pos hq]
  · rw [decide_eq_false hq,if_neg hq]

theorem opAt_cons (c : UInt8) (cs : List UInt8) : opAt (c::cs) =
    if c=0x3D ∧ cs.headD 0=0x3D then some .eq
    else if c=0x21 ∧ cs.headD 0=0x3D then some .ne
    else if c=0x3C ∧ cs.headD 0=0x3D then some .le
    else if c=0x3E ∧ cs.headD 0=0x3D then some .ge
    else if c=0x3C then some .lt
    else if c=0x3E then some .gt
    else none := by
  have hpair (a : UInt8) := isPrefixOf_pair a 0x3D c cs (by decide)
  have hsingle (a : UInt8) := isPrefixOf_single a c cs
  rw [opAt,find_begins .eq _ (hpair 0x3D),find_begins .ne _ (hpair 0x21),
    find_begins .le _ (hpair 0x3C),find_begins .ge _ (hpair 0x3E),
    find_begins .lt _ (hsingle 0x3C),find_begins .gt _ (hsingle 0x3E),List.find?_nil]

theorem findOp_cons (c : UInt8) (cs : List UInt8) : findOp (c::cs) =
    ((opAt (c::cs)).map fun op => ([],op,(c::cs).drop op.text.length)).or
      ((findOp cs).map fun found => (c::found.1,found.2)) := by
  rw [findOp,opAt_cons]
  repeat' split
  all_goals simp [Op.text]

theorem FirstOp.findOp (h : FirstOp cond l op r) : findOp cond=some (l,op,r) := by
  obtain ⟨rfl,hlongest,hfirst⟩ := h
  induction l with
  | nil =>
    obtain ⟨c,cs,hop⟩ : ∃ c cs, op.text=c::cs := by
      cases op with
      | eq | ne | le | ge | lt | gt => exact ⟨_,_,rfl⟩
    rw [List.nil_append,hop,List.cons_append,findOp_cons,← List.cons_append,← hop,hlongest,Option.map_some,
      Option.some_or,List.drop_left]
  | cons c l ih =>
    have hnone := hfirst [] c l rfl
    have hrest := ih fun pre d post hl => hfirst (c::pre) d post (by rw [hl,List.cons_append])
    rw [List.cons_append,List.cons_append,findOp_cons,← List.cons_append,← List.cons_append,hnone,
      Option.map_none,Option.none_or,hrest,Option.map_some]

theorem opText_skip (op : Op) (r : List UInt8) : (op.text++r).dropWhile isBlank=op.text++r := by
  cases op with
  | eq | ne | le | ge | lt | gt => rfl

theorem skipWs_append (l : List UInt8) (op : Op) (r : List UInt8) : skipWs (l++op.text++r)=skipWs l++op.text++r := by
  rw [List.append_assoc,List.append_assoc]
  induction l with
  | nil => exact opText_skip op r
  | cons c l ih =>
    unfold skipWs at ih ⊢
    rw [List.cons_append,List.dropWhile_cons,List.dropWhile_cons]
    split
    next => exact ih
    next => rfl

theorem skipWs_split (l : List UInt8) : ∃ b, Blanks b ∧ l=b++skipWs l :=
  ⟨l.takeWhile isBlank,fun _ hc => List.mem_takeWhile_imp hc,List.takeWhile_append_dropWhile.symm⟩

theorem FirstOp.skip (h : FirstOp cond l op r) : FirstOp (skipWs cond) (skipWs l) op r := by
  obtain ⟨b,_,hb⟩ := skipWs_split l
  refine ⟨?_,h.longest,?_⟩
  · rw [h.split,skipWs_append]
  · intro pre c post hl
    refine h.first (b++pre) c post ?_
    rw [hb,hl,List.append_assoc]

end MyKernel.Mlang
