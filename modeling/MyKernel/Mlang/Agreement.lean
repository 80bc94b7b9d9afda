import MyKernel.Mlang.Readback

/-! `eval_expr` against the grammar with identifiers. -/
namespace MyKernel.Mlang
open CString
open Calc (Word Accepts)

variable {vars : List (List UInt8 × Int)} {s buf : List UInt8} {v : Int}

theorem HasValue.separate (h : HasValue vars s v) : separate (lookup vars) .free (lex s)=true := by
  obtain ⟨e,he,_⟩ := h
  exact he.separate

end MyKernel.Mlang
