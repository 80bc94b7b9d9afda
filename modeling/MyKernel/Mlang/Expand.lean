import MyKernel.Calc.Correct
import MyKernel.Mlang.Model

/-! What `expand_expr` writes. -/
namespace MyKernel.Mlang
open Calc (isDigit Accepts isBlank Blanks)

variable {vars : List (List UInt8 × Int)} {n u : Nat} {s out buf b text : List UInt8} {v : Int} {c : UInt8}

theorem isDigit_ofNat (u : Nat) : isDigit (48+u%10).toUInt8=true ∧ (48+u%10).toUInt8.toNat-48=u%10 := by
  have hlt : u%10<10 := Nat.mod_lt _ (by decide)
  generalize u%10=d at hlt
  match d, hlt with
  | 0, _ | 1, _ | 2, _ | 3, _ | 4, _ | 5, _ | 6, _ | 7, _ | 8, _ | 9, _ => exact ⟨rfl,rfl⟩

theorem decimalLoop_digits (htext : ∀ c∈text, isDigit c=true) : ∀ c∈decimalLoop n u text, isDigit c=true := by
  induction n generalizing u text with
  | zero => exact htext
  | succ n ih =>
    rw [decimalLoop]
    split
    · exact htext
    · apply ih
      exact List.forall_mem_cons.mpr ⟨(isDigit_ofNat u).1,htext⟩

theorem decimalLoop_ne_nil (htext : text≠[]) : decimalLoop n u text≠[] := by
  induction n generalizing u text with
  | zero => exact htext
  | succ n ih =>
    rw [decimalLoop]
    split
    · exact htext
    · exact ih (List.cons_ne_nil _ _)

theorem decimalLoop_read (h : u<10^n) (text : List UInt8) :
    (decimalLoop n u text).foldl (fun v c => v*10+((c.toNat-48 : Nat) : Int)) 0 =
      text.foldl (fun v c => v*10+((c.toNat-48 : Nat) : Int)) (u : Int) := by
  induction n generalizing u text with
  | zero =>
    have hu : u=0 := by omega
    rw [decimalLoop,hu]
    rfl
  | succ n ih =>
    rw [decimalLoop]
    split
    next hu =>
      rw [hu]
      rfl
    next =>
      have hlt : u/10<10^n := by
        rw [pow_succ] at h
        omega
      rw [ih hlt,List.foldl_cons,(isDigit_ofNat u).2]
      congr 1
      omega

theorem decimal_digits (u : Nat) : ∀ c∈decimal u, isDigit c=true := by
  unfold decimal
  split
  · exact List.forall_mem_singleton.mpr rfl
  · exact decimalLoop_digits (List.forall_mem_nil _)

theorem decimal_ne_nil (u : Nat) : decimal u≠[] := by
  unfold decimal
  split
  next => exact List.cons_ne_nil _ _
  next hu =>
    rw [decimalLoop,if_neg hu]
    exact decimalLoop_ne_nil (List.cons_ne_nil _ _)

theorem decimal_read (h : u≤2147483648) : Calc.decimal (decimal u)=u := by
  unfold decimal
  split
  next hu =>
    rw [hu]
    rfl
  next => exact decimalLoop_read (by omega) []

theorem numberText_chars : ∀ c∈numberText v, c=0x2D ∨ isDigit c=true := by
  unfold numberText
  split
  · rw [List.forall_mem_cons]
    exact ⟨.inl rfl,fun c hc => .inr (decimal_digits _ c hc)⟩
  · exact fun c hc => .inr (decimal_digits _ c hc)

theorem numberText_nul : 0∉numberText v := by
  intro h
  cases numberText_chars 0 h with
  | inl h => cases h
  | inr h => cases h

/-- The passes of an expansion that ends: each writes the number for a name, or copies a character. -/
inductive Expands (vars : List (List UInt8 × Int)) : Nat → List UInt8 → List UInt8 → List UInt8 → Prop where
  | done {n : Nat} {out : List UInt8} : Expands vars n [] out out
  | name {n : Nat} {c : UInt8} {cs out buf : List UInt8} (hc : isIdentStart c=true)
      (hroom : (out++numberText ((varFind vars (takeName (c::cs)).1).getD 0)).length<128)
      (hrest : Expands vars n (takeName (c::cs)).2 (out++numberText ((varFind vars (takeName (c::cs)).1).getD 0)) buf) :
      Expands vars (n+1) (c::cs) out buf
  | char {n : Nat} {c : UInt8} {cs out buf : List UInt8} (hc : isIdentStart c=false) (hroom : out.length+1<128)
      (hrest : Expands vars n cs (out++[c]) buf) : Expands vars (n+1) (c::cs) out buf

theorem Expands.expandLoop (h : Expands vars n s out buf) : expandLoop vars n s out=some buf := by
  induction h with
  | done => rw [Mlang.expandLoop]
  | name hc hroom _ ih =>
    rw [Mlang.expandLoop,if_pos hc]
    dsimp only
    rw [if_pos hroom,ih]
  | char hc hroom _ ih => rw [Mlang.expandLoop,if_neg (Bool.eq_false_iff.mp hc),if_pos hroom,ih]

theorem Expands.nul (h : Expands vars n s out buf) (hs : 0∉s) (hout : 0∉out) : 0∉buf := by
  induction h with
  | done => exact hout
  | name _ _ _ ih =>
    apply ih
    · exact fun hmem => hs (List.mem_of_mem_drop hmem)
    · rw [List.mem_append]
      exact not_or.mpr ⟨hout,numberText_nul⟩
  | char _ _ _ ih =>
    rw [List.mem_cons,not_or] at hs
    apply ih hs.2
    rw [List.mem_append,List.mem_singleton]
    exact not_or.mpr ⟨hout,hs.1⟩

end MyKernel.Mlang
