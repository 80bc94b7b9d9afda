import MyKernel.Mlang.Grammar

/-! Where a name may stand so that its number is read alone. -/
namespace MyKernel.Mlang
open Calc (isDigit isBlank Blanks)

variable {env : List UInt8 → Int} {b name : List UInt8} {c : UInt8} {ts a : List Tok}

/-- An operand may begin, or one has just ended: with a digit, or otherwise. -/
inductive Edge where
  | free | operand | digit
  deriving DecidableEq, Repr

def Edge.next (l : Edge) : Tok → Edge
  | .char c =>
    if isBlank c then (if l = .free then .free else .operand)
    else if isDigit c then .digit
    else if c=0x29 then .operand
    else .free
  | .ident _ => .operand

def Edge.after (l : Edge) (ts : List Tok) : Edge := ts.foldl Edge.next l

variable {l k : Edge}

/-- A name stands where an operand may begin, or where its number is refused as it is. -/
def stands (env : List UInt8 → Int) (l : Edge) : Tok → Bool
  | .char _ => true
  | .ident name => l == .free || (l == .operand && decide (0≤env name))

def separate (env : List UInt8 → Int) : Edge → List Tok → Bool
  | _, [] => true
  | l, t::ts => stands env l t && separate env (l.next t) ts

theorem separate_append (l : Edge) (a ts : List Tok) :
    separate env l (a++ts)=(separate env l a && separate env (l.after a) ts) := by
  induction a generalizing l with
  | nil => rfl
  | cons t a ih =>
    rw [List.cons_append,separate,ih,separate,Bool.and_assoc]
    rfl

theorem after_append (l : Edge) (a ts : List Tok) : l.after (a++ts)=(l.after a).after ts := List.foldl_append

theorem separate_chars (l : Edge) (b : List UInt8) : separate env l (b.map Tok.char)=true := by
  induction b generalizing l with
  | nil => rfl
  | cons c b ih =>
    rw [List.map_cons,separate,ih]
    rfl

theorem after_blanks (hb : Blanks b) (l : Edge) : l.after (b.map Tok.char) = .free ↔ l = .free := by
  induction b generalizing l with
  | nil => rfl
  | cons c b ih =>
    obtain ⟨hc,hb⟩ := List.forall_mem_cons.mp hb
    have hnext : l.next (.char c) = .free ↔ l = .free := by
      rw [Edge.next,if_pos hc]
      split
      next h => simp [h]
      next h => simp [h]
    exact (ih hb _).trans hnext

theorem CharTok.separate (h : CharTok c a ts) (hc : ∀ l : Edge, l.next (.char c)=k) (l : Edge) :
    separate env l ts=Mlang.separate env k a ∧ l.after ts=k.after a := by
  obtain ⟨b,hb,rfl⟩ := h
  rw [separate_append,after_append,separate_chars,Bool.true_and,Mlang.separate,hc]
  refine ⟨Bool.true_and _,?_⟩
  rw [← hc (l.after (b.map Tok.char))]
  rfl

/-- An operand is read, after which another may not begin. -/
def Reads (env : List UInt8 → Int) (l : Edge) (ts : List Tok) : Prop := separate env l ts=true ∧ l.after ts ≠ .free

theorem Reads.append (ha : Reads env l a) (hts : ∀ k, k ≠ .free → Reads env k ts) : Reads env l (a++ts) := by
  have hrest := hts _ ha.2
  refine ⟨?_,?_⟩
  · rw [separate_append,ha.1,hrest.1]
    rfl
  · rw [after_append]
    exact hrest.2

theorem CharTok.reads (h : CharTok c a ts) (hc : ∀ l : Edge, l.next (.char c) = .free) (ha : Reads env .free a) :
    Reads env l ts := by
  obtain ⟨hsep,hafter⟩ := h.separate hc l
  rw [Reads,hsep,hafter]
  exact ha

theorem CharTok.reads_paren (h : CharTok 0x29 [] ts) : Reads env l ts := by
  obtain ⟨hsep,hafter⟩ := h.separate (fun l => rfl) l
  rw [Reads,hsep,hafter]
  exact ⟨rfl,by decide⟩

theorem reads_digits {ds : List UInt8} (b : List UInt8) (hne : ds≠[]) (hall : ∀ c∈ds, isDigit c=true) :
    Reads env l (b.map Tok.char++ds.map Tok.char) := by
  rw [← List.map_append]
  refine ⟨separate_chars ..,?_⟩
  have hlast : isDigit (ds.getLast hne)=true := hall _ (List.getLast_mem hne)
  rw [← List.dropLast_append_getLast hne,← List.append_assoc,List.map_append,after_append]
  have hblank := (Calc.digit_first hlast).1
  simp [Edge.after,Edge.next,hblank,hlast]

theorem reads_ident (hb : Blanks b) : Reads env .free (b.map Tok.char++[.ident name]) := by
  have hfree : Edge.free.after (b.map Tok.char) = .free := (after_blanks hb _).mpr rfl
  refine ⟨?_,?_⟩
  · rw [separate_append,separate_chars,hfree]
    rfl
  · rw [after_append,hfree]
    intro h
    cases h

mutual

theorem Expr.reads (e : Expr) {ts : List Tok} (h : e.Derives ts) : Reads env .free ts := by
  cases e with
  | mk t rest =>
    simp only [Expr.Derives] at h
    obtain ⟨a,b,rfl,ha,hb⟩ := h
    exact (Term.reads t ha).append fun k hk => ExprTail.reads rest hb hk

theorem ExprTail.reads (e : ExprTail) {ts : List Tok} {l : Edge} (h : e.Derives ts) (hl : l ≠ .free) :
    Reads env l ts := by
  cases e with
  | done =>
    simp only [ExprTail.Derives] at h
    rw [h]
    exact ⟨rfl,hl⟩
  | add t rest | sub t rest =>
    simp only [ExprTail.Derives] at h
    obtain ⟨a,b,htok,ha,hb⟩ := h
    exact htok.reads (fun _ => rfl) ((Term.reads t ha).append fun k hk => ExprTail.reads rest hb hk)

theorem Term.reads (e : Term) {ts : List Tok} (h : e.Derives ts) : Reads env .free ts := by
  cases e with
  | mk p rest =>
    simp only [Term.Derives] at h
    obtain ⟨a,b,rfl,ha,hb⟩ := h
    exact (Power.reads p ha).append fun k hk => TermTail.reads rest hb hk

theorem TermTail.reads (e : TermTail) {ts : List Tok} {l : Edge} (h : e.Derives ts) (hl : l ≠ .free) :
    Reads env l ts := by
  cases e with
  | done =>
    simp only [TermTail.Derives] at h
    rw [h]
    exact ⟨rfl,hl⟩
  | mul p rest | div p rest =>
    simp only [TermTail.Derives] at h
    obtain ⟨a,b,htok,ha,hb⟩ := h
    exact htok.reads (fun _ => rfl) ((Power.reads p ha).append fun k hk => TermTail.reads rest hb hk)

theorem Power.reads (e : Power) {ts : List Tok} (h : e.Derives ts) : Reads env .free ts := by
  cases e with
  | factor f =>
    simp only [Power.Derives] at h
    exact Factor.reads f h
  | pow f exp =>
    simp only [Power.Derives] at h
    obtain ⟨a,b,c,rfl,ha,htok,hc⟩ := h
    exact (Factor.reads f ha).append fun _ _ => htok.reads (fun _ => rfl) (Power.reads exp hc)

theorem Factor.reads (e : Factor) {ts : List Tok} (h : e.Derives ts) : Reads env .free ts := by
  cases e with
  | neg f | pos f =>
    simp only [Factor.Derives] at h
    obtain ⟨a,htok,ha⟩ := h
    exact htok.reads (fun _ => rfl) (Factor.reads f ha)
  | paren e =>
    simp only [Factor.Derives] at h
    obtain ⟨a,b,htok,ha,hclose⟩ := h
    exact htok.reads (fun _ => rfl) ((Expr.reads e ha).append fun _ _ => hclose.reads_paren)
  | digits ds =>
    simp only [Factor.Derives] at h
    obtain ⟨b,_,rfl,hne,hall⟩ := h
    exact reads_digits b hne hall
  | ident name =>
    simp only [Factor.Derives] at h
    obtain ⟨b,hb,rfl⟩ := h
    exact reads_ident hb

end

theorem DerivesAll.separate {e : Expr} (h : DerivesAll e ts) : separate env .free ts=true := by
  obtain ⟨a,b,rfl,ha,hb⟩ := h
  rw [separate_append,(Expr.reads e ha).1,separate_chars]
  rfl

end MyKernel.Mlang
