import MyKernel.Mlang.Separate
import MyKernel.Mlang.Splice

/-! Derivations of the text of separate tokens come from the tokens. -/
namespace MyKernel.Mlang
open Calc (isDigit isBlank Blanks NoDigit Token)

variable {env : List UInt8 → Int} {x y b rest name : List UInt8} {c : UInt8} {ts a : List Tok} {l : Edge}

theorem numberText_cases (v : Int) : v<0 ∧ numberText v=0x2D::decimal (-v).toNat ∨
    0≤v ∧ numberText v=decimal v.toNat := by
  unfold numberText
  split
  · exact .inl ⟨‹_›,rfl⟩
  · exact .inr ⟨by omega,rfl⟩

theorem numberText_ne_nil (v : Int) : numberText v≠[] := by
  obtain ⟨_,h⟩ | ⟨_,h⟩ := numberText_cases v
  · rw [h]
    exact List.cons_ne_nil _ _
  · rw [h]
    exact decimal_ne_nil _

theorem paste_tail (t : Tok) : ∀ c∈(t.paste env).tail, isDigit c=true := by
  cases t with
  | char c => exact List.forall_mem_nil _
  | ident name =>
    rw [Tok.paste]
    obtain ⟨_,h⟩ | ⟨_,h⟩ := numberText_cases (env name)
    · rw [h]
      exact decimal_digits _
    · rw [h]
      exact fun c hc => decimal_digits _ c (List.mem_of_mem_tail hc)

theorem splice_eq_nil (h : splice env ts=[]) : ts=[] := by
  cases ts with
  | nil => rfl
  | cons t ts =>
    cases t with
    | char c => cases h
    | ident name =>
      rw [splice_ident,List.append_eq_nil_iff] at h
      exact absurd h.1 (numberText_ne_nil _)

/-- A text is cut between two tokens, unless before a digit. -/
theorem splice_split (h : splice env ts=x++y) (hy : NoDigit y) :
    ∃ a b, ts=a++b ∧ splice env a=x ∧ splice env b=y := by
  induction ts generalizing x with
  | nil =>
    obtain ⟨rfl,rfl⟩ := List.append_eq_nil_iff.mp h.symm
    exact ⟨[],[],rfl,rfl,rfl⟩
  | cons t ts ih =>
    cases x with
    | nil => exact ⟨[],t::ts,rfl,rfl,h⟩
    | cons c x =>
      have hpaste : t.paste env++splice env ts=(c::x)++y := h
      rcases List.append_eq_append_iff.mp hpaste with ⟨z,hx,hz⟩ | ⟨z,ht,hz⟩
      · obtain ⟨a,b,rfl,ha,hb⟩ := ih hz
        refine ⟨t::a,b,rfl,?_,hb⟩
        rw [hx,← ha]
        rfl
      · cases z with
        | nil =>
          refine ⟨[t],ts,rfl,?_,hz.symm⟩
          rw [List.append_nil] at ht
          rw [← ht]
          exact List.append_nil _
        | cons d z =>
          have hd : isDigit d=true := by
            have htail := @paste_tail env t
            rw [ht] at htail
            exact htail d (List.mem_append_right _ List.mem_cons_self)
          rw [hz] at hy
          exact absurd hd (Bool.eq_false_iff.mp hy)

theorem splice_head (h : splice env ts=c::x) : (∃ a, ts = .char c::a ∧ splice env a=x) ∨
    ∃ name a, ts = .ident name::a ∧ numberText (env name)++splice env a=c::x := by
  cases ts with
  | nil => cases h
  | cons t a =>
    cases t with
    | char d =>
      obtain ⟨rfl,hrest⟩ := List.cons.inj h
      exact .inl ⟨a,rfl,hrest⟩
    | ident name => exact .inr ⟨name,a,rfl,h⟩

theorem numberText_head {v : Int} (h : numberText v++x=c::y) : c=0x2D ∨ isDigit c=true := by
  apply numberText_chars (v := v)
  obtain ⟨d,z,hz⟩ := List.exists_cons_of_ne_nil (numberText_ne_nil v)
  rw [hz] at h ⊢
  rw [(List.cons.inj h).1]
  exact List.mem_cons_self

theorem splice_blanks (hb : Blanks b) (h : splice env ts=b++x) : ∃ a, ts=b.map Tok.char++a ∧ splice env a=x := by
  induction b generalizing ts with
  | nil => exact ⟨ts,rfl,h⟩
  | cons c b ih =>
    obtain ⟨hc,hb⟩ := List.forall_mem_cons.mp hb
    obtain ⟨a,rfl,ha⟩ | ⟨name,a,_,hname⟩ := splice_head h
    · obtain ⟨a',rfl,ha'⟩ := ih hb ha
      exact ⟨a',rfl,ha'⟩
    · cases numberText_head hname with
      | inl h =>
        rw [h] at hc
        cases hc
      | inr h =>
        rw [(Calc.digit_first h).1] at hc
        cases hc

theorem token_back (h : Token c rest (splice env ts)) (hc : c≠0x2D) (hdigit : isDigit c=false) :
    ∃ a, CharTok c a ts ∧ splice env a=rest := by
  obtain ⟨b,hb,h⟩ := h
  obtain ⟨a,rfl,ha⟩ := splice_blanks hb h
  obtain ⟨a',rfl,ha'⟩ | ⟨name,a',_,hname⟩ := splice_head ha
  · exact ⟨a',⟨b,hb,rfl⟩,ha'⟩
  · cases numberText_head hname with
    | inl h => exact absurd h hc
    | inr h =>
      rw [h] at hdigit
      cases hdigit

theorem minus_cases (h : Token 0x2D rest (splice env ts)) : (∃ a, CharTok 0x2D a ts ∧ splice env a=rest) ∨
    ∃ b name a, Blanks b ∧ ts=b.map Tok.char++.ident name::a ∧ env name<0 ∧
      rest=decimal (-(env name)).toNat++splice env a := by
  obtain ⟨b,hb,h⟩ := h
  obtain ⟨a,rfl,ha⟩ := splice_blanks hb h
  obtain ⟨a',rfl,ha'⟩ | ⟨name,a',rfl,hname⟩ := splice_head ha
  · exact .inl ⟨a',⟨b,hb,rfl⟩,ha'⟩
  · obtain ⟨hneg,htext⟩ | ⟨_,htext⟩ := numberText_cases (env name)
    · rw [htext,List.cons_append] at hname
      exact .inr ⟨b,name,a',hb,rfl,hneg,(List.cons.inj hname).2.symm⟩
    · -- the text would begin with a digit
      obtain ⟨d,z,hz⟩ := List.exists_cons_of_ne_nil (decimal_ne_nil (env name).toNat)
      have hd : isDigit d=true := decimal_digits _ d (by rw [hz]; exact List.mem_cons_self)
      rw [htext,hz,List.cons_append] at hname
      rw [(List.cons.inj hname).1] at hd
      cases hd

theorem minus_back (h : Token 0x2D rest (splice env ts)) (hl : l ≠ .free) (hsep : separate env l ts=true) :
    ∃ a, CharTok 0x2D a ts ∧ splice env a=rest := by
  obtain h | ⟨b,name,a,hb,rfl,hneg,_⟩ := minus_cases h
  · exact h
  · rw [separate_append,separate_chars,Bool.true_and,separate,Bool.and_eq_true] at hsep
    have hfree : l.after (b.map Tok.char) ≠ .free := mt (after_blanks hb l).mp hl
    have hstands := hsep.1
    simp only [stands,Bool.or_eq_true,Bool.and_eq_true,beq_iff_eq,decide_eq_true_eq] at hstands
    cases hstands with
    | inl h => exact absurd h hfree
    | inr h => omega

theorem nothing_follows (h : (.ident name::ts).IsChain Apart) (hall : ∀ c∈splice env ts, isDigit c=true) : ts=[] := by
  cases ts with
  | nil => rfl
  | cons t ts =>
    have hapart : Apart (.ident name) t := (List.isChain_cons_cons.mp h).1
    cases t with
    | char c =>
      rw [Apart,hall c List.mem_cons_self] at hapart
      cases hapart
    | ident name' => exact hapart.elim

theorem digits_back (hsep : separate env .digit ts=true) (hall : ∀ c∈splice env ts, isDigit c=true) :
    ts=(splice env ts).map Tok.char := by
  induction ts with
  | nil => rfl
  | cons t ts ih =>
    cases t with
    | char c =>
      rw [splice_char,List.forall_mem_cons] at hall
      have hnext : Edge.digit.next (.char c) = .digit := by
        simp [Edge.next,hall.1,(Calc.digit_first hall.1).1]
      rw [separate,hnext,Bool.and_eq_true] at hsep
      rw [splice_char,List.map_cons,← ih hsep.2 hall.2]
    | ident name => cases hsep

theorem factor_digits {f : Calc.Factor} (h : f.Derives (c::x)) (hc : isDigit c=true) :
    f = .digits (c::x) ∧ ∀ d∈c::x, isDigit d=true := by
  obtain ⟨hblank,hminus,hplus,hparen⟩ := Calc.digit_first hc
  have hnone : ∀ {b y}, Blanks b → c::x=b++y → b=[] := by
    intro b y hb h
    cases b with
    | nil => rfl
    | cons e b =>
      have he := hb e List.mem_cons_self
      rw [← (List.cons.inj h).1,hblank] at he
      cases he
  have hno : ∀ {d rest}, Token d rest (c::x) → c=d := by
    rintro d rest ⟨b,hb,h⟩
    rw [hnone hb h] at h
    exact (List.cons.inj h).1
  cases f with
  | neg f =>
    simp only [Calc.Factor.Derives] at h
    obtain ⟨a,htok,_⟩ := h
    exact absurd (hno htok) hminus
  | pos f =>
    simp only [Calc.Factor.Derives] at h
    obtain ⟨a,htok,_⟩ := h
    exact absurd (hno htok) hplus
  | paren e =>
    simp only [Calc.Factor.Derives] at h
    obtain ⟨a,b,htok,_⟩ := h
    exact absurd (hno htok) hparen
  | digits ds =>
    simp only [Calc.Factor.Derives] at h
    obtain ⟨b,hb,h,_,hall⟩ := h
    rw [hnone hb h,List.nil_append] at h
    rw [h]
    exact ⟨rfl,hall⟩

/-- The tokens can be told from their text, read from `l` on. -/
structure Legible (env : List UInt8 → Int) (l : Edge) (ts : List Tok) : Prop where
  chain : ts.IsChain Apart
  separate : separate env l ts=true

theorem Legible.cut (h : Legible env l ts) (hsplice : splice env ts=x++y) (hy : NoDigit y) :
    ∃ a b, ts=a++b ∧ splice env a=x ∧ splice env b=y ∧ Legible env l a ∧ Legible env (l.after a) b := by
  obtain ⟨a,b,rfl,rfl,rfl⟩ := splice_split hsplice hy
  obtain ⟨hchain,hsep⟩ := h
  rw [separate_append,Bool.and_eq_true] at hsep
  exact ⟨a,b,rfl,rfl,rfl,⟨hchain.left_of_append,hsep.1⟩,⟨hchain.right_of_append,hsep.2⟩⟩

theorem Legible.behind {k : Edge} (h : Legible env l ts) (ha : CharTok c a ts)
    (hc : ∀ l : Edge, l.next (.char c)=k) : Legible env k a := by
  refine ⟨?_,(ha.separate hc l).1.symm.trans h.separate⟩
  obtain ⟨b,_,rfl⟩ := ha
  exact h.chain.right_of_append.tail

theorem noDigit_token (h : Token c rest x) (hdigit : isDigit c=false) : NoDigit x := by
  obtain ⟨b,hb,rfl⟩ := h
  exact Calc.noDigit_blanks hb hdigit

theorem noDigit_termTail {t : Calc.TermTail} (h : t.Derives x) : NoDigit x := by
  have hstops := Calc.TermTail.stops h (r := []) ⟨rfl,by decide⟩
  rw [List.append_nil] at hstops
  exact hstops.1

theorem noDigit_exprTail {t : Calc.ExprTail} (h : t.Derives x) : NoDigit x := by
  have hstops := Calc.ExprTail.stops h (r := []) ⟨rfl,by decide⟩
  rw [List.append_nil] at hstops
  exact hstops.1

theorem numeral_neg {v : Int} (h : v<0) : numeral v = .neg (.digits (decimal (-v).toNat)) := if_pos h

theorem numeral_nonneg {v : Int} (h : 0≤v) : numeral v = .digits (decimal v.toNat) := if_neg (by omega)

/-- The negation of a factor is that, or a name with a negative value. -/
theorem neg_back {f : Calc.Factor} (hchain : ts.IsChain Apart) (h : Token 0x2D rest (splice env ts))
    (hf : f.Derives rest) : (∃ a, CharTok 0x2D a ts ∧ splice env a=rest) ∨
      ∃ e : Factor, e.Derives ts ∧ e.subst env = .neg f := by
  obtain h | ⟨b,name,a,hb,rfl,hneg,rfl⟩ := minus_cases h
  · exact .inl h
  right
  obtain ⟨d,z,hz⟩ := List.exists_cons_of_ne_nil (decimal_ne_nil (-(env name)).toNat)
  have hd : isDigit d=true := decimal_digits _ d (by rw [hz]; exact List.mem_cons_self)
  rw [hz,List.cons_append] at hf
  obtain ⟨rfl,hall⟩ := factor_digits hf hd
  have hnil : a=[] := by
    apply nothing_follows hchain.right_of_append
    exact fun c hc => hall c (List.mem_cons_of_mem _ (List.mem_append_right _ hc))
  subst hnil
  refine ⟨.ident name,?_,?_⟩
  · simp only [Factor.Derives]
    exact ⟨b,hb,rfl⟩
  · rw [Factor.subst,numeral_neg hneg,hz,splice_nil,List.append_nil]

theorem digits_factor {ds : List UInt8} (hts : Legible env .free ts)
    (h : (Calc.Factor.digits ds).Derives (splice env ts)) :
    ∃ e : Factor, e.Derives ts ∧ e.subst env = .digits ds := by
  simp only [Calc.Factor.Derives] at h
  obtain ⟨b,hb,h,hne,hall⟩ := h
  obtain ⟨a,rfl,ha⟩ := splice_blanks hb h
  obtain ⟨d,z,rfl⟩ := List.exists_cons_of_ne_nil hne
  rw [List.forall_mem_cons] at hall
  have hsep := hts.separate
  rw [separate_append,separate_chars,(after_blanks hb _).mpr rfl,Bool.true_and] at hsep
  obtain ⟨a',rfl,rfl⟩ | ⟨name,a',rfl,hname⟩ := splice_head ha
  · have hnext : Edge.free.next (.char d) = .digit := by
      simp [Edge.next,hall.1,(Calc.digit_first hall.1).1]
    rw [separate,hnext,Bool.and_eq_true] at hsep
    refine ⟨.digits (d::splice env a'),?_,rfl⟩
    simp only [Factor.Derives]
    refine ⟨b,hb,?_,hne,List.forall_mem_cons.mpr hall⟩
    rw [List.map_cons,← digits_back hsep.2 hall.2]
  · obtain ⟨_,htext⟩ | ⟨hpos,htext⟩ := numberText_cases (env name)
    · rw [htext,List.cons_append] at hname
      rw [← (List.cons.inj hname).1] at hall
      cases hall.1
    have hnil : a'=[] := by
      apply nothing_follows hts.chain.right_of_append
      intro c hc
      have hmem : c∈d::z := by
        rw [← hname]
        exact List.mem_append_right _ hc
      cases List.mem_cons.mp hmem with
      | inl h => exact h ▸ hall.1
      | inr h => exact hall.2 c h
    subst hnil
    rw [htext,splice_nil,List.append_nil] at hname
    refine ⟨.ident name,?_,?_⟩
    · simp only [Factor.Derives]
      exact ⟨b,hb,rfl⟩
    · rw [Factor.subst,numeral_nonneg hpos,hname]

mutual

theorem expr_back (t : Calc.Expr) {ts : List Tok} (hts : Legible env .free ts) (h : t.Derives (splice env ts)) :
    ∃ e : Expr, e.Derives ts ∧ e.subst env=t := by
  cases t with
  | mk t rest =>
    simp only [Calc.Expr.Derives] at h
    obtain ⟨x,y,h,hx,hy⟩ := h
    obtain ⟨a,b,rfl,rfl,rfl,hleft,hright⟩ := hts.cut h (noDigit_exprTail hy)
    obtain ⟨e,he,rfl⟩ := term_back t hleft hx
    have hend := (@Term.reads env e a he).2
    obtain ⟨tail,htail,rfl⟩ := exprTail_back rest hright hend hy
    refine ⟨.mk e tail,?_,rfl⟩
    simp only [Expr.Derives]
    exact ⟨a,b,rfl,he,htail⟩

theorem exprTail_back (t : Calc.ExprTail) {ts : List Tok} {l : Edge} (hts : Legible env l ts)
    (hl : l ≠ .free) (h : t.Derives (splice env ts)) : ∃ e : ExprTail, e.Derives ts ∧ e.subst env=t := by
  cases t with
  | done =>
    simp only [Calc.ExprTail.Derives] at h
    exact ⟨.done,splice_eq_nil h,rfl⟩
  | add t rest =>
    simp only [Calc.ExprTail.Derives] at h
    obtain ⟨x,y,htok,hx,hy⟩ := h
    obtain ⟨a,ha,hsplice⟩ := token_back htok (by decide) rfl
    obtain ⟨a,b,rfl,rfl,rfl,hleft,hright⟩ := (hts.behind ha fun _ => rfl).cut hsplice (noDigit_exprTail hy)
    obtain ⟨e,he,rfl⟩ := term_back t hleft hx
    have hend := (@Term.reads env e a he).2
    obtain ⟨tail,htail,rfl⟩ := exprTail_back rest hright hend hy
    refine ⟨.add e tail,?_,rfl⟩
    simp only [ExprTail.Derives]
    exact ⟨a,b,ha,he,htail⟩
  | sub t rest =>
    simp only [Calc.ExprTail.Derives] at h
    obtain ⟨x,y,htok,hx,hy⟩ := h
    obtain ⟨a,ha,hsplice⟩ := minus_back htok hl hts.separate
    obtain ⟨a,b,rfl,rfl,rfl,hleft,hright⟩ := (hts.behind ha fun _ => rfl).cut hsplice (noDigit_exprTail hy)
    obtain ⟨e,he,rfl⟩ := term_back t hleft hx
    have hend := (@Term.reads env e a he).2
    obtain ⟨tail,htail,rfl⟩ := exprTail_back rest hright hend hy
    refine ⟨.sub e tail,?_,rfl⟩
    simp only [ExprTail.Derives]
    exact ⟨a,b,ha,he,htail⟩

theorem term_back (t : Calc.Term) {ts : List Tok} (hts : Legible env .free ts) (h : t.Derives (splice env ts)) :
    ∃ e : Term, e.Derives ts ∧ e.subst env=t := by
  cases t with
  | mk p rest =>
    simp only [Calc.Term.Derives] at h
    obtain ⟨x,y,h,hx,hy⟩ := h
    obtain ⟨a,b,rfl,rfl,rfl,hleft,hright⟩ := hts.cut h (noDigit_termTail hy)
    obtain ⟨e,he,rfl⟩ := power_back p hleft hx
    obtain ⟨tail,htail,rfl⟩ := termTail_back rest hright hy
    refine ⟨.mk e tail,?_,rfl⟩
    simp only [Term.Derives]
    exact ⟨a,b,rfl,he,htail⟩

theorem termTail_back (t : Calc.TermTail) {ts : List Tok} {l : Edge} (hts : Legible env l ts)
    (h : t.Derives (splice env ts)) : ∃ e : TermTail, e.Derives ts ∧ e.subst env=t := by
  cases t with
  | done =>
    simp only [Calc.TermTail.Derives] at h
    exact ⟨.done,splice_eq_nil h,rfl⟩
  | mul p rest =>
    simp only [Calc.TermTail.Derives] at h
    obtain ⟨x,y,htok,hx,hy⟩ := h
    obtain ⟨a,ha,hsplice⟩ := token_back htok (by decide) rfl
    obtain ⟨a,b,rfl,rfl,rfl,hleft,hright⟩ := (hts.behind ha fun _ => rfl).cut hsplice (noDigit_termTail hy)
    obtain ⟨e,he,rfl⟩ := power_back p hleft hx
    obtain ⟨tail,htail,rfl⟩ := termTail_back rest hright hy
    refine ⟨.mul e tail,?_,rfl⟩
    simp only [TermTail.Derives]
    exact ⟨a,b,ha,he,htail⟩
  | div p rest =>
    simp only [Calc.TermTail.Derives] at h
    obtain ⟨x,y,htok,hx,hy⟩ := h
    obtain ⟨a,ha,hsplice⟩ := token_back htok (by decide) rfl
    obtain ⟨a,b,rfl,rfl,rfl,hleft,hright⟩ := (hts.behind ha fun _ => rfl).cut hsplice (noDigit_termTail hy)
    obtain ⟨e,he,rfl⟩ := power_back p hleft hx
    obtain ⟨tail,htail,rfl⟩ := termTail_back rest hright hy
    refine ⟨.div e tail,?_,rfl⟩
    simp only [TermTail.Derives]
    exact ⟨a,b,ha,he,htail⟩

theorem power_back (t : Calc.Power) {ts : List Tok} (hts : Legible env .free ts)
    (h : t.Derives (splice env ts)) : ∃ e : Power, e.Derives ts ∧ e.subst env=t := by
  cases t with
  | factor f =>
    simp only [Calc.Power.Derives] at h
    obtain ⟨e,he,rfl⟩ := factor_back f hts h
    refine ⟨.factor e,?_,rfl⟩
    simp only [Power.Derives]
    exact he
  | pow f exp =>
    simp only [Calc.Power.Derives] at h
    obtain ⟨x,y,z,h,hx,htok,hz⟩ := h
    obtain ⟨a,b,rfl,rfl,rfl,hleft,hright⟩ := hts.cut h (noDigit_token htok rfl)
    obtain ⟨e,he,rfl⟩ := factor_back f hleft hx
    obtain ⟨c,hc,rfl⟩ := token_back htok (by decide) rfl
    obtain ⟨e',he',rfl⟩ := power_back exp (hright.behind hc fun _ => rfl) hz
    refine ⟨.pow e e',?_,rfl⟩
    simp only [Power.Derives]
    exact ⟨a,b,c,rfl,he,hc,he'⟩

theorem factor_back (t : Calc.Factor) {ts : List Tok} (hts : Legible env .free ts)
    (h : t.Derives (splice env ts)) : ∃ e : Factor, e.Derives ts ∧ e.subst env=t := by
  cases t with
  | neg f =>
    simp only [Calc.Factor.Derives] at h
    obtain ⟨x,htok,hx⟩ := h
    obtain ⟨a,ha,rfl⟩ | hident := neg_back hts.chain htok hx
    · obtain ⟨e,he,rfl⟩ := factor_back f (hts.behind ha fun _ => rfl) hx
      refine ⟨.neg e,?_,rfl⟩
      simp only [Factor.Derives]
      exact ⟨a,ha,he⟩
    · exact hident
  | pos f =>
    simp only [Calc.Factor.Derives] at h
    obtain ⟨x,htok,hx⟩ := h
    obtain ⟨a,ha,rfl⟩ := token_back htok (by decide) rfl
    obtain ⟨e,he,rfl⟩ := factor_back f (hts.behind ha fun _ => rfl) hx
    refine ⟨.pos e,?_,rfl⟩
    simp only [Factor.Derives]
    exact ⟨a,ha,he⟩
  | paren e =>
    simp only [Calc.Factor.Derives] at h
    obtain ⟨x,y,htok,hx,hclose⟩ := h
    obtain ⟨a,ha,hsplice⟩ := token_back htok (by decide) rfl
    obtain ⟨a,b,rfl,rfl,rfl,hleft,hright⟩ := (hts.behind ha fun _ => rfl).cut hsplice (noDigit_token hclose rfl)
    obtain ⟨e,he,rfl⟩ := expr_back e hleft hx
    obtain ⟨c,hc,hnil⟩ := token_back hclose (by decide) rfl
    rw [splice_eq_nil hnil] at hc
    refine ⟨.paren e,?_,rfl⟩
    simp only [Factor.Derives]
    exact ⟨a,b,ha,he,hc⟩
  | digits ds => exact digits_factor hts h

end

end MyKernel.Mlang
