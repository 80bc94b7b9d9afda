import MyKernel.Mlang.Model

/-! The lines of a script. -/
namespace MyKernel.Mlang
variable {text line : List UInt8} {lines body after : List (List UInt8)} {n : Nat}

/-- At most `n` lines, each as a row of the table can hold it. -/
def Fits (n : Nat) (lines : List (List UInt8)) : Prop :=
  lines.length≤n ∧ ∀ line∈lines, line.length≤127 ∧ 0x0A∉line

theorem linesOf_eq (h : text≠[]) :
    linesOf text=text.takeWhile (fun c => c != 0x0A)::
      linesOf (skipNewline (text.drop (text.takeWhile fun c => c != 0x0A).length)) := by
  induction text with
  | nil => exact absurd rfl h
  | cons c cs ih =>
    rw [linesOf]
    by_cases hc : c=0x0A
    · simp [hc,skipNewline]
    · cases cs with
      | nil => simp [hc,linesOf,skipNewline]
      | cons d ds =>
        rw [if_neg hc,ih (by simp)]
        simp [hc]

theorem newline_notMem_linesOf : ∀ line∈linesOf text, 0x0A∉line := by
  induction text with
  | nil => simp [linesOf]
  | cons c cs ih =>
    intro line hline
    rw [linesOf] at hline
    by_cases hc : c=0x0A
    · rw [if_pos hc,List.mem_cons] at hline
      rcases hline with rfl | hline
      · simp
      · exact ih line hline
    · rw [if_neg hc] at hline
      cases hl : linesOf cs with
      | nil =>
        rw [hl] at hline
        simpa [List.mem_singleton.mp hline] using fun h => hc h.symm
      | cons first rest =>
        rw [hl] at hline ih
        rcases List.mem_cons.mp hline with rfl | hline
        · simpa [ih first] using fun h => hc h.symm
        · exact ih line (List.mem_cons_of_mem _ hline)

theorem firstLine_fits (text : List UInt8) : (firstLine text).length≤127 ∧ 0x0A∉firstLine text := by
  constructor
  · exact List.length_take_le _ _
  · intro h
    simpa using List.all_eq_true.mp (List.all_takeWhile (l := text)) _ (List.mem_of_mem_take h)

theorem splitLoop_fits (n : Nat) (text : List UInt8) : Fits n (splitLoop n text) := by
  induction n generalizing text with
  | zero => simp [Fits,splitLoop]
  | succ n ih =>
    rw [splitLoop]
    by_cases h : text=[]
    · simp [h,Fits]
    · have hrest := ih (skipNewline (text.drop (firstLine text).length))
      rw [if_neg h]
      refine ⟨Nat.succ_le_succ hrest.1,?_⟩
      rintro line (_ | ⟨_,hline⟩)
      · exact firstLine_fits text
      · exact hrest.2 line hline

theorem splitLines_fits (text : List UInt8) : Fits 64 (splitLines text) := splitLoop_fits 64 text

theorem splitLoop_eq (hn : (linesOf text).length≤n) (hl : ∀ line∈linesOf text, line.length≤127) :
    splitLoop n text=linesOf text := by
  induction n generalizing text with
  | zero => exact (List.length_eq_zero_iff.mp (Nat.le_zero.mp hn)).symm
  | succ n ih =>
    rw [splitLoop]
    by_cases h : text=[]
    · simp [h,linesOf]
    · rw [linesOf_eq h] at hn hl
      have hfirst : firstLine text=text.takeWhile fun c => c != 0x0A :=
        List.take_of_length_le (hl _ List.mem_cons_self)
      rw [if_neg h,hfirst,linesOf_eq h,ih]
      · exact Nat.le_of_succ_le_succ hn
      · exact fun line hline => hl line (List.mem_cons_of_mem _ hline)

/-- The table holds the lines of the text if there are no more than 64, none with more than 127 characters. -/
theorem splitLines_eq_iff :
    splitLines text=linesOf text ↔
      (linesOf text).length≤64 ∧ ∀ line∈linesOf text, line.length≤127 := by
  constructor
  · intro h
    have hfits := splitLines_fits text
    rw [h] at hfits
    exact ⟨hfits.1,fun line hline => (hfits.2 line hline).1⟩
  · rintro ⟨hn,hl⟩
    exact splitLoop_eq hn hl

theorem linesOf_append (h : 0x0A∉line) : linesOf (line++0x0A::text)=line::linesOf text := by
  induction line with
  | nil => simp [linesOf]
  | cons c cs ih =>
    simp only [List.mem_cons,not_or] at h
    rw [List.cons_append,linesOf,if_neg fun hc => h.1 hc.symm,ih h.2]

theorem linesOf_assembleLoop {so : Nat} (hfits : Fits n lines) (hso : so+128*lines.length<8191) :
    linesOf (assembleLoop so lines)=lines := by
  induction lines generalizing so n with
  | nil => simp [assembleLoop,linesOf]
  | cons line lines ih =>
    obtain ⟨hlen,hnew⟩ := hfits.2 line List.mem_cons_self
    rw [List.length_cons] at hso
    rw [assembleLoop,if_neg (show ¬ so+line.length+2≥MAX_LINES*MAX_LINE by
      simp only [MAX_LINES,MAX_LINE]
      omega),linesOf_append hnew,ih ⟨Nat.le_refl _,fun l hl => hfits.2 l (List.mem_cons_of_mem _ hl)⟩ (by omega)]

theorem splitLines_assemble (hfits : Fits 63 lines) : splitLines (assemble lines)=lines := by
  have hlines : linesOf (assemble lines)=lines := linesOf_assembleLoop hfits (by
    have := hfits.1
    omega)
  rw [splitLines_eq_iff.mpr,hlines]
  rw [hlines]
  exact ⟨Nat.le_trans hfits.1 (by omega),fun line hline => (hfits.2 line hline).1⟩

theorem findEnd_split {depth : Nat} (h : findEnd depth lines=some (body,after)) :
    ∃ close, lines=body++close::after := by
  induction lines generalizing depth body with
  | nil => simp [findEnd] at h
  | cons line lines ih =>
    have hmap : ∀ d, (findEnd d lines).map (fun found => (line::found.1,found.2))=some (body,after) →
        ∃ close, line::lines=body++close::after := by
      intro d hd
      obtain ⟨⟨inner,rest⟩,hfound,he⟩ := Option.map_eq_some_iff.mp hd
      simp only [Prod.mk.injEq] at he
      obtain ⟨rfl,rfl⟩ := he
      obtain ⟨close,hclose⟩ := ih hfound
      exact ⟨close,congrArg (line::·) hclose⟩
    simp only [findEnd] at h
    split_ifs at h
    · exact hmap _ h
    · simp only [Option.some.injEq,Prod.mk.injEq] at h
      exact ⟨line,by rw [← h.1,h.2]; rfl⟩
    · exact hmap _ h
    · exact hmap _ h

theorem Fits.mono {m : Nat} (h : Fits m lines) (hmn : m≤n) : Fits n lines := ⟨Nat.le_trans h.1 hmn,h.2⟩

theorem Fits.tail (h : Fits (n+1) (line::lines)) : Fits n lines :=
  ⟨Nat.le_of_succ_le_succ h.1,fun l hl => h.2 l (List.mem_cons_of_mem _ hl)⟩

theorem Fits.split {close : List UInt8} (h : Fits (n+1) (body++close::after)) : Fits n body ∧ Fits n after := by
  obtain ⟨hlen,hlines⟩ := h
  simp only [List.length_append,List.length_cons] at hlen
  refine ⟨⟨by omega,fun l hl => hlines l (List.mem_append_left _ hl)⟩,by omega,fun l hl => hlines l ?_⟩
  exact List.mem_append_right _ (List.mem_cons_of_mem _ hl)

end MyKernel.Mlang
