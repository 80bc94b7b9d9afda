import Mathlib.Data.List.Basic

/-! Runs of a machine that takes its inputs from a list. -/
namespace MyKernel.Traces
variable {σ ι : Type*} {step : σ → ι → Option σ} {s t : σ} {a : ι} {as bs : List ι}

/-- `none` is a step that does not return. -/
def runFrom (step : σ → ι → Option σ) : List ι → σ → Option σ
  | [], s => some s
  | a::as, s => (step s a).bind (runFrom step as)

def Always (step : σ → ι → Option σ) (P : σ → Prop) (as : List ι) (s : σ) : Prop :=
  ∀ pre post t, as=pre++post → runFrom step pre s=some t → P t

def EachStep (step : σ → ι → Option σ) (Q : σ → ι → Prop) (as : List ι) (s : σ) : Prop :=
  ∀ pre a post t, as=pre++a::post → runFrom step pre s=some t → Q t a

theorem runFrom_cons : runFrom step (a::as) s=some t ↔ ∃ u, step s a=some u ∧
    runFrom step as u=some t := Option.bind_eq_some_iff

theorem runFrom_append : runFrom step (as++bs) s=(runFrom step as s).bind (runFrom step bs) := by
  induction as generalizing s with
  | nil => rfl
  | cons a as ih =>
    simp only [List.cons_append,runFrom,Option.bind_assoc]
    congr 1
    funext u
    exact ih

theorem always_nil {P : σ → Prop} : Always step P [] s ↔ P s := by
  constructor
  · intro h
    exact h [] [] s rfl rfl
  · intro h pre post t hsplit ht
    cases pre with
    | nil => exact Option.some_inj.mp ht ▸ h
    | cons b pre => simp at hsplit

theorem always_cons {P : σ → Prop} : Always step P (a::as) s ↔ P s ∧ ∀ t, step s a=some t → Always step P as t := by
  constructor
  · intro h
    constructor
    · exact h [] (a::as) s rfl rfl
    · intro t ht pre post u hsplit hu
      apply h (a::pre) post u (by rw [hsplit,List.cons_append])
      exact runFrom_cons.mpr ⟨t,ht,hu⟩
  · intro h pre post u hsplit hu
    cases pre with
    | nil => exact Option.some_inj.mp hu ▸ h.1
    | cons b pre =>
      simp only [List.cons_append,List.cons.injEq] at hsplit
      obtain ⟨t,ht,hu⟩ := runFrom_cons.mp hu
      rw [← hsplit.1] at ht
      exact h.2 t ht pre post u hsplit.2 hu

theorem eachStep_nil {Q : σ → ι → Prop} : EachStep step Q [] s := by
  intro pre a post t hsplit
  simp at hsplit

theorem eachStep_cons {Q : σ → ι → Prop} :
    EachStep step Q (a::as) s ↔ Q s a ∧ ∀ t, step s a=some t → EachStep step Q as t := by
  constructor
  · intro h
    constructor
    · exact h [] a as s rfl rfl
    · intro t ht pre b post u hsplit hu
      apply h (a::pre) b post u (by rw [hsplit,List.cons_append])
      exact runFrom_cons.mpr ⟨t,ht,hu⟩
  · intro h pre b post u hsplit hu
    cases pre with
    | nil =>
      simp only [List.nil_append,List.cons.injEq] at hsplit
      rw [← Option.some_inj.mp hu,← hsplit.1]
      exact h.1
    | cons c pre =>
      simp only [List.cons_append,List.cons.injEq] at hsplit
      obtain ⟨t,ht,hu⟩ := runFrom_cons.mp hu
      rw [← hsplit.1] at ht
      exact h.2 t ht pre b post u hsplit.2 hu

/-- What holds of a state and survives every step holds at the end of every run. -/
theorem runFrom_invariant {I : σ → Prop} (hstep : ∀ s a t, I s → step s a=some t → I t) (hs : I s)
    (h : runFrom step as s=some t) : I t := by
  induction as generalizing s with
  | nil => exact Option.some_inj.mp h ▸ hs
  | cons a as ih =>
    obtain ⟨u,hu,h⟩ := runFrom_cons.mp h
    exact ih (hstep s a u hs hu) h

/-- What survives every step that meets the condition holds in every state of a run whose steps do. -/
theorem always_of_eachStep {I : σ → Prop} {Q : σ → ι → Prop}
    (hstep : ∀ s a t, I s → Q s a → step s a=some t → I t) (hs : I s) (h : EachStep step Q as s) :
    Always step I as s := by
  induction as generalizing s with
  | nil => exact always_nil.mpr hs
  | cons a as ih =>
    rw [eachStep_cons] at h
    rw [always_cons]
    constructor
    · exact hs
    · intro t ht
      exact ih (hstep s a t hs h.1 ht) (h.2 t ht)

/-- A property of all states of a run comes down to a condition on its steps that decides whether a step keeps it. The
invariant `I` has to survive such steps. -/
theorem always_iff {I P : σ → Prop} {Q : σ → ι → Prop}
    (hdecides : ∀ s a, I s → P s → ((∀ t, step s a=some t → P t) ↔ Q s a))
    (hkeeps : ∀ s a t, I s → P s → Q s a → step s a=some t → I t) (hI : I s) (hP : P s) :
    Always step P as s ↔ EachStep step Q as s := by
  induction as generalizing s with
  | nil => exact ⟨fun _ => eachStep_nil,fun _ => always_nil.mpr hP⟩
  | cons a as ih =>
    rw [always_cons,eachStep_cons]
    constructor
    · intro h
      have hnext : ∀ t, step s a=some t → P t := by
        intro t ht
        exact h.2 t ht [] as t rfl rfl
      have hq := (hdecides s a hI hP).mp hnext
      constructor
      · exact hq
      · intro t ht
        exact (ih (hkeeps s a t hI hP hq ht) (hnext t ht)).mp (h.2 t ht)
    · intro h
      have hnext := (hdecides s a hI hP).mpr h.1
      constructor
      · exact hP
      · intro t ht
        exact (ih (hkeeps s a t hI hP h.1 ht) (hnext t ht)).mpr (h.2 t ht)

/-- Two conditions that agree where an invariant holds are met by the same runs. -/
theorem eachStep_congr {I : σ → Prop} {P Q : σ → ι → Prop} (hpq : ∀ s a, I s → (P s a ↔ Q s a))
    (hkeeps : ∀ s a t, I s → step s a=some t → I t) (hI : I s) : EachStep step P as s ↔ EachStep step Q as s := by
  induction as generalizing s with
  | nil => exact ⟨fun _ => eachStep_nil,fun _ => eachStep_nil⟩
  | cons a as ih =>
    rw [eachStep_cons,eachStep_cons,hpq s a hI]
    apply and_congr_right
    intro _
    apply forall_congr'
    intro t
    apply forall_congr'
    intro ht
    exact ih (hkeeps s a t hI ht)

end MyKernel.Traces
