import Mathlib.Control.Monad.Writer

/-! Computations that record what they look at, and which entries they record. -/
namespace MyKernel.Recorder

variable {ω α β ρ σ : Type}

abbrev Traced (ω : Type) := Writer (List ω)

def value (x : Traced ω α) : α := x.run.1

def Only (P : ω → Prop) (x : Traced ω α) : Prop := ∀ o∈x.run.2, P o

variable {P : ω → Prop} {x : Traced ω α} {f : α → Traced ω β} {entries : List ω}

@[simp] theorem value_pure (a : α) : value (pure a : Traced ω α)=a := rfl

@[simp] theorem value_bind : value (x >>= f)=value (f (value x)) := rfl

@[simp] theorem value_ite {p : Prop} [Decidable p] {y : Traced ω α} :
    value (if p then x else y)=if p then value x else value y :=
  apply_ite value p x y

theorem only_pure (a : α) : Only P (pure a : Traced ω α) := List.forall_mem_nil _

theorem only_bind : Only P (x >>= f) ↔ Only P x ∧ Only P (f (value x)) := List.forall_mem_append

theorem only_tell : Only P (tell entries : Traced ω PUnit) ↔ ∀ o∈entries, P o := Iff.rfl

theorem only_ite {p : Prop} [Decidable p] {y : Traced ω α} :
    Only P (if p then x else y) ↔ (p → Only P x) ∧ (¬ p → Only P y) := by
  split
  next h => simp [h]
  next h => simp [h]

def loop (body : Nat → σ → Traced ω (Except ρ σ)) : Nat → Nat → σ → Traced ω (Except ρ σ)
  | 0, _, s => pure (.ok s)
  | n+1, i, s => body i s >>= fun
    | .error r => pure (.error r)
    | .ok s' => loop body n (i+1) s'

/-- `Q` holds at each of the `n` numbers from `i` on that is reached if `C` says where the loop goes on. -/
def Each (C Q : Nat → Prop) (n i : Nat) : Prop := ∀ j, i≤j → j < i+n → (∀ k, i≤k → k<j → C k) → Q j

variable {C Q : Nat → Prop} {n i : Nat} {body : Nat → σ → Traced ω (Except ρ σ)}

theorem each_zero : Each C Q 0 i := by
  intro j hle hlt
  omega

theorem each_succ : Each C Q (n+1) i ↔ Q i ∧ (C i → Each C Q n (i+1)) := by
  constructor
  · intro h
    refine ⟨h i (Nat.le_refl i) (by omega) (by omega),?_⟩
    intro hi j hle hlt hreached
    refine h j (by omega) (by omega) fun k hk hkj => ?_
    by_cases hki : k=i
    · rw [hki]
      exact hi
    · exact hreached k (by omega) hkj
  · rintro ⟨hi,hrest⟩ j hle hlt hreached
    by_cases hji : j=i
    · rw [hji]
      exact hi
    · refine hrest (hreached i (Nat.le_refl i) (by omega)) j (by omega) (by omega) fun k hk hkj => ?_
      exact hreached k (by omega) hkj

/-- What a loop records, if the state decides neither what a pass records nor whether it goes on. -/
theorem only_loop (hQ : ∀ i s, Only P (body i s) ↔ Q i) (hC : ∀ i s, (value (body i s)).isOk=true ↔ C i)
    (n i : Nat) (s : σ) : Only P (loop body n i s) ↔ Each C Q n i := by
  induction n generalizing i s with
  | zero => exact iff_of_true (only_pure _) each_zero
  | succ n ih =>
    rw [loop,only_bind,each_succ,hQ,← hC i s]
    cases value (body i s) with
    | error r => simp [only_pure,Except.isOk,Except.toBool]
    | ok s' => simp [ih,Except.isOk,Except.toBool]

end MyKernel.Recorder
