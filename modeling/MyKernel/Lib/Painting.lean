import MyKernel.Lib.Loops

/-! What a drawing routine does to a picture: the points it paints, and how. -/
namespace MyKernel.Painting
open Loops
variable {ι β : Type} {f g : (ι → β) → ι → β} {A B : ι → Prop} {v w : ι → β} {n : Nat}

/-- `f` makes the points of `A` what `v` has there, whatever they were, and touches no others. -/
structure Paints (f : (ι → β) → ι → β) (A : ι → Prop) (v : ι → β) : Prop where
  inside : ∀ c i, A i → f c i=v i
  outside : ∀ c i, ¬ A i → f c i=c i

theorem Paints.apply (h : Paints f A v) {c : ι → β} {i : ι} (hc : ¬ A i → c i=v i) : f c i=v i := by
  by_cases hi : A i
  · exact h.inside c i hi
  · exact (h.outside c i hi).trans (hc hi)

theorem paints_nothing (h : ∀ i, ¬ A i) : Paints (fun c => c) A v := ⟨fun _ i hi => absurd hi (h i),fun _ _ _ => rfl⟩

theorem Paints.congr (h : Paints f A v) (hA : ∀ i, A i ↔ B i) (hv : ∀ i, A i → v i=w i) : Paints f B w :=
  ⟨fun c i hi => (h.inside c i ((hA i).mpr hi)).trans (hv i ((hA i).mpr hi)),
    fun c i hi => h.outside c i fun ha => hi ((hA i).mp ha)⟩

theorem Paints.comp (h : Paints f A v) (h' : Paints g B v) : Paints (fun c => g (f c)) (fun i => A i ∨ B i) v := by
  constructor
  · intro c i hi
    by_cases hB : B i
    · exact h'.inside _ i hB
    · rw [h'.outside _ i hB]
      exact h.inside c i (hi.resolve_right hB)
  · intro c i hi
    rw [h'.outside _ i fun hB => hi (.inr hB)]
    exact h.outside c i fun hA => hi (.inl hA)

/-- The passes of a loop may paint a point more than once if they agree on it. -/
theorem paints_upTo {body : Nat → (ι → β) → ι → β} {A : Nat → ι → Prop} (h : ∀ k, k<n → Paints (body k) (A k) v) :
    Paints (upTo body n) (fun i => ∃ k, k<n ∧ A k i) v := by
  induction n with
  | zero => exact paints_nothing fun i hi => Nat.not_lt_zero _ hi.choose_spec.1
  | succ n ih =>
    refine ((ih fun k hk => h k (Nat.lt_succ_of_lt hk)).comp (h n (Nat.lt_succ_self n))).congr (fun i => ?_) fun _ _ => rfl
    constructor
    · rintro (⟨k,hk,hi⟩ | hi)
      · exact ⟨k,Nat.lt_succ_of_lt hk,hi⟩
      · exact ⟨n,Nat.lt_succ_self n,hi⟩
    · rintro ⟨k,hk,hi⟩
      rcases Nat.lt_succ_iff_lt_or_eq.mp hk with hlt | rfl
      · exact .inl ⟨k,hlt,hi⟩
      · exact .inr hi

end MyKernel.Painting
