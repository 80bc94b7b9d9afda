import Mathlib.Data.List.Basic

/-! Finite paths through a successor function. -/
namespace MyKernel.Chains
variable {α : Type*} {next next' : α → Option α} {o : Option α} {x y : α} {xs ys : List α}

def ChainFrom (next : α → Option α) : Option α → List α → Prop
  | o, [] => o=none
  | o, x::xs => o=some x ∧ ChainFrom next (next x) xs

/-- The walk that begins at `o`, visits `xs` and then stands at `e`. -/
def Walk (next : α → Option α) : Option α → List α → Option α → Prop
  | o, [], e => o=e
  | o, x::xs, e => o=some x ∧ Walk next (next x) xs e

theorem chainFrom_iff_walk : ChainFrom next o xs ↔ Walk next o xs none := by
  induction xs generalizing o with
  | nil => rfl
  | cons x xs ih => simp [ChainFrom,Walk,ih]

theorem chainFrom_append : ChainFrom next o (xs++ys) ↔ ∃ e, Walk next o xs e ∧ ChainFrom next e ys := by
  induction xs generalizing o with
  | nil => simp [Walk]
  | cons x xs ih => simp [ChainFrom,Walk,ih,and_assoc]

theorem ChainFrom.unique (h : ChainFrom next o xs) (h' : ChainFrom next o ys) : xs=ys := by
  induction xs generalizing o ys with
  | nil =>
    cases ys with
    | nil => rfl
    | cons y ys => exact absurd (h.symm.trans h'.1) (by simp)
  | cons x xs ih =>
    cases ys with
    | nil => exact absurd (h'.symm.trans h.1) (by simp)
    | cons y ys =>
      have hxy : x=y := by simpa using h.1.symm.trans h'.1
      subst hxy
      rw [ih h.2 h'.2]

/-- The rest of a path from one of its elements on. -/
theorem ChainFrom.start_eq (h : ChainFrom next o xs) : o=xs.head? := by
  cases xs with
  | nil => exact h
  | cons x xs => exact h.1

theorem ChainFrom.tail_of_mem (h : ChainFrom next o xs) (hx : x∈xs) :
    ∃ pre post, xs=pre++x::post ∧ ChainFrom next (some x) (x::post) := by
  obtain ⟨pre,post,rfl⟩ := List.append_of_mem hx
  obtain ⟨e,_,he,ht⟩ := chainFrom_append.mp h
  exact ⟨pre,post,rfl,rfl,ht⟩

theorem ChainFrom.nodup (h : ChainFrom next o xs) : xs.Nodup := by
  induction xs generalizing o with
  | nil => exact List.nodup_nil
  | cons x xs ih =>
    refine List.nodup_cons.mpr ⟨?_,ih h.2⟩
    intro hx
    obtain ⟨pre,post,hxs,hp⟩ := h.2.tail_of_mem hx
    have he : ChainFrom next (some x) (x::xs) := ⟨rfl,h.2⟩
    have hlen := congrArg List.length (he.unique hp)
    simp [hxs] at hlen
    omega

theorem Walk.congr {e : Option α} (h : Walk next o xs e) (hn : ∀ x∈xs, next' x=next x) : Walk next' o xs e := by
  induction xs generalizing o with
  | nil => exact h
  | cons x xs ih =>
    refine ⟨h.1,?_⟩
    rw [hn x (by simp)]
    exact ih h.2 (fun y hy => hn y (by simp [hy]))

theorem ChainFrom.congr (h : ChainFrom next o xs) (hn : ∀ x∈xs, next' x=next x) : ChainFrom next' o xs :=
  chainFrom_iff_walk.mpr ((chainFrom_iff_walk.mp h).congr hn)

theorem ChainFrom.last_none (h : ChainFrom next o xs) (hl : xs.getLast?=some y) : next y=none := by
  induction xs generalizing o with
  | nil => simp at hl
  | cons x xs ih =>
    cases xs with
    | nil =>
      have hxy : x=y := by simpa using hl
      rw [← hxy]
      exact h.2
    | cons z zs =>
      rw [List.getLast?_cons_cons] at hl
      exact ih h.2 hl

theorem ChainFrom.snoc {c : α} (h : ChainFrom next o xs) (hl : xs.getLast?=some y)
    (hagree : ∀ x∈xs, x≠y → next' x=next x) (hlink : next' y=some c)
    (hend : next' c=none) : ChainFrom next' o (xs++[c]) := by
  have hnodup := h.nodup
  induction xs generalizing o with
  | nil => simp at hl
  | cons x xs ih =>
    refine ⟨h.1,?_⟩
    cases xs with
    | nil =>
      have hxy : x=y := by simpa using hl
      rw [hxy]
      exact ⟨hlink,hend⟩
    | cons z zs =>
      rw [List.getLast?_cons_cons] at hl
      have hy : y∈z::zs := List.mem_of_getLast? hl
      have hxy : x≠y := fun he => (List.nodup_cons.mp hnodup).1 (he ▸ hy)
      rw [hagree x (by simp) hxy]
      exact ih h.2 hl (fun w hw => hagree w (by simp [hw])) (List.nodup_cons.mp hnodup).2

end MyKernel.Chains
