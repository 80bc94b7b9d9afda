import Mathlib.Logic.Basic

/-! Computations on a state that may fail to end. A run gives the state it has reached. -/
namespace MyKernel.Computation
variable {σ α β : Type} {s t : σ} {a : α}

def Comp (σ α : Type) : Type := σ → Option α × σ

instance : Monad (Comp σ) where
  pure a s := (some a,s)
  bind x f s := match x s with
    | (some a,t) => f a t
    | (none,t) => (none,t)

def state : Comp σ σ := fun s => (some s,s)

def update (f : σ → σ) : Comp σ Unit := fun s => (some (),f s)

/-- A loop that has used up its passes. -/
def running : Comp σ α := fun s => (none,s)

@[simp] theorem pure_eq (a : α) (s : σ) : (pure a : Comp σ α) s=(some a,s) := rfl
@[simp] theorem state_eq (s : σ) : (state : Comp σ σ) s=(some s,s) := rfl
@[simp] theorem update_eq (f : σ → σ) (s : σ) : update f s=(some (),f s) := rfl
@[simp] theorem running_eq (s : σ) : (running : Comp σ α) s=(none,s) := rfl

theorem bind_some {x : Comp σ α} {f : α → Comp σ β} (h : x s=(some a,t)) : (x >>= f) s=f a t := by
  show (match x s with
    | (some a,t) => f a t
    | (none,t) => (none,t))=f a t
  rw [h]

theorem bind_none {x : Comp σ α} {f : α → Comp σ β} (h : x s=(none,t)) : (x >>= f) s=(none,t) := by
  show (match x s with
    | (some a,t) => f a t
    | (none,t) => (none,t))=(none,t)
  rw [h]

@[simp] theorem state_bind (f : σ → Comp σ β) (s : σ) : (state >>= f) s=f s s := rfl
@[simp] theorem update_bind (g : σ → σ) (f : Unit → Comp σ β) (s : σ) :
    (update g >>= f) s=f () (g s) := rfl
@[simp] theorem pure_bind (a : α) (f : α → Comp σ β) (s : σ) :
    ((pure a : Comp σ α) >>= f) s=f a s := rfl

/-- The state reached has `R`, and once the run has ended its value and its state have `Q`. -/
def Ensures (R : σ → Prop) (x : Comp σ α) (Q : α → σ → Prop) (s : σ) : Prop :=
  R (x s).2 ∧ ∀ a, (x s).1=some a → Q a (x s).2

section Ensures
variable {R : σ → Prop} {Q : α → σ → Prop} {Q' : β → σ → Prop} {x : Comp σ α} {f : α → Comp σ β}

theorem Ensures.of_eq (h : x s=(some a,t)) (hR : R t) (hQ : Q a t) : Ensures R x Q s := by
  unfold Ensures
  rw [h]
  refine ⟨hR,?_⟩
  intro b hb
  rw [← Option.some_inj.mp hb]
  exact hQ

theorem Ensures.pure (hR : R s) (hQ : Q a s) : Ensures R (pure a) Q s := Ensures.of_eq rfl hR hQ

theorem Ensures.running (hR : R s) : Ensures R running Q s := ⟨hR,fun _ h => nomatch h⟩

theorem Ensures.update {Q : Unit → σ → Prop} (g : σ → σ) (hR : R (g s)) (hQ : Q () (g s)) :
    Ensures R (update g) Q s := Ensures.of_eq rfl hR hQ

theorem Ensures.bind (h : Ensures R x Q s) (hf : ∀ a t, R t → Q a t → Ensures R (f a) Q' t) :
    Ensures R (x >>= f) Q' s := by
  cases hx : x s with
  | mk o t =>
    unfold Ensures at h
    rw [hx] at h
    cases o with
    | some a =>
      have ha := hf a t h.1 (h.2 a rfl)
      unfold Ensures at ha ⊢
      rw [bind_some hx]
      exact ha
    | none =>
      unfold Ensures
      rw [bind_none hx]
      exact ⟨h.1,fun _ hb => nomatch hb⟩

theorem Ensures.bind_eq (h : x s=(some a,t)) (hf : Ensures R (f a) Q' t) : Ensures R (x >>= f) Q' s := by
  unfold Ensures at hf ⊢
  rw [bind_some h]
  exact hf

end Ensures

def Keeps {τ : Type} (p : σ → τ) (x : Comp σ α) : Prop := ∀ s, p (x s).2=p s

section Keeps
variable {τ : Type} {p : σ → τ} {x y : Comp σ α} {f : α → Comp σ β}

theorem Keeps.eq {o : Option α} (h : Keeps p x) (hx : x s=(o,t)) : p t=p s := by
  rw [← h s,hx]

theorem keeps_pure (a : α) : Keeps p (pure a : Comp σ α) := fun _ => rfl

theorem keeps_state : Keeps p (state : Comp σ σ) := fun _ => rfl

theorem Keeps.bind (h : Keeps p x) (hf : ∀ a, Keeps p (f a)) : Keeps p (x >>= f) := by
  intro s
  cases hx : x s with
  | mk o t =>
    cases o with
    | some a => rw [bind_some hx,hf a t,h.eq hx]
    | none => rw [bind_none hx,h.eq hx]

theorem Keeps.ite {c : Prop} [Decidable c] (h : Keeps p x) (h' : Keeps p y) : Keeps p (if c then x else y) := by
  by_cases hc : c
  · rw [if_pos hc]
    exact h
  · rw [if_neg hc]
    exact h'

end Keeps

/-! Properties of the state that hold at the end if they hold at the start. -/

def Preserves (I : σ → Prop) (x : Comp σ α) : Prop := ∀ s, I s → I (x s).2

section Preserves
variable {I : σ → Prop} {x y : Comp σ α} {f : α → Comp σ β}

theorem preserves_pure (a : α) : Preserves I (pure a : Comp σ α) := fun _ h => h

theorem preserves_running : Preserves I (running : Comp σ α) := fun _ h => h

theorem Preserves.bind (h : Preserves I x) (hf : ∀ a, Preserves I (f a)) : Preserves I (x >>= f) := by
  intro s hs
  have ht := h s hs
  cases hx : x s with
  | mk o t =>
    rw [hx] at ht
    cases o with
    | some a =>
      rw [bind_some hx]
      exact hf a t ht
    | none =>
      rw [bind_none hx]
      exact ht

theorem Preserves.ite {c : Prop} [Decidable c] (h : Preserves I x) (h' : Preserves I y) :
    Preserves I (if c then x else y) := by
  by_cases hc : c
  · rw [if_pos hc]
    exact h
  · rw [if_neg hc]
    exact h'

end Preserves

def Ends (x : Comp σ α) : Prop := ∀ s, (x s).1≠none

section Ends
variable {x y : Comp σ α} {f : α → Comp σ β}

theorem ends_pure (a : α) : Ends (pure a : Comp σ α) := fun _ => Option.some_ne_none a

theorem ends_state : Ends (state : Comp σ σ) := fun s => Option.some_ne_none s

theorem ends_update (f : σ → σ) : Ends (update f) := fun _ => Option.some_ne_none ()

theorem Ends.bind (h : Ends x) (hf : ∀ a, Ends (f a)) : Ends (x >>= f) := by
  intro s
  cases hx : x s with
  | mk o t =>
    cases o with
    | some a =>
      rw [bind_some hx]
      exact hf a t
    | none => exact absurd (congrArg Prod.fst hx) (h s)

theorem Ends.ite {c : Prop} [Decidable c] (h : Ends x) (h' : Ends y) : Ends (if c then x else y) := by
  by_cases hc : c
  · rw [if_pos hc]
    exact h
  · rw [if_neg hc]
    exact h'

end Ends

/-! Two runs of a computation with the same value and related states. -/

def Alike (R : σ → σ → Prop) (x : Comp σ α) (Q : α → σ → Prop) (s t : σ) : Prop :=
  (x s).1=(x t).1 ∧ R (x s).2 (x t).2 ∧ ∀ a, (x s).1=some a → Q a (x s).2

section Alike
variable {R R' : σ → σ → Prop} {x y : Comp σ α} {f : α → Comp σ β} {Q : α → σ → Prop} {Q' : β → σ → Prop} {a : α}

theorem Alike.pure (h : R s t) (ha : Q a s) : Alike R (pure a) Q s t := by
  refine ⟨rfl,h,fun b hb => ?_⟩
  cases hb
  exact ha

theorem Alike.running (h : R s t) : Alike R running Q s t := ⟨rfl,h,nofun⟩

theorem Alike.update {g : σ → σ} (h : R (g s) (g t)) : Alike R (update g) (fun _ _ => True) s t :=
  ⟨rfl,h,fun _ _ => trivial⟩

theorem Alike.mono {P : α → σ → Prop} (h : Alike R x Q s t) (hQ : ∀ a u, Q a u → P a u) : Alike R x P s t :=
  ⟨h.1,h.2.1,fun a ha => hQ a _ (h.2.2 a ha)⟩

/-- The second part may be followed with a weaker relation. -/
theorem Alike.bind_to (h : Alike R x Q s t) (hR : ∀ u w, R u w → R' u w)
    (hf : ∀ a u w, R u w → Q a u → Alike R' (f a) Q' u w) : Alike R' (x >>= f) Q' s t := by
  obtain ⟨hval,hrel,hpost⟩ := h
  cases hx : x s with
  | mk o u =>
    cases hy : x t with
    | mk o' w =>
      rw [hx,hy] at hval hrel
      rw [hx] at hpost
      obtain rfl : o=o' := hval
      cases o with
      | none =>
        unfold Alike
        rw [bind_none hx,bind_none hy]
        exact ⟨rfl,hR u w hrel,nofun⟩
      | some a =>
        have ha := hf a u w hrel (hpost a rfl)
        unfold Alike at ha ⊢
        rw [bind_some hx,bind_some hy]
        exact ha

theorem Alike.bind (h : Alike R x Q s t) (hf : ∀ a u w, R u w → Q a u → Alike R (f a) Q' u w) :
    Alike R (x >>= f) Q' s t := h.bind_to (fun _ _ => id) hf

/-- A computation that looks at the state and does the same in both. -/
theorem alike_state {f : σ → Comp σ β} (h : f s=f t) (hf : Alike R (f s) Q' s t) : Alike R (state >>= f) Q' s t := by
  unfold Alike at hf ⊢
  rw [state_bind,state_bind,← h]
  exact hf

theorem Ensures.alike {P : σ → Prop} (h : Ensures P x Q s) : Alike (fun s t => s=t ∧ P s) x Q s s :=
  ⟨rfl,⟨rfl,h.1⟩,h.2⟩

theorem Alike.ensures {P : σ → Prop} (h : Alike (fun s t => s=t ∧ P s) x Q s s) : Ensures P x Q s :=
  ⟨h.2.1.2,h.2.2⟩

theorem Alike.ite {c : Prop} [Decidable c] (h : c → Alike R x Q s t) (h' : ¬ c → Alike R y Q s t) :
    Alike R (if c then x else y) Q s t := by
  by_cases hc : c
  · rw [if_pos hc]
    exact h hc
  · rw [if_neg hc]
    exact h' hc

/-- `if (c) return a;` in front of `y`. -/
theorem Alike.return_or {c : Prop} [Decidable c] (h : R s t) (hy : ¬ c → Alike R y (fun _ _ => True) s t) :
    Alike R (if c then Pure.pure a else y) (fun _ _ => True) s t := .ite (fun _ => .pure h trivial) hy

theorem Alike.or_return {c : Prop} [Decidable c] (h : R s t) (hx : c → Alike R x (fun _ _ => True) s t) :
    Alike R (if c then x else Pure.pure a) (fun _ _ => True) s t := .ite hx fun _ => .pure h trivial

end Alike

def Le (x y : Comp σ α) : Prop := ∀ s a t, x s=(some a,t) → y s=(some a,t)

theorem Le.refl (x : Comp σ α) : Le x x := fun _ _ _ h => h

theorem Le.trans {x y z : Comp σ α} (h : Le x y) (h' : Le y z) : Le x z :=
  fun s a t hx => h' s a t (h s a t hx)

theorem le_running (y : Comp σ α) : Le running y := by
  intro s a t h
  simp at h

theorem bind_ended {x : Comp σ α} {f : α → Comp σ β} {b : β} {u : σ} (h : (x >>= f) s=(some b,u)) :
    ∃ a t, x s=(some a,t) ∧ f a t=(some b,u) := by
  cases hx : x s with
  | mk o t =>
    cases o with
    | some a => exact ⟨a,t,rfl,(bind_some hx).symm.trans h⟩
    | none =>
      rw [bind_none hx] at h
      simp at h

theorem Le.bind {x y : Comp σ α} {f f' : α → Comp σ β} (h : Le x y) (hf : ∀ a, Le (f a) (f' a)) :
    Le (x >>= f) (y >>= f') := by
  intro s b u hb
  obtain ⟨a,t,hx,hfa⟩ := bind_ended hb
  rw [bind_some (h s a t hx)]
  exact hf a t b u hfa

theorem Le.bind_right {x : Comp σ α} {f f' : α → Comp σ β} (hf : ∀ a, Le (f a) (f' a)) :
    Le (x >>= f) (x >>= f') := (Le.refl x).bind hf

theorem Le.ite {p : Prop} [Decidable p] {x x' y y' : Comp σ α} (hx : Le x x') (hy : Le y y') :
    Le (if p then x else y) (if p then x' else y') := by
  by_cases hp : p
  · rw [if_pos hp,if_pos hp]
    exact hx
  · rw [if_neg hp,if_neg hp]
    exact hy

/-- A computation with a number of passes, each more giving at least as much. -/
def Mono (x : Nat → Comp σ α) : Prop := ∀ n, Le (x n) (x (n+1))

theorem Mono.le {x : Nat → Comp σ α} (h : Mono x) {m n : Nat} (hmn : m≤n) : Le (x m) (x n) := by
  induction hmn with
  | refl => exact Le.refl _
  | step _ ih => exact ih.trans (h _)

/-- With enough passes the computation ends with value `a` in state `t`. -/
def Returns (x : Nat → Comp σ α) (s : σ) (a : α) (t : σ) : Prop := ∃ n, x n s=(some a,t)

theorem Returns.at_least {x : Nat → Comp σ α} (hm : Mono x) (h : Returns x s a t) (m : Nat) :
    ∃ n, m<n ∧ x n s=(some a,t) := by
  obtain ⟨n,hn⟩ := h
  exact ⟨n+m+1,by omega,hm.le (by omega) s a t hn⟩

theorem Returns.unique {x : Nat → Comp σ α} {b : α} {u : σ} (hm : Mono x) (h : Returns x s a t)
    (h' : Returns x s b u) : a=b ∧ t=u := by
  obtain ⟨m,hx⟩ := h
  obtain ⟨n,hn,hx'⟩ := h'.at_least hm m
  have he := (hm.le (Nat.le_of_lt hn) s a t hx).symm.trans hx'
  simpa using he

end MyKernel.Computation
