import Mathlib.Data.List.Basic

/-! The numbers below `n` on a circle. -/
namespace MyKernel.Cyclic
variable {n a b i j k : Nat} {p : Nat → Bool}

def distance (n a b : Nat) : Nat := (b+n-a)%n

/-- The places `a+1, a+2, …, a+n`, modulo `n`. -/
def firstAfter (n a : Nat) (p : Nat → Bool) : Option Nat :=
  ((List.range' 1 n).find? fun i => p ((a+i)%n)).map fun i => (a+i)%n

theorem distance_lt (hn : 0<n) : distance n a b<n := Nat.mod_lt _ hn

theorem distance_of_le (ha : a≤b) (hb : b<n) : distance n a b=b-a := by
  have he : b+n-a=b-a+n := by omega
  rw [distance,he,Nat.add_mod_right,Nat.mod_eq_of_lt (by omega)]

theorem distance_of_lt (ha : a<n) (hb : b<a) : distance n a b=b+n-a := by
  rw [distance,Nat.mod_eq_of_lt (by omega)]

theorem distance_pos (ha : a<n) (hb : b<n) (hne : a≠b) : 0<distance n a b := by
  cases Nat.lt_or_ge b a with
  | inl h =>
    rw [distance_of_lt ha h]
    omega
  | inr h =>
    rw [distance_of_le h hb]
    omega

theorem add_distance (ha : a<n) (hb : b<n) : (a+distance n a b)%n=b := by
  cases Nat.lt_or_ge b a with
  | inl h =>
    have he : a+(b+n-a)=b+n := by omega
    rw [distance_of_lt ha h,he,Nat.add_mod_right,Nat.mod_eq_of_lt hb]
  | inr h =>
    have he : a+(b-a)=b := by omega
    rw [distance_of_le h hb,he,Nat.mod_eq_of_lt hb]

/-- A walk towards `b` that does not pass it comes closer. -/
theorem distance_advance (ha : a<n) (hb : b<n) (hi : i≤distance n a b) : distance n ((a+i)%n) b=distance n a b-i := by
  have hn : 0<n := by omega
  have hd := distance_lt (a := a) (b := b) hn
  cases Nat.lt_or_ge (a+i) n with
  | inl h =>
    rw [Nat.mod_eq_of_lt h]
    cases Nat.lt_or_ge b a with
    | inl hba =>
      rw [distance_of_lt ha hba] at hi ⊢
      rw [distance_of_lt h (by omega)]
      omega
    | inr hba =>
      rw [distance_of_le hba hb] at hi ⊢
      rw [distance_of_le (by omega) hb]
      omega
  | inr h =>
    have he : (a+i)%n=a+i-n := by
      rw [Nat.mod_eq_sub_mod h,Nat.mod_eq_of_lt (by omega)]
    rw [he]
    cases Nat.lt_or_ge b a with
    | inl hba =>
      rw [distance_of_lt ha hba] at hi ⊢
      rw [distance_of_le (by omega) hb]
      omega
    | inr hba =>
      rw [distance_of_le hba hb] at hi
      omega

theorem succ_mod (hb : b<n) : (b+1)%n=if b+1<n then b+1 else 0 := by
  split
  next h => exact Nat.mod_eq_of_lt h
  next h =>
    have he : b+1=n := by omega
    rw [he,Nat.mod_self]

theorem succ_mod_eq (ha : a<n) (hb : b<n) : (b+1)%n=a ↔ distance n a b=n-1 := by
  rw [succ_mod hb]
  cases Nat.lt_or_ge b a with
  | inl h =>
    rw [distance_of_lt ha h,if_pos (by omega)]
    omega
  | inr h =>
    rw [distance_of_le h hb]
    split
    next => omega
    next => omega

theorem distance_succ (ha : a<n) (hb : b<n) (hne : (b+1)%n≠a) : distance n a ((b+1)%n)=distance n a b+1 := by
  rw [succ_mod hb] at hne ⊢
  cases Nat.lt_or_ge b a with
  | inl h =>
    rw [if_pos (by omega)] at hne ⊢
    rw [distance_of_lt ha h,distance_of_lt ha (by omega)]
    omega
  | inr h =>
    rw [distance_of_le h hb]
    split
    next hlt => rw [distance_of_le (by omega) hlt,Nat.sub_add_comm h]
    next hge =>
      rw [if_neg hge] at hne
      rw [distance_of_lt ha (by omega)]
      omega

theorem firstAfter_some (h : firstAfter n a p=some k) :
    ∃ i, 1 ≤ i ∧ i≤n ∧ k=(a+i)%n ∧ p k=true ∧
      ∀ l, 1≤l → l < i → p ((a+l)%n)=false := by
  unfold firstAfter at h
  cases hf : (List.range' 1 n).find? fun i => p ((a+i)%n) with
  | none => simp [hf] at h
  | some i =>
    rw [hf,Option.map_some,Option.some_inj] at h
    obtain ⟨hp,hpre⟩ := List.find?_range'_eq_some.mp hf
    have hmem := List.mem_range'_1.mp hpre.1
    refine ⟨i,hmem.1,by omega,h.symm,h ▸ hp,?_⟩
    intro l hl hli
    simpa using hpre.2 l hl hli

theorem firstAfter_lt (hn : 0<n) (h : firstAfter n a p=some k) : k<n := by
  obtain ⟨i,_,_,rfl,_⟩ := firstAfter_some h
  exact Nat.mod_lt _ hn

theorem firstAfter_ne_none (ha : a<n) (hb : b<n) (hp : p b=true) : firstAfter n a p≠none := by
  have hn : 0<n := by omega
  simp only [firstAfter,ne_eq,Option.map_eq_none_iff,List.find?_eq_none,List.mem_range'_1]
  intro h
  -- `a` itself is reached at the end of the round
  by_cases hab : a=b
  · refine h n ⟨hn,by omega⟩ ?_
    rw [Nat.add_mod_right,Nat.mod_eq_of_lt ha,hab]
    exact hp
  · have hd := distance_lt (a := a) (b := b) hn
    have hpos := distance_pos ha hb hab
    refine h (distance n a b) ⟨hpos,by omega⟩ ?_
    rw [add_distance ha hb]
    exact hp

/-- The place found lies on the way to every other place with the property. -/
theorem firstAfter_closer (ha : a<n) (hb : b<n) (hab : a≠b) (hp : p b=true)
    (h : firstAfter n a p=some k) (hkb : k≠b) : distance n k b<distance n a b := by
  obtain ⟨i,h1,hin,rfl,_,hbefore⟩ := firstAfter_some h
  have hpos := distance_pos ha hb hab
  have hle : i≤distance n a b := by
    by_contra hlt
    have hfalse := hbefore (distance n a b) hpos (by omega)
    rw [add_distance ha hb,hp] at hfalse
    cases hfalse
  rw [distance_advance ha hb hle]
  omega

end MyKernel.Cyclic
