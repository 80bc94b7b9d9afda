import Mathlib.Logic.Function.Basic
import MyKernel.Lib.Cyclic

/-! A ring of `n` slots: a queue of at most `n-1` elements. -/
namespace MyKernel.Cyclic
variable {α : Type*} {n : Nat}

def next (i : Fin n) : Fin n := ⟨(i+1)%n,Nat.mod_lt _ i.pos⟩

structure Ring (α : Type*) (n : Nat) where
  slots : Fin n → α
  head : Fin n
  tail : Fin n

namespace Ring
variable (r : Ring α n) (x : α)

def push : Ring α n :=
  if next r.head=r.tail then r
  else { r with slots := Function.update r.slots r.head x, head := next r.head }

def advance : Ring α n := { r with tail := next r.tail }

/-- The slot `i` places behind the one to be read. -/
def place (i : Nat) : Fin n := ⟨(r.tail+i)%n,Nat.mod_lt _ r.tail.pos⟩

def used : Nat := distance n r.tail r.head

def contents : List α := (List.range r.used).map fun i => r.slots (r.place i)

theorem length_contents : r.contents.length=r.used := by simp [contents]

theorem place_zero : r.place 0=r.tail := Fin.ext (Nat.mod_eq_of_lt r.tail.isLt)

theorem place_used : r.place r.used=r.head := Fin.ext (add_distance r.tail.isLt r.head.isLt)

theorem used_lt : r.used<n := distance_lt r.tail.pos

theorem used_eq_zero : r.used=0 ↔ r.head=r.tail := by
  constructor
  · intro h
    rw [← place_used,h,place_zero]
  · intro h
    rw [used,h,distance_of_le (Nat.le_refl _) r.tail.isLt,Nat.sub_self]

theorem place_ne_head {i : Nat} (hi : i<r.used) : r.place i≠r.head := by
  intro h
  have hsame := distance_advance r.tail.isLt r.head.isLt (Nat.le_of_lt hi)
  have hplace : (r.tail+i)%n=r.head := congrArg Fin.val h
  rw [hplace,distance_of_le (Nat.le_refl _) r.head.isLt,Nat.sub_self] at hsame
  have hused : r.used=distance n r.tail r.head := rfl
  omega

theorem next_head_eq_tail : next r.head=r.tail ↔ r.used=n-1 := by
  rw [Fin.ext_iff]
  exact succ_mod_eq r.tail.isLt r.head.isLt

theorem push_full (h : r.used=n-1) : r.push x=r := if_pos (r.next_head_eq_tail.mpr h)

theorem contents_push (h : r.used≠n-1) : (r.push x).contents=r.contents++[x] := by
  have hne : next r.head≠r.tail := r.next_head_eq_tail.not.mpr h
  have hpush : r.push x={ r with slots := Function.update r.slots r.head x, head := next r.head } := if_neg hne
  have hused : (r.push x).used=r.used+1 := by
    rw [hpush]
    exact distance_succ r.tail.isLt r.head.isLt fun he => hne (Fin.ext he)
  have hplace : ∀ i, (r.push x).place i=r.place i := by
    intro i
    rw [hpush]
    rfl
  have hslots : (r.push x).slots=Function.update r.slots r.head x := by rw [hpush]
  rw [contents,hused,List.range_succ,List.map_append,List.map_singleton,hplace,place_used,hslots,
    Function.update_self]
  congr 1
  apply List.map_congr_left
  intro i hi
  rw [hplace,Function.update_of_ne (r.place_ne_head (List.mem_range.mp hi))]

theorem contents_advance (h : r.head≠r.tail) : r.contents=r.slots r.tail::r.advance.contents := by
  have hpos : r.used≠0 := r.used_eq_zero.not.mpr h
  have hused : r.advance.used=r.used-1 :=
    distance_advance r.tail.isLt r.head.isLt (Nat.one_le_iff_ne_zero.mpr hpos)
  have hplace : ∀ i, r.advance.place i=r.place (i+1) := by
    intro i
    apply Fin.ext
    change ((r.tail+1)%n+i)%n=(r.tail+(i+1))%n
    rw [Nat.mod_add_mod,Nat.add_assoc,Nat.add_comm 1]
  obtain ⟨m,hm⟩ := Nat.exists_eq_succ_of_ne_zero hpos
  have hm' : r.advance.used=m := by omega
  rw [contents,contents,hm,hm',List.range_succ_eq_map,List.map_cons,List.map_map,place_zero]
  congr 1
  apply List.map_congr_left
  intro i _
  rw [Function.comp_apply,hplace]
  rfl

theorem head_contents : r.contents.head?=if r.head=r.tail then none else some (r.slots r.tail) := by
  split
  next h => rw [List.head?_eq_none_iff,← List.length_eq_zero_iff,length_contents,used_eq_zero,h]
  next h => rw [r.contents_advance h,List.head?_cons]

end Ring
end MyKernel.Cyclic
