import Mathlib.Data.List.Basic
import Mathlib.Data.List.TakeWhile

/-! The parts of a list between separators, empty ones left out. -/
namespace MyKernel.Parts
variable {α : Type*} [DecidableEq α] {sep : α} {l p : List α}

def parts (sep : α) (l : List α) : List (List α) := (l.splitOnP (fun c => c == sep)).filter (fun p => p≠[])

/-- The part a scan finds first, and what is left behind its separator. -/
def firstPart (sep : α) (l : List α) : List α := l.takeWhile (fun c => c != sep)
def otherParts (sep : α) (l : List α) : List α := (l.dropWhile (fun c => c != sep)).drop 1

@[simp] theorem parts_nil : parts sep []=[] := by simp [parts]

theorem sep_notMem_firstPart : sep∉firstPart sep l := by
  intro h
  have hall := List.all_eq_true.mp (List.all_takeWhile (l := l)) sep h
  simp at hall

theorem eq_firstPart (sep : α) (l : List α) :
    l=firstPart sep l ∧ otherParts sep l=[] ∨ l=firstPart sep l++sep::otherParts sep l := by
  have hsplit := List.takeWhile_append_dropWhile (p := fun c => c != sep) (l := l)
  cases hd : l.dropWhile (fun c => c != sep) with
  | nil =>
    rw [hd,List.append_nil] at hsplit
    exact .inl ⟨hsplit.symm,by rw [otherParts,hd]; rfl⟩
  | cons c rest =>
    have hc : c=sep := by
      have hhead := List.head_dropWhile_not (fun c => c != sep) (l := l) (by simp [hd])
      simpa [hd] using hhead
    refine .inr ?_
    rw [hd,hc] at hsplit
    rw [otherParts,hd]
    exact hsplit.symm

theorem parts_append_sep (h : sep∉p) : parts sep (p++sep::l)=if p=[] then parts sep l else p::parts sep l := by
  have hall : ∀ c∈p, (c == sep)=false := by
    intro c hc
    simpa using fun he : c=sep => h (he ▸ hc)
  rw [parts,List.splitOnP_append_cons_of_forall_mem hall sep (by simp)]
  by_cases hp : p=[]
  · simp [hp,parts]
  · simp [hp,parts]

theorem parts_single (h : sep∉p) : parts sep p=if p=[] then [] else [p] := by
  have hall : ∀ c∈p, (c == sep)=false := by
    intro c hc
    simpa using fun he : c=sep => h (he ▸ hc)
  rw [parts,List.splitOnP_eq_singleton hall]
  by_cases hp : p=[]
  · simp [hp]
  · simp [hp]

theorem parts_eq (sep : α) (l : List α) :
    parts sep l=if firstPart sep l=[] then parts sep (otherParts sep l)
      else firstPart sep l::parts sep (otherParts sep l) := by
  rcases eq_firstPart sep l with ⟨hl,ho⟩ | hl
  · rw [ho,parts_nil,← parts_single sep_notMem_firstPart,← hl]
  · rw [← parts_append_sep sep_notMem_firstPart,← hl]

theorem firstPart_isInfix : firstPart sep l <:+: l := (List.takeWhile_prefix _).isInfix

theorem otherParts_suffix : otherParts sep l <:+ l := (List.drop_suffix _ _).trans (List.dropWhile_suffix _)

theorem length_otherParts (h : l≠[]) : (otherParts sep l).length<l.length := by
  have hdrop := (List.dropWhile_suffix (fun c => c != sep) (l := l)).length_le
  have hpos := List.length_pos_iff.mpr h
  rw [otherParts,List.length_drop]
  omega

theorem mem_parts (h : p∈parts sep l) : p≠[] ∧ sep∉p ∧ p <:+: l := by
  induction hn : l.length using Nat.strongRecOn generalizing l with
  | ind n ih =>
    by_cases hl : l=[]
    · rw [hl,parts_nil] at h
      simp at h
    have hrest : p∈parts sep (otherParts sep l) → p≠[] ∧ sep∉p ∧ p <:+: l := by
      intro hp
      obtain ⟨h1,h2,h3⟩ := ih _ (hn ▸ length_otherParts hl) hp rfl
      exact ⟨h1,h2,h3.trans otherParts_suffix.isInfix⟩
    rw [parts_eq] at h
    split at h
    · exact hrest h
    · rename_i hne
      rcases List.mem_cons.mp h with rfl | h
      · exact ⟨hne,sep_notMem_firstPart,firstPart_isInfix⟩
      · exact hrest h

end MyKernel.Parts
