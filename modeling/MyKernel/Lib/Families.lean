import MyKernel.Lib.Chains

/-! Families of disjoint paths through the cells of one table. -/
namespace MyKernel.Chains
variable {α ι : Type*} {inside used used' : α → Prop} {next next' : α → Option α}
variable {owner owner' : ι → Prop} {first first' : ι → Option α} {chain chain' : ι → List α}

structure Family (inside : α → Prop) (next : α → Option α) (owner : ι → Prop)
    (first : ι → Option α) (chain : ι → List α) : Prop where
  path : ∀ x, owner x → ChainFrom next (first x) (chain x)
  bounded : ∀ x, owner x → ∀ c∈chain x, inside c
  apart : ∀ x y, owner x → owner y → ∀ c∈chain x, c∈chain y → x=y

/-- Every used cell is on the path of an owner. -/
def Covers (inside used : α → Prop) (owner : ι → Prop) (chain : ι → List α) : Prop :=
  ∀ c, inside c → used c → ∃ x, owner x ∧ c∈chain x

/-- One owner `x` comes, goes or gets another path; the others stay as they are. -/
theorem Family.replace (h : Family inside next owner first chain) (x : ι)
    (hsame : ∀ y, y≠x → owner' y → owner y ∧ first' y=first y ∧ chain' y=chain y ∧
      ∀ c∈chain y, next' c=next c) (hpath : owner' x → ChainFrom next' (first' x) (chain' x))
    (hbound : owner' x → ∀ c∈chain' x, inside c) (hout : ∀ y, y≠x → owner' x → owner' y → ∀ c∈chain' x, c∉chain y) :
    Family inside next' owner' first' chain' where
  path y hy := by
    by_cases he : y=x
    · subst he
      exact hpath hy
    · obtain ⟨hown,hfirst,hchain,hnext⟩ := hsame y he hy
      rw [hfirst,hchain]
      exact (h.path y hown).congr hnext
  bounded y hy := by
    by_cases he : y=x
    · subst he
      exact hbound hy
    · obtain ⟨hown,_,hchain,_⟩ := hsame y he hy
      rw [hchain]
      exact h.bounded y hown
  apart y z hy hz c hcy hcz := by
    by_cases hey : y=x
    · by_cases hez : z=x
      · rw [hey,hez]
      · subst hey
        rw [(hsame z hez hz).2.2.1] at hcz
        exact absurd hcz (hout z hez hy hz c hcy)
    · rw [(hsame y hey hy).2.2.1] at hcy
      by_cases hez : z=x
      · subst hez
        exact absurd hcy (hout y hey hz hy c hcz)
      · rw [(hsame z hez hz).2.2.1] at hcz
        exact h.apart y z (hsame y hey hy).1 (hsame z hez hz).1 c hcy hcz

theorem Covers.replace (h : Covers inside used owner chain) (x : ι)
    (hsame : ∀ y, y≠x → owner y → owner' y ∧ chain' y=chain y)
    (hused : ∀ c, inside c → used' c → c∉chain' x ∨ ¬ owner' x →
      used c ∧ (owner x → c∉chain x)) : Covers inside used' owner' chain' := by
  intro c hc huse
  by_cases hx : owner' x ∧ c∈chain' x
  · exact ⟨x,hx⟩
  · obtain ⟨hold,hnot⟩ := hused c hc huse (by tauto)
    obtain ⟨y,hy,hcy⟩ := h c hc hold
    have hne : y≠x := by
      intro he
      subst he
      exact hnot hy hcy
    obtain ⟨hy',hchain⟩ := hsame y hne hy
    exact ⟨y,hy',hchain ▸ hcy⟩

end MyKernel.Chains
