import Mathlib.Data.Nat.Find
import MyKernel.Loader.Symbols

/-! `lookup_symbol` against the symbol tables as they are. -/
namespace MyKernel.Loader
open Memory

variable {mem : Mem} {name fuel len a : Nat} {m : Module} {mods : List Module} {size size' : Module → Nat} {v w : Nat}

def HasTables (m : Module) : Prop := m.symtab≠0 ∧ m.strtab≠0

def DefinesBelow (mem : Mem) (name n : Nat) (m : Module) : Prop := HasTables m ∧ ∃ i, i<n ∧ Defines mem name m i

def Defined (size : Module → Nat) (mem : Mem) (name : Nat) (mods : List Module) : Prop :=
  ∃ m∈mods, DefinesBelow mem name (size m) m

/-- The value of the first definition in the first module that has one. -/
def FirstDefinition (size : Module → Nat) (mem : Mem) (name : Nat) (mods : List Module) (v : Nat) : Prop :=
  ∃ pre m post i, mods=pre++m::post ∧ (∀ m'∈pre, ¬ DefinesBelow mem name (size m') m') ∧ HasTables m ∧
    i<size m ∧ Defines mem name m i ∧ (∀ l, l < i → ¬ Defines mem name m l) ∧
    v=u32 ((symAt mem m.symtab i).value+m.bias)

theorem FirstDefinition.cons (hm : ¬ DefinesBelow mem name (size m) m) (h : FirstDefinition size mem name mods v) :
    FirstDefinition size mem name (m::mods) v := by
  obtain ⟨pre,m',post,i,rfl,hpre,hrest⟩ := h
  exact ⟨m::pre,m',post,i,rfl,List.forall_mem_cons.mpr ⟨hm,hpre⟩,hrest⟩

theorem firstDefinition_head (hm : DefinesBelow mem name (size m) m) (mods : List Module) :
    ∃ v, FirstDefinition size mem name (m::mods) v := by
  classical
  obtain ⟨htables,hex⟩ := hm
  have hfirst := Nat.find_spec hex
  refine ⟨_,[],m,mods,Nat.find hex,rfl,List.forall_mem_nil _,htables,hfirst.1,hfirst.2,?_,rfl⟩
  intro l hl hdef
  exact Nat.find_min hex hl ⟨by omega,hdef⟩

theorem Defined.first (h : Defined size mem name mods) : ∃ v, FirstDefinition size mem name mods v := by
  induction mods with
  | nil =>
    obtain ⟨m,hm,_⟩ := h
    cases hm
  | cons m ms ih =>
    by_cases hm : DefinesBelow mem name (size m) m
    · exact firstDefinition_head hm ms
    · obtain ⟨m',hmem,hdef⟩ := h
      cases List.mem_cons.mp hmem with
      | inl heq => exact absurd (heq ▸ hdef) hm
      | inr hin =>
        obtain ⟨v,hv⟩ := ih ⟨m',hin,hdef⟩
        exact ⟨v,hv.cons hm⟩

theorem first_unique {i j : Nat} (hi : Defines mem name m i) (hfirst : ∀ l, l < i → ¬ Defines mem name m l)
    (hj : Defines mem name m j) (hfirst' : ∀ l, l<j → ¬ Defines mem name m l) : i=j :=
  Nat.le_antisymm (Nat.le_of_not_lt fun hlt => hfirst j hlt hj) (Nat.le_of_not_lt fun hlt => hfirst' i hlt hi)

theorem first_no_later {P : Module → Prop} {pre pre' post post' : List Module} {m' : Module}
    (h : pre++m::post=pre'++m'::post') (hm : P m) (hpre' : ∀ k∈pre', ¬ P k) : pre'.length≤pre.length := by
  by_contra hlt
  have hget : pre'[pre.length]?=some m := by
    rw [← List.getElem?_append_left (Nat.lt_of_not_le hlt),← h,List.getElem?_append_right (Nat.le_refl _),
      Nat.sub_self]
    rfl
  exact hpre' m (List.mem_of_getElem? hget) hm

theorem FirstDefinition.unique (h : FirstDefinition size mem name mods v) (h' : FirstDefinition size mem name mods w) :
    v=w := by
  obtain ⟨pre,m,post,i,hmods,hpre,htables,hi,hdef,hmin,rfl⟩ := h
  obtain ⟨pre',m',post',i',hmods',hpre',htables',hi',hdef',hmin',rfl⟩ := h'
  rw [hmods] at hmods'
  have hle := first_no_later hmods' ⟨htables,i,hi,hdef⟩ hpre'
  have hge := first_no_later hmods'.symm ⟨htables',i',hi',hdef'⟩ hpre
  obtain ⟨_,hrest⟩ := List.append_inj hmods' (Nat.le_antisymm hge hle)
  obtain ⟨rfl,_⟩ := List.cons.inj hrest
  rw [first_unique hdef hmin hdef' hmin']

/-- Before every definition that only one of the two searches comes to stands one that both come to. -/
def Undisputed (size size' : Module → Nat) (mem : Mem) (name : Nat) (mods : List Module) : Prop :=
  ∀ pre m post i, mods=pre++m::post → HasTables m → Defines mem name m i → ¬ (i<size m ↔ i<size' m) →
    (∃ m'∈pre, DefinesBelow mem name (min (size m') (size' m')) m') ∨
      DefinesBelow mem name (min (size m) (size' m)) m

theorem Undisputed.symm (h : Undisputed size size' mem name mods) : Undisputed size' size mem name mods := by
  intro pre m post i hmods htables hdef hdisputed
  have hfirst := h pre m post i hmods htables hdef fun hiff => hdisputed hiff.symm
  rw [Nat.min_comm (size' m)]
  simp only [Nat.min_comm (size' _)]
  exact hfirst

theorem DefinesBelow.mono {n n' : Nat} (h : DefinesBelow mem name n m) (hle : n≤n') : DefinesBelow mem name n' m := by
  obtain ⟨htables,i,hi,hdef⟩ := h
  exact ⟨htables,i,by omega,hdef⟩

theorem Undisputed.first (h : Undisputed size size' mem name mods) (hfirst : FirstDefinition size mem name mods v) :
    FirstDefinition size' mem name mods v := by
  obtain ⟨pre,m,post,i,hmods,hpre,htables,hi,hdef,hmin,hv⟩ := hfirst
  refine ⟨pre,m,post,i,hmods,?_,htables,?_,hdef,hmin,hv⟩
  · -- a definition before it would be disputed, and nothing both come to stands before that
    rintro m' hmem ⟨htables',j,hj,hdef'⟩
    obtain ⟨pre',post',rfl⟩ := List.append_of_mem hmem
    have hnot : ¬ j<size m' := fun hlt => hpre m' hmem ⟨htables',j,hlt,hdef'⟩
    rw [List.append_assoc,List.cons_append] at hmods
    rcases h pre' m' _ j hmods htables' hdef' (by simp [hnot,hj]) with ⟨m'',hmem',hbelow⟩ | hbelow
    · exact hpre m'' (List.mem_append_left _ hmem') (hbelow.mono (Nat.min_le_left _ _))
    · exact hpre m' hmem (hbelow.mono (Nat.min_le_left _ _))
  · by_contra hnot
    rcases h pre m post i hmods htables hdef (by simp [hnot,hi]) with ⟨m',hmem,hbelow⟩ | ⟨_,l,hl,hdef'⟩
    · exact hpre m' hmem (hbelow.mono (Nat.min_le_left _ _))
    · exact hmin l (by omega) hdef'

def Scanned (m : Module) : Prop := ∃ fuel mem m', scanDynamic fuel mem m'=some m

theorem Scanned.symcount (h : Scanned m) (htables : HasTables m) : m.symcount=256 := by
  obtain ⟨fuel,mem,m',h⟩ := h
  rw [scanDynamic] at h
  split at h
  next =>
    cases h
    exact absurd rfl htables.1
  next =>
    obtain ⟨tables,_,rfl⟩ := Option.map_eq_some_iff.mp h
    rfl

end MyKernel.Loader
