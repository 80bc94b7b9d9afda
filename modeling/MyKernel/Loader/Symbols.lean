import MyKernel.Lib.Ranges
import MyKernel.Loader.Dyld

/-! What symbol resolution computes, and which bytes of memory it depends on. -/
namespace MyKernel.Loader
open Memory Ranges
variable {mem mem' : Mem} {fuel a b name : Nat} {m : Module} {mods : List Module}

def SameString (mem : Mem) (a b : Nat) : Prop :=
  ∃ n, (∀ k, k<n → load8 mem (a+k)=load8 mem (b+k) ∧ load8 mem (a+k)≠0) ∧
    load8 mem (a+n)=0 ∧ load8 mem (b+n)=0

def Defines (mem : Mem) (name : Nat) (m : Module) (i : Nat) : Prop :=
  (symAt mem m.symtab i).name≠0 ∧ (symAt mem m.symtab i).shndx≠SHN_UNDEF ∧
  SameString mem (m.strtab+(symAt mem m.symtab i).name) name ∧
  ((symAt mem m.symtab i).bind=STB_GLOBAL ∨ (symAt mem m.symtab i).bind=STB_WEAK)

def StringByte (mem : Mem) (p x : Nat) : Prop :=
  ∃ k, (∀ j, j<k → load8 mem (p+j)≠0) ∧ x=u32 (p+k)

def SymbolByte (mem : Mem) (m : Module) (i x : Nat) : Prop :=
  InRange (m.symtab+16*i) 16 x ∨ StringByte mem (m.strtab+(symAt mem m.symtab i).name) x

def AgreeOn (T : Nat → Prop) (mem mem' : Mem) : Prop := ∀ x, T x → mem' x=mem x

theorem AgreeOn.mono {T U : Nat → Prop} (h : AgreeOn T mem mem') (hu : ∀ x, U x → T x) :
    AgreeOn U mem mem' := fun x hx => h x (hu x hx)

theorem AgreeOn.load32 {p n k : Nat} (h : AgreeOn (InRange p n) mem mem') (hk : k+4≤n) :
    load32 mem' (p+k)=load32 mem (p+k) := by
  apply load32_congr
  intro j hj
  exact h _ ⟨k+j,by omega,by rw [Nat.add_assoc]⟩

theorem AgreeOn.load8 {p n k : Nat} (h : AgreeOn (InRange p n) mem mem') (hk : k<n) :
    load8 mem' (p+k)=load8 mem (p+k) := h _ ⟨k,hk,rfl⟩

theorem AgreeOn.symAt {symtab i : Nat} (h : AgreeOn (InRange (symtab+16*i) 16) mem mem') :
    symAt mem' symtab i=symAt mem symtab i := by
  have h0 := h.load32 (k := 0) (by omega)
  simp only [Nat.add_zero] at h0
  simp only [Loader.symAt,h0,h.load32 (k := 4) (by omega),h.load8 (k := 12) (by omega),
    h.load8 (k := 14) (by omega),h.load8 (k := 15) (by omega)]

theorem stringByte_self (p : Nat) : StringByte mem p (u32 p) := ⟨0,by simp,rfl⟩

theorem stringByte_succ {p x : Nat} (h0 : load8 mem p≠0) (h : StringByte mem (p+1) x) : StringByte mem p x := by
  obtain ⟨k,hk,hx⟩ := h
  refine ⟨k+1,?_,by rw [hx,Nat.add_assoc,Nat.add_comm 1 k]⟩
  intro j hj
  cases j with
  | zero => exact h0
  | succ j => simpa [Nat.add_assoc,Nat.add_comm 1 j] using hk j (by omega)

theorem AgreeOn.strEq (ha : AgreeOn (StringByte mem a) mem mem')
    (hb : AgreeOn (StringByte mem b) mem mem') : strEq mem' fuel a b=strEq mem fuel a b := by
  induction fuel generalizing a b with
  | zero => rfl
  | succ fuel ih =>
    have hha : Memory.load8 mem' a=Memory.load8 mem a := ha _ (stringByte_self a)
    have hhb : Memory.load8 mem' b=Memory.load8 mem b := hb _ (stringByte_self b)
    simp only [Loader.strEq,hha,hhb]
    split
    · rename_i hne
      rw [ih (ha.mono fun x => stringByte_succ hne.1) (hb.mono fun x => stringByte_succ hne.2)]
    · rfl

theorem AgreeOn.lookupInModule {n i : Nat} (hs : ∀ j, j < i+n → AgreeOn (SymbolByte mem m j) mem mem')
    (hn : AgreeOn (StringByte mem name) mem mem') :
    lookupInModule fuel mem' m name n i=lookupInModule fuel mem m name n i := by
  induction n generalizing i with
  | zero => rfl
  | succ n ih =>
    have hi := hs i (by omega)
    have hsym := (hi.mono fun x => Or.inl).symAt
    have hstr : Loader.strEq mem' fuel (m.strtab+(Loader.symAt mem m.symtab i).name) name =
        Loader.strEq mem fuel (m.strtab+(Loader.symAt mem m.symtab i).name) name :=
      (hi.mono fun x => Or.inr).strEq hn
    have hrest := ih (i := i+1) fun j hj => hs j (by omega)
    simp only [Loader.lookupInModule,hsym,hstr,hrest]

def ModuleByte (mem : Mem) (mods : List Module) (x : Nat) : Prop :=
  ∃ m∈mods, m.symtab≠0 ∧ m.strtab≠0 ∧ ∃ i, i < m.symcount ∧ SymbolByte mem m i x

theorem AgreeOn.lookupSymbol (hs : AgreeOn (ModuleByte mem mods) mem mem')
    (hn : AgreeOn (StringByte mem name) mem mem') :
    lookupSymbol fuel mem' name mods=lookupSymbol fuel mem name mods := by
  induction mods with
  | nil => rfl
  | cons m ms ih =>
    have hrest := ih (hs.mono fun x hx => by
      obtain ⟨m',hm',h⟩ := hx
      exact ⟨m',List.mem_cons_of_mem m hm',h⟩)
    simp only [Loader.lookupSymbol]
    split
    · exact hrest
    · rename_i htab
      have htab' := not_or.mp htab
      have hin : Loader.lookupInModule fuel mem' m name m.symcount 0 =
          Loader.lookupInModule fuel mem m name m.symcount 0 := by
        refine AgreeOn.lookupInModule ?_ hn
        intro j hj
        refine hs.mono fun x hx => ?_
        exact ⟨m,by simp,htab'.1,htab'.2,j,by simpa using hj,hx⟩
      rw [hin,hrest]

def ResolveByte (mem : Mem) (mods : List Module) (m : Module) (idx x : Nat) : Prop :=
  idx≠0 ∧ m.symtab≠0 ∧ m.strtab≠0 ∧ (SymbolByte mem m idx x ∨ ModuleByte mem mods x)

theorem AgreeOn.resolveSym {idx : Nat} (h : AgreeOn (ResolveByte mem mods m idx) mem mem') :
    resolveSym fuel mem' mods m idx=resolveSym fuel mem mods m idx := by
  rw [Loader.resolveSym,Loader.resolveSym]
  split
  · rename_i hc
    have hown : AgreeOn (SymbolByte mem m idx) mem mem' :=
      h.mono fun x hx => ⟨hc.1,hc.2.1,hc.2.2,Or.inl hx⟩
    have hmods : AgreeOn (ModuleByte mem mods) mem mem' :=
      h.mono fun x hx => ⟨hc.1,hc.2.1,hc.2.2,Or.inr hx⟩
    have hsym := (hown.mono fun x => Or.inl).symAt
    have hlook : Loader.lookupSymbol fuel mem' (m.strtab+(Loader.symAt mem m.symtab idx).name) mods =
        Loader.lookupSymbol fuel mem (m.strtab+(Loader.symAt mem m.symtab idx).name) mods :=
      hmods.lookupSymbol (hown.mono fun x => Or.inr)
    simp only [hsym,hlook]
  · rfl

end MyKernel.Loader
