import MyKernel.Loader.Confinement

/-! Where modules end up. -/
namespace MyKernel.Loader
open Memory Ranges
variable {fuel : Nat} {libs : Libs} {d : Dyld} {mods : List Module}

def loadBase (i : Nat) (img : Image) : Nat :=
  if img.eType=ET_DYN then
    if i=0 then DYLD_MAIN_BASE else DYLD_LIB_BASE+(i-1)*DYLD_LIB_STRIDE
  else 0

def Based (mods : List Module) : Prop := ∀ i m, mods[i]?=some m → m.base=loadBase i m.image

theorem Based.append (h : Based mods) {m : Module} (hm : m.base=loadBase mods.length m.image) :
    Based (mods++[m]) := by
  intro i n hn
  by_cases hi : i < mods.length
  · rw [List.getElem?_append_left hi] at hn
    exact h i n hn
  · rw [List.getElem?_append_right (Nat.le_of_not_lt hi)] at hn
    cases hk : i - mods.length with
    | zero =>
      rw [hk] at hn
      have hnm : m=n := by simpa using hn
      have hilen : i=mods.length := by omega
      rw [← hnm,hilen]
      exact hm
    | succ k => simp [hk] at hn

def Linked (d : Dyld) : Prop := Based d.mods ∧ 0<d.mods.length

end MyKernel.Loader
