import MyKernel.Loader.Confinement
import MyKernel.Loader.Symbols

/-! `apply_rel` against the relocation rules of the i386 psABI. -/
namespace MyKernel.Loader
open Memory Ranges
variable {fuel : Nat} {mods : List Module} {m : Module} {isRela : Bool} {s t : LoadState}
  {mem mem' : Mem} {r : Rel}

def Rel.stores (r : Rel) : Prop :=
  r.type=R_386_RELATIVE ∨ r.type=R_386_32 ∨ r.type=R_386_PC32 ∨
    r.type=R_386_GLOB_DAT ∨ r.type=R_386_JMP_SLOT

def entryAt (mem : Mem) (isRela : Bool) (addr k : Nat) : Rel :=
  relAt mem isRela (addr+k*relSize isRela)

theorem AgreeOn.entryAt {addr n k : Nat} (h : AgreeOn (InRange addr (n*relSize isRela)) mem mem') (hk : k<n) :
    entryAt mem' isRela addr k=entryAt mem isRela addr k := by
  have hle : k*relSize isRela+relSize isRela≤n*relSize isRela := by
    rw [← Nat.succ_mul]
    exact Nat.mul_le_mul_right _ hk
  have hword : ∀ j, j+4≤relSize isRela →
      Memory.load32 mem' (addr+k*relSize isRela+j) =
        Memory.load32 mem (addr+k*relSize isRela+j) := by
    intro j hj
    rw [Nat.add_assoc]
    exact h.load32 (by omega)
  have h0 := hword 0 (by cases isRela <;> decide)
  have h4 := hword 4 (by cases isRela <;> decide)
  rw [Nat.add_zero] at h0
  rw [Loader.entryAt,Loader.entryAt,relAt,relAt,h0,h4]
  cases isRela with
  | false => rfl
  | true => rw [hword 8 (by decide)]

end MyKernel.Loader
