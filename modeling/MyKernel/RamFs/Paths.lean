import MyKernel.RamFs.Append
import MyKernel.RamFs.MkdirP

/-! The path that `fs_pwd` prints and `fs_read_path`. -/
namespace MyKernel.RamFs
open CString Chains Parts

variable {s : Fs} {n : FsNode} {i j d e p idx k size pos fuel : Nat} {name path l : List UInt8}
  {ns : List (List UInt8)} {buffer : Nat → UInt8} {chain : List Nat}

def joined (ns : List (List UInt8)) (name : List UInt8) : List UInt8 := ns.flatMap (·++slash)++name

def FreeUp (s : Fs) (i : Nat) : Prop :=
  ∀ chain, ChainFrom (parentOf s) (some i) chain → ∀ j∈chain, j≠0 → 0x2F∉nameOf (s.nodes j)

theorem FreeUp.parent (h : FreeUp s i) (hp : (s.nodes i).parent=some p) : FreeUp s p := by
  intro chain hchain j hj
  exact h (i::chain) ⟨rfl,by rw [parentOf,hp]; exact hchain⟩ j (List.mem_cons_of_mem i hj)

end MyKernel.RamFs
