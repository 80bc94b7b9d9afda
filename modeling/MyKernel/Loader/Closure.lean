import MyKernel.Loader.Layout
import MyKernel.Loader.Needed

/-! Which libraries `dyld_load` loads. -/
namespace MyKernel.Loader
open Memory

section Names
variable {mem : Mem} {main : Module} {i : Nat} {names names' : List (List UInt8)} {b : List UInt8}

/-- From entry `i` on, the names of the modules come from `names` to `names'`. -/
structure Walked (mem : Mem) (main : Module) (i : Nat) (names names' : List (List UInt8)) : Prop where
  new : ∃ new, names'=names++new ∧ ∀ c∈new, ∃ k b, Needs mem main k b ∧ c=b.take 47
  all : ∀ k b, i≤k → Needs mem main k b → b.length≤47 → b∈names'
  nodup : (∀ k b, Needs mem main k b → b.length≤47) → names.Nodup → names'.Nodup

theorem Walked.done (h : load32 mem (main.dynamic+8*i)=DT_NULL) : Walked mem main i names names where
  new := ⟨[],(List.append_nil _).symm,List.forall_mem_nil _⟩
  all _ _ hk hneeds := absurd h (hneeds.1 i hk)
  nodup _ h := h

theorem Walked.skip (h : load32 mem (main.dynamic+8*i)≠DT_NEEDED) (hrest : Walked mem main (i+1) names names') :
    Walked mem main i names names' where
  new := hrest.new
  all k b hk hneeds := by
    have hne : k≠i := fun heq => h (heq ▸ hneeds.2.1)
    exact hrest.all k b (by omega) hneeds
  nodup := hrest.nodup

theorem Walked.found (h : Needs mem main i b) (hmem : b∈names) (hrest : Walked mem main (i+1) names names') :
    Walked mem main i names names' where
  new := hrest.new
  all k b' hk hneeds hlen := by
    by_cases heq : k=i
    · obtain ⟨new,rfl,_⟩ := hrest.new
      rw [heq] at hneeds
      rw [hneeds.unique h]
      exact List.mem_append_left _ hmem
    · exact hrest.all k b' (by omega) hneeds hlen
  nodup := hrest.nodup

theorem Walked.load (h : Needs mem main i b) (hmem : b∉names)
    (hrest : Walked mem main (i+1) (names++[b.take 47]) names') : Walked mem main i names names' where
  new := by
    obtain ⟨new,rfl,hnew⟩ := hrest.new
    refine ⟨b.take 47::new,by rw [List.append_assoc]; rfl,?_⟩
    rw [List.forall_mem_cons]
    exact ⟨⟨i,b,h,rfl⟩,hnew⟩
  all k b' hk hneeds hlen := by
    by_cases heq : k=i
    · obtain ⟨new,rfl,_⟩ := hrest.new
      rw [heq] at hneeds
      rw [hneeds.unique h] at hlen ⊢
      rw [List.take_of_length_le hlen]
      exact List.mem_append_left _ (List.mem_append_right _ List.mem_cons_self)
    · exact hrest.all k b' (by omega) hneeds hlen
  nodup hshort hnodup := by
    apply hrest.nodup hshort
    rw [List.take_of_length_le (hshort i b h),List.nodup_append]
    refine ⟨hnodup,List.nodup_cons.mpr ⟨List.not_mem_nil,List.nodup_nil⟩,?_⟩
    rintro c hc d hd rfl
    exact hmem (List.mem_singleton.mp hd ▸ hc)

end Names

section Written
variable {s t u : LoadState}

/-- From `s` on the loaders came to `t`, and memory changed only where they wrote. -/
def Grew (s t : LoadState) : Prop := ∃ new, t.written=new++s.written ∧ ∀ a, a∉new → t.mem a=s.mem a

theorem grew_refl (s : LoadState) : Grew s s := ⟨[],rfl,fun _ _ => rfl⟩

theorem Grew.put (h : Grew s t) (a : Nat) (v : UInt8) : Grew s (t.put a v) := by
  obtain ⟨new,hwritten,hmem⟩ := h
  refine ⟨u32 a::new,by rw [LoadState.put,hwritten]; rfl,?_⟩
  intro x hx
  rw [List.mem_cons,not_or] at hx
  exact (store8_of_ne t.mem a x v hx.1).trans (hmem x hx.2)

theorem Grew.put32 (h : Grew s t) (a v : Nat) : Grew s (t.put32 a v) :=
  (((h.put _ _).put _ _).put _ _).put _ _

theorem Grew.memCopy (h : Grew s t) (dst : Nat) (src : Nat → UInt8) (n : Nat) : Grew s (memCopy dst src n t) := by
  induction n with
  | zero => exact h
  | succ n ih => exact ih.put _ _

theorem Grew.memZero (h : Grew s t) (dst n : Nat) : Grew s (memZero dst n t) := by
  induction n with
  | zero => exact h
  | succ n ih => exact ih.put _ _

theorem Grew.trans (h : Grew s t) (h' : Grew t u) : Grew s u := by
  obtain ⟨new,hwritten,hmem⟩ := h
  obtain ⟨new',hwritten',hmem'⟩ := h'
  refine ⟨new'++new,by rw [hwritten',hwritten,List.append_assoc],?_⟩
  intro a ha
  rw [List.mem_append,not_or] at ha
  rw [hmem' a ha.1,hmem a ha.2]

def Untouched (T : Nat → Prop) (s t : LoadState) : Prop := ∀ new, t.written=new++s.written → ∀ a∈new, ¬ T a

theorem Untouched.agree {T : Nat → Prop} (h : Untouched T s u) (hst : Grew s t) (htu : Grew t u) :
    AgreeOn T s.mem t.mem := by
  obtain ⟨new,hwritten,hmem⟩ := hst
  obtain ⟨new',hwritten',_⟩ := htu
  intro a ha
  apply hmem
  intro hnew
  refine h (new'++new) ?_ a (List.mem_append_right _ hnew) ha
  rw [hwritten',hwritten,List.append_assoc]

end Written

section Run
variable {fuel k i bias : Nat} {libs : Libs} {main : Module} {s last : LoadState} {d d' : Dyld} {img : Image}
  {isMain : Bool} {name : Mem → List UInt8}

def Dyld.names (d : Dyld) : List (List UInt8) := d.mods.map Module.name

/-- The names are those of the main program and of what it needs. -/
structure Listed (mem : Mem) (main : Module) (names : List (List UInt8)) : Prop where
  new : ∃ new, names=mainName::new ∧ ∀ c∈new, ∃ b, Needed mem main b ∧ c=b.take 47
  all : ∀ b, Needed mem main b → b.length≤47 → b∈names
  nodup : (∀ b, Needed mem main b → b.length≤47) → names.Nodup

theorem Walked.listed {mem : Mem} {names : List (List UInt8)} (htables : main.dynamic≠0 ∧ main.strtab≠0)
    (h : Walked mem main 0 [mainName] names) : Listed mem main names where
  new := by
    obtain ⟨new,hnames,hnew⟩ := h.new
    refine ⟨new,hnames,fun c hc => ?_⟩
    obtain ⟨k,b,hneeds,hcut⟩ := hnew c hc
    exact ⟨b,⟨htables.1,htables.2,k,hneeds⟩,hcut⟩
  all b hneeded hlen := by
    obtain ⟨_,_,k,hneeds⟩ := hneeded
    exact h.all k b (Nat.zero_le k) hneeds hlen
  nodup hshort := by
    refine h.nodup (fun k b hneeds => hshort b ⟨htables.1,htables.2,k,hneeds⟩) ?_
    exact List.nodup_cons.mpr ⟨List.not_mem_nil,List.nodup_nil⟩

theorem Listed.congr {mem mem' : Mem} {names : List (List UInt8)} (h : Listed mem main names)
    (hsame : ∀ b, Needed mem' main b ↔ Needed mem main b) : Listed mem' main names where
  new := by simpa only [hsame] using h.new
  all := by simpa only [hsame] using h.all
  nodup := by simpa only [hsame] using h.nodup

theorem Untouched.needed {m : Module} {b : List UInt8} {t : LoadState} (h : Untouched (NeededByte s.mem m) s t)
    (hgrew : Grew s t) : Needed t.mem m b ↔ Needed s.mem m b := by
  have hagree := h.agree hgrew (grew_refl t)
  simp only [Needed,hagree.needs]

end Run

end MyKernel.Loader
