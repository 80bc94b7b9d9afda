import MyKernel.Loader.Symbols

/-! The `DT_NEEDED` entries of a module in memory. -/
namespace MyKernel.Loader
open Memory Ranges

variable {mem mem' : Mem} {p q fuel k n : Nat} {m : Module} {s t dir b b' : List UInt8} {c : UInt8}

def StringAt (mem : Mem) (p : Nat) (s : List UInt8) : Prop := strEqAt mem s p=true ∧ 0∉s

theorem stringAt_nil : StringAt mem p [] ↔ load8 mem p=0 := by
  simp [StringAt,strEqAt]

theorem stringAt_cons : StringAt mem p (c::s) ↔ load8 mem p=c ∧ c≠0 ∧ StringAt mem (p+1) s := by
  simp only [StringAt,strEqAt,Bool.and_eq_true,beq_iff_eq,List.mem_cons,not_or,ne_eq,eq_comm (a := (0 : UInt8))]
  tauto

theorem StringAt.tail (h : StringAt mem p (dir++s)) : StringAt mem (p+dir.length) s := by
  induction dir generalizing p with
  | nil => exact h
  | cons c dir ih =>
    have hrest := ih (stringAt_cons.mp h).2.2
    rwa [List.length_cons,Nat.add_comm dir.length,← Nat.add_assoc]

theorem strEqAt_iff (h : StringAt mem p s) (ht : 0∉t) : strEqAt mem t p=true ↔ t=s := by
  induction t generalizing p s with
  | nil =>
    cases s with
    | nil => exact iff_of_true h.1 rfl
    | cons c s =>
      obtain ⟨hc,hne,_⟩ := stringAt_cons.mp h
      simp [strEqAt,hc,hne]
  | cons d t ih =>
    rw [List.mem_cons,not_or] at ht
    cases s with
    | nil =>
      rw [stringAt_nil] at h
      simp [strEqAt,h,ht.1]
    | cons c s =>
      obtain ⟨hc,_,hs⟩ := stringAt_cons.mp h
      rw [strEqAt,Bool.and_eq_true,ih hs ht.2,beq_iff_eq,hc,List.cons.injEq,eq_comm (a := c)]

theorem StringAt.unique (h : StringAt mem p s) (h' : StringAt mem p t) : s=t :=
  (strEqAt_iff h' h.2).mp h.1

theorem AgreeOn.stringAt (h : AgreeOn (StringByte mem p) mem mem') : StringAt mem' p s ↔ StringAt mem p s := by
  have hhead : Memory.load8 mem' p=Memory.load8 mem p := h _ (stringByte_self p)
  induction s generalizing p with
  | nil => rw [stringAt_nil,stringAt_nil,hhead]
  | cons c s ih =>
    rw [stringAt_cons,stringAt_cons,hhead]
    refine and_congr_right fun hc => and_congr_right fun hne => ?_
    have hrest : AgreeOn (StringByte mem (p+1)) mem mem' := h.mono fun x hx => stringByte_succ (hc ▸ hne) hx
    exact ih hrest (hrest _ (stringByte_self _))

def baseOf (s : List UInt8) : List UInt8 := (s.reverse.takeWhile fun c => c != 0x2F).reverse

def BaseNameAt (mem : Mem) (p : Nat) (b : List UInt8) : Prop := ∃ s, StringAt mem p s ∧ b=baseOf s

theorem BaseNameAt.unique (h : BaseNameAt mem p b) (h' : BaseNameAt mem p b') : b=b' := by
  obtain ⟨s,hs,rfl⟩ := h
  obtain ⟨s',hs',rfl⟩ := h'
  rw [hs.unique hs']

theorem AgreeOn.baseNameAt (h : AgreeOn (StringByte mem p) mem mem') : BaseNameAt mem' p b ↔ BaseNameAt mem p b := by
  simp only [BaseNameAt,h.stringAt]

/-- Entry `k` of the dynamic section, before its end, needs the library `b`. -/
def Needs (mem : Mem) (m : Module) (k : Nat) (b : List UInt8) : Prop :=
  (∀ j, j≤k → load32 mem (m.dynamic+8*j)≠DT_NULL) ∧ load32 mem (m.dynamic+8*k)=DT_NEEDED ∧
    BaseNameAt mem (m.strtab+load32 mem (m.dynamic+8*k+4)) b

def Needed (mem : Mem) (m : Module) (b : List UInt8) : Prop :=
  m.dynamic≠0 ∧ m.strtab≠0 ∧ ∃ k, Needs mem m k b

theorem Needs.unique (h : Needs mem m k b) (h' : Needs mem m k b') : b=b' := h.2.2.unique h'.2.2

/-- The bytes of the entries up to the end of the section, and of the names that they need. -/
def NeededByte (mem : Mem) (m : Module) (x : Nat) : Prop :=
  ∃ k, (∀ j, j<k → load32 mem (m.dynamic+8*j)≠DT_NULL) ∧ (InRange (m.dynamic+8*k) 8 x ∨
    load32 mem (m.dynamic+8*k)=DT_NEEDED ∧ StringByte mem (m.strtab+load32 mem (m.dynamic+8*k+4)) x)

section Agree
variable (h : AgreeOn (NeededByte mem m) mem mem') (hk : ∀ j, j<k → Memory.load32 mem (m.dynamic+8*j)≠DT_NULL)
include h hk

theorem AgreeOn.entry : Memory.load32 mem' (m.dynamic+8*k)=Memory.load32 mem (m.dynamic+8*k) ∧
    Memory.load32 mem' (m.dynamic+8*k+4)=Memory.load32 mem (m.dynamic+8*k+4) := by
  have hentry : AgreeOn (InRange (m.dynamic+8*k) 8) mem mem' := h.mono fun x hx => ⟨k,hk,.inl hx⟩
  exact ⟨hentry.load32 (k := 0) (by omega),hentry.load32 (k := 4) (by omega)⟩

theorem AgreeOn.neededName (hneeded : Memory.load32 mem (m.dynamic+8*k)=DT_NEEDED) :
    AgreeOn (StringByte mem (m.strtab+Memory.load32 mem (m.dynamic+8*k+4))) mem mem' :=
  h.mono fun _ hx => ⟨k,hk,.inr ⟨hneeded,hx⟩⟩

end Agree

theorem AgreeOn.notNull (h : AgreeOn (NeededByte mem m) mem mem') :
    (∀ j, j<k → Memory.load32 mem' (m.dynamic+8*j)≠DT_NULL) ↔
      ∀ j, j<k → Memory.load32 mem (m.dynamic+8*j)≠DT_NULL := by
  induction k with
  | zero => simp
  | succ k ih =>
    rw [Nat.forall_lt_succ_right,Nat.forall_lt_succ_right,ih]
    exact and_congr_right fun hk => by rw [(h.entry hk).1]

theorem AgreeOn.needs (h : AgreeOn (NeededByte mem m) mem mem') : Needs mem' m k b ↔ Needs mem m k b := by
  have hlt : ∀ j : Nat, j≤k ↔ j<k+1 := fun j => Nat.lt_succ_iff.symm
  simp only [Needs,hlt,h.notNull]
  refine and_congr_right fun hk => ?_
  have hbefore := fun j hj => hk j (Nat.lt_succ_of_lt hj)
  rw [(h.entry hbefore).1,(h.entry hbefore).2]
  exact and_congr_right fun hneeded => (h.neededName hbefore hneeded).baseNameAt

end MyKernel.Loader
