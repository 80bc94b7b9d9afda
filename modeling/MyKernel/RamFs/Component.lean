import MyKernel.RamFs.MkdirP
import MyKernel.Vfs.Model

/-! The array `component` of `fs_mkdir_p`. -/
namespace MyKernel.RamFs
open CString Parts Vfs

variable {s : Fs} {b b' : Nat → Option UInt8} {n i saved fuel : Nat} {path name l : List UInt8}
  {cs pre : List (List UInt8)}

def storeComponent (b : Nat → Option UInt8) (i : Nat) (c : UInt8) : Option (Nat → Option UInt8) :=
  if i<FS_NAME_MAX then some (fun j => if j=i then some c else b j) else none

def loadComponent (b : Nat → Option UInt8) (i : Nat) : Option UInt8 := if i<FS_NAME_MAX then b i else none

/-- `while (p[n] && p[n] != '/') { if (n + 1 < FS_NAME_MAX) component[n] = p[n]; n++; }` -/
def copyComponent : List UInt8 → Nat → (Nat → Option UInt8) → Option (Nat × List UInt8 × (Nat → Option UInt8))
  | [], n, b => some (n,[],b)
  | c::p, n, b =>
    if c=0x2F then some (n,c::p,b)
    else if n+1<FS_NAME_MAX then (storeComponent b n c).bind (copyComponent p (n+1))
    else copyComponent p (n+1) b

/-- All the bytes that a use of the string may load, up to its terminator. -/
def readComponent (b : Nat → Option UInt8) : Nat → Nat → Option (List UInt8)
  | 0, _ => none
  | fuel+1, i => (loadComponent b i).bind fun c =>
      if c=0 then some [] else (readComponent b fuel (i+1)).map (c::·)

def mkdirPBufLoop (saved : Nat) : Nat → List UInt8 → (Nat → Option UInt8) → Fs → Option (FsResult × Fs)
  | _, [], _, s => some (.ok,{ s with cwd := saved })
  | 0, _::_, _, _ => none
  | fuel+1, c::cs, b, s =>
    (copyComponent (c::cs) 0 b).bind fun (n,p,b) =>
    (storeComponent b n 0).bind fun b =>
    let rest := p.drop 1
    (loadComponent b 0).bind fun first =>
    if first=0 then mkdirPBufLoop saved fuel rest b s
    else (readComponent b (FS_NAME_MAX+1) 0).bind fun component =>
      match fsFindChild s s.cwd component with
      | some idx =>
        if (s.nodes idx).type ≠ .dir then some (.notADirectory,{ s with cwd := saved })
        else mkdirPBufLoop saved fuel rest b { s with cwd := idx }
      | none =>
        let (r,s) := fsMkdir s component
        if r ≠ .ok then some (r,{ s with cwd := saved })
        else match fsFindChild s s.cwd component with
          | none => none
          | some idx =>
            if (s.nodes idx).type ≠ .dir then some (.notADirectory,{ s with cwd := saved })
            else mkdirPBufLoop saved fuel rest b { s with cwd := idx }

/-- `fs_mkdir_p` with its array. `none` is an access outside it or to a byte not stored. -/
def fsMkdirPBuf (s : Fs) (path : List UInt8) : Option (FsResult × Fs) :=
  match path with
  | [] => some (.invalidName,s)
  | c::cs =>
    if c≠0x2F then some (.invalidName,s)
    else mkdirPBufLoop s.cwd cs.length cs (fun _ => none) { s with cwd := FS_ROOT_INDEX }

/-- The copy never leaves the array, and a name that fits is there byte by byte. -/
theorem copyComponent_spec (l : List UInt8) (n : Nat) (b : Nat → Option UInt8) :
    ∃ b', copyComponent l n b=some (n+(firstPart 0x2F l).length,l.dropWhile (fun c => c != 0x2F),b') ∧
      (∀ i, i<n → b' i=b i) ∧
      ∀ k, k<(firstPart 0x2F l).length → n+k+1<FS_NAME_MAX → b' (n+k)=(firstPart 0x2F l)[k]? := by
  induction l generalizing n b with
  | nil => exact ⟨b,rfl,fun _ _ => rfl,fun k hk => by simp [firstPart] at hk⟩
  | cons c l ih =>
    by_cases hc : c=0x2F
    · refine ⟨b,?_,fun _ _ => rfl,fun k hk => by simp [firstPart,hc] at hk⟩
      simp [copyComponent,firstPart,hc]
    · have hfirst : firstPart 0x2F (c::l)=c::firstPart 0x2F l := by simp [firstPart,hc]
      have hdrop : (c::l).dropWhile (fun c => c != 0x2F)=l.dropWhile (fun c => c != 0x2F) := by simp [hc]
      have hlen : n+(firstPart 0x2F (c::l)).length=n+1+(firstPart 0x2F l).length := by
        rw [hfirst,List.length_cons]
        omega
      rw [copyComponent,if_neg hc,hlen,hdrop,hfirst]
      by_cases hroom : n+1<FS_NAME_MAX
      · obtain ⟨b',hcopy,hold,hnew⟩ := ih (n+1) (fun j => if j=n then some c else b j)
        refine ⟨b',?_,?_,?_⟩
        · rw [if_pos hroom,storeComponent,if_pos (by omega)]
          exact hcopy
        · intro i hi
          rw [hold i (by omega),if_neg (by omega)]
        · intro k hk hkn
          cases k with
          | zero => rw [Nat.add_zero,hold n (by omega),if_pos rfl,List.getElem?_cons_zero]
          | succ k =>
            have h := hnew k (by simpa using hk) (by omega)
            rw [show n+1+k=n+(k+1) by omega] at h
            rw [h,List.getElem?_cons_succ]
      · obtain ⟨b',hcopy,hold,_⟩ := ih (n+1) b
        refine ⟨b',?_,fun i hi => hold i (by omega),fun k _ hkn => by omega⟩
        rw [if_neg hroom]
        exact hcopy

theorem readComponent_spec (hn : 0∉name) (hlen : i+name.length<FS_NAME_MAX)
    (hb : ∀ k, k<name.length → b (i+k)=name[k]?) (hend : b (i+name.length)=some 0)
    (hfuel : name.length<fuel) : readComponent b fuel i=some name := by
  induction name generalizing i fuel with
  | nil =>
    obtain ⟨fuel,rfl⟩ : ∃ f, fuel=f+1 := ⟨fuel - 1,by simp at hfuel; omega⟩
    have hi : b i=some 0 := by simpa using hend
    rw [readComponent,loadComponent,if_pos (by simpa using hlen),hi]
    rfl
  | cons c name ih =>
    simp only [List.length_cons] at hlen hfuel
    simp only [List.mem_cons,not_or] at hn
    obtain ⟨fuel,rfl⟩ : ∃ f, fuel=f+1 := ⟨fuel - 1,by omega⟩
    have hi : b i=some c := by simpa using hb 0 (by simp)
    have hrest : readComponent b fuel (i+1)=some name := by
      refine ih hn.2 (by omega) ?_ ?_ (by omega)
      · intro k hk
        have h := hb (k+1) (by simpa using hk)
        rw [show i+(k+1)=i+1+k by omega] at h
        simpa using h
      · rw [show i+1+name.length=i+(c::name).length by simp; omega]
        exact hend
    rw [readComponent,loadComponent,if_pos (by omega),hi,Option.bind_some,if_neg (fun h => hn.1 h.symm),hrest]
    rfl

theorem component_stored (hn : 0∉name) (hlen : name.length<FS_NAME_MAX) (hb : ∀ k, k<name.length → b k=name[k]?) :
    ∃ b', storeComponent b name.length 0=some b' ∧ loadComponent b' 0=some (name.headD 0) ∧
      readComponent b' (FS_NAME_MAX+1) 0=some name := by
  refine ⟨fun j => if j=name.length then some 0 else b j,if_pos hlen,?_,?_⟩
  · rw [loadComponent,if_pos (by decide)]
    cases name with
    | nil => rfl
    | cons c name => simpa using hb 0 (by simp)
  · refine readComponent_spec hn (by omega) ?_ (by simp) (by omega)
    intro k hk
    rw [Nat.zero_add,if_neg (by omega),hb k hk]

theorem mkdirPBufLoop_eq (h0 : 0∉path) : mkdirPBufLoop saved fuel path b s=mkdirPLoop saved fuel path s := by
  induction fuel generalizing path b s with
  | zero =>
    cases path with
    | nil => rfl
    | cons c cs => rfl
  | succ fuel ih =>
    cases path with
    | nil => rfl
    | cons c cs =>
      have hname : 0∉firstPart 0x2F (c::cs) := fun h => h0 (firstPart_isInfix.subset h)
      have hrest : ∀ b s, mkdirPBufLoop saved fuel (((c::cs).dropWhile (fun c => c != 0x2F)).drop 1) b s =
          mkdirPLoop saved fuel (otherParts 0x2F (c::cs)) s :=
        fun b s => ih fun h => h0 (otherParts_suffix.subset h)
      obtain ⟨b₁,hcopy,_,hbytes⟩ := copyComponent_spec (c::cs) 0 b
      simp only [Nat.zero_add] at hcopy hbytes
      rw [mkdirPBufLoop,hcopy,Option.bind_some,mkdirPLoop]
      change _ = if FS_NAME_MAX ≤ (firstPart 0x2F (c::cs)).length then _ else
        if firstPart 0x2F (c::cs)=[] then mkdirPLoop saved fuel (otherParts 0x2F (c::cs)) s else _
      by_cases hlong : FS_NAME_MAX≤(firstPart 0x2F (c::cs)).length
      · rw [if_pos hlong]
        simp only [storeComponent,if_neg (Nat.not_lt.mpr hlong),Option.bind_none]
      · have hshort := Nat.not_le.mp hlong
        obtain ⟨b₂,hstore,hload,hread⟩ := component_stored hname hshort fun k hk => hbytes k hk (by omega)
        rw [if_neg hlong]
        simp only [hstore,hload,hread,Option.bind_some]
        by_cases hempty : firstPart 0x2F (c::cs)=[]
        · rw [if_pos hempty,hempty]
          exact hrest b₂ s
        · have hfirst : (firstPart 0x2F (c::cs)).headD 0≠0 := by
            cases hp : firstPart 0x2F (c::cs) with
            | nil => exact absurd hp hempty
            | cons d p =>
              rw [hp] at hname
              simpa using fun h : d=0 => hname (by simp [h])
          rw [if_neg hempty,if_neg hfirst]
          simp only [hrest]
          rfl

theorem fsMkdirPBuf_eq (h0 : 0∉path) : fsMkdirPBuf s path=fsMkdirP s path := by
  cases path with
  | nil => rfl
  | cons c cs =>
    rw [fsMkdirPBuf,fsMkdirP,mkdirPBufLoop_eq fun h => h0 (by simp [h])]

/-- Every name that is reached, all names before it being directories by then, is shorter than 48 bytes. -/
def ReachesShort (saved : Nat) (s : Fs) (cs : List (List UInt8)) : Prop :=
  ∀ pre c post, cs=pre++c::post → (∃ t, mkdirAll saved pre s=some (.ok,t)) → c.length<48

theorem reachesShort_cons {t : Fs} {c : List UInt8} (hlen : c.length<48)
    (hstep : ∀ pre, mkdirAll saved (c::pre) s=mkdirAll saved pre t) :
    ReachesShort saved s (c::cs) ↔ ReachesShort saved t cs := by
  constructor
  · rintro h pre d post rfl ⟨u,hu⟩
    exact h (c::pre) d post rfl ⟨u,by rw [hstep,hu]⟩
  · intro h pre d post he hok
    cases pre with
    | nil =>
      obtain ⟨rfl,_⟩ := List.cons.inj he
      exact hlen
    | cons b pre =>
      obtain ⟨rfl,hrest⟩ := List.cons.inj he
      obtain ⟨u,hu⟩ := hok
      exact h pre d post hrest ⟨u,by rw [← hstep,hu]⟩

/-- The call ends without a fault exactly when it meets no name that is too long. -/
theorem mkdirAll_ne_none_iff (hcs : ∀ c∈cs, 0∉c) : mkdirAll saved cs s≠none ↔ ReachesShort saved s cs := by
  induction cs generalizing s with
  | nil =>
    refine iff_of_true (by simp [mkdirAll]) ?_
    intro pre c post he
    simp at he
  | cons c cs ih =>
    have hrest : ∀ c∈cs, 0∉c := fun b hb => hcs b (by simp [hb])
    by_cases hlen : c.length<48
    · rcases mkdirAll_cons_cases saved s (hcs c (by simp)) hlen with ⟨idx,_,_,he⟩ | ⟨r,hr,he⟩ | ⟨idx,_,he⟩
      · rw [he cs,ih hrest,reachesShort_cons hlen he]
      · refine iff_of_true (by simp [he cs]) ?_
        intro pre d post hsplit hok
        cases pre with
        | nil =>
          obtain ⟨rfl,_⟩ := List.cons.inj hsplit
          exact hlen
        | cons b pre =>
          -- the call has ended before it reaches a later name
          obtain ⟨rfl,_⟩ := List.cons.inj hsplit
          obtain ⟨u,hu⟩ := hok
          rw [he pre] at hu
          exact absurd (Prod.mk.inj (Option.some_inj.mp hu)).1 hr
      · rw [he cs,ih hrest,reachesShort_cons hlen he]
    · have hlong : FS_NAME_MAX≤c.length := Nat.not_lt.mp hlen
      refine iff_of_false (by simp [mkdirAll,hlong]) ?_
      intro h
      exact hlen (h [] c cs rfl ⟨_,rfl⟩)

/-- `vfs_mount` passes its path on as it is, and `fs_mkdir_p` keeps to its array for the paths whose
names, as far as they are reached, fit. -/
theorem mkdir_p_stays_in_component_iff (s : Fs) (path : CStr) :
    (∀ v fatReady type p, (vfsMount v fatReady path.bytes type).mkdirP=some p → p=path.bytes) ∧
    (fsMkdirPBuf s path.bytes≠none ↔ (path.bytes.head?=some 0x2F →
      ReachesShort s.cwd { s with cwd := FS_ROOT_INDEX } (components path.bytes))) := by
  refine ⟨fun v fatReady type p h => vfsMount_mkdirP h,?_⟩
  rw [fsMkdirPBuf_eq path.nul_free]
  by_cases habs : path.bytes.head?=some 0x2F
  · have hnul := nul_notMem_components path.nul_free
    obtain ⟨rest,hrest⟩ := exists_rest habs
    rw [hrest] at hnul ⊢
    rw [fsMkdirP_eq,mkdirAll_ne_none_iff hnul]
    simp
  · refine iff_of_true ?_ (fun h => absurd h habs)
    cases hb : path.bytes with
    | nil => simp [fsMkdirP]
    | cons c rest =>
      rw [hb] at habs
      have hc : c≠0x2F := fun h => habs (by rw [h]; rfl)
      simp [fsMkdirP,hc]

def blankMounts : MountTable := ⟨fun _ => ⟨false,fun _ => 0, .none⟩⟩

/-- A mount point with a name of 48 bytes: `vfs_mount` passes it on and its terminator is stored
one byte behind the array. -/
theorem mkdir_p_leaves_component :
    ¬ ∀ (v : MountTable) (fatReady : Bool) (s : Fs) (path : CStr), FsReachable s →
      (vfsMount v fatReady path.bytes .fat32).mkdirP=some path.bytes → fsMkdirPBuf s path.bytes≠none := by
  intro hall
  have hpass : (vfsMount (vfsInit blankMounts) true (0x2F::List.replicate 48 0x61) .fat32).mkdirP =
      some (0x2F::List.replicate 48 0x61) := by decide
  have hfault : (fsMkdirPBuf (fsInit blankFs) (0x2F::List.replicate 48 0x61)).isNone=true := by decide
  exact hall (vfsInit blankMounts) true (fsInit blankFs) ⟨0x2F::List.replicate 48 0x61,by decide⟩
    (.init ⟨blankFs,rfl⟩) hpass (Option.isNone_iff_eq_none.mp hfault)

end MyKernel.RamFs
