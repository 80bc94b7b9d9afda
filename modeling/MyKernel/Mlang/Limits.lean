import MyKernel.Mlang.Lines

/-! What is cut short without a word: lines and loops. -/
namespace MyKernel.Mlang
open CString MyKernel.Computation

/-- Of the two ways to leave a loop, the one or the other. -/
def Left (checks : List Bool) : Prop := checks.getLast?=some false ↔ checks≠List.replicate 10000 true

theorem left_false (checks : List Bool) : Left (checks++[false]) := by
  refine ⟨fun _ h => ?_,fun _ => List.getLast?_concat⟩
  have hmem : false∈List.replicate 10000 true := h ▸ List.mem_append_right _ (List.mem_singleton_self _)
  exact absurd (List.eq_of_mem_replicate hmem) (by decide)

theorem left_full : Left (List.replicate 10000 true) := by
  refine ⟨fun h => ?_,fun h => absurd rfl h⟩
  rw [List.getLast?_replicate,if_neg (by decide)] at h
  exact absurd h (by decide)

/-- The run has come to no other cut than those that stand in `cut`. -/
def Record (cut : Bool) (m : With Trace) : Prop := m.ghost.cut=cut ∧ ∀ checks∈m.ghost.loops, Left checks

section Record
variable {α : Type} {cut : Bool} {x y : Comp (With Trace) Int} {lines : List (List UInt8)}

theorem preserves_onState (x : Comp State α) : Preserves (Record cut) (onState x) := fun _ h => h

theorem preserves_next (hx : Preserves (Record cut) x) (hy : Preserves (Record cut) y) :
    Preserves (Record cut) (do if (← x)≠0 then pure (-1) else y) :=
  hx.bind fun _ => (preserves_pure _).ite hy

theorem preserves_leaveLoop {checks : List Bool} (h : Left checks) : Preserves (Record cut) (leaveLoop checks) := by
  rintro m ⟨hcut,hloops⟩
  refine ⟨hcut,?_⟩
  intro c hc
  rcases List.mem_append.mp hc with hc | hc
  · exact hloops c hc
  · rw [List.mem_singleton.mp hc]
    exact h

theorem preserves_execLines (lines : List (List UInt8)) : Preserves (Record cut) (execLines lines) := by
  induction lines with
  | nil => exact preserves_pure _
  | cons line lines ih => exact preserves_next (preserves_onState _) ih

theorem preserves_whileLoop (cond : List UInt8) (body : List (List UInt8)) {n k : Nat} (hk : k+n=10000) :
    Preserves (Record cut) (whileLoop cond body n (List.replicate k true)) := by
  induction n generalizing k with
  | zero =>
    rw [show k=10000 from hk]
    exact preserves_leaveLoop left_full
  | succ n ih =>
    refine (preserves_onState _).bind ?_
    intro b
    match b with
    | none => exact preserves_onState _
    | some false => exact preserves_leaveLoop (left_false _)
    | some true =>
      rw [← List.replicate_succ']
      exact preserves_next (preserves_execLines body) (ih (by omega))

theorem preserves_ifBody {sub : List (List UInt8) → Comp (With Trace) Int}
    (hsub : ∀ lines, Fits 63 lines → Preserves (Record cut) (sub lines)) (hfits : Fits 63 lines) :
    Preserves (Record cut) (ifBody sub lines) := by
  induction lines with
  | nil => exact preserves_pure _
  | cons line lines ih =>
    exact (preserves_next (hsub _ hfits) (preserves_pure 0)).ite
      (preserves_next (preserves_onState _) (ih (hfits.tail.mono (by omega))))

theorem preserves_execFrom (n : Nat) (hfits : Fits 64 lines) : Preserves (Record cut) (execFrom n lines) := by
  induction n generalizing lines with
  | zero => exact preserves_running
  | succ n ih =>
    cases lines with
    | nil => exact preserves_pure _
    | cons line lines =>
      have htail := ih (hfits.tail.mono (by omega))
      -- a part that is put together again has the lines it is to have
      have hsub (lines : List (List UInt8)) (hfits : Fits 63 lines) :
          Preserves (Record cut) (callScript (execFrom n) lines (assemble lines)) := by
        rintro m ⟨hcut,hloops⟩
        rw [callScript,splitLines_assemble hfits]
        exact ih (hfits.mono (by omega)) _ ⟨by simp [hcut],hloops⟩
      have hparts {body after : List (List UInt8)} (hend : findEnd 1 lines=some (body,after)) :
          Fits 63 body ∧ Fits 64 after := by
        obtain ⟨close,hlines⟩ := findEnd_split hend
        have hfits := hfits.tail
        rw [hlines] at hfits
        exact ⟨hfits.split.1.mono (by omega),hfits.split.2.mono (by omega)⟩
      refine htail.ite ((preserves_onState _).ite (Preserves.ite ?_ (Preserves.ite ?_ ?_)))
      · refine (preserves_onState _).bind ?_
        intro b
        match b, hend : findEnd 1 lines with
        | none, _ => exact preserves_onState _
        | some _, none => exact preserves_onState _
        | some false, some (body,after) => exact ih (hparts hend).2
        | some true, some (body,after) =>
          exact preserves_next (preserves_ifBody hsub (hparts hend).1) (ih (hparts hend).2)
      · match hend : findEnd 1 lines with
        | none => exact preserves_onState _
        | some (body,after) => exact preserves_next (preserves_whileLoop _ body (n := 10000) (k := 0) rfl) (ih (hparts hend).2)
      · exact preserves_next (preserves_onState _) htail

end Record

/-- A script that returns 0 has not been cut short just if its lines fit the table, 64 lines of 127 characters, and
none of its loops still had a true condition when it was looked at for the 10000th time. -/
theorem exec_script_whole_iff (text : CStr) (s : State) (t : With Trace)
    (hrun : Returns (fun fuel => mlangExecScript fuel text.bytes) ⟨s,⟨false,[]⟩⟩ 0 t) :
    (t.ghost.cut=false ∧ ∀ checks∈t.ghost.loops, checks.getLast?=some false) ↔
      ((linesOf text.bytes).length≤64 ∧ ∀ line∈linesOf text.bytes, line.length≤127) ∧
        ∀ checks∈t.ghost.loops, checks≠List.replicate 10000 true := by
  obtain ⟨fuel,hrun⟩ := hrun
  obtain ⟨hcut,hloops⟩ : Record (splitLines text.bytes != linesOf text.bytes) t := by
    have h := preserves_execFrom fuel (splitLines_fits text.bytes)
      ⟨s,⟨splitLines text.bytes != linesOf text.bytes,[]⟩⟩ ⟨rfl,by simp⟩
    have hstart : mlangExecScript fuel text.bytes ⟨s,⟨false,[]⟩⟩ =
        execFrom fuel (splitLines text.bytes) ⟨s,⟨splitLines text.bytes != linesOf text.bytes,[]⟩⟩ := by
      simp [mlangExecScript,callScript,note]
    rw [← hstart,show mlangExecScript fuel text.bytes ⟨s,⟨false,[]⟩⟩=(some 0,t) from hrun] at h
    exact h
  rw [hcut,bne_eq_false_iff_eq,splitLines_eq_iff]
  exact and_congr_right fun _ => forall₂_congr hloops

def countScript : CStr := ⟨ascii "x = 2\nwhile x\nx = x - 1\nend\n",by decide⟩

theorem exec_script_whole_count :
    ∃ t : With Trace, t.ghost.loops=[[true,true,false]] ∧
      ((t.ghost.cut=false ∧ ∀ checks∈t.ghost.loops, checks.getLast?=some false) ↔
        ((linesOf countScript.bytes).length≤64 ∧ ∀ line∈linesOf countScript.bytes, line.length≤127) ∧
          ∀ checks∈t.ghost.loops, checks≠List.replicate 10000 true) :=
  ⟨⟨⟨[(ascii "x",0)],[]⟩,⟨false,[[true,true,false]]⟩⟩,rfl,
    exec_script_whole_iff countScript ⟨[],[]⟩ _ ⟨10,by decide +kernel⟩⟩

/-- After 64 comments a line is not run, and the script returns 0. -/
theorem exec_script_cut :
    ¬ ∀ (text : CStr) (s : State) (t : With Trace),
      Returns (fun fuel => mlangExecScript fuel text.bytes) ⟨s,⟨false,[]⟩⟩ 0 t →
      t.ghost.cut=false ∧ ∀ checks∈t.ghost.loops, checks.getLast?=some false := by
  intro h
  let text : List UInt8 := (List.replicate 64 [0x23,0x0A]).flatten++ascii "x = 1\n"
  have hcut := h ⟨text,by decide +kernel⟩ ⟨[],[]⟩ ⟨⟨[],[]⟩,⟨true,[]⟩⟩ ⟨70,by decide +kernel⟩
  exact absurd hcut.1 (by decide)

end MyKernel.Mlang
