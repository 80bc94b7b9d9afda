import MyKernel.Fat32.Model

/-! What an operation returns it returns with any larger number of passes too. -/
namespace MyKernel.Fat32
open MyKernel.Computation

theorem mono_fatFreeChain (n c : Nat) : Le (fatFreeChain n c) (fatFreeChain (n+1) c) := by
  induction n generalizing c with
  | zero => exact le_running _
  | succ n ih =>
    rw [fatFreeChain,fatFreeChain]
    refine Le.ite (Le.bind_right fun next => Le.bind_right fun ok => ?_) (Le.refl _)
    exact Le.ite (ih next) (Le.refl _)

theorem le_afterScan {β : Type} {x y : FatM (Iter β)} (h : Le x y) (r : Scan β) :
    Le (afterScan x r) (afterScan y r) := by
  cases r with
  | more => exact h
  | stop => exact Le.refl _
  | hit b => exact Le.refl _

theorem mono_iterateDir {β : Type} (fn : Dirent → Option β) (n c : Nat) :
    Le (iterateDir fn n c) (iterateDir fn (n+1) c) := by
  induction n generalizing c with
  | zero => exact le_running _
  | succ n ih =>
    rw [iterateDir,iterateDir]
    refine Le.ite (Le.bind_right fun ok => Le.ite (Le.bind_right fun s => ?_) (Le.refl _)) (Le.refl _)
    exact le_afterScan (Le.bind_right ih) _

theorem le_afterSlots {x y : Option Slot → FatM SlotResult} (h : ∀ f, Le (x f) (y f)) (r : SlotScan) :
    Le (afterSlots x r) (afterSlots y r) := by
  cases r with
  | more f => exact h f
  | existing slot de => exact Le.refl _
  | free slot => exact Le.refl _

theorem mono_findSlotLoop (want : List UInt8) (n c : Nat) (found : Option Slot) :
    Le (findSlotLoop want n c found) (findSlotLoop want (n+1) c found) := by
  induction n generalizing c found with
  | zero => exact le_running _
  | succ n ih =>
    rw [findSlotLoop,findSlotLoop]
    refine Le.ite (Le.bind_right fun ok => Le.ite (Le.bind_right fun s => ?_) (Le.refl _)) (Le.refl _)
    refine le_afterSlots (fun f => Le.bind_right fun next => ?_) _
    exact Le.ite (Le.refl _) (ih next f)

theorem mono_findSlotInRoot (want : List UInt8) (n : Nat) : Le (findSlotInRoot n want) (findSlotInRoot (n+1) want) :=
  Le.bind_right fun s => mono_findSlotLoop want n s.geo.rootCluster none

theorem mono_writeLoop (text : List UInt8) (n pos first prev : Nat) :
    Le (writeLoop text n pos first prev) (writeLoop text (n+1) pos first prev) := by
  induction n generalizing pos first prev with
  | zero => exact le_running _
  | succ n ih =>
    rw [writeLoop,writeLoop]
    refine Le.ite (Le.bind_right fun c => Le.ite (Le.refl _) ?_) (Le.refl _)
    refine Le.bind_right fun linked => Le.ite (Le.bind_right fun s => ?_) (Le.refl _)
    refine Le.bind_right fun _ => Le.bind_right fun ok => Le.ite (ih _ _ _) (Le.refl _)

theorem mono_writeData (text : List UInt8) (n : Nat) : Le (writeData n text) (writeData (n+1) text) :=
  (mono_writeLoop text n 0 0 0).bind fun _ => Le.refl _

theorem mono_freeOld (de : Option Dirent) (n : Nat) : Le (freeOld n de) (freeOld (n+1) de) := by
  cases de with
  | none => exact Le.refl _
  | some de => exact Le.ite ((mono_fatFreeChain n de.first).bind fun _ => Le.refl _) (Le.refl _)

theorem mono_writeAt (key text : List UInt8) (slot : Slot) (existing : Option Dirent) (n : Nat) :
    Le (writeAt n key text slot existing) (writeAt (n+1) key text slot existing) :=
  (mono_freeOld existing n).bind fun _ => (mono_writeData text n).bind fun _ => Le.refl _

theorem mono_fat32Write (name text : List UInt8) : Mono fun n => fat32Write n name text := by
  intro n
  refine Le.bind_right fun s => Le.ite (Le.refl _) (Le.ite (Le.refl _) (Le.ite (Le.refl _) ?_))
  refine (mono_findSlotInRoot (nameTo83 name) n).bind fun r => ?_
  cases r with
  | io | noSpace => exact Le.refl _
  | found slot existing => exact Le.ite (Le.refl _) (mono_writeAt _ text slot existing n)

theorem mono_readLoop (bufSize n c remaining : Nat) (out : List UInt8) :
    Le (readLoop bufSize n c remaining out) (readLoop bufSize (n+1) c remaining out) := by
  induction n generalizing c remaining out with
  | zero => exact le_running _
  | succ n ih =>
    rw [readLoop,readLoop]
    refine Le.ite (Le.bind_right fun ok => Le.ite (Le.bind_right fun s => ?_) (Le.refl _)) (Le.refl _)
    exact Le.bind_right fun next => ih _ _ _

theorem mono_fat32ReadFile (name : List UInt8) (bufSize : Nat) : Mono fun n => fat32ReadFile n name bufSize := by
  intro n
  refine Le.bind_right fun s => Le.ite (Le.refl _) (Le.ite (Le.refl _) ?_)
  refine (mono_iterateDir (findCb name) n s.geo.rootCluster).bind fun r => ?_
  cases r with
  | error | done => exact Le.refl _
  | hit de => exact Le.ite (Le.refl _) (mono_readLoop _ _ _ _ _)

theorem mono_mkdirAt (key : List UInt8) (dirCl n : Nat) (r : SlotResult) :
    Le (mkdirAt n key dirCl r) (mkdirAt (n+1) key dirCl r) := by
  have hgive : ∀ e : FatResult, Le (fatFreeChain n dirCl >>= fun _ => (pure e : FatM FatResult))
      (fatFreeChain (n+1) dirCl >>= fun _ => pure e) :=
    fun e => (mono_fatFreeChain n dirCl).bind fun _ => Le.refl _
  cases r with
  | io => exact hgive .io
  | noSpace => exact hgive .noSpace
  | found slot existing =>
    cases existing with
    | some de => exact hgive .exists
    | none => exact Le.refl _

theorem mono_fat32Mkdir (name : List UInt8) : Mono fun n => fat32Mkdir n name := by
  intro n
  refine Le.bind_right fun s => Le.ite (Le.refl _) (Le.ite (Le.refl _) ?_)
  refine (mono_iterateDir (findCb name) n s.geo.rootCluster).bind fun r => ?_
  cases r with
  | error => exact Le.refl _
  | hit de => exact Le.refl _
  | done =>
    refine Le.bind_right fun s => Le.bind_right fun c => Le.ite (Le.refl _) ?_
    refine Le.bind_right fun _ => Le.bind_right fun ok => Le.ite ?_ (Le.refl _)
    exact (mono_findSlotInRoot (nameTo83 name) n).bind fun r => mono_mkdirAt _ c n r

theorem mono_fat32Unlink (name : List UInt8) : Mono fun n => fat32Unlink n name := by
  intro n
  refine Le.bind_right fun s => Le.ite (Le.refl _) (Le.ite (Le.refl _) ?_)
  refine (mono_findSlotInRoot (nameTo83 name) n).bind fun r => ?_
  cases r with
  | io | noSpace => exact Le.refl _
  | found slot existing =>
    cases existing with
    | none => exact Le.refl _
    | some de =>
      refine Le.bind_right fun r => Le.ite (Le.refl _) (Le.bind_right fun r => Le.ite (Le.refl _) ?_)
      exact (mono_freeOld (some de) n).bind fun _ => Le.refl _

end MyKernel.Fat32
