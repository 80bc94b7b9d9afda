import MyKernel.Fat32.Guarded
import MyKernel.Fat32.Waterline

/-! A call writes to no sector outside a sound volume. -/
namespace MyKernel.Fat32
open Memory MyKernel.Computation Chains Disk

variable {g : Geo} {V : View} {s : Fat} {c d i total : Nat} {rc xs : List Nat} {ch : Nat → List Nat}

def Reachable (g : Geo) (V : View) (rc : List Nat) (ch : Nat → List Nat) (c : Nat) : Prop :=
  InVolume g c ∧ (V.fat c=0 ∨ c∈rc ∨ ∃ i, Live (dirSize g rc) (dirAt g V rc) i ∧ c∈ch i)

theorem link_mem {fat : Nat → Nat} {o : Option Nat} (h : ChainFrom (nextOf fat) o xs)
    (hc : c∈xs) (hlink : IsLink (fat c)) : fat c∈xs := by
  obtain ⟨pre,post,rfl,hp⟩ := h.tail_of_mem hc
  have hnext : nextOf fat c=some (fat c) := nextOf_eq_some.mpr ⟨hlink.2,rfl⟩
  have hpost := hp.2
  rw [hnext] at hpost
  cases post with
  | nil => exact absurd hpost (by simp [ChainFrom])
  | cons d post =>
    rw [Option.some_inj.mp hpost.1]
    simp

theorem first_mem {fat : Nat → Nat} {v : Nat} (h : ChainFrom (nextOf fat) (startOf v) xs)
    (hv : IsLink v) : v∈xs := by
  have hne : v≠0 := by
    have h2 := hv.1
    omega
  rw [startOf,if_neg hne] at h
  cases xs with
  | nil => exact absurd h (by simp [ChainFrom])
  | cons x xs =>
    rw [Option.some_inj.mp h.1]
    exact List.mem_cons_self

section Sound
variable (hs : Sound g V rc ch)
include hs

theorem Sound.reachable_root (hc : c∈rc) : Reachable g V rc ch c := ⟨hs.root_in c hc,.inr (.inl hc)⟩

theorem Sound.reachable_entry (hi : Live (dirSize g rc) (dirAt g V rc) i) (hc : c∈ch i) :
    Reachable g V rc ch c := ⟨hs.inVolume hi c hc,.inr (.inr ⟨i,hi,hc⟩)⟩

theorem Sound.reachable_next (h : Reachable g V rc ch c) (hlink : IsLink (V.fat c)) :
    Reachable g V rc ch (V.fat c) := by
  rcases h.2 with h0 | hroot | ⟨i,hi,hc⟩
  · have h2 := hlink.1
    omega
  · exact hs.reachable_root (link_mem hs.root_path hroot hlink)
  · exact hs.reachable_entry hi (link_mem (hs.path hi) hc hlink)

theorem Sound.live_of_listed (ha : Area g) (hc : c∈rc) {k : Nat} (hk : k<entriesPerCluster g)
    (hmark : (direntAt (V.data c) (32*k)).mark≠0) (hlisted : (direntAt (V.data c) (32*k)).listed=true) :
    ∃ i, Live (dirSize g rc) (dirAt g V rc) i ∧ dirAt g V rc i=direntAt (V.data c) (32*k) := by
  have hpos := entriesPerCluster_pos ha
  obtain ⟨n,hn,rfl⟩ := List.mem_iff_getElem.mp hc
  have hdiv : (n*entriesPerCluster g+k)/entriesPerCluster g=n := by
    rw [Nat.mul_comm,Nat.mul_add_div hpos,Nat.div_eq_of_lt hk,Nat.add_zero]
  have hmod : (n*entriesPerCluster g+k)%entriesPerCluster g=k := by
    rw [Nat.mul_comm,Nat.mul_add_mod,Nat.mod_eq_of_lt hk]
  have hat : dirAt g V rc (n*entriesPerCluster g+k)=direntAt (V.data rc[n]) (32*k) := by
    simp only [dirAt,slotAt,hdiv,hmod,List.getD_eq_getElem _ _ hn]
  have hlt : n*entriesPerCluster g+k<dirSize g rc := by
    have hmul : (n+1)*entriesPerCluster g≤rc.length*entriesPerCluster g := Nat.mul_le_mul_right _ hn
    rw [Nat.succ_mul] at hmul
    unfold dirSize
    omega
  refine ⟨_,⟨hlt,?_,?_⟩,hat⟩
  · intro j hj h0
    -- behind an end mark there would be nothing
    apply hmark
    rw [← hat]
    exact hs.tail j _ (by omega) hlt h0
  · rw [hat]
    exact hlisted

theorem Sound.guarded {I : Ata → Prop} (h : Sees s g V) (hI : Confined g total I)
    (hroom : g.endSector≤total) (hd : I s.ata) : Guarded I g total (Reachable g V rc ch) V s where
  sees := h
  room := hroom
  confined := hI
  drive := hd
  inVolume := fun _ hc => hc.1
  closed := fun _ hc hlink => hs.reachable_next hc hlink
  free := fun _ hc h0 => ⟨hc,.inl h0⟩

theorem Sound.dirGuarded (ha : Area g) : DirGuarded g (Reachable g V rc ch) (·∈rc)
    (EntryLinks (Reachable g V rc ch)) V := by
  refine ⟨fun c hc => hs.reachable_root hc,fun c hc hlink => link_mem hs.root_path hc hlink,?_⟩
  intro c hc k hk hmark hlisted hlink
  obtain ⟨i,hi,hat⟩ := hs.live_of_listed ha hc hk hmark hlisted
  have hpath := hs.path hi
  rw [hat] at hpath
  exact hs.reachable_entry hi (first_mem hpath hlink)

theorem Sound.call_drive {I : Ata → Prop} (h : Sees s g V) (hI : Confined g total I)
    (hroom : g.endSector≤total) (hd : I s.ata) (a : Call) (n : Nat) : I (call a n s).2.ata := by
  have hguard := hs.guarded h hI hroom hd
  have hdir := hs.dirGuarded h.area
  have hroot : IsLink g.rootCluster → g.rootCluster∈rc :=
    fun _ => List.mem_of_head? hs.root_path.start_eq.symm
  obtain ⟨W,hW⟩ := (safe_call hguard hroot hdir a n).1
  exact hW.drive

end Sound

theorem confined_disk (g : Geo) (total : Nat) (disk : Nat → Nat → UInt8) :
    Confined g total (fun a => ∀ sec, ¬ Inside g total sec → a.disk sec=disk sec) where
  ops := fun _ _ h => h
  store := by
    intro a lba n buf h hin sec hout
    have hnot : ¬ (lba ≤ sec ∧ sec<lba+n) := fun hsec => hout (hin sec hsec.1 hsec.2)
    rw [← h sec hout]
    funext o
    exact if_neg hnot

theorem call_outside (h : Sees s g V) (hs : Sound g V rc ch) (a : Call) (n : Nat) {sec : Nat}
    (hout : ¬ Inside g g.endSector sec) : (call a n s).2.ata.disk sec=s.ata.disk sec :=
  Sound.call_drive hs h (confined_disk g g.endSector s.ata.disk) (Nat.le_refl _) (fun _ _ => rfl) a n
    sec hout

end MyKernel.Fat32
