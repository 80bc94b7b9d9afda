import MyKernel.Fat32.Format
import MyKernel.Fat32.RoundTrip
import MyKernel.Fat32.Waterline

/-! A formatted volume over runs in which calls may fail. -/
namespace MyKernel.Fat32
open MyKernel.Computation Chains Disk

/-- The volume of the state holds the files `m`. -/
def Stores (g : Geo) (s : Fat) (m : List UInt8 → Option Node) : Prop :=
  ∃ V rc ch, Sees s g V ∧ Sound g V rc ch ∧ filesOf g V rc ch=m

/-- Calls with printable names that return, one after the other, and the files if exactly the calls
with `FAT_OK` take effect. -/
inductive Served : Fat → (List UInt8 → Option Node) → List Call → Fat → (List UInt8 → Option Node) → Prop where
  | nil (s : Fat) (m : List UInt8 → Option Node) : Served s m [] s m
  | cons {s t u : Fat} {m m' : List UInt8 → Option Node} {c : Call} {cs : List Call} {r : FatResult}
      (hp : PrintableName c.name) (h : Returns (call c) s r t)
      (hs : Served t (if r = .ok then c.apply m else m) cs u m') : Served s m (c::cs) u m'

variable {g : Geo} {V : View} {s t : Fat} {fuel part size : Nat} {cs : List Call} {m m' : List UInt8 → Option Node}

section Served
variable (hcb : WRITE_MAX_BYTES≤g.clusterBytes)
include hcb

/-- A call takes effect if it returns `FAT_OK`, and otherwise has none. -/
theorem Stores.call (h : Stores g s m) (c : Call) (hp : PrintableName c.name) (hfuel : g.totalClusters<fuel) :
    ∃ r t, call c fuel s=(some r,t) ∧ Stores g t (if r = .ok then c.apply m else m) := by
  obtain ⟨V,rc,ch,hsees,hs,rfl⟩ := h
  obtain ⟨r,t,W,hrun,hsees',hdone⟩ := call_sees c hsees hs hp hfuel
  refine ⟨r,t,hrun,?_⟩
  split
  next hok =>
    obtain ⟨rc',ch',hd⟩ := hdone hok
    refine ⟨W,rc',ch',hsees',hd.sound,funext fun key => ?_⟩
    by_cases hkey : key=nameTo83 c.name
    · rw [hkey,hd.here,Call.apply,Function.update_self]
    · rw [hd.others key hkey,Call.apply,Function.update_of_ne hkey]
  next hr =>
    have h0 : 0∉c.name := fun h0 => absurd (hp 0 h0).1 (by decide)
    obtain ⟨r',t',W',hrun',hsees'',hleft⟩ := call_leftBy (m := 0) hs c hsees hcb h0 hfuel
    obtain ⟨he,rfl⟩ := Prod.mk.inj (hrun'.symm.trans hrun)
    obtain ⟨rc',hs',hm⟩ := hleft.failed fun h => hr (by rw [← h,Option.some_inj.mp he])
    exact ⟨W',rc',ch,hsees'',hs',funext hm⟩

theorem Served.stores (hr : Served s m cs t m') (h : Stores g s m) : Stores g t m' := by
  induction hr with
  | nil => exact h
  | cons hp hret _ ih =>
    obtain ⟨fuel,hfuel,hrun⟩ := hret.at_least (mono_call _) g.totalClusters
    obtain ⟨r,t,hrun',hst⟩ := h.call hcb _ hp hfuel
    obtain ⟨he,rfl⟩ := Prod.mk.inj (hrun'.symm.trans hrun)
    obtain rfl := Option.some_inj.mp he
    exact ih hst

end Served

theorem Stores.reads_iff (h : Stores g s m) {name : List UInt8} {bufSize : Nat} {out : ReadOut} :
    ReadsAs s name bufSize out ↔ out=readOf m name bufSize := by
  obtain ⟨V,rc,ch,hsees,hs,rfl⟩ := h
  exact readsAs_iff hsees hs

theorem EmptyRoot.files (h : EmptyRoot g V) : filesOf g V [g.rootCluster] (fun _ => [])=fun _ => none :=
  funext fun _ => filesOf_eq_none fun i hi => absurd hi (h.not_live i)

/-- On every new volume whose table has an entry for each cluster, over every run of calls: exactly the calls that
return `FAT_OK` take effect, every name is read as they say, and the next call returns as well. -/
theorem formatted_volume_atomic (h : Ideal s.ata) (hsize : 2048 ≤ size) (hend : part+size<268435456)
    (hfits : TableFits s part size) :
    ∃ t u, fat32Mkfs part size s=(some .ok,t) ∧ fat32Mount t=(some .ok,u) ∧
      ∀ cs w m, Served u (fun _ => none) cs w m →
        (∀ name bufSize out, ReadsAs w name bufSize out ↔ out=readOf m name bufSize) ∧
        ∀ c : Call, PrintableName c.name → ∃ r v, Returns (call c) w r v := by
  obtain ⟨t,u,hmkfs,hmount,hm,hideal,hgeo,hmade⟩ := mkfs_mount_made h hsize hend
  have hroom := mkfsRoom_of_size hsize hend
  have hf := hmade.formatted hroom.pos
  have hfits' : MkfsFits part size (mkfsFatSize size) :=
    ⟨hroom.pos,hroom.data,(tableFits_iff h hsize (by omega)).mp hfits,hroom.onDisk⟩
  have hempty := hf.emptyRoot hfits'
  have hstores : Stores (mkfsGeo part size (mkfsFatSize size)) u fun _ => none :=
    ⟨_,_,_,⟨hgeo,hideal,hm,hfits'.area,fun _ _ => rfl,fun _ _ _ _ => rfl⟩,hempty.consistentWith.sound,hempty.files⟩
  have hcb : WRITE_MAX_BYTES≤(mkfsGeo part size (mkfsFatSize size)).clusterBytes := Nat.le_refl 4096
  refine ⟨t,u,hmkfs,hmount,fun cs w m hserved => ?_⟩
  have hw := hserved.stores hcb hstores
  refine ⟨fun _ _ _ => hw.reads_iff,fun c hp => ?_⟩
  obtain ⟨r,v,hrun,_⟩ := hw.call hcb c hp (Nat.lt_succ_self _)
  exact ⟨r,v,_,hrun⟩

/-- The smallest volume, before any call. -/
theorem formatted_volume_atomic_small :
    ∃ t u, fat32Mkfs 0 2048 (attachedTo fun _ _ => 0)=(some .ok,t) ∧ fat32Mount t=(some .ok,u) ∧
      ReadsAs u [0x41] 1 ⟨.notFound,0,[]⟩ := by
  have hideal : Ideal (attachedTo fun _ _ => 0).ata := ⟨rfl,fun _ => rfl⟩
  obtain ⟨t,u,hmkfs,hmount,hruns⟩ := formatted_volume_atomic hideal (Nat.le_refl 2048)
    (by decide : 0+2048<268435456) ((tableFits_iff hideal (by decide) (by decide)).mpr (by decide))
  exact ⟨t,u,hmkfs,hmount,((hruns [] u _ (.nil u _)).1 [0x41] 1 _).mpr rfl⟩

end MyKernel.Fat32
