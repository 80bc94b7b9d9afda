import MyKernel.Fat32.Alloc

/-! The data of a file: written to the first free clusters, read along a chain. -/
namespace MyKernel.Fat32
open MyKernel.Computation Chains

def clustersFor (cb len : Nat) : Nat := (len+cb-1)/cb

def chunkOf (cb : Nat) (text : List UInt8) (k i : Nat) : UInt8 := text.getD (k*cb+i) 0

def clusterBytesOf (g : Geo) (V : View) (c : Nat) : List UInt8 :=
  (List.range g.clusterBytes).map (V.data c)

def chainBytes (g : Geo) (V : View) (xs : List Nat) : List UInt8 := xs.flatMap (clusterBytesOf g V)

/-- `W` is `V` with the text laid down in the clusters `cs`, linked in this order. -/
structure Laid (cb : Nat) (text : List UInt8) (V W : View) (cs : List Nat) : Prop where
  fat_off : ∀ d, d∉cs → W.fat d=V.fat d
  data_off : ∀ d, d∉cs → W.data d=V.data d
  path : ChainFrom (nextOf W.fat) cs.head? cs
  data_on : ∀ k d, cs[k]?=some d → W.data d=chunkOf cb text k

variable {g : Geo} {V W : View} {s : Fat} {c d v cb len : Nat} {xs cs : List Nat}
variable {text out : List UInt8}

theorem lt_clustersFor (hcb : 0<cb) {k : Nat} : k<clustersFor cb len ↔ k*cb<len := by
  rw [clustersFor,← Nat.add_one_le_iff,Nat.le_div_iff_mul_le hcb,Nat.succ_mul]
  omega

theorem clustersFor_le (hcb : 0<cb) {k : Nat} : clustersFor cb len≤k ↔ len≤k*cb := by
  rw [← Nat.not_lt,lt_clustersFor hcb,Nat.not_lt]

theorem laid_nil : Laid cb text V V [] where
  fat_off _ _ := rfl
  data_off _ _ := rfl
  path := rfl
  data_on k d h := by simp at h

theorem Laid.none_taken (h : Laid cb text V W []) : W=V := by
  cases W
  cases V
  simp only [View.mk.injEq]
  exact ⟨funext fun c => h.fat_off c (by simp),funext fun c => h.data_off c (by simp)⟩

theorem getElem?_snoc_ne {k : Nat} (h : (cs++[c])[k]?=some d)
    (hdc : d≠c) : cs[k]?=some d := by
  cases Nat.lt_or_ge k cs.length with
  | inl hlt => rwa [List.getElem?_append_left hlt] at h
  | inr hge =>
    rw [List.getElem?_append_right hge] at h
    have hmem : d∈[c] := List.mem_of_getElem? h
    simp only [List.mem_singleton] at hmem
    exact absurd hmem hdc

theorem Laid.snoc (h : Laid cb text V W cs) (hc : c∉cs) {W' : View}
    (hfat : ∀ d, d≠c → cs.getLast?≠some d → W'.fat d=W.fat d)
    (hend : EOC≤W'.fat c) (hlink : ∀ p, cs.getLast?=some p → W'.fat p=c ∧ c<EOC)
    (hdata : ∀ d, d≠c → W'.data d=W.data d) (hchunk : W'.data c=chunkOf cb text cs.length) :
    Laid cb text V W' (cs++[c]) where
  fat_off d hd := by
    simp only [List.mem_append,List.mem_singleton,not_or] at hd
    rw [hfat d hd.2 (fun hl => hd.1 (List.mem_of_getLast? hl)),h.fat_off d hd.1]
  data_off d hd := by
    simp only [List.mem_append,List.mem_singleton,not_or] at hd
    rw [hdata d hd.2,h.data_off d hd.1]
  path := by
    cases hl : cs.getLast? with
    | none =>
      rw [List.getLast?_eq_none_iff] at hl
      subst hl
      exact ⟨rfl,nextOf_eq_none.mpr hend⟩
    | some p =>
      have hhead : (cs++[c]).head?=cs.head? := by
        cases cs with
        | nil => simp at hl
        | cons x xs => rfl
      rw [hhead]
      obtain ⟨hp,hlt⟩ := hlink p hl
      refine h.path.snoc hl ?_ (nextOf_eq_some.mpr ⟨by omega,hp⟩) (nextOf_eq_none.mpr hend)
      intro x hx hxp
      apply nextOf_congr
      have hxc : x≠c := fun he => hc (he ▸ hx)
      apply hfat x hxc
      rw [hl]
      intro he
      exact hxp (Option.some.inj he).symm
  data_on k d hk := by
    by_cases hdc : d=c
    · subst hdc
      have hk' : k=cs.length := by
        by_contra hne
        have hlt : k<cs.length := by
          have := (List.getElem?_eq_some_iff.mp hk).1
          simp at this
          omega
        rw [List.getElem?_append_left hlt] at hk
        exact hc (List.mem_of_getElem? hk)
      rw [hk',hchunk]
    · rw [hdata d hdc,h.data_on k d (getElem?_snoc_ne hk hdc)]

theorem headD_eq_zero (hin : ∀ c∈cs, InVolume g c) : cs.headD 0=0 ↔ cs=[] := by
  cases cs with
  | nil => simp
  | cons x xs =>
    have hx := (hin x (by simp)).1
    simp only [List.headD_cons,reduceCtorEq,iff_false]
    omega

theorem getLastD_of_getLast? {p : Nat} (h : cs.getLast?=some p) : cs.getLastD 0=p := by
  rw [List.getLastD_eq_getLast?,h]
  rfl

theorem chunk_buffer {buf : Nat → UInt8} {k pos i : Nat} (hpos : pos=k*cb) (hi : i<cb) :
    patch 0 ((text.drop pos).take (min (text.length-pos) cb)) (zeroFront cb buf) i =
      chunkOf cb text k i := by
  simp only [patch,zeroFront,chunkOf,List.length_take,List.length_drop,Nat.zero_add,
    Nat.sub_zero,hi,if_true,Nat.zero_le,true_and,hpos]
  by_cases hlt : k*cb+i<text.length
  · rw [if_pos (by omega),List.getD_eq_getElem?_getD,List.getD_eq_getElem?_getD,
      List.getElem?_take_of_lt (by omega),List.getElem?_drop]
  · rw [if_neg (by omega),List.getD_eq_getElem?_getD,List.getElem?_eq_none (by omega)]
    rfl

theorem linkPrev_sees (h : Sees s g W) (hin : ∀ c∈cs, InVolume g c) (hc : InVolume g c) :
    ∃ t, linkPrev (cs.getLastD 0) c s=(some true,t) ∧
      Sees t g (cs.getLast?.elim W fun p => W.setFat p c) := by
  cases hl : cs.getLast? with
  | none =>
    rw [List.getLast?_eq_none_iff] at hl
    subst hl
    exact ⟨s,rfl,h⟩
  | some p =>
    have hp := hin p (List.mem_of_getLast? hl)
    obtain ⟨t,ht,hsees,_⟩ := fatSet_sees h hp.2 c
    have hmod : c%0x10000000=c := by
      have hlt := h.area.clusters_lt
      have hle := hc.2
      omega
    rw [hmod] at hsees
    refine ⟨t,?_,hsees⟩
    have hp0 : cs.getLastD 0=p := getLastD_of_getLast? hl
    have hp2 := hp.1
    rw [linkPrev,hp0,if_pos (by omega),ht]

theorem writeLoop_step (fuel : Nat) {pos : Nat} {rest : List Nat} (h : Sees s g W)
    (hlaid : Laid g.clusterBytes text V W cs) (hin : ∀ c∈cs, InVolume g c)
    (hfree : freeClusters g W=c::rest) (hpos : pos=cs.length*g.clusterBytes) (hlt : pos<text.length) :
    ∃ t W', writeLoop text (fuel+1) pos (cs.headD 0) (cs.getLastD 0) s =
        writeLoop text fuel (pos+min (text.length-pos) g.clusterBytes) ((cs++[c]).headD 0) c t ∧
      Sees t g W' ∧ Laid g.clusterBytes text V W' (cs++[c]) ∧ freeClusters g W'=rest := by
  obtain ⟨hc,hc0⟩ := mem_freeClusters.mp (hfree ▸ List.mem_cons_self : c∈freeClusters g W)
  have hne : c∉cs := fun hmem => ChainFrom.fat_ne_zero hlaid.path hin hmem hc0
  obtain ⟨t,halloc,hsees,_⟩ := fatAllocCluster_some h hfree
  obtain ⟨u,hlink,hsees'⟩ := linkPrev_sees hsees hin hc
  obtain ⟨w,hset,hsees'',hbuf⟩ := setClusterBuf_sees hsees' fun buf =>
    patch 0 ((text.drop pos).take (min (text.length-pos) g.clusterBytes))
      (zeroFront g.clusterBytes buf)
  have hchunk : ∀ i, i<g.clusterBytes → w.clusterBuf i=chunkOf g.clusterBytes text cs.length i := by
    intro i hi
    rw [hbuf]
    exact chunk_buffer hpos hi
  obtain ⟨x,hwrite,hsees3⟩ := writeCluster_sees hsees'' hc hchunk
  refine ⟨x,_,?_,hsees3,?_,?_⟩
  · have hc2 := hc.1
    have hfirst : (if cs.headD 0=0 then c else cs.headD 0)=(cs++[c]).headD 0 := by
      cases cs with
      | nil => rfl
      | cons y ys =>
        rw [if_neg (fun h0 => List.cons_ne_nil y ys ((headD_eq_zero hin).mp h0))]
        rfl
    rw [writeLoop,if_pos hlt,bind_some halloc,if_neg (by omega),bind_some hlink,if_pos rfl,
      state_bind]
    simp only [hsees'.geo]
    rw [bind_some hset,bind_some hwrite,if_pos rfl,hfirst]
  · apply hlaid.snoc hne
    · intro d hdc hlast
      cases hl : cs.getLast? with
      | none => simp [hdc]
      | some p =>
        have hdp : d≠p := fun he => hlast (he ▸ hl)
        simp [hdc,hdp]
    · cases hl : cs.getLast? with
      | none => simp [LAST,EOC]
      | some p =>
        have hcp : c≠p := fun he => hne (he ▸ List.mem_of_getLast? hl)
        simp [hcp,LAST,EOC]
    · intro p hl
      simp [hl,hc.lt_eoc h.area]
    · intro d hdc
      cases cs.getLast? <;> simp [setData_data,hdc]
    · simp [setData_data]
  · have htaken := freeClusters_setFat_head hfree (v := LAST) (by simp [LAST])
    rw [← htaken]
    apply freeClusters_congr
    intro d _
    cases hl : cs.getLast? with
    | none => simp
    | some p =>
      have hp := List.mem_of_getLast? hl
      have hp0 : W.fat p≠0 := ChainFrom.fat_ne_zero hlaid.path hin hp
      have hc2 := hc.1
      by_cases hdp : d=p
      · have hpc : p≠c := fun he => hne (he ▸ hp)
        simp only [Option.elim_some,setData_fat,setFat_fat,hdp,if_true,hpc,if_false,hp0,
          iff_false]
        omega
      · simp [hdp]

/-- With all the clusters the text needs, or with every free cluster taken. -/
def loopResult (cs rest : List Nat) (n : Nat) : Except FatResult (Nat × Nat) :=
  if n≤rest.length then .ok ((cs++rest.take n).headD 0,(cs++rest.take n).getLastD 0)
  else .error .noSpace

theorem clusterBytes_pos (ha : Area g) : 0<g.clusterBytes := by
  have hspc := ha.spc
  unfold Geo.clusterBytes Disk.SECTOR_SIZE
  omega

theorem writeLoop_run {fuel pos n : Nat} {rest : List Nat} (h : Sees s g W)
    (hlaid : Laid g.clusterBytes text V W cs) (hin : ∀ c∈cs, InVolume g c)
    (hfree : freeClusters g W=rest) (hpos : pos=min text.length (cs.length*g.clusterBytes))
    (hn : cs.length+n=clustersFor g.clusterBytes text.length) (hfuel : rest.length<fuel) :
    ∃ t W', writeLoop text fuel pos (cs.headD 0) (cs.getLastD 0) s =
        (some (loopResult cs rest n),t) ∧
      Sees t g W' ∧ Laid g.clusterBytes text V W' (cs++rest.take n) := by
  have hmore : cs.length<clustersFor g.clusterBytes text.length ↔
      cs.length*g.clusterBytes<text.length := lt_clustersFor (clusterBytes_pos h.area)
  obtain ⟨fuel,rfl⟩ : ∃ k, fuel=k+1 := ⟨fuel-1,by omega⟩
  induction rest generalizing fuel pos n cs s W with
  | nil =>
    cases n with
    | zero =>
      refine ⟨s,W,?_,h,by simpa using hlaid⟩
      rw [writeLoop,if_neg (by omega)]
      simp [loopResult]
    | succ n =>
      obtain ⟨t,halloc,hsees,_⟩ := fatAllocCluster_none h hfree
      refine ⟨t,W,?_,hsees,by simpa using hlaid⟩
      rw [writeLoop,if_pos (by omega),bind_some halloc,if_pos rfl]
      simp [loopResult]
  | cons c rest ih =>
    cases n with
    | zero =>
      refine ⟨s,W,?_,h,by simpa using hlaid⟩
      rw [writeLoop,if_neg (by omega)]
      simp [loopResult]
    | succ n =>
      have hfull : pos=cs.length*g.clusterBytes := by omega
      obtain ⟨t,W',hstep,hsees,hlaid',hfree'⟩ :=
        writeLoop_step fuel h hlaid hin hfree hfull (by omega)
      have hc := (mem_freeClusters.mp (hfree ▸ List.mem_cons_self : c∈freeClusters g W)).1
      obtain ⟨k,rfl⟩ : ∃ k, fuel=k+1 := ⟨fuel-1,by simp at hfuel; omega⟩
      have hlen : (cs++[c]).length=cs.length+1 := by simp
      have hmore' : (cs++[c]).length<clustersFor g.clusterBytes text.length ↔
          (cs++[c]).length*g.clusterBytes<text.length := lt_clustersFor (clusterBytes_pos h.area)
      have hpos' : pos+min (text.length-pos) g.clusterBytes =
          min text.length ((cs++[c]).length*g.clusterBytes) := by
        rw [hlen,Nat.succ_mul]
        omega
      have hin' : ∀ d∈cs++[c], InVolume g d := by
        intro d hd
        simp only [List.mem_append,List.mem_singleton] at hd
        cases hd with
        | inl hd => exact hin d hd
        | inr hd => exact hd ▸ hc
      obtain ⟨u,W'',hrun,hsees',hlaid''⟩ :=
        ih (n := n) hsees hlaid' hin' hfree' hpos' (by omega) hmore' k (by simpa using hfuel)
      have happ : cs++[c]++rest.take n=cs++(c::rest).take (n+1) := by simp
      have hlast : (cs++[c]).getLastD 0=c := by simp
      have hres : loopResult (cs++[c]) rest n=loopResult cs (c::rest) (n+1) := by
        simp only [loopResult,happ,List.length_cons,Nat.add_le_add_iff_right]
      rw [happ] at hlaid''
      rw [hlast,hres] at hrun
      exact ⟨u,W'',hstep.trans hrun,hsees',hlaid''⟩

theorem writeData_sees {fuel : Nat} (h : Sees s g V) (hfuel : (freeClusters g V).length<fuel)
    (hroom : clustersFor g.clusterBytes text.length≤(freeClusters g V).length) :
    ∃ t W, writeData fuel text s=(some (.ok
        (((freeClusters g V).take (clustersFor g.clusterBytes text.length)).headD 0)),t) ∧
      Sees t g W ∧ Laid g.clusterBytes text V W
        ((freeClusters g V).take (clustersFor g.clusterBytes text.length)) := by
  obtain ⟨t,W,hrun,hsees,hlaid⟩ := writeLoop_run
    (n := clustersFor g.clusterBytes text.length) h
    (laid_nil : Laid g.clusterBytes text V V []) (by simp) rfl rfl (by simp) hfuel
  simp only [List.nil_append,loopResult,hroom,if_true] at hrun hlaid
  generalize hcs : (freeClusters g V).take (clustersFor g.clusterBytes text.length)=cs at hrun hlaid
  have hin : ∀ c∈cs, InVolume g c := by
    intro c hc
    rw [← hcs] at hc
    exact (mem_freeClusters.mp (List.mem_of_mem_take hc)).1
  have hstart : writeLoop text fuel 0 0 0 s=(some (.ok (cs.headD 0,cs.getLastD 0)),t) := by
    simpa using hrun
  cases hl : cs.getLast? with
  | none =>
    rw [List.getLast?_eq_none_iff] at hl
    subst hl
    refine ⟨t,W,?_,hsees,hlaid⟩
    rw [writeData,bind_some hstart]
    rfl
  | some p =>
    have hp := hin p (List.mem_of_getLast? hl)
    have hp2 := hp.1
    have hlast : cs.getLastD 0=p := getLastD_of_getLast? hl
    obtain ⟨u,hset,hsees',_⟩ := fatSet_sees hsees hp.2 LAST
    refine ⟨u,_,?_,hsees',?_⟩
    · rw [writeData,bind_some hstart]
      simp only [hlast]
      rw [if_pos (by omega),bind_some hset,if_pos rfl,pure_eq]
    · -- the last cluster has an end mark already
      have hend := hlaid.path.last_none hl
      refine ⟨?_,fun d hd => hlaid.data_off d hd,?_,fun k d hk => hlaid.data_on k d hk⟩
      · intro d hd
        have hdp : d≠p := fun he => hd (he ▸ List.mem_of_getLast? hl)
        simpa [hdp] using hlaid.fat_off d hd
      · apply hlaid.path.congr
        intro x _
        by_cases hxp : x=p
        · rw [hxp,hend,nextOf_eq_none]
          simp [LAST,EOC]
        · apply nextOf_congr
          simp [hxp]

theorem writeData_noSpace {fuel : Nat} (h : Sees s g V) (hfuel : (freeClusters g V).length<fuel)
    (hroom : (freeClusters g V).length<clustersFor g.clusterBytes text.length) :
    ∃ t W, writeData fuel text s=(some (.error .noSpace),t) ∧
      Sees t g W ∧ Laid g.clusterBytes text V W (freeClusters g V) := by
  obtain ⟨t,W,hrun,hsees,hlaid⟩ := writeLoop_run
    (n := clustersFor g.clusterBytes text.length) h
    (laid_nil : Laid g.clusterBytes text V V []) (by simp) rfl rfl (by simp) hfuel
  rw [List.nil_append,List.take_of_length_le (by omega)] at hlaid
  have hstart : writeLoop text fuel 0 0 0 s=(some (.error .noSpace),t) := by
    simpa [loopResult,Nat.not_le.mpr hroom] using hrun
  refine ⟨t,W,?_,hsees,hlaid⟩
  rw [writeData,bind_some hstart]
  rfl

theorem length_clusterBytesOf : (clusterBytesOf g V c).length=g.clusterBytes := by
  simp [clusterBytesOf]

theorem chainBytes_cons : chainBytes g V (c::xs)=clusterBytesOf g V c++chainBytes g V xs :=
  List.flatMap_cons

theorem length_chainBytes : (chainBytes g V xs).length=xs.length*g.clusterBytes := by
  induction xs with
  | nil => simp [chainBytes]
  | cons x xs ih =>
    rw [chainBytes_cons,List.length_append,length_clusterBytesOf,ih,List.length_cons,
      Nat.succ_mul,Nat.add_comm]

theorem chainBytes_getElem? {i : Nat} (hi : i<xs.length*g.clusterBytes) :
    (chainBytes g V xs)[i]?=some (V.data (xs.getD (i/g.clusterBytes) 0) (i%g.clusterBytes)) := by
  induction xs generalizing i with
  | nil => simp at hi
  | cons x xs ih =>
    rw [List.length_cons,Nat.succ_mul] at hi
    rw [chainBytes_cons]
    cases Nat.lt_or_ge i g.clusterBytes with
    | inl hlt =>
      rw [List.getElem?_append_left (by rw [length_clusterBytesOf]; exact hlt),
        Nat.div_eq_of_lt hlt,Nat.mod_eq_of_lt hlt]
      simp [clusterBytesOf,hlt]
    | inr hge =>
      have hpos : 0<g.clusterBytes := by
        by_contra h0
        have hz : g.clusterBytes=0 := by omega
        simp [hz] at hi
      rw [List.getElem?_append_right (by rw [length_clusterBytesOf]; exact hge),
        length_clusterBytesOf,ih (by omega)]
      have hdiv : i/g.clusterBytes=(i-g.clusterBytes)/g.clusterBytes+1 := by
        rw [Nat.div_eq_sub_div hpos hge]
      have hmod : i%g.clusterBytes=(i-g.clusterBytes)%g.clusterBytes := Nat.mod_eq_sub_mod hge
      rw [hdiv,hmod,List.getD_cons_succ]

theorem chainBytes_congr (h : ∀ c∈xs, ∀ i, i<g.clusterBytes → V.data c i=W.data c i) :
    chainBytes g V xs=chainBytes g W xs := by
  refine List.flatMap_congr ?_
  intro c hc
  refine List.map_congr_left ?_
  intro i hi
  exact h c hc i (List.mem_range.mp hi)

theorem Laid.take_chainBytes (h : Laid g.clusterBytes text V W cs) {n : Nat}
    (hn : n≤cs.length*g.clusterBytes) (hlen : n≤text.length) : (chainBytes g W cs).take n=text.take n := by
  refine List.ext_getElem? ?_
  intro i
  cases Nat.lt_or_ge i n with
  | inl hlt =>
    have hpos : 0<g.clusterBytes := by
      by_contra h0
      have hz : g.clusterBytes=0 := by omega
      simp [hz] at hn
      omega
    have hk : i/g.clusterBytes<cs.length := by
      rw [Nat.div_lt_iff_lt_mul hpos]
      omega
    have hget : cs[i/g.clusterBytes]?=some (cs.getD (i/g.clusterBytes) 0) := by
      rw [List.getD_eq_getElem?_getD,List.getElem?_eq_getElem hk]
      rfl
    rw [List.getElem?_take_of_lt hlt,List.getElem?_take_of_lt hlt,chainBytes_getElem? (by omega),
      h.data_on _ _ hget,chunkOf,Nat.div_add_mod',List.getD_eq_getElem?_getD,
      List.getElem?_eq_getElem (by omega)]
    rfl
  | inr hge => rw [List.getElem?_take_eq_none hge,List.getElem?_take_eq_none hge]

theorem readLoop_sees (bufSize remaining : Nat) (out : List UInt8) {fuel : Nat} (h : Sees s g V) (hl : Linked V.fat v xs)
    (hin : ∀ c∈xs, InVolume g c) (hfuel : xs.length<fuel) :
    ∃ t bytes, readLoop bufSize fuel v remaining out s=(some ⟨.ok,bytes.length,bytes⟩,t) ∧
      bytes=out++(chainBytes g V xs).take (min remaining (bufSize-out.length)) ∧ Sees t g V := by
  obtain ⟨fuel,rfl⟩ : ∃ k, fuel=k+1 := ⟨fuel-1,by omega⟩
  induction xs generalizing fuel v s remaining out with
  | nil =>
    refine ⟨s,out,?_,by simp [chainBytes],h⟩
    rw [readLoop,if_neg (fun hcond => hl ⟨hcond.1,hcond.2.1⟩),pure_eq]
  | cons c xs ih =>
    obtain ⟨rfl,hl⟩ := hl
    by_cases hstop : 0<remaining ∧ out.length<bufSize
    · have hc := hin v (by simp)
      obtain ⟨t,hread,hsees,hbuf⟩ := readCluster_sees h hc
      obtain ⟨u,hget,hsees',_⟩ := fatGet_sees hsees hc.2
      obtain ⟨k,rfl⟩ : ∃ k, fuel=k+1 := ⟨fuel-1,by simp at hfuel; omega⟩
      generalize hchunk : min (min g.clusterBytes remaining) (bufSize-out.length)=chunk
      have hout : (List.range chunk).map t.clusterBuf=(clusterBytesOf g V v).take chunk := by
        rw [clusterBytesOf,← List.map_take,List.take_range,Nat.min_eq_left (by omega)]
        refine List.map_congr_left ?_
        intro i hi
        have hi := List.mem_range.mp hi
        exact hbuf i (by omega)
      obtain ⟨w,bytes,hrun,hbytes,hsees''⟩ := ih (remaining-chunk)
        (out++(clusterBytesOf g V v).take chunk) hsees' hl (fun c hc => hin c (by simp [hc])) k
        (by simpa using hfuel)
      refine ⟨w,bytes,?_,?_,hsees''⟩
      · rw [readLoop,if_pos ⟨hc.1,hc.lt_eoc h.area,hstop⟩,bind_some hread,if_pos rfl,state_bind]
        simp only [hsees.geo]
        rw [bind_some hget,hchunk,hout,hrun]
      · rw [hbytes,chainBytes_cons,List.take_append,
          length_clusterBytesOf,List.append_assoc,List.length_append,List.length_take,
          length_clusterBytesOf]
        have hfront : (clusterBytesOf g V v).take chunk =
            (clusterBytesOf g V v).take (min remaining (bufSize-out.length)) := by
          rw [← hchunk,Nat.min_assoc,← length_clusterBytesOf (g := g) (V := V) (c := v),
            List.take_eq_take_iff]
          omega
        rw [hfront]
        congr 3
        omega
    · refine ⟨s,out,?_,?_,h⟩
      · rw [readLoop,if_neg (fun hcond => hstop ⟨hcond.2.2.1,hcond.2.2.2⟩),pure_eq]
      · have hzero : min remaining (bufSize-out.length)=0 := by omega
        simp [hzero]

end MyKernel.Fat32
