import Mathlib.Data.List.DropRight
import MyKernel.Fat32.RoundTrip

/-! Names and their 11-byte keys. -/
namespace MyKernel.Fat32
open MyKernel.Computation Disk

/-- The characters in front of the first blank of the base, and of the extension if there is one. -/
def nameFrom83 (key : List UInt8) : List UInt8 :=
  (key.take 8).takeWhile (fun c => c != 0x20) ++
    if key.getD 8 0 != 0x20 then 0x2E::((key.drop 8).take 3).takeWhile (fun c => c != 0x20) else []

def joined (base ext : List UInt8) : List UInt8 := base++if ext=[] then [] else 0x2E::ext

def PlainPart (part : List UInt8) : Prop := ∀ c∈part, c≠0x20 ∧ c≠0x2E ∧ c≠0

/-- One to eight characters, and possibly a dot and one to three more. -/
def Plain83 (name : List UInt8) : Prop :=
  ∃ base ext, (1≤base.length ∧ base.length≤8) ∧ ext.length≤3 ∧ PlainPart base ∧ PlainPart ext ∧
    name=joined base ext

def NoLower (part : List UInt8) : Prop := ∀ c∈part, ¬ (0x61≤c ∧ c≤0x7A)

/-- A base and an extension, each filled up with blanks, without small letters. -/
def PlainKey (key : List UInt8) : Prop :=
  ∃ base ext, (1≤base.length ∧ base.length≤8) ∧ ext.length≤3 ∧ (PlainPart base ∧ NoLower base) ∧
    (PlainPart ext ∧ NoLower ext) ∧ key=padTo 8 base++padTo 3 ext

variable {base ext l l' part name name' : List UInt8} {n : Nat} {s t : Fat}

theorem upper_eq_blank {c : UInt8} : upper c=0x20 ↔ c=0x20 := by
  unfold upper
  grind

theorem PlainPart.upper (h : PlainPart part) : PlainPart (part.map upper) := by
  intro c hc
  obtain ⟨d,hd,rfl⟩ := List.mem_map.mp hc
  obtain ⟨hblank,hdot,h0⟩ := h d hd
  exact ⟨fun he => hblank (upper_eq_blank.mp he),fun he => hdot (upper_eq_dot.mp he),upper_ne_zero h0⟩

theorem NoLower.map_upper (h : NoLower part) : part.map upper=part := by
  have hid : ∀ c∈part, upper c=id c := fun c hc => if_neg (h c hc)
  rw [List.map_congr_left hid,List.map_id]

theorem takeWhile_padTo (h : PlainPart part) : (padTo n part).takeWhile (fun c => c != 0x20)=part := by
  have hall : ∀ c∈part, (c != 0x20)=true := fun c hc => bne_iff_ne.mpr (h c hc).1
  rw [padTo,List.takeWhile_append_of_pos hall,List.takeWhile_replicate,if_neg (by decide),List.append_nil]

theorem baseOf_joined (h : PlainPart base) (hlen : base.length≤8) (ext : List UInt8) :
    baseOf (joined base ext)=base := by
  have hall : ∀ c∈base, (c != 0x2E)=true := fun c hc => bne_iff_ne.mpr (h c hc).2.1
  have hrest : (if ext=[] then [] else (0x2E::ext : List UInt8)).takeWhile (fun c => c != 0x2E)=[] := by
    split
    · rfl
    · rfl
  rw [baseOf,joined,List.takeWhile_append_of_pos hall,hrest,List.append_nil,List.take_of_length_le hlen]

theorem extOf_joined (hlen : ext.length≤3) (base : List UInt8) : extOf ((joined base ext).drop base.length)=ext := by
  rw [joined,List.drop_left]
  split
  next he => rw [he,extOf]
  next => rw [extOf,if_pos rfl,List.take_of_length_le hlen]

theorem nameTo83_joined (hb : PlainPart base) (hbase : base.length≤8) (hext : ext.length≤3) :
    nameTo83 (joined base ext)=padTo 8 (base.map upper)++padTo 3 (ext.map upper) := by
  rw [nameTo83,baseOf_joined hb hbase,extOf_joined hext]

theorem nameFrom83_padded (hb : PlainPart base) (he : PlainPart ext) (hbase : base.length≤8)
    (hext : ext.length≤3) : nameFrom83 (padTo 8 base++padTo 3 ext)=joined base ext := by
  have hlen : (padTo 8 base).length=8 := length_padTo hbase
  have hlen' : (padTo 3 ext).length=3 := length_padTo hext
  have hhead : (padTo 8 base++padTo 3 ext).getD 8 0=(padTo 3 ext).getD 0 0 := by
    rw [List.getD_append_right _ _ _ _ (by omega),hlen]
  rw [nameFrom83,joined,hhead,List.take_left' hlen,List.drop_left' hlen,List.take_of_length_le (by omega),
    takeWhile_padTo hb,takeWhile_padTo he]
  -- the ninth byte is a blank exactly when there is no extension
  cases ext with
  | nil => rfl
  | cons c rest =>
    have hc := (he c List.mem_cons_self).1
    rw [padTo,List.cons_append,List.getD_cons_zero,if_pos (bne_iff_ne.mpr hc),if_neg (List.cons_ne_nil c rest)]

theorem map_joined (base ext : List UInt8) : (joined base ext).map upper=joined (base.map upper) (ext.map upper) := by
  have hdot : upper 0x2E=0x2E := by decide
  cases ext with
  | nil => simp [joined]
  | cons c rest => simp [joined,hdot]

/-- An 8.3 name is read off its key with its letters in capitals, and a key in the 8.3 form is the key of
the name read off it. -/
theorem names_round_trip :
    (∀ name, Plain83 name → nameFrom83 (nameTo83 name)=name.map upper) ∧
      ∀ key, PlainKey key → nameTo83 (nameFrom83 key)=key := by
  constructor
  · rintro name ⟨base,ext,hbase,hext,hb,he,rfl⟩
    rw [nameTo83_joined hb hbase.2 hext,map_joined]
    apply nameFrom83_padded hb.upper he.upper
    · rw [List.length_map]
      exact hbase.2
    · rw [List.length_map]
      exact hext
  · rintro key ⟨base,ext,hbase,hext,⟨hb,hbl⟩,⟨he,hel⟩,rfl⟩
    rw [nameFrom83_padded hb he hbase.2 hext,nameTo83_joined hb hbase.2 hext,hbl.map_upper,hel.map_upper]

/-- `kernel.c` becomes `KERNEL.C`, and the key of `README` is read as `README`. -/
theorem names_round_trip_kernel :
    nameFrom83 (nameTo83 [0x6B,0x65,0x72,0x6E,0x65,0x6C,0x2E,0x63]) =
        [0x4B,0x45,0x52,0x4E,0x45,0x4C,0x2E,0x43] ∧
      nameTo83 (nameFrom83 [0x52,0x45,0x41,0x44,0x4D,0x45,0x20,0x20,0x20,0x20,0x20]) =
        [0x52,0x45,0x41,0x44,0x4D,0x45,0x20,0x20,0x20,0x20,0x20] := by
  constructor
  · refine (names_round_trip.1 _ ⟨[0x6B,0x65,0x72,0x6E,0x65,0x6C],[0x63],?_,?_,?_,?_,?_⟩).trans ?_
    · decide
    · decide
    · simp [PlainPart]
    · simp [PlainPart]
    · decide
    · decide
  · apply names_round_trip.2
    refine ⟨[0x52,0x45,0x41,0x44,0x4D,0x45],[],?_,?_,⟨?_,?_⟩,⟨?_,?_⟩,?_⟩
    · decide
    · decide
    · simp [PlainPart]
    · simp [NoLower]
    · simp [PlainPart]
    · simp [NoLower]
    · decide

end MyKernel.Fat32
