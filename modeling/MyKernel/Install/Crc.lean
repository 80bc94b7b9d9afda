import MyKernel.Install.Part
import MyKernel.Lib.BitPoly

/-! The checksum of `part.c` as a remainder of polynomials, the low bit of the register first. -/
namespace MyKernel.Install
open BitPoly Polynomial

/-- The low bit of the word first. -/
def registerBits (c : UInt32) : List Bool := (List.range 32).map c.toBitVec.getLsbD

def byteBits (b : UInt8) : List Bool := (List.range 8).map b.toBitVec.getLsbD

noncomputable def generator : (ZMod 2)[X] :=
  X^32+X^26+X^23+X^22+X^16+X^12+X^11+X^10+X^8+X^7+X^5+X^4+X^2+X+1

/-- The bits of the data and 32 zero bits, of which the first 32 are complemented. -/
def message (data : List UInt8) : List Bool :=
  let bits := data.flatMap byteBits++List.replicate 32 false
  (bits.take 32).map not++bits.drop 32

theorem generator_eq : generator=X^32+bitPoly (registerBits 0xEDB88320) := by
  have hbits : registerBits 0xEDB88320=[false,false,false,false,false,true,false,false,true,true,false,false,
    false,false,false,true,false,false,false,true,true,true,false,true,true,false,true,true,false,true,true,
    true] := by decide
  rw [hbits]
  simp only [bitPoly,bitOf,List.length_cons,List.length_nil,if_true,Bool.false_eq_true,if_false,map_one,map_zero,
    generator]
  ring

theorem crcBit_eq (c : UInt32) : crcBit c=(c >>> 1) ^^^ (if c.toBitVec.getLsbD 0 then 0xEDB88320 else 0) := by
  have hlow : (c &&& 1).toBitVec=BitVec.setWidth 32 (BitVec.ofBool (c.toBitVec.getLsbD 0)) := by
    rw [UInt32.toBitVec_and]
    exact BitVec.and_one_eq_setWidth_ofBool_getLsbD
  rw [crcBit]
  cases hc : c.toBitVec.getLsbD 0 with
  | false =>
    have h0 : c &&& 1=0 := UInt32.toBitVec_inj.mp (by rw [hlow,hc]; decide)
    rw [h0]
    rfl
  | true =>
    have h1 : c &&& 1=1 := UInt32.toBitVec_inj.mp (by rw [hlow,hc]; decide)
    rw [h1]
    rfl

theorem registerBits_xor (a c : UInt32) :
    registerBits (a ^^^ c)=List.zipWith xor (registerBits a) (registerBits c) := by
  simp [registerBits,List.zipWith_map,List.zipWith_self]

theorem bitPoly_register_xor (a c : UInt32) :
    bitPoly (registerBits (a ^^^ c))=bitPoly (registerBits a)+bitPoly (registerBits c) := by
  rw [registerBits_xor,bitPoly_xor (by simp [registerBits])]

theorem registerBits_shift (c : UInt32) : ∃ bs, bs.length=31 ∧ registerBits c=c.toBitVec.getLsbD 0::bs ∧
    registerBits (c >>> 1)=bs++[false] := by
  refine ⟨(List.range 31).map fun i => c.toBitVec.getLsbD (i+1),by simp,?_,?_⟩
  · rw [registerBits,List.range_succ_eq_map]
    simp [Function.comp_def]
  · rw [registerBits,List.range_succ]
    simp [Nat.add_comm]

/-- A pass of the inner loop multiplies the register by `X`, up to the generator. -/
theorem bitPoly_crcBit (c : UInt32) : bitPoly (registerBits (crcBit c)) =
    X*bitPoly (registerBits c)+C (bitOf (c.toBitVec.getLsbD 0))*generator := by
  obtain ⟨bs,hlen,hbits,hshift⟩ := registerBits_shift c
  have htaps : bitPoly (registerBits (if c.toBitVec.getLsbD 0 then 0xEDB88320 else 0)) =
      C (bitOf (c.toBitVec.getLsbD 0))*(generator-X^32) := by
    rw [generator_eq]
    cases c.toBitVec.getLsbD 0 with
    | false =>
      have hzero : registerBits 0=List.replicate 32 false := by decide
      simp [bitOf,hzero,-List.reduceReplicate,bitPoly_zeros]
    | true => simp [bitOf]
  rw [crcBit_eq,bitPoly_register_xor,htaps,hshift,hbits,bitPoly_append,bitPoly,bitPoly,bitPoly,hlen]
  simp only [CharTwo.sub_eq_add,List.length_singleton,List.length_nil,bitOf,Bool.false_eq_true,if_false,map_zero]
  ring

theorem bitPoly_passes (k : Nat) (c : UInt32) :
    ∃ q, bitPoly (registerBits (crcBit^[k] c))=X^k*bitPoly (registerBits c)+generator*q := by
  induction k with
  | zero => exact ⟨0,by simp⟩
  | succ k ih =>
    obtain ⟨q,hq⟩ := ih
    rw [Function.iterate_succ_apply',bitPoly_crcBit,hq]
    exact ⟨X*q+C (bitOf ((crcBit^[k] c).toBitVec.getLsbD 0)),by ring⟩

theorem registerBits_byte (b : UInt8) : registerBits b.toUInt32=byteBits b++List.replicate 24 false := by
  rw [registerBits,show List.range 32=_ from List.range_add (n := 8) (m := 24),List.map_append,List.map_map]
  congr 1
  refine List.eq_replicate_iff.mpr ⟨by simp,fun x hx => ?_⟩
  obtain ⟨k,_,rfl⟩ := List.mem_map.mp hx
  rw [Function.comp,UInt8.toBitVec_toUInt32,BitVec.getLsbD_setWidth,
    BitVec.getLsbD_of_ge _ _ (Nat.le_add_right 8 k),Bool.and_false]

theorem bitPoly_register (c : UInt32) (data : List UInt8) : ∃ q, bitPoly (registerBits (data.foldl crcByte c)) =
    X^(8*data.length)*bitPoly (registerBits c)+X^32*bitPoly (data.flatMap byteBits)+generator*q := by
  induction data generalizing c with
  | nil => exact ⟨0,by simp [bitPoly]⟩
  | cons b bs ih =>
    obtain ⟨p,hp⟩ := bitPoly_passes 8 (c ^^^ b.toUInt32)
    obtain ⟨q,hq⟩ := ih (crcByte c b)
    have hlen : (bs.flatMap byteBits).length=8*bs.length := by simp [byteBits,Nat.mul_comm]
    rw [bitPoly_register_xor,registerBits_byte,bitPoly_append,bitPoly_zeros,List.length_replicate] at hp
    rw [List.foldl_cons,hq,crcByte,hp,List.flatMap_cons,bitPoly_append,hlen,List.length_cons,Nat.mul_succ,pow_add]
    exact ⟨X^(8*bs.length)*p+q,by ring⟩

theorem bitPoly_message (data : List UInt8) : bitPoly (message data) =
    X^(8*data.length)*bitPoly (registerBits 0xFFFFFFFF)+X^32*bitPoly (data.flatMap byteBits) := by
  have hones : registerBits 0xFFFFFFFF=List.replicate 32 true := by decide
  have hlen : (data.flatMap byteBits).length=8*data.length := by simp [byteBits,Nat.mul_comm]
  have hsplit := bitPoly_append ((data.flatMap byteBits++List.replicate 32 false).take 32)
    ((data.flatMap byteBits++List.replicate 32 false).drop 32)
  rw [List.take_append_drop,bitPoly_append,bitPoly_zeros,List.length_drop,List.length_append,hlen,
    List.length_replicate,Nat.add_sub_cancel] at hsplit
  rw [message,bitPoly_append,bitPoly_not,List.length_drop,List.length_append,hlen,List.length_replicate,
    Nat.add_sub_cancel,List.length_take,List.length_append,List.length_replicate,Nat.min_eq_left (by omega),hones,
    add_mul,add_right_comm,← hsplit]
  ring

theorem register_remainder (data : List UInt8) :
    bitPoly (registerBits (data.foldl crcByte 0xFFFFFFFF))=bitPoly (message data) %ₘ generator := by
  have hdeg : (bitPoly (registerBits 0xEDB88320)).degree<(32 : Nat) := degree_bitPoly_lt _
  have hmonic : generator.Monic := generator_eq ▸ monic_X_pow_add hdeg
  have hgen : generator.degree=(32 : Nat) := by
    rw [generator_eq,degree_add_eq_left_of_degree_lt (by rwa [degree_X_pow]),degree_X_pow]
  obtain ⟨q,hq⟩ := bitPoly_register 0xFFFFFFFF data
  have hlt : (bitPoly (registerBits (data.foldl crcByte 0xFFFFFFFF))).degree<generator.degree := by
    rw [hgen]
    exact degree_bitPoly_lt _
  rw [← bitPoly_message] at hq
  rw [← (modByMonic_eq_self_iff hmonic).mpr hlt]
  refine modByMonic_eq_of_dvd_sub hmonic ⟨q,?_⟩
  rw [hq,add_sub_cancel_left]

/-- The checksum of the standard: its bits are the complements of the coefficients of the remainder, and the lowest
bit is that of `X^31`. -/
theorem crc32_ieee (data : List UInt8) : registerBits (crc32 data) =
    (List.range 32).map fun i => !decide ((bitPoly (message data) %ₘ generator).coeff (31-i)=1) := by
  rw [crc32,← register_remainder,registerBits]
  generalize data.foldl crcByte 0xFFFFFFFF=c
  apply List.map_congr_left
  intro i hi
  have hi : i<32 := List.mem_range.mp hi
  have hcoeff : (bitPoly (registerBits c)).coeff (31-i)=bitOf (c.toBitVec.getLsbD i) := by
    simpa [registerBits] using @coeff_bitPoly (registerBits c) i (by simpa [registerBits] using hi)
  rw [hcoeff,UInt32.toBitVec_not,BitVec.getLsbD_not]
  cases c.toBitVec.getLsbD i with
  | false => simp [hi,bitOf]
  | true => simp [bitOf]

end MyKernel.Install
