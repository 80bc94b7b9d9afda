import Mathlib.Algebra.Order.Ring.Int
import Mathlib.Tactic.NormNum
import MyKernel.Calc.Returns

/-! The multiplications of `ipow`. The last pass squares the base too. -/
namespace MyKernel.Calc
open Signed

variable {base result x : Int} {exp n k : Nat}

/-- The loop of `ipow` with the exact values of its products, in the order they are formed. -/
def ipowTraced : Nat → Int → Nat → Int → Int × List Int
  | 0, _, _, result => (result,[])
  | n+1, base, exp, result =>
    if exp=0 then (result,[])
    else
      let rest := ipowTraced n (wrap32 (base*base)) (exp/2) (if exp%2=1 then wrap32 (result*base) else result)
      (rest.1,(if exp%2=1 then [result*base] else [])++base*base::rest.2)

theorem ipowTraced_fst (n : Nat) (base : Int) (exp : Nat) (result : Int) :
    (ipowTraced n base exp result).1=ipowLoop n base exp result := by
  induction n generalizing base exp result with
  | zero => rfl
  | succ n ih =>
    rw [ipowTraced,ipowLoop]
    split
    · rfl
    · exact ih _ _ _

def multiplications (base exp : Int) : List Int := if exp<0 then [] else (ipowTraced 32 base exp.toNat 1).2

theorem traced_products (h0 : exp≠0) : (ipowTraced (n+1) base exp result).2 =
    (if exp%2=1 then [result*base] else [])++base*base::
      (ipowTraced n (wrap32 (base*base)) (exp/2) (if exp%2=1 then wrap32 (result*base) else result)).2 := by
  rw [ipowTraced,if_neg h0]

theorem word_of_natAbs (h : x.natAbs≤2147483647) : Word x := ⟨by omega,by omega⟩

theorem Word.natAbs_le (h : Word x) : x.natAbs≤2147483648 := by
  obtain ⟨hlo,hhi⟩ := h
  omega

theorem wrap32_word (h : Word x) : wrap32 x=x := wrap32_of_range h.1 h.2

theorem word_square_iff : Word (base*base) ↔ base.natAbs*base.natAbs≤2147483647 := by
  have hsquare : base*base=((base.natAbs*base.natAbs : Nat) : Int) := (Int.natAbs_mul_self (a := base)).symm
  rw [hsquare]
  unfold Word
  omega

theorem half_lt (h : exp<2^(n+1)) : exp/2<2^n := by
  rw [pow_succ] at h
  omega

theorem half_pow (base result : Int) (exp : Nat) :
    (if exp%2=1 then result*base else result)*(base*base)^(exp/2)=result*base^exp := by
  by_cases hodd : exp%2=1
  · rw [if_pos hodd,← pow_two,← pow_mul,mul_assoc,← pow_succ',show 2*(exp/2)+1=exp by omega]
  · rw [if_neg hodd,← pow_two,← pow_mul,show 2*(exp/2)=exp by omega]

theorem natAbs_mul_le_one {a b : Int} (ha : a.natAbs≤1) (hb : b.natAbs≤1) : (a*b).natAbs≤1 := by
  rw [Int.natAbs_mul]
  exact Nat.mul_le_mul ha hb

theorem small_products (hb : base.natAbs≤1) (hr : result.natAbs≤1) :
    ∀ x∈(ipowTraced n base exp result).2, Word x := by
  induction n generalizing base exp result with
  | zero => nofun
  | succ n ih =>
    have hsquare := natAbs_mul_le_one hb hb
    have hword : Word (base*base) := word_of_natAbs (by omega)
    have hproduct := natAbs_mul_le_one hr hb
    have hword' : Word (result*base) := word_of_natAbs (by omega)
    by_cases h0 : exp=0
    · rw [ipowTraced,if_pos h0]
      nofun
    · rw [traced_products h0,wrap32_word hword,wrap32_word hword',List.forall_mem_append,List.forall_mem_cons]
      by_cases hodd : exp%2=1
      · rw [if_pos hodd,if_pos hodd]
        exact ⟨List.forall_mem_singleton.mpr hword',hword,ih hsquare hproduct⟩
      · rw [if_neg hodd,if_neg hodd]
        exact ⟨nofun,hword,ih hsquare hr⟩

/-- The last square is the largest product. -/
theorem products_fit (h2 : 2≤base.natAbs) (hr : result≠0) (hexp : exp<2^k)
    (hlast : base.natAbs^2^k≤2147483647) (hpow : Word (result*base^exp)) :
    ∀ x∈(ipowTraced n base exp result).2, Word x := by
  induction n generalizing base exp result k with
  | zero => nofun
  | succ n ih =>
    by_cases h0 : exp=0
    · rw [ipowTraced,if_pos h0]
      nofun
    cases k with
    | zero => omega
    | succ k =>
      have hne : base≠0 := by omega
      have hchain : (base*base).natAbs^2^k=base.natAbs^2^(k+1) := by
        rw [Int.natAbs_mul,← pow_two,← pow_mul,← pow_succ']
      have hle : (base*base).natAbs≤(base*base).natAbs^2^k := Nat.le_self_pow (Nat.two_pow_pos k).ne' _
      have hsquare : Word (base*base) := word_of_natAbs (by omega)
      have h2' : 2≤(base*base).natAbs := by
        rw [Int.natAbs_mul]
        exact Nat.le_trans h2 (Nat.le_mul_of_pos_left _ (by omega))
      have hproduct : exp%2=1 → Word (result*base) := by
        intro hodd
        by_cases h1 : exp=1
        · rwa [h1,pow_one] at hpow
        · -- two more factors of at least 2 fit behind it
          have hsplit : (result*base^exp).natAbs=(result*base).natAbs*(base.natAbs^(exp-1)) := by
            rw [Int.natAbs_mul,Int.natAbs_mul,Int.natAbs_pow,mul_assoc,← pow_succ',
              show exp-1+1=exp by omega]
          have hfactor : 2≤base.natAbs^(exp-1) := Nat.le_trans h2 (Nat.le_self_pow (by omega) _)
          have hbound := hpow.natAbs_le
          have hdouble := Nat.mul_le_mul_left (result*base).natAbs hfactor
          exact word_of_natAbs (by omega)
      have hnext := half_pow base result exp
      rw [traced_products h0,wrap32_word hsquare,List.forall_mem_append,List.forall_mem_cons]
      by_cases hodd : exp%2=1
      · rw [if_pos hodd] at hnext ⊢
        rw [if_pos hodd,wrap32_word (hproduct hodd)]
        exact ⟨List.forall_mem_singleton.mpr (hproduct hodd),hsquare,
          ih h2' (mul_ne_zero hr hne) (half_lt hexp) (hchain ▸ hlast) (hnext ▸ hpow)⟩
      · rw [if_neg hodd] at hnext ⊢
        rw [if_neg hodd]
        exact ⟨nofun,hsquare,ih h2' hr (half_lt hexp) (hchain ▸ hlast) (hnext ▸ hpow)⟩

theorem last_square_fits (hlo : 2^k≤exp) (hexp : exp<2^n)
    (h : ∀ x∈(ipowTraced n base exp result).2, Word x) : base.natAbs^2^(k+1)≤2147483647 := by
  induction k generalizing n base exp result with
  | zero =>
    cases n with
    | zero => omega
    | succ n =>
      rw [traced_products (by omega),List.forall_mem_append,List.forall_mem_cons] at h
      have hsquare := word_square_iff.mp h.2.1
      rwa [zero_add,pow_one,pow_two]
  | succ k ih =>
    have hpos : 0<2^k := Nat.two_pow_pos k
    rw [pow_succ] at hlo
    cases n with
    | zero => omega
    | succ n =>
      rw [traced_products (by omega),List.forall_mem_append,List.forall_mem_cons] at h
      have hrest := ih (by omega) (half_lt hexp) h.2.2
      rwa [wrap32_word h.2.1,Int.natAbs_mul,← pow_two,← pow_mul,← pow_succ'] at hrest

theorem products_fit_iff (h2 : 2≤base.natAbs) (hlo : 2^k≤exp) (hhi : exp<2^(k+1)) (hn : exp<2^n)
    (hpow : Word (base^exp)) : (∀ x∈(ipowTraced n base exp 1).2, Word x) ↔ base.natAbs^2^(k+1)≤2147483647 := by
  constructor
  · exact last_square_fits hlo hn
  · intro hlast
    exact products_fit h2 one_ne_zero hhi hlast (by rwa [one_mul])

theorem pow_le_iff {a r e m : Nat} (hin : r^e ≤ m) (hout : m<(r+1)^e) : a^e ≤ m ↔ a≤r := by
  constructor
  · intro h
    by_contra hlt
    have := Nat.pow_le_pow_left (show r+1≤a by omega) e
    omega
  · intro h
    exact Nat.le_trans (Nat.pow_le_pow_left h e) hin

/-- If the power fits a word, all products do exactly when the base is small enough for the squares. -/
theorem multiplications_fit_iff (base exp : Int) (hexp : 0≤exp) (hword : Word exp) (hpow : Word (base^exp.toNat)) :
    (∀ x∈multiplications base exp, Word x) ↔
      exp=0 ∨ base.natAbs≤1 ∨ exp≤1 ∧ base.natAbs≤46340 ∨ exp≤3 ∧ base.natAbs≤215 ∨
        exp≤7 ∧ base.natAbs≤14 ∨ exp≤15 ∧ base.natAbs≤3 := by
  obtain ⟨e,rfl⟩ := Int.eq_ofNat_of_zero_le hexp
  have hlt : e<2^32 := by
    obtain ⟨_,hhi⟩ := hword
    have hbig : 4294967296=2^32 := by norm_num
    omega
  rw [multiplications,if_neg (by omega)]
  rw [Int.toNat_natCast] at hpow ⊢
  by_cases h0 : e=0
  · rw [h0,ipowTraced,if_pos rfl]
    exact iff_of_true nofun (.inl rfl)
  by_cases h1 : base.natAbs≤1
  · exact iff_of_true (small_products h1 (by decide)) (.inr (.inl h1))
  have h2 : 2≤base.natAbs := by omega
  have hbound : 2^e≤2147483648 := by
    have habs := hpow.natAbs_le
    rw [Int.natAbs_pow] at habs
    exact Nat.le_trans (Nat.pow_le_pow_left h2 e) habs
  have hsmall : e<32 := by
    by_contra hge
    have := Nat.pow_le_pow_right (show 0<2 by decide) (show 32≤e by omega)
    omega
  -- the number of passes decides
  rcases (by omega : e=1 ∨ 2≤e ∧ e<4 ∨ 4≤e ∧ e<8 ∨ 8≤e ∧ e<16 ∨ 16≤e ∧ e<32) with
    he | he | he | he | he
  · rw [products_fit_iff (k := 0) h2 (by omega) (by omega) hlt hpow,
      pow_le_iff (r := 46340) (by norm_num) (by norm_num)]
    omega
  · rw [products_fit_iff (k := 1) h2 (by omega) (by omega) hlt hpow,
      pow_le_iff (r := 215) (by norm_num) (by norm_num)]
    omega
  · rw [products_fit_iff (k := 2) h2 (by omega) (by omega) hlt hpow,
      pow_le_iff (r := 14) (by norm_num) (by norm_num)]
    omega
  · rw [products_fit_iff (k := 3) h2 (by omega) (by omega) hlt hpow,
      pow_le_iff (r := 3) (by norm_num) (by norm_num)]
    omega
  · rw [products_fit_iff (k := 4) h2 (by omega) (by omega) hlt hpow,
      pow_le_iff (r := 1) (by norm_num) (by norm_num)]
    omega

/-- The cube of 215. -/
theorem multiplications_fit_cube : Word (215^3) ∧ ∀ x∈multiplications 215 3, Word x := by
  have hfits : Word (215^3) := ⟨by decide,by decide⟩
  refine ⟨hfits,(multiplications_fit_iff 215 3 (by decide) ⟨by decide,by decide⟩ hfits).mpr ?_⟩
  exact .inr (.inr (.inr (.inl ⟨by decide,by decide⟩)))

/-- The first power of 65536 is formed together with its square. -/
theorem needless_square_overflows :
    ¬ ∀ base exp : Int, Word base → 0≤exp → Word exp → Word (base^exp.toNat) →
      ∀ x∈multiplications base exp, Word x := by
  intro h
  have hsquare := h 65536 1 ⟨by decide,by decide⟩ (by decide) ⟨by decide,by decide⟩ ⟨by decide,by decide⟩
    4294967296 (by decide)
  exact absurd hsquare.2 (by decide)

end MyKernel.Calc
