import Mathlib
import MeshLlm.Library.FloatGrid

/-! # Half-precision conversions

Activations travel as binary16 or bfloat16 patterns. The conversions work on the bits
of the value: the sign, the exponent and the mantissa are cut out, the mantissa is
rounded, and a carry out of it moves on into the exponent.
-/
namespace MeshLlm.ActivationCodec

def f32 : FloatFormat := ⟨23,8⟩
def f16 : FloatFormat := ⟨10,5⟩
def bf16 : FloatFormat := ⟨7,8⟩

/-- The carry of a discarded remainder: past halfway, or from halfway to the even mantissa. -/
def roundsUp (remainder halfway halfMantissa : UInt32) : Prop :=
  halfway < remainder ∨ remainder = halfway ∧ halfMantissa &&& 1 ≠ 0

instance (remainder halfway halfMantissa : UInt32) : Decidable (roundsUp remainder halfway halfMantissa) :=
  inferInstanceAs (Decidable (_ ∨ _))

def f32ToBf16Bits (bits : UInt32) : UInt16 :=
  let lsb := (bits >>> 16) &&& 1
  ((bits + (0x7fff + lsb)) >>> 16).toUInt16

def f32ToF16Bits (bits : UInt32) : UInt16 :=
  let sign := ((bits >>> 16) &&& 0x8000).toUInt16
  let exponent : ℤ := ((bits >>> 23) &&& 0xff).toNat
  let mantissa := bits &&& 0x7fffff
  if exponent = 0 then sign
  else if exponent = 0xff then sign ||| 0x7c00 ||| (if mantissa ≠ 0 then 1 else 0)
  else
    let halfExponent := exponent - 127 + 15
    if 31 ≤ halfExponent then sign ||| 0x7c00
    else if halfExponent ≤ 0 then
      if halfExponent < -10 then sign
      else
        let mantissa := mantissa ||| 0x800000
        let shift := UInt32.ofNat (14 - halfExponent).toNat
        let halfMantissa := mantissa >>> shift
        let remainder := mantissa &&& ((1 <<< shift) - 1)
        let halfway := 1 <<< (shift - 1)
        let halfMantissa := if roundsUp remainder halfway halfMantissa then halfMantissa + 1 else halfMantissa
        sign ||| halfMantissa.toUInt16
    else
      let halfMantissa := mantissa >>> 13
      let remainder := mantissa &&& 0x1fff
      if roundsUp remainder 0x1000 halfMantissa then
        let halfMantissa := halfMantissa + 1
        if halfMantissa = 0x400 then
          let roundedExponent := halfExponent + 1
          if 31 ≤ roundedExponent then sign ||| 0x7c00
          else sign ||| (UInt16.ofNat roundedExponent.toNat <<< 10)
        else sign ||| (UInt16.ofNat halfExponent.toNat <<< 10) ||| halfMantissa.toUInt16
      else sign ||| (UInt16.ofNat halfExponent.toNat <<< 10) ||| halfMantissa.toUInt16

theorem hidden_bit_clear {mantissa : UInt32} (h : 0 < mantissa.toNat ∧ mantissa.toNat < 2^11)
    (hbit : mantissa &&& 0x400 = 0) : mantissa.toNat < 2^10 := by
  have hand : mantissa.toNat &&& 2^10 = 0 := congrArg UInt32.toNat hbit
  rw [Nat.and_two_pow,mul_eq_zero,or_iff_left (by norm_num)] at hand
  have htest : mantissa.toNat.testBit 10 = false := by simpa using hand
  rw [Nat.testBit_eq_decide_div_mod_eq,decide_eq_false_iff_not] at htest
  omega

theorem toNat_shiftLeft_one {mantissa : UInt32} (h : mantissa.toNat < 2^10) :
    (mantissa <<< 1).toNat = mantissa.toNat * 2 := by
  rw [UInt32.toNat_shiftLeft]
  change mantissa.toNat <<< 1 % 2^32 = _
  rw [Nat.shiftLeft_eq]
  omega

/-- The subnormal mantissa is shifted until its hidden bit is set. -/
def normalize (mantissa : UInt32) (exponent : ℤ) (h : 0 < mantissa.toNat ∧ mantissa.toNat < 2^11) : UInt32 × ℤ :=
  if hbit : mantissa &&& 0x400 = 0 then
    normalize (mantissa <<< 1) (exponent - 1) (by
      have hlow := hidden_bit_clear h hbit
      rw [toNat_shiftLeft_one hlow]
      omega)
  else (mantissa,exponent)
termination_by 2^11 - mantissa.toNat
decreasing_by
  have hlow := hidden_bit_clear h hbit
  rw [toNat_shiftLeft_one hlow]
  omega

theorem toNat_half_mantissa (bits : UInt16) : (bits &&& 0x3ff).toUInt32.toNat = bits.toNat % 2^10 := by
  rw [UInt16.toNat_toUInt32,UInt16.toNat_and]
  exact Nat.and_two_pow_sub_one_eq_mod bits.toNat 10

def f16BitsToF32 (bits : UInt16) : UInt32 :=
  let sign := (bits &&& 0x8000).toUInt32 <<< 16
  let exponent := (bits >>> 10) &&& 0x1f
  let mantissa := (bits &&& 0x3ff).toUInt32
  if exponent = 0 then
    if hzero : mantissa = 0 then sign
    else
      have hbounds : 0 < mantissa.toNat ∧ mantissa.toNat < 2^11 := by
        refine ⟨Nat.pos_of_ne_zero fun heq => hzero (UInt32.toNat_inj.mp heq),?_⟩
        rw [toNat_half_mantissa]
        omega
      let (mantissa,exponent) := normalize mantissa (-14) hbounds
      let mantissa := mantissa &&& 0x3ff
      sign ||| (UInt32.ofNat (exponent + 127).toNat <<< 23) ||| (mantissa <<< 13)
  else if exponent = 0x1f then sign ||| (0x7f800000 : UInt32) ||| (mantissa <<< 13)
  else sign ||| ((exponent.toUInt32 + 112) <<< 23) ||| (mantissa <<< 13)

section Fields

theorem toNat_or {c t : ℕ} {a b : UInt16} (ha : a.toNat = c * 2^t) (hb : b.toNat < 2^t) :
    (a ||| b).toNat = c * 2^t + b.toNat := by
  rw [UInt16.toNat_or,ha,Nat.mul_comm,Nat.two_pow_add_eq_or_of_lt hb]

theorem toNat_or_wide {c t : ℕ} {a b : UInt32} (ha : a.toNat = c * 2^t) (hb : b.toNat < 2^t) :
    (a ||| b).toNat = c * 2^t + b.toNat := by
  rw [UInt32.toNat_or,ha,Nat.mul_comm,Nat.two_pow_add_eq_or_of_lt hb]

theorem top_bit {n t : ℕ} (h : n < 2^(t + 1)) : n &&& 2^t = n / 2^t * 2^t := by
  have hdiv : n / 2^t < 2 := Nat.div_lt_of_lt_mul (by rwa [← Nat.pow_succ])
  rw [Nat.and_two_pow,Nat.testBit_eq_decide_div_mod_eq]
  rcases Nat.lt_or_ge (n / 2^t) 1 with hlow | hone
  · rw [Nat.lt_one_iff.mp hlow]
    simp
  · have heq : n / 2^t = 1 := by omega
    rw [heq]
    simp

theorem toNat_sign (bits : UInt32) :
    ((bits >>> 16) &&& 0x8000).toUInt16.toNat = bits.toNat / 2^31 * 2^15 := by
  have hbits : bits.toNat < 2^32 := bits.toNat_lt
  rw [UInt32.toNat_toUInt16,UInt32.toNat_and,UInt32.toNat_shiftRight]
  change (bits.toNat >>> 16 &&& 2^15) % 2^16 = _
  rw [Nat.shiftRight_eq_div_pow,top_bit (by omega),Nat.div_div_eq_div_mul]
  omega

theorem toNat_exponent (bits : UInt32) : ((bits >>> 23) &&& 0xff).toNat = bits.toNat / 2^23 % 2^8 := by
  rw [UInt32.toNat_and,UInt32.toNat_shiftRight]
  change bits.toNat >>> 23 &&& (2^8 - 1) = _
  rw [Nat.and_two_pow_sub_one_eq_mod,Nat.shiftRight_eq_div_pow]

theorem toNat_mantissa (bits : UInt32) : (bits &&& 0x7fffff).toNat = bits.toNat % 2^23 := by
  rw [UInt32.toNat_and]
  exact Nat.and_two_pow_sub_one_eq_mod bits.toNat 23

end Fields

/-- The quotient by a power of two, rounded to nearest with ties to even. -/
def roundShift (mantissa shift : ℕ) : ℕ :=
  mantissa / 2^shift +
    if 2^shift < 2 * (mantissa % 2^shift) ∨ 2^shift = 2 * (mantissa % 2^shift) ∧ mantissa / 2^shift % 2 = 1
    then 1 else 0

theorem roundsUp_iff {remainder halfway halfMantissa : UInt32} {half : ℕ} (h : halfway.toNat = half) :
    roundsUp remainder halfway halfMantissa ↔
      2 * half < 2 * remainder.toNat ∨ 2 * half = 2 * remainder.toNat ∧ halfMantissa.toNat % 2 = 1 := by
  have hbit : halfMantissa &&& 1 ≠ 0 ↔ halfMantissa.toNat % 2 = 1 := by
    rw [Ne,← UInt32.toNat_inj,UInt32.toNat_and]
    change ¬ halfMantissa.toNat &&& (2^1 - 1) = 0 ↔ _
    rw [Nat.and_two_pow_sub_one_eq_mod]
    omega
  rw [roundsUp,hbit,UInt32.lt_iff_toNat_lt,← UInt32.toNat_inj,h]
  omega

theorem roundShift_toNat {mantissa shift : UInt32} (hm : mantissa.toNat < 2^24) (hpos : 1 ≤ shift.toNat)
    (hlt : shift.toNat < 25) :
    (if roundsUp (mantissa &&& ((1 <<< shift) - 1)) (1 <<< (shift - 1)) (mantissa >>> shift)
      then (mantissa >>> shift) + 1 else mantissa >>> shift).toNat = roundShift mantissa.toNat shift.toNat := by
  obtain ⟨t,ht⟩ : ∃ t, shift.toNat = t + 1 := ⟨shift.toNat - 1,by omega⟩
  have hpow : 2^(t + 1) < 2^25 := Nat.pow_lt_pow_right (by norm_num) (by omega)
  have hquotient : (mantissa >>> shift).toNat = mantissa.toNat / 2^(t + 1) := by
    rw [UInt32.toNat_shiftRight,ht,Nat.shiftRight_eq_div_pow,Nat.mod_eq_of_lt (by omega)]
  have hone : (1 <<< shift : UInt32).toNat = 2^(t + 1) := by
    rw [UInt32.toNat_shiftLeft,ht,Nat.mod_eq_of_lt (by omega : t + 1 < 32)]
    change 1 <<< (t + 1) % 2^32 = _
    rw [Nat.shiftLeft_eq,Nat.one_mul,Nat.mod_eq_of_lt (by omega)]
  have hremainder : (mantissa &&& ((1 <<< shift) - 1)).toNat = mantissa.toNat % 2^(t + 1) := by
    have hsub : ((1 <<< shift : UInt32) - 1).toNat = 2^(t + 1) - 1 := by
      rw [UInt32.toNat_sub_of_le _ _ (by
        rw [UInt32.le_iff_toNat_le,hone]
        exact Nat.one_le_two_pow),hone]
      rfl
    rw [UInt32.toNat_and,hsub,Nat.and_two_pow_sub_one_eq_mod]
  have hhalfway : (1 <<< (shift - 1) : UInt32).toNat = 2^t := by
    have hsub : (shift - 1).toNat = t := by
      rw [UInt32.toNat_sub_of_le _ _ (by
        rw [UInt32.le_iff_toNat_le]
        exact hpos),ht]
      rfl
    rw [UInt32.toNat_shiftLeft,hsub,Nat.mod_eq_of_lt (by omega : t < 32)]
    change 1 <<< t % 2^32 = _
    rw [Nat.shiftLeft_eq,Nat.one_mul,Nat.mod_eq_of_lt (by rw [Nat.pow_succ] at hpow; omega)]
  have hcarry := @roundsUp_iff (mantissa &&& ((1 <<< shift) - 1)) _ (mantissa >>> shift) _ hhalfway
  rw [hremainder,hquotient,← Nat.pow_succ'] at hcarry
  rw [roundShift,ht]
  by_cases hup : roundsUp (mantissa &&& ((1 <<< shift) - 1)) (1 <<< (shift - 1)) (mantissa >>> shift)
  · rw [if_pos hup,if_pos (hcarry.mp hup),UInt32.toNat_add,hquotient]
    have hle := Nat.div_le_self mantissa.toNat (2^(t + 1))
    change (mantissa.toNat / 2^(t + 1) + 1) % 2^32 = _
    omega
  · rw [if_neg hup,if_neg fun h => hup (hcarry.mpr h),hquotient]
    rfl

/-- The magnitude that exponent `e` and mantissa `m` are rounded to. -/
def halfMagnitude (e m : ℕ) : ℕ :=
  if e = 0 then 0
  else if e = 255 then 31 * 2^10 + if m ≠ 0 then 1 else 0
  else if 143 ≤ e then 31 * 2^10
  else if e < 102 then 0
  else if e ≤ 112 then roundShift (2^23 + m) (126 - e)
  else (e - 112) * 2^10 + roundShift m 13

theorem roundShift_le {mantissa shift bound : ℕ} (h : mantissa < bound * 2^shift) : roundShift mantissa shift ≤ bound := by
  have hdiv : mantissa / 2^shift < bound := Nat.div_lt_of_lt_mul (by rwa [Nat.mul_comm])
  rw [roundShift]
  split <;> omega

theorem toNat_half_exponent {e : ℕ} (he : e < 2^5) : (UInt16.ofNat e <<< 10).toNat = e * 2^10 := by
  rw [UInt16.toNat_shiftLeft,UInt16.toNat_ofNat']
  change (e % 2^16) <<< 10 % 2^16 = _
  rw [Nat.shiftLeft_eq]
  omega

theorem toNat_normal {s e : ℕ} {sign half : UInt16} (hs : sign.toNat = s * 2^15) (he : e < 2^5) (hh : half.toNat < 2^10) :
    (sign ||| (UInt16.ofNat e <<< 10) ||| half).toNat = s * 2^15 + (e * 2^10 + half.toNat) := by
  have hhigh := toNat_half_exponent he
  have hfirst : (sign ||| (UInt16.ofNat e <<< 10)).toNat = (s * 2^5 + e) * 2^10 := by
    rw [toNat_or hs (by omega),hhigh]
    ring
  rw [toNat_or hfirst hh]
  ring

theorem f32ToF16Bits_toNat (bits : UInt32) : (f32ToF16Bits bits).toNat =
    bits.toNat / 2^31 * 2^15 + halfMagnitude (bits.toNat / 2^23 % 2^8) (bits.toNat % 2^23) := by
  have hsign := toNat_sign bits
  have hexponent := toNat_exponent bits
  have hmantissa := toNat_mantissa bits
  simp only [f32ToF16Bits]
  generalize ((bits >>> 16) &&& 0x8000).toUInt16 = sign at hsign ⊢
  generalize (bits >>> 23) &&& 0xff = exponent at hexponent ⊢
  generalize bits &&& 0x7fffff = mantissa at hmantissa ⊢
  have hm : bits.toNat % 2^23 < 2^23 := Nat.mod_lt _ (by norm_num)
  have he : bits.toNat / 2^23 % 2^8 < 2^8 := Nat.mod_lt _ (by norm_num)
  generalize bits.toNat / 2^23 % 2^8 = e at *
  generalize bits.toNat % 2^23 = m at *
  generalize bits.toNat / 2^31 = s at *
  rw [halfMagnitude,hexponent]
  by_cases hzero : e = 0
  · rw [if_pos (by omega),if_pos hzero,hsign,Nat.add_zero]
  rw [if_neg (by omega),if_neg hzero]
  by_cases hspecial : e = 255
  · have hnan : mantissa ≠ 0 ↔ m ≠ 0 := by rw [Ne,← UInt32.toNat_inj,hmantissa]; rfl
    have hinf : (sign ||| 0x7c00).toNat = (s * 2^5 + 31) * 2^10 := by
      rw [toNat_or hsign (by decide)]
      change s * 2^15 + 31 * 2^10 = _
      ring
    have hbit : (if mantissa ≠ 0 then 1 else 0 : UInt16).toNat = if m ≠ 0 then 1 else 0 := by
      by_cases hne : m ≠ 0
      · rw [if_pos hne,if_pos (hnan.mpr hne)]
        rfl
      · rw [if_neg hne,if_neg fun h => hne (hnan.mp h)]
        rfl
    rw [if_pos (by omega),if_pos hspecial,toNat_or hinf (by rw [hbit]; split <;> norm_num),hbit]
    ring
  rw [if_neg (by omega),if_neg hspecial]
  by_cases hover : 143 ≤ e
  · rw [if_pos (by omega),if_pos hover,toNat_or hsign (by decide)]
    rfl
  rw [if_neg (by omega),if_neg hover]
  by_cases htiny : e < 102
  · rw [if_pos (by omega),if_pos (by omega),if_pos htiny,hsign,Nat.add_zero]
  by_cases hsub : e ≤ 112
  · have hhidden : (mantissa ||| 0x800000).toNat = 2^23 + m := by
      rw [UInt32.or_comm,toNat_or_wide (by decide : (0x800000 : UInt32).toNat = 1 * 2^23) (hmantissa ▸ hm),hmantissa,
        Nat.one_mul]
    have hshift : (UInt32.ofNat (14 - ((e : ℤ) - 127 + 15)).toNat).toNat = 126 - e := by
      rw [UInt32.toNat_ofNat']
      omega
    have hround := @roundShift_toNat (mantissa ||| 0x800000) (UInt32.ofNat (14 - ((e : ℤ) - 127 + 15)).toNat)
      (by omega) (by omega) (by omega)
    rw [hhidden,hshift] at hround
    have hwide : 2^14 ≤ 2^(126 - e) := Nat.pow_le_pow_right (by norm_num) (by omega)
    have hbound := @roundShift_le (2^23 + m) (126 - e) (2^10) (by omega)
    rw [if_pos (by omega),if_neg (by omega),if_neg htiny,if_pos hsub,
      toNat_or hsign (by rw [UInt32.toNat_toUInt16,hround]; omega),UInt32.toNat_toUInt16,hround,
      Nat.mod_eq_of_lt (by omega)]
  · have hround := @roundShift_toNat mantissa 13 (by omega) (by decide) (by decide)
    rw [hmantissa] at hround
    change (if roundsUp (mantissa &&& 0x1fff) 0x1000 (mantissa >>> 13) then (mantissa >>> 13) + 1
      else mantissa >>> 13).toNat = roundShift m 13 at hround
    have hbound := @roundShift_le m 13 (2^10) (by omega)
    have hhalf : ((e : ℤ) - 127 + 15).toNat = e - 112 := by omega
    have hnext : ((e : ℤ) - 127 + 15 + 1).toNat = e - 111 := by omega
    rw [if_neg (by omega),if_neg htiny,if_neg hsub,hhalf,hnext]
    by_cases hup : roundsUp (mantissa &&& 0x1fff) 0x1000 (mantissa >>> 13)
    · rw [if_pos hup] at hround ⊢
      by_cases hcarry : (mantissa >>> 13) + 1 = 0x400
      · -- the mantissa has run over into the exponent
        have hfull : roundShift m 13 = 2^10 := by
          rw [← hround,hcarry]
          rfl
        rw [if_pos hcarry,hfull]
        by_cases hlast : 31 ≤ (e : ℤ) - 127 + 15 + 1
        · have heq : e = 142 := by omega
          rw [if_pos hlast,toNat_or hsign (by decide),heq]
          rfl
        · have hexp := @toNat_half_exponent (e - 111) (by omega)
          rw [if_neg hlast,toNat_or hsign (by omega),hexp]
          omega
      · have hlt : roundShift m 13 < 2^10 := by
          refine lt_of_le_of_ne hbound fun heq => hcarry (UInt32.toNat_inj.mp ?_)
          rw [hround,heq]
          rfl
        have htrunc : ((mantissa >>> 13) + 1).toUInt16.toNat = roundShift m 13 := by
          rw [UInt32.toNat_toUInt16,hround,Nat.mod_eq_of_lt (by omega)]
        rw [if_neg hcarry,toNat_normal hsign (by omega) (by omega),htrunc]
    · rw [if_neg hup] at hround ⊢
      have hlt : roundShift m 13 < 2^10 := by
        rw [← hround,UInt32.toNat_shiftRight,hmantissa]
        change m >>> 13 < 2^10
        rw [Nat.shiftRight_eq_div_pow]
        omega
      have htrunc : (mantissa >>> 13).toUInt16.toNat = roundShift m 13 := by
        rw [UInt32.toNat_toUInt16,hround,Nat.mod_eq_of_lt (by omega)]
      rw [toNat_normal hsign (by omega) (by omega),htrunc]

section Nearest

theorem f16_scaled_low {k : ℕ} (h : k ≤ 2^10) : f16.scaled 125 k = 2^125 * (k : ℤ) := by
  rw [FloatFormat.scaled]
  change ((2^125 * grid 10 k : ℕ) : ℤ) = _
  rw [grid_of_le h]
  push_cast
  rfl

theorem f16_scaled_normal {e m : ℕ} (hm : m < 2^10) :
    f16.scaled 125 ((e + 1) * 2^10 + m) = (2^10 + m : ℤ) * 2^(125 + e) := by
  rw [FloatFormat.scaled]
  change ((2^125 * grid 10 ((e + 1) * 2^10 + m) : ℕ) : ℤ) = _
  rw [grid_normal hm,pow_add]
  push_cast
  ring

theorem f16_scaled_top : f16.scaled 125 f16.top = 2^165 := by
  change f16.scaled 125 ((30 + 1) * 2^10 + 0) = _
  rw [f16_scaled_normal (by norm_num)]
  norm_num

/-- Half of the least subnormal and less is rounded to zero. -/
theorem nearest_zero {X : ℕ} (h : X < 2^124) : IsNearest (f16.scaled 125) X 0 := by
  have hzero := @f16_scaled_low 0 (by norm_num)
  have hone := @f16_scaled_low 1 (by norm_num)
  refine isNearest_of_floor (f16.scaled_strictMono 125) ?_ ?_ (.inr ⟨?_,rfl⟩)
  · omega
  · rw [Nat.zero_add]
    omega
  · rw [Nat.zero_add]
    omega

/-- The subnormal results lie on an even grid. -/
theorem nearest_subnormal {e m : ℕ} (hm : m < 2^23) (hlow : 102 ≤ e) (hhigh : e ≤ 112) :
    IsNearest (f16.scaled 125) ((2^23 + m) * 2^(e - 1) : ℕ) (roundShift (2^23 + m) (126 - e)) := by
  have hpow : (2 : ℤ)^125 = 2^(126 - e) * 2^(e - 1) := by
    rw [← pow_add]
    congr 1
    omega
  have hwide : 2^14 ≤ 2^(126 - e) := Nat.pow_le_pow_right (by norm_num) (by omega)
  have hdiv : (2^23 + m) / 2^(126 - e) < 2^10 := by
    refine Nat.div_lt_of_lt_mul ?_
    calc 2^23 + m < 2^14 * 2^10 := by omega
      _ ≤ 2^(126 - e) * 2^10 := Nat.mul_le_mul_right _ hwide
  have hsplit := Nat.div_add_mod (2^23 + m) (2^(126 - e))
  have hnear := @isNearest_of_linear _ (f16.scaled_strictMono 125) ((2^23 + m) / 2^(126 - e))
    ((2^23 + m) % 2^(126 - e)) (2^(126 - e)) _ (2^(e - 1)) (by positivity) (f16_scaled_low hdiv.le) (by
      rw [f16_scaled_low hdiv,hpow]
      push_cast
      ring) (Nat.mod_lt _ (by positivity)).le
  have hvalue : 2^125 * (((2^23 + m) / 2^(126 - e) : ℕ) : ℤ) + ((2^23 + m) % 2^(126 - e) : ℕ) * 2^(e - 1) =
      ((2^23 + m) * 2^(e - 1) : ℕ) := by
    have hcast : ((2^(126 - e) * ((2^23 + m) / 2^(126 - e)) + (2^23 + m) % 2^(126 - e) : ℕ) : ℤ) = (2^23 + m : ℕ) := by
      exact_mod_cast hsplit
    rw [Nat.cast_mul,← hcast,hpow]
    push_cast
    ring
  rw [hvalue] at hnear
  exact hnear

/-- Among the normal results the mantissa loses its last thirteen bits. -/
theorem nearest_normal {e m : ℕ} (hm : m < 2^23) (hlow : 113 ≤ e) :
    IsNearest (f16.scaled 125) ((2^23 + m) * 2^(e - 1) : ℕ) ((e - 112) * 2^10 + roundShift m 13) := by
  obtain ⟨d,rfl⟩ : ∃ d, e = d + 113 := ⟨e - 113,by omega⟩
  have hexp : d + 113 - 112 = d + 1 := by omega
  have hdiv : m / 2^13 < 2^10 := by omega
  have hfloor : f16.scaled 125 ((d + 1) * 2^10 + m / 2^13) = (2^10 + (m / 2^13 : ℕ) : ℤ) * 2^(125 + d) :=
    f16_scaled_normal hdiv
  have hceil : f16.scaled 125 ((d + 1) * 2^10 + m / 2^13 + 1) =
      (2^10 + (m / 2^13 : ℕ) : ℤ) * 2^(125 + d) + (2^13 : ℕ) * 2^(112 + d) := by
    have hstep : (2 : ℤ)^(125 + d) = 2^13 * 2^(112 + d) := by
      rw [← pow_add]
      congr 1
      omega
    rcases Nat.lt_or_ge (m / 2^13 + 1) (2^10) with hnext | hlast
    · rw [Nat.add_assoc,f16_scaled_normal hnext]
      push_cast
      rw [hstep]
      ring
    · have hfull : m / 2^13 = 2^10 - 1 := by omega
      have hcarry : (d + 1) * 2^10 + m / 2^13 + 1 = (d + 1 + 1) * 2^10 + 0 := by
        rw [hfull]
        ring
      rw [hcarry,f16_scaled_normal (by norm_num),hfull,← Nat.add_assoc,pow_succ]
      push_cast
      rw [hstep]
      ring
  have hnear := isNearest_of_linear (f16.scaled_strictMono 125) (by positivity) hfloor hceil
    (Nat.mod_lt m (by norm_num)).le
  have hparity : ((d + 1) * 2^10 + m / 2^13) % 2 = m / 2^13 % 2 := by omega
  have hvalue : (2^10 + (m / 2^13 : ℕ) : ℤ) * 2^(125 + d) + (m % 2^13 : ℕ) * 2^(112 + d) =
      ((2^23 + m) * 2^(d + 113 - 1) : ℕ) := by
    have hcast : ((2^13 * (m / 2^13) + m % 2^13 : ℕ) : ℤ) = m := by exact_mod_cast Nat.div_add_mod m (2^13)
    have hshift : d + 113 - 1 = 112 + d := by omega
    have hstep : (2 : ℤ)^(125 + d) = 2^13 * 2^(112 + d) := by
      rw [← pow_add]
      congr 1
      omega
    rw [hshift,hstep]
    push_cast at hcast ⊢
    linear_combination (2 : ℤ)^(112 + d) * hcast
  rw [hvalue,hparity] at hnear
  rw [hexp,roundShift,← Nat.add_assoc]
  exact hnear

theorem halfMagnitude_le {e m : ℕ} (hm : m < 2^23) (hnum : e < 255 ∨ e = 255 ∧ m = 0) : halfMagnitude e m ≤ 31 * 2^10 := by
  have hlow : 102 ≤ e → e ≤ 112 → roundShift (2^23 + m) (126 - e) ≤ 2^10 := fun _ _ => by
    refine roundShift_le ?_
    have hwide : 2^14 ≤ 2^(126 - e) := Nat.pow_le_pow_right (by norm_num) (by omega)
    omega
  have hhigh : roundShift m 13 ≤ 2^10 := roundShift_le (by omega)
  unfold halfMagnitude
  split_ifs <;> omega

theorem halfMagnitude_lt {e m : ℕ} (hm : m < 2^23) : halfMagnitude e m < 2^15 := by
  by_cases hnum : e < 255 ∨ e = 255 ∧ m = 0
  · have hle := halfMagnitude_le hm hnum
    omega
  · rw [halfMagnitude]
    split_ifs <;> omega

/-- The rounded magnitude is nearest, or the value lies on or beyond the magnitude of infinity. -/
theorem half_nearest {e m : ℕ} (hm : m < 2^23) (hnum : e < 255 ∨ e = 255 ∧ m = 0) :
    IsNearest (f16.scaled 125) (grid 23 (e * 2^23 + m)) (halfMagnitude e m) ∨
      halfMagnitude e m = f16.top ∧ f16.scaled 125 f16.top ≤ (grid 23 (e * 2^23 + m) : ℤ) := by
  unfold halfMagnitude
  by_cases hzero : e = 0
  · rw [if_pos hzero,hzero,Nat.zero_mul,Nat.zero_add,grid_of_lt hm]
    exact .inl (nearest_zero (by omega))
  obtain ⟨d,rfl⟩ : ∃ d, e = d + 1 := ⟨e - 1,by omega⟩
  rw [if_neg hzero,grid_normal hm]
  have hbeyond : 142 ≤ d → f16.scaled 125 f16.top ≤ (((2^23 + m) * 2^d : ℕ) : ℤ) := fun hd => by
    have hpow : 2^142 ≤ 2^d := Nat.pow_le_pow_right (by norm_num) hd
    have hle : 2^23 * 2^142 ≤ (2^23 + m) * 2^d := Nat.mul_le_mul (by omega) hpow
    rw [f16_scaled_top]
    exact_mod_cast hle
  by_cases hspecial : d + 1 = 255
  · have hm0 : m = 0 := by omega
    rw [if_pos hspecial,if_neg (not_not.mpr hm0)]
    exact .inr ⟨rfl,hbeyond (by omega)⟩
  rw [if_neg hspecial]
  by_cases hover : 143 ≤ d + 1
  · rw [if_pos hover]
    exact .inr ⟨rfl,hbeyond (by omega)⟩
  rw [if_neg hover]
  left
  by_cases htiny : d + 1 < 102
  · have hpow : 2^d ≤ 2^100 := Nat.pow_le_pow_right (by norm_num) (by omega)
    have hlt : (2^23 + m) * 2^d < 2^24 * 2^100 :=
      (Nat.mul_le_mul_left _ hpow).trans_lt (Nat.mul_lt_mul_of_pos_right (by omega) (by norm_num))
    rw [if_pos htiny]
    exact nearest_zero (by omega)
  rw [if_neg htiny]
  by_cases hsub : d + 1 ≤ 112
  · rw [if_pos hsub]
    have hnear := @nearest_subnormal (d + 1) m hm (by omega) hsub
    rw [Nat.add_sub_cancel] at hnear
    exact hnear
  · rw [if_neg hsub]
    have hnear := @nearest_normal (d + 1) m hm (by omega)
    rw [Nat.add_sub_cancel] at hnear
    exact hnear

end Nearest

section Patterns

/-- The magnitude of a value as the conversion sees it, and its rounded one. -/
def toHalf (k : ℕ) : ℕ := halfMagnitude (k / 2^23) (k % 2^23)

theorem magnitude_split (bits : UInt32) : f32.magnitude bits.toNat / 2^23 = bits.toNat / 2^23 % 2^8 ∧
    f32.magnitude bits.toNat % 2^23 = bits.toNat % 2^23 := by
  unfold FloatFormat.magnitude
  change bits.toNat % 2^31 / 2^23 = _ ∧ bits.toNat % 2^31 % 2^23 = _
  omega

theorem f32ToF16Bits_eq (bits : UInt32) :
    (f32ToF16Bits bits).toNat = bits.toNat / 2^31 * 2^15 + toHalf (f32.magnitude bits.toNat) := by
  rw [f32ToF16Bits_toNat,toHalf,(magnitude_split bits).1,(magnitude_split bits).2]

theorem toHalf_lt (k : ℕ) : toHalf k < 2^15 := halfMagnitude_lt (Nat.mod_lt _ (by norm_num))

theorem f32ToF16Bits_magnitude (bits : UInt32) : f16.magnitude (f32ToF16Bits bits).toNat = toHalf (f32.magnitude bits.toNat) := by
  have hlt := toHalf_lt (f32.magnitude bits.toNat)
  rw [f32ToF16Bits_eq]
  change (_ + _) % 2^15 = _
  omega

theorem f32ToF16Bits_sign (bits : UInt32) : f16.negative (f32ToF16Bits bits).toNat = f32.negative bits.toNat := by
  have hlt := toHalf_lt (f32.magnitude bits.toNat)
  have hdiv : (f32ToF16Bits bits).toNat / 2^15 = bits.toNat / 2^31 := by
    rw [f32ToF16Bits_eq]
    omega
  unfold FloatFormat.negative
  change ((f32ToF16Bits bits).toNat / 2^15 % 2 == 1) = (bits.toNat / 2^31 % 2 == 1)
  rw [hdiv]

theorem number_of_le {k : ℕ} (hk : k ≤ f32.top) : k / 2^23 < 255 ∨ k / 2^23 = 255 ∧ k % 2^23 = 0 := by
  change k ≤ 255 * 2^23 at hk
  omega

theorem toHalf_le {k : ℕ} (hk : k ≤ f32.top) : toHalf k ≤ f16.top :=
  halfMagnitude_le (Nat.mod_lt _ (by norm_num)) (number_of_le hk)

theorem toHalf_nearest {k : ℕ} (hk : k ≤ f32.top) : IsNearest (f16.scaled 125) (grid 23 k) (toHalf k) ∨
    toHalf k = f16.top ∧ f16.scaled 125 f16.top ≤ (grid 23 k : ℤ) := by
  have hnear := half_nearest (Nat.mod_lt k (by norm_num : 0 < 2^23)) (number_of_le hk)
  rwa [Nat.div_add_mod'] at hnear

theorem f32_value (bits : ℕ) : f32.value bits = f32.signOf bits * (grid 23 (f32.magnitude bits) : ℕ) * (f16.unit / 2^125) := by
  have hunit : f32.unit = f16.unit / 2^125 := by
    unfold FloatFormat.unit f32 f16
    norm_num
  rw [FloatFormat.value,hunit]
  rfl

theorem f32ToF16Bits_rounds (bits : UInt32) (h : f32.IsFinite bits.toNat) :
    f16.RoundsTo (f32.value bits.toNat) (f32ToF16Bits bits).toNat := by
  have hk : f32.magnitude bits.toNat ≤ f32.top := h.le
  have hmag := f32ToF16Bits_magnitude bits
  have hsign : f16.signOf (f32ToF16Bits bits).toNat = f32.signOf bits.toNat := by
    rw [FloatFormat.signOf,FloatFormat.signOf,f32ToF16Bits_sign]
  rcases toHalf_nearest hk with hnear | ⟨htop,hbeyond⟩
  · refine FloatFormat.roundsTo_of_nearest (by decide) (by decide) hsign (f32_value _) hmag (toHalf_le hk) ?_ hnear
    rw [f32ToF16Bits_eq]
    omega
  · exact FloatFormat.roundsTo_of_beyond (by decide) (f32.signOf_cases _) (f32_value _) (hmag.trans htop) hbeyond

/-- Of two magnitudes the greater one is not rounded to a lesser one. -/
theorem toHalf_mono {i j : ℕ} (hij : i ≤ j) (hj : j ≤ f32.top) : toHalf i ≤ toHalf j := by
  rcases Nat.eq_or_lt_of_le hij with rfl | hlt
  · exact le_rfl
  have hmono := f16.scaled_strictMono 125
  have hgrid : (grid 23 i : ℤ) < grid 23 j := by exact_mod_cast grid_strictMono 23 hlt
  rcases toHalf_nearest hj with hnear | ⟨htop,-⟩
  · rcases toHalf_nearest (hij.trans hj) with hnear' | ⟨htop',hbeyond⟩
    · exact hnear'.le_of_lt hmono hnear hgrid
    · by_contra hgt
      have hdist := (upper_nearer (hmono (not_le.mp hgt))).mpr (by
        have hbelow := hmono (not_le.mp hgt)
        rw [htop'] at hbelow ⊢
        omega : _ ≤ 2 * (grid 23 j : ℤ))
      have hle := (lower_nearer (hmono (not_le.mp hgt))).mp (hnear _).1
      have hbelow := hmono (not_le.mp hgt)
      rw [htop'] at hbelow hle
      omega
  · rw [htop]
    exact toHalf_le (hij.trans hj)

theorem f32ToF16Bits_mono {a b : UInt32} (h : f32.Le a.toNat b.toNat) :
    f16.Le (f32ToF16Bits a).toNat (f32ToF16Bits b).toNat :=
  FloatFormat.Le.convert (by decide) (by decide) (by decide) (fun _ _ => toHalf_mono) (toHalf_le le_rfl) h
    (f32ToF16Bits_sign a) (f32ToF16Bits_sign b) (f32ToF16Bits_magnitude a) (f32ToF16Bits_magnitude b)

theorem f32ToF16Bits_nan {bits : UInt32} (h : f32.IsNaN bits.toNat) : f16.IsNaN (f32ToF16Bits bits).toNat := by
  have hlt : f32.magnitude bits.toNat < 2^31 := Nat.mod_lt _ (by decide)
  have hgt : 255 * 2^23 < f32.magnitude bits.toNat := h
  unfold FloatFormat.IsNaN
  rw [f32ToF16Bits_magnitude,toHalf,halfMagnitude,if_neg (by omega),if_pos (by omega),if_pos (by omega)]
  decide

theorem f32ToF16Bits_infinite {bits : UInt32} (h : f32.IsInfinite bits.toNat) :
    f16.IsInfinite (f32ToF16Bits bits).toNat := by
  unfold FloatFormat.IsInfinite at h ⊢
  rw [f32ToF16Bits_magnitude,h]
  decide

end Patterns

section Widening

theorem hidden_bit_set {mantissa : UInt32} (hbit : ¬ mantissa &&& 0x400 = 0) : 2^10 ≤ mantissa.toNat := by
  have hand : ¬ mantissa.toNat &&& 2^10 = 0 := fun h => hbit (UInt32.toNat_inj.mp h)
  rw [Nat.and_two_pow,mul_eq_zero,or_iff_left (by norm_num)] at hand
  have htest : mantissa.toNat.testBit 10 = true := by simpa using hand
  exact Nat.ge_two_pow_of_testBit htest

/-- Every shift doubles the mantissa and lowers the exponent. -/
theorem normalize_spec (mantissa : UInt32) (exponent : ℤ) (h : 0 < mantissa.toNat ∧ mantissa.toNat < 2^11) :
    ∃ d : ℕ, (normalize mantissa exponent h).1.toNat = mantissa.toNat * 2^d ∧
      (normalize mantissa exponent h).2 = exponent - d ∧ 2^10 ≤ (normalize mantissa exponent h).1.toNat ∧
      (normalize mantissa exponent h).1.toNat < 2^11 := by
  fun_induction normalize mantissa exponent h with
  | case1 mantissa exponent h hbit ih =>
    obtain ⟨d,hm,he,hlow,hhigh⟩ := ih
    rw [toNat_shiftLeft_one (hidden_bit_clear h hbit)] at hm
    refine ⟨d + 1,?_,?_,hlow,hhigh⟩
    · rw [hm]
      ring
    · rw [he]
      push_cast
      ring
  | case2 mantissa exponent h hbit => exact ⟨0,by simp,by simp,hidden_bit_set hbit,h.2⟩

theorem toNat_half_sign (bits : UInt16) : ((bits &&& 0x8000).toUInt32 <<< 16).toNat = bits.toNat / 2^15 * 2^31 := by
  have hbits : bits.toNat < 2^16 := bits.toNat_lt
  rw [UInt32.toNat_shiftLeft,UInt16.toNat_toUInt32,UInt16.toNat_and]
  change (bits.toNat &&& 2^15) <<< 16 % 2^32 = _
  rw [top_bit (by omega),Nat.shiftLeft_eq]
  omega

theorem toNat_half_exponent_field (bits : UInt16) : ((bits >>> 10) &&& 0x1f).toNat = bits.toNat / 2^10 % 2^5 := by
  rw [UInt16.toNat_and,UInt16.toNat_shiftRight]
  change bits.toNat >>> 10 &&& (2^5 - 1) = _
  rw [Nat.and_two_pow_sub_one_eq_mod,Nat.shiftRight_eq_div_pow]

theorem toNat_wide_normal {s : ℕ} {sign exponent mantissa : UInt32} (hs : sign.toNat = s * 2^31)
    (he : exponent.toNat < 2^8) (hm : mantissa.toNat < 2^10) :
    (sign ||| (exponent <<< 23) ||| (mantissa <<< 13)).toNat = s * 2^31 + (exponent.toNat * 2^23 + mantissa.toNat * 2^13) := by
  have hexponent : (exponent <<< 23).toNat = exponent.toNat * 2^23 := by
    rw [UInt32.toNat_shiftLeft]
    change exponent.toNat <<< 23 % 2^32 = _
    rw [Nat.shiftLeft_eq]
    omega
  have hmantissa : (mantissa <<< 13).toNat = mantissa.toNat * 2^13 := by
    rw [UInt32.toNat_shiftLeft]
    change mantissa.toNat <<< 13 % 2^32 = _
    rw [Nat.shiftLeft_eq]
    omega
  have hfirst : (sign ||| (exponent <<< 23)).toNat = (s * 2^8 + exponent.toNat) * 2^23 := by
    rw [toNat_or_wide hs (by omega),hexponent]
    ring
  rw [toNat_or_wide hfirst (by omega),hmantissa]
  ring

theorem normal_lt_top {e m : ℕ} (he : e < 254) (hm : m < 2^23) : (e + 1) * 2^23 + m < 255 * 2^23 := by
  omega

/-- The shifted mantissa of a subnormal under its lowered exponent has the same value. -/
theorem widen_subnormal {s : ℕ} {sign mantissa : UInt32} (hs : sign.toNat = s * 2^31)
    (h : 0 < mantissa.toNat ∧ mantissa.toNat < 2^11) :
    ∃ k, (sign ||| (UInt32.ofNat ((normalize mantissa (-14) h).2 + 127).toNat <<< 23) |||
      (((normalize mantissa (-14) h).1 &&& 0x3ff) <<< 13)).toNat = s * 2^31 + k ∧ k < 255 * 2^23 ∧
        grid 23 k = 2^125 * mantissa.toNat := by
  obtain ⟨d,hm',he',hlow,hhigh⟩ := normalize_spec mantissa (-14) h
  generalize (normalize mantissa (-14) h).1 = mantissa' at *
  generalize (normalize mantissa (-14) h).2 = exponent' at *
  have hd : d ≤ 10 := by
    by_contra hgt
    have hpow : 2^11 ≤ 2^d := Nat.pow_le_pow_right (by norm_num) (by omega)
    have hle : 1 * 2^11 ≤ mantissa.toNat * 2^d := Nat.mul_le_mul h.1 hpow
    omega
  have hbelow : (mantissa'.toNat - 2^10) * 2^13 < 2^23 := by omega
  have hbound := @normal_lt_top (112 - d) _ (by omega) hbelow
  have hexp : (UInt32.ofNat (exponent' + 127).toNat).toNat = 113 - d := by
    rw [UInt32.toNat_ofNat']
    omega
  have hman : (mantissa' &&& 0x3ff).toNat = mantissa'.toNat - 2^10 := by
    rw [UInt32.toNat_and]
    change mantissa'.toNat &&& (2^10 - 1) = _
    rw [Nat.and_two_pow_sub_one_eq_mod]
    omega
  refine ⟨(112 - d + 1) * 2^23 + (mantissa'.toNat - 2^10) * 2^13,?_,hbound,?_⟩
  · have hsucc : 112 - d + 1 = 113 - d := by omega
    rw [toNat_wide_normal hs (by omega) (by omega),hexp,hman,hsucc]
  · have hfull : 2^23 + (mantissa'.toNat - 2^10) * 2^13 = mantissa'.toNat * 2^13 := by omega
    have hexponents : d + 13 + (112 - d) = 125 := by omega
    have hpow : 2^d * 2^13 * 2^(112 - d) = 2^125 := by rw [← pow_add,← pow_add,hexponents]
    rw [grid_normal hbelow,hfull,hm',← hpow]
    ring

/-- A binary16 pattern is widened to the pattern of the same value. -/
theorem f16BitsToF32_toNat (bits : UInt16) : ∃ k, (f16BitsToF32 bits).toNat = bits.toNat / 2^15 * 2^31 + k ∧
    (f16.IsFinite bits.toNat → k < f32.top ∧ grid 23 k = 2^125 * grid 10 (f16.magnitude bits.toNat)) ∧
    (f16.IsInfinite bits.toNat → k = f32.top) ∧ k < 2^31 := by
  have hsign := toNat_half_sign bits
  have hexponent := toNat_half_exponent_field bits
  have hmantissa := toNat_half_mantissa bits
  have hmag : f16.magnitude bits.toNat = bits.toNat / 2^10 % 2^5 * 2^10 + bits.toNat % 2^10 := by
    change bits.toNat % 2^15 = _
    omega
  have hm : bits.toNat % 2^10 < 2^10 := Nat.mod_lt _ (by norm_num)
  have he : bits.toNat / 2^10 % 2^5 < 2^5 := Nat.mod_lt _ (by norm_num)
  unfold FloatFormat.IsFinite FloatFormat.IsInfinite
  change ∃ k, _ ∧ (_ < 31 * 2^10 → k < 255 * 2^23 ∧ _) ∧ (_ = 31 * 2^10 → k = 255 * 2^23) ∧ _
  rw [hmag]
  simp only [f16BitsToF32]
  generalize (bits &&& 0x8000).toUInt32 <<< 16 = sign at hsign ⊢
  generalize (bits >>> 10) &&& 0x1f = exponent at hexponent ⊢
  generalize bits.toNat / 2^10 % 2^5 = e at *
  generalize bits.toNat % 2^10 = m at *
  generalize bits.toNat / 2^15 = s at *
  have hexp0 : exponent = 0 ↔ e = 0 := by rw [← UInt16.toNat_inj,hexponent]; rfl
  have hexp31 : exponent = 0x1f ↔ e = 31 := by rw [← UInt16.toNat_inj,hexponent]; rfl
  have hman0 : (bits &&& 0x3ff).toUInt32 = 0 ↔ m = 0 := by rw [← UInt32.toNat_inj,hmantissa]; rfl
  by_cases hzero : e = 0
  · rw [if_pos (hexp0.mpr hzero),hzero,Nat.zero_mul,Nat.zero_add,grid_of_lt hm]
    by_cases hnil : m = 0
    · rw [dif_pos (hman0.mpr hnil),hsign,hnil]
      exact ⟨0,(Nat.add_zero _).symm,fun _ => ⟨by norm_num,grid_of_lt (by norm_num)⟩,fun h => by omega,by norm_num⟩
    · rw [dif_neg fun h => hnil (hman0.mp h)]
      have hbounds : 0 < (bits &&& 0x3ff).toUInt32.toNat ∧ (bits &&& 0x3ff).toUInt32.toNat < 2^11 := by
        rw [hmantissa]
        omega
      obtain ⟨k,hk,hlt,hgrid⟩ := widen_subnormal hsign hbounds
      rw [hmantissa] at hgrid
      exact ⟨k,hk,fun _ => ⟨hlt,hgrid⟩,fun h => by omega,by omega⟩
  rw [if_neg fun h => hzero (hexp0.mp h)]
  by_cases hspecial : e = 31
  · rw [if_pos (hexp31.mpr hspecial),hspecial]
    have hshift : ((bits &&& 0x3ff).toUInt32 <<< 13).toNat = m * 2^13 := by
      rw [UInt32.toNat_shiftLeft,hmantissa]
      change m <<< 13 % 2^32 = _
      rw [Nat.shiftLeft_eq]
      omega
    have hinf : (sign ||| (0x7f800000 : UInt32)).toNat = (s * 2^8 + 255) * 2^23 := by
      rw [toNat_or_wide hsign (by decide)]
      change s * 2^31 + 255 * 2^23 = _
      ring
    refine ⟨255 * 2^23 + m * 2^13,?_,fun h => by omega,fun h => by omega,by omega⟩
    rw [toNat_or_wide hinf (by omega),hshift]
    ring
  · rw [if_neg fun h => hspecial (hexp31.mp h)]
    obtain ⟨d,rfl⟩ : ∃ d, e = d + 1 := ⟨e - 1,by omega⟩
    have hbelow : m * 2^13 < 2^23 := by omega
    have hbound := @normal_lt_top (d + 112) _ (by omega) hbelow
    have hbeyond : ¬ (d + 1) * 2^10 + m = 31 * 2^10 := by omega
    have hexp : (exponent.toUInt32 + 112).toNat = d + 112 + 1 := by
      rw [UInt32.toNat_add,UInt16.toNat_toUInt32,hexponent]
      change (d + 1 + 112) % 2^32 = _
      omega
    refine ⟨(d + 112 + 1) * 2^23 + m * 2^13,?_,fun _ => ⟨hbound,?_⟩,fun h => absurd h hbeyond,
      hbound.trans (by norm_num)⟩
    · rw [toNat_wide_normal hsign (by omega) (by omega),hexp,hmantissa]
    · have hfull : 2^23 + m * 2^13 = (2^10 + m) * 2^13 := by ring
      rw [grid_normal hbelow,grid_normal hm,hfull,pow_add]
      ring

theorem f16BitsToF32_sign (half : UInt16) : f32.negative (f16BitsToF32 half).toNat = f16.negative half.toNat := by
  obtain ⟨k,hk,-,-,hlt⟩ := f16BitsToF32_toNat half
  have hdiv : (f16BitsToF32 half).toNat / 2^31 = half.toNat / 2^15 := by omega
  unfold FloatFormat.negative
  change ((f16BitsToF32 half).toNat / 2^31 % 2 == 1) = (half.toNat / 2^15 % 2 == 1)
  rw [hdiv]

theorem f16BitsToF32_exact {half : UInt16} (h : f16.IsFinite half.toNat) :
    f32.IsFinite (f16BitsToF32 half).toNat ∧ f32.value (f16BitsToF32 half).toNat = f16.value half.toNat := by
  obtain ⟨k,hk,hfinite,-,hlt⟩ := f16BitsToF32_toNat half
  obtain ⟨htop,hgrid⟩ := hfinite h
  have hmag : f32.magnitude (f16BitsToF32 half).toNat = k := by
    change (f16BitsToF32 half).toNat % 2^31 = k
    omega
  refine ⟨hmag.trans_lt htop,?_⟩
  rw [f32_value,FloatFormat.value,FloatFormat.signOf,FloatFormat.signOf,f16BitsToF32_sign,hmag,hgrid]
  change _ * ((2^125 * grid 10 (f16.magnitude half.toNat) : ℕ) : ℚ) * _ = _ * (grid 10 (f16.magnitude half.toNat) : ℚ) * _
  push_cast
  field_simp
  ring

theorem f32ToF16Bits_f16BitsToF32 {half : UInt16} (h : ¬ f16.IsNaN half.toNat) :
    f32ToF16Bits (f16BitsToF32 half) = half := by
  obtain ⟨k,hk,hfinite,hinfinite,hlt⟩ := f16BitsToF32_toNat half
  have hmag : f32.magnitude (f16BitsToF32 half).toNat = k := by
    change (f16BitsToF32 half).toNat % 2^31 = k
    omega
  have hsplit : half.toNat = half.toNat / 2^15 * 2^15 + f16.magnitude half.toNat := (Nat.div_add_mod' _ _).symm
  have hback : toHalf k = f16.magnitude half.toNat := by
    rcases Nat.eq_or_lt_of_le (not_lt.mp h) with htop | hbelow
    · rw [hinfinite htop,htop]
      decide
    · obtain ⟨hk32,hgrid⟩ := hfinite hbelow
      have hon : (grid 23 k : ℤ) = f16.scaled 125 (f16.magnitude half.toNat) := by
        rw [hgrid]
        rfl
      have hmono := f16.scaled_strictMono 125
      rcases toHalf_nearest hk32.le with hnear | ⟨-,hbeyond⟩
      · rw [hon] at hnear
        exact hnear.eq_of_mem hmono
      · rw [hon] at hbeyond
        exact absurd (hmono hbelow) (not_lt.mpr hbeyond)
  refine UInt16.toNat_inj.mp ?_
  have hdiv : (f16BitsToF32 half).toNat / 2^31 = half.toNat / 2^15 := by omega
  rw [f32ToF16Bits_eq,hmag,hback,hdiv]
  exact hsplit.symm

end Widening

section Bfloat

theorem f32ToBf16Bits_toNat {bits : UInt32} (h : f32.IsFinite bits.toNat) :
    (f32ToBf16Bits bits).toNat = bits.toNat / 2^31 * 2^15 + (f32.magnitude bits.toNat / 2^16 +
      if 2^16 < 2 * (f32.magnitude bits.toNat % 2^16) ∨
        2^16 = 2 * (f32.magnitude bits.toNat % 2^16) ∧ f32.magnitude bits.toNat / 2^16 % 2 = 1 then 1 else 0) := by
  have hbits : bits.toNat < 2^32 := bits.toNat_lt
  have hlsb : ((bits >>> 16) &&& 1).toNat = bits.toNat / 2^16 % 2 := by
    rw [UInt32.toNat_and,UInt32.toNat_shiftRight]
    change bits.toNat >>> 16 &&& (2^1 - 1) = _
    rw [Nat.and_two_pow_sub_one_eq_mod,Nat.shiftRight_eq_div_pow]
  have htop : bits.toNat % 2^31 < 255 * 2^23 := h
  have hround : ((0x7fff : UInt32) + ((bits >>> 16) &&& 1)).toNat = 0x7fff + bits.toNat / 2^16 % 2 := by
    rw [UInt32.toNat_add,hlsb]
    change (0x7fff + bits.toNat / 2^16 % 2) % 2^32 = _
    omega
  unfold f32ToBf16Bits
  rw [UInt32.toNat_toUInt16,UInt32.toNat_shiftRight,UInt32.toNat_add,hround]
  change ((bits.toNat + (0x7fff + bits.toNat / 2^16 % 2)) % 2^32) >>> 16 % 2^16 = _
  rw [Nat.shiftRight_eq_div_pow]
  have hmagnitude : f32.magnitude bits.toNat = bits.toNat % 2^31 := rfl
  have hlow : bits.toNat % 2^31 % 2^16 < 2^16 := Nat.mod_lt _ (by norm_num)
  have hwhole : bits.toNat = bits.toNat / 2^31 * 2^31 + (bits.toNat % 2^31 / 2^16 * 2^16 + bits.toNat % 2^31 % 2^16) := by
    omega
  have hparity : bits.toNat / 2^16 % 2 = bits.toNat % 2^31 / 2^16 % 2 := by omega
  have hsum : bits.toNat + (0x7fff + bits.toNat / 2^16 % 2) < 2^32 := by omega
  have hhigh : bits.toNat % 2^31 / 2^16 < 255 * 2^7 := by omega
  rw [hmagnitude,Nat.mod_eq_of_lt hsum,hparity]
  generalize bits.toNat % 2^31 / 2^16 = f at *
  generalize bits.toNat % 2^31 % 2^16 = r at *
  have hs : bits.toNat / 2^31 < 2 := by omega
  generalize bits.toNat / 2^31 = s at *
  rw [hwhole]
  clear hwhole hparity hsum hmagnitude hround htop hbits
  split
  · have hquotient : (s * 2^31 + (f * 2^16 + r) + (0x7fff + f % 2)) / 2^16 = s * 2^15 + (f + 1) :=
      Nat.div_eq_of_lt_le (by omega) (by omega)
    rw [hquotient,Nat.mod_eq_of_lt (by omega)]
  · have hquotient : (s * 2^31 + (f * 2^16 + r) + (0x7fff + f % 2)) / 2^16 = s * 2^15 + (f + 0) :=
      Nat.div_eq_of_lt_le (by omega) (by omega)
    rw [hquotient,Nat.mod_eq_of_lt (by omega)]

theorem bf16_nearest (k : ℕ) : IsNearest (bf16.scaled 16) (grid 23 k) (k / 2^16 +
    if 2^16 < 2 * (k % 2^16) ∨ 2^16 = 2 * (k % 2^16) ∧ k / 2^16 % 2 = 1 then 1 else 0) := by
  have hr : k % 2^16 < 2^16 := Nat.mod_lt _ (by norm_num)
  have hlow : bf16.scaled 16 (k / 2^16) = 2^16 * (grid 7 (k / 2^16) : ℤ) := by
    rw [FloatFormat.scaled]
    push_cast
    rfl
  have hhigh : bf16.scaled 16 (k / 2^16 + 1) = 2^16 * (grid 7 (k / 2^16) : ℤ) + (2^16 : ℕ) * gridStep 7 (k / 2^16) := by
    rw [FloatFormat.scaled]
    change ((2^16 * grid 7 (k / 2^16 + 1) : ℕ) : ℤ) = _
    rw [grid_succ]
    push_cast
    ring
  have hstep : (0 : ℤ) < gridStep 7 (k / 2^16) := by exact_mod_cast Nat.two_pow_pos _
  have hvalue : (grid 23 k : ℤ) = 2^16 * (grid 7 (k / 2^16) : ℤ) + (k % 2^16 : ℕ) * gridStep 7 (k / 2^16) := by
    have hgrid := @grid_scale_add 7 16 (k / 2^16) _ hr
    rw [Nat.div_add_mod] at hgrid
    change grid 23 k = _ at hgrid
    rw [hgrid]
    push_cast
    ring
  rw [hvalue]
  exact isNearest_of_linear (bf16.scaled_strictMono 16) hstep hlow hhigh hr.le

theorem f32ToBf16Bits_rounds {bits : UInt32} (h : f32.IsFinite bits.toNat) :
    bf16.negative (f32ToBf16Bits bits).toNat = f32.negative bits.toNat ∧
      bf16.RoundsTo (f32.value bits.toNat) (f32ToBf16Bits bits).toNat := by
  have hbits := f32ToBf16Bits_toNat h
  have hnear := bf16_nearest (f32.magnitude bits.toNat)
  have htop : f32.magnitude bits.toNat < 255 * 2^23 := h
  generalize hcarry : (if 2^16 < 2 * (f32.magnitude bits.toNat % 2^16) ∨
    2^16 = 2 * (f32.magnitude bits.toNat % 2^16) ∧ f32.magnitude bits.toNat / 2^16 % 2 = 1 then 1 else 0) = carry at hbits hnear
  have hle : carry ≤ 1 := by
    rw [← hcarry]
    split <;> omega
  have hdiv : (f32ToBf16Bits bits).toNat / 2^15 = bits.toNat / 2^31 := by omega
  have hnegative : bf16.negative (f32ToBf16Bits bits).toNat = f32.negative bits.toNat := by
    unfold FloatFormat.negative
    change ((f32ToBf16Bits bits).toNat / 2^15 % 2 == 1) = (bits.toNat / 2^31 % 2 == 1)
    rw [hdiv]
  have hsign : bf16.signOf (f32ToBf16Bits bits).toNat = f32.signOf bits.toNat := by
    rw [FloatFormat.signOf,FloatFormat.signOf,hnegative]
  have hvalue : f32.value bits.toNat = f32.signOf bits.toNat * (grid 23 (f32.magnitude bits.toNat) : ℕ) * (bf16.unit / 2^16) := by
    have hunit : f32.unit = bf16.unit / 2^16 := by
      unfold FloatFormat.unit f32 bf16
      norm_num
    rw [FloatFormat.value,hunit]
    rfl
  refine ⟨hnegative,FloatFormat.roundsTo_of_nearest (by decide) (by decide) hsign hvalue ?_ ?_ ?_ hnear⟩
  · change (f32ToBf16Bits bits).toNat % 2^15 = _
    omega
  · change _ ≤ 255 * 2^7
    omega
  · omega

end Bfloat

/-- The conversions round to nearest with ties to even, keep the sign and the order, and narrowing undoes widening. -/
theorem conversions_exact :
    (∀ bits : UInt32, f16.negative (f32ToF16Bits bits).toNat = f32.negative bits.toNat ∧
      (f32.IsFinite bits.toNat → f16.RoundsTo (f32.value bits.toNat) (f32ToF16Bits bits).toNat) ∧
      (f32.IsNaN bits.toNat → f16.IsNaN (f32ToF16Bits bits).toNat) ∧
      (f32.IsInfinite bits.toNat → f16.IsInfinite (f32ToF16Bits bits).toNat)) ∧
    (∀ half : UInt16, f32.negative (f16BitsToF32 half).toNat = f16.negative half.toNat ∧
      (f16.IsFinite half.toNat → f32.IsFinite (f16BitsToF32 half).toNat ∧
        f32.value (f16BitsToF32 half).toNat = f16.value half.toNat) ∧
      (¬ f16.IsNaN half.toNat → f32ToF16Bits (f16BitsToF32 half) = half)) ∧
    (∀ a b : UInt32, f32.Le a.toNat b.toNat → f16.Le (f32ToF16Bits a).toNat (f32ToF16Bits b).toNat) ∧
    ∀ bits : UInt32, f32.IsFinite bits.toNat → bf16.negative (f32ToBf16Bits bits).toNat = f32.negative bits.toNat ∧
      bf16.RoundsTo (f32.value bits.toNat) (f32ToBf16Bits bits).toNat := by
  refine ⟨fun bits => ?_,fun half => ?_,fun a b => f32ToF16Bits_mono,fun bits => f32ToBf16Bits_rounds⟩
  · exact ⟨f32ToF16Bits_sign bits,f32ToF16Bits_rounds bits,f32ToF16Bits_nan,f32ToF16Bits_infinite⟩
  · exact ⟨f16BitsToF32_sign half,f16BitsToF32_exact,f32ToF16Bits_f16BitsToF32⟩

/-- One and the tie above it: 1 + 2^-11 is rounded down to the even mantissa. -/
theorem conversions_exact_one :
    f16.RoundsTo (f32.value (0x3f801000 : UInt32).toNat) (f32ToF16Bits 0x3f801000).toNat ∧
      f32ToF16Bits (f16BitsToF32 0x3c00) = 0x3c00 ∧
      f16.Le (f32ToF16Bits 0x3f801000).toNat (f32ToF16Bits 0x7f800000).toNat ∧
      bf16.RoundsTo (f32.value (0x3f801000 : UInt32).toNat) (f32ToBf16Bits 0x3f801000).toNat :=
  ⟨(conversions_exact.1 0x3f801000).2.1 (by decide),(conversions_exact.2.1 0x3c00).2.2 (by decide),
    conversions_exact.2.2.1 0x3f801000 0x7f800000 ⟨by decide,by decide,.inr (.inl ⟨by decide,by decide⟩)⟩,
    (conversions_exact.2.2.2 0x3f801000 (by decide)).2⟩

end MeshLlm.ActivationCodec
