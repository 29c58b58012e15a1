import Mathlib

/-! # Binary floating-point formats as grids

The magnitudes of a format, read as naturals, count a grid of rising values. A value
between two neighbours is rounded to the nearer one and to the even one from the middle;
where the last finite neighbour is the lower one, the upper one stands for infinity.
-/
namespace MeshLlm

/-- The value of a magnitude in units of the least one, with `p` mantissa bits. -/
def grid (p k : ℕ) : ℕ := if k < 2^p then k else (2^p + k % 2^p) * 2^(k / 2^p - 1)

theorem grid_of_lt {p k : ℕ} (h : k < 2^p) : grid p k = k := if_pos h

theorem grid_normal {p e m : ℕ} (hm : m < 2^p) : grid p ((e + 1) * 2^p + m) = (2^p + m) * 2^e := by
  have hpos : 0 < 2^p := Nat.two_pow_pos p
  have hge : ¬ (e + 1) * 2^p + m < 2^p := by
    rw [Nat.add_mul,Nat.one_mul]
    omega
  have hmod : ((e + 1) * 2^p + m) % 2^p = m := by
    rw [Nat.add_comm,Nat.add_mul_mod_self_right,Nat.mod_eq_of_lt hm]
  have hdiv : ((e + 1) * 2^p + m) / 2^p = e + 1 := by
    rw [Nat.add_comm,Nat.add_mul_div_right _ _ hpos,Nat.div_eq_of_lt hm,Nat.zero_add]
  rw [grid,if_neg hge,hmod,hdiv,Nat.add_sub_cancel]

/-- Every magnitude is subnormal or has an exponent and a mantissa. -/
theorem magnitude_cases (p k : ℕ) : k < 2^p ∨ ∃ e m, m < 2^p ∧ k = (e + 1) * 2^p + m := by
  have hpos : 0 < 2^p := Nat.two_pow_pos p
  rcases Nat.lt_or_ge k (2^p) with hlt | hge
  · exact .inl hlt
  · refine .inr ⟨k / 2^p - 1,k % 2^p,Nat.mod_lt _ hpos,?_⟩
    have hone : 1 ≤ k / 2^p := (Nat.one_le_div_iff hpos).mpr hge
    rw [Nat.sub_add_cancel hone,Nat.mul_comm]
    exact (Nat.div_add_mod k (2^p)).symm

/-- The distance to the next magnitude. -/
def gridStep (p k : ℕ) : ℕ := 2^(k / 2^p - 1)

theorem grid_succ (p k : ℕ) : grid p (k + 1) = grid p k + gridStep p k := by
  have hpos : 0 < 2^p := Nat.two_pow_pos p
  rcases magnitude_cases p k with hlt | ⟨e,m,hm,rfl⟩
  · rw [grid_of_lt hlt,gridStep,Nat.div_eq_of_lt hlt]
    rcases Nat.lt_or_ge (k + 1) (2^p) with hnext | hnext
    · rw [grid_of_lt hnext]
      rfl
    · have heq : k + 1 = (0 + 1) * 2^p + 0 := by omega
      rw [heq,grid_normal hpos]
      omega
  · have hdiv : ((e + 1) * 2^p + m) / 2^p = e + 1 := by
      rw [Nat.add_comm,Nat.add_mul_div_right _ _ hpos,Nat.div_eq_of_lt hm,Nat.zero_add]
    rw [grid_normal hm,gridStep,hdiv,Nat.add_sub_cancel]
    rcases Nat.lt_or_ge (m + 1) (2^p) with hnext | hnext
    · rw [Nat.add_assoc,grid_normal hnext]
      ring
    · have hcarry : (e + 1) * 2^p + m + 1 = (e + 1 + 1) * 2^p + 0 := by
        have hm1 : m + 1 = 2^p := by omega
        rw [Nat.add_assoc,hm1]
        ring
      have hm1 : 2^p + m + 1 = 2 * 2^p := by omega
      rw [hcarry,grid_normal hpos,Nat.add_zero]
      calc 2^p * 2^(e + 1) = 2 * 2^p * 2^e := by ring
        _ = (2^p + m + 1) * 2^e := by rw [hm1]
        _ = (2^p + m) * 2^e + 2^e := by ring

theorem grid_strictMono (p : ℕ) : StrictMono (grid p) := by
  refine strictMono_nat_of_lt_succ fun k => ?_
  rw [grid_succ]
  exact Nat.lt_add_of_pos_right (Nat.two_pow_pos _)

theorem grid_of_le {p k : ℕ} (h : k ≤ 2^p) : grid p k = k := by
  rcases Nat.lt_or_ge k (2^p) with hlt | hge
  · exact grid_of_lt hlt
  · have heq : k = (0 + 1) * 2^p + 0 := by omega
    rw [heq,grid_normal (Nat.two_pow_pos p)]
    omega

/-- Between two magnitudes of the coarse grid the fine one rises evenly. -/
theorem grid_scale_add {p t k r : ℕ} (hr : r < 2^t) :
    grid (p + t) (2^t * k + r) = 2^t * grid p k + r * gridStep p k := by
  have hpow : 2^(p + t) = 2^t * 2^p := by rw [Nat.pow_add,Nat.mul_comm]
  rcases magnitude_cases p k with hlt | ⟨e,m,hm,rfl⟩
  · have hbelow : 2^t * k + r < 2^(p + t) := by
      have hnext : 2^t * (k + 1) ≤ 2^t * 2^p := Nat.mul_le_mul_left _ hlt
      rw [Nat.mul_add,Nat.mul_one] at hnext
      omega
    rw [grid_of_lt hlt,grid_of_lt hbelow,gridStep,Nat.div_eq_of_lt hlt]
    omega
  · have hfine : 2^t * ((e + 1) * 2^p + m) + r = (e + 1) * 2^(p + t) + (2^t * m + r) := by
      rw [hpow]
      ring
    have hbelow : 2^t * m + r < 2^(p + t) := by
      have hnext : 2^t * (m + 1) ≤ 2^t * 2^p := Nat.mul_le_mul_left _ hm
      rw [Nat.mul_add,Nat.mul_one] at hnext
      omega
    have hdiv : ((e + 1) * 2^p + m) / 2^p = e + 1 := by
      rw [Nat.add_comm,Nat.add_mul_div_right _ _ (Nat.two_pow_pos p),Nat.div_eq_of_lt hm,Nat.zero_add]
    rw [hfine,grid_normal hbelow,grid_normal hm,gridStep,hdiv,Nat.add_sub_cancel,hpow]
    ring

/-- Nothing on the grid is nearer, and from the middle the even magnitude is taken. -/
def IsNearest (G : ℕ → ℤ) (x : ℤ) (k : ℕ) : Prop :=
  ∀ j, |x - G k| ≤ |x - G j| ∧ (|x - G k| = |x - G j| → j = k ∨ k % 2 = 0)

theorem isNearest_of_floor {G : ℕ → ℤ} (hG : StrictMono G) {x : ℤ} {floor : ℕ} (hlow : G floor ≤ x)
    (hhigh : x ≤ G (floor + 1)) {k : ℕ}
    (hk : (G floor + G (floor + 1) < 2 * x ∨ G floor + G (floor + 1) = 2 * x ∧ floor % 2 = 1) ∧ k = floor + 1 ∨
      ¬ (G floor + G (floor + 1) < 2 * x ∨ G floor + G (floor + 1) = 2 * x ∧ floor % 2 = 1) ∧ k = floor) :
    IsNearest G x k := by
  intro j
  have hbelow : ∀ i, i ≤ floor → G i ≤ G floor := fun i hi => hG.monotone hi
  have habove : ∀ i, floor + 1 ≤ i → G (floor + 1) ≤ G i := fun i hi => hG.monotone hi
  have hgap : G floor < G (floor + 1) := hG (Nat.lt_succ_self _)
  rcases hk with ⟨hup,rfl⟩ | ⟨hdown,rfl⟩
  · have habs : |x - G (floor + 1)| = G (floor + 1) - x := by rw [abs_of_nonpos (by omega)]; ring
    rw [habs]
    rcases Nat.lt_or_ge j (floor + 1) with hj | hj
    · have hle := hbelow j (by omega)
      rw [abs_of_nonneg (by omega : 0 ≤ x - G j)]
      refine ⟨by omega,fun heq => .inr ?_⟩
      omega
    · have hle := habove j hj
      rw [abs_of_nonpos (by omega : x - G j ≤ 0)]
      refine ⟨by omega,fun heq => .inl ?_⟩
      exact hG.injective (by omega)
  · have habs : |x - G k| = x - G k := abs_of_nonneg (by omega)
    rw [habs]
    rcases Nat.lt_or_ge j (k + 1) with hj | hj
    · have hle := hbelow j (by omega)
      rw [abs_of_nonneg (by omega : 0 ≤ x - G j)]
      refine ⟨by omega,fun heq => .inl ?_⟩
      exact hG.injective (by omega)
    · have hle := habove j hj
      rw [abs_of_nonpos (by omega : x - G j ≤ 0)]
      refine ⟨by omega,fun heq => .inr ?_⟩
      omega

/-- Rounding `r` of the `n` even steps between two neighbours. -/
theorem isNearest_of_linear {G : ℕ → ℤ} (hG : StrictMono G) {floor r n : ℕ} {a K : ℤ} (hK : 0 < K) (hlow : G floor = a)
    (hhigh : G (floor + 1) = a + n * K) (hr : r ≤ n) :
    IsNearest G (a + r * K) (floor + if n < 2 * r ∨ n = 2 * r ∧ floor % 2 = 1 then 1 else 0) := by
  have hrK : (r : ℤ) * K ≤ n * K := mul_le_mul_of_nonneg_right (by exact_mod_cast hr) hK.le
  have hr0 : 0 ≤ (r : ℤ) * K := mul_nonneg (by omega) hK.le
  have hlt : G floor + G (floor + 1) < 2 * (a + r * K) ↔ n < 2 * r := by
    have hmul : (n : ℤ) * K < (2 * r : ℕ) * K ↔ n < 2 * r := by rw [mul_lt_mul_iff_left₀ hK,Nat.cast_lt]
    rw [hlow,hhigh,← hmul]
    push_cast
    constructor <;> intro h <;> linarith
  have heq : G floor + G (floor + 1) = 2 * (a + r * K) ↔ n = 2 * r := by
    have hmul : (n : ℤ) * K = (2 * r : ℕ) * K ↔ n = 2 * r := by
      rw [mul_left_inj' hK.ne',Nat.cast_inj]
    rw [hlow,hhigh,← hmul]
    push_cast
    constructor <;> intro h <;> linarith
  have habove : a + (r : ℤ) * K ≤ G (floor + 1) := by omega
  refine isNearest_of_floor hG (by omega) habove ?_
  rw [hlt,heq]
  split
  · exact .inl ⟨‹_›,rfl⟩
  · exact .inr ⟨‹_›,rfl⟩

/-- A value on the grid is its own nearest one. -/
theorem IsNearest.eq_of_mem {G : ℕ → ℤ} (hG : StrictMono G) {k j : ℕ} (h : IsNearest G (G j) k) : k = j := by
  obtain ⟨hle,-⟩ := h j
  rw [sub_self,abs_zero] at hle
  have hzero : G j - G k = 0 := abs_eq_zero.mp (le_antisymm hle (abs_nonneg _))
  exact hG.injective (by omega)

theorem upper_nearer {a b x : ℤ} (h : a < b) : |x - b| ≤ |x - a| ↔ a + b ≤ 2 * x := by
  rcases abs_cases (x - a) with ⟨ha,hsa⟩ | ⟨ha,hsa⟩ <;> rcases abs_cases (x - b) with ⟨hb,hsb⟩ | ⟨hb,hsb⟩ <;>
    rw [ha,hb] <;> omega

theorem lower_nearer {a b x : ℤ} (h : a < b) : |x - a| ≤ |x - b| ↔ 2 * x ≤ a + b := by
  rcases abs_cases (x - a) with ⟨ha,hsa⟩ | ⟨ha,hsa⟩ <;> rcases abs_cases (x - b) with ⟨hb,hsb⟩ | ⟨hb,hsb⟩ <;>
    rw [ha,hb] <;> omega

/-- Of two values the greater one has no lesser nearest magnitude. -/
theorem IsNearest.le_of_lt {G : ℕ → ℤ} (hG : StrictMono G) {x y : ℤ} {k j : ℕ} (hx : IsNearest G x k)
    (hy : IsNearest G y j) (h : x < y) : k ≤ j := by
  by_contra hgt
  have hlt : G j < G k := hG (by omega)
  obtain ⟨hxle,-⟩ := hx j
  obtain ⟨hyle,-⟩ := hy k
  rw [upper_nearer hlt] at hxle
  rw [lower_nearer hlt] at hyle
  omega

/-- A binary interchange format. -/
structure FloatFormat where
  mantissaBits : ℕ
  exponentBits : ℕ
deriving DecidableEq

namespace FloatFormat
variable (F : FloatFormat)

/-- The weight of the sign bit. -/
def signWeight : ℕ := 2^(F.exponentBits + F.mantissaBits)
/-- The magnitude of infinity: all exponent bits and no mantissa bit. -/
def top : ℕ := (2^F.exponentBits - 1) * 2^F.mantissaBits
def magnitude (bits : ℕ) : ℕ := bits % F.signWeight
def negative (bits : ℕ) : Bool := bits / F.signWeight % 2 == 1

def IsFinite (bits : ℕ) : Prop := F.magnitude bits < F.top
def IsInfinite (bits : ℕ) : Prop := F.magnitude bits = F.top
def IsNaN (bits : ℕ) : Prop := F.top < F.magnitude bits

instance (bits : ℕ) : Decidable (F.IsFinite bits) := inferInstanceAs (Decidable (_ < _))
instance (bits : ℕ) : Decidable (F.IsInfinite bits) := inferInstanceAs (Decidable (_ = _))
instance (bits : ℕ) : Decidable (F.IsNaN bits) := inferInstanceAs (Decidable (_ < _))

/-- The least positive value. -/
def unit : ℚ := 1 / 2^(2^(F.exponentBits - 1) - 1 + F.mantissaBits - 1)

def signOf (bits : ℕ) : ℚ := if F.negative bits then -1 else 1

/-- The exact value of a finite pattern. -/
def value (bits : ℕ) : ℚ := F.signOf bits * grid F.mantissaBits (F.magnitude bits) * F.unit

/-- From here on the nearest magnitude is infinity. -/
def overflow : ℚ := (grid F.mantissaBits (F.top - 1) + grid F.mantissaBits F.top) / 2 * F.unit

/-- Round to nearest, ties to even, overflow to infinity. -/
structure RoundsTo (x : ℚ) (bits : ℕ) : Prop where
  finite : |x| < F.overflow → F.IsFinite bits
  nearest : |x| < F.overflow → ∀ other, F.IsFinite other → |x - F.value bits| ≤ |x - F.value other| ∧
    (|x - F.value bits| = |x - F.value other| → F.value other = F.value bits ∨ bits % 2 = 0)
  infinite : F.overflow ≤ |x| → F.IsInfinite bits

/-- The order of the values and the infinities; a NaN is not in it. -/
def Le (a b : ℕ) : Prop :=
  ¬ F.IsNaN a ∧ ¬ F.IsNaN b ∧ (F.IsInfinite a ∧ F.negative a ∨ F.IsInfinite b ∧ ¬ F.negative b ∨
    F.IsFinite a ∧ F.IsFinite b ∧ F.value a ≤ F.value b)

/-- The magnitude under the sign. -/
def order (bits : ℕ) : ℤ := if F.negative bits then -F.magnitude bits else F.magnitude bits

theorem signOf_cases (bits : ℕ) : F.signOf bits = 1 ∨ F.signOf bits = -1 := by
  unfold signOf
  split
  · exact .inr rfl
  · exact .inl rfl

theorem unit_pos : 0 < F.unit := by
  unfold unit
  positivity

/-- The grid of the format in units of a finer one. -/
def scaled (t : ℕ) (j : ℕ) : ℤ := ((2^t * grid F.mantissaBits j : ℕ) : ℤ)

theorem scaled_strictMono (t : ℕ) : StrictMono (F.scaled t) := by
  intro i j h
  have hlt : 2^t * grid F.mantissaBits i < 2^t * grid F.mantissaBits j :=
    Nat.mul_lt_mul_of_pos_left (grid_strictMono _ h) (Nat.two_pow_pos t)
  unfold scaled
  exact_mod_cast hlt

theorem abs_sub_of_sign {s : ℚ} (hs : s = 1 ∨ s = -1) (a b c : ℚ) (hc : 0 < c) :
    |s * a * c - s * b * c| = |a - b| * c := by
  have hfactor : s * a * c - s * b * c = s * ((a - b) * c) := by ring
  have hone : |s| = 1 := by
    rcases hs with rfl | rfl
    · exact abs_one
    · rw [abs_neg,abs_one]
  rw [hfactor,abs_mul,hone,one_mul,abs_mul,abs_of_pos hc]

theorem value_eq_scaled (t bits : ℕ) :
    F.value bits = F.signOf bits * (F.scaled t (F.magnitude bits) : ℚ) * (F.unit / 2^t) := by
  have hne : (2 : ℚ)^t ≠ 0 := by positivity
  rw [value,scaled]
  push_cast
  field_simp

theorem unit_div_pos (t : ℕ) : 0 < F.unit / 2^t := div_pos F.unit_pos (by positivity)

/-- Whether a value overflows is read off the middle of the last gap. -/
theorem overflow_le_iff {x s : ℚ} {X t : ℕ} (hs : s = 1 ∨ s = -1) (hx : x = s * X * (F.unit / 2^t)) :
    F.overflow ≤ |x| ↔ F.scaled t (F.top - 1) + F.scaled t F.top ≤ 2 * (X : ℤ) := by
  have hc := F.unit_div_pos t
  have habs : |x| = X * (F.unit / 2^t) := by
    have hsub := abs_sub_of_sign hs X 0 (F.unit / 2^t) hc
    rw [mul_zero,zero_mul,sub_zero,sub_zero,← hx] at hsub
    rw [hsub,abs_of_nonneg (Nat.cast_nonneg X)]
  have hover : F.overflow = ((F.scaled t (F.top - 1) + F.scaled t F.top : ℤ) : ℚ) / 2 * (F.unit / 2^t) := by
    have hne : (2 : ℚ)^t ≠ 0 := by positivity
    rw [overflow,scaled,scaled]
    push_cast
    field_simp
  rw [habs,hover,mul_le_mul_iff_left₀ hc,div_le_iff₀ (by norm_num : (0 : ℚ) < 2)]
  constructor
  · intro h
    have hq : ((F.scaled t (F.top - 1) + F.scaled t F.top : ℤ) : ℚ) ≤ ((2 * (X : ℤ) : ℤ) : ℚ) := by
      push_cast at h ⊢
      linarith
    exact_mod_cast hq
  · intro h
    have hq : ((F.scaled t (F.top - 1) + F.scaled t F.top : ℤ) : ℚ) ≤ ((2 * (X : ℤ) : ℤ) : ℚ) := by
      exact_mod_cast h
    push_cast at hq ⊢
    linarith

variable {F}

/-- A value from the magnitude of infinity on is rounded to infinity. -/
theorem roundsTo_of_beyond {x s : ℚ} {bits X t : ℕ} (hpos : 0 < F.top) (hs : s = 1 ∨ s = -1)
    (hx : x = s * X * (F.unit / 2^t)) (hmag : F.magnitude bits = F.top) (hbeyond : F.scaled t F.top ≤ X) :
    F.RoundsTo x bits := by
  have hgap : F.scaled t (F.top - 1) < F.scaled t F.top := F.scaled_strictMono t (by omega)
  have hover : F.overflow ≤ |x| := (F.overflow_le_iff hs hx).mpr (by omega)
  exact ⟨fun hlt => absurd hover (not_le.mpr hlt),fun hlt => absurd hover (not_le.mpr hlt),fun _ => hmag⟩

/-- The last gap is left upwards exactly when the value overflows. -/
theorem nearest_top_iff {X t k : ℕ} (heven : 2 ∣ F.top) (hpos : 0 < F.top) (hk : k ≤ F.top)
    (hnear : IsNearest (F.scaled t) X k) :
    F.scaled t (F.top - 1) + F.scaled t F.top ≤ 2 * (X : ℤ) ↔ k = F.top := by
  have hmono := F.scaled_strictMono t
  have hgap : F.scaled t (F.top - 1) < F.scaled t F.top := hmono (by omega)
  constructor
  · intro hmid
    by_contra hne
    obtain ⟨hdist,htie⟩ := hnear F.top
    have hkle : F.scaled t k ≤ F.scaled t (F.top - 1) := hmono.monotone (by omega)
    have hlow : 2 * (X : ℤ) ≤ F.scaled t k + F.scaled t F.top := (lower_nearer (by omega)).mp hdist
    have hlast : k = F.top - 1 := hmono.injective (by omega)
    have hsame : |(X : ℤ) - F.scaled t k| = |(X : ℤ) - F.scaled t F.top| :=
      le_antisymm hdist ((upper_nearer (by omega)).mpr (by omega))
    rcases htie hsame with htop | hzero
    · exact hne htop.symm
    · omega
  · rintro rfl
    exact (upper_nearer hgap).mp (hnear _).1

/-- The pattern of a value's nearest magnitude under its sign is no farther from it than any other. -/
theorem value_nearest {x s : ℚ} {bits X t k : ℕ} (hs : F.signOf bits = s) (hx : x = s * X * (F.unit / 2^t))
    (hmag : F.magnitude bits = k) (hparity : bits % 2 = k % 2) (hnear : IsNearest (F.scaled t) X k) (other : ℕ) :
    |x - F.value bits| ≤ |x - F.value other| ∧
      (|x - F.value bits| = |x - F.value other| → F.value other = F.value bits ∨ bits % 2 = 0) := by
  have hsign := hs ▸ F.signOf_cases bits
  have hc := F.unit_div_pos t
  have hvalue := F.value_eq_scaled t
  obtain ⟨hdist,htie⟩ := hnear (F.magnitude other)
  have hdist' : |(X : ℚ) - F.scaled t k| ≤ |(X : ℚ) - F.scaled t (F.magnitude other)| := by exact_mod_cast hdist
  have hself : |x - F.value bits| = |(X : ℚ) - F.scaled t k| * (F.unit / 2^t) := by
    rw [hvalue,hs,hmag,hx]
    exact abs_sub_of_sign hsign _ _ _ hc
  have hnonneg : (0 : ℚ) ≤ F.scaled t (F.magnitude other) := by
    rw [scaled]
    positivity
  by_cases hsame : F.signOf other = s
  · have hvother : |x - F.value other| = |(X : ℚ) - F.scaled t (F.magnitude other)| * (F.unit / 2^t) := by
      rw [hvalue,hsame,hx]
      exact abs_sub_of_sign hsign _ _ _ hc
    rw [hself,hvother]
    refine ⟨mul_le_mul_of_nonneg_right hdist' hc.le,fun heq => ?_⟩
    have heq' : |(X : ℤ) - F.scaled t k| = |(X : ℤ) - F.scaled t (F.magnitude other)| := by
      exact_mod_cast mul_right_cancel₀ hc.ne' heq
    rcases htie heq' with hkey | hzero
    · exact .inl (by rw [hvalue,hvalue,hs,hsame,hmag,hkey])
    · exact .inr (hparity.trans hzero)
  · have hopposite : F.signOf other = -s := by
      rcases hsign with rfl | rfl <;> rcases F.signOf_cases other with ho | ho <;> simp_all
    have hvother : |x - F.value other| = ((X : ℚ) + F.scaled t (F.magnitude other)) * (F.unit / 2^t) := by
      have hsub := abs_sub_of_sign hsign X (-(F.scaled t (F.magnitude other))) (F.unit / 2^t) hc
      rw [sub_neg_eq_add,abs_of_nonneg (add_nonneg (Nat.cast_nonneg X) hnonneg)] at hsub
      rw [← hsub,hvalue,hopposite,hx]
      congr 1
      ring
    have hX : (0 : ℚ) ≤ X := Nat.cast_nonneg X
    have hfar : |(X : ℚ) - F.scaled t (F.magnitude other)| ≤ X + F.scaled t (F.magnitude other) := by
      rw [abs_le]
      exact ⟨by linarith,by linarith⟩
    rw [hself,hvother]
    refine ⟨mul_le_mul_of_nonneg_right (hdist'.trans hfar) hc.le,fun heq => ?_⟩
    have heq' := mul_right_cancel₀ hc.ne' heq
    have hall : |(X : ℚ) - F.scaled t k| = |(X : ℚ) - F.scaled t (F.magnitude other)| :=
      le_antisymm hdist' (heq' ▸ hfar)
    have hall' : |(X : ℤ) - F.scaled t k| = |(X : ℤ) - F.scaled t (F.magnitude other)| := by exact_mod_cast hall
    rcases htie hall' with hkey | hzero
    · left
      -- the two patterns differ in sign only, and are as far apart from the value: both are zero
      rw [hkey] at heq'
      have hzero : (X : ℚ) * F.scaled t k = 0 := by
        have hsq := congrArg (fun q => q^2) heq'
        simp only [sq_abs] at hsq
        linarith [hsq]
      rcases mul_eq_zero.mp hzero with hzero | hzero
      · obtain ⟨hnear0,-⟩ := hnear 0
        have hX0 : X = 0 := by exact_mod_cast hzero
        have hG0 : F.scaled t 0 = 0 := by
          rw [scaled,grid_of_lt (Nat.two_pow_pos _),Nat.mul_zero]
          rfl
        rw [hX0,hG0] at hnear0
        have hGk : F.scaled t k = 0 := by
          rw [Nat.cast_zero,zero_sub,sub_zero,abs_neg,abs_zero] at hnear0
          exact abs_eq_zero.mp (le_antisymm hnear0 (abs_nonneg _))
        rw [hvalue,hvalue,hkey,hmag,hGk]
        simp
      · rw [hvalue,hvalue,hkey,hmag,hzero]
        simp
    · exact .inr (hparity.trans hzero)

/-- A nearest magnitude under the sign of the value is the rounded pattern. -/
theorem roundsTo_of_nearest {x s : ℚ} {bits X t k : ℕ} (heven : 2 ∣ F.top) (hpos : 0 < F.top)
    (hs : F.signOf bits = s) (hx : x = s * X * (F.unit / 2^t)) (hmag : F.magnitude bits = k) (hk : k ≤ F.top)
    (hparity : bits % 2 = k % 2) (hnear : IsNearest (F.scaled t) X k) : F.RoundsTo x bits := by
  have hreach : F.overflow ≤ |x| ↔ k = F.top :=
    (F.overflow_le_iff (hs ▸ F.signOf_cases bits) hx).trans (nearest_top_iff heven hpos hk hnear)
  refine ⟨fun hlt => ?_,fun _ other _ => value_nearest hs hx hmag hparity hnear other,fun hle => ?_⟩
  · have hne : k ≠ F.top := fun heq => absurd (hreach.mpr heq) (not_le.mpr hlt)
    exact hmag.trans_lt (lt_of_le_of_ne hk hne)
  · exact hmag.trans (hreach.mp hle)

theorem value_le_iff (a b : ℕ) : F.value a ≤ F.value b ↔ F.order a ≤ F.order b := by
  have hmono := grid_strictMono F.mantissaBits
  have hzero : grid F.mantissaBits 0 = 0 := grid_of_lt (Nat.two_pow_pos _)
  have hgrid : ∀ i j, (grid F.mantissaBits i : ℚ) ≤ grid F.mantissaBits j ↔ (i : ℤ) ≤ j := fun i j => by
    rw [Nat.cast_le,hmono.le_iff_le,Nat.cast_le]
  have hnil : ∀ i, (grid F.mantissaBits i : ℚ) ≤ 0 ↔ (i : ℤ) ≤ 0 := fun i => by
    rw [← Nat.cast_zero,← hzero,hgrid,Nat.cast_zero]
  rw [value,value,mul_le_mul_iff_left₀ F.unit_pos,signOf,signOf,order,order]
  have hi := hgrid (F.magnitude a) (F.magnitude b)
  have hj := hgrid (F.magnitude b) (F.magnitude a)
  have ha := hnil (F.magnitude a)
  have hb := hnil (F.magnitude b)
  have ha0 : (0 : ℚ) ≤ grid F.mantissaBits (F.magnitude a) := Nat.cast_nonneg _
  have hb0 : (0 : ℚ) ≤ grid F.mantissaBits (F.magnitude b) := Nat.cast_nonneg _
  split <;> split
  · rw [neg_one_mul,neg_one_mul,neg_le_neg_iff,neg_le_neg_iff,hj]
  · rw [neg_one_mul,one_mul]
    exact ⟨fun _ => by omega,fun _ => by linarith⟩
  · rw [neg_one_mul,one_mul]
    constructor
    · intro h
      have hza := ha.mp (by linarith)
      have hzb := hb.mp (by linarith)
      omega
    · intro h
      have hza := ha.mpr (by omega)
      have hzb := hb.mpr (by omega)
      linarith
  · rw [one_mul,one_mul,hi]

theorem le_iff_order {a b : ℕ} (hpos : 0 < F.top) (ha : ¬ F.IsNaN a) (hb : ¬ F.IsNaN b) : F.Le a b ↔ F.order a ≤ F.order b := by
  have hva := F.value_le_iff a b
  unfold IsNaN at ha hb
  rw [Le,and_iff_right (show ¬ F.IsNaN a from ha),and_iff_right (show ¬ F.IsNaN b from hb),hva]
  unfold IsInfinite IsFinite order
  cases F.negative a <;> cases F.negative b <;> simp <;> omega

/-- A conversion that keeps signs and is monotone on magnitudes is monotone. -/
theorem Le.convert {F G : FloatFormat} {f : ℕ → ℕ} (hF : 0 < F.top) (hG : 0 < G.top) (hzero : f 0 = 0) (hmono : ∀ i j, i ≤ j → j ≤ F.top → f i ≤ f j)
    (htop : f F.top ≤ G.top) {a b a' b' : ℕ} (h : F.Le a b) (hsa : G.negative a' = F.negative a)
    (hsb : G.negative b' = F.negative b) (hma : G.magnitude a' = f (F.magnitude a))
    (hmb : G.magnitude b' = f (F.magnitude b)) : G.Le a' b' := by
  obtain ⟨ha,hb,-⟩ := id h
  have horder := (le_iff_order hF ha hb).mp h
  have hatop : F.magnitude a ≤ F.top := not_lt.mp ha
  have hbtop : F.magnitude b ≤ F.top := not_lt.mp hb
  have ha' : ¬ G.IsNaN a' := not_lt.mpr (hma ▸ (hmono _ _ hatop le_rfl).trans htop)
  have hb' : ¬ G.IsNaN b' := not_lt.mpr (hmb ▸ (hmono _ _ hbtop le_rfl).trans htop)
  refine (le_iff_order hG ha' hb').mpr ?_
  have hab := hmono (F.magnitude a) (F.magnitude b)
  have hba := hmono (F.magnitude b) (F.magnitude a)
  have ha0 := hmono (F.magnitude a) 0
  have hb0 := hmono (F.magnitude b) 0
  unfold order at horder ⊢
  rw [hsa,hsb,hma,hmb]
  split_ifs at horder ⊢ <;> omega

end FloatFormat

end MeshLlm
