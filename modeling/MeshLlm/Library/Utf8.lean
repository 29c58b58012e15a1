import Mathlib.Data.List.Infix
import Mathlib.Tactic

/-! # The valid prefix of a byte string

Bytes are UTF-8 up to the first place where no character starts or the last one breaks off.
More bytes only make the valid prefix longer.
-/
namespace MeshLlm

def isContinuation (b : UInt8) : Bool := 0x80 ≤ b && b ≤ 0xBF

/-- Bytes after the first that a character has, and what the first of these may be. -/
def charTail (b : UInt8) : Option (List (UInt8 → Bool)) :=
  if b ≤ 0x7F then some []
  else if 0xC2 ≤ b && b ≤ 0xDF then some [isContinuation]
  else if b = 0xE0 then some [fun c => 0xA0 ≤ c && c ≤ 0xBF,isContinuation]
  else if b = 0xED then some [fun c => 0x80 ≤ c && c ≤ 0x9F,isContinuation]
  else if 0xE1 ≤ b && b ≤ 0xEF then some [isContinuation,isContinuation]
  else if b = 0xF0 then some [fun c => 0x90 ≤ c && c ≤ 0xBF,isContinuation,isContinuation]
  else if 0xF1 ≤ b && b ≤ 0xF3 then some [isContinuation,isContinuation,isContinuation]
  else if b = 0xF4 then some [fun c => 0x80 ≤ c && c ≤ 0x8F,isContinuation,isContinuation]
  else none

/-- The bytes in front are as the tests say. -/
def passes : List (UInt8 → Bool) → List UInt8 → Bool
  | [], _ => true
  | test :: tests, c :: bytes => test c && passes tests bytes
  | _ :: _, [] => false

/-- The length of the character in front. -/
def charLen : List UInt8 → Option ℕ
  | [] => none
  | b :: bytes => (charTail b).bind fun tests => if passes tests bytes then some (tests.length + 1) else none

/-- The length of the valid prefix; the first argument bounds the number of characters. -/
def validLenFrom : ℕ → List UInt8 → ℕ
  | 0, _ => 0
  | fuel + 1, bytes => match charLen bytes with
    | some n => n + validLenFrom fuel (bytes.drop n)
    | none => 0

/-- `from_utf8`: how far the bytes are valid. -/
def validUtf8PrefixLen (bytes : List UInt8) : ℕ := validLenFrom bytes.length bytes

def validPrefix (bytes : List UInt8) : List UInt8 := bytes.take (validUtf8PrefixLen bytes)

theorem passes_spec {tests : List (UInt8 → Bool)} {bytes : List UInt8} (h : passes tests bytes = true) (more : List UInt8) :
    tests.length ≤ bytes.length ∧ passes tests (bytes ++ more) = true := by
  induction tests generalizing bytes with
  | nil => exact ⟨Nat.zero_le _,by simp [passes]⟩
  | cons test tests ih =>
    cases bytes with
    | nil => simp [passes] at h
    | cons c bytes =>
      rw [passes,Bool.and_eq_true] at h
      obtain ⟨hlength,hpasses⟩ := ih h.2
      rw [List.cons_append,passes,Bool.and_eq_true]
      exact ⟨by simpa using hlength,h.1,hpasses⟩

/-- A character has bytes, all of them here, and is the same with more bytes behind. -/
theorem charLen_spec {bytes : List UInt8} {n : ℕ} (h : charLen bytes = some n) (more : List UInt8) :
    0 < n ∧ n ≤ bytes.length ∧ charLen (bytes ++ more) = some n := by
  cases bytes with
  | nil => cases h
  | cons b bytes =>
    obtain ⟨tests,htests,hn⟩ := Option.bind_eq_some_iff.mp h
    split_ifs at hn with hpasses
    obtain rfl := Option.some.inj hn
    obtain ⟨hlength,hmore⟩ := passes_spec hpasses more
    refine ⟨by omega,by simpa using hlength,?_⟩
    rw [List.cons_append,charLen,htests,Option.bind_some,if_pos hmore]

/-- No character starts with a continuation byte. -/
theorem charLen_continuation {b : UInt8} {bytes : List UInt8} (h : isContinuation b = true) : charLen (b :: bytes) = none := by
  have hnone : charTail b = none := by
    simp only [isContinuation,Bool.and_eq_true,decide_eq_true_eq,UInt8.le_iff_toNat_le] at h
    have hne : ∀ c : UInt8, 0xBF < c.toNat → b ≠ c := by
      rintro c hc rfl
      have := h.2
      simp at this
      omega
    unfold charTail
    simp only [Bool.and_eq_true,decide_eq_true_eq,UInt8.le_iff_toNat_le]
    simp at h
    rw [if_neg (by simp; omega),if_neg (by simp; omega),if_neg (hne _ (by decide)),if_neg (hne _ (by decide)),if_neg (by simp; omega),
      if_neg (hne _ (by decide)),if_neg (by simp; omega),if_neg (hne _ (by decide))]
  rw [charLen,hnone]
  rfl

/-- Enough fuel gives the same length. -/
theorem validLenFrom_eq {fuel fuel' : ℕ} {bytes : List UInt8} (h : bytes.length ≤ fuel) (h' : bytes.length ≤ fuel') :
    validLenFrom fuel bytes = validLenFrom fuel' bytes := by
  induction fuel generalizing fuel' bytes with
  | zero =>
    obtain rfl := List.length_eq_zero_iff.mp (Nat.le_zero.mp h)
    cases fuel' <;> rfl
  | succ fuel ih =>
    cases fuel' with
    | zero =>
      obtain rfl := List.length_eq_zero_iff.mp (Nat.le_zero.mp h')
      rfl
    | succ fuel' =>
      rw [validLenFrom,validLenFrom]
      cases hchar : charLen bytes with
      | none => rfl
      | some n =>
        obtain ⟨hpos,hle,-⟩ := charLen_spec hchar []
        have hdrop : (bytes.drop n).length = bytes.length - n := List.length_drop
        exact congrArg (n + ·) (ih (by omega) (by omega))

theorem validUtf8PrefixLen_eq (bytes : List UInt8) : validUtf8PrefixLen bytes = match charLen bytes with
    | some n => n + validUtf8PrefixLen (bytes.drop n)
    | none => 0 := by
  unfold validUtf8PrefixLen
  cases bytes with
  | nil => rfl
  | cons b bytes =>
    rw [List.length_cons,validLenFrom]
    cases hchar : charLen (b :: bytes) with
    | none => rfl
    | some n =>
      obtain ⟨hpos,-,-⟩ := charLen_spec hchar []
      have hdrop : ((b :: bytes).drop n).length = bytes.length + 1 - n := List.length_drop
      exact congrArg (n + ·) (validLenFrom_eq (by omega) le_rfl)

theorem validUtf8PrefixLen_some {bytes : List UInt8} {n : ℕ} (h : charLen bytes = some n) :
    validUtf8PrefixLen bytes = n + validUtf8PrefixLen (bytes.drop n) := by
  rw [validUtf8PrefixLen_eq,h]

theorem validUtf8PrefixLen_none {bytes : List UInt8} (h : charLen bytes = none) : validUtf8PrefixLen bytes = 0 := by
  rw [validUtf8PrefixLen_eq,h]

/-- With more bytes the valid prefix goes on where it ended. -/
theorem validUtf8PrefixLen_append (bytes more : List UInt8) :
    validUtf8PrefixLen bytes ≤ bytes.length ∧ validUtf8PrefixLen (bytes ++ more) =
      validUtf8PrefixLen bytes + validUtf8PrefixLen ((bytes ++ more).drop (validUtf8PrefixLen bytes)) := by
  induction hlength : bytes.length using Nat.strong_induction_on generalizing bytes with
  | _ length ih =>
    subst hlength
    cases hchar : charLen bytes with
    | none => simp [validUtf8PrefixLen_none hchar]
    | some n =>
      obtain ⟨hpos,hle,hmore⟩ := charLen_spec hchar more
      have hdrop : (bytes.drop n).length = bytes.length - n := List.length_drop
      obtain ⟨hinside,hgoes⟩ := ih _ (by omega) (bytes.drop n) rfl
      rw [validUtf8PrefixLen_some hchar]
      refine ⟨by omega,?_⟩
      rw [validUtf8PrefixLen_some hmore,List.drop_append_of_le_length hle,hgoes,← List.drop_drop,List.drop_append_of_le_length hle,Nat.add_assoc]

theorem validPrefix_mono (bytes more : List UInt8) : validPrefix bytes <+: validPrefix (bytes ++ more) := by
  obtain ⟨hle,hgoes⟩ := validUtf8PrefixLen_append bytes more
  have htake : (bytes ++ more).take (validUtf8PrefixLen bytes) = bytes.take (validUtf8PrefixLen bytes) :=
    List.take_append_of_le_length hle
  unfold validPrefix
  rw [hgoes,← htake]
  exact List.take_prefix_take_left (by omega)

theorem length_validPrefix (bytes : List UInt8) : (validPrefix bytes).length = validUtf8PrefixLen bytes := by
  rw [validPrefix,List.length_take,min_eq_left (validUtf8PrefixLen_append bytes []).1]

/-- `is_char_boundary`: an end of the text, or a byte that starts a character. -/
def isCharBoundary (text : List UInt8) (i : ℕ) : Bool :=
  i = 0 || i = text.length || (text[i]?.elim false fun b => !isContinuation b)

/-- The valid prefix ends at a boundary of any longer one. -/
theorem isCharBoundary_validPrefix (bytes more : List UInt8) :
    isCharBoundary (validPrefix (bytes ++ more)) (validPrefix bytes).length = true := by
  obtain ⟨hle,hgoes⟩ := validUtf8PrefixLen_append bytes more
  rw [length_validPrefix]
  unfold isCharBoundary
  rw [length_validPrefix]
  cases hchar : charLen ((bytes ++ more).drop (validUtf8PrefixLen bytes)) with
  | none =>
    have hend : validUtf8PrefixLen (bytes ++ more) = validUtf8PrefixLen bytes := by
      rw [hgoes,validUtf8PrefixLen_none hchar,Nat.add_zero]
    simp [hend]
  | some n =>
    have hlonger : validUtf8PrefixLen bytes < validUtf8PrefixLen (bytes ++ more) := by
      have hpos := (charLen_spec hchar []).1
      rw [hgoes,validUtf8PrefixLen_some hchar]
      omega
    cases hdrop : (bytes ++ more).drop (validUtf8PrefixLen bytes) with
    | nil =>
      rw [hdrop] at hchar
      cases hchar
    | cons b rest =>
      have hstart : isContinuation b = false := by
        by_contra hcontinuation
        rw [hdrop,charLen_continuation (by simpa using hcontinuation)] at hchar
        cases hchar
      have hbyte : (validPrefix (bytes ++ more))[validUtf8PrefixLen bytes]? = some b := by
        rw [validPrefix,List.getElem?_take_of_lt hlonger,← List.head?_drop,hdrop]
        rfl
      simp [hbyte,hstart]

end MeshLlm
