import Mathlib.Data.List.DropRight
import Mathlib.Data.List.Infix
import Mathlib.Tactic

/-! # Searching a text

The first and the last occurrence of a pattern, a text cut at a letter, and a text without
its white space outside. Texts are lists over any alphabet.
-/
namespace MeshLlm

variable {α : Type*} [DecidableEq α]

/-- The position of the first occurrence of a pattern. -/
def findSub (pattern : List α) : List α → Option ℕ
  | [] => if pattern = [] then some 0 else none
  | a :: text => if pattern <+: a :: text then some 0 else (findSub pattern text).map (· + 1)

/-- A text without the letters in front of it that a predicate takes. -/
def trimStart (p : α → Bool) (text : List α) : List α := text.dropWhile p

def trimEnd (p : α → Bool) (text : List α) : List α := text.rdropWhile p

def trim (p : α → Bool) (text : List α) : List α := trimEnd p (trimStart p text)

/-- The last occurrence of a pattern. -/
def rfind (pattern : List α) : List α → Option ℕ
  | [] => if pattern = [] then some 0 else none
  | c :: text => match rfind pattern text with
    | some i => some (i + 1)
    | none => if pattern <+: c :: text then some 0 else none

/-- What is before and after the last occurrence. -/
def rsplitOnce (pattern text : List α) : Option (List α × List α) :=
  (rfind pattern text).map fun i => (text.take i,text.drop (i + pattern.length))

/-- What is before and after the first occurrence of a letter. -/
def splitOnce (c : α) (text : List α) : Option (List α × List α) :=
  if c ∈ text then some (text.takeWhile (· ≠ c),(text.dropWhile (· ≠ c)).drop 1) else none

/-- The Unicode property `White_Space`. -/
def isWhitespace (c : Char) : Bool :=
  let n := c.toNat
  (9 ≤ n && n ≤ 13) || n == 32 || n == 0x85 || n == 0xA0 || n == 0x1680 || (0x2000 ≤ n && n ≤ 0x200A) ||
    n == 0x2028 || n == 0x2029 || n == 0x202F || n == 0x205F || n == 0x3000

def isAsciiHexdigit (c : Char) : Bool := ('0' ≤ c && c ≤ '9') || ('a' ≤ c && c ≤ 'f') || ('A' ≤ c && c ≤ 'F')

variable {pattern text : List α}

theorem findSub_eq_some {i : ℕ} : findSub pattern text = some i ↔
    i ≤ text.length ∧ pattern <+: text.drop i ∧ ∀ j < i, ¬pattern <+: text.drop j := by
  induction text generalizing i with
  | nil =>
    rw [findSub]
    split_ifs with hempty
    · subst hempty
      simp only [Option.some.injEq,List.length_nil,Nat.le_zero,List.nil_prefix,true_and]
      exact ⟨fun h => ⟨h.symm,fun j hj => by omega⟩,fun h => h.1.symm⟩
    · simp only [List.drop_nil,List.prefix_nil,hempty,false_and,and_false]
  | cons a text ih =>
    rw [findSub]
    split_ifs with hfront
    · simp only [Option.some.injEq]
      constructor
      · rintro rfl
        exact ⟨Nat.zero_le _,hfront,fun j hj => by omega⟩
      · rintro ⟨-,-,hnone⟩
        by_contra hne
        exact hnone 0 (by omega) hfront
    · rw [Option.map_eq_some_iff]
      constructor
      · rintro ⟨i,hi,rfl⟩
        obtain ⟨hle,hpre,hnone⟩ := ih.mp hi
        refine ⟨by simpa using hle,hpre,fun j hj => ?_⟩
        cases j with
        | zero => exact hfront
        | succ j => exact hnone j (by omega)
      · rintro ⟨hle,hpre,hnone⟩
        cases i with
        | zero => exact absurd hpre hfront
        | succ i =>
          refine ⟨i,ih.mpr ⟨by simpa using hle,hpre,fun j hj => hnone (j + 1) (by omega)⟩,rfl⟩

theorem findSub_eq_none : findSub pattern text = none ↔ ∀ i ≤ text.length, ¬pattern <+: text.drop i := by
  induction text with
  | nil =>
    rw [findSub]
    split_ifs with hempty
    · simp [hempty]
    · simp [hempty]
  | cons a text ih =>
    rw [findSub]
    split_ifs with hfront
    · simp only [false_iff]
      exact fun h => h 0 (Nat.zero_le _) hfront
    · rw [Option.map_eq_none_iff,ih]
      constructor
      · intro h i hi
        cases i with
        | zero => exact hfront
        | succ i => exact h i (by simpa using hi)
      · exact fun h i hi => h (i + 1) (by simpa using hi)

section Split

theorem rfind_spec {pattern text : List α} {i : ℕ} (h : rfind pattern text = some i) : pattern <+: text.drop i := by
  induction text generalizing i with
  | nil =>
    rw [rfind] at h
    split_ifs at h with hempty
    subst hempty
    exact List.nil_prefix
  | cons c text ih =>
    rw [rfind] at h
    split at h
    case h_1 i' hi' =>
      obtain rfl := Option.some.inj h
      exact ih hi'
    case h_2 =>
      split_ifs at h with hfront
      obtain rfl := Option.some.inj h
      exact hfront

theorem rsplitOnce_spec {pattern text before after : List α} (h : rsplitOnce pattern text = some (before,after)) :
    text = before ++ (pattern ++ after) := by
  obtain ⟨i,hi,hparts⟩ := Option.map_eq_some_iff.mp h
  obtain ⟨rfl,rfl⟩ := Prod.mk.inj hparts
  obtain ⟨rest,hrest⟩ := rfind_spec hi
  have hafter : text.drop (i + pattern.length) = rest := by
    rw [← List.drop_drop,← hrest,List.drop_left]
  rw [hafter,hrest,List.take_append_drop]

theorem splitOnce_spec {c : α} {text before after : List α} (h : splitOnce c text = some (before,after)) :
    text = before ++ c :: after ∧ c ∉ before := by
  unfold splitOnce at h
  split_ifs at h with hmem
  obtain ⟨rfl,rfl⟩ := Prod.mk.inj (Option.some.inj h)
  have hhead : ∃ rest, text.dropWhile (· ≠ c) = c :: rest := by
    cases hdrop : text.dropWhile (· ≠ c) with
    | nil =>
      have hall := List.dropWhile_eq_nil_iff.mp hdrop c hmem
      simp at hall
    | cons c' rest =>
      have hc := List.head_dropWhile_not (· ≠ c) (by rw [hdrop]; exact List.cons_ne_nil _ _)
      simp only [hdrop,List.head_cons] at hc
      exact ⟨rest,by simp at hc; rw [hc]⟩
  obtain ⟨rest,hrest⟩ := hhead
  refine ⟨?_,fun hin => by simpa using List.mem_takeWhile_imp hin⟩
  rw [hrest,List.drop_one,List.tail_cons,← hrest,List.takeWhile_append_dropWhile]

omit [DecidableEq α] in
theorem first_unique {c : α} {a b x y : List α} (ha : c ∉ a) (hb : c ∉ b) (h : a ++ c :: x = b ++ c :: y) : a = b ∧ x = y := by
  induction a generalizing b with
  | nil =>
    cases b with
    | nil => simpa using h
    | cons d b => exact absurd (List.mem_cons.mpr (.inl (List.cons.inj h).1)) hb
  | cons d a ih =>
    cases b with
    | nil => exact absurd (List.mem_cons.mpr (.inl (List.cons.inj h).1.symm)) ha
    | cons e b =>
      simp only [List.cons_append,List.cons.injEq] at h
      obtain ⟨rfl,h⟩ := h
      obtain ⟨rfl,rfl⟩ := ih (fun hin => ha (List.mem_cons_of_mem _ hin)) (fun hin => hb (List.mem_cons_of_mem _ hin)) h
      exact ⟨rfl,rfl⟩

theorem splitOnce_append {c : α} {before after : List α} (h : c ∉ before) : splitOnce c (before ++ c :: after) = some (before,after) := by
  cases hsplit : splitOnce c (before ++ c :: after) with
  | none => simp [splitOnce] at hsplit
  | some parts =>
    obtain ⟨htext,hfirst⟩ := splitOnce_spec hsplit
    obtain ⟨hbefore,hafter⟩ := first_unique h hfirst htext
    rw [hbefore,hafter]

end Split

section Trim
omit [DecidableEq α]

theorem trim_spec (p : α → Bool) (text : List α) : ∃ before after, text = before ++ trim p text ++ after ∧ ∀ c ∈ before, p c = true := by
  obtain ⟨after,hafter⟩ : trim p text <+: trimStart p text := List.rdropWhile_prefix _ _
  refine ⟨text.takeWhile p,after,?_,fun c hc => List.mem_takeWhile_imp hc⟩
  rw [List.append_assoc,hafter,trimStart,List.takeWhile_append_dropWhile]

theorem trimEnd_append_cons {p : α → Bool} {c : α} (hc : p c = false) (text text' : List α) :
    trimEnd p (text ++ c :: text') = text ++ c :: trimEnd p text' := by
  rw [trimEnd,trimEnd,List.rdropWhile,List.rdropWhile,List.reverse_append,List.reverse_cons,List.append_assoc,List.dropWhile_append]
  split_ifs with hempty
  · rw [List.isEmpty_iff] at hempty
    simp [hempty,hc]
  · simp

theorem trimStart_append_cons {p : α → Bool} {c : α} (hc : p c = false) (text text' : List α) :
    trimStart p (text ++ c :: text') = trimStart p text ++ c :: text' := by
  rw [trimStart,trimStart,List.dropWhile_append]
  split_ifs with hempty
  · rw [List.isEmpty_iff] at hempty
    simp [hempty,hc]
  · rfl

theorem trim_of_none {p : α → Bool} {text : List α} (h : ∀ c ∈ text, p c = false) : trim p text = text := by
  have hstart : trimStart p text = text := by
    cases text with
    | nil => rfl
    | cons c text => simp [trimStart,h c List.mem_cons_self]
  rw [trim,hstart]
  rcases List.eq_nil_or_concat text with rfl | ⟨front,last,rfl⟩
  · rfl
  · have := @trimEnd_append_cons _ p last (h last (by simp)) front []
    simpa [trimEnd] using this

/-- Appended text is trimmed at its end alone. -/
theorem trim_append_cons {p : α → Bool} {c : α} {text : List α} (h : ∀ a ∈ text, p a = false) (hc : p c = false) (text' : List α) :
    trim p (text ++ c :: text') = text ++ c :: trimEnd p text' := by
  have hstart : trimStart p (text ++ c :: text') = text ++ c :: text' := by
    cases text with
    | nil => simp [trimStart,hc]
    | cons a text => simp [trimStart,h a List.mem_cons_self]
  rw [trim,hstart,trimEnd_append_cons hc]

theorem trim_sublist (p : α → Bool) (text : List α) : (trim p text).Sublist text :=
  (List.rdropWhile_prefix _ _).sublist.trans (List.dropWhile_sublist _)

end Trim

end MeshLlm
