import MeshLlm.Library.Bytes

/-! # Encodings that delimit themselves

An encoding delimits itself when what follows an encoded value can be told from the value.
Such encodings stay so under pairing, options and counted lists.
-/
namespace MeshLlm

variable {α β : Type*}

/-- The value and the rest can be told from the bytes of both. -/
def Delimits (enc : α → List UInt8) : Prop := ∀ a b s t, enc a ++ s = enc b ++ t → a = b ∧ s = t

/-- A list that fits into memory. -/
abbrev Sized (α : Type*) := {l : List α // l.length < 2^63}

namespace Delimits

theorem injective {enc : α → List UInt8} (h : Delimits enc) {a b : α} (heq : enc a = enc b) : a = b :=
  (h a b [] [] (by rw [heq])).1

/-- Encodings of one width delimit themselves. -/
theorem of_width {enc : α → List UInt8} {width : ℕ} (hwidth : ∀ a, (enc a).length = width)
    (hinj : Function.Injective enc) : Delimits enc := by
  intro a b s t h
  obtain ⟨heq,hrest⟩ := List.append_inj h ((hwidth a).trans (hwidth b).symm)
  exact ⟨hinj heq,hrest⟩

theorem u32 : Delimits (fun n : UInt32 => leBytes 4 n.toNat) := by
  refine of_width (fun n => length_leBytes 4 _) fun a b h => UInt32.toNat_inj.mp ?_
  have heq := congrArg leValue h
  rwa [leValue_leBytes (by have := a.toNat_lt; omega),leValue_leBytes (by have := b.toNat_lt; omega)] at heq

theorem u64 : Delimits (fun n : UInt64 => leBytes 8 n.toNat) := by
  refine of_width (fun n => length_leBytes 8 _) fun a b h => UInt64.toNat_inj.mp ?_
  have heq := congrArg leValue h
  rwa [leValue_leBytes (by have := a.toNat_lt; omega),leValue_leBytes (by have := b.toNat_lt; omega)] at heq

theorem pair {f : α → List UInt8} {g : β → List UInt8} (hf : Delimits f) (hg : Delimits g) :
    Delimits (fun p : α × β => f p.1 ++ g p.2) := by
  rintro ⟨a,a'⟩ ⟨b,b'⟩ s t h
  rw [List.append_assoc,List.append_assoc] at h
  obtain ⟨rfl,h'⟩ := hf a b _ _ h
  obtain ⟨rfl,hrest⟩ := hg a' b' s t h'
  exact ⟨rfl,hrest⟩

theorem comp {f : β → List UInt8} (hf : Delimits f) {i : α → β} (hi : Function.Injective i) :
    Delimits (fun a => f (i a)) := by
  intro a b s t h
  obtain ⟨heq,hrest⟩ := hf _ _ s t h
  exact ⟨hi heq,hrest⟩

theorem option {f : α → List UInt8} (hf : Delimits f) :
    Delimits (fun o : Option α => match o with | some a => 1 :: f a | none => [0]) := by
  intro a b s t h
  cases a with
  | none =>
    cases b with
    | none => exact ⟨rfl,by simpa using h⟩
    | some b => simp at h
  | some a =>
    cases b with
    | none => simp at h
    | some b =>
      rw [List.cons_append,List.cons_append,List.cons.injEq] at h
      obtain ⟨rfl,hrest⟩ := hf a b s t h.2
      exact ⟨rfl,hrest⟩

/-- As many values one after the other. -/
theorem flatMap {f : α → List UInt8} (hf : Delimits f) {l m : List α} (hlen : l.length = m.length) {s t : List UInt8}
    (h : l.flatMap f ++ s = m.flatMap f ++ t) : l = m ∧ s = t := by
  induction l generalizing m with
  | nil =>
    obtain rfl := List.eq_nil_of_length_eq_zero hlen.symm
    exact ⟨rfl,h⟩
  | cons a l ih =>
    obtain ⟨b,m,rfl⟩ := List.exists_cons_of_length_eq_add_one hlen.symm
    rw [List.flatMap_cons,List.flatMap_cons,List.append_assoc,List.append_assoc] at h
    obtain ⟨rfl,h'⟩ := hf a b _ _ h
    obtain ⟨rfl,hrest⟩ := ih (by simpa using hlen) h'
    exact ⟨rfl,hrest⟩

theorem length_eq {n m : ℕ} (hn : n < 2^63) (hm : m < 2^63) {s t : List UInt8}
    (h : leBytes 8 n ++ s = leBytes 8 m ++ t) : n = m ∧ s = t := by
  obtain ⟨heq,hrest⟩ := List.append_inj h (by simp)
  have hvalue := congrArg leValue heq
  rw [leValue_leBytes (by omega),leValue_leBytes (by omega)] at hvalue
  exact ⟨hvalue,hrest⟩

/-- A list after its length. -/
theorem counted {f : α → List UInt8} (hf : Delimits f) :
    Delimits (fun l : Sized α => leBytes 8 l.1.length ++ l.1.flatMap f) := by
  rintro ⟨l,hl⟩ ⟨m,hm⟩ s t h
  rw [List.append_assoc,List.append_assoc] at h
  obtain ⟨hlen,h'⟩ := length_eq hl hm h
  obtain ⟨rfl,hrest⟩ := hf.flatMap hlen h'
  exact ⟨rfl,hrest⟩

/-- Bytes after their number. -/
theorem bytes : Delimits (fun l : Sized UInt8 => leBytes 8 l.1.length ++ l.1) := by
  rintro ⟨l,hl⟩ ⟨m,hm⟩ s t h
  rw [List.append_assoc,List.append_assoc] at h
  obtain ⟨hlen,h'⟩ := length_eq hl hm h
  obtain ⟨rfl,hrest⟩ := List.append_inj h' hlen
  exact ⟨rfl,hrest⟩

end Delimits

end MeshLlm
