import MeshLlm.Library.Bytes

/-! # Readers of a byte stream

A reader takes a value off the front of a stream or fails. It is exact for a way of
writing when it accepts precisely what is written for the values of a predicate, and
leaves what follows. Exactness composes along the sequence of the reader's steps: every
step reads one field of the value that the reader returns in the end.
-/
namespace MeshLlm

/-- A reader takes a value off the front of the bytes or fails. -/
abbrev Reader (ε : Type) := StateT (List UInt8) (Except ε)

namespace Reader
variable {ε α β : Type}

/-- `read_exact`: so many bytes, or the error of a stream that ends before. -/
def bytes (eof : ε) (n : ℕ) : Reader ε (List UInt8) := fun s =>
  if n ≤ s.length then .ok (s.take n,s.drop n) else .error eof

/-- The reader runs so many times. -/
def times (r : Reader ε α) : ℕ → Reader ε (List α)
  | 0 => pure []
  | n+1 => do
    let a ← r
    let l ← times r n
    return a :: l

/-- An array of bytes. -/
def array (eof : ε) (n : ℕ) : Reader ε (List.Vector UInt8 n) := fun s =>
  if h : n ≤ s.length then .ok (⟨s.take n,List.length_take_of_le h⟩,s.drop n) else .error eof

/-- The reader runs once for each entry of an array. -/
def vector (r : Reader ε α) : (n : ℕ) → Reader ε (List.Vector α n)
  | 0 => pure .nil
  | n+1 => do
    let a ← r
    let v ← vector r n
    return a ::ᵥ v

/-- A number of so many bytes, low byte first. -/
def number (eof : ε) (width : ℕ) (dec : ℕ → α) : Reader ε α := do
  let bs ← bytes eof width
  return dec (leValue bs)

/-- The reader takes these bytes off any stream that begins with them and returns the value. -/
def Reads (r : Reader ε α) (bs : List UInt8) (a : α) : Prop := ∀ rest, r (bs ++ rest) = .ok (a,rest)

/-- The reader accepts what is written for the values of `P`, and nothing else. -/
structure Exact (P : α → Prop) (write : α → List UInt8) (r : Reader ε α) : Prop where
  reads : ∀ a, P a → Reads r (write a) a
  only : ∀ {s a rest}, r s = .ok (a,rest) → P a ∧ s = write a ++ rest

theorem run_bind (r : Reader ε α) (f : α → Reader ε β) (s : List UInt8) :
    (r >>= f) s = (r s).bind fun p => f p.1 p.2 := rfl

theorem run_pure (a : α) (s : List UInt8) : (pure a : Reader ε α) s = .ok (a,s) := rfl

theorem run_lift (x : Except ε α) (s : List UInt8) : (liftM x : Reader ε α) s = x.map fun a => (a,s) := by
  cases x <;> rfl

/-- A run of two steps is a run of the first and one of the second on what it left. -/
theorem bind_ok {r : Reader ε α} {f : α → Reader ε β} {s rest : List UInt8} {b : β} (h : (r >>= f) s = .ok (b,rest)) :
    ∃ a s', r s = .ok (a,s') ∧ f a s' = .ok (b,rest) := by
  rw [run_bind] at h
  cases hr : r s with
  | error e =>
    rw [hr] at h
    cases h
  | ok p =>
    rw [hr] at h
    exact ⟨p.1,p.2,rfl,h⟩

theorem lift_ok {x : Except ε α} {s rest : List UInt8} {a : α} (h : (liftM x : Reader ε α) s = .ok (a,rest)) :
    x = .ok a ∧ rest = s := by
  rw [run_lift] at h
  cases x with
  | error e => cases h
  | ok b =>
    cases h
    exact ⟨rfl,rfl⟩

theorem pure_ok {a b : α} {s rest : List UInt8} (h : (pure a : Reader ε α) s = .ok (b,rest)) : a = b ∧ rest = s := by
  rw [run_pure] at h
  cases h
  exact ⟨rfl,rfl⟩

/-- A check that fails fails the run, whatever comes. -/
theorem run_lift_bind (x : Except ε α) (f : α → Reader ε β) (s : List UInt8) :
    ((liftM x : Reader ε α) >>= f) s = x.bind fun a => f a s := by
  rw [run_bind,run_lift]
  cases x <;> rfl

/-- Where each value, once written, is read with some result, errors included, a stream of
written values is read with the results of all. -/
theorem run_times {r : Reader ε α} {write : β → List UInt8} {result : β → Except ε α} {l : List β}
    (h : ∀ b ∈ l, ∀ rest, r (write b ++ rest) = (result b).map fun a => (a,rest)) {rest : List UInt8} :
    times r l.length (l.flatMap write ++ rest) = (l.mapM result).map fun as => (as,rest) := by
  induction l with
  | nil => rfl
  | cons b l ih =>
    obtain ⟨hb,hl⟩ := List.forall_mem_cons.mp h
    rw [List.length_cons,times,List.flatMap_cons,List.append_assoc,run_bind,hb,List.mapM_cons]
    cases result b with
    | error e => rfl
    | ok a =>
      refine (run_bind _ _ _).trans ?_
      rw [ih hl]
      cases l.mapM result <;> rfl

namespace Reads
variable {r : Reader ε α} {f : α → Reader ε β} {bs cs : List UInt8} {a : α} {b : β}

theorem pure (a : α) : Reads (pure a : Reader ε α) [] a := fun _ => rfl

theorem lift {x : Except ε α} (h : x = .ok a) : Reads (liftM x : Reader ε α) [] a := by
  intro rest
  rw [run_lift,h]
  rfl

/-- The steps after one that reads run on what it left. -/
theorem run (h : Reads r bs a) (f : α → Reader ε β) (rest : List UInt8) : (r >>= f) (bs ++ rest) = f a rest := by
  rw [run_bind,h]
  rfl

theorem bind (h : Reads r bs a) (hf : Reads (f a) cs b) : Reads (r >>= f) (bs ++ cs) b := by
  intro rest
  rw [List.append_assoc,run_bind,h]
  exact hf rest

/-- A step that takes nothing off the stream. -/
theorem bind_nil (h : Reads r [] a) (hf : Reads (f a) cs b) : Reads (r >>= f) cs b := h.bind hf

/-- A last step that takes nothing off the stream. -/
theorem bind_last (h : Reads r bs a) (hf : Reads (f a) [] b) : Reads (r >>= f) bs b := by
  have hboth := h.bind hf
  rwa [List.append_nil] at hboth

theorem bytes {eof : ε} {n : ℕ} (h : bs.length = n) : Reads (bytes eof n) bs bs := by
  intro rest
  rw [Reader.bytes,if_pos (by rw [List.length_append]; omega),List.take_left' h,List.drop_left' h]

theorem times {write : α → List UInt8} {l : List α} (h : ∀ a ∈ l, Reads r (write a) a) :
    Reads (times r l.length) (l.flatMap write) l := by
  induction l with
  | nil => exact Reads.pure []
  | cons a l ih =>
    refine (h a List.mem_cons_self).bind ?_
    exact (ih fun b hb => h b (List.mem_cons_of_mem _ hb)).bind_last (f := fun l => return a :: l) (Reads.pure _)

end Reads

namespace Exact
variable {P : α → Prop} {Q : β → Prop} {write : α → List UInt8} {write' : β → List UInt8} {r : Reader ε α} {f : α → Reader ε β}

theorem pure (a : α) : Exact (· = a) (fun _ => []) (pure a : Reader ε α) where
  reads b hb := hb ▸ Reads.pure b
  only h := by
    obtain ⟨rfl,rfl⟩ := pure_ok h
    exact ⟨rfl,rfl⟩

/-- The last step returns the value whose fields have been read. -/
theorem done {b : β} (h : ∀ c, Q c ↔ c = b) : Exact Q (fun _ => []) (Pure.pure b : Reader ε β) := by
  obtain rfl : Q = (· = b) := funext fun c => propext (h c)
  exact Exact.pure b

/-- A step reads the field `p` of the value, the steps after it the rest. -/
theorem bind {p : β → α} (h : Exact P write r)
    (hf : ∀ a, P a → Exact (fun b => Q b ∧ p b = a) write' (f a)) (hQ : ∀ b, Q b → P (p b)) :
    Exact Q (fun b => write (p b) ++ write' b) (r >>= f) where
  reads b hb := (h.reads _ (hQ b hb)).bind ((hf _ (hQ b hb)).reads b ⟨hb,rfl⟩)
  only hrun := by
    obtain ⟨a,s',hr,hfa⟩ := bind_ok hrun
    obtain ⟨ha,rfl⟩ := h.only hr
    obtain ⟨⟨hb,rfl⟩,rfl⟩ := (hf a ha).only hfa
    exact ⟨hb,by rw [List.append_assoc]⟩

/-- A step reads the field `p`, whatever its value. -/
theorem field {write : α → List UInt8} (p : β → α) (h : Exact (fun _ => True) write r)
    (hf : ∀ a, Exact (fun b => Q b ∧ p b = a) write' (f a)) : Exact Q (fun b => write (p b) ++ write' b) (r >>= f) :=
  h.bind (fun a _ => hf a) fun _ _ => trivial

/-- A step checks what has been read and takes nothing off the stream. -/
theorem check {x : Except ε α} (hok : ∀ b, Q b → ∃ a, x = .ok a) (hf : ∀ a, x = .ok a → Exact Q write' (f a)) :
    Exact Q write' (liftM x >>= f) where
  reads b hb := by
    obtain ⟨a,ha⟩ := hok b hb
    exact (Reads.lift ha).bind_nil ((hf a ha).reads b hb)
  only hrun := by
    obtain ⟨a,s',hr,hfa⟩ := bind_ok hrun
    obtain ⟨ha,rfl⟩ := lift_ok hr
    exact (hf a ha).only hfa

/-- A branch that no value takes. -/
theorem fail {e : ε} (h : ∀ b, ¬ Q b) : Exact Q write' (liftM (.error e : Except ε β) : Reader ε β) where
  reads b hb := absurd hb (h b)
  only hrun := by cases (lift_ok hrun).1

/-- The value is a code that is read and looked up. -/
theorem decode {code : β → α} {x : α → Except ε β} (h : Exact P write r)
    (hx : ∀ a b, P a → (x a = .ok b ↔ Q b ∧ code b = a)) (hQ : ∀ b, Q b → P (code b)) :
    Exact Q (fun b => write (code b)) (r >>= fun a => liftM (x a)) where
  reads b hb := (h.reads _ (hQ b hb)).bind_last (f := fun a => liftM (x a)) (Reads.lift ((hx _ b (hQ b hb)).mpr ⟨hb,rfl⟩))
  only hrun := by
    obtain ⟨a,s',hr,hfa⟩ := bind_ok hrun
    obtain ⟨ha,rfl⟩ := h.only hr
    obtain ⟨hok,rfl⟩ := lift_ok hfa
    obtain ⟨hb,rfl⟩ := (hx a _ ha).mp hok
    exact ⟨hb,rfl⟩

/-- The value wraps what is read. -/
theorem wrap {i : α → β} {j : β → α} (h : Exact P write r) (hi : ∀ a, P a → j (i a) = a) (hj : ∀ b, i (j b) = b) :
    Exact (fun b => P (j b)) (fun b => write (j b)) (r >>= fun a => Pure.pure (i a)) where
  reads b hb := by
    have hrest := (h.reads _ hb).bind_last (f := fun a => Pure.pure (i a)) (Reads.pure _)
    rwa [hj] at hrest
  only hrun := by
    obtain ⟨a,s',hr,hfa⟩ := bind_ok hrun
    obtain ⟨ha,rfl⟩ := h.only hr
    obtain ⟨rfl,rfl⟩ := pure_ok hfa
    rw [hi a ha]
    exact ⟨ha,rfl⟩

theorem congr {P' : α → Prop} {w : α → List UInt8} (h : Exact P write r) (hP : ∀ a, P' a ↔ P a) (hw : ∀ a, P a → w a = write a) :
    Exact P' w r where
  reads a ha := by
    have ha := (hP a).mp ha
    rw [hw a ha]
    exact h.reads a ha
  only hrun := by
    obtain ⟨ha,rfl⟩ := h.only hrun
    exact ⟨(hP _).mpr ha,by rw [hw _ ha]⟩

theorem bytes {eof : ε} (n : ℕ) : Exact (fun bs => bs.length = n) id (bytes eof n) where
  reads _ h := Reads.bytes h
  only {s a rest} hrun := by
    rw [Reader.bytes] at hrun
    split at hrun
    · rename_i hlen
      cases hrun
      exact ⟨List.length_take_of_le hlen,(List.take_append_drop n s).symm⟩
    · cases hrun

theorem times (h : Exact P write r) (n : ℕ) :
    Exact (fun l => l.length = n ∧ ∀ a ∈ l, P a) (fun l => l.flatMap write) (times r n) where
  reads l hl := by
    obtain ⟨rfl,hall⟩ := hl
    exact Reads.times fun a ha => h.reads a (hall a ha)
  only {s l rest} hrun := by
    induction n generalizing s l with
    | zero =>
      obtain ⟨rfl,rfl⟩ := pure_ok hrun
      exact ⟨⟨rfl,by simp⟩,rfl⟩
    | succ n ih =>
      obtain ⟨a,s',hr,hrun⟩ := bind_ok hrun
      obtain ⟨l',s'',hl,hrun⟩ := bind_ok hrun
      obtain ⟨rfl,rfl⟩ := pure_ok hrun
      obtain ⟨ha,rfl⟩ := h.only hr
      obtain ⟨⟨hlen,hall⟩,rfl⟩ := ih hl
      exact ⟨⟨by rw [List.length_cons,hlen],List.forall_mem_cons.mpr ⟨ha,hall⟩⟩,by rw [List.flatMap_cons,List.append_assoc]⟩

theorem array {eof : ε} (n : ℕ) : Exact (fun _ => True) List.Vector.toList (array eof n) where
  reads v _ rest := by
    have hlen : v.toList.length = n := v.toList_length
    rw [Reader.array,dif_pos (by rw [List.length_append]; omega)]
    congr 2
    · exact Subtype.ext (List.take_left' hlen)
    · exact List.drop_left' hlen
  only {s v rest} hrun := by
    rw [Reader.array] at hrun
    split at hrun
    · cases hrun
      exact ⟨trivial,(List.take_append_drop n s).symm⟩
    · cases hrun

theorem vector (h : Exact (fun _ => True) write r) (n : ℕ) :
    Exact (fun _ => True) (fun v => v.toList.flatMap write) (vector r n) where
  reads v _ := by
    induction n with
    | zero =>
      rw [v.eq_nil]
      exact Reads.pure _
    | succ n ih =>
      rw [← v.cons_head_tail,List.Vector.toList_cons,List.flatMap_cons]
      exact (h.reads v.head trivial).bind ((ih v.tail).bind_last (f := fun w => return v.head ::ᵥ w) (Reads.pure _))
  only {s v rest} hrun := by
    refine ⟨trivial,?_⟩
    induction n generalizing s with
    | zero =>
      obtain ⟨rfl,rfl⟩ := pure_ok hrun
      rfl
    | succ n ih =>
      obtain ⟨a,s',hr,hrun⟩ := bind_ok hrun
      obtain ⟨w,s'',hw,hrun⟩ := bind_ok hrun
      obtain ⟨rfl,rfl⟩ := pure_ok hrun
      obtain ⟨-,rfl⟩ := h.only hr
      rw [List.Vector.toList_cons,List.flatMap_cons,List.append_assoc,ih hw]

theorem number {eof : ε} {width : ℕ} {enc : α → ℕ} {dec : ℕ → α} (henc : ∀ a, enc a < 256^width)
    (hdec : ∀ a, dec (enc a) = a) (hinv : ∀ n < 256^width, enc (dec n) = n) :
    Exact (fun _ => True) (fun a => leBytes width (enc a)) (number eof width dec) where
  reads a _ := by
    have hbytes : Reads (Reader.bytes eof width) (leBytes width (enc a)) (leBytes width (enc a)) :=
      Reads.bytes (length_leBytes width (enc a))
    have hread := hbytes.bind_last (f := fun bs => Pure.pure (dec (leValue bs))) (Reads.pure _)
    rwa [leValue_leBytes (henc a),hdec] at hread
  only hrun := by
    obtain ⟨bs,s',hr,hrun⟩ := bind_ok hrun
    obtain ⟨rfl,rfl⟩ := pure_ok hrun
    obtain ⟨hlen,rfl⟩ := (Exact.bytes width).only hr
    have hlt := leValue_lt bs
    rw [hlen] at hlt
    rw [hinv _ hlt,← hlen,leBytes_leValue]
    exact ⟨trivial,rfl⟩

/-- Two exact readers of one way of writing accept the same streams with the same results. -/
theorem iff (h : Exact P write r) {s rest : List UInt8} {a : α} : r s = .ok (a,rest) ↔ P a ∧ s = write a ++ rest := by
  constructor
  · exact h.only
  · rintro ⟨ha,rfl⟩
    exact h.reads a ha rest

end Exact

end Reader

end MeshLlm
