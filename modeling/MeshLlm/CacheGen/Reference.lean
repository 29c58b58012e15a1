import MeshLlm.CacheGen.RansRoundTrip

/-! # Token deltas and the static frequencies of a tile

The delta pass writes over the tile it reads, last row first, and its inverse first
row first. The frequencies are the histogram scaled to the total of the coder, at
least one for every symbol, with what rounding and that floor moved taken from the
largest entries or spread from the commonest symbol on.
-/
namespace MeshLlm.CacheGen

/-- Quantized symbol alphabet size. -/
def tokenCount : ℕ := 1 <<< 4
def alphabetMask : UInt8 := 15

def validateShape (len dims : ℕ) : Outcome Unit :=
  Outcome.refuseIf (dims = 0 ∨ ¬dims ∣ len)
    ("tile shape mismatch: " ++ toString len ++ " values are not rows of " ++ toString dims)

/-- One row of a delta pass, in place; both positions are inside the tile. -/
def deltaStep (combine : UInt8 → UInt8 → UInt8) (dims : ℕ) (symbols : List UInt8) (row : ℕ) : List UInt8 :=
  symbols.set row (combine (symbols.getD row 0) (symbols.getD (row - dims) 0) &&& alphabetMask)

/-- The rows behind the first, in order. -/
def deltaRows (dims len : ℕ) : List ℕ := List.range' dims (len - dims)

def deltaEncode (symbols : List UInt8) (dims : ℕ) : Outcome (List UInt8) := do
  validateShape symbols.length dims
  return (deltaRows dims symbols.length).reverse.foldl (deltaStep (· - ·) dims) symbols

def deltaDecode (symbols : List UInt8) (dims : ℕ) : Outcome (List UInt8) := do
  validateShape symbols.length dims
  return (deltaRows dims symbols.length).foldl (deltaStep (· + ·) dims) symbols

/-- The lowest position of a greatest entry: `max_by_key` with the index reversed to break ties. -/
def largestIndex (l : List ℕ) : ℕ := l.idxOf (l.max?.getD 0)

/-- One unit is taken from the largest frequency for each unit above the scale. -/
def takeDown : ℕ → List ℕ → List ℕ
  | 0, freqs => freqs
  | excess+1, freqs => takeDown excess (freqs.modify (largestIndex freqs) (· - 1))

/-- Missing units are added from the candidate on, round the alphabet. `left` counts the
indices the loop may still try: the first is zero and the last is the scale. -/
def fillUp (candidate : ℕ) : ℕ → List ℕ → Outcome (List ℕ)
  | 0, freqs => if freqs.sum < scale then Outcome.refuse "histogram normalization failed to converge" else .ok freqs
  | left+1, freqs =>
    if freqs.sum < scale then
      let index := scale - left
      let target := if index = 0 then candidate else (candidate + index) % tokenCount
      fillUp candidate left (if freqs.getD target 0 < scale then freqs.modify target (· + 1) else freqs)
    else .ok freqs

def histogramToFreqs (histogram : List ℕ) (total : ℕ) : Outcome (List ℕ) := do
  Outcome.refuseIf (histogram.length ≠ tokenCount) "histogram must cover every 4-bit symbol"
  Outcome.refuseIf (total = 0) "cannot build a symbol table for an empty tile"
  Outcome.refuseIf (histogram.sum ≠ total)
    ("histogram totals " ++ toString histogram.sum ++ " but the caller declares " ++ toString total ++ " symbols")
  let freqs := histogram.map fun count => max (count * scale / total) 1
  let freqs := takeDown (freqs.sum - scale) freqs
  fillUp (largestIndex histogram) (scale + 1) freqs

/-- The counts of the symbols; a symbol outside the alphabet has no count to raise. -/
def countSymbols (symbols : List UInt8) : Outcome (List ℕ) :=
  symbols.foldlM (fun histogram symbol =>
    if symbol.toNat < histogram.length then .ok (histogram.modify symbol.toNat (· + 1)) else Outcome.fault)
    (List.replicate tokenCount 0)

section Deltas

/-- Every symbol of the tile is one of the alphabet. -/
def InAlphabet (symbols : List UInt8) : Prop := ∀ symbol ∈ symbols, symbol.toNat < tokenCount

theorem masked_lt (a : UInt8) : (a &&& alphabetMask).toNat < tokenCount := by
  have hand : (a &&& alphabetMask).toNat = a.toNat % 16 := by
    rw [UInt8.toNat_and]
    exact Nat.and_two_pow_sub_one_eq_mod a.toNat 4
  rw [hand]
  exact Nat.mod_lt _ (by decide)

/-- Adding a symbol back inverts its subtraction on the ring of the alphabet. -/
theorem add_masked_sub {a b : UInt8} (ha : a.toNat < tokenCount) :
    ((a - b) &&& alphabetMask) + b &&& alphabetMask = a := by
  have htokens : tokenCount = 16 := rfl
  have hand (c : UInt8) : (c &&& alphabetMask).toNat = c.toNat % 16 := by
    rw [UInt8.toNat_and]
    exact Nat.and_two_pow_sub_one_eq_mod c.toNat 4
  apply UInt8.toNat_inj.mp
  have hb := b.toNat_lt
  rw [hand,UInt8.toNat_add,hand,UInt8.toNat_sub]
  omega

variable {combine : UInt8 → UInt8 → UInt8} {dims row : ℕ} {symbols : List UInt8}

@[simp] theorem deltaStep_length : (deltaStep combine dims symbols row).length = symbols.length := by simp [deltaStep]

theorem deltaStep_inAlphabet (h : InAlphabet symbols) : InAlphabet (deltaStep combine dims symbols row) := by
  intro symbol hmem
  rcases List.mem_or_eq_of_mem_set hmem with hold | rfl
  · exact h symbol hold
  · exact masked_lt _

variable (combine dims) in
theorem foldl_deltaStep (rows : List ℕ) (h : InAlphabet symbols) :
    (rows.foldl (deltaStep combine dims) symbols).length = symbols.length ∧
      InAlphabet (rows.foldl (deltaStep combine dims) symbols) := by
  induction rows generalizing symbols with
  | nil => exact ⟨rfl,h⟩
  | cons row rows ih =>
    rw [List.foldl_cons]
    obtain ⟨hlength,hsymbols⟩ := ih (deltaStep_inAlphabet h)
    exact ⟨hlength.trans deltaStep_length,hsymbols⟩

/-- The row a step reads stands before the row it writes, so the inverse step reads the same row. -/
theorem deltaStep_inverse (hdims : 0 < dims) (hrow : dims ≤ row) (hlen : row < symbols.length) (h : InAlphabet symbols) :
    deltaStep (· + ·) dims (deltaStep (· - ·) dims symbols row) row = symbols := by
  have hread : row ≠ row - dims := by omega
  have hprev : row - dims < symbols.length := by omega
  have hsymbol : (symbols.getD row 0).toNat < tokenCount := by
    rw [List.getD_eq_getElem _ _ hlen]
    exact h _ (List.getElem_mem hlen)
  simp only [deltaStep,List.set_set]
  have hwritten (a : UInt8) : (symbols.set row a).getD row 0 = a := by
    rw [List.getD_eq_getElem _ _ (by simpa using hlen),List.getElem_set_self]
  have hkept (a : UInt8) : (symbols.set row a).getD (row - dims) 0 = symbols.getD (row - dims) 0 := by
    rw [List.getD_eq_getElem _ _ (by simpa using hprev),List.getElem_set_ne hread,List.getD_eq_getElem _ _ hprev]
  rw [hwritten,hkept,add_masked_sub hsymbol,List.getD_eq_getElem _ _ hlen]
  exact List.set_getElem_self hlen

/-- Rows undone in the order opposite to the one they were done in leave the tile as it was. -/
theorem foldl_deltaStep_inverse (hdims : 0 < dims) {rows : List ℕ} (hrows : ∀ row ∈ rows, dims ≤ row ∧ row < symbols.length)
    (h : InAlphabet symbols) :
    rows.foldl (deltaStep (· + ·) dims) (rows.reverse.foldl (deltaStep (· - ·) dims) symbols) = symbols := by
  induction rows with
  | nil => rfl
  | cons row rows ih =>
    obtain ⟨⟨hrow,hlen⟩,hrows⟩ := List.forall_mem_cons.mp hrows
    obtain ⟨hlength,halphabet⟩ := foldl_deltaStep (· - ·) dims rows.reverse h
    rw [List.reverse_cons,List.foldl_append,List.foldl_cons,List.foldl_cons,List.foldl_nil,
      deltaStep_inverse hdims hrow (hlength.symm ▸ hlen) halphabet]
    exact ih hrows

theorem deltaDecode_deltaEncode (h : InAlphabet symbols) (hdims : 0 < dims) (hshape : dims ∣ symbols.length) :
    ∃ deltas, deltaEncode symbols dims = .ok deltas ∧ deltas.length = symbols.length ∧ InAlphabet deltas ∧
      deltaDecode deltas dims = .ok symbols := by
  have hshape : validateShape symbols.length dims = .ok () := by
    apply Outcome.refuseIf_neg
    rintro (hzero | hmultiple)
    · omega
    · exact hmultiple hshape
  obtain ⟨hlength,halphabet⟩ := foldl_deltaStep (· - ·) dims (deltaRows dims symbols.length).reverse h
  refine ⟨_,?_,hlength,halphabet,?_⟩
  · rw [deltaEncode,hshape]
    rfl
  · rw [deltaDecode,hlength,hshape]
    refine congrArg Except.ok (foldl_deltaStep_inverse hdims ?_ h)
    intro row hrow
    rw [deltaRows,List.mem_range'_1] at hrow
    omega

end Deltas

section Frequencies

theorem sum_modify {l : List ℕ} {i : ℕ} (hi : i < l.length) (f : ℕ → ℕ) : (l.modify i f).sum + l[i] = l.sum + f l[i] := by
  induction l generalizing i with
  | nil => simp at hi
  | cons a l ih =>
    cases i with
    | zero =>
      simp
      omega
    | succ i =>
      have := ih (i := i) (by simpa using hi)
      simp only [List.modify_succ_cons,List.sum_cons,List.getElem_cons_succ]
      omega

theorem forall_mem_modify {P : ℕ → Prop} {l : List ℕ} (hl : ∀ a ∈ l, P a) {i : ℕ} {f : ℕ → ℕ} (hf : ∀ h : i < l.length, P (f l[i])) :
    ∀ a ∈ l.modify i f, P a := by
  intro a ha
  obtain ⟨j,hj,rfl⟩ := List.mem_iff_getElem.mp ha
  rw [List.getElem_modify]
  split
  next h =>
    subst h
    exact hf (by simpa using hj)
  next => exact hl _ (List.getElem_mem _)

theorem largestIndex_spec {l : List ℕ} (h : l ≠ []) :
    ∃ hlt : largestIndex l < l.length, ∀ a ∈ l, a ≤ l[largestIndex l] := by
  cases hmax : l.max? with
  | none => exact absurd (List.max?_eq_none_iff.mp hmax) h
  | some a =>
    obtain ⟨hmem,hle⟩ := List.max?_eq_some_iff.mp hmax
    have hindex : largestIndex l = l.idxOf a := by rw [largestIndex,hmax,Option.getD_some]
    have hlt : largestIndex l < l.length := hindex ▸ List.idxOf_lt_length_of_mem hmem
    have hget : l[largestIndex l] = a := by
      simp only [hindex]
      exact List.getElem_idxOf _
    exact ⟨hlt,hget ▸ hle⟩

/-- Frequencies as the loops keep them: one for every symbol, none of them zero. -/
def IsFreqs (freqs : List ℕ) : Prop := freqs.length = tokenCount ∧ ∀ freq ∈ freqs, 1 ≤ freq

theorem IsFreqs.ne_nil {freqs : List ℕ} (h : IsFreqs freqs) : freqs ≠ [] := by
  rintro rfl
  cases h.1

/-- Above the scale some frequency is far above one, so a unit taken from the largest leaves it positive. -/
theorem takeDown_isFreqs {excess : ℕ} {freqs : List ℕ} (h : IsFreqs freqs) (hsum : freqs.sum = scale + excess) :
    IsFreqs (takeDown excess freqs) ∧ (takeDown excess freqs).sum = scale := by
  induction excess generalizing freqs with
  | zero => exact ⟨h,hsum⟩
  | succ excess ih =>
    obtain ⟨hlt,hle⟩ := largestIndex_spec h.ne_nil
    have hbound : freqs.sum ≤ freqs.length * freqs[largestIndex freqs] := List.sum_le_card_nsmul _ _ hle
    have hlarge : 2 ≤ freqs[largestIndex freqs] := by
      by_contra hsmall
      have : freqs.length * freqs[largestIndex freqs] ≤ freqs.length * 1 := Nat.mul_le_mul_left _ (by omega)
      have hscale : scale = 4096 := rfl
      have htokens : tokenCount = 16 := rfl
      have hlength := h.1
      omega
    have hmodify := sum_modify hlt (· - 1)
    apply ih
    · exact ⟨by rw [List.length_modify,h.1],forall_mem_modify h.2 fun _ => by omega⟩
    · omega

/-- Below the scale every frequency is below it, so each index tried adds a unit. -/
theorem fillUp_isFreqs (left : ℕ) {candidate : ℕ} {freqs : List ℕ} (hcandidate : candidate < tokenCount) (h : IsFreqs freqs)
    (hsum : freqs.sum ≤ scale) (hleft : scale ≤ freqs.sum + left) :
    ∃ filled, fillUp candidate left freqs = .ok filled ∧ IsFreqs filled ∧ filled.sum = scale := by
  induction left generalizing freqs with
  | zero => exact ⟨freqs,if_neg (by omega),h,by omega⟩
  | succ left ih =>
    rw [fillUp]
    split
    next hlt =>
      have htarget : (if scale - left = 0 then candidate else (candidate + (scale - left)) % tokenCount) < freqs.length := by
        rw [h.1]
        split
        · exact hcandidate
        · exact Nat.mod_lt _ (by decide)
      dsimp only
      generalize (if scale - left = 0 then candidate else (candidate + (scale - left)) % tokenCount) = target at htarget
      have hfreq : freqs[target] ≤ freqs.sum := List.le_sum_of_mem (List.getElem_mem _)
      have hmodify : (freqs.modify target (· + 1)).sum + freqs[target] = freqs.sum + (freqs[target] + 1) := sum_modify htarget _
      simp only [List.getD_eq_getElem _ _ htarget]
      rw [if_pos (by omega)]
      apply ih
      · exact ⟨by rw [List.length_modify,h.1],forall_mem_modify h.2 fun _ => by omega⟩
      · omega
      · omega
    next hge => exact ⟨freqs,rfl,h,by omega⟩

/-- A histogram that accounts for its tile has frequencies, and they make a table. -/
theorem histogramToFreqs_usable {histogram : List ℕ} {total : ℕ} (hlength : histogram.length = tokenCount) (htotal : 0 < total)
    (hsum : histogram.sum = total) :
    ∃ freqs table, histogramToFreqs histogram total = .ok freqs ∧ SymbolTable.fromFreqs freqs = some table ∧
      table.freqs.length = tokenCount ∧ table.Usable := by
  have hcandidate : largestIndex histogram < tokenCount := by
    rw [← hlength]
    exact (largestIndex_spec (by rintro rfl; cases hlength)).1
  set scaled := histogram.map fun count => max (count * scale / total) 1 with hscaled
  have hfreqs : IsFreqs scaled := by
    refine ⟨by rw [hscaled,List.length_map,hlength],?_⟩
    intro freq hfreq
    obtain ⟨count,-,rfl⟩ := List.mem_map.mp hfreq
    exact le_max_right _ _
  have hdown : IsFreqs (takeDown (scaled.sum - scale) scaled) ∧ (takeDown (scaled.sum - scale) scaled).sum ≤ scale := by
    rcases le_total scaled.sum scale with hle | hge
    · rw [Nat.sub_eq_zero_of_le hle]
      exact ⟨hfreqs,hle⟩
    · obtain ⟨hfreqs,heq⟩ := takeDown_isFreqs hfreqs (Nat.add_sub_cancel' hge).symm
      exact ⟨hfreqs,heq.le⟩
  obtain ⟨freqs,hfill,hfreqs,hsumFreqs⟩ := fillUp_isFreqs (scale + 1) hcandidate hdown.1 hdown.2 (by omega)
  obtain ⟨table,htable,hsame,husable⟩ := fromFreqs_usable (fun freq h => hfreqs.2 freq h) hsumFreqs
  refine ⟨freqs,table,?_,htable,hsame ▸ hfreqs.1,husable⟩
  rw [hscaled] at hfill
  refine bind_eq_ok.mpr ⟨(),Outcome.refuseIf_neg _ (by simpa using hlength),?_⟩
  refine bind_eq_ok.mpr ⟨(),Outcome.refuseIf_neg _ (by omega),?_⟩
  exact bind_eq_ok.mpr ⟨(),Outcome.refuseIf_neg _ (by simpa using hsum),hfill⟩

theorem countSymbols_spec {symbols : List UInt8} (h : InAlphabet symbols) :
    ∃ histogram, countSymbols symbols = .ok histogram ∧ histogram.length = tokenCount ∧ histogram.sum = symbols.length := by
  have hstep : ∀ (symbols : List UInt8) (start : List ℕ), InAlphabet symbols → start.length = tokenCount →
      ∃ histogram, symbols.foldlM (fun histogram symbol => if symbol.toNat < histogram.length then
        .ok (histogram.modify symbol.toNat (· + 1)) else Outcome.fault) start = .ok histogram ∧
        histogram.length = tokenCount ∧ histogram.sum = start.sum + symbols.length := by
    intro symbols
    induction symbols with
    | nil => exact fun start _ hstart => ⟨start,rfl,hstart,rfl⟩
    | cons symbol symbols ih =>
      intro start hsymbols hstart
      obtain ⟨hsymbol,hsymbols⟩ := List.forall_mem_cons.mp hsymbols
      have hlt : symbol.toNat < start.length := hstart ▸ hsymbol
      have hmodify := sum_modify hlt (· + 1)
      obtain ⟨histogram,hfold,hlength,hsum⟩ := ih (start.modify symbol.toNat (· + 1)) hsymbols (by rw [List.length_modify,hstart])
      refine ⟨histogram,?_,hlength,?_⟩
      · rw [List.foldlM_cons,if_pos hlt]
        exact hfold
      · rw [List.length_cons]
        omega
  obtain ⟨histogram,hfold,hlength,hsum⟩ := hstep symbols _ h (List.length_replicate)
  exact ⟨histogram,hfold,hlength,by simpa using hsum⟩

end Frequencies

end MeshLlm.CacheGen
