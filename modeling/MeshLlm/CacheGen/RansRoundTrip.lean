import MeshLlm.CacheGen.Rans

/-! # rANS decoding undoes encoding

Between symbols the encoder's state stands in one interval of width `2^8`. A step
moves out the bytes that a refill of the decoder moves back in, and the stepped
state names the symbol by its low bits. So the decoder undoes a step, and a whole
stream, down to the state the encoder began with.
-/
namespace MeshLlm.CacheGen

theorem startsFrom_cons {running freq : ℕ} {freqs starts : List ℕ} (h : startsFrom running (freq :: freqs) = some starts) :
    ∃ rest, startsFrom (running + freq) freqs = some rest ∧ starts = running :: rest := by
  simp only [startsFrom,Option.bind_eq_bind,Option.bind_eq_some_iff,checkedAdd_eq_some] at h
  obtain ⟨next,⟨rfl,-⟩,rest,hrest,hstarts⟩ := h
  exact ⟨rest,hrest,by simpa using hstarts.symm⟩

theorem startsFrom_isSome (running : ℕ) (freqs : List ℕ) (h : running + freqs.sum ≤ u32Max) :
    ∃ starts, startsFrom running freqs = some starts := by
  induction freqs generalizing running with
  | nil => exact ⟨[],rfl⟩
  | cons freq freqs ih =>
    rw [List.sum_cons] at h
    obtain ⟨rest,hrest⟩ := ih (running + freq) (by omega)
    have hnext : checkedAdd u32Max running freq = some (running + freq) := checkedAdd_eq_some.mpr ⟨rfl,by omega⟩
    exact ⟨running :: rest,by simp [startsFrom,hnext,hrest]⟩

theorem startsFrom_getElem? {running i : ℕ} {freqs starts : List ℕ} (h : startsFrom running freqs = some starts)
    (hi : i < freqs.length) : starts[i]? = some (running + (freqs.take i).sum) := by
  induction freqs generalizing running starts i with
  | nil => simp at hi
  | cons freq freqs ih =>
    obtain ⟨rest,hrest,rfl⟩ := startsFrom_cons h
    cases i with
    | zero => simp
    | succ i =>
      rw [List.getElem?_cons_succ,ih hrest (by simpa using hi)]
      simp [Nat.add_assoc]

/-- The starts up to a value are those of the symbols up to the one that owns it. -/
theorem length_takeWhile_startsFrom {running i freq value : ℕ} {freqs starts : List ℕ}
    (h : startsFrom running freqs = some starts) (hfreq : freqs[i]? = some freq)
    (hlow : running + (freqs.take i).sum ≤ value) (hhigh : value < running + (freqs.take i).sum + freq) :
    (starts.takeWhile (· ≤ value)).length = i + 1 := by
  induction freqs generalizing running starts i with
  | nil => simp at hfreq
  | cons head freqs ih =>
    obtain ⟨rest,hrest,rfl⟩ := startsFrom_cons h
    have hhead : running ≤ value := le_trans (Nat.le_add_right _ _) hlow
    rw [List.takeWhile_cons_of_pos (by simpa using hhead),List.length_cons]
    cases i with
    | zero =>
      obtain rfl : head = freq := by simpa using hfreq
      have hempty : rest.takeWhile (· ≤ value) = [] := by
        cases freqs with
        | nil => simp_all [startsFrom]
        | cons next freqs =>
          obtain ⟨-,-,rfl⟩ := startsFrom_cons hrest
          apply List.takeWhile_cons_of_neg
          simpa using hhigh
      rw [hempty,List.length_nil]
    | succ i =>
      simp only [List.take_succ_cons,List.sum_cons] at hlow hhigh
      rw [ih hrest (by simpa using hfreq) (by omega) (by omega)]

/-- A table as the coder takes it: every symbol has values of its own, and they fill the scale. -/
structure SymbolTable.Usable (table : SymbolTable) : Prop where
  starts_eq : startsFrom 0 table.freqs = some table.starts
  pos : ∀ freq ∈ table.freqs, 0 < freq
  sum_eq : table.freqs.sum = scale

theorem fromFreqs_usable {freqs : List ℕ} (hpos : ∀ freq ∈ freqs, 0 < freq) (hsum : freqs.sum = scale) :
    ∃ table, SymbolTable.fromFreqs freqs = some table ∧ table.freqs = freqs ∧ table.Usable := by
  have hne : freqs ≠ [] := by
    rintro rfl
    cases hsum
  have hle : ∀ freq ∈ freqs, freq ≤ scale := fun freq h => hsum ▸ List.le_sum_of_mem h
  obtain ⟨starts,hstarts⟩ := startsFrom_isSome 0 freqs (by rw [hsum]; decide)
  refine ⟨{ starts, freqs },?_,rfl,hstarts,hpos,hsum⟩
  have hall : guard (freqs ≠ [] ∧ ∀ freq ∈ freqs, freq ≤ scale) = some () := if_pos ⟨hne,hle⟩
  simp [SymbolTable.fromFreqs,hall,hsum,hstarts]

/-- What the coder reads of one symbol: where its values start and how many it has. -/
theorem SymbolTable.Usable.symbol {table : SymbolTable} (h : table.Usable) {symbol : ℕ} (hsymbol : symbol < table.freqs.length) :
    ∃ start freq, table.starts[symbol]? = some start ∧ table.freqs[symbol]? = some freq ∧ 0 < freq ∧ start + freq ≤ scale ∧
      ∀ value, start ≤ value → value < start + freq → table.symbolFor value = symbol := by
  have hfreq : table.freqs[symbol]? = some (table.freqs[symbol]) := List.getElem?_eq_getElem hsymbol
  refine ⟨(table.freqs.take symbol).sum,table.freqs[symbol],?_,hfreq,h.pos _ (List.getElem_mem hsymbol),?_,?_⟩
  · simpa using startsFrom_getElem? h.starts_eq hsymbol
  · rw [← h.sum_eq,← List.sum_take_succ _ _ hsymbol]
    calc (table.freqs.take (symbol + 1)).sum
        ≤ (table.freqs.take (symbol + 1)).sum + (table.freqs.drop (symbol + 1)).sum := Nat.le_add_right _ _
      _ = table.freqs.sum := List.sum_take_add_sum_drop _ _
  · intro value hlow hhigh
    unfold SymbolTable.symbolFor
    rw [length_takeWhile_startsFrom h.starts_eq hfreq (by omega) (by omega)]
    omega

def RansEncoder.InInterval (encoder : RansEncoder) : Prop := ransL ≤ encoder.state ∧ encoder.state < ransL * 256

/-- The decoder that reads what the encoder would write now. -/
def RansEncoder.reader (encoder : RansEncoder) : RansDecoder := { state := encoder.state, rest := encoder.emitted.reverse }

theorem RansEncoder.new_inInterval : RansEncoder.new.InInterval := by
  unfold RansEncoder.InInterval
  decide

theorem shift_low_byte (x : ℕ) : (x >>> 8) <<< 8 ||| (UInt8.ofNat (x &&& 0xff)).toNat = x := by
  have hlow : (UInt8.ofNat (x &&& 0xff)).toNat = x % 256 := by
    rw [UInt8.toNat_ofNat',show (0xff : ℕ) = 2^8-1 from rfl,Nat.and_two_pow_sub_one_eq_mod,Nat.mod_mod]
  rw [hlow,← Nat.shiftLeft_add_eq_or_of_lt (Nat.mod_lt _ (by norm_num)),Nat.shiftRight_eq_div_pow,Nat.shiftLeft_eq]
  omega

/-- What leaves the state goes back in: the refill meets every state it left on the way. -/
theorem emitBytes_refill {xMax fuel : ℕ} {encoder encoder' : RansEncoder} (h : emitBytes xMax fuel encoder = .ok encoder')
    (hstate : encoder.state < ransL * 256) :
    refill encoder'.state encoder'.emitted.reverse = refill encoder.state encoder.emitted.reverse := by
  induction fuel generalizing encoder with
  | zero => cases h
  | succ fuel ih =>
    unfold emitBytes at h
    split at h
    next =>
      have hlow : encoder.state >>> 8 < ransL := by
        rw [Nat.shiftRight_eq_div_pow]
        omega
      rw [ih h (lt_of_lt_of_le hlow (by decide)),List.reverse_append,List.reverse_singleton,List.singleton_append]
      rw [refill,if_pos hlow]
      dsimp only
      rw [shift_low_byte]
    next =>
      cases h
      rfl

/-- Moving bytes out ends below the bound and crosses no floor a byte below it. -/
theorem emitBytes_ends (xMax floor fuel : ℕ) (encoder : RansEncoder) (hpos : 0 < xMax) (hfuel : encoder.state < 256^fuel)
    (hfloor : floor * 256 ≤ xMax) (hstate : floor ≤ encoder.state) :
    ∃ encoder', emitBytes xMax (fuel + 1) encoder = .ok encoder' ∧ floor ≤ encoder'.state ∧ encoder'.state < xMax := by
  induction fuel generalizing encoder with
  | zero =>
    have hlt : ¬xMax ≤ encoder.state := by
      rw [pow_zero] at hfuel
      omega
    exact ⟨encoder,by rw [emitBytes,if_neg hlt],hstate,not_le.mp hlt⟩
  | succ fuel ih =>
    rw [emitBytes]
    split
    next hle =>
      apply ih <;> simp only [Nat.shiftRight_eq_div_pow]
      · rw [pow_succ] at hfuel
        omega
      · omega
    next hlt => exact ⟨encoder,rfl,hstate,not_le.mp hlt⟩

theorem emitBytes_length {xMax fuel : ℕ} {encoder encoder' : RansEncoder} (h : emitBytes xMax fuel encoder = .ok encoder') :
    encoder'.emitted.length ≤ encoder.emitted.length + fuel := by
  induction fuel generalizing encoder with
  | zero => cases h
  | succ fuel ih =>
    unfold emitBytes at h
    split at h
    next =>
      have := ih h
      simp only [List.length_append,List.length_singleton] at this
      omega
    next =>
      cases h
      omega

theorem put_length {table : SymbolTable} {encoder encoder' : RansEncoder} {symbol : ℕ}
    (h : encoder.put table symbol = .ok encoder') : encoder'.emitted.length ≤ encoder.emitted.length + 5 := by
  simp only [RansEncoder.put,bind_eq_ok] at h
  obtain ⟨start,-,freq,-,renormed,hemit,hput⟩ := h
  cases hput
  have hlength := emitBytes_length hemit
  exact hlength

/-- A state in the interval is one that no refill changes. -/
theorem refill_of_inInterval {encoder : RansEncoder} (h : encoder.InInterval) :
    refill encoder.state encoder.emitted.reverse = some encoder.reader := by
  rw [refill.eq_def,if_neg (not_lt.mpr h.1)]
  rfl

/-- The stepped state holds the quotient above the scale and the symbol's own value below it. -/
theorem step_numbers {y freq start : ℕ} (hpos : 0 < freq) (hfits : start + freq ≤ scale) :
    let x := ((y / freq) <<< scaleBits) + y % freq + start
    x &&& (scale - 1) = start + y % freq ∧ x >>> scaleBits = y / freq := by
  have hmod : y % freq < freq := Nat.mod_lt _ hpos
  have hscale : scale = 2^12 := rfl
  simp only [scaleBits,Nat.shiftLeft_eq,Nat.shiftRight_eq_div_pow,hscale,Nat.and_two_pow_sub_one_eq_mod] at hfits ⊢
  constructor <;> omega

/-- A put keeps the interval, so no shift or sum of it leaves 32 bits, and a get undoes it. -/
theorem put_get {table : SymbolTable} (htable : table.Usable) {encoder : RansEncoder} (h : encoder.InInterval) {symbol : ℕ}
    (hsymbol : symbol < table.freqs.length) :
    ∃ encoder', encoder.put table symbol = .ok encoder' ∧ encoder'.InInterval ∧
      encoder'.reader.get table = .ok (some (symbol,encoder.reader)) := by
  obtain ⟨start,freq,hstart,hfreq,hpos,hfits,hsymbolFor⟩ := htable.symbol hsymbol
  have hL : ransL = 2^23 := rfl
  have hscale : scale = 2^12 := rfl
  have hstate : ransL ≤ encoder.state ∧ encoder.state < ransL * 256 := h
  have hwidth : encoder.state < 256^4 := by omega
  have hxMax : (ransL >>> scaleBits) <<< 8 = 2^19 := by decide
  obtain ⟨renormed,hemit,hlow,hhigh⟩ := emitBytes_ends (2^19 * freq) (2^11 * freq) 4 encoder (by omega) hwidth
    (by omega) (by omega)
  obtain ⟨hvalue,hquot⟩ := step_numbers (y := renormed.state) hpos hfits
  have hmod : renormed.state % freq < freq := Nat.mod_lt _ hpos
  have hdivMod : freq * (renormed.state / freq) + renormed.state % freq = renormed.state := Nat.div_add_mod _ _
  refine ⟨{ renormed with state := ((renormed.state / freq) <<< scaleBits) + renormed.state % freq + start },?_,?_,?_⟩
  · simp only [RansEncoder.put,Outcome.index,hstart,hfreq,Outcome.expect_some,hxMax,bind,Except.bind]
    rw [hemit]
    rfl
  · have hquotLow : 2^11 ≤ renormed.state / freq := (Nat.le_div_iff_mul_le hpos).mpr hlow
    have hquotHigh : renormed.state / freq < 2^19 := (Nat.div_lt_iff_lt_mul hpos).mpr hhigh
    simp only [RansEncoder.InInterval,scaleBits,Nat.shiftLeft_eq]
    omega
  · have hsymbolFor := hsymbolFor (start + renormed.state % freq) (by omega) (by omega)
    have hx : freq * (renormed.state / freq) + (start + renormed.state % freq) - start = renormed.state := by omega
    have hrefill := (emitBytes_refill hemit h.2).trans (refill_of_inInterval h)
    simp only [RansDecoder.get,RansEncoder.reader,hvalue,hquot,hsymbolFor,Outcome.index,hstart,hfreq,Outcome.expect_some,bind,
      Except.bind,hx]
    rw [hrefill]
    rfl

/-- A stream of `count` symbols gives them back and is then used up, its state the one encoding began with. -/
theorem rans_round_trip {table : SymbolTable} (htable : table.Usable) {symbols : List ℕ}
    (hsymbols : ∀ symbol ∈ symbols, symbol < table.freqs.length) :
    ∃ encoder decoder, putAll (RansEncoder.put table) RansEncoder.new symbols = .ok encoder ∧
      encoder.finish.length ≤ 4 + 5 * symbols.length ∧ RansDecoder.new encoder.finish = some decoder ∧
      getMany (RansDecoder.next table) symbols.length decoder = .ok (symbols,{ state := ransL, rest := [] }) := by
  have hstep : ∀ encoder : RansEncoder, encoder.InInterval → ∀ symbol, symbol < table.freqs.length →
      ∃ encoder', encoder.put table symbol = .ok encoder' ∧ encoder'.InInterval ∧
        encoder'.reader.next table = .ok (symbol,encoder.reader) := by
    intro encoder hencoder symbol hsymbol
    obtain ⟨encoder',hput,hinterval,hget⟩ := put_get htable hencoder hsymbol
    exact ⟨encoder',hput,hinterval,by rw [RansDecoder.next,hget]; rfl⟩
  obtain ⟨encoder,hput,hinterval,hmany⟩ := getMany_putAll RansEncoder.InInterval RansEncoder.reader _ hstep
    RansEncoder.new_inInterval hsymbols
  have hlength := putAll_measure (fun encoder => encoder.emitted.length) (fun _ _ _ => put_length) hput
  have hstate : ransL ≤ encoder.state ∧ encoder.state < ransL * 256 := hinterval
  have hL : ransL = 2^23 := rfl
  refine ⟨encoder,encoder.reader,hput,?_,?_,hmany⟩
  · simp only [RansEncoder.finish,List.length_append,length_leBytes,List.length_reverse]
    simp only [RansEncoder.new,List.length_nil] at hlength
    omega
  · have htake : (leBytes 4 encoder.state ++ encoder.emitted.reverse).take 4 = leBytes 4 encoder.state :=
      List.take_left' (length_leBytes _ _)
    have hdrop : (leBytes 4 encoder.state ++ encoder.emitted.reverse).drop 4 = encoder.emitted.reverse :=
      List.drop_left' (length_leBytes _ _)
    have hvalue : leValue (leBytes 4 encoder.state) = encoder.state := leValue_leBytes (by omega)
    simp only [RansDecoder.new,RansEncoder.finish,htake,hdrop,hvalue]
    simp [RansEncoder.reader]

end MeshLlm.CacheGen
