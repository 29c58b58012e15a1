import MeshLlm.CacheGen.Reference

/-! # The repair loops of the frequencies

Rounding down moves less than one unit of each symbol and the floor of one gives at most
one unit to each, so both loops are short: what is above the scale is taken unit by unit
from frequencies that are far above one, and of what is missing every index tried adds one.
-/
namespace MeshLlm.CacheGen

/-- The frequencies before the repair loops. -/
def scaledFreqs (histogram : List ℕ) (total : ℕ) : List ℕ := histogram.map fun count => max (count * scale / total) 1

/-- The growing loop after its first `n` indices, while every one of them adds its unit. -/
def grown (candidate : ℕ) (freqs : List ℕ) : ℕ → List ℕ
  | 0 => freqs
  | n+1 => (grown candidate freqs n).modify (if n = 0 then candidate else (candidate + n) % tokenCount) (· + 1)

variable {histogram freqs : List ℕ} {total candidate : ℕ}

theorem scaledFreqs_isFreqs (hlength : histogram.length = tokenCount) : IsFreqs (scaledFreqs histogram total) := by
  refine ⟨by rw [scaledFreqs,List.length_map,hlength],fun freq hfreq => ?_⟩
  obtain ⟨count,-,rfl⟩ := List.mem_map.mp hfreq
  exact le_max_right _ _

theorem sum_scaled_div (histogram : List ℕ) (total : ℕ) (hpos : 0 < total) :
    histogram.sum * scale ≤ (scaledFreqs histogram total).sum * total + histogram.length * (total - 1) := by
  unfold scaledFreqs
  induction histogram with
  | nil => simp
  | cons count histogram ih =>
    have hdivMod := Nat.div_add_mod (count * scale) total
    have hmod : count * scale % total ≤ total - 1 := Nat.le_sub_one_of_lt (Nat.mod_lt _ hpos)
    have hshare : count * scale ≤ max (count * scale / total) 1 * total + (total - 1) := by
      have hle : count * scale / total * total ≤ max (count * scale / total) 1 * total :=
        Nat.mul_le_mul_right _ (le_max_left _ _)
      rw [Nat.mul_comm total] at hdivMod
      omega
    rw [List.map_cons,List.sum_cons,List.sum_cons,List.length_cons,Nat.add_mul,Nat.add_mul,Nat.add_mul,Nat.one_mul]
    omega

/-- Fewer units are missing than there are symbols. -/
theorem missing_lt (hlength : histogram.length = tokenCount) (hpos : 0 < total) (hsum : histogram.sum = total) :
    scale - (scaledFreqs histogram total).sum < tokenCount := by
  have hshares := sum_scaled_div histogram total hpos
  have hscale : scale = 4096 := rfl
  have htokens : tokenCount = 16 := rfl
  rw [hsum,hlength,hscale,htokens] at hshares
  rw [hscale,htokens]
  by_contra hge
  have hle : (scaledFreqs histogram total).sum ≤ 4080 := by omega
  have hmul : (scaledFreqs histogram total).sum * total ≤ 4080 * total := Nat.mul_le_mul_right _ hle
  omega

/-- While the loop is above the scale it has taken one unit a turn and no frequency has gone below one. -/
theorem takeDown_steps (h : IsFreqs freqs) {n : ℕ} (hn : n ≤ freqs.sum - scale) :
    IsFreqs (takeDown n freqs) ∧ (takeDown n freqs).sum + n = freqs.sum := by
  induction n generalizing freqs with
  | zero => exact ⟨h,rfl⟩
  | succ n ih =>
    obtain ⟨hlt,hle⟩ := largestIndex_spec h.ne_nil
    have hbound : freqs.sum ≤ freqs.length * freqs[largestIndex freqs] := List.sum_le_card_nsmul _ _ hle
    have hlarge : 2 ≤ freqs[largestIndex freqs] := by
      by_contra hsmall
      have hcap : freqs.length * freqs[largestIndex freqs] ≤ freqs.length * 1 := Nat.mul_le_mul_left _ (by omega)
      have hscale : scale = 4096 := rfl
      have htokens : tokenCount = 16 := rfl
      have hlength := h.1
      omega
    have hmodify := sum_modify hlt (· - 1)
    have hnext : IsFreqs (freqs.modify (largestIndex freqs) (· - 1)) :=
      ⟨by rw [List.length_modify,h.1],forall_mem_modify h.2 fun _ => by omega⟩
    obtain ⟨hfreqs,hsum⟩ := ih hnext (by omega)
    exact ⟨hfreqs,by rw [takeDown]; omega⟩

theorem target_lt (hcandidate : candidate < tokenCount) (n : ℕ) :
    (if n = 0 then candidate else (candidate + n) % tokenCount) < tokenCount := by
  split
  · exact hcandidate
  · exact Nat.mod_lt _ (by decide)

theorem grown_isFreqs (hcandidate : candidate < tokenCount) (h : IsFreqs freqs) (n : ℕ) :
    IsFreqs (grown candidate freqs n) ∧ (grown candidate freqs n).sum = freqs.sum + n := by
  induction n with
  | zero => exact ⟨h,rfl⟩
  | succ n ih =>
    obtain ⟨hfreqs,hsum⟩ := ih
    have htarget := (target_lt hcandidate n).trans_eq hfreqs.1.symm
    have hmodify := sum_modify htarget (· + 1)
    refine ⟨⟨?_,?_⟩,?_⟩
    · rw [grown,List.length_modify,hfreqs.1]
    · exact forall_mem_modify hfreqs.2 fun _ => by omega
    · rw [grown]
      omega

/-- From the state after `n` indices the loop goes on to the state where nothing is missing. -/
theorem fillUp_grown (hcandidate : candidate < tokenCount) (h : IsFreqs freqs) {n missing : ℕ} (hn : n ≤ missing)
    (hmissing : freqs.sum + missing = scale) :
    fillUp candidate (scale + 1 - n) (grown candidate freqs n) = .ok (grown candidate freqs missing) := by
  obtain ⟨left,hleft⟩ : ∃ left, missing = n + left := ⟨missing - n,by omega⟩
  induction left generalizing n with
  | zero =>
    obtain ⟨-,hsum⟩ := grown_isFreqs hcandidate h n
    have heq : missing = n := by omega
    have hdone : ¬ (grown candidate freqs n).sum < scale := by omega
    obtain ⟨turns,hturns⟩ : ∃ turns, scale + 1 - n = turns + 1 := ⟨scale - n,by omega⟩
    rw [hturns,fillUp,if_neg hdone,heq]
  | succ left ih =>
    obtain ⟨hfreqs,hsum⟩ := grown_isFreqs hcandidate h n
    have hturns : scale + 1 - n = scale - n + 1 := by omega
    have hindex : scale - (scale - n) = n := by omega
    have htarget := (target_lt hcandidate n).trans_eq hfreqs.1.symm
    have hroom : (grown candidate freqs n).getD (if n = 0 then candidate else (candidate + n) % tokenCount) 0 < scale := by
      rw [List.getD_eq_getElem _ _ htarget]
      have hle := List.le_sum_of_mem (List.getElem_mem htarget)
      omega
    have hnext := ih (by omega : n + 1 ≤ missing) (by omega)
    have hleft : scale + 1 - (n + 1) = scale - n := by omega
    rw [hturns,fillUp,if_pos (by omega)]
    simp only [hindex]
    rw [if_pos hroom]
    rw [hleft] at hnext
    exact hnext

/-- A put of a symbol with a frequency ends from every state of 32 bits, in one of 32 bits. -/
theorem put_terminates {table : SymbolTable} (htable : table.Usable) {symbol : ℕ} (hsymbol : symbol < table.freqs.length)
    {encoder : RansEncoder} (hstate : encoder.state ≤ u32Max) :
    ∃ encoder', encoder.put table symbol = .ok encoder' ∧ encoder'.state ≤ u32Max := by
  obtain ⟨start,freq,hstart,hfreq,hpos,hfits,-⟩ := htable.symbol hsymbol
  have hxMax : (ransL >>> scaleBits) <<< 8 = 2^19 := by decide
  have hmax : u32Max = 2^32 - 1 := rfl
  have hscale : scale = 2^12 := rfl
  have hwidth : encoder.state < 256^4 := by
    rw [hmax] at hstate
    norm_num at hstate ⊢
    omega
  obtain ⟨renormed,hemit,-,hhigh⟩ := emitBytes_ends (2^19 * freq) 0 4 encoder (by omega) hwidth
    (by rw [Nat.zero_mul]; exact Nat.zero_le _) (Nat.zero_le _)
  have hquotient : renormed.state / freq < 2^19 := (Nat.div_lt_iff_lt_mul hpos).mpr hhigh
  have hmod : renormed.state % freq < freq := Nat.mod_lt _ hpos
  refine ⟨{ renormed with state := ((renormed.state / freq) <<< scaleBits) + renormed.state % freq + start },?_,?_⟩
  · simp only [RansEncoder.put,Outcome.index,hstart,hfreq,Outcome.expect_some,hxMax,bind,Except.bind]
    rw [hemit]
    rfl
  · simp only [scaleBits,Nat.shiftLeft_eq]
    omega

/-- Frequencies that a histogram is repaired to: the loops end, each after fewer turns than there are symbols
or units above the scale, no unit is taken from a frequency of one, and every symbol can be put. -/
theorem histogramToFreqs_repaired (histogram : List ℕ) (total : ℕ) (hlength : histogram.length = tokenCount)
    (hcounts : ∀ count ∈ histogram, count ≤ u32Max) (hpos : 0 < total) (hsum : histogram.sum = total) :
    (∀ count ∈ histogram, count * scale ≤ u64Max ∧ count * scale / total ≤ u32Max) ∧
    (∀ n ≤ (scaledFreqs histogram total).sum - scale, (takeDown n (scaledFreqs histogram total)).sum + n =
      (scaledFreqs histogram total).sum ∧ ∀ freq ∈ takeDown n (scaledFreqs histogram total), 1 ≤ freq) ∧
    scale - (scaledFreqs histogram total).sum < tokenCount ∧
    histogramToFreqs histogram total = .ok (grown (largestIndex histogram)
      (takeDown ((scaledFreqs histogram total).sum - scale) (scaledFreqs histogram total))
      (scale - (scaledFreqs histogram total).sum)) ∧
    ∃ freqs table, histogramToFreqs histogram total = .ok freqs ∧ freqs.length = tokenCount ∧ (∀ freq ∈ freqs, 1 ≤ freq) ∧
      freqs.sum = 4096 ∧ SymbolTable.fromFreqs freqs = some table ∧ ∀ symbol < tokenCount, ∀ encoder : RansEncoder,
        encoder.state ≤ u32Max → ∃ encoder', encoder.put table symbol = .ok encoder' ∧ encoder'.state ≤ u32Max := by
  have hfreqs := @scaledFreqs_isFreqs histogram total hlength
  have hcandidate : largestIndex histogram < tokenCount := by
    rw [← hlength]
    exact (largestIndex_spec (by rintro rfl; cases hlength)).1
  have hdown := @takeDown_steps _ hfreqs _ le_rfl
  have hmissing := missing_lt hlength hpos hsum
  have hfill : histogramToFreqs histogram total = .ok (grown (largestIndex histogram)
      (takeDown ((scaledFreqs histogram total).sum - scale) (scaledFreqs histogram total))
      (scale - (scaledFreqs histogram total).sum)) := by
    refine bind_eq_ok.mpr ⟨(),Outcome.refuseIf_neg _ (by simpa using hlength),?_⟩
    refine bind_eq_ok.mpr ⟨(),Outcome.refuseIf_neg _ (by omega),?_⟩
    refine bind_eq_ok.mpr ⟨(),Outcome.refuseIf_neg _ (by simpa using hsum),?_⟩
    have hrun := fillUp_grown hcandidate hdown.1 (Nat.zero_le (scale - (scaledFreqs histogram total).sum)) (by omega)
    rw [Nat.sub_zero,grown] at hrun
    exact hrun
  obtain ⟨hgrown,hgrownSum⟩ := grown_isFreqs hcandidate hdown.1 (scale - (scaledFreqs histogram total).sum)
  have hscale : (grown (largestIndex histogram)
      (takeDown ((scaledFreqs histogram total).sum - scale) (scaledFreqs histogram total))
      (scale - (scaledFreqs histogram total).sum)).sum = scale := by omega
  obtain ⟨table,htable,hsame,husable⟩ := fromFreqs_usable (fun freq h => hgrown.2 freq h) hscale
  refine ⟨fun count hcount => ?_,fun n hn => ?_,hmissing,hfill,_,table,hfill,hgrown.1,hgrown.2,hscale,htable,?_⟩
  · have hle := hcounts count hcount
    have htotal : count ≤ total := hsum ▸ List.le_sum_of_mem hcount
    have hwide : u32Max * scale ≤ u64Max := by norm_num [u32Max,u64Max,scale,scaleBits,Nat.shiftLeft_eq]
    have hshare : count * scale / total ≤ scale :=
      Nat.div_le_of_le_mul (Nat.mul_le_mul_right _ htotal)
    have hnarrow : scale ≤ u32Max := by norm_num [u32Max,scale,scaleBits,Nat.shiftLeft_eq]
    exact ⟨(Nat.mul_le_mul_right _ hle).trans hwide,hshare.trans hnarrow⟩
  · obtain ⟨hsteps,hstepsSum⟩ := takeDown_steps hfreqs hn
    exact ⟨hstepsSum,hsteps.2⟩
  · intro symbol hsymbol encoder hstate
    exact put_terminates husable (by rw [hsame,hgrown.1]; exact hsymbol) hstate

/-- One symbol has nearly every count, so the floor of one has to be paid back by it. -/
theorem histogramToFreqs_repaired_skewed :
    ∃ freqs table, histogramToFreqs (4000000000 :: List.replicate 15 1) 4000000015 = .ok freqs ∧
      freqs.length = tokenCount ∧ (∀ freq ∈ freqs, 1 ≤ freq) ∧ freqs.sum = 4096 ∧
      SymbolTable.fromFreqs freqs = some table ∧ ∀ symbol < tokenCount, ∀ encoder : RansEncoder,
        encoder.state ≤ u32Max → ∃ encoder', encoder.put table symbol = .ok encoder' ∧ encoder'.state ≤ u32Max :=
  (histogramToFreqs_repaired (4000000000 :: List.replicate 15 1) 4000000015 (by decide) (by decide) (by decide)
    (by decide)).2.2.2.2

end MeshLlm.CacheGen
