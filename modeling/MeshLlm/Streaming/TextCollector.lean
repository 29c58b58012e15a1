import MeshLlm.Library.Substring
import MeshLlm.Library.Utf8

/-! # Collecting and streaming generated text

The text is the valid prefix of the generated bytes. As much of its end is held back as the
front of a stop string can take up, so that nothing sent has to be taken back when the stop
string is complete.
-/
namespace MeshLlm.Streaming

abbrev Bytes := List UInt8

/-- The first occurrence of any stop string that is not empty. -/
def firstStop (stopValues : List Bytes) (text : Bytes) : Option ℕ :=
  ((stopValues.filter fun stop => !stop.isEmpty).filterMap fun stop => findSub stop text).min?

def trimAtStop (text : Bytes) (stopValues : List Bytes) : Bytes :=
  match firstStop stopValues text with
  | some index => text.take index
  | none => text

def maxStopBytes (stopValues : List Bytes) : ℕ := (stopValues.map List.length).foldr max 0

/-- The collector, with the chunks it has passed on. -/
structure TextGenerationCollector where
  text : Bytes
  streamedTextLen : ℕ
  generatedTextBytes : Bytes
  completionTokens : ℕ
  chunks : List Bytes

/-- `&text[start..stop]`: none where the bounds are not character boundaries of the text. -/
def slice (text : Bytes) (start stop : ℕ) : Option Bytes :=
  if start ≤ stop ∧ stop ≤ text.length ∧ isCharBoundary text start ∧ isCharBoundary text stop
  then some ((text.take stop).drop start) else none

/-- The target goes down to a boundary, but not below what was streamed. -/
def roundDown (text : Bytes) (streamed : ℕ) : ℕ → ℕ
  | 0 => 0
  | target + 1 => if streamed < target + 1 ∧ isCharBoundary text (target + 1) = false then roundDown text streamed target else target + 1

inductive TokenControl
  | resume
  | stop
deriving DecidableEq, Repr

namespace TextGenerationCollector

def new : TextGenerationCollector := ⟨[],0,[],0,[]⟩

def emitSafeDelta (stopValues : List Bytes) (flushAll : Bool) (c : TextGenerationCollector) : Option TextGenerationCollector :=
  let target := if flushAll ∨ maxStopBytes stopValues = 0 then c.text.length
    else c.text.length - (maxStopBytes stopValues - 1)
  let target := roundDown c.text c.streamedTextLen target
  if target < c.streamedTextLen then some {c with streamedTextLen := target}
  else if c.streamedTextLen < target then
    (slice c.text c.streamedTextLen target).map fun delta => {c with chunks := c.chunks ++ [delta],streamedTextLen := target}
  else some c

/-- A token: its piece, or none when it ends generation. -/
def pushToken (stopValues : List Bytes) (c : TextGenerationCollector) : Option Bytes → Option (TokenControl × TextGenerationCollector)
  | none => some (.stop,c)
  | some piece => do
    let bytes := c.generatedTextBytes ++ piece
    let candidate := validPrefix bytes
    let text := if candidate = [] then c.text
      else if c.text <+: candidate then (if c.text = candidate then c.text else candidate)
      else candidate
    let c : TextGenerationCollector :=
      {c with generatedTextBytes := bytes,text,completionTokens := c.completionTokens + 1}
    if stopValues.any fun stop => !stop.isEmpty && (findSub stop c.text).isSome then
      let c ← emitSafeDelta stopValues true {c with text := trimAtStop c.text stopValues}
      return (.stop,c)
    let c ← emitSafeDelta stopValues false c
    return (.resume,c)

/-- Tokens until one of them stops generation, and how many are taken. -/
def run (stopValues : List Bytes) (c : TextGenerationCollector) : List (Option Bytes) → Option TextGenerationCollector
  | [] => some c
  | token :: tokens => do
    let (control,c) ← pushToken stopValues c token
    match control with
    | .stop => return c
    | .resume => run stopValues c tokens

/-- The rest goes out. -/
def finish (stopValues : List Bytes) (c : TextGenerationCollector) : Option TextGenerationCollector := emitSafeDelta stopValues true c

end TextGenerationCollector

theorem firstStop_eq_none {stopValues : List Bytes} {text : Bytes} :
    firstStop stopValues text = none ↔ ∀ stop ∈ stopValues, stop ≠ [] → findSub stop text = none := by
  rw [firstStop,List.min?_eq_none_iff,List.filterMap_eq_nil_iff]
  simp

theorem firstStop_mem {stopValues : List Bytes} {text : Bytes} {index : ℕ} (h : firstStop stopValues text = some index) :
    ∃ stop ∈ stopValues, stop ≠ [] ∧ findSub stop text = some index := by
  have hmem := List.min?_mem h
  obtain ⟨stop,hstop,hfound⟩ := List.mem_filterMap.mp hmem
  rw [List.mem_filter] at hstop
  exact ⟨stop,hstop.1,by simpa using hstop.2,hfound⟩

theorem le_maxStopBytes {stopValues : List Bytes} {stop : Bytes} (h : stop ∈ stopValues) : stop.length ≤ maxStopBytes stopValues := by
  unfold maxStopBytes
  induction stopValues with
  | nil => cases h
  | cons first stopValues ih =>
    rw [List.map_cons,List.foldr_cons]
    rcases List.mem_cons.mp h with rfl | h
    · exact le_max_left _ _
    · exact (ih h).trans (le_max_right _ _)

theorem roundDown_spec (text : Bytes) {streamed target : ℕ} (h : streamed ≤ target) :
    streamed ≤ roundDown text streamed target ∧ roundDown text streamed target ≤ target ∧
      (streamed < roundDown text streamed target → isCharBoundary text (roundDown text streamed target) = true) := by
  induction target with
  | zero => exact ⟨h,le_rfl,fun hlt => absurd hlt (by rw [roundDown]; omega)⟩
  | succ target ih =>
    rw [roundDown]
    split_ifs with hdown
    · obtain ⟨hle,hbelow,hboundary⟩ := ih (by omega)
      exact ⟨hle,by omega,hboundary⟩
    · refine ⟨h,le_rfl,fun hlt => ?_⟩
      rw [not_and] at hdown
      simpa using hdown hlt

theorem isCharBoundary_length (text : Bytes) : isCharBoundary text text.length = true := by simp [isCharBoundary]

/-- A text up to the earliest occurrence of any stop string that is not empty. -/
inductive CutAtStop (stopValues : List Bytes) (text : Bytes) : Bytes → Prop
  | whole (hquiet : ∀ stop ∈ stopValues, stop ≠ [] → ∀ i ≤ text.length, ¬stop <+: text.drop i) : CutAtStop stopValues text text
  | cut {index : ℕ} {stop : Bytes} (hstop : stop ∈ stopValues) (hne : stop ≠ []) (hoccurs : stop <+: text.drop index)
      (hearliest : ∀ stop' ∈ stopValues, stop' ≠ [] → ∀ j < index, ¬stop' <+: text.drop j) :
      CutAtStop stopValues text (text.take index)

/-- A stop string that occurs does so within the text. -/
theorem le_of_occurs {stop text : Bytes} {i : ℕ} (hne : stop ≠ []) (hoccurs : stop <+: text.drop i) : i ≤ text.length := by
  by_contra hlong
  rw [List.drop_eq_nil_of_le (by omega),List.prefix_nil] at hoccurs
  exact hne hoccurs

/-- There is one such text. -/
theorem CutAtStop.unique {stopValues : List Bytes} {text cut cut' : Bytes} (h : CutAtStop stopValues text cut)
    (h' : CutAtStop stopValues text cut') : cut = cut' := by
  cases h with
  | whole hquiet =>
    cases h' with
    | whole => rfl
    | cut hstop' hne' hoccurs' => exact absurd hoccurs' (hquiet _ hstop' hne' _ (le_of_occurs hne' hoccurs'))
  | cut hstop hne hoccurs hearliest =>
    cases h' with
    | whole hquiet' => exact absurd hoccurs (hquiet' _ hstop hne _ (le_of_occurs hne hoccurs))
    | cut hstop' hne' hoccurs' hearliest' =>
      have hle := not_lt.mp fun hlt => hearliest _ hstop' hne' _ hlt hoccurs'
      have hle' := not_lt.mp fun hlt => hearliest' _ hstop hne _ hlt hoccurs
      rw [le_antisymm hle hle']

theorem trimAtStop_cut (stopValues : List Bytes) (text : Bytes) : CutAtStop stopValues text (trimAtStop text stopValues) := by
  unfold trimAtStop
  cases hfirst : firstStop stopValues text with
  | none => exact .whole fun stop hstop hne => findSub_eq_none.mp (firstStop_eq_none.mp hfirst stop hstop hne)
  | some index =>
    obtain ⟨stop,hstop,hne,hfound⟩ := firstStop_mem hfirst
    refine .cut hstop hne (findSub_eq_some.mp hfound).2.1 fun stop' hstop' hne' j hj hoccurs => ?_
    cases hfound' : findSub stop' text with
    | none =>
      have hlength := le_of_occurs hne' hoccurs
      exact findSub_eq_none.mp hfound' j hlength hoccurs
    | some index' =>
      have hmem : index' ∈ (stopValues.filter fun stop => !stop.isEmpty).filterMap fun stop => findSub stop text :=
        List.mem_filterMap.mpr ⟨stop',List.mem_filter.mpr ⟨hstop',by simpa using hne'⟩,hfound'⟩
      have hle : index ≤ index' := (List.min?_eq_some_iff.mp hfirst).2 index' hmem
      exact (findSub_eq_some.mp hfound').2.2 j (by omega) hoccurs

/-- A stop string that has come to be in a text starts where not all of it fits into the text before. -/
theorem lt_of_new_stop {stop text text' : Bytes} {index : ℕ} (hpre : text <+: text') (hquiet : findSub stop text = none)
    (hfound : findSub stop text' = some index) (hne : stop ≠ []) : text.length < index + stop.length := by
  by_contra hfits
  have hlength := List.length_pos_of_ne_nil hne
  obtain ⟨more,rfl⟩ := hpre
  obtain ⟨rest,hrest⟩ := (findSub_eq_some.mp hfound).2.1
  refine findSub_eq_none.mp hquiet index (by omega) ?_
  rw [List.drop_append_of_le_length (by omega)] at hrest
  exact List.prefix_of_prefix_length_le ⟨rest,hrest⟩ (List.prefix_append _ _) (by rw [List.length_drop]; omega)

namespace TextGenerationCollector
variable {stopValues : List Bytes} {c : TextGenerationCollector}

/-- The target before it is rounded. -/
def target (stopValues : List Bytes) (flushAll : Bool) (c : TextGenerationCollector) : ℕ :=
  if flushAll ∨ maxStopBytes stopValues = 0 then c.text.length else c.text.length - (maxStopBytes stopValues - 1)

/-- What was passed on is the text up to a boundary. -/
structure Streamed (c : TextGenerationCollector) : Prop where
  chunks : c.chunks.flatten = c.text.take c.streamedTextLen
  boundary : isCharBoundary c.text c.streamedTextLen = true

/-- Passing on takes nothing back, and all goes out with the last flush. -/
theorem emitSafeDelta_spec {flushAll : Bool} (h : c.Streamed) (hle : c.streamedTextLen ≤ target stopValues flushAll c) :
    ∃ c', emitSafeDelta stopValues flushAll c = some c' ∧ c'.text = c.text ∧ c'.generatedTextBytes = c.generatedTextBytes ∧
      c'.Streamed ∧ c'.streamedTextLen ≤ target stopValues flushAll c ∧ (flushAll = true → c'.streamedTextLen = c.text.length) := by
  have htarget : target stopValues flushAll c ≤ c.text.length := by
    unfold target
    split_ifs <;> omega
  obtain ⟨hstreamed,hbelow,hboundary⟩ := roundDown_spec c.text hle
  have hflush : flushAll = true → roundDown c.text c.streamedTextLen (target stopValues flushAll c) = c.text.length := by
    rintro rfl
    have hall : target stopValues true c = c.text.length := by simp [target]
    rw [hall]
    cases hlength : c.text.length with
    | zero => rfl
    | succ n =>
      rw [roundDown,if_neg]
      rw [← hlength,isCharBoundary_length]
      simp
  unfold emitSafeDelta
  rw [show (if flushAll = true ∨ maxStopBytes stopValues = 0 then c.text.length
    else c.text.length - (maxStopBytes stopValues - 1)) = target stopValues flushAll c from rfl]
  dsimp only
  generalize roundDown c.text c.streamedTextLen (target stopValues flushAll c) = rounded at hstreamed hbelow hboundary hflush ⊢
  rw [if_neg (not_lt.mpr hstreamed)]
  by_cases hmore : c.streamedTextLen < rounded
  · rw [if_pos hmore,slice,if_pos ⟨hstreamed,by omega,h.boundary,hboundary hmore⟩]
    refine ⟨_,rfl,rfl,rfl,⟨?_,hboundary hmore⟩,hbelow,hflush⟩
    have htake : c.text.take c.streamedTextLen = (c.text.take rounded).take c.streamedTextLen := by
      rw [List.take_take,min_eq_left hstreamed]
    simp only [List.flatten_append,List.flatten_singleton,h.chunks]
    rw [htake,List.take_append_drop]
  · rw [if_neg hmore]
    have hsame : c.streamedTextLen = rounded := by omega
    exact ⟨c,rfl,rfl,rfl,h,hle,fun hall => hsame.trans (hflush hall)⟩

/-- While generation goes on: the text is the valid prefix, no stop string is in it, and what could be the
front of one is held back. -/
structure Running (stopValues : List Bytes) (c : TextGenerationCollector) : Prop where
  streamed : c.Streamed
  text : c.text = validPrefix c.generatedTextBytes
  quiet : ∀ stop ∈ stopValues, stop ≠ [] → findSub stop c.text = none
  held : c.streamedTextLen ≤ c.text.length - (maxStopBytes stopValues - 1)

/-- All of the text is passed on, and it ends at the first stop string. -/
structure Ended (stopValues : List Bytes) (c : TextGenerationCollector) : Prop where
  streamed : c.Streamed
  all : c.streamedTextLen = c.text.length
  cut : CutAtStop stopValues (validPrefix c.generatedTextBytes) c.text

theorem target_false : target stopValues false c = c.text.length - (maxStopBytes stopValues - 1) := by
  unfold target
  by_cases hzero : maxStopBytes stopValues = 0
  · rw [if_pos (.inr hzero),hzero]
    rfl
  · rw [if_neg (by simpa using hzero)]

theorem isCharBoundary_of_prefix {text text' : Bytes} {i : ℕ} (h : isCharBoundary text i = true) (hpre : text <+: text')
    (hend : isCharBoundary text' text.length = true) : isCharBoundary text' i = true := by
  unfold isCharBoundary at h
  simp only [Bool.or_eq_true,decide_eq_true_eq] at h
  rcases h with (rfl | rfl) | hbyte
  · simp [isCharBoundary]
  · exact hend
  · cases hget : text[i]? with
    | none => simp [hget] at hbyte
    | some b =>
      rw [hget] at hbyte
      obtain ⟨more,rfl⟩ := hpre
      have hlt : i < text.length := (List.getElem?_eq_some_iff.mp hget).1
      unfold isCharBoundary
      rw [List.getElem?_append_left hlt,hget]
      simp only [Bool.or_eq_true]
      exact .inr hbyte

/-- A stop string that is complete with a piece starts after all that was passed on. -/
theorem Running.le_firstStop (h : Running stopValues c) {text : Bytes} (hpre : c.text <+: text) {index : ℕ}
    (hfirst : firstStop stopValues text = some index) : c.streamedTextLen ≤ index := by
  obtain ⟨stop,hstop,hne,hfound⟩ := firstStop_mem hfirst
  have hlate := lt_of_new_stop hpre (h.quiet stop hstop hne) hfound hne
  have hshort := le_maxStopBytes hstop
  have hheld := h.held
  omega

/-- A token goes on with generation, or it ends it; either way what was passed on stays. -/
theorem pushToken_spec (h : Running stopValues c) (token : Option Bytes) :
    ∃ control c', pushToken stopValues c token = some (control,c') ∧
      c'.generatedTextBytes = c.generatedTextBytes ++ token.getD [] ∧
      (control = .resume ∧ token ≠ none ∧ Running stopValues c' ∨
        control = .stop ∧ token = none ∧ Running stopValues c' ∨
        control = .stop ∧ token ≠ none ∧ firstStop stopValues (validPrefix c'.generatedTextBytes) ≠ none ∧ Ended stopValues c') := by
  cases token with
  | none => exact ⟨.stop,c,rfl,by simp,.inr (.inl ⟨rfl,rfl,h⟩)⟩
  | some piece =>
    have hpre : c.text <+: validPrefix (c.generatedTextBytes ++ piece) := h.text ▸ validPrefix_mono _ _
    have htext : (if validPrefix (c.generatedTextBytes ++ piece) = [] then c.text
        else if c.text <+: validPrefix (c.generatedTextBytes ++ piece) then
          (if c.text = validPrefix (c.generatedTextBytes ++ piece) then c.text else validPrefix (c.generatedTextBytes ++ piece))
        else validPrefix (c.generatedTextBytes ++ piece)) = validPrefix (c.generatedTextBytes ++ piece) := by
      by_cases hempty : validPrefix (c.generatedTextBytes ++ piece) = []
      · rw [if_pos hempty,hempty]
        rw [hempty] at hpre
        exact List.prefix_nil.mp hpre
      · rw [if_neg hempty,if_pos hpre]
        exact ite_eq_right_iff.mpr id
    have hend : isCharBoundary (validPrefix (c.generatedTextBytes ++ piece)) c.text.length = true :=
      h.text ▸ isCharBoundary_validPrefix _ _
    have hboundary := isCharBoundary_of_prefix h.streamed.boundary hpre hend
    have hlength : c.text.length ≤ (validPrefix (c.generatedTextBytes ++ piece)).length := hpre.length_le
    have hheld := h.held
    have hchunks : c.chunks.flatten = (validPrefix (c.generatedTextBytes ++ piece)).take c.streamedTextLen := by
      obtain ⟨more,hmore⟩ := hpre
      rw [h.streamed.chunks,← hmore,List.take_append_of_le_length (by omega)]
    simp only [pushToken,htext]
    cases hfirst : firstStop stopValues (validPrefix (c.generatedTextBytes ++ piece)) with
    | none =>
      have hquiet := firstStop_eq_none.mp hfirst
      rw [if_neg]
      · obtain ⟨c',hemit,htext',hbytes,hstreamed,hbelow,-⟩ := @emitSafeDelta_spec stopValues
          ⟨validPrefix (c.generatedTextBytes ++ piece),c.streamedTextLen,c.generatedTextBytes ++ piece,c.completionTokens + 1,c.chunks⟩
          false ⟨hchunks,hboundary⟩ (by rw [target_false]; dsimp only; omega)
        rw [target_false] at hbelow
        refine ⟨.resume,c',by rw [hemit]; rfl,hbytes,.inl ⟨rfl,by simp,hstreamed,by rw [htext',hbytes],?_,?_⟩⟩
        · rw [htext']
          exact hquiet
        · rw [htext']
          exact hbelow
      · simp only [List.any_eq_true,Bool.and_eq_true,not_exists,not_and]
        intro stop hstop hne
        simp [hquiet stop hstop (by simpa using hne)]
    | some index =>
      have hindex := h.le_firstStop hpre hfirst
      obtain ⟨stop,hstop,hne,hfound⟩ := firstStop_mem hfirst
      have hinside := (findSub_eq_some.mp hfound).1
      have htrim : trimAtStop (validPrefix (c.generatedTextBytes ++ piece)) stopValues =
          (validPrefix (c.generatedTextBytes ++ piece)).take index := by rw [trimAtStop,hfirst]
      rw [if_pos]
      · have hcutLength : ((validPrefix (c.generatedTextBytes ++ piece)).take index).length = index := List.length_take_of_le hinside
        have hcutBoundary : isCharBoundary ((validPrefix (c.generatedTextBytes ++ piece)).take index) c.streamedTextLen = true := by
          unfold isCharBoundary at hboundary ⊢
          rcases Nat.lt_or_eq_of_le hindex with hlt | heq
          · rw [List.getElem?_take_of_lt hlt]
            simp only [Bool.or_eq_true,decide_eq_true_eq] at hboundary ⊢
            rcases hboundary with (hzero | hlast) | hbyte
            · exact .inl (.inl hzero)
            · omega
            · exact .inr hbyte
          · simp [hcutLength,heq]
        obtain ⟨c',hemit,htext',hbytes,hstreamed,-,hall⟩ := @emitSafeDelta_spec stopValues
          ⟨trimAtStop (validPrefix (c.generatedTextBytes ++ piece)) stopValues,c.streamedTextLen,c.generatedTextBytes ++ piece,
            c.completionTokens + 1,c.chunks⟩ true
          ⟨by rw [hchunks,htrim,List.take_take,min_eq_left hindex],by rw [htrim]; exact hcutBoundary⟩
          (by rw [show target stopValues true _ = (trimAtStop _ stopValues).length by simp [target]; rfl,htrim,hcutLength]; exact hindex)
        refine ⟨.stop,c',by rw [hemit]; rfl,hbytes,.inr (.inr ⟨rfl,by simp,?_,hstreamed,?_,?_⟩)⟩
        · rw [hbytes,hfirst]
          simp
        · rw [htext']
          exact hall rfl
        · rw [htext',hbytes]
          exact trimAtStop_cut _ _
      · simp only [List.any_eq_true,Bool.and_eq_true]
        exact ⟨stop,hstop,by simpa using hne,by rw [hfound]; rfl⟩

/-- The bytes of the tokens. -/
def piecesOf (tokens : List (Option Bytes)) : Bytes := (tokens.map fun token => token.getD []).flatten

/-- Generation stops with the last of the tokens: it is an end token, or a stop string is complete. -/
def StopsWith (stopValues : List Bytes) (before : Bytes) (tokens : List (Option Bytes)) : Prop :=
  tokens.getLast? = some none ∨ firstStop stopValues (validPrefix (before ++ piecesOf tokens)) ≠ none

/-- A run takes tokens up to the first that stops generation. -/
theorem run_spec (h : Running stopValues c) (tokens : List (Option Bytes)) :
    ∃ c' taken, run stopValues c tokens = some c' ∧ taken <+: tokens ∧
      c'.generatedTextBytes = c.generatedTextBytes ++ piecesOf taken ∧ (Running stopValues c' ∨ Ended stopValues c') ∧
      (taken = tokens ∨ StopsWith stopValues c.generatedTextBytes taken) ∧
      ∀ earlier, earlier <+: taken → earlier ≠ taken → ¬StopsWith stopValues c.generatedTextBytes earlier := by
  have hstart : ∀ {c : TextGenerationCollector}, Running stopValues c → ¬StopsWith stopValues c.generatedTextBytes [] := by
    rintro c h (hlast | hfirst)
    · cases hlast
    · refine hfirst ?_
      rw [piecesOf,List.map_nil,List.flatten_nil,List.append_nil,← h.text]
      exact firstStop_eq_none.mpr h.quiet
  have hone : ∀ {c : TextGenerationCollector} (token : Option Bytes), Running stopValues c →
      ∀ earlier, earlier <+: [token] → earlier ≠ [token] → ¬StopsWith stopValues c.generatedTextBytes earlier := by
    intro c token h earlier hearlier hne
    cases earlier with
    | nil => exact hstart h
    | cons first earlier =>
      obtain ⟨rfl,hrest⟩ := List.cons_prefix_cons.mp hearlier
      exact absurd (by rw [List.prefix_nil.mp hrest]) hne
  induction tokens generalizing c with
  | nil =>
    refine ⟨c,[],rfl,List.prefix_rfl,by simp [piecesOf],.inl h,.inl rfl,fun earlier hearlier hne => ?_⟩
    exact absurd (List.prefix_nil.mp hearlier) hne
  | cons token tokens ih =>
    have hsingle : piecesOf [token] = token.getD [] := by simp [piecesOf]
    obtain ⟨control,c',hpush,hbytes,⟨rfl,htoken,hrunning⟩ | ⟨rfl,rfl,hrunning⟩ | ⟨rfl,htoken,hfirst,hended⟩⟩ := pushToken_spec h token
    · obtain ⟨c'',taken,hrun,htaken,hbytes',hstate,hwhy,hearliest⟩ := ih hrunning
      have hcons : ∀ earlier : List (Option Bytes), StopsWith stopValues c.generatedTextBytes (token :: earlier) →
          StopsWith stopValues c'.generatedTextBytes earlier := by
        rintro earlier (hlast | hfound)
        · cases earlier with
          | nil => exact absurd (Option.some.inj hlast) htoken
          | cons next earlier => exact .inl (by rwa [List.getLast?_cons_cons] at hlast)
        · refine .inr ?_
          rw [hbytes,List.append_assoc]
          simpa [piecesOf] using hfound
      have hcons' : ∀ earlier : List (Option Bytes), StopsWith stopValues c'.generatedTextBytes earlier →
          StopsWith stopValues c.generatedTextBytes (token :: earlier) := by
        rintro earlier (hlast | hfound)
        · cases earlier with
          | nil => cases hlast
          | cons next earlier => exact .inl (by rwa [List.getLast?_cons_cons])
        · refine .inr ?_
          rw [hbytes,List.append_assoc] at hfound
          simpa [piecesOf] using hfound
      refine ⟨c'',token :: taken,?_,List.cons_prefix_cons.mpr ⟨rfl,htaken⟩,?_,hstate,?_,?_⟩
      · rw [run,hpush]
        exact hrun
      · rw [hbytes',hbytes,List.append_assoc]
        simp [piecesOf]
      · exact hwhy.imp (fun hall => by rw [hall]) (hcons' taken)
      · intro earlier hearlier hne
        cases earlier with
        | nil => exact hstart h
        | cons first earlier =>
          obtain ⟨rfl,hrest⟩ := List.cons_prefix_cons.mp hearlier
          exact fun hstops => hearliest earlier hrest (fun heq => hne (by rw [heq])) (hcons earlier hstops)
    · refine ⟨c',[none],by rw [run,hpush]; rfl,by simp,by rw [hbytes,hsingle],.inl hrunning,.inr (.inl rfl),hone none h⟩
    · refine ⟨c',[token],by rw [run,hpush]; rfl,by simp,by rw [hbytes,hsingle],.inr hended,.inr (.inr ?_),hone token h⟩
      rw [hsingle,← hbytes]
      exact hfirst

theorem running_new (stopValues : List Bytes) : Running stopValues new where
  streamed := ⟨rfl,rfl⟩
  text := rfl
  quiet stop _ hne := findSub_eq_none.mpr fun i _ hoccurs => hne (by simpa [new] using hoccurs)
  held := Nat.zero_le _

/-- The last flush passes on what was held back. -/
theorem finish_spec (h : Running stopValues c ∨ Ended stopValues c) :
    ∃ final, finish stopValues c = some final ∧ final.generatedTextBytes = c.generatedTextBytes ∧
      final.chunks.flatten = final.text ∧ CutAtStop stopValues (validPrefix c.generatedTextBytes) final.text := by
  have hcommon : c.Streamed ∧ c.streamedTextLen ≤ c.text.length ∧ CutAtStop stopValues (validPrefix c.generatedTextBytes) c.text := by
    rcases h with h | h
    · refine ⟨h.streamed,h.held.trans (Nat.sub_le _ _),?_⟩
      rw [← h.text]
      exact .whole fun stop hstop hne => findSub_eq_none.mp (h.quiet stop hstop hne)
    · exact ⟨h.streamed,h.all.le,h.cut⟩
  obtain ⟨hstreamed,hle,hcut⟩ := hcommon
  have hall : target stopValues true c = c.text.length := by simp [target]
  obtain ⟨final,hemit,htext,hbytes,hfinal,-,hlength⟩ := @emitSafeDelta_spec stopValues c true hstreamed (by rw [hall]; exact hle)
  refine ⟨final,hemit,hbytes,?_,by rw [htext]; exact hcut⟩
  rw [hfinal.chunks,hlength rfl,← htext,List.take_length]

/-- However the bytes were split into tokens, the final text is the same. -/
theorem finish_text_eq {c' final final' : TextGenerationCollector} (h : Running stopValues c ∨ Ended stopValues c)
    (h' : Running stopValues c' ∨ Ended stopValues c') (hbytes : c.generatedTextBytes = c'.generatedTextBytes)
    (hfinal : finish stopValues c = some final) (hfinal' : finish stopValues c' = some final') : final.text = final'.text := by
  obtain ⟨_,hfinish,-,-,hcut⟩ := finish_spec h
  obtain ⟨_,hfinish',-,-,hcut'⟩ := finish_spec h'
  obtain rfl := Option.some.inj (hfinish.symm.trans hfinal)
  obtain rfl := Option.some.inj (hfinish'.symm.trans hfinal')
  exact hcut.unique (hbytes ▸ hcut')

/-- The chunks passed on make up the final text: the valid prefix of all bytes up to where generation stopped,
cut at the earliest stop string. -/
theorem chunks_make_final_text (stopValues : List Bytes) (tokens : List (Option Bytes)) :
    ∃ c final taken, run stopValues new tokens = some c ∧ finish stopValues c = some final ∧
      taken <+: tokens ∧ (taken = tokens ∨ StopsWith stopValues [] taken) ∧
      (∀ earlier, earlier <+: taken → earlier ≠ taken → ¬StopsWith stopValues [] earlier) ∧
      final.chunks.flatten = final.text ∧ CutAtStop stopValues (validPrefix (piecesOf taken)) final.text := by
  obtain ⟨c,taken,hrun,htaken,hbytes,hstate,hwhy,hearliest⟩ := run_spec (running_new stopValues) tokens
  obtain ⟨final,hfinish,-,hchunks,hcut⟩ := finish_spec hstate
  have hpieces : c.generatedTextBytes = piecesOf taken := by rw [hbytes]; rfl
  rw [hpieces] at hcut
  exact ⟨c,final,taken,hrun,hfinish,htaken,hwhy,hearliest,hchunks,hcut⟩

end TextGenerationCollector

end MeshLlm.Streaming
