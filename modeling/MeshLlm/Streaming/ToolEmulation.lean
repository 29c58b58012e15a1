import MeshLlm.Streaming.ToolCallStream

/-! # Emulated tool calls

A model without tool calls writes a marker and a JSON object. What it reasons stands between
think tags and is dropped, what it shows before the marker is streamed.
-/
namespace MeshLlm.Streaming

def toolCallMarker : Text := "TOOL_CALL".toList

def thinkOpen : Text := "<think>".toList

def thinkClose : Text := "</think>".toList

theorem lt_of_findSub {pattern text : Text} {i : ℕ} (h : findSub pattern text = some i) : i + pattern.length ≤ text.length := by
  obtain ⟨hi,hpre,-⟩ := findSub_eq_some.mp h
  have := hpre.length_le
  rw [List.length_drop] at this
  omega

def stripThinkBlocks (text : Text) : Text :=
  match _h : findSub thinkOpen text with
  | none => text
  | some start =>
    match findSub thinkClose (text.drop (start + 7)) with
    | none => text.take start
    | some stop => text.take start ++ stripThinkBlocks (text.drop (start + 7 + (stop + 8)))
termination_by text.length
decreasing_by
  have := lt_of_findSub _h
  rw [List.length_drop]
  change start + 7 ≤ _ at this
  omega

/-- The longest front of the marker that a text ends with, if any. -/
def withheld (text : Text) : ℕ → ℕ
  | 0 => 0
  | n + 1 => if text.drop (text.length - (n + 1)) <+: toolCallMarker then n + 1 else withheld text n

/-- What may be shown of a text without think blocks. -/
def beforeMarker (scannable : Text) : Text :=
  match findSub toolCallMarker scannable with
  | some markerStart => scannable.take markerStart
  | none => scannable.take (scannable.length - withheld scannable (min toolCallMarker.length scannable.length))

def partialEmulationText (text : Text) : Text := beforeMarker (stripThinkBlocks text)

def isAsciiWhitespace (c : Char) : Bool := c = ' ' || c = '\t' || c = '\n' || c = '\x0C' || c = '\r'

/-- The scan from some index on, inside an object of some depth. -/
def balancedFrom (depth : ℕ) (inString escaped : Bool) (i : ℕ) : Text → Option ℕ
  | [] => none
  | c :: text =>
    if inString then
      if escaped then balancedFrom depth true false (i + 1) text
      else if c = '\\' then balancedFrom depth true true (i + 1) text
      else balancedFrom depth (c ≠ '"') false (i + 1) text
    else if c = '"' then balancedFrom depth true escaped (i + 1) text
    else if c = '\x7b' then balancedFrom (depth + 1) false escaped (i + 1) text
    else if c = '\x7d' then if depth - 1 = 0 then some (i + 1) else balancedFrom (depth - 1) false escaped (i + 1) text
    else balancedFrom depth false escaped (i + 1) text

def balancedJsonObjectEnd (text : Text) : Option ℕ :=
  let object := trimStart isAsciiWhitespace text
  if object.head? = some '\x7b' then balancedFrom 0 false false (text.length - object.length) object else none

/-- A JSON value as far as it is read: its name if that is a string, and its arguments as a text. -/
structure JsonCall where
  name : Option Text
  arguments : Text

structure EmulatedCall where
  name : Text
  arguments : Text
deriving DecidableEq, Repr

structure EmulatedParse where
  content : Option Text
  toolCalls : List EmulatedCall
deriving DecidableEq, Repr

section Json
variable (fromStr : Text → Option JsonCall)

/-- What follows a marker, from where the object starts. -/
def payloadOf (rest : Text) : Text := trimStart (· = ':') (trimStart isWhitespace rest)

theorem length_payloadOf (rest : Text) : (payloadOf rest).length ≤ rest.length :=
  (List.length_dropWhile_le _ _).trans (List.length_dropWhile_le _ _)

def namesCall (json : Text) : Bool :=
  match (fromStr json).bind JsonCall.name with
  | none => false
  | some name => trim isWhitespace name ≠ []

def emulatedCallComplete (scannable : Text) : Bool :=
  match _h : findSub toolCallMarker scannable with
  | none => false
  | some marker =>
    let rest := scannable.drop (marker + 9)
    if (balancedJsonObjectEnd (payloadOf rest)).any (fun stop => namesCall fromStr ((payloadOf rest).take stop)) then true
    else emulatedCallComplete (scannable.drop (marker + 9))
termination_by scannable.length
decreasing_by
  have := lt_of_findSub _h
  rw [List.length_drop]
  change marker + 9 ≤ _ at this
  omega

def emulatedToolCallComplete (text : Text) : Bool := emulatedCallComplete fromStr (stripThinkBlocks text)

def parseToolCallJson (json : Text) (allowedNames : List Text) : Option EmulatedCall := do
  let payload ← fromStr json
  let name := trim isWhitespace (← payload.name)
  if name = [] then none
  else if allowedNames ≠ [] ∧ name ∉ allowedNames then none
  else some ⟨name,payload.arguments⟩

/-- The call of a payload, and where it ends. -/
def callOf (allowedNames : List Text) (payload : Text) : Option (EmulatedCall × ℕ) :=
  (balancedJsonObjectEnd payload).bind fun stop => (parseToolCallJson fromStr (payload.take stop) allowedNames).map fun call => (call,stop)

/-- The content and the calls of a text without think blocks. -/
def scanCalls (allowedNames : List Text) (scannable : Text) : Text × List EmulatedCall :=
  match _h : findSub toolCallMarker scannable with
  | none => (scannable,[])
  | some marker =>
    match callOf fromStr allowedNames (payloadOf (scannable.drop (marker + 9))) with
    | some (call,stop) =>
      let scanned := scanCalls allowedNames ((payloadOf (scannable.drop (marker + 9))).drop stop)
      (scannable.take marker ++ scanned.1,call :: scanned.2)
    | none =>
      let scanned := scanCalls allowedNames (scannable.drop (marker + 9))
      (scannable.take (marker + 9) ++ scanned.1,scanned.2)
termination_by scannable.length
decreasing_by
  · have hlt := lt_of_findSub _h
    have hle := length_payloadOf (scannable.drop (marker + 9))
    rw [List.length_drop] at hle ⊢
    change marker + 9 ≤ _ at hlt
    omega
  · have hlt := lt_of_findSub _h
    rw [List.length_drop]
    change marker + 9 ≤ _ at hlt
    omega

def parseEmulatedToolCalls (text : Text) (allowedNames : List Text) : EmulatedParse :=
  let scanned := scanCalls fromStr allowedNames (stripThinkBlocks text)
  let trimmed := trim isWhitespace scanned.1
  ⟨if trimmed = [] then none else some trimmed,scanned.2⟩

end Json

/-- The positions of a text, counted from some offset on, that are outside its think blocks. -/
def outsideThink (offset : ℕ) (text : Text) : List ℕ :=
  match _h : findSub thinkOpen text with
  | none => List.range' offset text.length
  | some start =>
    match findSub thinkClose (text.drop (start + 7)) with
    | none => List.range' offset start
    | some stop => List.range' offset start ++ outsideThink (offset + (start + 7 + (stop + 8))) (text.drop (start + 7 + (stop + 8)))
termination_by text.length
decreasing_by
  have := lt_of_findSub _h
  rw [List.length_drop]
  change start + 7 ≤ _ at this
  omega

/-- The positions of a text that its partial view shows. -/
def shown (text : Text) : List ℕ := (outsideThink 0 text).take (partialEmulationText text).length

section Search
variable {pattern text text' : Text} {i : ℕ}

theorem findSub_of_front (h : findSub pattern text = some i) (hpre : text <+: text') : findSub pattern text' = some i := by
  obtain ⟨hi,hfront,hfirst⟩ := findSub_eq_some.mp h
  have hlong := lt_of_findSub h
  obtain ⟨more,rfl⟩ := hpre
  refine findSub_eq_some.mpr ⟨by rw [List.length_append]; omega,?_,fun j hj hearlier => hfirst j hj ?_⟩
  · rw [List.drop_append_of_le_length hi]
    exact hfront.trans (List.prefix_append _ _)
  · rw [List.drop_append_of_le_length (by omega)] at hearlier
    refine List.prefix_of_prefix_length_le hearlier (List.prefix_append _ _) ?_
    rw [List.length_drop]
    omega

theorem findSub_eq_none_iff_infix : findSub pattern text = none ↔ ¬pattern <:+: text := by
  rw [findSub_eq_none]
  constructor
  · rintro h ⟨before,after,rfl⟩
    refine h before.length (by simp) ?_
    rw [List.append_assoc,List.drop_left]
    exact List.prefix_append _ _
  · intro h i _ hfront
    exact h (hfront.isInfix.trans (List.drop_suffix i text).isInfix)

/-- Texts that start one text, the longer of them with the first occurrence of the pattern in the shorter. -/
theorem take_findSub (h : findSub pattern text = some i) (hpre : text <+: text') : text.take i = text'.take i := by
  obtain ⟨more,rfl⟩ := hpre
  have := lt_of_findSub h
  rw [List.take_append_of_le_length (by omega)]

end Search

section Partial
variable {p t : Text}

theorem le_withheld {text : Text} {m n : ℕ} (hm : m ≤ n) (h : text.drop (text.length - m) <+: toolCallMarker) : m ≤ withheld text n := by
  induction n with
  | zero => omega
  | succ n ih =>
    rw [withheld]
    split_ifs with hlast
    · exact hm
    · refine ih (Nat.le_of_lt_succ (lt_of_le_of_ne hm ?_))
      rintro rfl
      exact hlast h

theorem withheld_front {text : Text} (n : ℕ) : text.drop (text.length - withheld text n) <+: toolCallMarker := by
  induction n with
  | zero => simp [withheld]
  | succ n ih =>
    rw [withheld]
    split_ifs with hlast
    · exact hlast
    · exact ih

theorem beforeMarker_of_some {i : ℕ} (h : findSub toolCallMarker t = some i) : beforeMarker t = t.take i := by rw [beforeMarker,h]

theorem beforeMarker_of_none (h : findSub toolCallMarker t = none) :
    beforeMarker t = t.take (t.length - withheld t (min toolCallMarker.length t.length)) := by rw [beforeMarker,h]

theorem beforeMarker_front (t : Text) : beforeMarker t <+: t := by
  unfold beforeMarker
  split
  · exact List.take_prefix _ _
  · exact List.take_prefix _ _

/-- A front of a text without marker, cut where a text goes on like the marker. -/
theorem cut_le {j : ℕ} (hj : j ≤ p.length) (hfront : p.drop j <+: toolCallMarker) :
    p.length - withheld p (min toolCallMarker.length p.length) ≤ j := by
  have hlength := hfront.length_le
  rw [List.length_drop] at hlength
  have := @le_withheld p (p.length - j) (min toolCallMarker.length p.length) (by omega)
    (by rwa [show p.length - (p.length - j) = j by omega])
  omega

/-- Without think blocks the view only grows. -/
theorem beforeMarker_mono (h : p <+: t) : beforeMarker p <+: beforeMarker t := by
  have htake : ∀ {m n}, m ≤ n → p.take m <+: t.take n := by
    intro m n hmn
    refine List.prefix_of_prefix_length_le ((List.take_prefix m p).trans h) (List.take_prefix n t) ?_
    have := h.length_le
    rw [List.length_take,List.length_take]
    omega
  cases hp : findSub toolCallMarker p with
  | some i => rw [beforeMarker_of_some hp,beforeMarker_of_some (findSub_of_front hp h),take_findSub hp h]
  | none =>
    rw [beforeMarker_of_none hp]
    have hdrop : ∀ j ≤ p.length, p.drop j <+: t.drop j := by
      obtain ⟨more,rfl⟩ := h
      intro j hj
      rw [List.drop_append_of_le_length hj]
      exact List.prefix_append _ _
    cases ht : findSub toolCallMarker t with
    | some j =>
      rw [beforeMarker_of_some ht]
      refine htake ?_
      by_cases hj : p.length ≤ j
      · omega
      obtain ⟨-,hmarker,-⟩ := findSub_eq_some.mp ht
      refine cut_le (by omega) (List.prefix_of_prefix_length_le (hdrop j (by omega)) hmarker ?_)
      by_contra hlong
      rw [not_le] at hlong
      exact findSub_eq_none.mp hp j (by omega) (List.prefix_of_prefix_length_le hmarker (hdrop j (by omega)) hlong.le)
    | none =>
      rw [beforeMarker_of_none ht]
      refine htake ?_
      by_cases hj : p.length ≤ t.length - withheld t (min toolCallMarker.length t.length)
      · omega
      exact cut_le (by omega) ((hdrop _ (by omega)).trans (withheld_front _))

end Partial

section Blocks
variable {p t : Text}

theorem stripThinkBlocks_of_none (h : findSub thinkOpen t = none) : stripThinkBlocks t = t := by
  rw [stripThinkBlocks]
  split
  · rfl
  next start hstart => exact absurd (h.symm.trans hstart) (by simp)

theorem outsideThink_of_none {offset : ℕ} (h : findSub thinkOpen t = none) : outsideThink offset t = List.range' offset t.length := by
  rw [outsideThink]
  split
  · rfl
  next start hstart => exact absurd (h.symm.trans hstart) (by simp)

theorem stripThinkBlocks_of_some {start : ℕ} (h : findSub thinkOpen t = some start) : stripThinkBlocks t =
    match findSub thinkClose (t.drop (start + 7)) with
    | none => t.take start
    | some stop => t.take start ++ stripThinkBlocks (t.drop (start + 7 + (stop + 8))) := by
  rw [stripThinkBlocks]
  split
  next hnone => exact absurd (h.symm.trans hnone) (by simp)
  next start' hstart =>
    cases h.symm.trans hstart
    rfl

theorem outsideThink_of_some {offset start : ℕ} (h : findSub thinkOpen t = some start) : outsideThink offset t =
    match findSub thinkClose (t.drop (start + 7)) with
    | none => List.range' offset start
    | some stop => List.range' offset start ++ outsideThink (offset + (start + 7 + (stop + 8))) (t.drop (start + 7 + (stop + 8))) := by
  rw [outsideThink]
  split
  next hnone => exact absurd (h.symm.trans hnone) (by simp)
  next start' hstart =>
    cases h.symm.trans hstart
    rfl

theorem le_outsideThink {offset i : ℕ} (h : i ∈ outsideThink offset t) : offset ≤ i := by
  induction offset, t using outsideThink.induct with
  | case1 offset t hnone =>
    rw [outsideThink_of_none hnone,List.mem_range'_1] at h
    exact h.1
  | case2 offset t start hstart hopen =>
    rw [outsideThink_of_some hstart,hopen,List.mem_range'_1] at h
    exact h.1
  | case3 offset t start hstart stop hstop ih =>
    rw [outsideThink_of_some hstart,hstop] at h
    simp only [List.mem_append,List.mem_range'_1] at h
    rcases h with h | h
    · exact h.1
    · have := ih h
      omega

/-- What is left of a text: its positions outside the think blocks, in turn. -/
theorem stripThinkBlocks_eq_outside {offset : ℕ} {text : Text} (h : t = text.drop offset) :
    (outsideThink offset t).map (text[·]?) = (stripThinkBlocks t).map some := by
  have hrange : ∀ {t : Text} {offset n : ℕ}, t = text.drop offset → n ≤ t.length →
      (List.range' offset n).map (text[·]?) = (t.take n).map some := by
    intro t offset n ht hn
    refine List.ext_getElem (by simp [hn]) fun i hi hi' => ?_
    simp only [List.length_map,List.length_range'] at hi
    subst ht
    simp only [List.length_drop] at hn
    simp [List.getElem?_eq_getElem (show offset + i < text.length by omega)]
  induction offset, t using outsideThink.induct with
  | case1 offset t hnone =>
    rw [outsideThink_of_none hnone,stripThinkBlocks_of_none hnone,hrange h le_rfl,List.take_length]
  | case2 offset t start hstart hopen =>
    have hlong := lt_of_findSub hstart
    rw [outsideThink_of_some hstart,stripThinkBlocks_of_some hstart,hopen]
    exact hrange h (by omega)
  | case3 offset t start hstart stop hstop ih =>
    have hlong := lt_of_findSub hstart
    rw [outsideThink_of_some hstart,stripThinkBlocks_of_some hstart,hstop]
    simp only [List.map_append]
    rw [hrange h (by omega),ih (by rw [h,List.drop_drop])]

/-- Up to its first think tag a text is left as it is, and nothing of the tag is. -/
theorem strip_of_some {start : ℕ} (h : findSub thinkOpen t = some start) :
    t.take start <+: stripThinkBlocks t ∧ ∃ later, outsideThink 0 t = List.range' 0 start ++ later ∧ ∀ i ∈ later, start < i := by
  rw [stripThinkBlocks_of_some h,outsideThink_of_some h]
  cases hstop : findSub thinkClose (t.drop (start + 7)) with
  | none => exact ⟨List.prefix_rfl,[],by simp,by simp⟩
  | some stop =>
    refine ⟨List.prefix_append _ _,_,rfl,fun i hi => ?_⟩
    have := le_outsideThink hi
    omega

/-- What comes before the first think tag. -/
def visibleHead (text : Text) : Text := text.take ((findSub thinkOpen text).getD text.length)

/-- Every think tag comes after a marker. -/
def MarkerFirst (text : Text) : Prop := ∀ before after, text = before ++ thinkOpen ++ after → toolCallMarker <:+: before

theorem MarkerFirst.of_front (h : MarkerFirst t) (hpre : p <+: t) : MarkerFirst p := by
  rintro before after rfl
  obtain ⟨more,rfl⟩ := hpre
  exact h before (after ++ more) (by simp)

theorem MarkerFirst.of_some {start : ℕ} (h : MarkerFirst t) (hstart : findSub thinkOpen t = some start) :
    ∃ i, findSub toolCallMarker (t.take start) = some i := by
  obtain ⟨hle,⟨after,hafter⟩,-⟩ := findSub_eq_some.mp hstart
  have hmarker := h (t.take start) after (by rw [List.append_assoc,hafter,List.take_append_drop])
  exact Option.ne_none_iff_exists'.mp fun hnone => findSub_eq_none_iff_infix.mp hnone hmarker

theorem visibleHead_of_some {start : ℕ} (h : findSub thinkOpen t = some start) : visibleHead t = t.take start := by simp [visibleHead,h]

theorem visibleHead_of_none (h : findSub thinkOpen t = none) : visibleHead t = t := by simp [visibleHead,h]

/-- The view of such a text is that of its head. -/
theorem MarkerFirst.partial_eq (h : MarkerFirst t) : partialEmulationText t = beforeMarker (visibleHead t) := by
  rw [partialEmulationText]
  cases hstart : findSub thinkOpen t with
  | none => rw [stripThinkBlocks_of_none hstart,visibleHead_of_none hstart]
  | some start =>
    obtain ⟨i,hi⟩ := h.of_some hstart
    have hpre := (strip_of_some hstart).1
    rw [visibleHead_of_some hstart,beforeMarker_of_some hi,beforeMarker_of_some (findSub_of_front hi hpre),take_findSub hi hpre]

theorem outsideThink_head (t : Text) : ∃ later, outsideThink 0 t = List.range' 0 (visibleHead t).length ++ later := by
  cases hstart : findSub thinkOpen t with
  | none => exact ⟨[],by rw [visibleHead_of_none hstart,outsideThink_of_none hstart,List.append_nil]⟩
  | some start =>
    obtain ⟨-,later,hlater,-⟩ := strip_of_some hstart
    have := lt_of_findSub hstart
    exact ⟨later,by rw [visibleHead_of_some hstart,List.length_take,Nat.min_eq_left (by omega),hlater]⟩

theorem MarkerFirst.partial_mono (h : MarkerFirst t) (hpre : p <+: t) : partialEmulationText p <+: partialEmulationText t := by
  rw [h.partial_eq,(h.of_front hpre).partial_eq]
  have hheads : visibleHead p <+: t := (List.take_prefix _ p).trans hpre
  have hhead : visibleHead t <+: t := List.take_prefix _ t
  rcases List.prefix_or_prefix_of_prefix hheads hhead with hle | hle
  · exact beforeMarker_mono hle
  cases hstart : findSub thinkOpen t with
  | none =>
    rw [visibleHead_of_none hstart] at hle ⊢
    exact beforeMarker_mono hheads
  | some start =>
    obtain ⟨i,hi⟩ := h.of_some hstart
    rw [visibleHead_of_some hstart] at hle ⊢
    rw [beforeMarker_of_some hi,beforeMarker_of_some (findSub_of_front hi hle),take_findSub hi hle]

/-- As a text grows its view grows, and shows no position of a think block and none from the marker on. -/
def StreamsAppendOnly (t : Text) : Prop :=
  ∀ p, p <+: t → partialEmulationText p <+: partialEmulationText t ∧ (∀ i ∈ shown p, i ∈ outsideThink 0 t) ∧
    ∀ marker, findSub toolCallMarker (stripThinkBlocks t) = some marker → (partialEmulationText p).length ≤ marker

theorem MarkerFirst.streams (h : MarkerFirst t) : StreamsAppendOnly t := by
  intro p hpre
  have hmono := h.partial_mono hpre
  refine ⟨hmono,fun i hi => ?_,fun marker hmarker => ?_⟩
  · obtain ⟨later,hlater⟩ := outsideThink_head t
    obtain ⟨later',hlater'⟩ := outsideThink_head p
    have hview := (beforeMarker_front (visibleHead p)).length_le
    rw [← (h.of_front hpre).partial_eq] at hview
    have hview' := (beforeMarker_front (visibleHead t)).length_le
    rw [← h.partial_eq] at hview'
    have := hmono.length_le
    rw [shown,hlater',List.take_append_of_le_length (by simpa using hview)] at hi
    rw [hlater,List.mem_append,List.mem_range'_1]
    obtain ⟨n,hn,rfl⟩ := List.mem_take_iff_getElem.mp hi
    simp only [List.length_range'] at hn
    left
    simp
    omega
  · refine hmono.length_le.trans ?_
    rw [partialEmulationText,beforeMarker_of_some hmarker]
    exact List.length_take_le _ _

/-- A text up to the first letter of its first tag: every later part of it has that letter. -/
theorem mem_front_tag {start i : ℕ} (h : findSub thinkOpen t = some start) (hi : i ≤ start) : '<' ∈ (t.take (start + 1)).drop i := by
  obtain ⟨-,⟨more,hmore⟩,-⟩ := findSub_eq_some.mp h
  have hget : (t.drop start)[0]? = some '<' := by
    rw [← hmore]
    rfl
  rw [List.getElem?_drop,Nat.add_zero] at hget
  have hin : ((t.take (start + 1)).drop i)[start - i]? = some '<' := by
    rw [List.getElem?_drop,show i + (start - i) = start by omega,List.getElem?_take_of_lt (Nat.lt_succ_self start),hget]
  exact List.mem_of_getElem? hin

theorem length_front_tag {start : ℕ} (h : findSub thinkOpen t = some start) : (t.take (start + 1)).length = start + 1 := by
  have hlong : start + 7 ≤ t.length := lt_of_findSub h
  rw [List.length_take]
  omega

theorem front_tag_no_think {start : ℕ} (h : findSub thinkOpen t = some start) : findSub thinkOpen (t.take (start + 1)) = none := by
  refine Option.eq_none_iff_forall_ne_some.mpr fun i hi => ?_
  have hfits : i + 7 ≤ _ := lt_of_findSub hi
  cases (findSub_of_front hi (List.take_prefix _ t)).symm.trans h
  rw [length_front_tag h] at hfits
  omega

/-- Without a marker before it the first letter of the tag is shown. -/
theorem partial_front_tag {start : ℕ} (h : findSub thinkOpen t = some start)
    (hquiet : ∀ i, i + 9 ≤ start → ¬toolCallMarker <+: t.drop i) : partialEmulationText (t.take (start + 1)) = t.take (start + 1) := by
  have hlength := length_front_tag h
  have hnoletter : '<' ∉ toolCallMarker := by decide
  have hnomarker : findSub toolCallMarker (t.take (start + 1)) = none := by
    refine findSub_eq_none.mpr fun i hi hmarker => ?_
    have hfit := hmarker.length_le
    rw [List.length_drop,hlength] at hfit
    change 9 ≤ _ at hfit
    by_cases hend : i + 9 = start + 1
    · refine hnoletter ?_
      rw [List.IsPrefix.eq_of_length hmarker (by rw [List.length_drop,hlength]; change 9 = _; omega)]
      exact mem_front_tag h (by omega)
    · exact hquiet i (by omega) (hmarker.trans ((List.take_prefix _ t).drop i))
  have hwithheld : withheld (t.take (start + 1)) (min toolCallMarker.length (t.take (start + 1)).length) = 0 := by
    by_contra hsome
    have hfront := @withheld_front (t.take (start + 1)) (min toolCallMarker.length (t.take (start + 1)).length)
    refine hnoletter (hfront.subset (mem_front_tag h ?_))
    have := Nat.pos_of_ne_zero hsome
    omega
  rw [partialEmulationText,stripThinkBlocks_of_none (front_tag_no_think h),beforeMarker_of_none hnomarker,hwithheld,Nat.sub_zero,
    List.take_length]

/-- A tag without a marker before it is shown in parts. -/
theorem markerFirst_of_streams (h : StreamsAppendOnly t) : MarkerFirst t := by
  rintro before after rfl
  by_contra hquiet
  generalize ht : before ++ thinkOpen ++ after = t at h
  obtain ⟨start,hstart⟩ : ∃ start, findSub thinkOpen t = some start :=
    Option.ne_none_iff_exists'.mp fun hnone => findSub_eq_none_iff_infix.mp hnone ⟨before,after,ht⟩
  have hlong : start + 7 ≤ t.length := lt_of_findSub hstart
  have hbefore : start ≤ before.length := by
    by_contra hlater
    refine (findSub_eq_some.mp hstart).2.2 before.length (by omega) ?_
    rw [← ht,List.append_assoc,List.drop_left]
    exact List.prefix_append _ _
  have hnone : ∀ i, i + 9 ≤ start → ¬toolCallMarker <+: t.drop i := by
    intro i hi hmarker
    have hbeforePrefix : before <+: t := ⟨thinkOpen ++ after,by rw [← ht,List.append_assoc]⟩
    have hmarkerBefore : toolCallMarker <+: before.drop i := by
      refine List.prefix_of_prefix_length_le hmarker (hbeforePrefix.drop i) ?_
      rw [List.length_drop]
      change 9 ≤ _
      omega
    exact hquiet (hmarkerBefore.isInfix.trans (List.drop_suffix i before).isInfix)
  have hshown : start ∈ shown (t.take (start + 1)) := by
    rw [shown,partial_front_tag hstart hnone,outsideThink_of_none (front_tag_no_think hstart),List.take_of_length_le (by simp),
      List.mem_range'_1,length_front_tag hstart]
    omega
  obtain ⟨-,later,hlater,hafter⟩ := strip_of_some hstart
  have hoff := (h _ (List.take_prefix _ t)).2.1 start hshown
  rw [hlater,List.mem_append,List.mem_range'_1] at hoff
  rcases hoff with hoff | hoff
  · omega
  · exact absurd (hafter start hoff) (lt_irrefl _)

end Blocks

section Calls
variable {fromStr : Text → Option JsonCall} {allowedNames : List Text} {text rest : Text} {name : Text}

/-- A marker stands in a text, and what follows it. -/
def FollowsMarker (text rest : Text) : Prop := ∃ before, text = before ++ toolCallMarker ++ rest

/-- A complete object with a name that is not blank follows a marker. -/
def NamesCall (fromStr : Text → Option JsonCall) (rest name : Text) : Prop :=
  ∃ stop call raw, balancedJsonObjectEnd (payloadOf rest) = some stop ∧ fromStr ((payloadOf rest).take stop) = some call ∧
    call.name = some raw ∧ trim isWhitespace raw = name ∧ name ≠ []

/-- The marker does not overlap itself: what follows one follows the first, or one after it. -/
theorem followsMarker_iff {marker : ℕ} (h : findSub toolCallMarker text = some marker) :
    FollowsMarker text rest ↔ rest = text.drop (marker + 9) ∨ FollowsMarker (text.drop (marker + 9)) rest := by
  obtain ⟨hle,hmarker,hfirst⟩ := findSub_eq_some.mp h
  have hfits : marker + 9 ≤ text.length := lt_of_findSub h
  have hsplit : text = text.take marker ++ toolCallMarker ++ text.drop (marker + 9) := by
    obtain ⟨more,hmore⟩ := hmarker
    have hdrop : text.drop (marker + 9) = more := by
      rw [← List.drop_drop,← hmore]
      exact List.drop_left' (by decide)
    rw [hdrop,List.append_assoc,hmore,List.take_append_drop]
  constructor
  · rintro ⟨before,hbefore⟩
    have hat : toolCallMarker <+: text.drop before.length := by
      rw [hbefore,List.append_assoc,List.drop_left]
      exact List.prefix_append _ _
    have hlate : marker ≤ before.length := by
      by_contra hearly
      rw [not_le] at hearly
      exact hfirst _ hearly hat
    by_cases hover : before.length < marker + 9
    · -- the two occurrences share letters, so they are one
      have hshared : toolCallMarker.drop (before.length - marker) <+: toolCallMarker := by
        refine List.prefix_of_prefix_length_le ?_ hat (by simp)
        have := hmarker.drop (before.length - marker)
        rwa [List.drop_drop,show marker + (before.length - marker) = before.length by omega] at this
      have hsame : before.length - marker = 0 := by
        have hnone : ∀ d < 9, toolCallMarker.drop d <+: toolCallMarker → d = 0 := by decide
        exact hnone _ (by omega) hshared
      have hlength : (before ++ toolCallMarker).length = marker + 9 := by
        rw [List.length_append]
        change before.length + 9 = _
        omega
      left
      rw [hbefore,List.drop_left' hlength]
    · right
      refine ⟨before.drop (marker + 9),?_⟩
      rw [hbefore,List.append_assoc,List.drop_append_of_le_length (by omega),List.append_assoc]
  · rintro (rfl | ⟨before,hbefore⟩)
    · exact ⟨_,hsplit⟩
    · rw [hbefore] at hsplit
      exact ⟨text.take marker ++ toolCallMarker ++ before,hsplit.trans (by simp only [List.append_assoc])⟩

theorem not_followsMarker (h : findSub toolCallMarker text = none) : ¬FollowsMarker text rest :=
  fun ⟨before,hbefore⟩ => findSub_eq_none_iff_infix.mp h ⟨before,rest,hbefore.symm⟩

theorem completes_iff : (balancedJsonObjectEnd (payloadOf rest)).any (fun stop => namesCall fromStr ((payloadOf rest).take stop)) = true ↔
    ∃ name, NamesCall fromStr rest name := by
  unfold NamesCall
  cases balancedJsonObjectEnd (payloadOf rest) with
  | none => simp
  | some stop =>
    rw [Option.any_some,namesCall]
    cases hcall : fromStr ((payloadOf rest).take stop) with
    | none => simp [hcall]
    | some call => cases hname : call.name <;> simp [hcall,hname]

theorem callOf_isSome_iff : (callOf fromStr allowedNames (payloadOf rest)).isSome = true ↔
    ∃ name, NamesCall fromStr rest name ∧ (allowedNames = [] ∨ name ∈ allowedNames) := by
  unfold NamesCall callOf parseToolCallJson
  cases balancedJsonObjectEnd (payloadOf rest) with
  | none => simp
  | some stop =>
    cases hcall : fromStr ((payloadOf rest).take stop) with
    | none => simp [hcall]
    | some call =>
      cases hname : call.name with
      | none => simp [hcall,hname]
      | some raw =>
        by_cases hblank : trim isWhitespace raw = []
        · simp [hcall,hname,hblank]
        · by_cases hallowed : allowedNames ≠ [] ∧ trim isWhitespace raw ∉ allowedNames
          · simp [hcall,hname,hblank,hallowed]
          · simp [hcall,hname,hblank,hallowed]
            tauto

theorem emulatedCallComplete_of_none (h : findSub toolCallMarker text = none) : emulatedCallComplete fromStr text = false := by
  rw [emulatedCallComplete]
  split
  · rfl
  next marker hmarker => exact absurd (h.symm.trans hmarker) (by simp)

theorem emulatedCallComplete_of_some {marker : ℕ} (h : findSub toolCallMarker text = some marker) : emulatedCallComplete fromStr text =
    ((balancedJsonObjectEnd (payloadOf (text.drop (marker + 9)))).any
        (fun stop => namesCall fromStr ((payloadOf (text.drop (marker + 9))).take stop)) ||
      emulatedCallComplete fromStr (text.drop (marker + 9))) := by
  rw [emulatedCallComplete]
  split
  next hnone => exact absurd (h.symm.trans hnone) (by simp)
  next marker' hmarker =>
    cases h.symm.trans hmarker
    dsimp only
    split_ifs with hcall
    · rw [hcall,Bool.true_or]
    · rw [Bool.not_eq_true] at hcall
      rw [hcall,Bool.false_or]

theorem scanCalls_of_none (h : findSub toolCallMarker text = none) : scanCalls fromStr allowedNames text = (text,[]) := by
  rw [scanCalls]
  split
  · rfl
  next marker hmarker => exact absurd (h.symm.trans hmarker) (by simp)

theorem scanCalls_of_some {marker : ℕ} (h : findSub toolCallMarker text = some marker) : (scanCalls fromStr allowedNames text).2 ≠ [] ↔
    (callOf fromStr allowedNames (payloadOf (text.drop (marker + 9)))).isSome = true ∨
      (scanCalls fromStr allowedNames (text.drop (marker + 9))).2 ≠ [] := by
  rw [scanCalls]
  split
  next hnone => exact absurd (h.symm.trans hnone) (by simp)
  next marker' hmarker =>
    cases h.symm.trans hmarker
    split
    next call stop hcall => simp [hcall]
    next hcall => simp [hcall]

/-- The stop scan finds a call exactly when the text has one. -/
theorem emulatedCallComplete_iff (text : Text) : emulatedCallComplete fromStr text = true ↔
    ∃ rest, FollowsMarker text rest ∧ ∃ name, NamesCall fromStr rest name := by
  induction hlength : text.length using Nat.strong_induction_on generalizing text with
  | _ n ih =>
    cases hmarker : findSub toolCallMarker text with
    | none => simp [emulatedCallComplete_of_none hmarker,not_followsMarker hmarker]
    | some marker =>
      have hlong := lt_of_findSub hmarker
      change marker + 9 ≤ _ at hlong
      rw [emulatedCallComplete_of_some hmarker,Bool.or_eq_true,completes_iff,ih _ (by rw [List.length_drop]; omega) _ rfl]
      simp only [followsMarker_iff hmarker,or_and_right,exists_or,exists_eq_left]

/-- The parser, which jumps over what it has taken, has a call exactly when the text has an allowed one. -/
theorem scanCalls_ne_nil_iff (text : Text) : (scanCalls fromStr allowedNames text).2 ≠ [] ↔
    ∃ rest, FollowsMarker text rest ∧ ∃ name, NamesCall fromStr rest name ∧ (allowedNames = [] ∨ name ∈ allowedNames) := by
  induction hlength : text.length using Nat.strong_induction_on generalizing text with
  | _ n ih =>
    cases hmarker : findSub toolCallMarker text with
    | none => simp [scanCalls_of_none hmarker,not_followsMarker hmarker]
    | some marker =>
      have hlong := lt_of_findSub hmarker
      change marker + 9 ≤ _ at hlong
      rw [scanCalls_of_some hmarker,callOf_isSome_iff,ih _ (by rw [List.length_drop]; omega) _ rfl]
      simp only [followsMarker_iff hmarker,or_and_right,exists_or,exists_eq_left]

/-- Of the calls of a text, if there are any, one is allowed. -/
def AllowsCall (fromStr : Text → Option JsonCall) (allowedNames : List Text) (text : Text) : Prop :=
  (∃ rest, FollowsMarker (stripThinkBlocks text) rest ∧ ∃ name, NamesCall fromStr rest name) →
    ∃ rest, FollowsMarker (stripThinkBlocks text) rest ∧ ∃ name, NamesCall fromStr rest name ∧ (allowedNames = [] ∨ name ∈ allowedNames)

end Calls

/-- The view grows with the text exactly when every think tag comes after a marker, and the early stop finds a call for the
parser exactly when the calls of the text, if any, have an allowed one among them. -/
theorem emulation_streams_iff (fromStr : Text → Option JsonCall) (allowedNames : List Text) (t : Text) :
    (StreamsAppendOnly t ↔ MarkerFirst t) ∧
    ((emulatedToolCallComplete fromStr t = true → (parseEmulatedToolCalls fromStr t allowedNames).toolCalls ≠ []) ↔
      AllowsCall fromStr allowedNames t) := by
  refine ⟨⟨markerFirst_of_streams,MarkerFirst.streams⟩,?_⟩
  rw [emulatedToolCallComplete,emulatedCallComplete_iff,parseEmulatedToolCalls,scanCalls_ne_nil_iff]
  exact Iff.rfl

/-- The front `<thi` of a tag is shown and taken back, and a call that is not allowed stops the generation for nothing. -/
theorem tag_shown_and_call_dropped :
    (partialEmulationText "a<thi".toList = "a<thi".toList ∧ partialEmulationText "a<think>x</think>b".toList = "ab".toList) ∧
    ∃ fromStr : Text → Option JsonCall,
      emulatedToolCallComplete fromStr "TOOL_CALL \x7b\"name\":\"foo\"\x7d".toList = true ∧
      (parseEmulatedToolCalls fromStr "TOOL_CALL \x7b\"name\":\"foo\"\x7d".toList ["bar".toList]).toolCalls = [] := by
  have hmarker : findSub toolCallMarker "TOOL_CALL \x7b\"name\":\"foo\"\x7d".toList = some 0 := by decide
  refine ⟨⟨?_,?_⟩,fun json => if json = "\x7b\"name\":\"foo\"\x7d".toList then some ⟨some "foo".toList,"\x7b\x7d".toList⟩ else none,?_,?_⟩
  · rw [partialEmulationText,stripThinkBlocks_of_none (by decide)]
    decide
  · have hblock : findSub thinkOpen "a<think>x</think>b".toList = some 1 := by decide
    have hrest : stripThinkBlocks ("a<think>x</think>b".toList.drop (1 + 7 + (1 + 8))) = "b".toList :=
      stripThinkBlocks_of_none (by decide)
    have hclose : findSub thinkClose ("a<think>x</think>b".toList.drop (1 + 7)) = some 1 := by decide
    rw [partialEmulationText,stripThinkBlocks_of_some hblock,hclose]
    dsimp only
    rw [hrest]
    decide
  · rw [emulatedToolCallComplete,stripThinkBlocks_of_none (by decide),emulatedCallComplete_of_some hmarker,Bool.or_eq_true]
    left
    decide
  · rw [parseEmulatedToolCalls,stripThinkBlocks_of_none (by decide)]
    by_contra hcalls
    rcases (scanCalls_of_some hmarker).mp hcalls with hcall | hmore
    · revert hcall
      decide
    · exact hmore (congrArg Prod.snd (scanCalls_of_none (by decide)))

end MeshLlm.Streaming
