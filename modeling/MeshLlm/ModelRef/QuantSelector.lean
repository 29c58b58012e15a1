import MeshLlm.Library.Substring

/-! # Quant selectors of GGUF files

A selector is derived from a leading directory or from a marker in the name of the file, and a
file is looked up again by six patterns around a selector.
-/
namespace MeshLlm.ModelRef

abbrev Text := List Char

def toAsciiLowercase (text : Text) : Text := text.map Char.toLower

def toAsciiUppercase (text : Text) : Text := text.map Char.toUpper

def stripSuffix (suffix text : Text) : Option Text :=
  if suffix <:+ text then some (text.take (text.length - suffix.length)) else none

/-- `Path::file_name` of a path whose last segment is a name. -/
def fileName (file : Text) : Text := file.rtakeWhile (· ≠ '/')

def gguf : Text := ".gguf".toList

def isQuantLikeSelector (value : Text) : Bool :=
  let upper := toAsciiUppercase value
  "UD-".toList <+: upper ∨ "Q".toList <+: upper ∨ "IQ".toList <+: upper ∨ upper = "BF16".toList ∨ upper = "F16".toList ∨ upper = "F32".toList

def isShardNumber (text : Text) : Bool := text.length = 5 ∧ text.all Char.isDigit

def splitGgufShardStemPrefix (stem : Text) : Option Text := do
  let (prefixAndPart,total) ← rsplitOnce "-of-".toList stem
  if ¬isShardNumber total then none
  else
    let (shardPrefix,part) ← rsplitOnce "-".toList prefixAndPart
    if ¬isShardNumber part then none else some shardPrefix

def markers : List Text :=
  ["-ud-",".ud-","-iq",".iq","-q",".q","-bf16",".bf16","-f16",".f16","-f32",".f32"].map String.toList

/-- The first marker that is in the stem gives what follows its first letter there. -/
def selectorOfStem (stem : Text) : Option Text :=
  markers.findSome? fun marker => (rfind marker (toAsciiLowercase stem)).map fun pos => stem.drop (pos + 1)

/-- The selector of a directory in front. -/
def leadingSelector (file : Text) : Option (Text × Text) :=
  (splitOnce '/' file).filter fun p => isQuantLikeSelector p.1

def quantSelectorFromGgufFile (file : Text) : Option Text :=
  if ¬gguf <:+ file then none
  else match leadingSelector file with
    | some (directory,_) => some directory
    | none => do
      let stem ← stripSuffix gguf (fileName file)
      selectorOfStem ((splitGgufShardStemPrefix stem).getD stem)

/-- A selector in a path, as a directory or set off in a name. -/
def SetOff (selector file : Text) : Prop :=
  '/' :: (selector ++ ['/']) <:+: file ∨ '-' :: (selector ++ ['-']) <:+: file ∨ '.' :: (selector ++ ['-']) <:+: file ∨
    '-' :: (selector ++ gguf) <:+ file ∨ '.' :: (selector ++ gguf) <:+ file ∨ '/' :: (selector ++ gguf) <:+ file

instance (selector file : Text) : Decidable (SetOff selector file) := by
  unfold SetOff
  infer_instance

def ggufMatchesQuantSelector (file selector : Text) : Bool :=
  let fileLower := toAsciiLowercase file
  let selectorLower := toAsciiLowercase selector
  if ¬gguf <:+ fileLower ∨ selectorLower = [] then false else SetOff selectorLower fileLower

example : quantSelectorFromGgufFile "Meta-Llama-3.1-8B-Instruct.Q4_K_M.gguf".toList = some "Q4_K_M".toList := by decide +kernel

theorem stripSuffix_spec {suffix text stem : Text} (h : stripSuffix suffix text = some stem) : text = stem ++ suffix := by
  unfold stripSuffix at h
  split_ifs at h with hsuffix
  obtain ⟨front,rfl⟩ := hsuffix
  obtain rfl := Option.some.inj h
  simp

theorem toLower_eq_slash {c : Char} : c.toLower = '/' ↔ c = '/' := by
  unfold Char.toLower
  split_ifs with hupper
  · constructor
    · intro h
      have hval := congrArg Char.val h
      simp only at hval
      exfalso
      obtain ⟨hlow,hhigh⟩ := hupper
      have hval := congrArg UInt32.toNat hval
      have hlow : 65 ≤ c.val.toNat := hlow
      have hhigh : c.val.toNat ≤ 90 := hhigh
      have hsame : c.toNat = c.val.toNat := rfl
      simp [UInt32.toNat_add] at hval
      omega
    · rintro rfl
      simp at hupper
  · exact Iff.rfl

theorem slash_mem_lower {text : Text} : '/' ∈ toAsciiLowercase text ↔ '/' ∈ text := by
  simp [toAsciiLowercase,toLower_eq_slash]

/-- A pattern too long for the first segment is in what follows it. -/
theorem occurs_after_first {first rest before after pattern : Text} {c : Char} (hpattern : '/' ∉ pattern)
    (hlong : first.length ≤ pattern.length) (h : before ++ (c :: pattern ++ after) = first ++ '/' :: rest) :
    ∃ before', '/' :: rest = before' ++ (c :: pattern ++ after) := by
  rcases List.append_eq_append_iff.mp h with ⟨middle,hfront,hrest⟩ | ⟨middle,-,hrest⟩
  · cases middle with
    | nil => exact ⟨[],hrest.symm⟩
    | cons d middle =>
      exfalso
      rw [List.cons_append,List.cons_append,List.cons.injEq] at hrest
      have hlength : middle.length < pattern.length := by
        have := congrArg List.length hfront
        simp at this
        omega
      rcases List.append_eq_append_iff.mp hrest.2 with ⟨tail,hmiddle,-⟩ | ⟨tail,htail,hslash⟩
      · have := congrArg List.length hmiddle
        simp at this
        omega
      · cases tail with
        | nil =>
          have := congrArg List.length htail
          simp at this
          omega
        | cons e tail =>
          rw [List.cons_append,List.cons.injEq] at hslash
          exact hpattern (by rw [htail,← hslash.1]; simp)
  · exact ⟨middle,hrest⟩

theorem infix_after_first {first rest pattern : Text} {c : Char} (hpattern : '/' ∉ pattern.dropLast)
    (hlong : first.length < pattern.length) : c :: pattern <:+: first ++ '/' :: rest ↔ c :: pattern <:+: '/' :: rest := by
  have hne : pattern ≠ [] := by
    rintro rfl
    simp at hlong
  have hsplit := List.dropLast_append_getLast hne
  constructor
  · rintro ⟨before,after,h⟩
    have hregroup : c :: pattern.dropLast ++ pattern.getLast hne :: after = c :: pattern ++ after := by
      conv_rhs => rw [← hsplit]
      rw [List.cons_append,List.cons_append,List.append_assoc,List.singleton_append]
    rw [List.append_assoc,← hregroup] at h
    obtain ⟨before',h'⟩ := occurs_after_first hpattern (by rw [List.length_dropLast]; omega) h
    exact ⟨before',after,by rw [h',hregroup,List.append_assoc]⟩
  · exact fun h => h.trans (List.suffix_append _ _).isInfix

theorem suffix_after_first {first rest pattern : Text} {c : Char} (hpattern : '/' ∉ pattern) (hlong : first.length ≤ pattern.length) :
    c :: pattern <:+ first ++ '/' :: rest ↔ c :: pattern <:+ '/' :: rest := by
  constructor
  · rintro ⟨before,h⟩
    obtain ⟨before',h'⟩ := @occurs_after_first first rest before [] pattern c hpattern hlong (by rw [List.append_nil]; exact h)
    exact ⟨before',by rw [h',List.append_nil]⟩
  · exact fun h => h.trans (List.suffix_append _ _)

/-- A leading directory is set off in a path exactly when it is in what follows it. -/
theorem setOff_after_first {first rest : Text} (hfirst : '/' ∉ first) :
    SetOff first (first ++ '/' :: rest) ↔ SetOff first ('/' :: rest) := by
  have hseparated : ∀ c : Char, '/' ∉ (first ++ [c]).dropLast := fun c => by simpa using hfirst
  have hnamed : '/' ∉ first ++ gguf := by
    rw [List.mem_append,not_or]
    exact ⟨hfirst,by decide⟩
  have hlong : ∀ c : Char, first.length < (first ++ [c]).length := fun c => by simp
  unfold SetOff
  rw [infix_after_first (hseparated '/') (hlong '/'),infix_after_first (hseparated '-') (hlong '-'),
    infix_after_first (hseparated '-') (hlong '-'),suffix_after_first hnamed (by simp),suffix_after_first hnamed (by simp),
    suffix_after_first hnamed (by simp)]

theorem lower_append (text text' : Text) : toAsciiLowercase (text ++ text') = toAsciiLowercase text ++ toAsciiLowercase text' :=
  List.map_append

/-- A selector from the stem follows a `-` or a `.`. -/
theorem selectorOfStem_spec {stem selector : Text} (h : selectorOfStem stem = some selector) :
    ∃ front c, stem = front ++ c :: selector ∧ (c.toLower = '-' ∨ c.toLower = '.') ∧ selector ≠ [] := by
  unfold selectorOfStem at h
  obtain ⟨marker,hmarker,hfound⟩ := List.exists_of_findSome?_eq_some h
  obtain ⟨pos,hpos,hselector⟩ := Option.map_eq_some_iff.mp hfound
  have hprefix := rfind_spec hpos
  have hshape : ∃ c d rest, marker = c :: d :: rest ∧ (c = '-' ∨ c = '.') := by
    have hall : ∀ marker ∈ markers, ∃ c d rest, marker = c :: d :: rest ∧ (c = '-' ∨ c = '.') := by
      unfold markers
      simp
    exact hall marker hmarker
  obtain ⟨c,d,rest,rfl,hc⟩ := hshape
  rw [toAsciiLowercase,← List.map_drop] at hprefix
  cases hdrop : stem.drop pos with
  | nil =>
    rw [hdrop] at hprefix
    simp at hprefix
  | cons c' tail =>
    rw [hdrop,List.map_cons,List.cons_prefix_cons] at hprefix
    have htail : tail = selector := by
      rw [← hselector,Nat.add_comm,← List.drop_drop,List.drop_drop,Nat.add_comm,← List.drop_drop,hdrop,List.drop_one,List.tail_cons]
    refine ⟨stem.take pos,c',?_,?_,?_⟩
    · rw [← htail,← hdrop,List.take_append_drop]
    · rw [← hprefix.1]
      exact hc
    · rw [← htail]
      rintro rfl
      simp at hprefix

theorem fileName_suffix (file : Text) : fileName file <:+ file := List.rtakeWhile_suffix _ _

/-- A selector from the name of the file is set off in the path, before the extension or before the shard numbers. -/
theorem setOff_of_stem {file stem selector : Text} (hstem : stripSuffix gguf (fileName file) = some stem)
    (h : selectorOfStem ((splitGgufShardStemPrefix stem).getD stem) = some selector) :
    SetOff (toAsciiLowercase selector) (toAsciiLowercase file) ∧ selector ≠ [] := by
  obtain ⟨front,c,hfront,hc,hne⟩ := selectorOfStem_spec h
  refine ⟨?_,hne⟩
  obtain ⟨directory,hdirectory⟩ := fileName_suffix file
  rw [stripSuffix_spec hstem] at hdirectory
  have hparts : (∃ front', file = front' ++ c :: (selector ++ gguf)) ∨ ∃ front' rest, file = front' ++ c :: (selector ++ '-' :: rest) := by
    cases hshard : splitGgufShardStemPrefix stem with
    | none =>
      rw [hshard,Option.getD_none] at hfront
      exact .inl ⟨directory ++ front,by rw [← hdirectory,hfront]; simp⟩
    | some shardPrefix =>
      rw [hshard,Option.getD_some] at hfront
      unfold splitGgufShardStemPrefix at hshard
      obtain ⟨⟨prefixAndPart,total⟩,hof,hshard⟩ := Option.bind_eq_some_iff.mp hshard
      dsimp only at hshard
      split_ifs at hshard
      obtain ⟨⟨before,part⟩,hpart,hshard⟩ := Option.bind_eq_some_iff.mp hshard
      dsimp only at hshard
      split_ifs at hshard
      obtain rfl := Option.some.inj hshard
      have hstem' := rsplitOnce_spec hof
      rw [rsplitOnce_spec hpart,hfront] at hstem'
      refine .inr ⟨directory ++ front,part ++ ("-of-".toList ++ (total ++ gguf)),?_⟩
      rw [← hdirectory,hstem']
      simp
  rcases hparts with ⟨front',hfile⟩ | ⟨front',rest,hfile⟩
  · have hlower : toAsciiLowercase file = toAsciiLowercase front' ++ c.toLower :: (toAsciiLowercase selector ++ gguf) := by
      rw [hfile,lower_append]
      simp [toAsciiLowercase,gguf]
    have hsuffix : c.toLower :: (toAsciiLowercase selector ++ gguf) <:+ toAsciiLowercase file := ⟨_,hlower.symm⟩
    rcases hc with hc | hc
    · exact .inr (.inr (.inr (.inl (hc ▸ hsuffix))))
    · exact .inr (.inr (.inr (.inr (.inl (hc ▸ hsuffix)))))
  · have hlower : toAsciiLowercase file =
        toAsciiLowercase front' ++ (c.toLower :: (toAsciiLowercase selector ++ ['-'])) ++ toAsciiLowercase rest := by
      rw [hfile,lower_append]
      simp [toAsciiLowercase]
    have hinfix : c.toLower :: (toAsciiLowercase selector ++ ['-']) <:+: toAsciiLowercase file := ⟨_,_,hlower.symm⟩
    rcases hc with hc | hc
    · exact .inr (.inl (hc ▸ hinfix))
    · exact .inr (.inr (.inl (hc ▸ hinfix)))

theorem matches_iff {file selector : Text} (hfile : gguf <:+ file) (hne : selector ≠ []) :
    ggufMatchesQuantSelector file selector = true ↔ SetOff (toAsciiLowercase selector) (toAsciiLowercase file) := by
  have hgguf : gguf <:+ toAsciiLowercase file := by
    obtain ⟨front,rfl⟩ := hfile
    exact ⟨toAsciiLowercase front,by rw [lower_append]; rfl⟩
  have hlower : toAsciiLowercase selector ≠ [] := by simpa [toAsciiLowercase] using hne
  unfold ggufMatchesQuantSelector
  dsimp only
  rw [if_neg (by rw [not_or,not_not]; exact ⟨hgguf,hlower⟩),decide_eq_true_iff]

theorem ne_nil_of_quantLike {value : Text} (h : isQuantLikeSelector value = true) : value ≠ [] := by
  rintro rfl
  exact absurd h (by decide)

/-- A derived selector finds its file exactly when a leading directory that it is taken from is set off
once more in the rest of the path. -/
theorem derived_selector_matches_iff {file selector : Text} (h : quantSelectorFromGgufFile file = some selector) :
    ggufMatchesQuantSelector file selector = true ↔
      ∀ directory rest, leadingSelector file = some (directory,rest) →
        SetOff (toAsciiLowercase directory) ('/' :: toAsciiLowercase rest) := by
  unfold quantSelectorFromGgufFile at h
  split_ifs at h with hfile
  cases hleading : leadingSelector file with
  | none =>
    rw [hleading] at h
    obtain ⟨stem,hstem,hselector⟩ := Option.bind_eq_some_iff.mp h
    obtain ⟨hset,hne⟩ := setOff_of_stem hstem hselector
    exact iff_of_true ((matches_iff hfile hne).mpr hset) (by simp)
  | some p =>
    obtain ⟨directory,rest⟩ := p
    rw [hleading] at h
    obtain rfl : directory = selector := Option.some.inj h
    obtain ⟨hsplit,hquant⟩ := Option.filter_eq_some_iff.mp hleading
    obtain ⟨hparts,hslash⟩ := splitOnce_spec hsplit
    have hlower : toAsciiLowercase file = toAsciiLowercase directory ++ '/' :: toAsciiLowercase rest := by
      conv_lhs => rw [hparts]
      rw [lower_append]
      rfl
    rw [matches_iff hfile (ne_nil_of_quantLike hquant),hlower,setOff_after_first (fun hmem => hslash (slash_mem_lower.mp hmem))]
    constructor
    · rintro hset directory' rest' heq
      obtain ⟨rfl,rfl⟩ := Prod.mk.inj (Option.some.inj heq)
      exact hset
    · exact fun hall => hall directory rest rfl

/-- A directory that the name of the file repeats. -/
theorem derived_selector_matches_repeated :
    ggufMatchesQuantSelector "BF16/gemma-BF16-00001-of-00002.gguf".toList "BF16".toList = true :=
  (@derived_selector_matches_iff "BF16/gemma-BF16-00001-of-00002.gguf".toList _ (by decide +kernel)).mpr (by
    intro directory rest h
    obtain ⟨rfl,rfl⟩ : "BF16".toList = directory ∧ "gemma-BF16-00001-of-00002.gguf".toList = rest :=
      Prod.mk.inj (Option.some.inj ((show leadingSelector _ = some ("BF16".toList,"gemma-BF16-00001-of-00002.gguf".toList) by
        decide +kernel).symm.trans h))
    decide +kernel)

/-- A leading directory is not between two separators. -/
theorem leading_directory_not_found :
    quantSelectorFromGgufFile "Q4_K_M/model.gguf".toList = some "Q4_K_M".toList ∧
      ggufMatchesQuantSelector "Q4_K_M/model.gguf".toList "Q4_K_M".toList = false := by
  constructor <;> decide +kernel

end MeshLlm.ModelRef
