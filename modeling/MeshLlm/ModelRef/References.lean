import MeshLlm.Library.Substring
import MeshLlm.ModelRef.QuantSelector

/-! # Model references

A reference names a repository, and perhaps a revision and a selector. It is spelled in several
ways, and one of them is the one it is displayed in.
-/
namespace MeshLlm

structure ModelRef where
  repo : List Char
  revision : Option (List Char)
  selector : Option (List Char)
deriving DecidableEq, Repr

namespace ModelRef

def formatModelRef (repo : Text) : Option Text → Option Text → Text
  | some revision, some selector => repo ++ '@' :: revision ++ ':' :: selector
  | some revision, none => repo ++ '@' :: revision
  | none, some selector => repo ++ ':' :: selector
  | none, none => repo

def displayId (r : ModelRef) : Text := formatModelRef r.repo r.revision r.selector

def nonemptyTail (repoTail : Text) (revision selector : Option Text) : Option (Text × Option Text × Option Text) :=
  if repoTail = [] ∨ revision = some [] ∨ selector = some [] then none else some (repoTail,revision,selector)

def find (c : Char) (text : Text) : Option ℕ := text.findIdx? (· == c)

def parseRepoTailSelectorAndRevision (tail : Text) : Option (Text × Option Text × Option Text) :=
  match find '@' tail, find ':' tail with
  | some atPos, some colonPos =>
    if atPos < colonPos then
      nonemptyTail (tail.take atPos) (some ((tail.take colonPos).drop (atPos + 1))) (some (tail.drop (colonPos + 1)))
    else nonemptyTail (tail.take colonPos) (some (tail.drop (atPos + 1))) (some ((tail.take atPos).drop (colonPos + 1)))
  | some atPos, none => nonemptyTail (tail.take atPos) (some (tail.drop (atPos + 1))) none
  | none, some colonPos => nonemptyTail (tail.take colonPos) none (some (tail.drop (colonPos + 1)))
  | none, none => if tail = [] then none else some (tail,none,none)

def parseHuggingfaceRepoRef (input : Text) : Option ModelRef := do
  let (owner,rest) ← splitOnce '/' input
  if owner = [] ∨ rest = [] ∨ ':' ∈ owner then none
  else do
    let (repoTail,revision,selector) ← parseRepoTailSelectorAndRevision rest
    if '/' ∈ repoTail then none else some ⟨owner ++ '/' :: repoTail,revision,selector⟩

/-- The parts between the occurrences of a letter. -/
def split (c : Char) : Text → List Text
  | [] => [[]]
  | a :: text =>
    if a = c then [] :: split c text
    else
      match split c text with
      | [] => [[a]]
      | part :: parts => (a :: part) :: parts

def stripPrefix (pre text : Text) : Option Text := if pre <+: text then some (text.drop pre.length) else none

/-- What is before a letter, or the default where the letter is missing. -/
def cutAt (c : Char) (text default : Text) : Text := ((splitOnce c text).map Prod.fst).getD default

/-- The chain that is to cut the query and the fragment. Where there is no `#` it goes back to the whole. -/
def cleanTail (tail : Text) : Text := trim (· = '/') (cutAt '#' (cutAt '?' tail tail) tail)

def huggingfaceTail (input : Text) : Option Text :=
  (stripPrefix "https://huggingface.co/".toList input).orElse fun _ => stripPrefix "http://huggingface.co/".toList input

/-- The reference of the segments of a path. -/
def refOfParts : List Text → Option ModelRef
  | owner :: second :: more =>
    if owner = [] ∨ second = [] then none
    else do
      let (repoTail,revision,selector) ← parseRepoTailSelectorAndRevision second
      let repo := owner ++ '/' :: repoTail
      match more with
      | [] => some ⟨repo,revision,selector⟩
      | [_] => none
      | third :: fourth :: _ => if third = "tree".toList ∧ fourth ≠ [] then some ⟨repo,some fourth,selector⟩ else none
  | _ => none

def parseHuggingfaceRepoUrl (input : Text) : Option ModelRef := do
  let tail ← huggingfaceTail input
  refOfParts (split '/' (cleanTail tail))

/-- An error has the input. -/
def parseModelRef (input : Text) : Except Text ModelRef :=
  let trimmed := trim isWhitespace input
  if trimmed = [] then .error input
  else
    match parseHuggingfaceRepoUrl trimmed with
    | some parsed => .ok parsed
    | none =>
      match parseHuggingfaceRepoRef trimmed with
      | some parsed => .ok parsed
      | none => .error input

/-- How a tail spells its repository, revision and selector, which may be empty. -/
inductive TailSpelling : Text → Text → Option Text → Option Text → Prop
  | bare {repo : Text} (hat : '@' ∉ repo) (hcolon : ':' ∉ repo) : TailSpelling repo repo none none
  | revised {repo revision : Text} (hat : '@' ∉ repo) (hcolon : ':' ∉ repo) (hplain : ':' ∉ revision) :
      TailSpelling (repo ++ '@' :: revision) repo (some revision) none
  | selected {repo selector : Text} (hat : '@' ∉ repo) (hcolon : ':' ∉ repo) (hplain : '@' ∉ selector) :
      TailSpelling (repo ++ ':' :: selector) repo none (some selector)
  | revisedSelected {repo revision selector : Text} (hat : '@' ∉ repo) (hcolon : ':' ∉ repo) (hplain : ':' ∉ revision) :
      TailSpelling (repo ++ '@' :: (revision ++ ':' :: selector)) repo (some revision) (some selector)
  | selectedRevised {repo revision selector : Text} (hat : '@' ∉ repo) (hcolon : ':' ∉ repo) (hplain : '@' ∉ selector) :
      TailSpelling (repo ++ ':' :: (selector ++ '@' :: revision)) repo (some revision) (some selector)

theorem find_eq_none {c : Char} {text : Text} : find c text = none ↔ c ∉ text := by
  simp [find,List.findIdx?_eq_none_iff]
  constructor
  · exact fun h hc => h c hc rfl
  · rintro h x hx rfl
    exact h hx

theorem find_append {c : Char} {before after : Text} (h : c ∉ before) : find c (before ++ c :: after) = some before.length := by
  induction before with
  | nil => simp [find,List.findIdx?_cons]
  | cons a before ih =>
    have hne : ¬a = c := fun ha => h (ha ▸ List.mem_cons_self)
    have := ih fun hin => h (List.mem_cons_of_mem _ hin)
    simp only [find] at this
    simp [find,List.findIdx?_cons,hne,this]

theorem split_at {c : Char} {text : Text} (h : c ∈ text) : ∃ before after, text = before ++ c :: after ∧ c ∉ before := by
  obtain ⟨before,after,htext,hbefore⟩ := List.append_of_mem h |> fun ⟨_,_,_⟩ => List.eq_append_cons_of_mem h
  exact ⟨before,after,htext,hbefore⟩

/-- A letter after another one, from where the first is not. -/
theorem find_second {c d : Char} {before middle after : Text} (hne : d ≠ c) (h : c ∉ before) (hmiddle : c ∉ middle) :
    find c (before ++ d :: (middle ++ c :: after)) = some (before.length + 1 + middle.length) := by
  have hnone : c ∉ before ++ d :: middle := by simp [h,hmiddle,Ne.symm hne]
  have := @find_append c (before ++ d :: middle) after hnone
  rw [List.append_assoc,List.cons_append] at this
  rw [this,List.length_append,List.length_cons]
  congr 1
  omega

theorem take_second {d c : Char} {before middle after : Text} :
    ((before ++ d :: (middle ++ c :: after)).take (before.length + 1 + middle.length)).drop (before.length + 1) = middle ∧
      (before ++ d :: (middle ++ c :: after)).drop (before.length + 1 + middle.length + 1) = after := by
  have hone : before ++ d :: (middle ++ c :: after) = (before ++ [d]) ++ (middle ++ c :: after) := by simp
  have htwo : before ++ d :: (middle ++ c :: after) = (before ++ [d] ++ middle ++ [c]) ++ after := by simp
  constructor
  · rw [hone,List.drop_take,List.drop_left' (by simp),Nat.add_sub_cancel_left,List.take_left]
  · rw [htwo,List.drop_left' (by simp; omega)]

theorem drop_first {d : Char} {before after : Text} : (before ++ d :: after).drop (before.length + 1) = after := by
  rw [show before ++ d :: after = (before ++ [d]) ++ after by simp,List.drop_left' (by simp)]

theorem parseTail_of_spelling {tail repo : Text} {revision selector : Option Text} (h : TailSpelling tail repo revision selector) :
    parseRepoTailSelectorAndRevision tail = nonemptyTail repo revision selector := by
  unfold parseRepoTailSelectorAndRevision
  cases h with
  | bare hat hcolon =>
    rw [find_eq_none.mpr hat,find_eq_none.mpr hcolon]
    simp [nonemptyTail]
  | revised hat hcolon hplain =>
    rw [find_append hat,find_eq_none.mpr (by simp [hcolon,hplain])]
    dsimp only
    rw [List.take_left,drop_first]
  | selected hat hcolon hplain =>
    rw [find_append hcolon,find_eq_none.mpr (by simp [hat,hplain])]
    dsimp only
    rw [List.take_left,drop_first]
  | revisedSelected hat hcolon hplain =>
    rw [find_append hat,find_second (by decide) hcolon hplain]
    dsimp only
    rw [if_pos (by omega),List.take_left,take_second.1,take_second.2]
  | selectedRevised hat hcolon hplain =>
    rw [find_append hcolon,find_second (by decide) hat hplain]
    dsimp only
    rw [if_neg (by omega),List.take_left,take_second.1,take_second.2]

theorem exists_spelling (tail : Text) : ∃ repo revision selector, TailSpelling tail repo revision selector := by
  by_cases hat : '@' ∈ tail
  · obtain ⟨before,after,rfl,hbefore⟩ := split_at hat
    by_cases hcolon : ':' ∈ before
    · obtain ⟨repo,selector,rfl,hrepo⟩ := split_at hcolon
      simp only [List.mem_append,List.mem_cons,not_or] at hbefore
      rw [List.append_assoc,List.cons_append]
      exact ⟨_,_,_,.selectedRevised hbefore.1 hrepo hbefore.2.2⟩
    by_cases hlater : ':' ∈ after
    · obtain ⟨revision,selector,rfl,hrevision⟩ := split_at hlater
      exact ⟨_,_,_,.revisedSelected hbefore hcolon hrevision⟩
    · exact ⟨_,_,_,.revised hbefore hcolon hlater⟩
  · by_cases hcolon : ':' ∈ tail
    · obtain ⟨repo,selector,rfl,hrepo⟩ := split_at hcolon
      simp only [List.mem_append,List.mem_cons,not_or] at hat
      exact ⟨_,_,_,.selected hat.1 hrepo hat.2.2⟩
    · exact ⟨_,_,_,.bare hat hcolon⟩

theorem TailSpelling.ne_nil {tail repo : Text} {revision selector : Option Text} (h : TailSpelling tail repo revision selector)
    (hrepo : repo ≠ []) : tail ≠ [] := by
  cases h with
  | bare => exact hrepo
  | revised | selected | revisedSelected | selectedRevised => simp

/-- No part of a tail is empty. -/
def Filled (repo : Text) (revision selector : Option Text) : Prop := repo ≠ [] ∧ revision ≠ some [] ∧ selector ≠ some []

theorem parseTail_eq_some {tail repo : Text} {revision selector : Option Text} :
    parseRepoTailSelectorAndRevision tail = some (repo,revision,selector) ↔
      TailSpelling tail repo revision selector ∧ Filled repo revision selector := by
  constructor
  · intro h
    obtain ⟨repo',revision',selector',hspelling⟩ := exists_spelling tail
    rw [parseTail_of_spelling hspelling,nonemptyTail] at h
    split_ifs at h with hempty
    cases h
    simp only [not_or] at hempty
    exact ⟨hspelling,hempty⟩
  · rintro ⟨hspelling,hrepo,hrevision,hselector⟩
    rw [parseTail_of_spelling hspelling,nonemptyTail,if_neg (by simp [hrepo,hrevision,hselector])]

/-- The path of a Hugging Face URL, in parts. -/
def huggingfaceParts (input : Text) : Option (List Text) := (huggingfaceTail input).map fun tail => split '/' (cleanTail tail)

/-- How a text spells a reference: as it is displayed, as the URL of a repository or as that of a revision's tree. -/
inductive Spells (text : Text) : Text → Text → Option Text → Option Text → Prop
  | plain {owner rest repo : Text} {revision selector : Option Text} (htext : text = owner ++ '/' :: rest) (hslash : '/' ∉ owner)
      (hcolon : ':' ∉ owner) (howner : owner ≠ []) (htail : TailSpelling rest repo revision selector)
      (hfilled : Filled repo revision selector) (hrepo : '/' ∉ repo) : Spells text owner repo revision selector
  | url {owner second repo : Text} {revision selector : Option Text} (hparts : huggingfaceParts text = some [owner,second])
      (howner : owner ≠ []) (htail : TailSpelling second repo revision selector) (hfilled : Filled repo revision selector) :
      Spells text owner repo revision selector
  | tree {owner second fourth repo : Text} {more : List Text} {revision selector : Option Text}
      (hparts : huggingfaceParts text = some (owner :: second :: "tree".toList :: fourth :: more)) (howner : owner ≠ [])
      (hfourth : fourth ≠ []) (htail : TailSpelling second repo revision selector) (hfilled : Filled repo revision selector) :
      Spells text owner repo (some fourth) selector

theorem stripPrefix_eq_some {pre text rest : Text} : stripPrefix pre text = some rest ↔ text = pre ++ rest := by
  rw [stripPrefix]
  split_ifs with hpre
  · obtain ⟨more,rfl⟩ := hpre
    simp [eq_comm]
  · simp only [false_iff]
    rintro rfl
    exact hpre (List.prefix_append _ _)

/-- A URL has two slashes after its first colon. -/
theorem url_shape {text : Text} (h : (huggingfaceTail text).isSome = true) :
    ∃ scheme more, text = scheme ++ ':' :: '/' :: '/' :: more ∧ '/' ∉ scheme := by
  unfold huggingfaceTail at h
  cases hhttps : stripPrefix "https://huggingface.co/".toList text with
  | some tail => exact ⟨"https".toList,"huggingface.co/".toList ++ tail,(stripPrefix_eq_some.mp hhttps).trans rfl,by decide⟩
  | none =>
    rw [hhttps] at h
    obtain ⟨tail,hhttp⟩ := Option.isSome_iff_exists.mp h
    have hhttp : stripPrefix "http://huggingface.co/".toList text = some tail := hhttp
    exact ⟨"http".toList,"huggingface.co/".toList ++ tail,(stripPrefix_eq_some.mp hhttp).trans rfl,by decide⟩

theorem not_url {owner rest : Text} (hslash : '/' ∉ owner) (hcolon : ':' ∉ owner) : huggingfaceTail (owner ++ '/' :: rest) = none := by
  by_contra hsome
  obtain ⟨scheme,more,htext,hscheme⟩ := url_shape (Option.isSome_iff_ne_none.mpr hsome)
  have hsplit : owner ++ '/' :: rest = (scheme ++ [':']) ++ '/' :: ('/' :: more) := by simp [htext]
  obtain ⟨rfl,-⟩ := first_unique hslash (by simp [hscheme]) hsplit
  simp at hcolon

theorem notMem_split {c : Char} {text : Text} : ∀ part ∈ split c text, c ∉ part := by
  induction text with
  | nil => simp [split]
  | cons a text ih =>
    rw [split]
    split_ifs with ha
    · simpa using ih
    · cases hsplit : split c text with
      | nil => simpa using Ne.symm ha
      | cons part parts =>
        rw [hsplit] at ih
        simp only [List.mem_cons,forall_eq_or_imp,not_or] at ih ⊢
        exact ⟨⟨Ne.symm ha,ih.1⟩,ih.2⟩

theorem parseRef_eq_some {text : Text} {r : ModelRef} : parseHuggingfaceRepoRef text = some r ↔
    ∃ owner rest repo, text = owner ++ '/' :: rest ∧ '/' ∉ owner ∧ ':' ∉ owner ∧ owner ≠ [] ∧
      TailSpelling rest repo r.revision r.selector ∧ Filled repo r.revision r.selector ∧ '/' ∉ repo ∧ r.repo = owner ++ '/' :: repo := by
  constructor
  · intro h
    rw [parseHuggingfaceRepoRef,Option.bind_eq_bind,Option.bind_eq_some_iff] at h
    obtain ⟨⟨owner,rest⟩,hsplit,h⟩ := h
    obtain ⟨htext,hslash⟩ := splitOnce_spec hsplit
    dsimp only at h
    split_ifs at h with hguard
    simp only [not_or] at hguard
    rw [Option.bind_eq_bind,Option.bind_eq_some_iff] at h
    obtain ⟨⟨repo,revision,selector⟩,htail,h⟩ := h
    dsimp only at h
    split_ifs at h with hrepo
    cases h
    obtain ⟨hspelling,hfilled⟩ := parseTail_eq_some.mp htail
    exact ⟨owner,rest,repo,htext,hslash,hguard.2.2,hguard.1,hspelling,hfilled,hrepo,rfl⟩
  · rintro ⟨owner,rest,repo,rfl,hslash,hcolon,howner,hspelling,hfilled,hrepo,hr⟩
    have hrest := hspelling.ne_nil hfilled.1
    rw [parseHuggingfaceRepoRef,splitOnce_append hslash]
    simp only [Option.bind_eq_bind,Option.bind_some]
    rw [if_neg (by simp [howner,hrest,hcolon]),parseTail_eq_some.mpr ⟨hspelling,hfilled⟩]
    simp only [Option.bind_some]
    rw [if_neg hrepo,← hr]

theorem refOfParts_eq_some {parts : List Text} {r : ModelRef} : refOfParts parts = some r ↔
    ∃ owner second repo revision, owner ≠ [] ∧ TailSpelling second repo revision r.selector ∧ Filled repo revision r.selector ∧
      r.repo = owner ++ '/' :: repo ∧ (parts = [owner,second] ∧ r.revision = revision ∨
        ∃ fourth more, parts = owner :: second :: "tree".toList :: fourth :: more ∧ fourth ≠ [] ∧ r.revision = some fourth) := by
  constructor
  · intro h
    unfold refOfParts at h
    split at h
    next owner second more =>
      split_ifs at h with hguard
      rw [not_or] at hguard
      rw [Option.bind_eq_bind,Option.bind_eq_some_iff] at h
      obtain ⟨⟨repo,revision,selector⟩,htail,h⟩ := h
      obtain ⟨hspelling,hfilled⟩ := parseTail_eq_some.mp htail
      dsimp only at h
      split at h
      · cases h
        exact ⟨owner,second,repo,revision,hguard.1,hspelling,hfilled,rfl,.inl ⟨rfl,rfl⟩⟩
      · cases h
      · split_ifs at h with htree
        cases h
        obtain ⟨rfl,hfourth⟩ := htree
        exact ⟨owner,second,repo,revision,hguard.1,hspelling,hfilled,rfl,.inr ⟨_,_,rfl,hfourth,rfl⟩⟩
    next => cases h
  · rintro ⟨owner,second,repo,revision,howner,hspelling,hfilled,hr,hparts⟩
    have htail := parseTail_eq_some.mpr ⟨hspelling,hfilled⟩
    have hsecond := hspelling.ne_nil hfilled.1
    rcases hparts with ⟨rfl,hrevision⟩ | ⟨fourth,more,rfl,hfourth,hrevision⟩
    · rw [refOfParts,if_neg (by simp [howner,hsecond]),htail]
      simp only [Option.bind_eq_bind,Option.bind_some,← hr,← hrevision]
    · rw [refOfParts,if_neg (by simp [howner,hsecond]),htail]
      simp only [Option.bind_eq_bind,Option.bind_some]
      rw [if_pos ⟨trivial,hfourth⟩,← hr,← hrevision]

/-- What parses is what is spelled. -/
theorem parseModelRef_eq_ok {input : Text} {r : ModelRef} : parseModelRef input = .ok r ↔
    ∃ owner repo, r.repo = owner ++ '/' :: repo ∧ Spells (trim isWhitespace input) owner repo r.revision r.selector := by
  unfold parseModelRef
  dsimp only
  generalize trim isWhitespace input = text
  have hurl : ∀ r, parseHuggingfaceRepoUrl text = some r ↔ ∃ parts, huggingfaceParts text = some parts ∧ refOfParts parts = some r := by
    intro r
    rw [parseHuggingfaceRepoUrl,huggingfaceParts]
    cases huggingfaceTail text <;> simp
  constructor
  · intro h
    split_ifs at h
    split at h
    next parsed hparsed =>
      cases h
      obtain ⟨parts,hparts,href⟩ := (hurl _).mp hparsed
      obtain ⟨owner,second,repo,revision,howner,hspelling,hfilled,hr,hshape⟩ := refOfParts_eq_some.mp href
      rcases hshape with ⟨rfl,hrevision⟩ | ⟨fourth,more,rfl,hfourth,hrevision⟩
      · exact ⟨owner,repo,hr,hrevision ▸ .url hparts howner hspelling hfilled⟩
      · exact ⟨owner,repo,hr,hrevision ▸ .tree hparts howner hfourth hspelling hfilled⟩
    next =>
      split at h
      next parsed hparsed =>
        cases h
        obtain ⟨owner,rest,repo,htext,hslash,hcolon,howner,hspelling,hfilled,hrepo,hr⟩ := parseRef_eq_some.mp hparsed
        exact ⟨owner,repo,hr,.plain htext hslash hcolon howner hspelling hfilled hrepo⟩
      next => cases h
  · rintro ⟨owner,repo,hr,hspells⟩
    obtain ⟨name,revision,selector⟩ := r
    dsimp only at hr hspells
    have hparsed : parseHuggingfaceRepoUrl text = some ⟨name,revision,selector⟩ ∨
        parseHuggingfaceRepoUrl text = none ∧ parseHuggingfaceRepoRef text = some ⟨name,revision,selector⟩ := by
      cases hspells with
      | plain htext hslash hcolon howner hspelling hfilled hrepo =>
        refine .inr ⟨?_,parseRef_eq_some.mpr ⟨_,_,_,htext,hslash,hcolon,howner,hspelling,hfilled,hrepo,hr⟩⟩
        rw [parseHuggingfaceRepoUrl,htext,not_url hslash hcolon]
        rfl
      | url hparts howner hspelling hfilled =>
        exact .inl ((hurl _).mpr ⟨_,hparts,refOfParts_eq_some.mpr ⟨_,_,_,_,howner,hspelling,hfilled,hr,.inl ⟨rfl,rfl⟩⟩⟩)
      | tree hparts howner hfourth hspelling hfilled =>
        exact .inl ((hurl _).mpr ⟨_,hparts,refOfParts_eq_some.mpr ⟨_,_,_,_,howner,hspelling,hfilled,hr,.inr ⟨_,_,rfl,hfourth,rfl⟩⟩⟩)
    have hne : text ≠ [] := by
      rintro rfl
      rcases hparsed with hparsed | ⟨-,hparsed⟩
      · cases hparsed
      · cases hparsed
    rw [if_neg hne]
    rcases hparsed with hparsed | ⟨hnone,hparsed⟩
    · rw [hparsed]
    · rw [hnone,hparsed]

/-- The pieces that spell a reference, wherever they come from. -/
structure Pieces (owner repo : Text) (revision selector : Option Text) : Prop where
  owner_ne_nil : owner ≠ []
  slash_owner : '/' ∉ owner
  slash_repo : '/' ∉ repo
  at_repo : '@' ∉ repo
  colon_repo : ':' ∉ repo
  filled : Filled repo revision selector
  at_selector : revision = none → ∀ text, selector = some text → '@' ∉ text

theorem TailSpelling.repo_plain {tail repo : Text} {revision selector : Option Text} (h : TailSpelling tail repo revision selector) :
    '@' ∉ repo ∧ ':' ∉ repo ∧ (revision = none → ∀ text, selector = some text → '@' ∉ text) := by
  cases h with
  | bare hat hcolon => exact ⟨hat,hcolon,fun _ text ht => by cases ht⟩
  | selected hat hcolon hplain => exact ⟨hat,hcolon,fun _ text ht => by cases ht; exact hplain⟩
  | revised hat hcolon hplain | revisedSelected hat hcolon hplain | selectedRevised hat hcolon hplain =>
    exact ⟨hat,hcolon,fun hnone => by cases hnone⟩

theorem TailSpelling.repo_front {tail repo : Text} {revision selector : Option Text} (h : TailSpelling tail repo revision selector) :
    repo <+: tail := by
  cases h with
  | bare => exact List.prefix_rfl
  | revised | selected | revisedSelected | selectedRevised => exact List.prefix_append _ _

theorem slash_parts {text : Text} {parts : List Text} (h : huggingfaceParts text = some parts) : ∀ part ∈ parts, '/' ∉ part := by
  obtain ⟨tail,-,rfl⟩ := Option.map_eq_some_iff.mp h
  exact notMem_split

theorem Spells.pieces {text owner repo : Text} {revision selector : Option Text} (h : Spells text owner repo revision selector) :
    Pieces owner repo revision selector := by
  cases h with
  | plain _ hslash _ howner htail hfilled hrepo =>
    exact ⟨howner,hslash,hrepo,htail.repo_plain.1,htail.repo_plain.2.1,hfilled,htail.repo_plain.2.2⟩
  | url hparts howner htail hfilled =>
    have hslash := slash_parts hparts
    simp only [List.mem_cons,List.not_mem_nil,or_false,forall_eq_or_imp,forall_eq] at hslash
    exact ⟨howner,hslash.1,fun hin => hslash.2 (htail.repo_front.subset hin),htail.repo_plain.1,htail.repo_plain.2.1,hfilled,htail.repo_plain.2.2⟩
  | tree hparts howner hfourth htail hfilled =>
    have hslash := slash_parts hparts
    simp only [List.mem_cons,forall_eq_or_imp] at hslash
    exact ⟨howner,hslash.1,fun hin => hslash.2.1 (htail.repo_front.subset hin),htail.repo_plain.1,htail.repo_plain.2.1,
      ⟨hfilled.1,by simpa using hfourth,hfilled.2.2⟩,fun hnone => by cases hnone⟩

/-- The displayed spelling reads back: the owner and the revision have no colon, and there is no white space outside. -/
structure Canonical (owner repo : Text) (revision selector : Option Text) : Prop where
  owner_plain : ':' ∉ owner
  revision_plain : ∀ text, revision = some text → ':' ∉ text
  trimmed : trim isWhitespace (formatModelRef (owner ++ '/' :: repo) revision selector) =
    formatModelRef (owner ++ '/' :: repo) revision selector

theorem formatModelRef_owner (owner repo : Text) (revision selector : Option Text) :
    formatModelRef (owner ++ '/' :: repo) revision selector = owner ++ '/' :: formatModelRef repo revision selector := by
  cases revision <;> cases selector <;> simp [formatModelRef]

theorem TailSpelling.length_eq {tail repo : Text} {revision selector : Option Text} (h : TailSpelling tail repo revision selector) :
    tail.length = (formatModelRef repo revision selector).length := by
  cases h with
  | bare | revised | selected | revisedSelected => simp [formatModelRef]
  | selectedRevised =>
    simp [formatModelRef]
    omega

section Reparse
variable {owner repo : Text} {revision selector : Option Text}

theorem Pieces.spelling (h : Pieces owner repo revision selector) (hplain : ∀ text, revision = some text → ':' ∉ text) :
    TailSpelling (formatModelRef repo revision selector) repo revision selector := by
  cases revision with
  | none =>
    cases selector with
    | none => exact .bare h.at_repo h.colon_repo
    | some selector => exact .selected h.at_repo h.colon_repo (h.at_selector rfl _ rfl)
  | some revision =>
    cases selector with
    | none => exact .revised h.at_repo h.colon_repo (hplain _ rfl)
    | some selector =>
      rw [formatModelRef,List.append_assoc]
      exact .revisedSelected h.at_repo h.colon_repo (hplain _ rfl)

theorem Pieces.plain_of_spelling (h : TailSpelling (formatModelRef repo revision selector) repo revision selector) :
    ∀ text, revision = some text → ':' ∉ text := by
  generalize htail : formatModelRef repo revision selector = tail at h
  cases h with
  | bare | selected => exact fun text ht => by cases ht
  | revised _ _ hplain | revisedSelected _ _ hplain => exact fun text ht => by cases ht; exact hplain
  | selectedRevised => simp [formatModelRef] at htail

/-- A displayed reference is no URL: its first slash has none after it. -/
theorem Pieces.not_parts (h : Pieces owner repo revision selector) :
    huggingfaceParts (trim isWhitespace (formatModelRef (owner ++ '/' :: repo) revision selector)) = none := by
  by_contra hsome
  obtain ⟨before,after,htext,hblank⟩ := trim_spec isWhitespace (formatModelRef (owner ++ '/' :: repo) revision selector)
  have hurl : (huggingfaceTail (trim isWhitespace (formatModelRef (owner ++ '/' :: repo) revision selector))).isSome = true := by
    by_contra hnone
    rw [Option.not_isSome_iff_eq_none] at hnone
    exact hsome (by rw [huggingfaceParts,hnone]; rfl)
  obtain ⟨scheme,more,hshape,hscheme⟩ := url_shape hurl
  have hbefore : '/' ∉ before := fun hin => absurd (hblank _ hin) (by decide)
  have hsplit : owner ++ '/' :: formatModelRef repo revision selector = (before ++ scheme ++ [':']) ++ '/' :: ('/' :: more ++ after) := by
    rw [← formatModelRef_owner,htext,hshape]
    simp
  have hrest := (first_unique h.slash_owner (by simp [hbefore,hscheme]) hsplit).2
  obtain ⟨c,repo,rfl⟩ := List.exists_cons_of_ne_nil h.filled.1
  have hfirst : c = '/' := by
    have hhead := congrArg List.head? hrest
    cases revision <;> cases selector <;> simpa [formatModelRef] using hhead
  exact h.slash_repo (hfirst ▸ List.mem_cons_self)

theorem Pieces.reparses_iff (h : Pieces owner repo revision selector) :
    parseModelRef (formatModelRef (owner ++ '/' :: repo) revision selector) = .ok ⟨owner ++ '/' :: repo,revision,selector⟩ ↔
      Canonical owner repo revision selector := by
  rw [parseModelRef_eq_ok]
  constructor
  · rintro ⟨owner',repo',hname,hspells⟩
    dsimp only at hname hspells
    obtain ⟨before,after,htext,-⟩ := trim_spec isWhitespace (formatModelRef (owner ++ '/' :: repo) revision selector)
    have hparts := h.not_parts
    generalize htrim : trim isWhitespace (formatModelRef (owner ++ '/' :: repo) revision selector) = text at htext hparts hspells
    cases hspells with
    | url hsome | tree hsome => exact absurd (hparts.symm.trans hsome) (by simp)
    | plain hshape hslash hcolon _ htail _ _ =>
      obtain ⟨rfl,rfl⟩ := first_unique h.slash_owner hslash hname
      rename_i rest
      -- the tail is as long as the displayed one, so nothing was trimmed
      have hlength := congrArg List.length htext
      rw [formatModelRef_owner,hshape] at hlength
      simp only [List.length_append,List.length_cons,htail.length_eq] at hlength
      obtain rfl : before = [] := List.length_eq_zero_iff.mp (by omega)
      obtain rfl : after = [] := List.length_eq_zero_iff.mp (by omega)
      rw [List.nil_append,List.append_nil] at htext
      refine ⟨hcolon,?_,htrim.trans htext.symm⟩
      rw [formatModelRef_owner,hshape] at htext
      obtain ⟨-,rfl⟩ := first_unique h.slash_owner hslash htext
      exact Pieces.plain_of_spelling htail
  · rintro ⟨howner,hrevision,htrimmed⟩
    refine ⟨owner,repo,rfl,?_⟩
    rw [htrimmed]
    exact .plain (formatModelRef_owner _ _ _ _) h.slash_owner howner h.owner_ne_nil (h.spelling hrevision) h.filled h.slash_repo

end Reparse

/-- What parses from an input parses from its displayed form as well. -/
def RoundTrips (input : Text) : Prop := ∀ r, parseModelRef input = .ok r → parseModelRef r.displayId = .ok r

theorem roundTrips_iff (input : Text) : RoundTrips input ↔ ∀ owner repo revision selector,
    Spells (trim isWhitespace input) owner repo revision selector → Canonical owner repo revision selector := by
  constructor
  · intro h owner repo revision selector hspells
    exact hspells.pieces.reparses_iff.mp (h ⟨owner ++ '/' :: repo,revision,selector⟩ (parseModelRef_eq_ok.mpr ⟨owner,repo,rfl,hspells⟩))
  · rintro h ⟨name,revision,selector⟩ hparsed
    obtain ⟨owner,repo,hname,hspells⟩ := parseModelRef_eq_ok.mp hparsed
    dsimp only at hname hspells
    subst hname
    exact hspells.pieces.reparses_iff.mpr (h owner repo revision selector hspells)

end ModelRef

end MeshLlm
