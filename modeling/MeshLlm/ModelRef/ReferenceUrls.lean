import MeshLlm.ModelRef.References

/-! # Queries and fragments of a model's URL

A URL without query and fragment, with one or both of them after it. The path is read in parts,
and what follows it goes into its last part where it is not cut.
-/
namespace MeshLlm.ModelRef

section Appended
variable {first second third fourth : Text} {more : List Text}

/-- Two texts one after the other, in parts: the last part of one and the first of the other are one. -/
def appendParts : List Text → List Text → List Text
  | [], parts => parts
  | [last], [] => [last]
  | [last], part :: parts => (last ++ part) :: parts
  | part :: next :: more, parts => part :: appendParts (next :: more) parts

theorem split_ne_nil (c : Char) (text : Text) : split c text ≠ [] := by
  cases text with
  | nil => simp [split]
  | cons a text =>
    rw [split]
    split_ifs
    · simp
    · cases split c text <;> simp

theorem split_append (c : Char) (text text' : Text) : split c (text ++ text') = appendParts (split c text) (split c text') := by
  induction text with
  | nil =>
    obtain ⟨part,parts,hparts⟩ := List.exists_cons_of_ne_nil (split_ne_nil c text')
    simp [split,hparts,appendParts]
  | cons a text ih =>
    obtain ⟨part,parts,hparts⟩ := List.exists_cons_of_ne_nil (split_ne_nil c text)
    obtain ⟨part',parts',hparts'⟩ := List.exists_cons_of_ne_nil (split_ne_nil c text')
    rw [List.cons_append,split,split,ih,hparts,hparts']
    split_ifs with ha
    · rw [appendParts]
    · cases parts <;> simp [appendParts]

theorem split_slashes (c : Char) (n : ℕ) : split c (List.replicate n c) = List.replicate (n + 1) [] := by
  induction n with
  | zero => rfl
  | succ n ih => rw [List.replicate_succ,split,if_pos rfl,ih,← List.replicate_succ]

theorem appendParts_slashes {parts : List Text} (h : parts ≠ []) (n : ℕ) :
    appendParts parts (List.replicate (n + 1) []) = parts ++ List.replicate n [] := by
  induction parts with
  | nil => exact absurd rfl h
  | cons part parts ih =>
    cases parts with
    | nil => simp [List.replicate_succ,appendParts]
    | cons next parts =>
      rw [appendParts,ih (List.cons_ne_nil _ _)]
      rfl

theorem appendParts_singleton {parts : List Text} (h : parts ≠ []) (part : Text) :
    ∃ front last, appendParts parts [part] = front ++ [last ++ part] := by
  induction parts with
  | nil => exact absurd rfl h
  | cons part' parts ih =>
    cases parts with
    | nil => exact ⟨[],part',rfl⟩
    | cons next parts =>
      obtain ⟨front,last,hlast⟩ := ih (List.cons_ne_nil _ _)
      exact ⟨part' :: front,last,by rw [appendParts,hlast,List.cons_append]⟩

theorem refOfParts_none (h : parseRepoTailSelectorAndRevision second = none) : refOfParts (first :: second :: more) = none := by
  rw [refOfParts]
  split_ifs
  · rfl
  · rw [h]
    rfl

theorem refOfParts_three : refOfParts [first,second,third] = none := by
  rw [refOfParts]
  split_ifs
  · rfl
  · cases parseRepoTailSelectorAndRevision second <;> rfl

theorem refOfParts_of_ne_tree (h : third ≠ "tree".toList) : refOfParts (first :: second :: third :: more) = none := by
  cases more with
  | nil => exact refOfParts_three
  | cons fourth more =>
    rw [refOfParts]
    split_ifs
    · rfl
    · cases parseRepoTailSelectorAndRevision second with
      | none => rfl
      | some parsed =>
        simp only [Option.bind_eq_bind,Option.bind_some]
        rw [if_neg fun hand => h hand.1]

theorem refOfParts_four (more more' : List Text) :
    refOfParts (first :: second :: third :: fourth :: more) = refOfParts (first :: second :: third :: fourth :: more') := rfl

theorem refOfParts_nil_fourth : refOfParts (first :: second :: third :: [] :: more) = none := by
  rw [refOfParts]
  split_ifs
  · rfl
  · cases parseRepoTailSelectorAndRevision second with
    | none => rfl
    | some parsed => simp

/-- A tail that starts with a mark has no repository. -/
theorem parseTail_mark {c : Char} (hc : c = '@' ∨ c = ':') (tail : Text) : parseRepoTailSelectorAndRevision (c :: tail) = none := by
  cases hparsed : parseRepoTailSelectorAndRevision (c :: tail) with
  | none => rfl
  | some parsed =>
    obtain ⟨repo,revision,selector⟩ := parsed
    obtain ⟨hspelling,hfilled⟩ := parseTail_eq_some.mp hparsed
    obtain ⟨d,repo,rfl⟩ := List.exists_cons_of_ne_nil hfilled.1
    obtain ⟨rfl,-⟩ := List.cons_prefix_cons.mp hspelling.repo_front
    obtain ⟨hat,hcolon,-⟩ := hspelling.repo_plain
    rcases hc with rfl | rfl
    · exact absurd List.mem_cons_self hat
    · exact absurd List.mem_cons_self hcolon

/-- What does not parse with a question mark after it has an empty part before its end, and does not parse with anything after it. -/
theorem parseTail_none_of_question (h : parseRepoTailSelectorAndRevision (second ++ ['?']) = none) :
    parseRepoTailSelectorAndRevision second = none ∧ ∀ text, parseRepoTailSelectorAndRevision (second ++ '?' :: text) = none := by
  obtain ⟨repo,revision,selector,hspelling⟩ := exists_spelling second
  have hsome : ∀ {tail repo : Text} {revision selector : Option Text}, TailSpelling tail repo revision selector →
      parseRepoTailSelectorAndRevision tail = none → ¬Filled repo revision selector := by
    intro tail repo revision selector hspelling hnone hfilled
    rw [parseTail_eq_some.mpr ⟨hspelling,hfilled⟩] at hnone
    cases hnone
  have hempty : ∀ {tail repo : Text} {revision selector : Option Text}, TailSpelling tail repo revision selector →
      ¬Filled repo revision selector → parseRepoTailSelectorAndRevision tail = none := by
    intro tail repo revision selector hspelling hfilled
    rw [parseTail_of_spelling hspelling,nonemptyTail,if_pos]
    by_contra hguard
    simp only [not_or] at hguard
    exact hfilled hguard
  have hmark : ∀ {c : Char} {tail : Text}, c = '@' ∨ c = ':' → second = c :: tail →
      parseRepoTailSelectorAndRevision second = none ∧ ∀ text, parseRepoTailSelectorAndRevision (second ++ '?' :: text) = none := by
    rintro c tail hc rfl
    exact ⟨parseTail_mark hc _,fun text => parseTail_mark hc _⟩
  cases hspelling with
  | bare hat hcolon =>
    have hbare : TailSpelling (second ++ ['?']) (second ++ ['?']) none none := .bare (by simp [hat]) (by simp [hcolon])
    exact absurd ⟨by simp,by simp,by simp⟩ (hsome hbare h)
  | @revised repo revision hat hcolon hplain =>
    by_cases hrepo : repo = []
    · exact hmark (.inl rfl) (by rw [hrepo,List.nil_append])
    · rw [List.append_assoc,List.cons_append] at h
      exact absurd ⟨hrepo,by simp,by simp⟩ (hsome (.revised hat hcolon (by simp [hplain])) h)
  | @selected repo selector hat hcolon hplain =>
    by_cases hrepo : repo = []
    · exact hmark (.inr rfl) (by rw [hrepo,List.nil_append])
    · rw [List.append_assoc,List.cons_append] at h
      exact absurd ⟨hrepo,by simp,by simp⟩ (hsome (.selected hat hcolon (by simp [hplain])) h)
  | @revisedSelected repo revision selector hat hcolon hplain =>
    by_cases hrepo : repo = []
    · exact hmark (.inl rfl) (by rw [hrepo,List.nil_append])
    by_cases hrevision : revision = []
    · refine ⟨hempty (.revisedSelected hat hcolon hplain) fun hfilled => hfilled.2.1 (by rw [hrevision]),fun text => ?_⟩
      rw [List.append_assoc,List.cons_append,List.append_assoc,List.cons_append]
      exact hempty (.revisedSelected hat hcolon hplain) fun hfilled => hfilled.2.1 (by rw [hrevision])
    · rw [List.append_assoc,List.cons_append,List.append_assoc,List.cons_append] at h
      exact absurd ⟨hrepo,by simpa using hrevision,by simp⟩ (hsome (.revisedSelected hat hcolon hplain) h)
  | @selectedRevised repo revision selector hat hcolon hplain =>
    by_cases hrepo : repo = []
    · exact hmark (.inr rfl) (by rw [hrepo,List.nil_append])
    by_cases hselector : selector = []
    · refine ⟨hempty (.selectedRevised hat hcolon hplain) fun hfilled => hfilled.2.2 (by rw [hselector]),fun text => ?_⟩
      rw [List.append_assoc,List.cons_append,List.append_assoc,List.cons_append]
      exact hempty (.selectedRevised hat hcolon hplain) fun hfilled => hfilled.2.2 (by rw [hselector])
    · rw [List.append_assoc,List.cons_append,List.append_assoc,List.cons_append] at h
      exact absurd ⟨hrepo,by simp,by simpa using hselector⟩ (hsome (.selectedRevised hat hcolon hplain) h)

/-- A path whose reading no query changes: nothing reads of its second part, or what would be read does not reach its end. -/
def QueryProof : List Text → Prop
  | [_,second] => parseRepoTailSelectorAndRevision (second ++ ['?']) = none
  | _ :: second :: third :: more => parseRepoTailSelectorAndRevision second = none ∨
    (∃ part ∈ third :: more, part ≠ []) ∧ ¬(third = "tree".toList ∧ more.length = 1)
  | _ => False

/-- The parts of a path without the slashes at its end, and with them. -/
structure Ended (parts kept : List Text) : Prop where
  kept_ne_nil : kept ≠ []
  slashes : ∃ n, parts = kept ++ List.replicate n []
  last_ne_nil : ∀ front, kept = front ++ [[]] → front = []
  first_ne_nil : ∀ first second more, parts = first :: second :: more → first ≠ []

variable {parts kept : List Text}

theorem question_ne_tree (text : Text) : third ++ '?' :: text ≠ "tree".toList := by
  intro h
  have hmem : '?' ∈ "tree".toList := by rw [← h]; simp
  exact absurd hmem (by decide)

/-- Where more than the first two parts is not empty, some part after them is kept. -/
theorem Ended.kept_third (h : Ended (first :: second :: third :: more) kept) (hpart : ∃ part ∈ third :: more, part ≠ []) :
    ∃ kept', kept = first :: second :: kept' ∧ ∃ n, third :: more = kept' ++ List.replicate n [] ∧ kept' ≠ [] := by
  obtain ⟨n,hn⟩ := h.slashes
  have hblank : ∀ m, third :: more ≠ List.replicate m [] := by
    rintro m hm
    obtain ⟨part,hin,hne⟩ := hpart
    rw [hm] at hin
    exact hne (List.eq_of_mem_replicate hin)
  cases kept with
  | nil => exact absurd rfl h.kept_ne_nil
  | cons a kept =>
    simp only [List.cons_append,List.cons.injEq] at hn
    obtain ⟨rfl,hn⟩ := hn
    cases kept with
    | nil =>
      rw [List.nil_append] at hn
      cases n with
      | zero => cases hn
      | succ n => exact absurd (List.cons.inj (hn.trans List.replicate_succ)).2 (hblank n)
    | cons b kept =>
      simp only [List.cons_append,List.cons.injEq] at hn
      obtain ⟨rfl,hn⟩ := hn
      refine ⟨kept,rfl,n,hn,?_⟩
      rintro rfl
      exact hblank n hn

theorem refOfParts_query (h : Ended parts kept) (hproof : QueryProof parts) (part : Text) (tail : List Text) :
    refOfParts (appendParts parts (('?' :: part) :: tail)) = refOfParts kept := by
  obtain ⟨n,hn⟩ := h.slashes
  match parts, hproof with
  | [first,second], hproof =>
    obtain ⟨hsecond,hmore⟩ := parseTail_none_of_question hproof
    rw [appendParts,appendParts,refOfParts_none (hmore part)]
    match kept, hn with
    | [a], _ => rfl
    | [a,b], hn =>
      simp only [List.cons_append,List.cons.injEq] at hn
      rw [← hn.2.1,refOfParts_none hsecond]
    | a :: b :: c :: kept, hn => simp at hn
    | [], _ => exact absurd rfl h.kept_ne_nil
  | first :: second :: third :: more, hproof =>
    rw [appendParts,appendParts]
    by_cases hsecond : parseRepoTailSelectorAndRevision second = none
    · rw [refOfParts_none hsecond]
      match kept, hn with
      | [a], _ => rfl
      | a :: b :: kept, hn =>
        simp only [List.cons_append,List.cons.injEq] at hn
        rw [← hn.2.1,refOfParts_none hsecond]
      | [], _ => exact absurd rfl h.kept_ne_nil
    · obtain ⟨hpart,htree⟩ := hproof.resolve_left hsecond
      obtain ⟨kept',rfl,m,hm,hne⟩ := h.kept_third hpart
      obtain ⟨c,kept',rfl⟩ := List.exists_cons_of_ne_nil hne
      simp only [List.cons_append,List.cons.injEq] at hm
      obtain ⟨rfl,hm⟩ := hm
      match more, hm with
      | [], hm =>
        obtain ⟨rfl,-⟩ := List.append_eq_nil_iff.mp hm.symm
        rw [appendParts,refOfParts_of_ne_tree (question_ne_tree part),refOfParts_three]
      | [fourth], _ =>
        have hthird : third ≠ "tree".toList := fun hthird => htree ⟨hthird,rfl⟩
        rw [appendParts,refOfParts_of_ne_tree hthird,refOfParts_of_ne_tree hthird]
      | fourth :: fifth :: more, hm =>
        rw [appendParts,appendParts]
        cases kept' with
        | nil =>
          have hfourth : fourth = [] := List.eq_of_mem_replicate (n := m) (by rw [List.nil_append] at hm; rw [← hm]; exact List.mem_cons_self)
          rw [hfourth,refOfParts_nil_fourth,refOfParts_three]
        | cons d kept' =>
          simp only [List.cons_append,List.cons.injEq] at hm
          rw [← hm.1,refOfParts_four _ kept']

theorem refOfParts_two {repo : Text} {revision selector : Option Text} (hfirst : first ≠ [])
    (h : parseRepoTailSelectorAndRevision second = some (repo,revision,selector)) :
    refOfParts [first,second] = some ⟨first ++ '/' :: repo,revision,selector⟩ := by
  obtain ⟨hspelling,hfilled⟩ := parseTail_eq_some.mp h
  exact refOfParts_eq_some.mpr ⟨first,second,repo,revision,hfirst,hspelling,hfilled,rfl,.inl ⟨rfl,rfl⟩⟩

theorem refOfParts_tree {repo : Text} {revision selector : Option Text} (hfirst : first ≠ []) (hfourth : fourth ≠ [])
    (h : parseRepoTailSelectorAndRevision second = some (repo,revision,selector)) :
    refOfParts (first :: second :: "tree".toList :: fourth :: more) = some ⟨first ++ '/' :: repo,some fourth,selector⟩ := by
  obtain ⟨hspelling,hfilled⟩ := parseTail_eq_some.mp h
  exact refOfParts_eq_some.mpr ⟨first,second,repo,revision,hfirst,hspelling,hfilled,rfl,.inr ⟨_,_,rfl,hfourth,rfl⟩⟩

/-- An empty query and one that goes on like a path are enough to tell. -/
theorem queryProof_of_queries (h : Ended parts kept) (hempty : refOfParts (appendParts parts [['?']]) = refOfParts kept)
    (hpath : refOfParts (appendParts parts ["?x".toList,"y".toList]) = refOfParts kept) : QueryProof parts := by
  obtain ⟨n,hn⟩ := h.slashes
  match parts with
  | [] => exact absurd (List.append_eq_nil_iff.mp hn.symm).1 h.kept_ne_nil
  | [first] =>
    have hkept : refOfParts kept = none := by
      match kept, hn with
      | [], _ => rfl
      | [a], _ => rfl
      | a :: b :: kept, hn => simp at hn
    have hsome := @refOfParts_two (first ++ "?x".toList) "y".toList _ _ _ (by simp)
      (parseTail_eq_some.mpr ⟨.bare (by decide) (by decide),by decide,by simp,by simp⟩)
    rw [appendParts,hkept,hsome] at hpath
    cases hpath
  | [first,second] =>
    have hfirst := h.first_ne_nil _ _ _ rfl
    by_contra hnone
    obtain ⟨⟨repo,revision,selector⟩,hparsed⟩ := Option.ne_none_iff_exists'.mp hnone
    rw [appendParts,appendParts,refOfParts_two hfirst hparsed] at hempty
    match kept, hn with
    | [], _ => cases hempty
    | [a], _ => cases hempty
    | [a,b], hn =>
      simp only [List.cons_append,List.cons.injEq] at hn
      obtain ⟨rfl,rfl,-⟩ := hn
      cases hsecond : parseRepoTailSelectorAndRevision second with
      | none =>
        rw [refOfParts_none hsecond] at hempty
        cases hempty
      | some parsed =>
        obtain ⟨repo',revision',selector'⟩ := parsed
        rw [refOfParts_two hfirst hsecond] at hempty
        simp only [Option.some.injEq,ModelRef.mk.injEq,List.append_cancel_left_eq,List.cons.injEq,true_and] at hempty
        obtain ⟨rfl,rfl,rfl⟩ := hempty
        have hlength := (parseTail_eq_some.mp hparsed).1.length_eq
        rw [← (parseTail_eq_some.mp hsecond).1.length_eq] at hlength
        simp at hlength
    | a :: b :: c :: kept, hn => simp at hn
  | first :: second :: third :: more =>
    have hfirst := h.first_ne_nil _ _ _ rfl
    by_cases hsecond : parseRepoTailSelectorAndRevision second = none
    · exact .inl hsecond
    obtain ⟨⟨repo,revision,selector⟩,hparsed⟩ := Option.ne_none_iff_exists'.mp hsecond
    rw [appendParts,appendParts] at hempty
    right
    constructor
    · by_contra hblank
      have hall : ∀ part ∈ third :: more, part = [] := fun part hin => by_contra fun hne => hblank ⟨part,hin,hne⟩
      have hkept : kept = [first,second] := by
        match kept, hn with
        | [], _ => exact absurd rfl h.kept_ne_nil
        | [a], hn =>
          simp only [List.cons_append,List.nil_append,List.cons.injEq] at hn
          have hnil : second = [] := List.eq_of_mem_replicate (n := n) (by rw [← hn.2]; exact List.mem_cons_self)
          rw [hnil] at hsecond
          exact absurd rfl hsecond
        | a :: b :: kept', hn =>
          simp only [List.cons_append,List.cons.injEq] at hn
          obtain ⟨rfl,rfl,hmore⟩ := hn
          rcases List.eq_nil_or_concat kept' with rfl | ⟨front,last,rfl⟩
          · rfl
          · have hlast : last = [] := hall last (by rw [hmore]; simp)
            have := h.last_ne_nil (first :: second :: front) (by rw [hlast]; simp)
            cases this
      rw [hkept,refOfParts_two hfirst hparsed] at hempty
      obtain rfl : third = [] := hall _ List.mem_cons_self
      cases more with
      | nil =>
        rw [appendParts,refOfParts_three] at hempty
        cases hempty
      | cons fourth more =>
        rw [appendParts,refOfParts_of_ne_tree (by decide)] at hempty
        cases hempty
    · rintro ⟨rfl,hlength⟩
      obtain ⟨fourth,rfl⟩ := List.length_eq_one_iff.mp hlength
      obtain ⟨kept',rfl,m,hm,hne⟩ := h.kept_third ⟨_,List.mem_cons_self,by decide⟩
      rw [appendParts,appendParts,refOfParts_tree hfirst (by simp) hparsed] at hempty
      match kept', hm with
      | [c], _ =>
        rw [refOfParts_three] at hempty
        cases hempty
      | [c,d], hm =>
        simp only [List.cons_append,List.cons.injEq] at hm
        obtain ⟨rfl,rfl,-⟩ := hm
        by_cases hfourth : fourth = []
        · rw [hfourth,refOfParts_nil_fourth] at hempty
          cases hempty
        · rw [refOfParts_tree hfirst hfourth hparsed] at hempty
          simp at hempty
      | c :: d :: e :: kept', hm => simp at hm
      | [], _ => exact hne rfl

end Appended

/-- A Hugging Face URL without query and fragment, and what comes after the host. -/
structure HuggingfaceUrl (url tail : Text) : Prop where
  host : url = "https://huggingface.co/".toList ++ tail ∨ url = "http://huggingface.co/".toList ++ tail
  no_query : '?' ∉ url
  no_fragment : '#' ∉ url
  no_blank : ∀ c ∈ url, isWhitespace c = false

theorem cutAt_append {c : Char} {before : Text} (h : c ∉ before) (after default : Text) : cutAt c (before ++ c :: after) default = before := by
  rw [cutAt,splitOnce_append h]
  rfl

theorem cutAt_of_notMem {c : Char} {text : Text} (h : c ∉ text) (default : Text) : cutAt c text default = default := by
  rw [cutAt,splitOnce,if_neg h]
  rfl

theorem parse_of_host {text url tail : Text} (htrim : trim isWhitespace text = url)
    (hhost : url = "https://huggingface.co/".toList ++ tail ∨ url = "http://huggingface.co/".toList ++ tail) :
    (parseModelRef text).toOption = refOfParts (split '/' (cleanTail tail)) := by
  have htail : huggingfaceTail url = some tail := by
    rcases hhost with rfl | rfl
    · rw [huggingfaceTail,stripPrefix_eq_some.mpr rfl]
      rfl
    · have hnone : stripPrefix "https://huggingface.co/".toList ("http://huggingface.co/".toList ++ tail) = none := by
        cases hsome : stripPrefix "https://huggingface.co/".toList ("http://huggingface.co/".toList ++ tail) with
        | none => rfl
        | some rest =>
          have := congrArg (List.take 5) (stripPrefix_eq_some.mp hsome)
          exact absurd this (by simp)
      rw [huggingfaceTail,hnone]
      exact stripPrefix_eq_some.mpr rfl
  have hne : url ≠ [] := by
    rintro rfl
    cases htail
  have href : parseHuggingfaceRepoRef url = none := by
    refine Option.eq_none_iff_forall_ne_some.mpr fun r hr => ?_
    obtain ⟨owner,rest,_,rfl,hslash,hcolon,-⟩ := parseRef_eq_some.mp hr
    rw [not_url hslash hcolon] at htail
    cases htail
  rw [parseModelRef,htrim]
  rw [if_neg hne,parseHuggingfaceRepoUrl,htail,href]
  simp only [Option.bind_eq_bind,Option.bind_some]
  cases refOfParts (split '/' (cleanTail tail)) <;> rfl

/-- Neither a query nor a fragment nor both of them change what a URL is read as. -/
def KeepsReading (url : Text) : Prop :=
  ∀ text, (parseModelRef (url ++ '?' :: text)).toOption = (parseModelRef url).toOption ∧
    (parseModelRef (url ++ '#' :: text)).toOption = (parseModelRef url).toOption

section Url
variable {url tail : Text}

theorem HuggingfaceUrl.tail_plain (h : HuggingfaceUrl url tail) : '?' ∉ tail ∧ '#' ∉ tail := by
  have hsuffix : tail <:+ url := by
    rcases h.host with hhost | hhost
    · exact hhost ▸ List.suffix_append _ _
    · exact hhost ▸ List.suffix_append _ _
  exact ⟨fun hin => h.no_query (hsuffix.subset hin),fun hin => h.no_fragment (hsuffix.subset hin)⟩

theorem HuggingfaceUrl.reading (h : HuggingfaceUrl url tail) : (parseModelRef url).toOption = refOfParts (split '/' (trim (· = '/') tail)) := by
  rw [parse_of_host (trim_of_none h.no_blank) h.host,cleanTail,cutAt_of_notMem h.tail_plain.1,cutAt_of_notMem h.tail_plain.2]

theorem HuggingfaceUrl.host_append (h : HuggingfaceUrl url tail) (text : Text) :
    url ++ text = "https://huggingface.co/".toList ++ (tail ++ text) ∨ url ++ text = "http://huggingface.co/".toList ++ (tail ++ text) := by
  rcases h.host with hhost | hhost
  · exact .inl (by rw [hhost,List.append_assoc])
  · exact .inr (by rw [hhost,List.append_assoc])

/-- A fragment is cut. -/
theorem HuggingfaceUrl.fragment (h : HuggingfaceUrl url tail) (text : Text) :
    (parseModelRef (url ++ '#' :: text)).toOption = (parseModelRef url).toOption := by
  rw [h.reading,parse_of_host (trim_append_cons h.no_blank (by decide) text) (h.host_append _),cleanTail]
  congr 3
  obtain ⟨hquery,hfragment⟩ := h.tail_plain
  by_cases hin : '?' ∈ trimEnd isWhitespace text
  · obtain ⟨before,after,hsplit,hbefore⟩ := split_at hin
    have hshape : tail ++ '#' :: trimEnd isWhitespace text = (tail ++ '#' :: before) ++ '?' :: after := by rw [hsplit]; simp
    rw [hshape,cutAt_append (by simp [hquery,hbefore]),cutAt_append hfragment]
  · have hwhole := @cutAt_of_notMem '?' (tail ++ '#' :: trimEnd isWhitespace text) (by simp [hquery,hin])
      (tail ++ '#' :: trimEnd isWhitespace text)
    rw [hwhole,cutAt_append hfragment]

/-- A query is not. -/
theorem HuggingfaceUrl.query (h : HuggingfaceUrl url tail) (text : Text) : (parseModelRef (url ++ '?' :: text)).toOption =
    refOfParts (split '/' (trimStart (· = '/') tail ++ '?' :: trimEnd (· = '/') (trimEnd isWhitespace text))) := by
  obtain ⟨hquery,hfragment⟩ := h.tail_plain
  rw [parse_of_host (trim_append_cons h.no_blank (by decide) text) (h.host_append _),cleanTail,cutAt_append hquery,
    cutAt_of_notMem hfragment,trim,trimStart_append_cons (by decide),trimEnd_append_cons (by decide)]

/-- The parts of the path, with the slashes at its end and without. -/
theorem ended_parts (tail : Text) : Ended (split '/' (trimStart (· = '/') tail)) (split '/' (trim (· = '/') tail)) := by
  have hfirst : ∀ text, trimStart (· = '/') tail ≠ '/' :: text := by
    intro text htext
    have hne : tail.dropWhile (fun c => decide (c = '/')) ≠ [] := by
      intro hnil
      rw [trimStart,hnil] at htext
      cases htext
    have hhead := List.head_dropWhile_not _ hne
    rw [trimStart] at htext
    simp [htext] at hhead
  rw [trim]
  generalize trimStart (· = '/') tail = body at hfirst ⊢
  obtain ⟨n,hbody⟩ : ∃ n, body = trimEnd (· = '/') body ++ List.replicate n '/' := by
    refine ⟨(body.rtakeWhile (· = '/')).length,?_⟩
    have hall : body.rtakeWhile (· = '/') = List.replicate (body.rtakeWhile (· = '/')).length '/' :=
      List.eq_replicate_of_mem fun c hc => by simpa using List.mem_rtakeWhile_imp hc
    rw [← hall]
    exact List.rdropWhile_append_rtakeWhile.symm
  refine ⟨split_ne_nil _ _,⟨n,?_⟩,?_,?_⟩
  · rw [← appendParts_slashes (split_ne_nil _ _),← split_slashes '/',← split_append,← hbody]
  · intro front hfront
    rcases List.eq_nil_or_concat (trimEnd (· = '/') body) with hnil | ⟨text,c,htext⟩
    · rw [hnil] at hfront
      cases front with
      | nil => rfl
      | cons part front => simp [split] at hfront
    · have hc : c ≠ '/' := by
        have hlast := List.rdropWhile_last_not (fun c => decide (c = '/')) body (by rw [trimEnd] at htext; rw [htext]; simp)
        simp only [trimEnd] at htext
        simp only [htext] at hlast
        simpa using hlast
      rw [htext,List.concat_eq_append,split_append,split,if_neg hc] at hfront
      obtain ⟨init,last,hlast⟩ := appendParts_singleton (split_ne_nil '/' text) [c]
      rw [split,hlast] at hfront
      have := congrArg List.getLast? hfront
      simp at this
  · rintro first second more hparts rfl
    cases body with
    | nil => simp [split] at hparts
    | cons c body =>
      rw [split] at hparts
      split_ifs at hparts with hc
      · exact hfirst body (by rw [hc])
      · cases hsplit : split '/' body <;> simp [hsplit] at hparts

theorem keepsReading_iff (h : HuggingfaceUrl url tail) : KeepsReading url ↔ QueryProof (split '/' (trimStart (· = '/') tail)) := by
  have hended := ended_parts tail
  have hquery : ∀ text part parts, split '/' ('?' :: trimEnd (· = '/') (trimEnd isWhitespace text)) = part :: parts →
      (parseModelRef (url ++ '?' :: text)).toOption = refOfParts (appendParts (split '/' (trimStart (· = '/') tail)) (part :: parts)) := by
    intro text part parts hparts
    rw [h.query,split_append,hparts]
  constructor
  · intro hkeeps
    refine queryProof_of_queries hended ?_ ?_
    · rw [← hquery [] _ _ (by decide),(hkeeps []).1,h.reading]
    · rw [← hquery "x/y".toList _ _ (by decide),(hkeeps _).1,h.reading]
  · intro hproof text
    refine ⟨?_,h.fragment text⟩
    obtain ⟨part,parts,hparts⟩ := List.exists_cons_of_ne_nil (split_ne_nil '/' (trimEnd (· = '/') (trimEnd isWhitespace text)))
    have hall : split '/' ('?' :: trimEnd (· = '/') (trimEnd isWhitespace text)) = ('?' :: part) :: parts := by
      rw [split,if_neg (by decide),hparts]
    rw [hquery text _ _ hall,refOfParts_query hended hproof,h.reading]

end Url

/-- An input reads back from its displayed form exactly when what it spells is canonical. A URL keeps its reading under every
query and fragment exactly when its path is proof against a query, and under a fragment alone always. -/
theorem parseModelRef_canonical_iff (input : Text) {url tail : Text} (hurl : HuggingfaceUrl url tail) :
    (RoundTrips input ↔ ∀ owner repo revision selector,
      Spells (trim isWhitespace input) owner repo revision selector → Canonical owner repo revision selector) ∧
    (KeepsReading url ↔ QueryProof (split '/' (trimStart (· = '/') tail))) ∧
    ∀ text, (parseModelRef (url ++ '#' :: text)).toOption = (parseModelRef url).toOption :=
  ⟨roundTrips_iff input,keepsReading_iff hurl,hurl.fragment⟩

/-- A file of a repository keeps its reading under every query; and an input whose revision has a colon does not read back. -/
theorem parseModelRef_canonical_blob :
    KeepsReading "https://huggingface.co/org/repo/blob/main/a.gguf".toList ∧ ¬RoundTrips "org/repo:a@b:c".toList := by
  have hblank : "https://huggingface.co/org/repo/blob/main/a.gguf".toList.all (fun c => !isWhitespace c) = true := by decide
  have hurl : HuggingfaceUrl "https://huggingface.co/org/repo/blob/main/a.gguf".toList "org/repo/blob/main/a.gguf".toList :=
    ⟨.inl rfl,by decide,by decide,fun c hc => by simpa using List.all_eq_true.mp hblank c hc⟩
  obtain ⟨hround,hkeeps,-⟩ := parseModelRef_canonical_iff "org/repo:a@b:c".toList hurl
  constructor
  · refine hkeeps.mpr (.inr ⟨⟨"blob".toList,List.mem_cons_self,by decide⟩,fun h => absurd h.1 (by decide)⟩)
  · intro h
    have htail : TailSpelling "repo:a@b:c".toList "repo".toList (some "b:c".toList) (some "a".toList) :=
      @TailSpelling.selectedRevised "repo".toList "b:c".toList "a".toList (by decide) (by decide) (by decide)
    have hspells : Spells "org/repo:a@b:c".toList "org".toList "repo".toList (some "b:c".toList) (some "a".toList) :=
      .plain rfl (by decide) (by decide) (by decide) htail ⟨by decide,by decide,by decide⟩ (by decide)
    exact (hround.mp h _ _ _ _ hspells).revision_plain _ rfl (by decide)

/-- The selector before a revision with a colon reads back as another reference, and a query becomes part of the repository. -/
theorem colon_moves_and_query_stays :
    (parseModelRef "org/repo:a@b:c".toList = .ok ⟨"org/repo".toList,some "b:c".toList,some "a".toList⟩ ∧
      parseModelRef (ModelRef.displayId ⟨"org/repo".toList,some "b:c".toList,some "a".toList⟩) =
        .ok ⟨"org/repo".toList,some "b".toList,some "c:a".toList⟩) ∧
    parseModelRef "https://huggingface.co/org/repo".toList = .ok ⟨"org/repo".toList,none,none⟩ ∧
    parseModelRef "https://huggingface.co/org/repo?x=1".toList = .ok ⟨"org/repo?x=1".toList,none,none⟩ :=
  ⟨⟨rfl,rfl⟩,rfl,rfl⟩

end MeshLlm.ModelRef
