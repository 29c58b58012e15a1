import MeshLlm.Library.Substring

/-! # Streaming tool calls

Every parse gives all the tool calls again; what goes out is one delta for each index that
has something new. A client starts a call at each delta with a name and appends the
fragments of its arguments.
-/
namespace MeshLlm.Streaming

abbrev Text := List Char

/-- A parsed call as far as it is read: the fields that are strings. -/
structure ToolCall where
  id : Option Text
  name : Option Text
  arguments : Option Text
deriving DecidableEq, Repr

def toolCallName (call : ToolCall) : Option Text := call.name.filter (· ≠ [])

def toolCallArguments (call : ToolCall) : Option Text := call.arguments

def toolCallId (call : ToolCall) : Option Text := (call.id.map (trim isWhitespace)).filter (· ≠ [])

structure StreamedToolCall where
  emittedName : Text
  emittedArguments : Text
deriving DecidableEq, Repr

structure ToolCallDelta where
  index : ℕ
  id : Option Text
  type : Option Text
  name : Option Text
  arguments : Option Text
deriving DecidableEq, Repr

structure ToolCallStreamState where
  streamed : List StreamedToolCall
  completed : Bool
deriving DecidableEq, Repr

/-- What extends the emitted text, and the text emitted then. -/
def suffixDelta (current : Option Text) (emitted : Text) : Option Text × Text :=
  match current with
  | none => (none,emitted)
  | some current =>
    if emitted <+: current ∧ emitted ≠ current then (some (current.drop emitted.length),current)
    else (none,emitted)

namespace ToolCallStreamState

/-- The deltas of the calls from an index on, with what is streamed of these. -/
def deltas (minted : ℕ → Text) : ℕ → List StreamedToolCall → List ToolCall → List ToolCallDelta × List StreamedToolCall
  | _, streamed, [] => ([],streamed)
  | index, s :: streamed, call :: calls =>
    let (delta,emittedArguments) := suffixDelta (toolCallArguments call) s.emittedArguments
    let (later,streamed) := deltas minted (index + 1) streamed calls
    ((delta.map fun arguments => ⟨index,none,none,none,some arguments⟩).toList ++ later,{s with emittedArguments} :: streamed)
  | index, [], call :: calls =>
    match toolCallName call with
    | none => ([],[])
    | some name =>
      let (arguments,emittedArguments) := suffixDelta (toolCallArguments call) []
      let (later,streamed) := deltas minted (index + 1) [] calls
      (⟨index,some ((toolCallId call).getD (minted index)),some "function".toList,some name,arguments⟩ :: later,
        ⟨name,emittedArguments⟩ :: streamed)

def streamedMatches (streamed : List StreamedToolCall) (toolCalls : List ToolCall) : Bool :=
  if toolCalls.length ≠ streamed.length then false
  else (toolCalls.zip streamed).all fun p =>
    toolCallName p.1 = some p.2.emittedName ∧ (toolCallArguments p.1).getD [] = p.2.emittedArguments

/-- The deltas of one parse; without any the source gives none. -/
def record (minted : ℕ → Text) (st : ToolCallStreamState) (toolCalls : List ToolCall) (isPartial : Bool) :
    List ToolCallDelta × ToolCallStreamState :=
  let (sent,streamed) := deltas minted 0 st.streamed toolCalls
  (sent,⟨streamed,if isPartial then st.completed else streamedMatches streamed toolCalls⟩)

/-- A parse, and the ids that are minted during it. -/
structure Parse where
  toolCalls : List ToolCall
  isPartial : Bool
  minted : ℕ → Text

/-- All that is sent for a sequence of parses, and the state after it. -/
def run (parses : List Parse) : List ToolCallDelta × ToolCallStreamState :=
  parses.foldl (fun (sent,st) parse =>
    let (more,st) := st.record parse.minted parse.toolCalls parse.isPartial
    (sent ++ more,st)) ([],⟨[],false⟩)

end ToolCallStreamState

/-- A call that a client has put together. -/
structure ClientCall where
  name : Text
  arguments : Text
deriving DecidableEq, Repr

/-- A name starts a call at its index, a fragment goes to the end of the arguments there. -/
def ClientCall.receive (calls : ℕ → Option ClientCall) (delta : ToolCallDelta) : ℕ → Option ClientCall :=
  Function.update calls delta.index <| match delta.name with
    | some name => some ⟨name,delta.arguments.getD []⟩
    | none => (calls delta.index).map fun call => {call with arguments := call.arguments ++ delta.arguments.getD []}

def reassemble (sent : List ToolCallDelta) : ℕ → Option ClientCall := sent.foldl ClientCall.receive fun _ => none

/-- The client's calls are those streamed. -/
def Holds (calls : ℕ → Option ClientCall) (streamed : List StreamedToolCall) : Prop :=
  ∀ i, calls i = (streamed[i]?).map fun s => ⟨s.emittedName,s.emittedArguments⟩

theorem suffixDelta_spec (current : Option Text) (emitted : Text) :
    (suffixDelta current emitted).2 = emitted ++ ((suffixDelta current emitted).1).getD [] := by
  cases current with
  | none => simp [suffixDelta]
  | some current =>
    rw [suffixDelta]
    split_ifs with hextends
    · obtain ⟨⟨more,rfl⟩,-⟩ := hextends
      simp
    · simp

/-- What extends the emitted text replaces it. -/
theorem suffixDelta_of_front {current : Option Text} {emitted : Text} (h : emitted <+: current.getD []) :
    (suffixDelta current emitted).2 = current.getD [] := by
  cases current with
  | none =>
    rw [Option.getD_none,List.prefix_nil] at h
    rw [h]
    rfl
  | some current =>
    rw [suffixDelta,Option.getD_some]
    split_ifs with hextends
    · rfl
    · by_contra hne
      exact hextends ⟨h,hne⟩

/-- A delta that starts a call. -/
def ToolCallDelta.Starts (delta : ToolCallDelta) : Prop := delta.id.isSome ∧ delta.type = some "function".toList ∧ delta.name.isSome

/-- A delta that only appends arguments. -/
def ToolCallDelta.Appends (delta : ToolCallDelta) : Prop :=
  delta.id = none ∧ delta.type = none ∧ delta.name = none ∧ delta.arguments.isSome

/-- The deltas come in the order of their indexes: each starts the next call, or appends to one that was started. -/
def Orderly : ℕ → List ToolCallDelta → ℕ → Prop
  | started, [], started' => started = started'
  | started, delta :: sent, started' =>
    delta.Starts ∧ delta.index = started ∧ Orderly (started + 1) sent started' ∨
      delta.Appends ∧ delta.index < started ∧ Orderly started sent started'

theorem Orderly.append {started started' started'' : ℕ} {sent more : List ToolCallDelta} (h : Orderly started sent started')
    (h' : Orderly started' more started'') : Orderly started (sent ++ more) started'' := by
  induction sent generalizing started with
  | nil =>
    obtain rfl : started = started' := h
    exact h'
  | cons delta sent ih =>
    rcases h with ⟨hstarts,hindex,hrest⟩ | ⟨happends,hindex,hrest⟩
    · exact .inl ⟨hstarts,hindex,ih hrest⟩
    · exact .inr ⟨happends,hindex,ih hrest⟩

namespace ToolCallStreamState
variable {minted : ℕ → Text}

/-- The streamed calls only grow by calls with a name. -/
theorem named_deltas {index : ℕ} {streamed : List StreamedToolCall} {calls : List ToolCall}
    (h : ∀ s ∈ streamed, s.emittedName ≠ []) : ∀ s ∈ (deltas minted index streamed calls).2, s.emittedName ≠ [] := by
  induction calls generalizing index streamed with
  | nil => cases streamed <;> exact h
  | cons call calls ih =>
    cases streamed with
    | nil =>
      rw [deltas]
      cases hname : toolCallName call with
      | none => simp
      | some name =>
        have hne : name ≠ [] := by simpa using (Option.filter_eq_some_iff.mp hname).2
        exact List.forall_mem_cons.mpr ⟨hne,ih (by simp)⟩
    | cons s streamed =>
      rw [List.forall_mem_cons] at h
      exact List.forall_mem_cons.mpr ⟨h.1,ih h.2⟩

theorem orderly_deltas (index : ℕ) (streamed : List StreamedToolCall) (calls : List ToolCall) :
    Orderly (index + streamed.length) (deltas minted index streamed calls).1 (index + (deltas minted index streamed calls).2.length) := by
  induction calls generalizing index streamed with
  | nil => cases streamed <;> simp [deltas,Orderly]
  | cons call calls ih =>
    cases streamed with
    | nil =>
      rw [deltas]
      cases toolCallName call with
      | none => simp [Orderly]
      | some name =>
        refine .inl ⟨⟨rfl,rfl,rfl⟩,rfl,?_⟩
        have hrest := ih (index + 1) []
        simp only [List.length_nil,Nat.add_zero,List.length_cons] at hrest ⊢
        rwa [show index + ((deltas minted (index + 1) [] calls).2.length + 1) =
          index + 1 + (deltas minted (index + 1) [] calls).2.length by omega]
    | cons s streamed =>
      have hrest := ih (index + 1) streamed
      rw [show index + 1 + streamed.length = index + (s :: streamed).length by simp; omega,
        show index + 1 + (deltas minted (index + 1) streamed calls).2.length =
          index + (deltas minted index (s :: streamed) (call :: calls)).2.length by simp [deltas]; omega] at hrest
      rw [deltas]
      refine Orderly.append ?_ hrest
      cases (suffixDelta (toolCallArguments call) s.emittedArguments).1 with
      | none => rfl
      | some arguments => exact .inr ⟨⟨rfl,rfl,rfl,rfl⟩,by simp,rfl⟩

theorem receive_of_ne {client : ℕ → Option ClientCall} {delta : ToolCallDelta} {i : ℕ} (h : i ≠ delta.index) :
    ClientCall.receive client delta i = client i := Function.update_of_ne h _ _

theorem receive_named (client : ℕ → Option ClientCall) (index : ℕ) (id type : Option Text) (name : Text) (arguments : Option Text) :
    ClientCall.receive client ⟨index,id,type,some name,arguments⟩ index = some ⟨name,arguments.getD []⟩ := Function.update_self _ _ _

theorem receive_fragment (client : ℕ → Option ClientCall) (index : ℕ) (id type : Option Text) (arguments : Text) :
    ClientCall.receive client ⟨index,id,type,none,some arguments⟩ index =
      (client index).map fun call => {call with arguments := call.arguments ++ arguments} := Function.update_self _ _ _

/-- One call received at an index, and the later ones after it. -/
theorem holds_cons {index : ℕ} {client client' : ℕ → Option ClientCall} {sent : List ToolCallDelta} {s : StreamedToolCall}
    {streamed : List StreamedToolCall} (hsame : ∀ i < index, client' i = client i)
    (hcall : client' index = some ⟨s.emittedName,s.emittedArguments⟩)
    (hlater : ∀ i, (sent.foldl ClientCall.receive client') (index + 1 + i) =
      (streamed[i]?).map fun s => ⟨s.emittedName,s.emittedArguments⟩)
    (hbefore : ∀ i < index + 1, (sent.foldl ClientCall.receive client') i = client' i) :
    (∀ i, (sent.foldl ClientCall.receive client') (index + i) =
      ((s :: streamed)[i]?).map fun s => ⟨s.emittedName,s.emittedArguments⟩) ∧
      ∀ i < index, (sent.foldl ClientCall.receive client') i = client i := by
  refine ⟨fun i => ?_,fun i hi => (hbefore i (by omega)).trans (hsame i hi)⟩
  cases i with
  | zero => exact (hbefore index (by omega)).trans hcall
  | succ i =>
    rw [show index + (i + 1) = index + 1 + i by omega,hlater i]
    rfl

/-- The client's calls from an index on follow those streamed. -/
theorem holds_deltas {index : ℕ} {streamed : List StreamedToolCall} {calls : List ToolCall} {client : ℕ → Option ClientCall}
    (h : ∀ i, client (index + i) = (streamed[i]?).map fun s => ⟨s.emittedName,s.emittedArguments⟩) :
    (∀ i, ((deltas minted index streamed calls).1.foldl ClientCall.receive client) (index + i) =
      ((deltas minted index streamed calls).2[i]?).map fun s => ⟨s.emittedName,s.emittedArguments⟩) ∧
      ∀ i < index, ((deltas minted index streamed calls).1.foldl ClientCall.receive client) i = client i := by
  induction calls generalizing index streamed client with
  | nil => cases streamed <;> exact ⟨h,fun _ _ => rfl⟩
  | cons call calls ih =>
    cases streamed with
    | nil =>
      rw [deltas]
      cases hname : toolCallName call with
      | none => exact ⟨h,fun _ _ => rfl⟩
      | some name =>
        have hargs := suffixDelta_spec (toolCallArguments call) []
        rw [List.nil_append] at hargs
        dsimp only
        rw [List.foldl_cons]
        obtain ⟨hlater,hbefore⟩ := @ih (index + 1) [] (ClientCall.receive client ⟨index,_,_,some name,_⟩) fun i => by
          rw [receive_of_ne (show index + 1 + i ≠ index by omega),show index + 1 + i = index + (1 + i) by omega,h]
          rfl
        refine holds_cons (fun i hi => receive_of_ne hi.ne) ?_ hlater hbefore
        rw [receive_named,hargs]
    | cons s streamed =>
      rw [deltas]
      have hargs := suffixDelta_spec (toolCallArguments call) s.emittedArguments
      have hhere : client index = some ⟨s.emittedName,s.emittedArguments⟩ := h 0
      have hrest : ∀ i, client (index + 1 + i) = (streamed[i]?).map fun s => ⟨s.emittedName,s.emittedArguments⟩ := fun i => by
        rw [show index + 1 + i = index + (i + 1) by omega,h]
        rfl
      dsimp only
      rw [List.foldl_append]
      cases hdelta : (suffixDelta (toolCallArguments call) s.emittedArguments).1 with
      | none =>
        rw [hdelta,Option.getD_none,List.append_nil] at hargs
        obtain ⟨hlater,hbefore⟩ := ih hrest
        exact holds_cons (fun _ _ => rfl) (by rw [hargs]; exact hhere) hlater hbefore
      | some arguments =>
        rw [hdelta,Option.getD_some] at hargs
        obtain ⟨hlater,hbefore⟩ := @ih (index + 1) streamed (ClientCall.receive client ⟨index,none,none,none,some arguments⟩) fun i => by
          rw [receive_of_ne (show index + 1 + i ≠ index by omega),hrest]
        refine holds_cons (fun i hi => receive_of_ne hi.ne) ?_ hlater hbefore
        rw [Option.map_some,Option.toList_some,List.foldl_cons,List.foldl_nil,receive_fragment,hargs,hhere]
        rfl

/-- The names and arguments of the calls up to the first without a name. -/
def namedCalls (calls : List ToolCall) : List StreamedToolCall :=
  (calls.takeWhile fun call => (toolCallName call).isSome).map fun call => ⟨(toolCallName call).getD [],call.arguments.getD []⟩

/-- A later parse has the calls of an earlier one, with more calls and longer arguments; names are final. -/
def Extends (calls calls' : List ToolCall) : Prop :=
  calls.length ≤ calls'.length ∧ ∀ p ∈ calls.zip calls',
    p.1.arguments.getD [] <+: p.2.arguments.getD [] ∧ ∀ name ∈ toolCallName p.1, toolCallName p.2 = some name

theorem streamed_of_nil (index : ℕ) (calls : List ToolCall) : (deltas minted index [] calls).2 = namedCalls calls := by
  induction calls generalizing index with
  | nil => rfl
  | cons call calls ih =>
    rw [deltas,namedCalls]
    cases hname : toolCallName call with
    | none => rw [List.takeWhile_cons_of_neg (by simp [hname]),List.map_nil]
    | some name =>
      rw [List.takeWhile_cons_of_pos (by simp [hname]),List.map_cons,hname]
      dsimp only
      rw [ih,suffixDelta_of_front List.nil_prefix]
      rfl

/-- A parse that extends the last leaves its own calls with a name streamed. -/
theorem streamed_of_extends {index : ℕ} {calls calls' : List ToolCall} (h : Extends calls calls') :
    (deltas minted index (namedCalls calls) calls').2 = namedCalls calls' := by
  induction calls generalizing index calls' with
  | nil => exact streamed_of_nil index calls'
  | cons call calls ih =>
    cases calls' with
    | nil => exact absurd h.1 (by simp)
    | cons call' calls' =>
      obtain ⟨hargs,hname⟩ := h.2 (call,call') List.mem_cons_self
      have hrest : Extends calls calls' := ⟨by simpa using h.1,fun p hp => h.2 p (List.mem_cons_of_mem _ hp)⟩
      cases hcall : toolCallName call with
      | none =>
        have hnil : namedCalls (call :: calls) = [] := by
          rw [namedCalls,List.takeWhile_cons_of_neg (by simp [hcall]),List.map_nil]
        rw [hnil,streamed_of_nil]
      | some name =>
        have hcall' : toolCallName call' = some name := hname name hcall
        have hargs : call.arguments.getD [] <+: (toolCallArguments call').getD [] := hargs
        have hcons : ∀ (c : ToolCall) (cs : List ToolCall), toolCallName c = some name →
            namedCalls (c :: cs) = ⟨name,c.arguments.getD []⟩ :: namedCalls cs := fun c cs hc => by
          rw [namedCalls,List.takeWhile_cons_of_pos (by simp [hc]),List.map_cons,hc]
          rfl
        rw [hcons call calls hcall,hcons call' calls' hcall',deltas]
        dsimp only
        rw [ih hrest,suffixDelta_of_front hargs]
        rfl

/-- What the client holds after a run. -/
theorem run_invariant (parses : List Parse) :
    Holds (reassemble (run parses).1) (run parses).2.streamed ∧ Orderly 0 (run parses).1 (run parses).2.streamed.length ∧
      ∀ s ∈ (run parses).2.streamed, s.emittedName ≠ [] := by
  induction parses using List.reverseRecOn with
  | nil => exact ⟨fun _ => rfl,rfl,by simp [run]⟩
  | append_singleton parses parse ih =>
    obtain ⟨hholds,horderly,hnamed⟩ := ih
    have hrun : run (parses ++ [parse]) =
        ((run parses).1 ++ ((run parses).2.record parse.minted parse.toolCalls parse.isPartial).1,
          ((run parses).2.record parse.minted parse.toolCalls parse.isPartial).2) := by
      rw [run,List.foldl_append]
      rfl
    rw [hrun]
    refine ⟨fun i => ?_,?_,named_deltas hnamed⟩
    · have hreceived := (@holds_deltas parse.minted 0 (run parses).2.streamed parse.toolCalls (reassemble (run parses).1)
        fun i => by rw [Nat.zero_add]; exact hholds i).1 i
      rw [Nat.zero_add] at hreceived
      rw [reassemble,List.foldl_append]
      exact hreceived
    · have hsent := @orderly_deltas parse.minted 0 (run parses).2.streamed parse.toolCalls
      rw [Nat.zero_add,Nat.zero_add] at hsent
      exact horderly.append hsent

/-- The names and arguments of the calls of a parse, as a client holds them. -/
def clientCalls (calls : List ToolCall) : List ClientCall :=
  calls.map fun call => ⟨call.name.getD [],call.arguments.getD []⟩

theorem streamedMatches_iff {streamed : List StreamedToolCall} {calls : List ToolCall} (h : ∀ s ∈ streamed, s.emittedName ≠ []) :
    streamedMatches streamed calls = true ↔
      clientCalls calls = streamed.map fun s => ⟨s.emittedName,s.emittedArguments⟩ := by
  induction calls generalizing streamed with
  | nil => cases streamed <;> simp [streamedMatches,clientCalls]
  | cons call calls ih =>
    cases streamed with
    | nil => simp [streamedMatches,clientCalls]
    | cons s streamed =>
      rw [List.forall_mem_cons] at h
      have hmatches : streamedMatches (s :: streamed) (call :: calls) = true ↔
          (toolCallName call = some s.emittedName ∧ call.arguments.getD [] = s.emittedArguments) ∧ streamedMatches streamed calls = true := by
        simp only [streamedMatches,List.length_cons,ne_eq,Nat.add_right_cancel_iff,List.zip_cons_cons,List.all_cons]
        split_ifs
        · rw [Bool.and_eq_true,decide_eq_true_iff]
          rfl
        · simp
      have hname : toolCallName call = some s.emittedName ↔ call.name.getD [] = s.emittedName := by
        rw [toolCallName,Option.filter_eq_some_iff]
        cases call.name with
        | none => simp [h.1.symm]
        | some name =>
          simp only [Option.some.injEq,Option.getD_some,decide_eq_true_eq,and_iff_left_iff_imp]
          rintro rfl
          exact h.1
      rw [hmatches,hname,ih h.2,clientCalls,clientCalls,List.map_cons,List.map_cons,List.cons.injEq,ClientCall.mk.injEq]

theorem holds_eq_iff {client : ℕ → Option ClientCall} {streamed : List StreamedToolCall} (h : Holds client streamed)
    (calls : List ClientCall) :
    (∀ i, client i = calls[i]?) ↔ calls = streamed.map fun s => ⟨s.emittedName,s.emittedArguments⟩ := by
  constructor
  · intro heq
    refine List.ext_getElem? fun i => ?_
    rw [← heq i,h i,List.getElem?_map]
  · rintro rfl i
    rw [h i,List.getElem?_map]

/-- Parses that only extend one another leave the calls with a name of the last one streamed. -/
theorem streamed_of_growing {parses : List Parse} {last : Parse}
    (h : ∀ before (a b : Parse) after, parses ++ [last] = before ++ a :: b :: after → Extends a.toolCalls b.toolCalls) :
    (run (parses ++ [last])).2.streamed = namedCalls last.toolCalls := by
  induction parses using List.reverseRecOn generalizing last with
  | nil => exact streamed_of_nil 0 last.toolCalls
  | append_singleton parses parse ih =>
    have hbefore := ih fun before a b after heq => h before a b (after ++ [last]) (by rw [heq]; simp)
    have hlast := h parses parse last [] (by simp)
    have hrun : (run (parses ++ [parse] ++ [last])).2.streamed =
        (deltas last.minted 0 (run (parses ++ [parse])).2.streamed last.toolCalls).2 := by
      rw [run,List.foldl_append]
      rfl
    rw [hrun,hbefore,streamed_of_extends hlast]

/-- The client holds what was streamed, every index starts once and in order, the terminal parse is reported
complete exactly when the client holds its calls, and parses that only extend one another leave it with the
calls of the last up to the first without a name. -/
theorem reassembles (parses : List Parse) :
    Holds (reassemble (run parses).1) (run parses).2.streamed ∧ Orderly 0 (run parses).1 (run parses).2.streamed.length ∧
    (∀ terminal : Parse, terminal.isPartial = false →
      ((run (parses ++ [terminal])).2.completed = true ↔
        ∀ i, reassemble (run (parses ++ [terminal])).1 i = (clientCalls terminal.toolCalls)[i]?)) ∧
    ∀ last : Parse, (∀ before (a b : Parse) after, parses ++ [last] = before ++ a :: b :: after → Extends a.toolCalls b.toolCalls) →
      ∀ i, reassemble (run (parses ++ [last])).1 i =
        (clientCalls (last.toolCalls.takeWhile fun call => (toolCallName call).isSome))[i]? := by
  obtain ⟨hholds,horderly,-⟩ := run_invariant parses
  refine ⟨hholds,horderly,fun terminal hterminal => ?_,fun last hgrowing => ?_⟩
  · obtain ⟨hholds,-,hnamed⟩ := run_invariant (parses ++ [terminal])
    have hcompleted : (run (parses ++ [terminal])).2.completed =
        streamedMatches (run (parses ++ [terminal])).2.streamed terminal.toolCalls := by
      have hflag : ∀ st : ToolCallStreamState, (st.record terminal.minted terminal.toolCalls terminal.isPartial).2.completed =
          streamedMatches (st.record terminal.minted terminal.toolCalls terminal.isPartial).2.streamed terminal.toolCalls := fun st => by
        simp [record,hterminal]
      have hrun : (run (parses ++ [terminal])).2 = ((run parses).2.record terminal.minted terminal.toolCalls terminal.isPartial).2 := by
        rw [run,List.foldl_append]
        rfl
      rw [hrun,hflag]
    rw [hcompleted,streamedMatches_iff hnamed,holds_eq_iff hholds]
  · obtain ⟨hholds,-,-⟩ := run_invariant (parses ++ [last])
    refine (holds_eq_iff hholds _).mpr ?_
    rw [streamed_of_growing hgrowing,clientCalls,namedCalls,List.map_map]
    refine List.map_congr_left fun call hcall => ?_
    have hname := List.mem_takeWhile_imp hcall
    obtain ⟨name,hname⟩ := Option.isSome_iff_exists.mp hname
    have hfield := (Option.filter_eq_some_iff.mp hname).1
    simp [hname,hfield]

end ToolCallStreamState

/-- A terminal parse with a call that has no name: nothing is streamed of it, in one parse as in any. -/
theorem nameless_call_is_not_streamed :
    let terminal : ToolCallStreamState.Parse := ⟨[⟨none,none,some "1".toList⟩],false,fun _ => []⟩
    reassemble (ToolCallStreamState.run [terminal]).1 0 = none ∧
      (ToolCallStreamState.clientCalls terminal.toolCalls)[0]? = some ⟨[],"1".toList⟩ := by
  decide

end MeshLlm.Streaming
