import OxiBelt.Proxy.ResponseHead

/-!
# The response engine of the direct HTTP/1 path

`ResponseProtocolEngine` of `direct_h1/response_protocol/engine.rs`.  `turn` is one round of the loop of
`decode`; `decode` goes on until it has an event, needs input or fails.  `drain` calls `decode` until no
event comes, as the callers do, and `run` gives the engine its input buffer by buffer.

A failure is kept: a failed engine answers every later call with the same error.
-/

namespace DirectH1

open RustStd ByteString Http List

inductive State where
  | readingHead
  | processingInterim
  | waitingForFinalHead
  | fixedLength (remaining : Nat)
  | chunkSizeLine
  | chunkData (remaining : Nat)
  | chunkTerminator
  | trailers
  | closeDelimited
  | completed
  | failedNonReusable
  deriving DecidableEq

inductive StateLabel where
  | readingHead
  | processingInterim
  | waitingForFinalHead
  | fixedLength
  | chunkSizeLine
  | chunkData
  | chunkTerminator
  | trailers
  | closeDelimited
  | completed
  | failedNonReusable
  deriving DecidableEq

def State.label : State → StateLabel
  | .readingHead => .readingHead
  | .processingInterim => .processingInterim
  | .waitingForFinalHead => .waitingForFinalHead
  | .fixedLength _ => .fixedLength
  | .chunkSizeLine => .chunkSizeLine
  | .chunkData _ => .chunkData
  | .chunkTerminator => .chunkTerminator
  | .trailers => .trailers
  | .closeDelimited => .closeDelimited
  | .completed => .completed
  | .failedNonReusable => .failedNonReusable

structure ProtocolError where
  reason : FailureReason
  state : StateLabel
  deriving DecidableEq

inductive Event where
  | interimHead (status : StatusCode) (headers : HeaderMap)
  | finalHead (head : Head) (bodyMode : BodyMode)
  | body (bytes : Bytes)
  | trailers (headers : HeaderMap)
  | complete
  deriving DecidableEq

inductive Step where
  | event (event : Event)
  | needInput
  deriving DecidableEq

abbrev StepResult := Except ProtocolError Step

structure Engine where
  requestMethod : Str
  limits : Limits
  state : State
  interimResponses : Nat
  terminalError : Option ProtocolError
  (sawEof completeEmitted : Bool)
  (headSearchStart chunkLineSearchStart trailerSearchStart : Nat)

/-- `new` refuses limits that are not valid. -/
def Engine.new (requestMethod : Str) (limits : Limits) : Option Engine :=
  if limits.valid then
    some {
      requestMethod, limits
      state := .readingHead
      interimResponses := 0
      terminalError := none
      sawEof := false
      completeEmitted := false
      headSearchStart := 0
      chunkLineSearchStart := 0
      trailerSearchStart := 0 }
  else none

/-- How a round of the loop ends: with another round, or with a result. -/
inductive Turn where
  | again (engine : Engine) (input : Bytes)
  | done (result : StepResult) (engine : Engine) (input : Bytes)

variable (httparse : Httparse) (engine : Engine) (input : Bytes)

def Engine.fail (reason : FailureReason) (input : Bytes) : Turn :=
  match engine.terminalError with
  | some error => .done (.error error) engine input
  | none =>
    let error : ProtocolError := ⟨reason, engine.state.label⟩
    .done (.error error) { engine with state := .failedNonReusable, terminalError := some error } input

def Engine.needInputOrEof : Turn :=
  if engine.sawEof then engine.fail .unexpectedEof input else .done (.ok .needInput) engine input

def findIncremental (haystack needle : Bytes) (searchStart : Nat) : Option Nat × Nat :=
  let start := if searchStart ≤ haystack.length then searchStart else 0
  match Search.find needle (haystack.drop start) with
  | some relative => (some (start + relative), searchStart)
  | none => (none, haystack.length - (needle.length - 1))

def headEndMark : Bytes := crlf ++ crlf

def BodyMode.state : BodyMode → State
  | .none => .completed
  | .contentLength remaining => .fixedLength remaining
  | .chunked => .chunkSizeLine
  | .closeDelimited => .closeDelimited

/-- What `decode_head` makes of a complete head: the new count of interim responses, and the event with
the state after it, or a failure. -/
def acceptHead (limits : Limits) (requestMethod : Str) (interimResponses : Nat)
    (bytes : Bytes) : Nat × Parsed (Event × State) :=
  match parseHead httparse limits bytes with
  | .error reason => (interimResponses, .error reason)
  | .ok head =>
    if head.status.val = 101 then (interimResponses, .error .unsupportedUpgrade)
    else if head.status.val < 200 then
      let interimResponses := interimResponses + 1
      if limits.maxInterimResponses < interimResponses then
        (interimResponses, .error .tooManyInterimResponses)
      else
        (interimResponses, .ok (.interimHead head.status head.headers, .processingInterim))
    else
      match responseBodyMode requestMethod head with
      | .error reason => (interimResponses, .error reason)
      | .ok bodyMode => (interimResponses, .ok (.finalHead head bodyMode, bodyMode.state))

def decodeHead : Turn :=
  match findIncremental input headEndMark engine.headSearchStart with
  | (none, start) =>
    let engine := { engine with headSearchStart := start }
    if engine.limits.maxResponseHeadBytes ≤ input.length then engine.fail .headTooLarge input
    else engine.needInputOrEof input
  | (some index, _) =>
    let headEnd := index + 4
    if engine.limits.maxResponseHeadBytes < headEnd then engine.fail .headTooLarge input
    else
      let accepted := acceptHead httparse engine.limits engine.requestMethod engine.interimResponses
        (input.take headEnd)
      let engine := { engine with headSearchStart := 0, interimResponses := accepted.1 }
      match accepted.2 with
      | .error reason => engine.fail reason (input.drop headEnd)
      | .ok (event, state) =>
        .done (.ok (.event event)) { engine with state } (input.drop headEnd)

/-- Body bytes of known length: as many as there are, at most `remaining`. -/
def takeBody (remaining : Nat) (after : State) (more : Nat → State) : Turn :=
  if remaining = 0 then .again { engine with state := after } input
  else if input = [] then engine.needInputOrEof input
  else
    let take := min remaining input.length
    let remaining := remaining - take
    .done (.ok (.event (.body (input.take take))))
      { engine with state := if remaining = 0 then after else more remaining } (input.drop take)

/-- After a chunk line `decode` is called again, which is another round. -/
def decodeChunkSize : Turn :=
  match findIncremental input crlf engine.chunkLineSearchStart with
  | (none, start) =>
    let engine := { engine with chunkLineSearchStart := start }
    let overflow := input.drop engine.limits.maxChunkSizeLineBytes
    if overflow ≠ [] ∧ overflow ≠ [13] then engine.fail .chunkLineTooLarge input
    else engine.needInputOrEof input
  | (some lineEnd, _) =>
    if engine.limits.maxChunkSizeLineBytes < lineEnd then engine.fail .chunkLineTooLarge input
    else
      let engine := { engine with chunkLineSearchStart := 0 }
      match parseChunkSizeLine (input.take lineEnd) engine.limits.maxChunkExtensionBytes with
      | .error reason => engine.fail reason (input.drop (lineEnd + 2))
      | .ok size =>
        .again { engine with state := if size = 0 then .trailers else .chunkData size }
          (input.drop (lineEnd + 2))

def decodeChunkTerminator : Bytes → Turn
  | [] => engine.needInputOrEof []
  | [first] =>
    if first ≠ 13 then engine.fail .invalidChunkTerminator [first] else engine.needInputOrEof [first]
  | first :: second :: rest =>
    if first ≠ 13 ∨ second ≠ 10 then engine.fail .invalidChunkTerminator (first :: second :: rest)
    else .again { engine with state := .chunkSizeLine } rest

def findTrailerEnd (searchStart : Nat) : Option Nat × Nat :=
  if crlf.isPrefixOf input then (some 2, searchStart)
  else
    let found := findIncremental input headEndMark searchStart
    (found.1.map (· + 4), found.2)

def decodeTrailers : Turn :=
  match findTrailerEnd input engine.trailerSearchStart with
  | (none, start) =>
    let engine := { engine with trailerSearchStart := start }
    if engine.limits.maxTrailerBlockBytes ≤ input.length then engine.fail .trailerBlockTooLarge input
    else engine.needInputOrEof input
  | (some trailerEnd, _) =>
    if engine.limits.maxTrailerBlockBytes < trailerEnd then engine.fail .trailerBlockTooLarge input
    else
      let engine := { engine with trailerSearchStart := 0 }
      match parseTrailers engine.limits (input.take trailerEnd) with
      | .error reason => engine.fail reason (input.drop trailerEnd)
      | .ok trailers =>
        .done (.ok (.event (.trailers trailers))) { engine with state := .completed }
          (input.drop trailerEnd)

/-- One round of the loop of `decode`. -/
def turn : Turn :=
  match engine.state with
  | .readingHead => decodeHead httparse engine input
  | .waitingForFinalHead => decodeHead httparse engine input
  | .processingInterim => .again { engine with state := .waitingForFinalHead } input
  | .fixedLength remaining => takeBody engine input remaining .completed .fixedLength
  | .chunkSizeLine => decodeChunkSize engine input
  | .chunkData remaining => takeBody engine input remaining .chunkTerminator .chunkData
  | .chunkTerminator => decodeChunkTerminator engine input
  | .trailers => decodeTrailers engine input
  | .closeDelimited =>
    if input ≠ [] then .done (.ok (.event (.body input))) engine []
    else if engine.sawEof then .again { engine with state := .completed } input
    else .done (.ok .needInput) engine input
  | .completed =>
    if engine.completeEmitted then .done (.ok .needInput) engine input
    else .done (.ok (.event .complete)) { engine with completeEmitted := true } input
  | .failedNonReusable => engine.fail .unexpectedEof input

/-! ## The order of the events -/

/-- Body pieces, then at most one trailer section, then one completion, or the first of these. -/
def BodyGrammar (events : List Event) : Prop :=
  ∃ (pieces : List Bytes) (last : List Event), events = pieces.map .body ++ last ∧
    (last <+: [.complete] ∨ ∃ trailers, last <+: [.trailers trailers, .complete])

/-- Interim heads, then one final head, then the body, or the first of these. -/
def Grammar (maxInterimResponses : Nat) (events : List Event) : Prop :=
  ∃ (interim : List (StatusCode × HeaderMap)) (rest : List Event), interim.length ≤ maxInterimResponses ∧
    events = interim.map (fun head => .interimHead head.1 head.2) ++ rest ∧
    (rest = [] ∨ ∃ head mode body, rest = .finalHead head mode :: body ∧ BodyGrammar body)

/-- What may still come in a state, with so many interim heads left. -/
def State.Ahead (left : Nat) (completeEmitted : Bool) (events : List Event) : State → Prop
  | .readingHead | .processingInterim | .waitingForFinalHead => Grammar left events
  | .completed => events <+: if completeEmitted then [] else [.complete]
  | .failedNonReusable => events = []
  | _ => BodyGrammar events

def Engine.Ahead (engine : Engine) (events : List Event) : Prop :=
  if engine.terminalError.isSome then events = []
  else
    engine.state.Ahead (engine.limits.maxInterimResponses - engine.interimResponses)
      engine.completeEmitted events

def produced : StepResult → List Event
  | .ok (.event event) => [event]
  | _ => []

def Last (result : StepResult) : Prop :=
  result = .ok (.event .complete) ∨ ∃ error, result = .error error

/-- What may come after the result may come, behind its event, before it. -/
def Continues (result : StepResult) (engine' : Engine) : Prop :=
  ∀ events, engine'.Ahead events →
    engine.Ahead (produced result ++ events) ∧ (Last result → events = [])

def Turn.Continues (engine : Engine) : Turn → Prop
  | .again engine' _ => engine'.terminalError = none ∧ ∀ events, engine'.Ahead events → engine.Ahead events
  | .done result engine' _ => DirectH1.Continues engine result engine'

section Grammar

variable {events : List Event}

theorem BodyGrammar.complete (h : events <+: [.complete]) : BodyGrammar events := ⟨[], events, rfl, .inl h⟩

theorem BodyGrammar.piece (piece : Bytes) (h : BodyGrammar events) : BodyGrammar (.body piece :: events) := by
  obtain ⟨pieces, last, rfl, hl⟩ := h
  exact ⟨piece :: pieces, last, rfl, hl⟩

theorem Grammar.interim {left : Nat} (status : StatusCode) (headers : HeaderMap) (h : Grammar left events) :
    Grammar (left + 1) (.interimHead status headers :: events) := by
  obtain ⟨interim, rest, hle, rfl, hr⟩ := h
  exact ⟨(status, headers) :: interim, rest, Nat.succ_le_succ hle, rfl, hr⟩

theorem completed_ahead {left : Nat} {emitted : Bool} (h : State.completed.Ahead left emitted events) :
    events <+: [.complete] := by
  refine IsPrefix.trans h ?_
  rcases emitted <;> simp

theorem bodyMode_state_ahead {mode : BodyMode} {left : Nat} {emitted : Bool}
    (h : mode.state.Ahead left emitted events) : BodyGrammar events := by
  rcases mode with _ | length | _ | _
  · exact .complete (completed_ahead h)
  · exact h
  · exact h
  · exact h

variable {engine : Engine}

theorem Engine.Ahead.state (h : engine.Ahead events) (he : engine.terminalError = none) :
    engine.state.Ahead (engine.limits.maxInterimResponses - engine.interimResponses)
      engine.completeEmitted events := by
  simpa [Engine.Ahead, he] using h

theorem ahead_of_state (he : engine.terminalError = none) {state : State} (hs : engine.state = state)
    (h : state.Ahead (engine.limits.maxInterimResponses - engine.interimResponses)
      engine.completeEmitted events) : engine.Ahead events := by
  simpa [Engine.Ahead, he, hs] using h

theorem ahead_nil (engine : Engine) : engine.Ahead [] := by
  have hb : BodyGrammar [] := .complete nil_prefix
  have hg : ∀ left, Grammar left [] := fun left => ⟨[], [], Nat.zero_le _, rfl, .inl rfl⟩
  unfold Engine.Ahead
  split
  · rfl
  rcases engine.state <;> simp [State.Ahead, hb, hg]

end Grammar

/-! ## The loop ends -/

/-- Rounds that may still follow without an event. -/
def State.rank : State → Nat
  | .processingInterim => 1
  | .fixedLength 0 => 1
  | .closeDelimited => 1
  | .chunkData 0 => 4
  | .chunkTerminator => 3
  | .chunkSizeLine => 2
  | _ => 0

/-- Input and the event of completion, counted so that every event lowers it. -/
def Engine.pending : Nat :=
  2 * input.length + if engine.completeEmitted then 0 else 1

/-- What a round comes to.  Another round starts in a state with fewer rounds to go and with no more input; an event
takes input or is the one of completion, and a final head comes with the body mode of its fields. -/
def Turn.Advances : Turn → Prop
  | .again engine' input' =>
    engine'.state.rank < engine.state.rank ∧ input'.length ≤ input.length ∧
      engine'.requestMethod = engine.requestMethod ∧ engine'.completeEmitted = engine.completeEmitted
  | .done (.ok (.event event)) engine' input' =>
    engine'.pending input' < engine.pending input ∧
      ∀ head mode, event = .finalHead head mode → responseBodyMode engine.requestMethod head = .ok mode
  | .done _ _ _ => True

structure Turn.Steps (engine : Engine) (input : Bytes) (turn : Turn) : Prop where
  advances : turn.Advances engine input
  continues : engine.terminalError = none → turn.Continues engine

section Progress

variable {httparse : Httparse} {engine engine' : Engine} {input input' : Bytes}

theorem fail_steps {reason : FailureReason} : (engine'.fail reason input').Steps engine input := by
  have hn : ∀ {events : List Event}, events = [] → engine.Ahead events := by
    rintro _ rfl
    exact ahead_nil engine
  unfold Engine.fail
  split
  · next error he =>
    refine ⟨trivial, fun _ events ha => ?_⟩
    rw [Engine.Ahead, he] at ha
    exact ⟨hn ha, fun _ => ha⟩
  · exact ⟨trivial, fun _ events ha => ⟨hn ha, fun _ => ha⟩⟩

/-- Waiting changes nothing but where a search starts. -/
theorem needInputOrEof_steps (h : ∀ events, engine'.Ahead events → engine.Ahead events) :
    (engine'.needInputOrEof input').Steps engine input := by
  unfold Engine.needInputOrEof
  split
  · exact fail_steps
  · exact ⟨trivial, fun _ events ha => ⟨h events ha, by simp [Last]⟩⟩

theorem acceptHead_ok {limits : Limits} {requestMethod : Str} {count count' : Nat} {bytes : Bytes}
    {event : Event} {state : State}
    (h : acceptHead httparse limits requestMethod count bytes = (count', .ok (event, state))) :
    (∃ status headers, event = .interimHead status headers ∧ state = .processingInterim ∧
      count' = count + 1 ∧ count' ≤ limits.maxInterimResponses) ∨
    ∃ head mode, event = .finalHead head mode ∧ state = mode.state ∧ count' = count ∧
      responseBodyMode requestMethod head = .ok mode := by
  unfold acceptHead at h
  split at h
  · cases h
  split at h
  · cases h
  split at h
  · dsimp only at h
    split at h
    · cases h
    next hle =>
    cases h
    exact .inl ⟨_, _, rfl, rfl, rfl, not_lt.1 hle⟩
  split at h
  · cases h
  next hm =>
  cases h
  exact .inr ⟨_, _, rfl, rfl, rfl, hm⟩

theorem findIncremental_le {haystack needle : Bytes} {searchStart index start : Nat}
    (h : findIncremental haystack needle searchStart = (some index, start)) : needle.length ≤ haystack.length := by
  unfold findIncremental at h
  dsimp only at h
  split at h
  · next relative hf =>
    have hle := Search.find_le_length hf
    rw [length_drop] at hle
    omega
  · simp at h

theorem again_steps {state next : State} (hs : engine.state = state) (line : Nat) (hr : next.rank < state.rank)
    (hle : input'.length ≤ input.length)
    (ha : ∀ {left emitted events}, next.Ahead left emitted events → state.Ahead left emitted events) :
    (Turn.again { engine with state := next, chunkLineSearchStart := line } input').Steps engine input :=
  ⟨⟨hs ▸ hr, hle, rfl, rfl⟩, fun he => ⟨he, fun _ hev => ahead_of_state he hs (ha (hev.state he))⟩⟩

theorem decodeHead_steps (hs : ∀ events, engine.terminalError = none →
      Grammar (engine.limits.maxInterimResponses - engine.interimResponses) events → engine.Ahead events) :
    (decodeHead httparse engine input).Steps engine input := by
  unfold decodeHead
  split
  · dsimp only
    split
    · exact fail_steps
    · exact needInputOrEof_steps fun _ ha => ha
  next index start hf =>
  have hfr : 4 ≤ input.length := findIncremental_le hf
  dsimp only
  split
  · exact fail_steps
  split
  · exact fail_steps
  next ha =>
  have hp : engine.pending (input.drop (index + 4)) < engine.pending input := by
    simp only [Engine.pending, length_drop]
    omega
  rcases acceptHead_ok (Prod.ext rfl ha) with
    ⟨status, headers, rfl, rfl, hc, hle⟩ | ⟨head, mode, rfl, rfl, -, hm⟩
  · refine ⟨⟨hp, by simp⟩, fun he events hev => ⟨hs _ he ?_, by simp [Last]⟩⟩
    have hg := Grammar.interim status headers (hev.state he)
    dsimp only at hg
    rwa [← Nat.sub_add_comm hle, hc, Nat.add_sub_add_right] at hg
  · refine ⟨⟨hp, ?_⟩, fun he events hev => ⟨hs _ he ?_, by simp [Last]⟩⟩
    · rintro _ _ ⟨⟩
      exact hm
    · exact ⟨[], _, Nat.zero_le _, rfl, .inr ⟨head, mode, _, rfl, bodyMode_state_ahead (hev.state he)⟩⟩

theorem takeBody_steps {remaining : Nat} {after : State} {more : Nat → State}
    (hs : engine.state = more remaining) (hr : after.rank < (more 0).rank)
    (ha : ∀ {left emitted events}, after.Ahead left emitted events → BodyGrammar events)
    (hm : ∀ {remaining left emitted events}, (more remaining).Ahead left emitted events ↔ BodyGrammar events) :
    (takeBody engine input remaining after more).Steps engine input := by
  unfold takeBody
  split
  · next hz => exact again_steps hs _ (hz ▸ hr) le_rfl fun hev => hm.2 (ha hev)
  split
  · exact needInputOrEof_steps fun _ hev => hev
  next hi =>
  have hp := length_pos_of_ne_nil hi
  refine ⟨⟨?_, fun _ _ he => by cases he⟩, fun he events hev =>
    ⟨ahead_of_state he hs (hm.2 (.piece _ ?_)), by simp [Last]⟩⟩
  · simp only [Engine.pending, length_drop]
    omega
  have hev := hev.state he
  dsimp only at hev
  split at hev
  · exact ha hev
  · exact hm.1 hev

theorem decodeChunkSize_steps (hs : engine.state = .chunkSizeLine) :
    (decodeChunkSize engine input).Steps engine input := by
  unfold decodeChunkSize
  split
  · dsimp only
    split
    · exact fail_steps
    · exact needInputOrEof_steps fun _ ha => ha
  dsimp only
  split
  · exact fail_steps
  split
  · exact fail_steps
  next size _ => rcases size <;> exact again_steps hs _ (by simp [State.rank]) (by simp) id

theorem decodeChunkTerminator_steps (hs : engine.state = .chunkTerminator) :
    (decodeChunkTerminator engine input).Steps engine input := by
  unfold decodeChunkTerminator
  split
  · exact needInputOrEof_steps fun _ ha => ha
  · split
    · exact fail_steps
    · exact needInputOrEof_steps fun _ ha => ha
  split
  · exact fail_steps
  · exact again_steps hs _ (by decide) (by simp [Nat.le_add_right_of_le]) id

theorem decodeTrailers_steps (hs : engine.state = .trailers) : (decodeTrailers engine input).Steps engine input := by
  unfold decodeTrailers
  split
  · dsimp only
    split
    · exact fail_steps
    · exact needInputOrEof_steps fun _ ha => ha
  next trailerEnd start hf =>
  have ht : 2 ≤ trailerEnd ∧ 2 ≤ input.length := by
    unfold findTrailerEnd at hf
    split at hf
    · next hs =>
      have hle := (List.isPrefixOf_iff_prefix.1 hs).length_le
      cases hf
      exact ⟨le_rfl, hle⟩
    obtain ⟨index, hi, rfl⟩ := Option.map_eq_some_iff.1 (congrArg Prod.fst hf)
    have hle : 4 ≤ input.length := findIncremental_le (Prod.ext hi rfl)
    omega
  dsimp only
  split
  · exact fail_steps
  split
  · exact fail_steps
  next trailers _ =>
  refine ⟨⟨?_, fun _ _ he => by cases he⟩, fun he events hev => ⟨ahead_of_state he hs ?_, by simp [Last]⟩⟩
  · simp only [Engine.pending, length_drop]
    omega
  · exact ⟨[], _, rfl, .inr ⟨trailers, (prefix_cons_inj _).2 (completed_ahead (hev.state he))⟩⟩

theorem turn_steps (httparse : Httparse) (engine : Engine) (input : Bytes) :
    (turn httparse engine input).Steps engine input := by
  unfold turn
  split
  · next hs => exact decodeHead_steps fun _ he h => ahead_of_state he hs h
  · next hs => exact decodeHead_steps fun _ he h => ahead_of_state he hs h
  · next hs => exact again_steps hs _ (by decide) le_rfl id
  · next hs => exact takeBody_steps hs (by decide) (fun h => .complete (completed_ahead h)) .rfl
  · next hs => exact decodeChunkSize_steps hs
  · next hs => exact takeBody_steps hs (by decide) id .rfl
  · next hs => exact decodeChunkTerminator_steps hs
  · next hs => exact decodeTrailers_steps hs
  · next hs =>
    split
    · next hi =>
      have hp := length_pos_of_ne_nil hi
      refine ⟨⟨?_, fun _ _ he => by cases he⟩, fun he events ha =>
        ⟨ahead_of_state he hs (.piece _ (by simpa [hs, State.Ahead] using ha.state he)), by simp [Last]⟩⟩
      simp only [Engine.pending, length_nil]
      omega
    split
    · exact again_steps hs _ (by decide) le_rfl fun h => .complete (completed_ahead h)
    · exact ⟨trivial, fun _ _ ha => ⟨ha, by simp [Last]⟩⟩
  · next hs =>
    split
    · exact ⟨trivial, fun _ _ ha => ⟨ha, by simp [Last]⟩⟩
    next hc =>
    refine ⟨⟨by simp [Engine.pending, hc], fun _ _ he => by cases he⟩, fun he events ha => ?_⟩
    have hn : events = [] := by simpa [State.Ahead, hs] using ha.state he
    subst hn
    exact ⟨ahead_of_state he hs (by simp [State.Ahead, hc, produced]), fun _ => rfl⟩
  · exact fail_steps

theorem turn_again (h : turn httparse engine input = .again engine' input') :
    (Turn.again engine' input').Advances engine input :=
  h ▸ (turn_steps httparse engine input).advances

end Progress

/-- The loop of `decode`. -/
def decodeLoop (httparse : Httparse) (engine : Engine) (input : Bytes) :
    StepResult × Engine × Bytes :=
  match _h : turn httparse engine input with
  | .done result engine input => (result, engine, input)
  | .again engine input => decodeLoop httparse engine input
termination_by engine.state.rank
decreasing_by exact (turn_again _h).1

def decode (eof : Bool) : StepResult × Engine × Bytes :=
  match engine.terminalError with
  | some error => (.error error, engine, input)
  | none => decodeLoop httparse { engine with sawEof := engine.sawEof || eof } input

/-! ## The body mode of an accepted head -/

section BodyMode

theorem combineValues_eq_nil {combined : Bytes} {values : List HeaderValue} :
    combineValues combined values = [] ↔ combined = [] ∧ ∀ value ∈ values, value.bytes = [] := by
  induction values generalizing combined with
  | nil => simp [combineValues]
  | cons value values ih =>
    rw [combineValues, ih]
    by_cases hc : combined = []
    · simp [hc]
    · simp [hc]

/-- The transfer coding is found missing exactly if every value is empty; otherwise it is chunked or
refused. -/
theorem parseTransferEncoding_ok {headers : HeaderMap} {chunked : Bool}
    (h : parseTransferEncoding headers = .ok chunked) :
    chunked = true ↔ ∃ value ∈ headers.getAll transferEncoding, value.bytes ≠ [] := by
  have he := @combineValues_eq_nil [] (headers.getAll transferEncoding)
  unfold parseTransferEncoding at h
  dsimp only at h
  split at h
  · next hn =>
    cases h
    simpa using he.1 hn
  next hne =>
  have hs : ∃ value ∈ headers.getAll transferEncoding, value.bytes ≠ [] := by
    by_contra ha
    push Not at ha
    exact hne (he.2 ⟨rfl, ha⟩)
  have ht : chunked = true := by
    split at h
    · split at h
      · split at h
        · cases h
          rfl
        · cases h
      · cases h
    · cases h
  exact iff_of_true ht hs

variable {requestMethod : Str} {length : Option Nat}

theorem contentLengthMember_ok {observed : Option Nat} {member : Bytes}
    (h : contentLengthMember observed member = .ok length) : length.isSome = true := by
  unfold contentLengthMember at h
  dsimp only at h
  split at h
  · cases h
  split at h
  · cases h
  split at h
  · cases h
  · cases h
    rfl

theorem foldlM_contentLengthMember_ok {observed : Option Nat} {members : List Bytes}
    (h : members.foldlM contentLengthMember observed = .ok length) :
    length.isSome = true ∨ (members = [] ∧ length = observed) := by
  induction members generalizing observed with
  | nil =>
    cases h
    exact .inr ⟨rfl, rfl⟩
  | cons member members ih =>
    rw [foldlM_cons] at h
    rcases hm : contentLengthMember observed member with reason | next
    · rw [hm] at h
      cases h
    rw [hm] at h
    rcases ih h with hs | ⟨-, rfl⟩
    · exact .inl hs
    · exact .inl (contentLengthMember_ok hm)

/-- A content length is found missing exactly if there is no such field. -/
theorem parseContentLength_ok {headers : HeaderMap} (h : parseContentLength headers = .ok length) :
    length = none ↔ headers.getAll contentLength = [] := by
  unfold parseContentLength at h
  constructor
  · rintro rfl
    rcases foldlM_contentLengthMember_ok h with hs | ⟨hn, -⟩
    · cases hs
    rw [flatMap_eq_nil_iff] at hn
    apply eq_nil_iff_forall_not_mem.2
    intro value hv
    exact splitOn_ne_nil _ _ (hn value hv)
  · intro hn
    rw [hn] at h
    cases h
    rfl

theorem responseBodyMode_ok {head : Head} {mode : BodyMode} (h : responseBodyMode requestMethod head = .ok mode) :
    ((∃ value ∈ head.headers.getAll transferEncoding, value.bytes ≠ []) ∧
      head.headers.getAll contentLength = [] ∧
      mode = if bodyless requestMethod head.status then .none else .chunked) ∨
    ((∀ value ∈ head.headers.getAll transferEncoding, value.bytes = []) ∧
      (bodyless requestMethod head.status = true → mode = .none) ∧
      (bodyless requestMethod head.status = false → mode ≠ .none ∧ mode ≠ .chunked)) := by
  unfold responseBodyMode at h
  rcases hte : parseTransferEncoding head.headers with reason | chunked
  · rw [hte] at h
    cases h
  rcases hcl : parseContentLength head.headers with reason | length
  · rw [hte, hcl] at h
    cases h
  rw [hte, hcl] at h
  simp only [bind, Except.bind] at h
  have hc := parseTransferEncoding_ok hte
  have hl := parseContentLength_ok hcl
  rcases chunked with _ | _
  · right
    have ha : ∀ value ∈ head.headers.getAll transferEncoding, value.bytes = [] := by
      intro value hv
      by_contra hne
      exact absurd (hc.2 ⟨value, hv, hne⟩) (by decide)
    refine ⟨ha, ?_, ?_⟩
    · intro hb
      rw [hb] at h
      simpa [eq_comm] using h
    intro hb
    rw [hb] at h
    cases length <;> simp at h <;> simp [← h]
  · left
    have hs := hc.1 rfl
    rcases length with _ | length
    · refine ⟨hs, hl.1 rfl, ?_⟩
      split at h
      · cases h
      generalize bodyless requestMethod head.status = none at h ⊢
      cases none <;> simpa [eq_comm] using h
    · split at h
      · cases h
      · simp at h

variable {httparse : Httparse} {engine engine' : Engine} {input input' : Bytes}

/-- An event takes input or is the one of completion, and a final head comes with the body mode of its fields. -/
theorem decode_event {eof : Bool} {event : Event}
    (h : decode httparse engine input eof = (.ok (.event event), engine', input')) :
    (Turn.done (.ok (.event event)) engine' input').Advances engine input := by
  have hl : ∀ (engine : Engine) (input : Bytes),
      decodeLoop httparse engine input = (.ok (.event event), engine', input') →
        (Turn.done (.ok (.event event)) engine' input').Advances engine input := by
    intro engine input hr
    fun_induction decodeLoop httparse engine input with
    | case1 engine input result engine'' input'' ht =>
      cases hr
      exact ht ▸ (turn_steps httparse engine input).advances
    | case2 engine input engine'' input'' ht ih =>
      obtain ⟨-, hln, hm, he⟩ := turn_again ht
      obtain ⟨hp, hb⟩ := ih hr
      unfold Engine.pending at hp
      rw [he] at hp
      refine ⟨?_, fun head mode hev => hm ▸ hb head mode hev⟩
      unfold Engine.pending
      omega
  unfold decode at h
  split at h
  · cases h
  · exact hl { engine with sawEof := engine.sawEof || eof } input h

/-- **Transfer-Encoding decides the body.**  A head with such a field gets a chunked body (or none where
there is no body at all) and has no Content-Length, exactly if some Transfer-Encoding value is not
empty, or the response has no body and no Content-Length anyway. -/
theorem decode_transfer_encoding_decides (httparse : Httparse) (engine : Engine) (input : Bytes)
    (eof : Bool) (head : Head) (mode : BodyMode)
    (haccept : (decode httparse engine input eof).1 = .ok (.event (.finalHead head mode))) :
    ((mode = .chunked ∨ (mode = .none ∧ bodyless engine.requestMethod head.status = true)) ∧
        head.headers.getAll contentLength = []) ↔
      ((∃ value ∈ head.headers.getAll transferEncoding, value.bytes ≠ []) ∨
        (bodyless engine.requestMethod head.status = true ∧
          head.headers.getAll contentLength = [])) := by
  have hev := decode_event (Prod.ext haccept rfl)
  rcases responseBodyMode_ok (hev.2 head mode rfl) with ⟨hs, hl, hm⟩ | ⟨ha, hn, hbd⟩
  · refine iff_of_true ⟨?_, hl⟩ (.inl hs)
    rw [hm]
    rcases bodyless engine.requestMethod head.status with _ | _
    · exact .inl rfl
    · exact .inr ⟨rfl, rfl⟩
  have hno : ¬ ∃ value ∈ head.headers.getAll transferEncoding, value.bytes ≠ [] := by
    push Not
    exact ha
  rcases hb : bodyless engine.requestMethod head.status with _ | _
  · obtain ⟨hm, hm'⟩ := hbd hb
    simp [hm, hm', hno]
  · simp [hn hb, hno]

end BodyMode

/-- `httparse` on heads with complete lines, a status line that the engine has checked and no line
folding. -/
def plainHttparse : Httparse := fun room bytes =>
  match splitCrlf bytes with
  | [] => .ok none
  | statusLine :: lines =>
    let fields := lines.filter (· ≠ [])
    if room < fields.length then .error .tooManyHeaders
    else
      let digits := ((statusLine.drop 9).take 3).map fun byte => byte.toNat - 48
      .ok (some {
        version := (statusLine.drop 7).head?.map fun byte => byte.toNat - 48
        code := some (digits.foldl (fun code digit => code * 10 + digit) 0)
        headers := fields.map fun line =>
          (line.takeWhile (· != 58), trimOws ((line.dropWhile (· != 58)).drop 1)) })

def defaultEngine : Engine where
  requestMethod := "GET"
  limits := {}
  state := .readingHead
  interimResponses := 0
  terminalError := none
  sawEof := false
  completeEmitted := false
  headSearchStart := 0
  chunkLineSearchStart := 0
  trailerSearchStart := 0

theorem decode_defaultEngine {input : Bytes} {result : StepResult} {engine : Engine} {rest : Bytes}
    (h : decodeHead httparse defaultEngine input = .done result engine rest) :
    (decode httparse defaultEngine input false).1 = result := by
  have ht : turn httparse defaultEngine input = .done result engine rest := h
  show (decodeLoop httparse defaultEngine input).1 = result
  rw [decodeLoop]
  split <;> cases ht.symm.trans ‹_›
  rfl

/-- A response without a body may carry an empty Transfer-Encoding. -/
theorem decode_transfer_encoding_decides_no_content : ∃ head mode, (decode plainHttparse defaultEngine
        (asBytes "HTTP/1.1 204 No Content\x0d\nTransfer-Encoding:\x0d\n\x0d\n") false).1 =
          .ok (.event (.finalHead head mode)) ∧
      head.headers.getAll transferEncoding ≠ [] ∧
      (mode = .chunked ∨ (mode = .none ∧ bodyless "GET" head.status = true)) ∧
      head.headers.getAll contentLength = [] := by
  have ha := @decode_defaultEngine plainHttparse
    (asBytes "HTTP/1.1 204 No Content\x0d\nTransfer-Encoding:\x0d\n\x0d\n") _ _ _ rfl
  have hi := decode_transfer_encoding_decides plainHttparse defaultEngine _ false _ _ ha
  refine ⟨_, _, ha, ?_, hi.2 (.inr ⟨?_, ?_⟩)⟩
  · decide +kernel
  · decide +kernel
  · decide +kernel

/-- An empty Transfer-Encoding is passed over: the body is cut by the Content-Length beside it. -/
theorem decode_empty_transfer_encoding_passed_over : ∃ head, (decode plainHttparse defaultEngine
        (asBytes "HTTP/1.1 200 OK\x0d\nTransfer-Encoding:\x0d\nContent-Length: 5\x0d\n\x0d\n")
          false).1 = .ok (.event (.finalHead head (.contentLength 5))) ∧
      head.headers.getAll transferEncoding ≠ [] ∧ head.headers.getAll contentLength ≠ [] := by
  refine ⟨_, decode_defaultEngine plainHttparse rfl, ?_, ?_⟩
  · decide +kernel
  · decide +kernel

end DirectH1
