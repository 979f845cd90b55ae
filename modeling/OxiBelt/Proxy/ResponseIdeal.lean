import OxiBelt.Proxy.ResponseEngine

/-!
# Runs of the response engine, and the reading they stand for

`drain` calls `decode` until it gives no event, `run` gives the engine a list of buffers and drains it
after each.  `report` is what a caller has seen in the end: the heads, the body put together, the
trailers, how often completion was announced, and the outcome.

`ideal` reads a whole stream at once, without search positions and without buffers.  Its equations are
stated case by case, one for each way a state can be left.
-/

namespace DirectH1

open RustStd ByteString Http Search List

/-! ## Runs -/

variable {remaining : Nat}

/-- What came of a call sequence: the events, the failure if there was one, the engine and the input that
is left. -/
structure Drained where
  events : List Event
  failure : Option ProtocolError
  engine : Engine
  input : Bytes

/-- `decode` until there is no event. -/
def drain (httparse : Httparse) (engine : Engine) (input : Bytes) (eof : Bool) : Drained :=
  match _h : decode httparse engine input eof with
  | (.ok (.event event), engine, input) =>
    let rest := drain httparse engine input eof
    { rest with events := event :: rest.events }
  | (.ok .needInput, engine, input) => ⟨[], none, engine, input⟩
  | (.error error, engine, input) => ⟨[], some error, engine, input⟩
termination_by engine.pending input
decreasing_by exact (decode_event _h).1

/-- The engine gets the buffers one after another and `last` at the end, with the end of the stream
signalled there if `eof`. -/
def run (httparse : Httparse) (engine : Engine) (input : Bytes) :
    (buffers : List Bytes) → (last : Bytes) → (eof : Bool) → Drained
  | [], last, eof => drain httparse engine (input ++ last) eof
  | buffer :: buffers, last, eof =>
    let drained := drain httparse engine (input ++ buffer) false
    let rest := run httparse drained.engine drained.input buffers last eof
    { rest with events := drained.events ++ rest.events }

/-! ## Reports -/

inductive Outcome where
  | complete (unread : Bytes)
  | needsMore
  | failed (error : ProtocolError)
  deriving DecidableEq

structure Report where
  interimHeads : List (StatusCode × HeaderMap)
  finalHeads : List (Head × BodyMode)
  body : Bytes
  trailers : List HeaderMap
  completions : Nat
  outcome : Outcome
  deriving DecidableEq

namespace Report

def ofOutcome (outcome : Outcome) : Report := ⟨[], [], [], [], 0, outcome⟩

def add : Event → Report → Report
  | .interimHead status headers, report =>
    { report with interimHeads := (status, headers) :: report.interimHeads }
  | .finalHead head mode, report => { report with finalHeads := (head, mode) :: report.finalHeads }
  | .body bytes, report => { report with body := bytes ++ report.body }
  | .trailers headers, report => { report with trailers := headers :: report.trailers }
  | .complete, report => { report with completions := report.completions + 1 }

def addAll (events : List Event) (report : Report) : Report := events.foldr add report

@[simp] theorem add_body_nil (report : Report) : add (.body []) report = report := rfl

theorem add_body_append (bytes bytes' : Bytes) (report : Report) :
    add (.body (bytes ++ bytes')) report = add (.body bytes) (add (.body bytes') report) := by
  simp [add, append_assoc]

end Report

def Engine.outcome (engine : Engine) (input : Bytes) : Outcome :=
  if engine.completeEmitted then .complete input else .needsMore

def Drained.report (drained : Drained) : Report :=
  Report.addAll drained.events <| Report.ofOutcome <|
    match drained.failure with
    | some error => .failed error
    | none => drained.engine.outcome drained.input

/-! ## The ideal reading -/

def failedReport (state : State) (reason : FailureReason) : Report :=
  .ofOutcome (.failed ⟨reason, state.label⟩)

/-- The stream ends, or goes on later, in the middle of something. -/
def waitingReport (state : State) (eof : Bool) : Report :=
  if eof then failedReport state .unexpectedEof else .ofOutcome .needsMore

def completedReport (emitted : Bool) (unread : Bytes) : Report :=
  if emitted then .ofOutcome (.complete unread) else .add .complete (.ofOutcome (.complete unread))

def trailerEnd (stream : Bytes) : Option Nat :=
  if crlf.isPrefixOf stream then some 2 else (find headEndMark stream).map (· + 4)

theorem State.rank_le (state : State) : state.rank ≤ 4 := by
  unfold State.rank
  split <;> omega

/-- What a reader of the whole stream reports, from a state on. -/
def ideal (httparse : Httparse) (limits : Limits) (requestMethod : Str) (eof : Bool) (state : State)
    (interimResponses : Nat) (emitted : Bool) (stream : Bytes) : Report :=
  match state with
  | .processingInterim =>
    ideal httparse limits requestMethod eof .waitingForFinalHead interimResponses emitted stream
  | .fixedLength remaining =>
    .add (.body (stream.take remaining)) <|
      if remaining ≤ stream.length then completedReport emitted (stream.drop remaining)
      else waitingReport (.fixedLength remaining) eof
  | .chunkSizeLine =>
    match _hfind : find crlf stream with
    | none =>
      let overflow := stream.drop limits.maxChunkSizeLineBytes
      if overflow ≠ [] ∧ overflow ≠ [13] then failedReport .chunkSizeLine .chunkLineTooLarge
      else waitingReport .chunkSizeLine eof
    | some lineEnd =>
      if limits.maxChunkSizeLineBytes < lineEnd then failedReport .chunkSizeLine .chunkLineTooLarge
      else
        match parseChunkSizeLine (stream.take lineEnd) limits.maxChunkExtensionBytes with
        | .error reason => failedReport .chunkSizeLine reason
        | .ok size =>
          ideal httparse limits requestMethod eof (if size = 0 then .trailers else .chunkData size)
            interimResponses emitted (stream.drop (lineEnd + 2))
  | .chunkData remaining =>
    .add (.body (stream.take remaining)) <|
      if remaining ≤ stream.length then
        ideal httparse limits requestMethod eof .chunkTerminator interimResponses emitted
          (stream.drop remaining)
      else waitingReport (.chunkData remaining) eof
  | .chunkTerminator =>
    match stream with
    | [] => waitingReport .chunkTerminator eof
    | [first] =>
      if first ≠ 13 then failedReport .chunkTerminator .invalidChunkTerminator
      else waitingReport .chunkTerminator eof
    | first :: second :: rest =>
      if first ≠ 13 ∨ second ≠ 10 then failedReport .chunkTerminator .invalidChunkTerminator
      else ideal httparse limits requestMethod eof .chunkSizeLine interimResponses emitted rest
  | .trailers =>
    match trailerEnd stream with
    | none =>
      if limits.maxTrailerBlockBytes ≤ stream.length then failedReport .trailers .trailerBlockTooLarge
      else waitingReport .trailers eof
    | some blockEnd =>
      if limits.maxTrailerBlockBytes < blockEnd then failedReport .trailers .trailerBlockTooLarge
      else
        match parseTrailers limits (stream.take blockEnd) with
        | .error reason => failedReport .trailers reason
        | .ok trailers => .add (.trailers trailers) (completedReport emitted (stream.drop blockEnd))
  | .closeDelimited =>
    .add (.body stream) (if eof then completedReport emitted [] else .ofOutcome .needsMore)
  | .completed => completedReport emitted stream
  | .failedNonReusable => failedReport .failedNonReusable .unexpectedEof
  | .readingHead | .waitingForFinalHead =>
    match _hfind : find headEndMark stream with
    | none =>
      if limits.maxResponseHeadBytes ≤ stream.length then failedReport state .headTooLarge
      else waitingReport state eof
    | some index =>
      if limits.maxResponseHeadBytes < index + 4 then failedReport state .headTooLarge
      else
        let accepted := acceptHead httparse limits requestMethod interimResponses
          (stream.take (index + 4))
        match accepted.2 with
        | .error reason => failedReport state reason
        | .ok (event, next) =>
          .add event (ideal httparse limits requestMethod eof next accepted.1 emitted
            (stream.drop (index + 4)))
termination_by 5 * stream.length + state.rank
decreasing_by
  · simp [State.rank]
  · have hle := find_le_length _hfind
    have hcrlf : crlf.length = 2 := rfl
    refine lt_of_lt_of_le (Nat.add_lt_add_left (Nat.lt_succ_of_le (State.rank_le _)) _) ?_
    rw [length_drop]
    omega
  · rcases remaining with _ | remaining
    · simp [State.rank]
    have hrank := State.rank_le .chunkTerminator
    rw [length_drop]
    omega
  · simp [State.rank]
    omega
  all_goals
    have hle := find_le_length _hfind
    have hmark : headEndMark.length = 4 := rfl
    have hrank := State.rank_le next
    rw [length_drop]
    omega

section IdealEquations

variable {httparse : Httparse} {limits : Limits} {requestMethod : Str} {eof emitted : Bool}
  {interim : Nat} {stream : Bytes}

def State.readsHead (state : State) : Prop := state = .readingHead ∨ state = .waitingForFinalHead

variable {state : State}

theorem ideal_head (hs : state.readsHead) : ideal httparse limits requestMethod eof state interim emitted stream =
    match find headEndMark stream with
    | none =>
      if limits.maxResponseHeadBytes ≤ stream.length then failedReport state .headTooLarge else waitingReport state eof
    | some index =>
      if limits.maxResponseHeadBytes < index + 4 then failedReport state .headTooLarge
      else
        match (acceptHead httparse limits requestMethod interim (stream.take (index + 4))).2 with
        | .error reason => failedReport state reason
        | .ok (event, next) =>
          .add event (ideal httparse limits requestMethod eof next
            (acceptHead httparse limits requestMethod interim (stream.take (index + 4))).1 emitted
            (stream.drop (index + 4))) := by
  rcases hs with rfl | rfl
  all_goals
    conv_lhs => rw [ideal]
    cases find headEndMark stream <;> rfl

end IdealEquations

/-! ## Searching in input that grows -/

section Find

variable {needle input : Bytes} {start : Nat}

theorem findIncremental_none (hs : Resumes needle input start) (hf : find needle input = none) :
    findIncremental input needle start = (none, input.length - (needle.length - 1)) := by
  have hr := find_resume hs
  rw [hf, Option.map_eq_none_iff] at hr
  rw [findIncremental, if_pos hs.1, hr]

variable {stream more : Bytes} {index : Nat}

theorem findIncremental_some (hs : Resumes needle input start) (hf : find needle input = some index) :
    findIncremental input needle start = (some index, start) := by
  have hr := find_resume hs
  rw [hf, Option.map_eq_some_iff] at hr
  obtain ⟨relative, hrl, rfl⟩ := hr
  rw [findIncremental, if_pos hs.1, hrl]

/-- Whether a block is empty is known after two bytes. -/
theorem crlf_isPrefixOf_append (h : 2 ≤ stream.length) : crlf.isPrefixOf (stream ++ more) = crlf.isPrefixOf stream := by
  rw [Bool.eq_iff_iff, List.isPrefixOf_iff_prefix, List.isPrefixOf_iff_prefix]
  exact ⟨fun hc => prefix_of_prefix_length_le hc (prefix_append stream more) h, fun hc => hc.trans (prefix_append _ _)⟩

theorem trailerEnd_append (h : trailerEnd stream = some index) :
    trailerEnd (stream ++ more) = some index ∧ index ≤ stream.length := by
  unfold trailerEnd at h ⊢
  split at h
  · next hs =>
    have hle := (List.isPrefixOf_iff_prefix.1 hs).length_le
    rw [crlf_isPrefixOf_append hle, if_pos hs]
    cases h
    exact ⟨rfl, hle⟩
  · next hs =>
    obtain ⟨found, hf, rfl⟩ := Option.map_eq_some_iff.1 h
    have hle : found + 4 ≤ stream.length := find_le_length hf
    rw [crlf_isPrefixOf_append (by omega), if_neg hs, find_append hf]
    exact ⟨rfl, hle⟩

/-- A trailer block that ends later than `stream` is longer than it. -/
theorem trailerEnd_append_of_none (h : trailerEnd stream = none)
    (hm : trailerEnd (stream ++ more) = some index) : stream.length < index := by
  unfold trailerEnd at h hm
  split at h
  · cases h
  next hs =>
  rw [Option.map_eq_none_iff] at h
  split at hm
  · next hc =>
    cases hm
    by_contra hl
    exact hs (crlf_isPrefixOf_append (Nat.le_of_not_lt hl) ▸ hc)
  · obtain ⟨found, hf, rfl⟩ := Option.map_eq_some_iff.1 hm
    exact find_append_of_none h hf

end Find

end DirectH1
