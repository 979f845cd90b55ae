import OxiBelt.Proxy.ResponseIdeal

/-!
# Responses do not depend on how they arrive

The engine refines the ideal reading: `turn_ideal` says that one round of the engine on the input so far
is a piece of the ideal reading of that input with anything that may follow, and `run_ideal` that a run
reports what the ideal reading reports.  So the report depends on the stream only
(`run_split_independent`).

The cases are those of `turn`.  Where the engine waits, the ideal reader waits at the same place; where it
refuses input that is too long, nothing that follows can put the missing delimiter back inside the limit.
-/

namespace DirectH1

open RustStd ByteString Http Search List Engine

/-! ## A round of the engine is a piece of the ideal reading -/

def Engine.idealFrom (httparse : Httparse) (engine : Engine) (eof : Bool) (stream : Bytes) : Report :=
  ideal httparse engine.limits engine.requestMethod eof engine.state engine.interimResponses
    engine.completeEmitted stream

/-- An engine that has not failed; a search position other than zero belongs to the search of its
state. -/
structure Engine.Valid (engine : Engine) (input : Bytes) : Prop where
  alive : engine.terminalError = none
  running : engine.state ≠ .failedNonReusable
  emitted : engine.completeEmitted = true → engine.state = .completed
  head : engine.headSearchStart = 0 ∨
    (engine.state.readsHead ∧ Resumes headEndMark input engine.headSearchStart)
  line : engine.chunkLineSearchStart = 0 ∨
    (engine.state = .chunkSizeLine ∧ Resumes crlf input engine.chunkLineSearchStart)
  trailer : engine.trailerSearchStart = 0 ∨
    (engine.state = .trailers ∧ Resumes headEndMark input engine.trailerSearchStart)

/-- Once the end of the stream is known, nothing follows the input. -/
def Engine.Follows (engine : Engine) (more : Bytes) (eof : Bool) : Prop :=
  engine.sawEof = true → more = [] ∧ eof = true

/-- What a round on `input` says about the ideal reading of the input with what follows it. -/
def TurnIdeal (httparse : Httparse) (engine : Engine) (input : Bytes) : Turn → Prop
  | .again engine' input' =>
    engine'.Valid input' ∧ engine'.sawEof = engine.sawEof ∧
      ∀ more eof, engine.Follows more eof →
        engine.idealFrom httparse eof (input ++ more) = engine'.idealFrom httparse eof (input' ++ more)
  | .done (.ok (.event event)) engine' input' =>
    engine'.Valid input' ∧ engine'.sawEof = engine.sawEof ∧
      ∀ more eof, engine.Follows more eof →
        engine.idealFrom httparse eof (input ++ more) =
          .add event (engine'.idealFrom httparse eof (input' ++ more))
  | .done (.ok .needInput) engine' input' =>
    engine'.Valid input' ∧ engine'.sawEof = engine.sawEof ∧
      (∀ more eof, engine.Follows more eof →
        engine.idealFrom httparse eof (input ++ more) =
          engine'.idealFrom httparse eof (input' ++ more)) ∧
      engine'.idealFrom httparse engine'.sawEof input' = .ofOutcome (engine'.outcome input')
  | .done (.error error) engine' _ =>
    engine'.terminalError = some error ∧
      ∀ more eof, engine.Follows more eof →
        engine.idealFrom httparse eof (input ++ more) = .ofOutcome (.failed error)

variable {input : Bytes}

section Rounds

variable {httparse : Httparse} {engine engine' : Engine} {input input' : Bytes}

theorem resumes_of_start {needle : Bytes} {start : Nat} {own : Prop}
    (h : start = 0 ∨ (own ∧ Resumes needle input start)) : Resumes needle input start := by
  rcases h with rfl | ⟨-, h⟩
  · exact resumes_zero _ _
  · exact h

theorem Engine.Valid.head_zero (h : engine.Valid input) (hh : ¬ engine.state.readsHead) : engine.headSearchStart = 0 :=
  h.head.resolve_right fun own => hh own.1

theorem Engine.Valid.line_zero (h : engine.Valid input) (hl : engine.state ≠ .chunkSizeLine) :
    engine.chunkLineSearchStart = 0 :=
  h.line.resolve_right fun own => hl own.1

theorem Engine.Valid.trailer_zero (h : engine.Valid input) (ht : engine.state ≠ .trailers) :
    engine.trailerSearchStart = 0 :=
  h.trailer.resolve_right fun own => ht own.1

def State.searches : State → Bool
  | .readingHead | .waitingForFinalHead | .chunkSizeLine | .trailers => true
  | _ => false

/-- The search positions are all zero in a state that does not search. -/
theorem Engine.Valid.starts (h : engine.Valid input) {state : State} (hs : engine.state = state)
    (hn : state.searches = false) :
    engine.headSearchStart = 0 ∧ engine.chunkLineSearchStart = 0 ∧ engine.trailerSearchStart = 0 := by
  subst hs
  refine ⟨h.head_zero fun hh => ?_, h.line_zero fun hl => ?_, h.trailer_zero fun ht => ?_⟩
  · rcases hh with hr | hr <;> rw [hr] at hn <;> cases hn
  · rw [hl] at hn
    cases hn
  · rw [ht] at hn
    cases hn

/-- An engine that moves on with all search positions at zero is valid for any input. -/
theorem valid_of_starts (ha : engine.terminalError = none) (hr : engine.state ≠ .failedNonReusable)
    (he : engine.completeEmitted = true → engine.state = .completed)
    (hs : engine.headSearchStart = 0 ∧ engine.chunkLineSearchStart = 0 ∧
      engine.trailerSearchStart = 0) : engine.Valid input :=
  ⟨ha, hr, he, .inl hs.1, .inl hs.2.1, .inl hs.2.2⟩

theorem Engine.Valid.not_emitted (h : engine.Valid input) (hs : engine.state ≠ .completed) :
    engine.completeEmitted = false := by
  rw [Bool.eq_false_iff]
  exact fun he => hs (h.emitted he)

theorem fail_ideal {reason : FailureReason} (ha : engine'.terminalError = none) (hs : engine'.state = engine.state)
    (hi : ∀ more eof, engine.Follows more eof →
      engine.idealFrom httparse eof (input ++ more) = failedReport engine.state reason) :
    TurnIdeal httparse engine input (engine'.fail reason input') := by
  unfold fail
  rw [ha]
  refine ⟨rfl, fun more eof hf => ?_⟩
  rw [hi more eof hf, hs]
  rfl

theorem wait_ideal {head line trailer : Nat}
    (hv : { engine with
      headSearchStart := head, chunkLineSearchStart := line, trailerSearchStart := trailer }.Valid input)
    (he : engine.completeEmitted = false)
    (hw : ∀ eof, engine.idealFrom httparse eof input = waitingReport engine.state eof) :
    TurnIdeal httparse engine input ({ engine with
      headSearchStart := head, chunkLineSearchStart := line, trailerSearchStart := trailer }.needInputOrEof input) := by
  unfold needInputOrEof
  split
  · next hef =>
    refine fail_ideal hv.alive rfl fun more eof hf => ?_
    obtain ⟨rfl, rfl⟩ := hf hef
    rw [append_nil, hw]
    rfl
  · next hef =>
    refine ⟨hv, rfl, fun _ _ _ => rfl, (hw _).trans ?_⟩
    rw [Bool.eq_false_iff.2 hef, outcome, he]
    rfl

theorem waitingReport_label {state state' : State} (h : state.label = state'.label) (eof : Bool) :
    waitingReport state eof = waitingReport state' eof := by
  unfold waitingReport failedReport
  rw [h]

section

variable (hv : engine.Valid input)
include hv

theorem decodeHead_ideal (hs : engine.state.readsHead) :
    TurnIdeal httparse engine input (decodeHead httparse engine input) := by
  have hst := resumes_of_start hv.head
  have hln := hv.line_zero (by rcases hs with h | h <;> rw [h] <;> simp)
  have htr := hv.trailer_zero (by rcases hs with h | h <;> rw [h] <;> simp)
  have he : engine.completeEmitted = false := hv.not_emitted (by
    rcases hs with h | h <;> rw [h] <;> simp)
  have hmr : headEndMark.length = 4 := rfl
  unfold decodeHead
  rcases hf : find headEndMark input with _ | index
  · rw [findIncremental_none hst hf]
    dsimp only
    split
    · next hl =>
      -- a mark that comes later ends behind the limit
      refine fail_ideal hv.alive rfl fun more eof _ => ?_
      unfold idealFrom
      rcases hm : find headEndMark (input ++ more) with _ | index
      · rw [ideal_head hs, hm]
        refine if_pos ?_
        rw [length_append]
        omega
      · have := find_append_of_none hf hm
        rw [ideal_head hs, hm]
        exact if_pos (by omega)
    · next hsh =>
      refine wait_ideal ⟨hv.alive, hv.running, hv.emitted, .inr ⟨hs, ?_⟩, hv.line, hv.trailer⟩ he fun eof => ?_
      · exact resumes_of_find_none hf
      · unfold idealFrom
        rw [ideal_head hs, hf]
        exact if_neg hsh
  · have hle := find_le_length hf
    have hfn := fun more => find_append hf more
    rw [findIncremental_some hst hf]
    dsimp only
    split
    · next hl =>
      refine fail_ideal hv.alive rfl fun more eof _ => ?_
      rw [idealFrom, ideal_head hs, hfn]
      exact if_pos hl
    next hft =>
    split
    · next reason ha =>
      refine fail_ideal hv.alive rfl fun more eof _ => ?_
      rw [idealFrom, ideal_head hs, hfn]
      dsimp only
      rw [if_neg hft, take_append_of_le_length (by omega), ha]
    next event next ha =>
    refine ⟨valid_of_starts hv.alive ?_ ?_ ⟨rfl, hln, htr⟩, rfl, fun more eof _ => ?_⟩
    · rcases acceptHead_ok (Prod.ext rfl ha) with ⟨_, _, -, rfl, -⟩ | ⟨_, mode, -, rfl, -⟩
      · simp
      · rcases mode <;> simp [BodyMode.state]
    · simp [he]
    unfold idealFrom
    rw [ideal_head hs, hfn]
    dsimp only
    rw [if_neg hft, take_append_of_le_length (by omega), drop_append_of_le_length (by omega), ha]

/-- Body bytes of known length, for both kinds of such bodies: `more r` is the state with `r` bytes to
go, `after` the one behind them. -/
theorem takeBody_ideal {remaining : Nat} {after : State} {more : Nat → State} (hst : engine.state = more remaining)
    (hs : engine.headSearchStart = 0 ∧ engine.chunkLineSearchStart = 0 ∧
      engine.trailerSearchStart = 0)
    (ha : after ≠ .failedNonReusable)
    (hmr : ∀ r, more r ≠ .failedNonReusable ∧ more r ≠ .completed)
    (hl : ∀ r r', (more r).label = (more r').label)
    (hi : ∀ r eof stream,
      ideal httparse engine.limits engine.requestMethod eof (more r) engine.interimResponses
          engine.completeEmitted stream =
        .add (.body (stream.take r))
          (if r ≤ stream.length then
            ideal httparse engine.limits engine.requestMethod eof after engine.interimResponses
              engine.completeEmitted (stream.drop r)
          else waitingReport (more r) eof)) :
    TurnIdeal httparse engine input (takeBody engine input remaining after more) := by
  have he : engine.completeEmitted = false := hv.not_emitted (by
    rw [hst]
    exact (hmr remaining).2)
  unfold takeBody
  split
  · next hz =>
    refine ⟨valid_of_starts hv.alive ha (by simp [he]) hs, rfl, fun y eof _ => ?_⟩
    rw [idealFrom, hst, hi, hz]
    simp [idealFrom]
  next hr =>
  split
  · next hin =>
    refine wait_ideal hv he fun eof => ?_
    rw [idealFrom, hst, hi, hin, if_neg (by simpa using hr)]
    simp
  by_cases hle : remaining ≤ input.length
  · have hm : min remaining input.length = remaining := min_eq_left hle
    simp only [hm, Nat.sub_self, if_true]
    refine ⟨valid_of_starts hv.alive ha (by simp [he]) hs, rfl, fun y eof _ => ?_⟩
    rw [idealFrom, hst, hi, if_pos (by rw [length_append]; omega),
      take_append_of_le_length hle, drop_append_of_le_length hle]
    rfl
  have hm : min remaining input.length = input.length := min_eq_right (by omega)
  have hlf : remaining - input.length ≠ 0 := by omega
  simp only [hm, if_neg hlf, List.take_length, drop_length]
  refine ⟨valid_of_starts hv.alive (hmr _).1 (by simp [he]) hs, rfl, fun y eof _ => ?_⟩
  have ht : (input ++ y).take remaining = input ++ y.take (remaining - input.length) := by
    rw [take_append, take_of_length_le (by omega)]
  have hd : (input ++ y).drop remaining = y.drop (remaining - input.length) := by
    rw [drop_append, drop_of_length_le (by omega), nil_append]
  rw [idealFrom, hst, hi, ht, hd, Report.add_body_append, nil_append]
  congr 1
  show _ = ideal _ _ _ _ (more (remaining - input.length)) _ _ y
  rw [hi, waitingReport_label (hl remaining (remaining - input.length)), length_append]
  congr 1
  have hif : remaining ≤ input.length + y.length ↔ remaining - input.length ≤ y.length := by omega
  simp only [hif]

theorem decodeChunkSize_ideal (hs : engine.state = .chunkSizeLine) :
    TurnIdeal httparse engine input (decodeChunkSize engine input) := by
  have hst := resumes_of_start hv.line
  have hh := hv.head_zero (by rw [hs]; simp [State.readsHead])
  have ht := hv.trailer_zero (by rw [hs]; simp)
  have he : engine.completeEmitted = false := hv.not_emitted (by rw [hs]; simp)
  have hc : crlf.length = 2 := rfl
  unfold decodeChunkSize
  rcases hf : find crlf input with _ | index
  · rw [findIncremental_none hst hf]
    dsimp only
    split
    · next ho =>
      refine fail_ideal hv.alive rfl fun more eof _ => ?_
      have hln : engine.limits.maxChunkSizeLineBytes < input.length := by
        have := length_pos_of_ne_nil ho.1
        rw [length_drop] at this
        omega
      rw [idealFrom, hs]
      rcases hm : find crlf (input ++ more) with _ | index
      · rw [ideal, hm]
        refine if_pos ?_
        rw [drop_append_of_le_length hln.le]
        refine ⟨by simp [ho.1], fun hcr => ?_⟩
        rcases List.append_eq_singleton_iff.1 hcr with ⟨hn, -⟩ | ⟨hcr, -⟩
        · exact ho.1 hn
        · exact ho.2 hcr
      rw [ideal, hm]
      refine if_pos ?_
      have ha := find_append_of_none hf hm
      by_contra hsh
      -- the line end would start at the limit, and its first byte is all that overflows
      have hi : index = engine.limits.maxChunkSizeLineBytes := by omega
      have hon : input.length = index + 1 := by omega
      obtain ⟨hat, -⟩ := find_eq_some_iff.1 hm
      rw [At, drop_append_of_le_length (by omega)] at hat
      obtain ⟨byte, hb⟩ := List.length_eq_one_iff.1 (show (input.drop index).length = 1 by rw [length_drop]; omega)
      rw [hb] at hat
      have hfs : (13 : UInt8) = byte := (cons_prefix_cons.1 hat).1
      rw [hi] at hb
      exact ho.2 (by rw [hb, hfs])
    · next ho =>
      refine wait_ideal ⟨hv.alive, hv.running, hv.emitted, hv.head, .inr ⟨hs, ?_⟩, hv.trailer⟩ he fun eof => ?_
      · exact resumes_of_find_none hf
      · rw [idealFrom, hs, ideal, hf]
        exact if_neg ho
  · have hle := find_le_length hf
    have hfn := fun more => find_append hf more
    have htk : ∀ more, (input ++ more).take index = input.take index := fun more => take_append_of_le_length (by omega)
    rw [findIncremental_some hst hf]
    dsimp only
    split
    · next hl =>
      refine fail_ideal hv.alive rfl fun more eof _ => ?_
      rw [idealFrom, hs, ideal, hfn]
      exact if_pos hl
    next hft =>
    split
    · next reason hp =>
      refine fail_ideal hv.alive rfl fun more eof _ => ?_
      rw [idealFrom, hs, ideal, hfn]
      dsimp only
      rw [if_neg hft, htk, hp]
    next size hp =>
    refine ⟨valid_of_starts hv.alive ?_ (by simp [he]) ⟨hh, rfl, ht⟩, rfl, fun more eof _ => ?_⟩
    · dsimp only
      split <;> simp
    · rw [idealFrom, hs, ideal, hfn]
      dsimp only
      rw [if_neg hft, htk, hp, drop_append_of_le_length (by omega)]
      rfl

theorem decodeChunkTerminator_ideal (hs : engine.state = .chunkTerminator) :
    TurnIdeal httparse engine input (decodeChunkTerminator engine input) := by
  have hst := hv.starts hs rfl
  have he : engine.completeEmitted = false := hv.not_emitted (by rw [hs]; simp)
  unfold decodeChunkTerminator
  split
  · refine wait_ideal hv he fun eof => ?_
    rw [idealFrom, hs, ideal]
  · next first =>
    split
    · next hf =>
      refine fail_ideal hv.alive rfl fun more eof _ => ?_
      rw [idealFrom, hs, singleton_append]
      cases more with
      | nil =>
        rw [ideal]
        exact if_pos hf
      | cons =>
        rw [ideal]
        exact if_pos (.inl hf)
    next hf =>
    refine wait_ideal hv he fun eof => ?_
    rw [idealFrom, hs, ideal]
    exact if_neg hf
  · next first second rest =>
    split
    · next hb =>
      refine fail_ideal hv.alive rfl fun more eof _ => ?_
      rw [idealFrom, hs, cons_append, cons_append, ideal]
      exact if_pos hb
    next hg =>
    refine ⟨valid_of_starts hv.alive (by simp) (by simp [he]) hst, rfl, fun more eof _ => ?_⟩
    rw [idealFrom, hs, cons_append, cons_append, ideal]
    exact if_neg hg

theorem decodeTrailers_ideal (hs : engine.state = .trailers) :
    TurnIdeal httparse engine input (decodeTrailers engine input) := by
  have hst := resumes_of_start hv.trailer
  have hh := hv.head_zero (by rw [hs]; simp [State.readsHead])
  have hln := hv.line_zero (by rw [hs]; simp)
  have hem : engine.completeEmitted = false := hv.not_emitted (by rw [hs]; simp)
  unfold decodeTrailers
  rcases he : trailerEnd input with _ | index
  · obtain ⟨hc, hfn⟩ : ¬ crlf.isPrefixOf input ∧ find headEndMark input = none := by
      unfold trailerEnd at he
      split at he
      · cases he
      · next hc => exact ⟨hc, Option.map_eq_none_iff.1 he⟩
    rw [findTrailerEnd, if_neg hc, findIncremental_none hst hfn]
    dsimp only [Option.map_none]
    split
    · next hl =>
      refine fail_ideal hv.alive rfl fun more eof _ => ?_
      rw [idealFrom, hs]
      rcases hm : trailerEnd (input ++ more) with _ | index
      · rw [ideal, hm]
        refine if_pos ?_
        rw [length_append]
        omega
      · have := trailerEnd_append_of_none he hm
        rw [ideal, hm]
        exact if_pos (by omega)
    · next hsh =>
      refine wait_ideal ⟨hv.alive, hv.running, hv.emitted, hv.head, hv.line, .inr ⟨hs, ?_⟩⟩ hem fun eof => ?_
      · exact resumes_of_find_none hfn
      · rw [idealFrom, hs, ideal, he]
        exact if_neg hsh
  · have hle := (@trailerEnd_append _ [] _ he).2
    have hen := fun more => (@trailerEnd_append _ more _ he).1
    have ht : ∀ more, (input ++ more).take index = input.take index := fun more => take_append_of_le_length hle
    have hsr : findTrailerEnd input engine.trailerSearchStart = (some index, engine.trailerSearchStart) := by
      unfold trailerEnd at he
      unfold findTrailerEnd
      split at he
      · next hc =>
        cases he
        rw [if_pos hc]
      next hc =>
      obtain ⟨found, hfd, rfl⟩ := Option.map_eq_some_iff.1 he
      rw [if_neg hc, findIncremental_some hst hfd]
      rfl
    rw [hsr]
    dsimp only
    split
    · next hl =>
      refine fail_ideal hv.alive rfl fun more eof _ => ?_
      rw [idealFrom, hs, ideal, hen]
      exact if_pos hl
    next hft =>
    split
    · next reason hp =>
      refine fail_ideal hv.alive rfl fun more eof _ => ?_
      rw [idealFrom, hs, ideal, hen]
      dsimp only
      rw [if_neg hft, ht, hp]
    next trailers hp =>
    refine ⟨valid_of_starts hv.alive (by simp) (fun _ => rfl) ⟨hh, hln, rfl⟩, rfl, fun more eof _ => ?_⟩
    rw [idealFrom, hs, ideal, hen]
    dsimp only
    rw [if_neg hft, ht, hp, drop_append_of_le_length hle, idealFrom, ideal]

/-- **One round.** -/
theorem turn_ideal : TurnIdeal httparse engine input (turn httparse engine input) := by
  unfold turn
  split
  · next hs => exact decodeHead_ideal hv (.inl hs)
  · next hs => exact decodeHead_ideal hv (.inr hs)
  · next hs =>
    have hst := hv.starts hs rfl
    have he := hv.not_emitted (by rw [hs]; simp)
    refine ⟨valid_of_starts hv.alive (by simp) (by simp [he]) hst, rfl, fun more eof _ => ?_⟩
    rw [idealFrom, hs, ideal]
    rfl
  · next remaining hs =>
    refine takeBody_ideal hv hs (hv.starts hs rfl) (by simp) (by simp) (fun _ _ => rfl) fun r eof stream => ?_
    rw [ideal, ideal]
  · next hs => exact decodeChunkSize_ideal hv hs
  · next remaining hs =>
    exact takeBody_ideal hv hs (hv.starts hs rfl) (by simp) (by simp) (fun _ _ => rfl) fun r eof stream => by rw [ideal]
  · next hs => exact decodeChunkTerminator_ideal hv hs
  · next hs => exact decodeTrailers_ideal hv hs
  · next hs =>
    have hst := hv.starts hs rfl
    have he := hv.not_emitted (by rw [hs]; simp)
    have hf : ∀ eof stream, engine.idealFrom httparse eof stream =
        .add (.body stream) (if eof then completedReport engine.completeEmitted []
          else .ofOutcome .needsMore) := by
      intro eof stream
      rw [idealFrom, hs, ideal]
    split
    · refine ⟨valid_of_starts hv.alive hv.running hv.emitted hst, rfl, fun more eof _ => ?_⟩
      rw [hf, hf, Report.add_body_append, nil_append]
    next hi =>
    have hi : input = [] := by simpa using hi
    subst hi
    split
    · next hef =>
      refine ⟨valid_of_starts hv.alive (by simp) (fun _ => rfl) hst, rfl, fun more eof hfl => ?_⟩
      obtain ⟨rfl, rfl⟩ := hfl hef
      rw [hf, idealFrom, ideal]
      rfl
    · next hef =>
      refine ⟨hv, rfl, fun _ _ _ => rfl, ?_⟩
      rw [hf, Bool.eq_false_iff.2 hef, outcome, he]
      rfl
  · next hs =>
    have hst := hv.starts hs rfl
    split
    · next he =>
      refine ⟨hv, rfl, fun _ _ _ => rfl, ?_⟩
      rw [idealFrom, hs, ideal, outcome, he]
      rfl
    next he =>
    refine ⟨valid_of_starts hv.alive hv.running (fun _ => hs) hst, rfl, fun more eof _ => ?_⟩
    rw [idealFrom, idealFrom, hs, ideal, ideal, Bool.eq_false_iff.2 he]
    rfl
  · next hs => exact absurd hs hv.running

end

end Rounds

/-! ## Calls and runs -/

section Runs

variable {httparse : Httparse}

/-- One call of `decode` on an engine that has not failed. -/
theorem decodeLoop_ideal (engine : Engine) (input : Bytes) (hv : engine.Valid input) :
    TurnIdeal httparse engine input (.done (decodeLoop httparse engine input).1
      (decodeLoop httparse engine input).2.1 (decodeLoop httparse engine input).2.2) := by
  have h := @turn_ideal httparse _ _ hv
  fun_induction decodeLoop httparse engine input with
  | case1 engine input result engine' input' ht =>
    rw [ht] at h
    exact h
  | case2 engine input engine' input' ht ih =>
    rw [ht] at h
    obtain ⟨hv', hs, hsm⟩ := h
    have hr := ih hv' (turn_ideal hv')
    -- what the later rounds say about the state after this one, they say about this one
    have hf : ∀ more eof, engine.Follows more eof → engine'.Follows more eof := by
      intro more eof h he
      exact h (hs ▸ he)
    rcases hrs : decodeLoop httparse engine' input' with ⟨_ | _ | _, engine'', input''⟩
    · rw [hrs] at hr
      obtain ⟨hfl, hi⟩ := hr
      exact ⟨hfl, fun more eof h => (hsm more eof h).trans (hi more eof (hf _ _ h))⟩
    · rw [hrs] at hr
      obtain ⟨hv'', hs', hi⟩ := hr
      exact ⟨hv'', hs'.trans hs, fun more eof h => (hsm more eof h).trans (hi more eof (hf _ _ h))⟩
    · rw [hrs] at hr
      obtain ⟨hv'', hs', hi, hid⟩ := hr
      exact ⟨hv'', hs'.trans hs, fun more eof h => (hsm more eof h).trans (hi more eof (hf _ _ h)), hid⟩

/-- The engine as `decode` sees it, with the end of the stream noted. -/
def Engine.noteEof (engine : Engine) (eof : Bool) : Engine :=
  { engine with sawEof := engine.sawEof || eof }

theorem Engine.Valid.noteEof {engine : Engine} (h : engine.Valid input) (eof : Bool) :
    (engine.noteEof eof).Valid input :=
  ⟨h.alive, h.running, h.emitted, h.head, h.line, h.trailer⟩

/-- More input does not disturb a search position. -/
theorem Engine.Valid.append {engine : Engine} (h : engine.Valid input) (more : Bytes) :
    engine.Valid (input ++ more) where
  alive := h.alive
  running := h.running
  emitted := h.emitted
  head := h.head.imp id fun own => ⟨own.1, own.2.append more⟩
  line := h.line.imp id fun own => ⟨own.1, own.2.append more⟩
  trailer := h.trailer.imp id fun own => ⟨own.1, own.2.append more⟩

theorem decode_ideal {engine : Engine} {input : Bytes} (hv : engine.Valid input) (eof : Bool) :
    TurnIdeal httparse (engine.noteEof eof) input (.done (decode httparse engine input eof).1
      (decode httparse engine input eof).2.1 (decode httparse engine input eof).2.2) := by
  have hd : decode httparse engine input eof = decodeLoop httparse (engine.noteEof eof) input := by
    unfold decode
    split
    · next ha => simp [hv.alive] at ha
    · rfl
  rw [hd]
  exact decodeLoop_ideal _ _ (hv.noteEof eof)

variable {engine engine' : Engine} {input input' : Bytes} {eof : Bool}

/-- What draining says about the ideal reading of the input with what follows it. -/
structure DrainIdeal (httparse : Httparse) (engine : Engine) (input : Bytes) (eof : Bool)
    (drained : Drained) : Prop where
  going : drained.failure = none → drained.engine.Valid drained.input ∧
    drained.engine.sawEof = (engine.sawEof || eof) ∧
    ∀ more final, (engine.noteEof eof).Follows more final →
      engine.idealFrom httparse final (input ++ more) =
        .addAll drained.events (drained.engine.idealFrom httparse final (drained.input ++ more))
  failed : ∀ error, drained.failure = some error → drained.engine.terminalError = some error ∧
    ∀ more final, (engine.noteEof eof).Follows more final →
      engine.idealFrom httparse final (input ++ more) =
        .addAll drained.events (.ofOutcome (.failed error))
  report : drained.report = engine.idealFrom httparse (engine.sawEof || eof) input

theorem drain_ideal (hv : engine.Valid input) :
    DrainIdeal httparse engine input eof (drain httparse engine input eof) := by
  have hc := @decode_ideal httparse _ _ hv eof
  have hn : ∀ engine : Engine, (engine.noteEof eof).Follows [] (engine.sawEof || eof) := fun _ hs => ⟨rfl, hs⟩
  fun_induction drain httparse engine input eof with
  | case1 engine input event engine' input' hd rest ih =>
    rw [hd] at hc
    obtain ⟨hv', hs, hi⟩ := hc
    have hs' : (engine'.sawEof || eof) = (engine.sawEof || eof) := by
      rw [hs]
      show (engine.sawEof || eof || eof) = (engine.sawEof || eof)
      rw [Bool.or_assoc, Bool.or_self]
    have hrs := ih hv' (decode_ideal hv' eof)
    have hfw : ∀ more final, (engine.noteEof eof).Follows more final → (engine'.noteEof eof).Follows more final := by
      intro more final h hef
      exact h (hs'.symm.trans hef)
    refine ⟨fun hnn => ?_, fun error he => ?_, ?_⟩
    · obtain ⟨hv'', hs'', hg⟩ := hrs.going hnn
      refine ⟨hv'', hs''.trans hs', fun more final h => ?_⟩
      exact (hi more final h).trans (congrArg _ (hg more final (hfw _ _ h)))
    · obtain ⟨ht, hfl⟩ := hrs.failed error he
      refine ⟨ht, fun more final h => ?_⟩
      exact (hi more final h).trans (congrArg _ (hfl more final (hfw _ _ h)))
    have hf := hi [] _ (hn engine)
    have hr := hrs.report
    rw [hs'] at hr
    rw [append_nil, append_nil, ← hr] at hf
    exact hf.symm
  | case2 engine input engine' input' hd =>
    rw [hd] at hc
    obtain ⟨hv', hs, hi, hid⟩ := hc
    refine ⟨fun _ => ⟨hv', hs, hi⟩, fun error h => (by cases h), ?_⟩
    have h := hi [] _ (hn engine)
    rw [append_nil, append_nil] at h
    have hfg : engine'.sawEof = (engine.sawEof || eof) := hs
    rw [hfg] at hid
    exact (h.trans hid).symm
  | case3 engine input error engine' input' hd =>
    rw [hd] at hc
    obtain ⟨hfl, hi⟩ := hc
    refine ⟨fun h => (by cases h), fun error' h => ?_, ?_⟩
    · cases h
      exact ⟨hfl, hi⟩
    have h := hi [] _ (hn engine)
    rw [append_nil] at h
    exact h.symm

theorem run_failed {error : ProtocolError} (hf : engine.terminalError = some error)
    (buffers : List Bytes) (last : Bytes) :
    (run httparse engine input buffers last eof).report = .ofOutcome (.failed error) := by
  have hd : ∀ (input : Bytes) (eof : Bool), drain httparse engine input eof = ⟨[], some error, engine, input⟩ := by
    intro input eof
    have hc : decode httparse engine input eof = (.error error, engine, input) := by rw [decode, hf]
    rw [drain]
    split <;> cases hc.symm.trans ‹_›
    rfl
  induction buffers generalizing input with
  | nil =>
    rw [run, hd]
    rfl
  | cons buffer buffers ih =>
    rw [run, hd]
    exact @ih (input ++ buffer)

/-- **Refinement.**  A run reports what a reader of the whole stream reports. -/
theorem run_ideal (hv : engine.Valid input) (he : engine.sawEof = false) (buffers : List Bytes) (last : Bytes) :
    (run httparse engine input buffers last eof).report =
      engine.idealFrom httparse eof (input ++ (buffers.flatten ++ last)) := by
  induction buffers generalizing engine input with
  | nil =>
    have h := (@drain_ideal httparse _ _ eof (hv.append last)).report
    rw [he, Bool.false_or] at h
    exact h
  | cons buffer buffers ih =>
    have hd := @drain_ideal httparse _ _ false (hv.append buffer)
    have hf : (engine.noteEof false).Follows (buffers.flatten ++ last) eof := by
      intro h
      simp [noteEof, he] at h
    have ha : input ++ ((buffer :: buffers).flatten ++ last) = input ++ buffer ++ (buffers.flatten ++ last) := by
      simp [append_assoc]
    rw [run, ha]
    refine foldr_append.trans ?_
    change Report.addAll _ (run httparse _ _ buffers last eof).report = _
    rcases hfl : (drain httparse engine (input ++ buffer) false).failure with _ | error
    · obtain ⟨hv', hs, hg⟩ := hd.going hfl
      rw [he, Bool.or_self] at hs
      rw [ih hv' hs, hg _ _ hf]
    · obtain ⟨ht, hfd⟩ := hd.failed error hfl
      rw [run_failed ht, hfd _ _ hf]

theorem valid_of_new {requestMethod : Str} {limits : Limits} (h : new requestMethod limits = some engine) :
    engine.Valid [] ∧ engine.sawEof = false := by
  unfold new at h
  split at h
  · cases h
    exact ⟨valid_of_starts rfl (by simp) (by simp) ⟨rfl, rfl, rfl⟩, rfl⟩
  · cases h

/-- **Split independence.**  However the stream is cut into buffers, and whether or not its end is
signalled with the last of them, the heads, the body, the trailers, the announcements of completion and
the outcome are those of the whole stream at once. -/
theorem run_split_independent (httparse : Httparse) (requestMethod : Str) (limits : Limits)
    (engine : Engine) (hnew : Engine.new requestMethod limits = some engine) (buffers : List Bytes)
    (last : Bytes) (eof : Bool) :
    (run httparse engine [] buffers last eof).report =
      (run httparse engine [] [] (buffers.flatten ++ last) eof).report := by
  obtain ⟨hv, he⟩ := valid_of_new hnew
  rw [run_ideal hv he, run_ideal hv he]
  simp

end Runs

/-- A response cut inside the mark that ends its head, and again inside its body. -/
theorem run_split_independent_cut : Engine.new "GET" {} = some defaultEngine ∧
      (run plainHttparse defaultEngine [] [asBytes "HTTP/1.1 200 OK\x0d\nContent-Length: 3\x0d\n\x0d",
          asBytes "\na"] (asBytes "bc") true).report =
        (run plainHttparse defaultEngine [] []
          (asBytes "HTTP/1.1 200 OK\x0d\nContent-Length: 3\x0d\n\x0d\nabc") true).report := by
  have hn : new "GET" {} = some defaultEngine := by rfl
  refine ⟨hn, (run_split_independent plainHttparse "GET" {} defaultEngine hn _ _ true).trans ?_⟩
  exact congrArg (fun stream => (run plainHttparse defaultEngine [] [] stream true).report) (by decide +kernel)

end DirectH1
