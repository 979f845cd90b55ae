import OxiBelt.Proxy.ResponseEngine

/-!
# The order of the events over a run

A run is any sequence of calls of `decode` on one buffer, with any bytes arriving before each call: every
split of every stream, and every number of calls between two reads.
-/

namespace DirectH1

open RustStd ByteString Http List

/-- Bytes that have arrived, and whether the input has ended. -/
structure Call where
  arrived : Bytes
  eof : Bool

def answers (httparse : Httparse) : Engine → Bytes → List Call → List StepResult
  | _, _, [] => []
  | engine, input, call :: calls =>
    let answer := decode httparse engine (input ++ call.arrived) call.eof
    answer.1 :: answers httparse answer.2.1 answer.2.2 calls

theorem decode_continues (httparse : Httparse) (engine : Engine) (input : Bytes) (eof : Bool) :
    Continues engine (decode httparse engine input eof).1 (decode httparse engine input eof).2.1 := by
  unfold decode
  split
  · next error he =>
    intro events ha
    refine ⟨ha, fun _ => ?_⟩
    rwa [Engine.Ahead, he] at ha
  next he =>
  have hl : ∀ (start : Engine) (input : Bytes), start.terminalError = none →
      Continues start (decodeLoop httparse start input).1 (decodeLoop httparse start input).2.1 := by
    intro start input hn
    have hc := (turn_steps httparse start input).continues hn
    fun_induction decodeLoop httparse start input with
    | case1 start input result engine' input' ht => rwa [ht] at hc
    | case2 start input engine' input' ht ih =>
      rw [ht] at hc
      intro events ha
      obtain ⟨hr, hd⟩ := ih hc.1 ((turn_steps httparse engine' input').continues hc.1) events ha
      exact ⟨hc.2 _ hr, hd⟩
  exact hl _ input he

theorem answers_ahead (httparse : Httparse) (engine : Engine) (input : Bytes) (calls : List Call) :
    engine.Ahead ((answers httparse engine input calls).flatMap produced) := by
  induction calls generalizing engine input with
  | nil => exact ahead_nil engine
  | cons call calls ih => exact (decode_continues httparse engine _ call.eof _ (ih _ _)).1

theorem answers_last {httparse : Httparse} {engine : Engine} {input : Bytes} {calls : List Call}
    {before after : List StepResult} {result : StepResult}
    (h : answers httparse engine input calls = before ++ result :: after) (hl : Last result) :
    after.flatMap produced = [] := by
  induction calls generalizing engine input before with
  | nil => simp [answers] at h
  | cons call calls ih =>
    rcases before with _ | ⟨first, before⟩
    · obtain ⟨rfl, rfl⟩ := cons.inj h
      exact (decode_continues httparse engine _ call.eof _ (answers_ahead httparse _ _ _)).2 hl
    · exact ih (cons.inj h).2

/-- **The events of a response are in order**, and after completion or a failure no more come. -/
theorem events_in_order (httparse : Httparse) (requestMethod : Str) (limits : Limits) (engine : Engine)
    (hnew : Engine.new requestMethod limits = some engine) (calls : List Call) :
    Grammar limits.maxInterimResponses ((answers httparse engine [] calls).flatMap produced) ∧
      ∀ before result after, answers httparse engine [] calls = before ++ result :: after → Last result →
        after.flatMap produced = [] := by
  refine ⟨?_, fun _ _ _ h hl => answers_last h hl⟩
  have ha := answers_ahead httparse engine [] calls
  unfold Engine.new at hnew
  split at hnew
  · cases hnew
    exact ha
  · cases hnew

/-- An interim head, a chunked body and a trailer, with one event at each call. -/
theorem events_in_order_chunked :
    let head : Str := "HTTP/1.1 103 Early Hints\x0d\n\x0d\nHTTP/1.1 200 OK\x0d\nTransfer-Encoding: chunked\x0d\n\x0d\n"
    let events := (answers plainHttparse defaultEngine []
      [⟨asBytes head, false⟩, ⟨asBytes "2\x0d\nab", false⟩, ⟨[], false⟩,
        ⟨asBytes "\x0d\n0\x0d\nx: y\x0d\n\x0d\n", false⟩, ⟨[], true⟩]).flatMap produced
    events.length = 5 ∧ events[2]? = some (.body (asBytes "ab")) ∧ events.getLast? = some .complete ∧
      Grammar 8 events :=
  ⟨by decide +kernel, by decide +kernel, by decide +kernel,
    (events_in_order plainHttparse "GET" {} defaultEngine (if_pos (by decide)) _).1⟩

end DirectH1
