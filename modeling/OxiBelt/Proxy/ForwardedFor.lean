import OxiBelt.Cache.Revalidation
import OxiBelt.Proxy.ResponseHead

/-!
# The chain of forwarded addresses (`proxy/http/headers.rs`)

In append mode the client address goes behind the value of `X-Forwarded-For`.  `append_csv_header` reads the first line
with that name only, and only if it is text; what it writes replaces all of them.

* `forwardedFor_elements`: the chain is kept exactly if there is nothing in the lines that are not read.
* `forwardedFor_second_line`: a second line is dropped.
-/

namespace ForwardedFor

open RustStd Http ByteString List
open DirectH1 (isOws trimOws)

abbrev HeaderName := { name : Str // isHeaderName name = true }

def forwarded : HeaderName := ⟨"forwarded", by decide⟩

def xForwardedFor : HeaderName := ⟨"x-forwarded-for", by decide⟩

def xForwardedProto : HeaderName := ⟨"x-forwarded-proto", by decide⟩

def xForwardedHost : HeaderName := ⟨"x-forwarded-host", by decide⟩

def xForwardedPort : HeaderName := ⟨"x-forwarded-port", by decide⟩

def insert (headers : HeaderMap) (name : HeaderName) (value : HeaderValue) : HeaderMap :=
  headers.insert ⟨(name, value), name.2⟩

/-- `HeaderValue::from_str`. -/
def fromStr (text : Str) : Option HeaderValue :=
  if h : (asBytes text).all isValueByte = true then some ⟨asBytes text, h⟩ else none

def appendCsvHeader (headers : HeaderMap) (headerName : HeaderName) (value : Str) : HeaderMap :=
  let headerValue := match (headers.get headerName).bind HeaderValue.toStr with
    | some existing => if existing = [] then fromStr value else fromStr (existing ++ ", " ++ value)
    | none => fromStr value
  match headerValue with
  | some headerValue => insert headers headerName headerValue
  | none => headers

inductive ForwardedHeaderMode where
  | overwrite
  | append

/-- What the request and the listener give for the fields, `client` in place of the chain. -/
structure ForwardedValues where
  (client proto : HeaderValue)
  host : Option HeaderValue
  port : HeaderValue

def addForwardedHeaders (headers : HeaderMap) (forwardedIp : Str) (mode : ForwardedHeaderMode)
    (values : ForwardedValues) : HeaderMap :=
  let headers := headers.remove forwarded
  let headers := match mode with
    | .overwrite => insert headers xForwardedFor values.client
    | .append => appendCsvHeader headers xForwardedFor forwardedIp
  let headers := insert headers xForwardedProto values.proto
  let headers := match values.host with
    | some host => insert headers xForwardedHost host
    | none => headers.remove xForwardedHost
  insert headers xForwardedPort values.port

/-! ## Elements of a chain -/

/-- The members of a comma list, without the empty ones. -/
def elementsOf (bytes : Bytes) : List Bytes := ((bytes.splitOn 44).map trimOws).filter (· ≠ [])

/-- An address is written without blanks and commas. -/
def isAddressByte (b : UInt8) : Bool := isVisibleAscii b && !isOws b && b != 44

variable {headers : HeaderMap} {address bytes : Bytes}

theorem fromStr_textOfBytes (h : bytes.all isVisibleAscii = true) :
    ∃ value, fromStr (textOfBytes bytes) = some value ∧ value.bytes = bytes := by
  have hb := @forall_byte
    (fun b => !isVisibleAscii b || String.utf8EncodeChar (charOfByte b) == [b] && isValueByte b) (by decide +kernel)
  have ht : asBytes (textOfBytes bytes) = bytes ∧ bytes.all isValueByte = true := by
    induction bytes with
    | nil => exact ⟨rfl, rfl⟩
    | cons b bytes ih =>
      rw [all_cons, Bool.and_eq_true] at h
      obtain ⟨ht, hv⟩ := ih h.2
      obtain ⟨he, hb⟩ : String.utf8EncodeChar (charOfByte b) = [b] ∧ _ := by simpa [h.1] using hb b
      exact ⟨(congrArg₂ _ he ht).trans singleton_append, by rw [all_cons, hb, hv, Bool.and_self]⟩
  exact ⟨⟨bytes, ht.2⟩, by simp [fromStr, ht], rfl⟩

theorem elementsOf_address (hn : address ≠ []) (ha : ∀ b ∈ address, isOws b = false ∧ b ≠ 44) :
    elementsOf address = [address] ∧
      ∀ bytes, elementsOf (bytes ++ 44 :: 32 :: address) = elementsOf bytes ++ [address] := by
  have hd : ∀ bytes : Bytes, (∀ b ∈ bytes, b ∈ address) → bytes.dropWhile isOws = bytes := by
    rintro (_ | ⟨b, bytes⟩) hb
    · rfl
    · rw [dropWhile_cons, (ha b (hb b mem_cons_self)).1, if_neg Bool.false_ne_true]
  have ht : trimOws address = address ∧ trimOws (32 :: address) = address := by
    simp [trimOws, isOws, hd]
  have hc : 44 ∉ address := fun h => (ha 44 h).2 rfl
  have hb : 44 ∉ 32 :: address := by simpa using hc
  simp [elementsOf, splitOn_append_cons_self, splitOn_eq_singleton hc, splitOn_eq_singleton hb, ht, hn]

def readElements (lines : List HeaderValue) : List Bytes :=
  (lines.head?.filter (·.toStr.isSome)).elim [] (elementsOf ·.bytes)

theorem getAll_addForwardedHeaders (values : ForwardedValues) {ip : Str} {value : HeaderValue}
    (h : appendCsvHeader (headers.remove forwarded) xForwardedFor ip =
      insert (headers.remove forwarded) xForwardedFor value) :
    (addForwardedHeaders headers ip .append values).getAll xForwardedFor = [value] := by
  -- The fields that are inserted after the chain have other names.
  have hp : ∀ (name : HeaderName) (headers : HeaderMap) (value : HeaderValue), name.1 ≠ xForwardedFor.1 →
      (insert headers name value).getAll xForwardedFor = headers.getAll xForwardedFor := fun _ headers _ h =>
    (headers.getAll_insert _ _).trans (if_neg h)
  have hi : (insert (headers.remove forwarded) xForwardedFor value).getAll xForwardedFor = [value] :=
    (HeaderMap.getAll_insert ..).trans (if_pos rfl)
  rw [addForwardedHeaders, hp _ _ _ (by decide)]
  cases values.host with
  | some host => rw [hp _ _ _ (by decide), hp _ _ _ (by decide), h, hi]
  | none =>
    rw [HeaderMap.getAll_remove]
    exact (hp _ _ _ (by decide)).trans (h ▸ hi)

/-- One field is forwarded, with the elements of the first line and the client address behind them. -/
theorem forwardedFor_read (values : ForwardedValues) (hn : address ≠ []) (ha : address.all isAddressByte = true) :
    ∃ value, (addForwardedHeaders headers (textOfBytes address) .append values).getAll xForwardedFor = [value] ∧
      elementsOf value.bytes = readElements (headers.getAll xForwardedFor) ++ [address] := by
  have hab : ∀ b ∈ address, isVisibleAscii b = true ∧ isOws b = false ∧ b ≠ 44 := by
    simpa [isAddressByte, and_assoc] using ha
  have hva : address.all isVisibleAscii = true := all_eq_true.2 fun b hb => (hab b hb).1
  obtain ⟨he, hbe⟩ := elementsOf_address hn fun b hb => (hab b hb).2
  have hr : ((headers.remove forwarded).get xForwardedFor) = (headers.getAll xForwardedFor).head? := by
    rw [HeaderMap.get_eq_head?, HeaderMap.getAll_remove]
    rfl
  suffices h : ∃ value, appendCsvHeader (headers.remove forwarded) xForwardedFor (textOfBytes address) =
      insert (headers.remove forwarded) xForwardedFor value ∧ _ by
    obtain ⟨value, hv, he⟩ := h
    exact ⟨value, getAll_addForwardedHeaders values hv, he⟩
  generalize headers.getAll xForwardedFor = lines at *
  obtain ⟨plain, hpl, rfl⟩ := fromStr_textOfBytes hva
  rcases lines with _ | ⟨line, lines⟩
  · exact ⟨plain, by simp [appendCsvHeader, hr, hpl], he⟩
  rcases ht : line.toStr with _ | text
  · exact ⟨plain, by simp [appendCsvHeader, hr, ht, hpl], by simp [readElements, Option.filter, ht, he]⟩
  obtain ⟨hl, rfl⟩ := HeaderValue.toStr_eq_some.1 ht
  have hread : readElements (line :: lines) = elementsOf line.bytes := by simp [readElements, Option.filter, ht]
  have hte : textOfBytes line.bytes = [] ↔ line.bytes = [] := map_eq_nil_iff
  by_cases hz : line.bytes = []
  · have hze : elementsOf [] = [] := by decide
    exact ⟨plain, by simp [appendCsvHeader, hr, ht, hte.2 hz, hpl], by simp [he, hread, hz, hze]⟩
  obtain ⟨value, hv, hb⟩ := @fromStr_textOfBytes (line.bytes ++ 44 :: 32 :: plain.bytes) (by simp [hl, hva]; decide)
  have htx : textOfBytes (line.bytes ++ 44 :: 32 :: plain.bytes) =
      textOfBytes line.bytes ++ (", " ++ textOfBytes plain.bytes) := map_append
  refine ⟨value, ?_, by simp [hb, hbe, hread]⟩
  simp only [appendCsvHeader, hr, head?_cons, Option.bind_some, ht, hte, hz, if_false, append_assoc, ← htx, hv]

/-- **The forwarded chain.**  In append mode one field with the elements that came in and the client address behind them
is forwarded if and only if no line behind the first has elements, nor the first if it is not text. -/
theorem forwardedFor_elements (headers : HeaderMap) (values : ForwardedValues) (address : Bytes) (hn : address ≠ [])
    (ha : address.all isAddressByte = true) :
    (∃ value, (addForwardedHeaders headers (textOfBytes address) .append values).getAll xForwardedFor = [value] ∧
      elementsOf value.bytes = (headers.getAll xForwardedFor).flatMap (elementsOf ·.bytes) ++ [address]) ↔
    (∀ line ∈ (headers.getAll xForwardedFor).tail, elementsOf line.bytes = []) ∧
      ∀ line ∈ (headers.getAll xForwardedFor).head?, line.toStr = none → elementsOf line.bytes = [] := by
  obtain ⟨value, hg, he⟩ := @forwardedFor_read headers _ values hn ha
  simp only [hg, List.cons.injEq, and_true, exists_eq_left', he, append_left_inj]
  rcases headers.getAll xForwardedFor with _ | ⟨line, lines⟩
  · simp [readElements]
  rcases ht : line.toStr with _ | text
  · have hread : readElements (line :: lines) = [] := by simp [readElements, Option.filter, ht]
    rw [hread, eq_comm]
    simp [ht, and_comm]
  · simp [readElements, Option.filter, ht]

def noValues : ForwardedValues :=
  ⟨.ofText "" (by decide), .ofText "http" (by decide), none, .ofText "80" (by decide)⟩

theorem forwardedFor_elements_empty_line : ∃ value,
    (addForwardedHeaders ⟨[(xForwardedFor, .ofText "1.1.1.1" (by decide)), (xForwardedFor, .ofText "" (by decide))],
      by decide⟩ "8.8.8.8" .append noValues).getAll xForwardedFor = [value] ∧
    elementsOf value.bytes = [asBytes "1.1.1.1", asBytes "8.8.8.8"] :=
  (forwardedFor_elements ⟨[(xForwardedFor, .ofText "1.1.1.1" (by decide)), (xForwardedFor, .ofText "" (by decide))],
    by decide⟩ noValues (asBytes "8.8.8.8") (by decide) (by decide)).2 (by decide +kernel)

/-- The second line of a request is not forwarded. -/
theorem forwardedFor_second_line :
    (addForwardedHeaders
      ⟨[(xForwardedFor, .ofText "1.1.1.1" (by decide)), (xForwardedFor, .ofText "2.2.2.2" (by decide))], by decide⟩
      "8.8.8.8" .append noValues).getAll xForwardedFor = [.ofText "1.1.1.1, 8.8.8.8" (by decide)] := by
  decide +kernel

end ForwardedFor
