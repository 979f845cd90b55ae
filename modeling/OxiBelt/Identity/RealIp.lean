import OxiBelt.Http.HeaderMap
import OxiBelt.Identity.Cidr

/-!
# Real client addresses (`identity.rs`, `resolve_client_addr`)

A trusted peer reports the address of its client in a forwarding header, and recursive mode walks
that header from the right to the first address outside the trusted ranges.

* `lastUntrusted_candidates`: only the first field line of the header is read, and only if it is visible
  ASCII.
* `lastUntrusted_append_single`: an untrusted address at the end of a list is what the walk finds,
  whatever stands before it.
* `resolveClientAddr_recorded_iff`: the address that a trusted peer records at the end of the header
  is the resolved one exactly if the first field line carries it, or the client's own first line
  ends in the same address.
-/

namespace Identity

open RustStd Http List

inductive RealIpHeader where
  | xForwardedFor
  | xRealIp
  | forwarded
  | cfConnectingIp
  deriving DecidableEq, Repr

def RealIpHeader.headerName : RealIpHeader → Str
  | .xForwardedFor => "x-forwarded-for"
  | .xRealIp => "x-real-ip"
  | .forwarded => "forwarded"
  | .cfConnectingIp => "cf-connecting-ip"

structure RealIpConfig where
  enabled : Bool := false
  trustedProxies : List Str := []
  header : RealIpHeader := .xForwardedFor
  recursive : Bool := true
  failOnUntrustedForwardedHeaders : Bool := false

variable (raw : Str) (headers : HeaderMap) (header : RealIpHeader)

/-- `parse_ip_token`: an address, an address in brackets, or an IPv4 address with a port. -/
def parseIpToken : Option IpAddr :=
  let token := trimMatches (· == '"') (trim raw)
  if token.isEmpty || eqIgnoreAsciiCase token "unknown" then none
  else
    match parseIpAddr token with
    | some ip => some ip
    | none =>
      if token.head? == some '[' then
        if ']' ∈ token then parseIpAddr ((token.takeWhile (· != ']')).drop 1) else none
      else
        match rsplitOnce ':' token with
        | some (host, port) =>
          if !host.contains ':' && port.all isAsciiDigit then parseIpAddr host else none
        | none => none

def parseCsvIps : List IpAddr := (raw.splitOn ',').filterMap parseIpToken

/-- One `name=value` part of a `Forwarded` element. -/
def parseForwardedPart (part : Str) : Option IpAddr :=
  match splitOnce '=' (trim part) with
  | none => none
  | some (name, value) =>
    if eqIgnoreAsciiCase (trim name) "for" then
      parseIpToken (trimMatches (· == '"') (trim value))
    else none

def parseForwardedForIps : List IpAddr :=
  ((raw.splitOn ',').flatMap fun entry => entry.splitOn ';').filterMap parseForwardedPart

/-- What the text of one field line says about the addresses behind the peer. -/
def parseFieldLine (text : Str) : List IpAddr :=
  match header with
  | .xForwardedFor => parseCsvIps text
  | .xRealIp | .cfConnectingIp => (parseIpToken text).toList
  | .forwarded => parseForwardedForIps text

def headerCandidateIps : List IpAddr :=
  match (headers.get header.headerName).bind HeaderValue.toStr with
  | some text => parseFieldLine header text
  | none => []

def hasRealIpHeader : Bool :=
  headers.containsKey header.headerName

/-- The rightmost address outside the trusted ranges. -/
def lastUntrusted (trusted : TrustedCidrs) (ips : List IpAddr) : Option IpAddr :=
  ips.reverse.find? fun ip => !trusted.contains ip

def resolveClientAddr (peerAddr : SocketAddr) (config : RealIpConfig) : Except Str SocketAddr :=
  if !config.enabled then .ok peerAddr
  else
    match TrustedCidrs.parse config.trustedProxies with
    | .error e => .error e
    | .ok trusted =>
      if !trusted.contains peerAddr.ip then
        if config.failOnUntrustedForwardedHeaders && hasRealIpHeader headers config.header then
          .error "untrusted peer sent forwarded client IP metadata"
        else .ok peerAddr
      else
        let candidates := headerCandidateIps headers config.header
        if candidates.isEmpty then .ok peerAddr
        else
          let selected :=
            if config.recursive then (lastUntrusted trusted candidates).or candidates.head?
            else candidates.head?
          match selected with
          | some ip => .ok ⟨ip, peerAddr.port⟩
          | none => .ok peerAddr

/-! ## The right-to-left walk -/

section Walk

variable {trusted : TrustedCidrs} {a : IpAddr}

theorem lastUntrusted_append_single (ips : List IpAddr) (ha : trusted.contains a = false) :
    lastUntrusted trusted (ips ++ [a]) = some a := by
  simp [lastUntrusted, ha]

/-- In recursive mode behind a trusted peer, an untrusted address is resolved exactly if the walk
over the candidates ends at it: the fallbacks (the first candidate, the peer) are trusted. -/
theorem resolveClientAddr_untrusted_iff {headers : HeaderMap} {peer : SocketAddr}
    {config : RealIpConfig} (he : config.enabled = true) (hr : config.recursive = true)
    (hpr : TrustedCidrs.parse config.trustedProxies = .ok trusted)
    (hp : trusted.contains peer.ip = true) (ha : trusted.contains a = false) :
    resolveClientAddr headers peer config = .ok ⟨a, peer.port⟩ ↔
      lastUntrusted trusted (headerCandidateIps headers config.header) = some a := by
  have hne : peer.ip ≠ a := by
    rintro rfl
    rw [hp] at ha
    contradiction
  have hpa : peer ≠ ⟨a, peer.port⟩ := fun h => hne (congrArg SocketAddr.ip h)
  unfold resolveClientAddr
  simp only [he, hpr, hp, hr, Bool.not_true, Bool.false_eq_true, if_false, if_true]
  generalize headerCandidateIps headers config.header = ips
  cases hw : lastUntrusted trusted ips with
  | some b =>
    have hi : ips.isEmpty = false := by
      cases ips with
      | nil => simp [lastUntrusted] at hw
      | cons => rfl
    simp [hi]
  | none =>
    cases ips with
    | nil => simpa using hpa
    | cons c rest =>
      -- the walk found nothing, so the first candidate is trusted and is not `a`
      have hca : c ≠ a := by
        rintro rfl
        simpa [ha] using find?_eq_none.mp hw c (by simp)
      simp [hca]

end Walk

/-! ## What a list element adds to a field line -/

def RealIpHeader.isList : RealIpHeader → Bool
  | .xForwardedFor | .forwarded => true
  | .xRealIp | .cfConnectingIp => false

theorem parseFieldLine_append {header : RealIpHeader} (hl : header.isList = true) (s t : Str) :
    parseFieldLine header (s ++ ',' :: t) = parseFieldLine header s ++ parseFieldLine header t := by
  cases header with
  | xForwardedFor =>
    simp only [parseFieldLine, parseCsvIps, splitOn_append_cons_self, filterMap_append]
  | forwarded =>
    simp only [parseFieldLine, parseForwardedForIps, splitOn_append_cons_self, flatMap_append, filterMap_append]
  | xRealIp | cfConnectingIp => contradiction

variable (trusted : TrustedCidrs) (header : RealIpHeader)

/-- Where the walk over one field line ends; a line that is not visible ASCII has no addresses. -/
def walkLine (line : HeaderValue) : Option IpAddr :=
  line.toStr.bind fun text => lastUntrusted trusted (parseFieldLine header text)

/-- Only the first field line of the header takes part in the walk. -/
theorem lastUntrusted_candidates (header : RealIpHeader) : lastUntrusted trusted (headerCandidateIps headers header) =
      (headers.getAll header.headerName).head?.bind (walkLine trusted header) := by
  unfold headerCandidateIps walkLine
  rw [HeaderMap.get_eq_head?]
  cases (headers.getAll header.headerName).head? with
  | none => rfl
  | some line =>
    simp only [Option.bind_some]
    cases line.toStr <;> rfl

/-! ## An address recorded by the trusted peer -/

/-- The peer adds its element to the last field line, or as a field line of its own. -/
inductive Recording where
  | extendLast
  | newLine
  deriving DecidableEq

/-- The field lines of the header once the peer has recorded `element` behind the client's. -/
def recordedLines : Recording → List HeaderValue → HeaderValue → List HeaderValue
  | .newLine, client, element => client ++ [element]
  | .extendLast, [], element => [element]
  | .extendLast, [last], element => [last.extend element]
  | .extendLast, line :: more, element => line :: recordedLines .extendLast more element

/-- One list element that names the address `a` and no other. -/
def Records (element : HeaderValue) (a : IpAddr) : Prop :=
  ∃ text, element.toStr = some text ∧ ',' ∉ text ∧ parseFieldLine header text = [a]

/-- The element stands in the first field line, behind client text that can be read. -/
def FirstLineCarries : Recording → List HeaderValue → Prop
  | _, [] => True
  | .extendLast, [line] => line.toStr.isSome = true
  | .extendLast, _ :: _ :: _ => False
  | .newLine, _ :: _ => False

/-- The client sent a first field line that itself ends in `a`, trusted addresses aside. -/
def ClientLineAgrees (client : List HeaderValue) (a : IpAddr) : Prop :=
  ∃ first, client.head? = some first ∧ walkLine trusted header first = some a

section Recorded

variable {trusted : TrustedCidrs} {header : RealIpHeader} {element : HeaderValue} {a : IpAddr}

theorem walkLine_element (he : Records header element a) (ha : trusted.contains a = false) :
    walkLine trusted header element = some a := by
  obtain ⟨text, ht, -, hp⟩ := he
  unfold walkLine
  rw [ht, Option.bind_some, hp]
  exact lastUntrusted_append_single [] ha

/-- Behind a readable line of the client the recorded element still decides the walk; behind an
unreadable one there is nothing to walk over. -/
theorem walkLine_extend (hl : header.isList = true) (he : Records header element a)
    (ha : trusted.contains a = false) (line : HeaderValue) :
    walkLine trusted header (line.extend element) = if line.toStr.isSome then some a else none := by
  obtain ⟨t, ht, -, hp⟩ := he
  unfold walkLine
  rw [HeaderValue.toStr_extend, ht]
  cases hs : line.toStr with
  | none => rfl
  | some s =>
    simp only [Option.bind_some, Option.isSome_some, if_true]
    rw [parseFieldLine_append hl, hp]
    exact lastUntrusted_append_single _ ha

theorem walk_recordedLines_iff (hl : header.isList = true) (how : Recording)
    (client : List HeaderValue) (he : Records header element a)
    (ha : trusted.contains a = false) :
    (recordedLines how client element).head?.bind (walkLine trusted header) = some a ↔
      FirstLineCarries how client ∨ ClientLineAgrees trusted header client a := by
  have ho := walkLine_element he ha
  rcases client with _ | ⟨line, _ | ⟨next, more⟩⟩
  · cases how <;> simp [recordedLines, FirstLineCarries, ho]
  · cases how with
    | newLine => simp [recordedLines, FirstLineCarries, ClientLineAgrees]
    | extendLast =>
      -- the one line the client sent is the line the peer extends
      simp only [recordedLines, FirstLineCarries, ClientLineAgrees, head?_cons,
        Option.bind_some, walkLine_extend hl he ha, Option.some.injEq, exists_eq_left']
      cases hs : line.toStr with
      | some s => simp
      | none => simp [walkLine, hs]
  · cases how <;> simp [recordedLines, FirstLineCarries, ClientLineAgrees]

end Recorded

/-- **Recorded client address.**  A trusted peer records the untrusted address `a` as the last list
element.  The address resolved in recursive mode is `a` exactly if the first field line carries the
element behind readable text, or the client's own first field line leads to the same address. -/
theorem resolveClientAddr_recorded_iff (headers : HeaderMap) (peer : SocketAddr)
    (config : RealIpConfig) (trusted : TrustedCidrs) (how : Recording) (client : List HeaderValue)
    (element : HeaderValue) (a : IpAddr)
    (henabled : config.enabled = true) (hrec : config.recursive = true)
    (hlist : config.header.isList = true)
    (hparse : TrustedCidrs.parse config.trustedProxies = .ok trusted)
    (hpeer : trusted.contains peer.ip = true) (ha : trusted.contains a = false)
    (helem : Records config.header element a)
    (hlines : headers.getAll config.header.headerName = recordedLines how client element) :
    resolveClientAddr headers peer config = .ok ⟨a, peer.port⟩ ↔
      FirstLineCarries how client ∨ ClientLineAgrees trusted config.header client a := by
  rw [resolveClientAddr_untrusted_iff henabled hrec hparse hpeer ha, lastUntrusted_candidates, hlines]
  exact walk_recordedLines_iff hlist how client helem ha

def tenNetConfig : RealIpConfig :=
  { enabled := true, trustedProxies := ["10.0.0.0/8"] }

def tenNet : TrustedCidrs := ⟨[Cidr.ofAddr (.v4 0x0A000000) 8 (by decide)]⟩

theorem resolveClientAddr_recorded_single_line : FirstLineCarries .extendLast [.ofText "8.8.8.8" (by decide)] ∧
    resolveClientAddr
        ⟨[("x-forwarded-for", .ofText "8.8.8.8,203.0.113.9" (by decide))], by decide⟩
        ⟨.v4 0x0A000001, 443⟩ tenNetConfig = .ok ⟨.v4 0xCB007109, 443⟩ := by
  refine (and_iff_left_of_imp fun hc => ?_).2 (by unfold FirstLineCarries; decide +kernel)
  refine (resolveClientAddr_recorded_iff _ _ tenNetConfig tenNet .extendLast
    [.ofText "8.8.8.8" (by decide)] (.ofText "203.0.113.9" (by decide)) (.v4 0xCB007109)
    rfl rfl rfl (by decide +kernel) (by decide +kernel) (by decide +kernel) ?_ ?_).mpr (.inl hc)
  · exact ⟨"203.0.113.9", by decide +kernel, by decide +kernel, by decide +kernel⟩
  · decide +kernel

/-- A client behind the trusted peer 10.0.0.1 sends `X-Forwarded-For: 8.8.8.8` and the peer records
203.0.113.9 in a line of its own: the address the client made up is resolved. -/
theorem resolveClientAddr_spoofed_by_first_line : TrustedCidrs.parse tenNetConfig.trustedProxies = .ok tenNet ∧
    tenNet.contains (.v4 0x0A000001) = true ∧ tenNet.contains (.v4 0xCB007109) = false ∧
    Records .xForwardedFor (.ofText "203.0.113.9" (by decide)) (.v4 0xCB007109) ∧
    resolveClientAddr
        ⟨(recordedLines .newLine [.ofText "8.8.8.8" (by decide)]
          (.ofText "203.0.113.9" (by decide))).map fun line => ("x-forwarded-for", line), by decide⟩
        ⟨.v4 0x0A000001, 443⟩ tenNetConfig = .ok ⟨.v4 0x08080808, 443⟩ ∧
    (⟨.v4 0x08080808, 443⟩ : SocketAddr) ≠ ⟨.v4 0xCB007109, 443⟩ := by
  refine ⟨by decide +kernel, by decide +kernel, by decide +kernel, ?_, by decide +kernel, by decide +kernel⟩
  exact ⟨"203.0.113.9", by decide +kernel, by decide +kernel, by decide +kernel⟩

end Identity
