import PicoConduit.Heapless
import PicoConduit.Http
import PicoConduit.WebSocket

namespace PicoConduit
open Checked Heapless Utf8
set_option autoImplicit true

/-- The header block that a peer's bytes leave in the 512-byte buffer of either server. -/
def headerBlock (input : Bytes) : Bytes := readHttpHeaders 512 [] input

/-- Append to a fixed buffer for as long as there is room. -/
def pushBytes (size : Nat) (buf src : Bytes) : Bytes := buf ++ src.take (size - buf.length)

/-- `ws_handshake`, with the response it writes to a connection that takes it. -/
def wsHandshake (input : Bytes) : Exec (Except TransportError Bytes) := do
  let headers := headerBlock input
  if headers.isEmpty then pure (.error .disconnected)
  else do
    let upgrade ← extractHeader headers (asBytes "Upgrade")
    if ¬ upgrade.any (eqIgnoreAsciiCase · (asBytes "websocket")) then
      pure (.error (.protocol .websocketHandshake))
    else do
      match ← extractHeader headers (asBytes "Sec-WebSocket-Key") with
      | none => pure (.error (.protocol .websocketHandshake))
      | some key => do
        let key := stripCr key
        let key := (stripSuffix (asBytes " ") key).getD key
        let (acceptLen, accept) ← computeAcceptKey key (List.replicate 28 0)
        let accept ← slice accept 0 acceptLen
        pure (.ok ([asBytes "HTTP/1.1 101 Switching Protocols\r\n",
          asBytes "Upgrade: websocket\r\n", asBytes "Connection: Upgrade\r\n",
          asBytes "Sec-WebSocket-Accept: ", accept, asBytes "\r\n\r\n"].foldl
          (pushBytes 160) []))

def findSubsequence (haystack needle : Bytes) : Option Nat :=
  (List.range (haystack.length + 1 - needle.length)).find? fun i =>
    (haystack.drop i).take needle.length == needle

/-- `char::is_whitespace`. -/
def isWhitespace (c : Char) : Bool :=
  let n := c.toNat
  9 ≤ n && n ≤ 13 || n == 0x20 || n == 0x85 || n == 0xA0 || n == 0x1680 ||
    0x2000 ≤ n && n ≤ 0x200A || n == 0x2028 || n == 0x2029 || n == 0x202F || n == 0x205F ||
    n == 0x3000

def trim (cs : List Char) : List Char := (cs.dropWhile isWhitespace).rdropWhile isWhitespace

/-- The length of the body that is read, from the `Content-Length` header; the target's `usize`
has 32 bits. -/
def contentLength (value : Option Bytes) : Nat :=
  min ((value.bind fun v => (fromUtf8 v).bind fun s =>
    parseUnsigned 4294967296 (trim s.toList)).getD 0) 256

/-- What `handle_http_request` answers with. -/
inductive HttpReply
  | badRequest
  | redirect
  | scanForm
  | status
  | notFound
  | missingFields
  | provision (ssid : HString 32) (password mqttHost : HString 64) (mqttPort : UInt16)
  deriving DecidableEq

def apIpStr : Bytes := asBytes "192.168.4.1"

/-- The copy of a form value to an owned buffer, which stays empty when the value does not fit. -/
def ownedCopy (s : String) : HString cap := (HString.empty.pushStr s).getD .empty

def connectReply : Except ParseError ConnectForm → HttpReply
  | .ok form => .provision (ownedCopy form.ssid) (ownedCopy form.password)
      (ownedCopy form.mqttHost) form.mqttPort
  | .error _ => .missingFields

/-- `handle_http_request`, on everything that the peer sends. -/
def handleHttpRequest (input : Bytes) : Exec (Option HttpReply) := do
  let headers := headerBlock input
  if headers.isEmpty then pure none
  else do
    let lineEnd := (findSubsequence headers (asBytes "\r\n")).getD headers.length
    let line ← slice headers 0 (min lineEnd headers.length)
    match parseRequestLine line with
    | .error _ => pure (some .badRequest)
    | .ok req => do
      let host ← extractHeader headers (asBytes "Host")
      if host.any (! apIpStr.isPrefixOf ·) then pure (some .redirect)
      else
        match req.method, req.path with
        | .get, "/" => pure (some .scanForm)
        | .get, "/index.html" => pure (some .scanForm)
        | .get, "/status" => pure (some .status)
        | .post, "/connect" => do
          let cl := contentLength (← extractHeader headers (asBytes "Content-Length"))
          let body := (input.drop headers.length).take cl
          match ← decodeUrlEncoded body with
          | .error _ => pure (some .missingFields)
          | .ok decoded => pure (some (connectReply (parseConnectForm decoded)))
        | _, _ => pure (some .notFound)

theorem extractHeader_yields (h : HasBlankLine raw) (name : Bytes) :
    Yields (extractHeader raw name) fun _ => True := by
  obtain ⟨v, hv⟩ := extractHeader_returns.2 (h.headerStops name)
  exact ⟨v, hv, trivial⟩

theorem wsHandshake_yields (h : HasBlankLine (headerBlock input)) :
    Yields (wsHandshake input) fun _ => True := by
  refine .ite (fun _ => .ok trivial) fun _ => ?_
  apply (extractHeader_yields h _).bind
  intro upgrade _
  refine .ite (fun _ => .ok trivial) fun _ => ?_
  apply (extractHeader_yields h _).bind
  intro key _
  cases key with
  | none => exact .ok trivial
  | some key =>
    apply (computeAcceptKey_yields _ List.length_replicate).bind
    rintro ⟨n, accept⟩ ⟨hn, ha⟩
    exact (slice_yields (Nat.zero_le _) (by simp only at hn ha; omega)).bind fun _ _ => .ok trivial

theorem handleHttpRequest_yields (h : HasBlankLine (headerBlock input)) :
    Yields (handleHttpRequest input) fun _ => True := by
  refine .ite (fun _ => .ok trivial) fun _ => ?_
  apply (slice_yields (Nat.zero_le _) (Nat.min_le_right _ _)).bind
  intro line _
  split
  · exact .ok trivial
  · apply (extractHeader_yields h _).bind
    intro host _
    refine .ite (fun _ => .ok trivial) fun _ => ?_
    split
    · exact .ok trivial
    · exact .ok trivial
    · exact .ok trivial
    · apply (extractHeader_yields h _).bind
      intro cl _
      apply (decodeUrlEncoded_yields _).bind
      intro decoded _
      split <;> exact .ok trivial
    · exact .ok trivial

/-- Every header lookup in the block that a peer's bytes leave, and both servers that make such
lookups, run to their end. -/
def HeadersSafe (input : Bytes) : Prop :=
  (∀ name, name ≠ [] → ∃ v, extractHeader (headerBlock input) name = .ok v) ∧
    (∃ r, wsHandshake input = .ok r) ∧ ∃ r, handleHttpRequest input = .ok r

/-- A lookup is safe exactly when a blank line or its header stops it, and everything is safe
exactly when the block has a blank line. -/
theorem headers_safe_iff (input : Bytes) :
    (∀ name, (∃ v, extractHeader (headerBlock input) name = .ok v) ↔
      HeaderStops (headerBlock input) name) ∧
    (HeadersSafe input ↔ HasBlankLine (headerBlock input)) := by
  refine ⟨fun name => extractHeader_returns, fun h => ?_, fun h => ?_⟩
  · have hn : List.replicate ((headerBlock input).length + 1) ':'.toUInt8 ≠ [] := by simp
    apply (extractHeader_returns.1 (h.1 _ hn)).hasBlankLine
    rw [List.length_replicate]
    exact Nat.le_succ _
  · obtain ⟨r, hr, -⟩ := wsHandshake_yields h
    obtain ⟨r', hr', -⟩ := handleHttpRequest_yields h
    exact ⟨fun name _ => extractHeader_returns.2 (h.headerStops name), ⟨r, hr⟩, r', hr'⟩

def cutRequest : Bytes := asBytes "GET / HTTP/1.1\r\nUser-Agent: x"

/-- A request line and one header, cut off by a closed connection. -/
theorem cut_request_not_safe : headerBlock cutRequest = cutRequest ∧ ¬ HeadersSafe cutRequest ∧
    extractHeader cutRequest (asBytes "Host") = .error .slice ∧
    wsHandshake cutRequest = .error .slice ∧ handleHttpRequest cutRequest = .error .slice := by
  have hb : headerBlock cutRequest = cutRequest := by decide +kernel
  have hl : (cutRequest.splitOn newline).tail = [asBytes "User-Agent: x"] := by decide +kernel
  have hhost : extractHeader cutRequest (asBytes "Host") = .error .slice := by
    rw [extractHeader_eq, hl]
    decide +kernel
  have hupgrade : extractHeader cutRequest (asBytes "Upgrade") = .error .slice := by
    rw [extractHeader_eq, hl]
    decide +kernel
  have hws : wsHandshake cutRequest = .error .slice := by
    rw [wsHandshake, hb, hupgrade]
    rfl
  have hline : parseRequestLine (asBytes "GET / HTTP/1.1") = .ok ⟨.get, "/"⟩ := by decide +kernel
  have hhttp : handleHttpRequest cutRequest = .error .slice := by
    have hs : slice cutRequest 0 (min ((findSubsequence cutRequest (asBytes "\r\n")).getD
        cutRequest.length) cutRequest.length) = .ok (asBytes "GET / HTTP/1.1") := by
      decide +kernel
    have hne : cutRequest.isEmpty = false := by decide +kernel
    simp only [handleHttpRequest, hb, hne, Bool.false_eq_true, ↓reduceIte, hs, ok_bind, hline,
      hhost, error_bind]
  refine ⟨hb, fun h => ?_, hhost, hws, hhttp⟩
  obtain ⟨r, hr⟩ := h.2.1
  rw [hws] at hr
  cases hr

end PicoConduit
