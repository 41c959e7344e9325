import PicoConduit.Provision
import PicoConduit.RequestBody
import PicoConduit.ScanForm
import PicoConduit.TransmitBuffer

namespace PicoConduit
open Checked Heapless TransmitBuffer Utf8
set_option autoImplicit true

/-- The digits in front of others; the ten bytes of the source hold every length. -/
def pushDigits (n : Nat) (digits : Bytes) : Bytes :=
  if n > 0 then pushDigits (n / 10) (('0'.toUInt8 + UInt8.ofNat (n % 10)) :: digits) else digits
termination_by n

def lengthDigits (n : Nat) : Bytes := if n = 0 then ['0'.toUInt8] else pushDigits n []

/-- `send_http`. -/
def sendHttp (status body : Bytes) : List (SocketOp UInt8) :=
  [.write ([asBytes "HTTP/1.0 ", status,
    asBytes "\r\nContent-Type: text/html\r\nConnection: close\r\nContent-Length: ",
    lengthDigits body.length, asBytes "\r\n\r\n"].foldl (pushBytes 160) []), .write body]

/-- `send_redirect`. -/
def sendRedirect (location : Bytes) : List (SocketOp UInt8) :=
  [.write ([asBytes "HTTP/1.0 302 Found\r\nLocation: ", location,
    asBytes "\r\nContent-Length: 0\r\nConnection: close\r\n\r\n"].foldl (pushBytes 200) [])]

def apIpUrl : Bytes := asBytes "http://192.168.4.1/"

def statusPage : String := "\x7b\"ssid\":\"\",\"connected\":false\x7d"

def testingPage : String :=
  "<!DOCTYPE html><html><head>" ++
    "<meta http-equiv=\"refresh\" content=\"20;url=/\">" ++
    "</head><body><h1>Testing connection\u2026</h1>" ++
    "<p>Connecting to Wi-Fi. Page refreshes in 20\u00a0s.</p>" ++
    "</body></html>"

def missingFieldsPage : String :=
  "<!DOCTYPE html><html><body>" ++
    "<h1>Missing Fields</h1>" ++
    "<p>Both SSID and password are required.</p>" ++
    "<a href=\"/\">Try again</a></body></html>"

/-- What `handle_http_request` does with the socket to send its answer. -/
def HttpReply.respond (scan : List BssInfo) : HttpReply → List (SocketOp UInt8)
  | .badRequest => sendHttp (asBytes "400 Bad Request") (asBytes "Bad Request")
  | .redirect => sendRedirect apIpUrl
  | .scanForm => (serveScanForm scan).map .write
  | .status => sendHttp (asBytes "200 OK") (asBytes statusPage)
  | .notFound => sendHttp (asBytes "404 Not Found") (asBytes "Not Found")
  | .missingFields => sendHttp (asBytes "400 Bad Request") (asBytes missingFieldsPage)
  | .provision .. => sendHttp (asBytes "200 OK") (asBytes testingPage) ++ [.flush]

/-- A turn of `portal_server` for a client that sends some bytes. A reset after the credentials have
been saved comes before the abort. -/
def portalTurn (radio : Radio) (flash : CredFlash φ) (f : φ) (scan : List BssInfo)
    (input : Bytes) : Exec (List (SocketOp UInt8) × φ) := do
  match ← handleHttpRequest input with
  | none => pure ([.abort], f)
  | some reply => do
    let (steps, f) ← reply.carryOut radio flash f
    pure (reply.respond scan ++ (if .reset ∈ steps then [] else [.abort]), f)

/-- What the portal writes to its 2048-byte buffer is never discarded. -/
def ResponseKept (radio : Radio) (flash : CredFlash φ) (f : φ) (scan : List BssInfo)
    (input : Bytes) : Prop :=
  ∀ ops f', portalTurn radio flash f scan input = .ok (ops, f') → NeverDiscards 2048 ops

/-- A request that is not answered at all, or is answered by a test of the credentials in it. -/
def Submits (input : Bytes) : Prop :=
  headerBlock input ≠ [] → ∃ req, parseRequestLine (firstLine (headerBlock input)) = .ok req ∧
    ∀ host, extractHeader (headerBlock input) (asBytes "Host") = .ok host →
      (∀ value ∈ host, apIpStr.isPrefixOf value = true) ∧ req = ⟨.post, "/connect"⟩ ∧
      ∀ length, extractHeader (headerBlock input) (asBytes "Content-Length") = .ok length →
        ∃ decoded form, decodeUrlEncoded ((input.drop (headerBlock input).length).take
            (contentLength length)) = .ok (.ok decoded) ∧ parseConnectForm decoded = .ok form

def HttpReply.provisions : HttpReply → Bool
  | .provision .. => true
  | _ => false

theorem connectReply_provisions (parsed : Except ParseError ConnectForm) :
    (connectReply parsed).provisions = true ↔ ∃ form, parsed = .ok form := by
  cases parsed with
  | error e => simp [connectReply, HttpReply.provisions]
  | ok form => simp [connectReply, HttpReply.provisions]

/-- The part of `handle_http_request` after the request line has been parsed. -/
def answerRequest (input : Bytes) (req : RequestLine) : Exec (Option HttpReply) := do
  let headers := headerBlock input
  let host ← extractHeader headers (asBytes "Host")
  if host.any (! apIpStr.isPrefixOf ·) then pure (some .redirect)
  else
    match req.method, req.path with
    | .get, "/" => pure (some .scanForm)
    | .get, "/index.html" => pure (some .scanForm)
    | .get, "/status" => pure (some .status)
    | .post, "/connect" => do
      let cl := contentLength (← extractHeader headers (asBytes "Content-Length"))
      match ← decodeUrlEncoded ((input.drop headers.length).take cl) with
      | .error _ => pure (some .missingFields)
      | .ok decoded => pure (some (connectReply (parseConnectForm decoded)))
    | _, _ => pure (some .notFound)

theorem handleHttpRequest_eq (h : headerBlock input ≠ []) : handleHttpRequest input =
    match parseRequestLine (firstLine (headerBlock input)) with
    | .error _ => pure (some .badRequest)
    | .ok req => answerRequest input req := by
  have hfull : ¬ (headerBlock input).isEmpty = true := by simpa using h
  simp only [handleHttpRequest, if_neg hfull, slice_firstLine, ok_bind]
  rfl

/-- The answer to the body of a submission. -/
def answerBody (body : Bytes) : Exec (Option HttpReply) := do
  match ← decodeUrlEncoded body with
  | .error _ => pure (some .missingFields)
  | .ok decoded => pure (some (connectReply (parseConnectForm decoded)))

theorem answerBody_provisions (body : Bytes) :
    (∀ reply, answerBody body = .ok (some reply) → reply.provisions = true) ↔
      ∃ decoded form, decodeUrlEncoded body = .ok (.ok decoded) ∧
        parseConnectForm decoded = .ok form := by
  obtain ⟨result, hresult, -⟩ := decodeUrlEncoded_yields body
  rw [answerBody, hresult, ok_bind]
  cases result with
  | error e =>
    refine iff_of_false (fun h => ?_) fun h => ?_
    · exact absurd (h .missingFields rfl) (by decide)
    · obtain ⟨decoded, form, hok, -⟩ := h
      cases hok
  | ok decoded =>
    constructor
    · intro h
      obtain ⟨form, hform⟩ := (connectReply_provisions _).1 (h _ rfl)
      exact ⟨decoded, form, rfl, hform⟩
    · rintro ⟨decoded', form, hok, hform⟩ reply hreply
      cases hok
      cases hreply
      exact (connectReply_provisions _).2 ⟨form, hform⟩

theorem answerRequest_connect (input : Bytes)
    (hhost : extractHeader (headerBlock input) (asBytes "Host") = .ok host)
    (hap : host.any (! apIpStr.isPrefixOf ·) = false) :
    answerRequest input ⟨.post, "/connect"⟩ = (do
      let length ← extractHeader (headerBlock input) (asBytes "Content-Length")
      answerBody ((input.drop (headerBlock input).length).take (contentLength length))) := by
  rw [answerRequest, hhost, ok_bind, hap]
  rfl

theorem answerRequest_other (input : Bytes)
    (hhost : extractHeader (headerBlock input) (asBytes "Host") = .ok host)
    (h : ¬ ((∀ value ∈ host, apIpStr.isPrefixOf value = true) ∧ req = ⟨.post, "/connect"⟩)) :
    ∃ reply, answerRequest input req = .ok (some reply) ∧ reply.provisions = false := by
  rw [answerRequest, hhost, ok_bind]
  split
  · exact ⟨.redirect, rfl, rfl⟩
  · rename_i hap
    have hall : ∀ value ∈ host, apIpStr.isPrefixOf value = true := by
      intro value hvalue
      cases hvalue
      simpa using hap
    split
    · exact ⟨.scanForm, rfl, rfl⟩
    · exact ⟨.scanForm, rfl, rfl⟩
    · exact ⟨.status, rfl, rfl⟩
    · rename_i hmethod hpath
      obtain ⟨method, path⟩ := req
      cases hmethod
      cases hpath
      exact absurd ⟨hall, rfl⟩ h
    · exact ⟨.notFound, rfl, rfl⟩

theorem answerRequest_provisions (input : Bytes) (req : RequestLine) :
    (∀ reply, answerRequest input req = .ok (some reply) → reply.provisions = true) ↔
      ∀ host, extractHeader (headerBlock input) (asBytes "Host") = .ok host →
        (∀ value ∈ host, apIpStr.isPrefixOf value = true) ∧ req = ⟨.post, "/connect"⟩ ∧
        ∀ length, extractHeader (headerBlock input) (asBytes "Content-Length") = .ok length →
          ∃ decoded form, decodeUrlEncoded ((input.drop (headerBlock input).length).take
              (contentLength length)) = .ok (.ok decoded) ∧
            parseConnectForm decoded = .ok form := by
  cases hhost : extractHeader (headerBlock input) (asBytes "Host") with
  | error q =>
    rw [answerRequest, hhost]
    exact iff_of_true (fun reply h => by cases h) fun host h => by cases h
  | ok host =>
    by_cases hconnect : (∀ value ∈ host, apIpStr.isPrefixOf value = true) ∧
        req = ⟨.post, "/connect"⟩
    · obtain ⟨hap, rfl⟩ := hconnect
      have hany : host.any (! apIpStr.isPrefixOf ·) = false := by
        cases host with
        | none => rfl
        | some value => simpa using hap value rfl
      rw [answerRequest_connect input hhost hany]
      cases hlength : extractHeader (headerBlock input) (asBytes "Content-Length") with
      | error q =>
        refine iff_of_true (fun reply h => ?_) fun host' hhost' => ?_
        · cases h
        · cases hhost'
          exact ⟨hap, rfl, fun length h => by cases h⟩
      | ok length =>
        rw [ok_bind, answerBody_provisions]
        constructor
        · intro h host' hhost'
          cases hhost'
          exact ⟨hap, rfl, fun length' hlength' => by cases hlength'; exact h⟩
        · exact fun h => (h host rfl).2.2 length rfl
    · obtain ⟨reply, hreply, hnot⟩ := answerRequest_other input hhost hconnect
      refine iff_of_false (fun h => ?_) fun h => ?_
      · rw [h reply hreply] at hnot
        cases hnot
      · obtain ⟨hap, hreq, -⟩ := h host rfl
        exact hconnect ⟨hap, hreq⟩

/-- Every answer is a test of credentials exactly for the requests that submit them. -/
theorem provisions_iff (input : Bytes) :
    (∀ reply, handleHttpRequest input = .ok (some reply) → reply.provisions = true) ↔
      Submits input := by
  by_cases hempty : headerBlock input = []
  · have hnone : handleHttpRequest input = .ok none := by
      rw [handleHttpRequest]
      exact if_pos (by simp [hempty])
    rw [hnone]
    exact iff_of_true (fun reply h => by cases h) fun h => absurd hempty h
  · rw [handleHttpRequest_eq hempty, Submits]
    cases hline : parseRequestLine (firstLine (headerBlock input)) with
    | error e =>
      refine iff_of_false (fun h => ?_) fun h => ?_
      · exact absurd (h .badRequest rfl) (by decide)
      · obtain ⟨req, hreq, -⟩ := h hempty
        cases hreq
    | ok req =>
      simp only [answerRequest_provisions]
      constructor
      · exact fun h _ => ⟨req, rfl, h⟩
      · intro h
        obtain ⟨req', hreq', hall⟩ := h hempty
        cases hreq'
        exact hall

theorem pushBytes_keeps (size : Nat) (srcs : List Bytes) (buf : Bytes) :
    buf <+: srcs.foldl (pushBytes size) buf := by
  induction srcs generalizing buf with
  | nil => exact List.prefix_rfl
  | cons src srcs ih => exact (List.prefix_append buf _).trans (ih (pushBytes size buf src))

/-- A response begins with the version of the protocol. -/
theorem pushBytes_ne_nil (size : Nat) (srcs : List Bytes) (h : pushBytes size [] first ≠ []) :
    (first :: srcs).foldl (pushBytes size) [] ≠ [] := by
  intro hnil
  have hkeeps := pushBytes_keeps size srcs (pushBytes size [] first)
  rw [List.foldl_cons] at hnil
  rw [hnil] at hkeeps
  exact h (List.prefix_nil.1 hkeeps)

theorem sendHttp_unflushed (status body : Bytes) :
    ¬ FlushedFrom [] (sendHttp status body ++ [.abort]) := by
  intro h
  have hwrites := (flushedFrom_writes [] [_, body]).1 h
  exact pushBytes_ne_nil 160 _ (by decide) (hwrites.2 _ List.mem_cons_self)

theorem sendRedirect_unflushed (location : Bytes) :
    ¬ FlushedFrom [] (sendRedirect location ++ [.abort]) := by
  intro h
  have hwrites := (flushedFrom_writes [] [_]).1 h
  exact pushBytes_ne_nil 200 _ (by decide) (hwrites.2 _ List.mem_cons_self)

/-- No other answer is flushed. -/
theorem respond_unflushed (scan : List BssInfo) {reply : HttpReply}
    (h : reply.provisions = false) : ¬ FlushedFrom [] (reply.respond scan ++ [.abort]) := by
  cases reply with
  | badRequest => exact sendHttp_unflushed _ _
  | redirect => exact sendRedirect_unflushed _
  | scanForm =>
    intro hflushed
    have hwrites := (flushedFrom_writes [] _).1 hflushed
    exact absurd (hwrites.2 (asBytes scanStatus) List.mem_cons_self) (by decide)
  | status => exact sendHttp_unflushed _ _
  | notFound => exact sendHttp_unflushed _ _
  | missingFields => exact sendHttp_unflushed _ _
  | provision => cases h

theorem respond_flushed (scan : List BssInfo) {reply : HttpReply}
    (h : reply.provisions = true) (steps : List ProvisionStep) :
    FlushedFrom [] (reply.respond scan ++ (if .reset ∈ steps then [] else [.abort])) := by
  cases reply with
  | provision ssid password mqttHost mqttPort =>
    by_cases hreset : .reset ∈ steps
    · rw [if_pos hreset]
      trivial
    · rw [if_neg hreset]
      exact ⟨rfl, trivial⟩
  | _ => cases h

theorem carryOut_other (radio : Radio) (flash : CredFlash φ) (f : φ) {reply : HttpReply}
    (h : reply.provisions = false) : reply.carryOut radio flash f = .ok ([], f) := by
  cases reply with
  | provision => cases h
  | _ => rfl

theorem submits_of_kept {radio : Radio} {flash : CredFlash φ} {f : φ}
    (h : ResponseKept radio flash f scan input) : Submits input := by
  refine (provisions_iff input).1 fun reply hreply => ?_
  by_contra hother
  rw [Bool.not_eq_true] at hother
  have hturn : portalTurn radio flash f scan input =
      .ok (reply.respond scan ++ [.abort], f) := by
    rw [portalTurn, hreply, ok_bind]
    simp only [carryOut_other radio flash f hother, ok_bind]
    rfl
  exact respond_unflushed scan hother ((neverDiscards_iff (by decide)).1 (h _ _ hturn))

/-- The portal keeps what it writes exactly for the requests that it does not answer and for those
that submit credentials. -/
theorem response_kept_iff (radio : Radio) (flash : CredFlash φ) (f : φ) (scan : List BssInfo)
    (input : Bytes) : ResponseKept radio flash f scan input ↔ Submits input := by
  constructor
  · exact submits_of_kept
  · intro hsubmits ops f' hturn
    refine neverDiscards_of_flushed ?_
    obtain ⟨reply, hreply, hrest⟩ := bind_eq_ok.1 hturn
    cases reply with
    | none =>
      cases hrest
      exact ⟨rfl, trivial⟩
    | some reply =>
      obtain ⟨out, -, hout⟩ := bind_eq_ok.1 hrest
      cases hout
      exact respond_flushed scan ((provisions_iff input).2 hsubmits reply hreply) out.1

def statusRequest : Bytes := asBytes "GET /status HTTP/1.0\r\n\r\n"

theorem status_discarded : ¬ ResponseKept openRadio (norFlash (4 * 1024 * 1024)) (fun _ => 0xFF) []
    statusRequest := by
  have hblock : headerBlock statusRequest = statusRequest := by decide
  have hline : parseRequestLine (firstLine statusRequest) = .ok ⟨.get, "/status"⟩ := by
    decide +kernel
  have hblank : HasBlankLine statusRequest :=
    hasBlankLine_of_complete (asBytes "GET /status HTTP/1.0")
  obtain ⟨host, hhost, -⟩ := extractHeader_yields hblank (asBytes "Host")
  intro h
  have hsubmits := submits_of_kept h
  rw [Submits, hblock, hline] at hsubmits
  obtain ⟨req, hreq, hall⟩ := hsubmits (by decide)
  have hconnect := (hall host hhost).2.1
  cases hreq
  exact absurd hconnect (by decide)

end PicoConduit
