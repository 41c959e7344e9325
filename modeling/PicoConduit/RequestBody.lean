import PicoConduit.FormBody
import PicoConduit.Provision

namespace PicoConduit
open Checked Heapless Utf8
set_option autoImplicit true

/-- What `handle_http_request` makes of the bytes of a form. -/
def formReply (body : Bytes) : Exec (Option HttpReply) := do
  match ← decodeUrlEncoded body with
  | .error _ => pure (some .missingFields)
  | .ok decoded => pure (some (connectReply (parseConnectForm decoded)))

/-- The bytes up to the first line end, or all of them. -/
def firstLine (headers : Bytes) : Bytes :=
  headers.take ((findSubsequence headers (asBytes "\r\n")).getD headers.length)

theorem slice_firstLine (headers : Bytes) :
    slice headers 0 (min ((findSubsequence headers (asBytes "\r\n")).getD headers.length)
      headers.length) = .ok (firstLine headers) := by
  rw [slice_zero (Nat.min_le_right _ _), firstLine, ← List.take_eq_take_min]

/-- What follows the first line, if anything does, begins with a carriage return. -/
theorem firstLine_split (headers : Bytes) :
    ∃ rest, headers = firstLine headers ++ rest ∧ ∀ b ∈ rest.head?, b = '\r'.toUInt8 := by
  refine ⟨headers.drop _, (List.take_append_drop _ _).symm, ?_⟩
  cases hf : findSubsequence headers (asBytes "\r\n") with
  | none =>
    rw [Option.getD_none, List.drop_length]
    nofun
  | some i =>
    have hcrlf := List.find?_some hf
    rw [beq_iff_eq] at hcrlf
    rw [Option.getD_some]
    cases hd : headers.drop i with
    | nil => nofun
    | cons b bs =>
      rw [hd] at hcrlf
      intro c hc
      obtain rfl := Option.some.inj hc
      exact (List.cons.inj hcrlf).1

theorem stripSuffix_eq_some (h : stripSuffix suffix line = some front) :
    line = front ++ suffix := by
  rw [stripSuffix] at h
  split at h
  · rename_i hs
    obtain ⟨rest, rfl⟩ := List.isSuffixOf_iff_suffix.1 hs
    cases h
    rw [List.length_append, Nat.add_sub_cancel, List.take_left]
  · cases h

theorem stripLineEnd_split (line : Bytes) :
    ∃ rest, line = stripLineEnd line ++ rest ∧
      ∀ b ∈ rest.head?, b = '\r'.toUInt8 ∨ b = newline := by
  rw [stripLineEnd]
  cases hcrlf : stripSuffix (asBytes "\r\n") line with
  | some front =>
    refine ⟨asBytes "\r\n", stripSuffix_eq_some hcrlf, fun b hb => ?_⟩
    exact .inl (Option.some.inj hb).symm
  | none =>
    cases hlf : stripSuffix (asBytes "\n") line with
    | some front =>
      refine ⟨asBytes "\n", stripSuffix_eq_some hlf, fun b hb => ?_⟩
      exact .inr (Option.some.inj hb).symm
    | none => exact ⟨[], (List.append_nil line).symm, nofun⟩

/-- What a request line of the connect form begins with. -/
def connectStart : String := "POST /connect "

theorem connectStart_begins (h : parseRequestLine line = .ok ⟨.post, "/connect"⟩) :
    asBytes connectStart <+: line := by
  obtain ⟨rest, hline, -⟩ := stripLineEnd_split line
  simp only [parseRequestLine] at h
  split at h
  · cases h
  · rename_i s hs
    split at h
    · rename_i method path third more hsplit
      have hchars : s.toList = method ++ ' ' :: (path ++ ' ' ::
          [' '].intercalate (third :: more)) := by
        have hjoin : [' '].intercalate (s.toList.splitOn ' ') = s.toList :=
          List.intercalate_splitOn ' '
        rw [← hjoin, hsplit,
          List.intercalate_cons_cons, List.intercalate_cons_cons, List.append_assoc,
          List.append_assoc, List.singleton_append, List.singleton_append]
      split at h
      · cases h
      · rename_i hpost
        have hpath : String.ofList path = "/connect" :=
          (RequestLine.mk.inj (Except.ok.inj h)).2
        have hmethod : method = "POST".toList := by rw [← hpost, String.toList_ofList]
        have hroute : path = "/connect".toList := by rw [← hpath, String.toList_ofList]
        have hstart : s.toList = connectStart.toList ++ [' '].intercalate (third :: more) := by
          rw [hchars, hmethod, hroute]
          rfl
        have hbytes : stripLineEnd line = asBytes s := fromUtf8_eq_some.1 hs
        rw [hline, hbytes, asBytes_eq_flatMap s, hstart, List.flatMap_append, ← asBytes_eq_flatMap,
          List.append_assoc]
        exact List.prefix_append _ _
      · cases h
    · cases h

theorem parseRequestLine_of_connectStart (h : asBytes connectStart <+: line) :
    parseRequestLine line = .ok ⟨.post, "/connect"⟩ ∨ ∃ e, parseRequestLine line = .error e := by
  obtain ⟨rest, hline, hhead⟩ := stripLineEnd_split line
  have hplain : ∀ b ∈ rest.head?, b ∉ asBytes connectStart := by
    intro b hb
    rcases hhead b hb with rfl | rfl
    · decide
    · decide
  rw [hline] at h
  have hstart := Delimited.prefix_of_prefix_append h hplain
  rw [parseRequestLine]
  split
  · exact .inr ⟨_, rfl⟩
  · rename_i s hs
    rw [fromUtf8_eq_some.1 hs] at hstart
    obtain ⟨tail, htail⟩ := toList_prefix hstart
    have hsplit : s.toList.splitOn ' ' =
        "POST".toList :: "/connect".toList :: tail.splitOn ' ' := by
      have hchars : s.toList = "POST".toList ++ ' ' :: ("/connect".toList ++ ' ' :: tail) := by
        rw [← htail]
        rfl
      rw [hchars, List.splitOn_append_cons_self_of_not_mem (by decide),
        List.splitOn_append_cons_self_of_not_mem (by decide)]
    obtain ⟨third, more, hmore⟩ := List.exists_cons_of_ne_nil (List.splitOn_ne_nil ' ' tail)
    rw [hmore] at hsplit
    rw [hsplit]
    exact .inl rfl

/-- The reader of headers takes a block that ends at its first empty line, up to the size of the
buffer. -/
theorem readHttpHeaders_block {buf xs : Bytes} (hb : buf.length ≤ size) (hx : xs ≠ [])
    (hend : asBytes "\r\n\r\n" <:+ buf ++ xs)
    (hfirst : ∀ n, buf.length < n → n < (buf ++ xs).length →
      ¬ asBytes "\r\n\r\n" <:+ (buf ++ xs).take n) (rest : Bytes) :
    readHttpHeaders size buf (xs ++ rest) = (buf ++ xs).take size := by
  induction xs generalizing buf with
  | nil => exact absurd rfl hx
  | cons b xs ih =>
    have hcons : buf ++ b :: xs = (buf ++ [b]) ++ xs := by simp
    have hlen : (buf ++ [b]).length = buf.length + 1 := List.length_append
    rw [List.cons_append, readHttpHeaders]
    split
    · simp only
      split
      · rename_i hroom hs
        cases xs with
        | nil => exact (List.take_of_length_le (by rw [hlen]; omega)).symm
        | cons c xs =>
          refine absurd (List.isSuffixOf_iff_suffix.1 hs) ?_
          have hn := hfirst (buf.length + 1) (Nat.lt_succ_self _) (by simp)
          rwa [hcons, ← hlen, List.take_left] at hn
      · rename_i hroom hs
        have hxs : xs ≠ [] := fun he => hs (List.isSuffixOf_iff_suffix.2 (he ▸ hend))
        rw [hcons] at hend hfirst ⊢
        exact ih (by omega) hxs hend fun n hn => hfirst n (by omega)
    · rename_i hroom
      have hsize : buf.length = size := by omega
      rw [← hsize, List.take_left]

/-- A header's value is a number, in decimal digits with some white space around them. -/
def Names (value : Bytes) (n : Nat) : Prop :=
  ∃ s, fromUtf8 value = some s ∧ trim s.toList ≠ [] ∧ (∀ c ∈ trim s.toList, c.isDigit) ∧
    Nat.ofDigitChars 10 (trim s.toList) 0 = n

/-- A request for `/connect`: a header block up to its first empty line, with the length of the
body. -/
structure ConnectRequest (headers body : Bytes) : Prop where
  complete : asBytes "\r\n\r\n" <:+ headers
  first : ∀ n < headers.length, ¬ asBytes "\r\n\r\n" <:+ headers.take n
  requestLine : parseRequestLine (firstLine headers) = .ok ⟨.post, "/connect"⟩
  length : ∃ value, extractHeader headers (asBytes "Content-Length") = .ok (some value) ∧
    Names value body.length

theorem ConnectRequest.headerBlock_eq (h : ConnectRequest headers body) :
    headerBlock (headers ++ body) = headers.take 512 := by
  obtain ⟨pre, hpre⟩ := h.complete
  have hne : headers ≠ [] := by
    rw [← hpre]
    exact List.append_ne_nil_of_right_ne_nil pre (by decide)
  have hbuf : ([] : Bytes).length ≤ 512 := Nat.zero_le _
  exact readHttpHeaders_block hbuf hne h.complete (fun n _ => h.first n) body

theorem contentLength_names (h : Names value n) :
    contentLength (some value) = min (if n < 4294967296 then n else 0) 256 := by
  obtain ⟨s, hs, hne, hdigits, rfl⟩ := h
  rw [contentLength, Option.bind_some, hs, Option.bind_some, parseUnsigned_digits hne hdigits]
  split <;> rfl

/-- An answer that turns a request down. -/
def HttpReply.Refuses (reply : HttpReply) : Prop :=
  reply = .badRequest ∨ reply = .redirect ∨ reply = .notFound ∨ reply = .missingFields

/-- Some bytes are the form of some credentials. -/
def AsksFor (bytes : Bytes) (creds : Credentials) : Prop :=
  ∃ text form, decodeUrlEncoded bytes = .ok (.ok text) ∧ parseConnectForm text = .ok form ∧
    form.copied = creds

/-- The answer is that to exactly the body as a form, or turns the request down. -/
def ParsesBody (headers body : Bytes) : Prop :=
  ∃ reply, handleHttpRequest (headers ++ body) = .ok (some reply) ∧
    (formReply body = .ok (some reply) ∨ reply.Refuses)

/-- The request is turned down for its first line or its host. -/
def TurnedDown (block : Bytes) : Prop :=
  (∃ e, parseRequestLine (firstLine block) = .error e) ∨
    ∃ host, extractHeader block (asBytes "Host") = .ok (some host) ∧
      apIpStr.isPrefixOf host = false

/-- What is kept as the body of a request: what follows the 512 bytes of the header buffer, up to
the length that is found in them. -/
def keptBody (headers body : Bytes) (named : Option Bytes) : Bytes :=
  (headers.drop 512 ++ body).take (contentLength named)

/-- The lookups in the header buffer end, and what is kept as the body is no form of credentials
that the body does not ask for. -/
def LossHarmless (headers body : Bytes) : Prop :=
  ∃ host named, extractHeader (headers.take 512) (asBytes "Host") = .ok host ∧
    extractHeader (headers.take 512) (asBytes "Content-Length") = .ok named ∧
    ∀ creds, AsksFor (keptBody headers body named) creds → AsksFor body creds

theorem formReply_cases (bytes : Bytes) :
    (∃ creds, formReply bytes = .ok (some creds.reply) ∧ AsksFor bytes creds) ∨
      formReply bytes = .ok (some .missingFields) ∧ ∀ creds, ¬ AsksFor bytes creds := by
  obtain ⟨r, hr, -⟩ := decodeUrlEncoded_yields bytes
  cases r with
  | error e =>
    refine .inr ⟨by simp only [formReply, hr, ok_bind, pure_eq], ?_⟩
    rintro creds ⟨text, form, hd, -, -⟩
    rw [hr] at hd
    cases hd
  | ok text =>
    cases hp : parseConnectForm text with
    | error e =>
      refine .inr ⟨by simp only [formReply, hr, ok_bind, hp, connectReply, pure_eq], ?_⟩
      rintro creds ⟨text', form, hd, hp', -⟩
      rw [hr] at hd
      cases hd
      rw [hp] at hp'
      cases hp'
    | ok form =>
      refine .inl ⟨form.copied, ?_, text, form, hr, hp, rfl⟩
      simp only [formReply, hr, ok_bind, hp, connectReply, pure_eq]
      rfl

theorem Credentials.reply_injective {creds creds' : Credentials} (h : creds.reply = creds'.reply) :
    creds = creds' := by
  obtain ⟨hssid, hpassword, hhost, hport⟩ := HttpReply.provision.inj h
  cases creds
  cases creds'
  subst hssid hpassword hhost hport
  rfl

/-- Credentials are taken from some bytes exactly if these are their form. -/
theorem formReply_asksFor (bytes : Bytes) (creds : Credentials) :
    formReply bytes = .ok (some creds.reply) ↔ AsksFor bytes creds := by
  rcases formReply_cases bytes with ⟨creds', hreply, hasks⟩ | ⟨hreply, hnone⟩
  · rw [hreply]
    constructor
    · intro h
      rw [← Credentials.reply_injective (Option.some.inj (Except.ok.inj h))]
      exact hasks
    · rintro ⟨text, form, hd, hp, rfl⟩
      obtain ⟨text', form', hd', hp', rfl⟩ := hasks
      rw [hd] at hd'
      cases hd'
      rw [hp] at hp'
      cases hp'
      rfl
  · rw [hreply]
    exact iff_of_false (fun h => by cases h) (hnone creds)

/-- The body is read from what is kept of it if that asks for nothing else. -/
theorem formReply_kept_iff (kept body : Bytes) :
    (∃ reply, formReply kept = .ok (some reply) ∧
        (formReply body = .ok (some reply) ∨ reply.Refuses)) ↔
      ∀ creds, AsksFor kept creds → AsksFor body creds := by
  rcases formReply_cases kept with ⟨creds, hreply, hasks⟩ | ⟨hreply, hnone⟩
  · constructor
    · rintro ⟨reply, hr, hcases⟩ creds' hasks'
      rw [(formReply_asksFor kept creds').2 hasks'] at hr
      cases hr
      rcases hcases with hbody | hrefuses
      · exact (formReply_asksFor body creds').1 hbody
      · rcases hrefuses with h | h | h | h <;> cases h
    · intro h
      exact ⟨_, hreply, .inl ((formReply_asksFor body creds).2 (h creds hasks))⟩
  · refine iff_of_true ⟨_, hreply, .inr (.inr (.inr (.inr rfl)))⟩ ?_
    exact fun creds hasks => absurd hasks (hnone creds)

/-- A request whose first line is good, up to the lookup of its host. -/
theorem handleHttpRequest_host (hne : headerBlock input ≠ [])
    (hline : parseRequestLine (firstLine (headerBlock input)) = .ok ⟨.post, "/connect"⟩) :
    (∀ p, extractHeader (headerBlock input) (asBytes "Host") = .error p →
      handleHttpRequest input = .error p) ∧
    ∀ host, extractHeader (headerBlock input) (asBytes "Host") = .ok host →
      (host.any (! apIpStr.isPrefixOf ·) = true →
        handleHttpRequest input = .ok (some .redirect)) ∧
      (host.any (! apIpStr.isPrefixOf ·) = false → ∀ p,
        extractHeader (headerBlock input) (asBytes "Content-Length") = .error p →
          handleHttpRequest input = .error p) := by
  refine ⟨fun p hp => ?_, fun host hhost => ⟨fun hap => ?_, fun hap p hp => ?_⟩⟩
  · simp only [handleHttpRequest, List.isEmpty_iff, hne, ↓reduceIte, slice_firstLine, ok_bind,
      hline, hp, error_bind]
  · simp only [handleHttpRequest, List.isEmpty_iff, hne, ↓reduceIte, slice_firstLine, ok_bind,
      hline, hhost, hap, pure_eq]
  · simp only [handleHttpRequest, List.isEmpty_iff, hne, ↓reduceIte, slice_firstLine, ok_bind,
      hline, hhost, hap, Bool.false_eq_true, hp, error_bind]

theorem handleHttpRequest_decodes (hne : headerBlock input ≠ [])
    (hline : parseRequestLine (firstLine (headerBlock input)) = .ok ⟨.post, "/connect"⟩)
    (hhost : extractHeader (headerBlock input) (asBytes "Host") = .ok host)
    (hap : host.any (! apIpStr.isPrefixOf ·) = false)
    (hlen : extractHeader (headerBlock input) (asBytes "Content-Length") = .ok named) :
    handleHttpRequest input =
      formReply ((input.drop (headerBlock input).length).take (contentLength named)) := by
  simp only [handleHttpRequest, List.isEmpty_iff, hne, ↓reduceIte, slice_firstLine, ok_bind, hline,
    hhost, hap, Bool.false_eq_true, hlen]
  rfl

theorem handleHttpRequest_badRequest (hne : headerBlock input ≠ [])
    (hline : parseRequestLine (firstLine (headerBlock input)) = .error e) :
    handleHttpRequest input = .ok (some .badRequest) := by
  simp only [handleHttpRequest, List.isEmpty_iff, hne, ↓reduceIte, slice_firstLine, ok_bind, hline,
    pure_eq]

/-- What is in the header buffer of a request for `/connect` still is one, or no request line. -/
theorem ConnectRequest.cut_requestLine (h : ConnectRequest headers body) :
    parseRequestLine (firstLine (headers.take 512)) = .ok ⟨.post, "/connect"⟩ ∨
      ∃ e, parseRequestLine (firstLine (headers.take 512)) = .error e := by
  by_cases hl : headers.length ≤ 512
  · rw [List.take_of_length_le hl]
    exact .inl h.requestLine
  · apply parseRequestLine_of_connectStart
    obtain ⟨rest, hsplit, hhead⟩ := firstLine_split (headers.take 512)
    have hstart : asBytes connectStart <+: headers :=
      (connectStart_begins h.requestLine).trans (List.take_prefix _ _)
    have hcut : asBytes connectStart <+: headers.take 512 := by
      refine List.prefix_of_prefix_length_le hstart (List.take_prefix _ _) ?_
      have hlen : (asBytes connectStart).length = 14 := rfl
      rw [hlen, List.length_take]
      omega
    rw [hsplit] at hcut
    refine Delimited.prefix_of_prefix_append hcut fun b hb => ?_
    rw [hhead b hb]
    decide

theorem ConnectRequest.ne_nil (h : ConnectRequest headers body) : headers ≠ [] := by
  obtain ⟨pre, rfl⟩ := h.complete
  exact List.append_ne_nil_of_right_ne_nil pre (by decide)

theorem ConnectRequest.hasBlankLine (h : ConnectRequest headers body) : HasBlankLine headers := by
  obtain ⟨pre, rfl⟩ := h.complete
  exact hasBlankLine_of_complete pre

theorem turnedDown_iff (hline : parseRequestLine (firstLine block) = .ok req)
    (hhost : extractHeader block (asBytes "Host") = .ok host) :
    TurnedDown block ↔ host.any (! apIpStr.isPrefixOf ·) = true := by
  rw [TurnedDown, hline, hhost]
  cases host with
  | none => simp
  | some host => simp

theorem ConnectRequest.headerBlock_ne (h : ConnectRequest headers body) :
    headerBlock (headers ++ body) ≠ [] := by
  rw [h.headerBlock_eq]
  exact fun he => h.ne_nil ((List.take_eq_nil_iff.1 he).resolve_left (by decide))

/-- Where the lookups end, the answer is that to what is kept of the body. -/
theorem ConnectRequest.handles_kept (h : ConnectRequest headers body)
    (hline : parseRequestLine (firstLine (headers.take 512)) = .ok ⟨.post, "/connect"⟩)
    (hhost : extractHeader (headers.take 512) (asBytes "Host") = .ok host)
    (hap : host.any (! apIpStr.isPrefixOf ·) = false)
    (hlen : extractHeader (headers.take 512) (asBytes "Content-Length") = .ok named) :
    handleHttpRequest (headers ++ body) = formReply (keptBody headers body named) := by
  have hdrop : (headers ++ body).drop (headers.take 512).length = headers.drop 512 ++ body := by
    rw [List.length_take]
    rcases Nat.le_total 512 headers.length with hl | hl
    · rw [Nat.min_eq_left hl, List.drop_append_of_le_length hl]
    · rw [Nat.min_eq_right hl, List.drop_left, List.drop_of_length_le hl, List.nil_append]
  rw [← h.headerBlock_eq] at hline hhost hlen
  rw [handleHttpRequest_decodes h.headerBlock_ne hline hhost hap hlen, h.headerBlock_eq, hdrop,
    keptBody]

/-- Buffers that hold the whole request keep the whole body. -/
theorem ConnectRequest.keptBody_eq (h : ConnectRequest headers body) (hl : headers.length ≤ 512)
    (hb : body.length ≤ 256)
    (hlen : extractHeader (headers.take 512) (asBytes "Content-Length") = .ok named) :
    keptBody headers body named = body := by
  obtain ⟨value, hvalue, hnames⟩ := h.length
  rw [List.take_of_length_le hl, hvalue] at hlen
  cases hlen
  rw [keptBody, contentLength_names hnames, List.drop_of_length_le hl, List.nil_append]
  apply List.take_of_length_le
  split <;> omega

theorem ConnectRequest.lossHarmless (h : ConnectRequest headers body) (hl : headers.length ≤ 512)
    (hb : body.length ≤ 256) : LossHarmless headers body := by
  have hends := fun name => extractHeader_returns.2 (h.hasBlankLine.headerStops name)
  obtain ⟨host, hhost⟩ := hends (asBytes "Host")
  obtain ⟨named, hlen⟩ := hends (asBytes "Content-Length")
  have hfits := List.take_of_length_le hl
  rw [← hfits] at hhost hlen
  refine ⟨host, named, hhost, hlen, fun creds hasks => ?_⟩
  rwa [h.keptBody_eq hl hb hlen] at hasks

/-- Exactly the body is parsed as the form, or an error is answered, where the request is turned
down or what is lost of it makes no difference. -/
theorem body_parsed_iff (headers body : Bytes) (h : ConnectRequest headers body) :
    ParsesBody headers body ↔ TurnedDown (headers.take 512) ∨ LossHarmless headers body := by
  have hblock := h.headerBlock_eq
  have hne := h.headerBlock_ne
  rcases h.cut_requestLine with hline | ⟨e, hline⟩
  · rw [← hblock] at hline
    obtain ⟨hpanic, hreply⟩ := handleHttpRequest_host hne hline
    rw [hblock] at hline hpanic hreply
    cases hhost : extractHeader (headers.take 512) (asBytes "Host") with
    | error p =>
      refine iff_of_false ?_ ?_
      · rintro ⟨reply, ht, -⟩
        rw [hpanic p hhost] at ht
        cases ht
      · rintro (ht | ⟨host, named, he, -, -⟩)
        · rcases ht with ⟨e, he⟩ | ⟨host, he, -⟩
          · rw [hline] at he
            cases he
          · rw [hhost] at he
            cases he
        · rw [hhost] at he
          cases he
    | ok host =>
      obtain ⟨hredirect, hpanic'⟩ := hreply host hhost
      rw [turnedDown_iff hline hhost]
      cases hap : host.any (! apIpStr.isPrefixOf ·) with
      | true => exact iff_of_true ⟨_, hredirect hap, .inr (.inr (.inl rfl))⟩ (.inl rfl)
      | false =>
        rw [or_iff_right Bool.false_ne_true]
        cases hlen : extractHeader (headers.take 512) (asBytes "Content-Length") with
        | error p =>
          refine iff_of_false ?_ ?_
          · rintro ⟨reply, ht, -⟩
            rw [hpanic' hap p hlen] at ht
            cases ht
          · rintro ⟨_, named, -, he, -⟩
            rw [hlen] at he
            cases he
        | ok named =>
          rw [ParsesBody, h.handles_kept hline hhost hap hlen, formReply_kept_iff]
          constructor
          · exact fun hkept => ⟨host, named, hhost, hlen, hkept⟩
          · rintro ⟨_, named', -, he, hkept⟩
            rw [hlen] at he
            cases he
            exact hkept
  · rw [← hblock] at hline
    have ht := handleHttpRequest_badRequest hne hline
    rw [hblock] at hline
    exact iff_of_true ⟨_, ht, .inr (.inl rfl)⟩ (.inl (.inl ⟨e, hline⟩))

def connectHeaders (length : String) : Bytes :=
  asBytes ("POST /connect HTTP/1.1\r\nContent-Length: " ++ length ++ "\r\n\r\n")

theorem twelve_request : ConnectRequest (connectHeaders "12") (asBytes "ssid=a&x=b+c") where
  complete := by decide +kernel
  first := by decide +kernel
  requestLine := by decide +kernel
  length := by
    refine ⟨asBytes "12", ?_, "12", fromUtf8_asBytes _, by decide,
      List.all_eq_true.1 (by decide), by decide⟩
    rw [extractHeader_eq]
    decide +kernel

theorem twelve_parsed : ParsesBody (connectHeaders "12") (asBytes "ssid=a&x=b+c") :=
  (body_parsed_iff _ _ twelve_request).2
    (.inr (twelve_request.lossHarmless (by decide +kernel) (by decide)))

/-- A form whose first field takes 236 bytes. -/
def escapedBody (password : String) : Bytes :=
  asBytes "x=" ++ ((List.replicate 78 (asBytes "%61")).flatten ++
    asBytes ("aa&ssid=a&password=" ++ password))

def escapedText (password : String) : String :=
  "x=" ++ String.ofList (List.replicate 80 'a') ++ "&ssid=a&password=" ++ password

theorem escaped_decodes (n : Nat) :
    Decodes (List.replicate n (asBytes "%61")).flatten (List.replicate n 'a'.toUInt8) := by
  induction n with
  | zero => exact .nil
  | succ n ih =>
    have hdigits : Token (asBytes "%61") 'a'.toUInt8 :=
      .percent (show hexNibble _ = .ok 6 from rfl) (show hexNibble _ = .ok 1 from rfl)
    rw [List.replicate_succ, List.replicate_succ, List.flatten_cons]
    exact .cons hdigits ih

def escapedForm (password : String) : ConnectForm := ⟨"a", password, "", 1883⟩

theorem escapedBody_asksFor
    (hplain : Plain (asBytes ("aa&ssid=a&password=" ++ password)))
    (htext : asBytes "x=" ++ (List.replicate 78 'a'.toUInt8 ++
      asBytes ("aa&ssid=a&password=" ++ password)) = asBytes (escapedText password))
    (hroom : (asBytes (escapedText password)).length ≤ 128)
    (hform : parseConnectForm (escapedText password) = .ok (escapedForm password)) :
    AsksFor (escapedBody password) (escapedForm password).copied := by
  have hfirst : Decodes (asBytes "x=") (asBytes "x=") := .plain (by decide)
  have hdecodes := hfirst.append ((escaped_decodes 78).append (.plain hplain))
  rw [htext] at hdecodes
  exact ⟨_, _, (decodeUrlEncoded_iff hdecodes).2 ⟨rfl, hroom⟩, hform, rfl⟩

theorem whole_asksFor : AsksFor (escapedBody "bc") (escapedForm "bc").copied :=
  escapedBody_asksFor (by decide) (by decide +kernel) (by decide +kernel) (by decide +kernel)

theorem cut_asksFor : AsksFor (escapedBody "b") (escapedForm "b").copied :=
  escapedBody_asksFor (by decide) (by decide +kernel) (by decide +kernel) (by decide +kernel)

theorem connectHeaders_length : extractHeader (connectHeaders "257") (asBytes "Content-Length") =
    .ok (some (asBytes "257")) := by
  rw [extractHeader_eq]
  decide +kernel

theorem long_request : ConnectRequest (connectHeaders "257") (escapedBody "bc") where
  complete := by decide +kernel
  first := by decide +kernel
  requestLine := by decide +kernel
  length := by
    refine ⟨_, connectHeaders_length, "257", fromUtf8_asBytes _, by decide,
      List.all_eq_true.1 (by decide), ?_⟩
    decide +kernel

/-- The last byte of the password is lost. -/
theorem long_body_cut : ConnectRequest (connectHeaders "257") (escapedBody "bc") ∧
    handleHttpRequest (connectHeaders "257" ++ escapedBody "bc") =
      .ok (some (escapedForm "b").copied.reply) ∧
    ¬ ParsesBody (connectHeaders "257") (escapedBody "bc") := by
  have hfits : (connectHeaders "257").take 512 = connectHeaders "257" :=
    List.take_of_length_le (by decide +kernel)
  have hhost : extractHeader (connectHeaders "257") (asBytes "Host") = .ok none := by
    rw [extractHeader_eq]
    decide +kernel
  have hline := long_request.requestLine
  have hlen := connectHeaders_length
  rw [← hfits] at hline hhost hlen
  have hkept : keptBody (connectHeaders "257") (escapedBody "bc") (some (asBytes "257")) =
      escapedBody "b" := by
    decide +kernel
  have hreply := long_request.handles_kept hline hhost rfl hlen
  rw [hkept, (formReply_asksFor _ _).2 cut_asksFor] at hreply
  refine ⟨long_request, hreply, ?_⟩
  rintro ⟨reply, hr, hcases⟩
  rw [hreply] at hr
  cases hr
  rcases hcases with hbody | hrefuses
  · rw [(formReply_asksFor _ _).2 whole_asksFor] at hbody
    have hpassword := congrArg Credentials.password
      (Credentials.reply_injective (Option.some.inj (Except.ok.inj hbody)))
    exact absurd hpassword (by decide)
  · rcases hrefuses with h | h | h | h <;> cases h

end PicoConduit
