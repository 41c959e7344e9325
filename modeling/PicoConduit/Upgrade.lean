import PicoConduit.AcceptKey
import PicoConduit.Conversation
import PicoConduit.Headers
import PicoConduit.RequestBody

namespace PicoConduit

open Checked Heapless Utf8

set_option autoImplicit true

/-- `read_http_headers` on a socket, with so much room left in its buffer. -/
def socketHeaders : Nat → Bytes → Socket → Bytes × Socket
  | 0, buf, s => (buf, s)
  | room + 1, buf, s =>
    match s.read 1 with
    | (.ok (b :: _), s) =>
      let buf := buf ++ [b]
      if (asBytes "\r\n\r\n").isSuffixOf buf then (buf, s) else socketHeaders room buf s
    | (_, s) => (buf, s)

/-- `ws_handshake` on a socket. -/
def wsUpgrade (s : Socket) : Exec (Except TransportError Unit × Socket) :=
  let (headers, s) := socketHeaders 512 [] s
  do
    match ← wsHandshake headers with
    | .error e => pure (.error e, s)
    | .ok response =>
      match s.writeAll response with
      | (.error (), s) => pure (.error .disconnected, s)
      | (.ok (), s) => pure (.ok (), s)

/-- However the bytes arrive, those that are read are the header block. -/
theorem socketHeaders_steady (hs : Socket.Steady s) (buf : Bytes)
    (hroom : buf.length + room = size) :
    ∃ s', socketHeaders room buf s = (readHttpHeaders size buf s.incoming, s') ∧ s'.Steady ∧
      s'.written = s.written ∧
      buf ++ s.incoming = readHttpHeaders size buf s.incoming ++ s'.incoming := by
  induction room generalizing buf s with
  | zero =>
    refine ⟨s, ?_, hs, rfl, ?_⟩
    · cases hin : s.incoming with
      | nil => rfl
      | cons b rest => rw [socketHeaders, readHttpHeaders, if_neg (by omega)]
    · cases hin : s.incoming with
      | nil => rfl
      | cons b rest => rw [readHttpHeaders, if_neg (by omega)]
  | succ room ih =>
    cases hin : s.incoming with
    | nil =>
      obtain ⟨bytes, s', hread, hd, -, -⟩ := hs.read Nat.one_pos
      have hnone : bytes = [] ∧ s'.incoming = [] := List.append_eq_nil_iff.1
        (hd.incoming.symm.trans hin)
      obtain ⟨rfl, hin'⟩ := hnone
      refine ⟨s', ?_, hd.steady, hd.written, ?_⟩
      · rw [socketHeaders, hread, readHttpHeaders]
      · rw [readHttpHeaders, hin']
    | cons b rest =>
      obtain ⟨s₁, hread, hs₁, hin₁, hw₁⟩ := hs.read_one hin
      have hstep : socketHeaders (room + 1) buf s =
          if (asBytes "\r\n\r\n").isSuffixOf (buf ++ [b]) then (buf ++ [b], s₁)
          else socketHeaders room (buf ++ [b]) s₁ := by rw [socketHeaders, hread]
      rw [hstep, readHttpHeaders, if_pos (show buf.length < size by omega)]
      by_cases hend : (asBytes "\r\n\r\n").isSuffixOf (buf ++ [b]) = true
      · rw [if_pos hend, if_pos hend]
        exact ⟨s₁, rfl, hs₁, hw₁, by rw [hin₁, List.append_assoc]; rfl⟩
      · have hlen : (buf ++ [b]).length + room = size := by
          rw [List.length_append, List.length_singleton]
          omega
        obtain ⟨s', hrest, hs', hw', hin'⟩ := ih hs₁ (buf ++ [b]) hlen
        rw [hin₁] at hrest hin'
        rw [if_neg hend, if_neg hend]
        exact ⟨s', hrest, hs', hw'.trans hw₁, by rw [← hin', List.append_assoc]; rfl⟩

/-- The empty line of a rendered request is its last. -/
theorem blank_line_last (hline : newline ∉ requestLine) (headers : List Header)
    (he : renderRequest requestLine headers = front ++ back)
    (hfront : asBytes "\r\n\r\n" <:+ front) : back = [] := by
  obtain ⟨pre, rfl⟩ := hfront
  have hlines : (renderHeaders headers).splitOn newline =
      (headers.map fun h => h.line ++ [carriageReturn]) ++ [[carriageReturn], []] := by
    clear he
    induction headers with
    | nil => decide
    | cons h headers ih =>
      rw [renderHeaders_cons, splitOn_line h.line_plain, ih]
      rfl
  have hcut : pre ++ asBytes "\r\n\r\n" ++ back =
      (pre ++ [carriageReturn]) ++ newline :: ([carriageReturn] ++ newline :: back) := by
    rw [show asBytes "\r\n\r\n" = [carriageReturn, newline, carriageReturn, newline] by decide]
    simp only [List.append_assoc, List.cons_append, List.nil_append]
  have hsplit := congrArg (List.splitOn newline) he
  have hplain : newline ∉ [carriageReturn] := by decide
  rw [renderRequest, splitOn_line hline, hlines, hcut, List.splitOn_append_cons_self,
    List.splitOn_append_cons_self_of_not_mem hplain] at hsplit
  obtain ⟨first, before, hbefore⟩ :=
    List.exists_cons_of_ne_nil (List.splitOn_ne_nil newline (pre ++ [carriageReturn]))
  rw [hbefore, List.cons_append, List.cons.injEq] at hsplit
  have hfree : [carriageReturn] ∉ headers.map fun h => h.line ++ [carriageReturn] := by
    intro hmem
    obtain ⟨h, -, heq⟩ := List.mem_map.1 hmem
    exact h.line_ne (List.append_left_eq_self.1 heq)
  have hback : back.splitOn newline = [[]] := by
    rcases List.append_eq_append_iff.1 hsplit.2 with ⟨z, -, hz⟩ | ⟨z, hmap, hz⟩
    · cases z with
      | nil => exact (List.cons.inj hz).2.symm
      | cons y z =>
        have hlen := congrArg List.length hz
        have hpos := List.length_pos_iff.2 (List.splitOn_ne_nil newline back)
        simp only [List.length_cons, List.length_nil, List.length_append] at hlen
        omega
    · cases z with
      | nil => exact (List.cons.inj hz).2
      | cons y z =>
        rw [List.cons_append, List.cons.injEq] at hz
        exact absurd (hmap ▸ List.mem_append_right _ (hz.1 ▸ List.mem_cons_self)) hfree
  have hjoin : [newline].intercalate (back.splitOn newline) = back :=
    List.intercalate_splitOn newline
  rw [hback] at hjoin
  exact hjoin.symm

theorem rendered_ends (requestLine : Bytes) (headers : List Header) :
    asBytes "\r\n\r\n" <:+ renderRequest requestLine headers := by
  have htwice : asBytes "\r\n\r\n" = asBytes "\r\n" ++ asBytes "\r\n" := by decide
  rw [renderRequest, renderHeaders, htwice]
  rcases List.eq_nil_or_concat headers with rfl | ⟨headers, h, rfl⟩
  · exact ⟨requestLine, by simp only [List.flatMap_nil, List.nil_append, List.append_assoc]⟩
  · refine ⟨requestLine ++ asBytes "\r\n" ++
      headers.flatMap (fun h => h.line ++ asBytes "\r\n") ++ h.line, ?_⟩
    simp only [List.concat_eq_append, List.flatMap_append, List.flatMap_cons, List.flatMap_nil,
      List.append_nil, List.append_assoc]

theorem rendered_not_empty (requestLine : Bytes) (headers : List Header) :
    (renderRequest requestLine headers).isEmpty = false := by
  rw [List.isEmpty_eq_false_iff]
  intro h
  exact absurd (List.suffix_nil.1 (h ▸ rendered_ends requestLine headers)) (by decide)

/-- A rendered request that fits is read as a whole, and nothing after it. -/
theorem headerBlock_rendered (hline : newline ∉ requestLine) (headers : List Header)
    (hsize : (renderRequest requestLine headers).length ≤ 512) (rest : Bytes) :
    headerBlock (renderRequest requestLine headers ++ rest) =
      renderRequest requestLine headers := by
  have hend : asBytes "\r\n\r\n" <:+ [] ++ renderRequest requestLine headers :=
    rendered_ends requestLine headers
  have hne : renderRequest requestLine headers ≠ [] :=
    List.isEmpty_eq_false_iff.1 (rendered_not_empty requestLine headers)
  have hblock := readHttpHeaders_block (Nat.zero_le 512) hne hend ?_ rest
  · rwa [List.nil_append, List.take_of_length_le hsize] at hblock
  · intro n _ hn hsuffix
    rw [List.nil_append] at hn hsuffix
    have hback := blank_line_last hline headers (List.take_append_drop n _).symm hsuffix
    rw [List.drop_eq_nil_iff] at hback
    omega

/-- A request asks for a WebSocket, with some key. -/
def AsksUpgrade (headers : List Header) (key : Bytes) : Prop :=
  (∃ v, headerNamed (asBytes "Upgrade") headers = some v ∧
    eqIgnoreAsciiCase v (asBytes "websocket") = true) ∧
  headerNamed (asBytes "Sec-WebSocket-Key") headers = some key

/-- What the server proves that it has read: the digest of the key without one space at its end. -/
def acceptText (key : Bytes) : Bytes :=
  encodedText (Rfc3174.sha1 (((stripSuffix (asBytes " ") key).getD key).take 64 ++ wsGuid))

def upgradeResponse (key : Bytes) : Bytes :=
  [asBytes "HTTP/1.1 101 Switching Protocols\r\n", asBytes "Upgrade: websocket\r\n",
    asBytes "Connection: Upgrade\r\n", asBytes "Sec-WebSocket-Accept: ", acceptText key,
    asBytes "\r\n\r\n"].flatten

theorem computeAcceptKey_take (key out : Bytes) :
    computeAcceptKey key out = computeAcceptKey (key.take 64) out := by
  have hmin : min (key.take 64).length 64 = min key.length 64 := by
    rw [List.length_take]
    omega
  have hslice : slice (key.take 64) 0 (min key.length 64) = slice key 0 (min key.length 64) := by
    rw [slice_zero (by rw [List.length_take]; omega), slice_zero (Nat.min_le_left _ _),
      List.take_take, Nat.min_eq_left (Nat.min_le_right _ _)]
  rw [computeAcceptKey, computeAcceptKey, hmin, hslice]

theorem headerNamed_plain (h : headerNamed name headers = some v) : carriageReturn ∉ v := by
  obtain ⟨header, -, rfl⟩ := Option.map_eq_some_iff.1 h
  exact header.value_plain.1

theorem stripCr_plain (h : carriageReturn ∉ line) : stripCr line = line := by
  rw [stripCr, stripSuffix, if_neg, Option.getD_none]
  intro hs
  exact h ((List.isSuffixOf_iff_suffix.1 hs).subset List.mem_cons_self)

theorem acceptText_computed (key : Bytes) : ∃ out,
    computeAcceptKey ((stripSuffix (asBytes " ") key).getD key) (List.replicate 28 0) =
      .ok (28, out) ∧ slice out 0 28 = .ok (acceptText key) := by
  have hlen := computeAcceptKey_yields ((stripSuffix (asBytes " ") key).getD key)
    (List.length_replicate (n := 28) (a := (0 : UInt8)))
  have hkey := List.length_take_le 64 ((stripSuffix (asBytes " ") key).getD key)
  have hroom : 28 ≤ (List.replicate 28 (0 : UInt8)).length :=
    Nat.le_of_eq List.length_replicate.symm
  obtain ⟨out, hcompute, htext⟩ := computeAcceptKey_digest hkey hroom
  rw [← computeAcceptKey_take] at hcompute
  obtain ⟨_, h, -, hout⟩ := hlen
  cases h.symm.trans hcompute
  exact ⟨out, hcompute, by rw [slice_zero (Nat.le_of_eq hout.symm), htext, acceptText]⟩

theorem foldl_pushBytes (parts : List Bytes) (buf : Bytes)
    (h : (buf ++ parts.flatten).length ≤ size) :
    parts.foldl (pushBytes size) buf = buf ++ parts.flatten := by
  induction parts generalizing buf with
  | nil => exact (List.append_nil buf).symm
  | cons part parts ih =>
    rw [List.flatten_cons, ← List.append_assoc] at h ⊢
    have hroom : part.length ≤ size - buf.length := by
      simp only [List.length_append] at h
      omega
    rw [List.foldl_cons, pushBytes, List.take_of_length_le hroom]
    exact ih _ h

theorem upgradeResponse_length (key : Bytes) : ([] ++ upgradeResponse key).length ≤ 160 := by
  have haccept : (acceptText key).length ≤ 28 := by
    obtain ⟨out, -, hslice⟩ := acceptText_computed key
    exact Nat.le_of_eq (length_slice hslice)
  have hlengths : (asBytes "HTTP/1.1 101 Switching Protocols\r\n").length = 34 ∧
      (asBytes "Upgrade: websocket\r\n").length = 20 ∧
      (asBytes "Connection: Upgrade\r\n").length = 21 ∧
      (asBytes "Sec-WebSocket-Accept: ").length = 22 ∧ (asBytes "\r\n\r\n").length = 4 := by
    decide
  simp only [upgradeResponse, List.nil_append, List.flatten_cons, List.flatten_nil,
    List.length_append, List.length_nil, hlengths]
  omega

theorem wsHandshake_accepts (hline : newline ∉ requestLine)
    (hsize : (renderRequest requestLine headers).length ≤ 512) (hasks : AsksUpgrade headers key) :
    wsHandshake (renderRequest requestLine headers) = .ok (.ok (upgradeResponse key)) := by
  obtain ⟨⟨v, hv, hws⟩, hkey⟩ := hasks
  have hblock := headerBlock_rendered hline headers hsize []
  rw [List.append_nil] at hblock
  have hne : (renderRequest requestLine headers).isEmpty = false := rendered_not_empty _ _
  have hup : extractHeader (renderRequest requestLine headers) (asBytes "Upgrade") =
      .ok (some v) := by rw [header_lookup requestLine headers _ hline (by decide), hv]
  have hlookup : extractHeader (renderRequest requestLine headers) (asBytes "Sec-WebSocket-Key") =
      .ok (some key) := by rw [header_lookup requestLine headers _ hline (by decide), hkey]
  obtain ⟨accept, hcompute, haccept⟩ := acceptText_computed key
  simp only [wsHandshake, hblock, hne, hup, hlookup, ok_bind, Bool.false_eq_true, ↓reduceIte,
    Option.any_some, hws, not_true_eq_false, stripCr_plain (headerNamed_plain hkey), hcompute,
    haccept, pure_eq, foldl_pushBytes _ [] (upgradeResponse_length key)]
  rfl

theorem wsHandshake_refuses (hline : newline ∉ requestLine)
    (hsize : (renderRequest requestLine headers).length ≤ 512)
    (hasks : ∀ key, ¬ AsksUpgrade headers key) :
    wsHandshake (renderRequest requestLine headers) =
      .ok (.error (.protocol .websocketHandshake)) := by
  have hblock := headerBlock_rendered hline headers hsize []
  rw [List.append_nil] at hblock
  have hne : (renderRequest requestLine headers).isEmpty = false := rendered_not_empty _ _
  have hup := header_lookup requestLine headers (asBytes "Upgrade") hline (by decide)
  have hlookup := header_lookup requestLine headers (asBytes "Sec-WebSocket-Key") hline (by decide)
  simp only [wsHandshake, hblock, hne, hup, ok_bind, Bool.false_eq_true, ↓reduceIte]
  by_cases hws : (headerNamed (asBytes "Upgrade") headers).any
      (eqIgnoreAsciiCase · (asBytes "websocket")) = true
  · have hnone : headerNamed (asBytes "Sec-WebSocket-Key") headers = none := by
      obtain ⟨v, hv, hv'⟩ := (Option.any_eq_true _ _).1 hws
      cases hkey : headerNamed (asBytes "Sec-WebSocket-Key") headers with
      | none => rfl
      | some key => exact absurd ⟨⟨v, hv, hv'⟩, hkey⟩ (hasks key)
    simp only [hws, not_true_eq_false, ↓reduceIte, hlookup, hnone, ok_bind, pure_eq]
  · rw [Bool.not_eq_true] at hws
    simp only [hws, Bool.false_eq_true, not_false_eq_true, ↓reduceIte, pure_eq]

/-- A request for a WebSocket is answered with the digest of its key, and from there the server
writes the frames of the transcript; a request that does not ask for one ends the connection. The
frames need not wait for the answer, and all of it may arrive in any pieces. -/
theorem websocket_session (lib : JsonLibrary) (buf : Vector UInt8 maxMsgLen) (ssid : HString 32)
    (ip : HString 16) (requestLine : Bytes) (headers : List Header) (frames : List WsFrame)
    (pieces : List Nat) (turns : Nat) (hline : newline ∉ requestLine)
    (hsize : (renderRequest requestLine headers).length ≤ 512)
    (hturns : (texts frames).length < turns) :
    (∀ key, AsksUpgrade headers key →
      ∃ t, wsUpgrade (wsStart (renderRequest requestLine headers ++ stream frames) pieces) =
          .ok (.ok (), t) ∧
        Ends (fun t said => t.written.flatten = upgradeResponse key ++ stream said)
          (handleClient lib (ws buf) turns (clientState ssid ip) t)
          (transcript lib (clientState ssid ip) frames)) ∧
    ((∀ key, ¬ AsksUpgrade headers key) →
      ∃ t, wsUpgrade (wsStart (renderRequest requestLine headers ++ stream frames) pieces) =
          .ok (.error (.protocol .websocketHandshake), t) ∧ t.written = []) := by
  have hstart := steady_pieces (renderRequest requestLine headers ++ stream frames) pieces []
  have hroom : ([] : Bytes).length + 512 = 512 := rfl
  obtain ⟨t, hread, ht, hw, hin⟩ := socketHeaders_steady hstart [] hroom
  have hblock := headerBlock_rendered hline headers hsize (stream frames)
  rw [headerBlock] at hblock
  simp only [hblock, List.nil_append, List.append_cancel_left_eq] at hread hin
  constructor
  · intro key hasks
    refine ⟨{ t with written := [upgradeResponse key] }, ?_, ?_⟩
    · simp only [wsUpgrade, wsStart, hread, wsHandshake_accepts hline hsize hasks, ok_bind,
        Socket.writeAll, ht.isOpen, hw, Bool.false_eq_true, ↓reduceIte, List.nil_append, pure_eq]
    · have h := ws_transcribes lib buf frames (s := clientState ssid ip)
        (t := { t with written := [upgradeResponse key] }) ⟨ht.isOpen, ht.pieces⟩ hin.symm rfl
        hturns
      have hsince : WroteSince { t with written := [upgradeResponse key] } =
          fun t said => t.written.flatten = upgradeResponse key ++ stream said := by
        funext t said
        rw [WroteSince, List.flatten_singleton]
      rwa [hsince] at h
  · intro hasks
    refine ⟨t, ?_, hw⟩
    simp only [wsUpgrade, wsStart, hread, wsHandshake_refuses hline hsize hasks, ok_bind, pure_eq]

def upgradeHeader : Header where
  name := asBytes "upgrade"
  value := asBytes "WebSocket"
  name_ne := by decide
  name_plain := by decide
  value_ne := by decide
  value_plain := by decide

def keyHeader : Header where
  name := asBytes "Sec-WebSocket-Key"
  value := asBytes "dGhlIHNhbXBsZSBub25jZQ=="
  name_ne := by decide
  name_plain := by decide
  value_ne := by decide
  value_plain := by decide

/-- A client that sends a ping and a reboot command with its request. -/
theorem ping_session : ∃ t, wsUpgrade (wsStart (renderRequest (asBytes "GET / HTTP/1.1")
      [hostHeader, upgradeHeader, keyHeader] ++ stream [pingFrame, rebootTextFrame]) [7, 1]) =
        .ok (.ok (), t) ∧
    Ends (fun t said => t.written.flatten =
        upgradeResponse (asBytes "dGhlIHNhbXBsZSBub25jZQ==") ++ stream said)
      (handleClient rebootLibrary (ws (.replicate maxMsgLen 0)) 2 (clientState .empty .empty) t)
      (transcript rebootLibrary (clientState .empty .empty) [pingFrame, rebootTextFrame]) :=
  (websocket_session rebootLibrary (.replicate maxMsgLen 0) .empty .empty
    (asBytes "GET / HTTP/1.1") [hostHeader, upgradeHeader, keyHeader] [pingFrame, rebootTextFrame]
    [7, 1] 2 (by decide) (by decide) (by decide)).1 _
      ⟨⟨asBytes "WebSocket", by decide, by decide⟩, by decide⟩

end PicoConduit
