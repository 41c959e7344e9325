import PicoConduit.FrameReader
import PicoConduit.Socket

namespace PicoConduit
open Checked Utf8
set_option autoImplicit true

/-- A TCP connection with the reader of its lines. -/
structure TcpTransport where
  socket : Socket
  reader : FrameReader
  deriving DecidableEq

/-- One turn of the loop of `TcpTransport::read_frame`: a byte is read and pushed. -/
def tcpTurn (buf : Vector UInt8 maxMsgLen) (t : TcpTransport) :
    Exec (Except TransportError (Option Bytes) × TcpTransport) :=
  match t.socket.read 1 with
  | (.error .timeout, s) => pure (.error .timeout, { t with socket := s.abort })
  | (.error .failed, s) => pure (.error .disconnected, { t with socket := s.abort })
  | (.ok [], s) => pure (.error .disconnected, { t with socket := s.abort })
  | (.ok (byte :: _), s) => do
    match ← t.reader.push byte with
    | (.error code, reader) => pure (.error (.protocol code), ⟨s, reader.reset⟩)
    | (.ok none, reader) => pure (.ok none, ⟨s, reader⟩)
    | (.ok (some frame), reader) => do
      let out ← copy buf.toList 0 frame.length frame
      let frame ← slice out 0 frame.length
      pure (.ok (some frame), ⟨s, reader⟩)

/-- `TcpTransport::write_frame`. -/
def tcpWriteFrame (data : Bytes) (t : TcpTransport) :
    Except TransportError Unit × TcpTransport :=
  match t.socket.writeAll data with
  | (.error (), s) => (.error .disconnected, { t with socket := s.abort })
  | (.ok (), s) => (.ok (), { t with socket := s })

theorem tcpTurn_shorter (h : tcpTurn buf t = .ok (.ok none, t')) :
    t'.socket.incoming.length < t.socket.incoming.length := by
  simp only [tcpTurn] at h
  split at h
  · cases h
  · cases h
  · cases h
  · rename_i byte bs s hread
    obtain ⟨hin, -⟩ := Socket.read_eq_ok hread Nat.one_pos
    have hlen := congrArg List.length hin
    simp only [List.length_append, List.length_cons] at hlen
    obtain ⟨x, -, hx⟩ := bind_eq_ok.1 h
    split at hx
    · cases hx
    · cases hx
      simp only
      omega
    · obtain ⟨out, -, hx⟩ := bind_eq_ok.1 hx
      obtain ⟨frame, -, hx⟩ := bind_eq_ok.1 hx
      cases hx

/-- `TcpTransport::read_frame`, with the frame buffer of the caller. -/
def tcpReadFrame (buf : Vector UInt8 maxMsgLen) :
    TcpTransport → Exec (Except TransportError Bytes × TcpTransport) :=
  untilFrame (tcpTurn buf) (·.socket.incoming.length) fun _ _ => tcpTurn_shorter

theorem push_yields (h : FrameReader.pos r ≤ maxMsgLen - 1) (byte : UInt8) :
    Yields (r.push byte) fun x => x.2.pos ≤ maxMsgLen - 1 ∧
      ∀ frame, x.1 = .ok (some frame) → frame.length ≤ maxMsgLen - 1 := by
  simp only [FrameReader.push]
  apply Yields.ite
  · intro _
    apply Yields.ite
    · intro _
      exact .ok ⟨Nat.zero_le _, fun frame hf => by cases hf⟩
    · intro _
      refine (slice_yields (Nat.zero_le _) (by rw [Vector.length_toList]; omega)).bind ?_
      intro frame hlen
      refine .ok ⟨Nat.zero_le _, fun frame' hf => ?_⟩
      cases hf
      omega
  · intro _
    apply Yields.ite
    · intro _
      exact .ok ⟨h, fun frame hf => by cases hf⟩
    · intro hfull
      refine (setArray_yields (by omega) byte).bind fun buf _ => ?_
      exact .ok ⟨by simp only; omega, fun frame hf => by cases hf⟩

/-- A frame that fits goes through the frame buffer unchanged. -/
theorem copy_out (buf : Vector UInt8 maxMsgLen) (h : List.length frame ≤ maxMsgLen) :
    ∃ out, copy buf.toList 0 frame.length frame = .ok out ∧
      slice out 0 frame.length = .ok frame := by
  refine ⟨_, copy_of_le (Nat.zero_le _) (by rwa [Vector.length_toList]) rfl, ?_⟩
  have hs := slice_append [] frame (buf.toList.drop frame.length)
  rwa [List.length_nil, Nat.zero_add] at hs

theorem tcpTurn_yields (buf : Vector UInt8 maxMsgLen) (t : TcpTransport)
    (h : t.reader.pos ≤ maxMsgLen - 1) :
    Yields (tcpTurn buf t) fun x => x.2.reader.pos ≤ maxMsgLen - 1 := by
  simp only [tcpTurn]
  split
  · exact .ok h
  · exact .ok h
  · exact .ok h
  · rename_i byte bs s hread
    refine (push_yields h byte).bind fun x hx => ?_
    obtain ⟨hpos, hframe⟩ := hx
    split
    · exact .ok (Nat.zero_le _)
    · exact .ok hpos
    · rename_i frame reader
      have hlen := hframe frame rfl
      have hfits : frame.length ≤ maxMsgLen := by omega
      obtain ⟨out, hcopy, hslice⟩ := copy_out buf hfits
      simp only [hcopy, hslice, ok_bind]
      exact .ok hpos

/-- A TCP transport whose reader is inside its buffer. -/
structure TcpConnection extends TcpTransport where
  bounded : reader.pos ≤ maxMsgLen - 1
  deriving DecidableEq

theorem tcpReadFrame_yields (buf : Vector UInt8 maxMsgLen) (t : TcpConnection) :
    Yields (tcpReadFrame buf t.toTcpTransport) fun x => x.2.reader.pos ≤ maxMsgLen - 1 :=
  untilFrame_yields _ (tcpTurn_yields buf) t.bounded

theorem tcpWriteFrame_reader (data : Bytes) (t : TcpTransport) :
    (tcpWriteFrame data t).2.reader = t.reader := by
  simp only [tcpWriteFrame]
  split <;> rfl

/-- The TCP transport with a frame buffer, as `handle_client` uses it. -/
def tcp (buf : Vector UInt8 maxMsgLen) : Transport TcpConnection where
  readFrame t :=
    let h := tcpReadFrame_yields buf t
    (h.get.1, ⟨h.get.2, h.get_spec⟩)
  writeFrame data t :=
    ((tcpWriteFrame data t.toTcpTransport).1, ⟨(tcpWriteFrame data t.toTcpTransport).2,
      tcpWriteFrame_reader data t.toTcpTransport ▸ t.bounded⟩)

/-- A connection as it is accepted. -/
def TcpConnection.accepted (s : Socket) : TcpConnection := ⟨⟨s, .new⟩, Nat.zero_le _⟩

/-- The transport has read some of a line, and the rest of the stream is still to come. -/
structure TcpTransport.At (t : TcpTransport) (line rest : Bytes) (w : List Bytes) : Prop where
  steady : t.socket.Steady
  holds : Holds line t.reader
  incoming : t.socket.incoming = rest
  written : t.socket.written = w

/-- What `read_frame` returns for a line. -/
def lineResult (line : Bytes) : Except TransportError Bytes :=
  if line.length ≤ maxMsgLen - 1 then .ok line else .error (.protocol .msgTooLarge)

theorem tcpTurn_byte (buf : Vector UInt8 maxMsgLen)
    (h : TcpTransport.At t line (byte :: rest) w) (hb : byte ≠ newline) :
    ∃ t', tcpTurn buf t = .ok (.ok none, t') ∧ t'.At (line ++ [byte]) rest w := by
  obtain ⟨s, hread, hs, hin, hw⟩ := h.steady.read_one h.incoming
  obtain ⟨reader, hp, hh⟩ := h.holds.push_byte hb
  refine ⟨⟨s, reader⟩, ?_, hs, hh, hin, hw.trans h.written⟩
  simp only [tcpTurn, hread, hp, ok_bind, pure_eq]

theorem tcpTurn_newline (buf : Vector UInt8 maxMsgLen)
    (h : TcpTransport.At t line (newline :: rest) w) :
    ∃ t', tcpTurn buf t = .ok ((lineResult line).map some, t') ∧ t'.At [] rest w := by
  obtain ⟨s, hread, hs, hin, hw⟩ := h.steady.read_one h.incoming
  obtain ⟨reader, hp, hh⟩ := h.holds.push_newline
  rw [lineFrame] at hp
  by_cases hl : line.length ≤ maxMsgLen - 1
  · rw [if_pos hl] at hp
    refine ⟨⟨s, reader⟩, ?_, hs, hh, hin, hw.trans h.written⟩
    have hfits : line.length ≤ maxMsgLen := by omega
    obtain ⟨out, hcopy, hslice⟩ := copy_out buf hfits
    simp only [tcpTurn, hread, hp, hcopy, hslice, ok_bind, pure_eq, lineResult, if_pos hl]
    rfl
  · rw [if_neg hl] at hp
    refine ⟨⟨s, reader.reset⟩, ?_, hs, holds_nil rfl rfl, hin, hw.trans h.written⟩
    simp only [tcpTurn, hread, hp, ok_bind, pure_eq, lineResult, if_neg hl]
    rfl

/-- A line is read to its end, whatever has been read of it. -/
theorem tcpReadFrame_line (buf : Vector UInt8 maxMsgLen)
    (h : TcpTransport.At t pre (line ++ newline :: rest) w) (hn : newline ∉ line) :
    ∃ t', tcpReadFrame buf t = .ok (lineResult (pre ++ line), t') ∧ t'.At [] rest w := by
  induction line generalizing t pre with
  | nil =>
    obtain ⟨t', ht, hat⟩ := tcpTurn_newline buf h
    refine ⟨t', ?_, hat⟩
    rw [List.append_nil]
    cases hr : lineResult pre with
    | error e =>
      rw [hr] at ht
      exact untilFrame_error ht
    | ok frame =>
      rw [hr] at ht
      exact untilFrame_some ht
  | cons byte line ih =>
    rw [List.mem_cons, not_or] at hn
    obtain ⟨t₁, ht, hat⟩ := tcpTurn_byte buf h (Ne.symm hn.1)
    obtain ⟨t', hr, hat'⟩ := ih hat hn.2
    rw [List.append_assoc] at hr
    exact ⟨t', (untilFrame_none ht).trans hr, hat'⟩

/-- At the end of the stream the connection is closed. -/
theorem tcpReadFrame_end (buf : Vector UInt8 maxMsgLen) (h : TcpTransport.At t [] [] w) :
    ∃ t', tcpReadFrame buf t = .ok (.error .disconnected, t') ∧ t'.socket.written = w := by
  obtain ⟨s, hread, hw⟩ := h.steady.read_end h.incoming Nat.one_pos
  refine ⟨{ t with socket := s.abort }, untilFrame_error ?_, hw.trans h.written⟩
  simp only [tcpTurn, hread, pure_eq]

theorem tcpWriteFrame_at (bytes : Bytes) (h : TcpTransport.At t line rest w) :
    (tcpWriteFrame bytes t).1 = .ok () ∧ (tcpWriteFrame bytes t).2.At line rest (w ++ [bytes]) := by
  have hwrite : t.socket.writeAll bytes =
      (.ok (), { t.socket with written := t.socket.written ++ [bytes] }) := by
    simp only [Socket.writeAll, h.steady.isOpen, Bool.false_eq_true, ↓reduceIte]
  simp only [tcpWriteFrame, hwrite]
  exact ⟨trivial, ⟨h.steady.isOpen, h.steady.pieces⟩, h.holds, h.incoming,
    congrArg (· ++ [bytes]) h.written⟩

end PicoConduit
