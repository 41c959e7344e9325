import PicoConduit.Socket

namespace PicoConduit
open Checked Utf8
set_option autoImplicit true

def opcodeText : UInt8 := 0x1

def opcodeClose : UInt8 := 0x8

def opcodePing : UInt8 := 0x9

def opcodePong : UInt8 := 0xA

def unmask (data : Bytes) (maskKey : Vector UInt8 4) : Bytes :=
  data.mapIdx fun i byte => byte ^^^ maskKey[i % 4]

/-- The number of bytes written, and the buffer they were written to. -/
def encodeTextFrameHeader (payloadLen : Nat) (out : Bytes) :
    Exec (Except ErrorCode (Nat × Bytes)) :=
  if payloadLen > maxMsgLen then pure (.error .msgTooLarge)
  else if payloadLen ≤ 125 then
    if out.length < 2 then pure (.error .msgTooLarge)
    else do
      let out ← store out 0 0x81
      let out ← store out 1 (UInt8.ofNat payloadLen)
      pure (.ok (2, out))
  else if out.length < 4 then pure (.error .msgTooLarge)
  else do
    let out ← store out 0 0x81
    let out ← store out 1 126
    let out ← store out 2 (UInt8.ofNat (payloadLen >>> 8))
    let out ← store out 3 (UInt8.ofNat (payloadLen &&& 0xFF))
    pure (.ok (4, out))

def encodePongFrame (payload out : Bytes) : Exec (Except ErrorCode (Nat × Bytes)) :=
  if payload.length > 125 then pure (.error .msgTooLarge)
  else
    let total := 2 + payload.length
    if out.length < total then pure (.error .msgTooLarge)
    else do
      let out ← store out 0 (0x80 ||| opcodePong)
      let out ← store out 1 (UInt8.ofNat payload.length)
      let out ← copy out 2 total payload
      pure (.ok (total, out))

/-- What `read_frame` has read of a frame before its payload. -/
structure WsHead where
  opcode : UInt8
  payloadLen : Nat
  maskKey : Option (Vector UInt8 4)
  deriving DecidableEq

/-- The length of the payload, for the length field of the header. -/
def readPayloadLen (len7 : UInt8) : Conn Nat :=
  if len7.toNat ≤ 125 then pure len7.toNat
  else if len7.toNat = 126 then do
    let ext ← Conn.readExact 2
    let hi ← load ext 0
    let lo ← load ext 1
    pure (hi.toNat <<< 8 ||| lo.toNat)
  else .fail (.protocol .msgTooLarge)

def readMaskKey (masked : Bool) : Conn (Option (Vector UInt8 4)) :=
  if masked then do
    let key ← Conn.readExact 4
    let k0 ← load key 0
    let k1 ← load key 1
    let k2 ← load key 2
    let k3 ← load key 3
    pure (some #v[k0, k1, k2, k3])
  else pure none

def readHead : Conn WsHead := do
  let hdr ← Conn.readExact 2
  let b0 ← load hdr 0
  let b1 ← load hdr 1
  let payloadLen ← readPayloadLen (b1 &&& 0x7F)
  if payloadLen > maxMsgLen then .fail (.protocol .msgTooLarge)
  else do
    let maskKey ← readMaskKey (b1 &&& 0x80 != 0)
    pure ⟨b0 &&& 0x0F, payloadLen, maskKey⟩

/-- Read the payload into the front of the frame buffer, and unmask it there. -/
def readPayload (buf : Vector UInt8 maxMsgLen) (head : WsHead) : Conn Bytes := do
  let front ← slice buf.toList 0 head.payloadLen
  let data ← Conn.readExact front.length
  match head.maskKey with
  | some key => pure (unmask data key)
  | none => pure data

/-- What becomes of a frame: a text frame is returned, and all others are dealt with here. -/
def handleFrame (opcode : UInt8) (payload : Bytes) : Conn (Option Bytes) :=
  if opcode = opcodeText then pure (some payload)
  else if opcode = opcodeClose then do
    Conn.write [0x88, 0x00]
    .fail .disconnected
  else if opcode = opcodePing then do
    match ← encodePongFrame payload (List.replicate 127 0) with
    | .ok (n, pong) => do
      Conn.write (← slice pong 0 n)
      pure none
    | .error _ => pure none
  else pure none

/-- One turn of the loop of `WsTransport::read_frame`. -/
def wsTurn (buf : Vector UInt8 maxMsgLen) : Conn (Option Bytes) := do
  let head ← readHead
  let payload ← readPayload buf head
  handleFrame head.opcode payload

/-- `WsTransport::write_frame`. -/
def wsWriteFrame (data : Bytes) (s : Socket) : Exec (Except TransportError Unit × Socket) := do
  match ← encodeTextFrameHeader data.length (List.replicate 4 0) with
  | .error code => pure (.error (.protocol code), s)
  | .ok (hdrLen, hdr) => do
    let head ← slice hdr 0 hdrLen
    match s.writeAll head with
    | (.error (), s) => pure (.error .disconnected, s.abort)
    | (.ok (), s) =>
      match s.writeAll data with
      | (.error (), s) => pure (.error .disconnected, s.abort)
      | (.ok (), s) => pure (.ok (), s)

theorem readPayloadLen_sound (len7 : UInt8) :
    Sound 0 (fun _ => True) (readPayloadLen len7) := by
  simp only [readPayloadLen]
  split
  · exact .pure trivial
  split
  · refine ((Sound.readExact 2).mono (Nat.zero_le 2)).bind fun ext hext => ?_
    refine .checked (load_yields (by omega)) fun hi _ => ?_
    exact .checked (load_yields (by omega)) fun lo _ => .pure trivial
  · exact .fail _

theorem readMaskKey_sound (masked : Bool) : Sound 0 (fun _ => True) (readMaskKey masked) := by
  cases masked with
  | false => exact .pure trivial
  | true =>
    refine ((Sound.readExact 4).mono (Nat.zero_le 4)).bind fun key hkey => ?_
    refine .checked (load_yields (by omega)) fun k0 _ => ?_
    refine .checked (load_yields (by omega)) fun k1 _ => ?_
    refine .checked (load_yields (by omega)) fun k2 _ => ?_
    exact .checked (load_yields (by omega)) fun k3 _ => .pure trivial

theorem readHead_sound : Sound 2 (fun head => head.payloadLen ≤ maxMsgLen) readHead := by
  refine (Sound.readExact 2).bind fun hdr hhdr => ?_
  refine .checked (load_yields (by omega)) fun b0 _ => ?_
  refine .checked (load_yields (by omega)) fun b1 _ => ?_
  refine (readPayloadLen_sound _).bind fun payloadLen _ => ?_
  split
  · exact .fail _
  · exact (readMaskKey_sound _).bind fun key _ => .pure (Nat.not_lt.1 ‹_›)

theorem readPayload_sound (buf : Vector UInt8 maxMsgLen) (h : WsHead.payloadLen head ≤ maxMsgLen) :
    Sound 0 (fun _ => True) (readPayload buf head) := by
  have hbuf : head.payloadLen ≤ buf.toList.length := by rwa [Vector.length_toList]
  refine .checked (slice_yields (Nat.zero_le _) hbuf) fun front _ => ?_
  refine ((Sound.readExact front.length).mono (Nat.zero_le _)).bind fun data _ => ?_
  split <;> exact .pure trivial

theorem encodePongFrame_yields (payload out : Bytes) :
    Yields (encodePongFrame payload out) fun r =>
      ∀ n pong, r = .ok (n, pong) → n ≤ pong.length := by
  simp only [encodePongFrame]
  refine .ite (fun _ => .ok fun _ _ h => by cases h) fun h => ?_
  refine .ite (fun _ => .ok fun _ _ h => by cases h) fun hlen => ?_
  refine (store_yields (by omega) _).bind fun out₁ h₁ => ?_
  refine (store_yields (by omega) _).bind fun out₂ h₂ => ?_
  refine (copy_yields (Nat.le_add_right _ _) (by omega) (by omega)).bind fun out₃ h₃ => .ok ?_
  intro n pong he
  cases he
  omega

theorem handleFrame_sound (opcode : UInt8) (payload : Bytes) :
    Sound 0 (fun _ => True) (handleFrame opcode payload) := by
  simp only [handleFrame]
  split
  · exact .pure trivial
  split
  · exact (Sound.write _).bind fun _ _ => .fail _
  split
  · refine .checked (encodePongFrame_yields payload _) fun r hr => ?_
    split
    · refine .checked (slice_yields (Nat.zero_le _) (hr _ _ rfl)) fun pong _ => ?_
      exact (Sound.write _).bind fun _ _ => .pure trivial
    · exact .pure trivial
  · exact .pure trivial

/-- No turn panics, and every turn takes at least the first two bytes of a frame. -/
theorem wsTurn_sound (buf : Vector UInt8 maxMsgLen) : Sound 2 (fun _ => True) (wsTurn buf) :=
  readHead_sound.bind fun head hhead => (readPayload_sound buf hhead).bind fun payload _ =>
    handleFrame_sound head.opcode payload

theorem wsTurn_shorter (h : wsTurn buf s = .ok (.ok none, s')) :
    s'.incoming.length < s.incoming.length := by
  obtain ⟨r, hr, hc⟩ := wsTurn_sound buf s
  rw [h] at hr
  cases hr
  have hlen := (hc none rfl).2
  simp only at hlen
  omega

/-- `WsTransport::read_frame`, with the frame buffer of the caller. -/
def wsReadFrame (buf : Vector UInt8 maxMsgLen) :
    Socket → Exec (Except TransportError Bytes × Socket) :=
  untilFrame (wsTurn buf) (·.incoming.length) fun _ _ => wsTurn_shorter

theorem wsReadFrame_yields (buf : Vector UInt8 maxMsgLen) (s : Socket) :
    Yields (wsReadFrame buf s) fun _ => True :=
  untilFrame_yields (fun _ => True) (fun s _ => (wsTurn_sound buf s).mono fun _ _ => trivial)
    trivial

theorem encodeTextFrameHeader_yields (payloadLen : Nat) (ho : List.length out = 4) :
    Yields (encodeTextFrameHeader payloadLen out) fun r =>
      ∀ n hdr, r = .ok (n, hdr) → n ≤ hdr.length := by
  simp only [encodeTextFrameHeader]
  refine .ite (fun _ => .ok fun _ _ h => by cases h) fun _ => ?_
  refine .ite (fun _ => ?_) fun _ => ?_
  · refine .ite (fun _ => .ok fun _ _ h => by cases h) fun _ => ?_
    refine (store_yields (by omega) _).bind fun out₁ h₁ => ?_
    refine (store_yields (by omega) _).bind fun out₂ h₂ => .ok fun n hdr he => ?_
    cases he
    omega
  · refine .ite (fun _ => .ok fun _ _ h => by cases h) fun _ => ?_
    refine (store_yields (by omega) _).bind fun out₁ h₁ => ?_
    refine (store_yields (by omega) _).bind fun out₂ h₂ => ?_
    refine (store_yields (by omega) _).bind fun out₃ h₃ => ?_
    refine (store_yields (by omega) _).bind fun out₄ h₄ => .ok fun n hdr he => ?_
    cases he
    omega

theorem wsWriteFrame_yields (data : Bytes) (s : Socket) :
    Yields (wsWriteFrame data s) fun _ => True := by
  refine (encodeTextFrameHeader_yields _ List.length_replicate).bind fun r hr => ?_
  split
  · exact .ok trivial
  · refine (slice_yields (Nat.zero_le _) (hr _ _ rfl)).bind fun head _ => ?_
    split
    · exact .ok trivial
    · split <;> exact .ok trivial

/-- The WebSocket transport with a frame buffer, as `handle_client` uses it. -/
def ws (buf : Vector UInt8 maxMsgLen) : Transport Socket where
  readFrame s := (wsReadFrame_yields buf s).get
  writeFrame data s := (wsWriteFrame_yields data s).get

/-- A WebSocket frame of a client: its first byte, the key it is masked with if it is, whether
it has the 16-bit form of the length, and its payload. -/
structure WsFrame where
  first : UInt8
  maskKey : Option (Vector UInt8 4)
  wide : Bool
  payload : Bytes
  bounded : payload.length ≤ maxMsgLen
  narrow : wide = false → payload.length ≤ 125

def WsFrame.opcode (f : WsFrame) : UInt8 := f.first &&& 0x0F

/-- The length, or the mark of its 16-bit form. -/
def WsFrame.len7 (f : WsFrame) : Nat := if f.wide then 126 else f.payload.length

/-- A length in two bytes, the high one first. -/
def twoBytes (n : Nat) : Bytes := [UInt8.ofNat (n / 256), UInt8.ofNat (n % 256)]

def WsFrame.extension (f : WsFrame) : Bytes :=
  if f.wide then twoBytes f.payload.length else []

/-- A payload as it is sent: byte by byte with the bytes of the key, which repeat. -/
def masked (maskKey : Option (Vector UInt8 4)) (payload : Bytes) : Bytes :=
  match maskKey with
  | none => payload
  | some key => payload.zipIdx.map fun (byte, i) => byte ^^^ key[i % 4]

def keyBytes (maskKey : Option (Vector UInt8 4)) : Bytes :=
  match maskKey with
  | none => []
  | some key => key.toList

/-- The second byte of a frame: whether it is masked, and the length field. -/
def secondByte (maskKey : Option (Vector UInt8 4)) (len7 : Nat) : UInt8 :=
  (if maskKey.isSome then 0x80 else 0) ||| UInt8.ofNat len7

def WsFrame.encode (f : WsFrame) : Bytes :=
  f.first :: secondByte f.maskKey f.len7 ::
    (f.extension ++ (keyBytes f.maskKey ++ masked f.maskKey f.payload))

theorem unmask_masked (payload : Bytes) (key : Vector UInt8 4) :
    unmask (payload.zipIdx.map fun (byte, i) => byte ^^^ key[i % 4]) key = payload := by
  apply List.ext_getElem
  · simp [unmask]
  · intro i h h'
    simp only [unmask, List.getElem_mapIdx, List.getElem_map, List.getElem_zipIdx, Nat.zero_add,
      UInt8.xor_assoc, UInt8.xor_self, UInt8.xor_zero]

theorem masked_length (maskKey : Option (Vector UInt8 4)) (payload : Bytes) :
    (masked maskKey payload).length = payload.length := by
  simp only [masked]
  split <;> simp

theorem two_bytes (hn : n < 65536) :
    (UInt8.ofNat (n / 256)).toNat <<< 8 ||| (UInt8.ofNat (n % 256)).toNat = n := by
  have hlo : (UInt8.ofNat (n % 256)).toNat = n % 256 :=
    UInt8.toNat_ofNat_of_lt (Nat.mod_lt n (by decide : 0 < 256))
  have hhi : (UInt8.ofNat (n / 256)).toNat = n / 256 :=
    UInt8.toNat_ofNat_of_lt (Nat.div_lt_of_lt_mul hn)
  rw [hlo, hhi, ← Nat.shiftLeft_add_eq_or_of_lt (by omega : n % 256 < 2 ^ 8), Nat.shiftLeft_eq]
  omega

theorem second_bits : ∀ n, n < 128 →
    ((0x80 ||| UInt8.ofNat n) &&& 0x7F).toNat = n ∧ ((0 ||| UInt8.ofNat n) &&& 0x7F).toNat = n ∧
      ((0x80 ||| UInt8.ofNat n) &&& 0x80 != 0) = true ∧
      ((0 ||| UInt8.ofNat n) &&& 0x80 != 0) = false := by
  decide

theorem WsFrame.len7_lt (f : WsFrame) : f.len7 < 128 := by
  have hn := f.narrow
  simp only [WsFrame.len7]
  split
  · decide
  · have hl := hn (Bool.eq_false_iff.2 ‹_›)
    omega

theorem secondByte_len7 (maskKey : Option (Vector UInt8 4)) (hn : n < 128) :
    (secondByte maskKey n &&& 0x7F).toNat = n := by
  obtain ⟨hm, hu, -⟩ := second_bits n hn
  simp only [secondByte]
  split
  · exact hm
  · exact hu

theorem secondByte_masked (maskKey : Option (Vector UInt8 4)) (hn : n < 128) :
    (secondByte maskKey n &&& 0x80 != 0) = maskKey.isSome := by
  obtain ⟨-, -, hm, hu⟩ := second_bits n hn
  simp only [secondByte]
  cases maskKey with
  | none => exact hu
  | some key => exact hm

theorem readPayloadLen_twoBytes (maskKey : Option (Vector UInt8 4)) (hn : n < 65536) :
    Takes (readPayloadLen (secondByte maskKey 126 &&& 0x7F)) (twoBytes n) n := by
  have hseven : 126 < 128 := by decide
  simp only [readPayloadLen, secondByte_len7 maskKey hseven, ↓reduceIte, Nat.reduceLeDiff]
  refine (Takes.readExact rfl).finish (.checked rfl (.checked rfl ?_))
  rw [two_bytes hn]
  exact .pure _

theorem readPayloadLen_takes (f : WsFrame) :
    Takes (readPayloadLen (secondByte f.maskKey f.len7 &&& 0x7F)) f.extension f.payload.length := by
  have hb := f.bounded
  by_cases hw : f.wide = true
  · have hlen : f.len7 = 126 := if_pos hw
    have hext : f.extension = twoBytes f.payload.length := if_pos hw
    rw [hlen, hext]
    exact readPayloadLen_twoBytes f.maskKey (Nat.lt_of_le_of_lt hb (by decide))
  · have hlen : f.len7 = f.payload.length := if_neg hw
    have hext : f.extension = [] := if_neg hw
    simp only [readPayloadLen, secondByte_len7 f.maskKey f.len7_lt]
    simp only [hlen, hext, f.narrow (Bool.eq_false_iff.2 hw), ↓reduceIte]
    exact .pure _

theorem readMaskKey_takes (maskKey : Option (Vector UInt8 4)) :
    Takes (readMaskKey maskKey.isSome) (keyBytes maskKey) maskKey := by
  cases maskKey with
  | none => exact .pure none
  | some key =>
    refine (Takes.readExact key.length_toList).finish ?_
    obtain ⟨⟨ks⟩, hk⟩ := key
    match ks, hk with
    | [k0, k1, k2, k3], _ =>
      exact .checked rfl (.checked rfl (.checked rfl (.checked rfl (.pure _))))

theorem readHead_takes (f : WsFrame) :
    Takes readHead (f.first :: secondByte f.maskKey f.len7 :: (f.extension ++ keyBytes f.maskKey))
      ⟨f.opcode, f.payload.length, f.maskKey⟩ := by
  have hhdr : Takes (Conn.readExact 2) [f.first, secondByte f.maskKey f.len7] _ := .readExact rfl
  refine hhdr.bind (.checked rfl (.checked rfl ?_))
  refine (readPayloadLen_takes f).bind ?_
  rw [if_neg (Nat.not_lt.2 f.bounded), secondByte_masked f.maskKey f.len7_lt]
  exact (readMaskKey_takes f.maskKey).finish (.pure _)

theorem readPayload_takes (f : WsFrame) (buf : Vector UInt8 maxMsgLen) :
    Takes (readPayload buf ⟨f.opcode, f.payload.length, f.maskKey⟩)
      (masked f.maskKey f.payload) f.payload := by
  have hb := f.bounded
  have hslice : slice buf.toList 0 f.payload.length = .ok (buf.toList.take f.payload.length) :=
    slice_zero (by rwa [Vector.length_toList])
  have hlen : (buf.toList.take f.payload.length).length =
      (masked f.maskKey f.payload).length := by
    rw [List.length_take, Vector.length_toList, masked_length]
    omega
  refine .checked hslice ((Takes.readExact hlen.symm).finish ?_)
  cases f.maskKey with
  | none => exact .pure _
  | some key =>
    simp only [masked, unmask_masked]
    exact .pure _

theorem wsTurn_reads (buf : Vector UInt8 maxMsgLen) (hs : Socket.Steady s)
    (hin : s.incoming = WsFrame.encode f ++ rest) :
    ∃ s', wsTurn buf s = handleFrame f.opcode f.payload s' ∧ s'.Steady ∧ s'.incoming = rest ∧
      s'.written = s.written := by
  have hsplit : s.incoming =
      f.first :: secondByte f.maskKey f.len7 :: (f.extension ++ keyBytes f.maskKey) ++
        (masked f.maskKey f.payload ++ rest) := by
    simp only [hin, WsFrame.encode, List.cons_append, List.append_assoc]
  obtain ⟨s₁, hhead, hd₁, hin₁⟩ := readHead_takes f s _ hs hsplit
  obtain ⟨s₂, hpayload, hd₂, hin₂⟩ := readPayload_takes f buf s₁ rest hd₁.steady hin₁
  refine ⟨s₂, ?_, hd₂.steady, hin₂, hd₂.written.trans hd₁.written⟩
  rw [wsTurn, Conn.bind_ok hhead, Conn.bind_ok hpayload]

/-- The pong that echoes a ping. -/
def WsFrame.pong (f : WsFrame) : Bytes := 0x8A :: UInt8.ofNat f.payload.length :: f.payload

theorem encodePongFrame_eq (h : payload.length ≤ 125) (hp : payload.length ≤ pad.length) :
    encodePongFrame payload (x :: y :: pad) =
      .ok (.ok (2 + payload.length, 0x8A :: UInt8.ofNat payload.length ::
        (payload ++ pad.drop payload.length))) := by
  have hlen (a b : UInt8) : 2 + payload.length ≤ (a :: b :: pad).length := by
    simp only [List.length_cons]
    omega
  have hcopy : copy (0x8A :: UInt8.ofNat payload.length :: pad) 2 (2 + payload.length) payload =
      .ok (0x8A :: UInt8.ofNat payload.length :: (payload ++ pad.drop payload.length)) := by
    rw [copy_of_le (Nat.le_add_right _ _) (hlen _ _) (Nat.add_sub_cancel_left _ _).symm,
      Nat.add_comm]
    rfl
  have hfst : store (x :: y :: pad) 0 (0x80 ||| opcodePong) = .ok (0x8A :: y :: pad) := rfl
  have hsnd : store (0x8A :: y :: pad) 1 (UInt8.ofNat payload.length) =
      .ok (0x8A :: UInt8.ofNat payload.length :: pad) := store_of_lt (by simp) _
  simp only [encodePongFrame, Nat.not_lt.2 h, Nat.not_lt.2 (hlen x y), ↓reduceIte, hfst, hsnd,
    hcopy, ok_bind, pure_eq]

/-- What is written for a frame before the connection goes on. -/
def WsFrame.reply (f : WsFrame) : List Bytes :=
  if f.opcode = opcodePing ∧ f.payload.length ≤ 125 then [f.pong] else []

theorem handleFrame_skips (f : WsFrame) (hs : Socket.Steady s) (ht : f.opcode ≠ opcodeText)
    (hc : f.opcode ≠ opcodeClose) :
    handleFrame f.opcode f.payload s =
      .ok (.ok none, { s with written := s.written ++ f.reply }) := by
  rw [handleFrame, if_neg ht, if_neg hc]
  by_cases hp : f.opcode = opcodePing
  · rw [if_pos hp]
    by_cases hl : f.payload.length ≤ 125
    · have hpong : encodePongFrame f.payload (List.replicate 127 0) =
          .ok (.ok (2 + f.payload.length,
            f.pong ++ (List.replicate 125 0).drop f.payload.length)) :=
        encodePongFrame_eq hl (by rwa [List.length_replicate])
      have hlen : f.pong.length = 2 + f.payload.length :=
        Nat.add_comm f.payload.length 2
      have hslice : slice (f.pong ++ (List.replicate 125 0).drop f.payload.length) 0
          (2 + f.payload.length) = .ok f.pong := by
        rw [← hlen, slice_zero (by simp), List.take_left]
      rw [hpong, WsFrame.reply, if_pos ⟨hp, hl⟩, Conn.bind_ok rfl]
      simp only [hslice]
      rw [Conn.bind_ok rfl, Conn.bind_ok (hs.write f.pong)]
      rfl
    · have hpong : encodePongFrame f.payload (List.replicate 127 0) = .ok (.error .msgTooLarge) :=
        if_pos (Nat.lt_of_not_le hl)
      rw [hpong, WsFrame.reply, if_neg fun h => hl h.2, List.append_nil]
      rfl
  · rw [if_neg hp, WsFrame.reply, if_neg fun h => hp h.1, List.append_nil]
    rfl

theorem handleFrame_close (hs : Socket.Steady s) (payload : Bytes) :
    handleFrame opcodeClose payload s = .ok (.error .disconnected,
      { s with written := s.written ++ [[0x88, 0x00]], aborted := true }) := by
  rw [handleFrame, if_neg (by decide), if_pos rfl, Conn.bind_ok (hs.write _)]
  rfl

theorem wsTurn_ends (buf : Vector UInt8 maxMsgLen) (hs : Socket.Steady s) (hin : s.incoming = []) :
    ∃ s', wsTurn buf s = .ok (.error .disconnected, s') ∧ s'.written = s.written ∧
      s'.incoming = [] := by
  obtain ⟨s', hr, hend⟩ := Conn.readExact_ends (n := 2) hs (by rw [hin]; decide)
  refine ⟨s', ?_, hend⟩
  rw [wsTurn, Conn.bind_error]
  exact Conn.bind_error hr

/-- The bytes of a sequence of frames. -/
def stream (frames : List WsFrame) : Bytes := frames.flatMap WsFrame.encode

/-- The text frames before the first close frame, each with the frames that follow it. -/
def texts : List WsFrame → List (WsFrame × List WsFrame)
  | [] => []
  | f :: rest =>
    if f.opcode = opcodeText then (f, rest) :: texts rest
    else if f.opcode = opcodeClose then []
    else texts rest

/-- The pongs for the pings of at most 125 bytes before the first close frame. -/
def pongs (frames : List WsFrame) : List Bytes :=
  ((frames.takeWhile (·.opcode ≠ opcodeClose)).filter fun f =>
    f.opcode = opcodePing ∧ f.payload.length ≤ 125).map WsFrame.pong

/-- The first close frame, if there is one, and all that follow it. -/
def fromClose (frames : List WsFrame) : List WsFrame := frames.dropWhile (·.opcode ≠ opcodeClose)

/-- Successive calls of `read_frame` up to the first that returns an error: each payload that is
returned, with the bytes that are then still to come. -/
inductive WsReads (buf : Vector UInt8 maxMsgLen) :
    Socket → List (Bytes × Bytes) → TransportError → Socket → Prop
  | failed (h : wsReadFrame buf s = .ok (.error e, s')) : WsReads buf s [] e s'
  | frame (h : wsReadFrame buf s = .ok (.ok payload, s')) (hr : WsReads buf s' ps e s'') :
      WsReads buf s ((payload, s'.incoming) :: ps) e s''

theorem WsReads.skip (h : wsReadFrame buf s = wsReadFrame buf s')
    (hr : WsReads buf s' ps e s'') : WsReads buf s ps e s'' := by
  cases hr with
  | failed h' => exact .failed (h.trans h')
  | frame h' hr => exact .frame (h.trans h') hr

theorem pongs_cons (hc : f.opcode ≠ opcodeClose) : pongs (f :: rest) = f.reply ++ pongs rest := by
  rw [pongs, List.takeWhile_cons_of_pos (by simpa using hc), List.filter_cons, WsFrame.reply]
  by_cases hp : f.opcode = opcodePing ∧ f.payload.length ≤ 125
  · rw [if_pos hp, if_pos (by simpa using hp)]
    rfl
  · rw [if_neg hp, if_neg (by simpa using hp)]
    rfl

theorem fromClose_cons (hc : f.opcode ≠ opcodeClose) :
    fromClose (f :: rest) = fromClose rest :=
  List.dropWhile_cons_of_pos (by simpa using hc)

theorem WsFrame.reply_text (ht : WsFrame.opcode f = opcodeText) : f.reply = [] := by
  rw [WsFrame.reply, if_neg]
  intro h
  rw [ht] at h
  exact absurd h.1 (by decide)

/-- Whatever the pieces in which the frames arrive, they are read one by one up to the first close
frame. -/
theorem ws_reads (frames : List WsFrame) (buf : Vector UInt8 maxMsgLen) (hs : Socket.Steady s)
    (hin : s.incoming = stream frames) :
    ∃ s', WsReads buf s ((texts frames).map fun x => (x.1.payload, stream x.2))
        .disconnected s' ∧
      s'.written = s.written ++
        (pongs frames ++ ((fromClose frames).take 1).map fun _ => [0x88, 0x00]) ∧
      s'.incoming = stream ((fromClose frames).drop 1) := by
  induction frames generalizing s with
  | nil =>
    obtain ⟨s', ht, hw, hin'⟩ := wsTurn_ends buf hs hin
    refine ⟨s', .failed (untilFrame_error ht), ?_, hin'⟩
    rw [hw]
    exact (List.append_nil _).symm
  | cons f rest ih =>
    have hsplit : s.incoming = f.encode ++ stream rest := hin
    obtain ⟨s₁, hr, hs₁, hin₁, hw₁⟩ := wsTurn_reads buf hs hsplit
    by_cases hc : f.opcode = opcodeClose
    · have hfrom : fromClose (f :: rest) = f :: rest :=
        List.dropWhile_cons_of_neg (by simpa using hc)
      have hpongs : pongs (f :: rest) = [] := by
        rw [pongs, List.takeWhile_cons_of_neg (by simpa using hc)]
        rfl
      have htexts : texts (f :: rest) = [] := by
        rw [texts, hc, if_neg (by decide), if_pos rfl]
      rw [hc, handleFrame_close hs₁] at hr
      rw [htexts, hpongs, hfrom]
      exact ⟨_, .failed (untilFrame_error hr), congrArg (· ++ [[0x88, 0x00]]) hw₁, hin₁⟩
    · rw [pongs_cons hc, fromClose_cons hc]
      by_cases ht : f.opcode = opcodeText
      · obtain ⟨s', hreads, hw, hin'⟩ := ih hs₁ hin₁
        rw [handleFrame, if_pos ht] at hr
        rw [texts, if_pos ht, List.map_cons, ← hin₁, WsFrame.reply_text ht]
        refine ⟨s', .frame (untilFrame_some hr) hreads, ?_, hin'⟩
        rw [hw, hw₁]
        rfl
      · rw [handleFrame_skips f hs₁ ht hc] at hr
        obtain ⟨s', hreads, hw, hin'⟩ := ih (s := { s₁ with written := s₁.written ++ f.reply })
          ⟨hs₁.isOpen, hs₁.pieces⟩ hin₁
        rw [texts, if_neg ht, if_neg hc]
        refine ⟨s', hreads.skip (untilFrame_none hr), ?_, hin'⟩
        rw [hw, hw₁, List.append_assoc, List.append_assoc]

/-- A connection on which a client sends some frames, in pieces of any sizes. -/
def WsFrame.connection (frames : List WsFrame) (pieces : List Nat) : Socket :=
  ⟨stream frames, pieces.map .bytes, [], false⟩

theorem ws_stream_received (frames : List WsFrame) (pieces : List Nat)
    (buf : Vector UInt8 maxMsgLen) :
    ∃ s', WsReads buf (WsFrame.connection frames pieces)
        ((texts frames).map fun x => (x.1.payload, stream x.2)) .disconnected s' ∧
      s'.written = pongs frames ++ ((fromClose frames).take 1).map (fun _ => [0x88, 0x00]) ∧
      s'.incoming = stream ((fromClose frames).drop 1) := by
  have hs : (WsFrame.connection frames pieces).Steady := by
    refine ⟨rfl, fun a ha => ?_⟩
    obtain ⟨n, -, rfl⟩ := List.mem_map.1 ha
    exact ⟨n, rfl⟩
  exact ws_reads frames buf hs rfl

end PicoConduit
