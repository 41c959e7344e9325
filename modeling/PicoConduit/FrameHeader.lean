import PicoConduit.WsTransport

namespace PicoConduit
open Checked Utf8
set_option autoImplicit true

structure WsFrameHeader where
  headerLen : Nat
  payloadLen : Nat
  opcode : UInt8
  maskKey : Vector UInt8 4
  masked : Bool
  deriving DecidableEq

/-- The length of the payload and that of its extension, where the bytes that are there give
them. -/
def parsePayloadLen (raw : Bytes) (payloadLen7 : UInt8) : Exec (Option (Nat × Nat)) :=
  if payloadLen7.toNat ≤ 125 then pure (some (payloadLen7.toNat, 0))
  else if payloadLen7.toNat = 126 then
    if raw.length < 4 then pure none
    else do
      let hi ← load raw 2
      let lo ← load raw 3
      pure (some (hi.toNat <<< 8 ||| lo.toNat, 2))
  else pure none

def parseMaskKey (raw : Bytes) (masked : Bool) (maskStart : Nat) : Exec (Vector UInt8 4) :=
  if masked then do copyArray (← slice raw maskStart (maskStart + 4)) 4
  else pure (Vector.replicate 4 0)

def parseFrameHeader (raw : Bytes) : Exec (Option WsFrameHeader) :=
  if raw.length < 2 then pure none
  else do
    let b0 ← load raw 0
    let b1 ← load raw 1
    let masked := b1 &&& 0x80 != 0
    match ← parsePayloadLen raw (b1 &&& 0x7F) with
    | none => pure none
    | some (payloadLen, extLen) => do
      let maskLen := if masked then 4 else 0
      let headerLen := 2 + extLen + maskLen
      if raw.length < headerLen then pure none
      else do
        let maskKey ← parseMaskKey raw masked (2 + extLen)
        pure (some ⟨headerLen, payloadLen, b0 &&& 0x0F, maskKey, masked⟩)

/-- `encode_text_frame`: the number of bytes written, and the buffer they were written to. -/
def encodeTextFrame (payload out : Bytes) : Exec (Except ErrorCode (Nat × Bytes)) := do
  match ← encodeTextFrameHeader payload.length out with
  | .error code => pure (.error code)
  | .ok (headerLen, out) =>
    let total := headerLen + payload.length
    if total > out.length then pure (.error .msgTooLarge)
    else do
      let out ← copy out headerLen total payload
      pure (.ok (total, out))

/-- The seven bits of a length, the bytes that extend them, and the length they stand for. -/
inductive LengthField : UInt8 → Bytes → Nat → Prop
  | short (h : len7.toNat ≤ 125) : LengthField len7 [] len7.toNat
  | wide (h : len7.toNat = 126) : LengthField len7 [hi, lo] (hi.toNat <<< 8 ||| lo.toNat)

inductive MaskField : Bool → Bytes → Vector UInt8 4 → Prop
  | unmasked : MaskField false [] (Vector.replicate 4 0)
  | masked (key : Vector UInt8 4) : MaskField true key.toList key

/-- The bytes of a frame header, and what they say. -/
inductive Spells : Bytes → WsFrameHeader → Prop
  | header (hlen : LengthField (b1 &&& 0x7F) ext payloadLen)
      (hmask : MaskField (b1 &&& 0x80 != 0) key maskKey) :
      Spells (b0 :: b1 :: (ext ++ key))
        ⟨2 + ext.length + key.length, payloadLen, b0 &&& 0x0F, maskKey, b1 &&& 0x80 != 0⟩

theorem Spells.length (h : Spells bytes hdr) : bytes.length = hdr.headerLen := by
  cases h with
  | header hlen hmask =>
    simp only [List.length_cons, List.length_append]
    omega

theorem MaskField.length (h : MaskField m key maskKey) :
    key.length = if m then 4 else 0 := by
  cases h with
  | unmasked => rfl
  | masked => exact maskKey.length_toList

theorem parsePayloadLen_field (h : LengthField len7 ext payloadLen) :
    parsePayloadLen (b0 :: b1 :: (ext ++ rest)) len7 = .ok (some (payloadLen, ext.length)) := by
  cases h with
  | short h => exact if_pos h
  | wide h =>
    have hnarrow : ¬ len7.toNat ≤ 125 := by omega
    rw [parsePayloadLen, if_neg hnarrow, if_pos h, if_neg (by simp)]
    rfl

theorem parsePayloadLen_some (h : parsePayloadLen (b0 :: b1 :: tail) len7 = .ok (some (n, k))) :
    ∃ ext rest, tail = ext ++ rest ∧ k = ext.length ∧ LengthField len7 ext n := by
  simp only [parsePayloadLen] at h
  split at h
  · cases h
    exact ⟨[], tail, rfl, rfl, .short ‹_›⟩
  split at h
  · split at h
    · cases h
    · obtain ⟨hi, lo, rest, rfl⟩ : ∃ hi lo rest, tail = hi :: lo :: rest := by
        match tail with
        | hi :: lo :: rest => exact ⟨hi, lo, rest, rfl⟩
        | [_] => simp at *
        | [] => simp at *
      cases h
      exact ⟨[hi, lo], rest, rfl, rfl, .wide ‹_›⟩
  · cases h

theorem parseMaskKey_field (h : MaskField m key maskKey) (ho : o = List.length pre) :
    parseMaskKey (pre ++ (key ++ rest)) m o = .ok maskKey := by
  subst ho
  cases h with
  | unmasked => rfl
  | masked =>
    have hslice : slice (pre ++ (maskKey.toList ++ rest)) pre.length (pre.length + 4) =
        .ok maskKey.toList := by
      have hfour := slice_append pre maskKey.toList rest
      rwa [maskKey.length_toList] at hfour
    rw [parseMaskKey, if_pos rfl, hslice]
    exact copyArray_toList maskKey

theorem exists_mask (h : (if m then 4 else 0) ≤ List.length tail) :
    ∃ key rest maskKey, tail = key ++ rest ∧ MaskField m key maskKey := by
  cases m with
  | false => exact ⟨[], tail, _, rfl, .unmasked⟩
  | true =>
    have hkey : (tail.take 4).length = 4 := List.length_take_of_le h
    exact ⟨tail.take 4, tail.drop 4, ⟨(tail.take 4).toArray, hkey⟩,
      (List.take_append_drop 4 tail).symm, .masked ⟨(tail.take 4).toArray, hkey⟩⟩

/-- The parser reads a header off the front of the bytes, whatever follows it. -/
theorem parseFrameHeader_spelled (h : Spells bytes hdr) :
    parseFrameHeader (bytes ++ rest) = .ok (some hdr) := by
  cases h with
  | @header b1 ext payloadLen key maskKey b0 hlen hmask =>
    have hraw : (b0 :: b1 :: (ext ++ key)) ++ rest = b0 :: b1 :: (ext ++ (key ++ rest)) := by simp
    have hpayload : parsePayloadLen (b0 :: b1 :: (ext ++ (key ++ rest))) (b1 &&& 0x7F) =
        .ok (some (payloadLen, ext.length)) := parsePayloadLen_field hlen
    have hkey : parseMaskKey ((b0 :: b1 :: ext) ++ (key ++ rest)) (b1 &&& 0x80 != 0)
        (2 + ext.length) = .ok maskKey := parseMaskKey_field hmask (Nat.add_comm _ _)
    have htwo : ¬ (b0 :: b1 :: (ext ++ (key ++ rest))).length < 2 := by simp
    have hroom : ¬ (b0 :: b1 :: (ext ++ (key ++ rest))).length < 2 + ext.length + key.length := by
      simp only [List.length_cons, List.length_append]
      omega
    rw [hraw, parseFrameHeader, if_neg htwo]
    simp only [load, List.getElem?_cons_zero, List.getElem?_cons_succ, ok_bind, hpayload,
      ← hmask.length, if_neg hroom]
    rw [← List.cons_append, ← List.cons_append, hkey]
    rfl

/-- What the parser finds is spelled at the front of the bytes. -/
theorem parseFrameHeader_some (h : parseFrameHeader raw = .ok (some hdr)) :
    ∃ bytes rest, raw = bytes ++ rest ∧ Spells bytes hdr := by
  obtain ⟨b0, b1, tail, rfl⟩ : ∃ b0 b1 tail, raw = b0 :: b1 :: tail := by
    rcases raw with - | ⟨b0, - | ⟨b1, tail⟩⟩
    · cases h
    · cases h
    · exact ⟨b0, b1, tail, rfl⟩
  have hparse := h
  rw [parseFrameHeader, if_neg (by simp)] at h
  simp only [load, List.getElem?_cons_zero, List.getElem?_cons_succ, ok_bind] at h
  obtain ⟨r, hr, h⟩ := bind_eq_ok.1 h
  rcases r with - | ⟨payloadLen, extLen⟩
  · cases h
  obtain ⟨ext, rest, rfl, rfl, hlen⟩ := parsePayloadLen_some hr
  have hroom : (if b1 &&& 0x80 != 0 then 4 else 0) ≤ rest.length := by
    refine Nat.not_lt.1 fun hlt => ?_
    have hshort : (b0 :: b1 :: (ext ++ rest)).length <
        2 + ext.length + (if b1 &&& 0x80 != 0 then 4 else 0) := by
      simp only [List.length_cons, List.length_append]
      omega
    simp only [if_pos hshort] at h
    cases h
  obtain ⟨key, rest, maskKey, rfl, hmask⟩ := exists_mask hroom
  have hspells : Spells (b0 :: b1 :: (ext ++ key)) _ := .header hlen hmask
  have hsplit : b0 :: b1 :: (ext ++ (key ++ rest)) = (b0 :: b1 :: (ext ++ key)) ++ rest := by simp
  refine ⟨_, rest, hsplit, ?_⟩
  rw [hsplit, parseFrameHeader_spelled hspells] at hparse
  cases hparse
  exact hspells

/-- The bytes that follow do not change what the parser finds. -/
theorem parseFrameHeader_extended (more : Bytes) (h : parseFrameHeader raw = .ok (some hdr)) :
    parseFrameHeader (raw ++ more) = .ok (some hdr) := by
  obtain ⟨bytes, rest, rfl, hspells⟩ := parseFrameHeader_some h
  rw [List.append_assoc]
  exact parseFrameHeader_spelled hspells

theorem readPayloadLen_field (h : LengthField len7 ext payloadLen) :
    Takes (readPayloadLen len7) ext payloadLen := by
  cases h with
  | short h =>
    rw [readPayloadLen, if_pos h]
    exact .pure _
  | wide h =>
    have hnarrow : ¬ len7.toNat ≤ 125 := by omega
    rw [readPayloadLen, if_neg hnarrow, if_pos h]
    exact (Takes.readExact rfl).finish (.checked rfl (.checked rfl (.pure _)))

theorem readMaskKey_field (h : MaskField m key maskKey) :
    Takes (readMaskKey m) key (if m then some maskKey else none) := by
  cases h with
  | unmasked => exact .pure none
  | masked => exact readMaskKey_takes (some maskKey)

/-- What the parser finds, as `read_frame` holds it. -/
def WsFrameHeader.head (hdr : WsFrameHeader) : WsHead :=
  ⟨hdr.opcode, hdr.payloadLen, if hdr.masked then some hdr.maskKey else none⟩

theorem readHead_spelled (h : Spells bytes hdr) (hlen : hdr.payloadLen ≤ maxMsgLen) :
    Takes readHead bytes hdr.head := by
  cases h with
  | @header b1 ext payloadLen key maskKey b0 hext hmask =>
    have hhdr : Takes (Conn.readExact 2) [b0, b1] _ := .readExact rfl
    refine hhdr.bind (.checked rfl (.checked rfl ?_))
    refine (readPayloadLen_field hext).bind ?_
    rw [if_neg (Nat.not_lt.2 hlen)]
    exact (readMaskKey_field hmask).finish (.pure _)

/-- The header that `encode_text_frame` writes. -/
def textHeader (payloadLen : Nat) : Bytes :=
  if payloadLen ≤ 125 then [0x81, UInt8.ofNat payloadLen]
  else [0x81, 126, UInt8.ofNat (payloadLen >>> 8), UInt8.ofNat (payloadLen &&& 0xFF)]

theorem encodeTextFrameHeader_eq (hn : n ≤ maxMsgLen) (ho : pad.length = (textHeader n).length) :
    encodeTextFrameHeader n (pad ++ rest) =
      .ok (.ok ((textHeader n).length, textHeader n ++ rest)) := by
  by_cases hs : n ≤ 125
  · have hheader : textHeader n = [0x81, UInt8.ofNat n] := if_pos hs
    rw [hheader] at ho ⊢
    obtain ⟨x, y, rfl⟩ := List.length_eq_two.1 ho
    rw [encodeTextFrameHeader, if_neg (Nat.not_lt.2 hn), if_pos hs, if_neg (by simp)]
    rfl
  · have hheader : textHeader n =
        [0x81, 126, UInt8.ofNat (n >>> 8), UInt8.ofNat (n &&& 0xFF)] := if_neg hs
    rw [hheader] at ho ⊢
    obtain ⟨w, x, y, z, rfl⟩ : ∃ w x y z, pad = [w, x, y, z] := by
      rcases pad with - | ⟨w, - | ⟨x, - | ⟨y, - | ⟨z, - | ⟨v, vs⟩⟩⟩⟩⟩ <;> simp at ho ⊢
    rw [encodeTextFrameHeader, if_neg (Nat.not_lt.2 hn), if_neg hs, if_neg (by simp)]
    rfl

theorem low_bits : ∀ n, n < 126 →
    (UInt8.ofNat n &&& 0x7F).toNat = n ∧ (UInt8.ofNat n &&& 0x80 != 0) = false := by
  decide

theorem short_spelled (first : UInt8) (h : n ≤ 125) :
    Spells [first, UInt8.ofNat n] ⟨2, n, first &&& 0x0F, Vector.replicate 4 0, false⟩ := by
  obtain ⟨hlen, hmask⟩ := low_bits n (Nat.lt_succ_of_le h)
  have hfield : LengthField (UInt8.ofNat n &&& 0x7F) [] n := by
    have hshort : LengthField (UInt8.ofNat n &&& 0x7F) [] (UInt8.ofNat n &&& 0x7F).toNat :=
      .short (by rwa [hlen])
    rwa [hlen] at hshort
  have hunmasked : MaskField (UInt8.ofNat n &&& 0x80 != 0) [] (Vector.replicate 4 0) :=
    hmask ▸ .unmasked
  have hspells : Spells (first :: UInt8.ofNat n :: ([] ++ [])) _ := .header hfield hunmasked
  rwa [hmask] at hspells

theorem textHeader_spelled (hn : n ≤ maxMsgLen) : Spells (textHeader n)
    ⟨(textHeader n).length, n, opcodeText, Vector.replicate 4 0, false⟩ := by
  by_cases hs : n ≤ 125
  · rw [textHeader, if_pos hs]
    exact short_spelled 0x81 hs
  · have hval : (UInt8.ofNat (n >>> 8)).toNat <<< 8 ||| (UInt8.ofNat (n &&& 0xFF)).toNat = n := by
      have hlt : n < 65536 := Nat.lt_of_le_of_lt hn (by decide)
      have hhi : n >>> 8 = n / 256 := Nat.shiftRight_eq_div_pow n 8
      have hlo : n &&& 0xFF = n % 256 := Nat.and_two_pow_sub_one_eq_mod n 8
      rw [hhi, hlo, two_bytes hlt]
    have hfield : LengthField (126 &&& 0x7F)
        [UInt8.ofNat (n >>> 8), UInt8.ofNat (n &&& 0xFF)] n := by
      have hwide : LengthField (126 &&& 0x7F) [UInt8.ofNat (n >>> 8), UInt8.ofNat (n &&& 0xFF)]
          ((UInt8.ofNat (n >>> 8)).toNat <<< 8 ||| (UInt8.ofNat (n &&& 0xFF)).toNat) := .wide rfl
      rwa [hval] at hwide
    have hspells : Spells (0x81 :: 126 ::
      ([UInt8.ofNat (n >>> 8), UInt8.ofNat (n &&& 0xFF)] ++ [])) _ := .header hfield .unmasked
    rw [textHeader, if_neg hs]
    exact hspells

/-- A frame has been written whose header the parser reads back, and the payload follows it. -/
def Written (opcode : UInt8) (payload : Bytes)
    (result : Exec (Except ErrorCode (Nat × Bytes))) : Prop :=
  ∃ n out hdr, result = .ok (.ok (n, out)) ∧ n ≤ out.length ∧
    parseFrameHeader (out.take n) = .ok (some hdr) ∧ hdr.opcode = opcode ∧ hdr.masked = false ∧
    hdr.payloadLen = payload.length ∧ (out.take n).drop hdr.headerLen = payload

theorem written_of_spells (h : Spells bytes hdr) (hm : hdr.masked = false)
    (hp : hdr.payloadLen = List.length payload)
    (hr : result = .ok (.ok (bytes.length + payload.length, bytes ++ (payload ++ pad)))) :
    Written hdr.opcode payload result := by
  have htake : (bytes ++ (payload ++ pad)).take (bytes.length + payload.length) =
      bytes ++ payload := by
    rw [← List.append_assoc, ← List.length_append, List.take_left]
  refine ⟨_, _, hdr, hr, ?_, ?_, rfl, hm, hp, ?_⟩
  · simp only [List.length_append]
    omega
  · rw [htake]
    exact parseFrameHeader_spelled h
  · rw [htake, ← h.length, List.drop_left]

theorem encodeTextFrame_eq (hn : payload.length ≤ maxMsgLen)
    (ho : pad.length = (textHeader payload.length).length)
    (hroom : payload.length ≤ List.length rest) :
    encodeTextFrame payload (pad ++ rest) =
      .ok (.ok ((textHeader payload.length).length + payload.length,
        textHeader payload.length ++ (payload ++ rest.drop payload.length))) := by
  have hfits : ¬ (textHeader payload.length).length + payload.length >
      (textHeader payload.length ++ rest).length := by
    rw [List.length_append]
    omega
  rw [encodeTextFrame, encodeTextFrameHeader_eq hn ho, ok_bind]
  simp only [if_neg hfits, copy_append _ _ _ hroom rfl rfl]
  rfl

theorem encodeTextFrame_written (hn : payload.length ≤ maxMsgLen)
    (ho : (textHeader payload.length).length + payload.length ≤ List.length out) :
    Written opcodeText payload (encodeTextFrame payload out) := by
  have hpad : (out.take (textHeader payload.length).length).length =
      (textHeader payload.length).length := List.length_take_of_le (by omega)
  have hroom : payload.length ≤ (out.drop (textHeader payload.length).length).length := by
    rw [List.length_drop]
    omega
  have hr := encodeTextFrame_eq hn hpad hroom
  rw [List.take_append_drop] at hr
  exact written_of_spells (textHeader_spelled hn) rfl rfl hr

theorem encodePongFrame_written (hn : List.length payload ≤ 125)
    (ho : 2 + payload.length ≤ List.length out) :
    Written opcodePong payload (encodePongFrame payload out) := by
  obtain ⟨x, y, pad, rfl⟩ : ∃ x y pad, out = x :: y :: pad := by
    rcases out with - | ⟨x, - | ⟨y, pad⟩⟩ <;> simp at ho ⊢
    omega
  have hpad : payload.length ≤ pad.length := by
    simp only [List.length_cons] at ho
    omega
  exact written_of_spells (short_spelled 0x8A hn) rfl rfl (encodePongFrame_eq hn hpad)

/-- The parser of a buffer, the reader of a stream and the encoders have one frame header. -/
theorem frame_headers_agree (payload out raw more : Bytes) (hdr : WsFrameHeader) :
    (payload.length ≤ maxMsgLen →
      (textHeader payload.length).length + payload.length ≤ out.length →
        Written opcodeText payload (encodeTextFrame payload out)) ∧
    (payload.length ≤ 125 → 2 + payload.length ≤ out.length →
      Written opcodePong payload (encodePongFrame payload out)) ∧
    (parseFrameHeader raw = .ok (some hdr) → hdr.payloadLen ≤ maxMsgLen →
      ∀ s rest, Socket.Steady s → s.incoming = raw ++ rest →
        hdr.headerLen ≤ raw.length ∧ ∃ s', readHead s = .ok (.ok hdr.head, s') ∧
          s.Delivers (raw.take hdr.headerLen) s' ∧
          s'.incoming = raw.drop hdr.headerLen ++ rest) ∧
    (parseFrameHeader raw = .ok (some hdr) → parseFrameHeader (raw ++ more) = .ok (some hdr)) := by
  refine ⟨encodeTextFrame_written, encodePongFrame_written, fun h hlen s rest hs hin => ?_,
    parseFrameHeader_extended more⟩
  obtain ⟨bytes, tail, rfl, hspells⟩ := parseFrameHeader_some h
  rw [← hspells.length, List.take_left, List.drop_left]
  rw [List.append_assoc] at hin
  exact ⟨by simp, readHead_spelled hspells hlen s _ hs hin⟩

/-- A text of three bytes, and the masked header of a client with the same text. -/
theorem three_bytes_agree :
    Written opcodeText [97, 98, 99] (encodeTextFrame [97, 98, 99] (List.replicate 8 0)) ∧
      Written opcodePong [97, 98, 99] (encodePongFrame [97, 98, 99] (List.replicate 8 0)) ∧
      (∃ s', readHead ⟨[0x81, 0x83, 1, 2, 3, 4, 96], [], [], false⟩ =
        .ok (.ok ⟨1, 3, some #v[1, 2, 3, 4]⟩, s') ∧ s'.incoming = [96]) ∧
      parseFrameHeader [0x81, 0x83, 1, 2, 3, 4, 96] =
        .ok (some ⟨6, 3, 1, #v[1, 2, 3, 4], true⟩) := by
  have hparse : parseFrameHeader [0x81, 0x83, 1, 2, 3, 4] =
      .ok (some ⟨6, 3, 1, #v[1, 2, 3, 4], true⟩) := by decide
  obtain ⟨ht, hp, hr, he⟩ := frame_headers_agree [97, 98, 99] (List.replicate 8 0)
    [0x81, 0x83, 1, 2, 3, 4] [96] ⟨6, 3, 1, #v[1, 2, 3, 4], true⟩
  obtain ⟨-, s', hs, -, hin⟩ := hr hparse (by decide) ⟨[0x81, 0x83, 1, 2, 3, 4, 96], [], [], false⟩
    [96] ⟨rfl, nofun⟩ rfl
  exact ⟨ht (by decide) (by decide), hp (by decide) (by decide), ⟨s', hs, hin⟩, he hparse⟩

end PicoConduit
