import PicoConduit.Delimited
import PicoConduit.Protocol
import PicoConduit.Transducer

namespace PicoConduit
open Checked Heapless Utf8 Transducer Delimited
set_option autoImplicit true

structure FrameReader where
  buf : Vector UInt8 maxMsgLen
  pos : Nat
  overflowed : Bool
  deriving DecidableEq

def FrameReader.new : FrameReader where
  buf := .replicate maxMsgLen 0
  pos := 0
  overflowed := false

def FrameReader.reset (r : FrameReader) : FrameReader := { r with pos := 0, overflowed := false }

/-- What a pushed byte yields: a frame, an error code, or nothing yet. -/
abbrev Pushed := Except ErrorCode (Option Bytes)

def FrameReader.push (r : FrameReader) (byte : UInt8) : Exec (Pushed × FrameReader) :=
  if byte = newline then
    if r.overflowed then pure (.error .msgTooLarge, r.reset)
    else do
      let frame ← slice r.buf.toList 0 r.pos
      pure (.ok (some frame), { r with pos := 0 })
  else if r.pos ≥ maxMsgLen - 1 then pure (.ok none, { r with overflowed := true })
  else do
    let buf ← setArray r.buf r.pos byte
    pure (.ok none, { r with buf, pos := r.pos + 1 })

/-- What a line is read as: a frame with exactly its bytes, or an error when it is too long. -/
def lineFrame (line : Bytes) : Pushed :=
  if line.length ≤ maxMsgLen - 1 then .ok (some line) else .error .msgTooLarge

/-- The reader holds what fits of a line that is not yet closed, and whether it overflowed. -/
structure Holds (line : Bytes) (r : FrameReader) : Prop where
  pos : r.pos = min line.length (maxMsgLen - 1)
  held : r.buf.toList.take r.pos = line.take (maxMsgLen - 1)
  overflowed : r.overflowed = true ↔ maxMsgLen - 1 < line.length

theorem holds_nil : r.pos = 0 → r.overflowed = false → Holds [] r := by
  intro hp ho
  exact ⟨hp, by rw [hp]; rfl, by simp [ho]⟩

theorem Holds.push_newline (h : Holds line r) :
    ∃ r', r.push newline = .ok (lineFrame line, r') ∧ Holds [] r' := by
  simp only [FrameReader.push, ↓reduceIte]
  cases ho : r.overflowed with
  | true =>
    have hl := h.overflowed.1 ho
    refine ⟨r.reset, ?_, holds_nil rfl rfl⟩
    rw [if_pos rfl, lineFrame, if_neg (Nat.not_le.2 hl)]
    rfl
  | false =>
    have hl : line.length ≤ maxMsgLen - 1 :=
      Nat.le_of_not_lt fun hlt => by simp [h.overflowed.2 hlt] at ho
    have hbuf : r.pos ≤ r.buf.toList.length := by
      rw [h.pos, Vector.length_toList]
      omega
    refine ⟨{ r with pos := 0 }, ?_, holds_nil rfl ho⟩
    rw [slice_zero hbuf, h.held, List.take_of_length_le hl, lineFrame, if_pos hl]
    simp [ho]

theorem Holds.push_byte (h : Holds line r) (hb : byte ≠ newline) :
    ∃ r', r.push byte = .ok (.ok none, r') ∧ Holds (line ++ [byte]) r' := by
  simp only [FrameReader.push, hb, ↓reduceIte]
  have hlen : (line ++ [byte]).length = line.length + 1 := by simp
  by_cases hfull : r.pos ≥ maxMsgLen - 1
  · have hl : maxMsgLen - 1 ≤ line.length := by
      rw [h.pos] at hfull
      omega
    refine ⟨{ r with overflowed := true }, by rw [if_pos hfull]; rfl, ?_, ?_, ?_⟩
    · rw [hlen, h.pos]
      omega
    · rw [h.held, List.take_append_of_le_length hl]
    · rw [hlen]
      simp only [true_iff]
      omega
  · have hp : r.pos = line.length := by
      rw [h.pos] at hfull ⊢
      omega
    have hlt : r.pos < maxMsgLen := by omega
    have hset : setArray r.buf r.pos byte = .ok (r.buf.set r.pos byte) := dif_pos hlt
    refine ⟨{ r with buf := r.buf.set r.pos byte, pos := r.pos + 1 },
      by rw [if_neg hfull, hset]; rfl, ?_, ?_, ?_⟩
    · rw [hlen]
      change r.pos + 1 = _
      omega
    · have hheld := h.held
      rw [List.take_of_length_le (show line.length ≤ maxMsgLen - 1 by omega)] at hheld
      rw [List.take_of_length_le (show (line ++ [byte]).length ≤ maxMsgLen - 1 by omega),
        Vector.toList_set, List.take_add_one, List.take_set_of_le (Nat.le_refl _), hheld]
      simp [hlt]
    · rw [hlen]
      exact h.overflowed.trans ⟨fun hc => by omega, fun hc => by omega⟩

/-- The result of the byte that follows a stream. -/
def byteResult (stream : Bytes) (byte : UInt8) : Pushed :=
  if byte = newline then lineFrame (trailing newline stream) else .ok none

theorem Holds.push (h : Holds (trailing newline stream) r) (byte : UInt8) :
    ∃ r', r.push byte = .ok (byteResult stream byte, r') ∧
      Holds (trailing newline (stream ++ [byte])) r' := by
  by_cases hb : byte = newline
  · subst hb
    rw [trailing_concat_self, byteResult, if_pos rfl]
    exact h.push_newline
  · rw [trailing_concat hb, byteResult, if_neg hb]
    exact h.push_byte hb

/-- What the reader yields for a stream: one result for each byte, and of these the ones that
are not empty read the lines of the stream one by one. -/
structure FramesStream (stream : Bytes) (results : List Pushed) : Prop where
  lines : results.filter (· ≠ .ok none) = (closed newline stream).map lineFrame
  bytes : ∀ pre byte post, stream = pre ++ byte :: post →
    results[pre.length]? = some (byteResult pre byte)

theorem lineFrame_ne (line : Bytes) : lineFrame line ≠ .ok none := by
  simp only [lineFrame]
  split <;> simp

theorem FramesStream.concat (h : FramesStream stream results)
    (hl : results.length = stream.length) :
    FramesStream (stream ++ [byte]) (results ++ [byteResult stream byte]) := by
  constructor
  · rw [List.filter_append, h.lines, byteResult]
    split
    · rename_i hb
      subst hb
      rw [closed_concat_self, List.map_append, List.filter_cons_of_pos (by simp [lineFrame_ne])]
      rfl
    · rw [closed_concat ‹_›, List.filter_cons_of_neg (by simp), List.filter_nil, List.append_nil]
  · intro pre b post he
    cases post using List.reverseRecOn with
    | nil =>
      obtain ⟨rfl, hb⟩ := List.append_inj' he rfl
      cases hb
      rw [← hl, List.getElem?_concat_length]
    | append_singleton post x =>
      rw [← List.cons_append, ← List.append_assoc] at he
      obtain ⟨rfl, -⟩ := List.append_inj' he rfl
      rw [List.getElem?_append_left (by simp [hl])]
      exact h.bytes pre b post rfl

theorem push_stream (stream : Bytes) : ∃ results r, Steps FrameReader.push .new stream results r ∧
    FramesStream stream results ∧ Holds (trailing newline stream) r := by
  induction stream using List.reverseRecOn with
  | nil =>
    exact ⟨[], .new, .nil, ⟨rfl, fun pre b post he => by simp at he⟩, holds_nil rfl rfl⟩
  | append_singleton stream byte ih =>
    obtain ⟨results, r, hs, hf, hh⟩ := ih
    obtain ⟨r', hp, hh'⟩ := hh.push byte
    exact ⟨_, r', hs.append (steps_singleton.2 ⟨_, rfl, hp⟩), hf.concat hs.length_eq, hh'⟩

/-- The reader implements newline framing, and its position never leaves the buffer. -/
theorem frame_reader_framing (stream : Bytes) :
    (∃ results r, Steps FrameReader.push .new stream results r ∧ FramesStream stream results) ∧
      ∀ pre post, stream = pre ++ post → ∀ results r,
        Steps FrameReader.push .new pre results r → r.pos ≤ maxMsgLen - 1 := by
  constructor
  · obtain ⟨results, r, hs, hf, -⟩ := push_stream stream
    exact ⟨results, r, hs, hf⟩
  · intro pre post _ results r hs
    obtain ⟨results', r', hs', -, hh⟩ := push_stream pre
    obtain ⟨-, rfl⟩ := hs.deterministic hs'
    rw [hh.pos]
    exact Nat.min_le_right _ _

end PicoConduit
