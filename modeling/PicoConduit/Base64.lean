import Mathlib.Data.List.Basic
import PicoConduit.Checked
import PicoConduit.Utf8

namespace PicoConduit
open Checked Utf8
set_option autoImplicit true

def encodeTable : Bytes :=
  "ABCDEFGHIJKLMNOPQRSTUVWXYZabcdefghijklmnopqrstuvwxyz0123456789+/".toList.map Char.toUInt8

/-- The 6-bit value of an alphabet character, and `0xFF` for every other byte. -/
def decodeTable (b : UInt8) : UInt8 :=
  if 'A'.toUInt8 ≤ b ∧ b ≤ 'Z'.toUInt8 then b - 'A'.toUInt8
  else if 'a'.toUInt8 ≤ b ∧ b ≤ 'z'.toUInt8 then b - 'a'.toUInt8 + 26
  else if '0'.toUInt8 ≤ b ∧ b ≤ '9'.toUInt8 then b - '0'.toUInt8 + 52
  else if b = '+'.toUInt8 then 62
  else if b = '/'.toUInt8 then 63
  else 0xFF

/-- The encoding loop over whole triples, and the match on what remains after them. -/
def encodeChunks (output : Bytes) (o : Nat) : Bytes → Exec (Nat × Bytes)
  | c0 :: c1 :: c2 :: rest => do
    let triple := c0.toUInt32 <<< 16 ||| c1.toUInt32 <<< 8 ||| c2.toUInt32
    let output ← store output o (← load encodeTable ((triple >>> 18) &&& 0x3F).toNat)
    let output ← store output (o + 1) (← load encodeTable ((triple >>> 12) &&& 0x3F).toNat)
    let output ← store output (o + 2) (← load encodeTable ((triple >>> 6) &&& 0x3F).toNat)
    let output ← store output (o + 3) (← load encodeTable (triple &&& 0x3F).toNat)
    encodeChunks output (o + 4) rest
  | [c0] => do
    let b0 := c0.toUInt32
    let output ← store output o (← load encodeTable ((b0 >>> 2) &&& 0x3F).toNat)
    let output ← store output (o + 1) (← load encodeTable ((b0 <<< 4) &&& 0x3F).toNat)
    let output ← store output (o + 2) '='.toUInt8
    let output ← store output (o + 3) '='.toUInt8
    pure (o + 4, output)
  | [c0, c1] => do
    let b0 := c0.toUInt32
    let b1 := c1.toUInt32
    let output ← store output o (← load encodeTable ((b0 >>> 2) &&& 0x3F).toNat)
    let output ← store output (o + 1)
      (← load encodeTable (((b0 <<< 4) ||| (b1 >>> 4)) &&& 0x3F).toNat)
    let output ← store output (o + 2) (← load encodeTable ((b1 <<< 2) &&& 0x3F).toNat)
    let output ← store output (o + 3) '='.toUInt8
    pure (o + 4, output)
  | [] => pure (o, output)

/-- `base64::encode`: the number of bytes written, and the buffer they were written to. -/
def encode (input output : Bytes) : Exec (Nat × Bytes) := encodeChunks output 0 input

theorem encodeTable_length : encodeTable.length = 64 := by decide

theorem sextet_lt (x : UInt32) : (x &&& 0x3F).toNat < encodeTable.length := by
  have hmask : (0x3F : UInt32).toNat < 2 ^ 6 := by decide
  rw [encodeTable_length, UInt32.toNat_and]
  exact Nat.and_lt_two_pow _ hmask

theorem encodeTable_yields (x : UInt32) :
    Yields (load encodeTable (x &&& 0x3F).toNat) fun _ => True :=
  load_yields (sextet_lt x)

theorem putChar_yields {f : Bytes → Exec β} (x : UInt32) (h : i < output.length)
    (hf : ∀ out, out.length = output.length → Yields (f out) Q) :
    Yields (load encodeTable (x &&& 0x3F).toNat >>= fun c => store output i c >>= f) Q :=
  (encodeTable_yields x).bind fun c _ => (store_yields h c).bind hf

/-- Encoding takes four bytes of the buffer for each group of up to three bytes. -/
theorem encodeChunks_yields (h : o + 4 * ((input.length + 2) / 3) ≤ output.length) :
    Yields (encodeChunks output o input) fun r =>
      r.1 = o + 4 * ((input.length + 2) / 3) ∧ r.2.length = output.length := by
  induction output, o, input using encodeChunks.induct with
  | case1 output o c0 c1 c2 rest ih =>
    simp only [List.length_cons] at h ⊢
    rw [encodeChunks]
    apply putChar_yields _ (by omega)
    intro out1 h1
    apply putChar_yields _ (by omega)
    intro out2 h2
    apply putChar_yields _ (by omega)
    intro out3 h3
    apply putChar_yields _ (by omega)
    intro out4 h4
    obtain ⟨r, hr, hn, hl⟩ := ih out4 (by omega)
    exact ⟨r, hr, by omega, by omega⟩
  | case2 output o c0 =>
    simp only [List.length_cons, List.length_nil] at h ⊢
    rw [encodeChunks]
    apply putChar_yields _ (by omega)
    intro out1 h1
    apply putChar_yields _ (by omega)
    intro out2 h2
    apply (store_yields (by omega) _).bind
    intro out3 h3
    refine (store_yields (by omega) _).bind fun out4 h4 => .ok ?_
    exact ⟨by simp only, by simp only; omega⟩
  | case3 output o c0 c1 =>
    simp only [List.length_cons, List.length_nil] at h ⊢
    rw [encodeChunks]
    apply putChar_yields _ (by omega)
    intro out1 h1
    apply putChar_yields _ (by omega)
    intro out2 h2
    apply putChar_yields _ (by omega)
    intro out3 h3
    refine (store_yields (by omega) _).bind fun out4 h4 => .ok ?_
    exact ⟨by simp only, by simp only; omega⟩
  | case4 output o => exact .ok ⟨rfl, rfl⟩

/-- The length of the input without its trailing padding. -/
def strippedLen (input : Bytes) : Nat :=
  let len := input.length
  if len ≥ 2 ∧ input[len - 1]? = some '='.toUInt8 ∧ input[len - 2]? = some '='.toUInt8 then
    len - 2
  else if len ≥ 1 ∧ input[len - 1]? = some '='.toUInt8 then len - 1
  else len

/-- The decoding loop over whole quadruples, and the match on what remains after them. -/
def decodeChunks (output : Bytes) (o : Nat) : Bytes → Exec (Except Unit Nat × Bytes)
  | c0 :: c1 :: c2 :: c3 :: rest =>
    let a := decodeTable c0
    let b := decodeTable c1
    let c := decodeTable c2
    let d := decodeTable c3
    if (a ||| b ||| c ||| d) &&& 0x80 ≠ 0 then pure (.error (), output)
    else do
      let output ← store output o ((a <<< 2) ||| (b >>> 4))
      let output ← store output (o + 1) ((b <<< 4) ||| (c >>> 2))
      let output ← store output (o + 2) ((c <<< 6) ||| d)
      decodeChunks output (o + 3) rest
  | [c0, c1] =>
    let a := decodeTable c0
    let b := decodeTable c1
    if (a ||| b) &&& 0x80 ≠ 0 then pure (.error (), output)
    else do
      let output ← store output o ((a <<< 2) ||| (b >>> 4))
      pure (.ok (o + 1), output)
  | [c0, c1, c2] =>
    let a := decodeTable c0
    let b := decodeTable c1
    let c := decodeTable c2
    if (a ||| b ||| c) &&& 0x80 ≠ 0 then pure (.error (), output)
    else do
      let output ← store output o ((a <<< 2) ||| (b >>> 4))
      let output ← store output (o + 1) ((b <<< 4) ||| (c >>> 2))
      pure (.ok (o + 2), output)
  | [_] => pure (.error (), output)
  | [] => pure (.ok o, output)

/-- `base64::decode`: the number of bytes written or a rejection, and the output buffer. -/
def decode (input output : Bytes) : Exec (Except Unit Nat × Bytes) := do
  let data ← slice input 0 (strippedLen input)
  decodeChunks output 0 data

/-- A character of the base64 alphabet. -/
def IsAlphabet (b : UInt8) : Prop := decodeTable b ≤ 63

instance : DecidablePred IsAlphabet := fun b => inferInstanceAs (Decidable (decodeTable b ≤ 63))

/-- The input without its trailing padding. -/
def unpadded (input : Bytes) : Bytes := input.take (strippedLen input)

theorem strippedLen_le (input : Bytes) : strippedLen input ≤ input.length := by
  simp only [strippedLen]
  split
  · omega
  · split <;> omega

theorem decode_eq (input output : Bytes) :
    decode input output = decodeChunks output 0 (unpadded input) := by
  simp only [decode, slice_zero (strippedLen_le input), ok_bind, unpadded]

theorem unpadded_replicate (n : Nat) (hb : b ≠ '='.toUInt8) :
    unpadded (List.replicate n b) = List.replicate n b := by
  have hne (i : Nat) : (List.replicate n b)[i]? ≠ some '='.toUInt8 := by
    rw [List.getElem?_replicate]
    split
    · exact fun h => hb (Option.some.inj h)
    · simp
  have hl : strippedLen (List.replicate n b) = n := by
    simp only [strippedLen, hne, and_false, ↓reduceIte, List.length_replicate]
  rw [unpadded, hl, List.take_replicate, Nat.min_self]

theorem decodeTable_and (b : UInt8) : decodeTable b &&& 0x80 = 0 ↔ IsAlphabet b := by
  have h : ∀ n : Fin 256, decodeTable (UInt8.ofFin n) &&& 0x80 = 0 ↔
      IsAlphabet (UInt8.ofFin n) := by
    decide +kernel
  exact h b.toFin

theorem or_and_eq_zero (a b m : UInt8) : (a ||| b) &&& m = 0 ↔ a &&& m = 0 ∧ b &&& m = 0 := by
  have h : (a ||| b) &&& m = (a &&& m) ||| (b &&& m) :=
    UInt8.toBitVec_inj.1 BitVec.and_or_distrib_right
  rw [h, UInt8.or_eq_zero_iff]

/-- The rejection test of a quadruple: one of its characters is outside the alphabet. -/
theorem quadruple_valid (c0 c1 c2 c3 : UInt8) :
    (decodeTable c0 ||| decodeTable c1 ||| decodeTable c2 ||| decodeTable c3) &&& 0x80 = 0 ↔
      ∀ c ∈ [c0, c1, c2, c3], IsAlphabet c := by
  simp only [or_and_eq_zero, decodeTable_and, List.forall_mem_cons, List.not_mem_nil,
    false_implies, implies_true, and_true, and_assoc]

theorem decodeChunks_invalid (h : ¬ ∀ c ∈ [c0, c1, c2, c3], IsAlphabet c) :
    decodeChunks output o (c0 :: c1 :: c2 :: c3 :: rest) = .ok (.error (), output) := by
  rw [← quadruple_valid] at h
  simp only [decodeChunks, ne_eq, h, not_false_eq_true, ↓reduceIte, pure_eq]

theorem decodeChunks_valid (rest : Bytes) (h : ∀ c ∈ [c0, c1, c2, c3], IsAlphabet c)
    (hroom : o + 3 ≤ output.length) : ∃ output', output'.length = output.length ∧
      decodeChunks output o (c0 :: c1 :: c2 :: c3 :: rest) = decodeChunks output' (o + 3) rest := by
  rw [← quadruple_valid] at h
  simp only [decodeChunks, ne_eq, h, not_true_eq_false, ↓reduceIte]
  rw [store_of_lt (by omega), ok_bind, store_of_lt (by rw [List.length_set]; omega), ok_bind,
    store_of_lt (by simp only [List.length_set]; omega), ok_bind]
  exact ⟨_, by simp only [List.length_set], rfl⟩

theorem decodeChunks_full (h : ∀ c ∈ [c0, c1, c2, c3], IsAlphabet c)
    (hroom : output.length = o + 2) :
    decodeChunks output o (c0 :: c1 :: c2 :: c3 :: rest) = .error .index := by
  rw [← quadruple_valid] at h
  simp only [decodeChunks, ne_eq, h, not_true_eq_false, ↓reduceIte]
  rw [store_of_lt (by omega), ok_bind, store_of_lt (by rw [List.length_set]; omega), ok_bind,
    store_of_le (by simp only [List.length_set]; omega), error_bind]

/-- What is left after the quadruples writes at most two bytes. -/
theorem decodeChunks_tail (hd : data.length < 4) (h : o + 2 ≤ output.length) :
    ∃ r, decodeChunks output o data = .ok r := by
  match data with
  | [] => exact ⟨_, rfl⟩
  | [_] => exact ⟨_, rfl⟩
  | [c0, c1] =>
    simp only [decodeChunks]
    split
    · exact ⟨_, rfl⟩
    · simp only [store_of_lt (show o < output.length by omega), ok_bind]
      exact ⟨_, rfl⟩
  | [c0, c1, c2] =>
    simp only [decodeChunks]
    split
    · exact ⟨_, rfl⟩
    · rw [store_of_lt (by omega), ok_bind, store_of_lt (by rw [List.length_set]; omega), ok_bind]
      exact ⟨_, rfl⟩
  | _ :: _ :: _ :: _ :: _ =>
    simp only [List.length_cons] at hd
    omega

theorem exists_quadruple {data : Bytes} (h : 4 ≤ data.length) :
    ∃ c0 c1 c2 c3 rest, data = c0 :: c1 :: c2 :: c3 :: rest := by
  match data with
  | c0 :: c1 :: c2 :: c3 :: rest => exact ⟨c0, c1, c2, c3, rest, rfl⟩
  | [] | [_] | [_, _] | [_, _, _] =>
    simp only [List.length_cons, List.length_nil] at h
    omega

/-- An output with room for `k` triples and two bytes is overrun by the first `k + 1`
quadruples, when the input has that many and all of them are valid. -/
theorem decodeChunks_error (k : Nat) (h : output.length = o + 3 * k + 2) :
    decodeChunks output o data = .error p ↔
      p = .index ∧ 4 * (k + 1) ≤ data.length ∧ ∀ c ∈ data.take (4 * (k + 1)), IsAlphabet c := by
  induction k generalizing output o data with
  | zero =>
    by_cases hd : data.length < 4
    · obtain ⟨r, hr⟩ := decodeChunks_tail hd (show o + 2 ≤ output.length by omega)
      simp only [hr, reduceCtorEq, false_iff, not_and]
      omega
    · obtain ⟨c0, c1, c2, c3, rest, rfl⟩ := exists_quadruple (Nat.not_lt.1 hd)
      have htake : (c0 :: c1 :: c2 :: c3 :: rest).take (4 * (0 + 1)) = [c0, c1, c2, c3] := rfl
      have hlen : 4 * (0 + 1) ≤ (c0 :: c1 :: c2 :: c3 :: rest).length := by simp
      rw [htake]
      by_cases hv : ∀ c ∈ [c0, c1, c2, c3], IsAlphabet c
      · rw [decodeChunks_full hv h, Except.error.injEq, eq_comm]
        exact (and_iff_left ⟨hlen, hv⟩).symm
      · rw [decodeChunks_invalid hv]
        simp only [reduceCtorEq, false_iff, not_and]
        exact fun _ _ => hv
  | succ k ih =>
    by_cases hd : data.length < 4
    · obtain ⟨r, hr⟩ := decodeChunks_tail hd (show o + 2 ≤ output.length by omega)
      simp only [hr, reduceCtorEq, false_iff, not_and]
      omega
    · obtain ⟨c0, c1, c2, c3, rest, rfl⟩ := exists_quadruple (Nat.not_lt.1 hd)
      have htake : (c0 :: c1 :: c2 :: c3 :: rest).take (4 * (k + 1 + 1)) =
          [c0, c1, c2, c3] ++ rest.take (4 * (k + 1)) := rfl
      have hlen : 4 * (k + 1 + 1) ≤ (c0 :: c1 :: c2 :: c3 :: rest).length ↔
          4 * (k + 1) ≤ rest.length := by
        simp only [List.length_cons]
        omega
      rw [htake, List.forall_mem_append, hlen]
      by_cases hv : ∀ c ∈ [c0, c1, c2, c3], IsAlphabet c
      · obtain ⟨output', ho, he⟩ :=
          decodeChunks_valid rest hv (show o + 3 ≤ output.length by omega)
        rw [he, ih (show output'.length = o + 3 + 3 * k + 2 by omega)]
        simp only [and_iff_right hv]
      · rw [decodeChunks_invalid hv]
        simp only [reduceCtorEq, false_iff, not_and]
        exact fun _ _ hc => absurd hc hv

/-- A decoding leaves its buffer's size, and the count it reports is three bytes for four
characters and stays within the buffer. -/
theorem decodeChunks_count (h : decodeChunks output o data = .ok (r, output'))
    (ho : o ≤ output.length) :
    output'.length = output.length ∧
      ∀ n, r = .ok n → n ≤ output.length ∧ n = o + data.length * 3 / 4 := by
  fun_induction decodeChunks output o data with
  | case1 output o c0 c1 c2 c3 rest a b c d hv =>
    cases h
    simp
  | case2 output o c0 c1 c2 c3 rest a b c d hv ih =>
    simp only [bind_eq_ok] at h
    obtain ⟨o₁, h₁, o₂, h₂, o₃, h₃, h⟩ := h
    obtain ⟨l₁, e₁⟩ := store_eq_ok h₁
    obtain ⟨l₂, e₂⟩ := store_eq_ok h₂
    obtain ⟨l₃, e₃⟩ := store_eq_ok h₃
    obtain ⟨e, hn⟩ := ih o₃ h (by omega)
    refine ⟨by omega, fun n hr => ?_⟩
    obtain ⟨hle, hcount⟩ := hn n hr
    simp only [List.length_cons]
    omega
  | case3 output o c0 c1 a b hv =>
    cases h
    simp
  | case4 output o c0 c1 a b hv =>
    simp only [bind_eq_ok, pure_eq, Except.ok.injEq, Prod.mk.injEq] at h
    obtain ⟨o₁, h₁, rfl, rfl⟩ := h
    obtain ⟨l₁, e₁⟩ := store_eq_ok h₁
    refine ⟨e₁, fun n hr => ?_⟩
    cases hr
    exact ⟨by omega, by simp⟩
  | case5 output o c0 c1 c2 a b c hv =>
    cases h
    simp
  | case6 output o c0 c1 c2 a b c hv =>
    simp only [bind_eq_ok, pure_eq, Except.ok.injEq, Prod.mk.injEq] at h
    obtain ⟨o₁, h₁, o₂, h₂, rfl, rfl⟩ := h
    obtain ⟨l₁, e₁⟩ := store_eq_ok h₁
    obtain ⟨l₂, e₂⟩ := store_eq_ok h₂
    refine ⟨by omega, fun n hr => ?_⟩
    cases hr
    exact ⟨by omega, by simp⟩
  | case7 output o c0 =>
    cases h
    simp
  | case8 output o =>
    cases h
    refine ⟨rfl, fun n hr => ?_⟩
    cases hr
    exact ⟨ho, rfl⟩

end PicoConduit
