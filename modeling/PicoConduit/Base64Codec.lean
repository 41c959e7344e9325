import PicoConduit.Interfaces
import PicoConduit.Wire

namespace PicoConduit
open Checked Heapless Utf8
set_option autoImplicit true

/-- The alphabet character of the low six bits of a number. -/
def sextetChar (x : UInt32) : UInt8 := (encodeTable[(x &&& 0x3F).toNat]?).getD 0

theorem load_sextetChar (x : UInt32) :
    load encodeTable (x &&& 0x3F).toNat = .ok (sextetChar x) := by
  have hlt := sextet_lt x
  rw [load_of_lt hlt, sextetChar, List.getElem?_eq_getElem hlt, Option.getD_some]

/-- Writing the next character behind what has been written. -/
theorem putChar_append {f : Bytes → Exec β} (pre post : Bytes) (b : UInt8) (x : UInt32)
    (ho : o = pre.length) :
    (load encodeTable (x &&& 0x3F).toNat >>= fun c => store (pre ++ b :: post) o c >>= f) =
      f (pre ++ [sextetChar x] ++ post) := by
  rw [load_sextetChar, ok_bind, store_append ho, ok_bind]

/-- The four characters of three bytes. -/
def quadruple (c0 c1 c2 : UInt8) : Bytes :=
  let triple := c0.toUInt32 <<< 16 ||| c1.toUInt32 <<< 8 ||| c2.toUInt32
  [sextetChar (triple >>> 18), sextetChar (triple >>> 12), sextetChar (triple >>> 6),
    sextetChar triple]

/-- The characters of a text before its padding. -/
def encodedBody : Bytes → Bytes
  | c0 :: c1 :: c2 :: rest => quadruple c0 c1 c2 ++ encodedBody rest
  | [c0] => [sextetChar (c0.toUInt32 >>> 2), sextetChar (c0.toUInt32 <<< 4)]
  | [c0, c1] =>
    [sextetChar (c0.toUInt32 >>> 2), sextetChar (c0.toUInt32 <<< 4 ||| c1.toUInt32 >>> 4),
      sextetChar (c1.toUInt32 <<< 2)]
  | [] => []

def padding (n : Nat) : Bytes := List.replicate n '='.toUInt8

def padCount (x : Bytes) : Nat := (3 - x.length % 3) % 3

def encodedText (x : Bytes) : Bytes := encodedBody x ++ padding (padCount x)

theorem padCount_triple (c0 c1 c2 : UInt8) (rest : Bytes) :
    padCount (c0 :: c1 :: c2 :: rest) = padCount rest := by
  simp only [padCount, List.length_cons]
  omega

theorem encodedText_triple (c0 c1 c2 : UInt8) (rest : Bytes) :
    encodedText (c0 :: c1 :: c2 :: rest) = quadruple c0 c1 c2 ++ encodedText rest := by
  rw [encodedText, padCount_triple, encodedBody, List.append_assoc]
  rfl

theorem encodedText_single (c0 : UInt8) : encodedText [c0] =
    [sextetChar (c0.toUInt32 >>> 2), sextetChar (c0.toUInt32 <<< 4), '='.toUInt8, '='.toUInt8] := by
  simp [encodedText, encodedBody, padCount, padding]

theorem encodedText_pair (c0 c1 : UInt8) : encodedText [c0, c1] =
    [sextetChar (c0.toUInt32 >>> 2), sextetChar (c0.toUInt32 <<< 4 ||| c1.toUInt32 >>> 4),
      sextetChar (c1.toUInt32 <<< 2), '='.toUInt8] := by
  simp [encodedText, encodedBody, padCount, padding]

theorem encodedText_length (x : Bytes) : (encodedText x).length = 4 * ((x.length + 2) / 3) := by
  induction x using encodedBody.induct with
  | case1 c0 c1 c2 rest ih =>
    rw [encodedText_triple, List.length_append, ih]
    simp only [quadruple, List.length_cons, List.length_nil]
    omega
  | case2 c0 => simp [encodedText_single]
  | case3 c0 c1 => simp [encodedText_pair]
  | case4 => rfl

theorem encodeChunks_triple (pre buf rest : Bytes) (b0 b1 b2 b3 c0 c1 c2 : UInt8) :
    encodeChunks (pre ++ b0 :: b1 :: b2 :: b3 :: buf) pre.length (c0 :: c1 :: c2 :: rest) =
      encodeChunks (pre ++ quadruple c0 c1 c2 ++ buf) (pre ++ quadruple c0 c1 c2).length rest := by
  rw [encodeChunks, putChar_append _ _ _ _ rfl, putChar_append _ _ _ _ (by simp),
    putChar_append _ _ _ _ (by simp), putChar_append _ _ _ _ (by simp)]
  simp only [quadruple, List.append_assoc, List.cons_append, List.nil_append,
    List.length_append, List.length_cons, List.length_nil, Nat.zero_add, Nat.reduceAdd]

theorem encodeChunks_append (pre buf x : Bytes) (h : (encodedText x).length ≤ buf.length) :
    encodeChunks (pre ++ buf) pre.length x =
      .ok (pre.length + (encodedText x).length,
        pre ++ (encodedText x ++ buf.drop (encodedText x).length)) := by
  induction x using encodedBody.induct generalizing pre buf with
  | case1 c0 c1 c2 rest ih =>
    rw [encodedText_triple] at h ⊢
    have hquad : (quadruple c0 c1 c2).length = 4 := rfl
    rw [List.length_append, hquad] at h ⊢
    have hroom : 4 ≤ buf.length := by omega
    obtain ⟨b0, b1, b2, b3, buf, rfl⟩ := exists_quadruple hroom
    simp only [List.length_cons] at h
    rw [encodeChunks_triple, ih _ _ (by omega), List.length_append, hquad, Nat.add_assoc,
      List.append_assoc, List.append_assoc, Nat.add_comm 4]
    rfl
  | case2 c0 =>
    rw [encodedText_single] at h ⊢
    have hroom : 4 ≤ buf.length := h
    obtain ⟨b0, b1, b2, b3, buf, rfl⟩ := exists_quadruple hroom
    rw [encodeChunks, putChar_append _ _ _ _ rfl, putChar_append _ _ _ _ (by simp),
      store_append (by simp), ok_bind, store_append (by simp), ok_bind]
    simp
  | case3 c0 c1 =>
    rw [encodedText_pair] at h ⊢
    have hroom : 4 ≤ buf.length := h
    obtain ⟨b0, b1, b2, b3, buf, rfl⟩ := exists_quadruple hroom
    rw [encodeChunks, putChar_append _ _ _ _ rfl, putChar_append _ _ _ _ (by simp),
      putChar_append _ _ _ _ (by simp), store_append (by simp), ok_bind]
    simp
  | case4 => simp [encodeChunks, encodedText, encodedBody, padCount, padding]

/-- The three bytes of four characters. -/
def tripleBytes (c0 c1 c2 c3 : UInt8) : Bytes :=
  [decodeTable c0 <<< 2 ||| decodeTable c1 >>> 4, decodeTable c1 <<< 4 ||| decodeTable c2 >>> 2,
    decodeTable c2 <<< 6 ||| decodeTable c3]

def AllAlphabet (chars : Bytes) : Prop := ∀ c ∈ chars, IsAlphabet c

instance : DecidablePred AllAlphabet := fun chars => List.decidableBAll IsAlphabet chars

theorem allAlphabet_append : AllAlphabet (xs ++ ys) ↔ AllAlphabet xs ∧ AllAlphabet ys :=
  List.forall_mem_append

/-- The bytes that a text without padding stands for, unless it is malformed. -/
def decodedBytes : Bytes → Option Bytes
  | c0 :: c1 :: c2 :: c3 :: rest =>
    if AllAlphabet [c0, c1, c2, c3] then
      (decodedBytes rest).map (tripleBytes c0 c1 c2 c3 ++ ·)
    else none
  | [c0, c1] =>
    if AllAlphabet [c0, c1] then some [decodeTable c0 <<< 2 ||| decodeTable c1 >>> 4]
    else none
  | [c0, c1, c2] =>
    if AllAlphabet [c0, c1, c2] then
      some [decodeTable c0 <<< 2 ||| decodeTable c1 >>> 4,
        decodeTable c1 <<< 4 ||| decodeTable c2 >>> 2]
    else none
  | [_] => none
  | [] => some []

theorem pair_valid (c0 c1 : UInt8) : (decodeTable c0 ||| decodeTable c1) &&& 0x80 = 0 ↔
    AllAlphabet [c0, c1] := by
  simp only [AllAlphabet, or_and_eq_zero, decodeTable_and, List.forall_mem_cons, List.not_mem_nil,
    false_implies, implies_true, and_true]

theorem triple_valid (c0 c1 c2 : UInt8) :
    (decodeTable c0 ||| decodeTable c1 ||| decodeTable c2) &&& 0x80 = 0 ↔
      AllAlphabet [c0, c1, c2] := by
  simp only [AllAlphabet, or_and_eq_zero, decodeTable_and, List.forall_mem_cons, List.not_mem_nil,
    false_implies, implies_true, and_true, and_assoc]

theorem decodeChunks_quadruple (pre buf rest : Bytes) (b0 b1 b2 : UInt8)
    (h : ∀ c ∈ [c0, c1, c2, c3], IsAlphabet c) :
    decodeChunks (pre ++ b0 :: b1 :: b2 :: buf) pre.length (c0 :: c1 :: c2 :: c3 :: rest) =
      decodeChunks (pre ++ tripleBytes c0 c1 c2 c3 ++ buf)
        (pre ++ tripleBytes c0 c1 c2 c3).length rest := by
  rw [← quadruple_valid] at h
  simp only [decodeChunks, ne_eq, h, not_true_eq_false, ↓reduceIte]
  rw [store_append rfl, ok_bind, store_append (by simp), ok_bind, store_append (by simp), ok_bind]
  simp only [tripleBytes, List.append_assoc, List.cons_append, List.nil_append,
    List.length_append, List.length_cons, List.length_nil, Nat.zero_add, Nat.reduceAdd]

theorem exists_triple {buf : Bytes} (h : 3 ≤ buf.length) :
    ∃ b0 b1 b2 rest, buf = b0 :: b1 :: b2 :: rest := by
  rcases buf with _ | ⟨b0, _ | ⟨b1, _ | ⟨b2, rest⟩⟩⟩
  · simp at h
  · simp at h
  · simp at h
  · exact ⟨b0, b1, b2, rest, rfl⟩

/-- The decoding loop writes the bytes of a well-formed text behind what has been written. -/
theorem decodeChunks_append (pre buf : Bytes) (hd : decodedBytes data = some bytes)
    (h : bytes.length ≤ buf.length) :
    decodeChunks (pre ++ buf) pre.length data =
      .ok (.ok (pre.length + bytes.length), pre ++ (bytes ++ buf.drop bytes.length)) := by
  fun_induction decodedBytes data generalizing pre buf bytes with
  | case1 c0 c1 c2 c3 rest hv ih =>
    obtain ⟨tail, htail, rfl⟩ := Option.map_eq_some_iff.1 hd
    have htriple : (tripleBytes c0 c1 c2 c3).length = 3 := rfl
    rw [List.length_append, htriple] at h ⊢
    obtain ⟨b0, b1, b2, buf, rfl⟩ := exists_triple (Nat.le_of_add_right_le h)
    simp only [List.length_cons] at h
    rw [decodeChunks_quadruple _ _ _ _ _ _ hv, ih _ _ htail (by omega), List.length_append,
      htriple, Nat.add_assoc, List.append_assoc, List.append_assoc, Nat.add_comm 3]
    rfl
  | case2 c0 c1 c2 c3 rest hv => cases hd
  | case3 c0 c1 hv =>
    cases hd
    rw [← pair_valid] at hv
    cases buf with
    | nil => simp at h
    | cons b0 buf =>
      simp only [decodeChunks, ne_eq, hv, not_true_eq_false, ↓reduceIte]
      rw [store_append rfl, ok_bind]
      simp
  | case4 c0 c1 hv => cases hd
  | case5 c0 c1 c2 hv =>
    cases hd
    rw [← triple_valid] at hv
    rcases buf with _ | ⟨b0, _ | ⟨b1, buf⟩⟩
    · simp at h
    · simp at h
    · simp only [decodeChunks, ne_eq, hv, not_true_eq_false, ↓reduceIte]
      rw [store_append rfl, ok_bind, store_append (by simp), ok_bind]
      simp
  | case6 c0 c1 c2 hv => cases hd
  | case7 c0 => cases hd
  | case8 =>
    cases hd
    simp [decodeChunks]

theorem decodeChunks_none (pre buf : Bytes) (hd : decodedBytes data = none)
    (h : data.length / 4 * 3 ≤ buf.length) :
    ∃ out, decodeChunks (pre ++ buf) pre.length data = .ok (.error (), out) := by
  fun_induction decodedBytes data generalizing pre buf with
  | case1 c0 c1 c2 c3 rest hv ih =>
    rw [Option.map_eq_none_iff] at hd
    simp only [List.length_cons] at h
    have hroom : 3 ≤ buf.length := by omega
    obtain ⟨b0, b1, b2, buf, rfl⟩ := exists_triple hroom
    simp only [List.length_cons] at h
    rw [decodeChunks_quadruple _ _ _ _ _ _ hv]
    exact ih _ _ hd (by omega)
  | case2 c0 c1 c2 c3 rest hv => exact ⟨_, decodeChunks_invalid hv⟩
  | case4 c0 c1 hv =>
    rw [← pair_valid] at hv
    simp only [decodeChunks, ne_eq, hv, not_false_eq_true, ↓reduceIte, pure_eq]
    exact ⟨_, rfl⟩
  | case6 c0 c1 c2 hv =>
    rw [← triple_valid] at hv
    simp only [decodeChunks, ne_eq, hv, not_false_eq_true, ↓reduceIte, pure_eq]
    exact ⟨_, rfl⟩
  | case7 c0 => exact ⟨_, rfl⟩
  | case3 | case5 | case8 => cases hd

theorem sextetChar_table : ∀ n : Fin 64,
    decodeTable ((encodeTable[n.val]?).getD 0) = UInt8.ofNat n ∧
      IsAlphabet ((encodeTable[n.val]?).getD 0) := by
  decide +kernel

theorem decodeTable_sextetChar (x : UInt32) : decodeTable (sextetChar x) = (x &&& 0x3F).toUInt8 :=
  (sextetChar_table ⟨_, encodeTable_length ▸ sextet_lt x⟩).1

theorem isAlphabet_sextetChar (x : UInt32) : IsAlphabet (sextetChar x) :=
  (sextetChar_table ⟨_, encodeTable_length ▸ sextet_lt x⟩).2

/-- Two bytes are equal if their bits are. -/
theorem byte_ext {a b : UInt8}
    (h : ∀ i ∈ List.range 8, a.toBitVec.getLsbD i = b.toBitVec.getLsbD i) :
    a = b := by
  apply UInt8.toBitVec_inj.1
  apply BitVec.eq_of_getLsbD_eq
  intro i hi
  exact h i (List.mem_range.2 hi)

theorem tripleBytes_quadruple (c0 c1 c2 : UInt8) :
    let triple := c0.toUInt32 <<< 16 ||| c1.toUInt32 <<< 8 ||| c2.toUInt32
    tripleBytes (sextetChar (triple >>> 18)) (sextetChar (triple >>> 12))
      (sextetChar (triple >>> 6)) (sextetChar triple) = [c0, c1, c2] := by
  simp only [tripleBytes, decodeTable_sextetChar, List.cons.injEq, and_true]
  refine ⟨byte_ext ?_, byte_ext ?_, byte_ext ?_⟩
  · simp [List.range, List.range.loop]
  · simp [List.range, List.range.loop]
  · simp [List.range, List.range.loop]

theorem decodedBytes_single (c0 : UInt8) :
    decodeTable (sextetChar (c0.toUInt32 >>> 2)) <<< 2 |||
      decodeTable (sextetChar (c0.toUInt32 <<< 4)) >>> 4 = c0 := by
  simp only [decodeTable_sextetChar]
  apply byte_ext
  simp [List.range, List.range.loop]

theorem decodedBytes_pair (c0 c1 : UInt8) :
    decodeTable (sextetChar (c0.toUInt32 >>> 2)) <<< 2 |||
        decodeTable (sextetChar (c0.toUInt32 <<< 4 ||| c1.toUInt32 >>> 4)) >>> 4 = c0 ∧
      decodeTable (sextetChar (c0.toUInt32 <<< 4 ||| c1.toUInt32 >>> 4)) <<< 4 |||
        decodeTable (sextetChar (c1.toUInt32 <<< 2)) >>> 2 = c1 := by
  simp only [decodeTable_sextetChar]
  constructor
  · apply byte_ext
    simp [List.range, List.range.loop]
  · apply byte_ext
    simp [List.range, List.range.loop]

theorem encodedBody_alphabet (x : Bytes) : AllAlphabet (encodedBody x) := by
  induction x using encodedBody.induct with
  | case1 c0 c1 c2 rest ih =>
    rw [encodedBody, allAlphabet_append]
    refine ⟨?_, ih⟩
    simp only [AllAlphabet, quadruple, List.forall_mem_cons, isAlphabet_sextetChar,
      List.not_mem_nil, false_implies, implies_true, and_true]
  | case2 c0 | case3 c0 c1 =>
    simp only [AllAlphabet, encodedBody, List.forall_mem_cons, isAlphabet_sextetChar,
      List.not_mem_nil, false_implies, implies_true, and_true]
  | case4 => simp [AllAlphabet, encodedBody]

/-- Decoding undoes encoding. -/
theorem decodedBytes_encodedBody (x : Bytes) : decodedBytes (encodedBody x) = some x := by
  have halpha := encodedBody_alphabet x
  induction x using encodedBody.induct with
  | case1 c0 c1 c2 rest ih =>
    rw [encodedBody] at halpha ⊢
    have hquad := (allAlphabet_append.1 halpha).1
    have hrest := ih (allAlphabet_append.1 halpha).2
    have hbytes := tripleBytes_quadruple c0 c1 c2
    simp only [quadruple, List.cons_append, List.nil_append, decodedBytes] at hquad hbytes ⊢
    rw [if_pos hquad, hrest, hbytes]
    rfl
  | case2 c0 =>
    rw [encodedBody] at halpha ⊢
    rw [decodedBytes, if_pos halpha, decodedBytes_single]
  | case3 c0 c1 =>
    rw [encodedBody] at halpha ⊢
    rw [decodedBytes, if_pos halpha, (decodedBytes_pair c0 c1).1, (decodedBytes_pair c0 c1).2]
  | case4 => rfl

theorem decodedBytes_isSome (data : Bytes) :
    (∃ bytes, decodedBytes data = some bytes) ↔
      (∀ c ∈ data, IsAlphabet c) ∧ data.length % 4 ≠ 1 := by
  induction data using decodedBytes.induct with
  | case1 c0 c1 c2 c3 rest hv ih =>
    have hlen : (c0 :: c1 :: c2 :: c3 :: rest).length % 4 = rest.length % 4 := by
      simp only [List.length_cons]
      omega
    have hmem : (∀ c ∈ c0 :: c1 :: c2 :: c3 :: rest, IsAlphabet c) ↔ ∀ c ∈ rest, IsAlphabet c := by
      have hsplit : c0 :: c1 :: c2 :: c3 :: rest = [c0, c1, c2, c3] ++ rest := rfl
      rw [hsplit, List.forall_mem_append]
      exact and_iff_right hv
    rw [hmem, hlen, ← ih, decodedBytes, if_pos hv]
    simp only [Option.map_eq_some_iff]
    constructor
    · intro h
      obtain ⟨_, tail, htail, -⟩ := h
      exact ⟨tail, htail⟩
    · intro h
      obtain ⟨tail, htail⟩ := h
      exact ⟨_, tail, htail, rfl⟩
  | case2 c0 c1 c2 c3 rest hv =>
    rw [decodedBytes, if_neg hv]
    apply iff_of_false (by simp)
    intro h
    exact hv fun c hc => h.1 c (List.mem_append_left rest hc)
  | case3 c0 c1 hv | case5 c0 c1 c2 hv =>
    rw [decodedBytes, if_pos hv]
    exact iff_of_true ⟨_, rfl⟩ ⟨hv, by simp⟩
  | case4 c0 c1 hv | case6 c0 c1 c2 hv =>
    rw [decodedBytes, if_neg hv]
    exact iff_of_false (by simp) fun h => hv h.1
  | case7 c0 => exact iff_of_false (by simp [decodedBytes]) fun h => h.2 rfl
  | case8 => exact iff_of_true ⟨_, rfl⟩ ⟨by simp, by simp⟩

theorem decodedBytes_length (h : decodedBytes data = some bytes) :
    bytes.length = data.length * 3 / 4 := by
  fun_induction decodedBytes data generalizing bytes with
  | case1 c0 c1 c2 c3 rest hv ih =>
    obtain ⟨tail, htail, rfl⟩ := Option.map_eq_some_iff.1 h
    rw [List.length_append, ih htail]
    simp only [tripleBytes, List.length_cons, List.length_nil]
    omega
  | case2 | case4 | case6 | case7 => cases h
  | case3 | case5 =>
    cases h
    simp
  | case8 =>
    cases h
    rfl

theorem padding_not_alphabet : ¬ IsAlphabet '='.toUInt8 := by decide

theorem not_mem_of_alphabet {body : Bytes} (h : ∀ c ∈ body, IsAlphabet c) : '='.toUInt8 ∉ body :=
  fun hc => padding_not_alphabet (h _ hc)

theorem strippedLen_append {body : Bytes} (hb : '='.toUInt8 ∉ body) (hk : k ≤ 2) :
    strippedLen (body ++ padding k) = body.length := by
  have hlast : body[body.length - 1]? ≠ some '='.toUInt8 := fun h => hb (List.mem_of_getElem? h)
  match k with
  | 0 => simp only [strippedLen, padding, List.replicate_zero, List.append_nil, hlast, false_and,
      and_false, ↓reduceIte]
  | 1 =>
    have hnot : ¬ (body.length + 1 ≥ 2 ∧
        (body ++ ['='.toUInt8])[body.length + 1 - 2]? = some '='.toUInt8) := by
      intro h
      rw [List.getElem?_append_left (by omega)] at h
      exact hlast h.2
    have hone : (body ++ ['='.toUInt8])[body.length + 1 - 1]? = some '='.toUInt8 := by simp
    simp only [strippedLen, padding, List.replicate_one, List.length_append, List.length_singleton,
      hone, true_and]
    rw [if_neg hnot, if_pos ⟨by omega, trivial⟩, Nat.add_sub_cancel]
  | 2 =>
    have hone : (body ++ ['='.toUInt8, '='.toUInt8])[body.length + 2 - 1]? = some '='.toUInt8 := by
      simp
    have htwo : (body ++ ['='.toUInt8, '='.toUInt8])[body.length + 2 - 2]? = some '='.toUInt8 := by
      simp
    have hpad : padding 2 = ['='.toUInt8, '='.toUInt8] := rfl
    rw [hpad]
    simp only [strippedLen, List.length_append, List.length_cons, List.length_nil, Nat.zero_add,
      Nat.reduceAdd, hone, htwo, and_true]
    rw [if_pos (by omega), Nat.add_sub_cancel]
  | k + 3 => omega

theorem unpadded_append {body : Bytes} (hb : '='.toUInt8 ∉ body) (hk : k ≤ 2) :
    unpadded (body ++ padding k) = body := by
  rw [unpadded, strippedLen_append hb hk, List.take_left]

/-- An input is what is left of it and up to two padding characters. -/
theorem exists_padding (input : Bytes) : ∃ k ≤ 2, input = unpadded input ++ padding k := by
  have hdrop : ∃ k ≤ 2, input.drop (strippedLen input) = padding k := by
    simp only [strippedLen]
    split
    · rename_i h
      obtain ⟨hlen, h1, h2⟩ := h
      refine ⟨2, Nat.le_refl 2, List.ext_getElem? fun i => ?_⟩
      rw [List.getElem?_drop]
      rcases i with _ | _ | i
      · exact h2
      · have hlast : input.length - 2 + 1 = input.length - 1 := by omega
        rw [hlast, h1]
        rfl
      · simp [padding]
        omega
    · split
      · rename_i h
        obtain ⟨hlen, h1⟩ := h
        refine ⟨1, by omega, List.ext_getElem? fun i => ?_⟩
        rw [List.getElem?_drop]
        cases i with
        | zero => exact h1
        | succ i =>
          simp [padding]
          omega
      · exact ⟨0, by omega, by simp [padding]⟩
  obtain ⟨k, hk, hd⟩ := hdrop
  exact ⟨k, hk, by rw [unpadded, ← hd, List.take_append_drop]⟩

/-- Decoding a text with enough room gives its bytes, or rejects it. -/
theorem decode_spec (input output : Bytes) (h : input.length / 4 * 3 + 3 ≤ output.length) :
    (∀ bytes, decodedBytes (unpadded input) = some bytes →
      ∃ out, decode input output = .ok (.ok bytes.length, out) ∧ out.take bytes.length = bytes) ∧
    (decodedBytes (unpadded input) = none →
      ∃ out, decode input output = .ok (.error (), out)) := by
  have hle : (unpadded input).length ≤ input.length := by
    rw [unpadded, List.length_take]
    exact Nat.min_le_right _ _
  rw [decode_eq]
  constructor
  · intro bytes hb
    have hlen := decodedBytes_length hb
    have hrun := decodeChunks_append [] output hb (by omega)
    simp only [List.nil_append, List.length_nil, Nat.zero_add] at hrun
    exact ⟨_, hrun, List.take_left⟩
  · intro hn
    obtain ⟨out, hrun⟩ := decodeChunks_none [] output hn (by omega)
    exact ⟨out, hrun⟩

/-- Decoding the text, whatever is in the output buffer, gives exactly the bytes. -/
def DecodesTo (text x : Bytes) : Prop :=
  ∀ output : Bytes, text.length / 4 * 3 + 3 ≤ output.length →
    ∃ out, decode text output = .ok (.ok x.length, out) ∧ out.take x.length = x

theorem decodesTo_iff : DecodesTo text x ↔ decodedBytes (unpadded text) = some x := by
  constructor
  · intro h
    obtain ⟨out, hd, hx⟩ := h (List.replicate (text.length / 4 * 3 + 3) 0) (by simp)
    have hspec := decode_spec text (List.replicate (text.length / 4 * 3 + 3) 0) (by simp)
    cases hb : decodedBytes (unpadded text) with
    | none =>
      obtain ⟨out', hd'⟩ := hspec.2 hb
      rw [hd] at hd'
      cases hd'
    | some bytes =>
      obtain ⟨out', hd', hx'⟩ := hspec.1 bytes hb
      rw [hd] at hd'
      simp only [Except.ok.injEq, Prod.mk.injEq] at hd'
      rw [← hx', ← hd'.1, ← hd'.2, hx]
  · intro h output hroom
    exact (decode_spec text output hroom).1 x h

/-- A text of alphabet characters and some of the padding that its length calls for. -/
theorem encodedBody_decodesTo (x : Bytes) (hk : k ≤ 2) :
    DecodesTo (encodedBody x ++ padding k) x := by
  rw [decodesTo_iff, unpadded_append (not_mem_of_alphabet (encodedBody_alphabet x)) hk]
  exact decodedBytes_encodedBody x

theorem padCount_le (x : Bytes) : padCount x ≤ 2 := by
  simp only [padCount]
  omega

theorem encode_eq (x output : Bytes) (h : (x.length / 3 + 1) * 4 ≤ output.length) :
    ∃ out, encode x output = .ok (4 * ((x.length + 2) / 3), out) ∧
      out.take (4 * ((x.length + 2) / 3)) = encodedText x := by
  have hlen := encodedText_length x
  have hrun := encodeChunks_append [] output x (by omega)
  simp only [List.nil_append, List.length_nil, Nat.zero_add] at hrun
  rw [← hlen]
  exact ⟨_, hrun, List.take_left⟩

theorem decodeTable_index : ∀ n : Fin 256, IsAlphabet (UInt8.ofFin n) →
    encodeTable[(decodeTable (UInt8.ofFin n)).toNat]? = some (UInt8.ofFin n) := by
  decide +kernel

theorem isAlphabet_iff : IsAlphabet c ↔ c ∈ encodeTable := by
  constructor
  · intro h
    exact List.mem_of_getElem? (decodeTable_index c.toFin h)
  · intro h
    obtain ⟨n, hn, rfl⟩ := List.mem_iff_getElem.1 h
    have hentry := (sextetChar_table ⟨n, encodeTable_length ▸ hn⟩).2
    rwa [List.getElem?_eq_getElem hn, Option.getD_some] at hentry

/-- A text is that of a byte string: alphabet characters and at most two padding characters, any
number of which can be left out for decoding. -/
def TextOf (text x : Bytes) : Prop :=
  ∃ body k, text = body ++ padding k ∧ k ≤ 2 ∧ (∀ c ∈ body, c ∈ encodeTable) ∧
    ∀ j ≤ k, DecodesTo (body ++ padding j) x

theorem encodedText_textOf (x : Bytes) : TextOf (encodedText x) x := by
  refine ⟨encodedBody x, padCount x, rfl, padCount_le x, ?_, fun j hj => ?_⟩
  · intro c hc
    exact isAlphabet_iff.1 (encodedBody_alphabet x c hc)
  · exact encodedBody_decodesTo x (Nat.le_trans hj (padCount_le x))

theorem utf8_table : ('='.toUInt8 :: encodeTable).all
    (fun c => String.utf8EncodeChar (Char.ofUInt8 c) == [c]) = true := by
  decide

/-- The text of a byte string is valid UTF-8. -/
theorem fromUtf8_encodedText (x : Bytes) :
    ∃ s, fromUtf8 (encodedText x) = some s ∧ asBytes s = encodedText x := by
  have hchars : ∀ c ∈ encodedText x, String.utf8EncodeChar (Char.ofUInt8 c) = [c] := by
    intro c hc
    apply beq_iff_eq.1 (List.all_eq_true.1 utf8_table c ?_)
    rcases List.mem_append.1 hc with hc | hc
    · exact List.mem_cons_of_mem _ (isAlphabet_iff.1 (encodedBody_alphabet x c hc))
    · rw [List.eq_of_mem_replicate hc]
      exact List.mem_cons_self
  have hbytes : asBytes (String.ofList ((encodedText x).map Char.ofUInt8)) = encodedText x := by
    rw [asBytes_ofList, List.flatMap_map]
    generalize encodedText x = text at hchars
    induction text with
    | nil => rfl
    | cons c text ih =>
      rw [List.forall_mem_cons] at hchars
      rw [List.flatMap_cons, hchars.1, ih hchars.2]
      rfl
  exact ⟨_, fromUtf8_eq_some.2 hbytes.symm, hbytes⟩

theorem serializeBytes_text (bytes : HVec UInt8 maxPayloadLen) :
    ∃ s, serializeBytes bytes = .ok (.string s) ∧ asBytes s = encodedText bytes.toList := by
  have hb := bytes.bounded
  have hroom :
      (bytes.toList.length / 3 + 1) * 4 ≤ (List.replicate maxB64Len (0 : UInt8)).length := by
    have hpayload : maxPayloadLen = 512 := rfl
    have hroom : maxB64Len = 684 := rfl
    rw [List.length_replicate]
    omega
  obtain ⟨out, he, htake⟩ := encode_eq bytes.toList (List.replicate maxB64Len 0) hroom
  obtain ⟨s, hs, hbytes⟩ := fromUtf8_encodedText bytes.toList
  have hlen : 4 * ((bytes.toList.length + 2) / 3) ≤ out.length := by
    rw [← encodedText_length, ← htake, List.length_take]
    exact Nat.min_le_right _ _
  exact ⟨s, by simp only [serializeBytes, he, ok_bind, slice_zero hlen, htake, hs, pure_eq], hbytes⟩

/-- The payload of a response is always written, as the text of its bytes. -/
theorem serializeBytes_encodes (bytes : HVec UInt8 maxPayloadLen) :
    ∃ s, serializeBytes bytes = .ok (.string s) ∧ DecodesTo (asBytes s) bytes.toList := by
  obtain ⟨s, hs, hbytes⟩ := serializeBytes_text bytes
  exact ⟨s, hs, hbytes ▸ encodedBody_decodesTo _ (padCount_le _)⟩

/-- Encoding stays within its buffer and decoding undoes it; in particular the payload of a
response can always be written, and its text decodes back. -/
theorem base64_round_trip :
    (∀ x output : Bytes, (x.length / 3 + 1) * 4 ≤ output.length →
      ∃ out, encode x output = .ok (4 * ((x.length + 2) / 3), out) ∧
        TextOf (out.take (4 * ((x.length + 2) / 3))) x) ∧
    ∀ bytes : HVec UInt8 maxPayloadLen,
      ∃ s, serializeBytes bytes = .ok (.string s) ∧ DecodesTo (asBytes s) bytes.toList := by
  refine ⟨fun x output h => ?_, serializeBytes_encodes⟩
  obtain ⟨out, he, htake⟩ := encode_eq x output h
  exact ⟨out, he, htake ▸ encodedText_textOf x⟩

/-- Alphabet characters of a possible number, then either no padding or the padding that
completes them to a multiple of four. -/
def WellFormed (input : Bytes) : Prop :=
  ∃ d k, input = d ++ padding k ∧ (∀ c ∈ d, c ∈ encodeTable) ∧ d.length % 4 ≠ 1 ∧ k ≤ 2 ∧
    (k = 0 ∨ (d.length + k) % 4 = 0)

/-- Alphabet characters of a possible number, then one or two padding characters that do not
complete them to a multiple of four. -/
def MisPadded (input : Bytes) : Prop :=
  ∃ d k, input = d ++ padding k ∧ (∀ c ∈ d, c ∈ encodeTable) ∧ d.length % 4 ≠ 1 ∧
    (k = 1 ∨ k = 2) ∧ (d.length + k) % 4 ≠ 0

/-- Given room, decoding accepts the input if it is well-formed and rejects it if not. -/
structure DecodesExactly (input : Bytes) : Prop where
  accepts : WellFormed input → ∀ output : Bytes, input.length / 4 * 3 + 3 ≤ output.length →
    ∃ n out, decode input output = .ok (.ok n, out)
  rejects : ¬ WellFormed input → ∀ output : Bytes, input.length / 4 * 3 + 3 ≤ output.length →
    ∃ out, decode input output = .ok (.error (), out)

theorem decodedBytes_iff (input : Bytes) :
    (∃ bytes, decodedBytes (unpadded input) = some bytes) ↔ WellFormed input ∨ MisPadded input := by
  rw [decodedBytes_isSome]
  simp only [isAlphabet_iff]
  constructor
  · intro h
    obtain ⟨k, hk, he⟩ := exists_padding input
    by_cases hpad : k = 0 ∨ ((unpadded input).length + k) % 4 = 0
    · exact .inl ⟨_, k, he, h.1, h.2, hk, hpad⟩
    · exact .inr ⟨_, k, he, h.1, h.2, by omega, by omega⟩
  · have hcase {d : Bytes} {k : Nat} (ha : ∀ c ∈ d, c ∈ encodeTable) (hk : k ≤ 2) :
        unpadded (d ++ padding k) = d :=
      unpadded_append (not_mem_of_alphabet fun c hc => isAlphabet_iff.2 (ha c hc)) hk
    intro h
    rcases h with ⟨d, k, rfl, ha, hl, hk, -⟩ | ⟨d, k, rfl, ha, hl, hk, -⟩
    · rw [hcase ha hk]
      exact ⟨ha, hl⟩
    · rw [hcase ha (by omega)]
      exact ⟨ha, hl⟩

theorem MisPadded.not_wellFormed (h : MisPadded input) : ¬ WellFormed input := by
  intro hw
  obtain ⟨d, k, rfl, ha, hl, hk, hn⟩ := h
  obtain ⟨d', k', he, ha', hl', hk', hp⟩ := hw
  have hd := congrArg unpadded he
  rw [unpadded_append (not_mem_of_alphabet fun c hc => isAlphabet_iff.2 (ha c hc)) (by omega),
    unpadded_append (not_mem_of_alphabet fun c hc => isAlphabet_iff.2 (ha' c hc)) hk'] at hd
  have hlen := congrArg List.length he
  simp only [hd, padding, List.length_append, List.length_replicate] at hlen hn
  omega

theorem decodesExactly_iff (input : Bytes) : DecodesExactly input ↔ ¬ MisPadded input := by
  have hroom : input.length / 4 * 3 + 3 ≤
      (List.replicate (input.length / 4 * 3 + 3) (0 : UInt8)).length := by
    simp
  constructor
  · intro h hm
    obtain ⟨bytes, hb⟩ := (decodedBytes_iff input).2 (.inr hm)
    obtain ⟨out, hr⟩ := h.rejects hm.not_wellFormed _ hroom
    obtain ⟨out', ha, -⟩ := (decode_spec input _ hroom).1 bytes hb
    rw [hr] at ha
    cases ha
  · intro h
    constructor
    · intro hw output ho
      obtain ⟨bytes, hb⟩ := (decodedBytes_iff input).2 (.inl hw)
      obtain ⟨out, hd, -⟩ := (decode_spec input output ho).1 bytes hb
      exact ⟨_, out, hd⟩
    · intro hw output ho
      apply (decode_spec input output ho).2
      rw [Option.eq_none_iff_forall_ne_some]
      intro bytes hb
      exact ((decodedBytes_iff input).1 ⟨bytes, hb⟩).elim hw h

/-- A field that is not empty is not read as an empty payload. -/
def RefusesEmpty (cmd : Command) (encoded : String) : Prop :=
  encoded ≠ "" → ∀ v, decodeBytes cmd (some encoded) = .ok (.ok v) → v.toList ≠ []

/-- The payload that is read has three bytes for four characters. -/
theorem decodeBytes_count (h : decodeBytes cmd (some encoded) = .ok (.ok v)) :
    v.toList.length = (unpadded (asBytes encoded)).length * 3 / 4 ∧
      (unpadded (asBytes encoded)).length ≠ 1 := by
  simp only [decodeBytes] at h
  split at h
  · cases h
  · obtain ⟨⟨r, buf⟩, hd, h⟩ := bind_eq_ok.1 h
    rw [decode_eq] at hd
    obtain ⟨hlen, hcount⟩ := decodeChunks_count hd (Nat.zero_le _)
    cases r with
    | error => cases h
    | ok n =>
      obtain ⟨hn, hdata⟩ := hcount n rfl
      obtain ⟨bytes, hs, h⟩ := bind_eq_ok.1 h
      change slice buf 0 n = .ok bytes at hs
      rw [slice_zero (by omega)] at hs
      cases hs
      split at h
      · cases h
      · rename_i w hw
        cases h
        simp only [HVec.extendFromSlice] at hw
        split at hw
        · cases hw
          constructor
          · simp only [HVec.empty_toList, List.nil_append, List.length_take]
            omega
          · intro hone
            obtain ⟨c, hc⟩ := List.length_eq_one_iff.1 hone
            rw [hc] at hd
            cases hd
        · cases hw

theorem decodeBytes_padding (cmd : Command) (he : encoded ≠ "")
    (h : unpadded (asBytes encoded) = []) :
    ∃ v, decodeBytes cmd (some encoded) = .ok (.ok v) ∧ v.toList = [] := by
  have hnone : ([] : Bytes).length ≤ maxPayloadLen := Nat.zero_le _
  obtain ⟨v, hv, hnil⟩ := HVec.extend_empty hnone
  refine ⟨v, ?_, hnil⟩
  simp only [decodeBytes, he, ↓reduceIte, decode_eq, h, decodeChunks, pure_eq, ok_bind,
    slice_zero (Nat.zero_le _), List.take_zero, hv]

theorem refusesEmpty_iff (cmd : Command) (encoded : String) :
    RefusesEmpty cmd encoded ↔ encoded ≠ "=" ∧ encoded ≠ "==" := by
  constructor
  · intro h
    constructor
    · intro he
      subst he
      obtain ⟨v, hv, hnil⟩ := decodeBytes_padding cmd (show "=" ≠ "" by decide) (by decide)
      exact h (by decide) v hv hnil
    · intro he
      subst he
      obtain ⟨v, hv, hnil⟩ := decodeBytes_padding cmd (show "==" ≠ "" by decide) (by decide)
      exact h (by decide) v hv hnil
  · intro hne hempty v hv hnil
    obtain ⟨hlen, hone⟩ := decodeBytes_count hv
    rw [hnil, List.length_nil] at hlen
    have hdata : unpadded (asBytes encoded) = [] := List.length_eq_zero_iff.1 (by omega)
    obtain ⟨k, hk, he⟩ := exists_padding (asBytes encoded)
    rw [hdata, List.nil_append] at he
    match k with
    | 0 => exact hempty (asBytes_injective he)
    | 1 => exact hne.1 (asBytes_injective he)
    | 2 => exact hne.2 (asBytes_injective he)
    | k + 3 => omega

/-- Decoding accepts exactly the well-formed texts but for those with a padding that does not
complete them; and a field is read as an empty payload only if it is padding alone. -/
theorem base64_acceptance (input : Bytes) (cmd : Command) (encoded : String) :
    (DecodesExactly input ↔ ¬ MisPadded input) ∧
      (RefusesEmpty cmd encoded ↔ encoded ≠ "=" ∧ encoded ≠ "==") :=
  ⟨decodesExactly_iff input, refusesEmpty_iff cmd encoded⟩

theorem mispadded_accepted : ¬ DecodesExactly (asBytes "QQ=") ∧
    ∀ cmd : Command, ¬ RefusesEmpty cmd "=" := by
  constructor
  · intro h
    have hw : ¬ WellFormed (asBytes "QQ=") := by
      apply MisPadded.not_wellFormed
      refine ⟨List.replicate 2 'Q'.toUInt8, 1, by decide, ?_, by decide, .inl rfl, by decide⟩
      intro c hc
      rw [List.eq_of_mem_replicate hc]
      decide
    obtain ⟨out, hd⟩ := h.rejects hw [0, 0, 0] (by decide)
    cases hd
  · intro cmd h
    obtain ⟨v, hv, hnil⟩ := decodeBytes_padding cmd (show "=" ≠ "" by decide) (by decide)
    exact h (by decide) v hv hnil

end PicoConduit
