import PicoConduit.Rfc3174
import PicoConduit.WebSocket
import PicoConduit.Base64Codec

namespace PicoConduit
open Checked Utf8 MerkleDamgard
set_option autoImplicit true

theorem fromBeBytes_eq (b0 b1 b2 b3 : UInt8) : (fromBeBytes b0 b1 b2 b3).toBitVec =
    b0.toBitVec ++ b1.toBitVec ++ b2.toBitVec ++ b3.toBitVec := by
  have hword : (fromBeBytes b0 b1 b2 b3).toBitVec = b0.toBitVec.setWidth 32 <<< 24 |||
      b1.toBitVec.setWidth 32 <<< 16 ||| b2.toBitVec.setWidth 32 <<< 8 |||
      b3.toBitVec.setWidth 32 := rfl
  have hbit (b : UInt8) {j : Nat} (hj : 8 ≤ j) : b.toBitVec.getLsbD j = false :=
    BitVec.getLsbD_of_ge _ _ hj
  apply BitVec.eq_of_getLsbD_eq
  intro i hi
  refine Eq.trans ?_ (BitVec.getLsbD_append (n := 24) (m := 8)).symm
  simp only [hword, BitVec.getLsbD_or, BitVec.getLsbD_shiftLeft, BitVec.getLsbD_setWidth]
  grind

theorem rotateLeft_five (x : UInt32) : (rotateLeft x 5).toBitVec = x.toBitVec.rotateLeft 5 := rfl

/-- The state of the code in words. -/
def Sha1State.words (s : Sha1State) : Rfc3174.State :=
  ⟨s.a.toBitVec, s.b.toBitVec, s.c.toBitVec, s.d.toBitVec, s.e.toBitVec⟩

theorem roundFunction_eq (i : Nat) (b c d : UInt32) :
    (roundFunction i b c d).1.toBitVec = Rfc3174.f i b.toBitVec c.toBitVec d.toBitVec ∧
      (roundFunction i b c d).2.toBitVec = Rfc3174.k i := by
  simp only [roundFunction, Rfc3174.f, Rfc3174.k, ← Nat.lt_succ_iff]
  split
  · exact ⟨rfl, rfl⟩
  split
  · exact ⟨rfl, rfl⟩
  split
  · exact ⟨rfl, rfl⟩
  · exact ⟨rfl, rfl⟩

/-- The first words of the code's array are those of the rounds. -/
def Scheduled (block : Bytes) (i : Nat) (w : Vector UInt32 80) : Prop :=
  ∀ j (hj : j < 80), j < i → w[j].toBitVec = Rfc3174.schedule block j

theorem Scheduled.set (hw : Scheduled block i w) (hi : i < 80)
    (hx : UInt32.toBitVec x = Rfc3174.schedule block i) :
    Yields (setArray w i x) (Scheduled block (i + 1)) := by
  refine ⟨w.set i x, dif_pos hi, fun j hj hlt => ?_⟩
  rcases Nat.lt_succ_iff_lt_or_eq.1 hlt with hlt | rfl
  · rw [Vector.getElem_set_ne hi hj (by omega)]
    exact hw j hj hlt
  · rw [Vector.getElem_set_self]
    exact hx

theorem load_getD {xs : List α} (d : α) (h : i < xs.length) : load xs i = .ok (xs.getD i d) := by
  rw [load_of_lt h, List.getD_eq_getElem?_getD, List.getElem?_eq_getElem h, Option.getD_some]

theorem loadWord_scheduled (hb : List.length block = 64) (hi : i < 16)
    (hw : Scheduled block i w) : Yields (loadWord block w i) (Scheduled block (i + 1)) := by
  have hword : Rfc3174.schedule block i = Rfc3174.word block i := by
    rw [Rfc3174.schedule, if_pos hi]
  rw [loadWord, load_getD 0 (by omega), load_getD 0 (by omega), load_getD 0 (by omega),
    load_getD 0 (by omega)]
  refine hw.set (Nat.lt_trans hi (by decide)) ?_
  rw [fromBeBytes_eq, hword, Rfc3174.word, Nat.mul_comm]

theorem Scheduled.get (hw : Scheduled block i w) (hj : j < 80) (hlt : j < i) :
    ∃ x, getArray w j = .ok x ∧ x.toBitVec = Rfc3174.schedule block j :=
  ⟨w[j], dif_pos hj, hw j hj hlt⟩

theorem expandWord_scheduled (hl : 16 ≤ i) (hi : i < 80) (hw : Scheduled block i w) :
    Yields (expandWord w i) (Scheduled block (i + 1)) := by
  obtain ⟨w3, h3, he3⟩ := hw.get (j := i - 3) (by omega) (by omega)
  obtain ⟨w8, h8, he8⟩ := hw.get (j := i - 8) (by omega) (by omega)
  obtain ⟨w14, h14, he14⟩ := hw.get (j := i - 14) (by omega) (by omega)
  obtain ⟨w16, h16, he16⟩ := hw.get (j := i - 16) (by omega) (by omega)
  rw [expandWord, h3, h8, h14, h16]
  refine hw.set hi ?_
  rw [Rfc3174.schedule, if_neg (Nat.not_lt.2 hl), ← he3, ← he8, ← he14, ← he16]
  rfl

theorem sha1Round_words (hi : i < 80) (hw : Scheduled block 80 w) :
    Yields (sha1Round w s i) fun s' => s'.words = Rfc3174.round block s.words i := by
  obtain ⟨wi, hwi, he⟩ := hw.get hi hi
  obtain ⟨hf, hk⟩ := roundFunction_eq i s.b s.c s.d
  rw [sha1Round]
  generalize roundFunction i s.b s.c s.d = r at hf hk ⊢
  obtain ⟨f, k⟩ := r
  simp only [hwi, ok_bind]
  refine .ok (Rfc3174.State.ext ?_ rfl rfl rfl rfl)
  simp only [Sha1State.words, Rfc3174.round, ← hf, ← hk, ← he, UInt32.toBitVec_add,
    ← rotateLeft_five]
  ac_rfl

theorem sha1Block_words (h : Sha1State) (hb : block.length = 64) :
    Yields (sha1Block block h) fun h' => h'.words = Rfc3174.compress h.words block := by
  have hload : Yields ((List.range 16).foldlM (loadWord block) (Vector.replicate 80 0))
      (Scheduled block 16) := by
    rw [List.range_eq_range']
    exact .range 16 (fun i w _ hi hw => loadWord_scheduled hb (by omega) hw) nofun
  refine hload.bind fun w hw => ?_
  refine (Yields.range 64 (fun i w hl hi hw => expandWord_scheduled hl hi hw) hw).bind
    fun w hw => ?_
  have hrounds : Yields ((List.range 80).foldlM (sha1Round w) h) fun s =>
      s.words = (List.range 80).foldl (Rfc3174.round block) h.words := by
    rw [List.range_eq_range']
    refine Yields.range (P := fun i (s : Sha1State) => s.words =
      (List.range' 0 i).foldl (Rfc3174.round block) h.words) 80 (fun i s _ hi hs => ?_) rfl
    refine (sha1Round_words (by omega) hw).mono fun s' hs' => ?_
    rw [hs', hs, List.range'_concat, List.foldl_append, Nat.zero_add, Nat.one_mul]
    rfl
  refine hrounds.bind fun s hs => .ok ?_
  rw [Rfc3174.compress, ← hs]
  rfl

/-- The loop over the whole blocks of a message hashes them. -/
theorem sha1Blocks_words (h : Sha1State) (ho : offset ≤ List.length data) :
    Yields (sha1Blocks data offset h) fun r =>
      r.1 = offset + 64 * ((data.length - offset) / 64) ∧
        r.2.words = (blocks 64 (data.drop offset)).foldl Rfc3174.compress h.words := by
  rw [sha1Blocks]
  split
  · have hblock : ((data.drop offset).take 64).length = 64 := by
      rw [List.length_take, List.length_drop]
      omega
    have hcons : blocks 64 (data.drop offset) =
        (data.drop offset).take 64 :: blocks 64 (data.drop (offset + 64)) := by
      rw [blocks_cons (by decide) (by rw [List.length_drop]; omega), List.drop_drop]
    rw [slice_of_le (by omega) ‹_›, Nat.add_sub_cancel_left, ok_bind]
    refine (sha1Block_words h hblock).bind fun h' hh' => ?_
    refine (sha1Blocks_words h' ‹_›).mono fun r hr => ⟨by have := hr.1; omega, ?_⟩
    rw [hr.2, hh', hcons, List.foldl_cons]
  · refine .ok ⟨by omega, ?_⟩
    rw [blocks_of_lt (by rw [List.length_drop]; omega)]
    rfl
termination_by data.length - offset

theorem digestBytes_output (h : Sha1State) : digestBytes h = .ok h.words.output := rfl

/-- How many bytes are hashed after the whole blocks. -/
def padLen (r : Nat) : Nat := if r < 56 then 64 else 128

theorem padLen_zeros (hr : r < 64) : r + (zeros 64 56 r + 9) = padLen r := by
  rw [zeros, padLen]
  split <;> omega

theorem padLen_le (r : Nat) : padLen r ≤ 128 := by
  rw [padLen]
  split <;> decide

theorem padded_length (hr : List.length rest < 64) (hf : List.length field = 8) :
    (padded 64 56 (0x80 : UInt8) 0 field rest).length = padLen rest.length := by
  rw [← padLen_zeros hr, padded]
  simp only [List.length_append, List.length_cons, List.length_replicate, hf]

/-- The buffer that `sha1` builds holds what is left of the message, as it is padded. -/
theorem pad_buffer {rest field : Bytes} (hr : rest.length < 64) (hf : field.length = 8) :
    (do
      let pad ← copy (List.replicate 128 0) 0 rest.length rest
      let pad ← store pad rest.length 0x80
      copy pad (padLen rest.length - 8) (padLen rest.length) field) =
    .ok (padded 64 56 0x80 0 field rest ++ List.replicate (128 - padLen rest.length) 0) := by
  have hlen := padLen_zeros hr
  have hle := padLen_le rest.length
  have hdata : copy (List.replicate 128 0) 0 rest.length rest =
      .ok (rest ++ List.replicate (128 - rest.length) (0 : UInt8)) := by
    have hcopy := copy_append [] (List.replicate 128 (0 : UInt8)) rest
      (by rw [List.length_replicate]; omega) rfl (Nat.zero_add _).symm
    rwa [List.drop_replicate] at hcopy
  have hzeros : List.replicate (128 - rest.length) (0 : UInt8) =
      0 :: (List.replicate (zeros 64 56 rest.length) 0 ++
        List.replicate (136 - padLen rest.length) 0) := by
    rw [← List.replicate_add, ← List.replicate_succ]
    congr 1
    omega
  have hmark : store (rest ++ List.replicate (128 - rest.length) (0 : UInt8)) rest.length 0x80 =
      .ok ((rest ++ 0x80 :: List.replicate (zeros 64 56 rest.length) 0) ++
        List.replicate (136 - padLen rest.length) 0) := by
    rw [hzeros, store_append rfl]
    simp only [List.append_assoc, List.cons_append, List.nil_append]
  have hfield := copy_append (rest ++ 0x80 :: List.replicate (zeros 64 56 rest.length) 0)
    (List.replicate (136 - padLen rest.length) 0) field
    (a := padLen rest.length - 8) (b := padLen rest.length)
    (by rw [List.length_replicate]; omega)
    (by simp only [List.length_append, List.length_cons, List.length_replicate]; omega)
    (by omega)
  rw [hdata, ok_bind, hmark, ok_bind, hfield, List.drop_replicate, hf, Nat.sub_right_comm, padded]
  simp only [List.append_assoc, List.cons_append]

theorem toBeBytes64_bits (n : Nat) :
    toBeBytes64 (UInt64.ofNat n * 8) = Rfc3174.beBytes 8 (BitVec.ofNat 64 (8 * n)) := by
  have hbits : (UInt64.ofNat n * 8).toBitVec = BitVec.ofNat 64 (8 * n) := by
    rw [Nat.mul_comm, BitVec.ofNat_mul]
    rfl
  rw [← hbits]
  rfl

/-- The last calls of `sha1_block` hash the blocks of what is left of the message. -/
theorem sha1_tail (h : Sha1State) (hr : List.length rest < 64) (hf : List.length field = 8)
    (hp : pad = padded 64 56 0x80 0 field rest ++ List.replicate (128 - padLen rest.length) 0) :
    Yields (do
        let h ← sha1Block (← slice pad 0 64) h
        if padLen rest.length = 128 then do sha1Block (← slice pad 64 128) h else pure h) fun h' =>
      h'.words =
        (blocks 64 (padded 64 56 0x80 0 field rest)).foldl Rfc3174.compress h.words := by
  have hlen := padded_length hr hf
  by_cases hs : rest.length < 56
  · have hone : padLen rest.length = 64 := if_pos hs
    have hfirst : slice pad 0 64 = .ok (padded 64 56 0x80 0 field rest) := by
      rw [slice_zero (by simp [hp, hlen, hone]), hp, List.take_left' (hlen.trans hone)]
    rw [hone, blocks_self (by decide) (hlen.trans hone), hfirst, ok_bind]
    exact (sha1Block_words h (hlen.trans hone)).bind fun h' hw => .ok hw
  · have htwo : padLen rest.length = 128 := if_neg hs
    have hp' : pad = padded 64 56 0x80 0 field rest := by
      rw [hp, htwo]
      exact List.append_nil _
    have hpad : pad.length = 128 := by rw [hp', hlen, htwo]
    have hfirst : (pad.take 64).length = 64 := List.length_take_of_le (by omega)
    have hsecond : (pad.drop 64).length = 64 := by rw [List.length_drop, hpad]
    have hslice : slice pad 64 128 = .ok (pad.drop 64) := by
      rw [slice_of_le (by decide) (by omega), List.take_of_length_le (by omega)]
    rw [← hp', blocks_cons (by decide) (by omega), blocks_self (by decide) hsecond,
      slice_zero (by omega), ok_bind]
    refine (sha1Block_words h hfirst).bind fun h' hw => ?_
    rw [if_pos htwo, hslice, ok_bind]
    refine (sha1Block_words h' hsecond).mono fun h'' hw' => ?_
    rw [hw', hw]
    rfl

/-- `sha1` computes the digest of every message. -/
theorem sha1_eq (data : Bytes) : sha1 data = .ok (Rfc3174.sha1 data) := by
  obtain ⟨⟨offset, h⟩, hblocks, ho, hw⟩ := sha1Blocks_words
    ⟨0x67452301, 0xEFCDAB89, 0x98BADCFE, 0x10325476, 0xC3D2E1F0⟩ (Nat.zero_le data.length)
  simp only [Nat.zero_add, Nat.sub_zero, List.drop_zero] at ho hw
  have hle : offset ≤ data.length := by omega
  have hlen : data.length - offset = (data.drop offset).length := List.length_drop.symm
  have hr : (data.drop offset).length < 64 := by omega
  have hrest : slice data offset data.length = .ok (data.drop offset) := by
    rw [slice_of_le hle (Nat.le_refl _), List.take_of_length_le (Nat.le_of_eq List.length_drop)]
  have hf : (toBeBytes64 (UInt64.ofNat data.length * 8)).length = 8 := rfl
  obtain ⟨pad₁, hdata, hpad⟩ := bind_eq_ok.1 (pad_buffer hr hf)
  obtain ⟨pad₂, hmark, hfield⟩ := bind_eq_ok.1 hpad
  obtain ⟨h', hh', hw'⟩ := sha1_tail h hr hf rfl
  have hwhole : (data.take offset).length = 64 * (data.length / 64) := by
    rw [List.length_take]
    omega
  have hpadded : blocks 64 (Rfc3174.paddedMessage data) = blocks 64 data ++ blocks 64 (padded 64 56
      0x80 0 (toBeBytes64 (UInt64.ofNat data.length * 8)) (data.drop offset)) := by
    have hdata : blocks 64 data = blocks 64 (data.take offset) := by
      have happend := blocks_append (data.drop offset) (by decide : 0 < 64) _ hwhole
      rwa [List.take_append_drop, blocks_of_lt hr, List.append_nil] at happend
    have hp := blocks_padded (by decide : 0 < 64) 56 0x80 0
      (toBeBytes64 (UInt64.ofNat data.length * 8)) _ hwhole (data.drop offset)
    rw [List.take_append_drop, ← hdata, toBeBytes64_bits] at hp
    rwa [toBeBytes64_bits]
  have hdigest : h'.words.output = Rfc3174.sha1 data := by
    rw [hw', hw, Rfc3174.sha1, hpadded, List.foldl_append]
    rfl
  rw [← hdigest, ← digestBytes_output]
  have hlens : (if (data.drop offset).length < 56 then 64 else 128) =
      padLen (data.drop offset).length := rfl
  obtain ⟨block, hslice, hrun⟩ := bind_eq_ok.1 hh'
  obtain ⟨h₁, hblock, hrun⟩ := bind_eq_ok.1 hrun
  simp only [sha1, hblocks, ok_bind, hrest, hlen, hdata, hmark]
  rw [hlens, hfield, ok_bind, hslice, ok_bind, hblock, ok_bind]
  by_cases hp : padLen (data.drop offset).length = 128
  · rw [if_pos hp] at hrun ⊢
    obtain ⟨block', hslice', hrun⟩ := bind_eq_ok.1 hrun
    rw [hslice', ok_bind, hrun, ok_bind]
  · rw [if_neg hp] at hrun ⊢
    rw [hrun, ok_bind]

theorem computeAcceptKey_digest {key out : Bytes} (hk : key.length ≤ 64) (ho : 28 ≤ out.length) :
    ∃ text, computeAcceptKey key out = .ok (28, text) ∧
      text.take 28 = encodedText (Rfc3174.sha1 (key ++ wsGuid)) := by
  have hguid : wsGuid.length = 36 := rfl
  have hmin : min key.length 64 = key.length := Nat.min_eq_left hk
  have hkey : copy (List.replicate 100 0) 0 key.length key =
      .ok (key ++ List.replicate (100 - key.length) (0 : UInt8)) := by
    have hcopy := copy_append [] (List.replicate 100 (0 : UInt8)) key
      (by rw [List.length_replicate]; omega) rfl (Nat.zero_add _).symm
    rwa [List.drop_replicate] at hcopy
  have hboth := copy_append key (List.replicate (100 - key.length) 0) wsGuid
    (by rw [List.length_replicate]; omega) rfl rfl
  have hinput (pad : Bytes) : slice (key ++ (wsGuid ++ pad)) 0 (key.length + wsGuid.length) =
      .ok (key ++ wsGuid) := by
    rw [slice_zero (by simp only [List.length_append]; omega), ← List.append_assoc,
      ← List.length_append, List.take_left]
  have hlen : (Rfc3174.sha1 (key ++ wsGuid)).length = 20 := rfl
  obtain ⟨text, hencode, htext⟩ := encode_eq (Rfc3174.sha1 (key ++ wsGuid)) out (by rwa [hlen])
  rw [hlen] at hencode htext
  refine ⟨text, ?_, htext⟩
  rw [computeAcceptKey, hmin, slice_zero (Nat.le_refl _), List.take_length, ok_bind, hkey, ok_bind,
    hboth, ok_bind, hinput, ok_bind, sha1_eq, ok_bind, hencode]

/-- `sha1` folds the compression function over the blocks of the padded message, and the accept
key is the text of such a digest. -/
theorem accept_key_digest (data key out : Bytes) :
    (data.length < 2 ^ 61 → ∃ z, ∃ bits : BitVec 64,
      IsLeast {z | (data.length + 1 + z) % 64 = 56} z ∧ bits.toNat = 8 * data.length ∧
        sha1 data = .ok ((blocks 64
          (data ++ 0x80 :: (List.replicate z 0 ++ Rfc3174.beBytes 8 bits))).foldl
            Rfc3174.compress Rfc3174.initial).output) ∧
    (key.length ≤ 64 → 28 ≤ out.length →
      ∃ text, computeAcceptKey key out = .ok (28, text) ∧
        text.take 28 = encodedText (Rfc3174.sha1 (key ++ wsGuid))) := by
  refine ⟨fun h => ⟨zeros 64 56 data.length, BitVec.ofNat 64 (8 * data.length),
    zeros_isLeast (by decide) _, ?_, sha1_eq data⟩, computeAcceptKey_digest⟩
  rw [BitVec.toNat_ofNat, Nat.mod_eq_of_lt (by omega)]

theorem sample_key_digest :
    (∃ z, ∃ bits : BitVec 64,
      IsLeast {z | ([97, 98, 99].length + 1 + z) % 64 = 56} z ∧ bits.toNat = 24 ∧
        sha1 [97, 98, 99] = .ok ((blocks 64
          ([97, 98, 99] ++ 0x80 :: (List.replicate z 0 ++ Rfc3174.beBytes 8 bits))).foldl
            Rfc3174.compress Rfc3174.initial).output) ∧
    ∃ text, computeAcceptKey (asBytes "dGhlIHNhbXBsZSBub25jZQ==") (List.replicate 28 0) =
        .ok (28, text) ∧
      text.take 28 = encodedText (Rfc3174.sha1 (asBytes "dGhlIHNhbXBsZSBub25jZQ==" ++ wsGuid)) := by
  obtain ⟨hdigest, hkey⟩ := accept_key_digest [97, 98, 99] (asBytes "dGhlIHNhbXBsZSBub25jZQ==")
    (List.replicate 28 0)
  exact ⟨hdigest (by decide), hkey (by decide) (by decide)⟩

example : computeAcceptKey (asBytes "dGhlIHNhbXBsZSBub25jZQ==") (List.replicate 28 0) =
    .ok (28, asBytes "s3pPLMBiTxaQ9kYGzzhZRbK+xOo=") := by
  decide +kernel

end PicoConduit
