import PicoConduit.Base64

namespace PicoConduit
open Checked Utf8
set_option autoImplicit true

def rotateLeft (x n : UInt32) : UInt32 := (x <<< n) ||| (x >>> (32 - n))

def fromBeBytes (b0 b1 b2 b3 : UInt8) : UInt32 :=
  b0.toUInt32 <<< 24 ||| b1.toUInt32 <<< 16 ||| b2.toUInt32 <<< 8 ||| b3.toUInt32

def toBeBytes (x : UInt32) : Bytes :=
  [(x >>> 24).toUInt8, (x >>> 16).toUInt8, (x >>> 8).toUInt8, x.toUInt8]

def toBeBytes64 (x : UInt64) : Bytes :=
  [(x >>> 56).toUInt8, (x >>> 48).toUInt8, (x >>> 40).toUInt8, (x >>> 32).toUInt8,
    (x >>> 24).toUInt8, (x >>> 16).toUInt8, (x >>> 8).toUInt8, x.toUInt8]

/-- The first loop of `sha1_block`, which reads the words of the block. -/
def loadWord (block : Bytes) (w : Vector UInt32 80) (i : Nat) : Exec (Vector UInt32 80) := do
  let b0 ← load block (i * 4)
  let b1 ← load block (i * 4 + 1)
  let b2 ← load block (i * 4 + 2)
  let b3 ← load block (i * 4 + 3)
  setArray w i (fromBeBytes b0 b1 b2 b3)

/-- The second loop, which extends them to one word a round. -/
def expandWord (w : Vector UInt32 80) (i : Nat) : Exec (Vector UInt32 80) := do
  let w3 ← getArray w (i - 3)
  let w8 ← getArray w (i - 8)
  let w14 ← getArray w (i - 14)
  let w16 ← getArray w (i - 16)
  setArray w i (rotateLeft (w3 ^^^ w8 ^^^ w14 ^^^ w16) 1)

structure Sha1State where
  a : UInt32
  b : UInt32
  c : UInt32
  d : UInt32
  e : UInt32
  deriving DecidableEq, Repr

/-- The function of a round, and its constant. -/
def roundFunction (i : Nat) (b c d : UInt32) : UInt32 × UInt32 :=
  if i ≤ 19 then ((b &&& c) ||| (~~~b &&& d), 0x5A827999)
  else if i ≤ 39 then (b ^^^ c ^^^ d, 0x6ED9EBA1)
  else if i ≤ 59 then ((b &&& c) ||| (b &&& d) ||| (c &&& d), 0x8F1BBCDC)
  else (b ^^^ c ^^^ d, 0xCA62C1D6)

def sha1Round (w : Vector UInt32 80) (s : Sha1State) (i : Nat) : Exec Sha1State := do
  let (f, k) := roundFunction i s.b s.c s.d
  let wi ← getArray w i
  let temp := rotateLeft s.a 5 + f + s.e + k + wi
  pure ⟨temp, s.a, rotateLeft s.b 30, s.c, s.d⟩

def sha1Block (block : Bytes) (h : Sha1State) : Exec Sha1State := do
  let w ← (List.range 16).foldlM (loadWord block) (Vector.replicate 80 0)
  let w ← (List.range' 16 64).foldlM expandWord w
  let s ← (List.range 80).foldlM (sha1Round w) h
  pure ⟨h.a + s.a, h.b + s.b, h.c + s.c, h.d + s.d, h.e + s.e⟩

/-- The loop of `sha1` over complete blocks. -/
def sha1Blocks (data : Bytes) (offset : Nat) (h : Sha1State) : Exec (Nat × Sha1State) :=
  if offset + 64 ≤ data.length then do
    let h ← sha1Block (← slice data offset (offset + 64)) h
    sha1Blocks data (offset + 64) h
  else pure (offset, h)
termination_by data.length - offset

/-- The loop of `sha1` that writes its words out. -/
def digestBytes (h : Sha1State) : Exec Bytes :=
  [h.a, h.b, h.c, h.d, h.e].zipIdx.foldlM
    (fun out (val, i) => copy out (i * 4) ((i + 1) * 4) (toBeBytes val)) (List.replicate 20 0)

def sha1 (data : Bytes) : Exec Bytes := do
  let bitLen := UInt64.ofNat data.length * 8
  let (offset, h) ← sha1Blocks data 0
    ⟨0x67452301, 0xEFCDAB89, 0x98BADCFE, 0x10325476, 0xC3D2E1F0⟩
  let remaining := data.length - offset
  let pad ← copy (List.replicate 128 0) 0 remaining (← slice data offset data.length)
  let pad ← store pad remaining 0x80
  let padLen := if remaining < 56 then 64 else 128
  let pad ← copy pad (padLen - 8) padLen (toBeBytes64 bitLen)
  let h ← sha1Block (← slice pad 0 64) h
  let h ← if padLen = 128 then do sha1Block (← slice pad 64 128) h else pure h
  digestBytes h

def wsGuid : Bytes := asBytes "258EAFA5-E914-47DA-95CA-C5AB0DC85B11"

/-- `compute_accept_key`: the number of bytes written, and the buffer they were written to. -/
def computeAcceptKey (clientKey out : Bytes) : Exec (Nat × Bytes) := do
  let keyLen := min clientKey.length 64
  let input ← copy (List.replicate 100 0) 0 keyLen (← slice clientKey 0 keyLen)
  let input ← copy input keyLen (keyLen + wsGuid.length) wsGuid
  let hash ← sha1 (← slice input 0 (keyLen + wsGuid.length))
  encode hash out

theorem loadWord_yields (hb : block.length = 64) (hi : i < 16) :
    Yields (loadWord block w i) fun _ => True := by
  apply (load_yields (by omega)).bind
  intro b0 _
  apply (load_yields (by omega)).bind
  intro b1 _
  apply (load_yields (by omega)).bind
  intro b2 _
  apply (load_yields (by omega)).bind
  intro b3 _
  exact setArray_yields (by omega) _

theorem expandWord_yields (hi : i < 80) : Yields (expandWord w i) fun _ => True := by
  apply (getArray_yields (by omega)).bind
  intro w3 _
  apply (getArray_yields (by omega)).bind
  intro w8 _
  apply (getArray_yields (by omega)).bind
  intro w14 _
  apply (getArray_yields (by omega)).bind
  intro w16 _
  exact setArray_yields hi _

theorem sha1Round_yields (hi : i < 80) : Yields (sha1Round w s i) fun _ => True :=
  (getArray_yields hi).bind fun _ _ => .ok trivial

theorem sha1Block_yields (h : Sha1State) (hb : block.length = 64) :
    Yields (sha1Block block h) fun _ => True := by
  refine (Yields.foldlM (P := fun _ => True) (fun w i _ hi => ?_) trivial).bind fun w _ => ?_
  · exact loadWord_yields hb (List.mem_range.1 hi)
  refine (Yields.foldlM (P := fun _ => True) (fun w i _ hi => ?_) trivial).bind fun w _ => ?_
  · exact expandWord_yields (by grind)
  refine (Yields.foldlM (P := fun _ => True) (fun s i _ hi => ?_) trivial).bind fun s _ => ?_
  · exact sha1Round_yields (List.mem_range.1 hi)
  exact .ok trivial

/-- The loop over complete blocks stops where less than a block is left. -/
theorem sha1Blocks_yields (h : Sha1State) (ho : offset ≤ data.length) :
    Yields (sha1Blocks data offset h) fun r =>
      r.1 ≤ data.length ∧ data.length < r.1 + 64 := by
  rw [sha1Blocks]
  split
  · apply (slice_yields (by omega) ‹_›).bind
    intro block hb
    refine (sha1Block_yields h (by omega)).bind fun h' _ => ?_
    exact sha1Blocks_yields h' (by omega)
  · exact .ok ⟨ho, by omega⟩
termination_by data.length - offset

theorem digestBytes_yields (h : Sha1State) :
    Yields (digestBytes h) fun hash => hash.length = 20 := by
  refine Yields.foldlM (fun out ⟨val, i⟩ ho hi => ?_) List.length_replicate
  have hi5 : i < 5 := by simpa using (List.mem_zipIdx hi).2.1
  have hval : (toBeBytes val).length = (i + 1) * 4 - i * 4 := by
    simp only [toBeBytes, List.length_cons, List.length_nil]
    omega
  obtain ⟨out', he, hl⟩ := copy_yields (show i * 4 ≤ (i + 1) * 4 by omega)
    (show (i + 1) * 4 ≤ out.length by omega) hval
  exact ⟨out', he, hl.trans ho⟩

theorem sha1_yields (data : Bytes) : Yields (sha1 data) fun hash => hash.length = 20 := by
  apply (sha1Blocks_yields _ (Nat.zero_le _)).bind
  rintro ⟨offset, h⟩ ⟨hle, hlt⟩
  simp only at hle hlt ⊢
  have hrem : data.length - offset < 64 := by omega
  generalize hr : data.length - offset = remaining at hrem ⊢
  apply (slice_yields hle (Nat.le_refl _)).bind
  intro rest hrest
  refine (copy_yields (Nat.zero_le _) ?_ (by omega)).bind fun pad hp => ?_
  · rw [List.length_replicate]
    omega
  rw [List.length_replicate] at hp
  refine (store_yields (by omega) _).bind fun pad' hp' => ?_
  refine (copy_yields (Nat.sub_le _ _) ?_ ?_).bind fun pad'' hp'' => ?_
  · split <;> omega
  · split <;> rfl
  apply (slice_yields (Nat.zero_le _) (by omega)).bind
  intro block hb
  apply (sha1Block_yields h hb).bind
  intro h _
  by_cases hs : remaining < 56
  · simp only [hs, ↓reduceIte, Nat.reduceEqDiff]
    exact digestBytes_yields h
  · simp only [hs, ↓reduceIte]
    apply (slice_yields (by omega) (by omega)).bind
    intro block hb
    exact (sha1Block_yields h hb).bind fun h _ => digestBytes_yields h

theorem computeAcceptKey_yields (key : Bytes) (ho : out.length = 28) :
    Yields (computeAcceptKey key out) fun r => r.1 = 28 ∧ r.2.length = 28 := by
  have hk : wsGuid.length = 36 := rfl
  have hm : min key.length 64 ≤ 64 := Nat.min_le_right _ _
  apply (slice_yields (Nat.zero_le _) (Nat.min_le_left _ _)).bind
  intro part hpart
  refine (copy_yields (Nat.zero_le _) ?_ hpart).bind fun input hi => ?_
  · rw [List.length_replicate]
    omega
  rw [List.length_replicate] at hi
  refine (copy_yields (Nat.le_add_right _ _) (by omega) (by omega)).bind fun input hi' => ?_
  apply (slice_yields (Nat.zero_le _) (by omega)).bind
  intro text _
  apply (sha1_yields text).bind
  intro hash hh
  obtain ⟨r, hr, hn, hl⟩ := encodeChunks_yields (show 0 + 4 * ((hash.length + 2) / 3) ≤ out.length
    by omega)
  exact ⟨r, hr, by omega, by omega⟩

end PicoConduit
