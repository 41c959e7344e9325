import Mathlib.Data.List.Basic

namespace Utf8
set_option autoImplicit true

abbrev Bytes := List UInt8

/-- The UTF-8 bytes of a string. -/
def asBytes (s : String) : Bytes := s.toByteArray.data.toList

/-- The string that a byte sequence spells, if it is valid UTF-8. -/
def fromUtf8 (bs : Bytes) : Option String := String.fromUTF8? ⟨bs.toArray⟩

@[simp] theorem length_asBytes (s : String) : (asBytes s).length = s.utf8ByteSize := rfl

theorem asBytes_injective (h : asBytes s = asBytes t) : s = t := by
  apply String.toByteArray_inj.1
  apply ByteArray.ext
  exact Array.toList_inj.1 h

theorem fromUtf8_asBytes (s : String) : fromUtf8 (asBytes s) = some s := by
  have hs : (⟨(asBytes s).toArray⟩ : ByteArray) = s.toByteArray := by
    simp [asBytes]
  simp only [fromUtf8, hs, String.fromUTF8?, dif_pos s.isValidUTF8]
  rfl

theorem fromUtf8_eq_some : fromUtf8 bs = some s ↔ bs = asBytes s := by
  constructor
  · intro h
    simp only [fromUtf8, String.fromUTF8?] at h
    split at h
    · cases h
      simp [asBytes, String.fromUTF8]
    · cases h
  · rintro rfl
    exact fromUtf8_asBytes s

theorem asBytes_ofList (cs : List Char) :
    asBytes (String.ofList cs) = cs.flatMap String.utf8EncodeChar := by
  simp [asBytes, List.utf8Encode]

theorem asBytes_replicate (n : Nat) (hc : String.utf8EncodeChar c = [b]) :
    asBytes (String.ofList (List.replicate n c)) = List.replicate n b := by
  rw [asBytes_ofList]
  induction n with
  | zero => rfl
  | succ n ih =>
    rw [List.replicate_succ, List.flatMap_cons, hc, ih]
    rfl

theorem asBytes_eq_flatMap (s : String) : asBytes s = s.toList.flatMap String.utf8EncodeChar := by
  rw [← asBytes_ofList, String.ofList_toList]

theorem prefix_of_flatMap_prefix (h : cs.flatMap String.utf8EncodeChar <+:
    List.flatMap String.utf8EncodeChar ds) : cs <+: ds := by
  induction cs generalizing ds with
  | nil => exact List.nil_prefix
  | cons c cs ih =>
    obtain ⟨rest, hrest⟩ := h
    cases ds with
    | nil =>
      rw [List.flatMap_cons, List.flatMap_nil, List.append_assoc] at hrest
      exact absurd (List.append_eq_nil_iff.1 hrest).1 String.utf8EncodeChar_ne_nil
    | cons d ds =>
      rw [List.flatMap_cons, List.flatMap_cons, List.append_assoc] at hrest
      have hdecode := congrArg (fun bs => ByteArray.utf8DecodeChar? (List.toByteArray bs) 0) hrest
      simp only [List.toByteArray_append, ByteArray.utf8DecodeChar?_utf8EncodeChar_append,
        Option.some.injEq] at hdecode
      subst hdecode
      exact List.cons_prefix_cons.2 ⟨rfl, ih ⟨rest, List.append_cancel_left hrest⟩⟩

/-- A text begins with another if its bytes do. -/
theorem toList_prefix (h : asBytes s <+: asBytes t) : s.toList <+: t.toList := by
  rw [asBytes_eq_flatMap, asBytes_eq_flatMap] at h
  exact prefix_of_flatMap_prefix h

/-- The byte 0xFF is in no text. -/
theorem ff_not_mem_encodeChar (c : Char) : 0xFF ∉ String.utf8EncodeChar c := by
  have hne (n : Nat) (h : n % 256 ≠ 255) : (0xFF : UInt8) ≠ UInt8.ofNat n := by
    intro he
    have ht := congrArg UInt8.toNat he
    rw [UInt8.toNat_ofNat'] at ht
    exact h ht.symm
  simp only [String.utf8EncodeChar]
  split
  · simp only [List.mem_singleton]
    exact hne _ (by omega)
  · split
    · simp only [List.mem_cons, List.not_mem_nil, or_false, not_or]
      exact ⟨hne _ (by omega), hne _ (by omega)⟩
    · split
      · simp only [List.mem_cons, List.not_mem_nil, or_false, not_or]
        exact ⟨hne _ (by omega), hne _ (by omega), hne _ (by omega)⟩
      · simp only [List.mem_cons, List.not_mem_nil, or_false, not_or]
        exact ⟨hne _ (by omega), hne _ (by omega), hne _ (by omega), hne _ (by omega)⟩

theorem ff_not_mem_asBytes (s : String) : 0xFF ∉ asBytes s := by
  rw [asBytes_eq_flatMap, List.mem_flatMap]
  intro h
  obtain ⟨c, -, hc⟩ := h
  exact ff_not_mem_encodeChar c hc

theorem fromUtf8_of_ff (h : 0xFF ∈ bs) : fromUtf8 bs = none := by
  rw [Option.eq_none_iff_forall_ne_some]
  intro s hs
  rw [fromUtf8_eq_some.1 hs] at h
  exact ff_not_mem_asBytes s h

end Utf8
