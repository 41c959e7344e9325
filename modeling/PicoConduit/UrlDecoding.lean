import PicoConduit.FormBody

namespace PicoConduit
open Checked Utf8
set_option autoImplicit true

/-- The tokens of the percent encoding, with the bytes they stand for. -/
inductive PercentToken : Bytes → UInt8 → Prop
  | plus : PercentToken ['+'.toUInt8] ' '.toUInt8
  | digits (hi lo : Fin 16) (hhi : IsHexDigit hi c1) (hlo : IsHexDigit lo c2) :
      PercentToken ['%'.toUInt8, c1, c2] (UInt8.ofNat (16 * hi + lo))
  | byte (hplus : b ≠ '+'.toUInt8) (hpercent : b ≠ '%'.toUInt8) : PercentToken [b] b

/-- An input that splits into the tokens of some bytes. -/
def PercentEncodes (bytes input : Bytes) (tokens : List (Bytes × UInt8)) : Prop :=
  (∀ token ∈ tokens, PercentToken token.1 token.2) ∧
    input = (tokens.map Prod.fst).flatten ∧ bytes = tokens.map Prod.snd

theorem hexNibble_eq_ok (h : hexNibble c = .ok b) :
    ∃ n : Fin 16, b = UInt8.ofNat n ∧ IsHexDigit n c := by
  have hall : ∀ c : Fin 256, (hexNibble (UInt8.ofFin c)).toOption = none ∨
      ∃ n : Fin 16, hexNibble (UInt8.ofFin c) = .ok (UInt8.ofNat n) ∧
        (UInt8.ofFin c = n.1.digitChar.toUInt8 ∨
          UInt8.ofFin c = n.1.digitChar.toUpper.toUInt8) := by
    decide +kernel
  rcases hall c.toFin with hnone | ⟨n, hn, hdigit⟩
  · rw [UInt8.ofFin_toFin, h] at hnone
    cases hnone
  · rw [UInt8.ofFin_toFin] at hn hdigit
    rw [h] at hn
    exact ⟨n, Except.ok.inj hn, hdigit⟩

theorem digits_byte (hi lo : Fin 16) :
    (UInt8.ofNat hi <<< 4) ||| UInt8.ofNat lo = UInt8.ofNat (16 * hi + lo) := by
  have hall : ∀ hi lo : Fin 16,
      (UInt8.ofNat hi <<< 4) ||| UInt8.ofNat lo = UInt8.ofNat (16 * hi + lo) := by
    decide +kernel
  exact hall hi lo

/-- The tokens that the decoder takes are the ones of the format. -/
theorem token_iff : Token t b ↔ PercentToken t b := by
  constructor
  · intro h
    cases h with
    | plus => exact .plus
    | percent h1 h2 =>
      obtain ⟨hi, rfl, hhi⟩ := hexNibble_eq_ok h1
      obtain ⟨lo, rfl, hlo⟩ := hexNibble_eq_ok h2
      rw [digits_byte]
      exact .digits hi lo hhi hlo
    | literal hp hq => exact .byte hp hq
  · intro h
    cases h with
    | plus => exact .plus
    | digits hi lo hhi hlo =>
      rw [← digits_byte]
      exact .percent (hexNibble_of_isHexDigit hi.2 hhi) (hexNibble_of_isHexDigit lo.2 hlo)
    | byte hp hq => exact .literal hp hq

theorem decodes_iff : Decodes input bytes ↔ ∃ tokens, PercentEncodes bytes input tokens := by
  constructor
  · intro h
    induction h with
    | nil => exact ⟨[], nofun, rfl, rfl⟩
    | cons ht _ ih =>
      obtain ⟨tokens, hall, rfl, rfl⟩ := ih
      exact ⟨(_, _) :: tokens, List.forall_mem_cons.2 ⟨token_iff.1 ht, hall⟩, rfl, rfl⟩
  · rintro ⟨tokens, hall, rfl, rfl⟩
    induction tokens with
    | nil => exact .nil
    | cons token tokens ih =>
      rw [List.forall_mem_cons] at hall
      exact .cons (token_iff.2 hall.1) (ih hall.2)

/-- Where the loop comes to the end of its input, the input splits into tokens. -/
theorem decodeUrlLoop_decodes (pre input : Bytes)
    (h : decodeUrlLoop (pre ++ input) out o pre.length = .ok (.ok r)) :
    ∃ bytes, Decodes input bytes := by
  have hcont {t rest : Bytes} {b : UInt8} (ht : Token t b) (he : input = t ++ rest)
      (hlt : rest.length < input.length) : ∃ bytes, Decodes input bytes := by
    subst he
    rw [decodeUrlLoop_token ht] at h
    split at h
    · obtain ⟨bytes, hd⟩ := decodeUrlLoop_decodes (pre ++ t) rest h
      exact ⟨b :: bytes, .cons ht hd⟩
    · cases h
  cases input with
  | nil => exact ⟨[], .nil⟩
  | cons b rest =>
    by_cases hplus : b = '+'.toUInt8
    · exact hcont .plus (hplus ▸ rfl) (Nat.lt_succ_self _)
    · by_cases hpercent : b = '%'.toUInt8
      · subst hpercent
        rw [decodeUrlLoop] at h
        rcases rest with - | ⟨c1, - | ⟨c2, rest⟩⟩
        · simp [hplus] at h
        · simp [hplus] at h
        · cases h1 : hexNibble c1 with
          | error e => simp [hplus, load, h1] at h
          | ok hi =>
            cases h2 : hexNibble c2 with
            | error e => simp [hplus, load, h1, h2] at h
            | ok lo => exact hcont (.percent h1 h2) rfl (by simp only [List.length_cons]; omega)
      · exact hcont (.literal hplus hpercent) rfl (Nat.lt_succ_self _)
termination_by input.length

theorem decodeUrlEncoded_decodes (h : decodeUrlEncoded input = .ok (.ok text)) :
    ∃ bytes, Decodes input bytes := by
  obtain ⟨r, hloop, hr⟩ := bind_eq_ok.1 h
  cases r with
  | error e => cases hr
  | ok r => exact decodeUrlLoop_decodes [] input hloop

/-- The decoder ends on every input, and accepts exactly the inputs of at most 128 tokens that
spell a text. -/
theorem url_decoding_exact (input : Bytes) :
    (∃ r, decodeUrlEncoded input = .ok r) ∧
    (∀ text, decodeUrlEncoded input = .ok (.ok text) ↔
      ∃ tokens, PercentEncodes (asBytes text) input tokens ∧ tokens.length ≤ 128) ∧
    ∀ text tokens, text.utf8ByteSize ≤ 128 → PercentEncodes (asBytes text) input tokens →
      decodeUrlEncoded input = .ok (.ok text) := by
  have hlen {text : String} {tokens : List (Bytes × UInt8)}
      (h : PercentEncodes (asBytes text) input tokens) :
      tokens.length = (asBytes text).length := by
    rw [h.2.2, List.length_map]
  obtain ⟨r, hr, -⟩ := decodeUrlEncoded_yields input
  refine ⟨⟨r, hr⟩, fun text => ⟨fun h => ?_, fun h => ?_⟩, fun text tokens hfit h => ?_⟩
  · obtain ⟨bytes, hd⟩ := decodeUrlEncoded_decodes h
    obtain ⟨rfl, hfit⟩ := (decodeUrlEncoded_iff hd).1 h
    obtain ⟨tokens, htokens⟩ := decodes_iff.1 hd
    exact ⟨tokens, htokens, by rwa [hlen htokens]⟩
  · obtain ⟨tokens, htokens, hfit⟩ := h
    rw [hlen htokens] at hfit
    exact (decodeUrlEncoded_iff (decodes_iff.2 ⟨tokens, htokens⟩)).2 ⟨rfl, hfit⟩
  · exact (decodeUrlEncoded_iff (decodes_iff.2 ⟨tokens, h⟩)).2 ⟨rfl, hfit⟩

theorem plus_decoded : decodeUrlEncoded (asBytes "a%2B+") = .ok (.ok "a+ ") := by
  refine (url_decoding_exact _).2.2 "a+ " [(['a'.toUInt8], 'a'.toUInt8),
    (['%'.toUInt8, '2'.toUInt8, 'B'.toUInt8], '+'.toUInt8),
    (['+'.toUInt8], ' '.toUInt8)] (by decide) ⟨?_, rfl, rfl⟩
  simp only [List.forall_mem_cons]
  exact ⟨.byte (by decide) (by decide), .digits 2 11 (.inl rfl) (.inr rfl), .plus, nofun⟩

end PicoConduit
