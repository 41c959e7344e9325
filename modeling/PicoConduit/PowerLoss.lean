import PicoConduit.Flash

namespace PicoConduit
open Checked Heapless Utf8 Slots Endian
set_option autoImplicit true

/-- The power fails after the first bytes of a record have been written to an erased sector. -/
def CredFlash.Interrupted (flash : CredFlash φ) (f : φ) (c : Credentials) (k : Nat) : Prop :=
  ∃ bs buf, writtenRecord c = .ok bs ∧
    flash.read flash.credFlashOffset credRecordSize f = some buf ∧ buf.val = torn 0xFF k bs

/-- What is read back is what was to be written, or nothing. -/
def NeverMistaken (flash : CredFlash φ) (f : φ) (c : Credentials) : Prop :=
  loadCredentialsFlash flash f = .ok none ∨ loadCredentialsFlash flash f = .ok (some c)

/-- The cut leaves the host incomplete, or the port as it was to be written. -/
def CutSafely (c : Credentials) (k : Nat) : Prop :=
  k < 103 + (asBytes c.mqttHost.toString).length ∨ credRecordSize ≤ k ∨
    c.mqttPort.toNat = 0xFFFF ∨ k = 168 ∧ 0xFF00 ≤ c.mqttPort.toNat

def CredRecord.torn (k : Nat) (r : CredRecord) : CredRecord where
  magic := tornSlot 0xFF k r.magic
  ssidLen := if k ≤ 4 then 0xFF else r.ssidLen
  pwdLen := if k ≤ 5 then 0xFF else r.pwdLen
  ssid := tornSlot 0xFF (k - 6) r.ssid
  pwd := tornSlot 0xFF (k - 38) r.pwd
  mqttHostLen := if k ≤ 102 then 0xFF else r.mqttHostLen
  mqttHost := tornSlot 0xFF (k - 103) r.mqttHost
  mqttPort := tornSlot 0xFF (k - 167) r.mqttPort

/-- The port that is read back. -/
def tornPort (k : Nat) (port : UInt16) : UInt16 :=
  UInt16.ofNat (ofLeBytes (Slots.torn 0xFF (k - 167) (leBytes 2 port.toNat)))

theorem torn_slots (k : Nat) (r : CredRecord) :
    Slots.torn 0xFF k r.slots.flatten = (r.torn k).slots.flatten := by
  rw [torn_flatten]
  simp only [CredRecord.slots, tornSlots, torn_singleton, r.magic.2, r.ssid.2, r.pwd.2,
    r.mqttHost.2, List.length_singleton, Nat.sub_sub, Nat.sub_eq_zero_iff_le, Nat.reduceAdd]
  rfl

theorem slotText_ff (x : Slot UInt8 n) (h : n ≤ 64) : slotText 0xFF x = none := by
  apply slotText_of_lt
  have hff : (0xFF : UInt8).toNat = 255 := rfl
  omega

/-- A text that is cut off has a byte of the erased sector in it. -/
theorem slotText_torn (s : String) (h : (asBytes s).length ≤ n) (hn : n ≤ 64) (k : Nat) :
    slotText (UInt8.ofNat (asBytes s).length) (tornSlot 0xFF k (filled n 0xFF (asBytes s) h)) =
      if k < (asBytes s).length then none else some s := by
  have hlen := toNat_lenByte (Nat.le_trans h hn)
  have hle : (asBytes s).length ≤ (filled n 0xFF (asBytes s) h).val.length := by
    rw [(filled n 0xFF (asBytes s) h).2]
    exact h
  rw [slotText_of_le (by omega), hlen, tornSlot, take_torn 0xFF k hle, filled, List.take_left]
  split
  · rename_i hk
    exact fromUtf8_of_ff (mem_torn hk 0xFF)
  · rename_i hk
    rw [torn_of_le 0xFF (Nat.not_lt.1 hk), fromUtf8_asBytes]

theorem torn_magic (h : k < 4) :
    ofLeBytes (Slots.torn 0xFF k (leBytes 4 credMagic)) ≠ credMagic := by
  have hk : k = 0 ∨ k = 1 ∨ k = 2 ∨ k = 3 := by omega
  rcases hk with rfl | rfl | rfl | rfl <;> decide

theorem withMqtt_port (c : Credentials) (port : UInt16) :
    Credentials.withMqtt c.ssid.toString c.password.toString c.mqttHost.toString port =
      some { c with mqttPort := port } :=
  withMqtt_self { c with mqttPort := port }

/-- Nothing is read back until the host is complete, and from then on everything but the port. -/
theorem torn_value (c : Credentials) (k : Nat) : (c.record.torn k).value =
    if k < 103 + (asBytes c.mqttHost.toString).length then none
    else some { c with mqttPort := tornPort k c.mqttPort } := by
  have hs : (asBytes c.ssid.toString).length ≤ 32 := c.ssid.bounded
  have hp : (asBytes c.password.toString).length ≤ 64 := c.password.bounded
  rw [CredRecord.value]
  rcases Nat.lt_or_ge k 4 with h₄ | h₄
  · have hmagic : ofLeBytes (c.record.torn k).magic.val ≠ credMagic := torn_magic h₄
    rw [if_neg hmagic, if_pos (by omega)]
  · have hmagic : (c.record.torn k).magic.val = leBytes 4 credMagic := torn_of_le 0xFF h₄
    have hval : ofLeBytes (leBytes 4 credMagic) = credMagic := rfl
    rw [hmagic, if_pos hval]
    simp only [CredRecord.torn, Credentials.record]
    rcases Nat.lt_or_ge 102 k with h₁₀₂ | h₁₀₂
    · rw [if_neg (by omega), if_neg (by omega), if_neg (by omega),
        slotText_torn _ c.ssid.bounded (by decide), slotText_torn _ c.password.bounded (by decide),
        slotText_torn _ c.mqttHost.bounded (by decide), if_neg (by omega), if_neg (by omega)]
      by_cases hk : k < 103 + (asBytes c.mqttHost.toString).length
      · rw [if_pos hk, if_pos (by omega)]
        rfl
      · rw [if_neg hk, if_neg (by omega)]
        exact withMqtt_port c _
    · have hk : k < 103 + (asBytes c.mqttHost.toString).length := by omega
      rw [if_pos h₁₀₂, slotText_ff _ (by decide), if_pos hk]
      simp only [Option.bind_eq_bind, Option.bind_none, Option.bind_fun_none]

theorem tornPort_iff (k : Nat) (port : UInt16) : tornPort k port = port ↔
    credRecordSize ≤ k ∨ port.toNat = 0xFFFF ∨ k = 168 ∧ 0xFF00 ≤ port.toNat := by
  have hport := port.toNat_lt
  simp only [credRecordSize]
  rcases Nat.lt_or_ge k 168 with h | h
  · have hzero : k - 167 = 0 := by omega
    have htorn : tornPort k port = 0xFFFF := by
      rw [tornPort, hzero]
      rfl
    have hff : (0xFFFF : UInt16).toNat = 0xFFFF := rfl
    rw [htorn, ← UInt16.toNat_inj, hff]
    omega
  · rcases Nat.eq_or_lt_of_le h with rfl | h
    · have htorn : tornPort 168 port =
          UInt16.ofNat ((UInt8.ofNat port.toNat).toNat + 256 * 255) := rfl
      rw [htorn, ← UInt16.toNat_inj, UInt16.toNat_ofNat', UInt8.toNat_ofNat']
      omega
    · have hlen : (leBytes 2 port.toNat).length ≤ k - 167 := by
        rw [length_leBytes]
        omega
      refine iff_of_true ?_ (.inl h)
      rw [tornPort, torn_of_le 0xFF hlen, portOf_leBytes]

theorem interrupted_load {flash : CredFlash φ} (h : flash.Interrupted f c k) :
    loadCredentialsFlash flash f = .ok (c.record.torn k).value := by
  obtain ⟨bs, buf, hbs, hread, htorn⟩ := h
  rw [writtenRecord_eq] at hbs
  cases hbs
  rw [loadCredentialsFlash_of_read hread, htorn, torn_slots, readRecord_slots]

/-- After an interrupted write, other credentials are read back exactly when the cut lies behind
the host and changes the port. -/
theorem never_mistaken_iff (flash : CredFlash φ) (f : φ) (c : Credentials) (k : Nat)
    (h : flash.Interrupted f c k) : NeverMistaken flash f c ↔ CutSafely c k := by
  rw [NeverMistaken, interrupted_load h, torn_value, CutSafely]
  split
  · rename_i hk
    exact iff_of_true (.inl rfl) (.inl hk)
  · rename_i hk
    rw [← tornPort_iff k c.mqttPort, or_iff_right hk]
    constructor
    · intro hx
      rcases hx with hx | hx
      · exact absurd (Except.ok.inj hx) (Option.some_ne_none _)
      · have hport := congrArg Credentials.mqttPort (Option.some.inj (Except.ok.inj hx))
        simpa only using hport
    · intro hx
      rw [hx]
      exact .inr rfl

def boardFlash : CredFlash (Nat → UInt8) := norFlash (4 * 1024 * 1024)

/-- What is in the flash when the power fails. -/
def cutFlash (c : Credentials) (k : Nat) (a : Nat) : UInt8 :=
  ((Slots.torn 0xFF k c.record.slots.flatten)[a - boardFlash.credFlashOffset]?).getD 0xFF

theorem cutFlash_interrupted (c : Credentials) (k : Nat) :
    boardFlash.Interrupted (cutFlash c k) c k := by
  refine ⟨_, _, writtenRecord_eq c, rfl, ?_⟩
  have hlen : (Slots.torn 0xFF k c.record.slots.flatten).length = credRecordSize := by
    rw [length_torn, length_slots]
  apply List.ext_getElem
  · rw [hlen, List.length_map, List.length_range]
  · intro i hi hi'
    simp only [List.getElem_map, List.getElem_range, cutFlash, Nat.add_sub_cancel_left,
      List.getElem?_eq_getElem hi', Option.getD_some]

theorem cut_in_host_is_safe : NeverMistaken boardFlash (cutFlash homeCredentials 102)
    homeCredentials :=
  (never_mistaken_iff _ _ _ _ (cutFlash_interrupted homeCredentials 102)).2 (.inl (by decide))

theorem cut_in_port_mistaken :
    boardFlash.Interrupted (cutFlash homeCredentials 167) homeCredentials 167 ∧
    loadCredentialsFlash boardFlash (cutFlash homeCredentials 167) =
      .ok (some { homeCredentials with mqttPort := 65535 }) ∧
    ¬ NeverMistaken boardFlash (cutFlash homeCredentials 167) homeCredentials := by
  have hint := cutFlash_interrupted homeCredentials 167
  have hload : loadCredentialsFlash boardFlash (cutFlash homeCredentials 167) =
      .ok (some { homeCredentials with mqttPort := 65535 }) := by
    rw [interrupted_load hint, torn_value, if_neg (by decide)]
    rfl
  refine ⟨hint, hload, fun h => ?_⟩
  rcases h with h | h
  · rw [hload] at h
    exact absurd (Except.ok.inj h) (Option.some_ne_none _)
  · rw [hload] at h
    exact absurd (congrArg Credentials.mqttPort (Option.some.inj (Except.ok.inj h))) (by decide)

end PicoConduit
