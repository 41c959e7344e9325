import PicoConduit.Endian
import PicoConduit.Heapless
import PicoConduit.Slots
import PicoConduit.Utf8

namespace PicoConduit
open Checked Heapless Utf8 Slots Endian
set_option autoImplicit true

def credMagic : Nat := 0xC0FFEE43

def credRecordSize : Nat := 169

def credRegionSize : Nat := 8 * 1024

structure Credentials where
  ssid : HString 32
  password : HString 64
  mqttHost : HString 64
  mqttPort : UInt16
  deriving DecidableEq

def Credentials.withMqtt (ssid password mqttHost : String) (mqttPort : UInt16) :
    Option Credentials := do
  let ssid ← HString.empty.pushStr ssid
  let password ← HString.empty.pushStr password
  let mqttHost ← HString.empty.pushStr mqttHost
  pure ⟨ssid, password, mqttHost, mqttPort⟩

/-- A flash driver, with the results of its calls and the flash that they leave. -/
structure CredFlash (φ : Type u) where
  flashSize : Nat
  read : Nat → (n : Nat) → φ → Option (Slot UInt8 n)
  erase : Nat → Nat → φ → Bool × φ
  write : Nat → Bytes → φ → Bool × φ

def CredFlash.credFlashOffset (flash : CredFlash φ) : Nat := flash.flashSize - credRegionSize

/-- What `load_credentials_flash` makes of the bytes that it has read. -/
def readRecord (buf : Bytes) : Exec (Option Credentials) := do
  let magic := ofLeBytes [← load buf 0, ← load buf 1, ← load buf 2, ← load buf 3]
  if magic ≠ credMagic then pure none
  else
    let ssidLen ← load buf 4
    let pwdLen ← load buf 5
    if ssidLen.toNat > 32 ∨ pwdLen.toNat > 64 then pure none
    else
      match fromUtf8 (← slice buf 6 (6 + ssidLen.toNat)) with
      | none => pure none
      | some ssid =>
        match fromUtf8 (← slice buf 38 (38 + pwdLen.toNat)) with
        | none => pure none
        | some pwd =>
          let mqttHostLen ← load buf 102
          if mqttHostLen.toNat > 64 then pure none
          else
            match fromUtf8 (← slice buf 103 (103 + mqttHostLen.toNat)) with
            | none => pure none
            | some mqttHost =>
              let mqttPort := ofLeBytes [← load buf 167, ← load buf 168]
              pure (Credentials.withMqtt ssid pwd mqttHost (UInt16.ofNat mqttPort))

def loadCredentialsFlash (flash : CredFlash φ) (f : φ) : Exec (Option Credentials) :=
  match flash.read flash.credFlashOffset credRecordSize f with
  | none => pure none
  | some buf => readRecord buf.val

/-- The bytes that `save_credentials_flash` writes. -/
def writtenRecord (creds : Credentials) : Exec Bytes := do
  let buf := List.replicate credRecordSize 0xFF
  let buf ← copy buf 0 4 (leBytes 4 credMagic)
  let ssidB := asBytes creds.ssid.toString
  let pwdB := asBytes creds.password.toString
  let buf ← store buf 4 (UInt8.ofNat ssidB.length)
  let buf ← store buf 5 (UInt8.ofNat pwdB.length)
  let buf ← copy buf 6 (6 + ssidB.length) ssidB
  let buf ← copy buf 38 (38 + pwdB.length) pwdB
  let mqttHostB := asBytes creds.mqttHost.toString
  let buf ← store buf 102 (UInt8.ofNat mqttHostB.length)
  let buf ← copy buf 103 (103 + mqttHostB.length) mqttHostB
  copy buf 167 169 (leBytes 2 creds.mqttPort.toNat)

def saveCredentialsFlash (flash : CredFlash φ) (f : φ) (creds : Credentials) : Exec (Bool × φ) :=
  match flash.erase flash.credFlashOffset (flash.credFlashOffset + 4096) f with
  | (false, f) => pure (false, f)
  | (true, f) => do
    let buf ← writtenRecord creds
    pure (flash.write flash.credFlashOffset buf f)

/-- A successful erase and a successful write make the driver read back what was written. -/
def CredFlash.ReadsBack (flash : CredFlash φ) : Prop :=
  ∀ f f₁ f₂ start stop n (bs : Slot UInt8 n), start + n ≤ stop →
    flash.erase start stop f = (true, f₁) → flash.write start bs.val f₁ = (true, f₂) →
    flash.read start n f₂ = some bs

/-- The credentials fit in the strings that hold them. -/
def Credentials.Fits (c : Credentials) : Prop :=
  c.ssid.toString.utf8ByteSize ≤ 32 ∧ c.password.toString.utf8ByteSize ≤ 64 ∧
    c.mqttHost.toString.utf8ByteSize ≤ 64

/-- The record format: the bytes of a record, field by field. -/
structure CredRecord where
  magic : Slot UInt8 4
  ssidLen : UInt8
  pwdLen : UInt8
  ssid : Slot UInt8 32
  pwd : Slot UInt8 64
  mqttHostLen : UInt8
  mqttHost : Slot UInt8 64
  mqttPort : Slot UInt8 2

def CredRecord.slots (r : CredRecord) : List Bytes :=
  [r.magic.val, [r.ssidLen], [r.pwdLen], r.ssid.val, r.pwd.val, [r.mqttHostLen], r.mqttHost.val,
    r.mqttPort.val]

/-- The text at the front of a slot, if it is one and the slot is long enough. -/
def slotText (len : UInt8) (x : Slot UInt8 n) : Option String :=
  if len.toNat ≤ n then fromUtf8 (x.val.take len.toNat) else none

/-- The credentials that a record stands for. -/
def CredRecord.value (r : CredRecord) : Option Credentials :=
  if ofLeBytes r.magic.val = credMagic then do
    let ssid ← slotText r.ssidLen r.ssid
    let pwd ← slotText r.pwdLen r.pwd
    let mqttHost ← slotText r.mqttHostLen r.mqttHost
    Credentials.withMqtt ssid pwd mqttHost (UInt16.ofNat (ofLeBytes r.mqttPort.val))
  else none

/-- The record of an erased sector. -/
def CredRecord.blank : CredRecord where
  magic := Slots.blank 4 0xFF
  ssidLen := 0xFF
  pwdLen := 0xFF
  ssid := Slots.blank 32 0xFF
  pwd := Slots.blank 64 0xFF
  mqttHostLen := 0xFF
  mqttHost := Slots.blank 64 0xFF
  mqttPort := Slots.blank 2 0xFF

/-- The record of credentials. -/
def Credentials.record (c : Credentials) : CredRecord where
  magic := ⟨leBytes 4 credMagic, length_leBytes 4 credMagic⟩
  ssidLen := UInt8.ofNat (asBytes c.ssid.toString).length
  pwdLen := UInt8.ofNat (asBytes c.password.toString).length
  ssid := filled 32 0xFF (asBytes c.ssid.toString) c.ssid.bounded
  pwd := filled 64 0xFF (asBytes c.password.toString) c.password.bounded
  mqttHostLen := UInt8.ofNat (asBytes c.mqttHost.toString).length
  mqttHost := filled 64 0xFF (asBytes c.mqttHost.toString) c.mqttHost.bounded
  mqttPort := ⟨leBytes 2 c.mqttPort.toNat, length_leBytes 2 _⟩

theorem slotText_of_le (h : len.toNat ≤ n) (x : Slot UInt8 n) :
    slotText len x = fromUtf8 (x.val.take len.toNat) := if_pos h

theorem slotText_of_lt (h : n < len.toNat) (x : Slot UInt8 n) : slotText len x = none :=
  if_neg (Nat.not_le.2 h)

section Fields
variable (r : CredRecord)

theorem load_magic (h : r.magic.val[i]? = some b) : load r.slots.flatten i = .ok b :=
  load_slot [] _ r.magic.val h (Nat.zero_add i).symm

theorem load_ssidLen : load r.slots.flatten 4 = .ok r.ssidLen :=
  load_slot [r.magic.val] _ [r.ssidLen] List.getElem?_cons_zero (by simp [r.magic.2])

theorem load_pwdLen : load r.slots.flatten 5 = .ok r.pwdLen :=
  load_slot [r.magic.val, [r.ssidLen]] _ [r.pwdLen] List.getElem?_cons_zero (by simp [r.magic.2])

theorem slice_ssid (h : n ≤ 32) :
    slice r.slots.flatten 6 (6 + n) = .ok (r.ssid.val.take n) :=
  slice_slot [r.magic.val, [r.ssidLen], [r.pwdLen]] _ r.ssid.val (by rw [r.ssid.2]; exact h)
    (by simp [r.magic.2])

theorem slice_pwd (h : n ≤ 64) : slice r.slots.flatten 38 (38 + n) = .ok (r.pwd.val.take n) :=
  slice_slot [r.magic.val, [r.ssidLen], [r.pwdLen], r.ssid.val] _ r.pwd.val
    (by rw [r.pwd.2]; exact h) (by simp [r.magic.2, r.ssid.2])

theorem load_mqttHostLen : load r.slots.flatten 102 = .ok r.mqttHostLen :=
  load_slot [r.magic.val, [r.ssidLen], [r.pwdLen], r.ssid.val, r.pwd.val] _ [r.mqttHostLen]
    List.getElem?_cons_zero (by simp [r.magic.2, r.ssid.2, r.pwd.2])

theorem slice_mqttHost (h : n ≤ 64) :
    slice r.slots.flatten 103 (103 + n) = .ok (r.mqttHost.val.take n) :=
  slice_slot [r.magic.val, [r.ssidLen], [r.pwdLen], r.ssid.val, r.pwd.val, [r.mqttHostLen]] _
    r.mqttHost.val (by rw [r.mqttHost.2]; exact h) (by simp [r.magic.2, r.ssid.2, r.pwd.2])

theorem load_mqttPort (h : r.mqttPort.val[i]? = some b) :
    load r.slots.flatten (167 + i) = .ok b :=
  load_slot [r.magic.val, [r.ssidLen], [r.pwdLen], r.ssid.val, r.pwd.val, [r.mqttHostLen],
    r.mqttHost.val] _ r.mqttPort.val h (by simp [r.magic.2, r.ssid.2, r.pwd.2, r.mqttHost.2])

end Fields

theorem readRecord_slots (r : CredRecord) : readRecord r.slots.flatten = .ok r.value := by
  obtain ⟨m₀, m₁, m₂, m₃, hm⟩ := List.length_eq_four.1 r.magic.2
  obtain ⟨q₀, q₁, hq⟩ := List.length_eq_two.1 r.mqttPort.2
  have h₀ : load r.slots.flatten 0 = .ok m₀ := load_magic r (by rw [hm]; rfl)
  have h₁ : load r.slots.flatten 1 = .ok m₁ := load_magic r (by rw [hm]; rfl)
  have h₂ : load r.slots.flatten 2 = .ok m₂ := load_magic r (by rw [hm]; rfl)
  have h₃ : load r.slots.flatten 3 = .ok m₃ := load_magic r (by rw [hm]; rfl)
  have h₁₆₇ : load r.slots.flatten 167 = .ok q₀ := load_mqttPort r (i := 0) (by rw [hq]; rfl)
  have h₁₆₈ : load r.slots.flatten 168 = .ok q₁ := load_mqttPort r (i := 1) (by rw [hq]; rfl)
  simp only [readRecord, CredRecord.value, h₀, h₁, h₂, h₃, load_ssidLen, load_pwdLen,
    load_mqttHostLen, h₁₆₇, h₁₆₈, ok_bind, pure_eq, hm, hq]
  by_cases hmagic : ofLeBytes [m₀, m₁, m₂, m₃] = credMagic
  · rw [if_neg (not_not_intro hmagic), if_pos hmagic]
    by_cases hlen : r.ssidLen.toNat ≤ 32 ∧ r.pwdLen.toNat ≤ 64
    · rw [if_neg (by omega), slotText_of_le hlen.1, slotText_of_le hlen.2, slice_ssid r hlen.1,
        slice_pwd r hlen.2, ok_bind]
      cases fromUtf8 (r.ssid.val.take r.ssidLen.toNat) with
      | none => rfl
      | some ssid =>
        simp only [ok_bind]
        cases fromUtf8 (r.pwd.val.take r.pwdLen.toNat) with
        | none => rfl
        | some pwd =>
          by_cases hhost : r.mqttHostLen.toNat ≤ 64
          · simp only [if_neg (Nat.not_lt.2 hhost), slotText_of_le hhost, slice_mqttHost r hhost,
              ok_bind]
            cases fromUtf8 (r.mqttHost.val.take r.mqttHostLen.toNat) <;> rfl
          · simp only [if_pos (Nat.lt_of_not_le hhost), slotText_of_lt (Nat.lt_of_not_le hhost)]
            rfl
    · rw [if_pos (by omega)]
      rcases Nat.lt_or_ge 32 r.ssidLen.toNat with hs | hs
      · rw [slotText_of_lt hs]
        rfl
      · rw [slotText_of_lt (show 64 < r.pwdLen.toNat by omega)]
        cases slotText r.ssidLen r.ssid <;> rfl
  · rw [if_pos hmagic, if_neg hmagic]

theorem withMqtt_self (c : Credentials) :
    Credentials.withMqtt c.ssid.toString c.password.toString c.mqttHost.toString c.mqttPort =
      some c := by
  simp only [Credentials.withMqtt, HString.pushStr_empty c.ssid.bounded,
    HString.pushStr_empty c.password.bounded, HString.pushStr_empty c.mqttHost.bounded]
  rfl

theorem toNat_lenByte (h : n ≤ 64) : (UInt8.ofNat n).toNat = n := by
  rw [UInt8.toNat_ofNat']
  omega

theorem slotText_filled (s : String) (h : (asBytes s).length ≤ n) (hn : n ≤ 64) :
    slotText (UInt8.ofNat (asBytes s).length) (filled n 0xFF (asBytes s) h) = some s := by
  have hlen := toNat_lenByte (Nat.le_trans h hn)
  rw [slotText_of_le (by omega), hlen, filled, List.take_left, fromUtf8_asBytes]

theorem portOf_leBytes (port : UInt16) :
    UInt16.ofNat (ofLeBytes (leBytes 2 port.toNat)) = port := by
  rw [ofLeBytes_leBytes_of_lt (by exact port.toNat_lt), UInt16.ofNat_toNat]

theorem record_value (c : Credentials) : c.record.value = some c := by
  have hmagic : ofLeBytes c.record.magic.val = credMagic := rfl
  rw [CredRecord.value, if_pos hmagic]
  simp only [Credentials.record, slotText_filled _ c.ssid.bounded (by decide),
    slotText_filled _ c.password.bounded (by decide),
    slotText_filled _ c.mqttHost.bounded (by decide), portOf_leBytes]
  exact withMqtt_self c

theorem blank_slots :
    (List.replicate credRecordSize 0xFF : Bytes) = CredRecord.blank.slots.flatten := by
  decide +kernel

section Writes
variable (r : CredRecord)

theorem copy_magic {ys : Bytes} (h : ys.length = 4) :
    copy r.slots.flatten 0 4 ys = .ok ({ r with magic := ⟨ys, h⟩ } : CredRecord).slots.flatten := by
  rw [← overwritten_full r.magic ys h]
  exact copy_slot [] _ r.magic (Nat.le_of_eq h) rfl (by omega)

theorem store_ssidLen (b : UInt8) :
    store r.slots.flatten 4 b = .ok ({ r with ssidLen := b } : CredRecord).slots.flatten :=
  store_slot [r.magic.val] _ r.ssidLen b (by simp [r.magic.2])

theorem store_pwdLen (b : UInt8) :
    store r.slots.flatten 5 b = .ok ({ r with pwdLen := b } : CredRecord).slots.flatten :=
  store_slot [r.magic.val, [r.ssidLen]] _ r.pwdLen b (by simp [r.magic.2])

theorem copy_ssid {ys : Bytes} (h : ys.length ≤ 32) : copy r.slots.flatten 6 (6 + ys.length) ys =
    .ok ({ r with ssid := overwritten r.ssid ys h } : CredRecord).slots.flatten :=
  copy_slot [r.magic.val, [r.ssidLen], [r.pwdLen]] _ r.ssid h (by simp [r.magic.2]) rfl

theorem copy_pwd {ys : Bytes} (h : ys.length ≤ 64) : copy r.slots.flatten 38 (38 + ys.length) ys =
    .ok ({ r with pwd := overwritten r.pwd ys h } : CredRecord).slots.flatten :=
  copy_slot [r.magic.val, [r.ssidLen], [r.pwdLen], r.ssid.val] _ r.pwd h
    (by simp [r.magic.2, r.ssid.2]) rfl

theorem store_mqttHostLen (b : UInt8) :
    store r.slots.flatten 102 b = .ok ({ r with mqttHostLen := b } : CredRecord).slots.flatten :=
  store_slot [r.magic.val, [r.ssidLen], [r.pwdLen], r.ssid.val, r.pwd.val] _ r.mqttHostLen b
    (by simp [r.magic.2, r.ssid.2, r.pwd.2])

theorem copy_mqttHost {ys : Bytes} (h : ys.length ≤ 64) :
    copy r.slots.flatten 103 (103 + ys.length) ys =
      .ok ({ r with mqttHost := overwritten r.mqttHost ys h } : CredRecord).slots.flatten :=
  copy_slot [r.magic.val, [r.ssidLen], [r.pwdLen], r.ssid.val, r.pwd.val, [r.mqttHostLen]] _
    r.mqttHost h (by simp [r.magic.2, r.ssid.2, r.pwd.2]) rfl

theorem copy_mqttPort {ys : Bytes} (h : ys.length = 2) : copy r.slots.flatten 167 169 ys =
    .ok ({ r with mqttPort := ⟨ys, h⟩ } : CredRecord).slots.flatten := by
  rw [← overwritten_full r.mqttPort ys h]
  exact copy_slot [r.magic.val, [r.ssidLen], [r.pwdLen], r.ssid.val, r.pwd.val, [r.mqttHostLen],
    r.mqttHost.val] _ r.mqttPort (Nat.le_of_eq h)
    (by simp [r.magic.2, r.ssid.2, r.pwd.2, r.mqttHost.2]) (by omega)

end Writes

/-- The bytes that are written are the record of the credentials. -/
theorem writtenRecord_eq (c : Credentials) : writtenRecord c = .ok c.record.slots.flatten := by
  have hs : (asBytes c.ssid.toString).length ≤ 32 := c.ssid.bounded
  have hp : (asBytes c.password.toString).length ≤ 64 := c.password.bounded
  have hh : (asBytes c.mqttHost.toString).length ≤ 64 := c.mqttHost.bounded
  simp only [writtenRecord, blank_slots, copy_magic _ (length_leBytes 4 credMagic), store_ssidLen,
    store_pwdLen, copy_ssid _ hs, copy_pwd _ hp, store_mqttHostLen, copy_mqttHost _ hh,
    copy_mqttPort _ (length_leBytes 2 c.mqttPort.toNat), CredRecord.blank, overwritten_blank,
    ok_bind]
  rfl

/-- Every content of the record area is a record. -/
theorem exists_record {bs : Bytes} (h : bs.length = credRecordSize) :
    ∃ r : CredRecord, r.slots.flatten = bs := by
  simp only [credRecordSize] at h
  have hsize {a n : Nat} (ha : a + n ≤ 169) : ((bs.drop a).take n).length = n := by
    rw [List.length_take, List.length_drop]
    omega
  obtain ⟨b₄, hb₄⟩ := List.length_eq_one_iff.1 (hsize (by decide : 4 + 1 ≤ 169))
  obtain ⟨b₅, hb₅⟩ := List.length_eq_one_iff.1 (hsize (by decide : 5 + 1 ≤ 169))
  obtain ⟨b₁₀₂, hb₁₀₂⟩ := List.length_eq_one_iff.1 (hsize (by decide : 102 + 1 ≤ 169))
  refine ⟨⟨⟨(bs.drop 0).take 4, hsize (by decide)⟩, b₄, b₅,
    ⟨(bs.drop 6).take 32, hsize (by decide)⟩, ⟨(bs.drop 38).take 64, hsize (by decide)⟩, b₁₀₂,
    ⟨(bs.drop 103).take 64, hsize (by decide)⟩, ⟨bs.drop 167, by rw [List.length_drop, h]⟩⟩, ?_⟩
  simp only [CredRecord.slots, List.flatten_cons, List.flatten_nil, List.append_nil, ← hb₄, ← hb₅,
    ← hb₁₀₂]
  rw [take_drop_append bs (rfl : 167 = 103 + 64), take_drop_append bs (rfl : 103 = 102 + 1),
    take_drop_append bs (rfl : 102 = 38 + 64), take_drop_append bs (rfl : 38 = 6 + 32),
    take_drop_append bs (rfl : 6 = 5 + 1), take_drop_append bs (rfl : 5 = 4 + 1),
    take_drop_append bs (rfl : 4 = 0 + 4), List.drop_zero]

theorem length_slots (r : CredRecord) : r.slots.flatten.length = credRecordSize := by
  simp [CredRecord.slots, r.magic.2, r.ssid.2, r.pwd.2, r.mqttHost.2, r.mqttPort.2, credRecordSize]

theorem loadCredentialsFlash_of_read {flash : CredFlash φ} {buf : Slot UInt8 credRecordSize}
    (h : flash.read flash.credFlashOffset credRecordSize f = some buf) :
    loadCredentialsFlash flash f = readRecord buf.val := by
  simp only [loadCredentialsFlash, h]

theorem load_saved {flash : CredFlash φ} (hb : flash.ReadsBack)
    (h : saveCredentialsFlash flash f c = .ok (true, f')) :
    loadCredentialsFlash flash f' = .ok (some c) := by
  simp only [saveCredentialsFlash, writtenRecord_eq, ok_bind, pure_eq] at h
  split at h
  · cases h
  · rename_i f₁ herase
    have hsize : flash.credFlashOffset + credRecordSize ≤ flash.credFlashOffset + 4096 :=
      Nat.add_le_add_left (by decide) _
    have hread := hb _ _ _ _ _ _ ⟨c.record.slots.flatten, length_slots c.record⟩ hsize herase
      (Except.ok.inj h)
    rw [loadCredentialsFlash_of_read hread, readRecord_slots, record_value]

theorem saveCredentialsFlash_returns (flash : CredFlash φ) (f : φ) (c : Credentials) :
    ∃ x, saveCredentialsFlash flash f c = .ok x := by
  simp only [saveCredentialsFlash, writtenRecord_eq, ok_bind, pure_eq]
  split <;> exact ⟨_, rfl⟩

/-- Saved credentials are read back, and whatever the flash holds, reading credentials from it
does not leave the buffer. -/
theorem flash_round_trip (flash : CredFlash φ) (h : flash.ReadsBack) :
    (∀ f c, ∃ x, saveCredentialsFlash flash f c = .ok x) ∧
    (∀ f c f', saveCredentialsFlash flash f c = .ok (true, f') →
      loadCredentialsFlash flash f' = .ok (some c)) ∧
    ∀ f, ∃ o, loadCredentialsFlash flash f = .ok o ∧ ∀ c ∈ o, c.Fits := by
  refine ⟨saveCredentialsFlash_returns flash, fun f c f' hs => load_saved h hs, fun f => ?_⟩
  simp only [loadCredentialsFlash]
  split
  · exact ⟨none, rfl, fun c hc => nomatch hc⟩
  · rename_i buf hread
    obtain ⟨r, hr⟩ := exists_record buf.2
    rw [← hr, readRecord_slots]
    exact ⟨_, rfl, fun c _ => ⟨c.ssid.bounded, c.password.bounded, c.mqttHost.bounded⟩⟩

/-- A flash whose bytes can only lose bits between two erasures. -/
def norFlash (size : Nat) : CredFlash (Nat → UInt8) where
  flashSize := size
  read start n f := some ⟨(List.range n).map fun i => f (start + i), by simp⟩
  erase start stop f := (true, fun a => if start ≤ a ∧ a < stop then 0xFF else f a)
  write start bs f := (true, fun a =>
    if start ≤ a then
      match bs[a - start]? with
      | some b => f a &&& b
      | none => f a
    else f a)

theorem norFlash_readsBack (size : Nat) : (norFlash size).ReadsBack := by
  rintro f f₁ f₂ start stop n ⟨bs, hn⟩ hsize herase hwrite
  cases herase
  cases hwrite
  apply congrArg some
  apply Subtype.ext
  apply List.ext_getElem
  · simp [hn]
  · intro i hi hi'
    have hin : i < bs.length := hi'
    have hstop : start + i < stop := by omega
    have hff (b : UInt8) : 0xFF &&& b = b := UInt8.neg_one_and
    simp [hin, hstop, hff]

def homeCredentials : Credentials where
  ssid := ⟨"home", by decide⟩
  password := ⟨"secret12", by decide⟩
  mqttHost := .empty
  mqttPort := 1883

theorem home_round_trip : ∃ f,
    saveCredentialsFlash (norFlash (4 * 1024 * 1024)) (fun _ => 0xFF) homeCredentials =
      .ok (true, f) ∧
    loadCredentialsFlash (norFlash (4 * 1024 * 1024)) f = .ok (some homeCredentials) := by
  obtain ⟨f, hsave⟩ : ∃ f, saveCredentialsFlash (norFlash (4 * 1024 * 1024)) (fun _ => 0xFF)
      homeCredentials = .ok (true, f) := by
    simp only [saveCredentialsFlash, writtenRecord_eq, ok_bind, pure_eq]
    exact ⟨_, rfl⟩
  have h := flash_round_trip (norFlash (4 * 1024 * 1024)) (norFlash_readsBack _)
  exact ⟨_, hsave, h.2.1 _ _ _ hsave⟩

end PicoConduit
