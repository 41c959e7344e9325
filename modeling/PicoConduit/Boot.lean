import PicoConduit.Flash
import PicoConduit.Reconnect

namespace PicoConduit
open Checked Heapless Slots Endian
set_option autoImplicit true

def Credentials.new (ssid password : String) : Option Credentials := do
  let ssid ← HString.empty.pushStr ssid
  let password ← HString.empty.pushStr password
  pure ⟨ssid, password, .empty, 1883⟩

structure Board where
  flashSize : Nat
  expectedChipPart : UInt16

def pico2w : Board := ⟨4 * 1024 * 1024, 0x4⟩

def Board.validateChipPart (board : Board) (actualPart : UInt16) : Except String Unit :=
  if actualPart = board.expectedChipPart then .ok ()
  else .error "platform mismatch: firmware built for wrong chip"

/-- `erase_credentials_flash`, with the result of the driver, which the source drops. -/
def eraseCredentialsFlash (flash : CredFlash φ) (f : φ) : Bool × φ :=
  flash.erase flash.credFlashOffset (flash.credFlashOffset + 4096) f

/-- The loop of `check_factory_reset`, for the levels of the pin so many milliseconds after it has
been set up. -/
def holdLoop (isHigh : Nat → Bool) (now : Nat) (heldMs : UInt16) : Bool :=
  if heldMs < 5000 then
    if isHigh (now + 100) then false else holdLoop isHigh (now + 100) (heldMs + 100)
  else true
termination_by 5000 - heldMs.toNat
decreasing_by
  have h : heldMs.toNat < 5000 := ‹heldMs < 5000›
  have hadd : (heldMs + 100).toNat = (heldMs.toNat + 100) % 65536 := UInt16.toNat_add heldMs 100
  omega

def checkFactoryReset (isHigh : Nat → Bool) : Bool :=
  if isHigh 10 then false else holdLoop isHigh 10 0

/-- What was fixed when the firmware was built, and the flash of its board. -/
structure Firmware (φ : Type) where
  board : Board
  compileSsid : Option String
  compilePass : Option String
  flash : CredFlash φ
  sized : flash.flashSize = board.flashSize

/-- What a start of the device finds: the part number of its chip and the levels of the pin. -/
structure PowerUp where
  part : UInt16
  isHigh : Nat → Bool

/-- What `start` goes on to. -/
inductive Started
  | panicked (message : String) (expected actual : UInt16)
  | reset (erased : Bool)
  | station (creds : Credentials)
  | accessPoint
  deriving DecidableEq

/-- The credentials that `start` looks for. -/
def Firmware.credentials (fw : Firmware φ) (f : φ) : Exec (Option Credentials) :=
  match fw.compileSsid, fw.compilePass with
  | some ssid, some pass => pure (Credentials.new ssid pass)
  | _, _ => loadCredentialsFlash fw.flash f

/-- `start`, with what it signals to the LED and the flash that it leaves. -/
def Firmware.start (fw : Firmware φ) (up : PowerUp) (f : φ) : Exec (List LedState × Started × φ) :=
  match fw.board.validateChipPart up.part with
  | .error message => pure ([], .panicked message fw.board.expectedChipPart up.part, f)
  | .ok () =>
    let doFactoryReset := checkFactoryReset up.isHigh
    if doFactoryReset then
      let (erased, f) := eraseCredentialsFlash fw.flash f
      pure ([.booting, .saving], .reset erased, f)
    else do
      match ← fw.credentials f with
      | some creds => pure ([.booting], .station creds, f)
      | none => pure ([.booting], .accessPoint, f)

theorem holdLoop_iff (hk : k ≤ 50) (hheld : heldMs.toNat = 100 * (50 - k)) (now : Nat) :
    holdLoop isHigh now heldMs = true ↔ ∀ j, 0 < j → j ≤ k → isHigh (now + 100 * j) = false := by
  induction k generalizing heldMs now with
  | zero =>
    have hdone : ¬ heldMs < 5000 := by
      rw [UInt16.lt_iff_toNat_lt, hheld]
      decide
    rw [holdLoop, if_neg hdone]
    constructor
    · intro _ j hpos hle
      omega
    · intro _
      rfl
  | succ k ih =>
    have hlt : heldMs < 5000 := by
      rw [UInt16.lt_iff_toNat_lt, hheld]
      show 100 * (50 - (k + 1)) < 5000
      omega
    have hnext : (heldMs + 100).toNat = 100 * (50 - k) := by
      rw [UInt16.toNat_add, hheld]
      show (100 * (50 - (k + 1)) + 100) % 65536 = 100 * (50 - k)
      omega
    rw [holdLoop, if_pos hlt]
    constructor
    · intro h j hpos hle
      split at h
      · cases h
      · rename_i hlow
        rw [Bool.not_eq_true] at hlow
        rcases Nat.eq_or_lt_of_le hpos with rfl | hj
        · exact hlow
        · have hlater := (ih (by omega) hnext (now + 100)).1 h (j - 1) (by omega) (by omega)
          rwa [show now + 100 + 100 * (j - 1) = now + 100 * j by omega] at hlater
    · intro h
      rw [if_neg (by rw [h 1 (by omega) (by omega)]; exact Bool.false_ne_true)]
      refine (ih (by omega) hnext (now + 100)).2 fun j hpos hle => ?_
      rw [show now + 100 + 100 * j = now + 100 * (j + 1) by omega]
      exact h (j + 1) (by omega) (by omega)

/-- The pin counts as held if it is low at each of the fifty-one times at which it is read. -/
theorem checkFactoryReset_iff (isHigh : Nat → Bool) :
    checkFactoryReset isHigh = true ↔ ∀ k ≤ 50, isHigh (10 + 100 * k) = false := by
  have hloop : holdLoop isHigh 10 0 = true ↔
      ∀ j, 0 < j → j ≤ 50 → isHigh (10 + 100 * j) = false :=
    holdLoop_iff (Nat.le_refl 50) rfl 10
  rw [checkFactoryReset]
  constructor
  · intro h k hk
    split at h
    · cases h
    · rename_i hlow
      rw [Bool.not_eq_true] at hlow
      cases k with
      | zero => exact hlow
      | succ k => exact hloop.1 h (k + 1) (by omega) hk
  · intro h
    rw [if_neg (by rw [h 0 (by omega)]; exact Bool.false_ne_true)]
    exact hloop.2 fun j _ hle => h j hle

/-- A high level that lasts for the time between two readings is seen. -/
theorem checkFactoryReset_released (hfrom : 10 ≤ a) (hto : a ≤ 5010)
    (hhigh : ∀ t, a ≤ t → t < a + 100 → isHigh t = true) : checkFactoryReset isHigh = false := by
  rw [← Bool.not_eq_true, checkFactoryReset_iff]
  intro h
  have hread := h ((a - 10 + 99) / 100) (by omega)
  rw [hhigh _ (by omega) (by omega)] at hread
  cases hread

/-- A successful erase leaves bytes that read as ones throughout. -/
def CredFlash.ErasesBlank (flash : CredFlash φ) : Prop :=
  ∀ f f' start stop n, start + n ≤ stop → flash.erase start stop f = (true, f') →
    flash.read start n f' = some (Slots.blank n 0xFF)

theorem load_erased {flash : CredFlash φ} (hb : flash.ErasesBlank)
    (h : eraseCredentialsFlash flash f = (true, f')) :
    loadCredentialsFlash flash f' = .ok none := by
  have hread := hb f f' _ _ credRecordSize (Nat.add_le_add_left (by decide) _) h
  rw [loadCredentialsFlash_of_read hread]
  show readRecord (List.replicate credRecordSize 0xFF) = .ok none
  rw [blank_slots, readRecord_slots]
  rfl

theorem loadCredentialsFlash_returns (flash : CredFlash φ) (f : φ) :
    ∃ o, loadCredentialsFlash flash f = .ok o := by
  cases hread : flash.read flash.credFlashOffset credRecordSize f with
  | none => exact ⟨none, by rw [loadCredentialsFlash, hread]; rfl⟩
  | some buf =>
    obtain ⟨r, hr⟩ := exists_record buf.property
    exact ⟨r.value, by rw [loadCredentialsFlash_of_read hread, ← hr, readRecord_slots]⟩

theorem Firmware.credentials_returns (fw : Firmware φ) (f : φ) :
    ∃ o, fw.credentials f = .ok o := by
  rw [Firmware.credentials]
  split
  · exact ⟨_, rfl⟩
  · exact loadCredentialsFlash_returns fw.flash f

theorem Firmware.credentials_of_none (fw : Firmware φ)
    (h : fw.compileSsid = none ∨ fw.compilePass = none) (f : φ) :
    fw.credentials f = loadCredentialsFlash fw.flash f := by
  rw [Firmware.credentials]
  rcases h with h | h
  · rw [h]
  · rw [h]
    cases fw.compileSsid <;> rfl

/-- How a start can go. -/
inductive StartsAs (fw : Firmware φ) (up : PowerUp) (f : φ) :
    List LedState → Started → φ → Prop
  | panicked (hpart : up.part ≠ fw.board.expectedChipPart) :
      StartsAs fw up f [] (.panicked "platform mismatch: firmware built for wrong chip"
        fw.board.expectedChipPart up.part) f
  | reset (hpart : up.part = fw.board.expectedChipPart)
      (hheld : checkFactoryReset up.isHigh = true)
      (herase : eraseCredentialsFlash fw.flash f = (erased, f')) :
      StartsAs fw up f [.booting, .saving] (.reset erased) f'
  | station (hpart : up.part = fw.board.expectedChipPart)
      (hfree : checkFactoryReset up.isHigh = false) (hc : fw.credentials f = .ok (some creds)) :
      StartsAs fw up f [.booting] (.station creds) f
  | accessPoint (hpart : up.part = fw.board.expectedChipPart)
      (hfree : checkFactoryReset up.isHigh = false) (hc : fw.credentials f = .ok none) :
      StartsAs fw up f [.booting] .accessPoint f

theorem start_iff :
    Firmware.start fw up f = .ok (leds, started, f') ↔ StartsAs fw up f leds started f' := by
  constructor
  · intro h
    simp only [Firmware.start, Board.validateChipPart] at h
    by_cases hpart : up.part = fw.board.expectedChipPart
    · rw [if_pos hpart] at h
      by_cases hheld : checkFactoryReset up.isHigh = true
      · rw [if_pos hheld] at h
        cases h
        exact .reset hpart hheld rfl
      · rw [if_neg hheld] at h
        rw [Bool.not_eq_true] at hheld
        obtain ⟨o, hc, h⟩ := bind_eq_ok.1 h
        cases o with
        | none =>
          cases h
          exact .accessPoint hpart hheld hc
        | some creds =>
          cases h
          exact .station hpart hheld hc
    · rw [if_neg hpart] at h
      cases h
      exact .panicked hpart
  · intro h
    simp only [Firmware.start, Board.validateChipPart]
    cases h with
    | panicked hpart => rw [if_neg hpart]; rfl
    | reset hpart hheld herase => rw [if_pos hpart]; simp only [if_pos hheld, herase, pure_eq]
    | station hpart hfree hc =>
      rw [if_pos hpart]
      simp only [hfree, Bool.false_eq_true, if_false, hc, ok_bind, pure_eq]
    | accessPoint hpart hfree hc =>
      rw [if_pos hpart]
      simp only [hfree, Bool.false_eq_true, if_false, hc, ok_bind, pure_eq]

theorem start_returns (fw : Firmware φ) (up : PowerUp) (f : φ) :
    ∃ leds started f', fw.start up f = .ok (leds, started, f') := by
  by_cases hpart : up.part = fw.board.expectedChipPart
  · cases hheld : checkFactoryReset up.isHigh with
    | true => exact ⟨_, _, _, start_iff.2 (.reset hpart hheld rfl)⟩
    | false =>
      obtain ⟨o, hc⟩ := fw.credentials_returns f
      cases o with
      | none => exact ⟨_, _, _, start_iff.2 (.accessPoint hpart hheld hc)⟩
      | some creds => exact ⟨_, _, _, start_iff.2 (.station hpart hheld hc)⟩
  · exact ⟨_, _, _, start_iff.2 (.panicked hpart)⟩

/-- A start on the right chip resets the device exactly if the pin is low at each reading, which it
is if it is held for long enough and is not if it is released between two readings; a reset leaves
nothing to start with, and any other start leaves the flash alone. -/
theorem factory_reset_exact (fw : Firmware φ) (hblank : fw.flash.ErasesBlank) (up : PowerUp)
    (hpart : up.part = fw.board.expectedChipPart) (f : φ) :
    ∃ leds how f', fw.start up f = .ok (leds, how, f') ∧
      ((∃ erased, how = .reset erased) ↔ ∀ k ≤ 50, up.isHigh (10 + 100 * k) = false) ∧
      ((∀ t ≤ 5010, up.isHigh t = false) → ∃ erased, how = .reset erased) ∧
      (∀ a, 10 ≤ a → a ≤ 5010 → (∀ t, a ≤ t → t < a + 100 → up.isHigh t = true) →
        ∀ erased, how ≠ .reset erased) ∧
      (how = .reset true → ∀ up', up'.part = fw.board.expectedChipPart →
        checkFactoryReset up'.isHigh = false → fw.compileSsid = none ∨ fw.compilePass = none →
          fw.start up' f' = .ok ([.booting], .accessPoint, f')) ∧
      ((∀ erased, how ≠ .reset erased) → f' = f) := by
  obtain ⟨leds, how, f', h⟩ := start_returns fw up f
  have hreset : (∃ erased, how = .reset erased) ↔ checkFactoryReset up.isHigh = true := by
    cases start_iff.1 h with
    | panicked hne => exact absurd hpart hne
    | reset _ hheld => exact iff_of_true ⟨_, rfl⟩ hheld
    | station _ hfree => exact iff_of_false (fun ⟨_, hr⟩ => by cases hr) (by rw [hfree]; decide)
    | accessPoint _ hfree =>
      exact iff_of_false (fun ⟨_, hr⟩ => by cases hr) (by rw [hfree]; decide)
  refine ⟨leds, how, f', h, hreset.trans (checkFactoryReset_iff _), ?_, ?_, ?_, ?_⟩
  · intro hlow
    exact hreset.2 ((checkFactoryReset_iff _).2 fun k hk => hlow _ (by omega))
  · intro a hfrom hto hhigh erased he
    have hheld := hreset.1 ⟨erased, he⟩
    rw [checkFactoryReset_released hfrom hto hhigh] at hheld
    cases hheld
  · rintro rfl up' hpart' hfree hfw
    have hload : fw.credentials f' = .ok none := by
      cases start_iff.1 h with
      | reset _ _ herase => rw [fw.credentials_of_none hfw, load_erased hblank herase]
    exact start_iff.2 (.accessPoint hpart' hfree hload)
  · intro hne
    cases start_iff.1 h with
    | panicked => rfl
    | reset => exact absurd rfl (hne _)
    | station => rfl
    | accessPoint => rfl

theorem norFlash_erasesBlank (size : Nat) : (norFlash size).ErasesBlank := by
  intro f f' start stop n hsize herase
  cases herase
  apply congrArg some
  apply Subtype.ext
  apply List.ext_getElem
  · simp [Slots.blank]
  · intro i hi hi'
    have hin : i < n := by simpa [Slots.blank] using hi'
    have hstop : start + i < stop := by omega
    simp [Slots.blank, hstop]

def homeFirmware : Firmware (Nat → UInt8) :=
  ⟨pico2w, none, none, norFlash (4 * 1024 * 1024), rfl⟩

/-- A pin that is held for four seconds. -/
def heldBriefly : PowerUp := ⟨4, fun t => 4000 ≤ t⟩

theorem held_briefly_not_reset : ∃ leds how f',
    homeFirmware.start heldBriefly (fun _ => 0) = .ok (leds, how, f') ∧
      (∀ erased, how ≠ .reset erased) ∧ f' = fun _ => 0 := by
  obtain ⟨leds, how, f', h, -, -, hreleased, -, hkept⟩ :=
    factory_reset_exact homeFirmware (norFlash_erasesBlank _) heldBriefly rfl fun _ => 0
  have hnot := hreleased 4000 (by decide) (by decide) fun t ht _ => decide_eq_true ht
  exact ⟨leds, how, f', h, hnot, hkept hnot⟩

end PicoConduit
