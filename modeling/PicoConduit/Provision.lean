import PicoConduit.Flash
import PicoConduit.Requests

namespace PicoConduit
open Checked Heapless Utf8
set_option autoImplicit true

/-- The radio, as far as a provisioning attempt needs it: whether there is one, and whether a
join with some credentials succeeds in time. -/
structure Radio where
  present : Bool
  joins : String → Bytes → Bool

/-- What a provisioning attempt does. -/
inductive ProvisionStep
  | closeAp
  | join (ssid : String) (password : Bytes)
  | save (creds : Credentials)
  | reset
  | leave
  | startAp (ssid : String) (channel : Nat)
  deriving DecidableEq

def restartAp (radio : Radio) : List ProvisionStep :=
  if radio.present then [.leave, .startAp "pico-setup" 6] else []

/-- `handle_provision`, with the steps it takes and the flash it leaves. -/
def handleProvision (radio : Radio) (flash : CredFlash φ) (f : φ)
    (ssid password mqttHost : String) (mqttPort : UInt16) : Exec (List ProvisionStep × φ) :=
  let tried := if radio.present then [.closeAp, .join ssid (asBytes password)] else []
  let joined := radio.present && radio.joins ssid (asBytes password)
  if joined then
    match Credentials.withMqtt ssid password mqttHost mqttPort with
    | none => pure (tried ++ restartAp radio, f)
    | some creds => do
      let (saved, f) ← saveCredentialsFlash flash f creds
      if saved then pure (tried ++ [.save creds, .reset], f)
      else pure (tried ++ .save creds :: restartAp radio, f)
  else pure (tried ++ restartAp radio, f)

/-- What `handle_http_request` does besides sending its answer. -/
def HttpReply.carryOut (radio : Radio) (flash : CredFlash φ) (f : φ) :
    HttpReply → Exec (List ProvisionStep × φ)
  | .provision ssid password mqttHost mqttPort =>
    handleProvision radio flash f ssid.toString password.toString mqttHost.toString mqttPort
  | _ => pure ([], f)

def Credentials.reply (creds : Credentials) : HttpReply :=
  .provision creds.ssid creds.password creds.mqttHost creds.mqttPort

/-- Whatever is joined and whatever is saved are the values of the form. -/
structure KeepsForm (form : ConnectForm) (steps : List ProvisionStep) : Prop where
  joined : ∀ ssid password, .join ssid password ∈ steps →
    ssid = form.ssid ∧ password = asBytes form.password
  saved : ∀ creds, .save creds ∈ steps → creds.ssid.toString = form.ssid ∧
    creds.password.toString = form.password ∧ creds.mqttHost.toString = form.mqttHost ∧
    creds.mqttPort = form.mqttPort

/-- The values fit in the buffers that they are copied to, as far as they are used. -/
def FormFits (radio : Radio) (form : ConnectForm) : Prop :=
  radio.present = true → form.ssid.utf8ByteSize ≤ 32 ∧ form.password.utf8ByteSize ≤ 64 ∧
    (radio.joins form.ssid (asBytes form.password) = true → form.mqttHost.utf8ByteSize ≤ 64)

/-- The copy of a value is the value itself exactly when it fits. -/
theorem ownedCopy_iff (s : String) :
    (ownedCopy s : HString cap).toString = s ↔ s.utf8ByteSize ≤ cap :=
  HString.getD_pushStr_iff s

/-- The credentials that a form is copied to. -/
def ConnectForm.copied (form : ConnectForm) : Credentials :=
  ⟨ownedCopy form.ssid, ownedCopy form.password, ownedCopy form.mqttHost, form.mqttPort⟩

theorem copied_fields (form : ConnectForm) :
    (form.copied.ssid.toString = form.ssid ↔ form.ssid.utf8ByteSize ≤ 32) ∧
    (form.copied.password.toString = form.password ↔ form.password.utf8ByteSize ≤ 64) ∧
    (form.copied.mqttHost.toString = form.mqttHost ↔ form.mqttHost.utf8ByteSize ≤ 64) :=
  ⟨ownedCopy_iff _, ownedCopy_iff _, ownedCopy_iff _⟩

/-- An attempt joins and saves its credentials, and nothing else. -/
theorem handleProvision_steps (radio : Radio) (flash : CredFlash φ) (f : φ) (c : Credentials) :
    ∃ steps f', handleProvision radio flash f c.ssid.toString c.password.toString
        c.mqttHost.toString c.mqttPort = .ok (steps, f') ∧
      (∀ ssid password, .join ssid password ∈ steps ↔ radio.present = true ∧
        ssid = c.ssid.toString ∧ password = asBytes c.password.toString) ∧
      ∀ creds, .save creds ∈ steps ↔ radio.present = true ∧
        radio.joins c.ssid.toString (asBytes c.password.toString) = true ∧ creds = c := by
  simp only [handleProvision, withMqtt_self, restartAp]
  cases hp : radio.present with
  | false => exact ⟨[], f, rfl, by simp, by simp⟩
  | true =>
    cases hj : radio.joins c.ssid.toString (asBytes c.password.toString) with
    | false => exact ⟨_, f, rfl, by simp, by simp⟩
    | true =>
      obtain ⟨⟨saved, f'⟩, hs⟩ := saveCredentialsFlash_returns flash f c
      simp only [hs, ok_bind, Bool.and_self, ↓reduceIte]
      cases saved with
      | false => exact ⟨_, f', rfl, by simp, by simp⟩
      | true => exact ⟨_, f', rfl, by simp, by simp⟩

/-- The values of a form are joined and saved as they are exactly when they fit their buffers. -/
theorem form_kept_iff (radio : Radio) (flash : CredFlash φ) (f : φ) (decoded : String)
    (form : ConnectForm) (h : parseConnectForm decoded = .ok form) :
    (∃ steps f', (connectReply (parseConnectForm decoded)).carryOut radio flash f =
        .ok (steps, f') ∧ KeepsForm form steps) ↔ FormFits radio form := by
  obtain ⟨steps, f', he, hjoin, hsave⟩ := handleProvision_steps radio flash f form.copied
  obtain ⟨hssid, hpassword, hhost⟩ := copied_fields form
  have hcarry : (connectReply (parseConnectForm decoded)).carryOut radio flash f =
      .ok (steps, f') := by
    rw [h]
    exact he
  constructor
  · intro hx hp
    obtain ⟨steps', f'', he', hkeep⟩ := hx
    rw [hcarry] at he'
    cases he'
    obtain ⟨hs, hw⟩ := hkeep.joined _ _ ((hjoin _ _).2 ⟨hp, rfl, rfl⟩)
    refine ⟨hssid.1 hs, hpassword.1 (asBytes_injective hw), fun hj => ?_⟩
    rw [← hs, ← hw] at hj
    exact hhost.1 (hkeep.saved _ ((hsave _).2 ⟨hp, hj, rfl⟩)).2.2.1
  · intro hfit
    refine ⟨steps, f', hcarry, ?_, ?_⟩
    · intro ssid password hm
      obtain ⟨hp, rfl, rfl⟩ := (hjoin _ _).1 hm
      obtain ⟨hs, hw, -⟩ := hfit hp
      exact ⟨hssid.2 hs, congrArg asBytes (hpassword.2 hw)⟩
    · intro creds hm
      obtain ⟨hp, hj, rfl⟩ := (hsave _).1 hm
      obtain ⟨hs, hw, hh⟩ := hfit hp
      rw [hssid.2 hs, hpassword.2 hw] at hj
      exact ⟨hssid.2 hs, hpassword.2 hw, hhost.2 (hh hj), rfl⟩

/-- A network that lets everyone in. -/
def openRadio : Radio where
  present := true
  joins _ _ := true

def longSsid : String := String.ofList (List.replicate 33 's')

def longSsidBody : String := "ssid=" ++ longSsid ++ "&password=x"

theorem home_form_kept : ∃ steps f,
    (connectReply (parseConnectForm "ssid=home&password=secret12")).carryOut openRadio
      (norFlash (4 * 1024 * 1024)) (fun _ => 0xFF) = .ok (steps, f) ∧
    KeepsForm ⟨"home", "secret12", "", 1883⟩ steps := by
  have hparse : parseConnectForm "ssid=home&password=secret12" =
      .ok ⟨"home", "secret12", "", 1883⟩ := by decide +kernel
  exact (form_kept_iff _ _ _ _ _ hparse).2 fun _ => by decide

/-- An access point is joined, and saved, under an empty name instead of one of 33 bytes. -/
theorem long_ssid_replaced : (asBytes longSsidBody).length ≤ 128 ∧
    parseConnectForm longSsidBody = .ok ⟨longSsid, "x", "", 1883⟩ ∧
    (∃ steps f, (connectReply (parseConnectForm longSsidBody)).carryOut openRadio
        (norFlash (4 * 1024 * 1024)) (fun _ => 0xFF) = .ok (steps, f) ∧
      .join "" (asBytes "x") ∈ steps ∧ ¬ KeepsForm ⟨longSsid, "x", "", 1883⟩ steps) := by
  have hparse : parseConnectForm longSsidBody = .ok ⟨longSsid, "x", "", 1883⟩ := by decide +kernel
  obtain ⟨steps, f, he, hjoin, -⟩ := handleProvision_steps openRadio
    (norFlash (4 * 1024 * 1024)) (fun _ => 0xFF) (ConnectForm.copied ⟨longSsid, "x", "", 1883⟩)
  have hmem : .join "" (asBytes "x") ∈ steps := (hjoin _ _).2 ⟨rfl, by decide, by decide⟩
  refine ⟨by decide, hparse, steps, f, ?_, hmem, fun h => ?_⟩
  · rw [hparse]
    exact he
  · exact absurd (h.joined _ _ hmem).1 (by decide)

end PicoConduit
