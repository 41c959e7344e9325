import PicoConduit.Boot
import PicoConduit.PageForm
import PicoConduit.PortalTurn
import PicoConduit.PowerLoss
import PicoConduit.Trace

namespace PicoConduit
open Checked Heapless Utf8 Slots Trace
set_option autoImplicit true

/-- What a turn of the portal does besides answering. -/
def portalSteps (radio : Radio) (flash : CredFlash φ) (f : φ) (input : Bytes) :
    Exec (List ProvisionStep × φ) := do
  match ← handleHttpRequest input with
  | none => pure ([], f)
  | some reply => reply.carryOut radio flash f

theorem portalTurn_steps (radio : Radio) (flash : CredFlash φ) (f : φ) (scan : List BssInfo)
    (input : Bytes) : (portalTurn radio flash f scan input).map Prod.snd =
      (portalSteps radio flash f input).map Prod.snd := by
  rw [portalTurn, portalSteps]
  cases handleHttpRequest input with
  | error p => rfl
  | ok answer =>
    cases answer with
    | none => rfl
    | some reply =>
      simp only [ok_bind]
      cases reply.carryOut radio flash f <;> rfl

/-- What has become of the credentials in the flash. -/
inductive Fate
  | saved (creds : Credentials)
  | torn (creds : Credentials) (k : Nat)
  | wiped
  | lost
  deriving DecidableEq

/-- The credentials that are left, where that is certain. -/
def Fate.leaves : Fate → Option (Option Credentials)
  | .saved creds => some (some creds)
  | .torn creds k =>
    some (if k < 103 + (asBytes creds.mqttHost.toString).length then none
      else some { creds with mqttPort := tornPort k creds.mqttPort })
  | .wiped => some none
  | .lost => none

/-- What a provisioning attempt that ends by itself makes of the credentials. -/
def savedFate (steps : List ProvisionStep) : Option Fate :=
  steps.findSome? fun step =>
    match step with
    | .save creds => some (if .reset ∈ steps then .saved creds else .lost)
    | _ => none

inductive Phase
  | off
  | panicked
  | station (creds : Credentials)
  | accessPoint
  deriving DecidableEq

def Started.phase : Started → Phase
  | .panicked .. => .panicked
  | .reset _ => .off
  | .station creds => .station creds
  | .accessPoint => .accessPoint

/-- The credentials that a started device uses. -/
def Started.uses : Started → Option (Option Credentials)
  | .station creds => some (some creds)
  | .accessPoint => some none
  | _ => none

structure Device (φ : Type) where
  phase : Phase
  flash : φ

/-- What happens to a device; a request may be cut off while its credentials are written. -/
inductive Event
  | powerOff
  | started (how : Started)
  | startCut
  | request (radio : Radio) (input : Bytes) (steps : List ProvisionStep)
  | requestPanicked (input : Bytes)
  | requestCut (radio : Radio) (input : Bytes) (creds : Credentials) (written : Option Nat)

def Event.fate : Event → Option Fate
  | .started (.reset true) => some .wiped
  | .started (.reset false) => some .lost
  | .startCut => some .lost
  | .request _ _ steps => savedFate steps
  | .requestCut _ _ creds (some k) => some (.torn creds k)
  | .requestCut _ _ _ none => some .lost
  | _ => none

/-- Credentials that a request to the portal submits and the radio joins a network with. -/
structure Submitted (radio : Radio) (input : Bytes) (creds : Credentials) : Prop where
  asked : handleHttpRequest input = .ok (some creds.reply)
  present : radio.present = true
  joins : radio.joins creds.ssid.toString (asBytes creds.password.toString) = true

/-- The steps of a device, with any requests, whose power may fail at any time: between two
accesses to the flash, while the sector is erased, which leaves any content, or while the record is
written. -/
inductive LifeStep (fw : Firmware φ) : Device φ → Event → Device φ → Prop
  | powerOff : LifeStep fw ⟨phase, f⟩ .powerOff ⟨.off, f⟩
  | started (h : fw.start up f = .ok (leds, how, f')) :
      LifeStep fw ⟨.off, f⟩ (.started how) ⟨how.phase, f'⟩
  | startCut (up : PowerUp) (hpart : up.part = fw.board.expectedChipPart)
      (hheld : checkFactoryReset up.isHigh = true) :
      LifeStep fw ⟨.off, f⟩ .startCut ⟨.off, f'⟩
  | request (h : portalSteps radio fw.flash f input = .ok (steps, f')) :
      LifeStep fw ⟨.accessPoint, f⟩ (.request radio input steps)
        ⟨if .reset ∈ steps then .off else .accessPoint, f'⟩
  | requestPanicked (h : portalSteps radio fw.flash f input = .error p) :
      LifeStep fw ⟨.accessPoint, f⟩ (.requestPanicked input) ⟨.panicked, f⟩
  | eraseCut (h : Submitted radio input creds) :
      LifeStep fw ⟨.accessPoint, f⟩ (.requestCut radio input creds none) ⟨.off, f'⟩
  | writeCut (h : Submitted radio input creds)
      (herase : eraseCredentialsFlash fw.flash f = (true, f₁))
      (hcut : fw.flash.Interrupted f' creds k) :
      LifeStep fw ⟨.accessPoint, f⟩ (.requestCut radio input creds (some k)) ⟨.off, f'⟩

/-- How a turn of the portal can end for the credentials in the flash. -/
inductive PortalOutcome (radio : Radio) (flash : CredFlash φ) (f : φ) (input : Bytes) :
    List ProvisionStep → φ → Prop
  | kept (hfate : savedFate steps = none) (hsave : ∀ creds, .save creds ∉ steps)
      (hstays : .reset ∉ steps) : PortalOutcome radio flash f input steps f
  | saved (h : Submitted radio input creds)
      (hsave : saveCredentialsFlash flash f creds = .ok (true, f'))
      (hfate : savedFate steps = some (.saved creds))
      (hsteps : ∀ c, .save c ∈ steps → c = creds) : PortalOutcome radio flash f input steps f'
  | failed (h : Submitted radio input creds)
      (hsave : saveCredentialsFlash flash f creds = .ok (false, f'))
      (hfate : savedFate steps = some .lost) (hsteps : ∀ c, .save c ∈ steps → c = creds)
      (hstays : .reset ∉ steps) : PortalOutcome radio flash f input steps f'

theorem portalSteps_outcome (h : portalSteps radio flash f input = .ok (steps, f')) :
    PortalOutcome radio flash f input steps f' := by
  obtain ⟨answer, ha, h⟩ := bind_eq_ok.1 h
  cases answer with
  | none =>
    cases h
    exact .kept rfl (by simp) (by simp)
  | some reply =>
    cases reply with
    | provision ssid password mqttHost mqttPort =>
      let creds : Credentials := ⟨ssid, password, mqttHost, mqttPort⟩
      simp only [HttpReply.carryOut, handleProvision, restartAp] at h
      cases hp : radio.present with
      | false =>
        simp only [hp, Bool.false_and, Bool.false_eq_true, if_false] at h
        cases h
        exact .kept rfl (by simp) (by simp)
      | true =>
        cases hj : radio.joins ssid.toString (asBytes password.toString) with
        | false =>
          simp only [hp, hj, Bool.and_false, Bool.false_eq_true, if_false, if_true] at h
          cases h
          exact .kept rfl (by simp) (by simp)
        | true =>
          have hsub : Submitted radio input creds := ⟨ha, hp, hj⟩
          have hcreds : Credentials.withMqtt ssid.toString password.toString mqttHost.toString
              mqttPort = some creds := withMqtt_self creds
          simp only [hp, hj, Bool.and_self, if_true, hcreds] at h
          obtain ⟨⟨saved, f₁⟩, hs, h⟩ := bind_eq_ok.1 h
          cases saved with
          | false =>
            cases h
            exact .failed hsub hs rfl (by simp) (by simp)
          | true =>
            cases h
            exact .saved hsub hs rfl (by simp)
    | _ =>
      cases h
      exact .kept rfl (by simp) (by simp)

/-- The credentials that are known to be in the flash after some events. -/
def Firmware.stored (fw : Firmware φ) (f₀ : φ) (past : List Event) : Option (Option Credentials) :=
  match latest Event.fate past with
  | none => (loadCredentialsFlash fw.flash f₀).toOption
  | some fate => fate.leaves

/-- The flash holds what the past says. -/
def Firmware.Holds (fw : Firmware φ) (f₀ : φ) (past : List Event) (d : Device φ) : Prop :=
  ∀ o, fw.stored f₀ past = some o → loadCredentialsFlash fw.flash d.flash = .ok o

theorem Firmware.stored_cons_none (fw : Firmware φ) (f₀ : φ) (h : event.fate = none)
    (past : List Event) : fw.stored f₀ (event :: past) = fw.stored f₀ past := by
  rw [Firmware.stored, latest_cons_of_none h]
  rfl

theorem Firmware.stored_cons_some (fw : Firmware φ) (f₀ : φ) (h : event.fate = some fate)
    (past : List Event) : fw.stored f₀ (event :: past) = fate.leaves := by
  rw [Firmware.stored, latest_cons_of_some h]

theorem Firmware.stored_append (fw : Firmware φ) (f₀ : φ)
    (h : ∀ event ∈ later, event.fate = none) (past : List Event) :
    fw.stored f₀ (later ++ past) = fw.stored f₀ past := by
  rw [Firmware.stored, latest_append_of_none h]
  rfl

/-- After an event that leaves the credentials alone, the flash holds what it held. -/
theorem Firmware.Holds.keep {fw : Firmware φ} (h : fw.Holds f₀ past ⟨phase, f⟩)
    (he : event.fate = none) : fw.Holds f₀ (event :: past) ⟨phase', f⟩ := by
  intro o ho
  rw [fw.stored_cons_none f₀ he] at ho
  exact h o ho

/-- After an event that decides about the credentials, the flash holds what it leaves. -/
theorem Firmware.holds_of_fate {fw : Firmware φ} (he : event.fate = some fate)
    (hf : ∀ o, fate.leaves = some o → loadCredentialsFlash fw.flash d.flash = .ok o) :
    fw.Holds f₀ (event :: past) d := by
  intro o ho
  rw [fw.stored_cons_some f₀ he] at ho
  exact hf o ho

theorem Firmware.holds_lost {fw : Firmware φ} (he : event.fate = some .lost) :
    fw.Holds f₀ (event :: past) d :=
  Firmware.holds_of_fate he fun o ho => by cases ho

section Driver
variable {fw : Firmware φ} (hb : fw.flash.ReadsBack) (hblank : fw.flash.ErasesBlank)
include hb hblank

/-- Every step of a device leaves in the flash what is due to it. -/
theorem LifeStep.holds (h : LifeStep fw d event d') (hd : fw.Holds f₀ past d) :
    fw.Holds f₀ (event :: past) d' := by
  cases h with
  | powerOff => exact hd.keep rfl
  | started h =>
    cases start_iff.1 h with
    | panicked => exact hd.keep rfl
    | @reset erased _ _ _ herase =>
      cases erased with
      | false => exact Firmware.holds_lost rfl
      | true =>
        refine Firmware.holds_of_fate rfl fun o ho => ?_
        cases ho
        exact load_erased hblank herase
    | station => exact hd.keep rfl
    | accessPoint => exact hd.keep rfl
  | startCut => exact Firmware.holds_lost rfl
  | request h =>
    cases portalSteps_outcome h with
    | kept hfate => exact hd.keep hfate
    | saved _ hsave hfate =>
      refine Firmware.holds_of_fate hfate fun o ho => ?_
      cases ho
      exact load_saved hb hsave
    | failed _ _ hfate => exact Firmware.holds_lost hfate
  | requestPanicked => exact hd.keep rfl
  | eraseCut => exact Firmware.holds_lost rfl
  | writeCut h herase hcut =>
    refine Firmware.holds_of_fate rfl fun o ho => ?_
    rw [interrupted_load hcut, torn_value]
    cases ho
    rfl

/-- The flash always holds what has last been made of it. -/
theorem run_holds (h : Run (LifeStep fw) ⟨.off, f₀⟩ past d) : fw.Holds f₀ past d := by
  refine h.relates ?_ fun _ _ _ _ hd hs => hs.holds hb hblank hd
  intro o ho
  obtain ⟨o', hload⟩ := loadCredentialsFlash_returns fw.flash f₀
  have hstored : (loadCredentialsFlash fw.flash f₀).toOption = some o := ho
  rw [hload] at hstored
  cases hstored
  exact hload

end Driver

theorem start_uses (h : Firmware.start fw up f = .ok (leds, how, f')) (hu : how.uses = some used) :
    fw.credentials f = .ok used := by
  cases start_iff.1 h with
  | panicked => cases hu
  | reset => cases hu
  | station _ _ hc =>
    cases hu
    exact hc
  | accessPoint _ _ hc =>
    cases hu
    exact hc

/-- The start in the middle of a run. -/
theorem run_started (h : Run (LifeStep fw) d₀ (later ++ .started how :: earlier) d) :
    ∃ f leds up f', Run (LifeStep fw) d₀ earlier ⟨.off, f⟩ ∧
      fw.start up f = .ok (leds, how, f') := by
  obtain ⟨_, hrun, -⟩ := run_append.1 h
  obtain ⟨_, hearlier, hs⟩ := run_cons.1 hrun
  cases hs with
  | started hs => exact ⟨_, _, _, _, hearlier, hs⟩

theorem Submission.GetsThrough.handled {s : Submission} (h : s.GetsThrough) (hst : s.Stores creds)
    (hreq : ConnectRequest headers s.body) (hfit : headers.length ≤ 512)
    (hhost : ¬ TurnedDown headers) :
    handleHttpRequest (headers ++ s.body) = .ok (some creds.reply) := by
  rw [(hreq.handled hfit).2 hhost, if_pos (h.length_le hst)]
  exact h.formReply hst

theorem norFlash_saves (size : Nat) (f : Nat → UInt8) (c : Credentials) :
    ∃ f', saveCredentialsFlash (norFlash size) f c = .ok (true, f') := by
  simp only [saveCredentialsFlash, writtenRecord_eq, ok_bind, pure_eq]
  exact ⟨_, rfl⟩

def freshFlash : Nat → UInt8 := (eraseCredentialsFlash homeFirmware.flash fun _ => 0).2

theorem norFlash_erases (size : Nat) (f : Nat → UInt8) :
    ∃ f', eraseCredentialsFlash (norFlash size) f = (true, f') := ⟨_, rfl⟩

theorem freshFlash_blank : loadCredentialsFlash homeFirmware.flash freshFlash = .ok none := by
  obtain ⟨f, herase⟩ := norFlash_erases (4 * 1024 * 1024) fun _ => 0
  have hfresh : freshFlash = f := congrArg Prod.snd herase
  rw [hfresh]
  exact load_erased (norFlash_erasesBlank _) herase

def homeRequest : Bytes := pageHeaders ++ selectedHome.body

def homeSteps : List ProvisionStep :=
  [.closeAp, .join "home" (asBytes "secret12"), .save homeCredentials, .reset]

/-- A fresh device is started and set up. -/
def homeSetup : List Event := [.request openRadio homeRequest homeSteps, .started .accessPoint]

theorem selectedHome_getsThrough : selectedHome.GetsThrough where
  password := by decide
  mqttHost := by decide
  ssid := by decide +kernel
  room := .inl ⟨by decide, by decide +kernel⟩

theorem selectedHome_stores : selectedHome.Stores homeCredentials where
  ssid := by decide +kernel
  password := rfl
  mqttHost := rfl
  mqttPort := rfl

theorem selectedHome_handled : handleHttpRequest homeRequest = .ok (some homeCredentials.reply) :=
  selectedHome_getsThrough.handled selectedHome_stores (pageHeaders_request (by decide))
    (by decide +kernel) pageHeaders_not_turnedDown

theorem home_set_up : ∃ f, Run (LifeStep homeFirmware) ⟨.off, freshFlash⟩ homeSetup ⟨.off, f⟩ ∧
    loadCredentialsFlash homeFirmware.flash f = .ok (some homeCredentials) := by
  have hload : homeFirmware.credentials freshFlash = .ok none := by
    rw [homeFirmware.credentials_of_none (.inl rfl), freshFlash_blank]
  have hstart : homeFirmware.start ⟨4, fun _ => true⟩ freshFlash =
      .ok ([.booting], .accessPoint, freshFlash) := start_iff.2 (.accessPoint rfl rfl hload)
  obtain ⟨f, hsave⟩ := norFlash_saves (4 * 1024 * 1024) freshFlash homeCredentials
  have hcreds := withMqtt_self homeCredentials
  have hsteps : portalSteps openRadio homeFirmware.flash freshFlash homeRequest =
      .ok (homeSteps, f) := by
    rw [portalSteps, selectedHome_handled]
    simp only [ok_bind, Credentials.reply, HttpReply.carryOut, handleProvision, openRadio,
      Bool.and_self, if_true, hcreds, homeFirmware, hsave]
    rfl
  have hrequest := LifeStep.request hsteps
  exact ⟨f, .next (.next .start (.started hstart)) hrequest,
    load_saved (norFlash_readsBack _) hsave⟩

/-- And is started again. -/
theorem home_started : ∃ d, Run (LifeStep homeFirmware) ⟨.off, freshFlash⟩
    (.started (.station homeCredentials) :: homeSetup) d := by
  obtain ⟨f, hrun, hload⟩ := home_set_up
  have hstart : homeFirmware.start ⟨4, fun _ => true⟩ f =
      .ok ([.booting], .station homeCredentials, f) := start_iff.2 (.station rfl rfl hload)
  exact ⟨_, .next hrun (.started hstart)⟩

/-- The events in which credentials are written, or begun to be. -/
inductive Event.Writes : Event → Radio → Bytes → Credentials → Prop
  | request (h : .save creds ∈ steps) : Writes (.request radio input steps) radio input creds
  | requestCut : Writes (.requestCut radio input creds written) radio input creds

theorem LifeStep.submitted (h : LifeStep fw d event d') (hw : event.Writes radio input creds) :
    Submitted radio input creds := by
  cases hw with
  | request hmem =>
    cases h with
    | request h =>
      cases portalSteps_outcome h with
      | kept _ hsave => exact absurd hmem (hsave creds)
      | saved hsub _ _ hsteps => exact hsteps creds hmem ▸ hsub
      | failed hsub _ _ hsteps => exact hsteps creds hmem ▸ hsub
  | requestCut =>
    cases h with
    | eraseCut hsub => exact hsub
    | writeCut hsub => exact hsub

/-- Whatever credentials a device has written, a request has submitted them. -/
theorem run_submitted (h : Run (LifeStep fw) d₀ past d) :
    ∀ event ∈ past, ∀ radio input creds, event.Writes radio input creds →
      Submitted radio input creds := by
  induction h with
  | start =>
    intro event hmem
    cases hmem
  | next _ hs ih =>
    intro event hmem radio input creds hw
    rcases List.mem_cons.1 hmem with rfl | hmem
    · exact hs.submitted hw
    · exact ih event hmem radio input creds hw

theorem save_of_savedFate (h : savedFate steps = some (.saved creds)) : .save creds ∈ steps := by
  obtain ⟨step, hmem, hstep⟩ := List.exists_of_findSome?_eq_some h
  cases step with
  | save c =>
    replace hstep := Option.some.inj hstep
    split at hstep
    · cases hstep
      exact hmem
    · cases hstep
  | _ => cases hstep

theorem savedFate_ne_torn (h : savedFate steps = some fate) (creds : Credentials) (k : Nat) :
    fate ≠ .torn creds k := by
  rintro rfl
  obtain ⟨step, hmem, hstep⟩ := List.exists_of_findSome?_eq_some h
  cases step with
  | save c =>
    replace hstep := Option.some.inj hstep
    split at hstep <;> cases hstep
  | _ => cases hstep

/-- An event that leaves credentials in the flash has written them. -/
theorem writes_of_leaves {event : Event} (he : event.fate = some fate)
    (h : fate.leaves = some (some creds)) : ∃ radio input given,
      event.Writes radio input given ∧
        (fate = .saved given ∨ ∃ k, fate = .torn given k) := by
  cases event with
  | powerOff => cases he
  | started how =>
    cases how with
    | reset erased => cases erased <;> cases he <;> cases h
    | _ => cases he
  | startCut =>
    cases he
    cases h
  | request radio input steps =>
    cases fate with
    | saved given => exact ⟨radio, input, given, .request (save_of_savedFate he), .inl rfl⟩
    | torn given k => exact absurd rfl (savedFate_ne_torn he given k)
    | wiped => cases h
    | lost => cases h
  | requestPanicked => cases he
  | requestCut radio input given written =>
    cases written with
    | none =>
      cases he
      cases h
    | some k =>
      cases he
      exact ⟨radio, input, given, .requestCut, .inr ⟨k, rfl⟩⟩

/-- The port that is left of a port whose record is cut. -/
theorem tornPort_cases (k : Nat) (port : UInt16) : tornPort k port = port ∨
    tornPort k port = 0xFFFF ∨ (tornPort k port).toNat = 0xFF00 + port.toNat % 256 := by
  rcases Nat.lt_or_ge k 168 with h | h
  · right; left
    have hzero : k - 167 = 0 := by omega
    rw [tornPort, hzero]
    rfl
  · rcases Nat.eq_or_lt_of_le h with rfl | h
    · right; right
      have htorn : tornPort 168 port =
          UInt16.ofNat ((UInt8.ofNat port.toNat).toNat + 256 * 255) := rfl
      rw [htorn, UInt16.toNat_ofNat', UInt8.toNat_ofNat']
      omega
    · left
      exact (tornPort_iff k port).2 (.inl h)

/-- Credentials as they were given, or with a port of which the power has left less. -/
structure Credentials.LeftOf (creds given : Credentials) : Prop where
  ssid : creds.ssid = given.ssid
  password : creds.password = given.password
  mqttHost : creds.mqttHost = given.mqttHost
  mqttPort : creds.mqttPort = given.mqttPort ∨ creds.mqttPort = 0xFFFF ∨
    creds.mqttPort.toNat = 0xFF00 + given.mqttPort.toNat % 256

theorem Fate.leftOf (hf : fate = .saved given ∨ ∃ k, fate = Fate.torn given k)
    (h : fate.leaves = some (some creds)) : creds.LeftOf given := by
  rcases hf with rfl | ⟨k, rfl⟩
  · cases h
    exact ⟨rfl, rfl, rfl, .inl rfl⟩
  · simp only [Fate.leaves, Option.some.injEq] at h
    split at h
    · cases h
    · cases h
      exact ⟨rfl, rfl, rfl, tornPort_cases k given.mqttPort⟩

/-- A device uses no credentials but those that it was delivered with and those that a request to
its portal has submitted and its radio has joined a network with, up to a port that a power failure
has cut. -/
theorem station_submitted (fw : Firmware φ) (hb : fw.flash.ReadsBack)
    (hblank : fw.flash.ErasesBlank) (hfw : fw.compileSsid = none ∨ fw.compilePass = none) (f₀ : φ)
    (later earlier : List Event) (creds : Credentials) (d : Device φ)
    (h : Run (LifeStep fw) ⟨.off, f₀⟩ (later ++ .started (.station creds) :: earlier) d)
    (hsure : latest Event.fate earlier ≠ some .lost) :
    loadCredentialsFlash fw.flash f₀ = .ok (some creds) ∨
      ∃ event ∈ earlier, ∃ radio input given, event.Writes radio input given ∧
        Submitted radio input given ∧ creds.LeftOf given := by
  obtain ⟨f, leds, up, f', hrun, hs⟩ := run_started h
  have hload := start_uses hs rfl
  rw [fw.credentials_of_none hfw] at hload
  have hused : ∀ o, fw.stored f₀ earlier = some o → o = some creds := by
    intro o ho
    have hheld := run_holds hb hblank hrun o ho
    rw [hload] at hheld
    cases hheld
    rfl
  cases hfate : latest Event.fate earlier with
  | none =>
    left
    obtain ⟨o, hfirst⟩ := loadCredentialsFlash_returns fw.flash f₀
    have ho := hused o (by rw [Firmware.stored, hfate, hfirst]; rfl)
    rw [hfirst, ho]
  | some fate =>
    right
    obtain ⟨event, hmem, he⟩ := mem_of_latest hfate
    have hleaves : fate.leaves = some (some creds) := by
      cases hl : fate.leaves with
      | none =>
        cases fate with
        | lost => exact absurd hfate hsure
        | _ => cases hl
      | some o =>
        have hstored : fw.stored f₀ earlier = some o := by rw [Firmware.stored, hfate]; exact hl
        rw [hused o hstored]
    obtain ⟨radio, input, given, hw, hgiven⟩ := writes_of_leaves he hleaves
    exact ⟨event, hmem, radio, input, given, hw, run_submitted hrun event hmem radio input given hw,
      Fate.leftOf hgiven hleaves⟩

theorem home_submitted : ∃ event ∈ homeSetup, ∃ radio input given,
    event.Writes radio input given ∧ Submitted radio input given ∧
      homeCredentials.LeftOf given := by
  obtain ⟨d, hrun⟩ := home_started
  rcases station_submitted homeFirmware (norFlash_readsBack _) (norFlash_erasesBlank _) (.inl rfl)
    freshFlash [] homeSetup homeCredentials d hrun (by decide) with h | h
  · rw [freshFlash_blank] at h
    cases h
  · exact h

theorem reply_injective (h : Credentials.reply a = Credentials.reply b) : a = b := by
  obtain ⟨_, _, _, _⟩ := a
  obtain ⟨_, _, _, _⟩ := b
  cases h
  rfl

/-- Once a form that gets through has been submitted and its credentials have been saved, every
start uses the values of the form, until other credentials are saved or the flash is erased. -/
theorem onboarded (fw : Firmware φ) (hb : fw.flash.ReadsBack) (hblank : fw.flash.ErasesBlank)
    (hfw : fw.compileSsid = none ∨ fw.compilePass = none) (f₀ : φ) (s : Submission)
    (creds : Credentials) (headers : Bytes) (radio : Radio) (steps : List ProvisionStep)
    (hs : Credentials.withMqtt s.effectiveSsid s.password s.mqttHost s.mqttPort = some creds)
    (hreq : ConnectRequest headers s.body) (hfit : headers.length ≤ 512)
    (hhost : ¬ TurnedDown headers) (hthrough : s.GetsThrough) (hsaved : .reset ∈ steps)
    (later since earlier : List Event) (how : Started) (d : Device φ)
    (h : Run (LifeStep fw) ⟨.off, f₀⟩
      (later ++ .started how :: (since ++ .request radio (headers ++ s.body) steps :: earlier)) d)
    (hsince : ∀ event ∈ since, event.fate = none) :
    ∀ used, how.uses = some used → used = some creds ∧ s.Stores creds := by
  intro used hu
  have hst : s.Stores creds := s.stores hs
  obtain ⟨f, leds, up, f', hrun, hstart⟩ := run_started h
  obtain ⟨_, hrequest, -⟩ := run_append.1 hrun
  obtain ⟨_, -, hstep⟩ := run_cons.1 hrequest
  have hfate : savedFate steps = some (.saved creds) := by
    cases hstep with
    | request hsteps =>
      cases portalSteps_outcome hsteps with
      | kept _ _ hstays => exact absurd hsaved hstays
      | failed _ _ _ _ hstays => exact absurd hsaved hstays
      | saved hsub _ hfate =>
        have hasked := hsub.asked
        rw [hthrough.handled hst hreq hfit hhost, Except.ok.injEq, Option.some.injEq] at hasked
        rw [reply_injective hasked]
        exact hfate
  have hstored : fw.stored f₀ (since ++ .request radio (headers ++ s.body) steps :: earlier) =
      some (some creds) := by
    have hevent : (Event.request radio (headers ++ s.body) steps).fate = some (.saved creds) :=
      hfate
    rw [fw.stored_append f₀ hsince, fw.stored_cons_some f₀ hevent]
    rfl
  have hload := start_uses hstart hu
  rw [fw.credentials_of_none hfw, run_holds hb hblank hrun _ hstored] at hload
  cases hload
  exact ⟨rfl, hst⟩

theorem home_onboarded : (Started.station homeCredentials).uses = some (some homeCredentials) ∧
    selectedHome.Stores homeCredentials := by
  obtain ⟨d, hrun⟩ := home_started
  have hstored := onboarded homeFirmware (norFlash_readsBack _) (norFlash_erasesBlank _) (.inl rfl)
    freshFlash selectedHome homeCredentials pageHeaders openRadio homeSteps (by decide +kernel)
    (pageHeaders_request (by decide)) (by decide +kernel) pageHeaders_not_turnedDown
    selectedHome_getsThrough (by decide) [] [] [.started .accessPoint] _ d hrun
    (fun event hmem => absurd hmem List.not_mem_nil) (some homeCredentials) rfl
  exact ⟨rfl, hstored.2⟩

end PicoConduit
