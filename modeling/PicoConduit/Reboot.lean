import PicoConduit.Server

namespace PicoConduit
open Checked Heapless Utf8 Transducer
set_option autoImplicit true

/-- What the device does with a message, and whether its response has been sent; or the reset into
the USB bootloader. -/
inductive Action
  | answered (cmd : Command) (r : Response) (sent : Bool)
  | refused (code : ErrorCode) (sent : Bool)
  | reset
  deriving DecidableEq

/-- `answerFrame`, with the action that it amounts to. -/
def actFrame (lib : JsonLibrary) (s : DeviceState) (frame : Bytes) :
    Exec ((Bool → Action) × Response × DeviceState) :=
  match parseCommand lib.fromSlice frame with
  | .error e => pure (.refused e, .failure "" e, s)
  | .ok cmd => do
    let (r, s) ← execute s cmd
    pure (.answered cmd r, r, s)

/-- `clientTurn`, with the actions of the turn. -/
def clientActs (lib : JsonLibrary) (T : Transport τ) (s : DeviceState) (t : τ) :
    Exec (List Action × Control × DeviceState × τ) :=
  match T.readFrame t with
  | (.error (.protocol code), t) =>
    match serializeResponse lib.toSlice (.failure "" code) maxMsgLen with
    | .ok bytes =>
      match T.writeFrame bytes t with
      | (.error _, t) => pure ([.refused code false], .loop, s, t)
      | (.ok (), t) => pure ([.refused code true], .loop, s, t)
    | .error _ => pure ([.refused code false], .loop, s, t)
  | (.error .disconnected, t) => pure ([], .closed, s, t)
  | (.error .timeout, t) => pure ([], .closed, s, t)
  | (.ok frame, t) => do
    let (action, response, s) ← actFrame lib s frame
    match serializeResponse lib.toSlice response maxMsgLen with
    | .ok bytes =>
      match T.writeFrame bytes t with
      | (.error _, t) => pure ([action false], .closed, s, t)
      | (.ok (), t) =>
        if s.pendingReboot then pure ([action true, .reset], .rebooting, s, t)
        else pure ([action true], .loop, s, t)
    | .error _ =>
      if s.pendingReboot then pure ([action false, .reset], .rebooting, s, t)
      else pure ([action false], .loop, s, t)

theorem actFrame_forget (lib : JsonLibrary) (s : DeviceState) (frame : Bytes) :
    (actFrame lib s frame).map Prod.snd = answerFrame lib s frame := by
  simp only [actFrame, answerFrame]
  cases parseCommand lib.fromSlice frame with
  | error e => rfl
  | ok cmd =>
    simp only
    cases execute s cmd <;> rfl

/-- Without its actions, a turn is the turn of the loop. -/
theorem clientActs_forget (lib : JsonLibrary) (T : Transport τ) (s : DeviceState) (t : τ) :
    (clientActs lib T s t).map Prod.snd = clientTurn lib T s t := by
  simp only [clientActs, clientTurn, ← actFrame_forget]
  rcases T.readFrame t with ⟨(_ | code | _) | frame, t₁⟩
  · rfl
  · simp only
    cases serializeResponse lib.toSlice (.failure "" code) maxMsgLen with
    | error e => rfl
    | ok bytes =>
      simp only
      rcases T.writeFrame bytes t₁ with ⟨_ | _, t₂⟩ <;> rfl
  · rfl
  · simp only
    rcases actFrame lib s frame with q | ⟨action, r, s'⟩
    · rfl
    · simp only [Except.map, ok_bind]
      cases serializeResponse lib.toSlice r maxMsgLen with
      | error e => cases s'.pendingReboot <;> rfl
      | ok bytes =>
        simp only
        rcases T.writeFrame bytes t₁ with ⟨_ | _, t₂⟩
        · rfl
        · cases s'.pendingReboot <;> rfl

/-- A transport with the accepting of connections, for WebSockets up to the end of the
handshake. -/
structure Listener (τ : Type) extends Transport τ where
  accept : τ → Bool × τ

/-- Where `tcp_server` or `ws_server` is. -/
inductive Mode
  | listening
  | serving (s : DeviceState)
  | rebooted
  deriving DecidableEq

def Control.mode (s : DeviceState) : Control → Mode
  | .loop => .serving s
  | .closed => .listening
  | .rebooting => .rebooted

/-- One step of `tcp_server` or `ws_server`, with `handle_client` for each connection. -/
def serverStep (lib : JsonLibrary) (L : Listener τ) (ssid : HString 32) (ip : HString 16)
    (x : Mode × τ) : Exec (List Action × Mode × τ) :=
  match x with
  | (.listening, t) =>
    match L.accept t with
    | (true, t) => pure ([], .serving (clientState ssid ip), t)
    | (false, t) => pure ([], .listening, t)
  | (.serving s, t) => do
    let (acts, control, s, t) ← clientActs lib L.toTransport s t
    pure (acts, control.mode s, t)
  | (.rebooted, t) => pure ([], .rebooted, t)

/-- What the MQTT client library reports of a connection. -/
inductive MqttEvent
  | publish (payload : Bytes)
  | suback
  | pingresp
  | other
  deriving DecidableEq

/-- The connection of the MQTT client to its broker, as far as the library shows it. -/
structure Broker (β : Type) where
  connectTcp : β → Bool × β
  connect : β → Bool × β
  subscribe : β → Bool × β
  poll : β → Option MqttEvent × β
  publish : Bytes → β → Bool × β

/-- `mqtt_client` up to its message loop: whether the connection has been made. -/
def mqttConnect (B : Broker β) (b : β) : Bool × β :=
  match B.connectTcp b with
  | (false, b) => (false, b)
  | (true, b) =>
    match B.connect b with
    | (false, b) => (false, b)
    | (true, b) =>
      match B.subscribe b with
      | (false, b) => (false, b)
      | (true, b) =>
        match B.poll b with
        | (some .suback, b) => (true, b)
        | (_, b) => (false, b)

/-- One turn of the message loop of `mqtt_client`, which is left where there is no state. -/
def mqttTurn (lib : JsonLibrary) (B : Broker β) (s : DeviceState) (b : β) :
    Exec (List Action × Option DeviceState × β) :=
  match B.poll b with
  | (some (.publish payload), b) => do
    let (action, response, s) ← actFrame lib s payload
    match serializeResponse lib.toSlice response maxMsgLen with
    | .ok bytes =>
      match B.publish bytes b with
      | (false, b) => pure ([action false], none, b)
      | (true, b) => pure ([action true], if s.pendingReboot then none else some s, b)
    | .error _ => pure ([action false], if s.pendingReboot then none else some s, b)
  | (some _, b) => pure ([], some s, b)
  | (none, b) => pure ([], none, b)

/-- The state with which the message loop of `mqtt_client` starts. -/
def mqttState (ssid : HString 32) (ip : HString 16) (mqtt : MqttConfig) : DeviceState :=
  { DeviceState.default true with
    configSsid := ssid, configIp := ip, configConnected := true, configMqtt := some mqtt }

/-- One step of `mqtt_client`: it connects to its broker, or takes a turn of the message loop. -/
def mqttStep (lib : JsonLibrary) (B : Broker β) (ssid : HString 32) (ip : HString 16)
    (mqtt : MqttConfig) (x : Option DeviceState × β) :
    Exec (List Action × Option DeviceState × β) :=
  match x with
  | (some s, b) => mqttTurn lib B s b
  | (none, b) =>
    match mqttConnect B b with
    | (true, b) => pure ([], some (mqttState ssid ip mqtt), b)
    | (false, b) => pure ([], none, b)

/-- After a reboot command has been answered with success and the response has been sent, the
reset is the next thing that happens, and the last. -/
def RebootFinal (trace : List Action) : Prop :=
  ∀ pre cmd r post, trace = pre ++ .answered cmd r true :: post → cmd.isReboot = true →
    r.ok = true → post = [.reset]

/-- No reboot command has been answered with success and a response that has been sent. -/
def Quiet (trace : List Action) : Prop :=
  ∀ cmd r, .answered cmd r true ∈ trace → cmd.isReboot = true → r.ok = true → False

theorem quiet_nil : Quiet [] := fun _ _ hmem => by cases hmem

theorem quiet_append : Quiet (xs ++ ys) ↔ Quiet xs ∧ Quiet ys := by
  constructor
  · intro h
    exact ⟨fun cmd r hm => h cmd r (List.mem_append_left ys hm),
      fun cmd r hm => h cmd r (List.mem_append_right xs hm)⟩
  · intro h cmd r hm
    rcases List.mem_append.1 hm with hm | hm
    · exact h.1 cmd r hm
    · exact h.2 cmd r hm

theorem Quiet.final (h : Quiet trace) : RebootFinal trace := by
  rintro pre cmd r post rfl hc hr
  exact absurd hr fun hr => h cmd r (by simp) hc hr

/-- How a frame is acted on. -/
inductive ActsOn (lib : JsonLibrary) (s : DeviceState) (frame : Bytes) :
    (Bool → Action) → Response → DeviceState → Prop
  | refused (hp : parseCommand lib.fromSlice frame = .error e) :
      ActsOn lib s frame (.refused e) (.failure "" e) s
  | answered (hp : parseCommand lib.fromSlice frame = .ok cmd)
      (he : execute s cmd = .ok (r, s')) : ActsOn lib s frame (.answered cmd r) r s'

theorem actFrame_eq_ok (h : actFrame lib s frame = .ok (action, r, s')) :
    ActsOn lib s frame action r s' := by
  simp only [actFrame] at h
  split at h
  · cases h
    exact .refused ‹_›
  · obtain ⟨x, hx, he⟩ := bind_eq_ok.1 h
    cases he
    exact .answered ‹_› hx

/-- Only a reboot command sets the mark for the reboot. -/
theorem ActsOn.quiet (h : ActsOn lib s frame action r s') (hp : s'.pendingReboot = false) :
    Quiet [action true] := by
  intro cmd r' hm hc
  rw [List.mem_singleton] at hm
  cases h with
  | refused => cases hm
  | answered _ he =>
    cases hm
    rw [execute_pendingReboot he, hc, Bool.or_true] at hp
    cases hp

theorem ActsOn.quiet_unsent (h : ActsOn lib s frame action r s') : Quiet [action false] := by
  intro cmd r' hm
  rw [List.mem_singleton] at hm
  cases h <;> cases hm

theorem quiet_refused (code : ErrorCode) (sent : Bool) : Quiet [.refused code sent] := by
  intro cmd r hm
  rw [List.mem_singleton] at hm
  cases hm

/-- The actions of a turn of `handle_client`: no delivered answer to a reboot command, or the reset
right after the answer. -/
def Turned (acts : List Action) (s : DeviceState) : Control → Prop
  | .loop => Quiet acts ∧ s.pendingReboot = false
  | .closed => Quiet acts
  | .rebooting => ∃ a, acts = [a, .reset]

theorem clientActs_turned (hs : s.pendingReboot = false)
    (h : clientActs lib T s t = .ok (acts, c, s', t')) : Turned acts s' c := by
  simp only [clientActs] at h
  split at h
  · split at h
    · split at h
      · cases h
        exact ⟨quiet_refused _ _, hs⟩
      · cases h
        exact ⟨quiet_refused _ _, hs⟩
    · cases h
      exact ⟨quiet_refused _ _, hs⟩
  · cases h
    exact quiet_nil
  · cases h
    exact quiet_nil
  · obtain ⟨⟨action, r, s₁⟩, ha, h⟩ := bind_eq_ok.1 h
    have hact := actFrame_eq_ok ha
    simp only at h
    split at h
    · split at h
      · cases h
        exact hact.quiet_unsent
      · split at h
        · cases h
          exact ⟨_, rfl⟩
        · rename_i hp
          cases h
          rw [Bool.not_eq_true] at hp
          exact ⟨hact.quiet hp, hp⟩
    · split at h
      · cases h
        exact ⟨_, rfl⟩
      · rename_i hp
        cases h
        rw [Bool.not_eq_true] at hp
        exact ⟨hact.quiet_unsent, hp⟩

/-- What the server has done so far, in each of its modes. -/
def ServerTrace (trace : List Action) : Mode → Prop
  | .listening => Quiet trace
  | .serving s => Quiet trace ∧ s.pendingReboot = false
  | .rebooted => ∃ pre a, trace = pre ++ [a, .reset] ∧ Quiet pre

theorem serverStep_trace {x x' : Mode × τ} (hx : ServerTrace trace x.1)
    (h : serverStep lib L ssid ip x = .ok (acts, x')) : ServerTrace (trace ++ acts) x'.1 := by
  obtain ⟨mode, t⟩ := x
  cases mode with
  | listening =>
    simp only [serverStep] at h
    split at h
    · cases h
      rw [List.append_nil]
      exact ⟨hx, rfl⟩
    · cases h
      rwa [List.append_nil]
  | serving s =>
    obtain ⟨⟨acts, c, s', t'⟩, ha, h⟩ := bind_eq_ok.1 h
    cases h
    have hturn := clientActs_turned hx.2 ha
    cases c with
    | loop => exact ⟨quiet_append.2 ⟨hx.1, hturn.1⟩, hturn.2⟩
    | closed => exact quiet_append.2 ⟨hx.1, hturn⟩
    | rebooting =>
      obtain ⟨a, rfl⟩ := hturn
      exact ⟨trace, a, rfl, hx.1⟩
  | rebooted =>
    cases h
    rwa [List.append_nil]

theorem ServerTrace.final (h : ServerTrace trace mode) : RebootFinal trace := by
  cases mode with
  | listening => exact Quiet.final h
  | serving s => exact h.1.final
  | rebooted =>
    obtain ⟨pre, a, rfl, hq⟩ := h
    intro pre' cmd r post he hc hr
    rw [List.append_eq_append_iff] at he
    rcases he with ⟨ys, rfl, hys⟩ | ⟨ys, rfl, hys⟩
    · cases ys with
      | nil => exact (List.cons.inj hys).2.symm
      | cons y ys =>
        obtain ⟨rfl, hrest⟩ := List.cons.inj hys
        cases ys with
        | nil => cases hrest
        | cons z zs =>
          obtain ⟨-, hrest⟩ := List.cons.inj hrest
          cases zs <;> cases hrest
    · cases ys with
      | nil => exact (List.cons.inj hys).2
      | cons y ys =>
        obtain ⟨rfl, -⟩ := List.cons.inj hys
        exact absurd hr fun hr => hq cmd r (by simp) hc hr

/-- What the server has done in the exchanges of a run. -/
def ServerPast (past : List (Unit × List Action)) (x : Mode × τ) : Prop :=
  ServerTrace (past.map Prod.snd).flatten x.1

theorem server_final (h : Steps (fun x (_ : Unit) => serverStep lib L ssid ip x) (.listening, t)
    ticks acts x) : RebootFinal acts.flatten := by
  have hnil : ServerPast [] (Mode.listening, t) := quiet_nil
  have hpast := h.history ServerPast (fun past x i os x' hx hstep => ?_) hnil
  · rw [ServerPast, List.nil_append, List.map_snd_zip (Nat.le_of_eq h.length_eq)] at hpast
    exact hpast.final
  · rw [ServerPast, List.map_append, List.flatten_append]
    simpa using serverStep_trace hx hstep

/-- A step of the MQTT loop handles a reboot command and publishes the response. -/
def RebootPublished (lib : JsonLibrary) (B : Broker β) (x : Option DeviceState × β) : Prop :=
  ∃ s payload b cmd bytes, x.1 = some s ∧ B.poll x.2 = (some (.publish payload), b) ∧
    parseCommand lib.fromSlice payload = .ok cmd ∧ cmd.isReboot = true ∧
    serializeResponse lib.toSlice (.success cmd.id none) maxMsgLen = .ok bytes ∧
    (B.publish bytes b).1 = true

theorem execute_reboot (hc : cmd.isReboot = true) (h : execute s cmd = .ok (r, s')) :
    r = .success cmd.id none := by
  rw [execute_due h, (operation_reboot cmd).2 hc]
  rfl

/-- What has to happen to a message for the step to be such a step. -/
theorem rebootPublished_iff (hpoll : B.poll b = (some (.publish payload), b'))
    (hact : ActsOn lib s payload action r s') :
    RebootPublished lib B (some s, b) ↔ ¬ Quiet [action true] ∧
      ∃ bytes, serializeResponse lib.toSlice r maxMsgLen = .ok bytes ∧
        (B.publish bytes b').1 = true := by
  constructor
  · intro h
    obtain ⟨s₁, payload₁, b₁, cmd, bytes, hs, hpoll', hp, hc, hser, hpub⟩ := h
    cases hs
    rw [hpoll] at hpoll'
    cases hpoll'
    cases hact with
    | refused hp' =>
      rw [hp] at hp'
      cases hp'
    | answered hp' he =>
      rw [hp] at hp'
      cases hp'
      obtain rfl := execute_reboot hc he
      exact ⟨fun hq => hq cmd _ List.mem_cons_self hc rfl, bytes, hser, hpub⟩
  · intro h
    obtain ⟨hq, bytes, hser, hpub⟩ := h
    cases hact with
    | refused hp => exact absurd (quiet_refused _ _) hq
    | answered hp he =>
      rename_i cmd
      cases hc : cmd.isReboot with
      | false =>
        refine absurd (fun cmd' r' hm hc' => ?_) hq
        cases List.mem_singleton.1 hm
        rw [hc] at hc'
        cases hc'
      | true =>
        obtain rfl := execute_reboot hc he
        exact ⟨s, payload, b', cmd, bytes, rfl, hpoll, hp, hc, hser, hpub⟩

theorem ActsOn.ne_reset (h : ActsOn lib s frame action r s') (sent : Bool) :
    .reset ∉ [action sent] := by
  intro hm
  rw [List.mem_singleton] at hm
  cases h <;> cases hm

theorem not_published_of_poll (hpoll : B.poll b = (event, b'))
    (hne : ∀ payload, event ≠ some (.publish payload)) :
    ¬ RebootPublished lib B (some s, b) := by
  intro hx
  obtain ⟨s₁, payload, b₂, cmd, bytes, hs, hpoll', -⟩ := hx
  rw [hpoll] at hpoll'
  cases hpoll'
  exact hne payload rfl

theorem mqttTurn_quiet_iff (h : mqttTurn lib B s b = .ok (acts, x')) :
    (Quiet acts ↔ ¬ RebootPublished lib B (some s, b)) ∧ .reset ∉ acts := by
  simp only [mqttTurn] at h
  split at h
  · rename_i payload b₁ hpoll
    obtain ⟨⟨action, r, s₁⟩, ha, h⟩ := bind_eq_ok.1 h
    have hact := actFrame_eq_ok ha
    rw [rebootPublished_iff hpoll hact]
    simp only at h
    split at h
    · rename_i bytes hser
      split at h
      · rename_i b₂ hpub
        cases h
        refine ⟨iff_of_true hact.quiet_unsent fun hx => ?_, hact.ne_reset false⟩
        obtain ⟨-, bytes', hser', hpub'⟩ := hx
        rw [hser] at hser'
        cases hser'
        rw [hpub] at hpub'
        cases hpub'
      · rename_i b₂ hpub
        cases h
        refine ⟨⟨fun hq hx => hx.1 hq, fun hx => ?_⟩, hact.ne_reset true⟩
        by_contra hq
        exact hx ⟨hq, bytes, hser, by rw [hpub]⟩
    · rename_i hser
      cases h
      refine ⟨iff_of_true hact.quiet_unsent fun hx => ?_, hact.ne_reset false⟩
      obtain ⟨-, bytes, hser', -⟩ := hx
      rw [hser] at hser'
      cases hser'
  · rename_i event b₁ hne hpoll
    cases h
    refine ⟨iff_of_true quiet_nil (not_published_of_poll hpoll ?_), List.not_mem_nil⟩
    intro payload he
    exact hne payload (Option.some.inj he)
  · rename_i b₁ hpoll
    cases h
    refine ⟨iff_of_true quiet_nil (not_published_of_poll hpoll ?_), List.not_mem_nil⟩
    intro payload he
    cases he

/-- A step delivers the answer to a reboot command only if it is such a step, and never resets. -/
theorem mqttStep_quiet_iff {x x' : Option DeviceState × β}
    (h : mqttStep lib B ssid ip mqtt x = .ok (acts, x')) :
    (Quiet acts ↔ ¬ RebootPublished lib B x) ∧ .reset ∉ acts := by
  obtain ⟨_ | s, b⟩ := x
  · have hnot : ¬ RebootPublished lib B (none, b) := by
      intro hx
      obtain ⟨s, payload, b₁, cmd, bytes, hs, -⟩ := hx
      cases hs
    simp only [mqttStep] at h
    split at h <;> cases h <;> exact ⟨iff_of_true quiet_nil hnot, List.not_mem_nil⟩
  · exact mqttTurn_quiet_iff h

theorem quiet_flatten : Quiet (List.flatten acts) ↔ ∀ xs ∈ acts, Quiet xs := by
  induction acts with
  | nil => exact iff_of_true quiet_nil fun xs hm => by cases hm
  | cons xs acts ih => rw [List.flatten_cons, quiet_append, ih, List.forall_mem_cons]

theorem mqtt_final_iff
    (h : Steps (fun x (_ : Unit) => mqttStep lib B ssid ip mqtt x) (none, b) ticks acts x) :
    RebootFinal acts.flatten ↔
      Along (fun x (_ : Unit) => mqttStep lib B ssid ip mqtt x)
        (fun x _ => ¬ RebootPublished lib B x) (none, b) ticks := by
  rw [h.along_iff fun x i os x' hstep => (mqttStep_quiet_iff hstep).1.symm, ← quiet_flatten]
  refine ⟨fun hf cmd r hm hc hr => ?_, Quiet.final⟩
  obtain ⟨pre, post, he⟩ := List.append_of_mem hm
  have hpost := hf pre cmd r post he hc hr
  have hreset : ∀ xs ∈ acts, .reset ∉ xs :=
    (h.along_iff fun x i os x' hstep => iff_of_true trivial (mqttStep_quiet_iff hstep).2).1
      along_true
  have hmem : Action.reset ∈ acts.flatten := by
    rw [he, hpost]
    simp
  obtain ⟨xs, hxs, hm'⟩ := List.mem_flatten.1 hmem
  exact hreset xs hxs hm'

/-- A reboot command is final on the servers, and on MQTT only as long as none is answered. -/
theorem reboot_final_iff (lib : JsonLibrary) (ssid : HString 32) (ip : HString 16)
    (mqtt : MqttConfig) :
    (∀ {τ : Type} (L : Listener τ) t ticks acts x,
      Steps (fun x (_ : Unit) => serverStep lib L ssid ip x) (.listening, t) ticks acts x →
        RebootFinal acts.flatten) ∧
    ∀ {β : Type} (B : Broker β) b ticks acts x,
      Steps (fun x (_ : Unit) => mqttStep lib B ssid ip mqtt x) (none, b) ticks acts x →
        (RebootFinal acts.flatten ↔
          Along (fun x (_ : Unit) => mqttStep lib B ssid ip mqtt x)
            (fun x _ => ¬ RebootPublished lib B x) (none, b) ticks) :=
  ⟨fun _ _ _ _ _ h => server_final h, fun _ _ _ _ _ h => mqtt_final_iff h⟩

/-- A client that connects and sends what is left of a script. -/
def scriptListener : Listener Script where
  toTransport := scripted
  accept t := (true, t)

def rebootAnswer : Action := .answered rebootCommand (.success "r" none) true

theorem actFrame_reboot (s : DeviceState) :
    actFrame (replyLibrary rebootFrame rebootCommand) s rebootFrame =
      .ok (.answered rebootCommand (.success "r" none), .success "r" none,
        { s with pendingReboot := true }) := by
  have hlen : rebootFrame.length ≤ maxMsgLen := by decide
  have hversion : rebootCommand.version = some 1 := rfl
  simp only [actFrame, parseCommand_reply hlen hversion]
  rfl

def rebootReply : Bytes := replyText (.success "r" none) ++ [newline]

theorem serializeResponse_reboot :
    serializeResponse (replyLibrary rebootFrame rebootCommand).toSlice (.success "r" none)
      maxMsgLen = .ok rebootReply := rfl

theorem script_reboot_final : RebootFinal [rebootAnswer, .reset] := by
  have hturn : serverStep (replyLibrary rebootFrame rebootCommand) scriptListener .empty .empty
      (.serving (clientState .empty .empty), ⟨[.frame rebootFrame], []⟩) =
      .ok ([rebootAnswer, .reset], .rebooted, ⟨[], [rebootReply]⟩) := by
    simp only [serverStep, clientActs, scriptListener, scripted, actFrame_reboot, ok_bind,
      serializeResponse_reboot]
    rfl
  exact (reboot_final_iff (replyLibrary rebootFrame rebootCommand) .empty .empty
    ⟨.empty, 1883⟩).1
    scriptListener ⟨[.frame rebootFrame], []⟩ [(), ()] [[], [rebootAnswer, .reset]] _
    (.cons rfl (.cons hturn .nil))

/-- A broker that is always there, and delivers what is left of a script. -/
def scriptBroker : Broker (List MqttEvent) where
  connectTcp b := (true, b)
  connect b := (true, b)
  subscribe b := (true, b)
  poll b := (b.head?, b.tail)
  publish _ b := (true, b)

theorem mqttStep_reboot (s : DeviceState) (rest : List MqttEvent) :
    mqttStep (replyLibrary rebootFrame rebootCommand) scriptBroker .empty .empty ⟨.empty, 1883⟩
      (some s, .publish rebootFrame :: rest) = .ok ([rebootAnswer], none, rest) := by
  simp only [mqttStep, mqttTurn, scriptBroker, List.head?_cons, List.tail_cons, actFrame_reboot,
    ok_bind, serializeResponse_reboot]
  rfl

/-- The MQTT loop answers a reboot command, connects again and answers the next command. -/
theorem mqtt_reboot_not_final :
    ∃ x, Steps (fun x (_ : Unit) => mqttStep (replyLibrary rebootFrame rebootCommand) scriptBroker
        .empty .empty ⟨.empty, 1883⟩ x)
        (none, [.suback, .publish rebootFrame, .suback, .publish rebootFrame])
        [(), (), (), ()] [[], [rebootAnswer], [], [rebootAnswer]] x ∧
      ¬ RebootFinal [rebootAnswer, rebootAnswer] := by
  refine ⟨_, .cons rfl (.cons (mqttStep_reboot _ _) (.cons rfl (.cons (mqttStep_reboot _ _)
    .nil))), ?_⟩
  intro h
  cases h [] rebootCommand (.success "r" none) [rebootAnswer] rfl rfl rfl

end PicoConduit
