import PicoConduit.Router

namespace PicoConduit
open Checked Heapless Utf8
set_option autoImplicit true

/-- What a command is answered, apart from the id it is answered under. -/
abbrev Answer := Except ErrorCode (Option ResponseData)

def Answer.respond (id : String) : Answer → Response
  | .ok data => .success id data
  | .error e => .failure id e

def Response.answer (r : Response) : Answer :=
  match r.error with
  | some e => .error e
  | none => .ok r.data

/-- A peripheral that must be configured before bytes are written to it. -/
inductive Port
  | uart (i : Fin 2)
  | spi (i : Fin 2)
  | i2c (i : Fin 2)
  | usb
  deriving DecidableEq, Repr

def DeviceState.configured (s : DeviceState) : Port → Bool
  | .uart i => s.uart[i].configured
  | .spi i => s.spi[i].configured
  | .i2c i => s.i2c[i].configured
  | .usb => s.usbConfigured

/-- The parameters that a configure command stores. -/
inductive Setting
  | uart (cfg : UartConfig)
  | spi (cfg : SpiConfig)
  | i2c (cfg : I2cConfig)
  deriving DecidableEq

def Setting.port (i : Fin 2) : Setting → Port
  | .uart _ => .uart i
  | .spi _ => .spi i
  | .i2c _ => .i2c i

/-- Store the parameters of a port, which is configured from then on. -/
def DeviceState.store (s : DeviceState) (i : Fin 2) : Setting → DeviceState
  | .uart cfg => { s with uart := s.uart.set i { cfg with configured := true } }
  | .spi cfg => { s with spi := s.spi.set i { cfg with configured := true } }
  | .i2c cfg => { s with i2c := s.i2c.set i { cfg with configured := true } }

/-- A pin or a channel that can be watched. -/
inductive Watched
  | pin (p : UInt8)
  | channel (c : AdcChannel)
  deriving DecidableEq, Repr

def SubscriptionTarget.watched : SubscriptionTarget → Watched
  | .adc c _ => .channel c
  | .gpioLevel p _ => .pin p
  | .gpioEdge p _ => .pin p

/-- What a command asks of the device once its own fields have been checked. -/
inductive Operation
  | answer (a : Answer)
  | reportConfig
  | configure (i : Fin 2) (setting : Setting)
  | write (p : Port) (checks : Except ErrorCode Unit) (payload : Option String)
  | subscribe (target : SubscriptionTarget)
  | unsubscribe (w : Watched)
  | reboot

/-- The payload has enough valid characters to overrun the decoding buffer. -/
def Overlong (payload : Option String) : Prop :=
  ∃ encoded ∈ payload, 684 ≤ (unpadded (asBytes encoded)).length ∧
    ∀ c ∈ (unpadded (asBytes encoded)).take 684, IsAlphabet c

instance : DecidablePred Overlong := fun payload =>
  match payload with
  | none => isFalse (by simp [Overlong])
  | some encoded =>
    have := List.decidableBAll IsAlphabet ((unpadded (asBytes encoded)).take 684)
    decidable_of_iff (684 ≤ (unpadded (asBytes encoded)).length ∧
      ∀ c ∈ (unpadded (asBytes encoded)).take 684, IsAlphabet c) (by simp [Overlong])

/-- A run of one valid character overruns the buffer from 684 characters on. -/
theorem overlong_replicate (h : 684 ≤ n) :
    Overlong (some (String.ofList (List.replicate n 'A'))) := by
  refine ⟨_, rfl, ?_⟩
  have hc : String.utf8EncodeChar 'A' = ['A'.toUInt8] := rfl
  rw [asBytes_replicate n hc, unpadded_replicate n (by decide), List.length_replicate,
    List.take_replicate]
  refine ⟨h, fun c hc => ?_⟩
  obtain rfl := List.eq_of_mem_replicate hc
  decide

/-- The answer to a write whose payload fits the decoding buffer. -/
def payloadAnswer (payload : Option String) : Answer :=
  match payload with
  | none => .error .missingField
  | some encoded =>
    if encoded = "" then .error .missingField
    else
      match decode (asBytes encoded) (List.replicate maxPayloadLen 0) with
      | .ok (.ok _, _) => .ok none
      | _ => .error .invalidEncoding

def Operation.apply (id : String) (s : DeviceState) : Operation → Exec (Answer × DeviceState)
  | .answer a => .ok (a, s)
  | .reportConfig =>
    .ok (.ok (some (.config s.configSsid s.configIp s.configConnected s.configMqtt)), s)
  | .configure i setting => .ok (.ok none, s.store i setting)
  | .write p checks payload =>
    if s.configured p then
      match checks with
      | .error e => .ok (.error e, s)
      | .ok () => if Overlong payload then .error .index else .ok (payloadAnswer payload, s)
    else .ok (.error .notConfigured, s)
  | .subscribe target =>
    if s.subscriptions.toList.any (fun e => e.sameTarget target) then
      .ok (.error .alreadySubscribed, s)
    else
      match s.subscriptions.push ⟨(HString.empty.pushStr id).getD .empty, target⟩ with
      | none => .ok (.error .subscriptionLimit, s)
      | some subscriptions => .ok (.ok none, { s with subscriptions })
  | .unsubscribe w =>
    if ∃ e ∈ s.subscriptions.toList, e.target.watched = w then
      .ok (.ok none, { s with
        subscriptions := s.subscriptions.retain fun e => e.target.watched != w })
    else .ok (.error .notSubscribed, s)
  | .reboot => .ok (.ok none, { s with pendingReboot := true })

/-- The answer that an operation calls for in a state, whatever the id. -/
def Operation.due (s : DeviceState) : Operation → Answer
  | .answer a => a
  | .reportConfig => .ok (some (.config s.configSsid s.configIp s.configConnected s.configMqtt))
  | .configure _ _ => .ok none
  | .write p checks payload =>
    if s.configured p then checks.bind fun _ => payloadAnswer payload else .error .notConfigured
  | .subscribe target =>
    if s.subscriptions.toList.any (fun e => e.sameTarget target) then .error .alreadySubscribed
    else if s.subscriptions.toList.length < maxSubscriptions then .ok none
    else .error .subscriptionLimit
  | .unsubscribe w =>
    if ∃ e ∈ s.subscriptions.toList, e.target.watched = w then .ok none else .error .notSubscribed
  | .reboot => .ok none

def indexOf (idx : UInt8) : Fin 2 := Fin.ofNat 2 idx.toNat

def configureOperation (handled : Except Response κ) (field : Option UInt8)
    (setting : κ → Setting) : Operation :=
  match handled with
  | .ok cfg => .configure (indexOf (field.getD 0)) (setting cfg)
  | .error r => .answer r.answer

def writeOperation (validated : Except Response UInt8) (port : Fin 2 → Port)
    (checks : Except ErrorCode Unit) (payload : Option String) : Operation :=
  match validated with
  | .ok idx => .write (port (indexOf idx)) checks payload
  | .error r => .answer r.answer

/-- The operation behind a route, read off the fields of the command alone. -/
def routeOperation (cmd : Command) (route : String × String) : Operation :=
  match route with
  | ("gpio", "set_mode") => .answer (Gpio.handleSetMode cmd).answer
  | ("gpio", "subscribe") =>
    match cmd.pin, cmd.trigger with
    | none, _ => .answer (.error .missingField)
    | some pin, none => .subscribe (.gpioLevel pin (cmd.intervalMs.getD 100))
    | some pin, some t =>
      match EdgeTrigger.parse t with
      | none => .answer (.error .missingField)
      | some trigger => .subscribe (.gpioEdge pin trigger)
  | ("gpio", "unsubscribe") =>
    match cmd.pin with
    | none => .answer (.error .missingField)
    | some pin => .unsubscribe (.pin pin)
  | ("adc", "read") =>
    match cmd.adcChannel with
    | none => .answer (.error .missingField)
    | some _ => .answer (.error .notConfigured)
  | ("adc", "subscribe") =>
    match cmd.adcChannel with
    | none => .answer (.error .missingField)
    | some channel => .subscribe (.adc channel (cmd.intervalMs.getD 100))
  | ("adc", "unsubscribe") =>
    match cmd.adcChannel with
    | none => .answer (.error .missingField)
    | some channel => .unsubscribe (.channel channel)
  | ("uart", "configure") => configureOperation (Uart.handleConfigure cmd) cmd.uart .uart
  | ("uart", "write") => writeOperation (Uart.validateUart cmd) .uart (.ok ()) cmd.bytes
  | ("spi", "configure") => configureOperation (Spi.handleConfigure cmd) cmd.spi .spi
  | ("spi", "write") => writeOperation (Spi.validateSpi cmd) .spi (.ok ()) cmd.bytes
  | ("i2c", "configure") => configureOperation (I2c.handleConfigure cmd) cmd.i2c .i2c
  | ("i2c", "write") =>
    writeOperation (I2c.validateI2c cmd) .i2c
      (if cmd.addr.isSome then .ok () else .error .missingField) cmd.bytes
  | ("pwm", "set_duty") => .answer (Pwm.handleSetDuty cmd).answer
  | ("pwm", "set_freq") => .answer (Pwm.handleSetFreq cmd).answer
  | ("pwm", "enable") => .answer (Pwm.handleEnable cmd).answer
  | ("pwm", "disable") => .answer (Pwm.handleDisable cmd).answer
  | ("usb", "write") => .write .usb (.ok ()) cmd.bytes
  | ("config", "get") => .reportConfig
  | ("system", "get_version") =>
    .answer (.ok (some (.version ((HString.empty.pushStr "0.1.0").getD .empty))))
  | ("system", "reboot_to_bootloader") => .reboot
  | ("batch", "run") => .answer (.error .unknownInterface)
  | _ => .answer (.error .notConfigured)

/-- What a command means, whatever the state of the device. -/
def Command.operation (cmd : Command) : Operation :=
  match validateRoute cmd with
  | .error r => .answer r.answer
  | .ok route => routeOperation cmd route

/-- The port that an operation configures. -/
def Operation.configures : Operation → Option Port
  | .configure i setting => some (setting.port i)
  | _ => none

/-- The port to which an operation writes a payload that no decoding buffer holds. -/
def Operation.overruns : Operation → Option Port
  | .write p (.ok ()) payload => if Overlong payload then some p else none
  | _ => none

theorem Operation.overruns_write (h : Overlong payload) :
    (Operation.write p (.ok ()) payload).overruns = some p := if_pos h

/-- What an operation that does not fail for good can do. -/
inductive Operation.Effect (reqId : String) (s : DeviceState) :
    Operation → Answer → DeviceState → Prop
  | answered : Effect reqId s (.answer a) a s
  | reported : Effect reqId s .reportConfig
      (.ok (some (.config s.configSsid s.configIp s.configConnected s.configMqtt))) s
  | configured : Effect reqId s (.configure i setting) (.ok none) (s.store i setting)
  | written (ha : (∃ e, a = .error e) ∨ a = payloadAnswer payload) :
      Effect reqId s (.write p checks payload) a s
  | alreadySubscribed (he : e ∈ s.subscriptions.toList) (ht : e.sameTarget target = true) :
      Effect reqId s (.subscribe target) (.error .alreadySubscribed) s
  | subscriptionLimit (hn : maxSubscriptions ≤ s.subscriptions.length) :
      Effect reqId s (.subscribe target) (.error .subscriptionLimit) s
  | subscribed (hf : ∀ e ∈ s.subscriptions.toList, e.sameTarget target = false)
      (hw : s.subscriptions.push ⟨(HString.empty.pushStr reqId).getD .empty, target⟩ = some w) :
      Effect reqId s (.subscribe target) (.ok none) { s with subscriptions := w }
  | notSubscribed (hn : ∀ e ∈ s.subscriptions.toList, e.target.watched ≠ w) :
      Effect reqId s (.unsubscribe w) (.error .notSubscribed) s
  | unsubscribed (he : e ∈ s.subscriptions.toList) (hw : e.target.watched = w) :
      Effect reqId s (.unsubscribe w) (.ok none) { s with
        subscriptions := s.subscriptions.retain fun e => e.target.watched != w }
  | rebooting : Effect reqId s .reboot (.ok none) { s with pendingReboot := true }

theorem Operation.apply_effect (h : Operation.apply reqId s op = .ok (a, s')) :
    op.Effect reqId s a s' := by
  cases op with
  | answer => cases h; exact .answered
  | reportConfig => cases h; exact .reported
  | configure => cases h; exact .configured
  | reboot => cases h; exact .rebooting
  | write p checks payload =>
    simp only [Operation.apply] at h
    split at h
    · split at h
      · cases h
        exact .written (.inl ⟨_, rfl⟩)
      · split at h
        · cases h
        · cases h
          exact .written (.inr rfl)
    · cases h
      exact .written (.inl ⟨_, rfl⟩)
  | subscribe target =>
    simp only [Operation.apply] at h
    split at h
    · rename_i hany
      obtain ⟨e, he, ht⟩ := List.any_eq_true.1 hany
      cases h
      exact .alreadySubscribed he ht
    · rename_i hany
      split at h
      · rename_i hpush
        cases h
        refine .subscriptionLimit (Nat.le_of_not_lt fun hlt => ?_)
        obtain ⟨w, hw, -⟩ := HVec.push_of_lt hlt
          (⟨(HString.empty.pushStr reqId).getD .empty, target⟩ : Subscription)
        rw [hpush] at hw
        cases hw
      · cases h
        refine .subscribed (fun e he => Bool.eq_false_iff.2 fun ht => ?_) ‹_›
        exact hany (List.any_eq_true.2 ⟨e, he, ht⟩)
  | unsubscribe w =>
    simp only [Operation.apply] at h
    split at h
    · rename_i hex
      obtain ⟨e, he, hw⟩ := hex
      cases h
      exact .unsubscribed he hw
    · rename_i hex
      cases h
      exact .notSubscribed fun e he hw => hex ⟨e, he, hw⟩

theorem Operation.apply_due (h : Operation.apply reqId s op = .ok (a, s')) : a = op.due s := by
  cases op with
  | answer | reportConfig | configure | reboot => cases h; rfl
  | write p checks payload =>
    cases hc : s.configured p with
    | false => simp_all [Operation.apply, Operation.due]
    | true =>
      cases checks with
      | error e => simp_all [Operation.apply, Operation.due, Except.bind]
      | ok u =>
        simp only [Operation.apply, hc, ↓reduceIte] at h
        split at h
        · cases h
        · cases h
          simp only [Operation.due, hc, ↓reduceIte, Except.bind]
  | subscribe target =>
    simp only [Operation.apply, Operation.due] at h ⊢
    split at h
    · cases h
      rw [if_pos ‹_›]
    · rw [if_neg ‹_›]
      by_cases hl : s.subscriptions.toList.length < maxSubscriptions
      · obtain ⟨w, hw, -⟩ := HVec.push_of_lt hl
          (⟨(HString.empty.pushStr reqId).getD .empty, target⟩ : Subscription)
        rw [hw] at h
        cases h
        rw [if_pos hl]
      · rw [HVec.push_of_le (Nat.le_of_not_lt hl)] at h
        cases h
        rw [if_neg hl]
  | unsubscribe w =>
    simp only [Operation.apply, Operation.due] at h ⊢
    split at h <;> cases h <;> simp only [*, ↓reduceIte]

/-- An operation fails for good exactly when it writes a payload that no buffer holds to a
configured port. -/
theorem Operation.apply_eq_error (reqId : String) : Operation.apply reqId s op = .error q ↔
    q = .index ∧ ∃ port ∈ op.overruns, s.configured port := by
  cases op with
  | write port checks payload =>
    cases checks with
    | error e => cases hc : s.configured port <;> simp [Operation.apply, Operation.overruns, hc]
    | ok u =>
      simp only [Operation.apply, Operation.overruns]
      by_cases ho : Overlong payload
      · cases hc : s.configured port
        · simp [ho, hc]
        · simp only [ho, hc, ↓reduceIte, Except.error.injEq, Option.mem_some_iff, exists_eq_left',
            and_true]
          exact eq_comm
      · cases s.configured port <;> simp [ho]
  | subscribe target =>
    simp only [Operation.apply, Operation.overruns, Option.not_mem_none]
    split
    · simp
    · split <;> simp
  | unsubscribe w =>
    simp only [Operation.apply, Operation.overruns, Option.not_mem_none]
    split <;> simp
  | answer => simp [Operation.apply, Operation.overruns]
  | reportConfig => simp [Operation.apply, Operation.overruns]
  | configure => simp [Operation.apply, Operation.overruns]
  | reboot => simp [Operation.apply, Operation.overruns]

theorem Port.configured_set (v : Vector κ 2) (i j : Fin 2) (x : κ) (flag : κ → Bool)
    (hx : flag x = true) : flag (v.set i x)[j] = true ↔ flag v[j] = true ∨ i = j := by
  by_cases hij : i = j
  · subst hij
    simp [hx]
  · have hne := Fin.val_ne_of_ne hij
    simp [Vector.getElem_set_ne, hne, hij]

/-- Storing the parameters of a port configures that port and changes no other. -/
theorem DeviceState.store_configured (s : DeviceState) (i : Fin 2) (setting : Setting)
    (p : Port) : (s.store i setting).configured p ↔ s.configured p ∨ setting.port i = p := by
  cases setting with
  | uart cfg =>
    cases p with
    | uart j =>
      simp only [Setting.port, Port.uart.injEq]
      exact Port.configured_set s.uart i j _ (·.configured) rfl
    | spi j | i2c j | usb => simp [DeviceState.store, DeviceState.configured, Setting.port]
  | spi cfg =>
    cases p with
    | spi j =>
      simp only [Setting.port, Port.spi.injEq]
      exact Port.configured_set s.spi i j _ (·.configured) rfl
    | uart j | i2c j | usb => simp [DeviceState.store, DeviceState.configured, Setting.port]
  | i2c cfg =>
    cases p with
    | i2c j =>
      simp only [Setting.port, Port.i2c.injEq]
      exact Port.configured_set s.i2c i j _ (·.configured) rfl
    | uart j | spi j | usb => simp [DeviceState.store, DeviceState.configured, Setting.port]

/-- A port is configured after an operation if it was before or the operation configures it. -/
theorem Operation.Effect.configured_iff (h : Operation.Effect reqId s op a s') (p : Port) :
    s'.configured p ↔ s.configured p ∨ p ∈ op.configures := by
  cases h with
  | configured =>
    simp only [DeviceState.store_configured, Operation.configures, Option.mem_some_iff]
  | subscribed | unsubscribed | rebooting =>
    simp only [Operation.configures, Option.not_mem_none, or_false]
    cases p <;> rfl
  | answered | reported | written | alreadySubscribed | subscriptionLimit | notSubscribed =>
    simp only [Operation.configures, Option.not_mem_none, or_false]

/-- A refused operation leaves the state as it was. -/
theorem Operation.Effect.unchanged (h : Operation.Effect reqId s op (.error e) s') : s' = s := by
  cases h <;> rfl

theorem Operation.Effect.pendingReboot_iff (h : Operation.Effect reqId s op a s') :
    s'.pendingReboot ↔ s.pendingReboot ∨ op = .reboot := by
  cases h with
  | configured =>
    rename_i i setting
    cases setting <;> simp [DeviceState.store]
  | rebooting => simp
  | answered | reported | written | alreadySubscribed | subscriptionLimit | subscribed
  | notSubscribed | unsubscribed => simp

end PicoConduit
