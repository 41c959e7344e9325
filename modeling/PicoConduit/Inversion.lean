import PicoConduit.Refinement

namespace PicoConduit
open Checked Heapless Utf8
set_option autoImplicit true

/-- The bus that a field gives the index of, if there is one. -/
def busIndex (field : Option UInt8) : Option (Fin 2) :=
  field.bind fun idx => if idx ≤ 1 then some (indexOf idx) else none

/-- The port that the interface and the index of a command name. -/
def Command.port (cmd : Command) : Option Port :=
  match cmd.interface with
  | some "uart" => (busIndex cmd.uart).map .uart
  | some "spi" => (busIndex cmd.spi).map .spi
  | some "i2c" => (busIndex cmd.i2c).map .i2c
  | some "usb" => some .usb
  | _ => none

/-- The actions that succeed without touching the state. -/
def statelessActions : List String :=
  ["set_mode", "set_duty", "set_freq", "enable", "disable", "get_version"]

/-- What is answered without a look at the state: that it is done, the version of the firmware, or
an error that is not about the version of the command. -/
inductive Answer.Plain : Answer → Prop
  | done : Plain (.ok none)
  | version : Plain (.ok (some (.version ((HString.empty.pushStr "0.1.0").getD .empty))))
  | refused (he : e.ofVersion = false) : Plain (.error e)

/-- What the fields of a command say when it asks for an operation. -/
inductive Command.Asks (cmd : Command) : Operation → Prop
  | refused (he : e.ofVersion = false) : Asks cmd (.answer (.error e))
  | served (ha : cmd.action = some name) (hs : name ∈ statelessActions) (hp : a.Plain) :
      Asks cmd (.answer a)
  | reported (ha : cmd.action = some "get") : Asks cmd .reportConfig
  | configured (ha : cmd.action = some "configure") (hp : cmd.port = some (setting.port i))
      (hr : setting.Requested cmd) (hv : setting.InRange) : Asks cmd (.configure i setting)
  | written (ha : cmd.action = some "write") (hp : cmd.port = some p)
      (hc : ∀ e, checks = .error e → e.ofVersion = false) : Asks cmd (.write p checks cmd.bytes)
  | levelWatched (hi : cmd.interface = some "gpio") (ha : cmd.action = some "subscribe")
      (hp : cmd.pin = some p) (ht : cmd.trigger = none) :
      Asks cmd (.subscribe (.gpioLevel p (cmd.intervalMs.getD 100)))
  | edgeWatched (hi : cmd.interface = some "gpio") (ha : cmd.action = some "subscribe")
      (hp : cmd.pin = some p) (ht : cmd.trigger = some t)
      (he : EdgeTrigger.parse t = some edge) : Asks cmd (.subscribe (.gpioEdge p edge))
  | channelWatched (hi : cmd.interface = some "adc") (ha : cmd.action = some "subscribe")
      (hc : cmd.adcChannel = some c) :
      Asks cmd (.subscribe (.adc c (cmd.intervalMs.getD 100)))
  | pinReleased (hi : cmd.interface = some "gpio") (ha : cmd.action = some "unsubscribe")
      (hp : cmd.pin = some p) : Asks cmd (.unsubscribe (.pin p))
  | channelReleased (hi : cmd.interface = some "adc") (ha : cmd.action = some "unsubscribe")
      (hc : cmd.adcChannel = some c) : Asks cmd (.unsubscribe (.channel c))
  | rebooting (hi : cmd.interface = some "system")
      (ha : cmd.action = some "reboot_to_bootloader") : Asks cmd .reboot

theorem busIndex_of_le (hf : field = some idx) (h : idx ≤ 1) :
    busIndex field = some (indexOf idx) := by
  rw [hf, busIndex, Option.bind_some, if_pos h]

/-- The index of an accepted configure command is the one that its parameters are stored at. -/
theorem Accepts.busIndex_eq (h : Accepts cmd field setting flag) :
    busIndex field = some (indexOf (field.getD 0)) := by
  obtain ⟨idx, rfl, hi⟩ := h.index
  exact busIndex_of_le rfl hi

theorem Handles.refused {m : Except Response α} (hm : Handles reqId Q m) (h : m = .error r) :
    ∃ e, e.ofVersion = false ∧ r.answer = .error e := by
  subst h
  obtain ⟨e, he, rfl⟩ := hm
  exact ⟨e, he, rfl⟩

theorem asks_refused {cmd : Command} (h : ∃ e, e.ofVersion = false ∧ a = .error e) :
    cmd.Asks (.answer a) := by
  obtain ⟨e, he, rfl⟩ := h
  exact .refused he

theorem setMode_plain (cmd : Command) : (Gpio.handleSetMode cmd).answer.Plain := by
  simp only [Gpio.handleSetMode, Gpio.validatePin]
  split
  · rename_i r hr
    split at hr
    · cases hr
      exact .refused rfl
    · split at hr
      · cases hr
        exact .refused rfl
      · cases hr
  · split
    · exact .refused rfl
    · split
      · split
        · exact .done
        · split
          · exact .done
          · exact .refused rfl
      · exact .refused rfl

theorem onChannel_plain (cmd : Command) (h : r.answer.Plain) :
    (Pwm.onChannel cmd r).answer.Plain := by
  have hindex := validateIndex_handles cmd cmd.channel Pwm.maxPwmChannel
  simp only [Pwm.onChannel, Pwm.validateChannel]
  cases hv : validateIndex cmd cmd.channel Pwm.maxPwmChannel with
  | error r =>
    rw [hv] at hindex
    obtain ⟨e, he, rfl⟩ := hindex
    exact .refused he
  | ok idx => exact h

theorem setDuty_plain (cmd : Command) : (Pwm.handleSetDuty cmd).answer.Plain := by
  apply onChannel_plain
  cases cmd.dutyU16 with
  | none => exact .refused rfl
  | some duty => exact .done

theorem setFreq_plain (cmd : Command) : (Pwm.handleSetFreq cmd).answer.Plain := by
  apply onChannel_plain
  cases cmd.freqHz with
  | none => exact .refused rfl
  | some freq =>
    simp only
    split
    · exact .refused rfl
    · exact .done

theorem configureOperation_asks {cmd : Command} {handled : Except Response κ}
    {flag : κ → Bool} (ha : cmd.action = some "configure")
    (hr : Handles cmd.id (fun cfg => Accepts cmd field (setting cfg) (flag cfg)) handled)
    (hp : ∀ i cfg, busIndex field = some i → cmd.port = some ((setting cfg).port i)) :
    cmd.Asks (configureOperation handled field setting) := by
  cases handled with
  | error r => exact asks_refused (hr.refused rfl)
  | ok cfg => exact .configured ha (hp _ cfg hr.busIndex_eq) hr.requested hr.inRange

theorem writeOperation_asks {cmd : Command} (ha : cmd.action = some "write")
    (hp : ∀ i, busIndex field = some i → cmd.port = some (port i))
    (hc : ∀ e, checks = .error e → e.ofVersion = false) :
    cmd.Asks (writeOperation (validateIndex cmd field 1) port checks cmd.bytes) := by
  have hv := validateIndex_handles cmd field 1
  cases h : validateIndex cmd field 1 with
  | error r => exact asks_refused (hv.refused h)
  | ok idx =>
    rw [h] at hv
    exact .written ha (hp _ (busIndex_of_le hv.1 hv.2)) hc

/-- Nothing is wrong with a write without further checks. -/
theorem unchecked_ofVersion (e : ErrorCode) (h : (.ok () : Except ErrorCode Unit) = .error e) :
    e.ofVersion = false := by
  cases h

theorem routeOperation_asks {cmd : Command} {route : String × String}
    (hi : cmd.interface = some route.1) (ha : cmd.action = some route.2) :
    cmd.Asks (routeOperation cmd route) := by
  simp only [routeOperation]
  split
  · exact .served ha (by decide) (setMode_plain cmd)
  · split
    · exact .refused rfl
    · exact .levelWatched hi ha ‹_› ‹_›
    · split
      · exact .refused rfl
      · exact .edgeWatched hi ha ‹_› ‹_› ‹_›
  · split
    · exact .refused rfl
    · exact .pinReleased hi ha ‹_›
  · split <;> exact .refused rfl
  · split
    · exact .refused rfl
    · exact .channelWatched hi ha ‹_›
  · split
    · exact .refused rfl
    · exact .channelReleased hi ha ‹_›
  · apply configureOperation_asks ha Uart.handleConfigure_handles
    intro i cfg hb
    simp only [Command.port, hi, hb, Option.map_some, Setting.port]
  · refine writeOperation_asks ha (fun i hb => ?_) unchecked_ofVersion
    simp only [Command.port, hi, hb, Option.map_some]
  · apply configureOperation_asks ha Spi.handleConfigure_handles
    intro i cfg hb
    simp only [Command.port, hi, hb, Option.map_some, Setting.port]
  · refine writeOperation_asks ha (fun i hb => ?_) unchecked_ofVersion
    simp only [Command.port, hi, hb, Option.map_some]
  · apply configureOperation_asks ha I2c.handleConfigure_handles
    intro i cfg hb
    simp only [Command.port, hi, hb, Option.map_some, Setting.port]
  · refine writeOperation_asks ha (fun i hb => ?_) fun e he => ?_
    · simp only [Command.port, hi, hb, Option.map_some]
    · split at he
      · cases he
      · cases he
        rfl
  · exact .served ha (by decide) (setDuty_plain cmd)
  · exact .served ha (by decide) (setFreq_plain cmd)
  · exact .served ha (by decide) (onChannel_plain cmd .done)
  · exact .served ha (by decide) (onChannel_plain cmd .done)
  · refine .written ha ?_ unchecked_ofVersion
    simp only [Command.port, hi]
  · exact .reported ha
  · exact .served ha (by decide) .version
  · exact .rebooting hi ha
  · exact .refused rfl
  · exact .refused rfl

/-- The operation of a command is what its fields ask for. -/
theorem operation_asks (cmd : Command) : cmd.Asks cmd.operation := by
  have hroute := validateRoute_handles cmd
  simp only [Command.operation]
  cases hv : validateRoute cmd with
  | error r => exact asks_refused (hroute.refused hv)
  | ok route =>
    rw [hv] at hroute
    obtain ⟨hi, ha, -⟩ := hroute
    exact routeOperation_asks hi ha

theorem payloadAnswer_plain (payload : Option String) : (payloadAnswer payload).Plain := by
  simp only [payloadAnswer]
  split
  · exact .refused rfl
  · split
    · exact .refused rfl
    · split
      · exact .done
      · exact .refused rfl

/-- The only answer that tells of the state is that to a request for the configuration. -/
theorem Command.Asks.due_plain {cmd : Command} (h : cmd.Asks op) (s : DeviceState)
    (hop : op ≠ .reportConfig) : (op.due s).Plain := by
  cases h with
  | refused he => exact .refused he
  | served _ _ hp => exact hp
  | reported => exact absurd rfl hop
  | configured => exact .done
  | @written p checks _ _ hc =>
    simp only [Operation.due]
    split
    · cases checks with
      | error e => exact .refused (hc e rfl)
      | ok u => exact payloadAnswer_plain cmd.bytes
    · exact .refused rfl
  | levelWatched | edgeWatched | channelWatched =>
    simp only [Operation.due]
    split
    · exact .refused rfl
    · split
      · exact .done
      · exact .refused rfl
  | pinReleased | channelReleased =>
    simp only [Operation.due]
    split
    · exact .done
    · exact .refused rfl
  | rebooting => exact .done

end PicoConduit
