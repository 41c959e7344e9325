import PicoConduit.Execution
import PicoConduit.Locality

namespace PicoConduit
open Checked Heapless Utf8 Locality
set_option autoImplicit true

/-- A part of the device that commands can change. -/
inductive Component
  | uart (i : Fin 2)
  | spi (i : Fin 2)
  | i2c (i : Fin 2)
  | subscriptions
  | pendingReboot
  deriving DecidableEq, Repr

/-- The part of the device that commands only read. -/
structure ReadOnly where
  usbConfigured : Bool
  configSsid : HString 32
  configIp : HString 16
  configConnected : Bool
  configMqtt : Option MqttConfig
  deriving DecidableEq

abbrev Component.Value : Component → Type
  | .uart _ => UartConfig
  | .spi _ => SpiConfig
  | .i2c _ => I2cConfig
  | .subscriptions => HVec Subscription maxSubscriptions
  | .pendingReboot => Bool

def DeviceState.component (s : DeviceState) : (k : Component) → k.Value
  | .uart i => s.uart.get i
  | .spi i => s.spi.get i
  | .i2c i => s.i2c.get i
  | .subscriptions => s.subscriptions
  | .pendingReboot => s.pendingReboot

def DeviceState.readOnly (s : DeviceState) : ReadOnly :=
  ⟨s.usbConfigured, s.configSsid, s.configIp, s.configConnected, s.configMqtt⟩

def Port.component : Port → Option Component
  | .uart i => some (.uart i)
  | .spi i => some (.spi i)
  | .i2c i => some (.i2c i)
  | .usb => none

/-- The component that the interface, the action and the index of a command name. -/
def Command.component (cmd : Command) : Option Component :=
  match cmd.action with
  | some "configure" | some "write" => cmd.port.bind Port.component
  | some "subscribe" | some "unsubscribe" =>
    if cmd.interface = some "gpio" ∨ cmd.interface = some "adc" then some .subscriptions else none
  | some "reboot_to_bootloader" =>
    if cmd.interface = some "system" then some .pendingReboot else none
  | _ => none

/-- The component that a command may change: a write only reads the one it names. -/
def Command.changes (cmd : Command) : Option Component :=
  if cmd.action = some "write" then none else cmd.component

def Operation.component : Operation → Option Component
  | .configure i setting => (setting.port i).component
  | .write p _ _ => p.component
  | .subscribe _ | .unsubscribe _ => some .subscriptions
  | .reboot => some .pendingReboot
  | .answer _ | .reportConfig => none

def Operation.changes : Operation → Option Component
  | .write _ _ _ => none
  | op => op.component

theorem vector_ext {v w : Vector κ 2} (h : ∀ i, v.get i = w.get i) : v = w := by
  apply Vector.ext
  intro i hi
  exact h ⟨i, hi⟩

/-- The components and, under no key, the read-only part. -/
def deviceParts : Parts DeviceState (Option Component) where
  Value
    | some k => k.Value
    | none => ReadOnly
  part s
    | some k => s.component k
    | none => s.readOnly
  determined s t h := by
    have huart := vector_ext fun i => h (some (.uart i))
    have hspi := vector_ext fun i => h (some (.spi i))
    have hi2c := vector_ext fun i => h (some (.i2c i))
    have hreadOnly : s.readOnly = t.readOnly := h none
    have hsubscriptions : s.subscriptions = t.subscriptions := h (some .subscriptions)
    have hpending : s.pendingReboot = t.pendingReboot := h (some .pendingReboot)
    cases s
    cases t
    cases hreadOnly
    simp only [DeviceState.mk.injEq, true_and]
    exact ⟨huart, hspi, hi2c, hpending, hsubscriptions⟩

theorem Command.Asks.component {cmd : Command} (h : cmd.Asks op) (hk : k ∈ op.component) :
    k ∈ cmd.component := by
  cases h with
  | refused | served | reported => cases hk
  | configured ha hp | written ha hp =>
    simp only [Command.component, ha, hp, Option.bind_some]
    exact hk
  | levelWatched hi ha | edgeWatched hi ha | pinReleased hi ha =>
    simp only [Command.component, ha, hi, true_or, ↓reduceIte]
    exact hk
  | channelWatched hi ha | channelReleased hi ha =>
    simp only [Command.component, ha, hi, or_true, ↓reduceIte]
    exact hk
  | rebooting hi ha =>
    simp only [Command.component, ha, hi, ↓reduceIte]
    exact hk

theorem Command.Asks.changes {cmd : Command} (h : cmd.Asks op) (hk : k ∈ op.changes) :
    k ∈ cmd.changes := by
  have hsub : k ∈ op.component := by
    cases op with
    | write => cases hk
    | answer | reportConfig | configure | subscribe | unsubscribe | reboot => exact hk
  have hcomp := h.component hsub
  cases h with
  | refused | served | reported | written => cases hk
  | configured ha | levelWatched hi ha | edgeWatched hi ha | channelWatched hi ha
  | pinReleased hi ha | channelReleased hi ha | rebooting hi ha =>
    simp only [Command.changes, ha, Option.some.injEq, String.reduceEq, ↓reduceIte]
    exact hcomp

theorem store_component (s : DeviceState) (i : Fin 2) (setting : Setting) (k : Component)
    (hk : k ∉ (setting.port i).component) : (s.store i setting).component k = s.component k := by
  have hget {κ : Type} (v : Vector κ 2) (x : κ) (j : Fin 2) (hij : i ≠ j) :
      (v.set i x)[j] = v[j] := by
    have hne := Fin.val_ne_of_ne hij
    simp [Vector.getElem_set_ne, hne]
  cases setting with
  | uart cfg =>
    cases k with
    | uart j => exact hget _ _ j fun hij => hk (congrArg (some ∘ Component.uart) hij)
    | spi j | i2c j | subscriptions | pendingReboot => rfl
  | spi cfg =>
    cases k with
    | spi j => exact hget _ _ j fun hij => hk (congrArg (some ∘ Component.spi) hij)
    | uart j | i2c j | subscriptions | pendingReboot => rfl
  | i2c cfg =>
    cases k with
    | i2c j => exact hget _ _ j fun hij => hk (congrArg (some ∘ Component.i2c) hij)
    | uart j | spi j | subscriptions | pendingReboot => rfl

theorem store_component_self (s t : DeviceState) (i : Fin 2) (setting : Setting) :
    ∀ k ∈ (setting.port i).component,
      (s.store i setting).component k = (t.store i setting).component k := by
  cases setting <;> simp [Setting.port, Port.component, DeviceState.store, DeviceState.component]

theorem store_readOnly (s : DeviceState) (i : Fin 2) (setting : Setting) :
    (s.store i setting).readOnly = s.readOnly := by
  cases setting <;> rfl

/-- An operation leaves every component alone that it does not change. -/
theorem Operation.Effect.component_eq (h : Operation.Effect reqId s op a s')
    (hk : k ∉ op.changes) : s'.component k = s.component k := by
  cases h with
  | answered | reported | written | alreadySubscribed | subscriptionLimit | notSubscribed => rfl
  | configured => exact store_component _ _ _ _ hk
  | subscribed | unsubscribed =>
    cases k with
    | subscriptions => exact absurd rfl hk
    | uart | spi | i2c | pendingReboot => rfl
  | rebooting =>
    cases k with
    | pendingReboot => exact absurd rfl hk
    | uart | spi | i2c | subscriptions => rfl

theorem Operation.Effect.readOnly_eq (h : Operation.Effect reqId s op a s') :
    s'.readOnly = s.readOnly := by
  cases h with
  | configured => exact store_readOnly _ _ _
  | answered | reported | written | alreadySubscribed | subscriptionLimit | subscribed
  | notSubscribed | unsubscribed | rebooting => rfl

theorem configured_congr {s t : DeviceState} {p : Port} (hr : s.readOnly = t.readOnly)
    (h : ∀ k ∈ p.component, s.component k = t.component k) : s.configured p = t.configured p := by
  cases p with
  | uart i => exact congrArg UartConfig.configured (h _ rfl)
  | spi i => exact congrArg SpiConfig.configured (h _ rfl)
  | i2c i => exact congrArg I2cConfig.configured (h _ rfl)
  | usb => exact congrArg ReadOnly.usbConfigured hr

/-- What an operation answers, and what it leaves in its component, depends on that component
and on the read-only part alone. -/
theorem Operation.apply_depends {op : Operation} {s t : DeviceState} (hr : s.readOnly = t.readOnly)
    (h : ∀ k ∈ op.component, s.component k = t.component k)
    (ha : op.apply reqId s = .ok (a, s')) :
    ∃ t', op.apply reqId t = .ok (a, t') ∧ ∀ k ∈ op.component, s'.component k = t'.component k := by
  cases op with
  | answer b =>
    cases ha
    exact ⟨t, rfl, h⟩
  | reportConfig =>
    cases ha
    simp only [DeviceState.readOnly, ReadOnly.mk.injEq] at hr
    obtain ⟨-, hssid, hip, hconnected, hmqtt⟩ := hr
    exact ⟨t, by simp only [Operation.apply, hssid, hip, hconnected, hmqtt], h⟩
  | configure i setting =>
    cases ha
    exact ⟨_, rfl, store_component_self s t i setting⟩
  | write p checks payload =>
    simp only [Operation.apply, configured_congr hr h] at ha ⊢
    split at ha
    · split at ha
      · cases ha
        exact ⟨t, if_pos ‹_›, h⟩
      · split at ha
        · cases ha
        · cases ha
          simp only [*, ↓reduceIte]
          exact ⟨t, rfl, h⟩
    · cases ha
      exact ⟨t, if_neg ‹_›, h⟩
  | subscribe target =>
    have hs : s.subscriptions = t.subscriptions := h _ rfl
    simp only [Operation.apply, hs] at ha ⊢
    split at ha
    · cases ha
      exact ⟨t, if_pos ‹_›, h⟩
    · rename_i hany
      rw [if_neg hany]
      split at ha
      · cases ha
        exact ⟨t, rfl, h⟩
      · cases ha
        refine ⟨_, rfl, fun k hk => ?_⟩
        cases hk
        rfl
  | unsubscribe w =>
    have hs : s.subscriptions = t.subscriptions := h _ rfl
    simp only [Operation.apply, hs] at ha ⊢
    split at ha
    · cases ha
      refine ⟨_, if_pos ‹_›, fun k hk => ?_⟩
      cases hk
      rfl
    · cases ha
      exact ⟨t, if_neg ‹_›, h⟩
  | reboot =>
    cases ha
    refine ⟨_, rfl, fun k hk => ?_⟩
    cases hk
    rfl

theorem Operation.component_of_changes {op : Operation} (hk : k ∈ op.changes) :
    k ∈ op.component := by
  cases op with
  | write => cases hk
  | answer | reportConfig | configure | subscribe | unsubscribe | reboot => exact hk

theorem Command.component_of_changes {cmd : Command} (hk : k ∈ cmd.changes) :
    k ∈ cmd.component := by
  simp only [Command.changes] at hk
  split at hk
  · cases hk
  · exact hk

theorem execute_component (h : execute s cmd = .ok (r, s')) (hk : k ∉ cmd.changes) :
    s'.component k = s.component k := by
  obtain ⟨a, -, he⟩ := execute_effect h
  exact he.component_eq fun hc => hk ((operation_asks cmd).changes hc)

theorem execute_readOnly (h : execute s cmd = .ok (r, s')) : s'.readOnly = s.readOnly := by
  obtain ⟨a, -, he⟩ := execute_effect h
  exact he.readOnly_eq

theorem execute_depends {s t : DeviceState} (hr : s.readOnly = t.readOnly)
    (h : ∀ k ∈ cmd.component, s.component k = t.component k)
    (hs : execute s cmd = .ok (r, s')) :
    ∃ t', execute t cmd = .ok (r, t') ∧ ∀ k ∈ cmd.component, s'.component k = t'.component k := by
  obtain ⟨a, ha, rfl⟩ := execute_eq_ok.1 hs
  have hsub : ∀ k ∈ cmd.operation.component, s.component k = t.component k :=
    fun k hk => h k ((operation_asks cmd).component hk)
  obtain ⟨t', ht, hagree⟩ := Operation.apply_depends hr hsub ha
  refine ⟨t', execute_eq_ok.2 ⟨a, ht, rfl⟩, fun k hk => ?_⟩
  by_cases hc : k ∈ cmd.operation.component
  · exact hagree k hc
  · have hn : k ∉ cmd.operation.changes := fun hx => hc (Operation.component_of_changes hx)
    rw [(Operation.apply_effect ha).component_eq hn, (Operation.apply_effect ht).component_eq hn,
      h k hk]

/-- The keys of what a command reads: the component it names and the read-only part. -/
def Command.reads (cmd : Command) : Set (Option Component) :=
  {key | ∀ k, key = some k → k ∈ cmd.component}

def Command.writes (cmd : Command) : Set (Option Component) :=
  {key | ∃ k ∈ cmd.changes, key = some k}

theorem execute_local : Local deviceParts execute Command.reads Command.writes := by
  constructor
  · intro s cmd r s' h key hkey
    cases key with
    | none => exact execute_readOnly h
    | some k => exact execute_component h fun hk => hkey ⟨k, hk, rfl⟩
  · intro s t cmd r s' hagree h
    have hr : s.readOnly = t.readOnly := hagree none fun k hk => by cases hk
    have hc : ∀ k ∈ cmd.component, s.component k = t.component k := by
      intro k hk
      apply hagree (some k)
      intro k' hk'
      cases hk'
      exact hk
    obtain ⟨t', ht, hcomp⟩ := execute_depends hr hc h
    refine ⟨t', ht, fun key hkey => ?_⟩
    obtain ⟨k, hk, rfl⟩ := hkey
    exact hcomp k (Command.component_of_changes hk)

/-- Two commands that name no component in common. -/
def Apart (cmd cmd' : Command) : Prop := ∀ k ∈ cmd.component, k ∉ cmd'.component

theorem Apart.symm (h : Apart cmd cmd') : Apart cmd' cmd := fun k hk hk' => h k hk' hk

theorem Apart.disjoint (h : Apart cmd cmd') : Disjoint cmd.writes cmd'.reads := by
  rw [Set.disjoint_left]
  intro key hw hr
  obtain ⟨k, hk, rfl⟩ := hw
  exact h k (Command.component_of_changes hk) (hr k rfl)

theorem Apart.disjoint_writes (h : Apart cmd cmd') : Disjoint cmd.writes cmd'.writes := by
  apply h.disjoint.mono_right
  intro key hw
  obtain ⟨k, hk, rfl⟩ := hw
  intro k' hk'
  cases hk'
  exact Command.component_of_changes hk

theorem execute_exchange (h : Apart cmd cmd') (hs : execute s cmd = .ok (r, s₁))
    (hs' : execute s₁ cmd' = .ok (r', s₂)) :
    ∃ t₁, execute s cmd' = .ok (r', t₁) ∧ execute t₁ cmd = .ok (r, s₂) :=
  execute_local.exchange h.disjoint h.symm.disjoint h.disjoint_writes hs hs'

theorem execute_dispatch (h : validateRoute cmd = .ok route) :
    execute s cmd = dispatch cmd route s := by
  simp only [execute, h]

/-- A dispatched command changes at most the component it names, answers and changes it as that
component and the read-only part determine, and changes nothing when it is refused. -/
structure Confined (cmd : Command) (route : String × String) (s : DeviceState) (r : Response)
    (s' : DeviceState) : Prop where
  readOnly : s'.readOnly = s.readOnly
  frame : ∀ k, k ∉ cmd.changes → s'.component k = s.component k
  depends : ∀ t : DeviceState, s.readOnly = t.readOnly →
    (∀ k ∈ cmd.component, s.component k = t.component k) →
    ∃ t', dispatch cmd route t = .ok (r, t') ∧ ∀ k ∈ cmd.component, s'.component k = t'.component k
  refused : r.ok = false → s' = s

/-- Executed in either order, two commands give the same responses and the same state. -/
def Commute (cmd cmd' : Command) (route route' : String × String) : Prop :=
  ∀ s r r' s₂,
    (∃ s₁, dispatch cmd route s = .ok (r, s₁) ∧ dispatch cmd' route' s₁ = .ok (r', s₂)) ↔
      ∃ t₁, dispatch cmd' route' s = .ok (r', t₁) ∧ dispatch cmd route t₁ = .ok (r, s₂)

theorem dispatch_confined (h : validateRoute cmd = .ok route)
    (hs : dispatch cmd route s = .ok (r, s')) : Confined cmd route s r s' := by
  rw [← execute_dispatch h] at hs
  refine ⟨execute_readOnly hs, fun k hk => execute_component hs hk, ?_, execute_unchanged hs⟩
  intro t hr hagree
  obtain ⟨t', ht, hcomp⟩ := execute_depends hr hagree hs
  exact ⟨t', (execute_dispatch h).symm.trans ht, hcomp⟩

theorem dispatch_commute (h : validateRoute cmd = .ok route) (h' : validateRoute cmd' = .ok route')
    (ha : Apart cmd cmd') : Commute cmd cmd' route route' := by
  intro s r r' s₂
  simp only [← execute_dispatch h, ← execute_dispatch h']
  constructor
  · intro hx
    obtain ⟨s₁, h₁, h₂⟩ := hx
    exact execute_exchange ha h₁ h₂
  · intro hx
    obtain ⟨t₁, h₁, h₂⟩ := hx
    exact execute_exchange ha.symm h₁ h₂

/-- Commands on different parts of the device do not interfere. -/
theorem commands_do_not_interfere (cmd : Command) (route : String × String)
    (h : validateRoute cmd = .ok route) :
    (∀ s r s', dispatch cmd route s = .ok (r, s') → Confined cmd route s r s') ∧
      ∀ cmd' route', validateRoute cmd' = .ok route' → Apart cmd cmd' →
        Commute cmd cmd' route route' :=
  ⟨fun _ _ _ hs => dispatch_confined h hs, fun _ _ h' ha => dispatch_commute h h' ha⟩

def uartConfigure (i : UInt8) : Command where
  version := some 1
  id := "u"
  interface := some "uart"
  action := some "configure"
  uart := some i
  baud := some 9600

example : (uartConfigure 1).component = some (.uart 1) := by decide

theorem uart_configures_apart : Apart (uartConfigure 0) (uartConfigure 1) := by
  intro k hk hk'
  cases hk
  exact absurd hk' (by decide)

theorem uart_configures_commute :
    (∀ s r s', dispatch (uartConfigure 0) ("uart", "configure") s = .ok (r, s') →
      Confined (uartConfigure 0) ("uart", "configure") s r s') ∧
    Commute (uartConfigure 0) (uartConfigure 1) ("uart", "configure") ("uart", "configure") :=
  have h := commands_do_not_interfere (uartConfigure 0) ("uart", "configure") rfl
  ⟨h.1, h.2 _ _ rfl uart_configures_apart⟩

end PicoConduit
