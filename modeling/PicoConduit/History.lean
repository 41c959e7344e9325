import PicoConduit.Components
import PicoConduit.Session

namespace PicoConduit
open Checked Heapless Utf8 Transducer
set_option autoImplicit true

/-- The parameters stored for a port. -/
def DeviceState.parameters (s : DeviceState) : Port → Option Setting
  | .uart i => some (.uart (s.uart.get i))
  | .spi i => some (.spi (s.spi.get i))
  | .i2c i => some (.i2c (s.i2c.get i))
  | .usb => none

def Command.isConfigure (cmd : Command) (port : Port) : Bool :=
  cmd.action == some "configure" && cmd.port == some port

def Command.isWrite (cmd : Command) (port : Port) : Bool :=
  cmd.action == some "write" && cmd.port == some port

/-- The configure commands for a port that were answered ok, in order. -/
def accepted (port : Port) (past : List (Command × Response)) : List Command :=
  (past.filter fun x => x.2.ok && x.1.isConfigure port).map Prod.fst

/-- A port is configured exactly if the past has an accepted configure command for it, and then
holds what the last of these requests. -/
structure Faithful (past : List (Command × Response)) (s : DeviceState) (port : Port) : Prop where
  flag : s.configured port ↔ ∃ x ∈ past, x.2.ok = true ∧ x.1.isConfigure port = true
  parameters : ∀ cmd ∈ (accepted port past).getLast?,
    ∃ setting ∈ s.parameters port, setting.Requested cmd ∧ setting.InRange

/-- Every accepted write has found its port configured. -/
def WritesConfigured (transportMqtt : Bool) (past : List (Command × Response)) (port : Port) :
    Prop :=
  ∀ pre cmd r post, past = pre ++ (cmd, r) :: post → cmd.isWrite port = true → r.ok = true →
    ∃ t, Steps execute (.default transportMqtt) (pre.map Prod.fst) (pre.map Prod.snd) t ∧
      t.configured port

theorem isConfigure_iff {cmd : Command} : cmd.isConfigure port = true ↔
    cmd.action = some "configure" ∧ cmd.port = some port := by
  simp only [Command.isConfigure, Bool.and_eq_true, beq_iff_eq]

theorem isWrite_iff {cmd : Command} : cmd.isWrite port = true ↔
    cmd.action = some "write" ∧ cmd.port = some port := by
  simp only [Command.isWrite, Bool.and_eq_true, beq_iff_eq]

theorem accepted_concat : accepted port (past ++ [(cmd, r)]) =
    accepted port past ++ if r.ok && cmd.isConfigure port then [cmd] else [] := by
  simp only [accepted, List.filter_append, List.map_append, List.filter_cons, List.filter_nil]
  split <;> rfl

theorem Port.component_inj {p q : Port} (hp : k ∈ p.component) (hq : k ∈ q.component) : p = q := by
  cases p <;> cases hp <;> cases q <;> cases hq <;> rfl

theorem parameters_congr {s t : DeviceState} {p : Port}
    (h : ∀ k ∈ p.component, s.component k = t.component k) : s.parameters p = t.parameters p := by
  cases p with
  | uart i => exact congrArg (some ∘ Setting.uart) (h _ rfl)
  | spi i => exact congrArg (some ∘ Setting.spi) (h _ rfl)
  | i2c i => exact congrArg (some ∘ Setting.i2c) (h _ rfl)
  | usb => rfl

theorem store_parameters (s : DeviceState) (i : Fin 2) (setting : Setting)
    (hr : setting.Requested cmd) (hv : setting.InRange) :
    ∃ stored ∈ (s.store i setting).parameters (setting.port i),
      stored.Requested cmd ∧ stored.InRange := by
  cases setting with
  | uart cfg =>
    refine ⟨.uart { cfg with configured := true }, ?_, hr, hv⟩
    simp [DeviceState.parameters, DeviceState.store, Setting.port]
  | spi cfg =>
    refine ⟨.spi { cfg with configured := true }, ?_, hr, hv⟩
    simp [DeviceState.parameters, DeviceState.store, Setting.port]
  | i2c cfg =>
    refine ⟨.i2c { cfg with configured := true }, ?_, hr, hv⟩
    simp [DeviceState.parameters, DeviceState.store, Setting.port]

/-- A configure command stores its parameters or is refused. -/
theorem Command.Asks.configure {cmd : Command} (h : cmd.Asks op)
    (ha : cmd.action = some "configure") (hp : cmd.port = some p) :
    (∃ i setting, op = .configure i setting ∧ setting.port i = p ∧
      setting.Requested cmd ∧ setting.InRange) ∨ ∃ e, op = .answer (.error e) := by
  cases h with
  | refused => exact .inr ⟨_, rfl⟩
  | configured _ hport hr hv =>
    rw [hp, Option.some.injEq] at hport
    exact .inl ⟨_, _, rfl, hport.symm, hr, hv⟩
  | served ha' hs =>
    rw [ha, Option.some.injEq] at ha'
    subst ha'
    exact absurd hs (by decide)
  | reported ha' | written ha' | levelWatched _ ha' | edgeWatched _ ha' | channelWatched _ ha'
  | pinReleased _ ha' | channelReleased _ ha' | rebooting _ ha' =>
    rw [ha] at ha'
    exact absurd ha' (by decide)

theorem Command.Asks.write {cmd : Command} (h : cmd.Asks op) (ha : cmd.action = some "write")
    (hp : cmd.port = some p) :
    (∃ checks payload, op = .write p checks payload) ∨ ∃ e, op = .answer (.error e) := by
  cases h with
  | refused => exact .inr ⟨_, rfl⟩
  | written _ hport =>
    rw [hp, Option.some.injEq] at hport
    subst hport
    exact .inl ⟨_, _, rfl⟩
  | served ha' hs =>
    rw [ha, Option.some.injEq] at ha'
    subst ha'
    exact absurd hs (by decide)
  | reported ha' | configured ha' | levelWatched _ ha' | edgeWatched _ ha' | channelWatched _ ha'
  | pinReleased _ ha' | channelReleased _ ha' | rebooting _ ha' =>
    rw [ha] at ha'
    exact absurd ha' (by decide)

theorem configured_keeps (he : Operation.Effect reqId s op a s')
    (hk : ∀ k ∈ port.component, k ∉ op.changes) :
    s'.parameters port = s.parameters port ∧ s'.configured port = s.configured port :=
  have hcomp : ∀ k ∈ port.component, s'.component k = s.component k :=
    fun k hp => he.component_eq (hk k hp)
  ⟨parameters_congr hcomp, configured_congr he.readOnly_eq hcomp⟩

/-- One command configures a port as it requests, or leaves it as it was. -/
theorem execute_configures (h : execute s cmd = .ok (r, s')) (port : Port) :
    ((r.ok && cmd.isConfigure port) = true ∧ s'.configured port = true ∧
      ∃ setting ∈ s'.parameters port, setting.Requested cmd ∧ setting.InRange) ∨
    ((r.ok && cmd.isConfigure port) = false ∧ s'.parameters port = s.parameters port ∧
      s'.configured port = s.configured port) := by
  obtain ⟨a, rfl, he⟩ := execute_effect h
  have hask := operation_asks cmd
  by_cases hc : cmd.isConfigure port = true
  · obtain ⟨ha, hp⟩ := isConfigure_iff.1 hc
    rcases hask.configure ha hp with ⟨i, setting, hop, rfl, hr, hv⟩ | ⟨e, hop⟩
    · rw [hop] at he
      cases he
      refine .inl ⟨?_, ?_, store_parameters s i setting hr hv⟩
      · rw [hc]
        rfl
      · exact (DeviceState.store_configured s i setting _).2 (.inr rfl)
    · rw [hop] at he
      cases he
      exact .inr ⟨rfl, rfl, rfl⟩
  · rw [Bool.not_eq_true] at hc
    refine .inr ⟨by rw [hc, Bool.and_false], configured_keeps he fun k hk hch => ?_⟩
    generalize cmd.operation = op at hask hch
    cases hask with
    | configured ha hp =>
      have hport := Port.component_inj hk hch
      subst hport
      rw [isConfigure_iff.2 ⟨ha, hp⟩] at hc
      cases hc
    | refused | served | reported | written => cases hch
    | levelWatched | edgeWatched | channelWatched | pinReleased | channelReleased | rebooting =>
      cases hch
      cases port <;> cases hk

theorem Faithful.step (hf : Faithful past s port) (h : execute s cmd = .ok (r, s')) :
    Faithful (past ++ [(cmd, r)]) s' port := by
  rcases execute_configures h port with ⟨hc, hflag, hpar⟩ | ⟨hc, hpar, hflag⟩
  · constructor
    · simp only [hflag, true_iff]
      rw [Bool.and_eq_true] at hc
      exact ⟨(cmd, r), List.mem_append_right _ List.mem_cons_self, hc⟩
    · rw [accepted_concat, hc, if_pos rfl, List.getLast?_concat]
      intro c hmem
      cases hmem
      exact hpar
  · constructor
    · rw [hflag, hf.flag]
      have hn : ¬ (r.ok = true ∧ cmd.isConfigure port = true) := by
        rw [← Bool.and_eq_true, hc]
        exact Bool.false_ne_true
      simp only [List.mem_append, List.mem_singleton, or_and_right, exists_or, exists_eq_left, hn,
        or_false]
    · rw [accepted_concat, hc, if_neg Bool.false_ne_true, List.append_nil, hpar]
      exact hf.parameters

theorem faithful_default (transportMqtt : Bool) (port : Port) :
    Faithful [] (.default transportMqtt) port := by
  constructor
  · have hflag : (DeviceState.default transportMqtt).configured port = false := by
      cases port with
      | uart i | spi i | i2c i =>
        match i with
        | ⟨0, _⟩ => rfl
        | ⟨1, _⟩ => rfl
      | usb => rfl
    simp [hflag]
  · intro cmd hmem
    cases hmem

theorem execute_write (h : execute s cmd = .ok (r, s')) (hw : cmd.isWrite port = true)
    (hr : r.ok = true) : s.configured port := by
  obtain ⟨a, ha, rfl⟩ := execute_eq_ok.1 h
  obtain ⟨haction, hport⟩ := isWrite_iff.1 hw
  rcases (operation_asks cmd).write haction hport with ⟨checks, payload, hop⟩ | ⟨e, hop⟩
  · rw [hop] at ha
    by_cases hc : s.configured port = true
    · exact hc
    · simp only [Operation.apply, if_neg hc] at ha
      cases ha
      cases hr
  · rw [hop] at ha
    cases ha
    cases hr

/-- The configuration of every port is what the session's history says, and only configured
ports take writes. -/
theorem configuration_faithful (transportMqtt : Bool) (calls : List Call) (us : List Reply)
    (s : DeviceState) (h : Steps callStep (.default transportMqtt) calls us s) (port : Port) :
    Faithful (exchanges calls us) s port ∧
      WritesConfigured transportMqtt (exchanges calls us) port := by
  have hrun := callStep_exchanges h
  constructor
  · exact hrun.history (fun past s => Faithful past s port) (fun _ _ _ _ _ hf he => hf.step he)
      (faithful_default transportMqtt port)
  · intro pre cmd r post hsplit hw hr
    obtain ⟨t, t', hpre, hcmd, -⟩ := hrun.split hsplit
    exact ⟨t, hpre, execute_write hcmd hw hr⟩

def rejectedConfigure : Command where
  version := some 1
  id := "d"
  interface := some "uart"
  action := some "configure"
  uart := some 0
  baud := some 9600
  dataBits := some 9

/-- A rejected configure command after an accepted one changes nothing. -/
theorem configuration_faithful_after_rejection :
    let calls : List Call := [⟨configureCommand, .dispatch⟩, ⟨rejectedConfigure, .dispatch⟩]
    let replies : List Reply :=
      [.single (.success "c" none), .single (.failure "d" .valueOutOfRange)]
    Faithful (exchanges calls replies) configuredState (.uart (indexOf 0)) ∧
      WritesConfigured false (exchanges calls replies) (.uart (indexOf 0)) :=
  configuration_faithful _ _ _ _ (.cons rfl (.cons rfl .nil)) _

end PicoConduit
