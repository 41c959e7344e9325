import PicoConduit.Subscriptions

namespace PicoConduit
open Checked Heapless Utf8 Transducer
set_option autoImplicit true

/-- A command that reads, writes, sets up or watches a pin. -/
structure Command.UsesPin (cmd : Command) (p : UInt8) : Prop where
  interface : cmd.interface = some "gpio"
  action : ∃ name ∈ ["read", "write", "set_mode", "subscribe"], cmd.action = some name
  pin : cmd.pin = some p

/-- A command that uses an unavailable pin is not answered ok and leaves the state as it was. -/
def RefusesReserved (s : DeviceState) (cmd : Command) : Prop :=
  ∀ p, cmd.UsesPin p → isPinAvailable p = false →
    ∃ r, execute s cmd = .ok (r, s) ∧ r.ok = false

/-- A subscribe for an unavailable pin has a malformed trigger, or finds the pin watched in the
same way, or finds the registry full. -/
def AvoidsReserved (s : DeviceState) (cmd : Command) : Prop :=
  ∀ p, cmd.UsesPin p → isPinAvailable p = false → cmd.action = some "subscribe" →
    (∃ t, cmd.trigger = some t ∧ EdgeTrigger.parse t = none) ∨
    (∃ e ∈ s.subscriptions.toList,
      e.target.watched = .pin p ∧ e.target.onEdge = cmd.trigger.isSome) ∨
    maxSubscriptions ≤ s.subscriptions.length

/-- Every watched pin is available. -/
def PinsAvailable (s : DeviceState) : Prop :=
  ∀ e ∈ s.subscriptions.toList, ∀ p, e.target.watched = .pin p → isPinAvailable p = true

theorem execute_answers {s : DeviceState} (h : cmd.operation = .answer (.error e)) :
    execute s cmd = .ok (.failure cmd.id e, s) := by
  rw [execute_refines, h]
  rfl

theorem gpio_idle {cmd : Command} (hi : cmd.interface = some "gpio")
    (ha : cmd.action = some "read" ∨ cmd.action = some "write") :
    cmd.operation = .answer (.error .notConfigured) := by
  rcases ha with ha | ha
  · simp only [Command.operation, validateRoute, hi, ha]
    rfl
  · simp only [Command.operation, validateRoute, hi, ha]
    rfl

theorem set_mode_reserved {cmd : Command} (hi : cmd.interface = some "gpio")
    (ha : cmd.action = some "set_mode") (hp : cmd.pin = some p) (hn : isPinAvailable p = false) :
    cmd.operation = .answer (.error .invalidPin) := by
  have hmode : Gpio.handleSetMode cmd = .failure cmd.id .invalidPin := by
    simp only [Gpio.handleSetMode, Gpio.validatePin, hp, hn, Bool.not_false, ↓reduceIte]
  have hop : cmd.operation = .answer (Gpio.handleSetMode cmd).answer := by
    simp only [Command.operation, validateRoute, hi, ha]
    rfl
  rw [hop, hmode]
  rfl

/-- A subscribe for a pin has a malformed trigger, or asks to watch the pin for edges if it has a
trigger and to poll it if not. -/
theorem gpio_subscribe {cmd : Command} (hu : cmd.UsesPin p)
    (ha : cmd.action = some "subscribe") :
    (∃ t, cmd.trigger = some t ∧ EdgeTrigger.parse t = none ∧
      cmd.operation = .answer (.error .missingField)) ∨
    ∃ target, cmd.operation = .subscribe target ∧ target.watched = .pin p ∧
      target.onEdge = cmd.trigger.isSome ∧
      ∀ t, cmd.trigger = some t → EdgeTrigger.parse t ≠ none := by
  have hroute : cmd.operation = routeOperation cmd ("gpio", "subscribe") := by
    simp only [Command.operation, validateRoute, hu.interface, ha]
    rfl
  simp only [hroute, routeOperation, hu.pin]
  cases ht : cmd.trigger with
  | none => exact .inr ⟨_, rfl, rfl, rfl, fun t h => by cases h⟩
  | some t =>
    simp only
    cases he : EdgeTrigger.parse t with
    | none => exact .inl ⟨t, rfl, he, rfl⟩
    | some edge =>
      refine .inr ⟨_, rfl, rfl, rfl, fun t' ht' => ?_⟩
      cases ht'
      simp only [he, ne_eq, reduceCtorEq, not_false_eq_true]

theorem execute_subscribe {s : DeviceState} (h : cmd.operation = .subscribe target) :
    ∃ r s', execute s cmd = .ok (r, s') ∧ ∃ a, r = Answer.respond cmd.id a ∧
      Operation.Effect cmd.id s (.subscribe target) a s' := by
  have hret : ∃ r s', execute s cmd = .ok (r, s') := by
    rw [execute_returns, h]
    intro port hp
    cases hp
  obtain ⟨r, s', hs⟩ := hret
  obtain ⟨a, ha, he⟩ := execute_effect hs
  rw [h] at he
  exact ⟨r, s', hs, a, ha, he⟩

/-- A subscribe is refused exactly as a duplicate or for want of room. -/
theorem subscribe_refused_iff {s : DeviceState} (h : cmd.operation = .subscribe target) :
    (∃ r, execute s cmd = .ok (r, s) ∧ r.ok = false) ↔
      (∃ e ∈ s.subscriptions.toList, e.sameTarget target = true) ∨
        maxSubscriptions ≤ s.subscriptions.length := by
  obtain ⟨r, s', hs, a, rfl, he⟩ := execute_subscribe (s := s) h
  cases he with
  | alreadySubscribed hmem ht => exact iff_of_true ⟨_, hs, rfl⟩ (.inl ⟨_, hmem, ht⟩)
  | subscriptionLimit hn => exact iff_of_true ⟨_, hs, rfl⟩ (.inr hn)
  | subscribed hf hw =>
    apply iff_of_false
    · intro hx
      obtain ⟨r, hr, hok⟩ := hx
      rw [hs, Except.ok.injEq, Prod.mk.injEq] at hr
      rw [← hr.1] at hok
      cases hok
    · intro hx
      rcases hx with ⟨e, hmem, ht⟩ | hn
      · rw [hf e hmem] at ht
        cases ht
      · exact absurd (HVec.length_lt_of_push hw) (Nat.not_lt.2 hn)

theorem duplicate_iff {s : DeviceState} {target : SubscriptionTarget}
    (hw : target.watched = .pin p) (hk : target.onEdge = edge) :
    (∃ e ∈ s.subscriptions.toList, e.sameTarget target = true) ↔
      ∃ e ∈ s.subscriptions.toList, e.target.watched = .pin p ∧ e.target.onEdge = edge := by
  simp only [sameTarget_iff, hw, hk]

theorem refusesReserved_iff (s : DeviceState) (cmd : Command) :
    RefusesReserved s cmd ↔ AvoidsReserved s cmd := by
  constructor
  · intro h p hu hn ha
    rcases gpio_subscribe hu ha with ⟨t, ht, he, -⟩ | ⟨target, hop, hw, hk, -⟩
    · exact .inl ⟨t, ht, he⟩
    · have href := (subscribe_refused_iff hop).1 (h p hu hn)
      rw [duplicate_iff hw hk] at href
      exact .inr href
  · intro h p hu hn
    obtain ⟨name, hname, ha⟩ := hu.action
    simp only [List.mem_cons, List.not_mem_nil, or_false] at hname
    rcases hname with rfl | rfl | rfl | rfl
    · exact ⟨_, execute_answers (gpio_idle hu.interface (.inl ha)), rfl⟩
    · exact ⟨_, execute_answers (gpio_idle hu.interface (.inr ha)), rfl⟩
    · exact ⟨_, execute_answers (set_mode_reserved hu.interface ha hu.pin hn), rfl⟩
    · rcases gpio_subscribe hu ha with ⟨t, ht, he, hop⟩ | ⟨target, hop, hw, hk, hparse⟩
      · exact ⟨_, execute_answers hop, rfl⟩
      · rw [subscribe_refused_iff hop, duplicate_iff hw hk]
        rcases h p hu hn ha with ⟨t, ht, he⟩ | href
        · exact absurd he (hparse t ht)
        · exact href

/-- A command that watches a pin uses it. -/
theorem Command.Asks.usesPin {cmd : Command} {target : SubscriptionTarget}
    (h : cmd.Asks (.subscribe target))
    (hw : target.watched = .pin p) : cmd.UsesPin p := by
  cases h with
  | levelWatched hi ha hp | edgeWatched hi ha hp =>
    cases hw
    exact ⟨hi, ⟨_, by decide, ha⟩, hp⟩
  | channelWatched => cases hw

theorem pinsAvailable_step (hs : PinsAvailable s) (h : execute s cmd = .ok (r, s')) :
    PinsAvailable s' ↔ AvoidsReserved s cmd := by
  obtain ⟨a, ha, he⟩ := execute_effect h
  constructor
  · intro hav p hu hn haction
    rcases gpio_subscribe hu haction with ⟨t, ht, hparse, -⟩ | ⟨target, hop, hw, hk, -⟩
    · exact .inl ⟨t, ht, hparse⟩
    · rw [hop] at he
      cases he with
      | alreadySubscribed hmem ht => exact .inr (.inl ((duplicate_iff hw hk).1 ⟨_, hmem, ht⟩))
      | subscriptionLimit hlen => exact .inr (.inr hlen)
      | subscribed hf hpush =>
        have hnew := hav ⟨(HString.empty.pushStr cmd.id).getD .empty, target⟩
          (by simp [HVec.push_eq_some hpush]) p hw
        rw [hn] at hnew
        cases hnew
  · intro hav
    generalize hop : cmd.operation = op at he
    cases he with
    | answered | reported | written | alreadySubscribed | subscriptionLimit | notSubscribed
    | rebooting => exact hs
    | configured =>
      rename_i i setting
      cases setting <;> exact hs
    | unsubscribed => exact fun e hmem => hs e (List.mem_filter.1 hmem).1
    | subscribed hf hpush =>
      intro e hmem p hw
      simp only [HVec.push_eq_some hpush, List.mem_append, List.mem_singleton] at hmem
      rcases hmem with hmem | rfl
      · exact hs e hmem p hw
      · by_contra hn
        have hask := operation_asks cmd
        rw [hop] at hask
        obtain ⟨r', hr', hok⟩ := (refusesReserved_iff s cmd).2 hav p (hask.usesPin hw)
          (Bool.eq_false_iff.2 hn)
        rw [h, Except.ok.injEq, Prod.mk.injEq] at hr'
        rw [← hr'.1, ha] at hok
        cases hok

theorem avoidsReserved_of_error (h : execute s cmd = .error q) : AvoidsReserved s cmd := by
  rw [← refusesReserved_iff]
  intro p hu hn
  obtain ⟨-, port, hport, -⟩ := execute_eq_error.1 h
  generalize hop : cmd.operation = op at hport
  cases op with
  | write =>
    have hask := operation_asks cmd
    rw [hop] at hask
    cases hask with
    | written ha hp =>
      simp [Command.port, hu.interface] at hp
  | answer | reportConfig | configure | subscribe | unsubscribe | reboot => cases hport

/-- A command is refused an unavailable pin, and the registry of a run stays free of unavailable
pins, exactly when no subscribe for one is well-formed, new and finds room. -/
theorem reserved_pins_iff (s : DeviceState) (cmd : Command) (transportMqtt : Bool)
    (cmds : List Command) :
    (RefusesReserved s cmd ↔ AvoidsReserved s cmd) ∧
      ((∀ pre post rs s, cmds = pre ++ post → Steps execute (.default transportMqtt) pre rs s →
          PinsAvailable s) ↔
        Along execute AvoidsReserved (.default transportMqtt) cmds) := by
  refine ⟨refusesReserved_iff s cmd, ?_⟩
  apply always_iff (fun _ s => PinsAvailable s)
  · intro past s cmd r s' hs h
    exact pinsAvailable_step hs h
  · intro s cmd q h
    exact avoidsReserved_of_error h
  · intro e hmem
    cases hmem

/-- A level subscription on a reserved pin. -/
def reservedSubscribe : Command where
  version := some 1
  id := "s"
  interface := some "gpio"
  action := some "subscribe"
  pin := some 29

theorem reserved_pin_watched : ¬ RefusesReserved (.default false) reservedSubscribe ∧
    ∃ s, Steps execute (.default false) [reservedSubscribe] [.success "s" none] s ∧
      ¬ PinsAvailable s := by
  constructor
  · intro h
    obtain ⟨r, hr, hok⟩ := h 29 ⟨rfl, ⟨_, by decide, rfl⟩, rfl⟩ (by decide)
    cases hr
  · refine ⟨_, .cons rfl .nil, fun h => ?_⟩
    exact absurd (h _ List.mem_cons_self 29 rfl) (by decide)

end PicoConduit
