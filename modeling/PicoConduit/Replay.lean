import PicoConduit.Subscriptions

namespace PicoConduit
open Checked Heapless Utf8 Transducer
set_option autoImplicit true

/-- The target that a subscribe command names, at its interval or every 100 ms. -/
def Command.target (cmd : Command) : Option SubscriptionTarget :=
  match cmd.interface, cmd.action with
  | some "adc", some "subscribe" =>
    cmd.adcChannel.map fun channel => .adc channel (cmd.intervalMs.getD 100)
  | some "gpio", some "subscribe" =>
    cmd.pin.bind fun pin =>
      match cmd.trigger with
      | none => some (.gpioLevel pin (cmd.intervalMs.getD 100))
      | some t => (EdgeTrigger.parse t).map fun trigger => .gpioEdge pin trigger
  | _, _ => none

/-- What an unsubscribe command releases. -/
def Command.released (cmd : Command) : Option Watched :=
  match cmd.interface, cmd.action with
  | some "adc", some "unsubscribe" => cmd.adcChannel.map .channel
  | some "gpio", some "unsubscribe" => cmd.pin.map .pin
  | _, _ => none

/-- An accepted subscribe appends an entry, an accepted unsubscribe removes the entries of its
channel or pin. -/
def replayStep (entries : List Subscription) (x : Command × Response) : List Subscription :=
  if x.2.ok then
    match x.1.target, x.1.released with
    | some target, _ => entries ++ [⟨(HString.empty.pushStr x.1.id).getD .empty, target⟩]
    | none, some w => entries.filter fun e => e.target.watched != w
    | none, none => entries
  else entries

def replay (past : List (Command × Response)) : List Subscription := past.foldl replayStep []

/-- The registry is the replay of the accepted commands, an unsubscribe fails where the replay
has no entry for it, and a refused command leaves the device as it was. -/
structure Replayed (transportMqtt : Bool) (past : List (Command × Response)) (s : DeviceState) :
    Prop where
  entries : s.subscriptions.toList = replay past
  accepted : ∀ pre cmd r post w, past = pre ++ (cmd, r) :: post → cmd.released = some w →
    (r.ok = true ↔ ∃ e ∈ replay pre, e.target.watched = w)
  notSubscribed : ∀ pre cmd r post w, past = pre ++ (cmd, r) :: post → cmd.released = some w →
    (r.error = some .notSubscribed ↔ ∀ e ∈ replay pre, e.target.watched ≠ w)
  refused : ∀ pre cmd r post, past = pre ++ (cmd, r) :: post → r.ok = false →
    ∃ t, Steps execute (.default transportMqtt) (pre.map Prod.fst) (pre.map Prod.snd) t ∧
      execute t cmd = .ok (r, t)

theorem replay_concat : replay (past ++ [x]) = replayStep (replay past) x := by
  simp only [replay, List.foldl_append, List.foldl_cons, List.foldl_nil]

theorem target_iff {cmd : Command} :
    cmd.operation = .subscribe target ↔ cmd.target = some target := by
  constructor
  · intro h
    have hask := operation_asks cmd
    rw [h] at hask
    cases hask with
    | levelWatched hi ha hp ht =>
      simp only [Command.target, hi, ha, hp, ht, Option.bind_some]
    | edgeWatched hi ha hp ht he =>
      simp only [Command.target, hi, ha, hp, ht, he, Option.bind_some, Option.map_some]
    | channelWatched hi ha hc =>
      simp only [Command.target, hi, ha, hc, Option.map_some]
  · intro h
    simp only [Command.target] at h
    split at h
    · rename_i hi ha
      obtain ⟨channel, hc, rfl⟩ := Option.map_eq_some_iff.1 h
      simp only [Command.operation, validateRoute, hi, ha]
      simp [validRoutes, routeOperation, hc]
    · rename_i hi ha
      obtain ⟨pin, hp, ht⟩ := Option.bind_eq_some_iff.1 h
      simp only [Command.operation, validateRoute, hi, ha]
      split at ht
      · rename_i hn
        cases ht
        simp [validRoutes, routeOperation, hp, hn]
      · rename_i t hs
        obtain ⟨trigger, he, rfl⟩ := Option.map_eq_some_iff.1 ht
        simp [validRoutes, routeOperation, hp, hs, he]
    · cases h

theorem released_iff {cmd : Command} :
    cmd.operation = .unsubscribe w ↔ cmd.released = some w := by
  constructor
  · intro h
    have hask := operation_asks cmd
    rw [h] at hask
    cases hask with
    | pinReleased hi ha hp => simp only [Command.released, hi, ha, hp, Option.map_some]
    | channelReleased hi ha hc => simp only [Command.released, hi, ha, hc, Option.map_some]
  · intro h
    simp only [Command.released] at h
    split at h
    · rename_i hi ha
      obtain ⟨channel, hc, rfl⟩ := Option.map_eq_some_iff.1 h
      simp only [Command.operation, validateRoute, hi, ha]
      simp [validRoutes, routeOperation, hc]
    · rename_i hi ha
      obtain ⟨pin, hp, rfl⟩ := Option.map_eq_some_iff.1 h
      simp only [Command.operation, validateRoute, hi, ha]
      simp [validRoutes, routeOperation, hp]
    · cases h

theorem replayStep_of_ne {cmd : Command} (ht : ∀ target, cmd.operation ≠ .subscribe target)
    (hr : ∀ w, cmd.operation ≠ .unsubscribe w) : replayStep entries (cmd, r) = entries := by
  have htarget : cmd.target = none :=
    Option.eq_none_iff_forall_ne_some.2 fun target h => ht target (target_iff.2 h)
  have hreleased : cmd.released = none :=
    Option.eq_none_iff_forall_ne_some.2 fun w h => hr w (released_iff.2 h)
  simp only [replayStep, htarget, hreleased, ite_self]

theorem replayStep_failure (reqId : String) :
    replayStep entries (cmd, .failure reqId e) = entries := rfl

theorem replayStep_subscribe {cmd : Command} (h : cmd.operation = .subscribe target) :
    replayStep entries (cmd, .success reqId data) =
      entries ++ [⟨(HString.empty.pushStr cmd.id).getD .empty, target⟩] := by
  simp only [replayStep, Response.success, target_iff.1 h, ↓reduceIte]

theorem replayStep_unsubscribe {cmd : Command} (h : cmd.operation = .unsubscribe w) :
    replayStep entries (cmd, .success reqId data) =
      entries.filter fun e => e.target.watched != w := by
  have htarget : cmd.target = none := by
    apply Option.eq_none_iff_forall_ne_some.2
    intro target ht
    rw [target_iff.2 ht] at h
    cases h
  simp only [replayStep, Response.success, htarget, released_iff.1 h, ↓reduceIte]

/-- One command does to the registry what its exchange does to a plain list. -/
theorem execute_replayStep (h : execute s cmd = .ok (r, s')) :
    s'.subscriptions.toList = replayStep s.subscriptions.toList (cmd, r) := by
  obtain ⟨a, rfl, he⟩ := execute_effect h
  generalize hop : cmd.operation = op at he
  cases he with
  | answered | reported | written | rebooting =>
    exact (replayStep_of_ne (by simp [hop]) (by simp [hop])).symm
  | configured =>
    rename_i i setting
    rw [replayStep_of_ne (by simp [hop]) (by simp [hop])]
    cases setting <;> rfl
  | alreadySubscribed | subscriptionLimit | notSubscribed => exact (replayStep_failure _).symm
  | subscribed hf hw =>
    rw [Answer.respond, replayStep_subscribe hop]
    exact HVec.push_eq_some hw
  | unsubscribed hmem hw =>
    rw [Answer.respond, replayStep_unsubscribe hop]
    rfl

theorem steps_replay (h : Steps execute (.default transportMqtt) cmds rs s) :
    s.subscriptions.toList = replay (cmds.zip rs) := by
  have hnil : (DeviceState.default transportMqtt).subscriptions.toList = replay [] := rfl
  have hrel := h.history (fun past s => s.subscriptions.toList = replay past) ?_ hnil
  · rwa [List.nil_append] at hrel
  · intro past s cmd r s' hs he
    rw [replay_concat, ← hs, execute_replayStep he]

theorem steps_replay_map {pre : List (Command × Response)}
    (h : Steps execute (.default transportMqtt) (pre.map Prod.fst) (pre.map Prod.snd) s) :
    s.subscriptions.toList = replay pre := by
  rw [steps_replay h, ← List.zip_of_prod rfl rfl]

/-- An unsubscribe answers by whether there is an entry for it. -/
theorem execute_released {cmd : Command} (h : execute s cmd = .ok (r, s'))
    (hw : cmd.released = some w) :
    (r.ok = true ∧ r.error = none ∧ ∃ e ∈ s.subscriptions.toList, e.target.watched = w) ∨
      (r.ok = false ∧ r.error = some .notSubscribed ∧
        ∀ e ∈ s.subscriptions.toList, e.target.watched ≠ w) := by
  obtain ⟨a, rfl, he⟩ := execute_effect h
  rw [released_iff.2 hw] at he
  cases he with
  | unsubscribed hmem hw => exact .inl ⟨rfl, rfl, _, hmem, hw⟩
  | notSubscribed hn => exact .inr ⟨rfl, rfl, hn⟩

theorem steps_replayed (h : Steps execute (.default transportMqtt) cmds rs s) :
    Replayed transportMqtt (cmds.zip rs) s := by
  refine ⟨steps_replay h, ?_, ?_, ?_⟩
  · intro pre cmd r post w he hw
    obtain ⟨t, t', hpre, hcmd, -⟩ := h.split he
    rw [← steps_replay_map hpre]
    rcases execute_released hcmd hw with ⟨hr, -, hex⟩ | ⟨hr, -, hn⟩
    · exact iff_of_true hr hex
    · refine iff_of_false (by simp [hr]) fun hex => ?_
      obtain ⟨e, hmem, hew⟩ := hex
      exact hn e hmem hew
  · intro pre cmd r post w he hw
    obtain ⟨t, t', hpre, hcmd, -⟩ := h.split he
    rw [← steps_replay_map hpre]
    rcases execute_released hcmd hw with ⟨-, hr, e, hmem, hew⟩ | ⟨-, hr, hn⟩
    · exact iff_of_false (by simp [hr]) fun hn => hn e hmem hew
    · exact iff_of_true hr hn
  · intro pre cmd r post he hr
    obtain ⟨t, t', hpre, hcmd, -⟩ := h.split he
    obtain rfl := execute_unchanged hcmd hr
    exact ⟨_, hpre, hcmd⟩

/-- Whatever the calls, with or without batches, the registry is the replay of the commands that
they have executed. -/
theorem registry_replayed (transportMqtt : Bool) (calls : List Call) (us : List Reply)
    (s : DeviceState) (h : Steps callStep (.default transportMqtt) calls us s) :
    Replayed transportMqtt (exchanges calls us) s :=
  steps_replayed (callStep_exchanges h)

def channelSubscribe : Command where
  version := some 1
  id := "a"
  interface := some "adc"
  action := some "subscribe"
  adcChannel := some .ch0

def pinReleases : Command where
  version := some 1
  id := "b"
  interface := some "batch"
  action := some "run"
  commands := some ⟨[
    { id := "p", interface := some "gpio", action := some "subscribe", pin := some 5 },
    { id := "q", interface := some "gpio", action := some "unsubscribe", pin := some 5 }],
    by decide⟩

theorem channel_outlives_pin : ∃ us s,
    Steps callStep (.default false)
        [⟨channelSubscribe, .dispatch⟩, ⟨pinReleases, .dispatchBatch⟩] us s ∧
      s.subscriptions.toList.map (·.target) = [.adc .ch0 100] ∧
      Replayed false
        (exchanges [⟨channelSubscribe, .dispatch⟩, ⟨pinReleases, .dispatchBatch⟩] us) s := by
  have h : Steps callStep (.default false)
      [⟨channelSubscribe, .dispatch⟩, ⟨pinReleases, .dispatchBatch⟩] _ _ :=
    .cons rfl (.cons rfl .nil)
  exact ⟨_, _, h, rfl, registry_replayed _ _ _ _ h⟩

end PicoConduit
