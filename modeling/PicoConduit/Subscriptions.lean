import PicoConduit.Session
import Mathlib.Data.List.Nodup

namespace PicoConduit
open Checked Heapless Utf8 Transducer
set_option autoImplicit true

/-- Whether a target is watched for edges rather than polled. -/
def SubscriptionTarget.onEdge : SubscriptionTarget → Bool
  | .gpioEdge _ _ => true
  | _ => false

/-- The source's notion of a duplicate tells level and edge subscriptions apart. -/
theorem sameTarget_iff (e : Subscription) (target : SubscriptionTarget) :
    e.sameTarget target = true ↔
      e.target.watched = target.watched ∧ e.target.onEdge = target.onEdge := by
  simp only [Subscription.sameTarget]
  cases e.target <;> cases target <;>
    simp [SubscriptionTarget.watched, SubscriptionTarget.onEdge]

/-- What the registry currently watches, in the order of its entries. -/
def DeviceState.watched (s : DeviceState) : List Watched :=
  s.subscriptions.toList.map fun e => e.target.watched

structure RegistryUnique (s : DeviceState) : Prop where
  size : s.subscriptions.length ≤ maxSubscriptions
  single : s.watched.Nodup

/-- A subscribe for what is already watched is refused, and the registry stays as it is. -/
def RefusesWatched (s : DeviceState) (cmd : Command) : Prop :=
  ∀ target, cmd.operation = .subscribe target → target.watched ∈ s.watched →
    ∃ s', execute s cmd = .ok (.failure cmd.id .alreadySubscribed, s') ∧
      s'.subscriptions = s.subscriptions

/-- One command executed in a state, as the registry's contract has it. -/
structure RegistrySound (s : DeviceState) (cmd : Command) : Prop where
  before : RegistryUnique s
  after : ∀ r s', execute s cmd = .ok (r, s') → RegistryUnique s'
  refused : RefusesWatched s cmd

/-- A subscribe finds its pin or channel unwatched, or watched in the way it asks for. -/
def SameKind (s : DeviceState) (cmd : Command) : Prop :=
  ∀ target, cmd.operation = .subscribe target → ∀ e ∈ s.subscriptions.toList,
    e.target.watched = target.watched → e.target.onEdge = target.onEdge

theorem registryUnique_iff : RegistryUnique s ↔ s.watched.Nodup :=
  ⟨fun h => h.single, fun h => ⟨s.subscriptions.bounded, h⟩⟩

theorem entry_unique {s : DeviceState} {e e' : Subscription} (h : s.watched.Nodup)
    (he : e ∈ s.subscriptions.toList) (he' : e' ∈ s.subscriptions.toList)
    (hw : e.target.watched = e'.target.watched) : e = e' :=
  List.inj_on_of_nodup_map h he he' hw

/-- An operation adds no duplicate, if a target that is a new one to the source is new. -/
theorem Operation.Effect.nodup (h : Operation.Effect reqId s op a s') (hs : s.watched.Nodup)
    (hfresh : ∀ target, op = .subscribe target →
      (∀ e ∈ s.subscriptions.toList, e.sameTarget target = false) →
      target.watched ∉ s.watched) : s'.watched.Nodup := by
  cases h with
  | answered | reported | written | alreadySubscribed | subscriptionLimit | notSubscribed
  | rebooting => exact hs
  | configured =>
    rename_i i setting
    cases setting <;> exact hs
  | subscribed hf hw =>
    have hn := hfresh _ rfl hf
    simp only [DeviceState.watched, HVec.push_eq_some hw, List.map_append, List.map_singleton]
    exact List.nodup_append_comm.1 (List.nodup_cons.2 ⟨hn, hs⟩)
  | unsubscribed => exact hs.sublist (List.filter_sublist.map _)

theorem mem_watched : w ∈ DeviceState.watched s ↔
    ∃ e ∈ s.subscriptions.toList, e.target.watched = w := List.mem_map

theorem execute_duplicate {s : DeviceState} (h : cmd.operation = .subscribe target)
    (he : e ∈ s.subscriptions.toList) (ht : e.sameTarget target = true) :
    execute s cmd = .ok (.failure cmd.id .alreadySubscribed, s) := by
  have hany : s.subscriptions.toList.any (fun e => e.sameTarget target) = true :=
    List.any_eq_true.2 ⟨e, he, ht⟩
  rw [execute_refines, h]
  simp only [Operation.execute, Operation.apply, hany, ↓reduceIte, ok_bind, pure_eq,
    Answer.respond]

/-- In a registry without duplicates, one command keeps the contract exactly when it does not
subscribe to a pin in another way than the pin's entry does. -/
theorem registrySound_iff (hs : s.watched.Nodup) : RegistrySound s cmd ↔ SameKind s cmd := by
  constructor
  · intro h target hop e he hw
    obtain ⟨s', hex, -⟩ := h.refused target hop (mem_watched.2 ⟨e, he, hw⟩)
    obtain ⟨a, ha, heff⟩ := execute_effect hex
    rw [hop] at heff
    cases heff with
    | subscribed | subscriptionLimit => cases ha
    | alreadySubscribed he' ht =>
      obtain ⟨hw', hk⟩ := (sameTarget_iff _ _).1 ht
      obtain rfl := entry_unique hs he he' (hw.trans hw'.symm)
      exact hk
  · intro h
    refine ⟨registryUnique_iff.2 hs, fun r s' hex => registryUnique_iff.2 ?_, ?_⟩
    · obtain ⟨a, -, heff⟩ := execute_effect hex
      apply heff.nodup hs
      intro target hop hf hmem
      obtain ⟨e, he, hw⟩ := mem_watched.1 hmem
      have hsame := (sameTarget_iff _ _).2 ⟨hw, h target hop e he hw⟩
      rw [hf e he] at hsame
      cases hsame
    · intro target hop hmem
      obtain ⟨e, he, hw⟩ := mem_watched.1 hmem
      exact ⟨s, execute_duplicate hop he ((sameTarget_iff _ _).2 ⟨hw, h target hop e he hw⟩), rfl⟩

/-- The registry keeps its contract over a run of calls: at every command that they execute,
and in every state that they reach. -/
def RegistryContract (transportMqtt : Bool) (calls : List Call) : Prop :=
  Along execute RegistrySound (.default transportMqtt) (calls.flatMap Call.commands) ∧
    ∀ pre post us s, calls = pre ++ post → Steps callStep (.default transportMqtt) pre us s →
      RegistryUnique s

theorem registry_contract_iff (transportMqtt : Bool) (calls : List Call) :
    RegistryContract transportMqtt calls ↔
      Along execute SameKind (.default transportMqtt) (calls.flatMap Call.commands) := by
  have hdefault : (DeviceState.default transportMqtt).watched.Nodup := List.nodup_nil
  have hstep : ∀ s cmd r s', s.watched.Nodup → SameKind s cmd →
      execute s cmd = .ok (r, s') → s'.watched.Nodup := fun s cmd r s' hs hk hex =>
    (((registrySound_iff hs).2 hk).after r s' hex).single
  have hiff {cmds} : Along execute RegistrySound (.default transportMqtt) cmds ↔
      Along execute SameKind (.default transportMqtt) cmds :=
    along_congr (fun s cmd hs => registrySound_iff hs) hstep hdefault
  refine ⟨fun h => hiff.1 h.1, fun h => ⟨hiff.2 h, ?_⟩⟩
  rintro pre post us s rfl hr
  obtain ⟨rs, hs⟩ := callStep_runs.steps_iff.1 ⟨us, hr⟩
  rw [List.flatMap_append] at h
  exact registryUnique_iff.2 (hs.invariant h.take hstep hdefault)

def levelSubscribe : Command where
  version := some 1
  id := "l"
  interface := some "gpio"
  action := some "subscribe"
  pin := some 5

def edgeSubscribe : Command where
  version := some 1
  id := "e"
  interface := some "gpio"
  action := some "subscribe"
  pin := some 5
  trigger := some "edge_rising"

theorem pin_watched_twice :
    ¬ RegistryContract false [⟨levelSubscribe, .dispatch⟩, ⟨edgeSubscribe, .dispatch⟩] := by
  intro h
  obtain ⟨⟨-, hnext⟩, -⟩ := h
  obtain ⟨hedge, -⟩ := hnext _ _ rfl
  exact absurd (hedge.after _ _ rfl).single (by decide)

end PicoConduit
