import PicoConduit.Subscriptions

namespace PicoConduit
open Checked Heapless Utf8 Transducer
set_option autoImplicit true

/-- The registry as the accepted requests build it: each entry with the id of the request that
created it. -/
abbrev Ledger := List (String × SubscriptionTarget)

def Ledger.record (entries : Ledger) (x : Command × Response) : Ledger :=
  if x.2.ok then
    match x.1.operation with
    | .subscribe target => entries ++ [(x.1.id, target)]
    | .unsubscribe w => entries.filter fun entry => entry.2.watched != w
    | _ => entries
  else entries

def ledger (past : List (Command × Response)) : Ledger := past.foldl Ledger.record []

/-- The entries of the registry with their stored ids. -/
def DeviceState.entries (s : DeviceState) : Ledger :=
  s.subscriptions.toList.map fun e => (e.id.toString, e.target)

/-- Each entry is stored under the id of the request that created it, so that entries created
under different ids are stored under different ids. -/
structure Remembers (past : List (Command × Response)) (s : DeviceState) : Prop where
  created : s.entries = ledger past
  distinct : ∀ (i j : Nat) (e e' : Subscription) (row row' : String × SubscriptionTarget),
    s.subscriptions.toList[i]? = some e → s.subscriptions.toList[j]? = some e' →
    (ledger past)[i]? = some row → (ledger past)[j]? = some row' → row.1 ≠ row'.1 → e.id ≠ e'.id

/-- A subscribe that is new and finds room has an id that a subscription can hold. -/
def ShortId (s : DeviceState) (cmd : Command) : Prop :=
  ∀ target, cmd.operation = .subscribe target →
    (∀ e ∈ s.subscriptions.toList, e.sameTarget target = false) →
    s.subscriptions.length < maxSubscriptions → cmd.id.utf8ByteSize ≤ 32

theorem ledger_concat : ledger (past ++ [x]) = (ledger past).record x := by
  simp only [ledger, List.foldl_append, List.foldl_cons, List.foldl_nil]

theorem remembers_iff : Remembers past s ↔ s.entries = ledger past := by
  refine ⟨Remembers.created, fun h => ⟨h, ?_⟩⟩
  intro i j e e' row row' he he' hrow hrow' hne heq
  rw [← h, DeviceState.entries, List.getElem?_map] at hrow hrow'
  rw [he] at hrow
  rw [he'] at hrow'
  cases hrow
  cases hrow'
  exact hne (congrArg HString.toString heq)

theorem entries_filter (s : DeviceState) (w : Watched) :
    (s.subscriptions.toList.filter fun e => e.target.watched != w).map
        (fun e => (e.id.toString, e.target)) =
      s.entries.filter fun entry => entry.2.watched != w := by
  rw [DeviceState.entries, List.filter_map]
  rfl

theorem record_of_ne {cmd : Command} (hs : ∀ target, cmd.operation ≠ .subscribe target)
    (hu : ∀ w, cmd.operation ≠ .unsubscribe w) : Ledger.record entries (cmd, r) = entries := by
  simp only [Ledger.record]
  split <;> rfl

theorem record_subscribe {cmd : Command} (h : cmd.operation = .subscribe target) :
    Ledger.record entries (cmd, .success reqId data) = entries ++ [(cmd.id, target)] := by
  simp only [Ledger.record, Response.success, h, ↓reduceIte]

theorem record_unsubscribe {cmd : Command} (h : cmd.operation = .unsubscribe w) :
    Ledger.record entries (cmd, .success reqId data) =
      entries.filter fun entry => entry.2.watched != w := by
  simp only [Ledger.record, Response.success, h, ↓reduceIte]

/-- The command is a subscribe for something that is not watched that way yet, and finds room. -/
structure Subscribes (s : DeviceState) (cmd : Command) (target : SubscriptionTarget) : Prop where
  operation : cmd.operation = .subscribe target
  fresh : ∀ e ∈ s.subscriptions.toList, e.sameTarget target = false
  room : s.subscriptions.length < maxSubscriptions

theorem not_subscribes_of_ne {cmd : Command} (h : ∀ target, cmd.operation ≠ .subscribe target)
    (target : SubscriptionTarget) : ¬ Subscribes s cmd target := fun hs => h target hs.operation

/-- One command changes the registry as the ledger records it, except that a new entry has the
stored id for the request's own. -/
theorem entries_step (h : execute s cmd = .ok (r, s')) :
    (∃ target, Subscribes s cmd target ∧
      s'.entries = s.entries ++ [(((HString.empty.pushStr cmd.id).getD .empty :
        HString 32).toString, target)] ∧
      ∀ entries : Ledger, entries.record (cmd, r) = entries ++ [(cmd.id, target)]) ∨
    (∀ target, ¬ Subscribes s cmd target) ∧ s'.entries = s.entries.record (cmd, r) := by
  obtain ⟨a, rfl, he⟩ := execute_effect h
  generalize hop : cmd.operation = op at he
  cases he with
  | answered | reported | written | rebooting =>
    refine .inr ⟨not_subscribes_of_ne (by simp [hop]), ?_⟩
    exact (record_of_ne (by simp [hop]) (by simp [hop])).symm
  | configured =>
    rename_i i setting
    refine .inr ⟨not_subscribes_of_ne (by simp [hop]), ?_⟩
    rw [record_of_ne (by simp [hop]) (by simp [hop])]
    cases setting <;> rfl
  | alreadySubscribed hmem hsame =>
    refine .inr ⟨fun target hs => ?_, rfl⟩
    have hfresh := hs.fresh _ hmem
    cases hop.symm.trans hs.operation
    rw [hsame] at hfresh
    cases hfresh
  | subscriptionLimit hn => exact .inr ⟨fun target hs => absurd hs.room (Nat.not_lt.2 hn), rfl⟩
  | subscribed hf hw =>
    refine .inl ⟨_, ⟨hop, hf, HVec.length_lt_of_push hw⟩, ?_, fun entries => record_subscribe hop⟩
    simp only [DeviceState.entries, HVec.push_eq_some hw, List.map_append, List.map_singleton]
  | notSubscribed hn => exact .inr ⟨not_subscribes_of_ne (by simp [hop]), rfl⟩
  | unsubscribed hmem hw =>
    refine .inr ⟨not_subscribes_of_ne (by simp [hop]), ?_⟩
    rw [Answer.respond, record_unsubscribe hop]
    exact entries_filter s _

theorem shortId_iff (h : Subscribes s cmd target) : ShortId s cmd ↔ cmd.id.utf8ByteSize ≤ 32 :=
  ⟨fun hshort => hshort target h.operation h.fresh h.room, fun hid _ _ _ _ => hid⟩

theorem shortId_of_not (h : ∀ target, ¬ Subscribes s cmd target) : ShortId s cmd :=
  fun target hop hf hl => absurd ⟨hop, hf, hl⟩ (h target)

/-- One command keeps the stored ids right exactly when it stores no id that does not fit. -/
theorem remembers_step (hs : Remembers past s) (h : execute s cmd = .ok (r, s')) :
    Remembers (past ++ [(cmd, r)]) s' ↔ ShortId s cmd := by
  rw [remembers_iff] at hs ⊢
  rw [ledger_concat, ← hs]
  rcases entries_step h with ⟨target, hsub, hent, hrec⟩ | ⟨hnot, hent⟩
  · rw [hent, hrec, shortId_iff hsub, ← HString.getD_pushStr_iff]
    simp only [List.append_cancel_left_eq, List.cons.injEq, Prod.mk.injEq, and_true]
  · exact iff_of_true hent (shortId_of_not hnot)

theorem shortId_of_error (h : execute s cmd = .error q) : ShortId s cmd := by
  obtain ⟨-, port, hport, -⟩ := execute_eq_error.1 h
  apply shortId_of_not
  intro target hs
  rw [hs.operation] at hport
  cases hport

/-- Every entry of the registry is stored under the id of the request that created it, in every
state of a run, exactly when no new subscribe that finds room has an id of more than 32 bytes. -/
theorem subscription_ids_iff (transportMqtt : Bool) (cmds : List Command) :
    (∀ pre post rs s, cmds = pre ++ post → Steps execute (.default transportMqtt) pre rs s →
      Remembers (pre.zip rs) s) ↔ Along execute ShortId (.default transportMqtt) cmds := by
  apply always_iff Remembers
  · intro past s cmd r s' hs h
    exact remembers_step hs h
  · intro s cmd q h
    exact shortId_of_error h
  · exact remembers_iff.2 rfl

def longIdSubscribe (c : Char) : Command where
  version := some 1
  id := String.ofList (List.replicate 33 c)
  interface := some "adc"
  action := some "subscribe"
  adcChannel := some (if c = 'a' then .ch0 else .ch1)

theorem long_ids_forgotten : ∃ rs s,
    Steps execute (.default false) [longIdSubscribe 'a', longIdSubscribe 'b'] rs s ∧
      ¬ Remembers ([longIdSubscribe 'a', longIdSubscribe 'b'].zip rs) s := by
  refine ⟨_, _, .cons rfl (.cons rfl .nil), fun h => ?_⟩
  exact absurd (h.distinct 0 1 _ _ _ _ rfl rfl rfl rfl (by decide)) (by decide)

end PicoConduit
