import PicoConduit.Handlers
import Mathlib.Tactic.FinCases

namespace PicoConduit
open Checked Heapless Utf8
set_option autoImplicit true

variable {id : String} {cmd : Command} {α β κ : Type}

theorem indexOf_val (h : idx.toNat < 2) : (indexOf idx : Nat) = idx.toNat := Nat.mod_eq_of_lt h

theorem setArray_indexOf (h : idx.toNat < 2) (v : Vector κ 2) (x : κ) :
    setArray v idx.toNat x = .ok (v.set (indexOf idx) x) :=
  (congrArg (setArray v · x) (indexOf_val h)).symm.trans (setArray_fin v (indexOf idx) x)

theorem getArray_indexOf (h : idx.toNat < 2) (v : Vector κ 2) :
    getArray v idx.toNat = .ok v[indexOf idx] :=
  (congrArg (getArray v) (indexOf_val h)).symm.trans (getArray_fin v (indexOf idx))

/-- The operation's answer as the response to a command. -/
def Operation.execute (id : String) (s : DeviceState) (op : Operation) :
    Exec (Response × DeviceState) := do
  let (a, s') ← op.apply id s
  pure (a.respond id, s')

theorem Operation.execute_answer (h : r.answer.respond id = r) :
    Operation.execute id s (.answer r.answer) = .ok (r, s) := by
  simp only [Operation.execute, Operation.apply, ok_bind, h, pure_eq]

theorem configure_refines {handled : Except Response κ} {arr : Vector κ 2} {flag : κ → Bool}
    (hr : Handles cmd.id (fun cfg => Accepts cmd field (setting cfg) (flag cfg)) handled)
    (hput : ∀ idx cfg, flag cfg = true →
      put (arr.set (indexOf idx) cfg) = s.store (indexOf idx) (setting cfg)) :
    configure cmd handled field arr s put =
      (configureOperation handled field setting).execute cmd.id s := by
  cases handled with
  | error r => exact (Operation.execute_answer (hr.answer rfl)).symm
  | ok cfg =>
    simp only [configure, configureOperation, Operation.execute, Operation.apply,
      setArray_indexOf hr.index_lt, ok_bind, pure_eq, hput _ _ hr.marked, Answer.respond]

theorem peripheralWrite_refines {arr : Vector κ 2}
    (hport : ∀ idx, (do let r ← handler (configured arr[indexOf idx]); pure (r, s)) =
      (Operation.write (port (indexOf idx)) checks payload).execute cmd.id s) :
    peripheralWrite (validateIndex cmd field 1) arr configured handler s =
      (writeOperation (validateIndex cmd field 1) port checks payload).execute cmd.id s := by
  have hv := validateIndex_handles cmd field 1
  cases h : validateIndex cmd field 1 with
  | error r => exact (Operation.execute_answer (hv.answer h)).symm
  | ok idx =>
    rw [h] at hv
    simp only [peripheralWrite, writeOperation, getArray_indexOf (toNat_lt_two hv.2), ok_bind]
    exact hport idx

/-- The decoding buffer is overrun by the overlong payloads and by no others. -/
theorem decode_payload_error :
    decode (asBytes encoded) (List.replicate maxPayloadLen 0) = .error p ↔
      p = .index ∧ Overlong (some encoded) := by
  rw [decode_eq, decodeChunks_error 170 (by rw [List.length_replicate])]
  simp only [Overlong, Option.mem_some_iff, exists_eq_left']

theorem not_overlong_empty : ¬ Overlong (some "") := by
  decide

theorem decodeBytes_overlong (h : Overlong payload) :
    decodeBytes cmd payload = .error .index := by
  match payload with
  | none => simp [Overlong] at h
  | some encoded =>
    have hne : encoded ≠ "" := by
      rintro rfl
      exact not_overlong_empty h
    have hd := decode_payload_error.2 ⟨rfl, h⟩
    simp only [decodeBytes, hne, ↓reduceIte, hd, error_bind]

/-- A payload that does not overrun the buffer is decoded, or refused for what it is. -/
theorem decodeBytes_answer (cmd : Command) (h : ¬ Overlong payload) :
    ∃ r, decodeBytes cmd payload = .ok r ∧ (match r with
      | .error r => r
      | .ok _ => .success cmd.id none) = (payloadAnswer payload).respond cmd.id := by
  match payload with
  | none => exact ⟨_, rfl, rfl⟩
  | some encoded =>
    by_cases he : encoded = ""
    · subst he
      exact ⟨_, rfl, rfl⟩
    · simp only [decodeBytes, payloadAnswer, he, ↓reduceIte]
      cases hd : decode (asBytes encoded) (List.replicate maxPayloadLen 0) with
      | error p =>
        exact absurd (decode_payload_error.1 hd).2 h
      | ok r =>
        obtain ⟨n, buf⟩ := r
        cases n with
        | error => exact ⟨_, rfl, rfl⟩
        | ok n =>
          rw [decode_eq] at hd
          obtain ⟨hlen, hn⟩ := decodeChunks_count hd (Nat.zero_le _)
          have hle := (hn n rfl).1
          rw [List.length_replicate] at hlen hle
          have hfit : (buf.take n).length ≤ maxPayloadLen := by
            rw [List.length_take]
            omega
          obtain ⟨v, hv, -⟩ := HVec.extend_empty hfit
          refine ⟨.ok v, ?_, rfl⟩
          simp only [ok_bind, slice_zero (show n ≤ buf.length by omega), hv, pure_eq]

theorem writePayload_refines (p : Port) (checks : Except ErrorCode Unit)
    (hs : s.configured p = configured) :
    (do let r ← writePayload cmd configured (checks.mapError (Response.failure cmd.id))
        pure (r, s)) = (Operation.write p checks cmd.bytes).execute cmd.id s := by
  simp only [Operation.execute, Operation.apply, hs]
  cases configured with
  | false => rfl
  | true =>
    cases checks with
    | error e => rfl
    | ok u =>
      by_cases ho : Overlong cmd.bytes
      · simp only [writePayload, checkConfigured, ↓reduceIte, Except.mapError,
          decodeBytes_overlong ho, ho, error_bind]
      · obtain ⟨r, hr, ha⟩ := decodeBytes_answer cmd ho
        simp only [writePayload, checkConfigured, ↓reduceIte, Except.mapError, hr, ho, ok_bind,
          pure_eq, ← ha]
        cases r <;> rfl

theorem handleSubscribe_refines :
    pure (handleSubscribe id target s) = (Operation.subscribe target).execute id s := by
  simp only [handleSubscribe, Operation.execute, Operation.apply]
  split
  · rfl
  · split
    · rename_i h
      rw [HVec.push_of_le h]
      rfl
    · rename_i h
      obtain ⟨w, hw, -⟩ := HVec.push_of_lt (Nat.lt_of_not_ge h)
        (⟨(HString.empty.pushStr id).getD .empty, target⟩ : Subscription)
      rw [hw]
      rfl

/-- Removing the entries for what is watched, as the source does it: it removes first and
then asks whether the length has changed. -/
theorem unsubscribe_refines (hk : ∀ e : Subscription, keep e = (e.target.watched != w)) :
    pure (if (s.subscriptions.retain keep).length = s.subscriptions.length then
        (Response.failure id .notSubscribed,
          { s with subscriptions := s.subscriptions.retain keep })
      else (Response.success id none,
        { s with subscriptions := s.subscriptions.retain keep })) =
      (Operation.unsubscribe w).execute id s := by
  obtain rfl : keep = fun e => e.target.watched != w := funext hk
  simp only [Operation.execute, Operation.apply]
  by_cases h : ∃ e ∈ s.subscriptions.toList, e.target.watched = w
  · have hl : (s.subscriptions.retain fun e => e.target.watched != w).length ≠
        s.subscriptions.length := by
      rw [ne_eq, HVec.retain_length]
      obtain ⟨e, he, rfl⟩ := h
      intro hall
      have hc := hall e he
      simp at hc
    simp only [h, hl, ↓reduceIte]
    rfl
  · have hkeep : ∀ e ∈ s.subscriptions.toList, (e.target.watched != w) = true := by
      intro e he
      simp only [bne_iff_ne]
      exact fun hw => h ⟨e, he, hw⟩
    simp only [h, HVec.retain_eq_self hkeep, ↓reduceIte]
    rfl

theorem handleUnsubscribeAdc_refines :
    pure (handleUnsubscribeAdc id channel s) =
      (Operation.unsubscribe (.channel channel)).execute id s := by
  apply unsubscribe_refines
  intro e
  rw [Bool.eq_iff_iff]
  cases e.target <;> simp [SubscriptionTarget.watched]

theorem handleUnsubscribeGpio_refines :
    pure (handleUnsubscribeGpio id pin s) =
      (Operation.unsubscribe (.pin pin)).execute id s := by
  apply unsubscribe_refines
  intro e
  rw [Bool.eq_iff_iff]
  cases e.target <;> simp [SubscriptionTarget.watched]

theorem Gpio.handleSetMode_answer :
    (Gpio.handleSetMode cmd).answer.respond cmd.id = Gpio.handleSetMode cmd := by
  simp only [Gpio.handleSetMode, Gpio.validatePin]
  split
  · rename_i r h
    split at h
    · cases h
      rfl
    · split at h <;> cases h
      rfl
  · split
    · rfl
    · split
      · split
        · rfl
        · split <;> rfl
      · rfl

theorem Pwm.onChannel_answer (h : r.answer.respond cmd.id = r) :
    (Pwm.onChannel cmd r).answer.respond cmd.id = Pwm.onChannel cmd r := by
  simp only [Pwm.onChannel]
  cases hv : Pwm.validateChannel cmd with
  | error r' => exact (validateIndex_handles ..).answer hv
  | ok i => exact h

theorem Pwm.handleSetDuty_answer :
    (Pwm.handleSetDuty cmd).answer.respond cmd.id = Pwm.handleSetDuty cmd := by
  apply Pwm.onChannel_answer
  split <;> rfl

theorem Pwm.handleSetFreq_answer :
    (Pwm.handleSetFreq cmd).answer.respond cmd.id = Pwm.handleSetFreq cmd := by
  apply Pwm.onChannel_answer
  split
  · rfl
  · split <;> rfl

/-- A dispatched command does what its operation says. -/
def Refines (cmd : Command) (route : String × String) : Prop :=
  ∀ s, dispatch cmd route s = (routeOperation cmd route).execute cmd.id s

theorem gpio_refines (h : action ∈ ["read", "write", "set_mode", "subscribe", "unsubscribe"]) :
    Refines cmd ("gpio", action) := by
  intro s
  fin_cases h
  · rfl
  · rfl
  · simp only [dispatch, routeOperation]
    exact (Operation.execute_answer Gpio.handleSetMode_answer).symm
  · simp only [dispatch, routeOperation]
    cases cmd.pin with
    | none => rfl
    | some pin =>
      cases cmd.trigger with
      | none => exact handleSubscribe_refines
      | some t =>
        simp only
        cases EdgeTrigger.parse t with
        | none => rfl
        | some trigger => exact handleSubscribe_refines
  · simp only [dispatch, routeOperation]
    cases cmd.pin with
    | none => rfl
    | some pin => exact handleUnsubscribeGpio_refines

theorem uart_refines (h : action ∈ ["read", "write", "configure"]) :
    Refines cmd ("uart", action) := by
  intro s
  fin_cases h
  · rfl
  · simp only [dispatch, routeOperation]
    exact peripheralWrite_refines fun idx => writePayload_refines (.uart (indexOf idx)) (.ok ()) rfl
  · simp only [dispatch, routeOperation]
    apply configure_refines Uart.handleConfigure_handles
    intro idx cfg hc
    simp only [DeviceState.store, ← hc]

theorem spi_refines (h : action ∈ ["transfer", "write", "configure"]) :
    Refines cmd ("spi", action) := by
  intro s
  fin_cases h
  · rfl
  · simp only [dispatch, routeOperation]
    exact peripheralWrite_refines fun idx => writePayload_refines (.spi (indexOf idx)) (.ok ()) rfl
  · simp only [dispatch, routeOperation]
    apply configure_refines Spi.handleConfigure_handles
    intro idx cfg hc
    simp only [DeviceState.store, ← hc]

theorem I2c.validateAddr_map : (I2c.validateAddr cmd).map (fun _ => ()) =
    (if cmd.addr.isSome then .ok () else .error .missingField : Except ErrorCode Unit).mapError
      (Response.failure cmd.id) := by
  simp only [I2c.validateAddr]
  cases cmd.addr <;> rfl

theorem i2c_refines (h : action ∈ ["read", "write", "write_read", "configure"]) :
    Refines cmd ("i2c", action) := by
  intro s
  fin_cases h
  · rfl
  · simp only [dispatch, routeOperation]
    apply peripheralWrite_refines
    intro idx
    simp only [I2c.handleWrite, I2c.validateAddr_map]
    exact writePayload_refines (.i2c (indexOf idx)) _ rfl
  · rfl
  · simp only [dispatch, routeOperation]
    apply configure_refines I2c.handleConfigure_handles
    intro idx cfg hc
    simp only [DeviceState.store, ← hc]

theorem pwm_refines (h : action ∈ ["set_duty", "set_freq", "enable", "disable"]) :
    Refines cmd ("pwm", action) := by
  intro s
  fin_cases h
  · exact (Operation.execute_answer Pwm.handleSetDuty_answer).symm
  · exact (Operation.execute_answer Pwm.handleSetFreq_answer).symm
  · exact (Operation.execute_answer (Pwm.onChannel_answer rfl)).symm
  · exact (Operation.execute_answer (Pwm.onChannel_answer rfl)).symm

theorem adc_refines (h : action ∈ ["read", "subscribe", "unsubscribe"]) :
    Refines cmd ("adc", action) := by
  intro s
  fin_cases h
  · simp only [dispatch, routeOperation, Adc.validateRead]
    cases cmd.adcChannel <;> rfl
  · simp only [dispatch, routeOperation]
    cases cmd.adcChannel with
    | none => rfl
    | some channel => exact handleSubscribe_refines
  · simp only [dispatch, routeOperation]
    cases cmd.adcChannel with
    | none => rfl
    | some channel => exact handleUnsubscribeAdc_refines

theorem usb_refines (h : action ∈ ["read", "write"]) : Refines cmd ("usb", action) := by
  intro s
  fin_cases h
  · rfl
  · exact writePayload_refines .usb (.ok ()) rfl

theorem dispatch_refines (h : interface ∈ validRoutes) (ha : action ∈ interface.2) :
    Refines cmd (interface.1, action) := by
  fin_cases h
  · exact gpio_refines ha
  · exact uart_refines ha
  · exact spi_refines ha
  · exact i2c_refines ha
  · exact pwm_refines ha
  · exact adc_refines ha
  · exact usb_refines ha
  · fin_cases ha
    exact fun s => rfl
  · fin_cases ha <;> exact fun s => rfl
  · fin_cases ha
    exact fun s => rfl

theorem validateRoute_handles (cmd : Command) :
    Handles cmd.id (fun route => cmd.interface = some route.1 ∧ cmd.action = some route.2 ∧
      ∃ actions, (route.1, actions) ∈ validRoutes ∧ route.2 ∈ actions) (validateRoute cmd) := by
  simp only [validateRoute]
  split
  · exact .failure rfl
  · split
    · exact .failure rfl
    · split
      · exact .failure rfl
      · split
        · exact .failure rfl
        · rename_i i hi x a ha y z actions hf hc
          simp only [Bool.not_eq_true', Bool.not_eq_false, List.contains_iff_mem] at hc
          have hname := List.find?_some hf
          simp only [beq_iff_eq] at hname
          subst hname
          exact ⟨hi, ha, actions, List.mem_of_find?_eq_some hf, hc⟩

/-- The router and its handlers refine the operations: no route is left over for the
unreachable arm, and the responses and states are those of the operation. -/
theorem execute_refines (s : DeviceState) (cmd : Command) :
    execute s cmd = cmd.operation.execute cmd.id s := by
  have hroute := validateRoute_handles cmd
  simp only [execute, Command.operation]
  cases hv : validateRoute cmd with
  | error r => exact (Operation.execute_answer (hroute.answer hv)).symm
  | ok route =>
    rw [hv] at hroute
    obtain ⟨-, -, actions, hi, ha⟩ := hroute
    exact dispatch_refines hi ha s

end PicoConduit
