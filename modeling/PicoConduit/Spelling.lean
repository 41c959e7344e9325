import PicoConduit.Inversion
import PicoConduit.JsonString

namespace PicoConduit
open Checked Heapless Utf8 JsonString
set_option autoImplicit true

/-- An optional string with the same value, however it is spelt. -/
def SameField (a b : Option String) : Prop := Option.Rel SameText a b

/-- A command without its strings. -/
def Command.erased (cmd : Command) : Command :=
  { cmd with
    id := "", interface := none, action := none, mode := none, pull := none, bytes := none,
    parity := none, writeBytes := none, trigger := none, commands := none }

/-- Commands whose own fields have the same values and differ only in how strings are spelt. -/
structure SameFields (c d : Command) : Prop where
  id : SameText c.id d.id
  interface : SameField c.interface d.interface
  action : SameField c.action d.action
  mode : SameField c.mode d.mode
  pull : SameField c.pull d.pull
  bytes : SameField c.bytes d.bytes
  parity : SameField c.parity d.parity
  writeBytes : SameField c.writeBytes d.writeBytes
  trigger : SameField c.trigger d.trigger
  rest : c.erased = d.erased

/-- Commands that denote the same JSON object, inner commands included. -/
structure SameValues (c d : Command) : Prop extends SameFields c d where
  commands : Option.Rel (fun v w => List.Forall₂ (fun a b => SameFields a.toCommand b.toCommand)
    v.toList w.toList) c.commands d.commands

theorem SameField.cases (h : SameField a b) :
    (a = none ∧ b = none) ∨ ∃ s t, a = some s ∧ b = some t ∧ SameText s t := by
  cases h with
  | none => exact .inl ⟨rfl, rfl⟩
  | some h => exact .inr ⟨_, _, rfl, rfl, h⟩

theorem SameField.eq_of_unescaped (h : SameField a b) (ha : ∀ s ∈ a, Unescaped s)
    (hb : ∀ s ∈ b, Unescaped s) : a = b := by
  cases h with
  | none => rfl
  | some h => rw [h.eq_of_unescaped (ha _ rfl) (hb _ rfl)]

/-- What is read off the id and the numbers alone is the same. -/
theorem SameFields.reads (h : SameFields c d) (hid : c.id = d.id) (f : Command → α)
    (hf : ∀ cmd : Command, f { cmd.erased with id := cmd.id } = f cmd) : f c = f d := by
  rw [← hf c, ← hf d, h.rest, hid]

/-- The names of the interfaces and of their actions need no escapes. -/
theorem validRoutes_unescaped :
    ∀ entry ∈ validRoutes, Unescaped entry.1 ∧ ∀ a ∈ entry.2, Unescaped a := by
  simp [validRoutes, Unescaped, backslash]

theorem parity_unescaped (p : UartParity) : Unescaped p.text := by
  cases p <;> simp [UartParity.text, Unescaped, backslash]

theorem trigger_unescaped (h : EdgeTrigger.parse t = some edge) : Unescaped t := by
  simp only [EdgeTrigger.parse] at h
  split at h
  · simp [Unescaped, backslash]
  · simp [Unescaped, backslash]
  · simp [Unescaped, backslash]
  · cases h

/-- The error codes that a handler answers with, as opposed to the parser and the router. -/
def ErrorCode.OfHandler (e : ErrorCode) : Prop :=
  e ≠ .unknownInterface ∧ e ≠ .unknownAction ∧ e ≠ .msgTooLarge

instance : DecidablePred ErrorCode.OfHandler := fun _ => inferInstanceAs (Decidable (_ ∧ _ ∧ _))

def Answer.OfHandler (a : Answer) : Prop := ∀ e, a = .error e → e.OfHandler

theorem Answer.OfHandler.success : Answer.OfHandler (.ok data) := fun _ h => nomatch h

theorem Answer.OfHandler.failure (h : ErrorCode.OfHandler e) : Answer.OfHandler (.error e) := by
  intro e' he
  cases he
  exact h

/-- Whatever a check or a handler refuses it reports with a code of its own. -/
def Refuses (m : Except Response α) : Prop := ∀ r, m = .error r → Answer.OfHandler r.answer

theorem Refuses.accepted : Refuses (.ok x) := fun _ h => nomatch h

theorem Refuses.failure {id : String} (h : ErrorCode.OfHandler e) :
    Refuses (Except.error (Response.failure id e) : Except Response α) := by
  intro r hr
  cases hr
  exact .failure h

theorem Refuses.bind {m : Except Response α} {f : α → Except Response β} (hm : Refuses m)
    (hf : ∀ x, Refuses (f x)) : Refuses (m >>= f) := by
  cases m with
  | error r => exact fun r' hr => hm r' (by cases hr; rfl)
  | ok x => exact hf x

theorem validateIndex_refuses (cmd : Command) (field : Option UInt8) (limit : UInt8) :
    Refuses (validateIndex cmd field limit) := by
  simp only [validateIndex]
  split
  · exact .failure (by decide)
  · split
    · exact .failure (by decide)
    · exact .accepted

theorem requireField_refuses {valid : α → Bool} : Refuses (requireField cmd field valid) := by
  simp only [requireField]
  split
  · split
    · exact .accepted
    · exact .failure (by decide)
  · exact .failure (by decide)

theorem fieldOr_refuses {valid : α → Bool} : Refuses (fieldOr cmd d field valid) := by
  simp only [fieldOr]
  split
  · split
    · exact .accepted
    · exact .failure (by decide)
  · exact .accepted

theorem Uart.parseParity_refuses : Refuses (Uart.parseParity cmd) := by
  simp only [Uart.parseParity]
  split
  · exact .accepted
  · exact .accepted
  · exact .accepted
  · exact .accepted
  · exact .failure (by decide)

theorem Uart.handleConfigure_refuses : Refuses (Uart.handleConfigure cmd) :=
  .bind (validateIndex_refuses _ _ _) fun _ => .bind requireField_refuses fun _ =>
    .bind fieldOr_refuses fun _ => .bind Uart.parseParity_refuses fun _ =>
    .bind fieldOr_refuses fun _ => .accepted

theorem Spi.handleConfigure_refuses : Refuses (Spi.handleConfigure cmd) :=
  .bind (validateIndex_refuses _ _ _) fun _ => .bind requireField_refuses fun _ =>
    .bind fieldOr_refuses fun _ => .bind fieldOr_refuses fun _ => .accepted

theorem I2c.handleConfigure_refuses : Refuses (I2c.handleConfigure cmd) :=
  .bind (validateIndex_refuses _ _ _) fun _ => .bind requireField_refuses fun _ => .accepted

theorem Gpio.handleSetMode_refuses : Answer.OfHandler (Gpio.handleSetMode cmd).answer := by
  have hpin : Refuses (Gpio.validatePin cmd) := by
    simp only [Gpio.validatePin]
    split
    · exact .failure (by decide)
    · split
      · exact .failure (by decide)
      · exact .accepted
  simp only [Gpio.handleSetMode]
  split
  · exact hpin _ ‹_›
  · split
    · exact .failure (by decide)
    · split
      · split
        · exact .success
        · split
          · exact .success
          · exact .failure (by decide)
      · exact .failure (by decide)

theorem Pwm.onChannel_refuses (h : Answer.OfHandler (Response.answer r)) :
    Answer.OfHandler (Pwm.onChannel cmd r).answer := by
  simp only [Pwm.onChannel]
  split
  · exact validateIndex_refuses _ _ _ _ ‹_›
  · exact h

theorem Pwm.handleSetDuty_refuses : Answer.OfHandler (Pwm.handleSetDuty cmd).answer := by
  apply Pwm.onChannel_refuses
  split
  · exact .failure (by decide)
  · exact .success

theorem Pwm.handleSetFreq_refuses : Answer.OfHandler (Pwm.handleSetFreq cmd).answer := by
  apply Pwm.onChannel_refuses
  split
  · exact .failure (by decide)
  · split
    · exact .failure (by decide)
    · exact .success

theorem payloadAnswer_refuses (payload : Option String) :
    Answer.OfHandler (payloadAnswer payload) := by
  simp only [payloadAnswer]
  split
  · exact .failure (by decide)
  · split
    · exact .failure (by decide)
    · split
      · exact .success
      · exact .failure (by decide)

/-- An operation whose answer never comes with a code of the parser or the router. -/
def Operation.OfHandler (op : Operation) : Prop := ∀ s, (op.due s).OfHandler

theorem Operation.OfHandler.answer (h : Answer.OfHandler a) : Operation.OfHandler (.answer a) :=
  fun _ => h

theorem Operation.OfHandler.write (hc : ∀ e, checks = .error e → e.OfHandler) :
    Operation.OfHandler (.write p checks payload) := by
  intro s
  simp only [Operation.due]
  split
  · cases checks with
    | error e => exact .failure (hc e rfl)
    | ok u => exact payloadAnswer_refuses payload
  · exact .failure (by decide)

theorem Operation.OfHandler.subscribe (target : SubscriptionTarget) :
    Operation.OfHandler (.subscribe target) := by
  intro s
  simp only [Operation.due]
  split
  · exact .failure (by decide)
  · split
    · exact .success
    · exact .failure (by decide)

theorem Operation.OfHandler.unsubscribe (w : Watched) : Operation.OfHandler (.unsubscribe w) := by
  intro s
  simp only [Operation.due]
  split
  · exact .success
  · exact .failure (by decide)

theorem configureOperation_ofHandler {handled : Except Response κ} (h : Refuses handled) :
    (configureOperation handled field setting).OfHandler := by
  cases handled with
  | error r => exact .answer (h r rfl)
  | ok cfg => exact fun s => .success

theorem writeOperation_ofHandler (h : Refuses validated)
    (hc : ∀ e, checks = .error e → e.OfHandler) :
    (writeOperation validated port checks payload).OfHandler := by
  cases validated with
  | error r => exact .answer (h r rfl)
  | ok idx => exact .write hc

/-- Only the route of a batch is refused with a code of the router. -/
theorem routeOperation_ofHandler (cmd : Command) (route : String × String) :
    routeOperation cmd route = .answer (.error .unknownInterface) ∨
      (routeOperation cmd route).OfHandler := by
  have hnone : ∀ e, (.ok () : Except ErrorCode Unit) = .error e → e.OfHandler :=
    fun _ h => nomatch h
  simp only [routeOperation]
  split
  · exact .inr (.answer Gpio.handleSetMode_refuses)
  · right
    split
    · exact .answer (.failure (by decide))
    · exact .subscribe _
    · split
      · exact .answer (.failure (by decide))
      · exact .subscribe _
  · right
    split
    · exact .answer (.failure (by decide))
    · exact .unsubscribe _
  · right
    split <;> exact .answer (.failure (by decide))
  · right
    split
    · exact .answer (.failure (by decide))
    · exact .subscribe _
  · right
    split
    · exact .answer (.failure (by decide))
    · exact .unsubscribe _
  · exact .inr (configureOperation_ofHandler Uart.handleConfigure_refuses)
  · exact .inr (writeOperation_ofHandler (validateIndex_refuses _ _ _) hnone)
  · exact .inr (configureOperation_ofHandler Spi.handleConfigure_refuses)
  · exact .inr (writeOperation_ofHandler (validateIndex_refuses _ _ _) hnone)
  · exact .inr (configureOperation_ofHandler I2c.handleConfigure_refuses)
  · refine .inr (writeOperation_ofHandler (validateIndex_refuses _ _ _) fun e he => ?_)
    split at he
    · cases he
    · cases he
      decide
  · exact .inr (.answer Pwm.handleSetDuty_refuses)
  · exact .inr (.answer Pwm.handleSetFreq_refuses)
  · exact .inr (.answer (Pwm.onChannel_refuses .success))
  · exact .inr (.answer (Pwm.onChannel_refuses .success))
  · exact .inr (.write hnone)
  · exact .inr fun s => .success
  · exact .inr (.answer .success)
  · exact .inr fun s => .success
  · exact .inl rfl
  · exact .inr (.answer (.failure (by decide)))

/-- How the operations of two spellings of a command compare: they are one operation, they write
two payloads to one port, or they are answered differently in every state. -/
inductive Operation.Related : Operation → Operation → Prop
  | same : Related op op
  | payloads : Related (.write p checks a) (.write p checks b)
  | apart (h : ∀ s, op.due s ≠ op'.due s) : Related op op'

theorem Operation.Related.symm (h : Operation.Related op op') : Operation.Related op' op := by
  cases h with
  | same => exact .same
  | payloads => exact .payloads
  | apart h => exact .apart fun s => (h s).symm

theorem Operation.Related.answers (a b : Answer) : Operation.Related (.answer a) (.answer b) := by
  by_cases h : a = b
  · subst h
    exact .same
  · exact .apart fun s => h

theorem writeOperation_related (validated : Except Response UInt8) (port : Fin 2 → Port)
    (checks : Except ErrorCode Unit) (a b : Option String) :
    (writeOperation validated port checks a).Related (writeOperation validated port checks b) := by
  cases validated with
  | error r => exact .same
  | ok idx => exact .payloads

theorem subscribe_apart (target : SubscriptionTarget) :
    Operation.Related (.subscribe target) (.answer (.error .missingField)) := by
  refine .apart fun s => ?_
  simp only [Operation.due]
  split
  · simp
  · split <;> simp

/-- A parity that is accepted is one of those that have a name. -/
theorem accepted_parity_unescaped (h : Uart.handleConfigure cmd = .ok cfg) :
    ∀ p ∈ cmd.parity, Unescaped p := by
  have hhandled : Handles cmd.id (fun cfg => Accepts cmd cmd.uart (.uart cfg) cfg.configured)
      (Uart.handleConfigure cmd) := Uart.handleConfigure_handles
  rw [h] at hhandled
  obtain ⟨-, -, hname, -⟩ := hhandled.requested
  intro p hp
  rw [hp, Option.getD_some] at hname
  exact hname ▸ parity_unescaped cfg.parity

theorem configure_refused_apart {handled : Except Response κ}
    (hr : Handles reqId Q handled) (h : handled = .error r) :
    Operation.Related (.configure i setting) (.answer r.answer) := by
  obtain ⟨e, -, he⟩ := hr.refused h
  rw [he]
  exact .apart fun s => by simp [Operation.due]

theorem uart_configure_related (h : SameFields c d) (hid : c.id = d.id) :
    (configureOperation (Uart.handleConfigure c) c.uart .uart).Related
      (configureOperation (Uart.handleConfigure d) d.uart .uart) := by
  cases hc : Uart.handleConfigure c with
  | error r =>
    cases hd : Uart.handleConfigure d with
    | error r' => exact .answers _ _
    | ok cfg => exact (configure_refused_apart Uart.handleConfigure_handles hc).symm
  | ok cfg =>
    cases hd : Uart.handleConfigure d with
    | error r' => exact configure_refused_apart Uart.handleConfigure_handles hd
    | ok cfg' =>
      have hp := h.parity.eq_of_unescaped (accepted_parity_unescaped hc)
        (accepted_parity_unescaped hd)
      have hread (cmd : Command) : Uart.handleConfigure cmd =
          Uart.handleConfigure { cmd.erased with id := cmd.id, parity := cmd.parity } := rfl
      rw [hread, h.rest, hid, hp, ← hread, hd] at hc
      cases hc
      rw [h.reads hid Command.uart fun _ => rfl]
      exact .same

theorem gpio_subscribe_related (h : SameFields c d) (hid : c.id = d.id) :
    (routeOperation c ("gpio", "subscribe")).Related (routeOperation d ("gpio", "subscribe")) := by
  simp only [routeOperation]
  rw [h.reads hid Command.pin fun _ => rfl, h.reads hid Command.intervalMs fun _ => rfl]
  rcases h.trigger.cases with ⟨hc, hd⟩ | ⟨s, t, hc, hd, hst⟩
  · rw [hc, hd]
    exact .same
  · rw [hc, hd]
    cases d.pin with
    | none => exact .same
    | some pin =>
      cases hs : EdgeTrigger.parse s with
      | none =>
        cases ht : EdgeTrigger.parse t with
        | none => simp only [hs, ht]; exact .same
        | some edge => simp only [hs, ht]; exact (subscribe_apart _).symm
      | some edge =>
        cases ht : EdgeTrigger.parse t with
        | none => simp only [hs, ht]; exact subscribe_apart _
        | some edge' =>
          obtain rfl := hst.eq_of_unescaped (trigger_unescaped hs) (trigger_unescaped ht)
          exact .same

theorem routeOperation_related (h : SameFields c d) (hid : c.id = d.id)
    (route : String × String) :
    (routeOperation c route).Related (routeOperation d route) := by
  have hsub := gpio_subscribe_related h hid
  simp only [routeOperation] at hsub ⊢
  split
  · exact .answers _ _
  · exact hsub
  · rw [h.reads hid Command.pin fun _ => rfl]
    exact .same
  · rw [h.reads hid Command.adcChannel fun _ => rfl]
    exact .same
  · rw [h.reads hid Command.adcChannel fun _ => rfl, h.reads hid Command.intervalMs fun _ => rfl]
    exact .same
  · rw [h.reads hid Command.adcChannel fun _ => rfl]
    exact .same
  · exact uart_configure_related h hid
  · rw [h.reads hid Uart.validateUart fun _ => rfl]
    exact writeOperation_related _ _ _ _ _
  · rw [h.reads hid Spi.handleConfigure fun _ => rfl, h.reads hid Command.spi fun _ => rfl]
    exact .same
  · rw [h.reads hid Spi.validateSpi fun _ => rfl]
    exact writeOperation_related _ _ _ _ _
  · rw [h.reads hid I2c.handleConfigure fun _ => rfl, h.reads hid Command.i2c fun _ => rfl]
    exact .same
  · rw [h.reads hid I2c.validateI2c fun _ => rfl, h.reads hid Command.addr fun _ => rfl]
    exact writeOperation_related _ _ _ _ _
  · exact .answers _ _
  · exact .answers _ _
  · exact .answers _ _
  · exact .answers _ _
  · exact .payloads
  · exact .same
  · exact .same
  · exact .same
  · exact .same
  · exact .same

theorem validateRoute_unescaped (h : validateRoute cmd = .ok route) :
    cmd.interface = some route.1 ∧ cmd.action = some route.2 ∧ Unescaped route.1 ∧
      Unescaped route.2 := by
  have hr := h ▸ validateRoute_handles cmd
  obtain ⟨hi, ha, actions, hm, hc⟩ := hr
  obtain ⟨hp, hall⟩ := validRoutes_unescaped _ hm
  exact ⟨hi, ha, hp, hall _ hc⟩

theorem validateRoute_refused (h : validateRoute cmd = .error r) :
    ∃ e, r.answer = .error e ∧ (e = .unknownInterface ∨ e = .unknownAction) := by
  simp only [validateRoute] at h
  split at h
  · cases h
    exact ⟨_, rfl, .inl rfl⟩
  · split at h
    · cases h
      exact ⟨_, rfl, .inr rfl⟩
    · split at h
      · cases h
        exact ⟨_, rfl, .inl rfl⟩
      · split at h
        · cases h
          exact ⟨_, rfl, .inr rfl⟩
        · cases h

/-- An unknown route is answered like no known one, but for a batch. -/
theorem unknown_route_related (cmd : Command) (route : String × String)
    (h : validateRoute d = .error r) :
    (routeOperation cmd route).Related (.answer r.answer) := by
  obtain ⟨e, he, hcode⟩ := validateRoute_refused h
  rcases routeOperation_ofHandler cmd route with hb | hop
  · rw [hb]
    exact .answers _ _
  · refine .apart fun s hs => ?_
    obtain ⟨hi, ha, -⟩ := hop s e (hs.trans he)
    rcases hcode with rfl | rfl
    · exact hi rfl
    · exact ha rfl

/-- Respelling the strings of a command changes the payload of its write, its answer in every
state, or nothing. -/
theorem operation_related (h : SameFields c d) (hid : c.id = d.id) :
    c.operation.Related d.operation := by
  simp only [Command.operation]
  cases hc : validateRoute c with
  | error r =>
    cases hd : validateRoute d with
    | error r' => exact .answers _ _
    | ok route => exact (unknown_route_related d route hc).symm
  | ok route =>
    cases hd : validateRoute d with
    | error r' => exact unknown_route_related c route hd
    | ok route' =>
      obtain ⟨hci, hca, hpi, hpa⟩ := validateRoute_unescaped hc
      obtain ⟨hdi, hda, hpi', hpa'⟩ := validateRoute_unescaped hd
      have hi := h.interface
      have ha := h.action
      rw [hci, hdi] at hi
      rw [hca, hda] at ha
      cases hi with
      | some hi =>
        cases ha with
        | some ha =>
          obtain rfl := Prod.ext (hi.eq_of_unescaped hpi hpi')
            (ha.eq_of_unescaped hpa hpa')
          exact routeOperation_related h hid route

/-- No command that was parsed is answered as if its frame had been too long. -/
theorem operation_due_ne (cmd : Command) (s : DeviceState) :
    cmd.operation.due s ≠ .error .msgTooLarge := by
  intro hdue
  simp only [Command.operation] at hdue
  cases hv : validateRoute cmd with
  | error r =>
    obtain ⟨e, he, hcode⟩ := validateRoute_refused hv
    rw [hv] at hdue
    cases he.symm.trans hdue
    rcases hcode with h | h <;> cases h
  | ok route =>
    rw [hv] at hdue
    rcases routeOperation_ofHandler cmd route with hb | hop
    · simp only [hb, Operation.due] at hdue
      cases hdue
    · exact (hop s _ hdue).2.2 rfl

end PicoConduit
