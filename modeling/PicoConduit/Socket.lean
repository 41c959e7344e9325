import PicoConduit.Transport

namespace PicoConduit
open Checked Utf8
set_option autoImplicit true

/-- What becomes of a read: some of the bytes that are still to come, or none in time, or a
failure of the connection. -/
inductive Arrival
  | bytes (n : Nat)
  | timeout
  | failure
  deriving DecidableEq, Repr

/-- A TCP connection: the bytes that the peer still sends before it closes, how they arrive, and
what has been written. -/
structure Socket where
  incoming : Bytes
  arrivals : List Arrival
  written : List Bytes
  aborted : Bool
  deriving DecidableEq

inductive ReadError
  | timeout
  | failed
  deriving DecidableEq, Repr

def Socket.deliver (s : Socket) (n : Nat) (arrivals : List Arrival) : Bytes × Socket :=
  (s.incoming.take n, { s with incoming := s.incoming.drop n, arrivals })

/-- `socket.read` under its timeout, into a buffer with some room: at least one byte unless the
peer has closed, and nothing any more once the socket is aborted. -/
def Socket.read (s : Socket) (room : Nat) : Except ReadError Bytes × Socket :=
  if s.aborted then (.error .failed, s)
  else
    match s.arrivals with
    | .timeout :: rest => (.error .timeout, { s with arrivals := rest })
    | .failure :: rest => (.error .failed, { s with arrivals := rest })
    | .bytes n :: rest =>
      let (bytes, s) := s.deliver (max 1 (min n room)) rest
      (.ok bytes, s)
    | [] =>
      let (bytes, s) := s.deliver room []
      (.ok bytes, s)

def Socket.writeAll (s : Socket) (data : Bytes) : Except Unit Unit × Socket :=
  if s.aborted then (.error (), s) else (.ok (), { s with written := s.written ++ [data] })

def Socket.abort (s : Socket) : Socket := { s with aborted := true }

/-- `WsTransport::read_exact`, for a buffer of some length. -/
def readExact (n : Nat) (s : Socket) : Except TransportError Bytes × Socket :=
  if n = 0 then (.ok [], s)
  else
    match s.read n with
    | (.error .timeout, s) => (.error .timeout, s)
    | (.error .failed, s) => (.error .disconnected, s)
    | (.ok [], s) => (.error .disconnected, s)
    | (.ok (b :: bs), s) =>
      match readExact (n - (bs.length + 1)) s with
      | (.ok rest, s) => (.ok (b :: bs ++ rest), s)
      | (.error e, s) => (.error e, s)
termination_by n

/-- The socket is open and delivers bytes, in pieces of any size, as long as there are any. -/
structure Socket.Steady (s : Socket) : Prop where
  isOpen : s.aborted = false
  pieces : ∀ a ∈ s.arrivals, ∃ n, a = .bytes n

/-- A steady socket has delivered some bytes, and nothing else has happened to it. -/
structure Socket.Delivers (s : Socket) (bytes : Bytes) (s' : Socket) : Prop where
  steady : s'.Steady
  incoming : s.incoming = bytes ++ s'.incoming
  written : s'.written = s.written

theorem Socket.Delivers.trans (h : Socket.Delivers s xs s') (h' : s'.Delivers ys s'') :
    s.Delivers (xs ++ ys) s'' := by
  refine ⟨h'.steady, ?_, h'.written.trans h.written⟩
  rw [h.incoming, h'.incoming, List.append_assoc]

theorem Socket.Steady.nil (h : Socket.Steady s) : s.Delivers [] s := ⟨h, rfl, rfl⟩

theorem Socket.Steady.deliver (h : Socket.Steady s) (n : Nat)
    (ha : ∀ a ∈ later, ∃ n, a = Arrival.bytes n) :
    s.Delivers (s.deliver n later).1 (s.deliver n later).2 :=
  ⟨⟨h.isOpen, ha⟩, (List.take_append_drop n s.incoming).symm, rfl⟩

theorem Socket.read_eq_ok {s : Socket} (h : s.read n = (.ok bytes, s')) (hn : 0 < n) :
    s.incoming = bytes ++ s'.incoming ∧ bytes.length ≤ n := by
  have htake (k : Nat) (hk : k ≤ n) :
      s.incoming = s.incoming.take k ++ s.incoming.drop k ∧ (s.incoming.take k).length ≤ n := by
    refine ⟨(List.take_append_drop _ _).symm, ?_⟩
    rw [List.length_take]
    omega
  simp only [Socket.read] at h
  split at h
  · cases h
  · split at h
    · cases h
    · cases h
    · cases h
      exact htake _ (by omega)
    · cases h
      exact htake _ (Nat.le_refl _)

theorem Socket.Steady.read (h : Socket.Steady s) (hr : 0 < room) :
    ∃ bytes s', s.read room = (.ok bytes, s') ∧ s.Delivers bytes s' ∧ bytes.length ≤ room ∧
      (bytes = [] → s.incoming = []) := by
  have hnil (n : Nat) (hn : 0 < n) (he : s.incoming.take n = []) : s.incoming = [] := by
    rw [List.take_eq_nil_iff] at he
    exact he.resolve_left (Nat.ne_of_gt hn)
  have hpieces := h.pieces
  have hdelivers : ∃ bytes s', s.read room = (.ok bytes, s') ∧ s.Delivers bytes s' ∧
      (bytes = [] → s.incoming = []) := by
    simp only [Socket.read, h.isOpen, Bool.false_eq_true, ↓reduceIte]
    split
    · rename_i ha
      rw [ha] at hpieces
      obtain ⟨n, hn⟩ := hpieces _ List.mem_cons_self
      cases hn
    · rename_i ha
      rw [ha] at hpieces
      obtain ⟨n, hn⟩ := hpieces _ List.mem_cons_self
      cases hn
    · rename_i n rest ha
      rw [ha] at hpieces
      have hrest := fun a hmem => hpieces a (List.mem_cons_of_mem _ hmem)
      exact ⟨_, _, rfl, h.deliver _ hrest, hnil _ (by omega)⟩
    · exact ⟨_, _, rfl, h.deliver _ (by simp), hnil _ hr⟩
  obtain ⟨bytes, s', hread, hd, hempty⟩ := hdelivers
  exact ⟨bytes, s', hread, hd, (Socket.read_eq_ok hread hr).2, hempty⟩

theorem Socket.Steady.read_one (h : Socket.Steady s) (hin : s.incoming = byte :: rest) :
    ∃ s', s.read 1 = (.ok [byte], s') ∧ s'.Steady ∧ s'.incoming = rest ∧
      s'.written = s.written := by
  obtain ⟨bytes, s', hr, hd, hlen, hnil⟩ := h.read Nat.one_pos
  have hin' := hd.incoming
  rw [hin] at hin' hnil
  cases bytes with
  | nil => cases hnil rfl
  | cons b bs =>
    obtain ⟨rfl, hrest⟩ := List.cons.inj hin'
    obtain rfl := List.length_eq_zero_iff.1 (Nat.le_zero.1 (Nat.le_of_succ_le_succ hlen))
    exact ⟨s', hr, hd.steady, hrest.symm, hd.written⟩

theorem Socket.Steady.read_end (h : Socket.Steady s) (hin : s.incoming = []) (hr : 0 < room) :
    ∃ s', s.read room = (.ok [], s') ∧ s'.written = s.written := by
  obtain ⟨bytes, s', hread, hd, -, -⟩ := h.read hr
  have hin' := hd.incoming
  rw [hin] at hin'
  obtain ⟨rfl, -⟩ := List.append_eq_nil_iff.1 hin'.symm
  exact ⟨s', hread, hd.written⟩

/-- However the bytes arrive, a buffer is filled with exactly the next ones. -/
theorem readExact_delivers (h : Socket.Steady s) (hn : n ≤ s.incoming.length) :
    ∃ s', readExact n s = (.ok (s.incoming.take n), s') ∧
      s.Delivers (s.incoming.take n) s' := by
  induction n using Nat.strongRecOn generalizing s with
  | _ n ih =>
    rw [readExact]
    by_cases h0 : n = 0
    · subst h0
      exact ⟨s, by simp, by simpa using h.nil⟩
    · obtain ⟨bytes, s₁, hread, hd, hlen, hnil⟩ := h.read (Nat.pos_of_ne_zero h0)
      rw [if_neg h0, hread]
      cases bytes with
      | nil =>
        rw [hnil rfl] at hn
        exact absurd (Nat.le_zero.1 hn) h0
      | cons b bs =>
        have hin := congrArg List.length hd.incoming
        simp only [List.length_append, List.length_cons] at hin hlen
        obtain ⟨s₂, hrest, hd'⟩ := ih (n - (bs.length + 1)) (by omega) hd.steady (by omega)
        have htake : s.incoming.take n =
            b :: bs ++ s₁.incoming.take (n - (bs.length + 1)) := by
          rw [hd.incoming, List.take_append, List.take_of_length_le (by simpa using hlen)]
          rfl
        simp only [hrest, htake]
        exact ⟨s₂, rfl, hd.trans hd'⟩

/-- A buffer that the remaining bytes do not fill ends in a disconnection. -/
theorem readExact_ends (h : Socket.Steady s) (hn : s.incoming.length < n) :
    ∃ s', readExact n s = (.error .disconnected, s') ∧ s'.written = s.written ∧
      s'.incoming = [] := by
  induction n using Nat.strongRecOn generalizing s with
  | _ n ih =>
    obtain ⟨bytes, s₁, hread, hd, hlen, hnil⟩ := h.read (Nat.zero_lt_of_lt hn)
    rw [readExact, if_neg (by omega), hread]
    cases bytes with
    | nil => exact ⟨s₁, rfl, hd.written, hd.incoming.symm.trans (hnil rfl)⟩
    | cons b bs =>
      have hin := congrArg List.length hd.incoming
      simp only [List.length_append, List.length_cons] at hin hlen
      obtain ⟨s₂, hrest, hw, he⟩ := ih (n - (bs.length + 1)) (by omega) hd.steady (by omega)
      simp only [hrest]
      exact ⟨s₂, rfl, hw.trans hd.written, he⟩

/-- Whatever happens to the connection, a filled buffer has been filled with the next bytes. -/
theorem readExact_eq_ok (h : readExact n s = (.ok bytes, s')) :
    s.incoming = bytes ++ s'.incoming ∧ bytes.length = n := by
  induction n using Nat.strongRecOn generalizing s bytes with
  | _ n ih =>
    rw [readExact] at h
    by_cases h0 : n = 0
    · rw [if_pos h0] at h
      cases h
      exact ⟨rfl, h0.symm⟩
    · rw [if_neg h0] at h
      split at h
      · cases h
      · cases h
      · cases h
      · rename_i b bs s₁ hread
        obtain ⟨hin, hle⟩ := Socket.read_eq_ok hread (Nat.pos_of_ne_zero h0)
        split at h
        · rename_i rest s₂ hrest
          cases h
          obtain ⟨hin', hlen⟩ := ih _ (by omega) hrest
          refine ⟨by rw [hin, hin', List.append_assoc], ?_⟩
          simp only [List.length_append, List.length_cons] at hle ⊢
          omega
        · cases h

theorem readExact_append (h : Socket.Steady s) (hs : s.incoming = xs ++ rest)
    (hn : xs.length = n) :
    ∃ s', readExact n s = (.ok xs, s') ∧ s.Delivers xs s' ∧ s'.incoming = rest := by
  subst hn
  obtain ⟨s', hr, hd⟩ := readExact_delivers h (n := xs.length) (by simp [hs])
  have htake : s.incoming.take xs.length = xs := by rw [hs, List.take_left]
  rw [htake] at hr hd
  refine ⟨s', hr, hd, ?_⟩
  have hin := hd.incoming
  rw [hs] at hin
  exact (List.append_cancel_left hin).symm

/-- Code that works on a connection: it may stop the program, or give up with an error. -/
def Conn (α : Type) := Socket → Exec (Except TransportError α × Socket)

instance : Monad Conn where
  pure x s := .ok (.ok x, s)
  bind m f s :=
    match m s with
    | .error q => .error q
    | .ok (.error e, s) => .ok (.error e, s)
    | .ok (.ok x, s) => f x s

instance : MonadLift Exec Conn where
  monadLift m s :=
    match m with
    | .error q => .error q
    | .ok x => .ok (.ok x, s)

/-- Abort the connection and return an error. -/
def Conn.fail (e : TransportError) : Conn α := fun s => .ok (.error e, s.abort)

/-- `read_exact`, where an error aborts the connection and is returned. -/
def Conn.readExact (n : Nat) : Conn Bytes := fun s =>
  match PicoConduit.readExact n s with
  | (.ok bytes, s) => .ok (.ok bytes, s)
  | (.error e, s) => .ok (.error e, s.abort)

/-- `write_all`, with its result ignored. -/
def Conn.write (data : Bytes) : Conn Unit := fun s => .ok (.ok (), (s.writeAll data).2)

theorem Conn.bind_ok {m : Conn α} {f : α → Conn β} (h : m s = .ok (.ok x, s')) :
    (m >>= f) s = f x s' := by
  simp only [bind, h]

theorem Conn.bind_error {m : Conn α} {f : α → Conn β} (h : m s = .ok (.error e, s')) :
    (m >>= f) s = .ok (.error e, s') := by
  simp only [bind, h]

/-- Code that does not panic and, unless it gives up, takes at least so many bytes off the stream
and gives a value with a property. -/
def Sound (n : Nat) (P : α → Prop) (m : Conn α) : Prop :=
  ∀ s, Yields (m s) fun r => ∀ x, r.1 = .ok x →
    P x ∧ r.2.incoming.length + n ≤ s.incoming.length

theorem Sound.mono (h : Sound n P m) (hk : k ≤ n) : Sound k P m := by
  intro s
  refine (h s).mono fun r hr x hx => ⟨(hr x hx).1, ?_⟩
  have hlen := (hr x hx).2
  omega

theorem Sound.pure {P : α → Prop} (hx : P x) : Sound 0 P (pure x : Conn α) := by
  refine fun s => ⟨_, rfl, fun y hy => ?_⟩
  cases hy
  exact ⟨hx, Nat.le_refl _⟩

theorem Sound.lift {m : Exec α} {P : α → Prop} (h : Yields m P) :
    Sound 0 P (liftM m : Conn α) := by
  obtain ⟨x, rfl, hx⟩ := h
  exact .pure hx

theorem Sound.bind {m : Conn α} {f : α → Conn β} {P : α → Prop} {Q : β → Prop}
    (hm : Sound n P m) (hf : ∀ x, P x → Sound 0 Q (f x)) : Sound n Q (m >>= f) := by
  intro s
  obtain ⟨⟨r, s'⟩, hr, hP⟩ := hm s
  cases r with
  | error e => exact ⟨_, Conn.bind_error hr, fun y hy => by cases hy⟩
  | ok x =>
    obtain ⟨hx, hlen⟩ := hP x rfl
    rw [Conn.bind_ok hr]
    refine (hf x hx s').mono fun r hr y hy => ⟨(hr y hy).1, ?_⟩
    have hlen' := (hr y hy).2
    simp only at hlen
    omega

theorem Sound.checked {m : Exec α} {f : α → Conn β} {P : α → Prop} {Q : β → Prop}
    (h : Yields m P) (hf : ∀ x, P x → Sound 0 Q (f x)) : Sound 0 Q (liftM m >>= f) :=
  (Sound.lift h).bind hf

theorem Sound.fail {P : α → Prop} (e : TransportError) : Sound n P (Conn.fail e) :=
  fun s => ⟨_, rfl, fun x hx => by cases hx⟩

theorem Sound.write (data : Bytes) : Sound 0 (fun _ => True) (Conn.write data) := by
  refine fun s => ⟨_, rfl, fun x hx => ⟨trivial, ?_⟩⟩
  simp only [Socket.writeAll]
  split <;> exact Nat.le_refl _

theorem Sound.readExact (n : Nat) : Sound n (·.length = n) (Conn.readExact n) := by
  intro s
  simp only [Conn.readExact]
  split
  · rename_i bytes s' hr
    obtain ⟨hin, hlen⟩ := readExact_eq_ok hr
    refine ⟨_, rfl, fun x hx => ?_⟩
    cases hx
    have hl := congrArg List.length hin
    rw [List.length_append, hlen] at hl
    exact ⟨hlen, by simp only; omega⟩
  · exact ⟨_, rfl, fun x hx => by cases hx⟩

/-- On a steady connection that goes on with the given bytes, the code takes exactly these bytes
and gives a value. -/
def Takes (m : Conn α) (bytes : Bytes) (x : α) : Prop :=
  ∀ s rest, Socket.Steady s → s.incoming = bytes ++ rest →
    ∃ s', m s = .ok (.ok x, s') ∧ s.Delivers bytes s' ∧ s'.incoming = rest

theorem Takes.pure (x : α) : Takes (pure x) [] x :=
  fun s _ hs hin => ⟨s, rfl, hs.nil, hin⟩

theorem Takes.lift {m : Exec α} (h : m = .ok x) : Takes (liftM m : Conn α) [] x := by
  subst h
  exact fun s _ hs hin => ⟨s, rfl, hs.nil, hin⟩

theorem Takes.bind {m : Conn α} {f : α → Conn β} (hm : Takes m xs x) (hf : Takes (f x) ys y) :
    Takes (m >>= f) (xs ++ ys) y := by
  intro s rest hs hin
  obtain ⟨s₁, hx, hd, hin₁⟩ := hm s (ys ++ rest) hs (by rw [hin, List.append_assoc])
  obtain ⟨s₂, hy, hd', hin₂⟩ := hf s₁ rest hd.steady hin₁
  exact ⟨s₂, by rw [Conn.bind_ok hx, hy], hd.trans hd', hin₂⟩

theorem Takes.finish {m : Conn α} {f : α → Conn β} (hm : Takes m xs x)
    (hf : Takes (f x) [] y) : Takes (m >>= f) xs y :=
  List.append_nil xs ▸ hm.bind hf

theorem Takes.checked {m : Exec α} {f : α → Conn β} (h : m = .ok x) (hf : Takes (f x) ys y) :
    Takes (liftM m >>= f) ys y :=
  (Takes.lift h).bind hf

theorem Takes.readExact (h : xs.length = n) : Takes (Conn.readExact n) xs xs := by
  intro s rest hs hin
  obtain ⟨s', hr, hd, hin'⟩ := readExact_append hs hin h
  exact ⟨s', by simp only [Conn.readExact, hr], hd, hin'⟩

theorem Conn.readExact_ends (h : Socket.Steady s) (hn : s.incoming.length < n) :
    ∃ s', Conn.readExact n s = .ok (.error .disconnected, s') ∧ s'.written = s.written ∧
      s'.incoming = [] := by
  obtain ⟨s', hr, hw, hin⟩ := PicoConduit.readExact_ends h hn
  exact ⟨s'.abort, by simp only [Conn.readExact, hr], hw, hin⟩

theorem Socket.Steady.write (h : Socket.Steady s) (data : Bytes) :
    Conn.write data s = .ok (.ok (), { s with written := s.written ++ [data] }) := by
  simp only [Conn.write, Socket.writeAll, h.isOpen, Bool.false_eq_true, ↓reduceIte]

section Loop
variable {turn : σ → Exec (Except TransportError (Option Bytes) × σ)} {size : σ → Nat}
  {hturn : ∀ s s', turn s = .ok (.ok none, s') → size s' < size s}

/-- A loop that is turned until it returns a frame or an error. -/
def untilFrame (turn : σ → Exec (Except TransportError (Option Bytes) × σ)) (size : σ → Nat)
    (hturn : ∀ s s', turn s = .ok (.ok none, s') → size s' < size s) (s : σ) :
    Exec (Except TransportError Bytes × σ) :=
  match _ : turn s with
  | .error q => .error q
  | .ok (.error e, s') => .ok (.error e, s')
  | .ok (.ok (some frame), s') => .ok (.ok frame, s')
  | .ok (.ok none, s') => untilFrame turn size hturn s'
termination_by size s
decreasing_by exact hturn _ _ ‹_›

theorem untilFrame_eq : untilFrame turn size hturn s =
    match turn s with
    | .error q => .error q
    | .ok (.error e, s') => .ok (.error e, s')
    | .ok (.ok (some frame), s') => .ok (.ok frame, s')
    | .ok (.ok none, s') => untilFrame turn size hturn s' := by
  rw [untilFrame]
  split <;> simp only [*]

theorem untilFrame_error (h : turn s = .ok (.error e, s')) :
    untilFrame turn size hturn s = .ok (.error e, s') := by
  rw [untilFrame_eq, h]

theorem untilFrame_some (h : turn s = .ok (.ok (some frame), s')) :
    untilFrame turn size hturn s = .ok (.ok frame, s') := by
  rw [untilFrame_eq, h]

theorem untilFrame_none (h : turn s = .ok (.ok none, s')) :
    untilFrame turn size hturn s = untilFrame turn size hturn s' := by
  rw [untilFrame_eq, h]

/-- If no turn panics and all of them keep an invariant, so does the loop. -/
theorem untilFrame_yields (Inv : σ → Prop)
    (hinv : ∀ s, Inv s → Yields (turn s) fun x => Inv x.2) (hs : Inv s) :
    Yields (untilFrame turn size hturn s) fun x => Inv x.2 := by
  obtain ⟨⟨r, s'⟩, hx, hs'⟩ := hinv s hs
  match r with
  | .error e => exact ⟨_, untilFrame_error hx, hs'⟩
  | .ok (some frame) => exact ⟨_, untilFrame_some hx, hs'⟩
  | .ok none =>
    rw [untilFrame_none hx]
    exact untilFrame_yields Inv hinv hs'
termination_by size s
decreasing_by exact hturn _ _ hx

end Loop

end PicoConduit
