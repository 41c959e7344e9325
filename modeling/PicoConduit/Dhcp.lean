import PicoConduit.Checked
import PicoConduit.Heapless
import PicoConduit.Tlv
import PicoConduit.Utf8

namespace PicoConduit
open Checked Utf8
set_option autoImplicit true

def apIp : Bytes := [192, 168, 4, 1]

def dhcpClientIp : Bytes := [192, 168, 4, 2]

def subnetMask : Bytes := [255, 255, 255, 0]

/-- The loop of `dhcp_option_u8`; positions in a buffer stay far below the end of `usize`. -/
def dhcpOptionLoop (pkt : Bytes) (option : UInt8) (i : Nat) : Exec (Option UInt8) :=
  if i < pkt.length then do
    let opt ← load pkt i
    if opt = 255 then pure none
    else if opt = 0 then dhcpOptionLoop pkt option (i + 1)
    else if i + 1 ≥ pkt.length then pure none
    else do
      let len := (← load pkt (i + 1)).toNat
      if opt = option ∧ len ≥ 1 ∧ i + 2 < pkt.length then do
        pure (some (← load pkt (i + 2)))
      else dhcpOptionLoop pkt option (i + (2 + len))
  else pure none
termination_by pkt.length - i

def dhcpOptionU8 (pkt : Bytes) (option : UInt8) : Exec (Option UInt8) :=
  if pkt.length < 240 then pure none
  else dhcpOptionLoop pkt option 240

/-- The BOOTP header of `build_dhcp_reply`. -/
def replyHeader (req : Bytes) : Exec Bytes := do
  let r := List.replicate 300 0
  let r ← store r 0 2
  let r ← store r 1 1
  let r ← store r 2 6
  let r ← copy r 4 8 (← slice req 4 8)
  let r ← copy r 16 20 dhcpClientIp
  let r ← copy r 20 24 apIp
  let chaddrLen := (← load req 2).toNat
  if chaddrLen ≤ 16 ∧ 28 + chaddrLen ≤ req.length then do
    copy r 28 (28 + chaddrLen) (← slice req 28 (28 + chaddrLen))
  else pure r

/-- The magic cookie and the options of `build_dhcp_reply`. -/
def replyOptions (r : Bytes) (msgType : UInt8) : Exec Bytes := do
  let r ← store r 236 99
  let r ← store r 237 130
  let r ← store r 238 83
  let r ← store r 239 99
  let p := 240
  let r ← store r p 53
  let r ← store r (p + 1) 1
  let r ← store r (p + 2) (if msgType = 1 then 2 else 5)
  let p := p + 3
  let r ← store r p 54
  let r ← store r (p + 1) 4
  let r ← copy r (p + 2) (p + 6) apIp
  let p := p + 6
  let r ← store r p 51
  let r ← store r (p + 1) 4
  let r ← store r (p + 2) 0
  let r ← store r (p + 3) 0
  let r ← store r (p + 4) 0x0E
  let r ← store r (p + 5) 0x10
  let p := p + 6
  let r ← store r p 1
  let r ← store r (p + 1) 4
  let r ← copy r (p + 2) (p + 6) subnetMask
  let p := p + 6
  let r ← store r p 3
  let r ← store r (p + 1) 4
  let r ← copy r (p + 2) (p + 6) apIp
  let p := p + 6
  store r p 255

def buildDhcpReply (req : Bytes) (msgType : UInt8) : Exec Bytes := do
  replyOptions (← replyHeader req) msgType

/-- A turn of `dhcp_server` for a datagram that has been received, with the packet buffer before
and after it; there is no datagram where `recv_from` fails. -/
def dhcpTurn (pkt : Bytes) (received : Option Bytes) : Exec (Option Bytes × Bytes) :=
  match received with
  | none => pure (none, pkt)
  | some datagram => do
    let n := datagram.length
    let pkt := datagram ++ pkt.drop n
    if n < 236 then pure (none, pkt)
    else if (← load pkt 0) ≠ 1 then pure (none, pkt)
    else do
      let msgType := (← dhcpOptionU8 (← slice pkt 0 n) 53).getD 0
      if msgType ≠ 1 ∧ msgType ≠ 3 then pure (none, pkt)
      else do
        let reply ← buildDhcpReply (← slice pkt 0 n) msgType
        pure (some reply, pkt)

/-- The turns of `dhcp_server`, with the reply that each of them sends, if any. -/
def dhcpServerLoop (pkt : Bytes) : List (Option Bytes) → Exec (List (Option Bytes))
  | [] => pure []
  | received :: later => do
    let (reply, pkt) ← dhcpTurn pkt received
    let replies ← dhcpServerLoop pkt later
    pure (reply :: replies)

def dhcpServer (received : List (Option Bytes)) : Exec (List (Option Bytes)) :=
  dhcpServerLoop (List.replicate 548 0) received

/-- The walk over the options stays in the packet, and ends. -/
theorem dhcpOptionLoop_yields (pkt : Bytes) (option : UInt8) (i : Nat) :
    Yields (dhcpOptionLoop pkt option i) fun _ => True := by
  rw [dhcpOptionLoop]
  refine .ite (fun hi => ?_) fun _ => .ok trivial
  refine (load_yields hi).bind fun opt _ => ?_
  refine .ite (fun _ => .ok trivial) fun _ => ?_
  refine .ite (fun _ => dhcpOptionLoop_yields pkt option (i + 1)) fun _ => ?_
  refine .ite (fun _ => .ok trivial) fun hroom => ?_
  refine (load_yields (by omega)).bind fun len _ => ?_
  refine .ite (fun hfound => ?_) fun _ => dhcpOptionLoop_yields pkt option (i + (2 + len.toNat))
  exact (load_yields hfound.2.2).bind fun b _ => .ok trivial
termination_by pkt.length - i

theorem dhcpOptionU8_yields (pkt : Bytes) (option : UInt8) :
    Yields (dhcpOptionU8 pkt option) fun _ => True :=
  .ite (fun _ => .ok trivial) fun _ => dhcpOptionLoop_yields pkt option 240

/-- What `option` areas consist of in a datagram. -/
abbrev DhcpItem := Tlv.Item 0 255

theorem load_head (pre : Bytes) (b : UInt8) (rest : Bytes) :
    load (pre ++ b :: rest) pre.length = .ok b := load_shift pre (b :: rest) 0

/-- The walk takes one option, or finds its first byte. -/
theorem dhcpOptionLoop_opt (pre : Bytes) (o : Tlv.Opt 0 255) (rest : Bytes) (option : UInt8) :
    dhcpOptionLoop (pre ++ (Tlv.Item.bytes (.opt o) ++ rest)) option pre.length =
      match Tlv.Item.firstByte option (.opt o) with
      | some b => .ok (some b)
      | none => dhcpOptionLoop (pre ++ (Tlv.Item.bytes (.opt o) ++ rest)) option
          (pre ++ Tlv.Item.bytes (.opt o)).length := by
  have hbytes : Tlv.Item.bytes (.opt o) ++ rest =
      o.code :: UInt8.ofNat o.data.length :: (o.data ++ rest) := rfl
  have hnext : (pre ++ Tlv.Item.bytes (.opt o)).length =
      pre.length + (2 + (UInt8.ofNat o.data.length).toNat) := by
    rw [o.toNat_length]
    simp only [Tlv.Item.bytes, List.length_append, List.length_cons]
    omega
  have hcode := load_head pre o.code (UInt8.ofNat o.data.length :: (o.data ++ rest))
  have hlen : load (pre ++ o.code :: UInt8.ofNat o.data.length :: (o.data ++ rest))
      (pre.length + 1) = .ok (UInt8.ofNat o.data.length) := load_shift pre _ 1
  have hin : pre.length <
      (pre ++ o.code :: UInt8.ofNat o.data.length :: (o.data ++ rest)).length := by simp
  have hroom : ¬ pre.length + 1 ≥
      (pre ++ o.code :: UInt8.ofNat o.data.length :: (o.data ++ rest)).length := by simp
  rw [hnext, hbytes]
  generalize hpkt : pre ++ o.code :: UInt8.ofNat o.data.length :: (o.data ++ rest) = pkt at *
  rw [dhcpOptionLoop, if_pos hin, hcode, ok_bind, if_neg o.code_ne_end, if_neg o.code_ne_pad,
    if_neg hroom, hlen, ok_bind]
  cases hdata : o.data with
  | nil =>
    have hnone : Tlv.Item.firstByte option (.opt o) = none := by
      simp only [Tlv.Item.firstByte, hdata, List.head?_nil, ite_self]
    rw [hnone]
    exact if_neg fun h => absurd h.2.1 (by decide)
  | cons b data =>
    have hfirst : load pkt (pre.length + 2) = .ok b := by
      rw [← hpkt, hdata]
      exact load_shift pre _ 2
    have hpos : (UInt8.ofNat (b :: data).length).toNat ≥ 1 := by
      rw [← hdata, o.toNat_length, hdata]
      exact Nat.succ_le_succ (Nat.zero_le _)
    have hlt : pre.length + 2 < pkt.length := by
      rw [← hpkt, hdata]
      simp
    by_cases hopt : o.code = option
    · have hsome : Tlv.Item.firstByte option (.opt o) = some b := by
        simp only [Tlv.Item.firstByte, hdata, if_pos hopt, List.head?_cons]
      rw [hsome, if_pos ⟨hopt, hpos, hlt⟩, hfirst]
      rfl
    · have hnone : Tlv.Item.firstByte option (.opt o) = none := if_neg hopt
      rw [hnone]
      exact if_neg fun h => hopt h.1

/-- The walk finds what is in the area. -/
theorem dhcpOptionLoop_items (pre : Bytes) (items : List DhcpItem) (rest : Bytes)
    (option : UInt8) :
    dhcpOptionLoop (pre ++ (Tlv.bytes items ++ 255 :: rest)) option pre.length =
      .ok (Tlv.lookup option items) := by
  induction items generalizing pre with
  | nil =>
    have hin : pre.length < (pre ++ 255 :: rest).length := by simp
    rw [Tlv.bytes_nil, List.nil_append, dhcpOptionLoop, if_pos hin, load_head, ok_bind,
      if_pos rfl]
    rfl
  | cons item items ih =>
    have hnext := ih (pre ++ item.bytes)
    rw [List.append_assoc] at hnext
    rw [Tlv.bytes_cons, List.append_assoc]
    cases item with
    | pad =>
      have hpad : Tlv.Item.bytes (.pad : DhcpItem) ++ (Tlv.bytes items ++ 255 :: rest) =
          0 :: (Tlv.bytes items ++ 255 :: rest) := rfl
      have hin : pre.length < (pre ++ 0 :: (Tlv.bytes items ++ 255 :: rest)).length := by simp
      have hne : (0 : UInt8) ≠ 255 := by decide
      rw [hpad, List.length_append] at hnext
      rw [hpad, dhcpOptionLoop, if_pos hin, load_head, ok_bind, if_neg hne, if_pos rfl,
        Tlv.lookup_cons_of_none rfl]
      exact hnext
    | opt o =>
      rw [dhcpOptionLoop_opt]
      cases hfirst : Tlv.Item.firstByte option (.opt o) with
      | some b => rw [Tlv.lookup_cons_of_some hfirst]
      | none =>
        rw [Tlv.lookup_cons_of_none hfirst]
        exact hnext

theorem dhcpOptionU8_items {header : Bytes} (hheader : header.length = 240)
    (items : List DhcpItem) (rest : Bytes) (option : UInt8) :
    dhcpOptionU8 (header ++ (Tlv.bytes items ++ 255 :: rest)) option =
      .ok (Tlv.lookup option items) := by
  have hlong : ¬ (header ++ (Tlv.bytes items ++ 255 :: rest)).length < 240 := by
    rw [List.length_append]
    omega
  rw [dhcpOptionU8, if_neg hlong, ← hheader]
  exact dhcpOptionLoop_items header items rest option

/-- The part of the reply's header that comes before the hardware address. -/
def replyStart (xid : Bytes) : Bytes :=
  [2, 1, 6, 0] ++ xid ++ List.replicate 8 0 ++ dhcpClientIp ++ apIp

theorem length_replyStart (hxid : xid.length = 4) : (replyStart xid).length = 24 := by
  simp only [replyStart, List.length_append, hxid]
  rfl

theorem replyHeader_start {req : Bytes} (hxid : slice req 4 8 = .ok xid) :
    replyHeader req = (do
      let r := replyStart xid ++ List.replicate 276 0
      let chaddrLen := (← load req 2).toNat
      if chaddrLen ≤ 16 ∧ 28 + chaddrLen ≤ req.length then do
        copy r 28 (28 + chaddrLen) (← slice req 28 (28 + chaddrLen))
      else pure r) := by
  have hlen : xid.length = 4 := length_slice hxid
  have hclient : dhcpClientIp.length = 4 := rfl
  have hserver : apIp.length = 4 := rfl
  have hstart : [] ++ [2] ++ [1] ++ [6] ++ List.replicate 1 0 ++ xid ++ List.replicate 8 0 ++
      dhcpClientIp ++ List.replicate 0 0 ++ apIp = replyStart xid := by
    simp [replyStart]
  rw [replyHeader, ← List.nil_append (List.replicate 300 0), store_replicate (by rfl), ok_bind,
    store_replicate (by rfl), ok_bind, store_replicate (by rfl), ok_bind, hxid, ok_bind,
    copy_replicate 1 292 (by rfl) (by simp [hlen]) (by simp [hlen]), ok_bind,
    copy_replicate 8 280 (by simp [hlen]) (by simp [hclient]) (by simp [hclient]), ok_bind,
    copy_replicate 0 276 (by simp [hlen, hclient]) (by simp [hserver]) (by simp [hserver]), ok_bind,
    hstart]

/-- The header of a reply, up to its magic cookie, and what it takes from the request. -/
theorem replyHeader_yields {req : Bytes} (h : 236 ≤ req.length) :
    Yields (replyHeader req) fun r => ∃ header : Bytes, r = header ++ List.replicate 64 0 ∧
      header.length = 236 ∧ (header.drop 4).take 4 = (req.drop 4).take 4 ∧
      ∀ hlen, load req 2 = .ok hlen → hlen.toNat ≤ 16 →
        (header.drop 28).take hlen.toNat = (req.drop 28).take hlen.toNat := by
  have hxid : slice req 4 8 = .ok ((req.drop 4).take 4) := slice_of_le (by decide) (by omega)
  have hfour := length_slice hxid
  have hload : load req 2 = .ok req[2] := load_of_lt (by omega)
  rw [replyHeader_start hxid, hload, ok_bind]
  generalize req[2] = hlen at hload ⊢
  generalize (req.drop 4).take 4 = xid at hxid hfour ⊢
  have hstart := length_replyStart hfour
  have hid (rest : Bytes) : ((replyStart xid ++ rest).drop 4).take 4 = xid := by
    rw [replyStart]
    simp [hfour]
  by_cases hfits : hlen.toNat ≤ 16 ∧ 28 + hlen.toNat ≤ req.length
  · have hchaddr : slice req 28 (28 + hlen.toNat) = _ :=
      slice_of_le (Nat.le_add_right 28 hlen.toNat) hfits.2
    have hcount := length_slice hchaddr
    rw [Nat.add_sub_cancel_left] at hchaddr hcount
    generalize hbytes : (req.drop 28).take hlen.toNat = chaddr at hchaddr hcount
    have hwritten : (replyStart xid ++ List.replicate 4 0).length = 28 := by simp [hstart]
    simp only [if_pos hfits, hchaddr, ok_bind]
    refine ⟨_, copy_replicate 4 (272 - hlen.toNat) (by simp [hstart]) (by simp [hcount]) (by omega),
      replyStart xid ++ List.replicate 4 0 ++ (chaddr ++ List.replicate (208 - hlen.toNat) 0),
      ?_, ?_, ?_, ?_⟩
    · have hzeros : 272 - hlen.toNat = 208 - hlen.toNat + 64 := by omega
      simp only [hzeros, List.append_assoc, List.replicate_append_replicate]
    · simp only [List.length_append, List.length_replicate, hstart, hcount]
      omega
    · rw [List.append_assoc]
      exact hid _
    · intro hlen' hload' _
      cases hload'
      rw [hbytes, List.drop_left' hwritten, List.take_left' hcount]
  · refine ⟨_, if_neg hfits, replyStart xid ++ List.replicate 212 0, ?_, ?_, hid _, ?_⟩
    · rw [List.append_assoc, List.replicate_append_replicate]
    · rw [List.length_append, List.length_replicate, hstart]
    · intro hlen' hload' hle
      cases hload'
      exact absurd ⟨hle, by omega⟩ hfits

/-- An option of four bytes goes onto the end of what has been written. -/
theorem addressOption_eq {pre : Bytes} (hp : p = pre.length) (k : Nat) (code a b c d : UInt8)
    (f : Bytes → Exec β) :
    (store (pre ++ List.replicate (k + 6) 0) p code >>= fun r => store r (p + 1) 4 >>= fun r =>
      copy r (p + 2) (p + 6) [a, b, c, d] >>= f) =
        f (pre ++ [code, 4, a, b, c, d] ++ List.replicate k 0) := by
  subst hp
  rw [store_replicate (by rfl), ok_bind, store_replicate (by simp), ok_bind,
    copy_replicate 0 k (by simp) (by simp) (by simp [Nat.add_comm]), ok_bind]
  simp only [List.replicate_zero, List.append_assoc, List.nil_append, List.cons_append]

/-- The options of a reply. -/
def replyItems (answer : UInt8) : List DhcpItem :=
  [.opt ⟨53, [answer], by decide, by decide, by simp⟩,
    .opt ⟨54, apIp, by decide, by decide, by decide⟩,
    .opt ⟨51, [0, 0, 0x0E, 0x10], by decide, by decide, by decide⟩,
    .opt ⟨1, subnetMask, by decide, by decide, by decide⟩,
    .opt ⟨3, apIp, by decide, by decide, by decide⟩]

theorem replyOptions_eq {header : Bytes} (h : header.length = 236) (msgType : UInt8) :
    replyOptions (header ++ List.replicate 64 0) msgType =
      .ok (header ++ [99, 130, 83, 99] ++ (Tlv.bytes (replyItems (if msgType = 1 then 2 else 5)) ++
        255 :: List.replicate 32 0)) := by
  generalize hanswer : (if msgType = 1 then (2 : UInt8) else 5) = answer
  rw [replyOptions]
  dsimp only
  rw [store_replicate h.symm, ok_bind, store_replicate (by simp [h]), ok_bind,
    store_replicate (by simp [h]), ok_bind, store_replicate (by simp [h]), ok_bind,
    store_replicate (by simp [h]), ok_bind, store_replicate (by simp [h]), ok_bind, hanswer,
    store_replicate (by simp [h]), ok_bind]
  rw [apIp, subnetMask, addressOption_eq (by simp [h])]
  rw [store_replicate (by simp [h]), ok_bind, store_replicate (by simp [h]), ok_bind,
    store_replicate (by simp [h]), ok_bind, store_replicate (by simp [h]), ok_bind,
    store_replicate (by simp [h]), ok_bind, store_replicate (by simp [h]), ok_bind,
    addressOption_eq (by simp [h]), addressOption_eq (by simp [h]), store_replicate (by simp [h])]
  simp only [List.append_assoc]
  rfl

/-- What a reply owes the request it answers. -/
structure Replies (req : Bytes) (msgType : Option UInt8) (reply : Bytes) : Prop where
  length : reply.length = 300
  xid : (reply.drop 4).take 4 = (req.drop 4).take 4
  chaddr : ∀ hlen, load req 2 = .ok hlen → hlen.toNat ≤ 16 →
    (reply.drop 28).take hlen.toNat = (req.drop 28).take hlen.toNat
  options : ∃ (items : List DhcpItem) (rest : Bytes),
    reply.drop 240 = Tlv.bytes items ++ 255 :: rest
  offer : msgType = some 1 → dhcpOptionU8 reply 53 = .ok (some 2)
  ack : msgType = some 3 → dhcpOptionU8 reply 53 = .ok (some 5)

/-- What is appended to a header does not reach into it. -/
theorem field_append {header : Bytes} (h : a + n ≤ header.length) (rest : Bytes) :
    ((header ++ rest).drop a).take n = (header.drop a).take n := by
  have hdrop : n ≤ (header.drop a).length := by
    rw [List.length_drop]
    omega
  rw [List.drop_append_of_le_length (by omega), List.take_append_of_le_length hdrop]

theorem buildDhcpReply_yields {req : Bytes} (h : 236 ≤ req.length) (msgType : UInt8) :
    Yields (buildDhcpReply req msgType) (Replies req (some msgType)) := by
  refine (replyHeader_yields h).bind fun r hr => ?_
  obtain ⟨header, rfl, hlength, hxid, hchaddr⟩ := hr
  have hcookie : (header ++ [99, 130, 83, 99]).length = 240 := by simp [hlength]
  have htype (answer : UInt8) :
      Tlv.lookup 53 (replyItems answer) = some answer := rfl
  have hscan := dhcpOptionU8_items hcookie (replyItems (if msgType = 1 then 2 else 5))
    (List.replicate 32 0) 53
  rw [htype] at hscan
  refine ⟨_, replyOptions_eq hlength msgType, ?_, ?_, ?_, ⟨_, _, List.drop_left' hcookie⟩, ?_, ?_⟩
  · simp [hlength, replyItems, Tlv.Item.bytes, apIp, subnetMask]
  · rw [← hxid, List.append_assoc, field_append (by omega)]
  · intro hlen hload hle
    rw [← hchaddr hlen hload hle, List.append_assoc, field_append (by omega)]
  · intro hdiscover
    cases hdiscover
    exact hscan
  · intro hrequest
    cases hrequest
    exact hscan

/-- What becomes of what was received. -/
def Handled : Option Bytes → Option Bytes → Prop
  | none, reply => reply = none
  | some datagram, reply => ∃ msgType, dhcpOptionU8 datagram 53 = .ok msgType ∧
      (reply.isSome ↔ 236 ≤ datagram.length ∧ datagram.head? = some 1 ∧
        (msgType = some 1 ∨ msgType = some 3)) ∧
      ∀ r, reply = some r → Replies datagram msgType r

theorem handled_none {datagram : Bytes} (hscan : dhcpOptionU8 datagram 53 = .ok msgType)
    (h : ¬ (236 ≤ datagram.length ∧ datagram.head? = some 1 ∧
      (msgType = some 1 ∨ msgType = some 3))) : Handled (some datagram) none := by
  refine ⟨msgType, hscan, ⟨fun hsome => ?_, fun hc => absurd hc h⟩, fun r hr => ?_⟩
  · cases hsome
  · cases hr

theorem known_type {msgType : Option UInt8}
    (h : ¬ (msgType.getD 0 ≠ 1 ∧ msgType.getD 0 ≠ 3)) :
    (msgType = some 1 ∨ msgType = some 3) ∧ some (msgType.getD 0) = msgType := by
  cases msgType with
  | none => exact absurd ⟨by decide, by decide⟩ h
  | some t => exact ⟨by simpa [or_iff_not_imp_left] using h, rfl⟩

theorem dhcpTurn_yields {pkt : Bytes} (hpkt : pkt.length = 548) {received : Option Bytes}
    (hreceived : ∀ datagram ∈ received, datagram.length ≤ 548) :
    Yields (dhcpTurn pkt received) fun out =>
      out.2.length = 548 ∧ Handled received out.1 := by
  cases received with
  | none => exact .ok ⟨hpkt, rfl⟩
  | some datagram =>
    have hfits := hreceived datagram rfl
    obtain ⟨msgType, hscan, -⟩ := dhcpOptionU8_yields datagram 53
    have hlength : (datagram ++ pkt.drop datagram.length).length = 548 := by
      rw [List.length_append, List.length_drop]
      omega
    have hslice : slice (datagram ++ pkt.drop datagram.length) 0 datagram.length =
        .ok datagram := by
      rw [slice_zero (by rw [List.length_append]; omega), List.take_left]
    rw [dhcpTurn]
    refine .ite (fun hshort => ?_) fun hlong => ?_
    · exact .ok ⟨hlength, handled_none hscan fun h => absurd h.1 (Nat.not_le.2 hshort)⟩
    obtain ⟨op, rest, rfl⟩ := List.exists_cons_of_length_pos (l := datagram) (by omega)
    have hop : load (op :: rest ++ pkt.drop (op :: rest).length) 0 = .ok op := rfl
    rw [hop, ok_bind]
    refine .ite (fun hop => ?_) fun hop => ?_
    · refine .ok ⟨hlength, handled_none hscan fun h => hop ?_⟩
      exact Option.some.inj h.2.1
    rw [hslice, ok_bind, hscan, ok_bind]
    refine .ite (fun htype => ?_) fun htype => ?_
    · refine .ok ⟨hlength, handled_none hscan fun h => ?_⟩
      rcases h.2.2 with rfl | rfl
      · exact htype.1 rfl
      · exact htype.2 rfl
    rw [ok_bind]
    obtain ⟨hknown, hget⟩ := known_type htype
    refine (buildDhcpReply_yields (Nat.not_lt.1 hlong) _).bind fun reply hreply => ?_
    rw [hget] at hreply
    refine .ok ⟨hlength, msgType, hscan, ?_, fun r hr => ?_⟩
    · exact ⟨fun _ => ⟨Nat.not_lt.1 hlong, congrArg some (not_not.1 hop), hknown⟩, fun _ => rfl⟩
    · cases hr
      exact hreply

theorem dhcpServerLoop_yields {pkt : Bytes} (hpkt : pkt.length = 548)
    {received : List (Option Bytes)}
    (hreceived : ∀ datagram, some datagram ∈ received → datagram.length ≤ 548) :
    Yields (dhcpServerLoop pkt received) fun replies => List.Forall₂ Handled received replies := by
  induction received generalizing pkt with
  | nil => exact .ok .nil
  | cons first later ih =>
    have hfirst : ∀ datagram ∈ first, datagram.length ≤ 548 := by
      rintro datagram hmem
      exact hreceived datagram (hmem ▸ List.mem_cons_self)
    refine (dhcpTurn_yields hpkt hfirst).bind fun out hout => ?_
    obtain ⟨hpkt', hhandled⟩ := hout
    have hlater := ih hpkt' fun datagram hmem => hreceived datagram (.tail first hmem)
    exact hlater.bind fun replies hreplies => .ok (.cons hhandled hreplies)

/-- Every datagram that fits the packet buffer is handled safely, whatever came before it, and the
options are read as they were written. -/
theorem dhcp_server_correct :
    (∀ received : List (Option Bytes),
      (∀ datagram, some datagram ∈ received → datagram.length ≤ 548) →
        Yields (dhcpServer received) fun replies => List.Forall₂ Handled received replies) ∧
    (∀ (header : Bytes) (items : List DhcpItem) (rest : Bytes) (option : UInt8),
      header.length = 240 →
        dhcpOptionU8 (header ++ (Tlv.bytes items ++ 255 :: rest)) option =
          .ok (Tlv.lookup option items)) :=
  ⟨fun _ hreceived => dhcpServerLoop_yields List.length_replicate hreceived,
    fun _ items rest option hheader => dhcpOptionU8_items hheader items rest option⟩

theorem discover_handled :
    Yields (dhcpServer [some (1 :: List.replicate 239 0 ++ [53, 1, 1, 255])]) (fun replies =>
      List.Forall₂ Handled [some (1 :: List.replicate 239 0 ++ [53, 1, 1, 255])] replies) ∧
    dhcpOptionU8 (1 :: List.replicate 239 0 ++ [53, 1, 1, 255]) 53 = .ok (some 1) := by
  refine ⟨dhcp_server_correct.1 _ fun datagram hmem => ?_, ?_⟩
  · rw [Option.some.inj (List.mem_singleton.1 hmem), List.length_append, List.length_cons,
      List.length_replicate]
    decide
  · exact dhcp_server_correct.2 (1 :: List.replicate 239 0)
      [.opt ⟨53, [1], by decide, by decide, by decide⟩] [] 53
      (congrArg (· + 1) List.length_replicate)

end PicoConduit
