import Nilix.Net.ConntrackForgery

/-!
# Connection tracking: echo requests and replies

`ct_process_icmp` of `kernel/net/src/conntrack.rs` keeps the identifier of a message as its source
port and its type and code as its destination port, whichever way the message goes.  A reply then
carries the same source port as its request where the normalised key wants it as the destination,
and the two belong to different flows.
-/

namespace Nilix.Net.Ct

open FallibleOrderedMap ConntrackTable

/-- Two packets share a flow exactly when they have the same two endpoints. -/
lemma FlowKey.fromPacket_eq_iff {ns proto srcIp dstIp srcPort dstPort : ℕ}
    {ns' proto' srcIp' dstIp' srcPort' dstPort' : ℕ} :
    (fromPacket ns proto srcIp dstIp srcPort dstPort).1 =
        (fromPacket ns' proto' srcIp' dstIp' srcPort' dstPort').1 ↔
      ns = ns' ∧ proto = proto' ∧
        (srcIp = srcIp' ∧ srcPort = srcPort' ∧ dstIp = dstIp' ∧ dstPort = dstPort' ∨
          srcIp = dstIp' ∧ srcPort = dstPort' ∧ dstIp = srcIp' ∧ dstPort = srcPort') := by
  simp only [fromPacket, Prod.Lex.toLex_le_toLex]
  split_ifs <;> simp only [FlowKey.mk.injEq] <;> omega

/-- The packet that `ct_process_icmp` hands to `update_on_packet`. -/
def icmpPacket (netNsId srcIp dstIp icmpType icmpCode icmpId payloadLen nowMs : ℕ) : Packet :=
  let pseudoSrcPort := icmpId
  let pseudoDstPort := icmpType <<< 8 ||| icmpCode
  ⟨netNsId, ipprotoIcmp, srcIp, dstIp, pseudoSrcPort, pseudoDstPort, ⟨0, payloadLen⟩, nowMs⟩

/-- `ct_process_icmp`: `none` sends the packet to `create_entry`. -/
def ctProcessIcmp (t : ConntrackTable)
    (netNsId srcIp dstIp icmpType icmpCode icmpId payloadLen nowMs : ℕ) :
    ConntrackTable × Option CtUpdateResult :=
  -- the flow that an error message is about is not looked up
  if icmpType = 3 ∨ icmpType = 11 ∨ icmpType = 12 then
    (t, some ⟨.related, .icmp .echoRequest, .original, false⟩)
  else t.updateOnPacket (icmpPacket netNsId srcIp dstIp icmpType icmpCode icmpId payloadLen nowMs)

/-- An echo reply finds a flow, in the reply direction, and is `Established`. -/
def Answers (t : ConntrackTable) (key : FlowKey)
    (netNsId srcIp dstIp icmpId payloadLen nowMs : ℕ) : Prop :=
  let reply := icmpPacket netNsId srcIp dstIp 0 0 icmpId payloadLen nowMs
  reply.key = key ∧ (t.entries.get key).map (fun e => e.stateDir reply.dir) = some .reply ∧
    (ctProcessIcmp t netNsId srcIp dstIp 0 0 icmpId payloadLen nowMs).2.map
      (fun result => result.decision) = some .established
deriving Decidable

/-- The flow of an echo request. -/
def requestKey (netNsId srcIp dstIp icmpId : ℕ) : FlowKey :=
  (icmpPacket netNsId srcIp dstIp 8 0 icmpId 0 0).key

/-- The flow of a request is answered by the reply to it, and by no other. -/
def PingPairing (t : ConntrackTable) (netNsId srcIp dstIp icmpId payloadLen nowMs : ℕ) : Prop :=
  ∀ netNsId' srcIp' dstIp' icmpId',
    Answers t (requestKey netNsId srcIp dstIp icmpId) netNsId' srcIp' dstIp' icmpId' payloadLen
        nowMs ↔
      netNsId' = netNsId ∧ srcIp' = dstIp ∧ dstIp' = srcIp ∧ icmpId' = icmpId

/-- The one reply that shares the flow of a request has the type of the request for an identifier,
and the request has the type of the reply. -/
lemma reply_key_eq_iff {netNsId srcIp dstIp icmpId netNsId' srcIp' dstIp' icmpId' : ℕ}
    {payloadLen nowMs : ℕ} :
    (icmpPacket netNsId' srcIp' dstIp' 0 0 icmpId' payloadLen nowMs).key =
        requestKey netNsId srcIp dstIp icmpId ↔
      netNsId' = netNsId ∧ srcIp' = dstIp ∧ dstIp' = srcIp ∧ icmpId = 0 ∧ icmpId' = 0x800 := by
  have hreply : 0 <<< 8 ||| 0 = 0 := rfl
  have hrequest : 8 <<< 8 ||| 0 = 0x800 := rfl
  simp only [requestKey, Packet.key, icmpPacket, FlowKey.fromPacket_eq_iff, hreply, hrequest,
    true_and]
  omega

/-- In every table, an echo request is not paired with its reply. -/
theorem ping_never_paired (t : ConntrackTable) (netNsId srcIp dstIp icmpId payloadLen nowMs : ℕ) :
    ¬ PingPairing t netNsId srcIp dstIp icmpId payloadLen nowMs := by
  intro hpairing
  obtain ⟨hkey, -⟩ := (hpairing netNsId dstIp srcIp icmpId).mpr ⟨rfl, rfl, rfl, rfl⟩
  obtain ⟨-, -, -, hzero, htype⟩ := reply_key_eq_iff.mp hkey
  omega

namespace World

/-- A request from 1 to 2 is tracked. -/
def pinged (icmpId : ℕ) : List (Event Unit) :=
  .call 0 (.updateOnPacket (icmpPacket 0 1 2 8 0 icmpId 64 0)) :: steps 4

/-- The reply to a tracked request opens a flow of its own.  A request with the identifier 0 is
answered by a reply with the identifier 2048. -/
theorem ping_opens_two_flows :
    ((start.run (pinged 7)).table.entries.get (requestKey 0 1 2 7)).map
        (fun e => (e.state, e.isExpired 10)) = some (.icmp .echoRequest, false) ∧
      ¬ Answers (start.run (pinged 7)).table (requestKey 0 1 2 7) 0 2 1 7 64 10 ∧
      (start.run (pinged 7 ++ .call 0 (.updateOnPacket (icmpPacket 0 2 1 0 0 7 64 10)) ::
        steps 4)).log.filterMap (fun | .updated _ result => some result.decision | _ => none) =
          [.new, .new] ∧
      Answers (start.run (pinged 0)).table (requestKey 0 1 2 0) 0 2 1 0x800 64 10 := by
  decide +kernel

end World

end Nilix.Net.Ct
