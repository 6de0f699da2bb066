import Mathlib.Logic.Function.Basic
import Ns3.Internet.Ipv4EndPointDemux
import Ns3.Internet.Ipv4Header
import Ns3.Network.PacketTagRuns

/-!
# `Ipv4L3ProtocolwithFecEncode::Send` without a route

A call without a route calls `Send` again with one route for each interface that matches, on one packet
whose tags the first of these calls takes away, and takes back in `DecreaseIdentification` what
`BuildHeader` counted. What is passed to `SendRealOut` is recorded. Source:
`contrib/fec/model/ipv4-l3-protocol-with-fec-encode.cc:752–963`.
-/

namespace Ns3.Internet

open Ns3.Network

/-! ### Packets -/

/-- The tags of a packet, those that `Send` takes apart from any other. -/
inductive SocketTag (W : Type*) where
  | SocketIpTtlTag (m_ttl : UInt8)
  | SocketIpTosTag (m_ipTos : UInt8)
  | other (w : W)
deriving DecidableEq, Repr

/-- The methods of the two classes, before those of the others. -/
def socketTags {W : Type*} (methods : TagMethods W) : TagMethods (SocketTag W) where
  tid
    | .SocketIpTtlTag _ => 0
    | .SocketIpTosTag _ => 1
    | .other w => methods.tid w + 2
  serialize
    | .SocketIpTtlTag m_ttl => [m_ttl]
    | .SocketIpTosTag m_ipTos => [m_ipTos]
    | .other w => methods.serialize w
  deserialize tid data :=
    match tid with
    | 0 => .SocketIpTtlTag (data.headD 0)
    | 1 => .SocketIpTosTag (data.headD 0)
    | tid + 2 => .other (methods.deserialize tid data)
  deserialize_serialize v rest := by
    cases v with
    | SocketIpTtlTag m_ttl => rfl
    | SocketIpTosTag m_ipTos => rfl
    | other w => exact congrArg _ (methods.deserialize_serialize w rest)

/-- A packet, that has no two tags of one type. -/
@[ext]
structure TaggedPacket {W : Type*} (methods : TagMethods W) where
  payload : List UInt8
  tags : List (SocketTag W)
  distinct : (tags.map (socketTags methods).tid).Nodup

namespace TaggedPacket

variable {W : Type*} {methods : TagMethods W}

/-- `RemovePacketTag`: the tag of the type, and the packet without it. -/
def removePacketTag (p : TaggedPacket methods) (tid : ℕ) : Option (SocketTag W) × TaggedPacket methods :=
  ((socketTags methods).first tid p.tags,
    { p with
      tags := (socketTags methods).erase tid p.tags
      distinct := (List.eraseP_sublist.map _).nodup p.distinct })

/-- The packet without both tags. -/
def untagged (p : TaggedPacket methods) : TaggedPacket methods :=
  ((p.removePacketTag 0).2.removePacketTag 1).2

/-- The value of the tag, else the default. -/
def ttl (m_defaultTtl : UInt8) (p : TaggedPacket methods) : UInt8 :=
  match (p.removePacketTag 0).1 with
  | some (.SocketIpTtlTag m_ttl) => m_ttl
  | _ => m_defaultTtl

def tos (p : TaggedPacket methods) : UInt8 :=
  match ((p.removePacketTag 0).2.removePacketTag 1).1 with
  | some (.SocketIpTosTag m_ipTos) => m_ipTos
  | _ => 0

/-- There is none of both tags. -/
def Bare (p : TaggedPacket methods) : Prop :=
  ∀ tag ∈ p.tags, (socketTags methods).tid tag ≠ 0 ∧ (socketTags methods).tid tag ≠ 1

theorem mem_erase {tid : ℕ} {tags : List (SocketTag W)} (h : (tags.map (socketTags methods).tid).Nodup)
    {tag : SocketTag W} (htag : tag ∈ (socketTags methods).erase tid tags) :
    (socketTags methods).tid tag ≠ tid := by
  induction tags with
  | nil => cases htag
  | cons head tags ih =>
    rw [List.map_cons, List.nodup_cons] at h
    rw [TagMethods.erase, List.eraseP_cons] at htag
    by_cases hhead : (socketTags methods).tid head = tid
    · rw [decide_eq_true hhead, cond_true] at htag
      rintro rfl
      exact h.1 (hhead ▸ List.mem_map_of_mem htag)
    · rw [decide_eq_false hhead, cond_false] at htag
      rcases List.mem_cons.mp htag with rfl | htag
      · exact hhead
      · exact ih h.2 htag

theorem untagged_bare (p : TaggedPacket methods) : p.untagged.Bare := by
  intro tag htag
  have hone := mem_erase (p.removePacketTag 0).2.distinct htag
  have hzero := mem_erase p.distinct (List.mem_of_mem_eraseP htag)
  exact ⟨hzero, hone⟩

theorem Bare.untagged_eq {p : TaggedPacket methods} (h : p.Bare) : p.untagged = p := by
  have hzero : (p.removePacketTag 0).2 = p :=
    TaggedPacket.ext rfl (List.eraseP_of_forall_not fun tag htag => by simpa using (h tag htag).1)
  have hone : (p.removePacketTag 1).2 = p :=
    TaggedPacket.ext rfl (List.eraseP_of_forall_not fun tag htag => by simpa using (h tag htag).2)
  rw [untagged, hzero, hone]

theorem Bare.ttl {p : TaggedPacket methods} (h : p.Bare) (m_defaultTtl : UInt8) :
    p.ttl m_defaultTtl = m_defaultTtl := by
  rw [TaggedPacket.ttl, removePacketTag, first_eq_none fun tag htag => (h tag htag).1]

theorem Bare.tos {p : TaggedPacket methods} (h : p.Bare) : p.tos = 0 := by
  have hone : ∀ tag ∈ (p.removePacketTag 0).2.tags, (socketTags methods).tid tag ≠ 1 :=
    fun tag htag => (h tag (List.mem_of_mem_eraseP htag)).2
  rw [TaggedPacket.tos, removePacketTag]
  dsimp only
  rw [first_eq_none hone]

end TaggedPacket

/-! ### The protocol -/

/-- A route; a gateway may be uninitialized. -/
structure Ipv4Route where
  m_dest : UInt32
  m_source : UInt32
  m_gateway : Option UInt32
  m_outputDevice : ℕ
deriving DecidableEq, Repr

/-- What is passed to `SendRealOut`. -/
structure Ipv4Copy where
  route : Ipv4Route
  payload : List UInt8
  ipHeader : Ipv4Header
deriving DecidableEq, Repr

structure Ipv4L3ProtocolwithFecEncode where
  m_interfaces : List (Ipv4Interface ℕ)
  m_defaultTtl : UInt8
  /-- By source and destination, and protocol. -/
  m_identification : UInt64 × UInt8 → UInt16
  checksumEnabled : Bool
  sent : List Ipv4Copy

namespace Ipv4L3ProtocolwithFecEncode

/-- The key of `m_identification`. -/
def identificationKey (source destination : UInt32) (protocol : UInt8) : UInt64 × UInt8 :=
  let src := source.toUInt64
  let dst := destination.toUInt64
  (dst ||| src <<< 32, protocol)

def decreaseIdentification (s : Ipv4L3ProtocolwithFecEncode) (source destination : UInt32) (protocol : UInt8) :
    Ipv4L3ProtocolwithFecEncode :=
  let key := identificationKey source destination protocol
  { s with m_identification := Function.update s.m_identification key (s.m_identification key - 1) }

/-- `BuildHeader`: the header, and the state then. -/
def buildHeader (s : Ipv4L3ProtocolwithFecEncode) (source destination : UInt32) (protocol : UInt8)
    (payloadSize : UInt16) (ttl tos : UInt8) (mayFragment : Bool) : Ipv4Header × Ipv4L3ProtocolwithFecEncode :=
  let key := identificationKey source destination protocol
  let m_flags := if mayFragment then (0 : BitVec 3) &&& ~~~Ipv4Header.dontFragment else 0 ||| Ipv4Header.dontFragment
  ({  m_source := source, m_destination := destination, m_protocol := protocol, m_payloadSize := payloadSize
      m_ttl := ttl, m_tos := tos, m_flags, m_identification := s.m_identification key
      m_calcChecksum := s.checksumEnabled },
    { s with m_identification := Function.update s.m_identification key (s.m_identification key + 1) })

/-- `IsBroadcast`. -/
def isBroadcast (address : UInt32) : Bool := address = 0xffffffff

/-- `IsLocalMulticast`. -/
def isLocalMulticast (address : UInt32) : Bool := address &&& 0xffffff00 = 0xe0000000

def isSubnetDirectedBroadcast (address mask : UInt32) : Bool :=
  if mask = 0xffffffff then false else address ||| ~~~mask = address

/-- `GetInterfaceForDevice`: the last interface that was added for the device. -/
def getInterfaceForDevice (s : Ipv4L3ProtocolwithFecEncode) (device : ℕ) : Option (Ipv4Interface ℕ) :=
  s.m_interfaces.reverse.find? fun interface => interface.m_device = device

/-- The interface has the source for an address, or the source is any. -/
def sendIt (source : UInt32) (outInterface : Ipv4Interface ℕ) : Bool :=
  source = 0 || outInterface.m_ifaddrs.any fun ifAddr => ifAddr.m_local = source

/-- The destination is the broadcast of the subnet of an address of the interface. -/
def subnetDirected (s : Ipv4L3ProtocolwithFecEncode) (destination : UInt32) (outInterface : Ipv4Interface ℕ) : Bool :=
  (s.getInterfaceForDevice outInterface.m_device).any fun interface =>
    interface.m_ifaddrs.any fun ifAddr =>
      isSubnetDirectedBroadcast destination ifAddr.m_mask &&
        destination &&& ifAddr.m_mask = ifAddr.m_local &&& ifAddr.m_mask

/-- A proxy route for an interface. -/
def proxyRoute (source destination : UInt32) (outInterface : Ipv4Interface ℕ) : Ipv4Route where
  m_dest := destination
  m_gateway := some 0
  m_source := source
  m_outputDevice := outInterface.m_device

section Send

variable {W : Type*} {methods : TagMethods W} (s : Ipv4L3ProtocolwithFecEncode) (packet : TaggedPacket methods)
  (source destination : UInt32) (protocol : UInt8)

/-- What every call of `Send` begins with: the header, the packet without tags, and the state then. -/
def beginSend : Ipv4Header × TaggedPacket methods × Ipv4L3ProtocolwithFecEncode :=
  let (ipHeader, s) := s.buildHeader source destination protocol (UInt16.ofNat packet.payload.length)
    (packet.ttl s.m_defaultTtl) packet.tos true
  (ipHeader, packet.untagged, s)

/-- `Send` with a route, which aborts when the gateway is uninitialized; the packet loses its tags. -/
def sendRouted (route : Ipv4Route) : Option (TaggedPacket methods × Ipv4L3ProtocolwithFecEncode) :=
  let (ipHeader, packet, s) := s.beginSend packet source destination protocol
  if route.m_gateway.isNone then none
  else some (packet, { s with sent := s.sent ++ [⟨route, packet.payload, ipHeader⟩] })

/-- `Send` again for each interface that matches, with one packet. -/
def sendBroadcast : List (Ipv4Interface ℕ) → TaggedPacket methods → Ipv4L3ProtocolwithFecEncode →
    Option Ipv4L3ProtocolwithFecEncode
  | [], _, s => some s
  | outInterface :: interfaces, pktCopyWithTags, s =>
    if sendIt source outInterface then
      ((s.decreaseIdentification source destination protocol).sendRouted pktCopyWithTags source destination protocol
        (proxyRoute source destination outInterface)).bind fun r => sendBroadcast interfaces r.1 r.2
    else sendBroadcast interfaces pktCopyWithTags s

/-- `Send` without a route. `RouteOutput` of the routing protocol, if there is one, may change the packet. -/
def send (routeOutput : Option (TaggedPacket methods → Ipv4Header → Option Ipv4Route × TaggedPacket methods)) :
    Option Ipv4L3ProtocolwithFecEncode :=
  let pktCopyWithTags := packet
  let (ipHeader, _, s) := s.beginSend packet source destination protocol
  if isBroadcast destination || isLocalMulticast destination then
    sendBroadcast source destination protocol s.m_interfaces pktCopyWithTags s
  else
    match s.m_interfaces.find? (s.subnetDirected destination) with
    | some outInterface =>
      ((s.decreaseIdentification source destination protocol).sendRouted pktCopyWithTags source destination protocol
        (proxyRoute source destination outInterface)).map Prod.snd
    | none =>
      match routeOutput.map fun routeOutput => routeOutput pktCopyWithTags ipHeader with
      | some (some newRoute, pktCopyWithTags) =>
        ((s.decreaseIdentification source destination protocol).sendRouted pktCopyWithTags source destination
          protocol newRoute).map Prod.snd
      | _ => some (s.decreaseIdentification source destination protocol)

end Send

/-! ### One datagram -/

/-- Copies of one datagram. -/
structure Same (c c' : Ipv4Copy) : Prop where
  identification : c.ipHeader.m_identification = c'.ipHeader.m_identification
  ttl : c.ipHeader.m_ttl = c'.ipHeader.m_ttl
  tos : c.ipHeader.m_tos = c'.ipHeader.m_tos
  payload : c.payload = c'.payload

/-- The copies that were sent are of one datagram, which is counted if there is one. -/
def OneDatagram (s s' : Ipv4L3ProtocolwithFecEncode) (key : UInt64 × UInt8) : Prop :=
  ∃ copies, s'.sent = s.sent ++ copies ∧ (∀ c ∈ copies, ∀ c' ∈ copies, Same c c') ∧
    s'.m_identification key = if copies = [] then s.m_identification key else s.m_identification key + 1

section Send

variable {W : Type*} {methods : TagMethods W} {s : Ipv4L3ProtocolwithFecEncode} {packet : TaggedPacket methods}
  {source destination : UInt32} {protocol : UInt8}

/-- The copy that a call with a route sends. -/
def copyOf (s : Ipv4L3ProtocolwithFecEncode) (packet : TaggedPacket methods) (source destination : UInt32)
    (protocol : UInt8) (route : Ipv4Route) : Ipv4Copy :=
  ⟨route, packet.payload,
    ((s.decreaseIdentification source destination protocol).beginSend packet source destination protocol).1⟩

/-- The counter is as before, the header has taken the number below it. -/
theorem sendRouted_decrease (route : Ipv4Route) (hroute : route.m_gateway.isSome) :
    (s.decreaseIdentification source destination protocol).sendRouted packet source destination protocol route =
      some (packet.untagged,
        { s with sent := s.sent ++ [copyOf s packet source destination protocol route] }) := by
  have hcounter : ∀ f : UInt64 × UInt8 → UInt16, ∀ key, Function.update (Function.update f key (f key - 1)) key
      (Function.update f key (f key - 1) key + 1) = f := by
    intro f key
    rw [Function.update_self, Function.update_idem, UInt16.sub_add_cancel, Function.update_eq_self]
  simp only [sendRouted, copyOf, beginSend, buildHeader, decreaseIdentification, hcounter]
  rw [if_neg (by rw [Option.isNone_eq_false_iff.mpr hroute]; decide)]
  rfl

/-- The copies that are sent to interfaces, when tags are left in the packet for each of them. -/
def copiesOf (s : Ipv4L3ProtocolwithFecEncode) (packet : TaggedPacket methods) (source destination : UInt32)
    (protocol : UInt8) (interfaces : List (Ipv4Interface ℕ)) : List Ipv4Copy :=
  interfaces.map fun outInterface =>
    copyOf s packet source destination protocol (proxyRoute source destination outInterface)

/-- Without tags, every interface that matches gets the same. -/
theorem sendBroadcast_bare (hbare : packet.Bare) (interfaces : List (Ipv4Interface ℕ)) :
    sendBroadcast source destination protocol interfaces packet s = some { s with
      sent := s.sent ++ copiesOf s packet source destination protocol (interfaces.filter (sendIt source)) } := by
  induction interfaces generalizing s with
  | nil =>
    rw [List.filter_nil, copiesOf, List.map_nil, List.append_nil]
    rfl
  | cons outInterface interfaces ih =>
    rw [sendBroadcast, List.filter_cons]
    by_cases hsend : sendIt source outInterface
    · rw [if_pos hsend, if_pos hsend, sendRouted_decrease _ rfl, Option.bind_some, hbare.untagged_eq, ih,
        copiesOf, copiesOf, List.map_cons]
      dsimp only
      rw [List.append_assoc, List.singleton_append]
      rfl
    · rw [if_neg hsend, if_neg hsend, ih]

/-- The copies of a broadcast: the first interface gets the tags. -/
def broadcastCopies (s : Ipv4L3ProtocolwithFecEncode) (packet : TaggedPacket methods) (source destination : UInt32)
    (protocol : UInt8) (interfaces : List (Ipv4Interface ℕ)) : List Ipv4Copy :=
  copiesOf s packet source destination protocol (interfaces.take 1) ++
    copiesOf s packet.untagged source destination protocol (interfaces.drop 1)

theorem sendBroadcast_eq (interfaces : List (Ipv4Interface ℕ)) :
    sendBroadcast source destination protocol interfaces packet s = some { s with
      sent := s.sent ++
        broadcastCopies s packet source destination protocol (interfaces.filter (sendIt source)) } := by
  induction interfaces generalizing s with
  | nil =>
    rw [List.filter_nil, broadcastCopies, List.take_nil, List.drop_nil, copiesOf, copiesOf, List.map_nil,
      List.map_nil, List.append_nil, List.append_nil]
    rfl
  | cons outInterface interfaces ih =>
    rw [sendBroadcast, List.filter_cons]
    by_cases hsend : sendIt source outInterface
    · rw [if_pos hsend, if_pos hsend, sendRouted_decrease _ rfl, Option.bind_some,
        sendBroadcast_bare packet.untagged_bare, broadcastCopies, List.take_succ_cons, List.take_zero,
        List.drop_succ_cons, List.drop_zero, copiesOf, copiesOf, copiesOf, List.map_singleton,
        ← List.append_assoc s.sent]
      rfl
    · rw [if_neg hsend, if_neg hsend, ih]

/-! ### Calls without a route -/

theorem copyOf_identification (route : Ipv4Route) :
    (copyOf s packet source destination protocol route).ipHeader.m_identification =
      s.m_identification (identificationKey source destination protocol) - 1 :=
  Function.update_self _ _ _

/-- The counter, one further. -/
theorem beginSend_state : (s.beginSend packet source destination protocol).2.2 = { s with
    m_identification := Function.update s.m_identification (identificationKey source destination protocol)
      (s.m_identification (identificationKey source destination protocol) + 1) } := rfl

/-- What a single copy, or none, amounts to. -/
theorem oneDatagram_of_sendRouted {s' : Ipv4L3ProtocolwithFecEncode} {packet' : TaggedPacket methods}
    {route : Ipv4Route}
    (h : (((s.beginSend packet source destination protocol).2.2.decreaseIdentification source destination
      protocol).sendRouted packet' source destination protocol route).map Prod.snd = some s') :
    OneDatagram s s' (identificationKey source destination protocol) := by
  cases hroute : route.m_gateway with
  | none =>
    simp only [sendRouted, hroute, Option.isNone_none, if_true, Option.map_none] at h
    cases h
  | some gateway =>
    rw [sendRouted_decrease route (by rw [hroute, Option.isSome_some])] at h
    cases h
    refine ⟨[copyOf _ packet' source destination protocol route], rfl, ?_, ?_⟩
    · intro c hc c' hc'
      rw [List.mem_singleton.mp hc, List.mem_singleton.mp hc']
      exact ⟨rfl, rfl, rfl, rfl⟩
    · rw [if_neg (List.cons_ne_nil _ _), beginSend_state]
      exact Function.update_self _ _ _

/-- Without a broadcast at most one copy is sent, and a packet that is dropped is not counted. -/
theorem oneDatagram_of_unicast {s' : Ipv4L3ProtocolwithFecEncode}
    {routeOutput : Option (TaggedPacket methods → Ipv4Header → Option Ipv4Route × TaggedPacket methods)}
    (hdestination : ¬(isBroadcast destination || isLocalMulticast destination))
    (h : s.send packet source destination protocol routeOutput = some s') :
    OneDatagram s s' (identificationKey source destination protocol) := by
  simp only [send] at h
  rw [if_neg hdestination] at h
  split at h
  · exact oneDatagram_of_sendRouted h
  · split at h
    · exact oneDatagram_of_sendRouted h
    · cases h
      refine ⟨[], (List.append_nil _).symm, fun c hc => absurd hc List.not_mem_nil, ?_⟩
      rw [if_pos rfl, beginSend_state, decreaseIdentification]
      dsimp only
      rw [Function.update_self, Function.update_self, UInt16.add_sub_cancel]

/-- The counter has gone one further, so a copy must have been sent. -/
theorem oneDatagram_iff (copies : List Ipv4Copy) :
    OneDatagram s { (s.beginSend packet source destination protocol).2.2 with sent := s.sent ++ copies }
        (identificationKey source destination protocol) ↔
      copies ≠ [] ∧ ∀ c ∈ copies, ∀ c' ∈ copies, Same c c' := by
  rw [beginSend_state]
  constructor
  · rintro ⟨copies', hsent, hsame, hcount⟩
    obtain rfl := List.append_cancel_left hsent
    refine ⟨fun hnil => ?_, hsame⟩
    dsimp only at hcount
    rw [if_pos hnil, Function.update_self] at hcount
    have hone : (1 : UInt16) = 0 := by
      rwa [← UInt16.add_right_inj, UInt16.add_zero]
    exact absurd hone (by decide)
  · rintro ⟨hne, hsame⟩
    refine ⟨copies, rfl, hsame, ?_⟩
    dsimp only
    rw [if_neg hne, Function.update_self]

/-- A broadcast has an interface to be sent from, and the tags say nothing if it has several. -/
def SendsOnce (s : Ipv4L3ProtocolwithFecEncode) (packet : TaggedPacket methods) (source destination : UInt32) :
    Prop :=
  isBroadcast destination || isLocalMulticast destination →
    (s.m_interfaces.filter (sendIt source)).length = 1 ∨
      1 < (s.m_interfaces.filter (sendIt source)).length ∧ packet.ttl s.m_defaultTtl = s.m_defaultTtl ∧ packet.tos = 0

theorem mem_copiesOf {interfaces : List (Ipv4Interface ℕ)} {c : Ipv4Copy}
    (h : c ∈ copiesOf s packet source destination protocol interfaces) :
    c.payload = packet.payload ∧ c.ipHeader.m_ttl = packet.ttl s.m_defaultTtl ∧ c.ipHeader.m_tos = packet.tos ∧
      c.ipHeader.m_identification = s.m_identification (identificationKey source destination protocol) - 1 := by
  obtain ⟨outInterface, -, rfl⟩ := List.mem_map.mp h
  exact ⟨rfl, rfl, rfl, copyOf_identification _⟩

/-- The copies of a broadcast are of one datagram and there are some, or not. -/
theorem broadcast_iff {interfaces : List (Ipv4Interface ℕ)} :
    (broadcastCopies s packet source destination protocol interfaces ≠ [] ∧
      ∀ c ∈ broadcastCopies s packet source destination protocol interfaces,
        ∀ c' ∈ broadcastCopies s packet source destination protocol interfaces, Same c c') ↔
    interfaces.length = 1 ∨
      1 < interfaces.length ∧ packet.ttl s.m_defaultTtl = s.m_defaultTtl ∧ packet.tos = 0 := by
  have huntagged := packet.untagged_bare
  match interfaces with
  | [] =>
    refine iff_of_false (fun h => h.1 rfl) ?_
    rintro (h | ⟨h, -⟩)
    · cases h
    · exact absurd h (Nat.not_lt_zero _)
  | [outInterface] =>
    refine iff_of_true ⟨List.cons_ne_nil _ _, fun c hc c' hc' => ?_⟩ (.inl rfl)
    rw [List.mem_singleton.mp hc, List.mem_singleton.mp hc']
    exact ⟨rfl, rfl, rfl, rfl⟩
  | outInterface :: outInterface' :: interfaces =>
    constructor
    · rintro ⟨-, hsame⟩
      have hfirst := hsame _ List.mem_cons_self _ (List.mem_cons_of_mem _ List.mem_cons_self)
      have httl : packet.ttl s.m_defaultTtl = packet.untagged.ttl s.m_defaultTtl := hfirst.ttl
      have htos : packet.tos = packet.untagged.tos := hfirst.tos
      rw [huntagged.ttl] at httl
      rw [huntagged.tos] at htos
      exact .inr ⟨by simp, httl, htos⟩
    · rintro (h | ⟨-, httl, htos⟩)
      · simp at h
      refine ⟨List.cons_ne_nil _ _, fun c hc c' hc' => ?_⟩
      have hcopy : ∀ c ∈ broadcastCopies s packet source destination protocol
            (outInterface :: outInterface' :: interfaces),
          c.payload = packet.payload ∧ c.ipHeader.m_ttl = s.m_defaultTtl ∧ c.ipHeader.m_tos = 0 ∧
            c.ipHeader.m_identification =
              s.m_identification (identificationKey source destination protocol) - 1 := by
        intro c hc
        rcases List.mem_append.mp hc with hc | hc
        · rw [← httl, ← htos]
          exact mem_copiesOf hc
        · rw [← huntagged.ttl s.m_defaultTtl, ← huntagged.tos]
          exact mem_copiesOf hc
      obtain ⟨hpayload, httl, htos, hid⟩ := hcopy c hc
      obtain ⟨hpayload', httl', htos', hid'⟩ := hcopy c' hc'
      exact ⟨hid.trans hid'.symm, httl.trans httl'.symm, htos.trans htos'.symm, hpayload.trans hpayload'.symm⟩

/-- One datagram, one header: exactly when a broadcast has an interface, and loses no tags between several. -/
theorem datagram_once (s : Ipv4L3ProtocolwithFecEncode) (packet : TaggedPacket methods) (source destination : UInt32)
    (protocol : UInt8)
    (routeOutput : Option (TaggedPacket methods → Ipv4Header → Option Ipv4Route × TaggedPacket methods)) :
    (∀ s', s.send packet source destination protocol routeOutput = some s' →
      OneDatagram s s' (identificationKey source destination protocol)) ↔ SendsOnce s packet source destination := by
  by_cases hdestination : isBroadcast destination || isLocalMulticast destination
  · have hsend : s.send packet source destination protocol routeOutput =
        sendBroadcast source destination protocol s.m_interfaces packet
          (s.beginSend packet source destination protocol).2.2 := by
      simp only [send]
      rw [if_pos hdestination]
      rfl
    rw [hsend, sendBroadcast_eq, SendsOnce]
    simp only [hdestination, forall_true_left, Option.some.injEq, forall_eq']
    exact (oneDatagram_iff _).trans (@broadcast_iff W methods (s.beginSend packet source destination protocol).2.2
      packet source destination protocol _)
  · exact iff_of_true (fun s' => oneDatagram_of_unicast hdestination) fun h => absurd h hdestination

end Send

/-- Two interfaces, and 64 for packets without a tag. -/
def twoInterfaces : Ipv4L3ProtocolwithFecEncode where
  m_interfaces := [⟨0, [⟨0x0a000001, 0xffffff00⟩]⟩, ⟨1, [⟨0x0a000101, 0xffffff00⟩]⟩]
  m_defaultTtl := 64
  m_identification _ := 0
  checksumEnabled := false
  sent := []

/-- No other tags that say anything. -/
def otherTags : TagMethods Unit where
  tid _ := 0
  serialize _ := []
  deserialize _ _ := ()
  deserialize_serialize _ _ := rfl

/-- A packet with a TTL tag of 1. -/
def oneHop : TaggedPacket otherTags where
  payload := [1, 2, 3]
  tags := [.SocketIpTtlTag 1]
  distinct := by decide

/-- A limited broadcast from any source leaves the second interface with the default TTL. -/
theorem not_datagram_once_tagged :
    ¬∀ s', twoInterfaces.send oneHop 0 0xffffffff 17 none = some s' →
      OneDatagram twoInterfaces s' (identificationKey 0 0xffffffff 17) := by
  intro h
  have hone := (@oneDatagram_iff _ otherTags _ oneHop _ _ _ _).mp (h _ (sendBroadcast_eq _))
  rcases broadcast_iff.mp hone with hlen | ⟨-, httl, -⟩
  · exact absurd hlen (by decide)
  · exact absurd httl (by decide)

end Ipv4L3ProtocolwithFecEncode

end Ns3.Internet
