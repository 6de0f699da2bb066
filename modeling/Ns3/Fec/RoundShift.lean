import Ns3.Fec.SerialShift

/-!
# A round with all sequence numbers moved

A round of the end host's agent: data packets and FEC packets are created and go on the wire, the packets on
the wire arrive in order or are lost, the socket takes packets out of the transit queue, and it opens the
next round. The same round
is run with all sequence numbers moved by `k` modulo 2^32. It is decoded alike, packet by packet, as long as
the serials that `Recv` compares compare alike: a serial after the wrap is below all those before it.
-/

namespace Ns3.Fec

/-- A header up to its sequence number. -/
def Header.unsequenced : Header → Header
  | .tcp h => .tcp { h with m_sequenceNumber := 0 }
  | .ipv4 h => .ipv4 h

/-- A packet up to the sequence number in its header, with its serial moved. -/
def Packet.seen (k : UInt32) (p : Packet) : Packet :=
  { p with headers := p.headers.map Header.unsequenced, tag := p.tag.map (FecTag.shift k) }

def TransitQueue.seen (k : UInt32) (t : TransitQueue) : TransitQueue := ⟨t.serial_ + k, t.p_.seen k⟩

namespace FecAgent

variable {rid k : UInt32}

/-- The agent of the moved round: the tables of the round and the next serial are moved, and the transit
queue holds the same packets. -/
def Shifted (rid k : UInt32) (a a' : FecAgent) : Prop :=
  ∃ tq, a' = { a with
      toFecTables := a.toFecTables.shift rid k, m_serial := a.m_serial + k, tq_ := tq } ∧
    tq.map (TransitQueue.seen 0) = a.tq_.map (TransitQueue.seen k)

/-! ### The transit queue -/

theorem serial_of_seen {t t' : TransitQueue} (h : t'.seen 0 = t.seen k) : t'.serial_ = t.serial_ + k := by
  have hserial : t'.serial_ + 0 = t.serial_ + k := congrArg TransitQueue.serial_ h
  rwa [UInt32.add_zero] at hserial

theorem insertTransitQueue_seen {x x' : TransitQueue} {q q' : List TransitQueue}
    (hx : x'.seen 0 = x.seen k) (hq : q'.map (TransitQueue.seen 0) = q.map (TransitQueue.seen k))
    (h : ∀ t ∈ q, Alike k x.serial_ t.serial_) :
    (insertTransitQueue x' q').map (TransitQueue.seen 0) = (insertTransitQueue x q).map (TransitQueue.seen k) := by
  induction q generalizing q' with
  | nil =>
    rw [List.map_nil, List.map_eq_nil_iff] at hq
    rw [hq]
    show [x'.seen 0] = [x.seen k]
    rw [hx]
  | cons t q ih =>
    obtain ⟨t', q', rfl⟩ := List.exists_cons_of_ne_nil (l := q') (by rintro rfl; cases hq)
    obtain ⟨ht, hq⟩ := List.cons_eq_cons.mp hq
    have horder : t'.serial_ > x'.serial_ ↔ t.serial_ > x.serial_ := by
      rw [serial_of_seen ht, serial_of_seen hx]
      exact (h t List.mem_cons_self).symm
    rw [insertTransitQueue, insertTransitQueue]
    by_cases hlt : t.serial_ > x.serial_
    · rw [if_pos hlt, if_pos (horder.mpr hlt), List.map_cons, List.map_cons, List.map_cons, List.map_cons,
        hx, ht, hq]
    · rw [if_neg hlt, if_neg fun hlt' => hlt (horder.mp hlt'), List.map_cons, List.map_cons, ht,
        ih hq fun t ht => h t (List.mem_cons_of_mem _ ht)]

/-! ### `Recv` -/

/-- The transit queue's serials compare alike with that of a packet that goes there. -/
structure QueueAlike (k : UInt32) (tag : FecTag) (a : FecAgent) : Prop where
  stored : tag.m_type = 1 → ∀ t ∈ a.tq_, Alike k tag.m_serial t.serial_
  recovered : tag.m_type = 2 → ∀ T ∈ a.gt_, T.rid_ = tag.m_roundId →
    UInt32.ofNat ((before tag.m_serial (T.gi_ tag.m_groupId)).countP (lost tag.m_serial)) = 1 →
      ∀ e ∈ before tag.m_serial (T.gi_ tag.m_groupId), lost tag.m_serial e →
        ∀ t ∈ a.tq_, Alike k e.serial_ t.serial_

instance (k : UInt32) (tag : FecTag) (a : FecAgent) : Decidable (QueueAlike k tag a) :=
  decidable_of_iff ((tag.m_type = 1 → ∀ t ∈ a.tq_, Alike k tag.m_serial t.serial_) ∧
      (tag.m_type = 2 → ∀ T ∈ a.gt_, T.rid_ = tag.m_roundId →
        UInt32.ofNat ((before tag.m_serial (T.gi_ tag.m_groupId)).countP (lost tag.m_serial)) = 1 →
          ∀ e ∈ before tag.m_serial (T.gi_ tag.m_groupId), lost tag.m_serial e →
            ∀ t ∈ a.tq_, Alike k e.serial_ t.serial_))
    ⟨fun h => ⟨h.1, h.2⟩, fun h => ⟨h.1, h.2⟩⟩

/-- The entry that is recovered is the one of its group that is missing. -/
theorem recovered_of_decode {tag : FecTag} {bound : UInt32} {request : Bool} {s : FecTables TcpHeader}
    {d : Decoded TcpHeader} {g : GroupOutcome TcpHeader} {e : PacketInfo TcpHeader}
    (hd : decode tag bound request s = .ok d) (hg : d.group = some g) (he : g.recovered = some e) :
    tag.m_type = 2 ∧ ∃ T ∈ s.gt_, T.rid_ = tag.m_roundId ∧
      UInt32.ofNat ((before tag.m_serial (T.gi_ tag.m_groupId)).countP (lost tag.m_serial)) = 1 ∧
        e ∈ before tag.m_serial (T.gi_ tag.m_groupId) ∧ lost tag.m_serial e := by
  cases (decode_ok_iff ..).mp hd with
  | stale =>
    cases hg
    cases he
  | early => cases hg
  | group t q pi hl r hr hsum t' q' hrt g' hstep =>
    cases hg
    cases hstep with
    | closed => cases he
    | data => cases he
    | fec hlt htype T rest gi nlost hlisted mlost recovered hc =>
      cases he
      obtain ⟨old, hgt, -⟩ := hlisted.split
      obtain ⟨hone, hrec⟩ := recovered_of_checkGroupEntry hc
      rw [before_marked hlisted.marked, UInt32.zero_add] at hone
      rw [before_marked hlisted.marked] at hrec
      obtain ⟨hmem, hlost⟩ := hrec.resolve_left nofun
      exact ⟨htype, T, by simp [hgt], hlisted.rid, hone, hmem, hlost⟩

theorem Shifted.insert {a a' : FecAgent} (h : Shifted rid k a a') (x x' : TransitQueue)
    (hx : x'.seen 0 = x.seen k) (halike : ∀ t ∈ a.tq_, Alike k x.serial_ t.serial_) :
    Shifted rid k { a with tq_ := insertTransitQueue x a.tq_ } { a' with tq_ := insertTransitQueue x' a'.tq_ } := by
  obtain ⟨tq, rfl, hq⟩ := h
  exact ⟨insertTransitQueue x' tq, rfl, insertTransitQueue_seen hx hq halike⟩

theorem unsequenced_shift (k : UInt32) (h : TcpHeader) :
    Header.unsequenced (.tcp (h.shift k)) = Header.unsequenced (.tcp h) := rfl

theorem removeTcpHeader_seen (k : UInt32) (p : Packet) :
    p.removeTcpHeader.seen k = (p.seen k).removeTcpHeader := by
  obtain ⟨headers, payload, tag⟩ := p
  match headers with
  | [] => rfl
  | .tcp h :: hs => rfl
  | .ipv4 h :: hs => rfl

theorem addPacketTag_seen (k : UInt32) (p : Packet) (tag : FecTag) :
    (p.addPacketTag tag).seen k = (p.seen k).addPacketTag (tag.shift k) := by
  rw [Packet.addPacketTag, Packet.addPacketTag, FecTag.deserialize_serialize, FecTag.deserialize_serialize]
  rfl

/-- The packets that `CreateRecoveryPacket` makes. -/
theorem recoveryPacket_seen {p p' : Packet} (hp : p'.seen 0 = p.seen k) (tag : FecTag) (e : PacketInfo TcpHeader) :
    ((p'.removePacketTag.removeTcpHeader.addPacketTag
        (recoveryTag (tag.shift k) (e.shift k).serial_)).addHeader (.tcp (e.shift k).hdr_)).seen 0 =
      ((p.removePacketTag.removeTcpHeader.addPacketTag (recoveryTag tag e.serial_)).addHeader
        (.tcp e.hdr_)).seen k := by
  have hheader : Header.unsequenced (.tcp (e.shift k).hdr_) = Header.unsequenced (.tcp e.hdr_) := by
    rw [PacketInfo.shift]
    dsimp only
    split <;> rfl
  have hadd : ∀ (k : UInt32) (p : Packet) (tag : FecTag) (h : TcpHeader),
      ((p.removePacketTag.removeTcpHeader.addPacketTag tag).addHeader (.tcp h)).seen k =
        ((p.seen k).removePacketTag.removeTcpHeader.addPacketTag (tag.shift k)).addHeader
          (Header.unsequenced (.tcp h)) := by
    intro k p tag h
    show (((p.removePacketTag.removeTcpHeader.addPacketTag tag).seen k).addHeader _) = _
    rw [addPacketTag_seen, removeTcpHeader_seen]
    rfl
  rw [hadd, hadd, hp, hheader, FecTag.shift_zero]
  rfl

/-- The received packets correspond. -/
structure SameReceived (rid k : UInt32) (r r' : Received) : Prop where
  agent : Shifted rid k r.agent r'.agent
  code : r'.code = r.code
  recovered : r'.recovered = r.recovered.map (PacketInfo.shift k)

/-- What `settle` does once the missing packet is recovered. -/
def answer (a : FecAgent) (packet : Packet) (ipHeader : Ipv4Header) (tag : FecTag) (sumlost : UInt32)
    (g : GroupOutcome TcpHeader) : Received :=
  if g.nlost > tag.m_nGroups.toUInt32 then ⟨a, 2, g.recovered⟩
  else
    let a := if tag.m_type = 3 then { a with ackSendId := tag.m_roundId } else a
    if a.ackSendId = tag.m_roundId ∧ tag.m_type ≠ 2 then ⟨a, 2, g.recovered⟩
    else if sumlost > 0 ∧ tag.m_type = 1 ∧ a.m_ackMode = .Suppression then
      ⟨{ a with tq_ := insertTransitQueue ⟨tag.m_serial, packet.addHeader (.ipv4 ipHeader)⟩ a.tq_ }, 1,
        g.recovered⟩
    else if sumlost - g.nlost > 0 ∧ g.flag = 1 ∧ tag.m_type = 2 ∧
        tag.m_groupId.toNat + 1 < a.m_nGroups.toNat then
      ⟨a, 1, g.recovered⟩
    else if tag.m_type = 2 ∧ tag.m_groupId.toNat + 1 = a.m_nGroups.toNat then ⟨a, 2, g.recovered⟩
    else ⟨a, 0, g.recovered⟩

theorem Shifted.ack {a a' : FecAgent} (h : Shifted rid k a a') (tag : FecTag) :
    Shifted rid k (if tag.m_type = 3 then { a with ackSendId := tag.m_roundId } else a)
      (if (tag.shift k).m_type = 3 then { a' with ackSendId := (tag.shift k).m_roundId } else a') := by
  obtain ⟨tq, rfl, hq⟩ := h
  by_cases htype : tag.m_type = 3
  · rw [if_pos htype, if_pos (show (tag.shift k).m_type = 3 from htype)]
    exact ⟨tq, rfl, hq⟩
  · rw [if_neg htype, if_neg (show ¬(tag.shift k).m_type = 3 from htype)]
    exact ⟨tq, rfl, hq⟩

theorem answer_shift {a a' : FecAgent} (h : Shifted rid k a a') {p p' : Packet} (hp : p'.seen 0 = p.seen k)
    (ipHeader : Ipv4Header) {tag : FecTag} (sumlost : UInt32) (g : GroupOutcome TcpHeader)
    (hstored : tag.m_type = 1 → ∀ t ∈ a.tq_, Alike k tag.m_serial t.serial_) :
    SameReceived rid k (a.answer p ipHeader tag sumlost g)
      (a'.answer p' ipHeader (tag.shift k) sumlost (g.shift k)) := by
  have hack := h.ack tag
  have hqueue : (if tag.m_type = 3 then { a with ackSendId := tag.m_roundId } else a).tq_ = a.tq_ := by
    split <;> rfl
  rw [answer, answer]
  by_cases hlost : g.nlost > tag.m_nGroups.toUInt32
  · rw [if_pos hlost, if_pos (show (g.shift k).nlost > (tag.shift k).m_nGroups.toUInt32 from hlost)]
    exact ⟨h, rfl, rfl⟩
  rw [if_neg hlost, if_neg (show ¬(g.shift k).nlost > (tag.shift k).m_nGroups.toUInt32 from hlost)]
  dsimp only
  rw [← hqueue] at hstored
  generalize (if tag.m_type = 3 then { a with ackSendId := tag.m_roundId } else a) = b at hack hstored
  generalize (if (tag.shift k).m_type = 3 then { a' with ackSendId := (tag.shift k).m_roundId } else a') = b' at hack
  have hinsert := fun htype => hack.insert ⟨tag.m_serial, p.addHeader (.ipv4 ipHeader)⟩
    ⟨(tag.shift k).m_serial, p'.addHeader (.ipv4 ipHeader)⟩ (by
      show TransitQueue.mk (_ + 0) ((p'.seen 0).addHeader _) = ⟨_, (p.seen k).addHeader _⟩
      rw [hp, UInt32.add_zero]
      rfl) (hstored htype)
  obtain ⟨tq, rfl, hq⟩ := hack
  by_cases h1 : b.ackSendId = tag.m_roundId ∧ tag.m_type ≠ 2
  · rw [if_pos h1, if_pos (show b.ackSendId = (tag.shift k).m_roundId ∧ (tag.shift k).m_type ≠ 2 from h1)]
    exact ⟨⟨tq, rfl, hq⟩, rfl, rfl⟩
  rw [if_neg h1, if_neg (show ¬(b.ackSendId = (tag.shift k).m_roundId ∧ (tag.shift k).m_type ≠ 2) from h1)]
  by_cases h2 : sumlost > 0 ∧ tag.m_type = 1 ∧ b.m_ackMode = .Suppression
  · rw [if_pos h2, if_pos (show sumlost > 0 ∧ (tag.shift k).m_type = 1 ∧ b.m_ackMode = .Suppression from h2)]
    exact ⟨hinsert h2.2.1, rfl, rfl⟩
  rw [if_neg h2, if_neg (show ¬(sumlost > 0 ∧ (tag.shift k).m_type = 1 ∧ b.m_ackMode = .Suppression) from h2)]
  by_cases h3 : sumlost - g.nlost > 0 ∧ g.flag = 1 ∧ tag.m_type = 2 ∧
      tag.m_groupId.toNat + 1 < b.m_nGroups.toNat
  · rw [if_pos h3, if_pos (show sumlost - (g.shift k).nlost > 0 ∧ (g.shift k).flag = 1 ∧
      (tag.shift k).m_type = 2 ∧ (tag.shift k).m_groupId.toNat + 1 < b.m_nGroups.toNat from h3)]
    exact ⟨⟨tq, rfl, hq⟩, rfl, rfl⟩
  rw [if_neg h3, if_neg (show ¬(sumlost - (g.shift k).nlost > 0 ∧ (g.shift k).flag = 1 ∧
    (tag.shift k).m_type = 2 ∧ (tag.shift k).m_groupId.toNat + 1 < b.m_nGroups.toNat) from h3)]
  by_cases h4 : tag.m_type = 2 ∧ tag.m_groupId.toNat + 1 = b.m_nGroups.toNat
  · rw [if_pos h4, if_pos (show (tag.shift k).m_type = 2 ∧
      (tag.shift k).m_groupId.toNat + 1 = b.m_nGroups.toNat from h4)]
    exact ⟨⟨tq, rfl, hq⟩, rfl, rfl⟩
  · rw [if_neg h4, if_neg (show ¬((tag.shift k).m_type = 2 ∧
      (tag.shift k).m_groupId.toNat + 1 = b.m_nGroups.toNat) from h4)]
    exact ⟨⟨tq, rfl, hq⟩, rfl, rfl⟩

theorem settle_shift {a a' : FecAgent} (h : Shifted rid k a a') {p p' : Packet} (hp : p'.seen 0 = p.seen k)
    (ipHeader : Ipv4Header) {tag : FecTag} {d : Decoded TcpHeader}
    (hstored : tag.m_type = 1 → ∀ t ∈ a.tq_, Alike k tag.m_serial t.serial_)
    (hrecovered : ∀ g e, d.group = some g → g.recovered = some e →
      tag.m_type = 2 ∧ ∀ t ∈ a.tq_, Alike k e.serial_ t.serial_) :
    SameReceived rid k (a.settle p ipHeader tag d) (a'.settle p' ipHeader (tag.shift k) (d.shift rid k)) := by
  obtain ⟨tables, sumlost, asked, group⟩ := d
  have htables : Shifted rid k { a with toFecTables := tables } { a' with toFecTables := tables.shift rid k } := by
    obtain ⟨tq, rfl, hq⟩ := h
    exact ⟨tq, rfl, hq⟩
  cases group with
  | none => exact ⟨htables, rfl, rfl⟩
  | some g =>
    cases hrec : g.recovered with
    | none =>
      obtain ⟨nlost, flag, recovered⟩ := g
      cases hrec
      exact answer_shift htables hp ipHeader sumlost _ hstored
    | some e =>
      obtain ⟨htype, halike⟩ := hrecovered g e rfl hrec
      obtain ⟨nlost, flag, recovered⟩ := g
      cases hrec
      have hinsert := htables.insert ⟨e.serial_, _⟩ ⟨(e.shift k).serial_, _⟩ (by
        show TransitQueue.mk (_ + 0) _ = ⟨_, _⟩
        rw [UInt32.add_zero, recoveryPacket_seen hp tag e]
        rfl) halike
      exact answer_shift hinsert hp ipHeader sumlost _ fun hone => absurd (htype.symm.trans hone) (by decide)

/-- Two calls that fault alike, or return what corresponds. -/
def Related {α : Type} (P : α → α → Prop) : Except Fault α → Except Fault α → Prop
  | .ok r, .ok r' => P r r'
  | .error f, .error f' => f = f'
  | _, _ => False

theorem Related.bind {α β : Type} {P : α → α → Prop} {Q : β → β → Prop} {f f' : α → Except Fault β}
    {x x' : Except Fault α} (h : Related P x x')
    (hf : ∀ r r', x = .ok r → P r r' → Related Q (f r) (f' r')) : Related Q (x >>= f) (x' >>= f') := by
  match x, x', h with
  | .ok r, .ok r', h => exact hf r r' rfl h
  | .error _, .error _, h => exact h

theorem Related.map {α β : Type} {P : α → α → Prop} {Q : β → β → Prop} {f f' : α → β}
    {x x' : Except Fault α} (h : Related P x x') (hf : ∀ r r', P r r' → Q (f r) (f' r')) :
    Related Q (x.map f) (x'.map f') := by
  match x, x', h with
  | .ok r, .ok r', h => exact hf r r' h
  | .error _, .error _, h => exact h

/-- The serials that `Recv` compares compare alike. -/
structure Comparable (a : FecAgent) (k : UInt32) (tag : FecTag) : Prop where
  round : RoundAlike k tag a.rt_
  group : GroupAlike k tag a.gt_
  queue : QueueAlike k tag a

instance (k : UInt32) (tag : FecTag) (a : FecAgent) : Decidable (a.Comparable k tag) :=
  decidable_of_iff (RoundAlike k tag a.rt_ ∧ GroupAlike k tag a.gt_ ∧ QueueAlike k tag a)
    ⟨fun h => ⟨h.1, h.2.1, h.2.2⟩, fun h => ⟨h.1, h.2, h.3⟩⟩

theorem recv_shift {a a' : FecAgent} (h : Shifted rid k a a') {p p' : Packet} (hp : p'.seen 0 = p.seen k)
    {tag : FecTag} (htag : p.tag = some tag) (hrid : tag.m_roundId = rid) (halike : a.Comparable k tag)
    (ipHeader : Ipv4Header) : Related (SameReceived rid k) (a.recv p ipHeader) (a'.recv p' ipHeader) := by
  subst hrid
  have htag' : p'.tag = some (tag.shift k) := by
    have hseen : p'.tag.map (FecTag.shift 0) = p.tag.map (FecTag.shift k) := congrArg Packet.tag hp
    rw [htag, Option.map_some, Option.map_eq_some_iff] at hseen
    obtain ⟨tag', htag', hshift⟩ := hseen
    rw [htag', ← hshift, FecTag.shift_zero]
  have htables : a'.toFecTables = a.toFecTables.shift tag.m_roundId k := by
    obtain ⟨tq, rfl, -⟩ := h
    rfl
  have hdecode := decode_shift halike.round halike.group
  simp only [recv, Packet.peekPacketTag, htag, htag', Option.getD_some, bind, Except.bind, pure, Except.pure,
    htables]
  rw [show (tag.shift k).m_serial = tag.m_serial + k from rfl, hdecode]
  cases hd : decode tag tag.m_serial false a.toFecTables with
  | error f => exact rfl
  | ok d =>
    refine settle_shift h hp ipHeader halike.queue.stored fun g e hg he => ?_
    obtain ⟨htype, T, hT, hTrid, hone, hmem, hlost⟩ := recovered_of_decode hd hg he
    exact ⟨htype, halike.queue.recovered htype T hT hTrid hone e hmem hlost⟩

/-! ### The sender -/

/-- The round `rid` is being sent: FEC is on, and its tables are the last ones. -/
def Sending (rid : UInt32) (a : FecAgent) : Prop :=
  a.m_fwin ≠ 0 ∧ a.m_roundId = rid ∧ a.rt_.getLast?.map RoundFecTable.rid_ = some rid ∧
    a.gt_.getLast?.map GroupFecTable.rid_ = some rid

instance (rid : UInt32) (a : FecAgent) : Decidable (Sending rid a) :=
  inferInstanceAs (Decidable (_ ∧ _))

theorem getLast?_shift {T : Type} {f : T → T} {ridOf : T → UInt32} (hf : ∀ t, ridOf (f t) = ridOf t)
    (q : List T) : (q.map f).getLast?.map ridOf = q.getLast?.map ridOf := by
  rw [List.getLast?_map, Option.map_map]
  congr 1
  funext t
  exact hf t

theorem Shifted.sending_iff {a a' : FecAgent} (h : Shifted rid k a a') : Sending rid a' ↔ Sending rid a := by
  obtain ⟨tq, rfl, -⟩ := h
  show (a.m_fwin ≠ 0 ∧ a.m_roundId = rid ∧ (a.rt_.map (RoundFecTable.shift rid k)).getLast?.map _ = _ ∧
    (a.gt_.map (GroupFecTable.shift rid k)).getLast?.map _ = _) ↔ _
  rw [getLast?_shift (fun t => RoundFecTable.rid_shift rid t),
    getLast?_shift (fun T => GroupFecTable.rid_shift rid T)]
  rfl

theorem updateBack_map {T : Type} {f f' g : T → T} {q : List T}
    (hf : ∀ t, q.getLast? = some t → g (f t) = f' (g t)) :
    updateBack f' (q.map g) = (updateBack f q).map (List.map g) := by
  induction q with
  | nil => rfl
  | cons t q ih =>
    cases q with
    | nil =>
      show Except.ok [f' (g t)] = Except.ok [g (f t)]
      rw [hf t rfl]
    | cons t' q =>
      have ih := ih fun u hu => hf u (by rw [List.getLast?_cons_cons, hu])
      show (updateBack f' ((t' :: q).map g)).map _ = _
      rw [ih]
      show _ = ((updateBack f (t' :: q)).map _).map _
      cases updateBack f (t' :: q) <;> rfl

theorem pushEntry_shift {a : FecAgent} (h : Sending rid a) (pi : PacketInfo TcpHeader) :
    (a.toFecTables.shift rid k).pushEntry (pi.shift k) = (a.toFecTables.pushEntry pi).map (FecTables.shift rid k) := by
  obtain ⟨-, -, hrt, hgt⟩ := h
  have hgroup : updateBack (fun T => T.setGroup (pi.shift k).gid_ (T.gi_ (pi.shift k).gid_ ++ [pi.shift k]))
      (a.toFecTables.shift rid k).gt_ = (updateBack (fun T => T.setGroup pi.gid_ (T.gi_ pi.gid_ ++ [pi]))
        a.gt_).map (List.map (GroupFecTable.shift rid k)) := by
    refine updateBack_map fun T hT => ?_
    rw [hT, Option.map_some] at hgt
    have hrid := Option.some.inj hgt
    rw [GroupFecTable.shift_of_rid hrid,
      GroupFecTable.shift_of_rid (show (T.setGroup pi.gid_ (T.gi_ pi.gid_ ++ [pi])).rid_ = rid from hrid)]
    rw [GroupFecTable.setGroup, GroupFecTable.setGroup]
    congr 1
    funext g
    dsimp only
    by_cases hg : g = pi.gid_
    · rw [if_pos hg, if_pos (show g = (pi.shift k).gid_ from hg), List.map_append]
      rfl
    · rw [if_neg hg, if_neg (show ¬g = (pi.shift k).gid_ from hg)]
  have hround : updateBack (fun t : RoundFecTable TcpHeader => { t with pi_ := t.pi_ ++ [pi.shift k] })
      (a.toFecTables.shift rid k).rt_ = (updateBack (fun t => { t with pi_ := t.pi_ ++ [pi] }) a.rt_).map
        (List.map (RoundFecTable.shift rid k)) := by
    refine updateBack_map fun t ht => ?_
    rw [ht, Option.map_some] at hrt
    have hrid := Option.some.inj hrt
    rw [RoundFecTable.shift_of_rid hrid,
      RoundFecTable.shift_of_rid (show ({ t with pi_ := t.pi_ ++ [pi] } : RoundFecTable TcpHeader).rid_ = rid from hrid),
      List.map_append]
    rfl
  simp only [FecTables.pushEntry, bind, Except.bind, hgroup, hround]
  cases updateBack (fun T => T.setGroup pi.gid_ (T.gi_ pi.gid_ ++ [pi])) a.gt_ with
  | error f => rfl
  | ok gt =>
    simp only [Except.map]
    cases updateBack (fun t => { t with pi_ := t.pi_ ++ [pi] }) a.rt_ <;> rfl

/-- The created packets correspond, and are packets of the round. -/
structure SameCreated (rid k : UInt32) (r r' : FecAgent × Packet) : Prop where
  agent : Shifted rid k r.1 r'.1
  packet : r'.2.seen 0 = r.2.seen k
  tag : ∃ tag, r.2.tag = some tag ∧ tag.m_roundId = rid

/-- The same, but for the next serial. -/
def SameTables (rid k : UInt32) (a a' : FecAgent) : Prop :=
  ∃ tq m_serial, a' = { a with toFecTables := a.toFecTables.shift rid k, m_serial := m_serial, tq_ := tq } ∧
    tq.map (TransitQueue.seen 0) = a.tq_.map (TransitQueue.seen k)

theorem Shifted.sameTables {a a' : FecAgent} (h : Shifted rid k a a') : SameTables rid k a a' := by
  obtain ⟨tq, rfl, hq⟩ := h
  exact ⟨tq, _, rfl, hq⟩

theorem seqLt_shift (x y k : UInt32) : seqLt (x + k) (y + k) ↔ seqLt x y := by
  rw [seqLt, seqLt, show x + k - (y + k) = x - y by grind]

theorem createDataPacket_shift {a a' : FecAgent} (h : SameTables rid k a a') (hs : Sending rid a)
    (packet : Packet) (tcpHeader : TcpHeader) (highTxMark : UInt32) :
    Related (SameCreated rid k) (a.createDataPacket packet tcpHeader highTxMark)
      (a'.createDataPacket packet (tcpHeader.shift k) (highTxMark + k)) := by
  obtain ⟨tq, m_serial, rfl, hq⟩ := h
  have hentry : dataEntry { a with
      toFecTables := a.toFecTables.shift rid k, m_serial := m_serial, tq_ := tq } (tcpHeader.shift k)
        (highTxMark + k) = (a.dataEntry tcpHeader highTxMark).shift k := by
    have hcheck : decide (seqLt (tcpHeader.m_sequenceNumber + k) (highTxMark + k)) =
        decide (seqLt tcpHeader.m_sequenceNumber highTxMark) := decide_eq_decide.mpr (seqLt_shift ..)
    show PacketInfo.mk _ (decide (seqLt (tcpHeader.m_sequenceNumber + k) (highTxMark + k))) _ _ _ _ = _
    rw [hcheck]
    rfl
  have hpush := pushEntry_shift (k := k) hs (a.dataEntry tcpHeader highTxMark)
  rw [createDataPacket, createDataPacket, if_neg hs.1, if_neg hs.1]
  simp only [hentry, bind, Except.bind, hpush]
  cases a.toFecTables.pushEntry (a.dataEntry tcpHeader highTxMark) with
  | error f => exact rfl
  | ok tables =>
    have hserial : ∀ x : UInt32, x + k + 1 = x + 1 + k := fun x => by grind
    refine ⟨⟨tq, ?_, hq⟩, ?_, _, Packet.tag_addPacketTag _ _, hs.2.1⟩
    · show FecAgent.mk _ _ _ _ _ _ _ _ _ _ _ _ _ (_ + k + 1) _ _ _ = _
      rw [hserial]
      rfl
    · show ((packet.addPacketTag _).seen 0) = (packet.addPacketTag _).seen k
      rw [addPacketTag_seen, addPacketTag_seen, FecTag.shift_zero]
      rfl

theorem createFecPacket_shift {a a' : FecAgent} (h : Shifted rid k a a') (hs : Sending rid a) :
    Related (SameCreated rid k) a.createFecPacket a'.createFecPacket := by
  obtain ⟨tq, rfl, hq⟩ := h
  have hpush := pushEntry_shift (k := k) hs a.fecEntry
  have hentry : fecEntry { a with
      toFecTables := a.toFecTables.shift rid k, m_serial := a.m_serial + k, tq_ := tq } =
        a.fecEntry.shift k := rfl
  have hserial : a.m_serial + k + 1 = a.m_serial + 1 + k := by grind
  simp only [createFecPacket, hentry, bind, Except.bind, hpush]
  cases a.toFecTables.pushEntry a.fecEntry with
  | error f => exact rfl
  | ok tables =>
    have hpacket : ∀ (tag' : FecTag), tag' = (a.tagOf 2 a.fecEntry).shift k →
        Packet.seen 0 (({ payload := a.m_segmentSize.toNat } : Packet).addPacketTag tag') =
          Packet.seen k (({ payload := a.m_segmentSize.toNat } : Packet).addPacketTag (a.tagOf 2 a.fecEntry)) := by
      rintro _ rfl
      rw [addPacketTag_seen, addPacketTag_seen, FecTag.shift_zero]
      rfl
    have htag : ∃ tag, (({ payload := a.m_segmentSize.toNat } : Packet).addPacketTag
        (a.tagOf 2 a.fecEntry)).tag = some tag ∧ tag.m_roundId = rid :=
      ⟨_, Packet.tag_addPacketTag _ _, hs.2.1⟩
    simp only [Except.map]
    by_cases hmany : a.nGroups > 1
    · rw [if_pos hmany, if_pos (show a.nGroups > 1 from hmany), hserial]
      by_cases hlast : a.m_groupId + 1 = a.nGroups
      · rw [if_pos hlast, if_pos hlast]
        exact ⟨⟨tq, rfl, hq⟩, hpacket _ rfl, htag⟩
      · rw [if_neg hlast, if_neg hlast]
        exact ⟨⟨tq, rfl, hq⟩, hpacket _ rfl, htag⟩
    · rw [if_neg hmany, if_neg (show ¬a.nGroups > 1 from hmany)]
      by_cases hone : a.nGroups = 1
      · rw [if_pos hone, if_pos (show a.nGroups = 1 from hone)]
        exact ⟨⟨tq, rfl, hq⟩, hpacket _ rfl, htag⟩
      · rw [if_neg hone, if_neg (show ¬a.nGroups = 1 from hone)]
        exact ⟨⟨tq, rfl, hq⟩, hpacket _ rfl, htag⟩

/-- New tables have nothing to move. -/
theorem redundancyControl_shift {a a' : FecAgent} (h : Shifted rid k a a') (cwnd : UInt32) :
    Related (fun r r' => Shifted rid k r.1 r'.1) (a.redundancyControl cwnd) (a'.redundancyControl cwnd) := by
  obtain ⟨tq, rfl, hq⟩ := h
  have hpush : ∀ (s : FecTables TcpHeader) (r : UInt32) (n : UInt8),
      (s.shift rid k).pushTables r n = (s.pushTables r n).shift rid k := by
    intro s r n
    have hround : (⟨r, n, []⟩ : RoundFecTable TcpHeader).shift rid k = ⟨r, n, []⟩ := by
      rw [RoundFecTable.shift]
      split <;> rfl
    have hgroup : (⟨r, n, fun _ => []⟩ : GroupFecTable TcpHeader).shift rid k = ⟨r, n, fun _ => []⟩ := by
      rw [GroupFecTable.shift]
      split <;> rfl
    rw [FecTables.pushTables, FecTables.pushTables, FecTables.shift, FecTables.shift, List.map_append,
      List.map_append, List.map_singleton, List.map_singleton, hround, hgroup]
  have hwindow : roundWindow { a with
      toFecTables := a.toFecTables.shift rid k, m_serial := a.m_serial + k, tq_ := tq } cwnd =
        a.roundWindow cwnd := rfl
  simp only [redundancyControl, hwindow, hpush, bind, Except.bind]
  cases a.roundWindow cwnd with
  | error f => exact rfl
  | ok w => exact ⟨tq, rfl, hq⟩

/-! ### Runs -/

/-- A round on its way: the agent, and the packets on the wire, in order. -/
structure Round where
  agent : FecAgent
  wire : List Packet := []

inductive Event where
  | redundancy (cwnd : UInt32)
  | data (payload : Nat) (tcpHeader : TcpHeader) (highTxMark : UInt32)
  | fec (tcpHeader : TcpHeader)
  | lose
  | deliver (ipHeader : Ipv4Header)
  | free

/-- What can be seen of the decoder: what `Recv` returns and recovers, and what `GetPacket` hands out. -/
inductive Out where
  | received (code : UInt32) (recovered : Option (PacketInfo TcpHeader))
  | handed (packet : Packet)
deriving DecidableEq

/-- A packet goes on the wire with its header. -/
def Round.send (s : Round) (tcpHeader : TcpHeader) (created : FecAgent × Packet) : Option Out × Round :=
  (none, ⟨created.1, s.wire ++ [created.2.addHeader (.tcp tcpHeader)]⟩)

/-- One step. Nothing is sent any more once the round is over. -/
def step (rid : UInt32) (s : Round) : Event → Except Fault (Option Out × Round)
  | .data payload tcpHeader highTxMark =>
    if Sending rid s.agent then
      (s.agent.createDataPacket { payload } tcpHeader highTxMark).map (s.send tcpHeader)
    else .ok (none, s)
  | .fec tcpHeader =>
    if Sending rid s.agent then
      s.agent.createFecPacket.map (s.send { tcpHeader with m_sequenceNumber := 0 })
    else .ok (none, s)
  | .redundancy cwnd => (s.agent.redundancyControl cwnd).map fun r => (none, { s with agent := r.1 })
  | .lose => .ok (none, { s with wire := s.wire.tail })
  | .deliver ipHeader =>
    match s.wire with
    | [] => .ok (none, s)
    | p :: wire => (s.agent.recv p ipHeader).map fun r => (some (.received r.code r.recovered), ⟨r.agent, wire⟩)
  | .free =>
    match s.agent.tq_ with
    | [] => .ok (none, s)
    | t :: tq => .ok (some (.handed t.p_), { s with agent := { s.agent with tq_ := tq } })

/-- The steps of a run, and what is seen of them. -/
def run (rid : UInt32) : Round → List Event → Except Fault (List Out × Round)
  | s, [] => .ok ([], s)
  | s, e :: es => do
    let (out, s) ← step rid s e
    let (outs, s) ← run rid s es
    return (out.toList ++ outs, s)

/-- The event with the sequence numbers of the round moved. -/
def Event.shift (k : UInt32) : Event → Event
  | .data payload tcpHeader highTxMark => .data payload (tcpHeader.shift k) (highTxMark + k)
  | .fec tcpHeader => .fec tcpHeader
  | .redundancy cwnd => .redundancy cwnd
  | .lose => .lose
  | .deliver ipHeader => .deliver ipHeader
  | .free => .free

def Out.seen (k : UInt32) : Out → Out
  | .received code recovered => .received code (recovered.map (PacketInfo.shift k))
  | .handed packet => .handed (packet.seen k)

/-- The serials that the next call of `Recv` compares compare alike. -/
def Event.Comparable (k : UInt32) (s : Round) : Event → Prop
  | .deliver _ => ∀ p ∈ s.wire.head?, s.agent.Comparable k (p.peekPacketTag {})
  | _ => True

/-- They do in every step of the run. -/
def EachComparable (k rid : UInt32) : Round → List Event → Prop
  | _, [] => True
  | s, e :: es => e.Comparable k s ∧ ∀ out s', step rid s e = .ok (out, s') → EachComparable k rid s' es

instance (k : UInt32) (s : Round) : ∀ e : Event, Decidable (e.Comparable k s)
  | .data _ _ _ => instDecidableTrue
  | .fec _ => instDecidableTrue
  | .redundancy _ => instDecidableTrue
  | .lose => instDecidableTrue
  | .deliver _ =>
    inferInstanceAs (Decidable (∀ p ∈ s.wire.head?, s.agent.Comparable k (p.peekPacketTag {})))
  | .free => instDecidableTrue

instance decidableEachComparable (k rid : UInt32) : ∀ (s : Round) (es : List Event),
    Decidable (EachComparable k rid s es)
  | _, [] => instDecidableTrue
  | s, e :: es =>
    match h : step rid s e with
    | .ok (_, t) =>
      have := decidableEachComparable k rid t es
      decidable_of_iff (e.Comparable k s ∧ EachComparable k rid t es)
        ⟨fun hs => ⟨hs.1, fun _ _ ht => by cases h.symm.trans ht; exact hs.2⟩, fun hs => ⟨hs.1, hs.2 _ _ h⟩⟩
    | .error _ =>
      decidable_of_iff (e.Comparable k s)
        ⟨fun hs => ⟨hs, fun _ _ ht => by cases h.symm.trans ht⟩, fun hs => hs.1⟩

/-- The same is seen of both runs, and the transit queues hold the same packets in the same order. -/
def SameDecoding (k : UInt32) (r r' : List Out × Round) : Prop :=
  r'.1.map (Out.seen 0) = r.1.map (Out.seen k) ∧
    r'.2.agent.tq_.map (TransitQueue.seen 0) = r.2.agent.tq_.map (TransitQueue.seen k)

/-- The agent at the start of a round: its tables are empty, and so is the transit queue. -/
structure Opened (rid : UInt32) (a : FecAgent) : Prop where
  sending : Sending rid a
  round : ∀ t ∈ a.rt_, t.rid_ = rid → t.pi_ = []
  group : ∀ T ∈ a.gt_, T.rid_ = rid → ∀ gid, T.gi_ gid = []
  queue : a.tq_ = []

/-- The moved round: the agents correspond, and the packets on the wire, which are all of the round. -/
structure SameRound (rid k : UInt32) (s s' : Round) : Prop where
  agent : Shifted rid k s.agent s'.agent
  wire : s'.wire.map (Packet.seen 0) = s.wire.map (Packet.seen k)
  tags : ∀ p ∈ s.wire, ∃ tag, p.tag = some tag ∧ tag.m_roundId = rid

structure SameStep (rid k : UInt32) (r r' : Option Out × Round) : Prop where
  out : r'.1.map (Out.seen 0) = r.1.map (Out.seen k)
  round : SameRound rid k r.2 r'.2

/-- A packet that is sent. -/
theorem send_shift {s s' : Round} (hwire : s'.wire.map (Packet.seen 0) = s.wire.map (Packet.seen k))
    (htags : ∀ p ∈ s.wire, ∃ tag, p.tag = some tag ∧ tag.m_roundId = rid) {h h' : TcpHeader}
    (hh : Header.unsequenced (.tcp h') = Header.unsequenced (.tcp h)) {r r' : FecAgent × Packet}
    (hr : SameCreated rid k r r') : SameStep rid k (s.send h r) (s'.send h' r') := by
  refine ⟨rfl, hr.agent, ?_, ?_⟩
  · show (s'.wire ++ [_]).map _ = (s.wire ++ [_]).map _
    rw [List.map_append, List.map_append, hwire]
    congr 1
    show [((r'.2.seen 0).addHeader (Header.unsequenced (.tcp h')))] =
      [((r.2.seen k).addHeader (Header.unsequenced (.tcp h)))]
    rw [hr.packet, hh]
  · intro p hp
    rcases List.mem_append.mp hp with hp | hp
    · exact htags p hp
    · rw [List.mem_singleton.mp hp]
      exact hr.tag

theorem step_shift {s s' : Round} (h : SameRound rid k s s') {e : Event} (he : e.Comparable k s) :
    Related (SameStep rid k) (step rid s e) (step rid s' (e.shift k)) := by
  cases e with
  | data payload tcpHeader highTxMark =>
    rw [Event.shift, step, step]
    by_cases hs : Sending rid s.agent
    · rw [if_pos hs, if_pos (h.agent.sending_iff.mpr hs)]
      exact (createDataPacket_shift h.agent.sameTables hs _ _ _).map fun r r' hr =>
        send_shift h.wire h.tags (unsequenced_shift k tcpHeader) hr
    · rw [if_neg hs, if_neg fun hs' => hs (h.agent.sending_iff.mp hs')]
      exact ⟨rfl, h⟩
  | fec tcpHeader =>
    rw [Event.shift, step, step]
    by_cases hs : Sending rid s.agent
    · rw [if_pos hs, if_pos (h.agent.sending_iff.mpr hs)]
      exact (createFecPacket_shift h.agent hs).map fun r r' hr => send_shift h.wire h.tags rfl hr
    · rw [if_neg hs, if_neg fun hs' => hs (h.agent.sending_iff.mp hs')]
      exact ⟨rfl, h⟩
  | redundancy cwnd =>
    exact (redundancyControl_shift h.agent cwnd).map fun r r' hr => ⟨rfl, hr, h.wire, h.tags⟩
  | lose =>
    refine ⟨rfl, h.agent, ?_, fun p hp => h.tags p (List.mem_of_mem_tail hp)⟩
    show s'.wire.tail.map _ = s.wire.tail.map _
    rw [List.map_tail, List.map_tail, h.wire]
  | deliver ipHeader =>
    obtain ⟨agent, wire⟩ := s
    obtain ⟨agent', wire'⟩ := s'
    obtain ⟨hagent, hwire, htags⟩ := h
    cases wire with
    | nil =>
      rw [show wire' = [] from List.map_eq_nil_iff.mp hwire]
      exact ⟨rfl, hagent, rfl, htags⟩
    | cons p wire =>
      obtain ⟨p', wire', rfl⟩ := List.exists_cons_of_ne_nil (l := wire') (by rintro rfl; cases hwire)
      obtain ⟨hp, hwire⟩ := List.cons_eq_cons.mp hwire
      obtain ⟨tag, htag, hrid⟩ := htags p List.mem_cons_self
      have hcomparable : agent.Comparable k tag := by
        have hpeek := he p rfl
        rwa [Packet.peekPacketTag, htag] at hpeek
      refine (recv_shift hagent hp htag hrid hcomparable ipHeader).map fun r r' hr => ⟨?_, hr.agent, hwire,
        fun p hp => htags p (List.mem_cons_of_mem _ hp)⟩
      show some (Out.received _ _) = some (Out.received _ _)
      rw [hr.code, hr.recovered, Option.map_map]
      congr 3
      funext e
      exact PacketInfo.shift_zero _
  | free =>
    obtain ⟨agent, wire⟩ := s
    obtain ⟨agent', wire'⟩ := s'
    obtain ⟨⟨tq, rfl, hq⟩, hwire, htags⟩ := h
    rw [Event.shift, step, step]
    cases hqueue : agent.tq_ with
    | nil =>
      rw [hqueue] at hq
      cases List.map_eq_nil_iff.mp hq
      exact ⟨rfl, ⟨[], rfl, by rw [hqueue]; rfl⟩, hwire, htags⟩
    | cons t q =>
      rw [hqueue] at hq
      obtain ⟨t', q', rfl⟩ := List.exists_cons_of_ne_nil (l := tq) (by rintro rfl; cases hq)
      obtain ⟨ht, hq⟩ := List.cons_eq_cons.mp hq
      refine ⟨?_, ⟨q', rfl, hq⟩, hwire, htags⟩
      show some (Out.handed (t'.p_.seen 0)) = some (Out.handed (t.p_.seen k))
      rw [show t'.p_.seen 0 = t.p_.seen k from congrArg TransitQueue.p_ ht]

/-- A step, and what follows it. -/
theorem run_cons {s s' : Round} {e e' : Event} {es es' : List Event}
    (hstep : Related (SameStep rid k) (step rid s e) (step rid s' e'))
    (hes : ∀ out t t', step rid s e = .ok (out, t) → SameRound rid k t t' →
      Related (SameDecoding k) (run rid t es) (run rid t' es')) :
    Related (SameDecoding k) (run rid s (e :: es)) (run rid s' (e' :: es')) := by
  rw [run, run]
  refine Related.bind hstep fun ⟨out, t⟩ ⟨out', t'⟩ hr ht => ?_
  refine Related.bind (hes out t t' hr ht.round) fun ⟨outs, u⟩ ⟨outs', u'⟩ _ hu => ⟨?_, hu.2⟩
  have hout : out'.toList.map (Out.seen 0) = out.toList.map (Out.seen k) := by
    have hsame := congrArg Option.toList ht.out
    rwa [Option.toList_map, Option.toList_map] at hsame
  have houts : outs'.map (Out.seen 0) = outs.map (Out.seen k) := hu.1
  show (out'.toList ++ outs').map _ = (out.toList ++ outs).map _
  rw [List.map_append, List.map_append, houts, hout]

theorem run_shift {s s' : Round} (h : SameRound rid k s s') {es : List Event}
    (hes : EachComparable k rid s es) :
    Related (SameDecoding k) (run rid s es) (run rid s' (es.map (Event.shift k))) := by
  induction es generalizing s s' with
  | nil =>
    obtain ⟨tq, htq, hq⟩ := h.agent
    refine ⟨rfl, ?_⟩
    show s'.agent.tq_.map _ = _
    rw [htq]
    exact hq
  | cons e es ih => exact run_cons (step_shift h hes.1) fun out t t' hr ht => ih ht (hes.2 out t hr)

/-- At the start of a round there is nothing to move. -/
theorem Opened.sameTables {a : FecAgent} (h : Opened rid a) (k : UInt32) : SameTables rid k a a := by
  have hround : ∀ t ∈ a.rt_, t.shift rid k = t := by
    rintro ⟨r, n, pi⟩ ht
    rw [RoundFecTable.shift]
    split
    · next hrid =>
      have hpi : pi = [] := h.round _ ht hrid
      rw [hpi]
      rfl
    · rfl
  have hgroup : ∀ T ∈ a.gt_, T.shift rid k = T := by
    rintro ⟨r, n, gi⟩ hT
    rw [GroupFecTable.shift]
    split
    · next hrid =>
      have hgi : ∀ gid, gi gid = [] := h.group _ hT hrid
      show GroupFecTable.mk r n (fun g => (gi g).map _) = ⟨r, n, gi⟩
      congr 1
      funext g
      rw [hgi]
      rfl
    · rfl
  refine ⟨[], a.m_serial, ?_, by rw [h.queue]; rfl⟩
  rw [FecTables.shift, List.map_congr_left hround, List.map_congr_left hgroup, List.map_id', List.map_id',
    ← h.queue]

/-- An agent that has opened its first round, of one group. -/
def oneGroup : FecAgent :=
  { rt_ := [⟨1, 1, []⟩], gt_ := [⟨1, 1, fun _ => []⟩], m_fwin := 2, nGroups := 1, fwin := 2 }

theorem oneGroup_opened : Opened 1 oneGroup where
  sending := by decide
  round := fun t ht _ => by rw [List.mem_singleton.mp ht]
  group := fun T hT _ gid => by rw [List.mem_singleton.mp hT]
  queue := rfl

/-- The first of two data packets is lost; the second and the FEC packet arrive. -/
def lossyRound (sequenceNumber : UInt32) : List Event :=
  [.data 1000 { m_sequenceNumber := sequenceNumber } sequenceNumber,
    .data 1000 { m_sequenceNumber := sequenceNumber + 1000 } (sequenceNumber + 1000), .fec {},
    .redundancy 3000, .lose, .deliver {}, .deliver {}, .free, .free]

/-- Runs that are decoded alike begin with the same code. -/
theorem same_code {x x' : Except Fault (List Out × Round)} (h : Related (SameDecoding k) x x')
    {c c' : UInt32} (hx : x.toOption.map (fun r => r.1.head?) = some (some (.received c none)))
    (hx' : x'.toOption.map (fun r => r.1.head?) = some (some (.received c' none))) : c' = c := by
  match x, x', h with
  | .ok r, .ok r', h =>
    have hx : r.1.head? = some (.received c none) := Option.some.inj hx
    have hx' : r'.1.head? = some (.received c' none) := Option.some.inj hx'
    have hhead := congrArg List.head? h.1
    rw [List.head?_map, List.head?_map, hx, hx'] at hhead
    cases hhead
    rfl

end Ns3.Fec.FecAgent
