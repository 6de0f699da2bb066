import Ns3.Fec.Packet
import Ns3.Lib.Loop

/-!
# Round and group tables

`FecAgent` and `FecRouterAgent` are hand-copied variants over the same two queues: a
table per round listing every packet of the round, and a table per round listing the
packets of each group. The searches and scans below are the loops of both classes,
with what differs between them (what an entry remembers of its packet, the bound of the
loss count, whether losses are asked for) as parameters. Printing, and the statistics
that only printing reads, are left out.
Source: `contrib/fec/model/fec-agent.cc:388–612`,
`contrib/fec/model/fec-router-agent.cc:290–514`.
-/

namespace Ns3.Fec
open Ns3.Lib

/-- Why a call does not return: `front ()` or `back ()` of an empty queue, a
`while (true)` that never leaves, or a division by zero. -/
inductive Fault where
  | emptyQueue
  | noReturn
  | divByZero
  deriving DecidableEq, Repr

/-- `PacketInfo`. `H` is what the class keeps of the packet: its TCP header at the end
host (`fec-agent.h:26–35`), TCP and IPv4 header at the router
(`fec-router-agent.h:22–31`). -/
structure PacketInfo (H : Type) where
  serial_ : UInt32
  check_ : Bool
  gid_ : UInt8
  type_ : Bool
  hdr_ : H
  flag_ : Bool
  deriving DecidableEq, Repr

/-- `RoundFecTable`. -/
structure RoundFecTable (H : Type) where
  rid_ : UInt32
  nGroups_ : UInt8
  pi_ : List (PacketInfo H)
  deriving DecidableEq, Repr

/-- `GroupFecTable`. `gi_` is the `std::map`, whose `operator[]` finds an empty list
at an absent key. -/
structure GroupFecTable (H : Type) where
  rid_ : UInt32
  nGroups_ : UInt8
  gi_ : UInt8 → List (PacketInfo H)

/-- The two queues of an agent, front first. -/
structure FecTables (H : Type) where
  rt_ : List (RoundFecTable H) := []
  gt_ : List (GroupFecTable H) := []

variable {H T : Type}

/-- `std::queue::front`. -/
def front : List T → Except Fault T
  | [] => .error .emptyQueue
  | t :: _ => .ok t

/-- Update `std::queue::back` in place. -/
def updateBack (f : T → T) : List T → Except Fault (List T)
  | [] => .error .emptyQueue
  | [t] => .ok [f t]
  | t :: q => (updateBack f q).map (t :: ·)

/-- `while (q.front ().rid_ < rid) q.pop ();`. The `if` around it in the source,
`q.empty () || rid > q.front ().rid_`, only repeats the loop's test. -/
def popOlder (ridOf : T → UInt32) (rid : UInt32) : List T → Except Fault (List T)
  | [] => .error .emptyQueue
  | t :: q => if ridOf t < rid then popOlder ridOf rid q else .ok (t :: q)

/-- A `while (true)` whose body is `body`, sound for the stationary bodies below. -/
def whileTrue {σ α : Type} (body : σ → Turn σ (Except Fault α)) (s : σ) : Except Fault α :=
  (firstTurn body s).getD (.error .noReturn)

/-- `FecTable::gi_[gid]` replaced by `pi`. -/
def GroupFecTable.setGroup (T : GroupFecTable H) (gid : UInt8) (pi : List (PacketInfo H)) :
    GroupFecTable H :=
  { T with gi_ := fun g => if g = gid then pi else T.gi_ g }

/-- `gt_.back ().gi_[gid].pi_.push_back (pi); rt_.back ().pi_.push_back (pi);`. -/
def FecTables.pushEntry (s : FecTables H) (pi : PacketInfo H) : Except Fault (FecTables H) := do
  let gt ← updateBack (fun T => T.setGroup pi.gid_ (T.gi_ pi.gid_ ++ [pi])) s.gt_
  let rt ← updateBack (fun t => { t with pi_ := t.pi_ ++ [pi] }) s.rt_
  return ⟨rt, gt⟩

/-- `gt_.push (gt); rt_.push (rt);` with fresh tables of round `rid`. -/
def FecTables.pushTables (s : FecTables H) (rid : UInt32) (nGroups : UInt8) : FecTables H :=
  ⟨s.rt_ ++ [⟨rid, nGroups, []⟩], s.gt_ ++ [⟨rid, nGroups, fun _ => []⟩]⟩

/-- The `for` loop of `MarkRoundFecTable`; `none` when it runs to the end. -/
def markRoundEntry (serial : UInt32) (gid : UInt8) :
    List (PacketInfo H) → Option (List (PacketInfo H))
  | [] => none
  | e :: es =>
    if e.serial_ = serial ∧ e.gid_ = gid then some ({ e with check_ := true } :: es)
    else (markRoundEntry serial gid es).map (e :: ·)

/-- One turn of the `while (true)` of `MarkRoundFecTable`. -/
def markRoundTurn (tag : FecTag) :
    List (RoundFecTable H) → Turn (List (RoundFecTable H)) (Except Fault (List (RoundFecTable H)))
  | [] => .leave (.error .emptyQueue)
  | t :: q =>
    if t.rid_ = tag.m_roundId then
      match markRoundEntry tag.m_serial tag.m_groupId t.pi_ with
      | some pi => .leave (.ok ({ t with pi_ := pi } :: q))
      | none => .again (t :: q)
    else .again (t :: q)

/-- `MarkRoundFecTable`, `fec-agent.cc:388–426`, `fec-router-agent.cc:290–328`. -/
def markRound (tag : FecTag) (rt : List (RoundFecTable H)) :
    Except Fault (List (RoundFecTable H)) := do
  let t ← front rt
  if tag.m_roundId < t.rid_ then return rt
  else
    let rt ← popOlder RoundFecTable.rid_ tag.m_roundId rt
    whileTrue (markRoundTurn tag) rt

/-- What the `for` loop of `CheckRoundFecTable` leaves: the loss count, the entries, and
those a retransmission was asked for. -/
structure RoundScan (H : Type) where
  sumlost : UInt32
  pi : List (PacketInfo H)
  asked : List (PacketInfo H)

/-- The `for` loop of `CheckRoundFecTable`. An entry counts as lost when it is unmarked
and its serial is below `bound`; with `request`, a data packet's scan asks once for each
lost entry. A data packet's scan stops at its own serial. -/
def scanRound (tag : FecTag) (bound : UInt32) (request : Bool) :
    List (PacketInfo H) → UInt32 → RoundScan H
  | [], sumlost => ⟨sumlost, [], []⟩
  | e :: es, sumlost =>
    let lost := e.check_ = false ∧ e.serial_ < bound
    let ask := lost ∧ tag.m_type = 1 ∧ e.flag_ = false ∧ request
    let sumlost := if lost then sumlost + 1 else sumlost
    let e' := if ask then { e with flag_ := true } else e
    let own := if ask then [e] else []
    if tag.m_type = 1 ∧ tag.m_serial = e.serial_ then ⟨sumlost, e' :: es, own⟩
    else
      let r := scanRound tag bound request es sumlost
      ⟨r.sumlost, e' :: r.pi, own ++ r.asked⟩

/-- What `CheckRoundFecTable` leaves. -/
structure CheckedRound (H : Type) where
  rt : List (RoundFecTable H)
  sumlost : UInt32
  asked : List (PacketInfo H)

/-- `CheckRoundFecTable`, `fec-agent.cc:428–476`, `fec-router-agent.cc:330–387`. The
FEC packet of the round's last group pops the round table. -/
def checkRound (tag : FecTag) (bound : UInt32) (request : Bool) (rt : List (RoundFecTable H)) :
    Except Fault (CheckedRound H) := do
  let t ← front rt
  if tag.m_roundId < t.rid_ then return ⟨rt, 0, []⟩
  else
    match ← popOlder RoundFecTable.rid_ tag.m_roundId rt with
    | [] => throw .emptyQueue
    | t :: q =>
      let r :=
        if t.rid_ = tag.m_roundId then scanRound tag bound request t.pi_ 0 else ⟨0, t.pi_, []⟩
      if tag.m_type = 2 ∧ tag.m_groupId.toNat + 1 = t.nGroups_.toNat then
        return ⟨q, r.sumlost, r.asked⟩
      else return ⟨{ t with pi_ := r.pi } :: q, r.sumlost, r.asked⟩

/-- The `for` loop of `MarkGroupFecTable`: the entry with the packet's serial is marked,
and the unmarked entries of smaller serial before it are counted. -/
def markGroupEntry (serial : UInt32) :
    List (PacketInfo H) → UInt32 → Option (List (PacketInfo H) × UInt32)
  | [], _ => none
  | e :: es, nlost =>
    if e.serial_ = serial then some ({ e with check_ := true } :: es, nlost)
    else
      let nlost := if e.serial_ < serial ∧ e.check_ = false then nlost + 1 else nlost
      (markGroupEntry serial es nlost).map fun r => (e :: r.1, r.2)

/-- One turn of the `while (true)` of `MarkGroupFecTable`. -/
def markGroupTurn (tag : FecTag) : List (GroupFecTable H) →
    Turn (List (GroupFecTable H)) (Except Fault (List (GroupFecTable H) × UInt32))
  | [] => .leave (.error .emptyQueue)
  | T :: q =>
    if T.rid_ = tag.m_roundId then
      match markGroupEntry tag.m_serial (T.gi_ tag.m_groupId) 0 with
      | some r => .leave (.ok (T.setGroup tag.m_groupId r.1 :: q, r.2))
      | none => .again (T :: q)
    else .again (T :: q)

/-- `MarkGroupFecTable`, `fec-agent.cc:478–531`, `fec-router-agent.cc:389–441`. A packet
older than the front of the *round* queue is not looked for. -/
def markGroup (tag : FecTag) (s : FecTables H) :
    Except Fault (List (GroupFecTable H) × UInt32) := do
  let t ← front s.rt_
  if tag.m_roundId < t.rid_ then return (s.gt_, 0)
  else
    let gt ← popOlder GroupFecTable.rid_ tag.m_roundId s.gt_
    whileTrue (markGroupTurn tag) gt

/-- The `for` loop of `CheckGroupFecTable`: at the packet's own serial it reports the
number of unmarked entries of smaller serial, and the last of these when it is the only
one and `nlost` is one too. -/
def checkGroupEntry (serial nlost : UInt32) :
    List (PacketInfo H) → UInt32 → Option (PacketInfo H) →
      Option (UInt32 × Option (PacketInfo H))
  | [], _, _ => none
  | e :: es, mlost, rec =>
    if e.serial_ = serial then some (mlost, if nlost = 1 ∧ mlost = 1 then rec else none)
    else if e.serial_ < serial ∧ e.check_ = false then
      checkGroupEntry serial nlost es (mlost + 1) (if nlost = 1 then some e else rec)
    else checkGroupEntry serial nlost es mlost rec

/-- What `CheckGroupFecTable` leaves: the group queue, `mlost`, and the entry it passes
to `CreateRecoveryPacket`, if any. -/
structure CheckedGroup (H : Type) where
  gt : List (GroupFecTable H)
  mlost : UInt32
  recovered : Option (PacketInfo H)

/-- One turn of the `while (true)` of `CheckGroupFecTable`; the group's list is cleared. -/
def checkGroupTurn (tag : FecTag) (nlost : UInt32) : List (GroupFecTable H) →
    Turn (List (GroupFecTable H)) (Except Fault (CheckedGroup H))
  | [] => .leave (.error .emptyQueue)
  | T :: q =>
    if T.rid_ = tag.m_roundId then
      match checkGroupEntry tag.m_serial nlost (T.gi_ tag.m_groupId) 0 none with
      | some r => .leave (.ok ⟨T.setGroup tag.m_groupId [] :: q, r.1, r.2⟩)
      | none => .again (T :: q)
    else .again (T :: q)

/-- `CheckGroupFecTable`, `fec-agent.cc:533–612`, `fec-router-agent.cc:443–514`, up to
the call of `CreateRecoveryPacket`. -/
def checkGroup (tag : FecTag) (nlost : UInt32) (s : FecTables H) :
    Except Fault (CheckedGroup H) := do
  let t ← front s.rt_
  if tag.m_roundId < t.rid_ then return ⟨s.gt_, 0, none⟩
  else
    let gt ← popOlder GroupFecTable.rid_ tag.m_roundId s.gt_
    whileTrue (checkGroupTurn tag nlost) gt

/-! ### The searches either leave at once or never -/

/-- `MarkRoundFecTable` loops in the state it found. -/
theorem markRoundTurn_stationary (tag : FecTag) : Stationary (markRoundTurn (H := H) tag) := by
  intro rt rt' h
  cases rt with
  | nil => simp [markRoundTurn] at h
  | cons t q =>
    simp only [markRoundTurn] at h
    split at h
    · split at h
      · cases h
      · exact (Turn.again.inj h).symm
    · exact (Turn.again.inj h).symm

/-- `MarkGroupFecTable` loops in the state it found. -/
theorem markGroupTurn_stationary (tag : FecTag) : Stationary (markGroupTurn (H := H) tag) := by
  intro gt gt' h
  cases gt with
  | nil => simp [markGroupTurn] at h
  | cons T q =>
    simp only [markGroupTurn] at h
    split at h
    · split at h
      · cases h
      · exact (Turn.again.inj h).symm
    · exact (Turn.again.inj h).symm

/-- `CheckGroupFecTable` loops in the state it found. -/
theorem checkGroupTurn_stationary (tag : FecTag) (nlost : UInt32) :
    Stationary (checkGroupTurn (H := H) tag nlost) := by
  intro gt gt' h
  cases gt with
  | nil => simp [checkGroupTurn] at h
  | cons T q =>
    simp only [checkGroupTurn] at h
    split at h
    · split at h
      · cases h
      · exact (Turn.again.inj h).symm
    · exact (Turn.again.inj h).symm

/-- For a stationary body, the result of `whileTrue` is the loop's own. -/
theorem whileTrue_ok_iff {σ α : Type} {body : σ → Turn σ (Except Fault α)}
    (hb : Stationary body) (s : σ) (a : α) :
    whileTrue body s = .ok a ↔ Leaves body s (.ok a) := by
  rw [← firstTurn_eq_some_iff hb, whileTrue]
  cases firstTurn body s <;> simp

/-- For a stationary body that never faults this way itself, `noReturn` is divergence. -/
theorem whileTrue_noReturn_iff {σ α : Type} {body : σ → Turn σ (Except Fault α)}
    (hb : Stationary body) (hf : ∀ s, body s ≠ .leave (.error .noReturn)) (s : σ) :
    whileTrue body s = .error .noReturn ↔ Diverges body s := by
  rw [← firstTurn_eq_none_iff hb, whileTrue]
  simp only [firstTurn]
  split
  · next r hr =>
    have hne : r ≠ .error .noReturn := fun he => hf s (he ▸ hr)
    simp [hne]
  · simp

/-! ### Entering packets in the last tables -/

/-- Entries added at the end of a round table. -/
def RoundFecTable.push (t : RoundFecTable H) (es : List (PacketInfo H)) : RoundFecTable H :=
  { t with pi_ := t.pi_ ++ es }

/-- Entries added at the end of the group lists they belong to. -/
def GroupFecTable.push (T : GroupFecTable H) (es : List (PacketInfo H)) : GroupFecTable H :=
  { T with gi_ := fun g => T.gi_ g ++ es.filter fun e => e.gid_ = g }

@[simp] theorem RoundFecTable.push_push (t : RoundFecTable H) (es es' : List (PacketInfo H)) :
    (t.push es).push es' = t.push (es ++ es') := by
  simp [RoundFecTable.push]

@[simp] theorem GroupFecTable.push_push (T : GroupFecTable H) (es es' : List (PacketInfo H)) :
    (T.push es).push es' = T.push (es ++ es') := by
  simp [GroupFecTable.push]

@[simp] theorem RoundFecTable.push_nil (t : RoundFecTable H) : t.push [] = t := by
  simp [RoundFecTable.push]

@[simp] theorem GroupFecTable.push_nil (T : GroupFecTable H) : T.push [] = T := by
  simp [GroupFecTable.push]

@[simp] theorem RoundFecTable.rid_push (t : RoundFecTable H) (es : List (PacketInfo H)) :
    (t.push es).rid_ = t.rid_ := rfl

@[simp] theorem RoundFecTable.nGroups_push (t : RoundFecTable H) (es : List (PacketInfo H)) :
    (t.push es).nGroups_ = t.nGroups_ := rfl

@[simp] theorem RoundFecTable.pi_push (t : RoundFecTable H) (es : List (PacketInfo H)) :
    (t.push es).pi_ = t.pi_ ++ es := rfl

@[simp] theorem GroupFecTable.rid_push (T : GroupFecTable H) (es : List (PacketInfo H)) :
    (T.push es).rid_ = T.rid_ := rfl

@[simp] theorem GroupFecTable.gi_push (T : GroupFecTable H) (es : List (PacketInfo H)) (g : UInt8) :
    (T.push es).gi_ g = T.gi_ g ++ es.filter fun e => e.gid_ = g := rfl

private theorem updateBack_append {T : Type} (f : T → T) (q : List T) (t : T) :
    updateBack f (q ++ [t]) = .ok (q ++ [f t]) := by
  induction q with
  | nil => rfl
  | cons a q ih =>
    cases hq : q ++ [t] with
    | nil => simp at hq
    | cons b q' =>
      rw [List.cons_append, hq, updateBack, ← hq, ih]
      · rfl
      · simp

private theorem setGroup_eq_push (T : GroupFecTable H) (pi : PacketInfo H) :
    T.setGroup pi.gid_ (T.gi_ pi.gid_ ++ [pi]) = T.push [pi] := by
  unfold GroupFecTable.setGroup GroupFecTable.push
  congr 1
  funext g
  by_cases h : g = pi.gid_
  · simp [h]
  · have h' : ¬ pi.gid_ = g := fun he => h he.symm
    simp [h, h']

/-- An entry goes to the last table of both queues. -/
theorem pushEntry_append (R : List (RoundFecTable H)) (t : RoundFecTable H)
    (Q : List (GroupFecTable H)) (T : GroupFecTable H) (pi : PacketInfo H) :
    FecTables.pushEntry ⟨R ++ [t], Q ++ [T]⟩ pi =
      .ok ⟨R ++ [t.push [pi]], Q ++ [T.push [pi]]⟩ := by
  simp only [FecTables.pushEntry, bind, Except.bind, updateBack_append, pure, Except.pure,
    setGroup_eq_push]
  rfl

end Ns3.Fec
