import Mathlib.Data.Int.Bitwise
import Mathlib.Data.List.Basic
import Mathlib.Data.Nat.Bitwise
import Mathlib.Order.Lattice

/-!
# Defragmentation and the filter of duplicates

`OriginatorRxStatus`, `IsDuplicate`, `HandleFragments` and `Receive` of `src/wifi/model/mac-rx-middle.cc`, for the
frames of one originator and TID, and a sender that numbers its MSDUs one after the other. A packet is the list of
what it carries.

The status has one record for the MSDU that is put together and for the last frame. It leaves the first fragments of an
MSDU that is given up where they are, and takes any fragment for the first one.
-/

namespace Ns3.Wifi

/-- The fields of a `WifiMacHeader` that `MacRxMiddle` reads; of `m_addr1` whether it is a group. -/
structure WifiMacHeader where
  addr1IsGroup : Bool
  m_ctrlRetry : Bool
  m_ctrlMoreFrag : Bool
  m_seqSeq : Nat
  m_seqFrag : Nat
deriving DecidableEq, Repr

/-- `GetSequenceControl`, a `uint16_t`. -/
def WifiMacHeader.getSequenceControl (hdr : WifiMacHeader) : Nat := (hdr.m_seqSeq <<< 4 ||| hdr.m_seqFrag) % 2 ^ 16

/-- `OriginatorRxStatus`. -/
structure OriginatorRxStatus (α : Type) where
  m_defragmenting : Bool := false
  m_lastSequenceControl : Nat := 0xffff
  m_fragments : List (List α) := []
deriving DecidableEq, Repr

namespace OriginatorRxStatus

variable {α : Type}

/-- `AccumulateFirstFragment`. -/
def accumulateFirstFragment (packet : List α) (originator : OriginatorRxStatus α) : OriginatorRxStatus α :=
  { originator with m_defragmenting := true, m_fragments := originator.m_fragments ++ [packet] }

/-- `AccumulateLastFragment`. -/
def accumulateLastFragment (packet : List α) (originator : OriginatorRxStatus α) : List α × OriginatorRxStatus α :=
  ((originator.m_fragments ++ [packet]).flatten, { originator with m_defragmenting := false, m_fragments := [] })

/-- `AccumulateFragment`. -/
def accumulateFragment (packet : List α) (originator : OriginatorRxStatus α) : OriginatorRxStatus α :=
  { originator with m_fragments := originator.m_fragments ++ [packet] }

/-- `IsNextFragment`. -/
def isNextFragment (sequenceControl : Nat) (originator : OriginatorRxStatus α) : Bool :=
  sequenceControl >>> 4 = originator.m_lastSequenceControl >>> 4 ∧
    sequenceControl &&& 0x0f = (originator.m_lastSequenceControl &&& 0x0f) + 1

/-- `SetSequenceControl`. -/
def setSequenceControl (sequenceControl : Nat) (originator : OriginatorRxStatus α) : OriginatorRxStatus α :=
  { originator with m_lastSequenceControl := sequenceControl }

/-- `MacRxMiddle::IsDuplicate`. -/
def isDuplicate (hdr : WifiMacHeader) (originator : OriginatorRxStatus α) : Bool :=
  hdr.m_ctrlRetry ∧ originator.m_lastSequenceControl = hdr.getSequenceControl

/-- `MacRxMiddle::HandleFragments`. -/
def handleFragments (packet : List α) (hdr : WifiMacHeader) (originator : OriginatorRxStatus α) :
    Option (List α) × OriginatorRxStatus α :=
  if originator.m_defragmenting then
    if hdr.m_ctrlMoreFrag then
      if originator.isNextFragment hdr.getSequenceControl then
        (none, (originator.accumulateFragment packet).setSequenceControl hdr.getSequenceControl)
      else (none, originator)
    else if originator.isNextFragment hdr.getSequenceControl then
      let (p, originator) := originator.accumulateLastFragment packet
      (some p, originator.setSequenceControl hdr.getSequenceControl)
    else (none, originator)
  else if hdr.m_ctrlMoreFrag then
    (none, (originator.accumulateFirstFragment packet).setSequenceControl hdr.getSequenceControl)
  else (some packet, originator)

/-- `MacRxMiddle::Receive`: what is forwarded, if anything. -/
def receive (packet : List α) (hdr : WifiMacHeader) (originator : OriginatorRxStatus α) :
    Option (List α × WifiMacHeader) × OriginatorRxStatus α :=
  if originator.isDuplicate hdr then (none, originator)
  else
    match originator.handleFragments packet hdr with
    | (none, originator) => (none, originator)
    | (some aggregate, originator) =>
      (some (aggregate, hdr),
        if hdr.addr1IsGroup then originator else originator.setSequenceControl hdr.getSequenceControl)

end OriginatorRxStatus

/-! ### The sender -/

/-- An MSDU and how it is sent: a fragment has a number of 4 bits, and what goes to a group is not fragmented. -/
structure Msdu (α : Type) where
  fragments : List (List α)
  group : Bool
  nonempty : fragments ≠ []
  length_le : fragments.length ≤ 16
  whole : group = true → fragments.length = 1

/-- A frame: a fragment of an MSDU, counted from 0. -/
structure Frame where
  msdu : Nat
  frag : Nat
  retry : Bool
deriving DecidableEq, Repr

section Sender

variable {α : Type} (msdus : Nat → Msdu α) (startingSeq : Nat)

/-- The header of a frame, when the first MSDU has the number `startingSeq`. -/
def Frame.header (f : Frame) : WifiMacHeader where
  addr1IsGroup := (msdus f.msdu).group
  m_ctrlRetry := f.retry
  m_ctrlMoreFrag := f.frag + 1 < (msdus f.msdu).fragments.length
  m_seqSeq := (startingSeq + f.msdu) % 4096
  m_seqFrag := f.frag

def Frame.packet (f : Frame) : List α := (msdus f.msdu).fragments.getD f.frag []

/-- The fragment exists, and what goes to a group is not sent again. -/
def Frame.Valid (f : Frame) : Prop :=
  f.frag < (msdus f.msdu).fragments.length ∧ ((msdus f.msdu).group = true → f.retry = false)

/-- Frames are sent in order; one that is sent again has the retry bit. -/
def Frame.Before (f g : Frame) : Prop :=
  f.msdu < g.msdu ∨ f.msdu = g.msdu ∧ (f.frag < g.frag ∨ f.frag = g.frag ∧ g.retry = true)

/-- A fragment has arrived in one of the frames. -/
def Arrived (frames : List Frame) (msdu frag : Nat) : Prop := ∃ f ∈ frames, f.msdu = msdu ∧ f.frag = frag

instance (frames : List Frame) (msdu frag : Nat) : Decidable (Arrived frames msdu frag) :=
  inferInstanceAs (Decidable (∃ f ∈ frames, f.msdu = msdu ∧ f.frag = frag))

/-- All fragments of an MSDU have arrived. -/
def Complete (frames : List Frame) (msdu : Nat) : Prop :=
  ∀ frag < (msdus msdu).fragments.length, Arrived frames msdu frag

instance (frames : List Frame) (msdu : Nat) : Decidable (Complete msdus frames msdu) :=
  inferInstanceAs (Decidable (∀ frag < (msdus msdu).fragments.length, Arrived frames msdu frag))

/-- What is to be forwarded when a frame arrives: its MSDU, if all its fragments have arrived now but not before. -/
def due (before : List Frame) (f : Frame) : Option (List α) :=
  if Complete msdus (before ++ [f]) f.msdu ∧ ¬ Complete msdus before f.msdu then
    some (msdus f.msdu).fragments.flatten
  else none

/-- What is to be forwarded for the frames that arrive, after those that have arrived before. -/
def dueAll : List Frame → List Frame → List (List α)
  | _, [] => []
  | before, f :: fs => (due msdus before f).toList ++ dueAll (before ++ [f]) fs

/-- What is forwarded for the frames that arrive. -/
def receiveAll : OriginatorRxStatus α → List Frame → List (List α)
  | _, [] => []
  | originator, f :: fs =>
    let result := originator.receive (f.packet msdus) (f.header msdus startingSeq)
    (result.1.map Prod.fst).toList ++ receiveAll result.2 fs

/-- A frame that has not arrived before comes in its place. While an MSDU is put together it is one of this MSDU;
otherwise it is a first fragment, and not one with the retry bit and the sequence control that is kept. -/
def InPlace (originator : OriginatorRxStatus α) (before : List Frame) (f : Frame) : Prop :=
  Arrived before f.msdu f.frag ∨
    (if originator.m_defragmenting then ∃ l, before.getLast? = some l ∧ f.msdu = l.msdu
      else f.frag = 0 ∧ originator.isDuplicate (f.header msdus startingSeq) = false)

/-- Frames that arrive in their places. -/
def AllInPlace : OriginatorRxStatus α → List Frame → List Frame → Prop
  | _, _, [] => True
  | originator, before, f :: fs =>
    InPlace msdus startingSeq originator before f ∧
      AllInPlace (originator.receive (f.packet msdus) (f.header msdus startingSeq)).2 (before ++ [f]) fs

end Sender

/-! ### One frame -/

section Step

variable {α : Type} {msdus : Nat → Msdu α} {startingSeq : Nat} {originator : OriginatorRxStatus α}
  {before : List Frame} {f l : Frame}

/-- The control of a fragment of an MSDU. -/
def control (startingSeq msdu frag : Nat) : Nat := 16 * ((startingSeq + msdu) % 4096) + frag

theorem Frame.Valid.frag_lt (hf : f.Valid msdus) : f.frag < 16 := hf.1.trans_le (msdus f.msdu).length_le

theorem getSequenceControl_header (startingSeq : Nat) (hf : f.Valid msdus) :
    (f.header msdus startingSeq).getSequenceControl = control startingSeq f.msdu f.frag := by
  have hlt := hf.frag_lt
  have hseq : (startingSeq + f.msdu) % 4096 < 4096 := Nat.mod_lt _ (by decide)
  show (((startingSeq + f.msdu) % 4096) <<< 4 ||| f.frag) % 2 ^ 16 = _
  rw [← Nat.shiftLeft_add_eq_or_of_lt (i := 4) hlt, Nat.shiftLeft_eq, control]
  omega

/-- The next fragment, by its control. -/
theorem isNextFragment_iff {msdu j k : Nat} (hlast : originator.m_lastSequenceControl = control startingSeq msdu j)
    (hj : j < 16) (hk : k < 16) :
    originator.isNextFragment (control startingSeq msdu k) = true ↔ k = j + 1 := by
  have hand : ∀ n : Nat, n &&& 0x0f = n % 16 := fun n => Nat.and_two_pow_sub_one_eq_mod n 4
  rw [OriginatorRxStatus.isNextFragment, decide_eq_true_iff, hlast, Nat.shiftRight_eq_div_pow,
    Nat.shiftRight_eq_div_pow, hand, hand, control, control]
  omega

/-- The last frame that has arrived. -/
structure Latest (l : Frame) (before : List Frame) : Prop where
  last : before.getLast? = some l
  order : ∀ g ∈ before, g.msdu < l.msdu ∨ g.msdu = l.msdu ∧ g.frag ≤ l.frag

theorem Latest.mem (h : Latest l before) : l ∈ before := List.mem_of_getLast? h.last

/-- The status between MSDUs, and when the first `j + 1` fragments of one have been kept. -/
inductive Status (msdus : Nat → Msdu α) (startingSeq : Nat) (originator : OriginatorRxStatus α)
    (before : List Frame) : Prop where
  | start (hbefore : before = []) (horiginator : originator = {})
  | closed (l : Frame) (hl : Latest l before) (hvalid : l.Valid msdus) (hcomplete : Complete msdus before l.msdu)
      (hdefragmenting : originator.m_defragmenting = false) (hfragments : originator.m_fragments = [])
      (hlast : (msdus l.msdu).group = false → originator.m_lastSequenceControl = control startingSeq l.msdu l.frag)
  | opened (l : Frame) (j : Nat) (hl : Latest l before) (hdefragmenting : originator.m_defragmenting = true)
      (hfragments : originator.m_fragments = (msdus l.msdu).fragments.take (j + 1))
      (hlast : originator.m_lastSequenceControl = control startingSeq l.msdu j)
      (hmore : j + 1 < (msdus l.msdu).fragments.length) (hj : j ≤ l.frag)
      (harrived : ∀ i ≤ j, Arrived before l.msdu i) (hgap : ¬ Arrived before l.msdu (j + 1))

/-- The frame that arrives is the last one. -/
theorem Latest.append (hbefore : ∀ g ∈ before, g.Before f) : Latest f (before ++ [f]) where
  last := List.getLast?_concat
  order g hg := by
    obtain hg | hg := List.mem_append.mp hg
    · obtain hlt | ⟨heq, hlt | ⟨hfrag, -⟩⟩ := hbefore g hg
      · exact .inl hlt
      · exact .inr ⟨heq, hlt.le⟩
      · exact .inr ⟨heq, hfrag.le⟩
    · obtain rfl := List.mem_singleton.mp hg
      exact .inr ⟨rfl, le_rfl⟩

theorem arrived_append {msdu frag : Nat} : Arrived (before ++ [f]) msdu frag ↔
    Arrived before msdu frag ∨ f.msdu = msdu ∧ f.frag = frag := by
  constructor
  · rintro ⟨g, hg, h⟩
    obtain hg | hg := List.mem_append.mp hg
    · exact .inl ⟨g, hg, h⟩
    · obtain rfl := List.mem_singleton.mp hg
      exact .inr h
  · rintro (⟨g, hg, h⟩ | h)
    · exact ⟨g, List.mem_append_left _ hg, h⟩
    · exact ⟨f, List.mem_append_right _ (List.mem_singleton_self f), h⟩

/-- A frame that has arrived before is the last one, sent again. -/
theorem again (hl : Latest l before) (hbefore : ∀ g ∈ before, g.Before f) (harrived : Arrived before f.msdu f.frag) :
    f.msdu = l.msdu ∧ f.frag = l.frag ∧ f.retry = true := by
  obtain ⟨g, hg, hmsdu, hfrag⟩ := harrived
  have horder := hl.order g hg
  obtain hlt | ⟨heq, hlt | ⟨hsame, hretry⟩⟩ := hbefore l hl.mem
  · omega
  · omega
  · exact ⟨heq.symm, hsame.symm, hretry⟩

theorem complete_append (harrived : Arrived before f.msdu f.frag) (msdu : Nat) :
    Complete msdus (before ++ [f]) msdu ↔ Complete msdus before msdu := by
  refine forall₂_congr fun frag _ => ?_
  rw [arrived_append, or_iff_left_of_imp]
  rintro ⟨rfl, rfl⟩
  exact harrived

theorem due_again (harrived : Arrived before f.msdu f.frag) : due msdus before f = none :=
  if_neg fun h => h.2 ((complete_append harrived f.msdu).mp h.1)

/-- A duplicate, and a fragment that is not the next one, are left out. -/
theorem receive_skip {packet : List α} {hdr : WifiMacHeader}
    (h : originator.isDuplicate hdr = true ∨ originator.m_defragmenting = true ∧
      originator.isNextFragment hdr.getSequenceControl = false) :
    originator.receive packet hdr = (none, originator) := by
  rw [OriginatorRxStatus.receive]
  by_cases hduplicate : originator.isDuplicate hdr = true
  · rw [if_pos hduplicate]
  · obtain ⟨hdefragmenting, hnext⟩ := h.resolve_left hduplicate
    have hskip : originator.handleFragments packet hdr = (none, originator) := by
      rw [OriginatorRxStatus.handleFragments, if_pos hdefragmenting, hnext]
      split <;> rfl
    rw [if_neg hduplicate, hskip]

/-- A frame that arrives again changes nothing. -/
theorem receive_again (h : Status msdus startingSeq originator before) (hf : f.Valid msdus)
    (hbefore : ∀ g ∈ before, g.Before f) (harrived : Arrived before f.msdu f.frag) :
    originator.receive (f.packet msdus) (f.header msdus startingSeq) = (none, originator) ∧
      Status msdus startingSeq originator (before ++ [f]) := by
  have happend := Latest.append hbefore
  cases h with
  | start hnil =>
    subst hnil
    obtain ⟨g, hg, -⟩ := harrived
    cases hg
  | closed l hl hvalid hcomplete hdefragmenting hfragments hlast =>
    obtain ⟨hmsdu, hfrag, hretry⟩ := again hl hbefore harrived
    have hgroup : (msdus f.msdu).group = false := by
      by_contra hgroup
      rw [hf.2 (Bool.eq_true_of_not_eq_false hgroup)] at hretry
      cases hretry
    rw [← hmsdu, ← hfrag] at hlast
    refine ⟨receive_skip (.inl (decide_eq_true ⟨hretry, ?_⟩)), .closed f happend hf ?_ hdefragmenting hfragments hlast⟩
    · rw [getSequenceControl_header startingSeq hf, hlast hgroup]
    · rw [complete_append harrived, hmsdu]
      exact hcomplete
  | opened l j hl hdefragmenting hfragments hlast hmore hj hkept hgap =>
    obtain ⟨hmsdu, hfrag, hretry⟩ := again hl hbefore harrived
    rw [← hmsdu] at hfragments hlast hmore hkept hgap
    refine ⟨receive_skip ?_, .opened f j happend hdefragmenting hfragments hlast hmore (hfrag ▸ hj)
      (fun i hi => arrived_append.mpr (.inl (hkept i hi))) fun hmem => ?_⟩
    · have hcontrol := getSequenceControl_header startingSeq hf
      by_cases hlastFrag : f.frag = j
      · refine .inl (decide_eq_true ⟨hretry, ?_⟩)
        rw [hcontrol, hlast, hlastFrag]
      · refine .inr ⟨hdefragmenting, Bool.eq_false_iff.mpr fun hnext => ?_⟩
        have hlen := (msdus f.msdu).length_le
        rw [hcontrol, isNextFragment_iff hlast (by omega) hf.frag_lt] at hnext
        exact hgap (hnext ▸ harrived)
    · obtain hmem | ⟨-, heq⟩ := arrived_append.mp hmem
      · exact hgap hmem
      · exact hgap (heq ▸ harrived)

/-- The fragment of a frame, behind those before it. -/
theorem take_packet (hf : f.Valid msdus) :
    (msdus f.msdu).fragments.take f.frag ++ [f.packet msdus] = (msdus f.msdu).fragments.take (f.frag + 1) := by
  rw [Frame.packet, List.getD_eq_getElem _ _ hf.1, List.take_append_getElem]

/-- The first frame of an MSDU, when none is put together. -/
theorem receive_first (hdefragmenting : originator.m_defragmenting = false) (hfragments : originator.m_fragments = [])
    (hf : f.Valid msdus) (hbefore : ∀ g ∈ before, g.Before f) (hnew : ¬ Arrived before f.msdu f.frag)
    (hzero : f.frag = 0) (hduplicate : originator.isDuplicate (f.header msdus startingSeq) = false) :
    ((originator.receive (f.packet msdus) (f.header msdus startingSeq)).1.map Prod.fst) = due msdus before f ∧
      Status msdus startingSeq (originator.receive (f.packet msdus) (f.header msdus startingSeq)).2 (before ++ [f]) := by
  have happend := Latest.append hbefore
  have htake := take_packet hf
  rw [hzero, List.take_zero, List.nil_append] at htake
  -- nothing of the MSDU has arrived
  have hnone : ∀ frag, ¬ Arrived before f.msdu frag := by
    rintro frag ⟨g, hg, hmsdu, rfl⟩
    obtain hlt | ⟨-, hlt | ⟨hsame, -⟩⟩ := hbefore g hg
    · omega
    · omega
    · exact hnew ⟨g, hg, hmsdu, hsame⟩
  have hpos : 0 < (msdus f.msdu).fragments.length := List.length_pos_iff.mpr (msdus f.msdu).nonempty
  rw [OriginatorRxStatus.receive, if_neg (by rw [hduplicate]; exact Bool.false_ne_true),
    OriginatorRxStatus.handleFragments, if_neg (by rw [hdefragmenting]; exact Bool.false_ne_true)]
  by_cases hmore : f.frag + 1 < (msdus f.msdu).fragments.length
  · rw [if_pos (show (f.header msdus startingSeq).m_ctrlMoreFrag = true from decide_eq_true hmore)]
    have hgap : ¬ Arrived (before ++ [f]) f.msdu (0 + 1) := fun hmem => by
      obtain hmem | ⟨-, heq⟩ := arrived_append.mp hmem
      · exact hnone _ hmem
      · omega
    refine ⟨?_, .opened f 0 happend rfl ?_ ?_ (by omega) (Nat.zero_le _) (fun i hi => ?_) hgap⟩
    · exact (if_neg fun h => hgap (h.1 1 (by omega))).symm
    · show originator.m_fragments ++ [f.packet msdus] = _
      rw [hfragments, List.nil_append, htake]
    · show (f.header msdus startingSeq).getSequenceControl = _
      rw [getSequenceControl_header startingSeq hf, hzero]
    · exact arrived_append.mpr (.inr ⟨rfl, by omega⟩)
  · rw [if_neg (show ¬ (f.header msdus startingSeq).m_ctrlMoreFrag = true from fun h => hmore (of_decide_eq_true h))]
    have hone : (msdus f.msdu).fragments.length = 1 := by omega
    have hcomplete : Complete msdus (before ++ [f]) f.msdu := fun frag hfrag =>
      arrived_append.mpr (.inr ⟨rfl, by omega⟩)
    refine ⟨?_, ?_⟩
    · have hall : [f.packet msdus] = (msdus f.msdu).fragments := by
        rw [htake, List.take_of_length_le (by omega)]
      rw [due, if_pos ⟨hcomplete, fun h => hnone 0 (h 0 hpos)⟩, ← hall, List.flatten_singleton]
      rfl
    · cases hgroup : (msdus f.msdu).group with
      | true =>
        rw [show (f.header msdus startingSeq).addr1IsGroup = true from hgroup]
        exact .closed f happend hf hcomplete hdefragmenting hfragments fun h => by cases hgroup.symm.trans h
      | false =>
        rw [show (f.header msdus startingSeq).addr1IsGroup = false from hgroup]
        exact .closed f happend hf hcomplete hdefragmenting hfragments fun _ => getSequenceControl_header startingSeq hf

/-- A later fragment of the MSDU that is put together. -/
theorem receive_next {j : Nat} (hl : Latest l before) (hdefragmenting : originator.m_defragmenting = true)
    (hfragments : originator.m_fragments = (msdus l.msdu).fragments.take (j + 1))
    (hlast : originator.m_lastSequenceControl = control startingSeq l.msdu j)
    (hmore : j + 1 < (msdus l.msdu).fragments.length) (hj : j ≤ l.frag) (hkept : ∀ i ≤ j, Arrived before l.msdu i)
    (hgap : ¬ Arrived before l.msdu (j + 1)) (hf : f.Valid msdus) (hbefore : ∀ g ∈ before, g.Before f)
    (hnew : ¬ Arrived before f.msdu f.frag) (hmsdu : f.msdu = l.msdu) :
    ((originator.receive (f.packet msdus) (f.header msdus startingSeq)).1.map Prod.fst) = due msdus before f ∧
      Status msdus startingSeq (originator.receive (f.packet msdus) (f.header msdus startingSeq)).2 (before ++ [f]) := by
  have happend := Latest.append hbefore
  have hcontrol := getSequenceControl_header startingSeq hf
  have hlater : l.frag < f.frag := by
    obtain hlt | ⟨-, hlt | ⟨hsame, -⟩⟩ := hbefore l hl.mem
    · omega
    · exact hlt
    · exact absurd ⟨l, hl.mem, hmsdu.symm, hsame⟩ hnew
  have hbound : ∀ frag, Arrived before l.msdu frag → frag ≤ l.frag := by
    rintro frag ⟨g, hg, heq, rfl⟩
    have := hl.order g hg
    omega
  rw [← hmsdu] at hfragments hlast hmore hkept hgap hbound
  have hlen := (msdus f.msdu).length_le
  have hnext : originator.isNextFragment (f.header msdus startingSeq).getSequenceControl = true ↔ f.frag = j + 1 := by
    rw [hcontrol]
    exact isNextFragment_iff hlast (by omega) hf.frag_lt
  by_cases hfrag : f.frag = j + 1
  · have hfresh : ¬ originator.isDuplicate (f.header msdus startingSeq) = true := by
      rw [OriginatorRxStatus.isDuplicate, decide_eq_true_iff, hcontrol, hlast, control, control]
      omega
    have htake := take_packet hf
    have hgroup : (msdus f.msdu).group = false := by
      by_contra hgroup
      have := (msdus f.msdu).whole (Bool.eq_true_of_not_eq_false hgroup)
      omega
    have harrived : ∀ i ≤ j + 1, Arrived (before ++ [f]) f.msdu i := fun i hi => by
      by_cases heq : i = j + 1
      · exact arrived_append.mpr (.inr ⟨rfl, by omega⟩)
      · exact arrived_append.mpr (.inl (hkept i (by omega)))
    rw [hfrag] at htake
    rw [OriginatorRxStatus.receive, if_neg hfresh, OriginatorRxStatus.handleFragments, if_pos hdefragmenting]
    by_cases hmany : f.frag + 1 < (msdus f.msdu).fragments.length
    · rw [if_pos (show (f.header msdus startingSeq).m_ctrlMoreFrag = true from decide_eq_true hmany),
        if_pos (hnext.mpr hfrag)]
      have hgap' : ¬ Arrived (before ++ [f]) f.msdu (j + 1 + 1) := fun hmem => by
        obtain hmem | ⟨-, heq⟩ := arrived_append.mp hmem
        · have := hbound _ hmem
          omega
        · omega
      refine ⟨?_, .opened f (j + 1) happend hdefragmenting ?_ ?_ (by omega) hfrag.ge harrived hgap'⟩
      · exact (if_neg fun h => hgap' (h.1 _ (by omega))).symm
      · show originator.m_fragments ++ [f.packet msdus] = _
        rw [hfragments, htake]
      · show (f.header msdus startingSeq).getSequenceControl = _
        rw [hcontrol, hfrag]
    · rw [if_neg (show ¬ (f.header msdus startingSeq).m_ctrlMoreFrag = true from fun h => hmany (of_decide_eq_true h)),
        if_pos (hnext.mpr hfrag)]
      have hend := hf.1
      have hcomplete : Complete msdus (before ++ [f]) f.msdu := fun i hi => harrived i (by omega)
      refine ⟨?_, ?_⟩
      · have hall : originator.m_fragments ++ [f.packet msdus] = (msdus f.msdu).fragments := by
          rw [hfragments, htake, List.take_of_length_le (by omega)]
        rw [due, if_pos ⟨hcomplete, fun h => hgap (h _ hmore)⟩, ← hall]
        rfl
      · rw [show (f.header msdus startingSeq).addr1IsGroup = false from hgroup]
        exact .closed f happend hf hcomplete rfl rfl fun _ => hcontrol
  · -- a fragment before it is missing
    have hskip : originator.receive (f.packet msdus) (f.header msdus startingSeq) = (none, originator) :=
      receive_skip (.inr ⟨hdefragmenting, Bool.eq_false_iff.mpr (mt hnext.mp hfrag)⟩)
    have hgap' : ¬ Arrived (before ++ [f]) f.msdu (j + 1) := fun hmem => by
      obtain hmem | ⟨-, heq⟩ := arrived_append.mp hmem
      · exact hgap hmem
      · exact hfrag heq
    rw [hskip]
    exact ⟨(if_neg fun h => hgap' (h.1 _ hmore)).symm, .opened f j happend hdefragmenting hfragments hlast hmore (by omega)
      (fun i hi => arrived_append.mpr (.inl (hkept i hi))) hgap'⟩

/-- A frame in its place: what is due is forwarded. -/
theorem receive_inPlace (h : Status msdus startingSeq originator before) (hf : f.Valid msdus)
    (hbefore : ∀ g ∈ before, g.Before f) (hplace : InPlace msdus startingSeq originator before f) :
    ((originator.receive (f.packet msdus) (f.header msdus startingSeq)).1.map Prod.fst) = due msdus before f ∧
      Status msdus startingSeq (originator.receive (f.packet msdus) (f.header msdus startingSeq)).2 (before ++ [f]) := by
  by_cases harrived : Arrived before f.msdu f.frag
  · obtain ⟨hskip, hstatus⟩ := receive_again h hf hbefore harrived
    rw [hskip, due_again harrived]
    exact ⟨rfl, hstatus⟩
  · replace hplace := hplace.resolve_left harrived
    cases h with
    | start hnil horiginator =>
      subst horiginator
      exact receive_first rfl rfl hf hbefore harrived hplace.1 hplace.2
    | closed l hl hvalid hcomplete hdefragmenting hfragments hlast =>
      rw [if_neg (by rw [hdefragmenting]; exact Bool.false_ne_true)] at hplace
      exact receive_first hdefragmenting hfragments hf hbefore harrived hplace.1 hplace.2
    | opened l j hl hdefragmenting hfragments hlast hmore hj hkept hgap =>
      rw [if_pos hdefragmenting] at hplace
      obtain ⟨l', hl', hmsdu⟩ := hplace
      obtain rfl := Option.some.inj (hl.last.symm.trans hl')
      exact receive_next hl hdefragmenting hfragments hlast hmore hj hkept hgap hf hbefore harrived hmsdu

end Step

/-! ### Any frames -/

section Run

variable {α : Type}

theorem receiveAll_due {msdus : Nat → Msdu α} {startingSeq : Nat} {originator : OriginatorRxStatus α}
    {before frames : List Frame} (h : Status msdus startingSeq originator before)
    (hvalid : ∀ f ∈ frames, f.Valid msdus) (hbefore : ∀ g ∈ before, ∀ f ∈ frames, g.Before f)
    (horder : frames.Pairwise Frame.Before) (hplace : AllInPlace msdus startingSeq originator before frames) :
    receiveAll msdus startingSeq originator frames = dueAll msdus before frames := by
  induction frames generalizing originator before with
  | nil => rfl
  | cons f fs ih =>
    obtain ⟨hf, hvalid⟩ := List.forall_mem_cons.mp hvalid
    obtain ⟨hfirst, horder⟩ := List.pairwise_cons.mp horder
    obtain ⟨hreceive, hstatus⟩ := receive_inPlace h hf (fun g hg => hbefore g hg f List.mem_cons_self) hplace.1
    rw [receiveAll, dueAll, ← hreceive]
    refine congrArg _ (ih hstatus hvalid (fun g hg x hx => ?_) horder hplace.2)
    obtain hg | hg := List.mem_append.mp hg
    · exact hbefore g hg x (List.mem_cons_of_mem _ hx)
    · obtain rfl := List.mem_singleton.mp hg
      exact hfirst x hx

/-- Of any frames that arrive in their places: exactly the MSDUs are forwarded of which all fragments have arrived,
each when the last of them arrives. -/
theorem defragmentation (msdus : Nat → Msdu α) (startingSeq : Nat) (frames : List Frame)
    (hvalid : ∀ f ∈ frames, f.Valid msdus) (horder : frames.Pairwise Frame.Before)
    (hplace : AllInPlace msdus startingSeq {} [] frames) :
    receiveAll msdus startingSeq {} frames = dueAll msdus [] frames :=
  receiveAll_due (.start rfl rfl) hvalid (fun _ hg => nomatch hg) horder hplace

/-- Two fragments, and then MSDUs of one. -/
def twoThenOne (k : Nat) : Msdu Nat :=
  if k = 0 then ⟨[[1], [2]], false, by decide, by decide, by decide⟩
  else ⟨[[3]], false, by decide, by decide, by decide⟩

theorem defragmentation_two :
    receiveAll twoThenOne 4095 {} [⟨0, 0, false⟩, ⟨0, 1, true⟩, ⟨0, 1, true⟩, ⟨1, 0, false⟩] =
      dueAll twoThenOne [] [⟨0, 0, false⟩, ⟨0, 1, true⟩, ⟨0, 1, true⟩, ⟨1, 0, false⟩] :=
  defragmentation twoThenOne 4095 [⟨0, 0, false⟩, ⟨0, 1, true⟩, ⟨0, 1, true⟩, ⟨1, 0, false⟩]
    (by simp [Frame.Valid, twoThenOne]) (by simp [Frame.Before])
    ⟨.inr ⟨rfl, rfl⟩, .inr ⟨_, rfl, rfl⟩, .inl ⟨_, List.mem_cons_of_mem _ List.mem_cons_self, rfl, rfl⟩,
      .inr ⟨rfl, rfl⟩, trivial⟩

/-- After the last fragment of an MSDU was lost, the next one is not forwarded. -/
theorem not_defragmentation_lost :
    (∀ f ∈ ([⟨0, 0, false⟩, ⟨1, 0, false⟩] : List Frame), f.Valid twoThenOne) ∧
      ([⟨0, 0, false⟩, ⟨1, 0, false⟩] : List Frame).Pairwise Frame.Before ∧
      receiveAll twoThenOne 0 {} [⟨0, 0, false⟩, ⟨1, 0, false⟩] = [] ∧
      dueAll twoThenOne [] [⟨0, 0, false⟩, ⟨1, 0, false⟩] = [[3]] :=
  ⟨by simp [Frame.Valid, twoThenOne], by simp [Frame.Before], by decide, by decide⟩

end Run

end Ns3.Wifi
