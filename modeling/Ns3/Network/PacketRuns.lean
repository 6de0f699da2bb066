import Ns3.Lib.Slots
import Ns3.Network.ByteTagRuns

/-!
# Byte tags through runs of calls

The packets of a program report for their bytes the tags that were put on them.
-/

namespace Ns3.Network

open Ns3.Lib

/-- The heap of a program at its start. -/
def TagHeap.empty : TagHeap where
  blocks _ := ⟨0, 0, 0, []⟩

/-- The bytes of an object. -/
def TaggedPackets.bytesAt (a : List (Option TaggedBytes)) (i : Nat) : TaggedBytes :=
  a[i]?.join.getD ⟨0, fun _ => []⟩

/-- What an operation does to bytes with their tags. -/
def PacketCall.apply (a : List (Option TaggedBytes)) : PacketCall → List (Option TaggedBytes)
  | construct size => a ++ [some ⟨size, fun _ => []⟩]
  | copy i => a ++ [some (TaggedPackets.bytesAt a i)]
  | addHeader i size => a.set i (some ((TaggedPackets.bytesAt a i).addAtStart size))
  | removeHeader i size | removeAtStart i size =>
    a.set i (some ((TaggedPackets.bytesAt a i).removeAtStart size))
  | addTrailer i size | addPaddingAtEnd i size =>
    a.set i (some ((TaggedPackets.bytesAt a i).addAtEnd size))
  | removeTrailer i size | removeAtEnd i size =>
    a.set i (some ((TaggedPackets.bytesAt a i).removeAtEnd size))
  | createFragment i start length => a ++ [some ((TaggedPackets.bytesAt a i).fragment start length)]
  | addAtEnd i j => a.set i (some ((TaggedPackets.bytesAt a i).append (TaggedPackets.bytesAt a j)))
  | addByteTag i t =>
    a.set i (some ((TaggedPackets.bytesAt a i).tag t 0 (TaggedPackets.bytesAt a i).size))
  | addByteTagAt i t start stop => a.set i (some ((TaggedPackets.bytesAt a i).tag t start stop))
  | destroy i => a.set i none

/-- The object exists. -/
def TaggedPackets.Live (a : List (Option TaggedBytes)) (i : Nat) : Prop := ∃ q, a[i]?.join = some q

/-- An operation is one that a program can call: objects exist, fragments and tags are within bounds,
no packet has 2^30 bytes or more. -/
def PacketCall.Valid (a : List (Option TaggedBytes)) : PacketCall → Prop
  | construct size => size < 2 ^ 30
  | addHeader i size | addTrailer i size | addPaddingAtEnd i size =>
    TaggedPackets.Live a i ∧ (TaggedPackets.bytesAt a i).size + size < 2 ^ 30
  | createFragment i start length =>
    TaggedPackets.Live a i ∧ start + length ≤ (TaggedPackets.bytesAt a i).size
  | addAtEnd i j => TaggedPackets.Live a i ∧ TaggedPackets.Live a j ∧ i ≠ j ∧
    (TaggedPackets.bytesAt a i).size + (TaggedPackets.bytesAt a j).size < 2 ^ 30
  | addByteTagAt i _ start stop =>
    TaggedPackets.Live a i ∧ start ≤ stop ∧ stop ≤ (TaggedPackets.bytesAt a i).size
  | copy i | removeHeader i _ | removeTrailer i _ | removeAtStart i _ | removeAtEnd i _
  | addByteTag i _ | destroy i => TaggedPackets.Live a i

/-- No sum of an offset and an adjustment overflows in an operation. -/
def PacketCall.Exact (s : TaggedPackets) : PacketCall → Prop
  | addHeader i size => ∀ p, s.get i = some p → Fits32 (p.m_byteTagList.m_adjustment + size) ∧
    (p.m_byteTagList.adjust size).Exact s.heap (p.size + size)
  | removeHeader i size | removeAtStart i size =>
    ∀ p, s.get i = some p → Fits32 (p.m_byteTagList.m_adjustment - size) ∧
      (p.m_byteTagList.adjust (int32 (-size))).Exact s.heap (p.size - size)
  | addTrailer i size | addPaddingAtEnd i size =>
    ∀ p, s.get i = some p → p.m_byteTagList.Grows p.size size
  | createFragment i start length =>
    ∀ p, s.get i = some p → Fits32 (p.m_byteTagList.m_adjustment - start) ∧
      (p.m_byteTagList.adjust (int32 (-start))).Exact s.heap length
  | addAtEnd i j => ∀ p r, s.get i = some p → s.get j = some r → p.Appends s.heap r
  | _ => True

namespace TaggedPackets

/-- The lists of the packets. -/
def live (s : TaggedPackets) : List ByteTagList :=
  (present s.objects).map TaggedPacket.m_byteTagList

/-- The lists of the packets but the object `i`. -/
def others (s : TaggedPackets) (i : Nat) : List ByteTagList :=
  (presentBut s.objects i).map TaggedPacket.m_byteTagList

/-- Packets report for their bytes the tags that these have. -/
structure Tracks (s : TaggedPackets) (a : List (Option TaggedBytes)) : Prop where
  holds : s.heap.Holds s.live
  length : a.length = s.objects.length
  stands : ∀ i, Option.Rel (TaggedPacket.Stands s.heap) (s.get i) a[i]?.join

section Tracks

variable {s : TaggedPackets} {a : List (Option TaggedBytes)} {h : TagHeap} {p p' : TaggedPacket}
  {q : TaggedBytes} {i j : Nat} {es : List TagItem} {r : TagHeap × TaggedPacket}

theorem getElem?_of_get (hget : s.get i = some p) : s.objects[i]? = some (some p) :=
  Option.join_eq_some_iff.mp hget

theorem mem_live (hget : s.get i = some p) : p.m_byteTagList ∈ s.live :=
  List.mem_map_of_mem (mem_present (getElem?_of_get hget))

theorem mem_others (hget : s.get j = some p) (hij : j ≠ i) : p.m_byteTagList ∈ s.others i :=
  List.mem_map_of_mem (mem_presentBut (getElem?_of_get hget) hij)

/-- An object with what it stands for. -/
theorem Tracks.get (ht : s.Tracks a) (hl : Live a i) :
    ∃ p, s.get i = some p ∧ p.Stands s.heap (TaggedPackets.bytesAt a i) := by
  obtain ⟨q, hq⟩ := hl
  have hs := ht.stands i
  rw [bytesAt, hq]
  rw [hq] at hs
  generalize s.get i = o at *
  cases hs with
  | some hs => exact ⟨_, rfl, hs⟩

theorem Tracks.split (ht : s.Tracks a) (hget : s.get i = some p) :
    s.heap.Holds (p.m_byteTagList :: s.others i) :=
  ht.holds.perm ((present_perm (getElem?_of_get hget)).map _)

/-- The other objects stand for what they stood for. -/
theorem Tracks.keep (ht : s.Tracks a) (hk : s.heap.Keeps h (s.others i)) (hij : j ≠ i) :
    Option.Rel (TaggedPacket.Stands h) (s.get j) a[j]?.join := by
  have hs := ht.stands j
  have hkeep := fun p (hp : s.get j = some p) => hk _ (mem_others hp hij)
  generalize s.get j = o at *
  generalize a[j]?.join = o' at *
  cases hs with
  | none => exact .none
  | some hs => exact .some (hs.congr (hkeep _ rfl))

theorem Tracks.put (ht : s.Tracks a) (hget : s.get i = some p)
    (hm : s.heap.Made r.1 (s.others i) r.2.m_byteTagList es) (hs : r.2.Stands r.1 q) :
    (s.put i r).Tracks (a.set i (some q)) := by
  have hlt := lt_of_getElem? (getElem?_of_get hget)
  have hlt' : i < a.length := ht.length ▸ hlt
  refine ⟨hm.holds.perm ((present_set hlt r.2).map TaggedPacket.m_byteTagList).symm, ?_, fun j => ?_⟩
  · rw [List.length_set, ht.length]
    exact List.length_set.symm
  · change Option.Rel _ (s.objects.set i (some r.2))[j]?.join _
    by_cases hij : i = j
    · subst hij
      rw [List.getElem?_set_self hlt, List.getElem?_set_self hlt']
      exact .some hs
    · rw [List.getElem?_set_ne hij, List.getElem?_set_ne hij]
      exact ht.keep hm.keeps (Ne.symm hij)

theorem Tracks.push (ht : s.Tracks a) (hm : s.heap.Made r.1 s.live r.2.m_byteTagList es)
    (hs : r.2.Stands r.1 q) : (s.push r).Tracks (a ++ [some q]) := by
  refine ⟨hm.holds.perm ((present_push s.objects r.2).map TaggedPacket.m_byteTagList).symm, ?_,
    fun j => ?_⟩
  · change _ = (s.objects ++ [some r.2]).length
    rw [List.length_append, List.length_append, ht.length]
    rfl
  · change Option.Rel _ (s.objects ++ [some r.2])[j]?.join _
    by_cases hlt : j < s.objects.length
    · rw [List.getElem?_append_left hlt, List.getElem?_append_left (ht.length ▸ hlt)]
      have hst := ht.stands j
      have hkeep := fun p (hp : s.get j = some p) => hm.keeps _ (mem_live hp)
      rw [TaggedPackets.get] at hst hkeep
      generalize s.objects[j]?.join = o at *
      generalize a[j]?.join = o' at *
      cases hst with
      | none => exact .none
      | some hst => exact .some (hst.congr (hkeep _ rfl))
    · rw [List.getElem?_append_right (Nat.le_of_not_lt hlt), List.getElem?_append_right
        (ht.length ▸ Nat.le_of_not_lt hlt), ht.length]
      cases j - s.objects.length with
      | zero => exact .some hs
      | succ n => exact .none

/-- An operation on one packet alone. -/
theorem Tracks.putSame (ht : s.Tracks a) (hget : s.get i = some p) (hs : p'.Stands s.heap q)
    (hdata : p'.m_byteTagList.m_data = p.m_byteTagList.m_data)
    (hused : p'.m_byteTagList.m_used = p.m_byteTagList.m_used) :
    (s.put i (s.heap, p')).Tracks (a.set i (some q)) := by
  have hh := ht.split hget
  have hitems : p'.m_byteTagList.items s.heap = p.m_byteTagList.items s.heap := by
    rw [ByteTagList.items, ByteTagList.items, hdata, hused]
  refine ht.put hget ⟨⟨?_, fun c hc => ?_⟩, fun _ _ => rfl, rfl⟩ hs
  · have := hh.inv
    rw [ByteTagList.filterMap_data_cons] at this ⊢
    rw [hdata]
    exact this
  · rcases List.mem_cons.mp hc with rfl | hc
    · obtain ⟨hok, hfront⟩ := hh.ok p.m_byteTagList List.mem_cons_self
      refine ⟨?_, ?_⟩
      · rw [hitems, hused]
        exact hok
      · rw [hdata, hitems]
        exact hfront
    · exact hh.ok c (List.mem_cons_of_mem _ hc)

end Tracks

end TaggedPackets

section Runs

variable {s s' : TaggedPackets} {a : List (Option TaggedBytes)} {c : PacketCall}

open TaggedPackets in
/-- An operation in which no sum overflows does what it does to bytes with their tags. -/
theorem PacketCall.run_apply (ht : s.Tracks a) (hv : c.Valid a) (hc : c.Exact s) :
    ∃ s', c.run s = some s' ∧ s'.Tracks (c.apply a) := by
  cases c with
  | construct size =>
    have hempty : ByteTagList.items s.heap {} = [] := rfl
    refine ⟨_, rfl, ht.push (r := (s.heap, { size := size }))
      (show s.heap.Made _ _ _ [] from ⟨⟨?_, ?_⟩, fun _ _ => rfl, rfl⟩)
      ⟨rfl, hv, ⟨?_, ?_, ?_, ?_⟩, ?_, fun _ _ => rfl⟩⟩
    · rw [ByteTagList.filterMap_data_cons]
      exact ht.holds.inv
    · intro l hl
      rcases List.mem_cons.mp hl with rfl | hl
      · exact ⟨rfl, fun e he => absurd he.symm (Option.some_ne_none _)⟩
      · exact ht.holds.ok l hl
    · change Fits32 0
      decide
    · change Fits32 (-0)
      decide
    · change Fits32 (size - 0)
      change size < 2 ^ 30 at hv
      rw [Fits32]
      omega
    · exact fun e he => absurd he List.not_mem_nil
    · exact fun e he => absurd he List.not_mem_nil
  | copy i =>
    obtain ⟨p, hget, hs⟩ := ht.get hv
    have hm := ByteTagList.copy_made ht.holds (mem_live hget)
    refine ⟨_, by rw [PacketCall.run, hget]; rfl, ht.push hm ?_⟩
    exact TaggedPacket.Stands.congr hs hm.items
  | addHeader i size =>
    obtain ⟨p, hget, hs⟩ := ht.get hv.1
    obtain ⟨hfits, hx⟩ := hc p hget
    rw [hs.size] at hx
    obtain ⟨es, hm, hs'⟩ := addHeader_stands (ht.split hget) hs hfits hx hv.2
    exact ⟨_, by rw [PacketCall.run, hget]; rfl, ht.put hget hm hs'⟩
  | removeHeader i size =>
    obtain ⟨p, hget, hs⟩ := ht.get hv
    obtain ⟨hfits, hx⟩ := hc p hget
    rw [hs.size] at hx
    exact ⟨s.put i (s.heap, p.removeHeader size), by rw [PacketCall.run, hget]; rfl,
      ht.putSame hget (removeAtStart_stands hs hfits hx) rfl rfl⟩
  | removeAtStart i size =>
    obtain ⟨p, hget, hs⟩ := ht.get hv
    obtain ⟨hfits, hx⟩ := hc p hget
    rw [hs.size] at hx
    exact ⟨s.put i (s.heap, p.removeAtStart size), by rw [PacketCall.run, hget]; rfl,
      ht.putSame hget (removeAtStart_stands hs hfits hx) rfl rfl⟩
  | addTrailer i size =>
    obtain ⟨p, hget, hs⟩ := ht.get hv.1
    obtain ⟨es, hm, hs'⟩ := addTrailer_stands (ht.split hget) hs (hs.size ▸ hc p hget) hv.2
    exact ⟨_, by rw [PacketCall.run, hget]; rfl, ht.put hget hm hs'⟩
  | addPaddingAtEnd i size =>
    obtain ⟨p, hget, hs⟩ := ht.get hv.1
    obtain ⟨es, hm, hs'⟩ := addTrailer_stands (ht.split hget) hs (hs.size ▸ hc p hget) hv.2
    exact ⟨_, by rw [PacketCall.run, hget]; rfl, ht.put hget hm hs'⟩
  | removeTrailer i size =>
    obtain ⟨p, hget, hs⟩ := ht.get hv
    exact ⟨s.put i (s.heap, p.removeTrailer size), by rw [PacketCall.run, hget]; rfl,
      ht.putSame hget (removeAtEnd_stands hs size) rfl rfl⟩
  | removeAtEnd i size =>
    obtain ⟨p, hget, hs⟩ := ht.get hv
    exact ⟨s.put i (s.heap, p.removeAtEnd size), by rw [PacketCall.run, hget]; rfl,
      ht.putSame hget (removeAtEnd_stands hs size) rfl rfl⟩
  | createFragment i start length =>
    obtain ⟨hl, hle⟩ := hv
    obtain ⟨p, hget, hs⟩ := ht.get hl
    obtain ⟨hfits, hx⟩ := hc p hget
    obtain ⟨es, hm, hs'⟩ := createFragment_stands ht.holds (mem_live hget) hs hfits hx hle
    refine ⟨_, ?_, ht.push hm hs'⟩
    rw [PacketCall.run, hget]
    exact if_pos (hs.size ▸ hle)
  | addAtEnd i j =>
    obtain ⟨hl, hl', hij, hsize⟩ := hv
    obtain ⟨p, hget, hs⟩ := ht.get hl
    obtain ⟨r, hget', hs'⟩ := ht.get hl'
    obtain ⟨es, hm, hs''⟩ := addAtEnd_stands (ht.split hget) (mem_others hget' (Ne.symm hij)) hs hs'
      (hc p r hget hget') hsize
    refine ⟨_, ?_, ht.put hget hm hs''⟩
    rw [PacketCall.run, hget, hget']
    exact if_neg hij
  | addByteTag i t =>
    obtain ⟨p, hget, hs⟩ := ht.get hv
    obtain ⟨es, hm, hs'⟩ := addByteTagAt_stands (ht.split hget) hs t (Nat.zero_le _) (Nat.le_refl _)
    refine ⟨s.put i (p.addByteTag s.heap t), by rw [PacketCall.run, hget]; rfl, ?_⟩
    rw [TaggedPacket.addByteTag, hs.size]
    exact ht.put hget hm hs'
  | addByteTagAt i t start stop =>
    obtain ⟨hl, hle, hstop⟩ := hv
    obtain ⟨p, hget, hs⟩ := ht.get hl
    obtain ⟨es, hm, hs'⟩ := addByteTagAt_stands (ht.split hget) hs t hle hstop
    refine ⟨_, ?_, ht.put hget hm hs'⟩
    rw [PacketCall.run, hget]
    exact if_neg (Nat.not_lt.mpr hle)
  | destroy i =>
    obtain ⟨p, hget, hs⟩ := ht.get hv
    obtain ⟨hh, hk⟩ := ByteTagList.deallocate_holds (ht.split hget)
    refine ⟨_, by rw [PacketCall.run, hget]; rfl, hh, ?_, fun j => ?_⟩
    · rw [PacketCall.apply, List.length_set, ht.length]
      exact List.length_set.symm
    · have hlt := lt_of_getElem? (getElem?_of_get hget)
      change Option.Rel _ (s.objects.set i none)[j]?.join (a.set i none)[j]?.join
      by_cases hij : i = j
      · subst hij
        rw [List.getElem?_set_self hlt, List.getElem?_set_self (ht.length ▸ hlt)]
        exact .none
      · rw [List.getElem?_set_ne hij, List.getElem?_set_ne hij]
        exact ht.keep hk (Ne.symm hij)

/-- The operations of a run, one after the other. -/
def TaggedPackets.runs (s : TaggedPackets) : List PacketCall → Option TaggedPackets
  | [] => some s
  | c :: calls => (c.run s).bind fun s => s.runs calls

/-- The operations can be called one after the other. -/
def PacketCall.ValidRun (a : List (Option TaggedBytes)) : List PacketCall → Prop
  | [] => True
  | c :: calls => c.Valid a ∧ ValidRun (c.apply a) calls

/-- No sum overflows in a run. -/
def TaggedPackets.Exact (s : TaggedPackets) : List PacketCall → Prop
  | [] => True
  | c :: calls => c.Exact s ∧ ∀ s', c.run s = some s' → s'.Exact calls

theorem TaggedPackets.Tracks.runs {calls : List PacketCall} (ht : s.Tracks a)
    (hv : PacketCall.ValidRun a calls) (hx : s.Exact calls) :
    ∃ s', s.runs calls = some s' ∧ s'.Tracks (calls.foldl PacketCall.apply a) := by
  induction calls generalizing s a with
  | nil => exact ⟨s, rfl, ht⟩
  | cons c calls ih =>
    obtain ⟨s₁, heq, ht₁⟩ := PacketCall.run_apply ht hv.1 hx.1
    obtain ⟨s', heq', ht'⟩ := ih ht₁ hv.2 (hx.2 s₁ heq)
    refine ⟨s', ?_, ht'⟩
    rw [TaggedPackets.runs, heq]
    exact heq'

theorem TaggedPackets.Tracks.empty : TaggedPackets.Tracks ⟨.empty, []⟩ [] where
  holds := ⟨⟨fun _ => rfl, ⟨fun _ _ => rfl, nofun, List.nodup_nil⟩, fun _ => rfl⟩, nofun⟩
  length := rfl
  stands _ := .none

/-- After every run in which no sum with an adjustment overflows, the iterator of a packet reports for
each byte the tags that were put on it, and nothing for others. -/
theorem TaggedPackets.byteTags_runs {calls : List PacketCall} (hv : PacketCall.ValidRun [] calls)
    (hx : TaggedPackets.Exact ⟨.empty, []⟩ calls) :
    ∃ s, TaggedPackets.runs ⟨.empty, []⟩ calls = some s ∧
      ∀ i, Option.Rel (fun p q => p.size = q.size ∧
          (∀ e ∈ p.byteTags s.heap, 0 ≤ e.start ∧ e.stop ≤ q.size) ∧
          ∀ k : Nat, k < q.size → tagsAt (p.byteTags s.heap) k = q.tags k)
        (s.get i) (calls.foldl PacketCall.apply [])[i]?.join := by
  obtain ⟨s, heq, ht⟩ := TaggedPackets.Tracks.empty.runs hv hx
  refine ⟨s, heq, fun i => ?_⟩
  have hs := ht.stands i
  generalize s.get i = o at *
  generalize (calls.foldl PacketCall.apply [])[i]?.join = o' at *
  cases hs with
  | none => exact .none
  | some hs => exact .some ⟨hs.size, fun e he => hs.within he, fun k hk => hs.byteTags hk⟩

/-- Three times all the bytes are removed at the start and as many come back at the end, so that the
adjustment is near -2^31; then the last 9 of 16 tagged bytes are replaced by padding. -/
def drifting : List PacketCall :=
  [.construct (2 ^ 29), .removeAtStart 0 (2 ^ 29), .addPaddingAtEnd 0 (2 ^ 29),
    .removeAtStart 0 (2 ^ 29), .addPaddingAtEnd 0 (2 ^ 29), .removeAtStart 0 (2 ^ 29),
    .addPaddingAtEnd 0 (2 ^ 29), .removeAtStart 0 (2 ^ 29 - 8), .addPaddingAtEnd 0 8,
    .addByteTag 0 ⟨1, [7]⟩, .removeAtEnd 0 9, .addPaddingAtEnd 0 9]

/-- The padding has the tag of the bytes that were removed. -/
theorem TaggedPackets.byteTags_drifting : PacketCall.ValidRun [] drifting ∧
    ∃ s ∈ TaggedPackets.runs ⟨.empty, []⟩ drifting, ∃ p ∈ s.get 0,
      ∃ q ∈ (drifting.foldl PacketCall.apply [])[0]?.join, p.size = 16 ∧ q.size = 16 ∧
        tagsAt (p.byteTags s.heap) 10 = [⟨1, [7]⟩] ∧ q.tags 10 = [] := by
  refine ⟨?_, by decide +kernel⟩
  simp [drifting, PacketCall.ValidRun, PacketCall.Valid, PacketCall.apply, TaggedPackets.Live,
    TaggedPackets.bytesAt, TaggedBytes.removeAtStart, TaggedBytes.addAtEnd, TaggedBytes.removeAtEnd,
    TaggedBytes.tag]

/-- A tag is put on two bytes, and one of them is replaced by padding. -/
theorem TaggedPackets.byteTags_runs_padded :
    ∃ s, TaggedPackets.runs ⟨.empty, []⟩ [.construct 2, .addByteTag 0 ⟨1, [7]⟩, .removeAtEnd 0 1,
        .addPaddingAtEnd 0 1] = some s ∧
      ∀ i, Option.Rel (fun p q => p.size = q.size ∧
          (∀ e ∈ p.byteTags s.heap, 0 ≤ e.start ∧ e.stop ≤ q.size) ∧
          ∀ k : Nat, k < q.size → tagsAt (p.byteTags s.heap) k = q.tags k)
        (s.get i) (List.foldl PacketCall.apply [] [.construct 2, .addByteTag 0 ⟨1, [7]⟩, .removeAtEnd 0 1,
        .addPaddingAtEnd 0 1])[i]?.join := by
  refine TaggedPackets.byteTags_runs ?_ ?_
  · simp [PacketCall.ValidRun, PacketCall.Valid, PacketCall.apply, TaggedPackets.Live,
      TaggedPackets.bytesAt, TaggedBytes.removeAtEnd, TaggedBytes.tag]
  · refine ⟨trivial, fun s₁ h₁ => ?_⟩
    cases h₁
    refine ⟨trivial, fun s₂ h₂ => ?_⟩
    cases h₂
    refine ⟨trivial, fun s₃ h₃ => ?_⟩
    cases h₃
    refine ⟨fun p hp hmax => ?_, fun _ _ => trivial⟩
    cases hp
    change Fits32 (2 - 0)
    decide

end Runs

end Ns3.Network
