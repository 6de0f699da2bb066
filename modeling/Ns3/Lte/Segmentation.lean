import Ns3.Lte.DataField
import Ns3.Lte.RlcCodec

/-!
# What a data field takes from the transmission buffer

The loop takes the SDUs in front of the buffer: some as they are, and then one more or the first bytes of it, whose
status tag and that of what remains are changed. They fit with their length indicators into the size that was given, and
the length indicators split the data field again.
-/

namespace Ns3.Lte

/-- What may be in the transmission buffer: an SDU that has not been touched, or the rest of one. -/
structure Queued (sdu : Sdu) : Prop where
  ne_nil : 0 < sdu.bytes.length
  status : sdu.status = .fullSdu ∨ sdu.status = .lastSegment

/-- The sum of the sizes of what is in a buffer. -/
def totalSize (sdus : List Sdu) : Nat := (sdus.map fun sdu => sdu.bytes.length).sum

theorem totalSize_cons (sdu : Sdu) (sdus : List Sdu) : totalSize (sdu :: sdus) = sdu.bytes.length + totalSize sdus := by
  rw [totalSize, List.map_cons, List.sum_cons]
  rfl

theorem totalSize_append (sdus sdus' : List Sdu) : totalSize (sdus ++ sdus') = totalSize sdus + totalSize sdus' := by
  rw [totalSize, List.map_append, List.sum_append]
  rfl

theorem joined_length (sdus : List Sdu) : (joined sdus).length = totalSize sdus := by
  rw [joined, List.length_flatMap]
  rfl

/-- What `n` length indicators take in the header, from one on that is odd or even. -/
def indicatorsSize (nextSegmentId n : Nat) : Nat := if nextSegmentId % 2 = 1 then (3 * n + 1) / 2 else 3 * n / 2

theorem indicatorsSize_succ (nextSegmentId n : Nat) :
    indicatorsSize nextSegmentId (n + 1) = lengthIndicatorSize nextSegmentId + indicatorsSize (nextSegmentId + 1) n := by
  rw [indicatorsSize, indicatorsSize, lengthIndicatorSize]
  split
  · rw [if_neg (by omega)]
    omega
  · rw [if_pos (by omega)]
    omega

/-- What was filled: the SDUs of `whole`, and `sdu` or the first bytes of it. -/
structure Taken (filled : Filled) (whole : List Sdu) (sdu : Sdu) (rest : List Sdu) : Prop where
  fits : ∀ s ∈ whole, s.bytes.length ≤ 2047
  extensionBits : filled.extensionBits = extensionBitsOf whole.length
  lengthIndicators : filled.lengthIndicators = whole.map fun s => UInt16.ofNat s.bytes.length
  last : filled.dataField = whole ++ [sdu] ∧ filled.txBuffer = rest ∨
    ∃ n, 0 < n ∧ n < sdu.bytes.length ∧
      filled.dataField = whole ++ [⟨sdu.bytes.take n, (splitStatus sdu.status).1⟩] ∧
      filled.txBuffer = ⟨sdu.bytes.drop n, (splitStatus sdu.status).2⟩ :: rest

variable {first : Sdu} {size : Nat}

theorem wholeStatus_splitStatus (hfirst : Queued first) : wholeStatus (splitStatus first.status).1 = first.status := by
  rcases hfirst.status with h | h <;> rw [h] <;> rfl

theorem segment_taken (hfirst : Queued first) (hsize : 0 < size) (txBufferSize : Nat) (txBuffer : List Sdu) :
    Taken (segment first size txBufferSize txBuffer) [] first txBuffer ∧
      totalSize (segment first size txBufferSize txBuffer).dataField ≤ size ∧
      (txBufferSize = totalSize txBuffer % 2 ^ 32 →
        (segment first size txBufferSize txBuffer).txBufferSize =
          totalSize (segment first size txBufferSize txBuffer).txBuffer % 2 ^ 32) := by
  have hlength := hfirst.ne_nil
  rw [segment]
  split
  · next hrest =>
    rw [List.length_drop] at hrest
    refine ⟨⟨nofun, rfl, rfl, .inr ⟨min first.bytes.length size, by omega, by omega, rfl, rfl⟩⟩, ?_, fun htotal => ?_⟩
    · rw [totalSize_cons, List.length_take]
      show _ + 0 ≤ _
      omega
    · rw [totalSize_cons, htotal, add32]
      show (totalSize txBuffer % 2 ^ 32 + _) % 2 ^ 32 = (_ + totalSize txBuffer) % 2 ^ 32
      rw [Nat.mod_add_mod, Nat.add_comm]
  · next hrest =>
    rw [List.length_drop] at hrest
    have htake : first.bytes.take (min first.bytes.length size) = first.bytes := List.take_of_length_le (by omega)
    refine ⟨⟨nofun, rfl, rfl, .inl ⟨?_, rfl⟩⟩, ?_, fun htotal => htotal⟩
    · rw [htake, wholeStatus_splitStatus hfirst]
      rfl
    · rw [totalSize_cons, htake]
      show first.bytes.length + 0 ≤ size
      omega

theorem takeLast_taken (hle : first.bytes.length ≤ size) (txBufferSize : Nat) (txBuffer : List Sdu) :
    Taken (takeLast first txBufferSize txBuffer) [] first txBuffer ∧
      totalSize (takeLast first txBufferSize txBuffer).dataField ≤ size :=
  ⟨⟨nofun, rfl, rfl, .inl ⟨rfl, rfl⟩⟩, hle⟩

/-- The loop takes what is in front of the buffer, and the size of the buffer stays right. -/
theorem fill_taken (first : Sdu) (size nextSegmentId txBufferSize : Nat) (txBuffer : List Sdu)
    (hqueued : ∀ sdu ∈ first :: txBuffer, Queued sdu) (hsize : 0 < size) :
    ∃ whole sdu rest, first :: txBuffer = whole ++ sdu :: rest ∧
      Taken (fill first size nextSegmentId txBufferSize txBuffer) whole sdu rest ∧
      totalSize (fill first size nextSegmentId txBufferSize txBuffer).dataField +
        indicatorsSize nextSegmentId whole.length ≤ size ∧
      (txBufferSize = totalSize txBuffer % 2 ^ 32 →
        (fill first size nextSegmentId txBufferSize txBuffer).txBufferSize =
          totalSize (fill first size nextSegmentId txBufferSize txBuffer).txBuffer % 2 ^ 32) := by
  have hnone : ∀ id, indicatorsSize id 0 = 0 := fun id => by rw [indicatorsSize]; split <;> rfl
  induction txBuffer generalizing first size nextSegmentId txBufferSize with
  | nil =>
    have hfirst := hqueued first List.mem_cons_self
    rw [fill, if_pos ⟨hfirst.ne_nil, hsize⟩]
    split
    · obtain ⟨htaken, hle, htotal⟩ := segment_taken hfirst hsize txBufferSize []
      exact ⟨[], first, [], rfl, htaken, by rw [List.length_nil, hnone]; exact hle, htotal⟩
    · next hfits =>
      obtain ⟨htaken, hle⟩ := takeLast_taken (show first.bytes.length ≤ size by omega) txBufferSize []
      exact ⟨[], first, [], rfl, htaken, by rw [List.length_nil, hnone]; exact hle, fun htotal => htotal⟩
  | cons sdu txBuffer ih =>
    have hfirst := hqueued first List.mem_cons_self
    rw [fill, if_pos ⟨hfirst.ne_nil, hsize⟩]
    split
    · obtain ⟨htaken, hle, htotal⟩ :=
        segment_taken hfirst hsize txBufferSize (sdu :: txBuffer)
      exact ⟨[], first, sdu :: txBuffer, rfl, htaken, by rw [List.length_nil, hnone]; exact hle, htotal⟩
    · next hfits =>
      split
      · obtain ⟨htaken, hle⟩ := takeLast_taken (show first.bytes.length ≤ size by omega) txBufferSize
          (sdu :: txBuffer)
        exact ⟨[], first, sdu :: txBuffer, rfl, htaken, by rw [List.length_nil, hnone]; exact hle, fun htotal => htotal⟩
      · next hmore =>
        have hindicator : lengthIndicatorSize nextSegmentId ≤ 2 := by
          rw [lengthIndicatorSize]
          split <;> omega
        obtain ⟨whole, last, rest, heq, htaken, hle, htotal⟩ := ih sdu
          (size - (lengthIndicatorSize nextSegmentId + first.bytes.length)) (nextSegmentId + 1)
          (sub32 txBufferSize sdu.bytes.length) (fun s hs => hqueued s (List.mem_cons_of_mem _ hs)) (by omega)
        refine ⟨first :: whole, last, rest, by rw [heq]; rfl, ⟨?_, ?_, ?_, ?_⟩, ?_, fun hsum => htotal ?_⟩
        · intro s hs
          rcases List.mem_cons.mp hs with rfl | hs
          · omega
          · exact htaken.fits s hs
        · exact congrArg (eLiFieldsFollows :: ·) htaken.extensionBits
        · exact congrArg (UInt16.ofNat first.bytes.length :: ·) htaken.lengthIndicators
        · rcases htaken.last with ⟨hfield, hrest⟩ | ⟨n, hn, hn', hfield, hrest⟩
          · exact .inl ⟨congrArg (first :: ·) hfield, hrest⟩
          · exact .inr ⟨n, hn, hn', congrArg (first :: ·) hfield, hrest⟩
        · rw [List.length_cons, indicatorsSize_succ, totalSize_cons]
          omega
        · rw [hsum, totalSize_cons, sub32]
          omega

/-- What is left in the buffer. -/
theorem Taken.queued {filled : Filled} {whole : List Sdu} {sdu : Sdu} {rest : List Sdu}
    (htaken : Taken filled whole sdu rest) (hsdu : Queued sdu) (hrest : ∀ s ∈ rest, Queued s) :
    ∀ s ∈ filled.txBuffer, Queued s := by
  rcases htaken.last with ⟨-, hbuffer⟩ | ⟨n, hn, hn', -, hbuffer⟩
  · rw [hbuffer]
    exact hrest
  · rw [hbuffer]
    intro s hs
    rcases List.mem_cons.mp hs with rfl | hs
    · refine ⟨by rw [List.length_drop]; omega, ?_⟩
      rcases hsdu.status with h | h <;> rw [h] <;> exact .inr rfl
    · exact hrest s hs

theorem Taken.dataField_ne_nil {filled : Filled} {whole : List Sdu} {sdu : Sdu} {rest : List Sdu}
    (htaken : Taken filled whole sdu rest) : filled.dataField ≠ [] := by
  rcases htaken.last with ⟨hfield, -⟩ | ⟨_, -, -, hfield, -⟩
  · rw [hfield]
    exact List.append_ne_nil_of_right_ne_nil _ (List.cons_ne_nil _ _)
  · rw [hfield]
    exact List.append_ne_nil_of_right_ne_nil _ (List.cons_ne_nil _ _)

/-- The last one of a data field is not empty. -/
theorem Taken.totalSize_lt {filled : Filled} {whole : List Sdu} {sdu : Sdu} {rest : List Sdu}
    (htaken : Taken filled whole sdu rest) (hsdu : Queued sdu) : totalSize whole < totalSize filled.dataField := by
  have hlength := hsdu.ne_nil
  rcases htaken.last with ⟨hfield, -⟩ | ⟨n, hn, hn', hfield, -⟩
  · rw [hfield, totalSize_append, totalSize_cons]
    omega
  · rw [hfield, totalSize_append, totalSize_cons, List.length_take]
    omega

end Ns3.Lte
