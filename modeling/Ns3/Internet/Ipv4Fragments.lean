import Mathlib.Data.List.Induction
import Mathlib.Tactic.Tauto
import Ns3.Lib.Fragments

/-!
# IPv4 fragments

The fragments of a datagram, in the order of their offsets, as `Ipv4L3ProtocolwithFecEncode` stores
them. When the reassembly times out, what there is from the start on is put together. A packet stands
for its bytes. Source: `contrib/fec/model/ipv4-l3-protocol-with-fec-encode.cc`.
-/

namespace Ns3.Internet

open Ns3.Lib

/-- `Packet::CreateFragment`: as many bytes are removed at the start and at the end as there are. -/
def createFragment (p : List UInt8) (start length : UInt32) : List UInt8 :=
  let tmp := p.drop start.toNat
  tmp.take (tmp.length - (UInt32.ofNat p.length - (start + length)).toNat)

/-- `Ipv4L3ProtocolwithFecEncode::Fragments`. -/
structure Ipv4Fragments where
  m_moreFragment : Bool := false
  m_fragments : List (List UInt8 × UInt16) := []
  deriving DecidableEq, Repr

/-- A call of `CreateFragment`. -/
structure FragmentCall where
  packet : List UInt8
  start : UInt32
  length : UInt32
  deriving DecidableEq, Repr

/-- It stays inside the packet. -/
def FragmentCall.Inside (c : FragmentCall) : Prop := c.start.toNat + c.length.toNat ≤ c.packet.length

instance : DecidablePred FragmentCall.Inside := fun c =>
  inferInstanceAs (Decidable (c.start.toNat + c.length.toNat ≤ c.packet.length))

namespace Ipv4Fragments

/-- Before the first fragment with a larger offset. -/
def insertAt (fragment : List UInt8) (fragmentOffset : UInt16) :
    List (List UInt8 × UInt16) → List (List UInt8 × UInt16)
  | [] => [(fragment, fragmentOffset)]
  | (f, o) :: rest =>
    if o > fragmentOffset then (fragment, fragmentOffset) :: (f, o) :: rest
    else (f, o) :: insertAt fragment fragmentOffset rest

def addFragment (fs : Ipv4Fragments) (fragment : List UInt8) (fragmentOffset : UInt16) (moreFragment : Bool) :
    Ipv4Fragments :=
  { m_moreFragment :=
      if fs.m_fragments.all fun e => ¬e.2 > fragmentOffset then moreFragment else fs.m_moreFragment
    m_fragments := insertAt fragment fragmentOffset fs.m_fragments }

/-- The loop of `GetPartialPacket`, with its calls of `CreateFragment`. -/
def joinPartial : List (List UInt8 × UInt16) → List UInt8 → UInt16 → List FragmentCall →
    List UInt8 × List FragmentCall
  | [], p, _, calls => (p, calls)
  | (f, o) :: rest, p, lastEndOffset, calls =>
    if lastEndOffset > o then
      let newStart := lastEndOffset.toUInt32 - o.toUInt32
      let newSize := UInt32.ofNat f.length - newStart
      let p := p ++ createFragment f newStart newSize
      joinPartial rest p (UInt16.ofNat p.length) (calls ++ [⟨f, newStart, newSize⟩])
    else if lastEndOffset = o then
      let p := p ++ f
      joinPartial rest p (UInt16.ofNat p.length) calls
    else joinPartial rest p (UInt16.ofNat p.length) calls

/-- `GetPartialPacket`, which reads the first fragment. -/
def getPartialPacket (fs : Ipv4Fragments) : Option (List UInt8 × List FragmentCall) :=
  match fs.m_fragments with
  | [] => none
  | (f, o) :: rest => some (if o > 0 then ([], []) else joinPartial ((f, o) :: rest) [] 0 [])

/-- The fragments with their positions. -/
def chunks (es : List (List UInt8 × UInt16)) : List (Chunk UInt8) := es.map fun e => (e.2.toNat, e.1)

/-- A fragment of the datagram. -/
structure FragmentOf (d : List UInt8) (e : List UInt8 × UInt16) : Prop where
  fits : e.2.toNat + e.1.length ≤ d.length
  bytes : e.1 = (d.drop e.2.toNat).take e.1.length

/-- What has been stored of the fragments that have come. -/
def stored (arrivals : List (List UInt8 × UInt16 × Bool)) : Ipv4Fragments :=
  arrivals.foldl (fun fs a => fs.addFragment a.1 a.2.1 a.2.2) {}

/-- No fragment of `es` ends before the end of what those in front of it, and `pre`, cover from the start on. -/
def NoneContained (pre es : List (List UInt8 × UInt16)) : Prop :=
  ∀ before e after, es = before ++ e :: after →
    ∀ n, PrefixEnd (chunks (pre ++ before)) n → n ≤ e.2.toNat + e.1.length

/-! ### What is stored -/

theorem mem_insertAt {f : List UInt8} {o : UInt16} {es : List (List UInt8 × UInt16)} {e : List UInt8 × UInt16} :
    e ∈ insertAt f o es ↔ e = (f, o) ∨ e ∈ es := by
  induction es with
  | nil => exact List.mem_singleton.trans (by simp)
  | cons g rest ih =>
    rw [insertAt]
    split
    · exact List.mem_cons
    · rw [List.mem_cons, ih, List.mem_cons]
      tauto

theorem insertAt_sorted {f : List UInt8} {o : UInt16} {es : List (List UInt8 × UInt16)}
    (h : es.Pairwise fun a b => a.2 ≤ b.2) : (insertAt f o es).Pairwise fun a b => a.2 ≤ b.2 := by
  induction es with
  | nil => exact List.pairwise_singleton _ _
  | cons g rest ih =>
    obtain ⟨hg, hrest⟩ := List.pairwise_cons.mp h
    rw [insertAt]
    split
    · next hlt =>
      refine List.pairwise_cons.mpr ⟨fun e he => ?_, h⟩
      obtain rfl | he := List.mem_cons.mp he
      · exact UInt16.le_of_lt hlt
      · exact UInt16.le_trans (UInt16.le_of_lt hlt) (hg e he)
    · next hle =>
      refine List.pairwise_cons.mpr ⟨fun e he => ?_, ih hrest⟩
      obtain rfl | he := mem_insertAt.mp he
      · exact UInt16.not_lt.mp hle
      · exact hg e he

theorem stored_snoc (arrivals : List (List UInt8 × UInt16 × Bool)) (a : List UInt8 × UInt16 × Bool) :
    stored (arrivals ++ [a]) = (stored arrivals).addFragment a.1 a.2.1 a.2.2 :=
  List.foldl_concat _ _ _ _

theorem stored_sorted (arrivals : List (List UInt8 × UInt16 × Bool)) :
    (stored arrivals).m_fragments.Pairwise fun a b => a.2 ≤ b.2 := by
  induction arrivals using List.reverseRecOn with
  | nil => exact List.Pairwise.nil
  | append_singleton arrivals a ih =>
    rw [stored_snoc]
    exact insertAt_sorted ih

theorem mem_stored {arrivals : List (List UInt8 × UInt16 × Bool)} {e : List UInt8 × UInt16} :
    e ∈ (stored arrivals).m_fragments ↔ ∃ a ∈ arrivals, e = (a.1, a.2.1) := by
  induction arrivals using List.reverseRecOn with
  | nil => exact ⟨fun h => absurd h List.not_mem_nil, fun ⟨_, ha, _⟩ => absurd ha List.not_mem_nil⟩
  | append_singleton arrivals a ih =>
    rw [stored_snoc]
    refine mem_insertAt.trans ?_
    rw [ih]
    constructor
    · rintro (rfl | ⟨b, hb, rfl⟩)
      · exact ⟨a, List.mem_append_right _ List.mem_cons_self, rfl⟩
      · exact ⟨b, List.mem_append_left _ hb, rfl⟩
    · rintro ⟨b, hb, rfl⟩
      obtain hb | hb := List.mem_append.mp hb
      · exact .inr ⟨b, hb, rfl⟩
      · rw [List.mem_singleton.mp hb]
        exact .inl rfl

/-! ### What is put together -/

variable {d p f : List UInt8} {o : UInt16} {pre es : List (List UInt8 × UInt16)}

/-- The size that is asked for makes up for the start, also when it wraps. -/
theorem createFragment_rest (f : List UInt8) (start : UInt32) :
    createFragment f start (UInt32.ofNat f.length - start) = f.drop start.toNat := by
  have hsum : start + (UInt32.ofNat f.length - start) = UInt32.ofNat f.length := by grind
  rw [createFragment, hsum, UInt32.sub_self]
  exact List.take_of_length_le (Nat.le_refl _)

/-- What is behind the end of the bytes so far is appended. -/
theorem take_append_drop (h : FragmentOf d (f, o)) {n : ℕ} (ho : o.toNat ≤ n) :
    d.take n ++ f.drop (n - o.toNat) = d.take (max n (o.toNat + f.length)) := by
  have hfits : o.toNat + f.length ≤ d.length := h.fits
  by_cases hin : n ≤ o.toNat + f.length
  · have hdrop : f.drop (n - o.toNat) = (d.drop n).take (o.toNat + f.length - n) := by
      rw [show f = (d.drop o.toNat).take f.length from h.bytes, List.drop_take, List.drop_drop]
      congr 1
      · rw [List.length_take, List.length_drop]
        omega
      · congr 1
        omega
    rw [hdrop, ← List.take_add, Nat.max_eq_right hin, Nat.add_sub_of_le hin]
  · rw [List.drop_of_length_le (by omega), List.append_nil, Nat.max_eq_left (by omega)]

theorem noneContained_cons {e : List UInt8 × UInt16} {n : ℕ} (hn : PrefixEnd (chunks pre) n) :
    NoneContained pre (e :: es) ↔ n ≤ e.2.toNat + e.1.length ∧ NoneContained (pre ++ [e]) es := by
  constructor
  · intro h
    refine ⟨h [] e es rfl n (by rwa [List.append_nil]), fun before e' after heq m hm => ?_⟩
    refine h (e :: before) e' after (by rw [heq, List.cons_append]) m ?_
    rwa [List.append_assoc] at hm
  · rintro ⟨hfirst, hrest⟩ before e' after heq m hm
    cases before with
    | nil =>
      obtain ⟨rfl, rfl⟩ := List.cons_eq_cons.mp heq
      rw [List.append_nil] at hm
      exact hm.unique hn ▸ hfirst
    | cons g before =>
      obtain ⟨rfl, rfl⟩ := List.cons_eq_cons.mp heq
      refine hrest before e' after rfl m ?_
      rwa [List.append_assoc]

theorem chunks_snoc (es : List (List UInt8 × UInt16)) (f : List UInt8) (o : UInt16) :
    chunks (es ++ [(f, o)]) = chunks es ++ [(o.toNat, f)] := List.map_append

/-- The call is inside the fragment unless the fragment ends before the bytes so far. -/
theorem inside_iff {n : ℕ} (hn : n < 2 ^ 16) (ho : o.toNat < n) (hf : f.length < 2 ^ 16) {start : UInt32}
    (hstart : start.toNat = n - o.toNat) :
    FragmentCall.Inside ⟨f, start, UInt32.ofNat f.length - start⟩ ↔ n ≤ o.toNat + f.length := by
  have hsub := UInt32.toNat_sub (UInt32.ofNat f.length) start
  have hsize : (UInt32.ofNat f.length).toNat = f.length := UInt32.toNat_ofNat_of_lt' (Nat.lt_trans hf (by decide))
  show start.toNat + (UInt32.ofNat f.length - start).toNat ≤ f.length ↔ _
  omega

/-- The loop puts together what is covered from the start on; it asks for what is inside a fragment unless the
fragment is contained in that. -/
theorem joinPartial_eq (hd : d.length < 2 ^ 16) (hes : ∀ e ∈ es, FragmentOf d e)
    (hsorted : (pre ++ es).Pairwise fun a b => a.2 ≤ b.2) {n : ℕ} (hn : PrefixEnd (chunks pre) n)
    (hle : n ≤ d.length) (calls : List FragmentCall) :
    ∃ m calls', joinPartial es (d.take n) (UInt16.ofNat n) calls = (d.take m, calls ++ calls') ∧
      PrefixEnd (chunks (pre ++ es)) m ∧ ((∀ c ∈ calls', c.Inside) ↔ NoneContained pre es) := by
  induction es generalizing pre n calls with
  | nil =>
    refine ⟨n, [], by rw [joinPartial, List.append_nil], by rwa [List.append_nil], ?_⟩
    exact ⟨fun _ before e after heq => absurd heq (by simp), fun _ c hc => absurd hc List.not_mem_nil⟩
  | cons e rest ih =>
    obtain ⟨f, o⟩ := e
    obtain ⟨hfirst, hrest⟩ := List.forall_mem_cons.mp hes
    have hfits : o.toNat + f.length ≤ d.length := hfirst.fits
    have hlast : (UInt16.ofNat n).toNat = n := UInt16.toNat_ofNat_of_lt' (Nat.lt_of_le_of_lt hle hd)
    have hbefore : ∀ c ∈ chunks pre, c.1 ≤ o.toNat := by
      intro c hc
      obtain ⟨e, he, rfl⟩ := List.mem_map.mp hc
      exact UInt16.le_iff_toNat_le.mp ((List.pairwise_append.mp hsorted).2.2 e he _ List.mem_cons_self)
    rw [List.append_cons] at hsorted
    rw [joinPartial, noneContained_cons hn, List.append_cons]
    by_cases hgt : UInt16.ofNat n > o
    · have ho : o.toNat < n := hlast ▸ UInt16.lt_iff_toNat_lt.mp hgt
      have hstart : ((UInt16.ofNat n).toUInt32 - o.toUInt32).toNat = n - o.toNat := by
        have hsub := UInt32.toNat_sub (UInt16.ofNat n).toUInt32 o.toUInt32
        rw [UInt16.toNat_toUInt32, UInt16.toNat_toUInt32, hlast] at hsub
        omega
      have hnext := hn.snoc (c := (o.toNat, f)) hbefore ho.le
      rw [← chunks_snoc] at hnext
      have hjoin := take_append_drop hfirst ho.le
      have hlength : (d.take (max n (o.toNat + f.length))).length = max n (o.toNat + f.length) := by
        rw [List.length_take]
        omega
      obtain ⟨m, calls', hjoined, hm, hinside⟩ := ih hrest hsorted hnext (max_le hle hfits)
        (calls ++ [⟨f, (UInt16.ofNat n).toUInt32 - o.toUInt32,
          UInt32.ofNat f.length - ((UInt16.ofNat n).toUInt32 - o.toUInt32)⟩])
      refine ⟨m, ⟨f, (UInt16.ofNat n).toUInt32 - o.toUInt32,
        UInt32.ofNat f.length - ((UInt16.ofNat n).toUInt32 - o.toUInt32)⟩ :: calls', ?_, hm, ?_⟩
      · rw [if_pos hgt]
        dsimp only
        rw [createFragment_rest, hstart, hjoin, hlength]
        rw [← List.append_cons] at hjoined
        exact hjoined
      · rw [List.forall_mem_cons, hinside, inside_iff (by omega) ho (by omega) hstart]
    · have ho : n ≤ o.toNat := hlast ▸ UInt16.le_iff_toNat_le.mp (UInt16.not_lt.mp hgt)
      rw [if_neg hgt, and_iff_right (by show n ≤ o.toNat + f.length; omega)]
      by_cases heq : UInt16.ofNat n = o
      · have ho' : o.toNat = n := heq ▸ hlast
        have hnext := hn.snoc (c := (o.toNat, f)) hbefore ho'.le
        rw [← chunks_snoc] at hnext
        have hjoin := take_append_drop hfirst ho'.le
        rw [ho', Nat.sub_self, List.drop_zero] at hjoin
        have hmax : max n (n + f.length) = n + f.length := Nat.max_eq_right (Nat.le_add_right _ _)
        have hlength : (d.take (n + f.length)).length = n + f.length := by
          rw [List.length_take]
          omega
        rw [if_pos heq]
        dsimp only
        rw [hjoin, hmax, hlength]
        rw [Chunk.stop, ho', hmax] at hnext
        exact ih hrest hsorted hnext (by omega) calls
      · have hgap : n < o.toNat := by
          refine Nat.lt_of_le_of_ne ho fun h => heq ?_
          rw [← UInt16.toNat_inj, hlast, h]
        have hnext := hn.snoc_gap (c := (o.toNat, f)) hgap
        rw [← chunks_snoc] at hnext
        have hlength : (d.take n).length = n := List.length_take_of_le hle
        rw [if_neg heq, hlength]
        exact ih hrest hsorted hnext hle calls

/-- Without the first byte nothing is covered from the start on. -/
theorem prefixEnd_eq_zero (hes : ∀ e ∈ es, 0 < e.2.toNat) {n : ℕ} (hn : PrefixEnd (chunks es) n) : n = 0 := by
  refine Nat.eq_zero_of_not_pos fun hpos => ?_
  obtain ⟨c, hc, hle, -⟩ := hn.covered 0 hpos
  obtain ⟨e, he, rfl⟩ := List.mem_map.mp hc
  exact absurd hle (Nat.not_le.mpr (hes e he))

/-- What is put together is the part of the datagram from its start on that the fragments cover. -/
theorem partial_packet (d : List UInt8) (hd : d.length < 2 ^ 16) (arrivals : List (List UInt8 × UInt16 × Bool))
    (harrivals : ∀ a ∈ arrivals, FragmentOf d (a.1, a.2.1)) :
    (∃ p calls, (stored arrivals).getPartialPacket = some (p, calls) ∧
        (∃ n, PrefixEnd (chunks (stored arrivals).m_fragments) n ∧ p = d.take n) ∧ ∀ c ∈ calls, c.Inside) ↔
      (stored arrivals).m_fragments ≠ [] ∧ NoneContained [] (stored arrivals).m_fragments := by
  have hfragments : ∀ e ∈ (stored arrivals).m_fragments, FragmentOf d e := by
    intro e he
    obtain ⟨a, ha, rfl⟩ := mem_stored.mp he
    exact harrivals a ha
  have hsorted := stored_sorted arrivals
  unfold getPartialPacket
  generalize (stored arrivals).m_fragments = es at *
  obtain ⟨m, calls, hjoined, hm, hinside⟩ := @joinPartial_eq d [] es hd hfragments hsorted 0 PrefixEnd.nil
    (Nat.zero_le _) []
  cases es with
  | nil =>
    refine iff_of_false ?_ fun h => h.1 rfl
    rintro ⟨p, calls, hnone, -⟩
    cases hnone
  | cons e rest =>
    obtain ⟨f, o⟩ := e
    dsimp only
    rw [and_iff_right (List.cons_ne_nil _ _)]
    by_cases hgap : o > 0
    · have hpositive : ∀ e ∈ (f, o) :: rest, 0 < e.2.toNat := by
        intro e he
        obtain rfl | he := List.mem_cons.mp he
        · exact UInt16.lt_iff_toNat_lt.mp hgap
        · exact Nat.lt_of_lt_of_le (UInt16.lt_iff_toNat_lt.mp hgap)
            (UInt16.le_iff_toNat_le.mp ((List.pairwise_cons.mp hsorted).1 e he))
      rw [if_pos hgap]
      refine iff_of_true ⟨[], [], rfl, ⟨m, hm, ?_⟩, fun c hc => absurd hc List.not_mem_nil⟩ ?_
      · rw [prefixEnd_eq_zero hpositive hm, List.take_zero]
      · intro before e after heq n hn
        rw [prefixEnd_eq_zero (fun e he => hpositive e (heq ▸ List.mem_append_left _ he)) hn]
        exact Nat.zero_le _
    · rw [if_neg hgap, ← hinside]
      constructor
      · rintro ⟨p, calls', hsome, -, hall⟩
        have hpair := hjoined.symm.trans (Option.some.inj hsome)
        rw [show calls = calls' from (Prod.mk.inj hpair).2]
        exact hall
      · exact fun hall => ⟨d.take m, calls, congrArg some hjoined, ⟨m, hm, rfl⟩, hall⟩

/-- Bytes of a datagram of 24. -/
def datagram : List UInt8 := (List.range 24).map UInt8.ofNat

theorem partial_packet_overlap :
    (∃ p calls, (stored [(datagram.take 16, 0, true), (datagram.drop 8, 8, false)]).getPartialPacket =
          some (p, calls) ∧
        (∃ n, PrefixEnd (chunks (stored [(datagram.take 16, 0, true), (datagram.drop 8, 8, false)]).m_fragments) n ∧
          p = datagram.take n) ∧ ∀ c ∈ calls, c.Inside) ↔
      (stored [(datagram.take 16, 0, true), (datagram.drop 8, 8, false)]).m_fragments ≠ [] ∧
        NoneContained [] (stored [(datagram.take 16, 0, true), (datagram.drop 8, 8, false)]).m_fragments :=
  partial_packet datagram (by decide) [(datagram.take 16, 0, true), (datagram.drop 8, 8, false)] (by
    intro a ha
    obtain rfl | ha := List.mem_cons.mp ha
    · exact ⟨by decide, by decide⟩
    · rw [List.mem_singleton.mp ha]
      exact ⟨by decide, by decide⟩)

/-- The whole datagram, and eight bytes of it: `CreateFragment` is asked for what starts 8 bytes behind the end
of the second fragment. -/
theorem not_partial_packet_contained :
    (∀ a ∈ [(datagram, (0 : UInt16), true), ((datagram.drop 8).take 8, 8, true)],
        FragmentOf datagram (a.1, a.2.1)) ∧
      (stored [(datagram, 0, true), ((datagram.drop 8).take 8, 8, true)]).getPartialPacket =
        some (datagram, [⟨(datagram.drop 8).take 8, 16, 0xfffffff8⟩]) ∧
      ¬∃ p calls, (stored [(datagram, 0, true), ((datagram.drop 8).take 8, 8, true)]).getPartialPacket =
          some (p, calls) ∧
        (∃ n, PrefixEnd (chunks (stored [(datagram, 0, true), ((datagram.drop 8).take 8, 8, true)]).m_fragments) n ∧
          p = datagram.take n) ∧ ∀ c ∈ calls, c.Inside := by
  have hresult : (stored [(datagram, 0, true), ((datagram.drop 8).take 8, 8, true)]).getPartialPacket =
      some (datagram, [⟨(datagram.drop 8).take 8, 16, 0xfffffff8⟩]) := by decide +kernel
  refine ⟨?_, hresult, ?_⟩
  · intro a ha
    obtain rfl | ha := List.mem_cons.mp ha
    · exact ⟨by decide, by decide⟩
    · rw [List.mem_singleton.mp ha]
      exact ⟨by decide, by decide⟩
  · rintro ⟨p, calls, hsome, -, hall⟩
    have hpair := hresult.symm.trans hsome
    have hcalls := (Prod.mk.inj (Option.some.inj hpair)).2
    exact absurd (hall _ (hcalls ▸ List.mem_cons_self)) (by decide)

end Ipv4Fragments

end Ns3.Internet
