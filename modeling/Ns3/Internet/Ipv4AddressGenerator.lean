import Ns3.Lib.BitField
import Mathlib.Data.List.Pairwise

/-!
# The registry of allocated addresses

`Ipv4AddressGeneratorImpl` keeps the addresses allocated so far as a list of ranges, which grow at either end and are
never put together. A call that aborts has no result.
Source: `src/internet/model/ipv4-address-generator.cc`.
-/

namespace Ns3.Internet

open Ns3.Lib

/-- `NetworkState`. -/
structure NetworkState where
  mask : UInt32
  shift : UInt32
  network : UInt32 := 1
  addr : UInt32 := 1
  addrMax : UInt32
  deriving DecidableEq, Repr

/-- `Entry`: a range of allocated addresses. -/
structure AddressRange where
  addrLow : UInt32
  addrHigh : UInt32
  deriving DecidableEq, Repr

/-- `Ipv4AddressGeneratorImpl`. -/
structure Ipv4AddressGenerator where
  m_netTable : List NetworkState
  m_entries : List AddressRange := []
  m_test : Bool := false
  deriving DecidableEq, Repr

namespace Ipv4AddressGenerator

/-- The loop of `Reset`, with so many masks to go. -/
def resetTable : Nat → UInt32 → List NetworkState
  | 0, _ => []
  | n + 1, mask =>
    { mask := mask, shift := UInt32.ofNat (n + 1), addrMax := ~~~mask } :: resetTable n ((mask >>> 1) ||| 0x80000000)

/-- `Reset`. -/
def reset : Ipv4AddressGenerator := { m_netTable := resetTable 32 0 }

/-- `TestMode`. -/
def testMode (g : Ipv4AddressGenerator) : Ipv4AddressGenerator := { g with m_test := true }

/-- `MaskToIndex`, for a mask that is neither 0 nor all ones. -/
def maskToIndex (mask : UInt32) : Option Nat :=
  ((List.range 32).find? fun i => (mask >>> UInt32.ofNat i) &&& 1 = 1).bind fun i =>
    if 32 - i < 32 then some (32 - i) else none

/-- What is stored for a mask. -/
def netState (mask : UInt32) (g : Ipv4AddressGenerator) : Option (Nat × NetworkState) :=
  (maskToIndex mask).bind fun index => g.m_netTable[index]?.map fun state => (index, state)

/-- `Init`. -/
def init (net mask addr : UInt32) (g : Ipv4AddressGenerator) : Option Ipv4AddressGenerator :=
  if net &&& ~~~mask = 0 ∧ addr &&& mask = 0 then
    (g.netState mask).bind fun (index, state) =>
      if addr ≤ state.addrMax then
        some { g with m_netTable := g.m_netTable.set index { state with network := net >>> state.shift, addr := addr } }
      else none
  else none

/-- `NextNetwork`, with the network returned. -/
def nextNetwork (mask : UInt32) (g : Ipv4AddressGenerator) : Option (UInt32 × Ipv4AddressGenerator) :=
  (g.netState mask).map fun (index, state) =>
    let state := { state with network := state.network + 1 }
    (state.network <<< state.shift, { g with m_netTable := g.m_netTable.set index state })

/-- `InitAddress`. -/
def initAddress (addr mask : UInt32) (g : Ipv4AddressGenerator) : Option Ipv4AddressGenerator :=
  (g.netState mask).bind fun (index, state) =>
    if addr ≤ state.addrMax then some { g with m_netTable := g.m_netTable.set index { state with addr := addr } }
    else none

/-- The loop of `AddAllocated`: whether the address was new, and the ranges with it. -/
def addEntry (addr : UInt32) : List AddressRange → Bool × List AddressRange
  | [] => (true, [⟨addr, addr⟩])
  | i :: rest =>
    if i.addrLow ≤ addr ∧ addr ≤ i.addrHigh then (false, i :: rest)
    else if addr < i.addrLow - 1 then (true, ⟨addr, addr⟩ :: i :: rest)
    else if addr = i.addrHigh + 1 then
      -- the next range may start with the address
      if rest.head?.map AddressRange.addrLow = some addr then (false, i :: rest)
      else (true, { i with addrHigh := addr } :: rest)
    else if addr = i.addrLow - 1 then (true, { i with addrLow := addr } :: rest)
    else
      let r := addEntry addr rest
      (r.1, i :: r.2)

/-- `AddAllocated`. -/
def addAllocated (addr : UInt32) (g : Ipv4AddressGenerator) : Option (Bool × Ipv4AddressGenerator) :=
  if addr = 0 then none
  else
    let r := addEntry addr g.m_entries
    if r.1 ∨ g.m_test then some (r.1, { g with m_entries := r.2 }) else none

/-- `NextAddress`: the address, and what `AddAllocated` says of it. -/
def nextAddress (mask : UInt32) (g : Ipv4AddressGenerator) : Option ((UInt32 × Bool) × Ipv4AddressGenerator) :=
  (g.netState mask).bind fun (index, state) =>
    if state.addr ≤ state.addrMax then
      let addr := (state.network <<< state.shift) ||| state.addr
      ({ g with m_netTable := g.m_netTable.set index { state with addr := state.addr + 1 } }.addAllocated addr).map
        fun (added, g) => ((addr, added), g)
    else none

/-- `IsAddressAllocated`, which is false when the address is allocated. -/
def isAddressAllocated (addr : UInt32) (g : Ipv4AddressGenerator) : Option Bool :=
  if addr = 0 then none else some !(g.m_entries.any fun i => i.addrLow ≤ addr && addr ≤ i.addrHigh)

/-- `IsNetworkAllocated`, which is false when an address of the network is allocated. -/
def isNetworkAllocated (address mask : UInt32) (g : Ipv4AddressGenerator) : Option Bool :=
  if address = address &&& mask then
    some !(g.m_entries.any fun i => address = i.addrLow &&& mask || address = i.addrHigh &&& mask)
  else none

/-! ### Runs -/

/-- The calls that change a generator. -/
inductive Call where
  | addAllocated (addr : UInt32)
  | nextAddress (mask : UInt32)
  | init (net mask addr : UInt32)
  | nextNetwork (mask : UInt32)
  | initAddress (addr mask : UInt32)

/-- One call, with the address it tries to allocate, and whether it was new. -/
def Call.run (g : Ipv4AddressGenerator) : Call → Option (List (UInt32 × Bool) × Ipv4AddressGenerator)
  | .addAllocated addr => (g.addAllocated addr).map fun (added, g) => ([(addr, added)], g)
  | .nextAddress mask => (g.nextAddress mask).map fun (tried, g) => ([tried], g)
  | .init net mask addr => (g.init net mask addr).map fun g => ([], g)
  | .nextNetwork mask => (g.nextNetwork mask).map fun (_, g) => ([], g)
  | .initAddress addr mask => (g.initAddress addr mask).map fun g => ([], g)

/-- Calls one after the other, with all addresses tried so far. -/
def runs : List Call → List (UInt32 × Bool) × Ipv4AddressGenerator →
    Option (List (UInt32 × Bool) × Ipv4AddressGenerator)
  | [], s => some s
  | call :: calls, (log, g) => (call.run g).bind fun (tried, g) => runs calls (log ++ tried, g)

/-- The addresses that were new. -/
def accepted (log : List (UInt32 × Bool)) : List UInt32 := (log.filter Prod.snd).map Prod.fst

end Ipv4AddressGenerator

/-! ### Ranges -/

/-- The range has the address. -/
def AddressRange.Has (i : AddressRange) (addr : UInt32) : Prop :=
  i.addrLow.toNat ≤ addr.toNat ∧ addr.toNat ≤ i.addrHigh.toNat

/-- Ranges are not empty, without address 0, and one after the other. -/
structure Laid (entries : List AddressRange) : Prop where
  pos : ∀ i ∈ entries, 0 < i.addrLow.toNat
  le : ∀ i ∈ entries, i.addrLow.toNat ≤ i.addrHigh.toNat
  sorted : entries.Pairwise fun i j => i.addrHigh.toNat < j.addrLow.toNat

/-- One of the ranges has the address. -/
def Listed (entries : List AddressRange) (addr : UInt32) : Prop := ∃ i ∈ entries, i.Has addr

section Ranges

variable {i : AddressRange} {rest entries : List AddressRange} {addr : UInt32}

theorem listed_cons : Listed (i :: rest) addr ↔ i.Has addr ∨ Listed rest addr := by
  rw [Listed, List.exists_mem_cons_iff, Listed]

theorem laid_cons : Laid (i :: rest) ↔ 0 < i.addrLow.toNat ∧ i.addrLow.toNat ≤ i.addrHigh.toNat ∧
    (∀ j ∈ rest, i.addrHigh.toNat < j.addrLow.toNat) ∧ Laid rest := by
  constructor
  · rintro ⟨hpos, hle, hsorted⟩
    obtain ⟨hi, hrest⟩ := List.pairwise_cons.mp hsorted
    exact ⟨hpos i (List.mem_cons_self ..), hle i (List.mem_cons_self ..), hi,
      fun j hj => hpos j (List.mem_cons_of_mem _ hj), fun j hj => hle j (List.mem_cons_of_mem _ hj), hrest⟩
  · rintro ⟨hpos, hle, hi, hrest⟩
    exact ⟨List.forall_mem_cons.mpr ⟨hpos, hrest.pos⟩, List.forall_mem_cons.mpr ⟨hle, hrest.le⟩,
      List.pairwise_cons.mpr ⟨hi, hrest.sorted⟩⟩

/-- An address that the ranges behind one have lies behind it. -/
theorem Laid.lt_of_listed (h : Laid (i :: rest)) (haddr : Listed rest addr) : i.addrHigh.toNat < addr.toNat := by
  obtain ⟨j, hj, hlow, -⟩ := haddr
  exact Nat.lt_of_lt_of_le ((laid_cons.mp h).2.2.1 j hj) hlow

/-- An address is in one range only. -/
theorem Laid.unique (h : Laid entries) {j : AddressRange} (hi : i ∈ entries) (hj : j ∈ entries) (hhas : i.Has addr)
    (hhas' : j.Has addr) : i = j := by
  induction entries with
  | nil => cases hi
  | cons k rest ih =>
    rcases List.mem_cons.mp hi with rfl | hi'
    · rcases List.mem_cons.mp hj with rfl | hj'
      · rfl
      · have := h.lt_of_listed ⟨j, hj', hhas'⟩
        have := hhas.2
        omega
    · rcases List.mem_cons.mp hj with rfl | hj'
      · have := h.lt_of_listed ⟨i, hi', hhas⟩
        have := hhas'.2
        omega
      · exact ih (laid_cons.mp h).2.2.2 hi' hj'

/-- What the loop of `AddAllocated` leaves. -/
structure Added (addr : UInt32) (entries : List AddressRange) (r : Bool × List AddressRange) : Prop where
  laid : Laid r.2
  old : r.1 = false ↔ Listed entries addr
  listed : ∀ a, Listed r.2 a ↔ Listed entries a ∨ a = addr

theorem added_old (h : Laid entries) (haddr : Listed entries addr) : Added addr entries (false, entries) where
  laid := h
  old := iff_of_true rfl haddr
  listed := fun _ => ⟨.inl, fun ha => ha.elim id fun ha => ha ▸ haddr⟩

/-- The address is new, and one range is put in the place of another one or before it. -/
theorem added_new {i' : AddressRange} (before : List AddressRange) {rest : List AddressRange} (hlaid : Laid (i' :: rest))
    (hnew : ¬ Listed (before ++ rest) addr)
    (hhas : ∀ a, i'.Has a ↔ Listed before a ∨ a = addr) : Added addr (before ++ rest) (true, i' :: rest) where
  laid := hlaid
  old := iff_of_false (fun h => Bool.false_ne_true h.symm) hnew
  listed := fun a => by
    have happ : Listed (before ++ rest) a ↔ Listed before a ∨ Listed rest a := by
      simp only [Listed, List.mem_append, or_and_right, exists_or]
    rw [listed_cons, hhas, happ, or_assoc, or_assoc, or_comm (a := a = addr)]

theorem addEntry_added (h : Laid entries) (haddr : addr ≠ 0) :
    Added addr entries (Ipv4AddressGenerator.addEntry addr entries) := by
  have hpos : 0 < addr.toNat := Nat.pos_of_ne_zero fun h0 => haddr (UInt32.toNat_inj.mp h0)
  have hlt := addr.toNat_lt
  induction entries with
  | nil =>
    refine added_new [] (laid_cons.mpr ⟨hpos, Nat.le_refl _, nofun, h⟩) nofun fun a => ?_
    rw [← UInt32.toNat_inj]
    have hnone : ¬ Listed [] a := nofun
    rw [or_iff_right hnone, AddressRange.Has]
    exact ⟨fun hboth => Nat.le_antisymm hboth.2 hboth.1, fun heq => ⟨Nat.le_of_eq heq.symm, Nat.le_of_eq heq⟩⟩
  | cons i rest ih =>
    obtain ⟨hipos, hile, hbehind, hrest⟩ := laid_cons.mp h
    have hihigh := i.addrHigh.toNat_lt
    have hlow : (i.addrLow - 1).toNat = i.addrLow.toNat - 1 :=
      UInt32.toNat_sub_of_le _ _ (UInt32.le_iff_toNat_le.mpr hipos)
    have hone : ∀ a, Listed [i] a ↔ i.Has a := fun a => by
      rw [listed_cons]
      exact or_iff_left nofun
    rw [Ipv4AddressGenerator.addEntry]
    by_cases hin : i.addrLow ≤ addr ∧ addr ≤ i.addrHigh
    · rw [if_pos hin]
      rw [UInt32.le_iff_toNat_le, UInt32.le_iff_toNat_le] at hin
      exact added_old h (listed_cons.mpr (.inl hin))
    rw [if_neg hin]
    rw [UInt32.le_iff_toNat_le, UInt32.le_iff_toNat_le] at hin
    by_cases hbelow : addr < i.addrLow - 1
    · rw [if_pos hbelow]
      rw [UInt32.lt_iff_toNat_lt, hlow] at hbelow
      have hnew : ¬ Listed ([] ++ i :: rest) addr := by
        rw [List.nil_append, listed_cons]
        rintro (⟨hle, -⟩ | hlisted)
        · omega
        · have := h.lt_of_listed hlisted
          omega
      refine added_new [] (laid_cons.mpr ⟨hpos, Nat.le_refl _, fun j hj => ?_, h⟩) hnew fun a => ?_
      · rcases List.mem_cons.mp hj with rfl | hj
        · dsimp only
          omega
        · have := hbehind j hj
          dsimp only
          omega
      · have hnone : ¬ Listed [] a := nofun
        rw [or_iff_right hnone, AddressRange.Has, ← UInt32.toNat_inj]
        dsimp only
        omega
    rw [if_neg hbelow]
    rw [UInt32.lt_iff_toNat_lt, hlow] at hbelow
    by_cases hnext : addr = i.addrHigh + 1
    · rw [if_pos hnext]
      have hnext' : addr.toNat = i.addrHigh.toNat + 1 := by
        have hwrap := congrArg UInt32.toNat hnext
        rw [UInt32.toNat_add] at hwrap
        have hone : (1 : UInt32).toNat = 1 := rfl
        rw [hone] at hwrap
        omega
      by_cases hhead : rest.head?.map AddressRange.addrLow = some addr
      · rw [if_pos hhead]
        obtain ⟨j, hj, rfl⟩ := Option.map_eq_some_iff.mp hhead
        have hmem := List.mem_of_mem_head? hj
        exact added_old h (listed_cons.mpr (.inr ⟨j, hmem, Nat.le_refl _, hrest.le j hmem⟩))
      · rw [if_neg hhead]
        -- the ranges behind start behind the address
        have hmore : ∀ j ∈ rest, addr.toNat < j.addrLow.toNat := by
          intro j hj
          have hj' := hbehind j hj
          cases rest with
          | nil => cases hj
          | cons k rest =>
            have hk := hbehind k (List.mem_cons_self ..)
            have hne : k.addrLow.toNat ≠ addr.toNat := fun heq => hhead (by
              rw [List.head?_cons, Option.map_some, UInt32.toNat_inj.mp heq])
            rcases List.mem_cons.mp hj with rfl | hj
            · omega
            · have hkj := (laid_cons.mp hrest).2.2.1 j hj
              have hkle := hrest.le k (List.mem_cons_self ..)
              omega
        have hnew : ¬ Listed ([i] ++ rest) addr := by
          rw [List.singleton_append, listed_cons]
          rintro (⟨-, hle⟩ | ⟨j, hj, hle, -⟩)
          · omega
          · have := hmore j hj
            omega
        refine added_new [i] (laid_cons.mpr ⟨hipos, ?_, hmore, hrest⟩) hnew fun a => ?_
        · dsimp only
          omega
        · rw [hone, AddressRange.Has, AddressRange.Has, ← UInt32.toNat_inj]
          dsimp only
          omega
    rw [if_neg hnext]
    have hnext' : addr.toNat ≠ i.addrHigh.toNat + 1 := fun heq => hnext (by
      rw [← UInt32.toNat_inj, UInt32.toNat_add, heq]
      exact (Nat.mod_eq_of_lt (by rw [← heq]; exact hlt)).symm)
    by_cases hprev : addr = i.addrLow - 1
    · rw [if_pos hprev]
      have hprev' : addr.toNat = i.addrLow.toNat - 1 := by rw [hprev, hlow]
      have hnew : ¬ Listed ([i] ++ rest) addr := by
        rw [List.singleton_append, listed_cons]
        rintro (⟨hle, -⟩ | hlisted)
        · omega
        · have := h.lt_of_listed hlisted
          omega
      refine added_new [i] (laid_cons.mpr ⟨hpos, ?_, hbehind, hrest⟩) hnew fun a => ?_
      · dsimp only
        omega
      · rw [hone, AddressRange.Has, AddressRange.Has, ← UInt32.toNat_inj]
        dsimp only
        omega
    · rw [if_neg hprev]
      have hprev' : addr.toNat ≠ i.addrLow.toNat - 1 := fun heq => hprev (UInt32.toNat_inj.mp (heq.trans hlow.symm))
      have hpast : i.addrHigh.toNat + 1 < addr.toNat := by omega
      obtain ⟨hlaid, hold, hlisted⟩ := ih hrest
      refine ⟨laid_cons.mpr ⟨hipos, hile, fun j hj => ?_, hlaid⟩, ?_, fun a => ?_⟩
      · rcases (hlisted j.addrLow).mp ⟨j, hj, Nat.le_refl _, hlaid.le j hj⟩ with hlist | heq
        · exact h.lt_of_listed hlist
        · rw [heq]
          omega
      · rw [listed_cons, hold]
        exact (or_iff_right fun hhas => by have := hhas.2; omega).symm
      · rw [listed_cons, listed_cons, hlisted, or_assoc]

end Ranges

namespace Ipv4AddressGenerator

/-! ### The registry -/

/-- The ranges are those of the accepted addresses, and an address was refused exactly when it had been accepted. -/
structure Registry (entries : List AddressRange) (log : List (UInt32 × Bool)) : Prop where
  laid : Laid entries
  listed : ∀ addr, Listed entries addr ↔ addr ∈ accepted log
  refused : ∀ before addr added after, log = before ++ (addr, added) :: after →
    (added = false ↔ addr ∈ accepted before)

section Registry

variable {g g' : Ipv4AddressGenerator} {log : List (UInt32 × Bool)} {addr : UInt32} {added : Bool}

theorem mem_accepted_concat (log : List (UInt32 × Bool)) (addr a : UInt32) (added : Bool) :
    a ∈ accepted (log ++ [(addr, added)]) ↔ a ∈ accepted log ∨ added = true ∧ a = addr := by
  rw [accepted, List.filter_append, List.map_append, List.mem_append]
  refine or_congr Iff.rfl ?_
  cases added with
  | true => rw [List.filter_cons_of_pos rfl, List.filter_nil, List.map_singleton, List.mem_singleton, eq_self, true_and]
  | false =>
    rw [List.filter_cons_of_neg Bool.false_ne_true]
    exact iff_of_false nofun fun h => Bool.false_ne_true h.1

/-- `AddAllocated` keeps the registry. -/
theorem Registry.addAllocated (h : Registry g.m_entries log) (hadd : g.addAllocated addr = some (added, g')) :
    Registry g'.m_entries (log ++ [(addr, added)]) ∧ g'.m_test = g.m_test := by
  rw [Ipv4AddressGenerator.addAllocated] at hadd
  by_cases hzero : addr = 0
  · rw [if_pos hzero] at hadd
    cases hadd
  rw [if_neg hzero] at hadd
  obtain ⟨hlaid, hold, hlisted⟩ := addEntry_added h.laid hzero
  generalize addEntry addr g.m_entries = r at hadd hlaid hold hlisted
  dsimp only at hadd
  split at hadd
  · obtain ⟨rfl, rfl⟩ := Prod.mk.inj (Option.some.inj hadd)
    refine ⟨⟨hlaid, fun a => ?_, fun before a added after hlog => ?_⟩, rfl⟩
    · rw [hlisted, h.listed, mem_accepted_concat]
      refine or_congr_right' fun hnot => ?_
      refine ⟨fun heq => ⟨?_, heq⟩, And.right⟩
      rw [heq] at hnot
      exact (Bool.not_eq_false _).mp fun hfalse => hnot ((h.listed _).mp (hold.mp hfalse))
    · rcases List.eq_nil_or_concat after with rfl | ⟨after, last, rfl⟩
      · obtain ⟨rfl, hlast⟩ := List.append_inj' hlog rfl
        obtain ⟨rfl, rfl⟩ := Prod.mk.inj (List.singleton_inj.mp hlast)
        rw [hold, h.listed]
      · have hlog' : log ++ [(addr, r.1)] = (before ++ (a, added) :: after) ++ [last] := by
          rw [hlog, List.append_assoc, List.cons_append, List.concat_eq_append]
        obtain ⟨rfl, -⟩ := List.append_inj' hlog' rfl
        exact h.refused before a added after rfl
  · cases hadd

theorem Registry.run (h : Registry g.m_entries log) {call : Call} {tried : List (UInt32 × Bool)}
    (hrun : call.run g = some (tried, g')) : Registry g'.m_entries (log ++ tried) ∧ g'.m_test = g.m_test := by
  cases call with
  | addAllocated addr =>
    obtain ⟨⟨added, g₁⟩, hadd, heq⟩ := Option.map_eq_some_iff.mp hrun
    obtain ⟨rfl, rfl⟩ := Prod.mk.inj heq
    exact h.addAllocated hadd
  | nextAddress mask =>
    obtain ⟨⟨⟨addr, added⟩, g₁⟩, hnext, heq⟩ := Option.map_eq_some_iff.mp hrun
    obtain ⟨rfl, rfl⟩ := Prod.mk.inj heq
    rw [Ipv4AddressGenerator.nextAddress] at hnext
    obtain ⟨⟨index, state⟩, -, hnext⟩ := Option.bind_eq_some_iff.mp hnext
    dsimp only at hnext
    split at hnext
    · obtain ⟨⟨added', g₂⟩, hadd, heq⟩ := Option.map_eq_some_iff.mp hnext
      obtain ⟨htried, rfl⟩ := Prod.mk.inj heq
      obtain ⟨rfl, rfl⟩ := Prod.mk.inj htried
      have hkept : Registry ({ g with
        m_netTable := g.m_netTable.set index { state with addr := state.addr + 1 } } : Ipv4AddressGenerator).m_entries
          log := h
      exact hkept.addAllocated hadd
    · cases hnext
  | init net mask addr =>
    obtain ⟨g₁, hinit, heq⟩ := Option.map_eq_some_iff.mp hrun
    obtain ⟨rfl, rfl⟩ := Prod.mk.inj heq
    rw [Ipv4AddressGenerator.init] at hinit
    split at hinit
    · obtain ⟨⟨index, state⟩, -, hinit⟩ := Option.bind_eq_some_iff.mp hinit
      dsimp only at hinit
      split at hinit
      · obtain rfl := Option.some.inj hinit
        rw [List.append_nil]
        exact ⟨h, rfl⟩
      · cases hinit
    · cases hinit
  | nextNetwork mask =>
    obtain ⟨⟨net, g₁⟩, hnext, heq⟩ := Option.map_eq_some_iff.mp hrun
    obtain ⟨rfl, rfl⟩ := Prod.mk.inj heq
    obtain ⟨⟨index, state⟩, -, heq⟩ := Option.map_eq_some_iff.mp hnext
    obtain ⟨-, rfl⟩ := Prod.mk.inj heq
    rw [List.append_nil]
    exact ⟨h, rfl⟩
  | initAddress addr mask =>
    obtain ⟨g₁, hinit, heq⟩ := Option.map_eq_some_iff.mp hrun
    obtain ⟨rfl, rfl⟩ := Prod.mk.inj heq
    obtain ⟨⟨index, state⟩, -, hinit⟩ := Option.bind_eq_some_iff.mp hinit
    dsimp only at hinit
    split at hinit
    · obtain rfl := Option.some.inj hinit
      rw [List.append_nil]
      exact ⟨h, rfl⟩
    · cases hinit

theorem Registry.runs (calls : List Call) (h : Registry g.m_entries log) {log' : List (UInt32 × Bool)}
    (hruns : Ipv4AddressGenerator.runs calls (log, g) = some (log', g')) :
    Registry g'.m_entries log' ∧ g'.m_test = g.m_test := by
  induction calls generalizing log g with
  | nil =>
    obtain ⟨rfl, rfl⟩ := Prod.mk.inj (Option.some.inj hruns)
    exact ⟨h, rfl⟩
  | cons call calls ih =>
    obtain ⟨⟨tried, g₁⟩, hcall, hrest⟩ := Option.bind_eq_some_iff.mp hruns
    obtain ⟨h₁, htest⟩ := h.run hcall
    obtain ⟨h', htest'⟩ := ih h₁ hrest
    exact ⟨h', htest'.trans htest⟩

theorem Registry.addAllocated_eq (h : Registry g.m_entries log) (htest : g.m_test = true) (haddr : addr ≠ 0) :
    ∃ added g', g.addAllocated addr = some (added, g') ∧ (added = false ↔ addr ∈ accepted log) := by
  obtain ⟨-, hold, -⟩ := addEntry_added h.laid haddr
  refine ⟨(addEntry addr g.m_entries).1, { g with m_entries := (addEntry addr g.m_entries).2 }, ?_,
    hold.trans (h.listed addr)⟩
  rw [Ipv4AddressGenerator.addAllocated, if_neg haddr]
  exact if_pos (.inr htest)

theorem Registry.isAddressAllocated (h : Registry g.m_entries log) (haddr : addr ≠ 0) :
    ∃ free, g.isAddressAllocated addr = some free ∧ (free = false ↔ addr ∈ accepted log) := by
  refine ⟨_, by rw [Ipv4AddressGenerator.isAddressAllocated, if_neg haddr], ?_⟩
  rw [← h.listed, Bool.not_eq_false', List.any_eq_true]
  simp only [Bool.and_eq_true, decide_eq_true_eq, UInt32.le_iff_toNat_le]
  rfl

end Registry

/-! ### Networks -/

/-- The mask of a prefix of so many bits. -/
def prefixMask (length : Nat) : UInt32 := UInt32.ofNat (2 ^ 32 - 2 ^ (32 - length))

theorem toNat_and_prefixMask {length : Nat} (hlength : length ≤ 32) (addr : UInt32) :
    (addr &&& prefixMask length).toNat = addr.toNat / 2 ^ (32 - length) * 2 ^ (32 - length) := by
  have hsplit : 2 ^ 32 = 2 ^ length * 2 ^ (32 - length) := by rw [← Nat.pow_add, Nat.add_sub_of_le hlength]
  have hmask : 2 ^ 32 - 2 ^ (32 - length) = (2 ^ length - 1) * 2 ^ (32 - length) := by
    rw [Nat.sub_mul, Nat.one_mul, ← hsplit]
  have hpos := Nat.two_pow_pos (32 - length)
  have hlt : addr.toNat / 2 ^ (32 - length) < 2 ^ length := by
    rw [Nat.div_lt_iff_lt_mul hpos, ← hsplit]
    exact addr.toNat_lt
  rw [UInt32.toNat_and, prefixMask, UInt32.toNat_ofNat_of_lt' (by show _ < 4294967296; omega), hmask, and_mask,
    Nat.mod_eq_of_lt hlt]

/-- The network has the address. -/
def InNetwork (net : UInt32) (length : Nat) (addr : UInt32) : Prop := addr &&& prefixMask length = net

/-- The range has addresses below the network and above it, and so all of its own. -/
def Spans (net : UInt32) (length : Nat) (i : AddressRange) : Prop :=
  i.addrLow.toNat < net.toNat ∧ net.toNat + 2 ^ (32 - length) ≤ i.addrHigh.toNat

instance (net : UInt32) (length : Nat) (i : AddressRange) : Decidable (Spans net length i) :=
  inferInstanceAs (Decidable (_ ∧ _))

theorem inNetwork_iff {net : UInt32} {length : Nat} (hlength : length ≤ 32) (hnet : InNetwork net length net)
    (addr : UInt32) :
    InNetwork net length addr ↔ net.toNat ≤ addr.toNat ∧ addr.toNat < net.toNat + 2 ^ (32 - length) := by
  have hpos := Nat.two_pow_pos (32 - length)
  rw [InNetwork, ← UInt32.toNat_inj, toNat_and_prefixMask hlength] at hnet ⊢
  generalize 2 ^ (32 - length) = size at hpos hnet
  have hdiv := Nat.div_add_mod addr.toNat size
  have hmod := Nat.mod_lt addr.toNat hpos
  rw [Nat.mul_comm] at hdiv
  constructor
  · intro heq
    omega
  · rintro ⟨hle, hlt⟩
    have hsame : addr.toNat / size = net.toNat / size := by
      rw [← hnet] at hle hlt
      rw [← Nat.succ_mul] at hlt
      exact Nat.le_antisymm (Nat.lt_succ_iff.mp (Nat.div_lt_of_lt_mul (by rw [Nat.mul_comm]; exact hlt)))
        ((Nat.le_div_iff_mul_le hpos).mpr hle)
    rw [hsame, hnet]

section Registry

variable {g g' : Ipv4AddressGenerator} {log : List (UInt32 × Bool)}

/-- `IsNetworkAllocated` looks at the ends of ranges: it is right exactly when no range spans the network. -/
theorem Registry.isNetworkAllocated (h : Registry g.m_entries log) {net : UInt32} {length : Nat} (hlength : length ≤ 32)
    (hnet : InNetwork net length net) :
    ∃ free, g.isNetworkAllocated net (prefixMask length) = some free ∧
      ((free = false ↔ ∃ addr ∈ accepted log, InNetwork net length addr) ↔
        ¬ ∃ i ∈ g.m_entries, Spans net length i) := by
  have hin := inNetwork_iff hlength hnet
  refine ⟨_, by rw [Ipv4AddressGenerator.isNetworkAllocated, if_pos (Eq.symm hnet)], ?_⟩
  have hfound : (!(g.m_entries.any fun i =>
      net = i.addrLow &&& prefixMask length || net = i.addrHigh &&& prefixMask length)) = false ↔
      ∃ i ∈ g.m_entries, InNetwork net length i.addrLow ∨ InNetwork net length i.addrHigh := by
    rw [Bool.not_eq_false', List.any_eq_true]
    simp only [Bool.or_eq_true, decide_eq_true_eq, InNetwork]
    exact exists_congr fun i => and_congr_right fun _ => or_congr eq_comm eq_comm
  rw [hfound]
  have hmem : ∀ i ∈ g.m_entries, ∀ addr, i.Has addr → addr ∈ accepted log := fun i hi addr hhas =>
    (h.listed addr).mp ⟨i, hi, hhas⟩
  constructor
  · rintro hiff ⟨i, hi, hlow, hhigh⟩
    have hpos := Nat.two_pow_pos (32 - length)
    obtain ⟨j, hj, hends⟩ := hiff.mpr ⟨net, hmem i hi net ⟨by omega, by omega⟩, hnet⟩
    have hjle := h.laid.le j hj
    rcases hends with hend | hend
    · obtain ⟨hle, hlt⟩ := (hin _).mp hend
      obtain rfl := h.laid.unique hi hj (show i.Has j.addrLow from ⟨by omega, by omega⟩) ⟨Nat.le_refl _, hjle⟩
      omega
    · obtain ⟨hle, hlt⟩ := (hin _).mp hend
      obtain rfl := h.laid.unique hi hj (show i.Has j.addrHigh from ⟨by omega, by omega⟩) ⟨hjle, Nat.le_refl _⟩
      omega
  · intro hspans
    constructor
    · rintro ⟨i, hi, hend | hend⟩
      · exact ⟨_, hmem i hi _ ⟨Nat.le_refl _, h.laid.le i hi⟩, hend⟩
      · exact ⟨_, hmem i hi _ ⟨h.laid.le i hi, Nat.le_refl _⟩, hend⟩
    · rintro ⟨addr, haddr, hnetwork⟩
      obtain ⟨i, hi, hlow, hhigh⟩ := (h.listed addr).mpr haddr
      refine ⟨i, hi, ?_⟩
      rw [hin, hin]
      obtain ⟨hle, hlt⟩ := (hin addr).mp hnetwork
      by_contra hends
      exact hspans ⟨i, hi, by omega, by omega⟩

end Registry

/-- Over every run of a generator in test mode, its ranges are the accepted addresses, what is refused was accepted
before, and a network is said to be free wrongly exactly when a range spans it. -/
theorem address_registry (calls : List Call) (log : List (UInt32 × Bool)) (g : Ipv4AddressGenerator)
    (hruns : runs calls ([], reset.testMode) = some (log, g)) :
    Registry g.m_entries log ∧
      (∀ addr, addr ≠ 0 → ∃ added g', g.addAllocated addr = some (added, g') ∧ (added = false ↔ addr ∈ accepted log)) ∧
      ∀ net length, length ≤ 32 → InNetwork net length net →
        ∃ free, g.isNetworkAllocated net (prefixMask length) = some free ∧
          ((free = false ↔ ∃ addr ∈ accepted log, InNetwork net length addr) ↔
            ¬ ∃ i ∈ g.m_entries, Spans net length i) := by
  have hstart : Registry reset.testMode.m_entries [] :=
    ⟨⟨nofun, nofun, .nil⟩, fun _ => iff_of_false nofun nofun, fun before addr added after hlog => by
      cases before <;> cases hlog⟩
  obtain ⟨hregistry, htest⟩ := hstart.runs calls hruns
  exact ⟨hregistry, fun addr haddr => hregistry.addAllocated_eq htest haddr,
    fun net length hlength hnet => hregistry.isNetworkAllocated hlength hnet⟩

/-- Addresses of the network 0.0.1.0/24, the first twice. -/
theorem address_registry_three : ∃ log g,
    runs [.nextAddress 0xffffff00, .addAllocated 0x101, .nextAddress 0xffffff00] ([], reset.testMode) = some (log, g) ∧
      Registry g.m_entries log ∧
      (∃ added g', g.addAllocated 0x102 = some (added, g') ∧ (added = false ↔ 0x102 ∈ accepted log)) ∧
      ∃ free, g.isNetworkAllocated 0x100 (prefixMask 24) = some free ∧
        ((free = false ↔ ∃ addr ∈ accepted log, InNetwork 0x100 24 addr) ↔
          ¬ ∃ i ∈ g.m_entries, Spans 0x100 24 i) := by
  refine ⟨_, _, rfl, ?_⟩
  obtain ⟨hregistry, hadd, hnetwork⟩ :=
    address_registry [.nextAddress 0xffffff00, .addAllocated 0x101, .nextAddress 0xffffff00] _ _ rfl
  exact ⟨hregistry, hadd 0x102 (by decide), hnetwork 0x100 24 (by decide) rfl⟩

/-- The addresses 3 to 8 are allocated one after the other: the network of 4 to 7 is said to be free. -/
theorem not_address_registry_spanned : ∃ log g,
    runs [.addAllocated 3, .addAllocated 4, .addAllocated 5, .addAllocated 6, .addAllocated 7, .addAllocated 8]
        ([], reset.testMode) = some (log, g) ∧
      g.isNetworkAllocated 4 (prefixMask 30) = some true ∧ InNetwork 4 30 4 ∧
      ∃ addr ∈ accepted log, InNetwork 4 30 addr :=
  ⟨_, _, rfl, rfl, rfl, 4, by decide, rfl⟩

end Ipv4AddressGenerator

end Ns3.Internet
