import Libmoon.Packet.Headers

/-! # The headers of a packet

The chain of headers that a packet consists of, from its bytes alone: no packet
types, names or registries. Each header says how long it is and what follows it.
A chain is computed inside a buffer of a given size and exists when the buffer is
long enough for all of its headers.
-/

namespace Libmoon.Packet

open Foundation

/-- A header in a packet. -/
structure HeaderAt where
  proto : Proto
  offset : Nat
  /-- the Ethernet header that the packet starts with -/
  first : Bool
deriving DecidableEq, Repr

namespace HeaderAt

/-- Only a leading Ethernet header can be tagged. -/
def subType (mem : Memory) (header : HeaderAt) : Option SubType :=
  if header.proto = .ethernet ∧ header.first = true ∧
      etherType mem header.offset (some .default) = type8021Q then some .vlan
  else header.proto.defaultType

/-- The length of the options of an IPv4 or TCP header. -/
def options (mem : Memory) (header : HeaderAt) : Nat :=
  match header.proto with
  | .ip4 => ((mem header.offset &&& 0x0f).toNat - 5) * 4
  | .tcp => (((mem (header.offset + 12) >>> 4) &&& 0x0f).toNat - 5) * 4
  | _ => 0

/-- The size of a header in the packet. -/
def size (mem : Memory) (header : HeaderAt) : Nat :=
  headerSize header.proto (header.subType mem) + header.options mem

/-- The protocol of the header behind it. -/
def next (mem : Memory) (header : HeaderAt) : Option Proto :=
  match header.proto with
  | .ethernet => etherNext (etherType mem header.offset (header.subType mem))
  | .ip4 => ipNext 0x01 (mem (header.offset + 9))
  | .ip6 => ipNext 0x3a (mem (header.offset + 6))
  | .udp => udpNext (hton16 (mem.word16 (header.offset + 2)))
  | .vxlan => some .ethernet
  | _ => none

/-- The headers that the dissector cannot get past: GRE, whose lookup of the next
header calls a method that does not exist, and a VLAN tag in an Ethernet header
behind the first, for which no struct is declared. -/
def Unresolvable (mem : Memory) (header : HeaderAt) : Prop :=
  header.proto = .gre ∨ header.proto = .ethernet ∧ header.first = false ∧
    etherType mem header.offset (some .default) = type8021Q

instance (mem : Memory) (header : HeaderAt) : Decidable (header.Unresolvable mem) :=
  inferInstanceAs (Decidable (_ ∨ _))

end HeaderAt

/-- The chain that starts with a header, if all of it lies below `size`. -/
def headerChain (mem : Memory) (size : Nat) : Nat → HeaderAt → Option (List HeaderAt)
  | 0, _ => none
  | fuel + 1, header =>
      if header.offset + header.size mem ≤ size then
        match header.next mem with
        | none => some [header]
        | some proto =>
            (headerChain mem size fuel ⟨proto, header.offset + header.size mem, false⟩).map
              (header :: ·)
      else none

/-- The header that every packet is taken to start with. -/
def firstHeader : HeaderAt := ⟨.ethernet, 0, true⟩

/-- The headers of a packet in a buffer that is long enough for them. Every header
has at least one byte, so the size bounds their number. -/
def headersOf (mem : Memory) (size : Nat) : Option (List HeaderAt) :=
  headerChain mem size size firstHeader

theorem headerChain_cons {mem : Memory} {size fuel : Nat} {header : HeaderAt}
    {chain : List HeaderAt} (hchain : headerChain mem size (fuel + 1) header = some chain) :
    (header.next mem = none ∧ chain = [header]) ∨
      ∃ proto rest, header.next mem = some proto ∧ chain = header :: rest ∧
        headerChain mem size fuel ⟨proto, header.offset + header.size mem, false⟩ = some rest := by
  unfold headerChain at hchain
  split at hchain
  next =>
    split at hchain
    next hnext => exact .inl ⟨hnext, (Option.some.inj hchain).symm⟩
    next proto hnext =>
      obtain ⟨rest, hrest, hcons⟩ := Option.map_eq_some_iff.mp hchain
      exact .inr ⟨proto, rest, hnext, hcons.symm, hrest⟩
  next => cases hchain

theorem headerChain_of_next_none {mem : Memory} {size fuel : Nat} {header : HeaderAt}
    {chain : List HeaderAt} (hchain : headerChain mem size (fuel + 1) header = some chain)
    (hnone : header.next mem = none) : chain = [header] := by
  rcases headerChain_cons hchain with ⟨_, hlast⟩ | ⟨proto, _, hnext, _, _⟩
  · exact hlast
  · cases hnone.symm.trans hnext

/-- Nothing follows a header that cannot be resolved. -/
theorem HeaderAt.Unresolvable.next_eq {mem : Memory} {header : HeaderAt}
    (hbad : header.Unresolvable mem) : header.next mem = none := by
  rcases hbad with hgre | ⟨hether, hfirst, htag⟩
  · simp [HeaderAt.next, hgre]
  · have hsub : header.subType mem = some .default := by
      simp [HeaderAt.subType, hether, hfirst, Proto.defaultType]
    simp only [HeaderAt.next, hether, hsub, htag]
    decide

/-! ## What a type says about a header -/

/-- A header up to its member name. -/
structure Shape where
  proto : Proto
  subType : Option SubType
  length : Option Nat
deriving DecidableEq, Repr

/-- The header as the name of a struct has it. -/
def Segment.shape (segment : Segment) : Shape := ⟨segment.proto, segment.subType, segment.length⟩

/-- The header as the bytes have it. -/
def HeaderAt.shape (mem : Memory) (header : HeaderAt) : Shape :=
  ⟨header.proto, header.subType mem,
    if header.options mem = 0 then none else some (header.options mem)⟩

section Sizes

variable {mem : Memory} {header : HeaderAt} {segment : Segment}

theorem headerSize_pos (proto : Proto) (subType : Option SubType) : 0 < headerSize proto subType := by
  unfold headerSize
  split
  all_goals first | (split <;> decide) | decide

theorem le_headerSize_ethernet (subType : Option SubType) : 14 ≤ headerSize .ethernet subType := by
  cases subType with
  | none => decide
  | some subType => cases subType <;> decide

theorem HeaderAt.size_pos : 0 < header.size mem :=
  Nat.add_pos_left (headerSize_pos _ _) _

theorem HeaderAt.hasVariableMember_of_options (hpos : header.options mem ≠ 0) :
    header.proto.hasVariableMember = true := by
  unfold HeaderAt.options at hpos
  split at hpos
  next hip4 => rw [hip4]; rfl
  next htcp => rw [htcp]; rfl
  next => exact absurd rfl hpos

/-- Headers of one shape have one size. -/
theorem Segment.size_eq (hshape : segment.shape = header.shape mem) :
    segment.size = header.size mem := by
  obtain ⟨hproto, hsubType, hlength⟩ := Shape.mk.inj hshape
  unfold Segment.size HeaderAt.size
  rw [hproto, hsubType, hlength]
  split
  next hvariable =>
    split
    next hzero => rw [hzero]; rfl
    next => rfl
  next hvariable =>
    by_contra hne
    have hoptions : header.options mem ≠ 0 := fun hzero => hne (by rw [hzero])
    exact hvariable (HeaderAt.hasVariableMember_of_options hoptions)

end Sizes

/-! ## The extent of a chain -/

section Extent

variable {mem mem' : Memory} {size size' fuel fuel' : Nat} {header : HeaderAt}
  {chain : List HeaderAt}

/-- The bytes that the headers take up. -/
def extent (mem : Memory) (chain : List HeaderAt) : Nat := (chain.map (HeaderAt.size mem)).sum

theorem extent_cons (header : HeaderAt) (chain : List HeaderAt) :
    extent mem (header :: chain) = header.size mem + extent mem chain := by
  simp [extent]

theorem headerChain_first_fits (hchain : headerChain mem size fuel header = some chain) :
    header.offset + header.size mem ≤ size := by
  cases fuel with
  | zero => cases hchain
  | succ fuel =>
      by_contra hover
      simp [headerChain, hover] at hchain

theorem headerChain_fits (hchain : headerChain mem size fuel header = some chain) :
    header.offset + extent mem chain ≤ size := by
  induction fuel generalizing header chain with
  | zero => cases hchain
  | succ fuel ih =>
      have hfits := headerChain_first_fits hchain
      rcases headerChain_cons hchain with ⟨_, rfl⟩ | ⟨proto, rest, _, rfl, hrest⟩
      · simpa [extent] using hfits
      · rw [extent_cons, ← Nat.add_assoc]
        exact ih hrest

/-- The chain is there in every buffer that it fits into. -/
theorem headerChain_of_fits (hchain : headerChain mem size fuel header = some chain)
    (hfits : header.offset + extent mem chain ≤ size') :
    headerChain mem size' fuel header = some chain := by
  induction fuel generalizing header chain with
  | zero => cases hchain
  | succ fuel ih =>
      rcases headerChain_cons hchain with ⟨hnone, rfl⟩ | ⟨proto, rest, hsome, rfl, hrest⟩
      · have hfirst : header.offset + header.size mem ≤ size' := by simpa [extent] using hfits
        simp [headerChain, hfirst, hnone]
      · rw [extent_cons, ← Nat.add_assoc] at hfits
        have hfirst : header.offset + header.size mem ≤ size' :=
          Nat.le_trans (Nat.le_add_right _ _) hfits
        simp [headerChain, hfirst, hsome, ih hrest hfits]

/-- As much fuel as there are bytes is enough. -/
theorem headerChain_of_fuel (hchain : headerChain mem size fuel header = some chain)
    (hfuel : size ≤ header.offset + fuel') : headerChain mem size fuel' header = some chain := by
  induction fuel generalizing header chain fuel' with
  | zero => cases hchain
  | succ fuel ih =>
      have hfits := headerChain_fits hchain
      have hpos : 0 < header.size mem := HeaderAt.size_pos
      rcases headerChain_cons hchain with ⟨hnone, rfl⟩ | ⟨proto, rest, hsome, rfl, hrest⟩
      all_goals
        rw [extent_cons] at hfits
        obtain ⟨less, rfl⟩ : ∃ less, fuel' = less + 1 := ⟨fuel' - 1, by omega⟩
        have hfirst : header.offset + header.size mem ≤ size := by omega
      · simp [headerChain, hfirst, hnone]
      · have hless : size ≤ header.offset + header.size mem + less := by omega
        simp [headerChain, hfirst, hsome, ih hrest hless]

/-- A header starts at most one chain. -/
theorem headerChain_unique {chain' : List HeaderAt}
    (hchain : headerChain mem size fuel header = some chain)
    (hchain' : headerChain mem size' fuel' header = some chain') : chain = chain' := by
  induction fuel generalizing header chain chain' fuel' with
  | zero => cases hchain
  | succ fuel ih =>
      cases fuel' with
      | zero => cases hchain'
      | succ fuel' =>
          rcases headerChain_cons hchain with ⟨hnone, rfl⟩ | ⟨proto, rest, hsome, rfl, hrest⟩
          · exact (headerChain_of_next_none hchain' hnone).symm
          · rcases headerChain_cons hchain' with ⟨hnone, _⟩ | ⟨proto', rest', hsome', rfl, hrest'⟩
            · cases hsome.symm.trans hnone
            · obtain rfl := Option.some.inj (hsome.symm.trans hsome')
              rw [ih hrest hrest']

/-- A packet that has a chain at all has it in a buffer exactly if the chain fits. -/
theorem headersOf_isSome_iff (hchain : headerChain mem size fuel firstHeader = some chain) :
    (headersOf mem size').isSome ↔ extent mem chain ≤ size' := by
  have hstart : firstHeader.offset + extent mem chain = extent mem chain := Nat.zero_add _
  constructor
  · intro hsome
    obtain ⟨chain', hchain'⟩ := Option.isSome_iff_exists.mp hsome
    rw [headerChain_unique hchain hchain', ← Nat.zero_add (extent mem chain')]
    exact headerChain_fits hchain'
  · intro hfits
    rw [← hstart] at hfits
    have hmore : size' ≤ firstHeader.offset + size' := Nat.le_add_left _ _
    rw [headersOf, headerChain_of_fuel (headerChain_of_fits hchain hfits) hmore]
    rfl

end Extent

/-! ## The bytes that a chain depends on -/

section Agreement

variable {mem mem' : Memory} {size fuel : Nat} {header : HeaderAt} {chain : List HeaderAt}
  (hagree : ∀ i < size, mem' i = mem i)

include hagree

theorem etherType_congr {offset : Nat} {subType : Option SubType}
    (hfits : offset + headerSize .ethernet subType ≤ size) :
    etherType mem' offset subType = etherType mem offset subType := by
  have hmin := le_headerSize_ethernet subType
  have hlow : mem' (offset + headerSize .ethernet subType - 2) =
      mem (offset + headerSize .ethernet subType - 2) := hagree _ (by omega)
  have hhigh : mem' (offset + headerSize .ethernet subType - 2 + 1) =
      mem (offset + headerSize .ethernet subType - 2 + 1) := hagree _ (by omega)
  simp only [etherType, Memory.word16, hlow, hhigh]

/-- The place of the tag is inside every Ethernet header. -/
theorem HeaderAt.etherType_congr (hfits : header.offset + header.size mem ≤ size)
    (hether : header.proto = .ethernet) :
    etherType mem' header.offset (some .default) = etherType mem header.offset (some .default) := by
  have hmin : 14 ≤ header.size mem := by
    unfold HeaderAt.size
    rw [hether]
    exact Nat.le_add_right_of_le (le_headerSize_ethernet _)
  apply Packet.etherType_congr hagree
  exact Nat.le_trans (Nat.add_le_add_left hmin _) hfits

theorem HeaderAt.subType_congr (hfits : header.offset + header.size mem ≤ size) :
    header.subType mem' = header.subType mem := by
  unfold HeaderAt.subType
  by_cases hether : header.proto = .ethernet
  · rw [HeaderAt.etherType_congr hagree hfits hether]
  · simp [hether]

theorem HeaderAt.unresolvable_congr (hfits : header.offset + header.size mem ≤ size) :
    header.Unresolvable mem' ↔ header.Unresolvable mem := by
  unfold HeaderAt.Unresolvable
  by_cases hether : header.proto = .ethernet
  · rw [HeaderAt.etherType_congr hagree hfits hether]
  · simp [hether]

theorem HeaderAt.options_congr (hfits : header.offset + header.size mem ≤ size) :
    header.options mem' = header.options mem := by
  unfold HeaderAt.options
  have hsize : header.size mem = headerSize header.proto (header.subType mem) +
      header.options mem := rfl
  split
  next hip4 =>
    rw [hagree]
    rw [hip4] at hsize
    simp only [headerSize] at hsize
    omega
  next htcp =>
    rw [hagree]
    rw [htcp] at hsize
    simp only [headerSize] at hsize
    omega
  next => rfl

theorem HeaderAt.next_congr (hfits : header.offset + header.size mem ≤ size) :
    header.next mem' = header.next mem := by
  have hsize : header.size mem = headerSize header.proto (header.subType mem) +
      header.options mem := rfl
  unfold HeaderAt.next
  cases hproto : header.proto with
  | ethernet =>
      rw [hproto] at hsize
      have htype := Packet.etherType_congr hagree
        (by omega : header.offset + headerSize .ethernet (header.subType mem) ≤ size)
      simp only [HeaderAt.subType_congr hagree hfits, htype]
  | ip4 | ip6 =>
      rw [hproto] at hsize
      simp only [headerSize] at hsize
      simp only [hagree _ (by omega : header.offset + 9 < size),
        hagree _ (by omega : header.offset + 6 < size)]
  | udp =>
      rw [hproto] at hsize
      simp only [headerSize] at hsize
      simp only [Memory.word16, hagree _ (by omega : header.offset + 2 < size),
        hagree _ (by omega : header.offset + 2 + 1 < size)]
  | _ => rfl

theorem HeaderAt.shape_congr (hfits : header.offset + header.size mem ≤ size) :
    header.shape mem' = header.shape mem := by
  simp only [HeaderAt.shape, HeaderAt.subType_congr hagree hfits,
    HeaderAt.options_congr hagree hfits]

theorem HeaderAt.size_congr (hfits : header.offset + header.size mem ≤ size) :
    header.size mem' = header.size mem := by
  simp only [HeaderAt.size, HeaderAt.subType_congr hagree hfits,
    HeaderAt.options_congr hagree hfits]

/-- A chain that fits is decided by the bytes that it fits into. -/
theorem headerChain_congr (hchain : headerChain mem size fuel header = some chain) :
    headerChain mem' size fuel header = some chain ∧ ∀ other ∈ chain,
      other.shape mem' = other.shape mem ∧ (other.Unresolvable mem' ↔ other.Unresolvable mem) := by
  induction fuel generalizing header chain with
  | zero => cases hchain
  | succ fuel ih =>
      have hfits := headerChain_first_fits hchain
      have hsize := HeaderAt.size_congr hagree hfits
      have hnext := HeaderAt.next_congr hagree hfits
      have hheader : header.shape mem' = header.shape mem ∧
          (header.Unresolvable mem' ↔ header.Unresolvable mem) :=
        ⟨HeaderAt.shape_congr hagree hfits, HeaderAt.unresolvable_congr hagree hfits⟩
      rcases headerChain_cons hchain with ⟨hnone, rfl⟩ | ⟨proto, rest, hsome, rfl, hrest⟩
      · rw [hnone] at hnext
        refine ⟨by simp [headerChain, hsize, hfits, hnext], ?_⟩
        rw [List.forall_mem_singleton]
        exact hheader
      · obtain ⟨hrest', hothers⟩ := ih hrest
        rw [hsome] at hnext
        refine ⟨by simp [headerChain, hsize, hfits, hnext, hrest'], ?_⟩
        rw [List.forall_mem_cons]
        exact ⟨hheader, hothers⟩

end Agreement

end Libmoon.Packet
