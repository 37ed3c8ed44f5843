import Libmoon.Packet.Totality

/-! # Dissection and the packets before it

All packets share the registry of types. A packet that is dissected after others finds
the types that they have created, and argument lists that they have written to. As long
as the registry is clean that makes no difference: the headers that dissection comes to
are those of the bytes.
-/

namespace Libmoon.Packet

open Foundation

/-- The headers of a struct with their offsets. -/
def layout : StructName → Nat → List (Nat × Shape)
  | [], _ => []
  | segment :: rest, offset => (offset, segment.shape) :: layout rest (offset + segment.size)

/-- The headers that dissection has come to, or none if it has failed. -/
def DissectResult.headers (result : DissectResult) : Option (List (Nat × Shape)) :=
  match result.outcome with
  | .ok name => some (layout name 0)
  | .error _ => none

/-- `pkt:get()` comes to these headers, or fails. -/
def GetsHeaders (order : PairsOrder) (mem : Memory) (lib : Library)
    (headers : Option (List (Nat × Shape))) : Prop :=
  ∃ result, Gets order mem lib result ∧ result.headers = headers

/-- The same from the bytes alone. -/
def chainHeaders (mem : Memory) (chain : List HeaderAt) : Option (List (Nat × Shape)) :=
  if ∀ header ∈ chain, ¬ header.Unresolvable mem then
    some (chain.map fun header => (header.offset, header.shape mem))
  else none

section Headers

variable {order : PairsOrder} {mem : Memory} {size fuel : Nat} {lib : Library} {name : StructName}
  {header : HeaderAt} {chain : List HeaderAt}

theorem layout_eq (hchain : headerChain mem size fuel header = some chain)
    (hshapes : name.map Segment.shape = chain.map (HeaderAt.shape mem)) :
    layout name header.offset = chain.map fun header => (header.offset, header.shape mem) := by
  induction fuel generalizing name header chain with
  | zero => cases hchain
  | succ fuel ih =>
      rcases headerChain_cons hchain with ⟨_, rfl⟩ | ⟨proto, rest, _, rfl, hrest⟩
      all_goals obtain ⟨segment, tail, rfl, hshape, htail⟩ := List.map_eq_cons_iff.mp hshapes
      · obtain rfl := List.map_eq_nil_iff.mp htail
        simp [layout, hshape]
      · have hlayout := ih hrest htail
        dsimp only at hlayout
        simp only [layout, List.map_cons, hshape, Segment.size_eq hshape, hlayout]

theorem startsWithEthernet_of_shapes
    (hchain : headerChain mem size fuel firstHeader = some chain)
    (hshapes : name.map Segment.shape = chain.map (HeaderAt.shape mem)) :
    StartsWithEthernet name := by
  cases fuel with
  | zero => cases hchain
  | succ fuel =>
      rcases headerChain_cons hchain with ⟨_, rfl⟩ | ⟨proto, rest, _, rfl, _⟩
      all_goals
        obtain ⟨segment, tail, rfl, hshape, _⟩ := List.map_eq_cons_iff.mp hshapes
        have hproto : segment.proto = firstHeader.proto := (Shape.mk.inj hshape).1
        simp [StartsWithEthernet, hproto, firstHeader]

theorem Resolved.headers_eq {result : DissectResult} (hresolved : Resolved mem lib [] chain result)
    (hchain : headerChain mem size fuel firstHeader = some chain) :
    result.headers = chainHeaders mem chain := by
  unfold DissectResult.headers chainHeaders
  cases hok : result.outcome with
  | ok name =>
      have hshapes : name.map Segment.shape = chain.map (HeaderAt.shape mem) :=
        hresolved.shapes name hok
      have hstarts := startsWithEthernet_of_shapes hchain hshapes
      rw [if_pos (hresolved.outcome.mp ⟨name, hok, hstarts⟩)]
      exact congrArg some (layout_eq hchain hshapes)
  | error error =>
      have hbad : ¬ ∀ header ∈ chain, ¬ header.Unresolvable mem := by
        intro hgood
        obtain ⟨name, hname, _⟩ := hresolved.outcome.mpr hgood
        cases hok.symm.trans hname
      rw [if_neg hbad]

/-- Every result in a clean registry is the one that the headers of the packet call for. -/
theorem Clean.resolved_of_gets {result : DissectResult} (hclean : Clean lib)
    (hgets : Gets order mem lib result) :
    ∃ size fuel chain, headerChain mem size fuel firstHeader = some chain ∧
      Resolved mem lib [] chain result := by
  obtain ⟨steps, hrun⟩ := hgets
  obtain ⟨size, fuel, chain, hchain⟩ := (At.first hclean).exists_chain hrun
  obtain ⟨result', hgets', hresolved⟩ := hclean.resolves hchain
  obtain rfl := hgets'.unique ⟨steps, hrun⟩
  exact ⟨size, fuel, chain, hchain, hresolved⟩

/-- What dissection comes to in a clean registry says nothing about the registry. -/
theorem Clean.getsHeaders_iff (hclean : Clean lib) {headers : Option (List (Nat × Shape))} :
    GetsHeaders order mem lib headers ↔
      ∃ size fuel chain, headerChain mem size fuel firstHeader = some chain ∧
        headers = chainHeaders mem chain := by
  constructor
  · rintro ⟨result, hgets, rfl⟩
    obtain ⟨size, fuel, chain, hchain, hresolved⟩ := hclean.resolved_of_gets hgets
    exact ⟨size, fuel, chain, hchain, hresolved.headers_eq hchain⟩
  · rintro ⟨size, fuel, chain, hchain, rfl⟩
    obtain ⟨result, hgets, hresolved⟩ := hclean.resolves hchain
    exact ⟨result, hgets, hresolved.headers_eq hchain⟩

theorem Clean.preserves {result : DissectResult} (hclean : Clean lib)
    (hchain : headersOf mem size = some chain) (hzero : ∀ header ∈ chain, header.options mem = 0)
    (hgets : Gets order mem lib result) : lib.Preserves result.lib := by
  obtain ⟨result', hgets', hresolved⟩ := hclean.resolves hchain
  obtain rfl := hgets.unique hgets'
  exact hresolved.kept.preserves hzero

end Headers

/-- Two histories without IPv4 options behind the first headers: a packet fails after
both or has the same headers at the same offsets after both. A packet without options
leaves the header list of every type as it is. -/
theorem dissection_independent {lib₁ lib₂ : Library} (hreached₁ : Reached lib₁)
    (hreached₂ : Reached lib₂) (order₁ order₂ : PairsOrder) (mem : Memory) :
    (∀ headers, GetsHeaders order₁ mem lib₁ headers ↔ GetsHeaders order₂ mem lib₂ headers) ∧
      ∀ size chain result, headersOf mem size = some chain →
        (∀ header ∈ chain, header.options mem = 0) → Gets order₁ mem lib₁ result →
        lib₁.Preserves result.lib := by
  refine ⟨?_, ?_⟩
  · intro headers
    rw [hreached₁.clean.getsHeaders_iff, hreached₂.clean.getsHeaders_iff]
  · intro size chain result hchain hzero hgets
    exact hreached₁.clean.preserves hchain hzero hgets

/-- IPv4 with options right behind an untagged Ethernet header. -/
def outerOptionsPacket : Memory := sampleMemory [(12, 0x08), (14, 0x46), (23, 0x11)]

theorem dissection_independent_outerOptions : ∃ result,
    Gets creationOrder outerOptionsPacket freshLibrary result ∧
      (∀ headers, GetsHeaders creationOrder nestedPacket freshLibrary headers ↔
        GetsHeaders creationOrder nestedPacket result.lib headers) := by
  have hchain : headersOf outerOptionsPacket 46 =
      some [⟨.ethernet, 0, true⟩, ⟨.ip4, 14, false⟩, ⟨.udp, 38, false⟩] := by
    decide
  obtain ⟨result, hgets, _⟩ := freshLibrary_clean.resolves hchain
  have hreached : Reached result.lib := .get .fresh hchain (by decide) hgets
  exact ⟨result, hgets,
    (dissection_independent .fresh hreached creationOrder creationOrder nestedPacket).1⟩

/-! ## Histories with other options -/

/-- The registries after any packets. -/
inductive Dissected : Library → Prop
  | fresh : Dissected freshLibrary
  | get {lib : Library} {order : PairsOrder} {mem : Memory} {result : DissectResult}
      (hdissected : Dissected lib) (hgets : Gets order mem lib result) : Dissected result.lib

/-- IPv4 with options behind a tagged Ethernet header. -/
def taggedOptionsPacket : Memory := sampleMemory [(12, 0x81), (16, 0x08), (18, 0x46)]

/-- UDP in IPv4 without options, behind a tagged Ethernet header. -/
def taggedUdpPacket : Memory := sampleMemory [(12, 0x81), (16, 0x08), (18, 0x45), (27, 0x11)]

theorem options_change_later_packets : ¬ ∀ (lib₁ lib₂ : Library) (order : PairsOrder) (mem : Memory)
    (headers : Option (List (Nat × Shape))), Dissected lib₁ → Dissected lib₂ →
      (GetsHeaders order mem lib₁ headers ↔ GetsHeaders order mem lib₂ headers) := by
  intro halways
  have hfresh : (runSteps (resolveLastHeader creationOrder taggedUdpPacket) 8
      ⟨freshLibrary, ethernetPacket⟩).map (fun result => result.headers.isSome) = some true := by
    decide +kernel
  have hlater : ((runSteps (resolveLastHeader creationOrder taggedOptionsPacket) 8
      ⟨freshLibrary, ethernetPacket⟩).bind fun earlier =>
        (runSteps (resolveLastHeader creationOrder taggedUdpPacket) 8
          ⟨earlier.lib, ethernetPacket⟩).map fun result => result.headers) = some none := by
    decide +kernel
  obtain ⟨succeeded, hsucceeded, hsome⟩ := Option.map_eq_some_iff.mp hfresh
  obtain ⟨earlier, hearlier, hrest⟩ := Option.bind_eq_some_iff.mp hlater
  obtain ⟨failed, hfailed, hnone⟩ := Option.map_eq_some_iff.mp hrest
  have hdissected : Dissected earlier.lib := .get .fresh ⟨8, hearlier⟩
  obtain ⟨result, hgets, hheaders⟩ := (halways freshLibrary earlier.lib creationOrder
    taggedUdpPacket none .fresh hdissected).mpr ⟨failed, ⟨8, hfailed⟩, hnone⟩
  obtain rfl := hgets.unique ⟨8, hsucceeded⟩
  rw [hheaders] at hsome
  cases hsome

end Libmoon.Packet
