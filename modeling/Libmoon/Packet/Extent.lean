import Libmoon.Packet.Independence

/-! # Headers and the length of the packet

Dissection does not look at the length of the packet. It resolves the headers that the
bytes in the buffer announce one after the other, also behind the end of the packet.
Which of them lie inside the packet can be told from the bytes.
-/

namespace Libmoon.Packet

open Foundation

variable {order : PairsOrder} {mem mem' : Memory} {lib : Library} {size fuel pktLen : Nat}
  {name : StructName} {chain : List HeaderAt} {result : DissectResult}

theorem totalSize_eq_extent (hshapes : name.map Segment.shape = chain.map (HeaderAt.shape mem)) :
    totalSize name = extent mem chain := by
  induction chain generalizing name with
  | nil =>
      obtain rfl := List.map_eq_nil_iff.mp hshapes
      rfl
  | cons header chain ih =>
      obtain ⟨segment, rest, rfl, hshape, hrest⟩ := List.map_eq_cons_iff.mp hshapes
      have htotal : totalSize (segment :: rest) = segment.size + totalSize rest := by
        simp [totalSize]
      rw [htotal, extent_cons, Segment.size_eq hshape, ih hrest]

/-- Bytes behind the end of the packet do not matter if the headers end before. -/
theorem chainHeaders_congr (hagree : ∀ i < pktLen, mem' i = mem i)
    (hchain : headerChain mem pktLen fuel firstHeader = some chain) :
    headerChain mem' pktLen fuel firstHeader = some chain ∧
      chainHeaders mem' chain = chainHeaders mem chain := by
  obtain ⟨hchain', hheaders⟩ := headerChain_congr hagree hchain
  refine ⟨hchain', ?_⟩
  have hlist : chain.map (fun header => (header.offset, header.shape mem')) =
      chain.map fun header => (header.offset, header.shape mem) := by
    apply List.map_congr_left
    intro header hheader
    rw [(hheaders header hheader).1]
  have hgood : (∀ header ∈ chain, ¬ header.Unresolvable mem') ↔
      ∀ header ∈ chain, ¬ header.Unresolvable mem := by
    apply forall₂_congr
    intro header hheader
    rw [(hheaders header hheader).2]
  unfold chainHeaders
  rw [hlist]
  exact if_congr hgood rfl rfl

/-- The headers that are resolved are those that the bytes in the buffer announce. They
lie inside the packet exactly if all that is announced does, and in that case the bytes
behind the packet decide nothing: with other bytes there, and after other packets, the
result is the same. -/
theorem resolved_inside_iff (hreached : Reached lib) (hgets : Gets order mem lib result)
    (hok : result.outcome = .ok name) (pktLen : Nat) :
    (totalSize name ≤ pktLen ↔ (headersOf mem pktLen).isSome) ∧
      (totalSize name ≤ pktLen → ∀ mem', (∀ i < pktLen, mem' i = mem i) →
        ∀ order' lib', Reached lib' → GetsHeaders order' mem' lib' result.headers) := by
  obtain ⟨size, fuel, chain, hchain, hresolved⟩ := hreached.clean.resolved_of_gets hgets
  have htotal : totalSize name = extent mem chain := totalSize_eq_extent (hresolved.shapes name hok)
  refine ⟨?_, ?_⟩
  · rw [htotal, headersOf_isSome_iff hchain]
  · intro hfits mem' hagree order' lib' hreached'
    rw [htotal, ← Nat.zero_add (extent mem chain)] at hfits
    have hinside : headerChain mem pktLen fuel firstHeader = some chain :=
      headerChain_of_fits hchain hfits
    obtain ⟨hchain', hsame⟩ := chainHeaders_congr hagree hinside
    rw [hreached'.clean.getsHeaders_iff]
    exact ⟨pktLen, fuel, chain, hchain', (hresolved.headers_eq hchain).trans hsame.symm⟩

theorem resolved_inside_outerOptions : ∃ result name,
    Gets creationOrder outerOptionsPacket freshLibrary result ∧ result.outcome = .ok name ∧
      (totalSize name ≤ 46 ↔ (headersOf outerOptionsPacket 46).isSome) := by
  have hchain : headersOf outerOptionsPacket 46 =
      some [⟨.ethernet, 0, true⟩, ⟨.ip4, 14, false⟩, ⟨.udp, 38, false⟩] := by
    decide
  obtain ⟨result, hgets, hresolved⟩ := freshLibrary_clean.resolves hchain
  obtain ⟨name, hok, _⟩ := hresolved.outcome.mpr (by decide)
  exact ⟨result, name, hgets, hok, (resolved_inside_iff .fresh hgets hok 46).1⟩

/-- An Ethernet header that announces IPv4, and nothing behind it. -/
def truncatedPacket : Memory := sampleMemory [(12, 0x08)]

theorem resolved_outside : ¬ ∀ (order : PairsOrder) (mem : Memory) (lib : Library)
    (result : DissectResult) (name : StructName) (pktLen : Nat), Reached lib → 14 ≤ pktLen →
      Gets order mem lib result → result.outcome = .ok name → totalSize name ≤ pktLen := by
  intro halways
  have hrun : (runSteps (resolveLastHeader creationOrder truncatedPacket) 8
      ⟨freshLibrary, ethernetPacket⟩).map (fun result => result.outcome.toOption.map totalSize) =
        some (some 34) := by
    decide +kernel
  obtain ⟨result, hresult, hsize⟩ := Option.map_eq_some_iff.mp hrun
  obtain ⟨name, hname, hsize⟩ := Option.map_eq_some_iff.mp hsize
  have hok : result.outcome = .ok name := by
    cases houtcome : result.outcome with
    | ok other =>
        rw [houtcome] at hname
        exact congrArg Except.ok (Option.some.inj hname)
    | error error =>
        rw [houtcome] at hname
        cases hname
  have hfits := halways creationOrder truncatedPacket freshLibrary result name 14 .fresh
    (Nat.le_refl _) ⟨8, hresult⟩ hok
  omega

end Libmoon.Packet
