import Libmoon.Packet.Lengths

/-! # Which packets can be dissected

Dissection follows the chain of headers in the packet. It comes to a result for every
chain, and the result is a packet type unless the chain has a header that cannot be
resolved. The type has the headers of the chain. The registry has to be clean for that,
and stays so as long as IPv4 options occur only right behind an untagged Ethernet
header.
-/

namespace Libmoon.Packet

open Foundation

/-- IPv4 options are written to a table that later packets trust, unless every packet
that gets to it writes to it first. -/
def HeaderAt.Spares (mem : Memory) (header : HeaderAt) : Prop :=
  header.proto = .ip4 → header.options mem = 0 ∨ header.offset = totalSize ethernetPacket

instance (mem : Memory) (header : HeaderAt) : Decidable (header.Spares mem) :=
  inferInstanceAs (Decidable (_ → _))

/-- What is left of the registry when headers have been looked at. -/
structure Kept (mem : Memory) (chain : List HeaderAt) (lib lib' : Library) : Prop where
  clean : Clean lib → (∀ header ∈ chain, header.Spares mem) → Clean lib'
  preserves : (∀ header ∈ chain, header.options mem = 0) → lib.Preserves lib'

namespace Kept

variable {mem : Memory} {header : HeaderAt} {chain : List HeaderAt} {lib lib' lib'' : Library}

theorem refl : Kept mem chain lib lib :=
  ⟨fun hclean _ => hclean, fun _ _ _ hlist => hlist⟩

theorem trans (hkept : Kept mem chain lib lib') (hkept' : Kept mem chain lib' lib'') :
    Kept mem chain lib lib'' := by
  refine ⟨?_, ?_⟩
  · intro hclean hspares
    exact hkept'.clean (hkept.clean hclean hspares) hspares
  · intro hzero name list hlist
    exact hkept'.preserves hzero name list (hkept.preserves hzero name list hlist)

theorem cons (hkept : Kept mem [header] lib lib') (hkept' : Kept mem chain lib' lib'') :
    Kept mem (header :: chain) lib lib'' := by
  refine ⟨?_, ?_⟩
  · intro hclean hspares
    rw [List.forall_mem_cons] at hspares
    exact hkept'.clean (hkept.clean hclean (by simpa using hspares.1)) hspares.2
  · intro hzero name list hlist
    rw [List.forall_mem_cons] at hzero
    exact hkept'.preserves hzero.2 name list
      (hkept.preserves (by simpa using hzero.1) name list hlist)

/-- Options are another matter. -/
theorem of_options (hclean : Clean lib → header.Spares mem → Clean lib')
    (hpos : 0 < header.options mem) : Kept mem [header] lib lib' := by
  refine ⟨?_, ?_⟩
  · intro hlib hspares
    exact hclean hlib (hspares header (by simp))
  · intro hzero
    exact absurd (hzero header (by simp)) (Nat.ne_of_gt hpos)

end Kept

/-- The result that the headers of a packet call for, behind headers that have been
passed. -/
structure Resolved (mem : Memory) (lib : Library) (front : List Shape) (chain : List HeaderAt)
    (result : DissectResult) : Prop where
  outcome : (∃ name, result.outcome = .ok name ∧ StartsWithEthernet name) ↔
    ∀ header ∈ chain, ¬ header.Unresolvable mem
  shapes : ∀ name, result.outcome = .ok name →
    name.map Segment.shape = front ++ chain.map (HeaderAt.shape mem)
  kept : Kept mem chain lib result.lib

namespace Resolved

variable {mem : Memory} {lib lib' : Library} {front : List Shape} {header : HeaderAt}
  {chain : List HeaderAt} {result : DissectResult}

theorem cons (hresolved : Resolved mem lib' (front ++ [header.shape mem]) chain result)
    (hgood : ¬ header.Unresolvable mem) (hkept : Kept mem [header] lib lib') :
    Resolved mem lib front (header :: chain) result := by
  refine ⟨?_, ?_, hkept.cons hresolved.kept⟩
  · rw [hresolved.outcome, List.forall_mem_cons, and_iff_right hgood]
  · intro name hok
    rw [hresolved.shapes name hok]
    simp

theorem of_ok {name : StructName} (hname : StartsWithEthernet name)
    (hshapes : name.map Segment.shape = front ++ [header.shape mem])
    (hgood : ¬ header.Unresolvable mem) (hkept : Kept mem [header] lib lib') :
    Resolved mem lib front [header] ⟨.ok name, lib'⟩ := by
  refine ⟨⟨fun _ => by simpa using hgood, fun _ => ⟨name, rfl, hname⟩⟩, ?_, hkept⟩
  intro other hok
  obtain rfl := Except.ok.inj hok
  exact hshapes

theorem of_error {error : DissectError} (hbad : header.Unresolvable mem) :
    Resolved mem lib front [header] ⟨.error error, lib⟩ := by
  refine ⟨⟨?_, ?_⟩, ?_, .refl⟩
  · rintro ⟨name, hok, _⟩
    cases hok
  · intro hgood
    exact absurd hbad (hgood header (by simp))
  · intro name hok
    cases hok

end Resolved

/-! ## Segments and headers -/

section Headers

variable {mem : Memory} {header : HeaderAt} {segment : Segment}

/-- The dissector looks for the next header where it is. -/
theorem resolveNextHeader_eq (hproto : segment.proto = header.proto)
    (hsubType : segment.subType = header.subType mem) (hgre : header.proto ≠ .gre) :
    resolveNextHeader mem header.offset segment = some (header.next mem) := by
  unfold resolveNextHeader HeaderAt.next
  rw [hproto, hsubType]
  cases hheader : header.proto with
  | gre => exact absurd hheader hgre
  | _ => rfl

theorem Segment.shape_of_no_options (hproto : segment.proto = header.proto)
    (hsubType : segment.subType = header.subType mem) (hlength : segment.length = none)
    (hzero : header.options mem = 0) : segment.shape = header.shape mem := by
  simp [Segment.shape, HeaderAt.shape, hproto, hsubType, hlength, hzero]

theorem Segment.shape_withLength (hproto : segment.proto = header.proto)
    (hsubType : segment.subType = header.subType mem) (hpos : 0 < header.options mem) :
    (segment.withLength (header.options mem)).shape = header.shape mem := by
  simp [Segment.shape, Segment.withLength, HeaderAt.shape, hproto, hsubType, Nat.ne_of_gt hpos]

theorem HeaderAt.subType_of_not_first (hfirst : header.first = false) :
    header.subType mem = header.proto.defaultType := by
  simp [HeaderAt.subType, hfirst]

theorem HeaderAt.options_eq_zero (hip4 : header.proto ≠ .ip4) (htcp : header.proto ≠ .tcp) :
    header.options mem = 0 := by
  unfold HeaderAt.options
  split
  next hproto => exact absurd hproto hip4
  next hproto => exact absurd hproto htcp
  next => rfl

end Headers

/-! ## Where dissection is -/

/-- A header other than those that a packet starts with. -/
structure HeaderAt.Behind (header : HeaderAt) : Prop where
  first : header.first = false
  offset : totalSize ethernetPacket ≤ header.offset
  ip4 : header.proto = .ip4 → totalSize ethernetPacket < header.offset

theorem HeaderAt.behind_next {mem : Memory} {header : HeaderAt}
    (hoffset : totalSize ethernetPacket ≤ header.offset) (proto : Proto) :
    HeaderAt.Behind ⟨proto, header.offset + header.size mem, false⟩ := by
  have hlt : totalSize ethernetPacket < header.offset + header.size mem :=
    Nat.lt_of_le_of_lt hoffset (Nat.lt_add_of_pos_right HeaderAt.size_pos)
  exact ⟨rfl, Nat.le_of_lt hlt, fun _ => hlt⟩

/-- The header behind an untagged Ethernet header, if it is IPv4. -/
def outerHeader : HeaderAt := ⟨.ip4, totalSize ethernetPacket, false⟩

/-- The packet has been cast to a type that ends with the header, and the header has not
been looked at yet. -/
inductive At (lib : Library) : StructName → HeaderAt → Prop
  | first (hclean : Clean lib) : At lib ethernetPacket firstHeader
  | outer (hclean : Clean lib) : At lib ip4Packet outerHeader
  | behind {parent : StructName} {segment : Segment} {header : HeaderAt}
      (harrived : Arrived lib parent segment) (hproto : segment.proto = header.proto)
      (hlength : segment.length = none) (hoffset : totalSize parent = header.offset)
      (hbehind : header.Behind) : At lib (parent ++ [segment]) header

/-- The last header has the right sub-type and length, and what is left is to look for
the next one. -/
structure Passed (order : PairsOrder) (mem : Memory) (lib : Library) (parent : StructName)
    (segment : Segment) (header : HeaderAt) : Prop where
  good : ¬ header.Unresolvable mem
  shape : segment.shape = header.shape mem
  step : resolveLastHeader order mem ⟨lib, parent ++ [segment]⟩ =
    resolveNext order mem lib (parent ++ [segment]) header.offset segment
  ethernet : StartsWithEthernet (parent ++ [segment])
  append : ∀ proto, resolveNextHeader mem header.offset segment = some (some proto) →
    ∃ lib' next, resolveNext order mem lib (parent ++ [segment]) header.offset segment =
        .next ⟨lib', parent ++ [segment] ++ [next]⟩ ∧
      At lib' (parent ++ [segment] ++ [next]) ⟨proto, header.offset + header.size mem, false⟩ ∧
      (Clean lib → Clean lib') ∧ lib.Preserves lib'

/-- What comes of a header: it ends the dissection, or it is passed. -/
def Visited (order : PairsOrder) (mem : Memory) (lib : Library) (name : StructName)
    (header : HeaderAt) : Prop :=
  (header.next mem = none ∧ ∃ result, Yields (resolveLastHeader order mem) ⟨lib, name⟩ result ∧
    Resolved mem lib (name.dropLast.map Segment.shape) [header] result) ∨
  ∃ lib' parent segment,
    Relation.ReflTransGen (Next (resolveLastHeader order mem)) ⟨lib, name⟩
      ⟨lib', parent ++ [segment]⟩ ∧
    Passed order mem lib' parent segment header ∧
    parent.map Segment.shape = name.dropLast.map Segment.shape ∧ Kept mem [header] lib lib'

section Visits

variable {order : PairsOrder} {mem : Memory} {lib lib' : Library} {name parent : StructName}
  {segment : Segment} {header : HeaderAt}

theorem Passed.next (hpassed : Passed order mem lib parent segment header) :
    resolveNextHeader mem header.offset segment = some (header.next mem) := by
  obtain ⟨hproto, hsubType, _⟩ := Shape.mk.inj hpassed.shape
  exact resolveNextHeader_eq hproto hsubType fun hgre => hpassed.good (.inl hgre)

/-- Passed without another cast. -/
theorem Passed.visited (hpassed : Passed order mem lib parent segment header) :
    Visited order mem lib (parent ++ [segment]) header :=
  .inr ⟨lib, parent, segment, .refl, hpassed, by rw [List.dropLast_concat], .refl⟩

/-- Passed after a cast to the right sub-type or length. -/
theorem Passed.visited_of_next (hpassed : Passed order mem lib' parent segment header)
    (hstep : resolveLastHeader order mem ⟨lib, name⟩ = .next ⟨lib', parent ++ [segment]⟩)
    (hfront : parent.map Segment.shape = name.dropLast.map Segment.shape)
    (hkept : Kept mem [header] lib lib') : Visited order mem lib name header :=
  .inr ⟨lib', parent, segment, .single hstep, hpassed, hfront, hkept⟩

namespace Visited

/-- The last header of the packet. -/
theorem finish (hvisited : Visited order mem lib name header) (hnone : header.next mem = none) :
    ∃ result, Yields (resolveLastHeader order mem) ⟨lib, name⟩ result ∧
      Resolved mem lib (name.dropLast.map Segment.shape) [header] result := by
  rcases hvisited with ⟨_, hresult⟩ | ⟨lib', parent, segment, hleads, hpassed, hfront, hkept⟩
  · exact hresult
  · have hnext := hpassed.next
    rw [hnone] at hnext
    have hdone : resolveLastHeader order mem ⟨lib', parent ++ [segment]⟩ =
        .done ⟨.ok (parent ++ [segment]), lib'⟩ := by
      rw [hpassed.step]
      simp only [resolveNext, hnext]
    refine ⟨_, .of_reflTransGen hleads (.of_done hdone),
      .of_ok hpassed.ethernet ?_ hpassed.good hkept⟩
    rw [List.map_append, hfront, List.map_singleton, hpassed.shape]

/-- There is another header. -/
theorem advance {proto : Proto} (hvisited : Visited order mem lib name header)
    (hsome : header.next mem = some proto) :
    ∃ lib' name', Relation.TransGen (Next (resolveLastHeader order mem)) ⟨lib, name⟩ ⟨lib', name'⟩ ∧
      At lib' name' ⟨proto, header.offset + header.size mem, false⟩ ∧
      name'.dropLast.map Segment.shape =
        name.dropLast.map Segment.shape ++ [header.shape mem] ∧
      ¬ header.Unresolvable mem ∧ Kept mem [header] lib lib' := by
  rcases hvisited with ⟨hnone, _⟩ | ⟨lib', parent, segment, hleads, hpassed, hfront, hkept⟩
  · cases hnone.symm.trans hsome
  · obtain ⟨lib'', next, hstep, hat, hclean, hpreserves⟩ :=
      hpassed.append proto (by rw [hpassed.next, hsome])
    refine ⟨lib'', _, .tail' hleads (hpassed.step.trans hstep), hat, ?_, hpassed.good,
      hkept.trans ⟨fun hlib _ => hclean hlib, fun _ => hpreserves⟩⟩
    rw [List.dropLast_concat, List.map_append, hfront, List.map_singleton, hpassed.shape]

end Visited

/-- A type that has been passed is appended to. -/
theorem Ready.append {offset : Nat} {last : Segment} {proto : Proto} (hready : Ready lib name)
    (hoffset : totalSize name = offset) (hbehind : HeaderAt.Behind ⟨proto, offset, false⟩)
    {place : Nat} (hnext : resolveNextHeader mem place last = some (some proto)) :
    ∃ lib' next, resolveNext order mem lib name place last = .next ⟨lib', name ++ [next]⟩ ∧
      At lib' (name ++ [next]) ⟨proto, offset, false⟩ ∧ (Clean lib → Clean lib') ∧
      lib.Preserves lib' := by
  obtain ⟨lib', next, hstep, hproto, hlength, harrived, hclean, hpreserves⟩ :=
    resolveNext_append hready hnext
  exact ⟨lib', next, hstep, .behind harrived hproto hlength hoffset hbehind, hclean, hpreserves⟩

end Visits

/-! ## Behind the first headers -/

section Behind

variable {order : PairsOrder} {mem : Memory} {lib : Library} {parent : StructName}
  {segment : Segment} {header : HeaderAt}

theorem Arrived.subType_eq (harrived : Arrived lib parent segment)
    (hproto : segment.proto = header.proto) (hbehind : header.Behind) :
    segment.subType = header.subType mem := by
  obtain ⟨_, _, _, hplain⟩ := harrived.entry
  rw [hplain.2, hproto, HeaderAt.subType_of_not_first hbehind.first]

/-- The lookup of the header behind GRE fails. -/
theorem Arrived.yields_gre (harrived : Arrived lib parent segment)
    (hproto : segment.proto = .gre) :
    Yields (resolveLastHeader order mem) ⟨lib, parent ++ [segment]⟩
      ⟨.error .missingMethod, lib⟩ := by
  apply Yields.of_done
  rw [resolveLastHeader_of_ne harrived.lastHeader (by simp [hproto])]
  simp [resolveLength, getVariableLength, resolveNext, resolveNextHeader, hproto]

/-- There is no struct for a tagged Ethernet header behind the first. -/
theorem Arrived.yields_tagged (harrived : Arrived lib parent segment)
    (hproto : segment.proto = .ethernet)
    (htag : etherType mem (totalSize parent) (some .default) = type8021Q) :
    Yields (resolveLastHeader order mem) ⟨lib, parent ++ [segment]⟩
      ⟨.error (.undeclaredStruct (parent ++ [{ segment with subType := some .vlan }])), lib⟩ := by
  obtain ⟨args, hargs, hregular, hplain⟩ := harrived.entry
  have hsubType : segment.subType = some .default := by rw [hplain.2, hproto]; rfl
  have hvlan : getSubType mem (totalSize parent) segment = some .vlan := by
    simp [getSubType, hproto, hsubType, htag]
  have hundeclared : ¬ lib.Declared (parent ++ [{ segment with subType := some .vlan }]) := by
    rintro ⟨entry, hentry, hname⟩
    have hplain' := (harrived.below entry hentry _ _ hname rfl
      (by simpa [hname] using harrived.passable)).2 _ List.mem_cons_self
    have hdefault : some SubType.vlan = segment.proto.defaultType := hplain'.2
    rw [hproto] at hdefault
    cases hdefault
  apply Yields.of_done
  simp [resolveLastHeader, harrived.lastHeader, hvlan, hsubType, castTo, hundeclared,
    List.modifyLast_concat]

/-- The name of a type that is passed behind the first headers is not that of a plain
IPv4 packet. -/
theorem HeaderAt.Behind.ne_ip4Packet (hbehind : header.Behind)
    (hproto : segment.proto = header.proto) (hoffset : totalSize parent = header.offset) :
    parent ++ [segment] ≠ ip4Packet := by
  intro heq
  have heq' : parent ++ [segment] = ethernetPacket ++ [Proto.ip4.segment] := heq
  obtain ⟨rfl, hlast⟩ := List.append_inj' heq' rfl
  obtain rfl := List.singleton_inj.mp hlast
  exact Nat.ne_of_lt (hbehind.ip4 hproto.symm) hoffset

/-- Without options the header is passed at once. -/
theorem Arrived.passed (harrived : Arrived lib parent segment)
    (hproto : segment.proto = header.proto) (hnone : segment.length = none)
    (hoffset : totalSize parent = header.offset) (hbehind : header.Behind)
    (hgood : ¬ header.Unresolvable mem) (hzero : header.options mem = 0) :
    Passed order mem lib parent segment header := by
  obtain ⟨_, _, _, hplain⟩ := harrived.entry
  have hgre : header.proto ≠ .gre := fun hgre => hgood (.inl hgre)
  have hsubType : segment.subType = header.subType mem := harrived.subType_eq hproto hbehind
  have hshape := Segment.shape_of_no_options hproto hsubType hnone hzero
  have hlength : resolveLastHeader order mem ⟨lib, parent ++ [segment]⟩ =
      resolveLength order mem lib (parent ++ [segment]) header.offset segment := by
    by_cases hether : segment.proto = .ethernet
    · have hdefault : segment.subType = some .default := by rw [hplain.2, hether]; rfl
      have htag : etherType mem header.offset (some .default) ≠ type8021Q := fun htag =>
        hgood (.inr ⟨hproto.symm.trans hether, hbehind.first, htag⟩)
      have hsame : getSubType mem header.offset segment = some .default := by
        simp [getSubType, hether, hdefault, htag]
      simp [resolveLastHeader, harrived.lastHeader, hoffset, hsame, hdefault]
    · rw [resolveLastHeader_of_ne harrived.lastHeader hether, hoffset]
  refine ⟨hgood, hshape, ?_, harrived.ethernet.concat segment, ?_⟩
  · rw [hlength, resolveLength_of_no_options hproto hzero]
  · intro proto hnext
    have htcp : segment.proto ≠ .tcp := by
      intro htcp
      simp [resolveNextHeader, htcp] at hnext
    have hready : Ready lib (parent ++ [segment]) :=
      harrived.ready (hproto ▸ hgre) htcp (hbehind.ne_ip4Packet hproto hoffset)
    refine hready.append ?_ (HeaderAt.behind_next hbehind.offset proto) hnext
    rw [totalSize_concat, hoffset, Segment.size_eq hshape]

/-- IPv4 options are passed on the second visit. -/
theorem Ready.passed_options
    (hready : Ready lib (parent ++ [segment.withLength (header.options mem)]))
    (hip4 : header.proto = .ip4) (hproto : segment.proto = header.proto)
    (hsubType : segment.subType = header.subType mem) (hoffset : totalSize parent = header.offset)
    (hbehind : totalSize ethernetPacket ≤ header.offset) (hpos : 0 < header.options mem) :
    Passed order mem lib parent (segment.withLength (header.options mem)) header := by
  obtain ⟨args, hargs, hregular⟩ := hready.regular
  have hshape := Segment.shape_withLength hproto hsubType hpos
  refine ⟨by simp [HeaderAt.Unresolvable, hip4], hshape, ?_, hready.ethernet, ?_⟩
  · exact resolveLastHeader_of_length hargs hregular hready.passable (by simp [hproto, hip4])
      hproto hoffset rfl hpos
  · intro proto hnext
    refine hready.append ?_ (HeaderAt.behind_next hbehind proto) hnext
    rw [totalSize_concat, hoffset, Segment.size_eq hshape]

/-- TCP options are written once more on the second visit. -/
theorem Arrived.yields_tcp (harrived : Arrived lib parent segment)
    (hproto : segment.proto = header.proto) (hnone : segment.length = none)
    (htcp : header.proto = .tcp) (hoffset : totalSize parent = header.offset)
    (hpos : 0 < header.options mem) :
    ∃ lib', Yields (resolveLastHeader order mem) ⟨lib, parent ++ [segment]⟩
        ⟨.ok (parent ++ [segment.withLength (header.options mem)]), lib'⟩ ∧
      (Clean lib → Clean lib') := by
  obtain ⟨lib₁, harrived₁, hclean₁, hstep₁⟩ := harrived.passTcp order hproto htcp hoffset hpos
  obtain ⟨lib₂, _, hclean₂, hstep₂⟩ := harrived₁.passTcp order hproto htcp hoffset hpos
  have hlength : segment.length ≠ some (header.options mem) := by simp [hnone]
  have hlength₁ : (segment.withLength (header.options mem)).length =
      some (header.options mem) := rfl
  rw [if_neg hlength] at hstep₁
  rw [if_pos hlength₁] at hstep₂
  exact ⟨lib₂, .of_next hstep₁ (.of_done hstep₂), fun hclean => hclean₂ (hclean₁ hclean)⟩

theorem Arrived.visited_unresolvable (harrived : Arrived lib parent segment)
    (hproto : segment.proto = header.proto) (hoffset : totalSize parent = header.offset)
    (hbad : header.Unresolvable mem) : Visited order mem lib (parent ++ [segment]) header := by
  refine .inl ⟨hbad.next_eq, ?_⟩
  rcases id hbad with hgre | ⟨hether, _, htag⟩
  · exact ⟨_, harrived.yields_gre (hproto.trans hgre), .of_error hbad⟩
  · rw [← hoffset] at htag
    exact ⟨_, harrived.yields_tagged (hproto.trans hether) htag, .of_error hbad⟩

theorem Arrived.visited_ip4 (harrived : Arrived lib parent segment)
    (hproto : segment.proto = header.proto) (hip4 : header.proto = .ip4)
    (hoffset : totalSize parent = header.offset) (hbehind : header.Behind)
    (hpos : 0 < header.options mem) : Visited order mem lib (parent ++ [segment]) header := by
  obtain ⟨lib', hstep, hready⟩ := harrived.passOptions order hproto hip4 hoffset hpos
  have hpassed : Passed order mem lib' parent _ header := hready.passed_options hip4 hproto
    (harrived.subType_eq hproto hbehind) hoffset hbehind.offset hpos
  refine Passed.visited_of_next hpassed hstep (by rw [List.dropLast_concat]) (.of_options ?_ hpos)
  -- the write is not undone, and the headers in question are excluded for that
  intro _ hspares
  rcases hspares hip4 with hzero | heq
  · exact absurd hzero (Nat.ne_of_gt hpos)
  · exact absurd heq (Nat.ne_of_gt (hbehind.ip4 hip4))

theorem Arrived.visited_tcp (harrived : Arrived lib parent segment)
    (hproto : segment.proto = header.proto) (hnone : segment.length = none)
    (htcp : header.proto = .tcp) (hoffset : totalSize parent = header.offset)
    (hbehind : header.Behind) (hpos : 0 < header.options mem) :
    Visited order mem lib (parent ++ [segment]) header := by
  obtain ⟨lib', hyields, hclean⟩ := harrived.yields_tcp hproto hnone htcp hoffset hpos
  have hshape := Segment.shape_withLength hproto (harrived.subType_eq hproto hbehind) hpos
  refine .inl ⟨by simp [HeaderAt.next, htcp], _, hyields, .of_ok (harrived.ethernet.concat _) ?_
    (by simp [HeaderAt.Unresolvable, htcp]) (.of_options (fun hlib _ => hclean hlib) hpos)⟩
  rw [List.map_append, List.dropLast_concat, List.map_singleton, hshape]

/-- An unresolvable header ends the chain, and so does TCP; the others are passed. -/
theorem Arrived.visited (harrived : Arrived lib parent segment)
    (hproto : segment.proto = header.proto) (hnone : segment.length = none)
    (hoffset : totalSize parent = header.offset) (hbehind : header.Behind) :
    Visited order mem lib (parent ++ [segment]) header := by
  by_cases hbad : header.Unresolvable mem
  · exact harrived.visited_unresolvable hproto hoffset hbad
  · rcases Nat.eq_zero_or_pos (header.options mem) with hzero | hpos
    · exact (harrived.passed hproto hnone hoffset hbehind hbad hzero).visited
    · by_cases hip4 : header.proto = .ip4
      · exact harrived.visited_ip4 hproto hip4 hoffset hbehind hpos
      · have htcp : header.proto = .tcp := by
          by_contra htcp
          exact Nat.ne_of_gt hpos (HeaderAt.options_eq_zero hip4 htcp)
        exact harrived.visited_tcp hproto hnone htcp hoffset hbehind hpos

end Behind

/-! ## The first headers -/

section First

variable {order : PairsOrder} {mem : Memory} {lib : Library}

/-- Types that have nothing to do with the shared table can be trusted. -/
theorem Clean.below {parent : StructName} {proto : Proto} (hclean : Clean lib) (hparent : parent ≠ [])
    (houter : ∀ segment rest, segment.proto = proto →
      outerLength (parent ++ segment :: rest) = none ∧ parent ++ segment :: rest ≠ ip4Packet) :
    Below lib parent proto := by
  intro entry hentry segment rest hname hproto hpassable
  obtain ⟨hlength, hne⟩ := houter segment rest hproto
  have hsound := hclean.sound entry hentry hpassable
  rw [← hname] at hlength hne
  refine ⟨hsound.regular_of_length ?_, ?_⟩
  · intro arg harg harg'
    rcases hsound.outer arg harg harg' with heq | hsome
    · exact absurd heq hne
    · simp [hlength] at hsome
  · have hplain := hsound.plain
    rw [leading, hlength, hname] at hplain
    intro other hother
    cases parent with
    | nil => exact absurd rfl hparent
    | cons head tail => exact hplain other (List.mem_append_right tail hother)

/-- A type behind an untagged Ethernet header that is not IPv4. -/
theorem Clean.arrived_ethernet {proto : Proto} (hclean : Clean lib)
    (hfirst : ethernetPacket ++ [proto.segment] ∈ firstTypes) (hip4 : proto ≠ .ip4) :
    Arrived lib ethernetPacket proto.segment := by
  refine ⟨hclean.tidy, hclean.first _ hfirst, hclean.below (by decide) ?_, by decide, rfl⟩
  intro segment rest hproto
  have hne : segment.proto ≠ .ip4 := fun heq => hip4 (hproto.symm.trans heq)
  refine ⟨by simp [outerLength, ethernetPacket, hne], ?_⟩
  intro heq
  obtain ⟨hlast, -⟩ := List.cons.inj (List.append_cancel_left heq)
  exact hne (hlast ▸ rfl)

/-- A type behind an untagged IPv4 header without options. -/
theorem Clean.arrived_ip4 {proto : Proto} (hclean : Clean lib)
    (hfirst : ip4Packet ++ [proto.segment] ∈ firstTypes) :
    Arrived lib ip4Packet proto.segment := by
  refine ⟨hclean.tidy, hclean.first _ hfirst, hclean.below (by decide) ?_, by decide, rfl⟩
  intro segment rest _
  refine ⟨rfl, ?_⟩
  intro heq
  simpa using congrArg List.length heq

theorem resolveNext_simple {name : StructName} {offset : Nat} {last : Segment} {proto : Proto}
    (hnext : resolveNextHeader mem offset last = some (some proto))
    (hdeclared : lib.Declared (name ++ [proto.segment])) :
    resolveNext order mem lib name offset last = .next ⟨lib, name ++ [proto.segment]⟩ := by
  simp only [resolveNext, hnext]
  exact (if_pos hdeclared).trans (castTo_of_declared hdeclared)

theorem etherNext_mem {type : UInt16} {proto : Proto} (hnext : etherNext type = some proto) :
    proto ∈ [Proto.ip4, .ip6, .arp, .ptp, .lacp] := by
  unfold etherNext at hnext
  grind

theorem ipNext_mem {protoIcmp number : UInt8} {proto : Proto}
    (hnext : ipNext protoIcmp number = some proto) :
    proto ∈ [Proto.icmp, .udp, .tcp, .esp, .ah, .gre] := by
  unfold ipNext at hnext
  grind

theorem outerHeader_subType : Proto.ip4.segment.subType = outerHeader.subType mem := by
  simp [HeaderAt.subType, outerHeader, Proto.segment]

theorem outerHeader_not_unresolvable : ¬ outerHeader.Unresolvable mem := by
  simp [HeaderAt.Unresolvable, outerHeader]

/-- Without options. The type may have the argument list of one with options, but it
is not built on, since all types that can follow exist. -/
theorem outerHeader_passed (hclean : Clean lib) (hzero : outerHeader.options mem = 0) :
    Passed order mem lib ethernetPacket Proto.ip4.segment outerHeader := by
  have hproto : Proto.ip4.segment.proto = outerHeader.proto := rfl
  have hshape := Segment.shape_of_no_options hproto outerHeader_subType rfl hzero
  refine ⟨outerHeader_not_unresolvable, hshape, ?_, rfl, ?_⟩
  · exact (resolveLastHeader_of_ne hclean.lastHeader_ip4Packet (by decide)).trans
      (resolveLength_of_no_options hproto hzero)
  · intro proto hnext
    have hsome : outerHeader.next mem = some proto := by
      rw [resolveNextHeader_eq hproto outerHeader_subType (by decide)] at hnext
      exact Option.some.inj hnext
    have hfirst : ip4Packet ++ [proto.segment] ∈ firstTypes := by
      have hmem := ipNext_mem hsome
      simp only [List.mem_cons, List.not_mem_nil, or_false] at hmem
      rcases hmem with rfl | rfl | rfl | rfl | rfl | rfl <;> decide
    have harrived := hclean.arrived_ip4 hfirst
    refine ⟨lib, proto.segment, resolveNext_simple hnext harrived.declared,
      .behind harrived rfl rfl ?_ (HeaderAt.behind_next (Nat.le_refl _) proto), id,
      fun _ _ hlist => hlist⟩
    rw [totalSize_concat, Segment.size_eq hshape]
    rfl

theorem outerHeader_visited (hclean : Clean lib) :
    Visited order mem lib ip4Packet outerHeader := by
  rcases Nat.eq_zero_or_pos (outerHeader.options mem) with hzero | hpos
  · exact (outerHeader_passed hclean hzero).visited
  · obtain ⟨lib', hstep, hready, hclean'⟩ := hclean.passOptions order rfl rfl hpos
    have hpassed : Passed order mem lib' ethernetPacket _ outerHeader :=
      hready.passed_options rfl rfl outerHeader_subType rfl (Nat.le_refl _) hpos
    exact hpassed.visited_of_next hstep rfl (.of_options (fun _ _ => hclean') hpos)

/-! The Ethernet header that the packet starts with. -/

theorem firstHeader_not_unresolvable : ¬ firstHeader.Unresolvable mem := by
  simp [HeaderAt.Unresolvable, firstHeader]

theorem vlanPacket_ready (hclean : Clean lib) : Ready lib vlanPacket := by
  obtain ⟨args, hargs⟩ := (hclean.first vlanPacket (by decide)).getArgs
  have hsound := hclean.sound_of_getArgs hargs (by decide)
  have hne : vlanPacket ≠ ip4Packet := by decide
  refine ⟨hclean.tidy, ⟨args, hargs, hsound.regular_of_length ?_⟩, ?_, by decide, rfl, hne⟩
  · intro arg harg harg'
    rcases hsound.outer arg harg harg' with heq | hsome
    · exact absurd heq hne
    · cases hsome
  · intro proto
    apply hclean.below (by decide)
    intro segment rest _
    refine ⟨by simp [vlanPacket, outerLength, ethernetPacket], ?_⟩
    intro heq
    cases heq

theorem Clean.lastHeader_first {segment : Segment} (hclean : Clean lib)
    (hfirst : [segment] ∈ firstTypes) : lib.lastHeader [segment] = some (0, segment) := by
  obtain ⟨args, hargs⟩ := (hclean.first _ hfirst).getArgs
  have hsound := hclean.sound_of_getArgs hargs fun _ hmem => absurd hmem (by simp)
  have hargs' : lib.getArgs ([] ++ [segment]) = some args := hargs
  exact Library.lastHeader_concat hargs' hsound.regular (lib.dataWith_member _)

theorem resolveLength_ethernet {name : StructName} {offset : Nat} {segment : Segment}
    (hether : segment.proto = .ethernet) :
    resolveLength order mem lib name offset segment =
      resolveNext order mem lib name offset segment := by
  simp [resolveLength, getVariableLength, hether]

theorem firstHeader_visited_tagged (hclean : Clean lib)
    (htag : etherType mem 0 (some .default) = type8021Q) :
    Visited order mem lib ethernetPacket firstHeader := by
  let segment : Segment := ⟨.ethernet, Proto.ethernet.member, none, some .vlan⟩
  have hsubType : segment.subType = firstHeader.subType mem := by
    simp [HeaderAt.subType, firstHeader, htag, segment]
  have hshape : segment.shape = firstHeader.shape mem :=
    Segment.shape_of_no_options rfl hsubType rfl rfl
  have hsize : firstHeader.size mem = 18 := (Segment.size_eq hshape).symm
  have hcast : resolveLastHeader order mem ⟨lib, ethernetPacket⟩ = .next ⟨lib, [] ++ [segment]⟩ := by
    have hlast : lib.lastHeader ethernetPacket = some (0, Proto.ethernet.segment) :=
      hclean.lastHeader_first (by decide)
    have hvlan : getSubType mem 0 Proto.ethernet.segment = some .vlan := by
      simp [getSubType, Proto.segment, Proto.defaultType, htag]
    simp only [resolveLastHeader, hlast, hvlan]
    exact (if_pos (by decide)).trans (castTo_of_declared (hclean.first vlanPacket (by decide)))
  have hstarts : StartsWithEthernet ([] ++ [segment]) := rfl
  refine Passed.visited_of_next ⟨firstHeader_not_unresolvable, hshape, ?_, hstarts, ?_⟩ hcast rfl
    .refl
  · have hlast : lib.lastHeader ([] ++ [segment]) = some (0, segment) :=
      hclean.lastHeader_first (by decide)
    have hvlan : getSubType mem 0 segment = some .vlan := rfl
    simp only [resolveLastHeader, hlast, hvlan]
    exact (if_neg (by decide)).trans (resolveLength_ethernet rfl)
  · intro proto hnext
    have hlt : totalSize ethernetPacket < firstHeader.offset + firstHeader.size mem := by
      rw [hsize]
      decide
    refine Ready.append (vlanPacket_ready hclean) ?_ ⟨rfl, Nat.le_of_lt hlt, fun _ => hlt⟩ hnext
    rw [hsize]
    rfl

theorem firstHeader_visited_untagged (hclean : Clean lib)
    (htag : etherType mem 0 (some .default) ≠ type8021Q) :
    Visited order mem lib ethernetPacket firstHeader := by
  have hsubType : Proto.ethernet.segment.subType = firstHeader.subType mem := by
    simp [HeaderAt.subType, firstHeader, htag, Proto.segment]
  have hshape : Proto.ethernet.segment.shape = firstHeader.shape mem :=
    Segment.shape_of_no_options rfl hsubType rfl rfl
  have hoffset : firstHeader.offset + firstHeader.size mem = totalSize ethernetPacket := by
    rw [← Segment.size_eq hshape]
    rfl
  have hpassed : Passed order mem lib [] Proto.ethernet.segment firstHeader := by
    refine ⟨firstHeader_not_unresolvable, hshape, ?_, rfl, ?_⟩
    · have hlast : lib.lastHeader ([] ++ [Proto.ethernet.segment]) =
          some (0, Proto.ethernet.segment) := hclean.lastHeader_first (by decide)
      have hdefault : getSubType mem 0 Proto.ethernet.segment = some .default := by
        simp [getSubType, Proto.segment, Proto.defaultType, htag]
      simp only [resolveLastHeader, hlast, hdefault]
      exact (if_neg (by decide)).trans (resolveLength_ethernet rfl)
    · intro proto hnext
      have hsome : firstHeader.next mem = some proto := by
        rw [resolveNextHeader_eq rfl hsubType (by decide)] at hnext
        exact Option.some.inj hnext
      have hfirst : ethernetPacket ++ [proto.segment] ∈ firstTypes := by
        have hmem := etherNext_mem hsome
        simp only [List.mem_cons, List.not_mem_nil, or_false] at hmem
        rcases hmem with rfl | rfl | rfl | rfl | rfl <;> decide
      refine ⟨lib, proto.segment, resolveNext_simple hnext (hclean.first _ hfirst), ?_, id,
        fun _ _ hlist => hlist⟩
      rw [hoffset]
      by_cases hip4 : proto = .ip4
      · subst hip4
        exact .outer hclean
      · exact .behind (hclean.arrived_ethernet hfirst hip4) rfl rfl rfl
          ⟨rfl, Nat.le_refl _, fun heq => absurd heq hip4⟩
  exact hpassed.visited

theorem firstHeader_visited (hclean : Clean lib) :
    Visited order mem lib ethernetPacket firstHeader := by
  by_cases htag : etherType mem 0 (some .default) = type8021Q
  · exact firstHeader_visited_tagged hclean htag
  · exact firstHeader_visited_untagged hclean htag

end First

/-! ## Following the chain -/

section Walk

variable {order : PairsOrder} {mem : Memory} {size fuel : Nat} {lib : Library} {name : StructName}
  {header : HeaderAt} {chain : List HeaderAt}

theorem At.visited (hat : At lib name header) : Visited order mem lib name header := by
  cases hat with
  | first hclean => exact firstHeader_visited hclean
  | outer hclean => exact outerHeader_visited hclean
  | behind harrived hproto hlength hoffset hbehind =>
      exact harrived.visited hproto hlength hoffset hbehind

/-- Every chain has its result. -/
theorem At.resolves (hat : At lib name header)
    (hchain : headerChain mem size fuel header = some chain) :
    ∃ result, Yields (resolveLastHeader order mem) ⟨lib, name⟩ result ∧
      Resolved mem lib (name.dropLast.map Segment.shape) chain result := by
  induction fuel generalizing lib name header chain with
  | zero => cases hchain
  | succ fuel ih =>
      rcases headerChain_cons hchain with ⟨hnone, rfl⟩ | ⟨proto, rest, hsome, rfl, hrest⟩
      · exact hat.visited.finish hnone
      · obtain ⟨lib', name', hleads, hat', hshapes, hgood, hkept⟩ := hat.visited.advance hsome
        obtain ⟨result, hyields, hresolved⟩ := ih hat' hrest
        rw [hshapes] at hresolved
        exact ⟨result, .of_reflTransGen hleads.to_reflTransGen hyields, hresolved.cons hgood hkept⟩

/-- And a result comes only with the end of a chain. -/
theorem At.exists_chain {result : DissectResult} (hat : At lib name header)
    (hrun : runSteps (resolveLastHeader order mem) fuel ⟨lib, name⟩ = some result) :
    ∃ size fuel chain, headerChain mem size fuel header = some chain := by
  induction fuel using Nat.strongRecOn generalizing lib name header with
  | ind fuel ih =>
      cases hnext : header.next mem with
      | none =>
          refine ⟨header.offset + header.size mem, 1, [header], ?_⟩
          simp [headerChain, hnext]
      | some proto =>
          obtain ⟨lib', name', hleads, hat', _⟩ := hat.visited.advance hnext
          obtain ⟨less, hless, hrest⟩ := runSteps_of_transGen hleads hrun
          obtain ⟨size, fuel', chain, hchain⟩ := ih less hless hat' hrest
          refine ⟨size, fuel' + 1, header :: chain, ?_⟩
          have hfits : header.offset + header.size mem ≤ size :=
            Nat.le_trans (Nat.le_add_right _ _) (headerChain_fits hchain)
          simp [headerChain, hnext, hfits, hchain]

theorem Clean.resolves (hclean : Clean lib)
    (hchain : headerChain mem size fuel firstHeader = some chain) :
    ∃ result, Gets order mem lib result ∧ Resolved mem lib [] chain result :=
  (At.first hclean).resolves hchain

end Walk

/-! ## Every packet -/

/-- The registries that the freshly loaded library gets to by dissecting packets, with
success or without, that have no IPv4 options but those right behind an untagged
Ethernet header. -/
inductive Reached : Library → Prop
  | fresh : Reached freshLibrary
  | get {lib : Library} {order : PairsOrder} {mem : Memory} {size : Nat} {chain : List HeaderAt}
      {result : DissectResult} (hreached : Reached lib) (hchain : headersOf mem size = some chain)
      (hspares : ∀ header ∈ chain, header.Spares mem) (hgets : Gets order mem lib result) :
      Reached result.lib

theorem Reached.clean {lib : Library} (hreached : Reached lib) : Clean lib := by
  induction hreached with
  | fresh => exact freshLibrary_clean
  | get _ hchain hspares hgets ih =>
      obtain ⟨result, hyields, hresolved⟩ := ih.resolves hchain
      rw [hgets.unique hyields]
      exact hresolved.kept.clean ih hspares

/-- `pkt:get()` returns a packet type whose headers start with Ethernet. -/
def GetsPacket (order : PairsOrder) (mem : Memory) (lib : Library) : Prop :=
  ∃ result name, Gets order mem lib result ∧ result.outcome = .ok name ∧ StartsWithEthernet name

/-- Whatever the packets before it were, within these limits, and in whichever order
the table of types is visited: a packet is dissected exactly if there is no header in
it that cannot be resolved. -/
theorem getsPacket_iff {lib : Library} (hreached : Reached lib) (order : PairsOrder) {mem : Memory}
    {size : Nat} {chain : List HeaderAt} (hchain : headersOf mem size = some chain) :
    GetsPacket order mem lib ↔ ∀ header ∈ chain, ¬ header.Unresolvable mem := by
  obtain ⟨result, hyields, hresolved⟩ := hreached.clean.resolves hchain
  rw [← hresolved.outcome]
  constructor
  · rintro ⟨result', name, hgets, hok, hname⟩
    obtain rfl := hgets.unique hyields
    exact ⟨name, hok, hname⟩
  · rintro ⟨name, hok, hname⟩
    exact ⟨result, name, hyields, hok, hname⟩

/-- A buffer that is zero but for some bytes. -/
def sampleMemory (bytes : List (Nat × UInt8)) : Memory := fun i => (bytes.lookup i).getD 0

/-- The keys in the order of their creation. -/
def creationOrder : PairsOrder := ⟨id, fun _ => .refl _⟩

/-- TCP with options in IPv4 with options, in VXLAN. -/
def nestedPacket : Memory :=
  sampleMemory [(12, 0x08), (14, 0x45), (23, 0x11), (36, 0x12), (37, 0xb5), (62, 0x08), (64, 0x46),
    (73, 0x06), (100, 0x60)]

theorem getsPacket_nested : ∃ chain, headersOf nestedPacket 112 = some chain ∧
    chain.map HeaderAt.proto = [.ethernet, .ip4, .udp, .vxlan, .ethernet, .ip4, .tcp] ∧
    GetsPacket creationOrder nestedPacket freshLibrary := by
  have hchain : headersOf nestedPacket 112 =
      some [⟨.ethernet, 0, true⟩, ⟨.ip4, 14, false⟩, ⟨.udp, 34, false⟩, ⟨.vxlan, 42, false⟩,
        ⟨.ethernet, 50, false⟩, ⟨.ip4, 64, false⟩, ⟨.tcp, 88, false⟩] := by
    decide
  exact ⟨_, hchain, rfl, (getsPacket_iff .fresh creationOrder hchain).mpr (by decide)⟩

/-- GRE in IPv4. -/
def grePacket : Memory := sampleMemory [(12, 0x08), (14, 0x45), (23, 0x2f)]

theorem not_getsPacket : ¬ ∀ (order : PairsOrder) (mem : Memory) (lib : Library) (size : Nat),
    Reached lib → (headersOf mem size).isSome → GetsPacket order mem lib := by
  intro halways
  obtain ⟨result, name, hgets, hok, _⟩ :=
    halways creationOrder grePacket freshLibrary 38 .fresh (by decide)
  have hrun : (runSteps (resolveLastHeader creationOrder grePacket) 3
      ⟨freshLibrary, ethernetPacket⟩).map (fun result => result.outcome.isOk) = some false := by
    decide +kernel
  obtain ⟨failed, hfailed, herror⟩ := Option.map_eq_some_iff.mp hrun
  obtain rfl : result = failed := hgets.unique ⟨3, hfailed⟩
  rw [hok] at herror
  cases herror

end Libmoon.Packet
