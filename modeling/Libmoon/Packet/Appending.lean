import Libmoon.Packet.Registry

/-! # Appending the next header

When all headers so far have been passed, the next one is appended: to a type that
exists, or to one that is created for it. Either way the packet ends up in a declared
struct whose argument list describes it.
-/

namespace Libmoon.Packet

open Foundation

/-- The bytes in front of what follows the headers. -/
def totalSize (name : StructName) : Nat := (name.map Segment.size).sum

theorem totalSize_concat (parent : StructName) (segment : Segment) :
    totalSize (parent ++ [segment]) = totalSize parent + segment.size := by
  simp [totalSize]

theorem memberAt_concat {parent : StructName} {segment : Segment} {offset : Nat}
    (hnew : segment.member ∉ parent.map Segment.member) :
    memberAt segment.member (parent ++ [segment]) offset =
      some (offset + totalSize parent, segment) := by
  induction parent generalizing offset with
  | nil => simp [memberAt, totalSize]
  | cons head rest ih =>
      simp only [List.map_cons, List.mem_cons, not_or] at hnew
      have hhead : head.member ≠ segment.member := fun heq => hnew.1 heq.symm
      simp only [List.cons_append, memberAt, hhead, if_false, ih hnew.2]
      simp [totalSize, Nat.add_assoc]

/-- The dissector finds the last header at its place in the packet. -/
theorem Library.lastHeader_concat {lib : Library} {parent : StructName} {segment : Segment}
    {args : List Arg} {data : Arg → Segment} {limit : Nat}
    (hargs : lib.getArgs (parent ++ [segment]) = some args)
    (hregular : Regular data limit ⟨parent ++ [segment], args⟩)
    (hdata : ∀ arg, (data arg).member = (lib.getHeaderData arg).member) :
    lib.lastHeader (parent ++ [segment]) = some (totalSize parent, segment) := by
  have hnodup := hregular.nodup
  obtain ⟨front, last, rfl, _, hlast, _, _⟩ := hregular.split
  have hmember : (lib.getHeaderData last).member = segment.member := by
    rw [← hdata, ← Segment.upToTcp_member, hlast, Segment.upToTcp_member]
  have hnew : segment.member ∉ parent.map Segment.member := by
    intro hmem
    rw [List.map_append, List.nodup_append] at hnodup
    exact hnodup.2.2 _ hmem _ (by simp) rfl
  simp [Library.lastHeader, hargs, hmember, memberAt_concat hnew]

/-- Without a TCP header the list describes the struct exactly. -/
theorem Regular.map_eq {data : Arg → Segment} {limit : Nat} {name : StructName} {args : List Arg}
    (hregular : Regular data limit ⟨name, args⟩) (hpassable : Passable name) :
    args.map data = name := by
  have hfits : (args.map data).map Segment.upToTcp = name.map Segment.upToTcp := hregular.fits
  clear hregular
  induction name generalizing args with
  | nil => simpa using hfits
  | cons segment rest ih =>
      cases args with
      | nil => cases hfits
      | cons arg args =>
          simp only [List.map_cons, List.cons.injEq] at hfits ⊢
          obtain ⟨hhead, hrest⟩ := hfits
          refine ⟨Segment.eq_of_upToTcp hhead (hpassable segment (by simp)).2, ih ?_ hrest⟩
          intro other hother
          exact hpassable other (by simp [hother])

/-! ## Types below a name -/

/-- The types that continue a name with a header of this protocol can be trusted. -/
def Below (lib : Library) (parent : StructName) (proto : Proto) : Prop :=
  ∀ entry ∈ lib.structs, ∀ segment rest, entry.name = parent ++ segment :: rest →
    segment.proto = proto → Passable entry.name.dropLast →
      Regular lib.getHeaderData lib.nextTable entry ∧ ∀ other ∈ segment :: rest, other.Plain

theorem Passable.concat {parent : StructName} {segment : Segment} (hparent : Passable parent)
    (hgre : segment.proto ≠ .gre) (htcp : segment.proto ≠ .tcp) :
    Passable (parent ++ [segment]) := by
  intro other hother
  rcases List.mem_append.mp hother with hmem | hlast
  · exact hparent other hmem
  · exact List.mem_singleton.mp hlast ▸ ⟨hgre, htcp⟩

/-- The packet starts with Ethernet. -/
def StartsWithEthernet (name : StructName) : Prop :=
  name.head?.map Segment.proto = some .ethernet

theorem StartsWithEthernet.concat {parent : StructName} (hparent : StartsWithEthernet parent)
    (segment : Segment) : StartsWithEthernet (parent ++ [segment]) := by
  cases parent with
  | nil => cases hparent
  | cons head rest => exact hparent

/-- All headers of the type have been passed, and the next one can be appended. -/
structure Ready (lib : Library) (name : StructName) : Prop where
  tidy : Tidy lib
  regular : ∃ args, lib.getArgs name = some args ∧
    Regular lib.getHeaderData lib.nextTable ⟨name, args⟩
  below : ∀ proto, Below lib name proto
  passable : Passable name
  ethernet : StartsWithEthernet name
  inner : name ≠ ip4Packet

/-- A header has been appended and has not been looked at yet. -/
structure Arrived (lib : Library) (parent : StructName) (segment : Segment) : Prop where
  tidy : Tidy lib
  declared : lib.Declared (parent ++ [segment])
  below : Below lib parent segment.proto
  passable : Passable parent
  ethernet : StartsWithEthernet parent

namespace Arrived

variable {lib : Library} {parent : StructName} {segment : Segment}

theorem entry (harrived : Arrived lib parent segment) :
    ∃ args, lib.getArgs (parent ++ [segment]) = some args ∧
      Regular lib.getHeaderData lib.nextTable ⟨parent ++ [segment], args⟩ ∧ segment.Plain := by
  obtain ⟨args, hargs⟩ := harrived.declared.getArgs
  have hpassable : Passable (parent ++ [segment]).dropLast := by
    simpa using harrived.passable
  obtain ⟨hregular, hplain⟩ :=
    harrived.below _ (Library.getArgs_mem hargs) segment [] rfl rfl hpassable
  exact ⟨args, hargs, hregular, hplain segment (by simp)⟩

theorem lastHeader (harrived : Arrived lib parent segment) :
    lib.lastHeader (parent ++ [segment]) = some (totalSize parent, segment) := by
  obtain ⟨args, hargs, hregular, _⟩ := harrived.entry
  exact Library.lastHeader_concat hargs hregular fun _ => rfl

/-- Once the header has been looked at, it has been passed. -/
theorem ready (harrived : Arrived lib parent segment) (hgre : segment.proto ≠ .gre)
    (htcp : segment.proto ≠ .tcp) (hinner : parent ++ [segment] ≠ ip4Packet) :
    Ready lib (parent ++ [segment]) := by
  obtain ⟨args, hargs, hregular, _⟩ := harrived.entry
  refine ⟨harrived.tidy, ⟨args, hargs, hregular⟩, ?_, harrived.passable.concat hgre htcp,
    harrived.ethernet.concat segment, hinner⟩
  intro proto entry hentry next rest hname _ hpassable
  have hsplit : entry.name = parent ++ segment :: next :: rest := by simpa using hname
  obtain ⟨hbelow, hplain⟩ := harrived.below entry hentry _ _ hsplit rfl hpassable
  exact ⟨hbelow, fun other hother => hplain other (by simp [hother])⟩

end Arrived

theorem outerLength_concat {name : StructName} {segment : Segment}
    (hlength : segment.proto = .ip4 → segment.length = none) :
    outerLength (name ++ [segment]) = outerLength name := by
  match name with
  | [] => rfl
  | [ether] =>
      simp only [List.cons_append, List.nil_append, outerLength]
      split
      next hip4 => exact hlength hip4.2
      next => rfl
  | ether :: second :: rest => rfl

theorem Library.outerArg_eq_some {lib : Library} {arg : Arg} (houter : lib.outerArg = some arg) :
    ∃ first ref, arg = .table ref ∧ lib.getArgs ip4Packet = some [first, .table ref] := by
  unfold Library.outerArg at houter
  split at houter
  next first ref hargs => exact ⟨first, ref, (Option.some.inj houter).symm, hargs⟩
  next => cases houter

theorem Library.outerArg_congr {lib lib' : Library}
    (hargs : lib'.getArgs ip4Packet = lib.getArgs ip4Packet) : lib'.outerArg = lib.outerArg := by
  simp only [Library.outerArg, hargs]

namespace Clean

variable {lib : Library}

theorem sound_of_getArgs (hclean : Clean lib) {name : StructName} {args : List Arg}
    (hargs : lib.getArgs name = some args) (hpassable : Passable name.dropLast) :
    Sound lib ⟨name, args⟩ :=
  hclean.sound _ (Library.getArgs_mem hargs) hpassable

theorem outerArg_allocated (hclean : Clean lib) {arg : Arg} (houter : lib.outerArg = some arg) :
    arg.Allocated lib.nextTable := by
  obtain ⟨first, ref, rfl, hargs⟩ := Library.outerArg_eq_some houter
  exact (hclean.sound_of_getArgs hargs (by decide)).regular.allocated _ (by simp)

end Clean

/-! ## A new type -/

section NewType

variable {lib : Library} {name : StructName} {args : List Arg} {proto : Proto}

/-- The header that is appended when no type with it exists. -/
def newSegment (name : StructName) (proto : Proto) : Segment :=
  ⟨proto, freshMember (name.map Segment.member) proto.member, none, proto.defaultType⟩

/-- The registry after that. -/
def Library.append (lib : Library) (name : StructName) (args : List Arg) (proto : Proto) :
    Library :=
  (lib.alloc ⟨proto, some (newSegment name proto).member, none, proto.defaultType⟩).declare
    (args ++ [.table lib.nextTable])

theorem newSegment_number {name : StructName}
    (hmembers : name.map Segment.member =
      numbered (name.map fun segment => segment.member.base)) (proto : Proto) :
    (newSegment name proto).member = ⟨.header proto,
      (name.map Segment.member).countP (·.base = .header proto) + 1⟩ := by
  simp only [newSegment, Proto.member]
  rw [hmembers, freshMember_numbered]

theorem Library.getHeaderData_append {arg : Arg} (halloc : arg.Allocated lib.nextTable) :
    (lib.append name args proto).getHeaderData arg = lib.getHeaderData arg :=
  Library.getHeaderData_alloc _ halloc

theorem Library.getHeaderData_append_new :
    (lib.append name args proto).getHeaderData (.table lib.nextTable) = newSegment name proto := by
  simp [Library.append, Library.declare, Library.alloc, Library.getHeaderData, newSegment]

variable (hregular : Regular lib.getHeaderData lib.nextTable ⟨name, args⟩)
  (hpassable : Passable name)

include hregular

theorem append_regular :
    Regular (lib.append name args proto).getHeaderData (lib.append name args proto).nextTable
      ⟨name ++ [newSegment name proto], args ++ [.table lib.nextTable]⟩ := by
  refine Regular.concat (hregular.congr ?_ (Nat.le_succ _)) ?_ (Nat.lt_succ_self _) ?_
  · intro arg harg
    rw [Library.getHeaderData_append (hregular.allocated arg harg)]
  · rw [Library.getHeaderData_append_new]
  · rw [newSegment_number hregular.members]

include hpassable

theorem append_structName :
    (lib.append name args proto).structName (args ++ [.table lib.nextTable]) =
      name ++ [newSegment name proto] := by
  have hmap : args.map (lib.append name args proto).getHeaderData = name := by
    rw [← hregular.map_eq hpassable]
    apply List.map_congr_left
    intro arg harg
    rw [hregular.map_eq hpassable]
    exact Library.getHeaderData_append (hregular.allocated arg harg)
  simp [Library.structName, hmap, Library.getHeaderData_append_new]

theorem append_entries {entry : Entry} (hentry : entry ∈ (lib.append name args proto).structs) :
    entry ∈ lib.structs ∨
      entry = ⟨name ++ [newSegment name proto], args ++ [.table lib.nextTable]⟩ := by
  rw [← append_structName hregular hpassable]
  exact (List.mem_append.mp hentry).imp_right List.mem_singleton.mp

theorem append_declared {other : StructName} :
    (lib.append name args proto).Declared other ↔
      lib.Declared other ∨ other = name ++ [newSegment name proto] := by
  rw [← append_structName hregular hpassable]
  exact Library.declared_declare

theorem createStack_append (hnew : ¬ lib.Declared (name ++ [newSegment name proto])) :
    (lib.alloc ⟨proto, some (newSegment name proto).member, none, proto.defaultType⟩).createStack
      (args ++ [.table lib.nextTable]) = some (lib.append name args proto) := by
  have hstruct : (lib.append name args proto).structName (args ++ [.table lib.nextTable]) =
      name ++ [newSegment name proto] := append_structName hregular hpassable
  apply Library.createStack_of_new
  · exact hstruct ▸ (append_regular hregular).nodup
  · exact hstruct ▸ hnew

/-- The types below the name can still be trusted. -/
theorem append_below {next : Proto} (hbelow : Below lib name next) :
    Below (lib.append name args proto) name next := by
  intro entry hentry segment rest hsplit hproto hentryPassable
  rcases append_entries hregular hpassable hentry with hold | rfl
  · obtain ⟨hentryRegular, hplain⟩ := hbelow entry hold segment rest hsplit hproto hentryPassable
    refine ⟨hentryRegular.congr ?_ (Nat.le_succ _), hplain⟩
    intro arg harg
    rw [Library.getHeaderData_append (hentryRegular.allocated arg harg)]
  · refine ⟨append_regular hregular, ?_⟩
    have hsegment : [newSegment name proto] = segment :: rest := List.append_cancel_left hsplit
    rw [← hsegment]
    intro other hother
    obtain rfl := List.mem_singleton.mp hother
    exact ⟨.inr rfl, rfl⟩

/-- The first TCP header of a type has the plain name. -/
theorem newSegment_tcp (htidy : Tidy lib) (hdeclared : lib.Declared name) :
    newSegment name .tcp = Proto.tcp.segment := by
  have hzero : (name.map Segment.member).countP (·.base = .header .tcp) = 0 := by
    rw [List.countP_eq_zero]
    intro member hmember hbase
    obtain ⟨segment, hsegment, rfl⟩ := List.mem_map.mp hmember
    obtain ⟨entry, hentry, rfl⟩ := hdeclared
    have hnamed := htidy.named entry hentry segment hsegment .tcp
    apply (hpassable segment hsegment).2
    apply hnamed
    rw [of_decide_eq_true hbase]
    rfl
  have hmember := newSegment_number hregular.members .tcp
  rw [hzero] at hmember
  rw [newSegment, Segment.mk.injEq]
  exact ⟨rfl, hmember, rfl, rfl⟩

theorem append_tidy (htidy : Tidy lib) (hdeclared : lib.Declared name) :
    Tidy (lib.append name args proto) := by
  have hnew : Regular (lib.append name args proto).getHeaderData _ _ := append_regular hregular
  refine (htidy.alloc _).declare hnew.allocated (append_structName hregular hpassable) ?_ ?_
  · intro segment hsegment
    rcases List.mem_append.mp hsegment with hold | hlast
    · obtain ⟨entry, hentry, rfl⟩ := hdeclared
      exact htidy.named entry hentry segment hold
    · obtain rfl := List.mem_singleton.mp hlast
      intro other hother
      rw [newSegment_number hregular.members] at hother
      exact Option.some.inj hother
  · intro htcp
    obtain rfl : proto = .tcp := htcp
    apply (append_declared hregular hpassable).mpr
    rw [newSegment_tcp hregular hpassable htidy hdeclared]
    exact .inr rfl

omit hregular hpassable in
/-- No list refers to the new table, and no list is replaced. -/
theorem append_preserves (htidy : Tidy lib) : lib.Preserves (lib.append name args proto) := by
  intro other list hlist
  obtain ⟨otherArgs, hargs, rfl⟩ := Option.map_eq_some_iff.mp hlist
  have hmem := Library.getArgs_mem hargs
  have hkept : (lib.append name args proto).getArgs other = some otherArgs := by
    rw [← hargs]
    exact Library.getArgs_declare ⟨_, hmem, rfl⟩
  rw [Library.headerList, hkept, Option.map_some, Option.some.injEq]
  apply List.map_congr_left
  intro arg harg
  exact Library.getHeaderData_append (htidy.allocated _ hmem arg harg)

theorem append_clean (hclean : Clean lib) (hargs : lib.getArgs name = some args)
    (hinner : name ≠ ip4Packet) : Clean (lib.append name args proto) := by
  have houter : (lib.append name args proto).outerArg = lib.outerArg := by
    apply Library.outerArg_congr
    exact Library.getArgs_declare (hclean.first ip4Packet (by decide))
  have hkeeps : lib.Keeps (lib.append name args proto) := by
    refine .of_data houter ?_ (Nat.le_succ _)
    intro arg halloc
    rw [Library.getHeaderData_append halloc]
  have hnew : lib.outerArg ≠ some (.table lib.nextTable) :=
    fun heq => Nat.lt_irrefl _ (hclean.outerArg_allocated heq)
  have htidy : Tidy (lib.append name args proto) :=
    append_tidy hregular hpassable hclean.tidy ⟨_, Library.getArgs_mem hargs, rfl⟩
  refine hclean.keeps hkeeps htidy
    (fun _ hold => (append_declared hregular hpassable).mpr (.inl hold)) ?_
  intro entry hentry
  refine (append_entries hregular hpassable hentry).imp_right ?_
  rintro rfl _
  -- the new list is the one of the parent and a table that nothing else refers to
  have hsound := (hclean.sound_of_getArgs hargs fun segment hsegment =>
    hpassable segment (List.dropLast_subset _ hsegment)).keeps hkeeps
  have hlength : outerLength (name ++ [newSegment name proto]) = outerLength name :=
    outerLength_concat fun _ => rfl
  refine ⟨?_, ?_, ?_⟩
  · rw [hlength]
    refine hsound.regular.concat ?_ (Nat.lt_succ_self _) ?_
    · rw [Library.dataWith, houter, if_neg hnew, Library.getHeaderData_append_new]
    · rw [newSegment_number hregular.members]
  · intro segment hsegment
    rw [leading, hlength, ← leading, List.drop_append] at hsegment
    rcases List.mem_append.mp hsegment with hold | hlast
    · exact hsound.plain segment hold
    · obtain rfl := List.mem_singleton.mp (List.mem_of_mem_drop hlast)
      exact ⟨.inr rfl, rfl⟩
  · intro arg harg harg'
    rcases List.mem_append.mp harg with hold | hlast
    · rw [hlength]
      exact .inr ((hsound.outer arg hold harg').resolve_left hinner)
    · obtain rfl := List.mem_singleton.mp hlast
      exact absurd (houter ▸ harg') hnew

end NewType

/-! ## The step -/

theorem castTo_of_declared {lib : Library} {name : StructName} (hdeclared : lib.Declared name) :
    castTo lib name = .next ⟨lib, name⟩ := if_pos hdeclared

theorem similar_iff {name key : StructName} {proto : Proto} :
    similar name proto key = true ↔
      ∃ segment, key = name ++ [segment] ∧ segment.proto = proto := by
  simp only [similar, Bool.and_eq_true, decide_eq_true_eq]
  constructor
  · rintro ⟨rfl, hlast⟩
    obtain ⟨segment, hsegment, hproto⟩ := Option.map_eq_some_iff.mp hlast
    exact ⟨segment, (List.dropLast_append_getLast? segment hsegment).symm, hproto⟩
  · rintro ⟨segment, rfl, rfl⟩
    simp

/-- The next header of a type that has been passed is appended. -/
theorem resolveNext_append {order : PairsOrder} {mem : Memory} {lib : Library} {name : StructName}
    {offset : Nat} {last : Segment} {proto : Proto} (hready : Ready lib name)
    (hnext : resolveNextHeader mem offset last = some (some proto)) :
    ∃ lib' segment, resolveNext order mem lib name offset last = .next ⟨lib', name ++ [segment]⟩ ∧
      segment.proto = proto ∧ segment.length = none ∧ Arrived lib' name segment ∧
      (Clean lib → Clean lib') ∧ lib.Preserves lib' := by
  obtain ⟨args, hargs, hregular⟩ := hready.regular
  have hbelow := hready.below
  have hpassable := hready.passable
  -- the simple struct, a similar one, or a new one
  simp only [resolveNext, hnext]
  split
  next hsimple =>
    exact ⟨lib, proto.segment, castTo_of_declared hsimple, rfl, rfl,
      ⟨hready.tidy, hsimple, hbelow _, hpassable, hready.ethernet⟩, id, fun _ _ hlist => hlist⟩
  next hsimple =>
    split
    next found hfound =>
      have hmem : found ∈ lib.structs.map Entry.name :=
        (order.perm _).mem_iff.mp (List.mem_of_find?_eq_some hfound)
      obtain ⟨entry, hentry, rfl⟩ := List.mem_map.mp hmem
      obtain ⟨segment, hname, hproto⟩ := similar_iff.mp (List.find?_some hfound)
      have hdeclared : lib.Declared (name ++ [segment]) := ⟨entry, hentry, hname⟩
      have harrived : Arrived lib name segment :=
        ⟨hready.tidy, hdeclared, hbelow _, hpassable, hready.ethernet⟩
      -- a TCP header is not found this way: the simple struct exists before those with options
      have hlength : segment.length = none := by
        obtain ⟨_, _, _, hplain⟩ := harrived.entry
        refine hplain.1.resolve_left fun htcp => hsimple ?_
        have hplainTcp := hready.tidy.tcp entry hentry (by simp [hname, htcp])
        rw [hname, List.dropLast_concat] at hplainTcp
        obtain rfl := hproto.symm.trans htcp
        exact hplainTcp
      rw [hname]
      exact ⟨lib, segment, castTo_of_declared hdeclared, hproto, hlength, harrived, id,
        fun _ _ hlist => hlist⟩
    next hnone =>
      -- no type is similar, so that the name of the new one is not taken either
      have hnew : ¬ lib.Declared (name ++ [newSegment name proto]) := by
        rintro ⟨entry, hentry, hname⟩
        have hvisited : entry.name ∈ order.visit (lib.structs.map Entry.name) :=
          (order.perm _).mem_iff.mpr (List.mem_map_of_mem hentry)
        exact List.find?_eq_none.mp hnone entry.name hvisited (similar_iff.mpr ⟨_, hname, rfl⟩)
      have hmembers : args.map (fun arg => (lib.getHeaderData arg).member) =
          name.map Segment.member := by
        rw [← hregular.map_eq hpassable, List.map_map]
        rfl
      have hcreate := createStack_append hregular hpassable hnew
      have hdeclared : (lib.append name args proto).Declared (name ++ [newSegment name proto]) :=
        (append_declared hregular hpassable).mpr (.inr rfl)
      have htidy : Tidy (lib.append name args proto) :=
        append_tidy hregular hpassable hready.tidy ⟨_, Library.getArgs_mem hargs, rfl⟩
      refine ⟨lib.append name args proto, newSegment name proto, ?_, rfl, rfl,
        ⟨htidy, hdeclared, append_below hregular hpassable (hbelow _), hpassable, hready.ethernet⟩,
        fun hclean => append_clean hregular hpassable hclean hargs hready.inner,
        append_preserves hready.tidy⟩
      simp only [hargs, Option.getD_some, hmembers]
      split
      next hfail => cases hcreate.symm.trans hfail
      next lib' hlib =>
        obtain rfl := Option.some.inj (hcreate.symm.trans hlib)
        exact castTo_of_declared hdeclared

end Libmoon.Packet
