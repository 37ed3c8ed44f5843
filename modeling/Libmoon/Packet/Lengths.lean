import Libmoon.Packet.Appending
import Libmoon.Packet.HeaderChain

/-! # Writing the length of a header

A header with options is passed in two visits: the first writes the length of the
options into the argument list of the type, creates the type of that length and casts
to it, the second finds the length in place. What the write does to other types
depends on which header it is.
-/

namespace Libmoon.Packet

open Foundation

/-! ## Options in the packet and in the model of the dissector -/

theorem getVariableLength_options (mem : Memory) {header : HeaderAt} {segment : Segment}
    (hproto : segment.proto = header.proto) :
    (getVariableLength mem header.offset segment = none ∧ header.options mem = 0) ∨
      ∃ len, getVariableLength mem header.offset segment = some len ∧
        len.toNat = header.options mem := by
  unfold HeaderAt.options getVariableLength
  rw [hproto]
  cases header.proto with
  | ip4 => exact .inr ⟨_, rfl, by dsimp only; omega⟩
  | tcp => exact .inr ⟨_, rfl, by dsimp only; omega⟩
  | _ => exact .inl ⟨rfl, rfl⟩

/-- Without options the length is not looked at any further. -/
theorem resolveLength_of_no_options {order : PairsOrder} {mem : Memory} {lib : Library}
    {name : StructName} {header : HeaderAt} {segment : Segment}
    (hproto : segment.proto = header.proto) (hzero : header.options mem = 0) :
    resolveLength order mem lib name header.offset segment =
      resolveNext order mem lib name header.offset segment := by
  unfold resolveLength
  rcases getVariableLength_options mem hproto with ⟨hnone, _⟩ | ⟨len, hlen, hoptions⟩
  · rw [hnone]
  · have hneg : ¬ len > 0 := by omega
    simp only [hlen, hneg, if_false]

theorem resolveLastHeader_of_ne {order : PairsOrder} {mem : Memory} {lib : Library}
    {name : StructName} {offset : Nat} {segment : Segment}
    (hlast : lib.lastHeader name = some (offset, segment)) (hproto : segment.proto ≠ .ethernet) :
    resolveLastHeader order mem ⟨lib, name⟩ =
      resolveLength order mem lib name offset segment := by
  have hsubType : getSubType mem offset segment = none := by
    unfold getSubType
    split
    next hether => exact absurd hether hproto
    next => rfl
  simp only [resolveLastHeader, hlast, hsubType]

/-- A header with options of a length. -/
def Segment.withLength (segment : Segment) (len : Nat) : Segment :=
  { segment with length := some len }

@[simp] theorem Segment.withLength_proto (segment : Segment) (len : Nat) :
    (segment.withLength len).proto = segment.proto := rfl

theorem Segment.withLength_eq_iff {segment : Segment} {len : Nat} :
    segment = segment.withLength len ↔ segment.length = some len := by
  cases segment
  simp [withLength]

theorem Segment.withLength_ne_ip4Packet {parent : StructName} {segment : Segment} {len : Nat} :
    parent ++ [segment.withLength len] ≠ ip4Packet := by
  intro heq
  have hlast := congrArg (fun name => name.getLast?.bind Segment.length) heq
  rw [List.getLast?_concat] at hlast
  cases hlast

/-- Create the type of an argument list if it does not exist. -/
def Library.ensure (lib : Library) (args : List Arg) : Library :=
  if lib.Declared (lib.structName args) then lib else lib.declare args

/-- The branch of a positive length, when the list then describes the type that the
packet is cast to. -/
theorem resolveLength_of_options (order : PairsOrder) {mem : Memory} {lib lib' : Library}
    {parent : StructName} {header : HeaderAt} {segment : Segment} {args : List Arg}
    (hproto : segment.proto = header.proto) (hpos : 0 < header.options mem)
    (hset : lib.setLastLength (parent ++ [segment]) (header.options mem) = lib')
    (hargs : lib'.getArgs (parent ++ [segment]) = some args)
    (hstruct : lib'.structName args =
      parent ++ [segment.withLength (header.options mem)])
    (hnodup : ((parent ++ [segment]).map Segment.member).Nodup) :
    (lib'.ensure args).Declared (parent ++ [segment.withLength (header.options mem)]) ∧
      resolveLength order mem lib (parent ++ [segment]) header.offset segment =
        if segment.length = some (header.options mem) then
          resolveNext order mem (lib'.ensure args) (parent ++ [segment]) header.offset segment
        else .next ⟨lib'.ensure args,
          parent ++ [segment.withLength (header.options mem)]⟩ := by
  have hdeclared : (lib'.ensure args).Declared
      (parent ++ [segment.withLength (header.options mem)]) := by
    unfold Library.ensure
    rw [hstruct]
    split
    next hold => exact hold
    next => exact Library.declared_declare.mpr (.inr hstruct.symm)
  refine ⟨hdeclared, ?_⟩
  -- `createStack` is called only if the name is free, and then it declares that name
  have hcreated : (if lib'.Declared (parent ++ [segment.withLength (header.options mem)])
      then some lib' else lib'.createStack args) = some (lib'.ensure args) := by
    unfold Library.ensure
    rw [hstruct]
    split
    next => rfl
    next hnew =>
      apply Library.createStack_of_new
      · rw [hstruct]
        simpa [Segment.withLength] using hnodup
      · rw [hstruct]
        exact hnew
  rcases getVariableLength_options mem hproto with ⟨_, hzero⟩ | ⟨len, hlen, hoptions⟩
  · exact absurd hzero (Nat.ne_of_gt hpos)
  · have hlenPos : len > 0 := by omega
    have hname : (parent ++ [segment]).modifyLast
        (fun other => { other with length := some (header.options mem) }) =
          parent ++ [segment.withLength (header.options mem)] := List.modifyLast_concat _ _ _
    have hsame : parent ++ [segment] = parent ++ [segment.withLength (header.options mem)] ↔
        segment.length = some (header.options mem) := by
      rw [List.append_cancel_left_eq, List.singleton_inj, Segment.withLength_eq_iff]
    simp only [resolveLength, hlen, hlenPos, if_true, hoptions, hset, hname, hargs,
      Option.getD_some, hcreated, ne_eq, hsame, ite_not, castTo_of_declared hdeclared]

/-- A length that is in place already: nothing is written and nothing is created. -/
theorem resolveLastHeader_of_length {order : PairsOrder} {mem : Memory} {lib : Library}
    {parent : StructName} {segment : Segment} {header : HeaderAt} {args : List Arg}
    (hargs : lib.getArgs (parent ++ [segment]) = some args)
    (hregular : Regular lib.getHeaderData lib.nextTable ⟨parent ++ [segment], args⟩)
    (hpassable : Passable (parent ++ [segment])) (hether : segment.proto ≠ .ethernet)
    (hproto : segment.proto = header.proto) (hoffset : totalSize parent = header.offset)
    (hlength : segment.length = some (header.options mem)) (hpos : 0 < header.options mem) :
    resolveLastHeader order mem ⟨lib, parent ++ [segment]⟩ =
      resolveNext order mem lib (parent ++ [segment]) header.offset segment := by
  have hlast := Library.lastHeader_concat hargs hregular fun _ => rfl
  have hmap := hregular.map_eq hpassable
  have hnodup := hregular.nodup
  obtain ⟨front, last, rfl, _, hdata, _, _⟩ := hregular.split
  have htcp : segment.proto ≠ .tcp := (hpassable segment (by simp)).2
  have hself : lib.setLastLength (parent ++ [segment]) (header.options mem) = lib :=
    Library.setLastLength_self hargs (Segment.eq_of_upToTcp hdata htcp ▸ hlength)
  have hsegment : segment.withLength (header.options mem) = segment :=
    (Segment.withLength_eq_iff.mpr hlength).symm
  have hensure : lib.ensure (front ++ [last]) = lib := by
    have hdeclared : lib.Declared (lib.structName (front ++ [last])) := by
      refine ⟨_, Library.getArgs_mem hargs, ?_⟩
      exact hmap.symm
    exact if_pos hdeclared
  rw [resolveLastHeader_of_ne hlast hether, hoffset,
    (resolveLength_of_options order hproto hpos hself hargs (by rw [hsegment]; exact hmap) hnodup).2,
    if_pos hlength, hensure]

theorem ensure_entries {lib : Library} {args : List Arg} {entry : Entry}
    (hentry : entry ∈ (lib.ensure args).structs) :
    entry ∈ lib.structs ∨ entry = ⟨lib.structName args, args⟩ := by
  unfold Library.ensure at hentry
  split at hentry
  next => exact .inl hentry
  next => exact (List.mem_append.mp hentry).imp_right List.mem_singleton.mp

theorem ensure_getHeaderData (lib : Library) (args : List Arg) :
    (lib.ensure args).getHeaderData = lib.getHeaderData := by
  unfold Library.ensure
  split <;> rfl

theorem ensure_nextTable (lib : Library) (args : List Arg) :
    (lib.ensure args).nextTable = lib.nextTable := by
  unfold Library.ensure
  split <;> rfl

theorem ensure_getArgs {lib : Library} {args : List Arg} {name : StructName}
    (hdeclared : lib.Declared name) : (lib.ensure args).getArgs name = lib.getArgs name := by
  unfold Library.ensure
  split
  next => rfl
  next => exact Library.getArgs_declare hdeclared

theorem ensure_declared {lib : Library} {args : List Arg} {name : StructName}
    (hdeclared : lib.Declared name) : (lib.ensure args).Declared name := by
  unfold Library.ensure
  split
  next => exact hdeclared
  next => exact Library.declared_declare.mpr (.inl hdeclared)

/-- The type with options has the members of the one without. -/
theorem ensure_tidy {lib : Library} {args : List Arg} {parent : StructName} {segment : Segment}
    {len : Nat} (htidy : Tidy lib) (halloc : ∀ arg ∈ args, arg.Allocated lib.nextTable)
    (hstruct : lib.structName args = parent ++ [segment.withLength len])
    (hdeclared : lib.Declared (parent ++ [segment])) : Tidy (lib.ensure args) := by
  unfold Library.ensure
  split
  next => exact htidy
  next =>
    obtain ⟨entry, hentry, hname⟩ := hdeclared
    refine htidy.declare halloc hstruct ?_ ?_
    · intro other hother
      have hnamed := htidy.named entry hentry
      rw [hname] at hnamed
      rcases List.mem_append.mp hother with hparent | hlast
      · exact hnamed other (List.mem_append_left _ hparent)
      · obtain rfl := List.mem_singleton.mp hlast
        exact hnamed segment (List.mem_append_right _ (List.mem_singleton_self _))
    · intro htcp
      have htcp' : segment.proto = .tcp := htcp
      have hplain := htidy.tcp entry hentry (by simp [hname, htcp'])
      rw [hname, List.dropLast_concat] at hplain
      exact Library.declared_declare.mpr (.inl hplain)

theorem ensure_clean {lib : Library} {args : List Arg} (hclean : Clean lib)
    (htidy : Tidy (lib.ensure args))
    (hsound : Passable (lib.structName args).dropLast → Sound lib ⟨lib.structName args, args⟩) :
    Clean (lib.ensure args) := by
  have houter : (lib.ensure args).outerArg = lib.outerArg :=
    Library.outerArg_congr (ensure_getArgs (hclean.first ip4Packet (by decide)))
  have hkeeps : lib.Keeps (lib.ensure args) := by
    refine .of_data houter (fun arg _ => ?_) (Nat.le_of_eq (ensure_nextTable lib args).symm)
    rw [ensure_getHeaderData]
  refine hclean.keeps hkeeps htidy (fun _ => ensure_declared) ?_
  intro entry hentry
  refine (ensure_entries hentry).imp_right ?_
  rintro rfl hpassable
  exact (hsound hpassable).keeps hkeeps

/-! ## The write -/

namespace LengthSet

variable {lib lib' : Library} {name parent : StructName} {segment : Segment} {len : Nat}
  {front : List Arg} {last : Arg} {ref : Nat}

/-- An element that existed is written to only if it is the last one. -/
theorem eq_last (hset : LengthSet lib lib' name len front last ref)
    (halloc : (Arg.table ref).Allocated lib.nextTable) : last = .table ref := by
  rcases hset.origin with hlast | ⟨_, href⟩
  · exact hlast
  · exact absurd (href ▸ halloc) (Nat.lt_irrefl _)

/-- Afterwards the list describes the type of the new length. The headers in front are
not written to, as they have other member names. -/
theorem describes (hset : LengthSet lib lib' name len front last ref)
    (hregular : Regular lib.getHeaderData lib.nextTable ⟨parent ++ [segment], front ++ [last]⟩)
    (hpassable : Passable parent) :
    lib'.structName (front ++ [.table ref]) = parent ++ [segment.withLength len] ∧
      Regular lib'.getHeaderData lib'.nextTable
        ⟨parent ++ [segment.withLength len], front ++ [.table ref]⟩ := by
  have hdata : ∀ arg ∈ front, lib'.getHeaderData arg = lib.getHeaderData arg := by
    intro arg harg
    have halloc : arg.Allocated lib.nextTable := hregular.allocated arg (by simp [harg])
    apply hset.data arg halloc
    rintro rfl
    exact hregular.member_ne harg (by rw [hset.eq_last halloc])
  obtain ⟨front', last', heq, hfront, hlast, _, hnumber⟩ := hregular.split
  obtain ⟨rfl, hlast'⟩ := List.append_inj' heq rfl
  obtain rfl := List.singleton_inj.mp hlast'
  have href : lib'.getHeaderData (.table ref) = segment.withLength len := by
    rw [hset.data_ref, ← Segment.upToTcp_setLength, hlast, Segment.upToTcp_setLength]
    rfl
  refine ⟨?_, Regular.concat (hfront.congr ?_ hset.limit) (by rw [href]) hset.allocated hnumber⟩
  · have hmap : front.map lib'.getHeaderData = parent := by
      rw [List.map_congr_left hdata]
      exact hfront.map_eq hpassable
    simp [Library.structName, hmap, href]
  · intro arg harg
    rw [hdata arg harg]

theorem outerArg_eq (hset : LengthSet lib lib' name len front last ref) (hne : ip4Packet ≠ name) :
    lib'.outerArg = lib.outerArg :=
  Library.outerArg_congr (hset.getArgs_of_ne ip4Packet hne)

end LengthSet

/-! ## IPv4 options -/

section Options

variable {mem : Memory} {lib : Library} {parent : StructName} {segment : Segment}
  {header : HeaderAt}

/-- No type below the parent has the length yet. The registry does not stay clean,
since the type without options now has the list of the one with options. -/
theorem Arrived.passOptions (order : PairsOrder) (harrived : Arrived lib parent segment)
    (hproto : segment.proto = header.proto) (hip4 : header.proto = .ip4)
    (hoffset : totalSize parent = header.offset) (hpos : 0 < header.options mem) :
    ∃ lib', resolveLastHeader order mem ⟨lib, parent ++ [segment]⟩ =
        .next ⟨lib', parent ++ [segment.withLength (header.options mem)]⟩ ∧
      Ready lib' (parent ++ [segment.withLength (header.options mem)]) := by
  obtain ⟨args, hargs, hregular, hplain⟩ := harrived.entry
  have hsegment : segment.proto = .ip4 := hproto.trans hip4
  have hnone : segment.length = none := hplain.1.resolve_left (by simp [hsegment])
  obtain ⟨front, last, rfl, _, _, hlastAlloc, _⟩ := hregular.split
  obtain ⟨ref, hset⟩ := Library.setLastLength_spec (header.options mem) hargs hlastAlloc
  generalize hlib' : lib.setLastLength (parent ++ [segment]) (header.options mem) = lib' at hset
  obtain ⟨hstruct, hregular'⟩ := hset.describes hregular harrived.passable
  -- types below the parent are plain, so none of them has a length here
  have hundeclared : ∀ entry ∈ lib'.structs, ∀ rest, Passable entry.name.dropLast →
      entry.name ≠ parent ++ segment.withLength (header.options mem) :: rest := by
    intro entry' hentry' rest hpassable hname
    obtain ⟨entry, hentry, heq⟩ := hset.exists_entry hentry'
    rw [← heq] at hpassable hname
    have hplain' := (harrived.below entry hentry _ _ hname rfl hpassable).2 _ List.mem_cons_self
    rcases hplain'.1 with htcp | hlength
    · cases hsegment.symm.trans htcp
    · cases hlength
  have hnew : ¬ lib'.Declared (lib'.structName (front ++ [.table ref])) := by
    rw [hstruct]
    rintro ⟨entry, hentry, hname⟩
    exact hundeclared entry hentry [] (by simpa [hname] using harrived.passable) hname
  obtain ⟨-, hstep⟩ :=
    resolveLength_of_options order hproto hpos hlib' hset.getArgs hstruct hregular.nodup
  have htidy := ensure_tidy (harrived.tidy.lengthSet hset) hregular'.allocated hstruct
    ((hset.declared _).mpr harrived.declared)
  rw [Library.ensure, if_neg hnew] at hstep htidy
  refine ⟨lib'.declare (front ++ [.table ref]), ?_, htidy, ⟨_, ?_, hregular'⟩, ?_, ?_,
    harrived.ethernet.concat _, Segment.withLength_ne_ip4Packet⟩
  · rw [resolveLastHeader_of_ne harrived.lastHeader (by simp [hsegment]), hoffset, hstep]
    simp [hnone]
  · rw [← hstruct]
    exact Library.getArgs_declare_new hnew
  · intro proto entry hentry next rest hname _ hpassable
    exfalso
    rcases List.mem_append.mp hentry with hold | hlast
    · exact hundeclared entry hold (next :: rest) hpassable (by simpa using hname)
    · obtain rfl := List.mem_singleton.mp hlast
      rw [hstruct] at hname
      simpa using congrArg List.length hname
  · apply harrived.passable.concat <;> simp [Segment.withLength, hsegment]

end Options

/-! ## IPv4 options right behind an untagged Ethernet header -/

section OuterOptions

variable {lib lib' : Library} {first last : Arg} {ref len : Nat}

/-- The list describes the type up to the length of the options. -/
theorem Clean.ip4Packet_entry (hclean : Clean lib) :
    ∃ first last length, lib.getArgs ip4Packet = some [first, last] ∧
      lib.getHeaderData last = { Proto.ip4.segment with length := length } ∧
      last.Allocated lib.nextTable ∧ Regular lib.getHeaderData lib.nextTable
        ⟨ethernetPacket ++ [{ Proto.ip4.segment with length := length }], [first, last]⟩ := by
  obtain ⟨args, hargs⟩ := (hclean.first ip4Packet (by decide)).getArgs
  have hregular : Regular (lib.dataWith none) lib.nextTable
      ⟨ethernetPacket ++ [Proto.ip4.segment], args⟩ :=
    (hclean.sound_of_getArgs hargs (by decide)).regular
  obtain ⟨front, last, rfl, hfront, hlast, hlastAlloc, hnumber⟩ := hregular.split
  have hlength : front.length = 1 := by
    simpa [ethernetPacket] using congrArg List.length hfront.fits
  obtain ⟨first, rfl⟩ := List.length_eq_one_iff.mp hlength
  -- the shared table is the last element, and the first has another member name
  have hfirst : lib.outerArg ≠ some first := by
    intro houter
    obtain ⟨first', ref, rfl, hargs'⟩ := Library.outerArg_eq_some houter
    have heq : [Arg.table ref, last] = [first', Arg.table ref] :=
      Option.some.inj (hargs.symm.trans hargs')
    simp only [List.cons.injEq, and_true] at heq
    exact hregular.member_ne (by simp)
      (congrArg (fun arg => (lib.dataWith none arg).member) heq.2.symm)
  have hfront' : Regular lib.getHeaderData lib.nextTable ⟨ethernetPacket, [first]⟩ := by
    apply hfront.congr _ (Nat.le_refl _)
    intro arg harg
    obtain rfl := List.mem_singleton.mp harg
    rw [Library.dataWith, if_neg hfirst]
  have hdata : lib.getHeaderData last =
      { Proto.ip4.segment with length := (lib.getHeaderData last).length } := by
    rw [← Segment.eq_of_upToTcp hlast (by decide)]
    unfold Library.dataWith
    split <;> rfl
  exact ⟨first, last, (lib.getHeaderData last).length, hargs, hdata, hlastAlloc,
    hfront'.concat (congrArg Segment.upToTcp hdata) hlastAlloc hnumber⟩

/-- The table of the options is written to, or it is created for the write. -/
theorem LengthSet.keeps_outer (hargs : lib.getArgs ip4Packet = some [first, last])
    (hset : LengthSet lib lib' ip4Packet len [first] last ref) :
    lib'.outerArg = some (.table ref) ∧ lib.Keeps lib' := by
  have houter' : lib'.outerArg = some (.table ref) := by
    simp [Library.outerArg, hset.getArgs]
  refine ⟨houter', ?_, ?_, hset.limit⟩
  · intro length arg halloc
    by_cases harg : arg = .table ref
    · subst harg
      obtain rfl := hset.eq_last halloc
      have houter : lib.outerArg = some (.table ref) := by simp [Library.outerArg, hargs]
      simp only [Library.dataWith, houter, houter', if_true, hset.data_ref]
    · have houter : lib.outerArg ≠ some arg := by
        intro houter
        obtain ⟨first', ref', rfl, hargs'⟩ := Library.outerArg_eq_some houter
        have heq := Option.some.inj (hargs.symm.trans hargs')
        simp only [List.cons.injEq, and_true] at heq
        rcases hset.origin with hlast | ⟨⟨proto, hlast⟩, _⟩
        · exact harg (heq.2.symm.trans hlast)
        · cases heq.2.symm.trans hlast
      have hne : lib'.outerArg ≠ some arg :=
        fun heq => harg (Option.some.inj (heq.symm.trans houter'))
      rw [Library.dataWith, Library.dataWith, if_neg houter, if_neg hne, hset.data arg halloc harg]
  · intro arg halloc houter
    obtain rfl := Option.some.inj (houter'.symm.trans houter)
    obtain rfl := hset.eq_last halloc
    simp [Library.outerArg, hargs]

theorem LengthSet.clean_outer (hclean : Clean lib)
    (hargs : lib.getArgs ip4Packet = some [first, last])
    (hset : LengthSet lib lib' ip4Packet len [first] last ref)
    (hdata : { lib.getHeaderData last with length := none } = Proto.ip4.segment) : Clean lib' := by
  obtain ⟨houter, hkeeps⟩ := hset.keeps_outer hargs
  refine hclean.keeps hkeeps (hclean.tidy.lengthSet hset) (fun name => (hset.declared name).mpr) ?_
  intro entry' hentry'
  refine (hset.entries entry' hentry').imp_right ?_
  rintro ⟨_, ⟨name, args⟩, hentry, rfl, rfl⟩ hpassable
  have hsound := (hclean.sound _ hentry hpassable).keeps hkeeps
  have hregular : Regular (lib'.dataWith none) lib'.nextTable
      ⟨ethernetPacket ++ [Proto.ip4.segment], args⟩ := hsound.regular
  refine ⟨hregular.modifyLast ?_ hset.allocated, hsound.plain, fun _ _ _ => .inl rfl⟩
  rw [Library.dataWith, if_pos houter, hset.data_ref, ← hdata]

variable {mem : Memory} {header : HeaderAt}

/-- The struct of an untagged IPv4 packet with options. -/
def ip4OptionsPacket (len : Nat) : StructName := ethernetPacket ++ [Proto.ip4.segment.withLength len]

theorem outerLength_ip4OptionsPacket (len : Nat) (rest : StructName) :
    outerLength (ip4OptionsPacket len ++ rest) = some len := by
  simp [outerLength, ip4OptionsPacket, ethernetPacket, Segment.withLength, Proto.segment]

theorem LengthSet.sound_outer (hargs : lib.getArgs ip4Packet = some [first, last])
    (hset : LengthSet lib lib' ip4Packet len [first] last ref)
    (hregular : Regular lib'.getHeaderData lib'.nextTable
      ⟨ip4OptionsPacket len, [first] ++ [.table ref]⟩) :
    Sound lib' ⟨ip4OptionsPacket len, [first] ++ [.table ref]⟩ := by
  obtain ⟨houter, -⟩ := hset.keeps_outer hargs
  have hlength : outerLength (ip4OptionsPacket len) = some len :=
    outerLength_ip4OptionsPacket len []
  refine ⟨hregular.congr ?_ (Nat.le_refl _), ?_, fun _ _ _ => .inr (by rw [hlength]; rfl)⟩
  · intro arg _
    rw [hlength]
    unfold Library.dataWith
    split
    next harg =>
      obtain rfl := Option.some.inj (houter.symm.trans harg)
      rw [hset.data_ref]
    next => rfl
  · intro segment hsegment
    rw [leading, hlength] at hsegment
    cases hsegment

theorem Library.dataWith_member (lib : Library) (length : Option Nat) (arg : Arg) :
    (lib.dataWith length arg).member = (lib.getHeaderData arg).member := by
  unfold Library.dataWith
  split <;> rfl

theorem Clean.lastHeader_ip4Packet (hclean : Clean lib) :
    lib.lastHeader ip4Packet = some (totalSize ethernetPacket, Proto.ip4.segment) := by
  obtain ⟨args, hargs⟩ := (hclean.first ip4Packet (by decide)).getArgs
  exact Library.lastHeader_concat hargs (hclean.sound_of_getArgs hargs (by decide)).regular
    (lib.dataWith_member _)

/-- With the length in the shared table, the types of that length can be trusted. -/
theorem Clean.ready_ip4OptionsPacket {arg : Arg} (hclean : Clean lib)
    (houter : lib.outerArg = some arg) (hlength : (lib.getHeaderData arg).length = some len)
    (hdeclared : lib.Declared (ip4OptionsPacket len)) : Ready lib (ip4OptionsPacket len) := by
  have hregular : ∀ entry ∈ lib.structs, ∀ rest, entry.name = ip4OptionsPacket len ++ rest →
      Passable entry.name.dropLast → Regular lib.getHeaderData lib.nextTable entry := by
    intro entry hentry rest hname hpassable
    apply (hclean.sound entry hentry hpassable).regular_of_length
    intro arg' _ houter'
    obtain rfl := Option.some.inj (houter.symm.trans houter')
    rw [hlength, hname, outerLength_ip4OptionsPacket]
  have hpassable : Passable (ip4OptionsPacket len) :=
    Passable.concat (by decide) (by simp [Proto.segment]) (by simp [Proto.segment])
  obtain ⟨args, hargs⟩ := hdeclared.getArgs
  refine ⟨hclean.tidy, ⟨args, hargs, hregular _ (Library.getArgs_mem hargs) [] (by simp) ?_⟩, ?_,
    hpassable, rfl, Segment.withLength_ne_ip4Packet⟩
  · exact fun segment hsegment => hpassable segment (List.dropLast_subset _ hsegment)
  · intro proto entry hentry next rest hname _ hentryPassable
    refine ⟨hregular entry hentry _ hname hentryPassable, ?_⟩
    have hplain := (hclean.sound entry hentry hentryPassable).plain
    rw [leading, hname, outerLength_ip4OptionsPacket] at hplain
    exact hplain

variable {mem : Memory} {header : HeaderAt}

/-- All types with these options share the table, so that they can be trusted from
here on if their name has the length that is written, and the registry stays clean. -/
theorem Clean.passOptions (order : PairsOrder) (hclean : Clean lib) (hip4 : header.proto = .ip4)
    (hoffset : totalSize ethernetPacket = header.offset) (hpos : 0 < header.options mem) :
    ∃ lib', resolveLastHeader order mem ⟨lib, ip4Packet⟩ =
        .next ⟨lib', ip4OptionsPacket (header.options mem)⟩ ∧
      Ready lib' (ip4OptionsPacket (header.options mem)) ∧ Clean lib' := by
  obtain ⟨first, last, length, hargs, hdata, hlastAlloc, hregular⟩ := hclean.ip4Packet_entry
  have hargs' : lib.getArgs ip4Packet = some ([first] ++ [last]) := hargs
  obtain ⟨ref, hset⟩ := Library.setLastLength_spec (header.options mem) hargs' hlastAlloc
  generalize hlib₁ : lib.setLastLength ip4Packet (header.options mem) = lib₁ at hset
  have hclean₁ : Clean lib₁ := hset.clean_outer hclean hargs (by rw [hdata]; rfl)
  obtain ⟨hstruct, hregular₁⟩ := hset.describes hregular (by decide)
  have hproto : Proto.ip4.segment.proto = header.proto := hip4.symm
  obtain ⟨hdeclared, hstep⟩ :=
    resolveLength_of_options order hproto hpos hlib₁ hset.getArgs hstruct (by decide)
  -- the type of this length may exist from an earlier packet, with the same table
  have hclean₂ : Clean (lib₁.ensure ([first] ++ [.table ref])) := by
    have hplain : lib₁.structName ([first] ++ [.table ref]) =
        ethernetPacket ++ [Proto.ip4.segment.withLength (header.options mem)] := hstruct
    apply ensure_clean hclean₁ (ensure_tidy hclean₁.tidy hregular₁.allocated hplain
      (hclean₁.first ip4Packet (by decide)))
    intro _
    rw [hstruct]
    exact hset.sound_outer hargs hregular₁
  have houter₂ : (lib₁.ensure ([first] ++ [.table ref])).outerArg = some (.table ref) := by
    rw [Library.outerArg_congr (ensure_getArgs (hclean₁.first ip4Packet (by decide)))]
    exact (hset.keeps_outer hargs).1
  refine ⟨lib₁.ensure ([first] ++ [.table ref]), ?_, ?_, hclean₂⟩
  · rw [resolveLastHeader_of_ne hclean.lastHeader_ip4Packet (by decide), hoffset]
    exact hstep
  · apply hclean₂.ready_ip4OptionsPacket houter₂ _ hdeclared
    rw [ensure_getHeaderData, hset.data_ref]

end OuterOptions

/-! ## TCP options -/

section TcpOptions

variable {lib lib' : Library} {parent : StructName} {segment : Segment} {args front : List Arg}
  {last : Arg} {ref len : Nat}

theorem Segment.upToTcp_withLength (htcp : segment.proto = .tcp) (length : Option Nat) :
    { segment with length := length }.upToTcp = segment.upToTcp := by
  simp [Segment.upToTcp, htcp]

theorem ip4Packet_ne_of_tcp (htcp : segment.proto = .tcp) : ip4Packet ≠ parent ++ [segment] := by
  intro heq
  have hlast := congrArg (fun name => name.getLast?.map Segment.proto) heq
  rw [List.getLast?_concat, Option.map_some, htcp] at hlast
  cases hlast

theorem LengthSet.data_tcp (hset : LengthSet lib lib' (parent ++ [segment]) len front last ref)
    (htcp : (lib.getHeaderData last).proto = .tcp) {arg : Arg}
    (halloc : arg.Allocated lib.nextTable) :
    (lib'.getHeaderData arg).upToTcp = (lib.getHeaderData arg).upToTcp := by
  by_cases harg : arg = .table ref
  · subst harg
    obtain rfl := hset.eq_last halloc
    rw [hset.data_ref, Segment.upToTcp_withLength htcp]
  · rw [hset.data arg halloc harg]

/-- A type with TCP options is as sound as the one without. -/
theorem Sound.withTcpLength (htcp : segment.proto = .tcp)
    (hsound : Sound lib ⟨parent ++ [segment], args⟩) :
    Sound lib ⟨parent ++ [segment.withLength len], args⟩ := by
  have hlength : outerLength (parent ++ [segment.withLength len]) =
      outerLength (parent ++ [segment]) := by
    rw [outerLength_concat, outerLength_concat] <;> simp [htcp]
  obtain ⟨hregular, hplain, houter⟩ := hsound
  refine ⟨?_, ?_, ?_⟩
  · obtain ⟨front, last, rfl, hfront, hlast, halloc, hnumber⟩ := hregular.split
    rw [hlength]
    exact hfront.concat (hlast.trans (Segment.upToTcp_withLength htcp _).symm) halloc hnumber
  · intro other hother
    simp only [leading, hlength, List.drop_append] at hplain hother
    rcases List.mem_append.mp hother with hparent | hlast
    · exact hplain other (List.mem_append_left _ hparent)
    · generalize (if (outerLength (parent ++ [segment])).isSome then 2 else 1) -
        parent.length = depth at hplain hlast
      cases depth with
      | zero =>
          obtain rfl := List.mem_singleton.mp hlast
          have hsegment := hplain segment (List.mem_append_right _ (by simp))
          exact ⟨.inl htcp, hsegment.2⟩
      | succ depth => simp at hlast
  · intro arg harg harg'
    rw [hlength]
    exact .inr ((houter arg harg harg').resolve_left (ip4Packet_ne_of_tcp htcp).symm)

theorem LengthSet.clean_tcp (hclean : Clean lib)
    (hset : LengthSet lib lib' (parent ++ [segment]) len front last ref)
    (htcp : segment.proto = .tcp)
    (hlast : (lib.getHeaderData last).upToTcp = segment.upToTcp) : Clean lib' := by
  have hlastTcp : (lib.getHeaderData last).proto = .tcp := by
    rw [← Segment.upToTcp_proto, hlast, Segment.upToTcp_proto, htcp]
  have houter := hset.outerArg_eq (ip4Packet_ne_of_tcp htcp)
  have hkeeps : lib.Keeps lib' :=
    .of_data houter (fun _ halloc => hset.data_tcp hlastTcp halloc) hset.limit
  refine hclean.keeps hkeeps (hclean.tidy.lengthSet hset) (fun name => (hset.declared name).mpr) ?_
  intro entry' hentry'
  refine (hset.entries entry' hentry').imp_right ?_
  rintro ⟨hnew, ⟨name, args⟩, hentry, rfl, rfl⟩ hpassable
  have hsound := (hclean.sound _ hentry hpassable).keeps hkeeps
  -- a list is changed only to hold a table that is new
  have hne : lib'.outerArg ≠ some (.table ref) := by
    intro heq
    have halloc := hclean.outerArg_allocated (houter ▸ heq)
    exact Nat.lt_irrefl _ (hnew ▸ halloc)
  obtain ⟨front', last', rfl, hfront, _, _, hnumber⟩ := hsound.regular.split
  simp only [List.modifyLast_concat]
  refine ⟨hfront.concat ?_ hset.allocated hnumber, hsound.plain, ?_⟩
  · rw [Library.dataWith, if_neg hne, hset.data_ref, Segment.upToTcp_withLength hlastTcp, hlast]
  · intro arg harg harg'
    rcases List.mem_append.mp harg with hold | hlast
    · exact hsound.outer arg (List.mem_append_left _ hold) harg'
    · exact absurd (List.mem_singleton.mp hlast ▸ harg') hne

theorem LengthSet.below_tcp (hset : LengthSet lib lib' (parent ++ [segment]) len front last ref)
    (htcp : segment.proto = .tcp) (hlast : (lib.getHeaderData last).upToTcp = segment.upToTcp)
    (hbelow : Below lib parent segment.proto) : Below lib' parent segment.proto := by
  have hlastTcp : (lib.getHeaderData last).proto = .tcp := by
    rw [← Segment.upToTcp_proto, hlast, Segment.upToTcp_proto, htcp]
  have hregular : ∀ entry, Regular lib.getHeaderData lib.nextTable entry →
      Regular lib'.getHeaderData lib'.nextTable entry := by
    intro entry hregular
    apply hregular.congr _ hset.limit
    exact fun arg harg => hset.data_tcp hlastTcp (hregular.allocated arg harg)
  intro entry' hentry' next rest hname hproto hpassable
  rcases hset.entries entry' hentry' with hold | ⟨_, ⟨name, args⟩, hentry, rfl, rfl⟩
  · obtain ⟨hentryRegular, hplain⟩ := hbelow entry' hold next rest hname hproto hpassable
    exact ⟨hregular entry' hentryRegular, hplain⟩
  · obtain ⟨hentryRegular, hplain⟩ := hbelow _ hentry next rest hname hproto hpassable
    refine ⟨(hregular _ hentryRegular).modifyLast ?_ hset.allocated, hplain⟩
    rw [hset.data_ref, Segment.upToTcp_withLength hlastTcp, hlast]

variable {mem : Memory} {header : HeaderAt}

/-- The length is written on every visit, and the visit ends with the type of that
length. -/
theorem Arrived.passTcp (order : PairsOrder) (harrived : Arrived lib parent segment)
    (hproto : segment.proto = header.proto) (htcp : header.proto = .tcp)
    (hoffset : totalSize parent = header.offset) (hpos : 0 < header.options mem) :
    ∃ lib', Arrived lib' parent (segment.withLength (header.options mem)) ∧
      (Clean lib → Clean lib') ∧
      resolveLastHeader order mem ⟨lib, parent ++ [segment]⟩ =
        if segment.length = some (header.options mem) then .done ⟨.ok (parent ++ [segment]), lib'⟩
        else .next ⟨lib', parent ++ [segment.withLength (header.options mem)]⟩ := by
  obtain ⟨args, hargs, hregular, hplain⟩ := harrived.entry
  have hsegment : segment.proto = .tcp := hproto.trans htcp
  have hnodup := hregular.nodup
  obtain ⟨front, last, rfl, _, hlast, hlastAlloc, _⟩ := hregular.split
  obtain ⟨ref, hset⟩ := Library.setLastLength_spec (header.options mem) hargs hlastAlloc
  generalize hlib₁ : lib.setLastLength (parent ++ [segment]) (header.options mem) = lib₁ at hset
  obtain ⟨hstruct, hregular₁⟩ := hset.describes hregular harrived.passable
  obtain ⟨hdeclared, hstep⟩ :=
    resolveLength_of_options order hproto hpos hlib₁ hset.getArgs hstruct hnodup
  have htidy := ensure_tidy (harrived.tidy.lengthSet hset) hregular₁.allocated hstruct
    ((hset.declared _).mpr harrived.declared)
  refine ⟨lib₁.ensure (front ++ [.table ref]),
    ⟨htidy, hdeclared, ?_, harrived.passable, harrived.ethernet⟩, ?_, ?_⟩
  · intro entry hentry next rest hname hnext hpassable
    rw [ensure_getHeaderData, ensure_nextTable]
    -- the entry was there before, or it is the one with options
    rcases ensure_entries hentry with hold | rfl
    · exact hset.below_tcp hsegment hlast harrived.below entry hold next rest hname hnext hpassable
    · rw [hstruct] at hname ⊢
      refine ⟨hregular₁, ?_⟩
      have heq : [segment.withLength (header.options mem)] = next :: rest :=
        List.append_cancel_left hname
      rw [← heq]
      intro other hother
      obtain rfl := List.mem_singleton.mp hother
      exact ⟨.inl hsegment, hplain.2⟩
  · intro hclean
    have hclean₁ := hset.clean_tcp hclean hsegment hlast
    apply ensure_clean hclean₁ htidy
    intro _
    rw [hstruct]
    exact (hclean₁.sound_of_getArgs hset.getArgs (by simpa using harrived.passable)).withTcpLength
      hsegment
  · have hnext : resolveNextHeader mem header.offset segment = some none := by
      simp [resolveNextHeader, hsegment]
    rw [resolveLastHeader_of_ne harrived.lastHeader (by simp [hsegment]), hoffset, hstep]
    simp only [resolveNext, hnext]

end TcpOptions

end Libmoon.Packet
