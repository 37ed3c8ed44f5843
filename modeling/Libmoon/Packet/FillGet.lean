import Libmoon.Packet.HeaderLaws
import Libmoon.Packet.SetLength

/-! # Whole packets

`pkt:get()` collects the fields of all headers in one table, and `pkt:fill` distributes such
a table over the headers. Filling a packet with what has been read from another one of the
same type copies its headers.
-/

namespace Libmoon.Packet

open Foundation

/-- `mergeTables(namedArgs, v:get(member))`. -/
def mergeGet (mem : Memory) (base : Nat) (name : String) (args : NamedArgs)
    (getters : List (String × Getter)) : NamedArgs :=
  getters.foldl (fun args field => args.set (name ++ field.1) (field.2 mem base)) args

/-- The loop of `packetGet`. -/
def getHeaders (env : Environment) (mem : Memory) :
    Nat → NamedArgs → List HeaderData → Option NamedArgs
  | _, args, [] => some args
  | base, args, header :: rest => do
      let fields ← header.fields env
      getHeaders env mem (base + header.size) (mergeGet mem base header.name args fields.get) rest

/-- The setters that a header's `fill` calls. -/
def runSetters (base : Nat) (name : String) (args : NamedArgs) :
    List (String × Setter) → Memory → Option Memory
  | [], mem => some mem
  | (field, setter) :: rest, mem => do
      let mem ← setter (args (name ++ field)) mem base
      runSetters base name args rest mem

/-- The loop of `packetFill`. The default addresses of a header are in the table before its
first setter is called; the setters in front of them look at other arguments. -/
def fillHeaders (env : Environment) :
    Nat → NamedArgs → List HeaderData → Memory → Option Memory
  | _, _, [], mem => some mem
  | accumulatedLength, args, header :: rest, mem => do
      let fields ← header.fields env
      let args ← header.setDefaultNamedArgs args (rest.head?.map HeaderData.proto)
        accumulatedLength header.size
      let args := header.setDefaultAddresses args
      let mem ← runSetters accumulatedLength header.name args fields.fill mem
      fillHeaders env (accumulatedLength + header.size) args rest mem

namespace PacketType

/-- `pkt:get()`. -/
def get (env : Environment) (type : PacketType) (mem : Memory) : Option NamedArgs :=
  if type.Hides "get" ∨ type.Hides "getArgs" ∨ type.Hides "getHeaders" then none
  else getHeaders env mem 0 (fun _ => none) type.headers

/-- `pkt:fill(args)`. -/
def fill (env : Environment) (type : PacketType) (args : NamedArgs) (mem : Memory) :
    Option Memory :=
  if type.Hides "fill" ∨ type.Hides "getHeaders" ∨ type.Hides "getArgs" then none
  else fillHeaders env 0 args type.headers mem

end PacketType

/-- The name of a header in the arguments of `createStack`. -/
def Proto.keyword : Proto → String
  | .ethernet => "eth"
  | .ip4 => "ip4"
  | .ip6 => "ip6"
  | .arp => "arp"
  | .icmp => "icmp"
  | .udp => "udp"
  | .tcp => "tcp"
  | .ptp => "ptp"
  | .vxlan => "vxlan"
  | .esp => "esp"
  | .ah => "ah"
  | .dns => "dns"
  | .ipfix => "ipfix"
  | .sflow => "sflow"
  | .lacp => "lacp"
  | .gre => "gre"

/-- A header of the kinds considered here, without a variable part and called after its
protocol, perhaps with a number behind it. -/
structure HeaderData.Plain (header : HeaderData) : Prop where
  proto : header.proto ∈ [Proto.ethernet, .ip4, .ip6, .udp, .tcp, .arp, .icmp, .vxlan, .gre, .esp,
    .ipfix]
  subType : header.subType = header.proto.defaultType
  length : header.length = none
  name : ∃ digits : List Char, (∀ digit ∈ digits, digit.isDigit) ∧
    header.name = header.proto.keyword ++ String.ofList digits

theorem HeaderData.Plain.roundTrip {env : Environment} {header : HeaderData}
    (hpton : ParsesPreferredForm env.inetPton) (hplain : header.Plain) :
    ∃ fields, header.fields env = some fields ∧ fields.RoundTrip header.size := by
  obtain ⟨hproto, hsubType, hlength, _⟩ := hplain
  rw [HeaderData.size, hsubType, hlength]
  unfold HeaderData.fields
  rw [hsubType]
  simp only [List.mem_cons, List.not_mem_nil, or_false] at hproto
  rcases hproto with h | h | h | h | h | h | h | h | h | h | h <;> rw [h]
  · exact ⟨_, rfl, EtherHeader.roundTrip⟩
  · exact ⟨_, rfl, Ip4Header.roundTrip⟩
  · exact ⟨_, rfl, Ip6Header.roundTrip hpton⟩
  · exact ⟨_, rfl, UdpHeader.roundTrip⟩
  · exact ⟨_, rfl, TcpHeader.roundTrip⟩
  · exact ⟨_, rfl, ArpHeader.roundTrip⟩
  · exact ⟨_, rfl, IcmpHeader.roundTrip⟩
  · exact ⟨_, rfl, VxlanHeader.roundTrip⟩
  · exact ⟨_, rfl, GreHeader.roundTrip⟩
  · exact ⟨_, rfl, EspHeader.roundTrip env⟩
  · exact ⟨_, rfl, IpfixHeader.roundTrip⟩

/-! ## Keys -/

theorem not_isUpper_of_isDigit {char : Char} (hdigit : char.isDigit) : ¬ char.isUpper := by
  intro hupper
  have hlow : 'A'.val ≤ char.val := (of_decide_eq_true hupper).1
  have hhigh : char.val ≤ '9'.val := of_decide_eq_true (Bool.and_eq_true_iff.mp hdigit).2
  exact absurd (UInt32.le_trans hlow hhigh) (by decide)

/-- The name of a member has no capital letters. -/
theorem HeaderData.Plain.name_lower {header : HeaderData} (hplain : header.Plain) :
    ∀ char ∈ header.name.toList, ¬ char.isUpper := by
  obtain ⟨digits, hdigits, hname⟩ := hplain.name
  rw [hname, String.toList_append, String.toList_ofList]
  intro char hchar
  rcases List.mem_append.mp hchar with hkeyword | hdigit
  · have hlower : header.proto.keyword.toList.all (!·.isUpper) = true := by
      cases header.proto <;> decide
    simpa using List.all_eq_true.mp hlower char hkeyword
  · exact not_isUpper_of_isDigit (hdigits char hdigit)

theorem takeWhile_key {name field : String} (hname : ∀ char ∈ name.toList, ¬ char.isUpper)
    (hfield : Capital field) : (name ++ field).toList.takeWhile (!·.isUpper) = name.toList := by
  obtain ⟨first, rest, hfield, hfirst⟩ := hfield
  rw [String.toList_append, List.takeWhile_append_of_pos (by simpa using hname), hfield]
  simp [hfirst]

/-- The key of a field tells the member and the field. -/
theorem key_inj {name name' field field' : String}
    (hname : ∀ char ∈ name.toList, ¬ char.isUpper) (hname' : ∀ char ∈ name'.toList, ¬ char.isUpper)
    (hfield : Capital field) (hfield' : Capital field') (heq : name ++ field = name' ++ field') :
    name = name' ∧ field = field' := by
  have hnames : name = name' := by
    apply String.toList_inj.mp
    rw [← takeWhile_key hname hfield, heq, takeWhile_key hname' hfield']
  subst hnames
  exact ⟨rfl, String.append_right_inj name |>.mp heq⟩

/-! ## The table -/

section Table

variable {mem : Memory} {base : Nat} {name : String} {args : NamedArgs}

theorem mergeGet_of_ne {getters : List (String × Getter)} {key : String}
    (hkey : ∀ field ∈ getters, key ≠ name ++ field.1) :
    mergeGet mem base name args getters key = args key := by
  induction getters generalizing args with
  | nil => rfl
  | cons field rest ih =>
      rw [mergeGet, List.foldl_cons]
      change mergeGet mem base name _ rest key = _
      rw [ih fun other hother => hkey other (List.mem_cons_of_mem _ hother),
        NamedArgs.set_of_ne (hkey field List.mem_cons_self)]

/-- A field that is not read keeps its entry. -/
theorem mergeGet_of_not_mem {getters : List (String × Getter)} {field : String}
    (hfield : field ∉ getters.map Prod.fst) :
    mergeGet mem base name args getters (name ++ field) = args (name ++ field) := by
  apply mergeGet_of_ne
  intro other hother heq
  rw [String.append_right_inj name |>.mp heq] at hfield
  exact hfield (List.mem_map_of_mem hother)

theorem mergeGet_of_mem {getters : List (String × Getter)} {field : String × Getter}
    (hnames : (getters.map Prod.fst).Nodup) (hfield : field ∈ getters) :
    mergeGet mem base name args getters (name ++ field.1) = some (field.2 mem base) := by
  induction getters generalizing args with
  | nil => cases hfield
  | cons first rest ih =>
      rw [List.map_cons, List.nodup_cons] at hnames
      rw [mergeGet, List.foldl_cons]
      change mergeGet mem base name _ rest _ = _
      rcases List.mem_cons.mp hfield with rfl | hrest
      · rw [mergeGet_of_ne, NamedArgs.set, Function.update_self]
        intro other hother heq
        apply hnames.1
        rw [String.append_right_inj name |>.mp heq]
        exact List.mem_map_of_mem hother
      · exact ih hnames.2 hrest

end Table

/-- The table holds the fields of the headers from an address on. -/
def Describes (env : Environment) (mem : Memory) (base : Nat) (headers : List HeaderData)
    (args : NamedArgs) : Prop :=
  ∀ before header after fields, headers = before ++ header :: after →
    header.fields env = some fields → ∀ field ∈ fields.get,
      args (header.name ++ field.1) = some (field.2 mem (base + structSize before))

theorem Describes.head {env : Environment} {mem : Memory} {base : Nat} {header : HeaderData}
    {rest : List HeaderData} {args : NamedArgs} {fields : HeaderFields}
    (hdescribes : Describes env mem base (header :: rest) args)
    (hfields : header.fields env = some fields) :
    ∀ field ∈ fields.get, args (header.name ++ field.1) = some (field.2 mem base) :=
  hdescribes [] header rest fields rfl hfields

theorem Describes.tail {env : Environment} {mem : Memory} {base : Nat} {header : HeaderData}
    {rest : List HeaderData} {args : NamedArgs}
    (hdescribes : Describes env mem base (header :: rest) args) :
    Describes env mem (base + header.size) rest args := by
  intro before other after fields hsplit hfields field hfield
  have hvalue := hdescribes (header :: before) other after fields
    (by rw [hsplit, List.cons_append]) hfields field hfield
  rw [hvalue, structSize_cons, Nat.add_assoc]

/-- What `get` returns describes the packet. -/
theorem getHeaders_describes {env : Environment} (hpton : ParsesPreferredForm env.inetPton)
    (mem : Memory) (base : Nat) (args : NamedArgs) {headers : List HeaderData}
    (hplain : ∀ header ∈ headers, header.Plain) (hnames : (headers.map HeaderData.name).Nodup) :
    ∃ args', getHeaders env mem base args headers = some args' ∧
      (∀ key, (∀ header ∈ headers, ∀ field, Capital field → key ≠ header.name ++ field) →
        args' key = args key) ∧
      Describes env mem base headers args' := by
  induction headers generalizing base args with
  | nil =>
      refine ⟨args, rfl, fun _ _ => rfl, ?_⟩
      intro before header after fields hsplit
      simp at hsplit
  | cons first rest ih =>
      obtain ⟨fields, hfields, hroundTrip⟩ := (hplain first List.mem_cons_self).roundTrip hpton
      rw [List.map_cons, List.nodup_cons] at hnames
      obtain ⟨args', hget, hkept, hdescribes⟩ := ih (base + first.size)
        (mergeGet mem base first.name args fields.get)
        (fun header hheader => hplain header (List.mem_cons_of_mem _ hheader)) hnames.2
      refine ⟨args', by simp [getHeaders, hfields, hget], ?_, ?_⟩
      · intro key hkey
        rw [hkept key fun header hheader => hkey header (List.mem_cons_of_mem _ hheader)]
        apply mergeGet_of_ne
        intro field hfield
        exact hkey first List.mem_cons_self field.1 (hroundTrip.capital field hfield)
      · intro before header after fields' hsplit hfields' field hfield
        cases before with
        | nil =>
            cases hsplit
            cases hfields.symm.trans hfields'
            rw [hkept, mergeGet_of_mem hroundTrip.names hfield]
            · rfl
            -- the keys of the other headers begin with other names
            · intro other hother field' hcapital heq
              have hlower := (hplain first List.mem_cons_self).name_lower
              have hlower' := (hplain other (List.mem_cons_of_mem _ hother)).name_lower
              obtain ⟨hname, _⟩ :=
                key_inj hlower hlower' (hroundTrip.capital field hfield) hcapital heq
              apply hnames.1
              rw [hname]
              exact List.mem_map_of_mem hother
        | cons _ before =>
            obtain ⟨rfl, rfl⟩ := List.cons.inj hsplit
            have hvalue := hdescribes before header after fields' rfl hfields' field hfield
            rw [hvalue, structSize_cons, Nat.add_assoc]

/-! ## Filling -/

theorem truthy_of_eq {args : NamedArgs} {key : String} {value : Value}
    (hvalue : args key = some value) (htruthy : truthy (some value) = true) :
    truthy (args key) = true := by
  rw [hvalue]
  exact htruthy

namespace NamedArgs

variable {args : NamedArgs} {key : String} (htruthy : truthy (args key) = true)

include htruthy

theorem setDefault_of_truthy (value : Value) : args.setDefault key value = args :=
  if_pos htruthy

theorem setFound_of_truthy (found : Option ℚ) : args.setFound key found = args := by
  cases found with
  | none => rfl
  | some number => exact setDefault_of_truthy htruthy _

end NamedArgs

theorem NamedArgs.setLength_of_truthy {args : NamedArgs} {pre : String}
    (htruthy : truthy (args (pre ++ "Length")) = true) (accumulatedLength : Nat) :
    args.setLength pre accumulatedLength = some args := by
  rw [NamedArgs.setLength, htruthy, Bool.true_or, if_pos rfl]

section Fill

variable {env : Environment} {header : HeaderData} {fields : HeaderFields} {args : NamedArgs}
  {src : Memory} {base : Nat}

/-- A table that holds the fields of a header is not changed by its defaults. -/
theorem HeaderData.Plain.setDefaults_eq (hplain : header.Plain)
    (hfields : header.fields env = some fields)
    (htable : ∀ field ∈ fields.get, args (header.name ++ field.1) = some (field.2 src base))
    {nextHeader : Option Proto} (hnext : nextHeader ≠ some .lacp)
    (accumulatedLength headerLength : Nat) :
    header.setDefaultNamedArgs args nextHeader accumulatedLength headerLength = some args ∧
      header.setDefaultAddresses args = args := by
  have hproto := hplain.proto
  have hsubType := hplain.subType
  unfold HeaderData.fields at hfields
  unfold HeaderData.setDefaultNamedArgs HeaderData.setDefaultAddresses
  -- every value that `get` returns for these keys counts as true
  cases hcase : header.proto <;>
    simp only [hcase, Proto.defaultType, defaultAddresses, List.foldl_cons, List.foldl_nil,
      and_true] at hfields hsubType hproto ⊢
  case ethernet =>
    rw [if_pos hsubType] at hfields
    cases hfields
    simp only [EtherHeader.fields, List.forall_mem_cons] at htable
    obtain ⟨hsrc, hdst, htype, _⟩ := htable
    rw [NamedArgs.setFound_of_truthy (truthy_of_eq htype rfl), if_neg hnext,
      NamedArgs.setDefault_of_truthy (truthy_of_eq hsrc rfl),
      NamedArgs.setDefault_of_truthy (truthy_of_eq hdst rfl)]
    exact ⟨rfl, rfl⟩
  case ip4 =>
    cases hfields
    simp only [Ip4Header.fields, List.forall_mem_cons] at htable
    obtain ⟨hsrc, hdst, _, hheaderLength, _, hlength, _, _, _, _, hprotocol, _⟩ := htable
    rw [NamedArgs.setLength_of_truthy (truthy_of_eq hlength rfl), Option.bind_eq_bind,
      Option.bind_some, NamedArgs.setFound_of_truthy (truthy_of_eq hprotocol rfl),
      NamedArgs.setDefault_of_truthy (truthy_of_eq hheaderLength rfl),
      NamedArgs.setDefault_of_truthy (truthy_of_eq hsrc rfl),
      NamedArgs.setDefault_of_truthy (truthy_of_eq hdst rfl)]
    exact ⟨rfl, rfl⟩
  case ip6 =>
    cases hfields
    simp only [Ip6Header.fields, List.forall_mem_cons] at htable
    obtain ⟨hsrc, hdst, _, _, _, hlength, hnextHeader, _⟩ := htable
    rw [NamedArgs.setLength_of_truthy (truthy_of_eq hlength rfl), Option.bind_eq_bind,
      Option.bind_some, NamedArgs.setFound_of_truthy (truthy_of_eq hnextHeader rfl),
      NamedArgs.setDefault_of_truthy (truthy_of_eq hsrc rfl),
      NamedArgs.setDefault_of_truthy (truthy_of_eq hdst rfl)]
    exact ⟨rfl, rfl⟩
  case udp =>
    cases hfields
    simp only [UdpHeader.fields, List.forall_mem_cons] at htable
    obtain ⟨_, hdst, hlength, _⟩ := htable
    rw [NamedArgs.setLength_of_truthy (truthy_of_eq hlength rfl), Option.bind_eq_bind,
      Option.bind_some, NamedArgs.setFound_of_truthy (truthy_of_eq hdst rfl)]
  case tcp =>
    cases hfields
    simp only [TcpHeader.fields, List.forall_mem_cons] at htable
    obtain ⟨_, _, _, _, hdataOffset, _⟩ := htable
    rw [NamedArgs.setDefault_of_truthy (truthy_of_eq hdataOffset rfl)]
  case arp =>
    cases hfields
    simp only [ArpHeader.fields, List.forall_mem_cons] at htable
    obtain ⟨_, _, _, _, _, hhardwareSrc, hhardwareDst, hprotoSrc, hprotoDst, _⟩ := htable
    rw [NamedArgs.setDefault_of_truthy (truthy_of_eq hhardwareSrc rfl),
      NamedArgs.setDefault_of_truthy (truthy_of_eq hhardwareDst rfl),
      NamedArgs.setDefault_of_truthy (truthy_of_eq hprotoSrc rfl),
      NamedArgs.setDefault_of_truthy (truthy_of_eq hprotoDst rfl)]
    exact ⟨trivial, rfl⟩
  case ipfix =>
    cases hfields
    simp only [IpfixHeader.fields, List.forall_mem_cons] at htable
    obtain ⟨_, hlength, _⟩ := htable
    exact NamedArgs.setLength_of_truthy (truthy_of_eq hlength rfl) _
  all_goals simp at hproto

theorem head_ne_lacp {rest : List HeaderData} (hplain : ∀ header ∈ rest, header.Plain) :
    rest.head?.map HeaderData.proto ≠ some .lacp := by
  intro hlacp
  obtain ⟨next, hhead, hproto⟩ := Option.map_eq_some_iff.mp hlacp
  have hmem := (hplain next (List.mem_of_head? hhead)).proto
  rw [hproto] at hmem
  simp at hmem

/-- The setters restore what they have been given. -/
theorem runSetters_restored
    (htable : ∀ field ∈ fields.get, args (header.name ++ field.1) = some (field.2 src base))
    {steps : List (String × Setter)} {parts : List (List Part)}
    (hsteps : List.Forall₂ fields.Reads steps parts) (mem : Memory) :
    ∃ mem', runSetters base header.name args steps mem = some mem' ∧
      Restored src base parts.flatten mem mem' := by
  induction hsteps generalizing mem with
  | nil => exact ⟨mem, rfl, Restored.refl src mem base⟩
  | cons hstep _ ih =>
      obtain ⟨getter, hgetter, hrestores⟩ := hstep
      obtain ⟨mem', hset, hrestored⟩ := hrestores src mem base
      obtain ⟨mem'', hrest, hrestored'⟩ := ih mem'
      refine ⟨mem'', ?_, hrestored.trans hrestored'⟩
      simp [runSetters, htable _ hgetter, hset, hrest]

/-- Filling the headers with a table that describes a packet copies them. -/
theorem fillHeaders_eq (hpton : ParsesPreferredForm env.inetPton) {headers : List HeaderData}
    (hplain : ∀ header ∈ headers, header.Plain) (hdescribes : Describes env src base headers args)
    (mem : Memory) (hdone : ∀ i < base, mem i = src i) :
    ∃ mem', fillHeaders env base args headers mem = some mem' ∧
      ∀ i < base + structSize headers, mem' i = src i := by
  induction headers generalizing base mem with
  | nil => exact ⟨mem, rfl, hdone⟩
  | cons header rest ih =>
      have hheader := hplain header List.mem_cons_self
      obtain ⟨fields, hfields, _, _, parts, hsteps, hcovers⟩ := hheader.roundTrip hpton
      have htable := hdescribes.head hfields
      obtain ⟨mem', hset, hrestored⟩ := runSetters_restored htable hsteps mem
      have hnext := head_ne_lacp fun next hmem => hplain next (List.mem_cons_of_mem _ hmem)
      obtain ⟨hargs, haddresses⟩ := hheader.setDefaults_eq hfields htable hnext base header.size
      have hdone' : ∀ i < base + header.size, mem' i = src i := by
        intro i hi
        by_cases hbase : i < base
        · exact hrestored.eq_of_eq (hdone i hbase)
        · obtain ⟨offset, rfl⟩ := Nat.exists_eq_add_of_le (Nat.le_of_not_lt hbase)
          exact hrestored.eq_of_covered (hcovers offset (by omega))
      obtain ⟨mem'', hfill, hall⟩ :=
        ih (fun other hother => hplain other (List.mem_cons_of_mem _ hother)) hdescribes.tail mem'
          hdone'
      refine ⟨mem'', ?_, ?_⟩
      · simp [fillHeaders, hfields, hargs, haddresses, hset, hfill]
      · rw [structSize_cons, ← Nat.add_assoc]
        exact hall

end Fill

namespace PacketType

/-- No function of the packet is hidden by a header that is called after its protocol. -/
theorem not_hides {type : PacketType} (hplain : ∀ header ∈ type.headers, header.Plain)
    (function : String) (hfunction : function ∈ ["get", "fill", "getArgs", "getHeaders"]) :
    ¬ type.Hides function := by
  intro hhides
  obtain ⟨header, hheader, hname⟩ := List.mem_map.mp hhides
  obtain ⟨digits, _, hkeyword⟩ := (hplain header hheader).name
  -- the first two letters are different
  have hlength : 2 ≤ header.proto.keyword.toList.length := by
    cases header.proto <;> decide
  have hdiffer : ∀ function ∈ ["get", "fill", "getArgs", "getHeaders"],
      header.proto.keyword.toList.take 2 ≠ function.toList.take 2 := by
    cases header.proto <;> decide
  apply hdiffer function hfunction
  rw [← hname, hkeyword, String.toList_append, List.take_append_of_le_length hlength]

/-- Filling a packet with what `get` has read from another one of the same type copies all
bytes of the headers, whatever the packet contained before. -/
theorem fill_get {env : Environment} (hpton : ParsesPreferredForm env.inetPton) (type : PacketType)
    (hplain : ∀ header ∈ type.headers, header.Plain) (src dst : Memory) :
    ∃ args dst', type.get env src = some args ∧ type.fill env args dst = some dst' ∧
      ∀ i < structSize type.headers, dst' i = src i := by
  obtain ⟨args, hget, _, hdescribes⟩ :=
    getHeaders_describes hpton src 0 (fun _ => none) hplain type.names
  obtain ⟨dst', hfill, hall⟩ := fillHeaders_eq hpton hplain hdescribes dst nofun
  have hvisible := not_hides hplain
  refine ⟨args, dst', ?_, ?_, ?_⟩
  · rw [get, if_neg, hget]
    simp [hvisible]
  · rw [fill, if_neg, hfill]
    simp [hvisible]
  · simpa using hall

/-- `inet_pton` for addresses in the preferred form only. -/
def preferredForm (ip : String) : Option (List UInt8) :=
  let groups := ip.toList.splitOn ':'
  if groups.length = 8 ∧ ∀ group ∈ groups, group ≠ [] ∧ group.length ≤ 4 ∧ group.all isHexDigit then
    some (groups.flatMap fun group =>
      [UInt8.ofNat (digitsValue 16 group / 256), UInt8.ofNat (digitsValue 16 group)])
  else none

theorem preferredForm_parses : ParsesPreferredForm preferredForm := by
  intro groups hlength hgroups
  have hcolon : ∀ group ∈ groups, ':' ∉ group := by
    intro group hgroup hmem
    exact absurd ((hgroups group hgroup).2.2 ':' hmem) (by decide)
  have hne : groups ≠ [] := by
    rintro rfl
    simp at hlength
  simp only [preferredForm, String.toList_ofList, List.splitOn_intercalate ':' hcolon hne]
  apply if_pos
  simpa [hlength] using hgroups

/-- `createStack("eth", "ip6", "udp", "vxlan", {"eth", name = "eth2"}, "ip4", "tcp")`. -/
def tunnelPacket : PacketType where
  headers := [⟨.ethernet, "eth", none, some .default⟩, ⟨.ip6, "ip6", none, none⟩,
    ⟨.udp, "udp", none, none⟩, ⟨.vxlan, "vxlan", none, none⟩,
    ⟨.ethernet, "eth2", none, some .default⟩, ⟨.ip4, "ip4", none, none⟩, ⟨.tcp, "tcp", none, none⟩]
  names := by decide
  subTypes := by decide

theorem tunnelPacket_plain : ∀ header ∈ tunnelPacket.headers, header.Plain := by
  have hplain {header : HeaderData} (digits : List Char)
      (hheader : header.proto ∈ [Proto.ethernet, .ip4, .ip6, .udp, .tcp, .arp, .icmp, .vxlan, .gre,
        .esp, .ipfix] ∧ header.subType = header.proto.defaultType ∧ header.length = none)
      (hname : digits.all Char.isDigit ∧
        header.name = header.proto.keyword ++ String.ofList digits) : header.Plain :=
    ⟨hheader.1, hheader.2.1, hheader.2.2, digits, List.all_eq_true.mp hname.1, hname.2⟩
  intro header hheader
  simp only [tunnelPacket, List.mem_cons, List.not_mem_nil, or_false] at hheader
  rcases hheader with rfl | rfl | rfl | rfl | rfl | rfl | rfl
  · exact hplain [] (by decide) (by decide)
  · exact hplain [] (by decide) (by decide)
  · exact hplain [] (by decide) (by decide)
  · exact hplain [] (by decide) (by decide)
  · exact hplain ['2'] (by decide) (by decide)
  · exact hplain [] (by decide) (by decide)
  · exact hplain [] (by decide) (by decide)

theorem fill_get_tunnelPacket :
    structSize tunnelPacket.headers = 124 ∧
      ∃ args dst', tunnelPacket.get ⟨preferredForm, [0, 0]⟩ (fun i => UInt8.ofNat (7 * i)) =
          some args ∧
        tunnelPacket.fill ⟨preferredForm, [0, 0]⟩ args (fun _ => 0xff) = some dst' ∧
        ∀ i < structSize tunnelPacket.headers, dst' i = UInt8.ofNat (7 * i) :=
  ⟨rfl, fill_get preferredForm_parses tunnelPacket tunnelPacket_plain _ _⟩

end PacketType

end Libmoon.Packet
