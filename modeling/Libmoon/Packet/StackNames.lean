import Libmoon.Foundation.Machine
import Libmoon.Packet.FillGet
import Libmoon.Packet.StructNames

/-! # Runs of `createStack`

A packet type is declared once under its name, and a call whose name exists already returns
nothing. Whether the payload is appended is not part of the name. The calls that `packet.lua`
itself makes come first; they declare the structs without a length of all protocols, so that
`ffi.sizeof` finds these.
-/

namespace Libmoon.Packet

open Foundation

/-- A header in the arguments of `createStack`: a keyword, or a table. -/
inductive HeaderArg where
  | keyword (proto : Proto)
  | table (proto : Proto) (name : Option String) (length : Option ℕ) (subType : Option SubType)
deriving DecidableEq

/-- `getHeaderData` -/
def HeaderArg.getHeaderData : HeaderArg → HeaderData
  | .keyword proto => ⟨proto, proto.keyword, none, proto.defaultType⟩
  | .table proto name length subType =>
      ⟨proto, name.getD proto.keyword, length, subType.or proto.defaultType⟩

/-- The arguments of a call of `createStack`. -/
structure StackCall where
  args : List HeaderArg
  noPayload : Bool
deriving DecidableEq

namespace StackCall

def headers (call : StackCall) : List HeaderData := call.args.map HeaderArg.getHeaderData

/-- What is asked for: the data of the headers and whether there is a payload. -/
def stack (call : StackCall) : List HeaderData × Bool := (call.headers, call.noPayload)

end StackCall

/-- What the struct of a header is built from. -/
structure HeaderStruct where
  proto : Proto
  subType : Option SubType
  size : Option ℕ
deriving DecidableEq

def HeaderData.struct (header : HeaderData) : HeaderStruct :=
  ⟨header.proto, header.subType.or header.proto.defaultType, header.length⟩

/-- The definition of a packet struct: the structs and the names of its members. -/
structure PacketStruct where
  members : List (List Char × String)
  payload : Bool
deriving DecidableEq

/-- The structs under their names. A packet struct that `ffi.cdef` has refused is `none`. -/
structure StructRegistry where
  headerStructs : List (List Char × HeaderStruct)
  packetStructs : List (List Char × Option PacketStruct)

/-- What `ffi.cdef` refuses, which LuaJIT decides: names for members that its C parser reserves
on top of the keywords of C, such as `bool`, `complex` and `asm`, and structs of headers whose
lengths are too large. -/
structure CParser where
  reserved : String → Bool
  tooLarge : List HeaderStruct → Bool

/-- How a call of `createStack` ends: with a fatal error, with an error of `ffi.cdef` or
`ffi.metatype` for a struct, with a warning and no result, with an error in the code that it
generates, or with a function that casts to a packet type. -/
inductive StackOutcome where
  | sameMember (member : String)
  | refused (name : List Char)
  | alreadyExists (name : List Char)
  | brokenCode
  | cast (name : List Char)
deriving DecidableEq

/-- The words that Lua reserves. -/
def luaKeywords : List String :=
  ["and", "break", "do", "else", "elseif", "end", "false", "for", "function", "if", "in",
    "local", "nil", "not", "or", "repeat", "return", "then", "true", "until", "while"]

/-- `packetSetLength` or `packetCalculateChecksums` generates code with the member in it. -/
def HeaderData.generatesCode (header : HeaderData) : Bool :=
  (header.subType = none && header.proto.lengthBase.isSome) ||
    header.proto ∈ [Proto.ip4, .icmp, .tcp]

/-- The generated code is well formed. -/
def StackCall.Loads (call : StackCall) : Prop :=
  ∀ header ∈ call.headers, header.generatesCode = true → header.name ∉ luaKeywords

instance (call : StackCall) : Decidable call.Loads :=
  inferInstanceAs (Decidable (∀ header ∈ call.headers, _ → _))

/-- `ffi.cdef` takes the struct of the header and `ffi.metatype` its metatype, which `sflow.lua`
does not set for `ip6`. -/
def HeaderData.Definable (parser : CParser) (header : HeaderData) : Prop :=
  header.subType ∈ header.proto.subTypes ∧ parser.tooLarge [header.struct] = false

instance (parser : CParser) (header : HeaderData) : Decidable (header.Definable parser) :=
  inferInstanceAs (Decidable (_ ∧ _))

/-- `ffi.cdef` takes the packet struct. -/
def StackCall.Accepted (parser : CParser) (call : StackCall) : Prop :=
  (∀ header ∈ call.headers, parser.reserved header.name = false) ∧
    parser.tooLarge (call.headers.map HeaderData.struct) = false

instance (parser : CParser) (call : StackCall) : Decidable (call.Accepted parser) :=
  inferInstanceAs (Decidable (_ ∧ _))

/-- All structs of a call can be declared. -/
structure StackCall.Declarable (parser : CParser) (call : StackCall) : Prop where
  headers : ∀ header ∈ call.headers, header.Definable parser
  accepted : call.Accepted parser

namespace StructRegistry

def empty : StructRegistry := ⟨[], []⟩

section

variable (parser : CParser)

/-- `defineHeaderStruct`, or an error, after which the struct is not in the list. -/
def defineHeaderStruct (structs : List (List Char × HeaderStruct)) (header : HeaderData) :
    Option (List (List Char × HeaderStruct)) :=
  if (structs.lookup header.structName).isSome then some structs
  else if header.Definable parser then some (structs ++ [(header.structName, header.struct)])
  else none

/-- The loop of `packetMakeStruct` up to an error. -/
def defineHeaders (seen : List String) (structs : List (List Char × HeaderStruct)) :
    List HeaderData → Option StackOutcome × List (List Char × HeaderStruct)
  | [] => (none, structs)
  | header :: rest =>
      if header.name ∈ seen then (some (.sameMember header.name), structs)
      else
        match defineHeaderStruct parser structs header with
        | some structs => defineHeaders (header.name :: seen) structs rest
        | none => (some (.refused header.structName), structs)

/-- The definition of a packet struct that `packetMakeStruct` puts together. -/
def packetStruct (call : StackCall) : PacketStruct :=
  ⟨call.headers.map fun header => (header.structName, header.name), !call.noPayload⟩

/-- `createStack` with `packetMakeStruct`. -/
def createStack (registry : StructRegistry) (call : StackCall) : StackOutcome × StructRegistry :=
  match defineHeaders parser [] registry.headerStructs call.headers with
  | (some outcome, structs) => (outcome, { registry with headerStructs := structs })
  | (none, structs) =>
      let registry := { registry with headerStructs := structs }
      let name := packetName call.headers
      if (registry.packetStructs.lookup name).isSome then (.alreadyExists name, registry)
      else
        -- the name is taken before the struct is declared, and the struct is declared before
        -- the code that works on it is generated
        if call.Accepted parser then
          (if call.Loads then .cast name else .brokenCode,
            { registry with
              packetStructs := registry.packetStructs ++ [(name, some (packetStruct call))] })
        else
          (.refused name,
            { registry with packetStructs := registry.packetStructs ++ [(name, none)] })

end

/-- What a name denotes: the members with what their structs are built from. -/
def layout (registry : StructRegistry) (name : List Char) :
    Option (List (HeaderStruct × String) × Bool) := do
  let struct ← (registry.packetStructs.lookup name).join
  let members ← struct.members.mapM fun (structName, member) =>
    (registry.headerStructs.lookup structName).map fun header => (header, member)
  some (members, struct.payload)

end StructRegistry

/-- `createStack`, call after call. -/
def createStacks (parser : CParser) : Machine StructRegistry StackCall StackOutcome where
  step := StructRegistry.createStack parser

/-! ## Valid calls -/

/-- The words that C reserves. -/
def cKeywords : List String :=
  ["auto", "break", "case", "char", "const", "continue", "default", "do", "double", "else", "enum",
    "extern", "float", "for", "goto", "if", "inline", "int", "long", "register", "restrict",
    "return", "short", "signed", "sizeof", "static", "struct", "switch", "typedef", "union",
    "unsigned", "void", "volatile", "while", "_Bool", "_Complex", "_Imaginary"]

/-- An identifier of C. -/
structure IsIdentifier (name : String) : Prop where
  chars : ∃ first rest, name.toList = first :: rest ∧ (first.isAlpha || first = '_') ∧
    rest.all fun char => char.isAlphanum || char = '_'
  notKeyword : name ∉ cKeywords

/-- The sub-types of a protocol. -/
def Proto.headerFormats : Proto → List (Option SubType)
  | .ethernet => [some .default, some .vlan, some .qinq]
  | .sflow => [some .ip4, some .ip6]
  | _ => [none]

/-- The members are called differently, by identifiers, and the sub-types exist. -/
structure StackCall.Valid (call : StackCall) : Prop where
  names : (call.headers.map HeaderData.name).Nodup
  identifiers : ∀ header ∈ call.headers, IsIdentifier header.name
  subTypes : ∀ header ∈ call.headers, header.subType ∈ header.proto.headerFormats

/-! ## Structs of headers -/

namespace StructRegistry

/-- Each entry is what a header of its name is built from, and can be. -/
def HeadersRight (parser : CParser) (structs : List (List Char × HeaderStruct)) : Prop :=
  ∀ name struct, structs.lookup name = some struct →
    ∃ header : HeaderData, header.structName = name ∧ header.struct = struct ∧
      header.Definable parser

variable {parser : CParser} {structs : List (List Char × HeaderStruct)} {header : HeaderData}

theorem struct_eq_of_structName_eq {header header' : HeaderData}
    (hname : header.structName = header'.structName) : header.struct = header'.struct := by
  obtain ⟨hproto, hsubType, hlength⟩ := eq_of_structName_eq hname
  rw [HeaderData.struct, HeaderData.struct, hproto, hsubType, hlength]

theorem definable_of_structName_eq {header header' : HeaderData}
    (hname : header.structName = header'.structName) (hdefinable : header.Definable parser) :
    header'.Definable parser := by
  obtain ⟨hproto, hsubType, -⟩ := eq_of_structName_eq hname
  rwa [HeaderData.Definable, ← hproto, ← hsubType, ← struct_eq_of_structName_eq hname]

theorem HeadersRight.lookup_eq (hright : HeadersRight parser structs)
    (hdefined : (structs.lookup header.structName).isSome) :
    structs.lookup header.structName = some header.struct ∧ header.Definable parser := by
  obtain ⟨struct, hstruct⟩ := Option.isSome_iff_exists.mp hdefined
  obtain ⟨other, hname, rfl, hdefinable⟩ := hright _ _ hstruct
  rw [hstruct, struct_eq_of_structName_eq hname]
  exact ⟨rfl, definable_of_structName_eq hname hdefinable⟩

/-- A struct that was declared stays as it is, and a header is declared only if it can be. -/
theorem HeadersRight.define (hright : HeadersRight parser structs)
    {structs' : List (List Char × HeaderStruct)}
    (hdefine : defineHeaderStruct parser structs header = some structs') :
    HeadersRight parser structs' ∧ header.Definable parser := by
  rw [defineHeaderStruct] at hdefine
  split at hdefine
  next hdefined =>
    cases hdefine
    exact ⟨hright, (hright.lookup_eq hdefined).2⟩
  next =>
    split at hdefine
    next hdefinable =>
      cases hdefine
      refine ⟨?_, hdefinable⟩
      intro name struct hlookup
      rw [List.lookup_append, Option.or_eq_some_iff] at hlookup
      rcases hlookup with hold | ⟨-, hnew⟩
      · exact hright name struct hold
      · rw [List.lookup_cons] at hnew
        split at hnew
        next hname =>
          cases hnew
          exact ⟨header, (beq_iff_eq.mp hname).symm, rfl, hdefinable⟩
        next => cases hnew
    next => cases hdefine

/-- The loop keeps the structs right, passes over no header that cannot be declared, and does not
end with a function. -/
theorem HeadersRight.defineHeaders (hright : HeadersRight parser structs) (seen : List String)
    (headers : List HeaderData) :
    HeadersRight parser (defineHeaders parser seen structs headers).2 ∧
      ((defineHeaders parser seen structs headers).1 = none →
        ∀ header ∈ headers, header.Definable parser) ∧
      ∀ name, (defineHeaders parser seen structs headers).1 ≠ some (.cast name) := by
  induction headers generalizing seen structs with
  | nil =>
      exact ⟨hright, fun _ _ hmem => absurd hmem List.not_mem_nil,
        by simp [StructRegistry.defineHeaders]⟩
  | cons header rest ih =>
      rw [StructRegistry.defineHeaders]
      split
      · exact ⟨hright, by simp, by simp⟩
      · split
        next structs' hdefine =>
          obtain ⟨hright', hdefinable⟩ := hright.define hdefine
          obtain ⟨hfinal, hrest, hnot⟩ := ih hright' (header.name :: seen)
          exact ⟨hfinal, fun hnone => List.forall_mem_cons.mpr ⟨hdefinable, hrest hnone⟩, hnot⟩
        next => exact ⟨hright, by simp, by simp⟩

/-- A header that can be declared is declared afterwards. -/
theorem define_of_definable (structs : List (List Char × HeaderStruct))
    (hdefinable : header.Definable parser) :
    ∃ structs', defineHeaderStruct parser structs header = some structs' ∧
      (structs'.lookup header.structName).isSome ∧
      ∀ name, (structs.lookup name).isSome → (structs'.lookup name).isSome := by
  rw [defineHeaderStruct, if_pos hdefinable]
  split
  next hdefined => exact ⟨structs, rfl, hdefined, fun _ hname => hname⟩
  next =>
    refine ⟨_, rfl, ?_, ?_⟩
    · rw [List.lookup_append, List.lookup_cons_self, Option.isSome_or, Option.isSome_some,
        Bool.or_true]
    · intro name hname
      rw [List.lookup_append, Option.isSome_or, hname, Bool.true_or]

/-- Members that are called differently and can be declared do not end the loop. -/
theorem defineHeaders_of_nodup {headers : List HeaderData} {seen : List String}
    (hnodup : (headers.map HeaderData.name).Nodup)
    (hdisjoint : ∀ header ∈ headers, header.name ∉ seen)
    (hdefinable : ∀ header ∈ headers, header.Definable parser) :
    ∃ structs', defineHeaders parser seen structs headers = (none, structs') ∧
      (∀ header ∈ headers, (structs'.lookup header.structName).isSome) ∧
      ∀ name, (structs.lookup name).isSome → (structs'.lookup name).isSome := by
  induction headers generalizing seen structs with
  | nil => exact ⟨structs, rfl, fun _ hmem => absurd hmem List.not_mem_nil, fun _ hname => hname⟩
  | cons header rest ih =>
      obtain ⟨hheader, hrest⟩ := List.nodup_cons.mp hnodup
      obtain ⟨hseen, hseenrest⟩ := List.forall_mem_cons.mp hdisjoint
      obtain ⟨hfirst, hdefinablerest⟩ := List.forall_mem_cons.mp hdefinable
      obtain ⟨middle, hdefine, hdefined, hkept⟩ := define_of_definable structs hfirst
      have hdisjoint' : ∀ other ∈ rest, other.name ∉ header.name :: seen := by
        intro other hother
        rw [List.mem_cons, not_or]
        refine ⟨?_, hseenrest other hother⟩
        intro hname
        exact hheader (List.mem_map.mpr ⟨other, hother, hname⟩)
      obtain ⟨structs', hloop, hall, hkept'⟩ := @ih middle _ hrest hdisjoint' hdefinablerest
      refine ⟨structs', ?_, ?_, fun name hname => hkept' name (hkept name hname)⟩
      · rw [defineHeaders, if_neg hseen, hdefine]
        exact hloop
      · exact List.forall_mem_cons.mpr ⟨hkept' _ hdefined, hall⟩

/-! ## One call -/

variable {registry : StructRegistry} {first rest : List StackCall} {call : StackCall}

/-- The structs of the headers stay right, whatever a call asks for. -/
theorem headersRight_createStack (hright : HeadersRight parser registry.headerStructs)
    (call : StackCall) :
    HeadersRight parser (createStack parser registry call).2.headerStructs := by
  obtain ⟨hfinal, -, -⟩ := hright.defineHeaders [] call.headers
  rw [createStack]
  split
  next hloop => rwa [hloop] at hfinal
  next hloop =>
    rw [hloop] at hfinal
    dsimp only
    split
    · exact hfinal
    · split <;> exact hfinal

theorem headersRight_after (hright : HeadersRight parser registry.headerStructs)
    (calls : List StackCall) :
    HeadersRight parser ((createStacks parser).after registry calls).headerStructs := by
  induction calls generalizing registry with
  | nil => exact hright
  | cons call rest ih => exact ih (headersRight_createStack hright call)

/-- A call returns a function only if all its structs are declared and its code is well formed. -/
theorem of_createStack_cast {name : List Char}
    (hright : HeadersRight parser registry.headerStructs)
    (hcast : (createStack parser registry call).1 = .cast name) :
    call.Declarable parser ∧ call.Loads := by
  obtain ⟨-, hdefinable, hnot⟩ := hright.defineHeaders [] call.headers
  rw [createStack] at hcast
  split at hcast
  next hloop =>
    rw [hloop] at hnot
    exact absurd (congrArg some hcast) (hnot name)
  next hloop =>
    rw [hloop] at hdefinable
    dsimp only at hcast
    split at hcast
    · cases hcast
    · split at hcast
      next haccepted =>
        refine ⟨⟨hdefinable rfl, haccepted⟩, ?_⟩
        by_contra hbroken
        rw [if_neg hbroken] at hcast
        cases hcast
      next => cases hcast

/-- No metatype is set for the sub-type `ip6` of sFlow. -/
example (parser : CParser) :
    (createStack parser .empty ⟨[.table .sflow none none (some .ip6)], true⟩).1 =
      .refused (HeaderData.structName ⟨.sflow, "sflow", none, some .ip6⟩) := by
  rfl

/-! ## The registry after some calls -/

/-- The first call for a name has declared the packet struct of that name. -/
structure Registered (parser : CParser) (first : List StackCall) (registry : StructRegistry) :
    Prop where
  headersRight : HeadersRight parser registry.headerStructs
  headersDefined : ∀ call ∈ first, ∀ header ∈ call.headers,
    (registry.headerStructs.lookup header.structName).isSome
  packets : ∀ name, registry.packetStructs.lookup name =
    (first.find? fun call => packetName call.headers = name).map fun call =>
      some (packetStruct call)

theorem headersRight_empty : HeadersRight parser empty.headerStructs := by
  intro _ _ hlookup
  cases hlookup

theorem Registered.empty : Registered parser [] empty where
  headersRight := headersRight_empty
  headersDefined _ hcall := absurd hcall List.not_mem_nil
  packets _ := rfl

/-- The name of a call is taken by one that came before. -/
def Taken (first : List StackCall) (call : StackCall) : Prop :=
  ∃ other ∈ first, packetName other.headers = packetName call.headers

instance : Decidable (Taken first call) :=
  inferInstanceAs (Decidable (∃ other ∈ first, _))

theorem Registered.isSome_lookup_iff (hregistered : Registered parser first registry) :
    (registry.packetStructs.lookup (packetName call.headers)).isSome ↔ Taken first call := by
  rw [hregistered.packets, Option.isSome_map, List.find?_isSome]
  simp [Taken]

/-- A call whose structs can be declared, given the names that are taken. -/
theorem createStack_valid (hregistered : Registered parser first registry) (hvalid : call.Valid)
    (hdeclarable : call.Declarable parser) :
    ∃ structs, HeadersRight parser structs ∧
      (∀ header ∈ call.headers, (structs.lookup header.structName).isSome) ∧
      (∀ name, (registry.headerStructs.lookup name).isSome → (structs.lookup name).isSome) ∧
      createStack parser registry call =
        (if Taken first call then .alreadyExists (packetName call.headers)
          else if call.Loads then .cast (packetName call.headers) else .brokenCode,
        { headerStructs := structs
          packetStructs := registry.packetStructs ++
            if Taken first call then []
            else [(packetName call.headers, some (packetStruct call))] }) := by
  obtain ⟨structs, hloop, hdefined, hkept⟩ := @defineHeaders_of_nodup parser
    registry.headerStructs _ _ hvalid.names (fun _ _ => List.not_mem_nil) hdeclarable.headers
  have hright := (hregistered.headersRight.defineHeaders [] call.headers).1
  rw [hloop] at hright
  refine ⟨structs, hright, hdefined, hkept, ?_⟩
  have htaken := @Registered.isSome_lookup_iff parser registry first call hregistered
  rw [createStack, hloop]
  dsimp only
  by_cases hname : Taken first call
  · rw [if_pos (htaken.mpr hname), if_pos hname, if_pos hname, List.append_nil]
  · rw [if_neg fun hsome => hname (htaken.mp hsome), if_pos hdeclarable.accepted, if_neg hname,
      if_neg hname]

/-- A reserved word as a member makes the code that is generated for the packet fail. -/
example : (createStack ⟨fun _ => false, fun _ => false⟩ .empty
    ⟨[.table .ip4 (some "end") none none], false⟩).1 = .brokenCode := by
  decide

theorem Registered.step (hregistered : Registered parser first registry) (hvalid : call.Valid)
    (hdeclarable : call.Declarable parser) :
    Registered parser (first ++ [call]) (createStack parser registry call).2 := by
  obtain ⟨structs, hright, hdefined, hkept, hstep⟩ :=
    createStack_valid hregistered hvalid hdeclarable
  rw [hstep]
  constructor
  case headersRight => exact hright
  case headersDefined =>
    intro other hother header hheader
    rcases List.mem_append.mp hother with hother | hother
    · exact hkept _ (hregistered.headersDefined other hother header hheader)
    · rw [List.mem_singleton.mp hother] at hheader
      exact hdefined header hheader
  case packets =>
    intro name
    dsimp only
    rw [List.lookup_append, hregistered.packets, List.find?_append, Option.map_or]
    -- the first call for the name may be an earlier one
    cases hfind : first.find? fun other => packetName other.headers = name with
    | some other => rfl
    | none =>
        rw [Option.map_none, Option.none_or, Option.none_or]
        by_cases hname : packetName call.headers = name
        · have hfree : ¬ Taken first call := by
            rintro ⟨other, hother, hsame⟩
            exact List.find?_eq_none.mp hfind other hother (decide_eq_true (hsame.trans hname))
          rw [if_neg hfree, List.find?_singleton, if_pos (decide_eq_true hname), ← hname,
            List.lookup_cons_self]
          rfl
        · have hother : [call].find? (fun other => packetName other.headers = name) = none := by
            rw [List.find?_singleton, if_neg fun hsame => hname (of_decide_eq_true hsame)]
          rw [hother]
          split
          · rfl
          · rw [List.lookup_cons, beq_eq_false_iff_ne.mpr (Ne.symm hname)]
            rfl

theorem Registered.after (hregistered : Registered parser first registry)
    (hvalid : ∀ call ∈ rest, call.Valid) (hdeclarable : ∀ call ∈ rest, call.Declarable parser) :
    Registered parser (first ++ rest) ((createStacks parser).after registry rest) := by
  induction rest generalizing first registry with
  | nil =>
      rw [List.append_nil]
      exact hregistered
  | cons call rest ih =>
      obtain ⟨hcall, hrest⟩ := List.forall_mem_cons.mp hvalid
      obtain ⟨hcall', hrest'⟩ := List.forall_mem_cons.mp hdeclarable
      have hstep := ih (hregistered.step hcall hcall') hrest hrest'
      rwa [List.append_assoc] at hstep

end StructRegistry

open StructRegistry

/-! ## What a sequence of calls comes to -/

/-- Calls for different stacks give their structs different names. -/
def NamesDiffer (calls : List StackCall) : Prop :=
  ∀ call ∈ calls, ∀ call' ∈ calls, call.stack ≠ call'.stack →
    packetName call.headers ≠ packetName call'.headers

/-- Every call for a stack that was not created before returns a function that casts to its
type. -/
def AllUsable (parser : CParser) (calls : List StackCall) : Prop :=
  ∀ first call, first ++ [call] <+: calls → call.stack ∉ first.map StackCall.stack →
    (createStack parser ((createStacks parser).after .empty first) call).1 =
      .cast (packetName call.headers)

/-- What a call asks for. -/
def StackCall.layout (call : StackCall) : List (HeaderStruct × String) × Bool :=
  (call.headers.map fun header => (header.struct, header.name), !call.noPayload)

/-- In the end every name denotes the layout that was asked for under it. -/
def OneLayout (parser : CParser) (calls : List StackCall) : Prop :=
  ∀ call ∈ calls, ((createStacks parser).after .empty calls).layout (packetName call.headers) =
    some call.layout

variable {parser : CParser} {calls : List StackCall}

/-- The first call for a stack. -/
theorem exists_first_call {call : StackCall} (hcall : call ∈ calls) :
    ∃ first call', first ++ [call'] <+: calls ∧ call'.stack = call.stack ∧
      call.stack ∉ first.map StackCall.stack := by
  induction calls with
  | nil => cases hcall
  | cons head rest ih =>
      by_cases hhead : head.stack = call.stack
      · exact ⟨[], head, ⟨rest, rfl⟩, hhead, List.not_mem_nil⟩
      · have hmem : call ∈ rest := by
          rcases List.mem_cons.mp hcall with rfl | hmem
          · exact absurd rfl hhead
          · exact hmem
        obtain ⟨first, call', hfront, hstack, hnew⟩ := ih hmem
        refine ⟨head :: first, call', List.cons_prefix_cons.mpr ⟨rfl, hfront⟩, hstack, ?_⟩
        rw [List.map_cons, List.mem_cons, not_or]
        exact ⟨Ne.symm hhead, hnew⟩

theorem declarable_of_allUsable (husable : AllUsable parser calls) {call : StackCall}
    (hcall : call ∈ calls) : call.Loads ∧ call.Declarable parser := by
  -- the first call for the stack has the same headers
  obtain ⟨first, call', hfront, hstack, hnew⟩ := exists_first_call hcall
  have hcast := husable first call' hfront (hstack ▸ hnew)
  obtain ⟨hdeclarable, hloads⟩ :=
    of_createStack_cast (headersRight_after headersRight_empty first) hcast
  have hheaders : call'.headers = call.headers := congrArg Prod.fst hstack
  refine ⟨fun header hheader => hloads header (hheaders ▸ hheader), ?_, ?_⟩
  · exact fun header hheader => hdeclarable.headers header (hheaders ▸ hheader)
  · have haccepted := hdeclarable.accepted
    rwa [StackCall.Accepted, hheaders] at haccepted

theorem allUsable_of_namesDiffer (hvalid : ∀ call ∈ calls, call.Valid)
    (hdiffer : NamesDiffer calls)
    (hloads : ∀ call ∈ calls, call.Loads ∧ call.Declarable parser) : AllUsable parser calls := by
  intro first call hfront hnew
  have hcall : call ∈ calls := hfront.subset List.mem_concat_self
  have hearlier : ∀ other ∈ first, other ∈ calls :=
    fun other hother => hfront.subset (List.mem_append_left _ hother)
  have hfree : ¬ Taken first call := by
    rintro ⟨other, hother, hname⟩
    refine hdiffer other (hearlier other hother) call hcall ?_ hname
    rintro hstack
    exact hnew (List.mem_map.mpr ⟨other, hother, hstack⟩)
  have hregistered : Registered parser ([] ++ first) _ := Registered.empty.after
    (fun other hother => hvalid other (hearlier other hother))
    (fun other hother => (hloads other (hearlier other hother)).2)
  obtain ⟨structs, -, -, -, hstep⟩ :=
    createStack_valid hregistered (hvalid call hcall) (hloads call hcall).2
  rw [hstep, List.nil_append, if_neg hfree, if_pos (hloads call hcall).1]

theorem packetStruct_eq {call call' : StackCall} (hstack : call.stack = call'.stack) :
    packetStruct call = packetStruct call' := by
  obtain ⟨hheaders, hpayload⟩ := Prod.mk.inj hstack
  rw [packetStruct, packetStruct, hheaders, hpayload]

/-- The members of a packet struct are resolved. -/
theorem mapM_members {structs : List (List Char × HeaderStruct)} {headers : List HeaderData}
    (hright : HeadersRight parser structs)
    (hdefined : ∀ header ∈ headers, (structs.lookup header.structName).isSome) :
    (headers.map fun header => (header.structName, header.name)).mapM
      (fun (structName, member) => (structs.lookup structName).map fun header => (header, member)) =
        some (headers.map fun header => (header.struct, header.name)) := by
  induction headers with
  | nil => rfl
  | cons header rest ih =>
      obtain ⟨hheader, hrest⟩ := List.forall_mem_cons.mp hdefined
      rw [List.map_cons, List.mapM_cons, ih hrest]
      dsimp only
      rw [(hright.lookup_eq hheader).1]
      rfl

theorem oneLayout_of_namesDiffer (hvalid : ∀ call ∈ calls, call.Valid)
    (hdeclarable : ∀ call ∈ calls, call.Declarable parser) (hdiffer : NamesDiffer calls) :
    OneLayout parser calls := by
  intro call hcall
  have hregistered := Registered.empty.after hvalid hdeclarable
  rw [List.nil_append] at hregistered
  obtain ⟨found, hfound⟩ : ∃ found, calls.find? (fun other =>
      packetName other.headers = packetName call.headers) = some found := by
    rw [← Option.isSome_iff_exists, List.find?_isSome]
    exact ⟨call, hcall, decide_eq_true rfl⟩
  have hname : packetName found.headers = packetName call.headers := by
    have htrue := List.find?_some hfound
    exact of_decide_eq_true htrue
  -- the call that the name was declared for asked for the same stack
  have hstack : found.stack = call.stack := by
    by_contra hne
    exact hdiffer found (List.mem_of_find?_eq_some hfound) call hcall hne hname
  rw [StructRegistry.layout, hregistered.packets, hfound, Option.map_some, packetStruct_eq hstack,
    Option.join_some, Option.bind_eq_bind, Option.bind_some]
  dsimp only [packetStruct]
  rw [mapM_members hregistered.headersRight (hregistered.headersDefined call hcall)]
  rfl

/-- Names differ, calls return functions and names denote one layout exactly if different stacks
are different when joined, no member that the generated code mentions is a keyword of Lua, and
all structs can be declared. Where members have no two underscores in a row, only the payload
can be what the stacks differ in. -/
theorem createStacks_right_iff (parser : CParser) (hvalid : ∀ call ∈ calls, call.Valid) :
    (NamesDiffer calls ∧ AllUsable parser calls ∧ OneLayout parser calls ↔
      (∀ call ∈ calls, ∀ call' ∈ calls, call.stack ≠ call'.stack →
        ¬ SameWhenJoined call.headers call'.headers) ∧
      ∀ call ∈ calls, call.Loads ∧ call.Declarable parser) ∧
    ∀ call ∈ calls, ∀ call' ∈ calls,
      (∀ header ∈ call.headers, ¬ ['_', '_'] <:+: header.name.toList) →
      (∀ header ∈ call'.headers, ¬ ['_', '_'] <:+: header.name.toList) →
        SameWhenJoined call.headers call'.headers → call.headers = call'.headers := by
  have hnames : NamesDiffer calls ↔ ∀ call ∈ calls, ∀ call' ∈ calls, call.stack ≠ call'.stack →
      ¬ SameWhenJoined call.headers call'.headers := by
    refine forall₂_congr fun call _ => forall₂_congr fun call' _ => imp_congr_right fun _ => ?_
    exact not_congr packetName_eq_iff
  refine ⟨?_, fun _ _ _ _ => eq_of_sameWhenJoined⟩
  rw [← hnames]
  constructor
  · rintro ⟨hdiffer, husable, -⟩
    exact ⟨hdiffer, fun call hcall => declarable_of_allUsable husable hcall⟩
  · rintro ⟨hdiffer, hloads⟩
    exact ⟨hdiffer, allUsable_of_namesDiffer hvalid hdiffer hloads,
      oneLayout_of_namesDiffer hvalid (fun call hcall => (hloads call hcall).2) hdiffer⟩

/-- Some of the words that the C parser of LuaJIT reserves, and a limit for its structs. -/
def exampleParser : CParser where
  reserved name := name ∈ ["bool", "complex", "asm"]
  tooLarge structs := structs.any fun struct => 2 ^ 29 ≤ struct.size.getD 0

theorem createStacks_right_iff_two :
    NamesDiffer [⟨[.keyword .ethernet, .keyword .ip4], false⟩,
        ⟨[.keyword .ethernet, .table .ip4 (some "outer_ip") none none], true⟩] ∧
      AllUsable exampleParser [⟨[.keyword .ethernet, .keyword .ip4], false⟩,
        ⟨[.keyword .ethernet, .table .ip4 (some "outer_ip") none none], true⟩] ∧
      OneLayout exampleParser [⟨[.keyword .ethernet, .keyword .ip4], false⟩,
        ⟨[.keyword .ethernet, .table .ip4 (some "outer_ip") none none], true⟩] := by
  generalize hcalls : [(⟨[.keyword .ethernet, .keyword .ip4], false⟩ : StackCall),
    ⟨[.keyword .ethernet, .table .ip4 (some "outer_ip") none none], true⟩] = calls
  have heth : IsIdentifier "eth" := ⟨⟨'e', ['t', 'h'], by decide⟩, by decide⟩
  have hip4 : IsIdentifier "ip4" := ⟨⟨'i', ['p', '4'], by decide⟩, by decide⟩
  have houter : IsIdentifier "outer_ip" :=
    ⟨⟨'o', ['u', 't', 'e', 'r', '_', 'i', 'p'], by decide⟩, by decide⟩
  have hvalid : ∀ call ∈ calls, call.Valid := by
    subst hcalls
    rw [List.forall_mem_cons, List.forall_mem_singleton]
    constructor
    · refine ⟨by decide, ?_, by decide⟩
      exact List.forall_mem_cons.mpr ⟨heth, List.forall_mem_singleton.mpr hip4⟩
    · refine ⟨by decide, ?_, by decide⟩
      exact List.forall_mem_cons.mpr ⟨heth, List.forall_mem_singleton.mpr houter⟩
  have hmembers : ∀ call ∈ calls, ∀ header ∈ call.headers,
      ¬ ['_', '_'] <:+: header.name.toList := by
    subst hcalls
    decide
  have hstacks : ∀ call ∈ calls, ∀ call' ∈ calls, call.headers = call'.headers →
      call.stack = call'.stack := by
    subst hcalls
    decide
  have hdeclarable : ∀ call ∈ calls, call.Loads ∧ call.Declarable exampleParser := by
    subst hcalls
    rw [List.forall_mem_cons, List.forall_mem_singleton]
    exact ⟨⟨by decide, by decide, by decide⟩, by decide, by decide, by decide⟩
  obtain ⟨hiff, hplain⟩ := createStacks_right_iff exampleParser hvalid
  refine hiff.mpr ⟨?_, hdeclarable⟩
  intro call hcall call' hcall' hne hsame
  refine hne (hstacks call hcall call' hcall' ?_)
  exact hplain call hcall call' hcall' (hmembers call hcall) (hmembers call' hcall') hsame

/-- Without a payload, a stack that exists with one is not created. -/
theorem createStacks_noPayload :
    (∀ call ∈ [(⟨[.keyword .ethernet], false⟩ : StackCall), ⟨[.keyword .ethernet], true⟩],
      call.Valid) ∧
    (createStacks exampleParser).answers .empty
        [⟨[.keyword .ethernet], false⟩, ⟨[.keyword .ethernet], true⟩] =
      [.cast (packetName [⟨.ethernet, "eth", none, some .default⟩]),
        .alreadyExists (packetName [⟨.ethernet, "eth", none, some .default⟩])] ∧
    ¬ NamesDiffer [⟨[.keyword .ethernet], false⟩, ⟨[.keyword .ethernet], true⟩] ∧
    ¬ AllUsable exampleParser [⟨[.keyword .ethernet], false⟩, ⟨[.keyword .ethernet], true⟩] := by
  have heth : IsIdentifier "eth" := ⟨⟨'e', ['t', 'h'], by decide⟩, by decide⟩
  refine ⟨?_, by decide, ?_, ?_⟩
  · rw [List.forall_mem_cons, List.forall_mem_singleton]
    exact ⟨⟨by decide, List.forall_mem_singleton.mpr heth, by decide⟩,
      by decide, List.forall_mem_singleton.mpr heth, by decide⟩
  · intro hdiffer
    exact hdiffer ⟨[.keyword .ethernet], false⟩ List.mem_cons_self ⟨[.keyword .ethernet], true⟩
      (List.mem_cons_of_mem _ (List.mem_singleton_self _)) (by decide) rfl
  · intro husable
    have hcast := husable [⟨[.keyword .ethernet], false⟩] ⟨[.keyword .ethernet], true⟩
      List.prefix_rfl (by decide)
    revert hcast
    decide

end Libmoon.Packet
