import Libmoon.Packet.NamedArgs

/-! # Two ways to set the lengths

`pkt:setLength(length)` runs code that `packetSetLength` has generated for the packet
type, with the size of the headers in front as a constant. `pkt:fill{pktLength = length}`
adds up the sizes of the headers as it fills them, and lets each of them derive its
length. Both are followed through the headers here.
-/

namespace Libmoon.Packet

open Foundation

/-- The sub-types of a protocol that have a metatype. -/
def Proto.subTypes : Proto → List (Option SubType)
  | .ethernet => [some .default, some .vlan, some .qinq]
  | .sflow => [some .ip4]
  | _ => [none]

/-- What `createStack` builds: the names of the members are different. -/
structure PacketType where
  headers : List HeaderData
  names : (headers.map HeaderData.name).Nodup
  subTypes : ∀ header ∈ headers, header.subType ∈ header.proto.subTypes

/-- The headers with a length that `packetSetLength` knows, and what it subtracts besides
the headers in front. -/
def Proto.lengthBase : Proto → Option Nat
  | .ip4 | .udp | .ptp | .ipfix => some 0
  | .ip6 => some 40
  | _ => none

/-- The function that `packetSetLength` generates: which member gets which length. The
names it compares have the sub-type at their end, and the sizes are those of the structs
without a variable member. -/
def setLengthCalls (length : ℚ) : Nat → List HeaderData → List (String × ℚ)
  | _, [] => []
  | accumulatedLength, header :: rest =>
      let calls := setLengthCalls length
        (accumulatedLength + headerSize header.proto header.subType) rest
      match if header.subType = none then header.proto.lengthBase else none with
      | some base => (header.name, length - (accumulatedLength + base : Nat)) :: calls
      | none => calls

namespace PacketType

/-- A member of that name hides the function of the packet. -/
def Hides (type : PacketType) (function : String) : Prop :=
  function ∈ type.headers.map HeaderData.name

instance (type : PacketType) (function : String) : Decidable (type.Hides function) :=
  inferInstanceAs (Decidable (_ ∈ _))

/-- `pkt:setLength(length)`. -/
def setLength (type : PacketType) (length : ℚ) : Option (List (String × ℚ)) :=
  if type.Hides "setLength" then none else some (setLengthCalls length 0 type.headers)

end PacketType

/-- The default of a header's `setLength`. -/
def defaultLength : Proto → ℚ
  | .ip4 => 48
  | .ip6 => 8
  | .udp => 28
  | _ => 0

/-- The number that `setLength` of a header is left with. -/
def lengthNumber (proto : Proto) (arg : Option Value) : Option ℚ :=
  if truthy arg then
    match arg with
    | some (.number number) => some number
    | _ => none
  else some (defaultLength proto)

/-- `self.len = hton16(int)`. -/
def storeLength (number : ℚ) : BitVec 16 := (bswap16 (tobit number)).setWidth 16

/-- `getLength`. -/
def getLength (field : BitVec 16) : ℤ := (bswap16 (field.setWidth 32)).toInt

theorem getLength_storeLength {number : ℕ} (hnumber : number < 2 ^ 16) :
    getLength (storeLength number) = number := by
  have hword : BitVec.ofNat 32 number = (BitVec.ofNat 16 number).setWidth 32 := by
    apply BitVec.eq_of_toNat_eq
    simp only [BitVec.toNat_setWidth, BitVec.toNat_ofNat]
    omega
  rw [getLength, storeLength, tobit_natCast, hword, bswap16_stored]
  rw [BitVec.toInt_eq_toNat_of_lt]
  · simp only [BitVec.toNat_setWidth, BitVec.toNat_ofNat]
    omega
  · simp only [BitVec.toNat_setWidth, BitVec.toNat_ofNat]
    omega

/-! ## Keys -/

/-- A key that does not end like a length is none. -/
theorem length_key_ne {name pre suffix : String} (hlast : suffix.toList.getLast? ≠ some 'h')
    (hsuffix : suffix.toList ≠ []) : name ++ "Length" ≠ pre ++ suffix := by
  intro heq
  have hlists : name.toList ++ "Length".toList = pre.toList ++ suffix.toList := by
    rw [← String.toList_append, heq, String.toList_append]
  have hlasts := congrArg List.getLast? hlists
  rw [List.getLast?_append_of_ne_nil _ hsuffix] at hlasts
  rw [List.getLast?_append_of_ne_nil _ (by decide)] at hlasts
  exact hlast hlasts.symm

theorem headerLength_key (pre : String) : pre ++ "HeaderLength" = pre ++ "Header" ++ "Length" := by
  rw [String.append_assoc]
  rfl

theorem pktLength_key : "pktLength" = "pkt" ++ "Length" := rfl

theorem append_header_ne (pre : String) : pre ++ "Header" ≠ "pkt" := by
  intro heq
  have hlists : pre.toList ++ "Header".toList = "pkt".toList := by
    rw [← String.toList_append, heq]
  have hlength := congrArg List.length hlists
  simp at hlength

theorem header_ne (pre : String) : pre ++ "Header" ≠ pre := by
  intro heq
  have hlength := congrArg String.length heq
  simp [String.length_append] at hlength

namespace NamedArgs

variable {args : NamedArgs} {key other : String} {value : Value}

theorem set_of_ne (hne : other ≠ key) : args.set key value other = args other :=
  Function.update_of_ne hne _ _

theorem setDefault_of_ne (hne : other ≠ key) : args.setDefault key value other = args other := by
  unfold setDefault
  split
  next => rfl
  next => exact set_of_ne hne

theorem setFound_of_ne {found : Option ℚ} (hne : other ≠ key) :
    args.setFound key found other = args other := by
  unfold setFound
  split
  next => exact setDefault_of_ne hne
  next => rfl

end NamedArgs

/-! ## The lengths that are there already -/

/-- The value that is in the table as the length of a member before the member is filled:
`pktLength` itself, or the header length of an IPv4 header in front. -/
def presetLength (before : List HeaderData) (length : ℚ) (name : String) : Option ℚ :=
  if name = "pkt" then some length
  else
    (before.find? fun other => decide (other.proto = .ip4 ∧ other.name ++ "Header" = name)).map
      fun other => (other.size : ℚ) / 4

theorem presetLength_concat {before : List HeaderData} {header : HeaderData} {length : ℚ}
    {name : String} (hne : ¬ (header.proto = .ip4 ∧ header.name ++ "Header" = name)) :
    presetLength (before ++ [header]) length name = presetLength before length name := by
  simp [presetLength, List.find?_append, hne]

/-- What the table says about lengths when some headers have been filled. -/
structure LengthArgs (before : List HeaderData) (length : ℚ) (args : NamedArgs) : Prop where
  pktLength : args "pktLength" = some (.number length)
  preset : ∀ name, name ∉ before.map HeaderData.name →
    args (name ++ "Length") = (presetLength before length name).map .number

namespace LengthArgs

variable {before : List HeaderData} {header : HeaderData} {length : ℚ} {args args' : NamedArgs}

/-- The length of a header is derived unless there is one. -/
theorem setLength (hargs : LengthArgs before length args)
    (hnew : header.name ∉ before.map HeaderData.name) (accumulatedLength : Nat) :
    ∃ args', args.setLength header.name accumulatedLength = some args' ∧
      args' (header.name ++ "Length") = some (.number
        ((presetLength before length header.name).getD (length - accumulatedLength))) ∧
      args' "pktLength" = args "pktLength" ∧
      ∀ name, name ≠ header.name → args' (name ++ "Length") = args (name ++ "Length") := by
  have hkey := hargs.preset header.name hnew
  have hpkt := hargs.pktLength
  unfold NamedArgs.setLength
  rw [hkey]
  cases hpreset : presetLength before length header.name with
  | some preset =>
      refine ⟨args, by simp [truthy], ?_, rfl, fun _ _ => rfl⟩
      rw [hkey, hpreset]
      rfl
  | none =>
      refine ⟨args.set (header.name ++ "Length") (.number (length - accumulatedLength)),
        by simp [truthy, hpkt], ?_, ?_, ?_⟩
      · simp [NamedArgs.set]
      · apply NamedArgs.set_of_ne
        rw [pktLength_key]
        intro heq
        rw [← String.append_left_inj "Length" |>.mp heq, presetLength, if_pos rfl] at hpreset
        cases hpreset
      · intro name hne
        apply NamedArgs.set_of_ne
        exact fun heq => hne (String.append_left_inj "Length" |>.mp heq)

/-- Headers other than IPv4 leave the lengths of other members alone. -/
theorem concat (hargs : LengthArgs before length args) (hproto : header.proto ≠ .ip4)
    (hpkt : args' "pktLength" = args "pktLength")
    (hagree : ∀ name, name ≠ header.name → args' (name ++ "Length") = args (name ++ "Length")) :
    LengthArgs (before ++ [header]) length args' := by
  refine ⟨hpkt.trans hargs.pktLength, ?_⟩
  intro name hname
  simp only [List.map_append, List.map_singleton, List.mem_append, List.mem_singleton,
    not_or] at hname
  rw [hagree name hname.2, hargs.preset name hname.1, presetLength_concat]
  exact fun hip4 => hproto hip4.1

/-- An IPv4 header leaves its header length, which is the length of a member that is called
so. -/
theorem concat_ip4 (hargs : LengthArgs before length args) (hproto : header.proto = .ip4)
    (hpkt : args' "pktLength" = args "pktLength")
    (hagree : ∀ name, name ≠ header.name → args' (name ++ "Length") = args (name ++ "Length")) :
    LengthArgs (before ++ [header]) length
      (args'.setDefault (header.name ++ "HeaderLength") (.number ((header.size : ℚ) / 4))) := by
  rw [headerLength_key]
  have hkey {name : String} (hne : name ≠ header.name ++ "Header") :
      name ++ "Length" ≠ header.name ++ "Header" ++ "Length" :=
    fun heq => hne (String.append_left_inj "Length" |>.mp heq)
  refine ⟨?_, ?_⟩
  · rw [pktLength_key, NamedArgs.setDefault_of_ne (hkey (append_header_ne _).symm)]
    exact hpkt.trans hargs.pktLength
  · intro name hname
    simp only [List.map_append, List.map_singleton, List.mem_append, List.mem_singleton,
      not_or] at hname
    have hbefore := (hagree name hname.2).trans (hargs.preset name hname.1)
    by_cases hheader : name = header.name ++ "Header"
    · subst hheader
      have hpreset : presetLength (before ++ [header]) length (header.name ++ "Header") =
          some ((presetLength before length (header.name ++ "Header")).getD
            ((header.size : ℚ) / 4)) := by
        simp only [presetLength, append_header_ne, if_false, List.find?_append]
        cases before.find? _ <;> simp [hproto]
      rw [hpreset, NamedArgs.setDefault, hbefore]
      cases hfound : presetLength before length (header.name ++ "Header") with
      | some preset => simp [truthy, hbefore, hfound]
      | none => simp [truthy, NamedArgs.set]
    · rw [NamedArgs.setDefault_of_ne (hkey hheader), hbefore, presetLength_concat]
      exact fun hip4 => hheader hip4.2.symm

end LengthArgs

theorem setDefaultAddresses_length (header : HeaderData) (args : NamedArgs) (name : String) :
    header.setDefaultAddresses args (name ++ "Length") = args (name ++ "Length") := by
  have hsuffix : ∀ address ∈ defaultAddresses header.proto,
      address.1.toList.getLast? ≠ some 'h' ∧ address.1.toList ≠ [] := by
    cases header.proto <;> decide
  unfold HeaderData.setDefaultAddresses
  revert hsuffix
  induction defaultAddresses header.proto generalizing args with
  | nil => exact fun _ => rfl
  | cons address rest ih =>
      intro hsuffix
      obtain ⟨hlast, hne⟩ := hsuffix address List.mem_cons_self
      rw [List.foldl_cons, ih _ fun other hother => hsuffix other (List.mem_cons_of_mem _ hother)]
      exact NamedArgs.setDefault_of_ne (length_key_ne hlast hne)

theorem LengthArgs.setDefaultAddresses {before : List HeaderData} {length : ℚ} {args : NamedArgs}
    (hargs : LengthArgs before length args) (header : HeaderData) :
    LengthArgs before length (header.setDefaultAddresses args) := by
  refine ⟨?_, ?_⟩
  · rw [pktLength_key, setDefaultAddresses_length]
    exact hargs.pktLength
  · intro name hname
    rw [setDefaultAddresses_length]
    exact hargs.preset name hname

/-- What a header adds to the table: its length, arguments that are no lengths, and the
header length of IPv4. -/
theorem setDefaultNamedArgs_eq (header : HeaderData) (nextHeader : Option Proto)
    (accumulatedLength headerLength : Nat) :
    ∃ others : NamedArgs → NamedArgs,
      (∀ args name, others args (name ++ "Length") = args (name ++ "Length")) ∧
      ∀ args, header.setDefaultNamedArgs args nextHeader accumulatedLength headerLength =
        (match header.proto.lengthBase with
          | some base => args.setLength header.name (accumulatedLength + base)
          | none => some args).map fun args =>
            if header.proto = Proto.ip4 then
              (others args).setDefault (header.name ++ "HeaderLength") (.number (headerLength / 4))
            else others args := by
  have hfound (suffix : String) (found : Option ℚ) (hlast : suffix.toList.getLast? ≠ some 'h')
      (hsuffix : suffix.toList ≠ []) (args : NamedArgs) (name : String) :
      args.setFound (header.name ++ suffix) found (name ++ "Length") = args (name ++ "Length") :=
    NamedArgs.setFound_of_ne (length_key_ne hlast hsuffix)
  unfold HeaderData.setDefaultNamedArgs
  -- the other defaults, besides the header length of ip4, are not for a length
  cases header.proto with
  | ethernet =>
      refine ⟨fun args =>
        let args := args.setFound (header.name ++ "Type") (nextHeader.bind etherTypeOf)
        if nextHeader = some .lacp then
          args.set (header.name ++ "Dst") (.text "01:80:c2:00:00:02")
        else args, ?_, fun args => rfl⟩
      intro args name
      dsimp only
      split
      next =>
        rw [NamedArgs.set_of_ne (length_key_ne (by decide) (by decide))]
        exact hfound _ _ (by decide) (by decide) args name
      next => exact hfound _ _ (by decide) (by decide) args name
  | ip4 =>
      refine ⟨fun args =>
        args.setFound (header.name ++ "Protocol") (nextHeader.bind (ipProtocolOf 0x01)),
        hfound _ _ (by decide) (by decide), ?_⟩
      intro args
      exact Option.map_eq_bind.symm
  | ip6 =>
      refine ⟨fun args =>
        args.setFound (header.name ++ "NextHeader") (nextHeader.bind (ipProtocolOf 0x3a)),
        hfound _ _ (by decide) (by decide), ?_⟩
      intro args
      exact Option.map_eq_bind.symm
  | udp =>
      refine ⟨fun args => args.setFound (header.name ++ "Dst") (nextHeader.bind udpPortOf),
        hfound _ _ (by decide) (by decide), ?_⟩
      intro args
      exact Option.map_eq_bind.symm
  | tcp =>
      refine ⟨fun args => args.setDefault (header.name ++ "DataOffset") (.number (headerLength / 4)),
        ?_, fun _ => rfl⟩
      intro args name
      exact NamedArgs.setDefault_of_ne (length_key_ne (by decide) (by decide))
  | _ => exact ⟨id, fun _ _ => rfl, fun args => by simp [Proto.lengthBase]⟩

/-- What filling a header does to the lengths. -/
theorem LengthArgs.setDefaultNamedArgs {before : List HeaderData} {header : HeaderData}
    {length : ℚ} {args : NamedArgs} (hargs : LengthArgs before length args)
    (hnew : header.name ∉ before.map HeaderData.name) (nextHeader : Option Proto)
    (accumulatedLength : Nat) :
    ∃ args', header.setDefaultNamedArgs args nextHeader accumulatedLength header.size = some args' ∧
      (∀ base, header.proto.lengthBase = some base →
        args' (header.name ++ "Length") = some (.number
          ((presetLength before length header.name).getD
            (length - (accumulatedLength + base : ℕ))))) ∧
      LengthArgs (before ++ [header]) length args' := by
  obtain ⟨others, hothers, heq⟩ :=
    setDefaultNamedArgs_eq header nextHeader accumulatedLength header.size
  rw [heq]
  cases hbase : header.proto.lengthBase with
  | none =>
      have hproto : header.proto ≠ .ip4 := by
        intro hproto
        simp [hproto, Proto.lengthBase] at hbase
      refine ⟨others args, by simp [hproto], nofun, ?_⟩
      exact hargs.concat hproto (hothers args "pkt") fun name _ => hothers args name
  | some base =>
      obtain ⟨args', hset, hvalue, hpkt, hagree⟩ :=
        hargs.setLength hnew (accumulatedLength + base)
      have hpkt' := (hothers args' "pkt").trans hpkt
      have hagree' := fun name hne => (hothers args' name).trans (hagree name hne)
      simp only [hset, Option.map_some]
      refine ⟨_, rfl, ?_, ?_⟩
      · rintro _ ⟨⟩
        have hlength := (hothers args' header.name).trans hvalue
        split
        next =>
          rw [NamedArgs.setDefault_of_ne, hlength]
          rw [headerLength_key]
          exact fun heq => header_ne _ (String.append_left_inj "Length" |>.mp heq).symm
        next => exact hlength
      · split
        next hproto => exact hargs.concat_ip4 hproto hpkt' hagree'
        next hproto => exact hargs.concat hproto hpkt' hagree'

/-! ## Runs over the headers -/

/-- The size of the headers in the packet struct. -/
def structSize (headers : List HeaderData) : Nat := (headers.map HeaderData.size).sum

theorem structSize_cons (header : HeaderData) (rest : List HeaderData) :
    structSize (header :: rest) = header.size + structSize rest := by
  rw [structSize, List.map_cons, List.sum_cons, structSize]

end Libmoon.Packet
