import Libmoon.Foundation.StructLayout

/-! # Device configuration

`device.config` fills a `struct libmoon_device_config` that it has declared for the
FFI and passes it to `dpdk_configure_device`, which reads it through the declaration
of `device.c`. The declarations differ in their last member. What the C function
reads is compared here with what the Lua function has set; memory around the
structure is arbitrary. The DPDK calls and the offload flags are left out.
-/

namespace Libmoon.Device

open Foundation

/-! ## The two declarations -/

/-- The members of `struct libmoon_device_config`. -/
inductive Field where
  | port
  | mempools
  | rxQueues
  | txQueues
  | rxDescs
  | txDescs
  | dropEnable
  | enableRss
  | disableOffloads
  | stripVlan
  | rssMask
  | enableRssSymm
deriving DecidableEq

/-- The declaration in `device.c`. -/
def cMembers : List (Member Field) :=
  [⟨.port, 4⟩, ⟨.mempools, 8⟩, ⟨.rxQueues, 2⟩, ⟨.txQueues, 2⟩, ⟨.rxDescs, 2⟩, ⟨.txDescs, 2⟩,
    ⟨.dropEnable, 1⟩, ⟨.enableRss, 1⟩, ⟨.disableOffloads, 1⟩, ⟨.stripVlan, 1⟩, ⟨.rssMask, 4⟩,
    ⟨.enableRssSymm, 1⟩]

/-- The declaration in `dpdkc.lua`. -/
def luaMembers : List (Member Field) :=
  [⟨.port, 4⟩, ⟨.mempools, 8⟩, ⟨.rxQueues, 2⟩, ⟨.txQueues, 2⟩, ⟨.rxDescs, 2⟩, ⟨.txDescs, 2⟩,
    ⟨.dropEnable, 1⟩, ⟨.enableRss, 1⟩, ⟨.disableOffloads, 1⟩, ⟨.stripVlan, 1⟩, ⟨.rssMask, 4⟩]

/-! ## The Lua side -/

/-- `struct rte_eth_desc_lim`. -/
structure DescLim where
  nbMax : UInt16
  nbMin : UInt16
  nbAlign : UInt16

/-- What DPDK and the driver module tell about the device, and where the array of
mempools is allocated. -/
structure DeviceInfo where
  maxPorts : Nat
  devCountAvail : UInt16
  initialized : Bool
  maxRxQueues : UInt16
  maxTxQueues : UInt16
  rxDescLim : DescLim
  txDescLim : DescLim
  disableOffloads : Option Bool
  mempools : UInt64
  flowTypeRssOffloads : BitVec 64

/-- The named arguments that the structure is filled from. -/
structure Args where
  port : Nat
  mempools : Option (List UInt64)
  rxQueues : Option Nat
  txQueues : Option Nat
  rxDescs : Option Nat
  txDescs : Option Nat
  dropEnable : Option Bool
  rssQueues : Option Nat
  rssFunctions : Option (List (BitVec 64))
  disableOffloads : Option Bool
  stripVlan : Option Bool
  enableRssSymm : Option Bool

inductive ConfigError where
  | maxPorts
  | noSuchPort
  | rxQueues
  | txQueues
  | rxDescs
  | txDescs
  | mempools
  | noQueues
deriving DecidableEq

/-- The table that the structure is initialised with. -/
structure Settings where
  port : Nat
  mempools : UInt64
  rxQueues : Nat
  txQueues : Nat
  rxDescs : Nat
  txDescs : Nat
  dropEnable : Bool
  enableRss : Bool
  rssMask : BitVec 64
  disableOffloads : Bool
  stripVlan : Bool
  enableRssSymm : Bool
deriving DecidableEq

/-- The number of descriptors is outside the limits. -/
def DescLim.Excludes (lim : DescLim) (descs : Nat) : Prop :=
  descs > lim.nbMax.toNat ∨ descs < lim.nbMin.toNat ∨
    lim.nbAlign.toNat = 0 ∨ descs % lim.nbAlign.toNat ≠ 0

instance (lim : DescLim) (descs : Nat) : Decidable (lim.Excludes descs) :=
  inferInstanceAs (Decidable (_ ∨ _))

/-- The flow types whose `ETH_RSS_*` flags are the default. -/
def defaultRssFlows : List Nat :=
  [2, 3, 4, 5, 6, 7, 8, 9, 10, 11, 12, 13, 14, 15, 16, 17, 18, 19, 20, 21, 23, 24, 25, 26, 27, 28,
    29, 30]

def defaultRssFunctions : List (BitVec 64) := defaultRssFlows.map fun flow => 1#64 <<< flow

/-- The loop that combines the flags. -/
def combineRss (functions : List (BitVec 64)) : BitVec 64 :=
  functions.foldl (fun rssMask function => rssMask ||| function) 0

/-- `device.config` up to the call of `dpdk_configure_device`, which it does not come to
for a device that is configured already. -/
def config (info : DeviceInfo) (args : Args) : Except ConfigError (Option Settings) :=
  let rxQueues := args.rxQueues.getD 1
  let txQueues := args.txQueues.getD 1
  let rxDescs := args.rxDescs.getD 512
  let txDescs := args.txDescs.getD 1024
  if args.port ≥ info.maxPorts then .error .maxPorts
  else if args.port ≥ info.devCountAvail.toNat then .error .noSuchPort
  else if info.initialized then .ok none
  else if rxQueues > info.maxRxQueues.toNat then .error .rxQueues
  else if txQueues > info.maxTxQueues.toNat then .error .txQueues
  else if info.rxDescLim.Excludes rxDescs then .error .rxDescs
  else if info.txDescLim.Excludes txDescs then .error .txDescs
  else if args.mempools.any fun mempools => mempools.length ≠ rxQueues then .error .mempools
  else if rxQueues = 0 ∨ txQueues = 0 then .error .noQueues
  else .ok (some {
    port := args.port
    mempools := info.mempools
    rxQueues := rxQueues
    txQueues := txQueues
    rxDescs := rxDescs
    txDescs := txDescs
    dropEnable := args.dropEnable.getD true
    enableRss := args.rssQueues.getD 0 > 1
    rssMask := combineRss (args.rssFunctions.getD defaultRssFunctions)
    disableOffloads := (args.disableOffloads.orElse fun _ => info.disableOffloads).getD false
    stripVlan := args.stripVlan.getD true
    enableRssSymm := args.enableRssSymm.getD false })

/-- The number that is set for a member; a nil or false leaves it zero. -/
def Settings.value (settings : Settings) : Field → Nat
  | .port => settings.port
  | .mempools => settings.mempools.toNat
  | .rxQueues => settings.rxQueues
  | .txQueues => settings.txQueues
  | .rxDescs => settings.rxDescs
  | .txDescs => settings.txDescs
  | .dropEnable => settings.dropEnable.toNat
  | .enableRss => settings.enableRss.toNat
  | .disableOffloads => settings.disableOffloads.toNat
  | .stripVlan => settings.stripVlan.toNat
  | .rssMask => settings.rssMask.toNat
  | .enableRssSymm => settings.enableRssSymm.toNat

/-- `ffi.new("struct libmoon_device_config", {...})` at an address: the members of the
declaration are set, other names in the table are ignored. -/
def ffiNew (settings : Settings) (base : Nat) (heap : Memory) : Memory :=
  fillSlots base settings.value (layout luaMembers)
    (heap.store base (List.replicate (sizeOfStruct luaMembers) 0))

/-! ## The C side -/

/-- Where `device.c` finds a member. -/
def cSlot (field : Field) : Slot Field :=
  ((layout cMembers).find? fun slot => slot.name == field).getD ⟨field, 0, 0⟩

/-- `cfg->field`. -/
def readField (mem : Memory) (base : Nat) (field : Field) : Traced Nat :=
  ⟨(mem.word (base + (cSlot field).offset) (cSlot field).size).toNat,
    [⟨base + (cSlot field).offset, (cSlot field).size⟩]⟩

/-- What is passed on to DPDK. -/
structure DeviceSetup where
  port : Nat
  rxQueues : Nat
  txQueues : Nat
  rxDescs : Nat
  txDescs : Nat
  mempools : Nat
  dropEnable : Nat
  disableOffloads : Bool
  stripVlan : Bool
  enableRss : Bool
  symmetricKey : Bool
  rssHf : BitVec 64

def defaultRxDescs : Nat := 512
def defaultTxDescs : Nat := 256

/-- `dpdk_configure_device`, where the DPDK calls succeed. Without RSS its
configuration is cleared. -/
def dpdkConfigureDevice (info : DeviceInfo) (mem : Memory) (base : Nat) : Traced DeviceSetup := do
  let port ← readField mem base .port
  let enableRssSymm ← readField mem base .enableRssSymm
  let rssMask ← readField mem base .rssMask
  let disableOffloads ← readField mem base .disableOffloads
  let stripVlan ← (if disableOffloads ≠ 0 then pure 0 else readField mem base .stripVlan)
  let enableRss ← readField mem base .enableRss
  let rxQueues ← readField mem base .rxQueues
  let txQueues ← readField mem base .txQueues
  let txDescs ← readField mem base .txDescs
  let dropEnable ← readField mem base .dropEnable
  let rxDescs ← readField mem base .rxDescs
  let mempools ← readField mem base .mempools
  return {
    port := port
    rxQueues := rxQueues
    txQueues := txQueues
    rxDescs := if rxDescs ≠ 0 then rxDescs else defaultRxDescs
    txDescs := if txDescs ≠ 0 then txDescs else defaultTxDescs
    mempools := mempools
    dropEnable := dropEnable
    disableOffloads := disableOffloads ≠ 0
    stripVlan := stripVlan ≠ 0
    enableRss := enableRss ≠ 0
    symmetricKey := enableRss ≠ 0 ∧ enableRssSymm ≠ 0
    rssHf := if enableRss ≠ 0 then BitVec.ofNat 64 rssMask &&& info.flowTypeRssOffloads else 0 }

/-- Both sides agree: every member is read as it was set, no read leaves the structure
that was allocated, and the hash functions are those of the table that the device has. -/
structure ConfigAgrees (info : DeviceInfo) (settings : Settings) (base : Nat) (heap : Memory) :
    Prop where
  fields : ∀ field,
    (readField (ffiNew settings base heap) base field).value = settings.value field
  inside : ∀ span ∈ (dpdkConfigureDevice info (ffiNew settings base heap) base).reads,
    base ≤ span.start ∧ span.start + span.length ≤ base + sizeOfStruct luaMembers
  rssHf : (dpdkConfigureDevice info (ffiNew settings base heap) base).value.rssHf =
    settings.rssMask &&& info.flowTypeRssOffloads

/-! ## What is read -/

theorem luaMembers_size : ∀ member ∈ luaMembers, 0 < member.size := by decide

/-- The members that both declarations have stand at the same place. -/
theorem cSlot_mem {field : Field} (hshared : field ≠ .enableRssSymm) :
    cSlot field ∈ layout luaMembers ∧ (cSlot field).name = field := by
  cases field <;> first
    | exact absurd rfl hshared
    | exact ⟨by simp [cSlot, layout, placeFrom, cMembers, luaMembers, alignUp], rfl⟩

/-- A shared member is read as it was set, cut to its size. -/
theorem readField_ffiNew {field : Field} (hshared : field ≠ .enableRssSymm) (settings : Settings)
    (base : Nat) (heap : Memory) :
    (readField (ffiNew settings base heap) base field).value =
      settings.value field % 2 ^ (8 * (cSlot field).size) := by
  obtain ⟨hmem, hname⟩ := cSlot_mem hshared
  rw [readField, ffiNew, layout, word_fillSlots luaMembers_size base 0 _ _ _ hmem, hname,
    BitVec.toNat_ofNat]

/-- What the checks of `config` leave of the numbers. -/
structure InRange (settings : Settings) : Prop where
  port : settings.port < 2 ^ 16
  rxQueues : settings.rxQueues < 2 ^ 16
  txQueues : settings.txQueues < 2 ^ 16
  rxDescs : settings.rxDescs < 2 ^ 16
  txDescs : settings.txDescs < 2 ^ 16

theorem DescLim.lt_of_not_excludes {lim : DescLim} {descs : Nat} (hlim : ¬ lim.Excludes descs) :
    descs < 2 ^ 16 := by
  have hmax := lim.nbMax.toNat_lt
  rw [Excludes] at hlim
  omega

theorem guard_eq_ok {p : Prop} [Decidable p] {error : ConfigError}
    {rest : Except ConfigError (Option Settings)} {result : Option Settings} :
    (if p then .error error else rest) = .ok result ↔ ¬ p ∧ rest = .ok result := by
  by_cases hp : p <;> simp [hp]

theorem inRange_of_config {info : DeviceInfo} {args : Args} {settings : Settings}
    (hconfig : config info args = .ok (some settings)) : InRange settings := by
  have hports := info.devCountAvail.toNat_lt
  have hrx := info.maxRxQueues.toNat_lt
  have htx := info.maxTxQueues.toNat_lt
  simp only [config, guard_eq_ok] at hconfig
  obtain ⟨-, hport, hconfig⟩ := hconfig
  split at hconfig
  · cases hconfig
  · simp only [guard_eq_ok] at hconfig
    obtain ⟨hrxQueues, htxQueues, hrxDescs, htxDescs, -, -, hsettings⟩ := hconfig
    cases hsettings
    exact {
      port := Nat.lt_trans (Nat.not_le.mp hport) hports
      rxQueues := Nat.lt_of_le_of_lt (Nat.not_lt.mp hrxQueues) hrx
      txQueues := Nat.lt_of_le_of_lt (Nat.not_lt.mp htxQueues) htx
      rxDescs := DescLim.lt_of_not_excludes hrxDescs
      txDescs := DescLim.lt_of_not_excludes htxDescs }

/-- Every member except the mask and the one that Lua does not declare is read as it was set. -/
theorem readField_of_config {info : DeviceInfo} {args : Args} {settings : Settings}
    (hconfig : config info args = .ok (some settings)) {field : Field}
    (hmask : field ≠ .rssMask) (hshared : field ≠ .enableRssSymm) (base : Nat) (heap : Memory) :
    (readField (ffiNew settings base heap) base field).value = settings.value field := by
  have hrange := inRange_of_config hconfig
  rw [readField_ffiNew hshared]
  apply Nat.mod_eq_of_lt
  cases field with
  | port => exact Nat.lt_trans hrange.port (by decide)
  | mempools => exact settings.mempools.toNat_lt
  | rxQueues => exact hrange.rxQueues
  | txQueues => exact hrange.txQueues
  | rxDescs => exact hrange.rxDescs
  | txDescs => exact hrange.txDescs
  | dropEnable => exact Nat.lt_of_lt_of_le settings.dropEnable.toNat_lt (by decide)
  | enableRss => exact Nat.lt_of_lt_of_le settings.enableRss.toNat_lt (by decide)
  | disableOffloads => exact Nat.lt_of_lt_of_le settings.disableOffloads.toNat_lt (by decide)
  | stripVlan => exact Nat.lt_of_lt_of_le settings.stripVlan.toNat_lt (by decide)
  | rssMask => exact absurd rfl hmask
  | enableRssSymm => exact absurd rfl hshared

/-- The hash functions that are used: the lower half of the flags, or none without RSS. -/
theorem rssHf_dpdkConfigureDevice (info : DeviceInfo) (settings : Settings) (base : Nat)
    (heap : Memory) :
    (dpdkConfigureDevice info (ffiNew settings base heap) base).value.rssHf =
      if settings.enableRss then
        (settings.rssMask.setWidth 32).setWidth 64 &&& info.flowTypeRssOffloads
      else 0 := by
  have hmask : (readField (ffiNew settings base heap) base .rssMask).value =
      (settings.rssMask.setWidth 32).toNat := @readField_ffiNew .rssMask nofun settings base heap
  have hrss : (readField (ffiNew settings base heap) base .enableRss).value =
      settings.enableRss.toNat % 2 ^ 8 := @readField_ffiNew .enableRss nofun settings base heap
  simp only [dpdkConfigureDevice, Traced.value_bind, Traced.value_pure, hmask, hrss,
    BitVec.ofNat_toNat]
  cases settings.enableRss <;> simp

/-- The symmetric key is asked for with the byte behind the structure. -/
theorem reads_enableRssSymm (info : DeviceInfo) (mem : Memory) (base : Nat) :
    ⟨base + sizeOfStruct luaMembers, 1⟩ ∈ (dpdkConfigureDevice info mem base).reads := by
  have hread : (readField mem base .enableRssSymm).reads =
      [⟨base + sizeOfStruct luaMembers, 1⟩] := rfl
  simp only [dpdkConfigureDevice, Traced.reads_bind, hread]
  simp

/-- Whatever the arguments are, `dpdk_configure_device` leaves the structure that it gets. -/
theorem config_never_agrees (info : DeviceInfo) (settings : Settings) (base : Nat)
    (heap : Memory) : ¬ ConfigAgrees info settings base heap := by
  intro hagrees
  have hinside := hagrees.inside _ (reads_enableRssSymm info _ base)
  have hend : base + sizeOfStruct luaMembers + 1 ≤ base + sizeOfStruct luaMembers := hinside.2
  omega

/-- A device that has everything. -/
def anyDevice : DeviceInfo where
  maxPorts := 32
  devCountAvail := 1
  initialized := false
  maxRxQueues := 16
  maxTxQueues := 16
  rxDescLim := ⟨4096, 64, 8⟩
  txDescLim := ⟨4096, 64, 8⟩
  disableOffloads := none
  mempools := 4096
  flowTypeRssOffloads := BitVec.allOnes 64

/-- `device.config{port = 0, rxQueues = 2, rssQueues = 2, enable_rss_symm = true}`. -/
def symmetricArgs : Args where
  port := 0
  mempools := none
  rxQueues := some 2
  txQueues := none
  rxDescs := none
  txDescs := none
  dropEnable := none
  rssQueues := some 2
  rssFunctions := none
  disableOffloads := none
  stripVlan := none
  enableRssSymm := some true

/-- What the structure is filled with then. -/
def symmetricSettings : Settings where
  port := 0
  mempools := 4096
  rxQueues := 2
  txQueues := 1
  rxDescs := 512
  txDescs := 1024
  dropEnable := true
  enableRss := true
  rssMask := 0x7fbffffc
  disableOffloads := false
  stripVlan := true
  enableRssSymm := true

theorem config_symmetricArgs : config anyDevice symmetricArgs = .ok (some symmetricSettings) :=
  rfl

/-- With zeros behind the structure, the symmetric key that was asked for is not used. -/
theorem symmetric_key_lost : ¬ ∀ (info : DeviceInfo) (args : Args) (settings : Settings)
    (base : Nat) (heap : Memory), config info args = .ok (some settings) →
      ConfigAgrees info settings base heap := by
  intro halways
  have hagrees := halways anyDevice symmetricArgs symmetricSettings 0 (fun _ => 0)
    config_symmetricArgs
  have hread : (readField (ffiNew symmetricSettings 0 fun _ => 0) 0 .enableRssSymm).value = 0 := by
    decide
  have hset := hagrees.fields .enableRssSymm
  rw [hread] at hset
  exact absurd hset (by decide)

end Libmoon.Device
