import Libmoon.Lacp.Status

/-! # Synchronisation with the partner

A port is in sync when its flags hold `SYNC` and not `DEF`. The task is run
beside an observer that keeps, for each port, what it transmitted last and
whether the latest valid LACPDU echoed it. The observer never acts, so the task
in an observed run is the task alone. The flags are set by an echo and reset by
an expiry only, which is compared here with the observer's answer.
-/

namespace Libmoon.Lacp

open Foundation

variable {numPorts : Nat}

/-! ## The observer -/

/-- What was said last in each direction: the actor information of the port's
latest LACPDU, and whether the partner's latest valid one echoed it on arrival. -/
structure Exchange where
  sent : Option Info
  matched : Bool

def Exchange.initial : Exchange := ⟨none, false⟩

def Exchange.receive (exchange : Exchange) (pdu : Pdu) : Exchange :=
  if pdu.validate then
    { exchange with matched := exchange.sent.any fun info => info.equalsIgnoreState pdu.partner }
  else
    exchange

def Exchange.transmit (exchange : Exchange) (pdu : Pdu) : Exchange :=
  { exchange with sent := some pdu.actor }

/-- The task and its observer. -/
structure Observed (numPorts : Nat) where
  task : Task numPorts
  exchanges : Fin numPorts → Exchange

def Observed.initial (numPorts : Nat) [NeZero numPorts] : Observed numPorts :=
  ⟨.initial numPorts, fun _ => .initial⟩

/-- What the observer notes of one step. -/
def Observed.note (channel : Channel numPorts) (observed : Observed numPorts)
    (input : Input numPorts) : Fin numPorts → Exchange :=
  match observed.task.position with
  | .receiving i =>
      match input.received with
      | none => observed.exchanges
      | some pdu =>
          Function.update observed.exchanges i ((observed.exchanges i).receive pdu)
  | .transmitting _ =>
      if observed.task.due input then
        fun j => (observed.exchanges j).transmit
          (channel.transmitted j (observed.task.ports j) (input.expiryClock j))
      else
        observed.exchanges
  | .publishing => observed.exchanges

def observedTask [NeZero numPorts] (channel : Channel numPorts) :
    Machine (Observed numPorts) (Input numPorts) Unit where
  step observed input :=
    ((), ⟨observed.task.step channel input, observed.note channel input⟩)

theorem observed_task [NeZero numPorts] (channel : Channel numPorts)
    (observed : Observed numPorts) (inputs : List (Input numPorts)) :
    ((observedTask channel).after observed inputs).task =
      (lacpTask channel).after observed.task inputs := by
  induction inputs generalizing observed with
  | nil => rfl
  | cons input rest ih => exact ih _

/-! ## One port -/

/-- The flags say that the partner knows us. -/
def Port.Synced (port : Port) : Prop :=
  Flagged port.stateFlags stateSync ∧ ¬ Flagged port.stateFlags stateDef

instance (port : Port) : Decidable port.Synced := inferInstanceAs (Decidable (_ ∧ _))

/-- A LACPDU echoes what the port remembers of its last transmission. -/
def Port.echoedBy (port : Port) (pdu : Pdu) : Bool :=
  port.actorInfo.equalsIgnoreState pdu.partner

/-- What ties a port to its exchange, whatever is received: the port remembers
what it sent, and neither a silent nor an expired port is in sync. -/
structure Remembers (port : Port) (exchange : Exchange) : Prop where
  actorInfo : port.actorInfo = exchange.sent.getD .zero
  silent : exchange.sent = none → exchange.matched = false
  expired : port.rxState = .expired → ¬ port.Synced

/-- While the port is current its flags say what the latest LACPDU did. -/
def Follows (port : Port) (exchange : Exchange) : Prop :=
  port.rxState = .current → (port.Synced ↔ exchange.matched = true)

instance (port : Port) (exchange : Exchange) : Decidable (Follows port exchange) :=
  inferInstanceAs (Decidable (_ → _))

theorem syncFlags_synced_iff (port : Port) (pdu : Pdu) :
    Flagged (port.syncFlags pdu) stateSync ∧ ¬ Flagged (port.syncFlags pdu) stateDef ↔
      port.echoedBy pdu = true ∨ port.Synced := by
  unfold Port.syncFlags
  split
  next hecho =>
      refine iff_of_true ⟨?_, ?_⟩ (.inl hecho)
      · rw [flagged_or, flagged_clear (by decide), flagged_or]
        exact .inl (.inr (by decide))
      · rw [flagged_or, not_or]
        exact ⟨not_flagged_clear_self _ _, by decide⟩
  next hecho => exact (or_iff_right hecho).symm

theorem receive_synced_iff (port : Port) {pdu : Pdu} (hvalid : pdu.validate = true) (clock : ℚ) :
    (port.receive pdu clock).Synced ↔ port.echoedBy pdu = true ∨ port.Synced := by
  rw [← syncFlags_synced_iff]
  simp only [Port.receive, hvalid, if_true, Port.Synced,
    colFlags_other stateSync (by decide), distFlags_other stateSync (by decide),
    colFlags_other stateDef (by decide), distFlags_other stateDef (by decide)]

theorem receive_of_invalid (port : Port) {pdu : Pdu} (hinvalid : ¬ pdu.validate = true)
    (clock : ℚ) : port.receive pdu clock = port := if_neg hinvalid

theorem exchange_receive_of_invalid (exchange : Exchange) {pdu : Pdu}
    (hinvalid : ¬ pdu.validate = true) : exchange.receive pdu = exchange := if_neg hinvalid

theorem receive_actorInfo (port : Port) (pdu : Pdu) (clock : ℚ) :
    (port.receive pdu clock).actorInfo = port.actorInfo := by
  unfold Port.receive
  split <;> rfl

theorem exchange_receive_sent (exchange : Exchange) (pdu : Pdu) :
    (exchange.receive pdu).sent = exchange.sent := by
  unfold Exchange.receive
  split <;> rfl

theorem transmit_actorInfo (channel : Channel numPorts) (i : Fin numPorts) (port : Port)
    (clock : ℚ) :
    (channel.transmit i port clock).actorInfo = (channel.transmitted i port clock).actor := rfl

/-- A transmission keeps a port in sync unless the port expires. -/
theorem transmit_synced_iff (channel : Channel numPorts) (i : Fin numPorts) (port : Port)
    (clock : ℚ) :
    (channel.transmit i port clock).Synced ↔ port.Synced ∧ clock ≤ port.rxStateTimeout := by
  have hmark : (channel.transmit i port clock).Synced ↔ (port.expire clock).Synced := by
    simp only [Port.Synced, Channel.transmit, Channel.send,
      markExpired_flag stateSync (by decide), markExpired_flag stateDef (by decide)]
  rw [hmark]
  unfold Port.expire
  split
  next hlate =>
      refine iff_of_false ?_ (fun hkept => absurd hkept.2 (not_le.mpr hlate))
      simp only [Port.Synced]
      decide
  next hlate => exact (and_iff_left (not_lt.mp hlate)).symm

theorem transmit_current_iff (channel : Channel numPorts) (i : Fin numPorts) (port : Port)
    (clock : ℚ) :
    (channel.transmit i port clock).rxState = .current ↔
      port.rxState = .current ∧ clock ≤ port.rxStateTimeout := by
  have hmark : (channel.transmit i port clock).rxState = (port.expire clock).rxState :=
    markExpired_rxState _
  rw [hmark]
  unfold Port.expire
  split
  next hlate => exact iff_of_false nofun (fun hkept => absurd hkept.2 (not_le.mpr hlate))
  next hlate => exact (and_iff_left (not_lt.mp hlate)).symm

section Exchanges

variable {port : Port} {exchange : Exchange}

theorem Remembers.receive (hport : Remembers port exchange) (pdu : Pdu) (clock : ℚ) :
    Remembers (port.receive pdu clock) (exchange.receive pdu) := by
  by_cases hvalid : pdu.validate = true
  · refine ⟨?_, ?_, ?_⟩
    · rw [receive_actorInfo, exchange_receive_sent]
      exact hport.actorInfo
    · intro hsilent
      rw [exchange_receive_sent] at hsilent
      simp [Exchange.receive, hvalid, hsilent]
    · intro hexpired
      simp [Port.receive, hvalid] at hexpired
  · rw [receive_of_invalid port hvalid, exchange_receive_of_invalid exchange hvalid]
    exact hport

theorem Remembers.transmit (hport : Remembers port exchange) (channel : Channel numPorts)
    (i : Fin numPorts) (clock : ℚ) :
    Remembers (channel.transmit i port clock)
      (exchange.transmit (channel.transmitted i port clock)) := by
  refine ⟨transmit_actorInfo channel i port clock, nofun, ?_⟩
  intro hexpired hsynced
  obtain ⟨hsynced, hfresh⟩ := (transmit_synced_iff channel i port clock).mp hsynced
  -- a port that is in sync was current, and still is unless it expired just now
  cases hstate : port.rxState with
  | expired => exact hport.expired hstate hsynced
  | current =>
      have hcurrent := (transmit_current_iff channel i port clock).mpr ⟨hstate, hfresh⟩
      exact RxState.noConfusion (hcurrent.symm.trans hexpired)

theorem Follows.transmit (hfollows : Follows port exchange) (channel : Channel numPorts)
    (i : Fin numPorts) (clock : ℚ) :
    Follows (channel.transmit i port clock)
      (exchange.transmit (channel.transmitted i port clock)) := by
  intro hcurrent
  obtain ⟨hcurrent, hfresh⟩ := (transmit_current_iff channel i port clock).mp hcurrent
  rw [transmit_synced_iff, and_iff_left hfresh]
  exact hfollows hcurrent

/-- What a valid LACPDU must be for the flags to go on following the exchange. -/
def Port.Expects (port : Port) (exchange : Exchange) (pdu : Pdu) : Prop :=
  pdu.validate = true →
    (port.Synced → port.echoedBy pdu = true) ∧
      (exchange.sent = none → port.echoedBy pdu = false)

instance (port : Port) (exchange : Exchange) (pdu : Pdu) :
    Decidable (port.Expects exchange pdu) := inferInstanceAs (Decidable (_ → _))

/-- A port in sync was matched, so it transmitted before. -/
theorem Remembers.sent_of_synced (hport : Remembers port exchange)
    (hfollows : Follows port exchange) (hsynced : port.Synced) : exchange.sent ≠ none := by
  intro hsilent
  cases hstate : port.rxState with
  | expired => exact hport.expired hstate hsynced
  | current =>
      have hmatched := (hfollows hstate).mp hsynced
      exact Bool.noConfusion ((hport.silent hsilent).symm.trans hmatched)

theorem receive_follows_iff (hport : Remembers port exchange)
    (hfollows : Follows port exchange) (pdu : Pdu) (clock : ℚ) :
    Follows (port.receive pdu clock) (exchange.receive pdu) ↔ port.Expects exchange pdu := by
  by_cases hvalid : pdu.validate = true
  · have hcurrent : (port.receive pdu clock).rxState = .current := by
      simp [Port.receive, hvalid]
    have hmatched : (exchange.receive pdu).matched =
        exchange.sent.any fun info => info.equalsIgnoreState pdu.partner := by
      simp [Exchange.receive, hvalid]
    rw [Follows, forall_prop_of_true hcurrent, receive_synced_iff port hvalid, hmatched,
      Port.Expects, forall_prop_of_true hvalid]
    have hinfo := hport.actorInfo
    cases hsent : exchange.sent with
    | none =>
        have hnot : ¬ port.Synced := fun hsynced => hport.sent_of_synced hfollows hsynced hsent
        simp [hnot]
    | some info =>
        obtain rfl : port.actorInfo = info := by simpa [hsent] using hinfo
        have hecho : port.actorInfo.equalsIgnoreState pdu.partner = port.echoedBy pdu := rfl
        simp [hecho]
  · rw [receive_of_invalid port hvalid, exchange_receive_of_invalid exchange hvalid]
    exact iff_of_true hfollows (fun h => absurd h hvalid)

end Exchanges

/-! ## Whole runs -/

def RemembersAll (observed : Observed numPorts) : Prop :=
  ∀ i, Remembers (observed.task.ports i) (observed.exchanges i)

/-- While a port is current, it is in sync exactly if its latest LACPDU matched. -/
def SyncFollows (observed : Observed numPorts) : Prop :=
  ∀ i, Follows (observed.task.ports i) (observed.exchanges i)

/-- A step receives only what the port expects: a port in sync is echoed by
every valid LACPDU, and no valid LACPDU that comes before the first transmission
has partner information that is all zero. -/
def ReceivesExpected (observed : Observed numPorts) (input : Input numPorts) : Prop :=
  match observed.task.position, input.received with
  | .receiving i, some pdu => (observed.task.ports i).Expects (observed.exchanges i) pdu
  | _, _ => True

instance (observed : Observed numPorts) (input : Input numPorts) :
    Decidable (ReceivesExpected observed input) :=
  match hposition : observed.task.position, hreceived : input.received with
  | .receiving i, some pdu =>
      decidable_of_iff ((observed.task.ports i).Expects (observed.exchanges i) pdu)
        (by simp [ReceivesExpected, hposition, hreceived])
  | .receiving _, none => isTrue (by simp [ReceivesExpected, hposition, hreceived])
  | .transmitting _, _ => isTrue (by simp [ReceivesExpected, hposition])
  | .publishing, _ => isTrue (by simp [ReceivesExpected, hposition])

section Steps

variable [NeZero numPorts] (channel : Channel numPorts) (observed : Observed numPorts)

/-- What one step does to a port and its exchange. -/
theorem observed_step_cases (input : Input numPorts) (i : Fin numPorts) :
    let next := ((observedTask channel).step observed input).2
    (next.task.ports i = observed.task.ports i ∧ next.exchanges i = observed.exchanges i) ∨
    (∃ pdu, observed.task.position = .receiving i ∧ input.received = some pdu ∧
      next.task.ports i = (observed.task.ports i).receive pdu input.clock ∧
      next.exchanges i = (observed.exchanges i).receive pdu) ∨
    (next.task.ports i = channel.transmit i (observed.task.ports i) (input.expiryClock i) ∧
      next.exchanges i = (observed.exchanges i).transmit
        (channel.transmitted i (observed.task.ports i) (input.expiryClock i))) := by
  simp only [observedTask, Task.step, Observed.note]
  cases hposition : observed.task.position with
  | receiving j =>
      cases hreceived : input.received with
      | none => exact .inl (by simp [Task.receive, hreceived])
      | some pdu =>
          by_cases hi : i = j
          · subst hi
            exact .inr (.inl ⟨pdu, rfl, rfl, by simp [Task.receive, hreceived], by simp⟩)
          · exact .inl (by simp [Task.receive, hreceived, hi])
  | transmitting j =>
      by_cases hdue : observed.task.due input
      · exact .inr (.inr (by simp [Task.transmit, hdue]))
      · exact .inl (by simp [Task.transmit, hdue])
  | publishing => exact .inl ⟨rfl, rfl⟩

variable {observed}

theorem step_remembersAll (hall : RemembersAll observed) (input : Input numPorts) :
    RemembersAll ((observedTask channel).step observed input).2 := by
  intro i
  obtain ⟨hport, hexchange⟩ | ⟨pdu, -, -, hport, hexchange⟩ | ⟨hport, hexchange⟩ :=
    observed_step_cases channel observed input i
  · rw [hport, hexchange]
    exact hall i
  · rw [hport, hexchange]
    exact (hall i).receive pdu input.clock
  · rw [hport, hexchange]
    exact (hall i).transmit channel i _

theorem step_syncFollows_iff (hall : RemembersAll observed) (hfollows : SyncFollows observed)
    (input : Input numPorts) :
    SyncFollows ((observedTask channel).step observed input).2 ↔
      ReceivesExpected observed input := by
  constructor
  · intro hnext
    unfold ReceivesExpected
    split
    next i pdu hposition hreceived =>
        apply (receive_follows_iff (hall i) (hfollows i) pdu input.clock).mp
        simpa [observedTask, Task.step, Observed.note, Task.receive, hposition, hreceived]
          using hnext i
    next => trivial
  · intro hexpected i
    obtain ⟨hport, hexchange⟩ | ⟨pdu, hposition, hreceived, hport, hexchange⟩ |
        ⟨hport, hexchange⟩ := observed_step_cases channel observed input i
    · rw [hport, hexchange]
      exact hfollows i
    · rw [hport, hexchange]
      apply (receive_follows_iff (hall i) (hfollows i) pdu input.clock).mpr
      simpa only [ReceivesExpected, hposition, hreceived] using hexpected
    · rw [hport, hexchange]
      exact (hfollows i).transmit channel i _

end Steps

theorem initial_remembersAll (numPorts : Nat) [NeZero numPorts] :
    RemembersAll (Observed.initial numPorts) := by
  intro i
  refine ⟨rfl, fun _ => rfl, fun _ => ?_⟩
  show ¬ Port.initial.Synced
  decide

theorem initial_syncFollows (numPorts : Nat) [NeZero numPorts] :
    SyncFollows (Observed.initial numPorts) := fun _ => nofun

/-- The synchronisation flags follow the latest LACPDU throughout a run exactly
when every LACPDU of the run is one that the port expects. -/
theorem sync_follows_iff [NeZero numPorts] (channel : Channel numPorts)
    (inputs : List (Input numPorts)) :
    (∀ first, first <+: inputs →
        SyncFollows ((observedTask channel).after (Observed.initial numPorts) first)) ↔
      (observedTask channel).Along ReceivesExpected (Observed.initial numPorts) inputs := by
  apply (observedTask channel).invariant_iff_along_within RemembersAll _ _
    (initial_remembersAll numPorts) (initial_syncFollows numPorts) inputs
  · intro observed input hall
    exact step_remembersAll channel hall input
  · intro observed input hall hfollows
    exact step_syncFollows_iff channel hall hfollows input

/-- What a partner sends that knows our port and is ready to use it. -/
def echoPdu : Pdu :=
  .fill { Info.zero with key := 1, state := 0x3D } (singlePort.actorOf 0 .initial)

/-- Two echoes after the first transmission. -/
def echoingPartner : List (Input 1) :=
  [inputAt 100 none, inputAt 100 none, inputAt 100 none,
    inputAt 101 (some echoPdu), inputAt 102 none, inputAt 102 none,
    inputAt 103 (some echoPdu)]

theorem sync_follows_echoing :
    SyncFollows ((observedTask singlePort).after (Observed.initial 1) echoingPartner) :=
  (sync_follows_iff singlePort echoingPartner).mpr (by decide +kernel) _ (List.prefix_refl _)

/-- The partner echoes our information once and then reports that it lost it. -/
def forgetfulPartner : List (Input 1) :=
  [inputAt 100 none, inputAt 100 none, inputAt 100 none,
    inputAt 101 (some echoPdu), inputAt 102 none, inputAt 102 none,
    inputAt 103 (some partnerPdu)]

/-- The port stays in sync although the latest LACPDU did not match. -/
theorem sync_outlives_echo :
    ¬ ∀ (channel : Channel 1) (inputs : List (Input 1)),
      SyncFollows ((observedTask channel).after (Observed.initial 1) inputs) := by
  intro halways
  have hfollows := halways singlePort forgetfulPartner 0
  exact absurd hfollows (by decide +kernel)

end Libmoon.Lacp
