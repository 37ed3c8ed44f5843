import Libmoon.Lacp.Sync

/-! # Two tasks on one link

A port of one task is connected to a port of another one. What either of them
transmits there travels on a wire that keeps the order and loses nothing; the
tasks take their steps in any order, and a LACPDU may arrive as late as it
likes. Each port takes its `COL` from the other one's `DIST` and its `DIST` from
the other one's `COL`. Neither has one of them at the start.
-/

namespace Libmoon.Lacp

open Foundation

/-- The two ends of the link. -/
inductive Side where
  | left
  | right
deriving DecidableEq

variable {numPorts : Side → Nat}

/-- The configuration of both tasks and the port of each that is on the link. -/
structure Cabling (numPorts : Side → Nat) where
  channel : ∀ side, Channel (numPorts side)
  port : ∀ side, Fin (numPorts side)

/-- Both tasks, the LACPDUs on their way to each of them, oldest first, and how
many each of them has transmitted on the link. -/
structure Link (numPorts : Side → Nat) where
  task : ∀ side, Task (numPorts side)
  wire : Side → List Pdu
  sent : Side → Nat

def Link.initial (numPorts : Side → Nat) [∀ side, NeZero (numPorts side)] : Link numPorts where
  task := fun side => .initial (numPorts side)
  wire := fun _ => []
  sent := fun _ => 0

/-- The port of a task that is on the link. -/
def Link.port (cabling : Cabling numPorts) (link : Link numPorts) (side : Side) : Port :=
  (link.task side).ports (cabling.port side)

/-- A step of one of the tasks. When its port on the link is polled, `arrived`
says whether the next LACPDU on the wire is there already; what its other ports
receive is an input. -/
structure Turn (numPorts : Side → Nat) where
  side : Side
  arrived : Bool
  input : Input (numPorts side)

section Steps

variable (cabling : Cabling numPorts) (link : Link numPorts) (turn : Turn numPorts)

/-- The task polls its port on the link. -/
def Link.Polls : Prop :=
  (link.task turn.side).position = .receiving (cabling.port turn.side)

instance : Decidable (link.Polls cabling turn) := inferInstanceAs (Decidable (_ = _))

/-- The task transmits on all of its ports. -/
def Link.Transmits : Prop :=
  (∃ i, (link.task turn.side).position = .transmitting i) ∧
    (link.task turn.side).due turn.input

instance : Decidable (link.Transmits turn) :=
  inferInstanceAs (Decidable (_ ∧ _))

/-- What the task reads in this step. -/
def Link.reads : Input (numPorts turn.side) :=
  if link.Polls cabling turn then
    { turn.input with
      received := if turn.arrived then (link.wire turn.side).head? else none }
  else
    turn.input

/-- What remains on the wire to the task. -/
def Link.unread : List Pdu :=
  if link.Polls cabling turn ∧ turn.arrived then
    (link.wire turn.side).tail
  else
    link.wire turn.side

/-- What the task puts on the wire to its peer. -/
def Link.emitted : List Pdu :=
  if link.Transmits turn then
    [(cabling.channel turn.side).transmitted (cabling.port turn.side) (link.port cabling turn.side)
      (turn.input.expiryClock (cabling.port turn.side))]
  else
    []

variable [∀ side, NeZero (numPorts side)]

def Link.step : Link numPorts where
  task := Function.update link.task turn.side
    ((link.task turn.side).step (cabling.channel turn.side) (link.reads cabling turn))
  wire := fun side =>
    if side = turn.side then
      link.unread cabling turn
    else
      link.wire side ++ link.emitted cabling turn
  sent := Function.update link.sent turn.side
    (link.sent turn.side + (link.emitted cabling turn).length)

end Steps

/-- Both tasks and the link between them as one machine. -/
def lacpLink [∀ side, NeZero (numPorts side)] (cabling : Cabling numPorts) :
    Machine (Link numPorts) (Turn numPorts) Unit where
  step link turn := ((), link.step cabling turn)

/-- What a port on the link is to come to. -/
def Port.Operational (port : Port) : Prop :=
  Flagged port.stateFlags stateSync ∧ Flagged port.stateFlags stateCol ∧
    Flagged port.stateFlags stateDist ∧ port.up = true

instance (port : Port) : Decidable port.Operational := inferInstanceAs (Decidable (_ ∧ _))

/-! ## One port -/

/-- A port that neither collects nor distributes and is not up. -/
structure Port.Down (port : Port) : Prop where
  col : ¬ Flagged port.stateFlags stateCol
  dist : ¬ Flagged port.stateFlags stateDist
  up : port.up = false

/-- A LACPDU whose sender neither collects nor distributes. -/
structure Pdu.Down (pdu : Pdu) : Prop where
  col : ¬ pdu.actorHas stateCol
  dist : ¬ pdu.actorHas stateDist

theorem initial_down : Port.initial.Down := ⟨by decide, by decide, rfl⟩

/-- `COL` and `DIST` are copied from the LACPDU, whatever the comparison of the
actor information has set before. -/
theorem Port.Down.receive {port : Port} (hport : port.Down) {pdu : Pdu} (hpdu : pdu.Down)
    (clock : ℚ) : (port.receive pdu clock).Down := by
  unfold Port.receive
  split
  next =>
      refine ⟨?_, ?_, ?_⟩
      · rw [colFlags_col]
        exact hpdu.dist
      · rw [colFlags_other stateDist (by decide), distFlags_dist]
        exact hpdu.col
      · exact decide_eq_false fun hboth => hpdu.col hboth.1
  next => exact hport

theorem Port.Down.expire {port : Port} (hport : port.Down) (clock : ℚ) :
    (port.expire clock).Down := by
  unfold Port.expire
  split
  next => exact ⟨initial_down.col, initial_down.dist, hport.up⟩
  next => exact hport

theorem Port.Down.markExpired {port : Port} (hport : port.Down) : port.markExpired.Down where
  col := mt (markExpired_flag stateCol (by decide) port).mp hport.col
  dist := mt (markExpired_flag stateDist (by decide) port).mp hport.dist
  up := (markExpired_up port).trans hport.up

section Transmission

variable {n : Nat} (channel : Channel n) (i : Fin n) {port : Port}

theorem Port.Down.transmit (hport : port.Down) (clock : ℚ) :
    (channel.transmit i port clock).Down :=
  have hsender := (hport.expire clock).markExpired
  ⟨hsender.col, hsender.dist, hsender.up⟩

/-- The state byte carries both flags of the sender. -/
theorem Port.Down.transmitted (hport : port.Down) (clock : ℚ) :
    (channel.transmitted i port clock).Down := by
  have hsender := (hport.expire clock).markExpired
  refine ⟨?_, ?_⟩
  · exact mt (flagged_setWidth (by decide) _).mp hsender.col
  · exact mt (flagged_setWidth (by decide) _).mp hsender.dist

/-- What one step of a task does to one of its ports. -/
theorem task_step_port [NeZero n] (task : Task n) (input : Input n) :
    let next := task.step channel input
    next.ports i = task.ports i ∨
    (∃ pdu, task.position = .receiving i ∧ input.received = some pdu ∧
      next.ports i = (task.ports i).receive pdu input.clock) ∨
    next.ports i = channel.transmit i (task.ports i) (input.expiryClock i) := by
  obtain ⟨hport, -⟩ | ⟨pdu, hposition, hreceived, hport, -⟩ | ⟨hport, -⟩ :=
    observed_step_cases channel ⟨task, fun _ => .initial⟩ input i
  · exact .inl hport
  · exact .inr (.inl ⟨pdu, hposition, hreceived, hport⟩)
  · exact .inr (.inr hport)

end Transmission

/-! ## The link -/

/-- Neither end is up, and no LACPDU on the link could bring one up. -/
structure Link.Down (cabling : Cabling numPorts) (link : Link numPorts) : Prop where
  port : ∀ side, (link.port cabling side).Down
  wire : ∀ side, ∀ pdu ∈ link.wire side, pdu.Down

variable [∀ side, NeZero (numPorts side)] {cabling : Cabling numPorts} {link : Link numPorts}

theorem Link.Down.step_port (hlink : link.Down cabling) (turn : Turn numPorts) (side : Side) :
    ((link.step cabling turn).port cabling side).Down := by
  by_cases hside : side = turn.side
  · subst hside
    simp only [Link.port, Link.step, Function.update_self]
    obtain hport | ⟨pdu, hposition, hreceived, hport⟩ | hport := task_step_port
      (cabling.channel turn.side) (cabling.port turn.side) (link.task turn.side)
      (link.reads cabling turn)
    · rw [hport]
      exact hlink.port turn.side
    · -- what is received comes off the wire
      have hpdu : pdu ∈ link.wire turn.side := by
        simp only [Link.reads, Link.Polls, hposition, if_true] at hreceived
        split at hreceived
        next => exact List.mem_of_mem_head? hreceived
        next => cases hreceived
      rw [hport]
      exact (hlink.port turn.side).receive (hlink.wire turn.side pdu hpdu) _
    · rw [hport]
      exact (hlink.port turn.side).transmit _ _ _
  · simp only [Link.port, Link.step, Function.update_of_ne hside]
    exact hlink.port side

theorem Link.Down.step_wire (hlink : link.Down cabling) (turn : Turn numPorts) (side : Side) :
    ∀ pdu ∈ (link.step cabling turn).wire side, pdu.Down := by
  intro pdu hpdu
  simp only [Link.step] at hpdu
  split at hpdu
  next =>
      unfold Link.unread at hpdu
      split at hpdu
      next => exact hlink.wire _ pdu (List.mem_of_mem_tail hpdu)
      next => exact hlink.wire _ pdu hpdu
  next =>
      rcases List.mem_append.mp hpdu with hold | hnew
      · exact hlink.wire side pdu hold
      · unfold Link.emitted at hnew
        split at hnew
        next =>
            obtain rfl := List.mem_singleton.mp hnew
            exact (hlink.port turn.side).transmitted _ _ _
        next => cases hnew

theorem Link.Down.step (hlink : link.Down cabling) (turn : Turn numPorts) :
    (link.step cabling turn).Down cabling :=
  ⟨hlink.step_port turn, hlink.step_wire turn⟩

theorem link_initial_down (cabling : Cabling numPorts) :
    (Link.initial numPorts).Down cabling :=
  ⟨fun _ => initial_down, fun _ _ hpdu => nomatch hpdu⟩

theorem reachable_down
    (hreach : (lacpLink cabling).Reachable (Link.initial numPorts) link) : link.Down cabling := by
  have hstep : ∀ link turn, Link.Down cabling link →
      Link.Down cabling ((lacpLink cabling).step link turn).2 :=
    fun _ turn hlink => hlink.step turn
  exact hreach.invariant hstep (link_initial_down cabling)

/-- Two tasks that are connected with each other never bring the link up, in no
run and at neither end: what each of them waits for is what the other one waits
for too. -/
theorem peers_never_operational (cabling : Cabling numPorts) (turns : List (Turn numPorts))
    (side : Side) :
    ¬ (((lacpLink cabling).after (Link.initial numPorts) turns).port cabling side).Operational := by
  intro hoperational
  have hdown := reachable_down ⟨turns, Eq.refl ((lacpLink cabling).after _ turns)⟩
  exact (hdown.port side).col hoperational.2.1

/-- No transmission finds the port on the link without news for longer than the timeout. -/
def NoPeerExpires (cabling : Cabling numPorts) (link : Link numPorts) (turn : Turn numPorts) :
    Prop :=
  link.Transmits turn → (link.port cabling turn.side).rxState = .current →
    turn.input.expiryClock (cabling.port turn.side) ≤
      (link.port cabling turn.side).rxStateTimeout

instance (cabling : Cabling numPorts) (link : Link numPorts) (turn : Turn numPorts) :
    Decidable (NoPeerExpires cabling link turn) := inferInstanceAs (Decidable (_ → _ → _))

/-- Two tasks of one port each. -/
def backToBack : Cabling fun _ => 1 where
  channel
    | .left => singlePort
    | .right => { singlePort with lacpMac := fun _ => 0x06, key := 2 }
  port := fun _ => ⟨0, Nat.one_pos⟩

/-- One pass of a task through its loop. -/
def passAt (side : Side) (clock : ℚ) : List (Turn fun _ => 1) :=
  List.replicate 3 ⟨side, true, inputAt clock none⟩

/-- Both tasks pass through their loops four times; then the last LACPDU arrives. -/
def fourExchanges : List (Turn fun _ => 1) :=
  [100, 102, 104, 106].flatMap (fun clock => passAt .left clock ++ passAt .right clock) ++
    passAt .left 106.5

theorem peers_never_operational_four_exchanges :
    ¬ (((lacpLink backToBack).after (Link.initial _) fourExchanges).port backToBack
      .left).Operational :=
  peers_never_operational backToBack fourExchanges .left

/-- Four LACPDUs each way do not bring the ports up. -/
theorem four_exchanges_leave_down :
    ¬ ∀ (cabling : Cabling fun _ => 1) (turns : List (Turn fun _ => 1)),
      (lacpLink cabling).Along (NoPeerExpires cabling) (Link.initial _) turns →
        (∀ side, 4 ≤ ((lacpLink cabling).after (Link.initial _) turns).sent side ∧
          ((lacpLink cabling).after (Link.initial _) turns).wire side = []) →
          ∀ side, (((lacpLink cabling).after (Link.initial _) turns).port cabling side).Operational
            := by
  intro halways
  have hoperational := halways backToBack fourExchanges (by decide +kernel) ?_ .left
  · exact absurd hoperational (by decide +kernel)
  · intro side
    cases side with
    | left => exact ⟨by decide +kernel, List.eq_nil_of_length_eq_zero (by decide +kernel)⟩
    | right => exact ⟨by decide +kernel, List.eq_nil_of_length_eq_zero (by decide +kernel)⟩

end Libmoon.Lacp
