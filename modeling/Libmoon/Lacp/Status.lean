import Libmoon.Lacp.Task

/-! # The published port status

A port should be counted as up only while it is in service: its partner is
current and it both collects and distributes. Receptions set the three together.
An expiry takes the port out of service and leaves `up` alone, so the count stays
sound exactly as long as no port that is up expires.
-/

namespace Libmoon.Lacp

open Foundation

variable {numPorts : Nat}

/-- What a port has to be to count as up. -/
def Port.InService (port : Port) : Prop :=
  port.rxState = .current ∧ Flagged port.stateFlags stateCol ∧ Flagged port.stateFlags stateDist

instance (port : Port) : Decidable port.InService := inferInstanceAs (Decidable (_ ∧ _))

def countInService (ports : Fin numPorts → Port) : Nat :=
  (List.finRange numPorts).countP fun i => (ports i).InService

/-- Only ports in service are up, and the published number counts no others. -/
structure StatusSound [NeZero numPorts] (task : Task numPorts) : Prop where
  ports : ∀ i, (task.ports i).up = true → (task.ports i).InService
  published : task.position = .receiving 0 → task.status.up ≤ countInService task.ports

/-! ## Receptions -/

theorem distFlags_dist (pdu : Pdu) (flags : BitVec 32) :
    Flagged (distFlags pdu flags) stateDist ↔ pdu.actorHas stateCol :=
  flagged_assign_self _ (by decide) flags

theorem colFlags_col (pdu : Pdu) (flags : BitVec 32) :
    Flagged (colFlags pdu flags) stateCol ↔ pdu.actorHas stateDist :=
  flagged_assign_self _ (by decide) flags

theorem colFlags_other (mask : BitVec 32) (hother : stateCol &&& mask = 0) (pdu : Pdu)
    (flags : BitVec 32) : Flagged (colFlags pdu flags) mask ↔ Flagged flags mask :=
  flagged_assign_other _ hother flags

theorem distFlags_other (mask : BitVec 32) (hother : stateDist &&& mask = 0) (pdu : Pdu)
    (flags : BitVec 32) : Flagged (distFlags pdu flags) mask ↔ Flagged flags mask :=
  flagged_assign_other _ hother flags

/-- A reception leaves every port sound: `up` is set together with what it stands for. -/
theorem receive_inService {port : Port}
    (hsound : port.up = true → port.InService) (pdu : Pdu) (clock : ℚ)
    (hup : (port.receive pdu clock).up = true) : (port.receive pdu clock).InService := by
  unfold Port.receive at hup ⊢
  split at hup
  next hvalid =>
      obtain ⟨hcol, hdist⟩ := of_decide_eq_true hup
      refine ⟨by simp [hvalid], ?_, ?_⟩
      · simpa [hvalid] using (colFlags_col _ _).mpr hdist
      · simpa [hvalid] using
          (colFlags_other stateDist (by decide) _ _).mpr ((distFlags_dist _ _).mpr hcol)
  next hvalid =>
      rw [if_neg hvalid]
      exact hsound hup

/-! ## Transmissions -/

@[simp] theorem expire_up (port : Port) (clock : ℚ) : (port.expire clock).up = port.up := by
  unfold Port.expire
  split <;> rfl

@[simp] theorem markExpired_up (port : Port) : port.markExpired.up = port.up := by
  unfold Port.markExpired
  split <;> rfl

@[simp] theorem markExpired_rxState (port : Port) :
    port.markExpired.rxState = port.rxState := by
  unfold Port.markExpired
  split <;> rfl

/-- The mark touches no flag but `EXP`. -/
theorem markExpired_flag (mask : BitVec 32) (hother : stateExp &&& mask = 0) (port : Port) :
    Flagged port.markExpired.stateFlags mask ↔ Flagged port.stateFlags mask := by
  unfold Port.markExpired
  split
  next => exact flagged_or_of_disjoint hother _
  next => exact flagged_clear hother _

theorem transmit_up (channel : Channel numPorts) (i : Fin numPorts) (port : Port) (clock : ℚ) :
    (channel.transmit i port clock).up = port.up := by
  simp [Channel.transmit, Channel.send]

theorem transmit_inService_iff (channel : Channel numPorts) (i : Fin numPorts) (port : Port)
    (clock : ℚ) :
    (channel.transmit i port clock).InService ↔
      port.InService ∧ clock ≤ port.rxStateTimeout := by
  have hmark : (channel.transmit i port clock).InService ↔ (port.expire clock).InService := by
    simp only [Port.InService, Channel.transmit, Channel.send, markExpired_rxState,
      markExpired_flag stateCol (by decide), markExpired_flag stateDist (by decide)]
  rw [hmark]
  unfold Port.expire
  split
  next hlate =>
      refine iff_of_false ?_ (fun hkept => absurd hkept.2 (not_le.mpr hlate))
      intro hservice
      exact RxState.noConfusion hservice.1
  next hlate => exact (and_iff_left (not_lt.mp hlate)).symm

/-! ## Whole runs -/

/-- No transmission finds the partner of a port that is up silent for longer
than the timeout. -/
def NoUpPortExpires (task : Task numPorts) (input : Input numPorts) : Prop :=
  match task.position with
  | .transmitting _ =>
      task.due input →
        ∀ i, (task.ports i).up = true → input.expiryClock i ≤ (task.ports i).rxStateTimeout
  | _ => True

instance (task : Task numPorts) (input : Input numPorts) :
    Decidable (NoUpPortExpires task input) :=
  match hposition : task.position with
  | .receiving _ => isTrue (by simp [NoUpPortExpires, hposition])
  | .transmitting _ =>
      decidable_of_iff
        (task.due input →
          ∀ i, (task.ports i).up = true → input.expiryClock i ≤ (task.ports i).rxStateTimeout)
        (by simp [NoUpPortExpires, hposition])
  | .publishing => isTrue (by simp [NoUpPortExpires, hposition])

theorem afterVisit_ne_receiving_zero [NeZero numPorts] (i : Fin numPorts) :
    Position.afterVisit i ≠ .receiving 0 := by
  unfold Position.afterVisit
  split
  next hnext =>
      intro heq
      have hzero : i.val + 1 = 0 := congrArg Fin.val (Position.receiving.inj heq)
      exact Nat.succ_ne_zero _ hzero
  next hlast => nofun

theorem countUp_le_countInService {ports : Fin numPorts → Port}
    (hports : ∀ i, (ports i).up = true → (ports i).InService) :
    countUp ports ≤ countInService ports := by
  apply List.countP_mono_left
  intro i _ hup
  exact decide_eq_true (hports i hup)

section Steps

variable [NeZero numPorts] {task : Task numPorts}

theorem receive_statusSound (hsound : StatusSound task) (i : Fin numPorts)
    (input : Input numPorts) : StatusSound (task.receive i input) := by
  unfold Task.receive
  cases input.received with
  | none => exact ⟨hsound.ports, nofun⟩
  | some pdu =>
      refine ⟨?_, nofun⟩
      intro j hup
      by_cases hj : j = i
      · subst hj
        simp only [Function.update_self] at hup ⊢
        exact receive_inService (hsound.ports j) pdu input.clock hup
      · simp only [Function.update_of_ne hj] at hup ⊢
        exact hsound.ports j hup

theorem transmit_statusSound_iff (channel : Channel numPorts) (hsound : StatusSound task)
    (i : Fin numPorts) (input : Input numPorts) :
    StatusSound (task.transmit channel i input) ↔
      (task.due input →
        ∀ j, (task.ports j).up = true → input.expiryClock j ≤ (task.ports j).rxStateTimeout) := by
  unfold Task.transmit
  split
  next hdue =>
      constructor
      · intro hnext _ j hup
        have hservice := hnext.ports j (by simpa only [transmit_up] using hup)
        exact ((transmit_inService_iff ..).mp hservice).2
      · intro hfresh
        refine ⟨?_, fun hposition => absurd hposition (afterVisit_ne_receiving_zero i)⟩
        intro j hup
        rw [transmit_up] at hup
        exact (transmit_inService_iff ..).mpr ⟨hsound.ports j hup, hfresh hdue j hup⟩
  next hdue =>
      refine iff_of_true ⟨hsound.ports, ?_⟩ (fun h => absurd h hdue)
      exact fun hposition => absurd hposition (afterVisit_ne_receiving_zero i)

theorem publish_statusSound (hsound : StatusSound task) : StatusSound task.publish :=
  ⟨hsound.ports, fun _ => countUp_le_countInService hsound.ports⟩

theorem step_statusSound_iff (channel : Channel numPorts) (hsound : StatusSound task)
    (input : Input numPorts) :
    StatusSound (task.step channel input) ↔ NoUpPortExpires task input := by
  unfold Task.step NoUpPortExpires
  cases task.position with
  | receiving i => exact iff_of_true (receive_statusSound hsound i input) trivial
  | transmitting i => exact transmit_statusSound_iff channel hsound i input
  | publishing => exact iff_of_true (publish_statusSound hsound) trivial

end Steps

theorem initial_statusSound (numPorts : Nat) [NeZero numPorts] :
    StatusSound (Task.initial numPorts) := by
  refine ⟨?_, fun _ => Nat.zero_le _⟩
  intro i hup
  exact Bool.noConfusion hup

/-- The published status stays sound throughout a run exactly when no port of
the run expires while it is up. -/
theorem status_sound_iff [NeZero numPorts] (channel : Channel numPorts)
    (inputs : List (Input numPorts)) :
    (∀ first, first <+: inputs →
        StatusSound ((lacpTask channel).after (Task.initial numPorts) first)) ↔
      (lacpTask channel).Along NoUpPortExpires (Task.initial numPorts) inputs := by
  apply (lacpTask channel).invariant_iff_along_within (fun _ => True) (fun _ _ => id) _
    trivial (initial_statusSound numPorts) inputs
  intro task input _ hsound
  exact step_statusSound_iff channel hsound input

/-- A channel of one port. -/
def singlePort : Channel 1 where
  lacpMac := fun _ => 0x02
  key := 1
  txQueueId := fun _ => 0

/-- A step at one instant: every clock reading is the same. -/
def inputAt (clock : ℚ) (received : Option Pdu) : Input numPorts where
  received := received
  clock := clock
  expiryClock := fun _ => clock
  updateClock := clock

/-- A LACPDU of a partner that collects and distributes and does not know us yet. -/
def partnerPdu : Pdu := .fill { Info.zero with key := 1, state := 0x3D } .zero

/-- The partner reports again before the timeout. -/
def livelyPartner : List (Input 1) :=
  [inputAt 100 (some partnerPdu), inputAt 100 none, inputAt 100 none,
    inputAt 129 (some partnerPdu), inputAt 129 none]

theorem status_sound_lively :
    StatusSound ((lacpTask singlePort).after (Task.initial 1) livelyPartner) :=
  (status_sound_iff singlePort livelyPartner).mpr (by decide +kernel) _ (List.prefix_refl _)

/-- A partner that collects and distributes reports once at time 100 and is then silent. -/
def silentPartner : List (Input 1) :=
  [inputAt 100 (some partnerPdu), inputAt 100 none, inputAt 100 none, inputAt 131 none]

/-- The port is still up right after the transmission that has marked it expired. -/
theorem up_outlives_expiry :
    ¬ ∀ (channel : Channel 1) (inputs : List (Input 1)) (input : Input 1),
      ((lacpTask channel).after (Task.initial 1) inputs).position = .transmitting 0 →
        ((lacpTask channel).after (Task.initial 1) inputs).due input →
          StatusSound ((lacpTask channel).after (Task.initial 1) (inputs ++ [input])) := by
  intro halways
  have hsound := halways singlePort silentPartner (inputAt 131 none) (by decide +kernel)
    (by decide +kernel)
  exact absurd (hsound.ports 0 (by decide +kernel)) (by decide +kernel)

end Libmoon.Lacp
