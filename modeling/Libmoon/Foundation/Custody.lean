import Mathlib.Data.Finset.Basic
import Mathlib.Data.Finset.Lattice.Lemmas
import Mathlib.Tactic.Common

/-! # Custody of resources

A program takes resources from a pool and frees them again. What it has taken
and not freed is held. To free a resource that is not held is a fault that is
remembered; so after a sequence of operations without a fault that ends with
nothing held, every resource was freed exactly once for each time it was taken.
-/

namespace Foundation

universe u

/-- What is held, and whether something was freed that was not. -/
structure Custody (Resource : Type u) where
  held : Finset Resource
  misfreed : Bool

namespace Custody

variable {Resource : Type u} [DecidableEq Resource]

def empty : Custody Resource := ⟨∅, false⟩

def take (custody : Custody Resource) (resources : List Resource) : Custody Resource :=
  { custody with held := custody.held ∪ resources.toFinset }

def free (custody : Custody Resource) (resource : Resource) : Custody Resource :=
  if resource ∈ custody.held then
    { custody with held := custody.held.erase resource }
  else
    { custody with misfreed := true }

def freeList (custody : Custody Resource) (resources : List Resource) : Custody Resource :=
  resources.foldl free custody

/-- Everything that was taken has been freed, and nothing else. -/
structure Settled (custody : Custody Resource) : Prop where
  held : custody.held = ∅
  misfreed : custody.misfreed = false

instance (custody : Custody Resource) : Decidable custody.Settled :=
  decidable_of_iff (custody.held = ∅ ∧ custody.misfreed = false)
    ⟨fun h => ⟨h.1, h.2⟩, fun h => ⟨h.held, h.misfreed⟩⟩

variable {custody : Custody Resource}

theorem freeList_append (custody : Custody Resource) (first second : List Resource) :
    custody.freeList (first ++ second) = (custody.freeList first).freeList second :=
  List.foldl_append ..

theorem free_of_mem {resource : Resource} (hheld : resource ∈ custody.held) :
    custody.free resource = { custody with held := custody.held.erase resource } := if_pos hheld

/-- A fault is not forgotten. -/
theorem misfreed_freeList (hfault : custody.misfreed = true) (resources : List Resource) :
    (custody.freeList resources).misfreed = true := by
  induction resources generalizing custody with
  | nil => exact hfault
  | cons resource rest ih =>
      apply ih
      unfold free
      split
      next => exact hfault
      next => rfl

/-- To free what is not held is a fault, whatever follows. -/
theorem misfreed_of_not_mem {resource : Resource} (hnot : resource ∉ custody.held)
    (rest : List Resource) : (custody.freeList (resource :: rest)).misfreed = true := by
  have hfault : (custody.free resource).misfreed = true := by
    rw [free, if_neg hnot]
  exact misfreed_freeList hfault rest

/-- Distinct resources that are held are freed without a fault. -/
theorem freeList_of_subset {resources : List Resource} (hdistinct : resources.Nodup)
    (hheld : ∀ resource ∈ resources, resource ∈ custody.held) :
    custody.freeList resources =
      { custody with held := custody.held \ resources.toFinset } := by
  induction resources generalizing custody with
  | nil => simp [freeList]
  | cons resource rest ih =>
      obtain ⟨hnew, hdistinct⟩ := List.nodup_cons.mp hdistinct
      have hfirst := free_of_mem (hheld resource List.mem_cons_self)
      show (custody.free resource).freeList rest = _
      rw [hfirst, ih hdistinct]
      · congr 1
        ext other
        simp only [List.toFinset_cons, Finset.mem_sdiff, Finset.mem_erase, Finset.mem_insert,
          List.mem_toFinset]
        tauto
      · intro later hlater
        refine Finset.mem_erase.mpr ⟨?_, hheld later (List.mem_cons_of_mem _ hlater)⟩
        rintro rfl
        exact hnew hlater

/-- From a settled state, what is taken may be freed in any order. -/
theorem Settled.take_freeList (hsettled : custody.Settled) {resources : List Resource}
    (hdistinct : resources.Nodup) : (custody.take resources).freeList resources = custody := by
  rw [freeList_of_subset hdistinct]
  · obtain ⟨held, misfreed⟩ := custody
    obtain rfl : held = ∅ := hsettled.held
    simp [take, Finset.empty_union]
  · intro resource hresource
    exact Finset.mem_union_right _ (List.mem_toFinset.mpr hresource)

/-- What is taken from a settled state, of which some are freed ahead, and is then
freed as a whole together with older resources: that leads back only if nothing was
freed ahead and there are no older resources, and is a fault otherwise. -/
theorem Settled.freeList_again (hsettled : custody.Settled) {resources : List Resource}
    (hdistinct : resources.Nodup) (ahead : Nat) (hahead : ahead ≤ resources.length)
    (older : List Resource) :
    let freed := ((custody.take resources).freeList (resources.take ahead)).freeList
      (resources ++ older)
    (ahead = 0 ∧ older = [] → freed = custody) ∧
      (¬ (ahead = 0 ∧ older = []) → freed.misfreed = true) := by
  constructor
  · rintro ⟨rfl, rfl⟩
    rw [List.append_nil]
    exact hsettled.take_freeList hdistinct
  · intro hagain
    cases ahead with
    | zero =>
        -- everything is freed once, and then an older resource
        cases older with
        | nil => exact absurd ⟨rfl, rfl⟩ hagain
        | cons resource rest =>
            rw [freeList_append]
            show (((custody.take resources).freeList resources).freeList _).misfreed = true
            rw [hsettled.take_freeList hdistinct]
            apply misfreed_of_not_mem
            simp [hsettled.held]
    | succ ahead =>
        cases resources with
        | nil => cases hahead
        | cons resource rest =>
            rw [List.cons_append]
            apply misfreed_of_not_mem
            rw [freeList_of_subset (hdistinct.sublist (List.take_sublist _ _))]
            · simp
            · intro other hother
              apply Finset.mem_union_right
              exact List.mem_toFinset.mpr (List.mem_of_mem_take hother)

end Custody

end Foundation
