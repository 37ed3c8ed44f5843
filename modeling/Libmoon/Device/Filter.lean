import Mathlib.Data.List.Basic
import Mathlib.Tactic.Common

/-! # Installing filters

`createFilter` replaces the flow rules of a device: it flushes them and then validates and
creates one rule for every filter. There is no way back, so that a failure behind the flush
leaves the device with a part of the filters. The answers of the device are arbitrary.

A failure is warned about with a text for the type of its error. One type has none, and a
Lua error is raised instead.
-/

namespace Libmoon.Device

universe u v w

variable {Attr : Type u} {Pattern : Type v} {Actions : Type w}

/-- A flow rule. -/
structure Rule (Attr : Type u) (Pattern : Type v) (Actions : Type w) where
  flowAttr : Attr
  pattern : Pattern
  actions : Actions
deriving DecidableEq

/-- `enum rte_flow_error_type`. -/
inductive FlowErrorType where
  | none | unspecified | handle | attrGroup | attrPriority | attrIngress | attrEgress
  | attrTransfer | attr | itemNum | itemSpec | itemLast | itemMask | item | actionNum
  | actionConf | action | state
deriving DecidableEq

/-- The table `flowError`. -/
def flowError : FlowErrorType → Option String
  | .none => "No error"
  | .unspecified => "Cause unspecified"
  | .handle => "Flow rule (handle)"
  | .attrGroup => "Group field"
  | .attrPriority => "Priority field"
  | .attrIngress => "Ingress field"
  | .attrEgress => "Egress field"
  | .attrTransfer => "Transfer field"
  | .attr => "Attributes structure"
  | .itemNum => "Pattern length"
  | .itemSpec => "Item specification"
  | .itemLast => "Item specification range"
  | .itemMask => "Item specification mask"
  | .item => "Specific pattern item"
  | .actionNum => "Number of actions"
  | .actionConf => "Action configuration"
  | .action => "Specific action"
  | .state => Option.none

/-- `struct rte_flow_error`. -/
structure FlowError where
  type : FlowErrorType
  message : Option String

/-- The answers of a device: exit codes of the flush and of the validation of every filter,
whether it returns a handle for it, and the error behind each failure. A flush that fails
leaves unknown rules. -/
structure Answers (Attr : Type u) (Pattern : Type v) (Actions : Type w) where
  flush : Int
  flushError : FlowError
  leftBehind : List (Rule Attr Pattern Actions) → List (Rule Attr Pattern Actions)
  validate : Nat → Int
  validateError : Nat → FlowError
  create : Nat → Bool
  createError : Nat → FlowError

/-- The rules on a device, the warnings so far, and whether a Lua error was raised. -/
structure Flows (Attr : Type u) (Pattern : Type v) (Actions : Type w) where
  rules : List (Rule Attr Pattern Actions)
  warnings : List String
  raised : Bool
deriving DecidableEq

/-- Warn about a failure. Where the error has no text, `..` is applied to `nil`. -/
def Flows.warn (flows : Flows Attr Pattern Actions) (text : String) (error : FlowError) :
    Flows Attr Pattern Actions :=
  match flowError error.type with
  | some cause =>
      { flows with
        warnings := flows.warnings ++ (text ++ ". Root cause: " ++ cause) ::
          match error.message with
          | some message => ["Error message:", "\t" ++ message]
          | none => [] }
  | none => { flows with raised := true }

/-- The loop over the filters: one that is not valid ends it, one that cannot be created
does not, unless the warning raises an error. -/
def createFrom (answers : Answers Attr Pattern Actions) (flowAttr : Attr) (actions : Actions) :
    Nat → List Pattern → Flows Attr Pattern Actions → Flows Attr Pattern Actions
  | _, [], flows => flows
  | i, filter :: rest, flows =>
      if answers.validate i ≠ 0 then
        flows.warn ("Filter validation failed. Exit code: " ++ toString (answers.validate i))
          (answers.validateError i)
      else if answers.create i then
        createFrom answers flowAttr actions (i + 1) rest
          { flows with rules := flows.rules ++ [⟨flowAttr, filter, actions⟩] }
      else if (flowError (answers.createError i).type).isSome then
        createFrom answers flowAttr actions (i + 1) rest
          (flows.warn "Filter creation failed" (answers.createError i))
      else flows.warn "Filter creation failed" (answers.createError i)

/-- What is passed as `filters`. -/
inductive Filters (Pattern : Type v) where
  | single (filter : Pattern)
  | table (filters : List Pattern)

def Filters.toList : Filters Pattern → List Pattern
  | .single filter => [filter]
  | .table filters => filters

/-- `dev:flushFilter`, with which `createFilter` starts as well. -/
def flushFilter (answers : Answers Attr Pattern Actions)
    (installed : List (Rule Attr Pattern Actions)) : Flows Attr Pattern Actions :=
  if answers.flush ≠ 0 then
    (⟨answers.leftBehind installed, [], false⟩ : Flows Attr Pattern Actions).warn
      ("removing of old filters failed. Exit code: " ++ toString answers.flush)
      answers.flushError
  else ⟨[], [], false⟩

/-- `createFilter`. -/
def createFilter (answers : Answers Attr Pattern Actions) (flowAttr : Attr)
    (filters : Filters Pattern) (actions : Actions)
    (installed : List (Rule Attr Pattern Actions)) : Flows Attr Pattern Actions :=
  if answers.flush ≠ 0 then flushFilter answers installed
  else createFrom answers flowAttr actions 0 filters.toList (flushFilter answers installed)

/-! ## What is installed -/

/-- The device accepts a filter. -/
def Answers.Accepts (answers : Answers Attr Pattern Actions) (i : Nat) : Prop :=
  answers.validate i = 0 ∧ answers.create i = true

/-- Every filter can be installed. -/
def Installable (answers : Answers Attr Pattern Actions) (filters : Filters Pattern) : Prop :=
  answers.flush = 0 ∧ ∀ i < filters.toList.length, answers.Accepts i

/-- The filters from a place on that the loop installs. -/
def created (answers : Answers Attr Pattern Actions) : Nat → List Pattern → List Pattern
  | _, [] => []
  | i, filter :: rest =>
      if answers.validate i ≠ 0 then []
      else if answers.create i then filter :: created answers (i + 1) rest
      else if (flowError (answers.createError i).type).isSome then created answers (i + 1) rest
      else []

variable {answers : Answers Attr Pattern Actions} {flowAttr : Attr} {actions : Actions}

theorem created_sublist (i : Nat) (filters : List Pattern) :
    (created answers i filters).Sublist filters := by
  fun_induction created answers i filters with
  | case1 i => exact .slnil
  | case2 i filter rest hinvalid => exact List.nil_sublist _
  | case3 i filter rest hvalid hcreate ih => exact ih.cons_cons filter
  | case4 i filter rest hvalid hcreate htext ih => exact ih.cons filter
  | case5 i filter rest hvalid hcreate htext => exact List.nil_sublist _

/-- A filter that has been left out is missing. -/
theorem created_ne_cons (i : Nat) (filter : Pattern) (rest : List Pattern) :
    created answers i rest ≠ filter :: rest := by
  intro hall
  have hlength := (@created_sublist _ _ _ answers i rest).length_le
  rw [hall, List.length_cons] at hlength
  omega

/-- Filters that are accepted are installed up to the first one that is not. -/
theorem take_created {i k : Nat} (haccepts : ∀ j < k, answers.Accepts (i + j))
    (filters : List Pattern) : filters.take k <+: created answers i filters := by
  induction filters generalizing i k with
  | nil => simp
  | cons filter rest ih =>
      cases k with
      | zero => exact List.nil_prefix
      | succ k =>
          obtain ⟨hvalid, hcreate⟩ : answers.Accepts i := haccepts 0 (Nat.succ_pos k)
          have hrest : ∀ j < k, answers.Accepts (i + 1 + j) := by
            intro j hj
            rw [Nat.add_assoc, Nat.add_comm 1]
            exact haccepts (j + 1) (Nat.succ_lt_succ hj)
          rw [created, if_neg (not_not.mpr hvalid), if_pos hcreate, List.take_succ_cons]
          exact List.cons_prefix_cons.mpr ⟨rfl, ih hrest⟩

theorem accepts_of_created_eq {i : Nat} {filters : List Pattern}
    (hall : created answers i filters = filters) :
    ∀ j < filters.length, answers.Accepts (i + j) := by
  induction filters generalizing i with
  | nil => exact nofun
  | cons filter rest ih =>
      rw [created] at hall
      split at hall
      next => cases hall
      next hvalid =>
        split at hall
        next hcreate =>
          intro j hj
          cases j with
          | zero => exact ⟨not_not.mp hvalid, hcreate⟩
          | succ j =>
              rw [Nat.add_comm j, ← Nat.add_assoc]
              exact ih (List.tail_eq_of_cons_eq hall) j (Nat.lt_of_succ_lt_succ hj)
        next =>
          split at hall
          next => exact absurd hall (created_ne_cons (i + 1) filter rest)
          next => cases hall

theorem created_eq_iff (i : Nat) (filters : List Pattern) :
    created answers i filters = filters ↔ ∀ j < filters.length, answers.Accepts (i + j) := by
  refine ⟨accepts_of_created_eq, ?_⟩
  intro haccepts
  have hreaches := (take_created haccepts filters).sublist
  rw [List.take_length] at hreaches
  exact (created_sublist i filters).antisymm hreaches

/-- Nothing was warned about, and no error raised. -/
def Flows.Silent (flows : Flows Attr Pattern Actions) : Prop :=
  flows.warnings = [] ∧ flows.raised = false

theorem Flows.not_silent_warn (flows : Flows Attr Pattern Actions) (text : String)
    (error : FlowError) : ¬ (flows.warn text error).Silent := by
  unfold Flows.warn Flows.Silent
  split <;> simp

theorem silent_createFrom_iff (i : Nat) (filters : List Pattern)
    (flows : Flows Attr Pattern Actions) :
    (createFrom answers flowAttr actions i filters flows).Silent ↔
      flows.Silent ∧ created answers i filters = filters := by
  fun_induction createFrom answers flowAttr actions i filters flows with
  | case1 i flows => simp [created]
  | case2 i filter rest flows hinvalid => simp [Flows.not_silent_warn, created, hinvalid]
  | case3 i filter rest flows hvalid hcreate ih =>
      rw [ih, created, if_neg hvalid, if_pos hcreate, List.cons.injEq]
      simp [Flows.Silent]
  | case4 i filter rest flows hvalid hcreate htext ih =>
      have hfewer := @created_ne_cons _ _ _ answers (i + 1) filter rest
      rw [ih, created, if_neg hvalid, if_neg hcreate, if_pos htext]
      simp [Flows.not_silent_warn, hfewer]
  | case5 i filter rest flows hvalid hcreate htext =>
      rw [created, if_neg hvalid, if_neg hcreate, if_neg htext]
      simp [Flows.not_silent_warn]

/-- Nothing is returned, but every failure is warned about or raises an error. -/
theorem createFilter_silent_iff (filters : Filters Pattern)
    (installed : List (Rule Attr Pattern Actions)) :
    (createFilter answers flowAttr filters actions installed).Silent ↔
      Installable answers filters := by
  rw [createFilter, flushFilter, Installable]
  split
  next hflush => simp [hflush, Flows.not_silent_warn]
  next hflush =>
    rw [silent_createFrom_iff, created_eq_iff]
    simp only [Flows.Silent, Nat.zero_add, true_and, not_not.mp hflush]

end Libmoon.Device
