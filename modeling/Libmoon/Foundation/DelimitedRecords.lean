import Mathlib.Data.List.Basic
import Mathlib.Data.List.Infix
import Mathlib.Logic.Relation
import Mathlib.Tactic.Common

/-! # Delimited records

Records are written one after the other, each with two delimiters in front of it and one
between its fields. A free field may have delimiters in it, so that a record can look like
several.
-/

namespace Foundation

universe u

variable {α : Type u}

/-- The fields of a record in the order in which they are written. -/
structure DelimitedRecord (α : Type u) where
  key : List α
  free : List α
  value : List α
  kind : List α
deriving DecidableEq

namespace DelimitedRecord

section Text

variable (delim : α)

def text (record : DelimitedRecord α) : List α :=
  delim :: delim :: (record.key ++ delim :: (record.free ++ delim ::
    (record.value ++ delim :: record.kind)))

def textOf (records : List (DelimitedRecord α)) : List α := records.flatMap (text delim)

/-- One record with the text of two. -/
def join (first second : DelimitedRecord α) : DelimitedRecord α where
  key := first.key
  free := first.free ++ delim :: (first.value ++ delim :: (first.kind ++ delim :: delim ::
    (second.key ++ delim :: second.free)))
  value := second.value
  kind := second.kind

/-- One record with the text of some. -/
def joinAll (first : DelimitedRecord α) : List (DelimitedRecord α) → DelimitedRecord α
  | [] => first
  | second :: rest => joinAll (join delim first second) rest

/-- Two neighbours become one record. -/
inductive JoinStep : List (DelimitedRecord α) → List (DelimitedRecord α) → Prop
  | here (first second : DelimitedRecord α) (rest : List (DelimitedRecord α)) :
      JoinStep (first :: second :: rest) (join delim first second :: rest)
  | there (record : DelimitedRecord α) {records records' : List (DelimitedRecord α)}
      (hstep : JoinStep records records') : JoinStep (record :: records) (record :: records')

/-- Joining neighbours and taking records apart leads from one list to the other. -/
def Joinable : List (DelimitedRecord α) → List (DelimitedRecord α) → Prop :=
  Relation.EqvGen (JoinStep delim)

end Text

variable {delim : α} {first second record : DelimitedRecord α}
  {rest records records' : List (DelimitedRecord α)}

theorem text_join (first second : DelimitedRecord α) :
    text delim (join delim first second) = text delim first ++ text delim second := by
  simp [text, join]

theorem textOf_cons :
    textOf delim (record :: records) = text delim record ++ textOf delim records :=
  List.flatMap_cons

theorem JoinStep.textOf_eq (hstep : JoinStep delim records records') :
    textOf delim records = textOf delim records' := by
  induction hstep with
  | here first second rest =>
      rw [textOf_cons, textOf_cons, textOf_cons, text_join, List.append_assoc]
  | there record _ ih => rw [textOf_cons, textOf_cons, ih]

/-- Joining does not change the text. -/
theorem Joinable.textOf_eq (hjoinable : Joinable delim records records') :
    textOf delim records = textOf delim records' := by
  induction hjoinable with
  | rel _ _ hstep => exact hstep.textOf_eq
  | refl => rfl
  | symm _ _ _ ih => exact ih.symm
  | trans _ _ _ _ _ ih ih' => exact ih.trans ih'

theorem joinable_joinAll (first : DelimitedRecord α) (rest : List (DelimitedRecord α)) :
    Joinable delim (first :: rest) [joinAll delim first rest] := by
  induction rest generalizing first with
  | nil => exact .refl _
  | cons second rest ih => exact .trans _ _ _ (.rel _ _ (.here first second rest)) (ih _)

/-! ## Fields without delimiters -/

/-- Of the fields only the free one has delimiters in it, and values are no keys. -/
structure WellFormed (delim : α) (IsKey : List α → Prop) (record : DelimitedRecord α) : Prop where
  key_plain : delim ∉ record.key
  value_plain : delim ∉ record.value
  kind_plain : delim ∉ record.kind
  value_ne_nil : record.value ≠ []
  kind_ne_nil : record.kind ≠ []
  key_isKey : IsKey record.key
  value_not_isKey : ¬ IsKey record.value

variable {IsKey : List α → Prop}

theorem WellFormed.join (hfirst : WellFormed delim IsKey first)
    (hsecond : WellFormed delim IsKey second) :
    WellFormed delim IsKey (first.join delim second) where
  key_plain := hfirst.key_plain
  value_plain := hsecond.value_plain
  kind_plain := hsecond.kind_plain
  value_ne_nil := hsecond.value_ne_nil
  kind_ne_nil := hsecond.kind_ne_nil
  key_isKey := hfirst.key_isKey
  value_not_isKey := hsecond.value_not_isKey

theorem WellFormed.joinAll (hfirst : WellFormed delim IsKey first)
    (hrest : ∀ record ∈ rest, WellFormed delim IsKey record) :
    WellFormed delim IsKey (joinAll delim first rest) := by
  induction rest generalizing first with
  | nil => exact hfirst
  | cons second rest ih =>
      obtain ⟨hsecond, hrest⟩ := List.forall_mem_cons.mp hrest
      exact ih (hfirst.join hsecond) hrest

theorem intercalate_append {parts parts' : List (List α)} (hne : parts ≠ []) (hne' : parts' ≠ []) :
    [delim].intercalate (parts ++ parts') =
      [delim].intercalate parts ++ delim :: [delim].intercalate parts' := by
  induction parts with
  | nil => exact absurd rfl hne
  | cons part parts ih =>
      cases parts with
      | nil =>
          rw [List.singleton_append, List.intercalate_cons_of_ne_nil hne',
            List.intercalate_singleton, List.append_assoc]
          rfl
      | cons next parts =>
          rw [List.cons_append, List.cons_append, List.intercalate_cons_cons,
            List.intercalate_cons_cons, ← List.cons_append, ih (List.cons_ne_nil _ _)]
          simp only [List.append_assoc]

section Segments

variable [BEq α] [LawfulBEq α]

/-- The parts between the delimiters in the text of some records. -/
def segments (delim : α) : List (DelimitedRecord α) → List (List α)
  | [] => []
  | record :: rest =>
      [] :: record.key :: (record.free.splitOn delim ++
        record.value :: record.kind :: segments delim rest)

theorem splitOn_append_of_notMem {front : List α} (hfront : delim ∉ front) (back : List α) :
    (front ++ back).splitOn delim = (back.splitOn delim).modifyHead (front ++ ·) := by
  induction front with
  | nil =>
      rw [List.nil_append]
      cases back.splitOn delim <;> rfl
  | cons char front ih =>
      rw [List.mem_cons, not_or] at hfront
      have hchar : (char == delim) = false := beq_eq_false_iff_ne.mpr (Ne.symm hfront.left)
      rw [List.cons_append, List.splitOn_cons_eq_if_modifyHead, hchar, ih hfront.right,
        if_neg Bool.false_ne_true, List.modifyHead_modifyHead]
      rfl

theorem splitOn_textOf (hrecords : ∀ record ∈ records, WellFormed delim IsKey record) :
    (textOf delim records).splitOn delim = [] :: segments delim records := by
  induction records with
  | nil => rfl
  | cons record records ih =>
      obtain ⟨hrecord, hrest⟩ := List.forall_mem_cons.mp hrecords
      have hkind := splitOn_append_of_notMem hrecord.kind_plain (textOf delim records)
      rw [ih hrest, List.modifyHead_cons, List.append_nil] at hkind
      have htext : textOf delim (record :: records) = [] ++ delim :: ([] ++ delim ::
          (record.key ++ delim :: (record.free ++ delim :: (record.value ++ delim ::
            (record.kind ++ textOf delim records))))) := by
        simp [textOf_cons, text]
      rw [htext, List.splitOn_append_cons_self_of_not_mem List.not_mem_nil,
        List.splitOn_append_cons_self_of_not_mem List.not_mem_nil,
        List.splitOn_append_cons_self_of_not_mem hrecord.key_plain, List.splitOn_append_cons_self,
        List.splitOn_append_cons_self_of_not_mem hrecord.value_plain, hkind]
      rfl

theorem segments_eq (hrecords : ∀ record ∈ records, WellFormed delim IsKey record)
    (hrecords' : ∀ record ∈ records', WellFormed delim IsKey record)
    (htext : textOf delim records = textOf delim records') :
    segments delim records = segments delim records' := by
  have hsplit := splitOn_textOf hrecords
  rw [htext, splitOn_textOf hrecords'] at hsplit
  exact (List.cons.inj hsplit).2.symm

theorem splitOn_inj {text text' : List α} (heq : text.splitOn delim = text'.splitOn delim) :
    text = text' := by
  have htext := congrArg [delim].intercalate heq
  rwa [List.intercalate_splitOn, List.intercalate_splitOn] at htext

/-- One record can be read back. -/
theorem WellFormed.eq_of_text_eq (hfirst : WellFormed delim IsKey first)
    (hsecond : WellFormed delim IsKey second)
    (htext : text delim first = text delim second) : first = second := by
  have hsegments := @segments_eq _ delim [first] [second] IsKey _ _ (by simpa using hfirst)
    (by simpa using hsecond) (by simpa [textOf] using htext)
  obtain ⟨key, free, value, kind⟩ := first
  obtain ⟨key', free', value', kind'⟩ := second
  simp only [segments, List.cons.injEq, true_and] at hsegments
  obtain ⟨rfl, htail⟩ := hsegments
  obtain ⟨hfree, htail⟩ := List.append_inj' htail rfl
  simp only [List.cons.injEq, and_true] at htail
  obtain ⟨rfl, rfl⟩ := htail
  rw [splitOn_inj hfree]

/-- Texts are the same exactly if joining neighbours leads from one list to the other. -/
theorem textOf_eq_iff_joinable (hrecords : ∀ record ∈ records, WellFormed delim IsKey record)
    (hrecords' : ∀ record ∈ records', WellFormed delim IsKey record) :
    textOf delim records = textOf delim records' ↔ Joinable delim records records' := by
  refine ⟨fun htext => ?_, Joinable.textOf_eq⟩
  cases records with
  | nil =>
      cases records' with
      | nil => exact .refl _
      | cons first' rest' => cases htext
  | cons first rest =>
      cases records' with
      | nil => cases htext
      | cons first' rest' =>
          obtain ⟨hfirst, hrest⟩ := List.forall_mem_cons.mp hrecords
          obtain ⟨hfirst', hrest'⟩ := List.forall_mem_cons.mp hrecords'
          -- each list is joined to one record, and one record can be read back
          have hjoin := @joinable_joinAll _ delim first rest
          have hjoin' := @joinable_joinAll _ delim first' rest'
          have hsame := hjoin.textOf_eq.symm.trans (htext.trans hjoin'.textOf_eq)
          simp only [textOf, List.flatMap_cons, List.flatMap_nil, List.append_nil] at hsame
          have heq := (hfirst.joinAll hrest).eq_of_text_eq (hfirst'.joinAll hrest') hsame
          rw [heq] at hjoin
          exact .trans _ _ _ hjoin (.symm _ _ hjoin')

/-! ## Free fields without two delimiters in a row -/

/-- Nothing between two delimiters means that one follows the other. -/
theorem doubled_of_nil_part {text : List α} {k : ℕ} (hpos : 0 < k)
    (hlt : k + 1 < (text.splitOn delim).length) (hnil : (text.splitOn delim)[k]? = some []) :
    [delim, delim] <:+: text := by
  have hsplit : text.splitOn delim =
      (text.splitOn delim).take k ++ [] :: (text.splitOn delim).drop (k + 1) := by
    obtain ⟨hk, hpart⟩ := List.getElem?_eq_some_iff.mp hnil
    rw [← hpart, List.getElem_cons_drop, List.take_append_drop]
  have htake : (text.splitOn delim).take k ≠ [] := by
    rw [← List.length_pos_iff, List.length_take]
    omega
  have hdrop : (text.splitOn delim).drop (k + 1) ≠ [] := by
    rw [← List.length_pos_iff, List.length_drop]
    omega
  have htext : [delim].intercalate (text.splitOn delim) = text := List.intercalate_splitOn delim
  rw [hsplit, intercalate_append htake (List.cons_ne_nil _ _),
    List.intercalate_cons_of_ne_nil hdrop] at htext
  refine ⟨[delim].intercalate ((text.splitOn delim).take k),
    [delim].intercalate ((text.splitOn delim).drop (k + 1)), Eq.trans ?_ htext⟩
  simp

/-- In the text of some records, a free field cannot end at one of two places. -/
theorem length_free_le {value value' kind kind' free free' : List α}
    (hkind' : kind' ≠ []) (hvalue' : value' ≠ []) (hvaluekey : ¬ IsKey value')
    (hfree' : ¬ [delim, delim] <:+: free')
    (hrecords : ∀ record ∈ records, WellFormed delim IsKey record)
    (heq : free.splitOn delim ++ value :: kind :: segments delim records =
      free'.splitOn delim ++ value' :: kind' :: segments delim records') :
    (free'.splitOn delim).length ≤ (free.splitOn delim).length := by
  by_contra hlt
  have hpos := List.length_pos_iff.mpr (List.splitOn_ne_nil delim free)
  cases records with
  | nil =>
      have hlength := congrArg List.length heq
      simp only [segments, List.length_append, List.length_cons, List.length_nil] at hlength
      omega
  | cons record rest =>
      have hkey := (hrecords record List.mem_cons_self).key_isKey
      -- after the shorter of the two come a part that is empty and a key
      have hnilAt : (free'.splitOn delim ++ value' :: kind' :: segments delim records')[
          (free.splitOn delim).length + 2]? = some [] := by
        rw [← heq, List.getElem?_append_right (by omega), Nat.add_sub_cancel_left]
        rfl
      have hkeyAt : (free'.splitOn delim ++ value' :: kind' :: segments delim records')[
          (free.splitOn delim).length + 3]? = some record.key := by
        rw [← heq, List.getElem?_append_right (by omega), Nat.add_sub_cancel_left]
        rfl
      generalize hn : (free.splitOn delim).length = n at *
      obtain hN | hN | hN | hN : (free'.splitOn delim).length = n + 1 ∨
          (free'.splitOn delim).length = n + 2 ∨ (free'.splitOn delim).length = n + 3 ∨
            n + 4 ≤ (free'.splitOn delim).length := by omega
      · rw [List.getElem?_append_right (by omega), hN, show n + 2 - (n + 1) = 1 by omega] at hnilAt
        exact hkind' (Option.some.inj hnilAt)
      · rw [List.getElem?_append_right (by omega), hN, Nat.sub_self] at hnilAt
        exact hvalue' (Option.some.inj hnilAt)
      · rw [List.getElem?_append_right (by omega), hN, Nat.sub_self] at hkeyAt
        exact hvaluekey (Option.some.inj hkeyAt ▸ hkey)
      · rw [List.getElem?_append_left (by omega)] at hnilAt
        exact hfree' (doubled_of_nil_part (by omega) (by omega) hnilAt)

/-- Records whose free fields have no two delimiters in a row can be read back. -/
theorem eq_of_textOf_eq (hrecords : ∀ record ∈ records, WellFormed delim IsKey record)
    (hrecords' : ∀ record ∈ records', WellFormed delim IsKey record)
    (hfree : ∀ record ∈ records, ¬ [delim, delim] <:+: record.free)
    (hfree' : ∀ record ∈ records', ¬ [delim, delim] <:+: record.free)
    (htext : textOf delim records = textOf delim records') : records = records' := by
  have hsegments := segments_eq hrecords hrecords' htext
  clear htext
  induction records generalizing records' with
  | nil =>
      cases records' with
      | nil => rfl
      | cons => cases hsegments
  | cons first rest ih =>
      cases records' with
      | nil => cases hsegments
      | cons first' rest' =>
          obtain ⟨hfirst, hrest⟩ := List.forall_mem_cons.mp hrecords
          obtain ⟨hfirst', hrest'⟩ := List.forall_mem_cons.mp hrecords'
          obtain ⟨hplain, hplains⟩ := List.forall_mem_cons.mp hfree
          obtain ⟨hplain', hplains'⟩ := List.forall_mem_cons.mp hfree'
          obtain ⟨key, free, value, kind⟩ := first
          obtain ⟨key', free', value', kind'⟩ := first'
          simp only [segments, List.cons.injEq, true_and] at hsegments
          obtain ⟨rfl, htail⟩ := hsegments
          -- the free fields have as many parts, so that the lists can be taken apart there
          have hle := length_free_le hfirst'.kind_ne_nil hfirst'.value_ne_nil
            hfirst'.value_not_isKey hplain' hrest htail
          have hge := length_free_le hfirst.kind_ne_nil hfirst.value_ne_nil
            hfirst.value_not_isKey hplain hrest' htail.symm
          obtain ⟨hsplit, htail⟩ := List.append_inj htail (Nat.le_antisymm hge hle)
          simp only [List.cons.injEq] at htail
          obtain ⟨rfl, rfl, hsegments⟩ := htail
          rw [splitOn_inj hsplit, ih hrest hrest' hplains hplains' hsegments]

end Segments

end DelimitedRecord

end Foundation
