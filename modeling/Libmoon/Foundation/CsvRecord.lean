import Mathlib.Data.List.Basic
import Mathlib.Tactic.Common

/-! # Records of comma-separated values

The grammar of one record of RFC 4180 and a parser for it. `TEXTDATA` is taken to be every byte
that has no meaning of its own, so that text of any encoding may stand in a field.
-/

namespace Foundation

namespace Csv

def dquote : UInt8 := 0x22

def comma : UInt8 := 0x2C

def cr : UInt8 := 0x0D

def lf : UInt8 := 0x0A

/-- `TEXTDATA` -/
def IsText (byte : UInt8) : Prop := byte ≠ dquote ∧ byte ≠ comma ∧ byte ≠ cr ∧ byte ≠ lf

instance (byte : UInt8) : Decidable (IsText byte) := inferInstanceAs (Decidable (_ ∧ _))

/-- `2DQUOTE` stands for a quote. -/
def escape (value : List UInt8) : List UInt8 :=
  value.flatMap fun byte => if byte = dquote then [dquote, dquote] else [byte]

@[simp] theorem escape_nil : escape [] = [] := rfl

theorem escape_cons (byte : UInt8) (value : List UInt8) :
    escape (byte :: value) =
      (if byte = dquote then [dquote, dquote] else [byte]) ++ escape value := rfl

@[simp] theorem escape_dquote_cons (value : List UInt8) :
    escape (dquote :: value) = dquote :: dquote :: escape value := rfl

@[simp] theorem escape_cons_of_ne {byte : UInt8} (hne : byte ≠ dquote) (value : List UInt8) :
    escape (byte :: value) = byte :: escape value := by
  rw [escape_cons, if_neg hne]
  rfl

theorem mem_escape {byte : UInt8} {value : List UInt8} : byte ∈ escape value ↔ byte ∈ value := by
  induction value with
  | nil => rfl
  | cons first value ih =>
      rw [escape_cons, List.mem_append, ih, List.mem_cons]
      refine or_congr_left ?_
      split
      next hfirst => simp [hfirst]
      next => exact List.mem_singleton

theorem escape_of_notMem {value : List UInt8} (hquote : dquote ∉ value) :
    escape value = value := by
  induction value with
  | nil => rfl
  | cons first value ih =>
      rw [List.mem_cons, not_or] at hquote
      rw [escape_cons_of_ne (Ne.symm hquote.left), ih hquote.right]

/-- `field = (escaped / non-escaped)`, with the value that it has. -/
inductive Field : List UInt8 → List UInt8 → Prop
  | nonEscaped {text : List UInt8} (htext : ∀ byte ∈ text, IsText byte) : Field text text
  | escaped (value : List UInt8) : Field (dquote :: (escape value ++ [dquote])) value

/-- `record = field *(COMMA field)`, with the values of the fields. -/
inductive Record : List UInt8 → List (List UInt8) → Prop
  | last {text value : List UInt8} (hfield : Field text value) : Record text [value]
  | more {text value rest : List UInt8} {values : List (List UInt8)} (hfield : Field text value)
      (hrest : Record rest values) : Record (text ++ comma :: rest) (value :: values)

/-- Fields with commas between them are a record. -/
theorem Record.intercalate {texts values : List (List UInt8)}
    (hfields : List.Forall₂ Field texts values) (hne : values ≠ []) :
    Record ([comma].intercalate texts) values := by
  induction hfields with
  | nil => exact absurd rfl hne
  | @cons text value texts values hfield hrest ih =>
      cases hrest with
      | nil =>
          rw [List.intercalate_singleton]
          exact .last hfield
      | cons hnext hrest =>
          rw [List.intercalate_cons_cons, List.append_assoc]
          exact .more hfield (ih (List.cons_ne_nil _ _))

/-- Where the parser is in a field. -/
inductive Place where
  | start | nonEscaped | escaped | afterQuote
deriving DecidableEq

/-- One more byte in front of the first value. -/
def consByte (byte : UInt8) : List (List UInt8) → List (List UInt8)
  | [] => [[byte]]
  | value :: values => (byte :: value) :: values

@[simp] theorem consByte_cons (byte : UInt8) (value : List UInt8) (values : List (List UInt8)) :
    consByte byte (value :: values) = (byte :: value) :: values := rfl

/-- The values of the rest of a record. The first of them is that of the rest of a field. -/
def parseFrom : Place → List UInt8 → Option (List (List UInt8))
  | .escaped, [] => none
  | _, [] => some [[]]
  | .start, byte :: rest =>
      if byte = dquote then parseFrom .escaped rest
      else if byte = comma then (parseFrom .start rest).map ([] :: ·)
      else if IsText byte then (parseFrom .nonEscaped rest).map (consByte byte)
      else none
  | .nonEscaped, byte :: rest =>
      if byte = comma then (parseFrom .start rest).map ([] :: ·)
      else if IsText byte then (parseFrom .nonEscaped rest).map (consByte byte)
      else none
  | .escaped, byte :: rest =>
      if byte = dquote then parseFrom .afterQuote rest
      else (parseFrom .escaped rest).map (consByte byte)
  | .afterQuote, byte :: rest =>
      if byte = dquote then (parseFrom .escaped rest).map (consByte dquote)
      else if byte = comma then (parseFrom .start rest).map ([] :: ·)
      else none

/-- The values of a record. -/
def parseRecord (text : List UInt8) : Option (List (List UInt8)) := parseFrom .start text

/-! ## What the grammar derives is parsed -/

/-- What follows a field, with the values parsed out of it. -/
def Continues (tail : List UInt8) (values : List (List UInt8)) : Prop :=
  tail = [] ∧ values = [] ∨ ∃ rest, tail = comma :: rest ∧ parseFrom .start rest = some values

variable {text tail value : List UInt8} {values : List (List UInt8)} {byte : UInt8}

theorem parseFrom_continues (hcontinues : Continues tail values) {place : Place}
    (hplace : place ≠ .escaped) : parseFrom place tail = some ([] :: values) := by
  rcases hcontinues with ⟨rfl, rfl⟩ | ⟨rest, rfl, hrest⟩
  · cases place with
    | start => rfl
    | nonEscaped => rfl
    | escaped => exact absurd rfl hplace
    | afterQuote => rfl
  · have hcomma : (comma = dquote) = False := by decide
    cases place with
    | start => simp [parseFrom, hrest, hcomma]
    | nonEscaped => simp [parseFrom, hrest]
    | escaped => exact absurd rfl hplace
    | afterQuote => simp [parseFrom, hrest, hcomma]

theorem parseFrom_nonEscaped (htext : ∀ byte ∈ text, IsText byte)
    (hcontinues : Continues tail values) :
    parseFrom .nonEscaped (text ++ tail) = some (text :: values) := by
  induction text with
  | nil => exact parseFrom_continues hcontinues (by decide)
  | cons byte text ih =>
      have hbyte := htext byte List.mem_cons_self
      have hrest := ih fun other hother => htext other (List.mem_cons_of_mem byte hother)
      simp [parseFrom, hrest, hbyte, hbyte.2.1]

theorem parseFrom_escaped (hcontinues : Continues tail values) :
    parseFrom .escaped (escape value ++ dquote :: tail) = some (value :: values) := by
  induction value with
  | nil =>
      have htail : parseFrom .afterQuote tail = _ := parseFrom_continues hcontinues (by decide)
      simp [parseFrom, htail]
  | cons byte value ih =>
      -- a quote has been doubled, so that the field goes on after it
      by_cases hbyte : byte = dquote
      · subst hbyte
        simp [parseFrom, ih]
      · simp [parseFrom, ih, hbyte]

theorem parseFrom_field (hfield : Field text value) (hcontinues : Continues tail values) :
    parseFrom .start (text ++ tail) = some (value :: values) := by
  cases hfield with
  | nonEscaped htext =>
      cases text with
      | nil => exact parseFrom_continues hcontinues (by decide)
      | cons byte text =>
          have hbyte := htext byte List.mem_cons_self
          have hrest := @parseFrom_nonEscaped text _ _
            (fun other hother => htext other (List.mem_cons_of_mem byte hother)) hcontinues
          simp [parseFrom, hrest, hbyte, hbyte.1, hbyte.2.1]
  | escaped value =>
      have hrest := @parseFrom_escaped _ value _ hcontinues
      simp [parseFrom, hrest]

theorem Record.parses (hrecord : Record text values) : parseRecord text = some values := by
  induction hrecord with
  | last hfield =>
      have hparse := parseFrom_field hfield (.inl ⟨rfl, rfl⟩)
      rwa [List.append_nil] at hparse
  | more hfield _ ih => exact parseFrom_field hfield (.inr ⟨_, rfl, ih⟩)

/-- A text is the record of one list of values at most. -/
theorem Record.unique {values' : List (List UInt8)} (hrecord : Record text values)
    (hrecord' : Record text values') : values = values' :=
  Option.some.inj (hrecord.parses.symm.trans hrecord'.parses)

/-! ## What is parsed is derived by the grammar -/

/-- What may follow a field: nothing, or a comma and the rest of the record. -/
inductive Follow : List UInt8 → List (List UInt8) → Prop
  | last : Follow [] []
  | more {rest : List UInt8} {values : List (List UInt8)} (hrest : Record rest values) :
      Follow (comma :: rest) values

theorem Record.of_follow (hfield : Field text value) (hfollow : Follow tail values) :
    Record (text ++ tail) (value :: values) := by
  cases hfollow with
  | last =>
      rw [List.append_nil]
      exact .last hfield
  | more hrest => exact .more hfield hrest

/-- The text and the values that are left at each place. -/
inductive Rest : Place → List UInt8 → List (List UInt8) → Prop
  | start {text : List UInt8} {values : List (List UInt8)} (hrecord : Record text values) :
      Rest .start text values
  | nonEscaped {text tail : List UInt8} {values : List (List UInt8)}
      (htext : ∀ byte ∈ text, IsText byte) (hfollow : Follow tail values) :
      Rest .nonEscaped (text ++ tail) (text :: values)
  | escaped (value : List UInt8) {tail : List UInt8} {values : List (List UInt8)}
      (hfollow : Follow tail values) :
      Rest .escaped (escape value ++ dquote :: tail) (value :: values)
  | closed {tail : List UInt8} {values : List (List UInt8)} (hfollow : Follow tail values) :
      Rest .afterQuote tail ([] :: values)
  | quoted (value : List UInt8) {tail : List UInt8} {values : List (List UInt8)}
      (hfollow : Follow tail values) :
      Rest .afterQuote (dquote :: (escape value ++ dquote :: tail)) ((dquote :: value) :: values)

theorem Rest.cons_start (hbyte : IsText byte) (hrest : Rest .nonEscaped text values) :
    Rest .start (byte :: text) (consByte byte values) := by
  cases hrest with
  | @nonEscaped text tail values htext hfollow =>
      have hfield : Field (byte :: text) (byte :: text) :=
        .nonEscaped (List.forall_mem_cons.mpr ⟨hbyte, htext⟩)
      exact .start (.of_follow hfield hfollow)

theorem Rest.cons_nonEscaped (hbyte : IsText byte) (hrest : Rest .nonEscaped text values) :
    Rest .nonEscaped (byte :: text) (consByte byte values) := by
  cases hrest with
  | @nonEscaped text tail values htext hfollow =>
      have htext : ∀ other ∈ byte :: text, IsText other :=
        List.forall_mem_cons.mpr ⟨hbyte, htext⟩
      exact .nonEscaped htext hfollow

theorem Rest.cons_escaped (hbyte : byte ≠ dquote) (hrest : Rest .escaped text values) :
    Rest .escaped (byte :: text) (consByte byte values) := by
  cases hrest with
  | escaped value hfollow =>
      have hescaped := Rest.escaped (byte :: value) hfollow
      rwa [escape_cons_of_ne hbyte] at hescaped

/-- A quote in an escaped field is its end or the first of two. -/
theorem Rest.dquote_escaped (hrest : Rest .afterQuote text values) :
    Rest .escaped (dquote :: text) values := by
  cases hrest with
  | closed hfollow => exact .escaped [] hfollow
  | quoted value hfollow => exact .escaped (dquote :: value) hfollow

theorem Rest.dquote_start (hrest : Rest .escaped text values) :
    Rest .start (dquote :: text) values := by
  cases hrest with
  | @escaped value tail values hfollow =>
      have hrecord := Record.of_follow (.escaped value) hfollow
      rw [List.cons_append, List.append_assoc] at hrecord
      exact .start hrecord

theorem Rest.dquote_afterQuote (hrest : Rest .escaped text values) :
    Rest .afterQuote (dquote :: text) (consByte dquote values) := by
  cases hrest with
  | escaped value hfollow => exact .quoted value hfollow

theorem field_nil : Field [] [] := .nonEscaped fun _ hbyte => absurd hbyte List.not_mem_nil

theorem Follow.nonEscaped (hfollow : Follow tail values) :
    Rest .nonEscaped tail ([] :: values) := by
  have hrest := Rest.nonEscaped (fun _ hbyte => absurd hbyte List.not_mem_nil) hfollow
  rwa [List.nil_append] at hrest

theorem Rest.comma_cons (hrest : Rest .start text values) {place : Place}
    (hplace : place ≠ .escaped) : Rest place (comma :: text) ([] :: values) := by
  cases hrest with
  | start hrecord =>
      cases place with
      | start => exact .start (.more field_nil hrecord)
      | nonEscaped => exact Follow.nonEscaped (.more hrecord)
      | escaped => exact absurd rfl hplace
      | afterQuote => exact .closed (.more hrecord)

theorem Rest.of_parseFrom {place : Place} (hparse : parseFrom place text = some values) :
    Rest place text values := by
  induction text generalizing place values with
  | nil =>
      cases place with
      | escaped => cases hparse
      | start =>
          cases hparse
          exact .start (.last field_nil)
      | nonEscaped =>
          cases hparse
          exact Follow.nonEscaped .last
      | afterQuote =>
          cases hparse
          exact .closed .last
  | cons byte text ih =>
      -- a case for each place and each kind of byte, as in the parser
      cases place with
      | start =>
          rw [parseFrom] at hparse
          split_ifs at hparse with hquote hcomma htext
          · subst hquote
            exact (ih hparse).dquote_start
          · subst hcomma
            obtain ⟨values, hrest, rfl⟩ := Option.map_eq_some_iff.mp hparse
            exact (ih hrest).comma_cons (by decide)
          · obtain ⟨values, hrest, rfl⟩ := Option.map_eq_some_iff.mp hparse
            exact (ih hrest).cons_start htext
      | nonEscaped =>
          rw [parseFrom] at hparse
          split_ifs at hparse with hcomma htext
          · subst hcomma
            obtain ⟨values, hrest, rfl⟩ := Option.map_eq_some_iff.mp hparse
            exact (ih hrest).comma_cons (by decide)
          · obtain ⟨values, hrest, rfl⟩ := Option.map_eq_some_iff.mp hparse
            exact (ih hrest).cons_nonEscaped htext
      | escaped =>
          rw [parseFrom] at hparse
          split_ifs at hparse with hquote
          · subst hquote
            exact (ih hparse).dquote_escaped
          · obtain ⟨values, hrest, rfl⟩ := Option.map_eq_some_iff.mp hparse
            exact (ih hrest).cons_escaped hquote
      | afterQuote =>
          rw [parseFrom] at hparse
          split_ifs at hparse with hquote hcomma
          · subst hquote
            obtain ⟨values, hrest, rfl⟩ := Option.map_eq_some_iff.mp hparse
            exact (ih hrest).dquote_afterQuote
          · subst hcomma
            obtain ⟨values, hrest, rfl⟩ := Option.map_eq_some_iff.mp hparse
            exact (ih hrest).comma_cons (by decide)

/-- The parser decides the grammar. -/
theorem parseRecord_eq_some_iff : parseRecord text = some values ↔ Record text values := by
  constructor
  · intro hparse
    cases Rest.of_parseFrom hparse with
    | start hrecord => exact hrecord
  · exact Record.parses

end Csv

end Foundation
