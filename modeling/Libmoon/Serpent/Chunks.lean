import Libmoon.Serpent.Dump
import Mathlib.Data.Fintype.Card

/-! # What dumps say

The code of a dump apart from how it is written. The text that `serpent.dump` puts together
is the text of this code.
-/

namespace Libmoon.Serpent

open Foundation.HexFloat Foundation.LuaQuote InterTask

variable {Ref : Type}

/-- The tables met so far, with their paths, and the assignments behind the value. -/
structure State (Ref : Type) where
  seen : List (Ref × Path)
  assignments : List (Path × Path)

/-- The fields for these keys. A table that is not sparse has items only. -/
def dumpFields (dumpValue : Val Ref → Key → State Ref → Option (Expr × State Ref))
    (table : TableObject Ref) : List Key → State Ref → Option (Fields × State Ref)
  | [], state => some (.nil, state)
  | key :: keys, state =>
      if table.sparse && (table.get key).isNil then dumpFields dumpValue table keys state
      else do
        let (value, state) ← dumpValue (table.get key) key state
        let (fields, state) ← dumpFields dumpValue table keys state
        return (.cons (if table.sparse then some key else none) value fields, state)

def dumpValue (graph : Graph) : ℕ → Val (Fin graph.size) → Path → State (Fin graph.size) →
    Option (Expr × State (Fin graph.size))
  | 0, _, _, _ => none
  | _ + 1, .literal literal, _, state => some (.literal literal, state)
  | fuel + 1, .table ref, path, state =>
      match state.seen.lookup ref with
      | some place =>
          some (.literal .nil, { state with assignments := state.assignments ++ [(path, place)] })
      | none =>
          let state := { state with seen := state.seen ++ [(ref, path)] }
          let table := graph.tables ref
          if table.entries = [] then some (.table .nil, state)
          else do
            let (fields, state) ← dumpFields
              (fun value key => dumpValue graph fuel value (path ++ [key])) table table.keys state
            return (.table fields, state)

def dumpChunk (graph : Graph) (value : Val (Fin graph.size)) : Option Chunk := do
  let (value, state) ← dumpValue graph (graph.size + 1) value [] ⟨[], []⟩
  return ⟨value, state.assignments⟩

/-- How deep a dump nests the tables. -/
def nesting (graph : Graph) (value : Val (Fin graph.size)) : ℕ :=
  (dumpChunk graph value).elim 0 fun chunk => chunk.value.depth

/-! ## The text of tables -/

theorem pathText_append (path : Path) (key : Key) :
    pathText (path ++ [key]) = pathText path ++ selector key := by
  simp [pathText]

theorem safename_pathText (path : Path) (name : Key) :
    (safename (some (pathText path)) name).1 = pathText (path ++ [name]) := by
  rw [pathText_append, safename, selector]
  cases hplain : name.plain? with
  | none => simp
  | some plain => simp [Key.text, hplain]

def Fields.texts : Fields → List LuaString
  | .nil => []
  | .cons key value rest => (tag key ++ value.text) :: rest.texts

theorem Fields.restText_eq (fields : Fields) :
    fields.restText = fields.texts.flatMap (44 :: ·) ++ [125] := by
  cases fields with
  | nil => rfl
  | cons key value rest =>
      rw [restText, restText_eq rest, texts, List.flatMap_cons]
      simp

theorem intercalate_cons (first : LuaString) (rest : List LuaString) (separator : UInt8) :
    List.intercalate [separator] (first :: rest) = first ++ rest.flatMap (separator :: ·) := by
  induction rest generalizing first with
  | nil => simp
  | cons second rest ih =>
      rw [List.intercalate_cons_cons, ih, List.flatMap_cons]
      simp

theorem flatMap_separator (separator : UInt8) (texts : List LuaString) :
    texts.flatMap (separator :: ·) ++ [separator] =
      separator :: texts.flatMap (· ++ [separator]) := by
  induction texts with
  | nil => rfl
  | cons text texts ih =>
      rw [List.flatMap_cons, List.append_assoc, ih, List.flatMap_cons]
      simp

theorem Expr.text_table (fields : Fields) :
    (Expr.table fields).text = 123 :: (List.intercalate [44] fields.texts ++ [125]) := by
  cases fields with
  | nil => rfl
  | cons key value rest =>
      rw [text, Fields.texts, intercalate_cons, rest.restText_eq]
      simp

/-! ## The text of dumps -/

def State.text (state : State Ref) : Sref Ref where
  seen := state.seen.map (Prod.map id pathText)
  sref := ascii "local __=\x7b\x7d" :: state.assignments.map assignmentText

theorem State.lookup_text [BEq Ref] (state : State Ref) (ref : Ref) :
    state.text.seen.lookup ref = (state.seen.lookup ref).map pathText := by
  rw [State.text]
  induction state.seen with
  | nil => rfl
  | cons entry seen ih =>
      rw [List.map_cons, List.lookup_cons, List.lookup_cons, Prod.map_fst, id_eq]
      cases ref == entry.1 with
      | true => rfl
      | false => exact ih

/-- A table that is not sparse leaves the keys out, which are those of its items. -/
theorem tagText_eq (table : TableObject Ref) {key : Key} {n : ℕ}
    (hitems : table.sparse = false → key ∈ table.items ∧ n ≤ table.length) :
    tagText key (n ≤ table.length && !table.sparse) =
      tag (if table.sparse then some key else none) := by
  cases hsparse : table.sparse with
  | true => simp [tagText, tag]
  | false =>
      obtain ⟨hmem, hle⟩ := hitems hsparse
      obtain ⟨place, -, rfl⟩ := List.mem_map.mp hmem
      simp [tagText, tag, hle, index]

theorem outTexts_text {val2str : Val Ref → Key → Bool → Sref Ref → Option (LuaString × Sref Ref)}
    {dumpValue : Val Ref → Key → State Ref → Option (Expr × State Ref)}
    (hvalue : ∀ value key plainindex state, val2str value key plainindex state.text =
      (dumpValue value key state).map fun result =>
        (tagText key plainindex ++ result.1.text, result.2.text))
    (table : TableObject Ref) {keys : List Key} {n : ℕ} (hitems : table.sparse = false →
      (∀ key ∈ keys, key ∈ table.items) ∧ n + keys.length ≤ table.length + 1)
    (state : State Ref) :
    outTexts val2str table keys n state.text =
      (dumpFields dumpValue table keys state).map fun result =>
        (result.1.texts, result.2.text) := by
  induction keys generalizing n state with
  | nil => rfl
  | cons key keys ih =>
      have hrest : table.sparse = false →
          (∀ key ∈ keys, key ∈ table.items) ∧ n + 1 + keys.length ≤ table.length + 1 := by
        intro hsparse
        obtain ⟨hmem, hle⟩ := hitems hsparse
        rw [List.length_cons] at hle
        exact ⟨fun key hkey => hmem key (List.mem_cons_of_mem _ hkey), by omega⟩
      rw [outTexts, dumpFields]
      split
      next => exact ih hrest state
      next =>
        have hitem : table.sparse = false → key ∈ table.items ∧ n ≤ table.length := by
          intro hsparse
          obtain ⟨hmem, hle⟩ := hitems hsparse
          rw [List.length_cons] at hle
          exact ⟨hmem key List.mem_cons_self, by omega⟩
        have htag := tagText_eq table hitem
        rw [hvalue]
        cases dumpValue (table.get key) key state with
        | none => rfl
        | some result =>
            simp only [Option.map_some, Option.bind_eq_bind, Option.bind_some]
            rw [ih hrest result.2]
            cases dumpFields dumpValue table keys result.2 with
            | none => rfl
            | some rest => simp [Fields.texts, htag]

/-- The text of a value is the text of what the dump says. -/
theorem val2str_text (graph : Graph) (fuel : ℕ) (value : Val (Fin graph.size)) {name : Key}
    {above : Option LuaString} {path : Path} (hpath : (safename above name).1 = pathText path)
    (plainindex : Bool) (state : State (Fin graph.size)) :
    val2str graph fuel value name above plainindex state.text =
      (dumpValue graph fuel value path state).map fun result =>
        (tagText name plainindex ++ result.1.text, result.2.text) := by
  induction fuel generalizing value name above path plainindex state with
  | zero => rfl
  | succ fuel ih =>
      cases value with
      | literal literal => rfl
      | table ref =>
          simp only [val2str, dumpValue, State.lookup_text, hpath]
          cases state.seen.lookup ref with
          | some place =>
              simp [State.text, Expr.text, safestr, assignmentText]
          | none =>
              have hstate : (⟨state.text.seen ++ [(ref, pathText path)], state.text.sref⟩ :
                  Sref _) = State.text ⟨state.seen ++ [(ref, path)], state.assignments⟩ := by
                simp [State.text]
              simp only [Option.map_none, hstate]
              split
              next => simp [Expr.text, ascii]
              next =>
                have hitems : (graph.tables ref).sparse = false →
                    (∀ key ∈ (graph.tables ref).keys, key ∈ (graph.tables ref).items) ∧
                      1 + (graph.tables ref).keys.length ≤ (graph.tables ref).length + 1 := by
                  intro hsparse
                  rw [(graph.tables ref).keys_of_not_sparse hsparse]
                  simp [TableObject.items, Nat.add_comm]
                rw [outTexts_text (fun value key plainindex state =>
                  ih value (safename_pathText path key) plainindex state) _ hitems]
                cases dumpFields _ _ _ _ with
                | none => rfl
                | some result => simp [Expr.text_table, ascii]

/-- `serpent.dump` writes the text of what it says. -/
theorem dump_eq (graph : Graph) (value : Val (Fin graph.size)) :
    dump graph value = (dumpChunk graph value).map Chunk.text := by
  have hpath : (safename none underscore).1 = pathText [] := by decide
  have htext := val2str_text graph (graph.size + 1) value hpath false ⟨[], []⟩
  rw [State.text, List.map_nil, List.map_nil] at htext
  rw [dump, dumpChunk, htext]
  cases dumpValue graph (graph.size + 1) value [] ⟨[], []⟩ with
  | none => rfl
  | some result =>
      obtain ⟨value, seen, assignments⟩ := result
      have htag : tagText underscore false = ascii "_=" := by decide
      simp only [Option.map_some, State.text, Option.bind_eq_bind, Option.bind_some,
        Option.pure_def, Chunk.text, htag, List.length_cons, List.length_map,
        Option.some.injEq]
      have htail : (if 1 < assignments.length + 1 then
          List.intercalate [59] (ascii "local __=\x7b\x7d" :: assignments.map assignmentText) ++
            [59]
          else []) =
          if assignments = [] then [] else ascii "local __=\x7b\x7d;" ++
            assignments.flatMap fun assignment => assignmentText assignment ++ ascii ";" := by
        cases assignments with
        | nil => rfl
        | cons first rest =>
            have hend : ascii "local __=\x7b\x7d;" = ascii "local __=\x7b\x7d" ++ [59] := by decide
            rw [intercalate_cons, List.append_assoc, flatMap_separator, hend, List.flatMap_map]
            simp [ascii]
      rw [htail]
      simp [ascii]

/-- A table that is an element of itself, and has a name for itself. -/
example : dump
    { size := 1
      tables := fun _ =>
        { entries := [(index 1, .table 0), (⟨.string (ascii "me"), rfl⟩, .table 0)]
          length := 1
          nodup := by decide
          not_nil := by decide } } (.table 0) =
    some (ascii "do local _=\x7b[0x1p+0]=nil,me=nil\x7d;local __=\x7b\x7d;" ++
      ascii "_[0x1p+0]=_;_.me=_;return _;end") := by
  decide +kernel

/-! ## Runs of a dump -/

/-- The order in which the fields of a table are written. -/
structure TableObject.Lists (table : TableObject Ref) (keys : List Key) : Prop where
  nodup : keys.Nodup
  nil_of_notMem : ∀ key ∉ keys, table.get key = .nil
  items : table.sparse = false → keys = (List.range' 1 keys.length).map index

theorem TableObject.lists_keys (table : TableObject Ref) : table.Lists table.keys where
  nodup := table.keys_nodup
  nil_of_notMem _ := table.get_of_notMem_keys
  items := by
    intro hsparse
    rw [table.keys_of_not_sparse hsparse, items, List.length_map, List.length_range,
      List.range'_eq_map_range, List.map_map]
    exact List.map_congr_left fun place _ => by simp [Nat.add_comm]

theorem TableObject.lists_nil {table : TableObject Ref} (hempty : table.entries = []) :
    table.Lists [] where
  nodup := List.nodup_nil
  nil_of_notMem key _ := by simp [get, hempty]
  items _ := rfl

def State.meet (state : State Ref) (ref : Ref) (path : Path) : State Ref :=
  { state with seen := state.seen ++ [(ref, path)] }

def State.assign (state : State Ref) (path target : Path) : State Ref :=
  { state with assignments := state.assignments ++ [(path, target)] }

mutual

/-- The value is written as the expression, at the path. -/
inductive Dumps (graph : Graph) : Val (Fin graph.size) → Path → State (Fin graph.size) →
    Expr → State (Fin graph.size) → Prop where
  | literal (literal path state) :
      Dumps graph (.literal literal) path state (.literal literal) state
  | again {ref path target state} (hseen : (ref, target) ∈ state.seen) :
      Dumps graph (.table ref) path state (.literal .nil) (state.assign path target)
  | table {ref path keys state fields later} (hnew : ref ∉ state.seen.map Prod.fst)
      (hkeys : (graph.tables ref).Lists keys)
      (hfields : DumpsFields graph ref path keys (state.meet ref path) fields later) :
      Dumps graph (.table ref) path state (.table fields) later

/-- The fields of the table with these keys are written. -/
inductive DumpsFields (graph : Graph) : Fin graph.size → Path → List Key →
    State (Fin graph.size) → Fields → State (Fin graph.size) → Prop where
  | nil (ref path state) : DumpsFields graph ref path [] state .nil state
  | skip {ref path key keys state fields later} (hsparse : (graph.tables ref).sparse = true)
      (hnil : (graph.tables ref).get key = .nil)
      (hfields : DumpsFields graph ref path keys state fields later) :
      DumpsFields graph ref path (key :: keys) state fields later
  | cons {ref path key keys state value middle fields later}
      (hvalue : Dumps graph ((graph.tables ref).get key) (path ++ [key]) state value middle)
      (hfields : DumpsFields graph ref path keys middle fields later) :
      DumpsFields graph ref path (key :: keys) state
        (.cons (if (graph.tables ref).sparse then some key else none) value fields) later

end

/-- The tables met before, and the assignments, stay the first ones. -/
structure State.Extends (state later : State Ref) : Prop where
  seen : state.seen <+: later.seen
  assignments : state.assignments <+: later.assignments

theorem State.Extends.refl (state : State Ref) : state.Extends state :=
  ⟨List.prefix_refl _, List.prefix_refl _⟩

theorem State.Extends.trans {state middle later : State Ref} (hfirst : state.Extends middle)
    (hsecond : middle.Extends later) : state.Extends later :=
  ⟨hfirst.seen.trans hsecond.seen, hfirst.assignments.trans hsecond.assignments⟩

theorem State.extends_meet (state : State Ref) (ref : Ref) (path : Path) :
    state.Extends (state.meet ref path) :=
  ⟨List.prefix_append _ _, List.prefix_refl _⟩

theorem State.extends_assign (state : State Ref) (path target : Path) :
    state.Extends (state.assign path target) :=
  ⟨List.prefix_refl _, List.prefix_append _ _⟩

mutual

theorem Dumps.extends {graph : Graph} {value : Val (Fin graph.size)} {path : Path}
    {state later : State (Fin graph.size)} {expr : Expr} :
    Dumps graph value path state expr later → state.Extends later
  | .literal _ _ state => .refl state
  | .again _ => state.extends_assign _ _
  | .table _ _ hfields => (state.extends_meet _ _).trans hfields.extends

theorem DumpsFields.extends {graph : Graph} {ref : Fin graph.size} {path : Path} {keys : List Key}
    {state later : State (Fin graph.size)} {fields : Fields} :
    DumpsFields graph ref path keys state fields later → state.Extends later
  | .nil _ _ state => .refl state
  | .skip _ _ hfields => hfields.extends
  | .cons hvalue hfields => hvalue.extends.trans hfields.extends

end

def State.Nodup (state : State Ref) : Prop := (state.seen.map Prod.fst).Nodup

theorem State.nodup_start : State.Nodup (⟨[], []⟩ : State Ref) := List.nodup_nil

theorem State.Nodup.meet {state : State Ref} (hnodup : state.Nodup) {ref : Ref}
    (hnew : ref ∉ state.seen.map Prod.fst) (path : Path) : (state.meet ref path).Nodup := by
  rw [State.Nodup, State.meet, List.map_append]
  exact List.Nodup.append hnodup (List.nodup_singleton _) (by simpa using hnew)

mutual

/-- No table is met twice. -/
theorem Dumps.nodup {graph : Graph} {value : Val (Fin graph.size)} {path : Path}
    {state later : State (Fin graph.size)} {expr : Expr} (hnodup : state.Nodup) :
    Dumps graph value path state expr later → later.Nodup
  | .literal _ _ _ => hnodup
  | .again _ => hnodup
  | .table hnew _ hfields => hfields.nodup (hnodup.meet hnew _)

theorem DumpsFields.nodup {graph : Graph} {ref : Fin graph.size} {path : Path} {keys : List Key}
    {state later : State (Fin graph.size)} {fields : Fields} (hnodup : state.Nodup) :
    DumpsFields graph ref path keys state fields later → later.Nodup
  | .nil _ _ _ => hnodup
  | .skip _ _ hfields => hfields.nodup hnodup
  | .cons hvalue hfields => hfields.nodup (hvalue.nodup hnodup)

end

theorem State.Nodup.length_le {size : ℕ} {state : State (Fin size)} (hnodup : state.Nodup) :
    state.seen.length ≤ size := by
  simpa using List.Nodup.length_le_card hnodup

theorem dumpFields_dumps {graph : Graph} {ref : Fin graph.size} {path : Path} {bound : ℕ}
    {dumpValue : Val (Fin graph.size) → Key → State (Fin graph.size) →
      Option (Expr × State (Fin graph.size))}
    (hvalue : ∀ value key state, state.Nodup → bound ≤ state.seen.length → ∃ expr later,
      dumpValue value key state = some (expr, later) ∧
        Dumps graph value (path ++ [key]) state expr later)
    (keys : List Key) {state : State (Fin graph.size)} (hnodup : state.Nodup)
    (hbound : bound ≤ state.seen.length) : ∃ fields later,
      dumpFields dumpValue (graph.tables ref) keys state = some (fields, later) ∧
        DumpsFields graph ref path keys state fields later := by
  induction keys generalizing state with
  | nil => exact ⟨.nil, state, rfl, .nil ref path state⟩
  | cons key keys ih =>
      rw [dumpFields]
      split
      next hskip =>
        rw [Bool.and_eq_true, Val.isNil_iff] at hskip
        obtain ⟨fields, later, hrun, hdumps⟩ := ih hnodup hbound
        exact ⟨fields, later, hrun, .skip hskip.1 hskip.2 hdumps⟩
      next =>
        obtain ⟨value, middle, hfirst, hdumps⟩ :=
          hvalue ((graph.tables ref).get key) key state hnodup hbound
        have hmiddle : bound ≤ middle.seen.length := hbound.trans hdumps.extends.seen.length_le
        obtain ⟨fields, later, hrest, hothers⟩ := ih (hdumps.nodup hnodup) hmiddle
        exact ⟨_, later, by simp [hfirst, hrest], .cons hdumps hothers⟩

/-- Each level meets another table, so the fuel of one unit for every table left suffices. -/
theorem dumpValue_dumps {graph : Graph} (fuel : ℕ) (value : Val (Fin graph.size)) (path : Path)
    {state : State (Fin graph.size)} (hnodup : state.Nodup)
    (hfuel : graph.size < fuel + state.seen.length) : ∃ expr later,
      dumpValue graph fuel value path state = some (expr, later) ∧
        Dumps graph value path state expr later := by
  induction fuel generalizing value path state with
  | zero =>
      have hle := hnodup.length_le
      omega
  | succ fuel ih =>
      cases value with
      | literal literal => exact ⟨.literal literal, state, rfl, .literal literal path state⟩
      | table ref =>
          rw [dumpValue]
          split
          next target hlookup =>
            have hseen : (ref, target) ∈ state.seen := by
              obtain ⟨before, after, heq, -⟩ := List.lookup_eq_some_iff.mp hlookup
              simp [heq]
            exact ⟨.literal .nil, _, rfl, .again hseen⟩
          next hlookup =>
            have hnew : ref ∉ state.seen.map Prod.fst := by
              intro hmem
              obtain ⟨entry, hentry, heq⟩ := List.mem_map.mp hmem
              have hne := List.lookup_eq_none_iff.mp hlookup entry hentry
              simp [heq] at hne
            dsimp only
            split
            next hempty =>
              exact ⟨.table .nil, _, rfl,
                .table hnew (TableObject.lists_nil hempty) (.nil ref path _)⟩
            next =>
              have hmeet : state.seen.length + 1 ≤ (state.meet ref path).seen.length := by
                simp [State.meet]
              obtain ⟨fields, later, hrun, hdumps⟩ := dumpFields_dumps
                (fun value key state hnodup hbound => ih value (path ++ [key]) hnodup (by omega))
                (graph.tables ref).keys (hnodup.meet hnew path) hmeet
              rw [State.meet] at hrun
              exact ⟨.table fields, later, by simp [hrun],
                .table hnew (graph.tables ref).lists_keys hdumps⟩

theorem exists_dumps (graph : Graph) (value : Val (Fin graph.size)) : ∃ expr later,
    dumpChunk graph value = some ⟨expr, later.assignments⟩ ∧
      Dumps graph value [] ⟨[], []⟩ expr later := by
  obtain ⟨expr, later, hrun, hdumps⟩ :=
    dumpValue_dumps (graph.size + 1) value [] State.nodup_start (Nat.lt_succ_self _)
  exact ⟨expr, later, by simp [dumpChunk, hrun], hdumps⟩

mutual

/-- A table is nested in tables that are met before it. -/
theorem Dumps.depth_le {graph : Graph} {value : Val (Fin graph.size)} {path : Path}
    {state later : State (Fin graph.size)} {expr : Expr} :
    Dumps graph value path state expr later → state.seen.length + expr.depth ≤ later.seen.length
  | .literal _ _ _ => Nat.le_refl _
  | .again _ => Nat.le_refl _
  | .table _ _ hfields => by
      have hdepth := hfields.depth_le
      rw [State.meet, List.length_append, List.length_singleton] at hdepth
      rw [Expr.depth]
      omega

theorem DumpsFields.depth_le {graph : Graph} {ref : Fin graph.size} {path : Path}
    {keys : List Key} {state later : State (Fin graph.size)} {fields : Fields} :
    DumpsFields graph ref path keys state fields later →
      state.seen.length + fields.depth ≤ later.seen.length
  | .nil _ _ _ => Nat.le_refl _
  | .skip _ _ hfields => hfields.depth_le
  | .cons hvalue hfields => by
      have hfirst := hvalue.depth_le
      have hrest := hfields.depth_le
      rw [Fields.depth]
      omega

end

theorem nesting_le_size (graph : Graph) (value : Val (Fin graph.size)) :
    nesting graph value ≤ graph.size := by
  obtain ⟨expr, later, hchunk, hdumps⟩ := exists_dumps graph value
  have hdepth := hdumps.depth_le
  have hnodup := hdumps.nodup State.nodup_start
  rw [List.length_nil, Nat.zero_add] at hdepth
  rw [nesting, hchunk, Option.elim_some]
  exact hdepth.trans hnodup.length_le

end Libmoon.Serpent
