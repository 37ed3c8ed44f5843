import Libmoon.Foundation.LuaText

/-! # Rules of Hyperscan

`hs.parse` reads rules line by line. A line is split at its first colon and at its last slash,
which is found from the other end of the line.
-/

namespace Libmoon.Hyperscan

open Foundation LuaText

/-- The letters of flags and the other characters. -/
def flagValue : Char → Option (BitVec 32)
  | 'i' => some 1#32
  | 'm' => some 4#32
  | 's' => some 2#32
  | 'H' => some 8#32
  | 'V' => some 16#32
  | '8' => some 32#32
  | 'W' => some 64#32
  | 'p' => some 128#32
  | _ => none

/-- `parseflags`; characters that are no flags are ignored with a message. -/
def parseflags (flagString : List Char) : BitVec 32 :=
  flagString.foldl (fun flag c =>
    match flagValue c with
    | some value => flag ||| value
    | none => flag) 0#32

/-- `patterns`, `flags` and `ids`. -/
structure Parsed where
  patterns : List (List Char)
  flags : List (BitVec 32)
  ids : List (WithTop ℚ)
deriving DecidableEq

/-- `[^\r\n]` -/
def separates (char : Char) : Bool := char = '\r' || char = '\n'

section Parse

variable (numeral : List Char → Option (WithTop ℚ))

/-- The loop for a line that is no comment. It fails where there is no colon or no slash. -/
def parseRule (line : List Char) (parsed : Parsed) : Option Parsed := do
  let firstDoublecolon ← find ':' line
  let id := tonumber numeral (sub line 1 (firstDoublecolon - 1))
  let otherpart := sub line (firstDoublecolon + 1) (-1)
  let lastSlashReversed ← find '/' otherpart.reverse
  let pattern := sub otherpart 2 (-lastSlashReversed - 1)
  let flag := sub otherpart (otherpart.length - (lastSlashReversed - 2)) (-1)
  some { patterns := parsed.patterns ++ [pattern]
         flags := parsed.flags ++ [parseflags flag]
         -- inserting `nil` changes nothing
         ids := parsed.ids ++ id.toList }

/-- The loop over the lines. -/
def parseLines : List (List Char) → Parsed → Option Parsed
  | [], parsed => some parsed
  | line :: lines, parsed => do
      let parsed ← if sub line 1 1 ≠ ['#'] then parseRule numeral line parsed else some parsed
      parseLines lines parsed

/-- `hs.parse` -/
def parse (input : List Char) : Option Parsed :=
  parseLines numeral (runs separates input) ⟨[], [], []⟩

end Parse

/-! ## Printed rules -/

/-- The flags of a rule. -/
inductive Flag where
  | i | m | s | H | V | utf8 | W | p
deriving DecidableEq

def Flag.char : Flag → Char
  | .i => 'i'
  | .m => 'm'
  | .s => 's'
  | .H => 'H'
  | .V => 'V'
  | .utf8 => '8'
  | .W => 'W'
  | .p => 'p'

/-- `HS_FLAG_CASELESS`, `HS_FLAG_MULTILINE`, `HS_FLAG_DOTALL`, `HS_FLAG_SINGLEMATCH`,
`HS_FLAG_ALLOWEMPTY`, `HS_FLAG_UTF8`, `HS_FLAG_UCP` and `HS_FLAG_PREFILTER`. -/
def Flag.value : Flag → BitVec 32
  | .i => 1#32
  | .m => 4#32
  | .s => 2#32
  | .H => 8#32
  | .V => 16#32
  | .utf8 => 32#32
  | .W => 64#32
  | .p => 128#32

/-- A rule with a pattern on one line. -/
structure Rule where
  id : ℕ
  pattern : List Char
  flags : List Flag
  pattern_line : ∀ char ∈ pattern, separates char = false

/-- `<id>:/<pattern>/<flags>` -/
def Rule.print (rule : Rule) : List Char :=
  Nat.toDigits 10 rule.id ++ ':' :: '/' :: (rule.pattern ++ '/' :: rule.flags.map Flag.char)

/-- The flags of a rule, combined. -/
def Rule.flagValue (rule : Rule) : BitVec 32 := (rule.flags.map Flag.value).foldl (· ||| ·) 0#32

/-- A line of a list of rules. -/
inductive Line where
  | rule (rule : Rule)
  | comment (text : List Char) (htext : ∀ char ∈ text, separates char = false)

def Line.print : Line → List Char
  | .rule printed => printed.print
  | .comment text _ => '#' :: text

def Line.rule? : Line → Option Rule
  | .rule printed => some printed
  | .comment _ _ => none

/-- Lines with some line breaks between any two of them, and perhaps after the last. -/
inductive Joined : List Line → List Char → Prop
  | nil {breaks : List Char} (hbreaks : ∀ char ∈ breaks, separates char) : Joined [] breaks
  | last (line : Line) : Joined [line] line.print
  | more (line : Line) {breaks : List Char} (hbreaks : ∀ char ∈ breaks, separates char)
      (hne : breaks ≠ []) {lines : List Line} {text : List Char} (hrest : Joined lines text) :
      Joined (line :: lines) (line.print ++ (breaks ++ text))

/-! ## One rule -/

variable {numeral : List Char → Option (WithTop ℚ)} {parsed : Parsed}

theorem flagValue_char (flag : Flag) : flagValue flag.char = some flag.value := by
  cases flag <;> rfl

theorem parseflags_flags (rule : Rule) :
    parseflags (rule.flags.map Flag.char) = rule.flagValue := by
  rw [parseflags, Rule.flagValue, List.foldl_map, List.foldl_map]
  congr 1
  funext value flag
  rw [flagValue_char]

theorem isDigit_of_mem {number : ℕ} {char : Char} (hchar : char ∈ Nat.toDigits 10 number) :
    char.isDigit :=
  Nat.isDigit_of_mem_toDigits (by decide) (by decide) hchar

theorem slash_notMem_flags (flags : List Flag) : '/' ∉ flags.map Flag.char := by
  rw [List.mem_map]
  rintro ⟨flag, -, hflag⟩
  cases flag <;> exact absurd hflag (by decide)

/-- The part after the colon. -/
def Rule.otherpart (rule : Rule) : List Char :=
  '/' :: (rule.pattern ++ '/' :: rule.flags.map Flag.char)

theorem length_otherpart (rule : Rule) :
    rule.otherpart.length = rule.pattern.length + rule.flags.length + 2 := by
  simp [Rule.otherpart]
  omega

theorem find_colon (rule : Rule) :
    find ':' rule.print = some ((Nat.toDigits 10 rule.id).length + 1) := by
  refine find_append ?_ rule.otherpart
  intro hcolon
  exact absurd (isDigit_of_mem hcolon) (by decide)

theorem sub_id (rule : Rule) :
    sub rule.print 1 (((Nat.toDigits 10 rule.id).length + 1 : ℕ) - 1) =
      Nat.toDigits 10 rule.id := by
  refine sub_eq [] _ (':' :: rule.otherpart) rfl ?_ ?_
  · rw [position_of_nonneg _ (by omega), List.length_nil]
    rfl
  · rw [position_of_nonneg _ (by omega), List.length_nil]
    omega

theorem length_print (rule : Rule) :
    rule.print.length = (Nat.toDigits 10 rule.id).length + 1 + rule.otherpart.length := by
  rw [Rule.print, ← Rule.otherpart, List.length_append, List.length_cons]
  omega

theorem sub_otherpart (rule : Rule) :
    sub rule.print (((Nat.toDigits 10 rule.id).length + 1 : ℕ) + 1) (-1) = rule.otherpart := by
  refine sub_eq (Nat.toDigits 10 rule.id ++ [':']) _ [] ?_ ?_ ?_
  · rw [List.append_nil, List.append_assoc]
    rfl
  · rw [position_of_nonneg _ (by omega), List.length_append, List.length_singleton]
  · rw [position_of_neg _ (by omega), length_print, List.length_append, List.length_singleton]
    omega

/-- From the other end the first slash is the one in front of the flags. -/
theorem find_slash (rule : Rule) :
    find '/' rule.otherpart.reverse = some (rule.flags.length + 1) := by
  have hreverse : rule.otherpart.reverse =
      (rule.flags.map Flag.char).reverse ++ '/' :: (rule.pattern.reverse ++ ['/']) := by
    simp [Rule.otherpart]
  have hslash : '/' ∉ (rule.flags.map Flag.char).reverse := fun hmem =>
    slash_notMem_flags rule.flags (List.mem_reverse.mp hmem)
  rw [hreverse, find_append hslash, List.length_reverse, List.length_map]

theorem sub_pattern (rule : Rule) :
    sub rule.otherpart 2 (-((rule.flags.length + 1 : ℕ) : ℤ) - 1) = rule.pattern := by
  refine sub_eq ['/'] _ ('/' :: rule.flags.map Flag.char) rfl ?_ ?_
  · rfl
  · rw [position_of_neg _ (by omega), length_otherpart, List.length_singleton]
    omega

theorem sub_flags (rule : Rule) :
    sub rule.otherpart (rule.otherpart.length - (((rule.flags.length + 1 : ℕ) : ℤ) - 2)) (-1) =
      rule.flags.map Flag.char := by
  refine sub_eq ('/' :: (rule.pattern ++ ['/'])) _ [] ?_ ?_ ?_
  · rw [Rule.otherpart, List.append_nil, List.cons_append, List.append_assoc]
    rfl
  · rw [length_otherpart, position_of_nonneg _ (by omega), List.length_cons, List.length_append,
      List.length_singleton]
    omega
  · rw [length_otherpart, position_of_neg _ (by omega), List.length_cons, List.length_append,
      List.length_singleton, List.length_map]
    omega

/-- A printed rule is parsed. -/
theorem parseRule_print (rule : Rule) :
    parseRule numeral rule.print parsed =
      some ⟨parsed.patterns ++ [rule.pattern], parsed.flags ++ [rule.flagValue],
        parsed.ids ++ [nearestDouble rule.id]⟩ := by
  rw [parseRule, find_colon, Option.bind_eq_bind, Option.bind_some]
  dsimp only
  rw [sub_id, sub_otherpart, find_slash, Option.bind_some, sub_pattern, sub_flags,
    parseflags_flags, tonumber_toDigits]
  rfl

/-! ## All lines -/

theorem separates_digit {char : Char} (hdigit : char.isDigit) : separates char = false := by
  by_contra hseparates
  rw [Bool.not_eq_false, separates, Bool.or_eq_true, decide_eq_true_eq, decide_eq_true_eq]
    at hseparates
  rcases hseparates with rfl | rfl
  · exact absurd hdigit (by decide)
  · exact absurd hdigit (by decide)

theorem separates_flag (flag : Flag) : separates flag.char = false := by
  cases flag <;> rfl

theorem separates_print (line : Line) : ∀ char ∈ line.print, separates char = false := by
  cases line with
  | comment text htext => exact List.forall_mem_cons.mpr ⟨rfl, htext⟩
  | rule rule =>
      intro char hchar
      -- the id, a colon and a slash, the pattern, a slash, the flags
      rcases List.mem_append.mp hchar with hdigit | hrest
      · exact separates_digit (isDigit_of_mem hdigit)
      · rcases List.mem_cons.mp hrest with rfl | hrest
        · rfl
        rcases List.mem_cons.mp hrest with rfl | hrest
        · rfl
        rcases List.mem_append.mp hrest with hpattern | hrest
        · exact rule.pattern_line char hpattern
        rcases List.mem_cons.mp hrest with rfl | hflag
        · rfl
        obtain ⟨flag, -, rfl⟩ := List.mem_map.mp hflag
        exact separates_flag flag

theorem print_ne_nil (line : Line) : line.print ≠ [] := by
  cases line with
  | comment text htext => exact List.cons_ne_nil _ _
  | rule rule => exact List.append_ne_nil_of_left_ne_nil Nat.toDigits_ne_nil _

/-- The lines that `gmatch` finds are those that were printed. -/
theorem Joined.runs_eq {lines : List Line} {text : List Char} (hjoined : Joined lines text) :
    runs separates text = lines.map Line.print := by
  induction hjoined with
  | nil hbreaks =>
      have hruns := runs_breaks_append hbreaks []
      rwa [List.append_nil] at hruns
  | last line => exact runs_line (print_ne_nil line) (separates_print line)
  | more line hbreaks hne _ ih =>
      rw [runs_line_append (print_ne_nil line) (separates_print line) hbreaks hne, ih]
      rfl

theorem sub_first (first : Char) (rest : List Char) : sub (first :: rest) 1 1 = [first] :=
  sub_eq [] [first] rest rfl rfl rfl

theorem sub_first_rule (rule : Rule) : sub rule.print 1 1 ≠ ['#'] := by
  cases hdigits : Nat.toDigits 10 rule.id with
  | nil => exact absurd hdigits Nat.toDigits_ne_nil
  | cons first rest =>
      have hfirst : first.isDigit := isDigit_of_mem (hdigits ▸ List.mem_cons_self)
      rw [Rule.print, hdigits, List.cons_append, sub_first]
      rintro hhash
      rw [List.singleton_inj.mp hhash] at hfirst
      exact absurd hfirst (by decide)

/-- The rules among some lines. -/
def rulesOf (lines : List Line) : List Rule := lines.filterMap Line.rule?

/-- What is read of some rules is added to what was read before. -/
theorem parseLines_print (lines : List Line) :
    parseLines numeral (lines.map Line.print) parsed =
      some ⟨parsed.patterns ++ (rulesOf lines).map Rule.pattern,
        parsed.flags ++ (rulesOf lines).map Rule.flagValue,
        parsed.ids ++ (rulesOf lines).map fun rule => nearestDouble rule.id⟩ := by
  induction lines generalizing parsed with
  | nil => simp [parseLines, rulesOf]
  | cons line lines ih =>
      rw [List.map_cons, parseLines]
      cases line with
      | comment text htext =>
          rw [Line.print, sub_first, if_neg (not_not_intro rfl), Option.bind_eq_bind,
            Option.bind_some]
          exact ih
      | rule rule =>
          rw [Line.print, if_pos (sub_first_rule rule), parseRule_print, Option.bind_eq_bind,
            Option.bind_some]
          refine ih.trans ?_
          simp [rulesOf, Line.rule?]

theorem parse_joined {lines : List Line} {lead text : List Char}
    (hlead : ∀ char ∈ lead, separates char) (hjoined : Joined lines text) :
    parse numeral (lead ++ text) = some ⟨(rulesOf lines).map Rule.pattern,
      (rulesOf lines).map Rule.flagValue,
      (rulesOf lines).map fun rule => nearestDouble rule.id⟩ := by
  rw [parse, runs_breaks_append hlead, hjoined.runs_eq, parseLines_print]
  rfl

/-- Of printed rules the patterns, the flags and the ids are read in order. Ids are read as
doubles, which are the ids themselves exactly if doubles hold them. -/
theorem parse_printed (numeral : List Char → Option (WithTop ℚ)) {lines : List Line}
    {lead text : List Char} (hlead : ∀ char ∈ lead, separates char)
    (hjoined : Joined lines text) :
    ∃ parsed, parse numeral (lead ++ text) = some parsed ∧
      parsed.patterns = (rulesOf lines).map Rule.pattern ∧
      parsed.flags = (rulesOf lines).map Rule.flagValue ∧
      parsed.ids = (rulesOf lines).map (fun rule => nearestDouble rule.id) ∧
      (parsed.ids = (rulesOf lines).map (fun rule => ((rule.id : ℚ) : WithTop ℚ)) ↔
        ∀ rule ∈ rulesOf lines, Representable rule.id) := by
  refine ⟨_, parse_joined hlead hjoined, rfl, rfl, rfl, ?_⟩
  -- id by id, a number is its nearest double or it is not
  rw [List.map_inj_left]
  exact forall₂_congr fun rule _ => nearestDouble_eq_self_iff

/-- `7:/a/b:#//iH`, where the pattern is `a/b:#/`. -/
def slashes : Rule := ⟨7, ['a', '/', 'b', ':', '#', '/'], [.i, .H], by simp [separates]⟩

/-- `#x` -/
def remark : Line := .comment ['x'] (by simp [separates])

/-- A rule without flags whose id is `2 ^ 53 + 1`. -/
def large : Rule := ⟨9007199254740993, ['a'], [], by simp [separates]⟩

theorem parse_printed_slashes :
    ∃ parsed, parse (fun _ => none) (['\n'] ++
        (remark.print ++ (['\r', '\n'] ++ (Line.rule slashes).print))) = some parsed ∧
      parsed.patterns = (rulesOf [remark, .rule slashes]).map Rule.pattern ∧
      parsed.flags = (rulesOf [remark, .rule slashes]).map Rule.flagValue ∧
      parsed.ids = (rulesOf [remark, .rule slashes]).map
        (fun rule => nearestDouble rule.id) ∧
      (parsed.ids = (rulesOf [remark, .rule slashes]).map
          (fun rule => ((rule.id : ℚ) : WithTop ℚ)) ↔
        ∀ rule ∈ rulesOf [remark, .rule slashes], Representable rule.id) :=
  parse_printed _ (by simp [separates])
    (.more _ (by simp [separates]) (List.cons_ne_nil _ _) (.last _))

/-- An id that no double holds is read as another one. -/
theorem parse_large :
    Joined [.rule large] large.print ∧
    parse (fun _ => none) large.print =
      some ⟨[['a']], [0#32], [((9007199254740992 : ℚ) : WithTop ℚ)]⟩ ∧
    ¬ ∃ parsed, parse (fun _ => none) large.print = some parsed ∧
      parsed.ids = [((large.id : ℚ) : WithTop ℚ)] := by
  have hjoined : Joined [.rule large] large.print := .last _
  have hparse := @parse_joined (fun _ => none) _ [] _ (List.forall_mem_nil _) hjoined
  have hnearest : nearestDouble large.id = ((9007199254740992 : ℚ) : WithTop ℚ) := by
    decide +kernel
  refine ⟨hjoined, ?_, ?_⟩
  · refine hparse.trans ?_
    rw [← hnearest]
    rfl
  · rintro ⟨parsed, hparsed, hids⟩
    rw [List.nil_append, hparsed] at hparse
    cases hparse
    have hid : nearestDouble large.id = ((large.id : ℚ) : WithTop ℚ) :=
      List.singleton_inj.mp hids
    rw [hnearest] at hid
    exact absurd hid (by decide +kernel)

end Libmoon.Hyperscan
