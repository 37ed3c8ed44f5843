import Libmoon.Serpent.Making
import Mathlib.Data.Set.Function
import Mathlib.Order.Interval.Set.Defs

/-! # Loading what was dumped

A dump loads to tables that refer to each other in the same way, however they do: shared
tables are shared again, and cycles are closed again. An assignment stores what is missing
and nothing else, so that the paths of the others still lead to their tables.
-/

namespace Libmoon.Serpent

open InterTask

/-! ## Assignments -/

/-- The value is a field of a table that was met, and the path leads there. -/
def FieldAt (graph : Graph) (seen : List (Fin graph.size × Path)) (value : Val (Fin graph.size))
    (path : Path) : Prop :=
  ∃ owner above key, (owner, above) ∈ seen ∧ path = above ++ [key] ∧
    (graph.tables owner).get key = value

/-- The assignment stores the table of the field. -/
def Owned (graph : Graph) (seen : List (Fin graph.size × Path)) (assignment : Path × Path) : Prop :=
  ∃ ref, FieldAt graph seen (.table ref) assignment.1 ∧ (ref, assignment.2) ∈ seen

variable {graph : Graph}

theorem FieldAt.mono {seen later : List (Fin graph.size × Path)} (hlater : seen <+: later)
    {value : Val (Fin graph.size)} {path : Path} (hfield : FieldAt graph seen value path) :
    FieldAt graph later value path := by
  obtain ⟨owner, above, key, howner, hpath, hget⟩ := hfield
  exact ⟨owner, above, key, hlater.subset howner, hpath, hget⟩

mutual

theorem Dumps.owned {value : Val (Fin graph.size)} {path : Path}
    {state later : State (Fin graph.size)} {expr : Expr}
    (hfield : FieldAt graph state.seen value path)
    (howned : ∀ assignment ∈ state.assignments, Owned graph state.seen assignment) :
    Dumps graph value path state expr later →
      ∀ assignment ∈ later.assignments, Owned graph later.seen assignment
  | .literal _ _ _ => howned
  | .again hseen => by
      intro assignment hmem
      rcases List.mem_append.mp hmem with hbefore | hnew
      · exact howned assignment hbefore
      · rw [List.mem_singleton.mp hnew]
        exact ⟨_, hfield, hseen⟩
  | .table _ _ hfields => by
      refine hfields.owned (by simp [State.meet]) fun assignment hmem => ?_
      obtain ⟨ref, htarget, hseen⟩ := howned assignment hmem
      exact ⟨ref, htarget.mono (List.prefix_append _ _), List.mem_append_left _ hseen⟩

theorem DumpsFields.owned {ref : Fin graph.size} {path : Path} {keys : List Key}
    {state later : State (Fin graph.size)} {fields : Fields} (hseen : (ref, path) ∈ state.seen)
    (howned : ∀ assignment ∈ state.assignments, Owned graph state.seen assignment) :
    DumpsFields graph ref path keys state fields later →
      ∀ assignment ∈ later.assignments, Owned graph later.seen assignment
  | .nil _ _ _ => howned
  | .skip _ _ hfields => hfields.owned hseen howned
  | .cons hvalue hfields =>
      hfields.owned (hvalue.extends.seen.subset hseen)
        (hvalue.owned ⟨ref, path, _, hseen, rfl, rfl⟩ howned)

end

/-! ## Running the assignments -/

/-- The cells hold what they should or nothing, and the paths lead to the tables. -/
structure Resolving (graph : Graph) (seen : List (Fin graph.size × Path)) (root : Val ℕ)
    (heap : Heap) : Prop where
  cells : ∀ {place ref path}, seen[place]? = some (ref, path) → ∀ key,
    heap.cells place key = .nil ∨ CopyOf seen ((graph.tables ref).get key) (heap.cells place key)
  walk : ∀ {place ref path}, seen[place]? = some (ref, path) →
    heap.walk root path = some (.table place)

theorem place_unique {Ref : Type} {seen : List (Ref × Path)} (hnodup : (seen.map Prod.fst).Nodup)
    {first second : ℕ} {ref : Ref} {path other : Path} (hfirst : seen[first]? = some (ref, path))
    (hsecond : seen[second]? = some (ref, other)) : first = second := by
  have hlt : first < (seen.map Prod.fst).length := by simpa using lt_of_getElem? hfirst
  refine (List.getElem?_inj hlt hnodup).mp ?_
  rw [List.getElem?_map, List.getElem?_map, hfirst, hsecond]
  rfl

/-- The copy of a table is unique. -/
theorem CopyOf.unique {Ref : Type} {seen : List (Ref × Path)} (hnodup : (seen.map Prod.fst).Nodup)
    {value : Val Ref} {first second : Val ℕ} (hfirst : CopyOf seen value first)
    (hsecond : CopyOf seen value second) : first = second := by
  cases hfirst with
  | literal => cases hsecond with | literal => rfl
  | table hseen => cases hsecond with | table hother => rw [place_unique hnodup hseen hother]

theorem CopyOf.eq_table {Ref : Type} {seen : List (Ref × Path)} {value : Val Ref} {place : ℕ}
    {ref : Ref} {path : Path} (hseen : seen[place]? = some (ref, path)) :
    CopyOf seen value (.table place) → value = .table ref
  | .table hother => by
      obtain ⟨rfl, -⟩ : _ = ref ∧ _ = path := by simpa [hother] using hseen
      rfl

/-- An assignment stores the copy of a table where it is missing. -/
theorem Resolving.assign {seen : List (Fin graph.size × Path)}
    (hnodup : (seen.map Prod.fst).Nodup) {root : Val ℕ} {heap : Heap}
    (hresolving : Resolving graph seen root heap) {assignment : Path × Path}
    (howned : Owned graph seen assignment) : ∃ later,
      assign (root, heap) assignment = some (root, later) ∧ Resolving graph seen root later ∧
        later.size = heap.size ∧ heap.Keeps later ∧
        ∀ {place ref path key}, seen[place]? = some (ref, path) → assignment.1 = path ++ [key] →
          later.cells place key ≠ .nil := by
  obtain ⟨target, source⟩ := assignment
  obtain ⟨ref, ⟨owner, above, key, howner, rfl, hget⟩, hsource⟩ := howned
  obtain ⟨place, hplace⟩ := List.mem_iff_getElem?.mp howner
  obtain ⟨number, hnumber⟩ := List.mem_iff_getElem?.mp hsource
  have hcopy : CopyOf seen ((graph.tables owner).get key) (.table number) := by
    rw [hget]
    exact .table hnumber
  have hkeeps : heap.Keeps (heap.set place key (.table number)) := by
    intro other name hne
    by_cases hhere : other = place ∧ name = key
    · obtain ⟨rfl, rfl⟩ := hhere
      rw [Heap.cells_set_self]
      exact hcopy.unique hnodup ((hresolving.cells hplace _).resolve_left hne)
    · rw [Heap.cells_set_of_ne _ hhere]
  refine ⟨_, assign_append (hresolving.walk hplace) (hresolving.walk hnumber), ⟨?_, ?_⟩, rfl,
    hkeeps, ?_⟩
  · intro other name path hother label
    by_cases hhere : other = place ∧ label = key
    · obtain ⟨rfl, rfl⟩ := hhere
      obtain ⟨rfl, -⟩ : owner = name ∧ above = path := by simpa [hplace] using hother
      rw [Heap.cells_set_self]
      exact .inr hcopy
    · rw [Heap.cells_set_of_ne _ hhere]
      exact hresolving.cells hother label
  · intro other name path hother
    exact hkeeps.walk path (hresolving.walk hother)
  · intro other name path label hother hpath
    obtain ⟨rfl, rfl⟩ : above = path ∧ key = label := by simpa using hpath
    have hsame : other = place := by
      simpa [hresolving.walk hplace] using (hresolving.walk hother).symm
    rw [hsame, Heap.cells_set_self]
    simp [Val.nil]

theorem Resolving.run {seen : List (Fin graph.size × Path)} (hnodup : (seen.map Prod.fst).Nodup)
    {root : Val ℕ} {heap : Heap} (hresolving : Resolving graph seen root heap)
    {assignments : List (Path × Path)}
    (howned : ∀ assignment ∈ assignments, Owned graph seen assignment) : ∃ later,
      assignments.foldlM Serpent.assign (root, heap) = some (root, later) ∧
        Resolving graph seen root later ∧ later.size = heap.size ∧ heap.Keeps later ∧
        ∀ {place ref path key}, seen[place]? = some (ref, path) →
          path ++ [key] ∈ assignments.map Prod.fst → later.cells place key ≠ .nil := by
  induction assignments generalizing heap with
  | nil => exact ⟨heap, rfl, hresolving, rfl, .refl heap, by simp⟩
  | cons assignment assignments ih =>
      rw [List.forall_mem_cons] at howned
      obtain ⟨middle, hassign, hmiddle, hsize, hkeeps, hdone⟩ := hresolving.assign hnodup howned.1
      obtain ⟨later, hrun, hlater, hlength, hothers, hrest⟩ := ih hmiddle howned.2
      refine ⟨later, ?_, hlater, hlength.trans hsize, hkeeps.trans hothers, ?_⟩
      · rw [List.foldlM_cons, hassign]
        exact hrun
      · intro place ref path key hseen hmem
        rw [List.map_cons, List.mem_cons] at hmem
        rcases hmem with hfirst | hlast
        · have hne := hdone hseen hfirst.symm
          rwa [hothers place key hne]
        · exact hrest hseen hlast

/-! ## Copies -/

/-- The tables that the value leads to. -/
inductive Reaches (graph : Graph) (value : Val (Fin graph.size)) : Fin graph.size → Prop where
  | value {ref} (hvalue : value = .table ref) : Reaches graph value ref
  | field {owner ref} (key : Key) (howner : Reaches graph value owner)
      (hget : (graph.tables owner).get key = .table ref) : Reaches graph value ref

def Val.map {Ref Other : Type} (place : Ref → Other) : Val Ref → Val Other
  | .literal value => .literal value
  | .table ref => .table (place ref)

/-- The heap consists of one copy of each table that the value leads to, with the copies of
its fields in it. -/
structure Copies (graph : Graph) (value : Val (Fin graph.size)) (result : Val ℕ) (heap : Heap)
    (place : Fin graph.size → ℕ) : Prop where
  root : result = value.map place
  places : Set.BijOn place {ref | Reaches graph value ref} (Set.Iio heap.size)
  cells : ∀ {ref}, Reaches graph value ref → ∀ key,
    heap.cells (place ref) key = ((graph.tables ref).get key).map place

/-- Every cell holds the copy of its value. -/
def Complete (graph : Graph) (seen : List (Fin graph.size × Path)) (heap : Heap) : Prop :=
  ∀ place ref path, seen[place]? = some (ref, path) → ∀ key,
    CopyOf seen ((graph.tables ref).get key) (heap.cells place key)

section Loading

variable {value : Val (Fin graph.size)} {copy : Val ℕ} {heap final : Heap}
  {later : State (Fin graph.size)}

/-- A value that was evaluated is ready for the assignments. -/
theorem Made.resolving (hmade : Made graph value [] .empty later copy heap) :
    Resolving graph later.seen copy heap where
  cells := by
    intro place ref path hseen key
    rcases hmade.stored (Nat.zero_le place) hseen key with hcopy | ⟨hnil, -⟩
    · exact .inr hcopy
    · exact .inl hnil
  walk := by
    intro place
    induction place using Nat.strong_induction_on with
    | h place ih =>
        intro ref path hseen
        rcases Nat.eq_zero_or_pos place with rfl | hpos
        · obtain ⟨rfl, rfl⟩ := hmade.first hseen
          rfl
        · obtain ⟨parent, owner, above, key, -, hlt, hparent, rfl, hlink⟩ := hmade.linked hpos hseen
          rw [heap.walk_append, ih parent hlt hparent, Option.bind_some]
          simp [Heap.walk, hlink]

theorem Made.copied (hmade : Made graph value [] .empty later copy heap)
    (howned : ∀ assignment ∈ later.assignments, Owned graph later.seen assignment) :
    CopyOf later.seen value copy := by
  rcases hmade.result with hcopy | ⟨-, ref, target, -, -, hassigned⟩
  · exact hcopy
  · obtain ⟨-, ⟨-, above, key, -, hpath, -⟩, -⟩ := howned _ hassigned
    simp at hpath

/-- After the assignments no cell is missing. -/
theorem Made.complete (hmade : Made graph value [] .empty later copy heap)
    (hresolving : Resolving graph later.seen copy final) (hkeeps : heap.Keeps final)
    (hdone : ∀ {place : ℕ} {ref : Fin graph.size} {path : Path} {key : Key},
      later.seen[place]? = some (ref, path) →
      path ++ [key] ∈ later.assignments.map Prod.fst → final.cells place key ≠ .nil) :
    Complete graph later.seen final := by
  intro place ref path hseen key
  rcases hresolving.cells hseen key with hnil | hcopy
  · rcases hmade.stored (Nat.zero_le place) hseen key with hcopy | ⟨-, -, target, -, -, hassigned⟩
    · have hbefore : heap.cells place key = .nil := by
        by_contra hne
        exact hne ((hkeeps place key hne).symm.trans hnil)
      rwa [hnil, ← hbefore]
    · exact absurd hnil (hdone hseen (List.mem_map_of_mem hassigned))
  · exact hcopy

theorem Complete.exists_seen (hcomplete : Complete graph later.seen final)
    (hroot : CopyOf later.seen value copy) {ref : Fin graph.size}
    (hreaches : Reaches graph value ref) :
    ∃ (place : ℕ) (path : Path), later.seen[place]? = some (ref, path) := by
  induction hreaches with
  | value hvalue =>
      subst hvalue
      cases hroot with
      | table hseen => exact ⟨_, _, hseen⟩
  | field key _ hget ih =>
      obtain ⟨place, path, hseen⟩ := ih
      have hcopy := hcomplete place _ path hseen key
      rw [hget] at hcopy
      generalize final.cells place key = copy at hcopy
      cases hcopy with
      | table hother => exact ⟨_, _, hother⟩

/-- Only tables that the value leads to are met. -/
theorem Complete.reaches (hcomplete : Complete graph later.seen final)
    (hroot : CopyOf later.seen value copy) (hkeeps : heap.Keeps final)
    (hmade : Made graph value [] .empty later copy heap) {place : ℕ} {ref : Fin graph.size}
    {path : Path} (hseen : later.seen[place]? = some (ref, path)) : Reaches graph value ref := by
  induction place using Nat.strong_induction_on generalizing ref path with
  | h place ih =>
      rcases Nat.eq_zero_or_pos place with rfl | hpos
      · obtain ⟨-, rfl⟩ := hmade.first hseen
        exact .value (hroot.eq_table hseen)
      · obtain ⟨parent, owner, above, key, -, hlt, hparent, rfl, hlink⟩ := hmade.linked hpos hseen
        have hcopy := hcomplete parent owner above hparent key
        rw [hkeeps parent key (by simp [hlink, Val.nil]), hlink] at hcopy
        exact .field key (ih parent hlt hparent) (hcopy.eq_table hseen)

/-- The number of the copy. -/
def State.place (state : State (Fin graph.size)) (ref : Fin graph.size) : ℕ :=
  (state.seen.map Prod.fst).idxOf ref

theorem State.Nodup.place_eq (hnodup : later.Nodup) {place : ℕ} {ref : Fin graph.size}
    {path : Path} (hseen : later.seen[place]? = some (ref, path)) : later.place ref = place := by
  have hlt : place < (later.seen.map Prod.fst).length := by simpa using lt_of_getElem? hseen
  have helement : (later.seen.map Prod.fst)[place] = ref := by
    rw [List.getElem_map, (List.getElem?_eq_some_iff.mp hseen).2]
  rw [State.place, ← helement, List.Nodup.idxOf_getElem hnodup place hlt]

theorem CopyOf.eq_map (hnodup : later.Nodup) :
    CopyOf later.seen value copy → copy = value.map later.place
  | .literal _ => rfl
  | .table hseen => by rw [Val.map, hnodup.place_eq hseen]

theorem Complete.copies (hcomplete : Complete graph later.seen final)
    (hroot : CopyOf later.seen value copy) (hkeeps : heap.Keeps final)
    (hmade : Made graph value [] .empty later copy heap) (hnodup : later.Nodup)
    (hsize : final.size = later.seen.length) : Copies graph value copy final later.place where
  root := hroot.eq_map hnodup
  places := by
    refine ⟨?_, ?_, ?_⟩
    · intro ref hreaches
      obtain ⟨place, path, hseen⟩ := hcomplete.exists_seen hroot hreaches
      rw [Set.mem_Iio, hnodup.place_eq hseen, hsize]
      exact lt_of_getElem? hseen
    · intro first hfirst second hsecond heq
      obtain ⟨place, path, hseen⟩ := hcomplete.exists_seen hroot hfirst
      obtain ⟨other, target, hother⟩ := hcomplete.exists_seen hroot hsecond
      rw [hnodup.place_eq hseen, hnodup.place_eq hother] at heq
      subst other
      obtain ⟨rfl, -⟩ : first = second ∧ path = target := by simpa [hseen] using hother
      rfl
    · intro place hlt
      rw [Set.mem_Iio, hsize] at hlt
      have hseen := List.getElem?_eq_getElem hlt
      exact ⟨_, hcomplete.reaches hroot hkeeps hmade hseen, hnodup.place_eq hseen⟩
  cells := by
    intro ref hreaches key
    obtain ⟨place, path, hseen⟩ := hcomplete.exists_seen hroot hreaches
    rw [hnodup.place_eq hseen]
    exact (hcomplete place ref path hseen key).eq_map hnodup

end Loading

/-! ## The round trip -/

theorem Dumps.owned_of_start {value : Val (Fin graph.size)} {expr : Expr}
    {later : State (Fin graph.size)} (hdumps : Dumps graph value [] ⟨[], []⟩ expr later) :
    ∀ assignment ∈ later.assignments, Owned graph later.seen assignment := by
  cases hdumps with
  | literal literal => simp
  | again hseen => cases hseen
  | table hnew hkeys hfields => exact hfields.owned (by simp [State.meet]) (by simp [State.meet])

theorem Dumps.run {value : Val (Fin graph.size)} {expr : Expr} {later : State (Fin graph.size)}
    (hdumps : Dumps graph value [] ⟨[], []⟩ expr later) : ∃ result heap place,
      Chunk.run ⟨expr, later.assignments⟩ = some (result, heap) ∧
        Copies graph value result heap place := by
  have hmade : Made graph value [] .empty later (expr.eval .empty).1 (expr.eval .empty).2 :=
    hdumps.made rfl
  have hnodup := hdumps.nodup State.nodup_start
  have howned := hdumps.owned_of_start
  obtain ⟨final, hrun, hresolving, hsize, hkeeps, hdone⟩ := hmade.resolving.run hnodup howned
  have hcomplete := hmade.complete hresolving hkeeps hdone
  exact ⟨_, final, later.place, hrun,
    hcomplete.copies (hmade.copied howned) hkeeps hmade hnodup (hsize.trans hmade.size)⟩

theorem dump_eq_text {value : Val (Fin graph.size)} {expr : Expr} {later : State (Fin graph.size)}
    (hchunk : dumpChunk graph value = some ⟨expr, later.assignments⟩) :
    dump graph value = some (Chunk.text ⟨expr, later.assignments⟩) := by
  rw [dump_eq, hchunk, Option.map_some]

theorem exists_dump (graph : Graph) (value : Val (Fin graph.size)) :
    ∃ text, dump graph value = some text := by
  obtain ⟨expr, later, hchunk, -⟩ := exists_dumps graph value
  exact ⟨_, dump_eq_text hchunk⟩

theorem no_nul_of_dump {value : Val (Fin graph.size)} {text : LuaString}
    (hdump : dump graph value = some text) : 0 ∉ text := by
  obtain ⟨expr, later, hchunk, -⟩ := exists_dumps graph value
  rw [dump_eq_text hchunk] at hdump
  cases hdump
  exact Chunk.no_nul _

theorem load_of_dump {value : Val (Fin graph.size)} {text : LuaString} {levels : ℕ}
    (hlevels : nesting graph value ≤ levels) (hdump : dump graph value = some text) :
    ∃ result heap place,
      load levels text = some (result, heap) ∧ Copies graph value result heap place := by
  obtain ⟨expr, later, hchunk, hdumps⟩ := exists_dumps graph value
  obtain ⟨result, heap, place, hrun, hcopies⟩ := hdumps.run
  rw [dump_eq_text hchunk] at hdump
  cases hdump
  rw [nesting, hchunk, Option.elim_some] at hlevels
  have hparse := parseChunk_text ⟨expr, later.assignments⟩ hlevels
  exact ⟨result, heap, place, by rw [load, hparse, Option.bind_some, hrun], hcopies⟩

end Libmoon.Serpent
