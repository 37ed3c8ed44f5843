import Libmoon.Serpent.Load

/-! # Making the tables of a dump

While the value of a dump is evaluated, tables are made in the order in which the dump has
met them. Then each cell holds its value, or it is nil and an assignment is still to come.
-/

namespace Libmoon.Serpent

open InterTask

variable {Ref : Type}

/-! ## Cells and links -/

theorem lt_of_getElem? {α : Type} {list : List α} {place : ℕ} {element : α}
    (helement : list[place]? = some element) : place < list.length :=
  (List.getElem?_eq_some_iff.mp helement).1

theorem getElem?_of_lt_length {α : Type} {list later : List α} (hlater : list <+: later) {place : ℕ}
    (hlt : place < list.length) : later[place]? = list[place]? := by
  obtain ⟨rest, rfl⟩ := hlater
  exact List.getElem?_append_left hlt

theorem getElem?_mono {α : Type} {list later : List α} (hlater : list <+: later) {place : ℕ}
    {element : α} (helement : list[place]? = some element) : later[place]? = some element :=
  (getElem?_of_lt_length hlater (lt_of_getElem? helement)).trans helement

/-- The table with number n is the copy of the table that was met as the n-th. -/
inductive CopyOf (seen : List (Ref × Path)) : Val Ref → Val ℕ → Prop where
  | literal (literal : Literal) : CopyOf seen (.literal literal) (.literal literal)
  | table {ref place path} (hseen : seen[place]? = some (ref, path)) :
      CopyOf seen (.table ref) (.table place)

theorem CopyOf.mono {seen later : List (Ref × Path)} (hlater : seen <+: later) {value : Val Ref}
    {copy : Val ℕ} : CopyOf seen value copy → CopyOf later value copy
  | .literal _ => .literal _
  | .table hseen => .table (getElem?_mono hlater hseen)

/-- The copy is there, or it is nil and an assignment stores it at the path. -/
def Stored (state : State Ref) (value : Val Ref) (path : Path) (copy : Val ℕ) : Prop :=
  CopyOf state.seen value copy ∨ copy = .nil ∧ ∃ ref target, value = .table ref ∧
    (ref, target) ∈ state.seen ∧ (path, target) ∈ state.assignments

theorem Stored.mono {state later : State Ref} (hextends : state.Extends later) {value : Val Ref}
    {path : Path} {copy : Val ℕ} (hstored : Stored state value path copy) :
    Stored later value path copy := by
  rcases hstored with hcopy | ⟨rfl, ref, target, rfl, hseen, hassigned⟩
  · exact .inl (hcopy.mono hextends.seen)
  · exact .inr ⟨rfl, ref, target, rfl, hextends.seen.subset hseen,
      hextends.assignments.subset hassigned⟩

/-- The table is a field of an earlier one, and its path goes on from there. -/
def Linked (state : State Ref) (heap : Heap) (least place : ℕ) (path : Path) : Prop :=
  ∃ parent ref above key, least ≤ parent ∧ parent < place ∧
    state.seen[parent]? = some (ref, above) ∧ path = above ++ [key] ∧
    heap.cells parent key = .table place

/-! ## What an evaluation has made -/

variable {graph : Graph}

/-- The evaluation of an expression that was dumped at the path. -/
structure Made (graph : Graph) (value : Val (Fin graph.size)) (path : Path) (heap : Heap)
    (later : State (Fin graph.size)) (copy : Val ℕ) (made : Heap) : Prop where
  size : made.size = later.seen.length
  before : ∀ place < heap.size, made.cells place = heap.cells place
  result : Stored later value path copy
  stored : ∀ {place ref above}, heap.size ≤ place → later.seen[place]? = some (ref, above) →
    ∀ key, Stored later ((graph.tables ref).get key) (above ++ [key]) (made.cells place key)
  first : ∀ {ref above}, later.seen[heap.size]? = some (ref, above) →
    above = path ∧ copy = .table heap.size
  linked : ∀ {place ref above}, heap.size < place → later.seen[place]? = some (ref, above) →
    Linked later made heap.size place above

/-- The evaluation of the fields of a table with these keys. -/
structure MadeFields (graph : Graph) (ref : Fin graph.size) (path : Path) (keys : List Key)
    (place : ℕ) (heap : Heap) (later : State (Fin graph.size)) (made : Heap) : Prop where
  size : made.size = later.seen.length
  others : ∀ other < heap.size, other ≠ place → made.cells other = heap.cells other
  rest : ∀ key ∉ keys, made.cells place key = heap.cells place key
  fields : ∀ key ∈ keys,
    Stored later ((graph.tables ref).get key) (path ++ [key]) (made.cells place key)
  stored : ∀ {other ref above}, heap.size ≤ other → later.seen[other]? = some (ref, above) →
    ∀ key, Stored later ((graph.tables ref).get key) (above ++ [key]) (made.cells other key)
  linked : ∀ {other ref above}, heap.size ≤ other → later.seen[other]? = some (ref, above) →
    Linked later made place other above

theorem Made.literal {literal : Literal} {path : Path} {state : State (Fin graph.size)}
    {heap : Heap} (hsize : heap.size = state.seen.length) :
    Made graph (.literal literal) path heap state (.literal literal) heap where
  size := hsize
  before _ _ := rfl
  result := .inl (.literal literal)
  stored := by
    intro place ref above hle hseen
    have hlt := lt_of_getElem? hseen
    omega
  first := by
    intro ref above hseen
    have hlt := lt_of_getElem? hseen
    omega
  linked := by
    intro place ref above hlt hseen
    have hlength := lt_of_getElem? hseen
    omega

theorem Made.again {ref : Fin graph.size} {path target : Path} {state : State (Fin graph.size)}
    {heap : Heap} (hsize : heap.size = state.seen.length) (hseen : (ref, target) ∈ state.seen) :
    Made graph (.table ref) path heap (state.assign path target) (.literal .nil) heap :=
  have hliteral : Made graph (.literal .nil) path heap (state.assign path target)
      (.literal .nil) heap := Made.literal hsize
  { hliteral with
    result := .inr ⟨rfl, ref, target, rfl, hseen, by simp [State.assign]⟩ }

theorem Made.table {ref : Fin graph.size} {path : Path} {keys : List Key}
    {state later : State (Fin graph.size)} {heap made : Heap}
    (hsize : heap.size = state.seen.length) (hkeys : (graph.tables ref).Lists keys)
    (hextends : (state.meet ref path).Extends later)
    (hfields : MadeFields graph ref path keys heap.size heap.new later made) :
    Made graph (.table ref) path heap later (.table heap.size) made := by
  have hmet : later.seen[heap.size]? = some (ref, path) :=
    getElem?_mono hextends.seen (by simp [State.meet, hsize])
  exact
  { size := hfields.size
    before := by
      intro place hlt
      rw [hfields.others place (Nat.lt_succ_of_lt hlt) hlt.ne, heap.cells_new_of_ne hlt.ne]
    result := .inl (.table hmet)
    stored := by
      intro place other above hle hseen key
      rcases hle.eq_or_lt with rfl | hlt
      · obtain ⟨rfl, rfl⟩ : ref = other ∧ path = above := by simpa [hmet] using hseen
        by_cases hkey : key ∈ keys
        · exact hfields.fields key hkey
        · rw [hfields.rest key hkey, heap.cells_new_self, hkeys.nil_of_notMem key hkey]
          exact .inl (.literal .nil)
      · exact hfields.stored hlt hseen key
    first := by
      intro other above hseen
      obtain ⟨rfl, rfl⟩ : ref = other ∧ path = above := by simpa [hmet] using hseen
      exact ⟨rfl, rfl⟩
    linked := fun hlt hseen => hfields.linked hlt hseen }

theorem MadeFields.nil {ref : Fin graph.size} {path : Path} {state : State (Fin graph.size)}
    {place : ℕ} {heap : Heap} (hsize : heap.size = state.seen.length) :
    MadeFields graph ref path [] place heap state heap where
  size := hsize
  others _ _ _ := rfl
  rest _ _ := rfl
  fields := by simp
  stored := by
    intro other owner above hle hseen
    have hlt := lt_of_getElem? hseen
    omega
  linked := by
    intro other owner above hle hseen
    have hlt := lt_of_getElem? hseen
    omega

theorem MadeFields.skip {ref : Fin graph.size} {path : Path} {key : Key} {keys : List Key}
    {place : ℕ} {heap made : Heap} {later : State (Fin graph.size)} (hkey : key ∉ keys)
    (hnil : (graph.tables ref).get key = .nil) (hcell : heap.cells place key = .nil)
    (hfields : MadeFields graph ref path keys place heap later made) :
    MadeFields graph ref path (key :: keys) place heap later made :=
  { hfields with
    rest := by
      intro other hother
      exact hfields.rest other (List.not_mem_of_not_mem_cons hother)
    fields := by
      rw [List.forall_mem_cons]
      refine ⟨?_, hfields.fields⟩
      rw [hfields.rest key hkey, hcell, hnil]
      exact .inl (.literal .nil) }

theorem MadeFields.cons {ref : Fin graph.size} {path : Path} {key : Key} {keys : List Key}
    {place : ℕ} {heap middle made : Heap} {copy : Val ℕ} {between later : State (Fin graph.size)}
    (hplace : place < heap.size) (hsize : heap.size ≤ between.seen.length)
    (howner : later.seen[place]? = some (ref, path)) (hkey : key ∉ keys)
    (hextends : between.Extends later)
    (hvalue : Made graph ((graph.tables ref).get key) (path ++ [key]) heap between copy middle)
    (hfields : MadeFields graph ref path keys place (middle.set place key copy) later made) :
    MadeFields graph ref path (key :: keys) place heap later made := by
  have hmiddle : heap.size ≤ middle.size := hsize.trans hvalue.size.ge
  have hcell : made.cells place key = copy := by
    rw [hfields.rest key hkey, Heap.cells_set_self]
  have hothers : ∀ other < middle.size, other ≠ place → made.cells other = middle.cells other := by
    intro other hlt hne
    funext key
    rw [hfields.others other hlt hne, Heap.cells_set_of_ne _ fun heq => hne heq.1]
  have hbetween : ∀ {other : ℕ} {entry}, other < middle.size → later.seen[other]? = some entry →
      between.seen[other]? = some entry := by
    intro other entry hlt hseen
    rw [hvalue.size] at hlt
    rwa [← getElem?_of_lt_length hextends.seen hlt]
  exact
  { size := hfields.size
    others := by
      intro other hlt hne
      rw [hothers other (hlt.trans_le hmiddle) hne, hvalue.before other hlt]
    rest := by
      intro other hother
      rw [List.mem_cons, not_or] at hother
      rw [hfields.rest other hother.2, Heap.cells_set_of_ne _ (fun heq => hother.1 heq.2),
        hvalue.before place hplace]
    fields := by
      rw [List.forall_mem_cons]
      refine ⟨?_, hfields.fields⟩
      rw [hcell]
      exact hvalue.result.mono hextends
    stored := by
      intro other owner above hle hseen key
      rcases Nat.lt_or_ge other middle.size with hlt | hge
      · rw [hothers other hlt (hplace.trans_le hle).ne']
        exact (hvalue.stored hle (hbetween hlt hseen) key).mono hextends
      · exact hfields.stored hge hseen key
    linked := by
      intro other owner above hle hseen
      rcases Nat.lt_or_ge other middle.size with hlt | hge
      · rcases hle.eq_or_lt with rfl | hafter
        · obtain ⟨rfl, rfl⟩ := hvalue.first (hbetween hlt hseen)
          exact ⟨place, ref, path, key, le_rfl, hplace, howner, rfl, hcell⟩
        · obtain ⟨parent, owner, above, key, hleast, hparent, hmet, rfl, hlink⟩ :=
            hvalue.linked hafter (hbetween hlt hseen)
          refine ⟨parent, owner, above, key, hplace.le.trans hleast, hparent,
            getElem?_mono hextends.seen hmet, rfl, ?_⟩
          rw [hothers parent (hparent.trans hlt) (hplace.trans_le hleast).ne', hlink]
      · exact hfields.linked hge hseen }

/-! ## Evaluation of a dump -/

/-- A field without a key has the number of its item for a key. -/
theorem Fields.store_cons (table : TableObject Ref) {key : Key} {keys : List Key} {item : ℕ}
    (hitems : table.sparse = false → key :: keys = (List.range' item (keys.length + 1)).map index)
    (place : ℕ) (value : Expr) (fields : Fields) (heap : Heap) : ∃ next,
      (table.sparse = false → keys = (List.range' next keys.length).map index) ∧
        (Fields.cons (if table.sparse then some key else none) value fields).store place item heap =
          fields.store place next ((value.eval heap).2.set place key (value.eval heap).1) := by
  cases hsparse : table.sparse with
  | true => exact ⟨item, by simp, by simp [store]⟩
  | false =>
      have hkeys := hitems hsparse
      rw [List.range'_succ, List.map_cons, List.cons.injEq] at hkeys
      exact ⟨item + 1, fun _ => hkeys.2, by simp [store, hkeys.1]⟩

mutual

theorem Dumps.made {value : Val (Fin graph.size)} {path : Path}
    {state later : State (Fin graph.size)} {expr : Expr} {heap : Heap}
    (hsize : heap.size = state.seen.length) :
    Dumps graph value path state expr later →
      Made graph value path heap later (expr.eval heap).1 (expr.eval heap).2
  | .literal _ _ _ => .literal hsize
  | .again hseen => .again hsize hseen
  | .table _ hkeys hfields => by
      refine .table hsize hkeys hfields.extends (hfields.made ?_ ?_ ?_ hkeys.nodup ?_ hkeys.items)
      · simp [State.meet, hsize]
      · exact Nat.lt_succ_self _
      · simp [State.meet, hsize]
      · simp

theorem DumpsFields.made {ref : Fin graph.size} {path : Path} {keys : List Key}
    {state later : State (Fin graph.size)} {fields : Fields} {place item : ℕ} {heap : Heap}
    (hsize : heap.size = state.seen.length) (hplace : place < heap.size)
    (howner : state.seen[place]? = some (ref, path)) (hnodup : keys.Nodup)
    (hcells : ∀ key ∈ keys, heap.cells place key = .nil)
    (hitems : (graph.tables ref).sparse = false →
      keys = (List.range' item keys.length).map index) :
    DumpsFields graph ref path keys state fields later →
      MadeFields graph ref path keys place heap later (fields.store place item heap)
  | .nil _ _ _ => .nil hsize
  | .skip hsparse hnil hfields => by
      rw [List.nodup_cons] at hnodup
      rw [List.forall_mem_cons] at hcells
      exact .skip hnodup.1 hnil hcells.1
        (hfields.made hsize hplace howner hnodup.2 hcells.2 (by simp [hsparse]))
  | @DumpsFields.cons _ _ _ key _ _ value middle fields _ hvalue hfields => by
      rw [List.nodup_cons] at hnodup
      rw [List.forall_mem_cons] at hcells
      have hmade := hvalue.made hsize
      have hlater := getElem?_mono hvalue.extends.seen howner
      have hlength : heap.size ≤ middle.seen.length := hsize.le.trans hvalue.extends.seen.length_le
      obtain ⟨next, hnext, hstore⟩ := Fields.store_cons _ hitems place value fields heap
      rw [hstore]
      refine .cons hplace hlength (getElem?_mono hfields.extends.seen hlater) hnodup.1
        hfields.extends hmade (hfields.made ?_ ?_ hlater hnodup.2 ?_ hnext)
      · rw [Heap.size_set, hmade.size]
      · rw [Heap.size_set, hmade.size]
        exact hplace.trans_le hlength
      · intro other hother
        have hne : other ≠ key := fun heq => hnodup.1 (heq ▸ hother)
        rw [Heap.cells_set_of_ne _ (fun heq => hne heq.2), hmade.before place hplace,
          hcells.2 other hother]

end

end Libmoon.Serpent
