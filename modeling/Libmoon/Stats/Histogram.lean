import Libmoon.Foundation.Doubles
import Libmoon.Foundation.Machine
import Libmoon.Foundation.RunLength
import Mathlib.Algebra.Order.Field.Rat
import Mathlib.Data.Rat.Floor
import Mathlib.Tactic.FieldSimp
import Mathlib.Tactic.Linarith

/-! # Histograms

A histogram counts every value in a table and evaluates the table when a query finds it
dirty. Percentiles are found by a scan over the counted values in ascending order, the
quartiles by one scan for all three; `stats.percentile` indexes a sorted copy of the samples.
Sums and quotients are rational numbers, without the rounding of floating point; only the
rank of a percentile is rounded, as it decides which of the samples is returned.
-/

namespace Libmoon.Stats

open Foundation

/-- A number of Lua: rational, or the not-a-number of `0/0`. -/
inductive Number where
  | value (value : ℚ)
  | nan
deriving DecidableEq

/-- The three entries of `self.quarts` while they are searched; an entry may still be nil. -/
structure Quarts where
  first : Option ℚ
  second : Option ℚ
  third : Option ℚ
deriving DecidableEq

/-- An entry that is still nil is set to `0/0` at the end. -/
def Quarts.values (quarts : Quarts) : List Number :=
  [quarts.first, quarts.second, quarts.third].map fun
    | some k => .value k
    | none => .nan

/-- The table of counts and what `calc` makes of it. -/
structure Histogram where
  histo : List (ℚ × ℕ)
  dirty : Bool
  sortedHisto : List (ℚ × ℕ)
  numSamples : ℕ
  sum : ℚ
  avg : Number
  /-- The square of `stdDev`. -/
  variance : Number
  maximum : Option ℚ
  minimum : Option ℚ
  quarts : Quarts
deriving DecidableEq

/-- `numSamples * percentile / 100` and `#data * p / 100`, the product and the quotient rounded
to doubles. -/
def targetSamples (numSamples : ℕ) (percentile : ℚ) : ℚ :=
  toDouble (toDouble (numSamples * percentile) / 100)

/-- Whole ranks are exact. -/
theorem targetSamples_eq {numSamples place : ℕ} {percentile : ℚ}
    (hwhole : numSamples * percentile = 100 * place) :
    targetSamples numSamples percentile = place := by
  have hproduct : toDouble (numSamples * percentile) = (100 * place : ℕ) := by
    rw [hwhole]
    exact_mod_cast toDouble_natCast (100 * place)
  have hquotient : ((100 * place : ℕ) : ℚ) / 100 = place := by
    push_cast
    ring
  rw [targetSamples, hproduct, hquotient, toDouble_natCast]

/-- The double next to 99.9 has a rank above 999, which is rounded to 999. -/
example : targetSamples 1000 (3514918771674317 / 2 ^ 45) = 999 ∧
    (999 : ℚ) < 1000 * (3514918771674317 / 2 ^ 45) / 100 := by decide +kernel

namespace Histogram

/-- `histogram:create`; what only `calc` sets is not read before. -/
def create : Histogram where
  histo := []
  dirty := true
  sortedHisto := []
  numSamples := 0
  sum := 0
  avg := .nan
  variance := .nan
  maximum := none
  minimum := none
  quarts := ⟨none, none, none⟩

/-- `histogram:update`; nothing is counted without a key. -/
def update (histogram : Histogram) : Option ℚ → Histogram
  | none => histogram
  | some k => { histogram with histo := increment k histogram.histo, dirty := true }

/-! ## The scan for the quartiles -/

/-- `for _ = 1, p.v do`, from the quartiles found so far and `idx`. -/
def quartCell (quartSamples k : ℚ) : ℕ → Quarts × ℕ → Quarts × ℕ
  | 0, state => state
  | v + 1, (quarts, idx) =>
      if quarts.first = none ∧ quartSamples ≤ idx then
        quartCell quartSamples k v ({ quarts with first := some k }, idx + 1)
      else if quarts.second = none ∧ quartSamples * 2 ≤ idx then
        quartCell quartSamples k v ({ quarts with second := some k }, idx + 1)
      else if quarts.third = none ∧ quartSamples * 3 ≤ idx then
        -- only the inner loop is left, and `idx` stays as it is
        ({ quarts with third := some k }, idx)
      else
        quartCell quartSamples k v (quarts, idx + 1)

/-- `for _, p in ipairs(self.sortedHisto) do`. -/
def quartScan (quartSamples : ℚ) (cells : List (ℚ × ℕ)) (state : Quarts × ℕ) : Quarts × ℕ :=
  cells.foldl (fun state p => quartCell quartSamples p.1 p.2 state) state

/-! ## Evaluating the table -/

/-- A quotient by a count; only 0 is divided by 0 here. -/
def divided (dividend : ℚ) (count : ℤ) : Number :=
  if count = 0 then .nan else .value (dividend / count)

/-- `stdDevSum / (self.numSamples - 1)`. Without samples the sum is 0, whatever the average. -/
def variances (cells : List (ℚ × ℕ)) (numSamples : ℕ) : Number → Number
  | .nan => divided 0 (numSamples - 1)
  | .value avg => divided (cells.map fun cell => cell.2 * (cell.1 - avg) ^ 2).sum (numSamples - 1)

/-- `histogram:calc`. -/
def calculate (histogram : Histogram) : Histogram :=
  let sortedHisto := sortCells histogram.histo
  let numSamples := (histogram.histo.map Prod.snd).sum
  let sum := (histogram.histo.map fun cell => cell.1 * (cell.2 : ℚ)).sum
  let avg := divided sum numSamples
  { histogram with
    sortedHisto := sortedHisto
    numSamples := numSamples
    sum := sum
    avg := avg
    variance := variances histogram.histo numSamples avg
    maximum := (sortedHisto.getLast?.map Prod.fst).or histogram.maximum
    minimum := (sortedHisto.head?.map Prod.fst).or histogram.minimum
    quarts := (quartScan (numSamples / 4) sortedHisto (⟨none, none, none⟩, 0)).1
    dirty := false }

/-- `if self.dirty then self:calc() end`. -/
def evaluated (histogram : Histogram) : Histogram :=
  if histogram.dirty then histogram.calculate else histogram

/-! ## The scan for a percentile -/

/-- `for _ = 1, p.v do`: the value that is returned, or `idx` after the loop. -/
def percentileCell (targetSamples k : ℚ) : ℕ → ℕ → ℚ ⊕ ℕ
  | 0, idx => .inr idx
  | v + 1, idx => if targetSamples ≤ idx then .inl k else percentileCell targetSamples k v (idx + 1)

/-- `for _, p in ipairs(self.sortedHisto) do`; nothing is returned after the last sample. -/
def percentileScan (targetSamples : ℚ) : List (ℚ × ℕ) → ℕ → Option ℚ
  | [], _ => none
  | p :: rest, idx =>
      match percentileCell targetSamples p.1 p.2 idx with
      | .inl k => some k
      | .inr idx => percentileScan targetSamples rest idx

/-! ## Calls -/

inductive Call where
  | update (k : Option ℚ)
  | percentile (percentile : ℚ)
  | totals
  | average
  | min
  | max
  | standardDeviation
  | quartiles
  | median
  | samples
deriving DecidableEq

inductive Answer where
  | returns (values : List (Option Number))
  | raises (message : String)
  /-- What the iterator of `samples` goes through if no update comes in between. -/
  | iterates (cells : List (ℚ × ℕ))
deriving DecidableEq

/-- What a query reads from an evaluated histogram. -/
def answer (histogram : Histogram) : Call → Answer
  | .update _ => .returns []
  | .percentile percentile =>
      if percentile > 100 ∨ percentile < 0 then .raises "invalid argument"
      else
        match percentileScan (targetSamples histogram.numSamples percentile)
            histogram.sortedHisto 0 with
        | some k => .returns [some (.value k)]
        | none => .returns []
  | .totals =>
      .returns [some (.value histogram.numSamples), some (.value histogram.sum),
        some histogram.avg]
  | .average => .returns [some histogram.avg]
  | .min => .returns [histogram.minimum.map .value]
  | .max => .returns [histogram.maximum.map .value]
  | .standardDeviation => .returns [some histogram.variance]
  | .quartiles => .returns (histogram.quarts.values.map some)
  | .median => .returns [histogram.quarts.values[1]?]
  | .samples => .iterates histogram.sortedHisto

/-- A histogram as its callers see it. -/
def machine : Machine Histogram Call Answer where
  step histogram
    | .update k => (.returns [], histogram.update k)
    | query => (histogram.evaluated.answer query, histogram.evaluated)

/-- The samples of a run. -/
def recorded (calls : List Call) : List ℚ :=
  calls.filterMap fun
    | .update k => k
    | _ => none

end Histogram

/-- `stats.percentile`; the index of a Lua table starts at 1. -/
def percentile (data : List ℚ) (p : ℚ) : Option ℚ :=
  let index := ⌈targetSamples data.length p⌉
  if 0 < index then (ascending data)[(index - 1).toNat]? else none

/-! ## The scans over the repeated values -/

namespace Histogram

theorem percentileCell_eq (targetSamples k : ℚ) (v idx : ℕ) :
    percentileCell targetSamples k v idx =
      if ⌈targetSamples⌉₊ - idx < v then .inl k else .inr (idx + v) := by
  induction v generalizing idx with
  | zero => rfl
  | succ v ih =>
      simp only [percentileCell, ← Nat.ceil_le]
      by_cases hreached : ⌈targetSamples⌉₊ ≤ idx
      · rw [if_pos hreached, if_pos (by omega)]
      · rw [if_neg hreached, ih (idx + 1)]
        have hsame : ⌈targetSamples⌉₊ - (idx + 1) < v ↔ ⌈targetSamples⌉₊ - idx < v + 1 := by
          omega
        simp only [hsame, Nat.add_assoc, Nat.add_comm 1 v]

/-- The scan returns the entry whose place is the target rounded up. -/
theorem percentileScan_eq (targetSamples : ℚ) (cells : List (ℚ × ℕ)) (idx : ℕ) :
    percentileScan targetSamples cells idx = (expand cells)[⌈targetSamples⌉₊ - idx]? := by
  induction cells generalizing idx with
  | nil => rfl
  | cons cell rest ih =>
      rw [percentileScan, percentileCell_eq, expand_cons, List.getElem?_append]
      simp only [List.length_replicate]
      by_cases hreached : ⌈targetSamples⌉₊ - idx < cell.2
      · rw [if_pos hreached, if_pos hreached]
        exact (List.getElem?_replicate_of_lt hreached).symm
      · rw [if_neg hreached, if_neg hreached]
        exact (ih (idx + cell.2)).trans (by rw [Nat.sub_add_eq])

/-- The entries at the places `q`, `2 * q` and `3 * q`. -/
def quartsAt (q : ℕ) (values : List ℚ) : Quarts :=
  ⟨values[q]?, values[q * 2]?, values[q * 3]?⟩

/-- The state of the scan after some values. Once all three quartiles are found, `idx` may
lag behind. -/
def Tracks (q : ℕ) (values : List ℚ) (state : Quarts × ℕ) : Prop :=
  state.1 = quartsAt q values ∧ (state.2 = values.length ∨ q * 3 < values.length)

theorem quartsAt_append {q : ℕ} {values : List ℚ} (hfound : q * 3 < values.length)
    (more : List ℚ) : quartsAt q (values ++ more) = quartsAt q values := by
  simp only [quartsAt]
  rw [List.getElem?_append_left (by omega), List.getElem?_append_left (by omega),
    List.getElem?_append_left hfound]

/-- One sample can be at one of the three places only. -/
theorem quartsAt_snoc {q : ℕ} (hq : 0 < q) (values : List ℚ) (k : ℚ) :
    quartsAt q (values ++ [k]) =
      if values.length = q then { quartsAt q values with first := some k }
      else if values.length = q * 2 then { quartsAt q values with second := some k }
      else if values.length = q * 3 then { quartsAt q values with third := some k }
      else quartsAt q values := by
  have hentry : ∀ place, (values ++ [k])[place]? =
      if values.length = place then some k else values[place]? := by
    intro place
    rcases Nat.lt_trichotomy place values.length with hlt | rfl | hgt
    · rw [List.getElem?_append_left hlt, if_neg (by omega)]
    · simp
    · rw [if_neg (by omega), List.getElem?_eq_none hgt.le, List.getElem?_eq_none]
      rw [List.length_append, List.length_singleton]
      exact hgt
  simp only [quartsAt, hentry]
  split_ifs <;> first | rfl | omega

theorem quartCell_tracks {q : ℕ} (hq : 0 < q) (k : ℚ) (v : ℕ) {values : List ℚ}
    {state : Quarts × ℕ} (htracks : Tracks q values state) :
    Tracks q (values ++ List.replicate v k) (quartCell q k v state) := by
  induction v generalizing values state with
  | zero => simpa [quartCell] using htracks
  | succ v ih =>
      obtain ⟨quarts, idx⟩ := state
      obtain ⟨rfl, hidx⟩ := htracks
      have hcons : values ++ List.replicate (v + 1) k =
          (values ++ [k]) ++ List.replicate v k := by
        simp [List.replicate_succ]
      have hfirst : (quartsAt q values).first = none ↔ values.length ≤ q :=
        List.getElem?_eq_none_iff
      have hsecond : (quartsAt q values).second = none ↔ values.length ≤ q * 2 :=
        List.getElem?_eq_none_iff
      have hthird : (quartsAt q values).third = none ↔ values.length ≤ q * 3 :=
        List.getElem?_eq_none_iff
      have hone : (q : ℚ) ≤ idx ↔ q ≤ idx := Nat.cast_le
      have htwo : (q : ℚ) * 2 ≤ idx ↔ q * 2 ≤ idx := by norm_cast
      have hthree : (q : ℚ) * 3 ≤ idx ↔ q * 3 ≤ idx := by norm_cast
      have hlength : (values ++ [k]).length = values.length + 1 := by simp
      simp only [quartCell, hfirst, hsecond, hthird, hone, htwo, hthree, hcons]
      by_cases hfound : q * 3 < values.length
      · -- nothing is left to be set
        rw [if_neg (by omega), if_neg (by omega), if_neg (by omega)]
        exact ih ⟨(quartsAt_append hfound [k]).symm, Or.inr (by omega)⟩
      · obtain rfl : idx = values.length := by omega
        have hsnoc := quartsAt_snoc hq values k
        split_ifs with h1 h2 h3
        · refine ih ⟨?_, Or.inl hlength.symm⟩
          rw [hsnoc, if_pos (by omega)]
        · refine ih ⟨?_, Or.inl hlength.symm⟩
          rw [hsnoc, if_neg (by omega), if_pos (by omega)]
        · -- the loop is left with all three of them found
          have hlast : q * 3 < (values ++ [k]).length := by omega
          refine ⟨?_, Or.inr (by rw [List.length_append]; omega)⟩
          rw [quartsAt_append hlast, hsnoc, if_neg (by omega), if_neg (by omega),
            if_pos (by omega)]
        · refine ih ⟨?_, Or.inl hlength.symm⟩
          rw [hsnoc, if_neg (by omega), if_neg (by omega), if_neg (by omega)]

theorem quartScan_tracks {q : ℕ} (hq : 0 < q) (cells : List (ℚ × ℕ)) {values : List ℚ}
    {state : Quarts × ℕ} (htracks : Tracks q values state) :
    Tracks q (values ++ expand cells) (quartScan q cells state) := by
  induction cells generalizing values state with
  | nil => simpa [quartScan] using htracks
  | cons cell rest ih =>
      rw [expand_cons, ← List.append_assoc]
      exact ih (quartCell_tracks hq cell.1 cell.2 htracks)

/-- The scan finds the entries at one, two and three times a positive number of samples. -/
theorem quartScan_eq {q : ℕ} (hq : 0 < q) (cells : List (ℚ × ℕ)) :
    (quartScan q cells (⟨none, none, none⟩, 0)).1 = quartsAt q (expand cells) := by
  have hstart : Tracks q [] (⟨none, none, none⟩, 0) := ⟨rfl, Or.inl rfl⟩
  exact (quartScan_tracks hq cells hstart).1

/-! ## Runs -/

/-- The table counts the samples, and what a clean histogram has cached is what `calc` would
make of the table as it is. -/
structure Counts (histogram : Histogram) (samples : List ℚ) : Prop where
  expands : (expand histogram.histo).Perm samples
  nodup : (histogram.histo.map Prod.fst).Nodup
  cached : histogram.dirty = false → histogram.calculate = histogram

theorem calculate_idem (histogram : Histogram) :
    histogram.calculate.calculate = histogram.calculate := by
  have hkept : ∀ entry before : Option ℚ, entry.or (entry.or before) = entry.or before := by
    intro entry before
    cases entry <;> rfl
  simp only [calculate, hkept]

theorem counts_create : create.Counts [] where
  expands := List.Perm.nil
  nodup := List.nodup_nil
  cached hclean := absurd hclean Bool.noConfusion

variable {histogram : Histogram} {samples : List ℚ}

theorem Counts.evaluated_eq (hcounts : histogram.Counts samples) :
    histogram.evaluated = histogram.calculate := by
  unfold evaluated
  cases hdirty : histogram.dirty with
  | true => rfl
  | false => exact (hcounts.cached hdirty).symm

theorem Counts.update (hcounts : histogram.Counts samples) (k : Option ℚ) :
    (histogram.update k).Counts (samples ++ k.toList) := by
  cases k with
  | none => simpa [Histogram.update] using hcounts
  | some k =>
      refine ⟨?_, nodup_keys_increment k hcounts.nodup, fun hclean => Bool.noConfusion hclean⟩
      have hone : (k :: expand histogram.histo).Perm (samples ++ [k]) :=
        (hcounts.expands.cons k).trans (List.perm_append_singleton k samples).symm
      exact (expand_increment k histogram.histo).trans hone

theorem Counts.evaluated (hcounts : histogram.Counts samples) :
    histogram.evaluated.Counts samples := by
  rw [hcounts.evaluated_eq]
  exact ⟨hcounts.expands, hcounts.nodup, fun _ => calculate_idem histogram⟩

theorem Counts.step (hcounts : histogram.Counts samples) (call : Call) :
    (machine.step histogram call).2.Counts (samples ++ recorded [call]) := by
  cases call with
  | update k =>
      cases k with
      | none => exact hcounts.update none
      | some k => exact hcounts.update (some k)
  | percentile _ | totals | average | min | max | standardDeviation | quartiles | median
    | samples =>
      -- a query evaluates the table and records nothing
      change histogram.evaluated.Counts (samples ++ [])
      rw [List.append_nil]
      exact hcounts.evaluated

theorem recorded_cons (call : Call) (rest : List Call) :
    recorded (call :: rest) = recorded [call] ++ recorded rest := by
  rw [← List.singleton_append]
  exact List.filterMap_append

/-- Whatever the calls are and in whatever order they come, the table counts what has been
recorded. -/
theorem Counts.after (hcounts : histogram.Counts samples) (calls : List Call) :
    (machine.after histogram calls).Counts (samples ++ recorded calls) := by
  induction calls generalizing histogram samples with
  | nil => simpa [recorded] using hcounts
  | cons call rest ih =>
      rw [recorded_cons, ← List.append_assoc]
      exact ih (hcounts.step call)

theorem counts_after_create (calls : List Call) :
    (machine.after create calls).Counts (recorded calls) :=
  counts_create.after calls

theorem Counts.expand_sortedHisto (hcounts : histogram.Counts samples) :
    expand histogram.calculate.sortedHisto = ascending samples :=
  expand_sortCells hcounts.expands

theorem Counts.numSamples_eq (hcounts : histogram.Counts samples) :
    histogram.calculate.numSamples = samples.length :=
  (length_expand histogram.histo).symm.trans hcounts.expands.length_eq

/-- The answer is the entry of the sorted samples whose place is the target rounded up. -/
theorem Counts.answer_percentile (hcounts : histogram.Counts samples) {p : ℚ} (hlow : 0 ≤ p)
    (hhigh : p ≤ 100) :
    (machine.step histogram (.percentile p)).1 =
      match (ascending samples)[⌈targetSamples samples.length p⌉₊]? with
      | some k => .returns [some (.value k)]
      | none => .returns [] := by
  change histogram.evaluated.answer (.percentile p) = _
  rw [hcounts.evaluated_eq, answer, if_neg (by simp [hlow, hhigh]), percentileScan_eq,
    hcounts.expand_sortedHisto, hcounts.numSamples_eq, Nat.sub_zero]

theorem Counts.quarts_eq (hcounts : histogram.Counts samples) {q : ℕ} (hq : 0 < q)
    (hlength : samples.length = q * 4) :
    histogram.calculate.quarts = quartsAt q (ascending samples) := by
  have hquarter : (histogram.calculate.numSamples : ℚ) / 4 = q := by
    rw [hcounts.numSamples_eq, hlength]
    push_cast
    field_simp
  rw [← hcounts.expand_sortedHisto, ← quartScan_eq hq, ← hquarter]
  rfl

/-! ## Percentiles -/

/-- The exact rank of a percentile. -/
def rank (samples : List ℚ) (p : ℚ) : ℚ := samples.length * p / 100

/-- What a percentile is: a sample that no more samples than the rank are smaller than, and
that at least so many do not exceed. -/
structure IsPercentile (samples : List ℚ) (p k : ℚ) : Prop where
  mem : k ∈ samples
  below : (samples.countP (· < k) : ℚ) ≤ rank samples p
  upTo : rank samples p ≤ samples.countP (· ≤ k)

theorem rank_nonneg {p : ℚ} (hlow : 0 ≤ p) : 0 ≤ rank samples p := by
  unfold rank
  positivity

/-- The entry at a place is a percentile exactly if for no sample the number of samples up to
it is between the rank and the place. -/
theorem isPercentile_getElem_iff {p : ℚ} (hlow : 0 ≤ p) {place : ℕ}
    (hplace : place < (ascending samples).length) :
    IsPercentile samples p (ascending samples)[place] ↔
      ∀ x ∈ samples,
        ¬ (rank samples p < samples.countP (· ≤ x) ∧ samples.countP (· ≤ x) ≤ place) ∧
          ¬ (place < samples.countP (· ≤ x) ∧ samples.countP (· ≤ x) < rank samples p) := by
  have hsorted := pairwise_ascending samples
  have hperm := ascending_perm samples
  have hmost := countP_lt_getElem_le hsorted hplace
  have hleast := lt_countP_le_getElem hsorted hplace
  rw [hperm.countP_eq] at hmost hleast
  set k := (ascending samples)[place]
  have hmem : k ∈ samples := hperm.subset (List.getElem_mem hplace)
  constructor
  · intro hper x _
    rcases lt_or_ge x k with hless | hatLeast
    · -- what is up to a smaller sample is smaller than the entry
      have hcount : samples.countP (· ≤ x) ≤ samples.countP (· < k) := by
        refine List.countP_mono_left fun y _ hy => ?_
        simp only [decide_eq_true_eq] at hy ⊢
        exact hy.trans_lt hless
      have hbelow : (samples.countP (· ≤ x) : ℚ) ≤ rank samples p :=
        le_trans (by exact_mod_cast hcount) hper.below
      exact ⟨fun hbetween => hbetween.1.not_ge hbelow, fun hbetween => by omega⟩
    · have hcount : samples.countP (· ≤ k) ≤ samples.countP (· ≤ x) := by
        refine List.countP_mono_left fun y _ hy => ?_
        simp only [decide_eq_true_eq] at hy ⊢
        exact hy.trans hatLeast
      have hupTo : rank samples p ≤ samples.countP (· ≤ x) :=
        hper.upTo.trans (by exact_mod_cast hcount)
      exact ⟨fun hbetween => by omega, fun hbetween => hbetween.2.not_ge hupTo⟩
  · intro hbetween
    refine ⟨hmem, ?_, ?_⟩
    · rcases Nat.eq_zero_or_pos (samples.countP (· < k)) with hnone | hsome
      · rw [hnone, Nat.cast_zero]
        exact rank_nonneg hlow
      · -- the greatest of the smaller samples has all of them up to it
        obtain ⟨x, hx, hcount⟩ := exists_countP_le_eq hsome
        have hnot := (hbetween x hx).1
        rw [hcount] at hnot
        exact not_lt.mp fun hless => hnot ⟨hless, hmost⟩
    · exact not_lt.mp fun hless => (hbetween k hmem).2 ⟨hleast, hless⟩

theorem Counts.percentile_iff (hcounts : histogram.Counts samples) {p : ℚ} (hlow : 0 ≤ p)
    (hhigh : p ≤ 100) {place : ℕ} (hceil : ⌈targetSamples samples.length p⌉₊ = place) :
    (∃ k, IsPercentile samples p k ∧
        (machine.step histogram (.percentile p)).1 = .returns [some (.value k)]) ↔
      place < samples.length ∧ ∀ x ∈ samples,
        ¬ (rank samples p < samples.countP (· ≤ x) ∧ samples.countP (· ≤ x) ≤ place) ∧
          ¬ (place < samples.countP (· ≤ x) ∧ samples.countP (· ≤ x) < rank samples p) := by
  rw [hcounts.answer_percentile hlow hhigh, hceil]
  by_cases hplace : place < (ascending samples).length
  · rw [List.getElem?_eq_getElem hplace, ← isPercentile_getElem_iff hlow hplace,
      and_iff_right (length_ascending samples ▸ hplace)]
    simp
  · rw [List.getElem?_eq_none (not_lt.mp hplace)]
    rw [length_ascending] at hplace
    simp [hplace]

/-- The list version returns the entry before that place. -/
theorem stats_percentile_iff {data : List ℚ} (hdata : data.Perm samples) {p : ℚ} (hlow : 0 ≤ p)
    {place : ℕ} (hceil : ⌈targetSamples samples.length p⌉₊ = place) (hlt : place < samples.length) :
    (∃ k, IsPercentile samples p k ∧ percentile data p = some k) ↔
      0 < place ∧ ∀ x ∈ samples,
        ¬ (rank samples p < samples.countP (· ≤ x) ∧ samples.countP (· ≤ x) < place) ∧
          ¬ (place ≤ samples.countP (· ≤ x) ∧ samples.countP (· ≤ x) < rank samples p) := by
  have hsame : ascending data = ascending samples :=
    eq_ascending ((ascending_perm data).trans hdata) (pairwise_ascending data)
  have hindex : ⌈targetSamples samples.length p⌉.toNat = place := hceil
  rw [percentile, hsame, hdata.length_eq]
  cases place with
  | zero =>
      rw [if_neg (by omega)]
      simp
  | succ before =>
      have hplace : before < (ascending samples).length := by
        rw [length_ascending]
        omega
      have hbefore : (⌈targetSamples samples.length p⌉ - 1).toNat = before := by omega
      rw [if_pos (by omega), hbefore, List.getElem?_eq_getElem hplace]
      simp only [Nat.lt_succ_iff, Nat.succ_le_iff, Option.some.injEq]
      rw [← isPercentile_getElem_iff hlow hplace]
      simp

/-- After any calls, both functions return a percentile of the samples exactly if the rank as
it is computed is positive, its ceiling is less than the number of samples, and for no sample
the number of samples up to it is between the exact rank and that ceiling. -/
theorem percentiles_right_iff (calls : List Call) {data : List ℚ}
    (hdata : data.Perm (recorded calls)) {p : ℚ} (hlow : 0 ≤ p) (hhigh : p ≤ 100) :
    ((∃ k, IsPercentile (recorded calls) p k ∧
          (machine.step (machine.after create calls) (.percentile p)).1 =
            .returns [some (.value k)]) ∧
        ∃ k, IsPercentile (recorded calls) p k ∧ percentile data p = some k) ↔
      0 < ⌈targetSamples (recorded calls).length p⌉₊ ∧
        ⌈targetSamples (recorded calls).length p⌉₊ < (recorded calls).length ∧
        ∀ x ∈ recorded calls,
          ¬ (rank (recorded calls) p < (recorded calls).countP (· ≤ x) ∧
              (recorded calls).countP (· ≤ x) ≤ ⌈targetSamples (recorded calls).length p⌉₊) ∧
            ¬ (⌈targetSamples (recorded calls).length p⌉₊ ≤ (recorded calls).countP (· ≤ x) ∧
              (recorded calls).countP (· ≤ x) < rank (recorded calls) p) := by
  generalize hceil : ⌈targetSamples (recorded calls).length p⌉₊ = place
  rw [(counts_after_create calls).percentile_iff hlow hhigh hceil]
  by_cases hlt : place < (recorded calls).length
  · rw [stats_percentile_iff hdata hlow hceil hlt]
    constructor
    · rintro ⟨⟨-, hscan⟩, hpos, hlist⟩
      exact ⟨hpos, hlt, fun x hx => ⟨(hscan x hx).1, (hlist x hx).2⟩⟩
    · rintro ⟨hpos, -, hboth⟩
      refine ⟨⟨hlt, fun x hx => ⟨(hboth x hx).1, fun hbetween => ?_⟩⟩, hpos,
        fun x hx => ⟨fun hbetween => ?_, (hboth x hx).2⟩⟩
      · exact (hboth x hx).2 ⟨hbetween.1.le, hbetween.2⟩
      · exact (hboth x hx).1 ⟨hbetween.1, hbetween.2.le⟩
  · exact iff_of_false (fun hright => hlt hright.1.1) (fun hright => hlt hright.2.1)

/-- The median of two equal samples, with a query in between. -/
theorem percentiles_right_of_two :
    (∃ k, IsPercentile [1, 1] 50 k ∧
        (machine.step (machine.after create [.update (some 1), .totals, .update (some 1)])
          (.percentile 50)).1 = .returns [some (.value k)]) ∧
      ∃ k, IsPercentile [1, 1] 50 k ∧ percentile [1, 1] 50 = some k := by
  have htarget : targetSamples 2 50 = (1 : ℕ) := targetSamples_eq (by norm_num)
  have hrank : rank [1, 1] 50 = (1 : ℕ) := by
    change ((2 : ℕ) : ℚ) * 50 / 100 = (1 : ℕ)
    norm_num
  refine (percentiles_right_iff [.update (some 1), .totals, .update (some 1)]
    (List.Perm.refl [1, 1]) (by norm_num) (by norm_num)).mpr ?_
  change 0 < ⌈targetSamples 2 50⌉₊ ∧ ⌈targetSamples 2 50⌉₊ < 2 ∧ ∀ x ∈ [(1 : ℚ), 1],
    ¬ (rank [1, 1] 50 < [(1 : ℚ), 1].countP (· ≤ x) ∧
        [(1 : ℚ), 1].countP (· ≤ x) ≤ ⌈targetSamples 2 50⌉₊) ∧
      ¬ (⌈targetSamples 2 50⌉₊ ≤ [(1 : ℚ), 1].countP (· ≤ x) ∧
        [(1 : ℚ), 1].countP (· ≤ x) < rank [1, 1] 50)
  rw [htarget, hrank, Nat.ceil_natCast]
  simp

/-- The 100th percentile of one sample is not returned at all. -/
theorem percentile_of_one_missing :
    ¬ ((∃ k, IsPercentile [3] 100 k ∧
          (machine.step (machine.after create [.update (some 3)]) (.percentile 100)).1 =
            .returns [some (.value k)]) ∧
        ∃ k, IsPercentile [3] 100 k ∧ percentile [3] 100 = some k) := by
  rintro ⟨⟨k, -, hanswer⟩, -⟩
  have hcounts : (machine.after create [.update (some 3)]).Counts [3] :=
    counts_after_create [.update (some 3)]
  have hnothing := hcounts.answer_percentile (p := 100) (by norm_num) le_rfl
  have htarget : targetSamples ([3] : List ℚ).length 100 = (1 : ℕ) :=
    targetSamples_eq (by norm_num)
  have hout : (ascending ([3] : List ℚ))[1]? = none :=
    List.getElem?_eq_none (length_ascending [3]).le
  rw [hanswer, htarget, Nat.ceil_natCast, hout] at hnothing
  cases hnothing

/-! ## Quartiles -/

theorem Counts.answer_quartiles (hcounts : histogram.Counts samples) :
    (machine.step histogram .quartiles).1 =
      .returns (histogram.calculate.quarts.values.map some) := by
  change histogram.evaluated.answer .quartiles = _
  rw [hcounts.evaluated_eq]
  rfl

theorem Counts.answer_median (hcounts : histogram.Counts samples) :
    (machine.step histogram .median).1 = .returns [histogram.calculate.quarts.values[1]?] := by
  change histogram.evaluated.answer .median = _
  rw [hcounts.evaluated_eq]
  rfl

/-- Where the samples are a multiple of four, a quarter of them is a whole rank. -/
theorem Counts.answer_percentile_quarter (hcounts : histogram.Counts samples) {q : ℕ}
    (hlength : samples.length = q * 4) {times : ℕ} (htimes : times ≤ 4) {k : ℚ}
    (hentry : (ascending samples)[q * times]? = some k) :
    (machine.step histogram (.percentile (25 * times))).1 = .returns [some (.value k)] := by
  have hhigh : (25 * times : ℚ) ≤ 100 := by
    have : (times : ℚ) ≤ 4 := by exact_mod_cast htimes
    linarith
  have htarget : targetSamples samples.length (25 * times) = (q * times : ℕ) := by
    refine targetSamples_eq ?_
    rw [hlength]
    push_cast
    ring
  rw [hcounts.answer_percentile (by positivity) hhigh, htarget, Nat.ceil_natCast, hentry]

/-- After any calls that have recorded a positive multiple of four samples, the quartiles are
the percentiles 25, 50 and 75, and the median is the second of them. -/
theorem quartiles_are_percentiles (calls : List Call) (hpos : 0 < (recorded calls).length)
    (hfour : 4 ∣ (recorded calls).length) :
    ∃ first second third : ℚ,
      (machine.step (machine.after create calls) .quartiles).1 =
          .returns [some (.value first), some (.value second), some (.value third)] ∧
        (machine.step (machine.after create calls) (.percentile 25)).1 =
          .returns [some (.value first)] ∧
        (machine.step (machine.after create calls) (.percentile 50)).1 =
          .returns [some (.value second)] ∧
        (machine.step (machine.after create calls) (.percentile 75)).1 =
          .returns [some (.value third)] ∧
        (machine.step (machine.after create calls) .median).1 =
          .returns [some (.value second)] := by
  obtain ⟨q, hlength⟩ := exists_eq_mul_left_of_dvd hfour
  have hq : 0 < q := by omega
  have hcounts := counts_after_create calls
  have hentries : ∀ times < 4, ∃ k,
      (ascending (recorded calls))[q * times]? = some k := by
    intro times htimes
    have hlt : q * times < (ascending (recorded calls)).length := by
      rw [length_ascending, hlength]
      exact (Nat.mul_lt_mul_left hq).mpr htimes
    exact ⟨_, List.getElem?_eq_getElem hlt⟩
  obtain ⟨first, hfirst⟩ := hentries 1 (by norm_num)
  obtain ⟨second, hsecond⟩ := hentries 2 (by norm_num)
  obtain ⟨third, hthird⟩ := hentries 3 (by norm_num)
  have hquarts : (machine.after create calls).calculate.quarts =
      ⟨some first, some second, some third⟩ := by
    rw [hcounts.quarts_eq hq hlength, quartsAt, hsecond, hthird, ← hfirst, Nat.mul_one]
  have hpercent : ∀ times ≤ 4, ∀ k, (ascending (recorded calls))[q * times]? = some k →
      (machine.step (machine.after create calls) (.percentile (25 * times))).1 =
        .returns [some (.value k)] :=
    fun _ htimes _ => hcounts.answer_percentile_quarter hlength htimes
  refine ⟨first, second, third, ?_, ?_, ?_, ?_, ?_⟩
  · rw [hcounts.answer_quartiles, hquarts]
    rfl
  · simpa using hpercent 1 (by norm_num) first hfirst
  · convert hpercent 2 (by norm_num) second hsecond using 3
    norm_num
  · convert hpercent 3 (by norm_num) third hthird using 3
    norm_num
  · rw [hcounts.answer_median, hquarts]
    rfl

/-- Four equal samples and a query between them. -/
theorem quartiles_of_four :
    ∃ first second third : ℚ,
      (machine.step (machine.after create [.update (some 5), .update (some 5), .quartiles,
            .update (some 5), .update (some 5)]) .quartiles).1 =
          .returns [some (.value first), some (.value second), some (.value third)] ∧
        (machine.step (machine.after create [.update (some 5), .update (some 5), .quartiles,
            .update (some 5), .update (some 5)]) (.percentile 25)).1 =
          .returns [some (.value first)] :=
  let ⟨first, second, third, hquartiles, hpercentile, _⟩ :=
    quartiles_are_percentiles [.update (some 5), .update (some 5), .quartiles,
      .update (some 5), .update (some 5)] (by decide) (by decide)
  ⟨first, second, third, hquartiles, hpercentile⟩

end Histogram

end Libmoon.Stats
