import Libmoon.Foundation.BitMemory

/-! # One's complement sums

The Internet checksum adds 16-bit words with an end-around carry. A sum is determined by
its remainder modulo 65535, except that only a sum of zeros is 0. It does not depend on
the order of the bytes in a word, so that a host can add the words as it reads them.
-/

namespace Foundation

/-- Addition with an end-around carry. -/
def onesAdd (first second : Nat) : Nat :=
  if first + second < 2 ^ 16 then first + second else first + second - 0xFFFF

/-- The one's complement sum of words. -/
def onesSum (words : List Nat) : Nat := words.foldl onesAdd 0

/-- The words of a byte string in network order; an odd one is padded. -/
def networkWords : List UInt8 → List Nat
  | [] => []
  | [high] => [2 ^ 8 * high.toNat]
  | high :: low :: rest => (2 ^ 8 * high.toNat + low.toNat) :: networkWords rest

/-- The words of a byte string as a little-endian host reads them; an odd one is padded. -/
def hostWords : List UInt8 → List Nat
  | [] => []
  | [low] => [low.toNat]
  | low :: high :: rest => (low.toNat + 2 ^ 8 * high.toNat) :: hostWords rest

/-- The sum of the words of a byte string as a little-endian host reads them. -/
def hostSum : List UInt8 → Nat
  | [] => 0
  | [low] => low.toNat
  | low :: high :: rest => low.toNat + 2 ^ 8 * high.toNat + hostSum rest

/-- What is left of a sum when all carries are added to it. -/
def foldOnes (sum : Nat) : Nat := if sum = 0 then 0 else (sum - 1) % 0xFFFF + 1

/-- Exchange the bytes of a word. -/
def swap16 (word : Nat) : Nat := word / 2 ^ 8 + 2 ^ 8 * (word % 2 ^ 8)

/-! ## Folding -/

theorem foldOnes_lt (sum : Nat) : foldOnes sum < 2 ^ 16 := by
  unfold foldOnes
  split <;> omega

theorem foldOnes_mod (sum : Nat) : foldOnes sum % 0xFFFF = sum % 0xFFFF := by
  unfold foldOnes
  split <;> omega

theorem foldOnes_eq_zero_iff (sum : Nat) : foldOnes sum = 0 ↔ sum = 0 := by
  unfold foldOnes
  split <;> omega

/-- A word is the folded sum when it has its remainder and is zero together with it. -/
theorem eq_foldOnes {word sum : Nat} (hlt : word < 2 ^ 16) (hmod : word % 0xFFFF = sum % 0xFFFF)
    (hzero : word = 0 ↔ sum = 0) : word = foldOnes sum := by
  unfold foldOnes
  split <;> omega

theorem foldOnes_eq_max_iff {sum : Nat} :
    foldOnes sum = 0xFFFF ↔ 0 < sum ∧ sum % 0xFFFF = 0 := by
  unfold foldOnes
  split <;> omega

theorem onesAdd_foldOnes (sum : Nat) {word : Nat} (hword : word < 2 ^ 16) :
    onesAdd (foldOnes sum) word = foldOnes (sum + word) := by
  have hlt := foldOnes_lt sum
  have hmod := foldOnes_mod sum
  have hzero := foldOnes_eq_zero_iff sum
  apply eq_foldOnes
  · unfold onesAdd
    split <;> omega
  · unfold onesAdd
    split <;> omega
  · unfold onesAdd
    split <;> omega

theorem foldl_onesAdd {words : List Nat} (hwords : ∀ word ∈ words, word < 2 ^ 16) (sum : Nat) :
    words.foldl onesAdd (foldOnes sum) = foldOnes (sum + words.sum) := by
  induction words generalizing sum with
  | nil => rfl
  | cons word rest ih =>
      rw [List.foldl_cons, onesAdd_foldOnes sum (hwords word List.mem_cons_self),
        ih fun later hlater => hwords later (List.mem_cons_of_mem _ hlater), List.sum_cons,
        Nat.add_assoc]

theorem onesSum_eq {words : List Nat} (hwords : ∀ word ∈ words, word < 2 ^ 16) :
    onesSum words = foldOnes words.sum := by
  have hfold := foldl_onesAdd hwords 0
  rw [Nat.zero_add] at hfold
  exact hfold

/-! ## The order of the bytes -/

theorem hostWords_lt (bytes : List UInt8) : ∀ word ∈ hostWords bytes, word < 2 ^ 16 := by
  fun_induction hostWords bytes with
  | case1 => exact nofun
  | case2 low =>
      have hlow := low.toNat_lt
      simp only [List.mem_singleton, forall_eq]
      omega
  | case3 low high rest ih =>
      have hlow := low.toNat_lt
      have hhigh := high.toNat_lt
      intro word hword
      rcases List.mem_cons.mp hword with rfl | hword
      · omega
      · exact ih word hword

theorem swap16_lt {word : Nat} (hword : word < 2 ^ 16) : swap16 word < 2 ^ 16 := by
  unfold swap16
  omega

/-- The words in network order are those of the host with their bytes exchanged. -/
theorem networkWords_eq (bytes : List UInt8) :
    networkWords bytes = (hostWords bytes).map swap16 := by
  fun_induction hostWords bytes with
  | case1 => rfl
  | case2 low =>
      have hlow := low.toNat_lt
      rw [networkWords, List.map_singleton, swap16]
      congr 1
      omega
  | case3 low high rest ih =>
      have hlow := low.toNat_lt
      rw [networkWords, List.map_cons, ih, swap16]
      congr 1
      omega

theorem networkWords_lt (bytes : List UInt8) : ∀ word ∈ networkWords bytes, word < 2 ^ 16 := by
  intro word hword
  rw [networkWords_eq] at hword
  obtain ⟨hostWord, hmem, rfl⟩ := List.mem_map.mp hword
  exact swap16_lt (hostWords_lt bytes hostWord hmem)

/-- Reading the words in the other order multiplies their sum by 256, up to carries. -/
theorem sum_networkWords (bytes : List UInt8) :
    (networkWords bytes).sum % 0xFFFF = 2 ^ 8 * hostSum bytes % 0xFFFF ∧
      ((networkWords bytes).sum = 0 ↔ hostSum bytes = 0) := by
  fun_induction networkWords bytes with
  | case1 => simp [hostSum]
  | case2 high =>
      rw [List.sum_singleton, hostSum]
      exact ⟨rfl, by omega⟩
  | case3 high low rest ih =>
      simp only [List.sum_cons, hostSum]
      omega

theorem swap16_mod (word : Nat) :
    swap16 word % 0xFFFF = 2 ^ 8 * word % 0xFFFF := by
  unfold swap16
  omega

theorem swap16_inj {first second : Nat} (hfirst : first < 2 ^ 16) (hsecond : second < 2 ^ 16)
    (heq : swap16 first = swap16 second) : first = second := by
  unfold swap16 at heq
  omega

/-- The sum in network order is that of the host with its bytes exchanged. -/
theorem onesSum_networkWords (bytes : List UInt8) :
    onesSum (networkWords bytes) = swap16 (foldOnes (hostSum bytes)) := by
  obtain ⟨hmod, hzero⟩ := sum_networkWords bytes
  rw [onesSum_eq (networkWords_lt bytes)]
  have hlt := foldOnes_lt (hostSum bytes)
  have hhost := foldOnes_mod (hostSum bytes)
  have hswap := swap16_mod (foldOnes (hostSum bytes))
  have hfolded := foldOnes_eq_zero_iff (hostSum bytes)
  symm
  apply eq_foldOnes
  · exact swap16_lt hlt
  · omega
  · unfold swap16
    omega

theorem onesSum_eq_max_iff (bytes : List UInt8) :
    onesSum (networkWords bytes) = 0xFFFF ↔ 0 < hostSum bytes ∧ hostSum bytes % 0xFFFF = 0 := by
  obtain ⟨hmod, hzero⟩ := sum_networkWords bytes
  rw [onesSum_eq (networkWords_lt bytes), foldOnes_eq_max_iff]
  omega

theorem sum_hostWords (bytes : List UInt8) : (hostWords bytes).sum = hostSum bytes := by
  fun_induction hostWords bytes with
  | case1 => rfl
  | case2 low => rw [List.sum_singleton, hostSum]
  | case3 low high rest ih => rw [List.sum_cons, hostSum, ih]

theorem onesSum_hostWords (bytes : List UInt8) :
    onesSum (hostWords bytes) = foldOnes (hostSum bytes) := by
  rw [onesSum_eq (hostWords_lt bytes), sum_hostWords]

/-- Only zeros add up to zero. -/
theorem eq_zero_of_hostSum_eq_zero {bytes : List UInt8} (hsum : hostSum bytes = 0) :
    ∀ byte ∈ bytes, byte = 0 := by
  fun_induction hostSum bytes with
  | case1 => exact nofun
  | case2 low =>
      rw [List.forall_mem_singleton]
      exact UInt8.toNat_inj.mp hsum
  | case3 low high rest ih =>
      rw [List.forall_mem_cons, List.forall_mem_cons]
      refine ⟨?_, ?_, ih (by omega)⟩
      · exact UInt8.toNat_inj.mp (by rw [UInt8.toNat_zero]; omega)
      · exact UInt8.toNat_inj.mp (by rw [UInt8.toNat_zero]; omega)

/-- Behind a whole number of words, a sum goes on. -/
theorem hostSum_append {first : List UInt8} (heven : first.length % 2 = 0)
    (second : List UInt8) : hostSum (first ++ second) = hostSum first + hostSum second := by
  fun_induction hostSum first with
  | case1 => simp
  | case2 low => simp at heven
  | case3 low high rest ih =>
      have hrest : rest.length % 2 = 0 := by
        simp only [List.length_cons] at heven
        omega
      simp only [List.cons_append, hostSum, ih hrest]
      omega

/-- A word in the order of the host is the sum of a byte string with all carries added to
it, in either order of the bytes. -/
structure FoldedSum (word : Nat) (bytes : List UInt8) : Prop where
  host : word = onesSum (hostWords bytes)
  network : swap16 word = onesSum (networkWords bytes)
  host_mod : word % 0xFFFF = (hostWords bytes).sum % 0xFFFF
  network_mod : swap16 word % 0xFFFF = (networkWords bytes).sum % 0xFFFF
  zero_only : word = 0 → ∀ byte ∈ bytes, byte = 0

theorem FoldedSum.of_eq {word : Nat} {bytes : List UInt8}
    (hword : word = foldOnes (hostSum bytes)) : FoldedSum word bytes where
  host := by rw [hword, onesSum_hostWords]
  network := by rw [hword, onesSum_networkWords]
  host_mod := by rw [hword, foldOnes_mod, sum_hostWords]
  network_mod := by
    rw [hword, ← onesSum_networkWords, onesSum_eq (networkWords_lt bytes), foldOnes_mod]
  zero_only := by
    intro hzero
    rw [hword, foldOnes_eq_zero_iff] at hzero
    exact eq_zero_of_hostSum_eq_zero hzero

/-! ## Words in memory -/

namespace Memory

theorem load_two (mem : Memory) (start : Nat) :
    mem.load start 2 = [mem start, mem (start + 1)] := rfl

theorem hostSum_load_two (mem : Memory) (start : Nat) :
    hostSum (mem.load start 2) = (mem.word start 2).toNat := by
  rw [toNat_word, load_two]
  simp [hostSum, Nat.ofDigits_cons]

/-- A word of 32 bits adds its halves. -/
theorem hostSum_load_four (mem : Memory) (start : Nat) :
    hostSum (mem.load start 4) =
      (mem.word start 4).toNat % 2 ^ 16 + (mem.word start 4).toNat / 2 ^ 16 := by
  have hload : mem.load start 4 =
      [mem start, mem (start + 1), mem (start + 2), mem (start + 3)] := rfl
  have h0 := (mem start).toNat_lt
  have h1 := (mem (start + 1)).toNat_lt
  rw [toNat_word, hload]
  simp only [hostSum, List.map_cons, List.map_nil, Nat.ofDigits_cons, Nat.ofDigits_nil]
  omega

/-- A word of a span adds itself to its sum. -/
theorem hostSum_load_split (mem : Memory) (start : Nat) {k length : Nat}
    (hk : 2 * k + 2 ≤ length) :
    hostSum (mem.load start length) = hostSum (mem.load start (2 * k)) +
      (mem.word (start + 2 * k) 2).toNat +
      hostSum (mem.load (start + 2 * k + 2) (length - (2 * k + 2))) := by
  have hlength : length = 2 * k + 2 + (length - (2 * k + 2)) := by omega
  conv_lhs => rw [hlength, load_add, load_add]
  rw [hostSum_append (by simp), hostSum_append (by simp), hostSum_load_two,
    ← Nat.add_assoc start]

/-- Overwriting a word of a span exchanges it in its sum. -/
theorem hostSum_load_setWord (mem : Memory) (start : Nat) {k length : Nat}
    (hk : 2 * k + 2 ≤ length) (word : BitVec (8 * 2)) :
    hostSum ((mem.setWord (start + 2 * k) word).load start length) +
      (mem.word (start + 2 * k) 2).toNat = hostSum (mem.load start length) + word.toNat := by
  have hbefore : (mem.setWord (start + 2 * k) word).load start (2 * k) =
      mem.load start (2 * k) :=
    load_congr fun i _ hi => setWord_of_not_mem word (by omega)
  have hbehind : (mem.setWord (start + 2 * k) word).load (start + 2 * k + 2)
      (length - (2 * k + 2)) = mem.load (start + 2 * k + 2) (length - (2 * k + 2)) :=
    load_congr fun i hi _ => setWord_of_not_mem word (by omega)
  rw [hostSum_load_split _ start hk, hostSum_load_split mem start hk, hbefore, hbehind,
    word_setWord]
  omega

end Memory

end Foundation
