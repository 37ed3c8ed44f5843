import Libmoon.Foundation.ByteMemory

/-! # TCP options

`getOptions` takes the options of a TCP header apart. An option of a kind other than EOL and
NOP has a length byte, which also counts the kind and itself. The loop ends in any case, but
its bound is that of the first byte of an option only. Every byte that it reads is recorded.
-/

namespace Libmoon.Packet

open Foundation

/-- The members of a TCP header that its options are about. -/
structure OptionsHeader where
  offset : UInt8
  options : Memory

/-- An entry of the list that `getOptions` returns. -/
structure OptionEntry where
  type : ℤ
  offset : Nat
  byte : Option (List UInt8) := none
  error : Option String := none
deriving DecidableEq, Repr

namespace OptionsHeader

/-- `tcpHeader:getDataOffset`. -/
def getDataOffset (self : OptionsHeader) : Nat := ((self.offset >>> 4) &&& 0x0f).toNat

/-- `tcpHeader:getVariableLength`. -/
def getVariableLength (self : OptionsHeader) : Nat :=
  let r := ((self.getDataOffset : ℤ) - 5) * 4
  if r ≤ 0 then 0 else r.toNat

/-- `mod.option`. -/
def optionEol : UInt8 := 0

def optionNop : UInt8 := 1

def optionMss : UInt8 := 2

def optionWs : UInt8 := 3

def optionTs : UInt8 := 8

/-- The length byte of an option, as it advances the loop. -/
def advance (length : UInt8) : Nat := if length.toNat < 1 then 1 else length.toNat

theorem advance_pos (length : UInt8) : 0 < advance length := by
  unfold advance
  split <;> omega

/-- What is appended where EOL stands in front of the last byte. -/
def missingError (starting len offset : Nat) : List OptionEntry :=
  if (offset : ℤ) < starting + ((len : ℤ) - 1) then
    [{ type := -1, offset := offset,
       error := some ("missing " ++ toString (starting + ((len : ℤ) - 1) - offset) ++ "b") }]
  else []

/-- The loop of `getOptions`. -/
def optionsLoop (options : Memory) (starting len offset : Nat) : Traced (List OptionEntry) :=
  if offset < starting + len then do
    let code ← Traced.byte options offset
    if code = optionEol then
      pure (⟨code.toNat, offset, none, none⟩ :: missingError starting len offset)
    else if code = optionNop then do
      let rest ← optionsLoop options starting len (offset + 1)
      pure (⟨code.toNat, offset, none, none⟩ :: rest)
    else do
      let length ← Traced.byte options (offset + 1)
      let byte ← Traced.load options (offset + 2) (advance length - 2)
      let rest ← optionsLoop options starting len (offset + advance length)
      pure (⟨code.toNat, offset, some byte, none⟩ :: rest)
  else pure []
termination_by starting + len - offset
decreasing_by
  · omega
  · have := advance_pos length
    omega

/-- `tcpHeader:getOptions`. -/
def getOptions (self : OptionsHeader) (offset len : Option Nat) : Traced (List OptionEntry) :=
  let offset := offset.getD 0
  optionsLoop self.options offset (len.getD self.getVariableLength) offset

end OptionsHeader

/-! ## One turn of the loop -/

namespace OptionsHeader

variable {options : Memory} {starting len offset : Nat}

theorem optionsLoop_end (hend : starting + len ≤ offset) :
    optionsLoop options starting len offset = pure [] := by
  rw [optionsLoop, if_neg (by omega)]

theorem optionsLoop_eol (hlt : offset < starting + len) (hcode : options offset = optionEol) :
    optionsLoop options starting len offset =
      ⟨⟨0, offset, none, none⟩ :: missingError starting len offset, [⟨offset, 1⟩]⟩ := by
  rw [optionsLoop, if_pos hlt, Traced.byte, Traced.bind_mk, if_pos hcode, hcode]
  rfl

theorem optionsLoop_nop (hlt : offset < starting + len) (hcode : options offset = optionNop) :
    optionsLoop options starting len offset =
      ⟨⟨1, offset, none, none⟩ :: (optionsLoop options starting len (offset + 1)).value,
        ⟨offset, 1⟩ :: (optionsLoop options starting len (offset + 1)).reads⟩ := by
  rw [optionsLoop, if_pos hlt, Traced.byte, Traced.bind_mk, hcode, if_neg (by decide), if_pos rfl]
  simp [optionNop]

theorem optionsLoop_body (hlt : offset < starting + len) (heol : options offset ≠ optionEol)
    (hnop : options offset ≠ optionNop) :
    optionsLoop options starting len offset =
      ⟨⟨(options offset).toNat, offset,
          some (options.load (offset + 2) (advance (options (offset + 1)) - 2)), none⟩ ::
          (optionsLoop options starting len (offset + advance (options (offset + 1)))).value,
        ⟨offset, 1⟩ :: ⟨offset + 1, 1⟩ :: ⟨offset + 2, advance (options (offset + 1)) - 2⟩ ::
          (optionsLoop options starting len (offset + advance (options (offset + 1)))).reads⟩ := by
  rw [optionsLoop, if_pos hlt, Traced.byte, Traced.bind_mk, if_neg heol, if_neg hnop]
  simp [Traced.bind_mk, Traced.byte, Traced.load]

end OptionsHeader

/-! ## Bounds -/

/-- From an offset on there are complete options, up to an EOL or the end. -/
inductive OptionsFit (options : Memory) (stop : Nat) : Nat → Prop where
  | done {offset : Nat} (hend : stop ≤ offset) : OptionsFit options stop offset
  | eol {offset : Nat} (hlt : offset < stop) (hcode : options offset = OptionsHeader.optionEol) :
      OptionsFit options stop offset
  | nop {offset : Nat} (hlt : offset < stop) (hcode : options offset = OptionsHeader.optionNop)
      (hrest : OptionsFit options stop (offset + 1)) : OptionsFit options stop offset
  | body {offset : Nat} (heol : options offset ≠ OptionsHeader.optionEol)
      (hnop : options offset ≠ OptionsHeader.optionNop) (hlength : offset + 1 < stop)
      (hfits : offset + (options (offset + 1)).toNat ≤ stop)
      (hrest : OptionsFit options stop
        (offset + OptionsHeader.advance (options (offset + 1)))) : OptionsFit options stop offset

/-- Only bytes of the options area have been read, and an option with a body has those that
its length byte announces, all of them in the area. -/
structure StaysInside (options : Memory) (starting stop : Nat)
    (walk : Traced (List OptionEntry)) : Prop where
  reads : ∀ span ∈ walk.reads, span.Within starting stop
  bodies : ∀ entry ∈ walk.value, ∀ byte, entry.byte = some byte → byte ≠ [] →
    byte.length + 2 = (options (entry.offset + 1)).toNat ∧ starting ≤ entry.offset ∧
      entry.offset + 2 + byte.length ≤ stop

namespace OptionsHeader

variable {options : Memory} {starting len offset : Nat}

theorem within_byte_iff (hstart : starting ≤ offset) {stop : Nat} :
    Span.Within ⟨offset, 1⟩ starting stop ↔ offset < stop := by
  simp only [Span.Within]
  omega

theorem staysInside_of_fits {stop : Nat} (hfit : OptionsFit options stop offset)
    (hstop : stop = starting + len) (hstart : starting ≤ offset) :
    StaysInside options starting stop (optionsLoop options starting len offset) := by
  subst hstop
  induction hfit with
  | done hend =>
      rw [optionsLoop_end hend]
      exact ⟨by simp, by simp⟩
  | eol hlt hcode =>
      rw [optionsLoop_eol hlt hcode]
      refine ⟨by simpa [within_byte_iff hstart] using hlt, ?_⟩
      intro entry hentry byte hbyte
      rcases List.mem_cons.mp hentry with rfl | hmissing
      · cases hbyte
      · unfold missingError at hmissing
        split at hmissing
        next => simp_all
        next => simp at hmissing
  | nop hlt hcode hrest ih =>
      obtain ⟨hreads, hbodies⟩ := ih (by omega)
      rw [optionsLoop_nop hlt hcode]
      refine ⟨?_, ?_⟩
      · rintro span (_ | ⟨_, hspan⟩)
        · exact (within_byte_iff hstart).mpr hlt
        · exact hreads span hspan
      · rintro entry (_ | ⟨_, hentry⟩)
        · nofun
        · exact hbodies entry hentry
  | @body offset heol hnop hlength hfits hrest ih =>
      -- the code, the length and what is behind them
      obtain ⟨hreads, hbodies⟩ := ih (by have := advance_pos (options (offset + 1)); omega)
      rw [optionsLoop_body (by omega) heol hnop]
      refine ⟨?_, ?_⟩
      · rintro span (_ | ⟨_, _ | ⟨_, _ | ⟨_, hspan⟩⟩⟩)
        · exact (within_byte_iff hstart).mpr (by omega)
        · exact (within_byte_iff (by omega)).mpr hlength
        · simp only [Span.Within, advance]
          split <;> omega
        · exact hreads span hspan
      · rintro entry (_ | ⟨_, hentry⟩)
        · rintro byte ⟨⟩ hne
          have hpos := List.length_pos_iff.mpr hne
          simp only [Memory.length_load, advance] at hpos ⊢
          split at hpos
          next => omega
          next hlong =>
            rw [if_neg hlong]
            omega
        · exact hbodies entry hentry

/-- The loop stays inside from an offset on exactly if complete options follow there. -/
theorem optionsLoop_staysInside_iff (hstart : starting ≤ offset) :
    StaysInside options starting (starting + len) (optionsLoop options starting len offset) ↔
      OptionsFit options (starting + len) offset := by
  refine ⟨?_, fun hfit => staysInside_of_fits hfit rfl hstart⟩
  intro hinside
  replace hinside := hinside.reads
  induction hsize : starting + len - offset using Nat.strongRecOn generalizing offset with
  | ind size ih =>
      by_cases hlt : offset < starting + len
      · by_cases heol : options offset = optionEol
        · exact .eol hlt heol
        · by_cases hnop : options offset = optionNop
          · rw [optionsLoop_nop hlt hnop] at hinside
            exact .nop hlt hnop (ih _ (by omega) (by omega)
              (fun span hspan => hinside span (List.mem_cons_of_mem _ hspan)) rfl)
          · have hpos := advance_pos (options (offset + 1))
            rw [optionsLoop_body hlt heol hnop] at hinside
            simp only [List.forall_mem_cons, within_byte_iff hstart,
              within_byte_iff (show starting ≤ offset + 1 by omega)] at hinside
            obtain ⟨_, hlength, hbody, hrest⟩ := hinside
            refine .body heol hnop hlength ?_ (ih _ (by omega) (by omega) hrest rfl)
            simp only [Span.Within, advance] at hbody
            split at hbody <;> omega
      · exact .done (by omega)

/-- For every data offset, every content and every range: the options are read inside of
their area exactly if those in front of the first EOL are complete. -/
theorem getOptions_staysInside_iff (self : OptionsHeader) (offset len : Option Nat) :
    StaysInside self.options (offset.getD 0) (offset.getD 0 + len.getD self.getVariableLength)
        (self.getOptions offset len) ↔
      OptionsFit self.options (offset.getD 0 + len.getD self.getVariableLength) (offset.getD 0) :=
  optionsLoop_staysInside_iff (Nat.le_refl _)

/-- Three NOPs and the kind of an MSS option in an area of four bytes. -/
def truncatedMss : OptionsHeader := ⟨0x60, fun i => [1, 1, 1, 2].getD i 4⟩

/-- The length byte is looked for behind the area. -/
theorem truncatedMss_not_staysInside :
    ¬ StaysInside truncatedMss.options 0 (0 + truncatedMss.getVariableLength)
      (truncatedMss.getOptions none none) := by
  intro hinside
  have hread : (⟨4, 1⟩ : Span) ∈ (truncatedMss.getOptions none none).reads := by
    have hlength : truncatedMss.getVariableLength = 4 := by decide
    rw [getOptions, Option.getD_none, Option.getD_none, hlength,
      optionsLoop_nop (by decide) rfl, optionsLoop_nop (by decide) rfl,
      optionsLoop_nop (by decide) rfl, optionsLoop_body (by decide) (by decide) (by decide)]
    simp
  exact absurd (hinside.reads _ hread) (by decide)

end OptionsHeader

end Libmoon.Packet
