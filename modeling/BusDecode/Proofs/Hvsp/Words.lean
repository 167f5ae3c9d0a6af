import BusDecode.Proofs.Hvsp.Frames
import Mathlib.Algebra.Group.Nat.Defs
import Mathlib.Data.List.Induction
import Mathlib.Data.Nat.Bitwise

/-!
# Words shifted in and read

A word built by shifting levels into it is the number those levels spell, as long as there are no
more than eight (`word_toNat`), and interpreting two words says what the instruction table says of
their numbers (`ofResult_interpret`).
-/

set_option autoImplicit false

namespace BusDecode

namespace Hvsp

open Clock

/-! ## Shifting -/

theorem shiftIn_toNat (w : UInt8) (b : Bool) :
    (Bits.shiftIn w b).toNat = (2 * w.toNat + b.toNat) % 256 := by
  have hbit : b.toUInt8.toNat = b.toNat := by cases b <;> rfl
  have hrest : (w <<< 1).toNat = 2 ^ 1 * (w.toNat % 128) := by
    have := w.toNat_lt
    rw [UInt8.toNat_shiftLeft]
    change w.toNat <<< 1 % 2 ^ 8 = _
    rw [Nat.shiftLeft_eq]
    omega
  have hlt : b.toNat < 2 ^ 1 := b.toNat_lt
  rw [Bits.shiftIn, UInt8.toNat_or, hbit, hrest, ← Nat.two_pow_add_eq_or_of_lt hlt]
  omega

/-- The byte that levels shift up to, the first one first. -/
def word (bits : List Bool) : UInt8 :=
  bits.foldl Bits.shiftIn 0

theorem word_append (bits : List Bool) (b : Bool) :
    word (bits ++ [b]) = Bits.shiftIn (word bits) b := by
  simp [word]

theorem number_append (bits : List Bool) (b : Bool) :
    number (bits ++ [b]) = 2 * number bits + b.toNat := by
  simp [number]

theorem number_lt (bits : List Bool) : number bits < 2 ^ bits.length := by
  induction bits using List.reverseRecOn with
  | nil => decide
  | append_singleton bits b ih =>
    have hb : b.toNat ≤ 1 := b.toNat_le
    rw [number_append, List.length_append, List.length_singleton, Nat.pow_succ]
    omega

/-- Up to eight levels, nothing is shifted out. -/
theorem word_toNat {bits : List Bool} (h : bits.length ≤ 8) : (word bits).toNat = number bits := by
  induction bits using List.reverseRecOn with
  | nil => rfl
  | append_singleton bits b ih =>
    have hlt : number (bits ++ [b]) < 2 ^ 8 :=
      Nat.lt_of_lt_of_le (number_lt _) (Nat.pow_le_pow_right (by decide) h)
    rw [List.length_append, List.length_singleton] at h
    rw [number_append] at hlt ⊢
    rw [word_append, shiftIn_toNat, ih (by omega)]
    exact Nat.mod_eq_of_lt hlt

/-- One position of a frame: the first data bit starts the word anew, the others are shifted in,
and past them the word stays. -/
theorem word_position (level : Nat → Bool) (w : UInt8) (q : Nat)
    (h : 1 ≤ q → w = word ((List.range (min q 8)).map level)) :
    (if isDataBit (q + 1) then Bits.shiftIn (if q + 1 = 1 then 0 else w) (level q) else w) =
      word ((List.range (min (q + 1) 8)).map level) := by
  rcases (by omega : q = 0 ∨ 1 ≤ q ∧ q < 8 ∨ 8 ≤ q) with rfl | ⟨h1, h8⟩ | h8
  · rfl
  · have hbit : isDataBit (q + 1) = true := by
      simp only [isDataBit, Bool.and_eq_true, decide_eq_true_eq]
      omega
    rw [if_pos hbit, if_neg (by omega), h h1, Nat.min_eq_left (by omega),
      Nat.min_eq_left (by omega), List.range_succ, List.map_append, List.map_singleton,
      word_append]
  · have hbit : ¬isDataBit (q + 1) = true := by
      simp only [isDataBit, Bool.and_eq_true, decide_eq_true_eq]
      omega
    rw [if_neg hbit, h (by omega), Nat.min_eq_right h8, Nat.min_eq_right (by omega)]

/-! ## Instructions -/

/-- Masking out bit `k` leaves nothing iff the bit is clear. -/
theorem and_eq_zero_iff (w mask : UInt8) (k : Nat) (hmask : mask.toNat = 2 ^ k) :
    w &&& mask = 0 ↔ w.toNat / 2 ^ k % 2 = 0 := by
  rw [← UInt8.toNat_inj, UInt8.toNat_and, hmask, Nat.and_two_pow, ← Nat.toNat_testBit]
  cases w.toNat.testBit k <;> simp

theorem ofWord_eq (w : UInt8) :
    Controls.ofWord w =
      { xa := w.toNat / 32 % 4
        bs := w.toNat / 16 % 2 + 2 * (w.toNat / 2 % 2)
        wr := w.toNat / 8 % 2 = 0
        oe := w.toNat / 4 % 2 = 0
        pagel := w.toNat % 2 = 1 } := by
  have hxa : ((w >>> 5) &&& 3).toNat = w.toNat / 32 % 4 := by
    rw [UInt8.toNat_and, UInt8.toNat_shiftRight]
    exact (Nat.and_two_pow_sub_one_eq_mod _ 2).trans
      (congrArg (· % 4) (Nat.shiftRight_eq_div_pow _ 5))
  have hbs : (((w &&& 0x10) >>> 4) ||| (w &&& 0x02)).toNat =
      w.toNat / 16 % 2 + 2 * (w.toNat / 2 % 2) := by
    have hlow := Nat.toNat_testBit w.toNat 4
    have hhigh := Nat.toNat_testBit w.toNat 1
    rw [UInt8.toNat_or, UInt8.toNat_shiftRight, UInt8.toNat_and, UInt8.toNat_and]
    change (w.toNat &&& 2 ^ 4) >>> 4 ||| (w.toNat &&& 2 ^ 1) = _
    rw [Nat.and_two_pow, Nat.and_two_pow, ← hlow, ← hhigh]
    cases w.toNat.testBit 4 <;> cases w.toNat.testBit 1 <;> rfl
  have hpagel : decide (w &&& 0x01 ≠ 0) = decide (w.toNat % 2 = 1) := by
    rw [decide_eq_decide, ne_eq, and_eq_zero_iff w 0x01 0 rfl]
    omega
  simp only [Controls.ofWord, hxa, hbs, hpagel, and_eq_zero_iff w 0x08 3 rfl,
    and_eq_zero_iff w 0x04 2 rfl]
  rfl

/-- A command byte selects what the table of names says. -/
theorem lookup_commandNames (w : UInt8) :
    Verdict.commandNames.lookup w.toNat = (Command.ofCode w).map Command.mnemonic := by
  have h : ∀ n < 256, Verdict.commandNames.lookup n =
      (Command.ofCode (UInt8.ofNat n)).map Command.mnemonic := by
    decide +kernel
  simpa using h w.toNat w.toNat_lt

/-- The rules for the strobes in the order in which they are checked. -/
theorem strobeFault_eq (c : Controls) :
    c.strobeFault =
      if c.xa ≠ 3 ∧ c.wr then some "WR"
      else if c.xa ≠ 3 ∧ c.oe then some "OE"
      else if c.xa ≠ 3 ∧ c.pagel then some "PAGEL"
      else if c.wr ∧ c.oe then some "WR+OE"
      else if c.wr ∧ c.pagel then some "WR+PAGEL"
      else if c.oe ∧ c.pagel then some "OE+PAGEL"
      else none := by
  rcases c with ⟨xa, bs, _ | _, _ | _, _ | _⟩ <;> simp [Controls.strobeFault]

/-- The verdict on the result of interpreting an instruction. -/
def Verdict.ofResult : Except Fault Operation → Verdict
  | .ok operation => .command operation.text
  | .error fault => .warning fault.message

/-- Interpreting two words gives the verdict of the table on their numbers. -/
theorem ofResult_interpret (instruction operand : UInt8) :
    Verdict.ofResult (Operation.interpret instruction operand) =
      Verdict.ofWords instruction.toNat operand.toNat := by
  have hxa : instruction.toNat / 32 % 4 < 4 := Nat.mod_lt _ (by decide)
  simp only [Operation.interpret, ofWord_eq, strobeFault_eq, Verdict.ofWords, decide_eq_true_eq]
  generalize instruction.toNat / 32 % 4 = xa at hxa ⊢
  generalize instruction.toNat / 16 % 2 + 2 * (instruction.toNat / 2 % 2) = bs
  generalize instruction.toNat / 8 % 2 = wr
  generalize instruction.toNat / 4 % 2 = oe
  generalize instruction.toNat % 2 = pagel
  by_cases h : xa ≠ 3 ∧ wr = 0
  · rw [if_pos h, if_pos h]
    rfl
  rw [if_neg h, if_neg h]
  by_cases h : xa ≠ 3 ∧ oe = 0
  · rw [if_pos h, if_pos h]
    rfl
  rw [if_neg h, if_neg h]
  by_cases h : xa ≠ 3 ∧ pagel = 1
  · rw [if_pos h, if_pos h]
    rfl
  rw [if_neg h, if_neg h]
  by_cases h : wr = 0 ∧ oe = 0
  · rw [if_pos h, if_pos h]
    rfl
  rw [if_neg h, if_neg h]
  by_cases h : wr = 0 ∧ pagel = 1
  · rw [if_pos h, if_pos h]
    rfl
  rw [if_neg h, if_neg h]
  by_cases h : oe = 0 ∧ pagel = 1
  · rw [if_pos h, if_pos h]
    rfl
  rw [if_neg h, if_neg h]
  rcases (by omega : xa = 0 ∨ xa = 1 ∨ xa = 2 ∨ xa = 3) with rfl | rfl | rfl | rfl
  · rcases bs with _ | _ | bs <;> rfl
  · rcases bs with _ | _ | bs <;> rfl
  · rcases bs with _ | bs
    · simp only [Verdict.loadCommand, lookup_commandNames]
      cases Command.ofCode operand <;> rfl
    · rfl
  · rfl

end Hvsp

end BusDecode
