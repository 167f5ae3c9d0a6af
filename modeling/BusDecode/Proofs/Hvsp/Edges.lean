import BusDecode.Proofs.Hvsp.Words
import BusDecode.Proofs.Script

/-!
# Clock edges

What the decoder does at one edge of the clock: the fields it leaves behind (`risen`, `fallen`) and
what it annotates (`riseItems`, `fallItems`).  Bits are annotated in rows of their own; the others
are those of the words and of the instructions (`inRows`).
-/

set_option autoImplicit false

namespace BusDecode

namespace Hvsp

open Clock

/-- The annotations in the rows of the words and of the instructions. -/
def inRows (xs : List Annotation) : List Annotation :=
  xs.filter fun a => a.row ∈ rows

@[simp] theorem inRows_nil : inRows [] = [] := rfl

@[simp] theorem inRows_append (xs ys : List Annotation) :
    inRows (xs ++ ys) = inRows xs ++ inRows ys :=
  List.filter_append ..

theorem inRows_annotate (verdict : Verdict) (start stop : Nat) :
    inRows [verdict.annotate start stop] = [verdict.annotate start stop] := by
  cases verdict <;> rfl

/-- The registers after an instruction, whether it makes sense or not. -/
def Context.after (c : Context) (instruction operand : UInt8) : Context :=
  match Operation.interpret instruction operand with
  | .ok operation => c.apply operation
  | .error fault => c.applyFault fault

/-- The registers after a list of instructions, each an instruction word and its operand. -/
def Context.through (c : Context) (ws : List (Nat × Nat)) : Context :=
  ws.foldl (fun c w => c.after (UInt8.ofNat w.1) (UInt8.ofNat w.2)) c

theorem Context.through_append (c : Context) (ws ws' : List (Nat × Nat)) :
    c.through (ws ++ ws') = (c.through ws).through ws' :=
  List.foldl_append ..

namespace Decoder

variable {ε : Type} {d : Decoder} {v : PinVector} {n : Nat}

/-- The decoder after a rising edge that opens position `n`. -/
def risen (d : Decoder) (v : PinVector) (n : Nat) : Decoder :=
  { d with
    siiLevel := v.pin sii
    sdiLevel := v.pin sdi
    riseTime := some v.time
    frameStart := if n = 0 then v.time else d.frameStart
    outputStart := if n = 1 then d.riseTime.getD v.time else d.outputStart
    sdoWord :=
      if isDataBit n then Bits.shiftIn (if n = 1 then 0 else d.sdoWord) d.sdoLevel
      else d.sdoWord }

/-- The decoder after the levels of SII and SDI are taken in position `n`. -/
def taken (d : Decoder) (start n : Nat) : Decoder :=
  { d with
    inputStart := if n = 1 then start else d.inputStart
    siiWord :=
      if isDataBit n then Bits.shiftIn (if n = 1 then 0 else d.siiWord) d.siiLevel
      else d.siiWord
    sdiWord :=
      if isDataBit n then Bits.shiftIn (if n = 1 then 0 else d.sdiWord) d.sdiLevel
      else d.sdiWord }

/-- The decoder after a falling edge in position `n`, apart from what instructions change. -/
def fallen (d : Decoder) (v : PinVector) (n : Nat) : Decoder :=
  taken { d with sdoLevel := v.pin sdo, fallTime := some v.time } (d.fallTime.getD v.time) n

/-- The registers past a falling edge in position `n`: the last one of a frame interprets it. -/
def contextPast (d : Decoder) (n : Nat) : Context :=
  if n + 1 = d.config.framePositions then d.context.after d.siiWord d.sdiWord else d.context

/-- What a rising edge annotates that opens position `n`, from the decoder before it and the one
after it: in a data position a bit of SDO, and in position 8 the word with it. -/
def riseItems (d d' : Decoder) (v : PinVector) (n : Nat) : List Annotation :=
  if isDataBit n then
    ⟨.bit, "sdo-bits", d.riseTime.getD v.time, v.time, [digit d.sdoLevel]⟩ ::
      if n = 8 then [⟨.byte, "sdo", d'.outputStart, v.time, [Numeral.hexByte d'.sdoWord]⟩]
      else []
  else []

theorem answers_rise :
    Script.Answers (rise v n : Handling ε Unit) d fun _ d' xs =>
      d' = risen d v n ∧ xs = riseItems d d' v n := by
  unfold rise
  refine .bind (.read (.bind (.modify (.onlyIf ?_ ?_))))
  · intro hn
    unfold outputBit putBit
    refine .bind (.emit (.bind (.modify (.bind (.modify (.onlyIf ?_ ?_))))))
    · rintro rfl
      exact .bind (.note (.emit ⟨rfl, rfl⟩))
    · intro h8
      refine ⟨?_, ?_⟩
      · simp only [risen, hn, if_true]
        split <;> rfl
      · rw [riseItems, if_pos hn, if_neg h8]
        rfl
  · intro hn
    have h1 : n ≠ 1 := by
      rintro rfl
      exact hn rfl
    refine ⟨?_, ?_⟩
    · simp [risen, hn, h1]
    · rw [riseItems, if_neg hn]
      rfl

/-- Interpreting a frame annotates the verdict on its words and moves the registers on. -/
theorem answers_interpretFrame (start stop : Nat) :
    Script.Answers (interpretFrame start stop : Handling ε Unit) d fun _ d' xs =>
      (∃ count, d' = { d with
        context := d.context.after d.siiWord d.sdiWord
        instructions := count }) ∧
        xs = [(Verdict.ofWords d.siiWord.toNat d.sdiWord.toNat).annotate start stop] := by
  unfold interpretFrame Context.after
  rw [← ofResult_interpret]
  refine .bind (.modify (.bind (.read ?_)))
  dsimp only
  cases Operation.interpret d.siiWord d.sdiWord with
  | ok operation =>
    refine .bind (.modify (.bind (.note (.emit ?_))))
    exact ⟨⟨_, rfl⟩, rfl⟩
  | error fault =>
    have htell : ∀ (d : Decoder), Script.Answers (tellFault fault : Handling ε Unit) d
        fun _ d' xs => d' = d ∧ xs = [] := by
      intro d
      cases fault with
      | strobes names => exact .note ⟨rfl, rfl⟩
      | unknownCommand code => exact .note ⟨rfl, rfl⟩
      | _ => exact .answer ⟨rfl, rfl⟩
    refine .bind ((htell _).mono ?_)
    rintro _ _ _ ⟨rfl, rfl⟩
    refine .bind (.modify (.emit ?_))
    exact ⟨⟨_, rfl⟩, rfl⟩

/-- Taking a bit annotates its control line, the bit of SDI, and with the last bit both words. -/
theorem answers_inputBits (start stop : Nat) :
    Script.Answers (inputBits n start stop : Handling ε Unit) d fun _ d' xs =>
      d' = { d with
        inputStart := if n = 1 then start else d.inputStart
        siiWord := Bits.shiftIn (if n = 1 then 0 else d.siiWord) d.siiLevel
        sdiWord := Bits.shiftIn (if n = 1 then 0 else d.sdiWord) d.sdiLevel } ∧
      xs =
        ((controlLine? n).toList.map fun line =>
          ⟨.bit, "sii-bits", start, stop, [line.text d.siiLevel]⟩) ++
        ⟨.bit, "sdi-bits", start, stop, [digit d.sdiLevel]⟩ ::
          if n = 8 then
            [⟨.byte, "sii", d'.inputStart, stop, [Numeral.hexByte d'.siiWord]⟩,
              ⟨.byte, "sdi", d'.inputStart, stop, [Numeral.hexByte d'.sdiWord]⟩]
          else [] := by
  have hcontrol : Script.Answers (putControl n start stop : Handling ε Unit) d
      fun _ d' xs => d' = d ∧ xs = (controlLine? n).toList.map fun line =>
        ⟨.bit, "sii-bits", start, stop, [line.text d.siiLevel]⟩ := by
    unfold putControl
    cases controlLine? n with
    | some line => exact .emit ⟨rfl, rfl⟩
    | none => exact .answer ⟨rfl, rfl⟩
  unfold inputBits
  refine .bind (hcontrol.mono ?_)
  rintro _ _ xs ⟨rfl, rfl⟩
  refine .bind (.emit (.bind (.modify (.bind (.modify (.onlyIf ?_ ?_))))))
  · rintro rfl
    exact .bind (.note (.bind (.emit (.emit ⟨rfl, rfl⟩))))
  · intro h8
    refine ⟨?_, ?_⟩
    · split <;> rfl
    · rw [if_neg h8]
      rfl

/-- What a falling edge at `now` annotates in position `n`, from the decoder before it and the one
after it: the instruction in the last position, and in a data position what `answers_inputBits`
says.  The instruction goes by the words before the bit of this position is shifted in. -/
def fallItems (d d' : Decoder) (start now n : Nat) : List Annotation :=
  (if n + 1 = d.config.framePositions then
    [(Verdict.ofWords d.siiWord.toNat d.sdiWord.toNat).annotate d.frameStart now]
  else []) ++
  if isDataBit n then
    ((controlLine? n).toList.map fun line =>
      ⟨.bit, "sii-bits", start, now, [line.text d.siiLevel]⟩) ++
    ⟨.bit, "sdi-bits", start, now, [digit d.sdiLevel]⟩ ::
      if n = 8 then
        [⟨.byte, "sii", d'.inputStart, now, [Numeral.hexByte d'.siiWord]⟩,
          ⟨.byte, "sdi", d'.inputStart, now, [Numeral.hexByte d'.sdiWord]⟩]
      else []
  else []

theorem answers_fallAt (now start : Nat) :
    Script.Answers (fallAt now start n : Handling ε Unit) d fun _ d' xs =>
      (∃ count, d' = { taken d start n with
        context := d.contextPast n
        instructions := count }) ∧ xs = fallItems d d' start now n := by
  have hinterpret : Script.Answers
      (Script.onlyIf (d.isLast n) (interpretFrame d.frameStart now) : Handling ε Unit) d
      fun _ d' xs => (∃ count, d' = { d with
        context := d.contextPast n
        instructions := count }) ∧
        xs = if n + 1 = d.config.framePositions then
          [(Verdict.ofWords d.siiWord.toNat d.sdiWord.toNat).annotate d.frameStart now]
        else [] := by
    refine .onlyIf ?_ ?_
    · intro h
      have hend : n + 1 = d.config.framePositions := of_decide_eq_true h
      refine (answers_interpretFrame _ _).mono ?_
      rintro _ _ xs ⟨⟨count, rfl⟩, rfl⟩
      exact ⟨⟨count, by rw [contextPast, if_pos hend]⟩, by rw [if_pos hend]⟩
    · intro h
      have hend : ¬n + 1 = d.config.framePositions := fun h' => h (decide_eq_true h')
      exact ⟨⟨d.instructions, by rw [contextPast, if_neg hend]⟩, by rw [if_neg hend]⟩
  unfold fallAt
  refine .bind (.read (.bind (hinterpret.mono ?_)))
  rintro _ _ xs ⟨⟨count, rfl⟩, rfl⟩
  refine .onlyIf ?_ ?_
  · intro hbit
    refine (answers_inputBits _ _).mono ?_
    rintro _ d' xs ⟨rfl, rfl⟩
    refine ⟨⟨count, by simp [taken, hbit]⟩, ?_⟩
    rw [fallItems, if_pos hbit, List.nil_append]
  · intro hbit
    have h1 : n ≠ 1 := by
      rintro rfl
      exact hbit rfl
    refine ⟨⟨count, by simp [taken, hbit, h1]⟩, ?_⟩
    rw [fallItems, if_neg hbit, List.nil_append]

theorem answers_fall (hn : d.position = some n) :
    Script.Answers (fall v : Handling ε Unit) d fun _ d' xs =>
      (∃ count, d' = { fallen d v n with
        context := d.contextPast n
        instructions := count }) ∧ xs = fallItems d d' (d.fallTime.getD v.time) v.time n := by
  unfold fall
  refine .bind (.read (.bind (.modify (.bind (.read ?_)))))
  split
  · rename_i h
    rw [hn] at h
    cases h
  · rename_i m h
    obtain rfl : n = m := Option.some.inj (hn.symm.trans h)
    exact answers_fallAt v.time _

/-- Before the first rising edge there is no position that a falling edge could end. -/
theorem answers_fall_before (hd : d.position = none) :
    Script.Answers (fall v : Handling ε Unit) d fun _ d' xs =>
      d' = { d with sdoLevel := v.pin sdo, fallTime := some v.time } ∧ xs = [] := by
  unfold fall
  refine .bind (.read (.bind (.modify (.bind (.read ?_)))))
  dsimp only
  rw [hd]
  exact .answer ⟨rfl, rfl⟩

end Decoder

end Hvsp

end BusDecode
