import BusDecode.Proofs.Hvsp.Cycles
import Mathlib.Data.List.Basic

/-!
# Framing of the programming clock

Whatever pin vectors come in, the rows of the words and of the instructions hold what the frames of
the clock cycles hold, in order and nothing else.  `InFrame` says what the decoder knows in the
middle of a frame, in terms of the clock edges alone; each edge keeps it (`answers_clockEdge`) and
annotates what belongs to that edge (`told`).  Of a whole run the rows of the words and of the
instructions so are those of all edges, which are those of the frames (`flatMap_atEdge`).
-/

set_option autoImplicit false

namespace BusDecode

namespace Hvsp

open Clock

/-! ## Words so far -/

section Words

variable (es : List PinVector)

/-- The first `n` levels of SII or SDI in the frame that begins at a cycle. -/
def inputs (line first n : Nat) : List Bool :=
  (List.range n).map fun i => (r es (first + 1 + i)).pin line

/-- The first `n` levels of SDO in the frame that begins at a cycle. -/
def outputs (first n : Nat) : List Bool :=
  (List.range n).map fun i => (f es (first + i)).pin sdo

theorem word_inputs_toNat (line first : Nat) :
    (word (inputs es line first 8)).toNat = number (input es line first) :=
  word_toNat (by simp [inputs])

theorem word_outputs_toNat (first : Nat) :
    (word (outputs es first 8)).toNat = number (output es first) :=
  word_toNat (by simp [outputs])

/-- The number that SII or SDI has spelled by the time that the last position of a frame falls.
The level of that position itself is not in it. -/
def carried (positions line first : Nat) : Nat :=
  number (inputs es line first (min (positions - 2) 8))

theorem word_inputs_carried (positions line first : Nat) :
    (word (inputs es line first (min (positions - 2) 8))).toNat = carried es positions line first := by
  refine word_toNat ?_
  rw [inputs, List.length_map, List.length_range]
  exact Nat.min_le_right _ _

theorem carried_of_le {positions : Nat} (hP : 10 ≤ positions) (line first : Nat) :
    carried es positions line first = number (input es line first) := by
  rw [carried, Nat.min_eq_right (by omega)]
  rfl

/-- The last of nine positions carries the last bit, which so is missing. -/
theorem carried_nine (line first : Nat) :
    carried es 9 line first = number (input es line first) / 2 := by
  have hbit := Bool.toNat_le ((r es (first + 1 + 7)).pin line)
  have hlast : input es line first =
      inputs es line first 7 ++ [(r es (first + 1 + 7)).pin line] := by
    simp only [input, inputs, List.range_succ (n := 7), List.map_append, List.map_singleton]
  rw [hlast, number_append, carried]
  change number (inputs es line first 7) = _
  omega

/-- The two words from which the frame that begins at a cycle is interpreted, once its last position
has fallen. -/
def operands (positions first : Nat) : List (Nat × Nat) :=
  if fell es (first + positions - 1) then
    [(carried es positions sii first, carried es positions sdi first)]
  else []

/-- The annotation of the instruction in the frame that begins at a cycle. -/
def interpreted (positions first : Nat) : List Annotation :=
  (operands es positions first).map fun w =>
    (Verdict.ofWords w.1 w.2).annotate (r es first).time (f es (first + positions - 1)).time

theorem interpreted_of_le {positions : Nat} (hP : 10 ≤ positions) (first : Nat) :
    interpreted es positions first = instruction es positions first := by
  rw [interpreted, operands, instruction, carried_of_le es hP, carried_of_le es hP]
  split <;> rfl

end Words

/-! ## What the decoder knows -/

/-- The decoder in the frame that begins at cycle `first`, once `q + 1` of its rising and `falls` of
its falling edges are taken. -/
structure InFrame (es : List PinVector) (positions first q falls : Nat) (d : Decoder) : Prop where
  config : d.config.framePositions = positions
  position : d.position = some q
  riseTime : d.riseTime = some (r es (first + q)).time
  frameStart : d.frameStart = (r es first).time
  siiLevel : d.siiLevel = (r es (first + q)).pin sii
  sdiLevel : d.sdiLevel = (r es (first + q)).pin sdi
  fallTime : ∀ i, falls = i + 1 → d.fallTime = some (f es (first + i)).time
  sdoLevel : ∀ i, falls = i + 1 → d.sdoLevel = (f es (first + i)).pin sdo
  outputStart : 1 ≤ q → d.outputStart = (r es first).time
  sdoWord : 1 ≤ q → d.sdoWord = word (outputs es first (min q 8))
  inputStart : 2 ≤ falls → d.inputStart = (f es first).time
  siiWord : 2 ≤ falls → d.siiWord = word (inputs es sii first (min (falls - 1) 8))
  sdiWord : 2 ≤ falls → d.sdiWord = word (inputs es sdi first (min (falls - 1) 8))

namespace InFrame

variable {es : List PinVector} {positions first q falls : Nat} {d : Decoder}

theorem opened (hc : d.config.framePositions = positions) :
    InFrame es positions first 0 0
      (Decoder.risen { d with position := some 0 } (r es first) 0) where
  config := hc
  position := rfl
  riseTime := rfl
  frameStart := rfl
  siiLevel := rfl
  sdiLevel := rfl
  fallTime := by simp
  sdoLevel := by simp
  outputStart := by simp
  sdoWord := by simp
  inputStart := by simp
  siiWord := by simp
  sdiWord := by simp

theorem risen (h : InFrame es positions first q (q + 1) d) :
    InFrame es positions first (q + 1) (q + 1)
      (Decoder.risen { d with position := some (q + 1) } (r es (first + (q + 1))) (q + 1)) where
  config := h.config
  position := rfl
  riseTime := rfl
  frameStart := h.frameStart
  siiLevel := rfl
  sdiLevel := rfl
  fallTime := h.fallTime
  sdoLevel := h.sdoLevel
  outputStart := by
    intro _
    by_cases hq : q = 0
    · subst hq
      simp [Decoder.risen, h.riseTime]
    · simpa [Decoder.risen, hq] using h.outputStart (by omega)
  sdoWord := by
    intro _
    have hlevel : d.sdoLevel = (f es (first + q)).pin sdo := h.sdoLevel q rfl
    simp only [Decoder.risen, hlevel]
    exact word_position (fun i => (f es (first + i)).pin sdo) d.sdoWord q h.sdoWord
  inputStart := h.inputStart
  siiWord := h.siiWord
  sdiWord := h.sdiWord

/-- A falling edge ends the position that the rising edge before it opened. -/
theorem fallen (h : InFrame es positions first q q d) (context : Context) (count : Nat) :
    InFrame es positions first q (q + 1)
      { Decoder.fallen d (f es (first + q)) q with context := context, instructions := count } where
  config := h.config
  position := h.position
  riseTime := h.riseTime
  frameStart := h.frameStart
  siiLevel := h.siiLevel
  sdiLevel := h.sdiLevel
  fallTime := by
    intro i hi
    cases hi
    rfl
  sdoLevel := by
    intro i hi
    cases hi
    rfl
  outputStart := h.outputStart
  sdoWord := h.sdoWord
  inputStart := by
    intro hq
    obtain rfl | h2 : q = 1 ∨ 2 ≤ q := by omega
    · simp [Decoder.fallen, Decoder.taken, h.fallTime 0 rfl]
    · have h1 : ¬q = 1 := by omega
      simpa [Decoder.fallen, Decoder.taken, h1] using h.inputStart h2
  siiWord := by
    intro hq
    obtain ⟨p, rfl⟩ : ∃ p, q = p + 1 := ⟨q - 1, by omega⟩
    have hlevel : d.siiLevel = (r es (first + 1 + p)).pin sii := by
      rw [h.siiLevel, Nat.add_right_comm first 1 p]
      rfl
    simp only [Decoder.fallen, Decoder.taken, hlevel]
    exact word_position (fun i => (r es (first + 1 + i)).pin sii) d.siiWord p
      fun hp => h.siiWord (by omega)
  sdiWord := by
    intro hq
    obtain ⟨p, rfl⟩ : ∃ p, q = p + 1 := ⟨q - 1, by omega⟩
    have hlevel : d.sdiLevel = (r es (first + 1 + p)).pin sdi := by
      rw [h.sdiLevel, Nat.add_right_comm first 1 p]
      rfl
    simp only [Decoder.fallen, Decoder.taken, hlevel]
    exact word_position (fun i => (r es (first + 1 + i)).pin sdi) d.sdiWord p
      fun hp => h.sdiWord (by omega)

end InFrame

/-! ## One edge -/

/-- The decoder after `m` edges from the first rising one on, the last of them to `level`. -/
inductive Progress (es : List PinVector) (positions : Nat) : Nat → Bool → Decoder → Prop
  | high {k q : Nat} {d : Decoder} (hq : q < positions)
      (h : InFrame es positions (k * positions) q q d) :
      Progress es positions (2 * (k * positions + q) + 1) true d
  | low {k q : Nat} {d : Decoder} (hq : q < positions)
      (h : InFrame es positions (k * positions) q (q + 1) d) :
      Progress es positions (2 * (k * positions + q) + 2) false d

/-- What the edge of number `m` annotates. -/
def told (es : List PinVector) (positions m : Nat) : List Annotation :=
  let first := m / 2 / positions * positions
  let q := m / 2 % positions
  if m % 2 = 0 then
    if isDataBit q then sdoBit es first (q - 1) :: if q = 8 then outputWord es first else []
    else []
  else
    (if q + 1 = positions then interpreted es positions first else []) ++
      if isDataBit q then
        siiBit es first (q - 1) ++ sdiBit es first (q - 1) ::
          if q = 8 then inputWords es first else []
      else []

/-- What the edge of number `m` adds to the rows of the words and of the instructions. -/
def atEdge (es : List PinVector) (positions m : Nat) : List Annotation :=
  let first := m / 2 / positions * positions
  let q := m / 2 % positions
  if m % 2 = 0 then if q = 8 then outputWord es first else []
  else (if q + 1 = positions then interpreted es positions first else []) ++
    if q = 8 then inputWords es first else []

/-- The words that are interpreted at the edge of number `m`. -/
def operandsAt (es : List PinVector) (positions m : Nat) : List (Nat × Nat) :=
  if m % 2 = 1 ∧ m / 2 % positions + 1 = positions then
    operands es positions (m / 2 / positions * positions)
  else []

section AtEdge

variable (es : List PinVector) {positions q : Nat} (k : Nat) (hq : q < positions)

include hq in
theorem cycle_div : (k * positions + q) / positions = k := by
  rw [Nat.mul_comm, Nat.mul_add_div (by omega), Nat.div_eq_of_lt hq, Nat.add_zero]

include hq in
theorem cycle_mod : (k * positions + q) % positions = q := by
  rw [Nat.mul_comm, Nat.mul_add_mod, Nat.mod_eq_of_lt hq]

theorem fall_half (j : Nat) : (2 * j + 1) / 2 = j := by
  omega

include hq in
theorem told_rise :
    told es positions (2 * (k * positions + q)) =
      if isDataBit q then
        sdoBit es (k * positions) (q - 1) ::
          if q = 8 then outputWord es (k * positions) else []
      else [] := by
  simp [told, cycle_div k hq, cycle_mod k hq]

include hq in
theorem told_fall :
    told es positions (2 * (k * positions + q) + 1) =
      (if q + 1 = positions then interpreted es positions (k * positions) else []) ++
        if isDataBit q then
          siiBit es (k * positions) (q - 1) ++ sdiBit es (k * positions) (q - 1) ::
            if q = 8 then inputWords es (k * positions) else []
        else [] := by
  simp [told, fall_half, cycle_div k hq, cycle_mod k hq]

include hq in
theorem atEdge_rise :
    atEdge es positions (2 * (k * positions + q)) =
      if q = 8 then outputWord es (k * positions) else [] := by
  simp [atEdge, cycle_div k hq, cycle_mod k hq]

include hq in
theorem atEdge_fall :
    atEdge es positions (2 * (k * positions + q) + 1) =
      (if q + 1 = positions then interpreted es positions (k * positions) else []) ++
        if q = 8 then inputWords es (k * positions) else [] := by
  simp [atEdge, fall_half, cycle_div k hq, cycle_mod k hq]

@[simp] theorem operandsAt_rise (j : Nat) : operandsAt es positions (2 * j) = [] := by
  simp [operandsAt]

include hq in
theorem operandsAt_fall :
    operandsAt es positions (2 * (k * positions + q) + 1) =
      if q + 1 = positions then operands es positions (k * positions) else [] := by
  simp [operandsAt, fall_half, cycle_div k hq, cycle_mod k hq]

/-- The bits have rows of their own. -/
theorem inRows_siiBit (first i : Nat) : inRows (siiBit es first i) = [] := by
  unfold siiBit
  cases controlLine? (i + 1) <;> rfl

theorem inRows_outputWord (first : Nat) :
    inRows (outputWord es first) = outputWord es first := by
  unfold outputWord
  split <;> rfl

theorem inRows_inputWords (first : Nat) :
    inRows (inputWords es first) = inputWords es first := by
  unfold inputWords
  split <;> rfl

theorem inRows_interpreted (first : Nat) :
    inRows (interpreted es positions first) = interpreted es positions first := by
  unfold interpreted operands
  split
  · exact inRows_annotate _ _ _
  · rfl

theorem inRows_told (m : Nat) : inRows (told es positions m) = atEdge es positions m := by
  unfold told atEdge
  dsimp only
  generalize m / 2 % positions = q
  have hpast : ¬isDataBit q = true → ¬q = 8 := by
    rintro hbit rfl
    exact hbit rfl
  have hlater : ∀ a : Annotation, a.row ∉ rows → ∀ xs, inRows (a :: xs) = inRows xs :=
    fun a ha xs => List.filter_cons_of_neg (by simpa using ha)
  split
  · split
    · rw [hlater _ (show "sdo-bits" ∉ rows by decide)]
      split
      · exact inRows_outputWord es _
      · rfl
    · rename_i hbit
      rw [if_neg (hpast hbit)]
      rfl
  · rw [inRows_append]
    congr 1
    · split
      · exact inRows_interpreted es _
      · rfl
    · split
      · rw [inRows_append, inRows_siiBit, hlater _ (show "sdi-bits" ∉ rows by decide),
          List.nil_append]
        split
        · exact inRows_inputWords es _
        · rfl
      · rename_i hbit
        rw [if_neg (hpast hbit)]
        rfl

end AtEdge

namespace Decoder

variable {ε : Type} {es : List PinVector} {positions m q : Nat} {d : Decoder} {v : PinVector}

/-- A rising edge past the first one of a frame annotates what belongs to its number. -/
theorem answers_rise_position {k : Nat} (hq : q + 1 < positions)
    (hlen : 2 * (k * positions + (q + 1)) < es.length)
    (h : InFrame es positions (k * positions) q (q + 1) d) :
    Script.Answers (rise (r es (k * positions + (q + 1))) (q + 1) : Handling ε Unit)
      { d with position := some (q + 1) } fun _ d' xs =>
        d' = risen { d with position := some (q + 1) } (r es (k * positions + (q + 1))) (q + 1) ∧
          xs = told es positions (2 * (k * positions + (q + 1))) := by
  refine answers_rise.mono ?_
  rintro _ _ xs ⟨rfl, rfl⟩
  refine ⟨rfl, ?_⟩
  have h' := h.risen
  rw [told_rise es k hq, riseItems]
  congr 2
  · simp only [h.riseTime, h.sdoLevel q rfl]
    rfl
  · by_cases h8 : q + 1 = 8
    · obtain rfl : q = 7 := by omega
      have hrose : rose es (k * positions + 8) = true := decide_eq_true hlen
      rw [if_pos rfl, if_pos rfl, outputWord, if_pos hrose, h'.outputStart (by decide),
        h'.sdoWord (by decide), Numeral.hexByte]
      simp only [Nat.min_self, Nat.reduceAdd, word_outputs_toNat]
      rfl
    · rw [if_neg h8, if_neg h8]

/-- A falling edge annotates what belongs to its number and interprets the words of its number. -/
theorem answers_fall_position {k : Nat} (hP : 3 ≤ positions) (hq : q < positions)
    (hlen : 2 * (k * positions + q) + 1 < es.length)
    (h : InFrame es positions (k * positions) q q d) :
    Script.Answers (fall (f es (k * positions + q)) : Handling ε Unit) d fun _ d' xs =>
      (∃ count, d' = { fallen d (f es (k * positions + q)) q with
        context := d.context.through (operandsAt es positions (2 * (k * positions + q) + 1))
        instructions := count }) ∧
      xs = told es positions (2 * (k * positions + q) + 1) := by
  refine (answers_fall h.position).mono ?_
  rintro _ _ xs ⟨⟨count, rfl⟩, rfl⟩
  have h' := h.fallen (d.contextPast q) count
  have hwords : ∀ line, q + 1 = positions →
      (word (inputs es line (k * positions) (min (q - 1) 8))).toNat =
        carried es positions line (k * positions) := by
    rintro line rfl
    exact word_inputs_carried es (q + 1) line _
  have hfell : q + 1 = positions → fell es (k * positions + positions - 1) = true := by
    intro hend
    apply decide_eq_true
    omega
  refine ⟨⟨count, ?_⟩, ?_⟩
  · rw [operandsAt_fall es k hq, contextPast, h.config]
    by_cases hend : q + 1 = positions
    · rw [if_pos hend, if_pos hend, operands, if_pos (hfell hend), ← hwords _ hend,
        ← hwords _ hend, ← h.siiWord (by omega), ← h.sdiWord (by omega)]
      simp [Context.through]
    · rw [if_neg hend, if_neg hend]
      rfl
  · rw [told_fall es k hq, fallItems, h.config]
    congr 1
    · by_cases hend : q + 1 = positions
      · have hlast : k * positions + positions - 1 = k * positions + q := by omega
        rw [if_pos hend, if_pos hend, interpreted, operands, if_pos (hfell hend), h.frameStart,
          h.siiWord (by omega), h.sdiWord (by omega), hwords _ hend, hwords _ hend, hlast]
        rfl
      · rw [if_neg hend, if_neg hend]
    · by_cases hbit : isDataBit q = true
      · obtain ⟨p, rfl⟩ : ∃ p, q = p + 1 := by
          refine ⟨q - 1, ?_⟩
          simp only [isDataBit, Bool.and_eq_true, decide_eq_true_eq] at hbit
          omega
        have hshift : k * positions + 1 + p = k * positions + (p + 1) := by omega
        rw [if_pos hbit, if_pos hbit, h.fallTime p rfl, h.siiLevel, h.sdiLevel, siiBit, sdiBit,
          Nat.add_sub_cancel, hshift]
        congr 2
        by_cases h8 : p + 1 = 8
        · obtain rfl : p = 7 := by omega
          have hfell : fell es (k * positions + 8) = true := decide_eq_true hlen
          rw [if_pos rfl, if_pos rfl, inputWords, if_pos hfell, h'.inputStart (by decide),
            h'.siiWord (by decide), h'.sdiWord (by decide), Numeral.hexByte, Numeral.hexByte]
          simp only [Nat.reduceAdd, Nat.reduceSub, Nat.min_self, word_inputs_toNat]
          rfl
        · rw [if_neg h8, if_neg h8]
      · rw [if_neg hbit, if_neg hbit]

/-- A rising edge that leaves no position in the frame opens the next one. -/
theorem answers_clockEdge_opening {k : Nat} (hP : 0 < positions)
    (hc : d.config.framePositions = positions) (hnext : nextPosition d = 0)
    (hv : es[2 * (k * positions)]! = v) (hlevel : v.pin sci = true) :
    Script.Answers (clockEdge v : Handling ε Unit) d fun _ d' xs =>
      Progress es positions (2 * (k * positions) + 1) true d' ∧
        d'.context = d.context.through (operandsAt es positions (2 * (k * positions))) ∧
        xs = told es positions (2 * (k * positions)) := by
  unfold clockEdge
  rw [if_pos hlevel]
  refine .bind (.read (.bind (.modify ?_)))
  obtain rfl : r es (k * positions) = v := hv
  rw [hnext]
  refine answers_rise.mono ?_
  rintro _ _ xs ⟨rfl, rfl⟩
  exact ⟨.high hP (InFrame.opened hc), by rw [operandsAt_rise]; rfl,
    (told_rise es k hP).symm⟩

/-- **One edge** brings the decoder one edge further, interprets the words of that edge and annotates
what belongs to it. -/
theorem answers_clockEdge {level : Bool} (hP : 3 ≤ positions)
    (h : Progress es positions m level d) (hlen : m < es.length) (hv : es[m]! = v)
    (hlevel : v.pin sci = !level) :
    Script.Answers (clockEdge v : Handling ε Unit) d fun _ d' xs =>
      Progress es positions (m + 1) (!level) d' ∧
        d'.context = d.context.through (operandsAt es positions m) ∧
        xs = told es positions m := by
  cases h with
  | @high k q d hq h =>
    unfold clockEdge
    obtain rfl : f es (k * positions + q) = v := hv
    rw [hlevel]
    refine (answers_fall_position hP hq hlen h).mono ?_
    rintro _ _ xs ⟨⟨count, rfl⟩, hxs⟩
    exact ⟨.low hq (h.fallen _ count), rfl, hxs⟩
  | @low k q d hq h =>
    by_cases hnext : q + 1 < positions
    · have hposition : nextPosition d = q + 1 := by
        simp [nextPosition, h.position, h.config, hnext]
      have hm : 2 * (k * positions + q) + 2 = 2 * (k * positions + (q + 1)) := by omega
      rw [hm] at hv hlen ⊢
      unfold clockEdge
      rw [hlevel]
      refine .bind (.read (.bind (.modify ?_)))
      obtain rfl : r es (k * positions + (q + 1)) = v := hv
      rw [hposition]
      refine (answers_rise_position hnext hlen h).mono ?_
      rintro _ _ xs ⟨rfl, hxs⟩
      exact ⟨.high hnext h.risen, by rw [operandsAt_rise]; rfl, hxs⟩
    · have hposition : nextPosition d = 0 := by
        simp [nextPosition, h.position, h.config, hnext]
      have hm : 2 * (k * positions + q) + 2 = 2 * ((k + 1) * positions) := by
        have : (k + 1) * positions = k * positions + positions := Nat.succ_mul _ _
        omega
      rw [hm] at hv hlen ⊢
      exact answers_clockEdge_opening (by omega) h.config hposition hv hlevel

theorem answers_clockEdge_first (hP : 3 ≤ positions) (hc : d.config.framePositions = positions)
    (hd : d.position = none) (hv : es[0]! = v) (hlevel : v.pin sci = true) :
    Script.Answers (clockEdge v : Handling ε Unit) d fun _ d' xs =>
      Progress es positions 1 true d' ∧
        d'.context = d.context.through (operandsAt es positions 0) ∧
        xs = told es positions 0 := by
  have hposition : nextPosition d = 0 := by simp [nextPosition, hd]
  have hzero : 2 * (0 * positions) = 0 := by omega
  rw [← hzero] at hv
  have h := answers_clockEdge_opening (ε := ε) (by omega) hc hposition hv hlevel
  rwa [hzero] at h

end Decoder

/-! ## Runs -/

section Runs

variable {es : List PinVector} {positions m : Nat} {d : Decoder} {u : PinVector}

theorem Progress.saw {level : Bool} (h : Progress es positions m level d) (v : PinVector) :
    Progress es positions m level (d.saw v) := by
  cases h with
  | high hq h => exact .high hq { h with }
  | low hq h => exact .low hq { h with }

theorem inRows_flatMap_told (es : List PinVector) (n : Nat) :
    inRows ((List.range n).flatMap (told es positions)) =
      (List.range n).flatMap (atEdge es positions) := by
  rw [inRows, List.filter_flatMap]
  exact List.flatMap_congr fun j _ => inRows_told es j

/-- After `m` edges everything that belongs to them is annotated, and the instructions interpreted at
them have made the registers. -/
structure Framed (es : List PinVector) (positions : Nat) (start : Context) (m : Nat) (level : Bool)
    (d : Decoder) (xs : List Annotation) : Prop where
  progress : Progress es positions m level d
  context : d.context = start.through ((List.range m).flatMap (operandsAt es positions))
  told : xs = (List.range m).flatMap (told es positions)

/-- The rows of the words and of the instructions hold what the edges add to them. -/
theorem Framed.rows {start : Context} {level : Bool} {xs : List Annotation}
    (h : Framed es positions start m level d xs) :
    inRows xs = (List.range m).flatMap (atEdge es positions) := by
  rw [h.told, inRows_flatMap_told]

theorem kept_framed (hP : 3 ≤ positions) (hd : d.position = none)
    (hc : d.config.framePositions = positions) :
    Kept es d (Framed es positions d.context) where
  saw v h := { h with progress := h.progress.saw v }
  first := by
    intro d' v h _ hv hlevel
    have hconfig : d'.config.framePositions = positions := by rw [h]; exact hc
    have hcontext : d'.context = d.context := by rw [h]
    refine (Decoder.answers_clockEdge_first hP hconfig (h.position.trans hd) hv hlevel).mono ?_
    rintro _ _ xs ⟨h', hcontext', hxs⟩
    exact ⟨h', by simpa [hcontext] using hcontext', by simpa using hxs⟩
  next := by
    intro m level d' xs v h hlen hv hlevel
    refine (Decoder.answers_clockEdge hP h.progress hlen hv hlevel).mono ?_
    rintro _ _ ys ⟨h', hcontext', hys⟩
    refine ⟨h', ?_, ?_⟩
    · rw [hcontext', h.context, List.range_succ, List.flatMap_append, Context.through_append,
        List.flatMap_singleton]
    · rw [h.told, hys, List.range_succ, List.flatMap_append, List.flatMap_singleton]

/-- A run of a fresh decoder, edge by edge. -/
theorem played_told (hP : 3 ≤ positions) (vs : List PinVector) :
    let run := (Decoder.decode.run ({ config := ⟨positions⟩ }, vs)).play (#[] : Array Annotation)
    run.result = .ok () ∧
      run.sink.toList = (List.range (cycles vs).length).flatMap (told (cycles vs) positions) ∧
      run.state.1.context = ({} : Context).through
        ((List.range (cycles vs).length).flatMap (operandsAt (cycles vs) positions)) := by
  have hframed : Kept (cycles vs) ({ config := ⟨positions⟩ } : Decoder)
      (Framed (cycles vs) positions {}) :=
    kept_framed hP rfl rfl
  obtain ⟨_, s, xs, events, hplayed, h⟩ :=
    (hframed.drain rfl rfl rfl).played (#[] : Array Annotation)
  intro run
  have hrun : run = ⟨.ok (), s, #[] ++ xs.toArray, events⟩ := hplayed
  rw [hrun]
  obtain ⟨hnone, hs, rfl⟩ | ⟨level, h⟩ := h
  · rw [hnone]
    refine ⟨rfl, rfl, ?_⟩
    rw [hs]
    rfl
  · exact ⟨rfl, by simpa using h.told, h.context⟩

/-- Before the first rising edge a run adds nothing. -/
theorem answers_drain_before (hP : 10 ≤ positions) (vs : List PinVector)
    (hd : d.position = none) (hc : d.config.framePositions = positions)
    (hpins : d.pins = some u.pins) (hclock : d.clock = some (u.pin sci))
    (hes : es = (edges (u :: vs)).dropWhile fun v => !v.pin sci) :
    Script.Answers (Script.drain Decoder.feed) (d, vs) fun _ _ xs =>
      inRows xs = (List.range es.length).flatMap (atEdge es positions) := by
  refine ((kept_framed (by omega) hd hc).drain_before hd vs (.refl d) hpins
    hclock hes).mono ?_
  rintro _ _ _ (⟨rfl, -, rfl⟩ | ⟨_, h⟩)
  · rfl
  · exact h.rows

end Runs

/-! ## Edges and frames -/

section Frames

variable (es : List PinVector) {positions : Nat}

theorem atEdge_of_length_le (hP : 0 < positions) {m : Nat} (hm : es.length ≤ m) :
    atEdge es positions m = [] := by
  have hdiv : m / 2 = m / 2 / positions * positions + m / 2 % positions := by
    rw [Nat.mul_comm, Nat.div_add_mod]
  have hq : m / 2 % positions < positions := Nat.mod_lt _ hP
  unfold atEdge
  dsimp only
  generalize m / 2 / positions * positions = first at hdiv ⊢
  generalize m / 2 % positions = q at hdiv hq ⊢
  have hrose : q = 8 → m % 2 = 0 → outputWord es first = [] := by
    intro h8 heven
    exact if_neg (by rw [rose, decide_eq_true_eq]; omega)
  have hfell : q = 8 → m % 2 = 1 → inputWords es first = [] := by
    intro h8 hodd
    exact if_neg (by rw [fell, decide_eq_true_eq]; omega)
  have hlast : q + 1 = positions → m % 2 = 1 → interpreted es positions first = [] := by
    intro hend hodd
    rw [interpreted, operands, if_neg (by rw [fell, decide_eq_true_eq]; omega)]
    rfl
  rcases Nat.mod_two_eq_zero_or_one m with hpar | hpar
  · simp +contextual [hpar, hrose]
  · simp +contextual [hpar, hfell, hlast]

theorem operandsAt_of_length_le {m : Nat} (hm : es.length ≤ m) :
    operandsAt es positions m = [] := by
  have hdiv : m / 2 = m / 2 / positions * positions + m / 2 % positions := by
    rw [Nat.mul_comm, Nat.div_add_mod]
  unfold operandsAt
  refine ite_eq_right_iff.2 fun ⟨hodd, hend⟩ => ?_
  rw [operands, if_neg]
  rw [fell, decide_eq_true_eq]
  omega

theorem flatMap_pairs {α : Type} (g : Nat → List α) (first n : Nat) :
    ((List.range (2 * n)).map (2 * first + ·)).flatMap g =
      (List.range n).flatMap fun q => g (2 * (first + q)) ++ g (2 * (first + q) + 1) := by
  induction n with
  | zero => rfl
  | succ n ih =>
    have hrise : 2 * first + 2 * n = 2 * (first + n) := by omega
    have hfall : 2 * first + (2 * n + 1) = 2 * (first + n) + 1 := by omega
    rw [(by omega : 2 * (n + 1) = 2 * n + 1 + 1), List.range_succ, List.range_succ,
      List.map_append, List.map_append, List.flatMap_append, List.flatMap_append, ih,
      List.range_succ, List.flatMap_append]
    simp [hrise, hfall]

/-- A sum over the edges of a run goes by frames, as long as nothing comes past the last edge. -/
theorem flatMap_edges {α : Type} {g : Nat → List α} (hP : 0 < positions)
    (hpast : ∀ m, es.length ≤ m → g m = []) :
    (List.range es.length).flatMap g =
      (List.range es.length).flatMap fun k => (List.range positions).flatMap fun q =>
        g (2 * (k * positions + q)) ++ g (2 * (k * positions + q) + 1) := by
  have hbeyond : ∀ n, (List.range (es.length + n)).flatMap g =
      (List.range es.length).flatMap g := by
    intro n
    rw [List.range_add, List.flatMap_append, List.append_right_eq_self, List.flatMap_eq_nil_iff]
    intro m hm
    obtain ⟨i, _, rfl⟩ := List.mem_map.1 hm
    exact hpast _ (Nat.le_add_right _ _)
  have hframes : ∀ n, (List.range (2 * (n * positions))).flatMap g =
      (List.range n).flatMap fun k => (List.range positions).flatMap fun q =>
        g (2 * (k * positions + q)) ++ g (2 * (k * positions + q) + 1) := by
    intro n
    induction n with
    | zero => simp
    | succ n ih =>
      have hnext : 2 * ((n + 1) * positions) = 2 * (n * positions) + 2 * positions := by
        rw [Nat.add_mul, Nat.mul_add, Nat.one_mul]
      rw [hnext, List.range_add, List.flatMap_append, ih, flatMap_pairs, List.range_succ,
        List.flatMap_append, List.flatMap_singleton]
  have hle : es.length ≤ 2 * (es.length * positions) := by
    have := Nat.le_mul_of_pos_right es.length hP
    omega
  rw [← hframes, ← hbeyond (2 * (es.length * positions) - es.length), Nat.add_sub_cancel' hle]

/-- A sum over positions of which only the last one counts. -/
theorem flatMap_last {α : Type} {g : Nat → List α} {n : Nat} (h : ∀ q < n, g q = []) :
    (List.range (n + 1)).flatMap g = g n := by
  have hbefore : (List.range n).flatMap g = [] :=
    List.flatMap_eq_nil_iff.2 fun q hq => h q (List.mem_range.1 hq)
  rw [List.range_succ, List.flatMap_append, hbefore, List.flatMap_singleton, List.nil_append]

/-- A sum over the positions of a frame in which only position 8 and the last one count. -/
theorem flatMap_positions {α : Type} (n : Nat) (a b : List α) :
    ((List.range (8 + 1 + n + 1)).flatMap fun q =>
      if q = 8 then a else if q = 8 + 1 + n then b else []) = a ++ b := by
  have hbefore : ∀ q < 8, (if q = 8 then a else if q = 8 + 1 + n then b else []) = [] := by
    intro q hq
    rw [if_neg (by omega), if_neg (by omega)]
  have hbetween : (((List.range n).map (8 + 1 + ·)).flatMap fun q =>
      if q = 8 then a else if q = 8 + 1 + n then b else []) = [] := by
    rw [List.flatMap_eq_nil_iff]
    intro q hq
    obtain ⟨i, hi, rfl⟩ := List.mem_map.1 hq
    rw [List.mem_range] at hi
    rw [if_neg (by omega), if_neg (by omega)]
  have hlast : ¬8 + 1 + n = 8 := by omega
  rw [List.range_succ, List.flatMap_append, List.range_add, List.flatMap_append, hbetween,
    flatMap_last hbefore]
  simp only [List.flatMap_singleton, if_neg hlast, if_true, List.append_nil]

/-- The two edges of each cycle of a frame add the rows of the frame. -/
theorem flatMap_cycle (hP : 10 ≤ positions) (k : Nat) :
    ((List.range positions).flatMap fun q =>
      atEdge es positions (2 * (k * positions + q)) ++
        atEdge es positions (2 * (k * positions + q) + 1)) = frame es positions k := by
  obtain ⟨n, hn⟩ : ∃ n, positions = 8 + 1 + n + 1 := ⟨positions - 10, by omega⟩
  have hcycle : ∀ q ∈ List.range positions,
      atEdge es positions (2 * (k * positions + q)) ++
        atEdge es positions (2 * (k * positions + q) + 1) =
      if q = 8 then outputWord es (k * positions) ++ inputWords es (k * positions)
      else if q = 8 + 1 + n then instruction es positions (k * positions) else [] := by
    intro q hq
    rw [atEdge_rise es k (List.mem_range.1 hq), atEdge_fall es k (List.mem_range.1 hq)]
    by_cases h8 : q = 8
    · rw [if_pos h8, if_pos h8, if_pos h8, if_neg (by omega), List.nil_append]
    · rw [if_neg h8, if_neg h8, if_neg h8, List.nil_append, List.append_nil]
      exact if_congr (by omega) (interpreted_of_le es hP _) rfl
  rw [List.flatMap_congr hcycle]
  subst hn
  exact flatMap_positions n _ _

/-- **The rows of all edges are those of the frames.** -/
theorem flatMap_atEdge (hP : 10 ≤ positions) :
    (List.range es.length).flatMap (atEdge es positions) =
      (List.range es.length).flatMap (frame es positions) := by
  have hpos : 0 < positions := by omega
  rw [flatMap_edges es hpos fun _ => atEdge_of_length_le es hpos]
  exact List.flatMap_congr fun k _ => flatMap_cycle es hP k

end Frames

/-- **Framing.**  Draining any list of pin vectors into an array ends well, and the rows of the
words and of the instructions are exactly those of the frames of its clock cycles. -/
theorem decode_frames (positions : Nat) (hP : 10 ≤ positions) (vs : List PinVector) :
    let run := (Decoder.decode.run ({ config := ⟨positions⟩ }, vs)).play (#[] : Array Annotation)
    run.result = .ok () ∧
      inRows run.sink.toList =
        (List.range (cycles vs).length).flatMap (frame (cycles vs) positions) := by
  have hrun : Script.Answers (Script.drain Decoder.feed)
      (({ config := ⟨positions⟩ } : Decoder), vs) fun _ _ xs =>
        inRows xs = (List.range (cycles vs).length).flatMap (frame (cycles vs) positions) := by
    rw [← flatMap_atEdge (cycles vs) hP]
    cases vs with
    | nil => exact .drain_nil rfl
    | cons v vs =>
      refine .drain_cons ((Decoder.answers_feed_still (by simp) (by simp)).mono ?_)
      rintro _ _ _ ⟨rfl, rfl⟩
      exact answers_drain_before hP vs rfl rfl rfl rfl rfl
  obtain ⟨_, d, effects, hrun, hrows⟩ := hrun.run
  intro run
  have hplayed : run = ⟨.ok (), d, #[] ++ (effects.filterMap Effect.item?).toArray,
      effects.filterMap Effect.event?⟩ := by
    change (Trace.play _ _) = _
    rw [Trace.play_array, Decoder.decode, hrun]
    rfl
  rw [hplayed]
  exact ⟨rfl, by simpa using hrows⟩

theorem decode_frames_eleven :
    10 ≤ 11 ∧
      let vs := List.zipWith PinVector.mk (List.range 23)
        [0, 1, 0, 1, 0, 3, 2, 1, 0, 5, 4, 3, 2, 3, 2, 1, 0, 1, 0, 1, 0, 1, 0]
      let run := (Decoder.decode.run ({ config := ⟨11⟩ }, vs)).play (#[] : Array Annotation)
      inRows run.sink.toList =
        [⟨.byte, "sdo", 1, 17, ["00"]⟩, ⟨.byte, "sii", 2, 18, ["4C"]⟩,
          ⟨.byte, "sdi", 2, 18, ["10"]⟩, ⟨.command, "instr", 1, 22, ["CMD WFLASH"]⟩] :=
  ⟨by decide, (decode_frames 11 (by decide) _).2.trans (by decide +kernel)⟩

end Hvsp

end BusDecode
