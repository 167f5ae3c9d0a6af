import BusDecode.Proofs.Hvsp.Framing

/-!
# The words that an instruction is read from

A frame is interpreted at the falling edge of its last position, before the levels of that position
are shifted in.  Frames of ten positions and more have their words complete by then, and the
instruction is the one of the words that the frame shows.  The last of nine positions is the one of
the last bits: such a frame shows its words whole but is interpreted from the first seven bits of
each (`decode_instructions`).  The registers follow the interpretation, not the words shown.
-/

set_option autoImplicit false

namespace BusDecode

namespace Hvsp

open Clock

/-! ## What the frames are interpreted from -/

namespace Clock

variable (es : List PinVector)

/-- The words from which a frame is interpreted, by those it shows: in nine positions the last bit
of each is missing. -/
def heard (positions : Nat) (shown : Nat × Nat) : Nat × Nat :=
  if positions = 9 then (shown.1 / 2, shown.2 / 2) else shown

/-- The words that frame `k` shows, SII first. -/
def shown (positions k : Nat) : Nat × Nat :=
  (number (input es sii (k * positions)), number (input es sdi (k * positions)))

/-- The last falling edge of frame `k`. -/
def lastFall (positions k : Nat) : Nat :=
  k * positions + positions - 1

/-- The words that are interpreted in frame `k`. -/
def heardIn (positions k : Nat) : List (Nat × Nat) :=
  if fell es (lastFall positions k) then [heard positions (shown es positions k)] else []

/-- The rows of the words and of the instructions that frame `k` fills, in the order in which they
are annotated. -/
def filled (positions k : Nat) : List Annotation :=
  let told := (heardIn es positions k).map fun w =>
    (Verdict.ofWords w.1 w.2).annotate (r es (k * positions)).time
      (f es (lastFall positions k)).time
  outputWord es (k * positions) ++
    if positions = 9 then told ++ inputWords es (k * positions)
    else inputWords es (k * positions) ++ told

end Clock

section Frames

variable (es : List PinVector) {positions : Nat} (k : Nat)

theorem operands_eq (hP : 9 ≤ positions) :
    operands es positions (k * positions) = heardIn es positions k := by
  obtain rfl | hP : positions = 9 ∨ 10 ≤ positions := by omega
  · rw [operands, carried_nine, carried_nine]
    rfl
  · have hne : ¬positions = 9 := by omega
    rw [operands, carried_of_le es hP, carried_of_le es hP, heardIn, heard, if_neg hne]
    rfl

/-- Of the edges of a frame only the last one interprets anything. -/
theorem flatMap_operandsAt (hP : 9 ≤ positions) :
    ((List.range positions).flatMap fun q =>
      operandsAt es positions (2 * (k * positions + q)) ++
        operandsAt es positions (2 * (k * positions + q) + 1)) = heardIn es positions k := by
  obtain ⟨n, rfl⟩ : ∃ n, positions = n + 1 := ⟨positions - 1, by omega⟩
  have hbefore : ∀ q < n, operandsAt es (n + 1) (2 * (k * (n + 1) + q)) ++
      operandsAt es (n + 1) (2 * (k * (n + 1) + q) + 1) = [] := by
    intro q hq
    rw [operandsAt_rise, operandsAt_fall es k (by omega), if_neg (by omega)]
    rfl
  rw [flatMap_last hbefore, operandsAt_rise, operandsAt_fall es k (by omega), if_pos rfl,
    operands_eq es k hP]
  rfl

/-- The two edges of each cycle of a frame fill its rows. -/
theorem flatMap_filled (hP : 9 ≤ positions) :
    ((List.range positions).flatMap fun q =>
      atEdge es positions (2 * (k * positions + q)) ++
        atEdge es positions (2 * (k * positions + q) + 1)) = filled es positions k := by
  obtain rfl | hP : positions = 9 ∨ 10 ≤ positions := by omega
  · have hbefore : ∀ q < 8,
        atEdge es 9 (2 * (k * 9 + q)) ++ atEdge es 9 (2 * (k * 9 + q) + 1) = [] := by
      intro q hq
      rw [atEdge_rise es k (by omega), atEdge_fall es k (by omega), if_neg (by omega),
        if_neg (by omega), if_neg (by omega)]
      rfl
    rw [flatMap_last hbefore, atEdge_rise es k (by decide), atEdge_fall es k (by decide),
      if_pos rfl, if_pos rfl, if_pos rfl, interpreted, operands_eq es k (by decide)]
    rfl
  · rw [flatMap_cycle es hP, frame, filled, if_neg (by omega), ← operands_eq es k (by omega),
      ← interpreted_of_le es hP, List.append_assoc]
    rfl

end Frames

/-! ## Runs -/

/-- The rows of a run of a fresh decoder, edge by edge. -/
theorem played_edges {positions : Nat} (hP : 3 ≤ positions) (vs : List PinVector) :
    let run := (Decoder.decode.run ({ config := ⟨positions⟩ }, vs)).play (#[] : Array Annotation)
    run.result = .ok () ∧
      inRows run.sink.toList =
        (List.range (cycles vs).length).flatMap (atEdge (cycles vs) positions) ∧
      run.state.1.context = ({} : Context).through
        ((List.range (cycles vs).length).flatMap (operandsAt (cycles vs) positions)) := by
  obtain ⟨hresult, htold, hcontext⟩ := played_told hP vs
  refine ⟨hresult, ?_, hcontext⟩
  rw [htold, inRows_flatMap_told]

/-- **What an instruction is read from.**  Of frames of at least nine positions, each fills its rows
with the words it shows and with the instruction that is read from them, in nine positions from
their first seven bits.  The registers are what these instructions have made of them. -/
theorem decode_instructions (positions : Nat) (hP : 9 ≤ positions) (vs : List PinVector) :
    let run := (Decoder.decode.run ({ config := ⟨positions⟩ }, vs)).play (#[] : Array Annotation)
    run.result = .ok () ∧
      inRows run.sink.toList =
        (List.range (cycles vs).length).flatMap (filled (cycles vs) positions) ∧
      run.state.1.context = ({} : Context).through
        ((List.range (cycles vs).length).flatMap (heardIn (cycles vs) positions)) := by
  have hpos : 0 < positions := by omega
  obtain ⟨hresult, hrows, hcontext⟩ := played_edges (by omega : 3 ≤ positions) vs
  refine ⟨hresult, hrows.trans ?_, hcontext.trans ?_⟩
  · rw [flatMap_edges _ hpos fun _ => atEdge_of_length_le _ hpos]
    exact List.flatMap_congr fun k _ => flatMap_filled _ k hP
  · rw [flatMap_edges _ hpos fun _ => operandsAt_of_length_le _]
    exact congrArg _ (List.flatMap_congr fun k _ => flatMap_operandsAt _ k hP)

/-- LOAD COMMAND with the command to write the flash, in frames of ten positions. -/
theorem decode_instructions_ten :
    9 ≤ 10 ∧
      let vs := List.zipWith PinVector.mk (List.range 21)
        [0, 1, 0, 1, 0, 3, 2, 1, 0, 5, 4, 3, 2, 3, 2, 1, 0, 1, 0, 1, 0]
      let run := (Decoder.decode.run ({ config := ⟨10⟩ }, vs)).play (#[] : Array Annotation)
      inRows run.sink.toList =
        [⟨.byte, "sdo", 1, 17, ["00"]⟩, ⟨.byte, "sii", 2, 18, ["4C"]⟩,
          ⟨.byte, "sdi", 2, 18, ["10"]⟩, ⟨.command, "instr", 1, 20, ["CMD WFLASH"]⟩] ∧
      run.state.1.context = { command := some .writeFlash } := by
  obtain ⟨_, hrows, hcontext⟩ := decode_instructions 10 (by decide)
    (List.zipWith PinVector.mk (List.range 21)
      [0, 1, 0, 1, 0, 3, 2, 1, 0, 5, 4, 3, 2, 3, 2, 1, 0, 1, 0, 1, 0])
  exact ⟨by decide, hrows.trans (by decide +kernel), hcontext.trans (by decide +kernel)⟩

/-- The same words in a frame of nine positions: they are shown, and a warning stands in place of
the instruction that they are. -/
theorem decode_instructions_nine :
    let vs := List.zipWith PinVector.mk (List.range 19)
      [0, 1, 0, 1, 0, 3, 2, 1, 0, 5, 4, 3, 2, 3, 2, 1, 0, 1, 0]
    let run := (Decoder.decode.run ({ config := ⟨9⟩ }, vs)).play (#[] : Array Annotation)
    inRows run.sink.toList =
        [⟨.byte, "sdo", 1, 17, ["00"]⟩, .warning 1 18 "Invalid WR",
          ⟨.byte, "sii", 2, 18, ["4C"]⟩, ⟨.byte, "sdi", 2, 18, ["10"]⟩] ∧
      Verdict.ofWords 0x4C 0x10 = .command "CMD WFLASH" ∧
      run.state.1.context = {} ∧
      ({} : Context).after 0x4C 0x10 = { command := some .writeFlash } := by
  intro vs run
  obtain ⟨_, hrows, hcontext⟩ := played_edges (by decide : 3 ≤ 9) vs
  exact ⟨hrows.trans (by decide +kernel), by decide +kernel, hcontext.trans (by decide +kernel),
    by decide +kernel⟩

end Hvsp

end BusDecode
