import BusDecode.Mcp23s17
import BusDecode.Proofs.Numeral
import BusDecode.Proofs.Script
import Mathlib.Data.List.Basic

/-!
# The register walk in closed form

Value `i` of a transfer belongs to register `first + i`.  `blocks` cuts the values into those that
share an annotation with the next one and those that stand alone: every value is in exactly one
block, in order (`flatten_blocks`).  The walk annotates block by block (`walk_eq`), so a list of
packets says what its packets say one after the other (`decode_packets`).
-/

set_option autoImplicit false

namespace BusDecode

namespace Mcp23s17

/-! ## The register file -/

/-- The registers as pairs, one for the A and one for the B pins under each name. -/
def ports : List String :=
  ["IODIR", "IPOL", "GPINTEN", "DEFVAL", "INTCON", "IOCON", "GPPU", "INTF", "INTCAP", "GPIO",
    "OLAT"]

/-- Number of registers. -/
def fileSize : Nat := 22

/-- Name of a register without its A or B. -/
def portName (register : Nat) : String :=
  ports[register / 2]!

/-- Name of a register; the two addresses of IOCON are one register. -/
def fullName (register : Nat) : String :=
  if portName register = "IOCON" then "IOCON"
  else portName register ++ if register % 2 = 0 then "A" else "B"

theorem registerName_eq (register : Nat) :
    registerName register = if register < fileSize then some (fullName register) else none := by
  by_cases h : register < fileSize
  · have hnames : ∀ n < fileSize, registerName n = some (fullName n) := by decide
    rw [if_pos h, hnames register h]
  · rw [if_neg h]
    exact List.getElem?_eq_none (Nat.not_lt.1 h)

theorem pairName_fullName {register : Nat} (h : register < fileSize) :
    pairName (fullName register) = portName register := by
  have hnames : ∀ n < fileSize, pairName (fullName n) = portName n := by decide
  exact hnames register h

/-! ## Blocks of values -/

/-- One or two values that share an annotation, by the number of the first. -/
inductive Block where
  | one (i : Nat)
  | two (i : Nat)
  deriving DecidableEq, Repr

namespace Block

/-- The numbers of the values in a block. -/
def values : Block → List Nat
  | one i => [i]
  | two i => [i, i + 1]

/-- The same block some values further on. -/
def shift (n : Nat) : Block → Block
  | one i => one (i + n)
  | two i => two (i + n)

theorem values_shift (n : Nat) (b : Block) : (b.shift n).values = b.values.map (· + n) := by
  cases b with
  | one i => rfl
  | two i => simp [shift, values, Nat.add_right_comm]

end Block

/-- Value `i` of `count` values shares an annotation with the next one: pairs are merged, its
register is an even one of the file, and there is a next one. -/
def Joined (mergePairs : Bool) (first count i : Nat) : Prop :=
  mergePairs = true ∧ (first + i) % 2 = 0 ∧ first + i < fileSize ∧ i + 1 < count

instance (mergePairs : Bool) (first count i : Nat) : Decidable (Joined mergePairs first count i) :=
  inferInstanceAs (Decidable (_ ∧ _))

/-- The blocks of the values of `count` consecutive registers.  A value opens one unless it is the
second of a pair. -/
def blocks (mergePairs : Bool) (first count : Nat) : List Block :=
  (List.range count).flatMap fun i =>
    if Joined mergePairs first count i then [.two i]
    else if 0 < i ∧ Joined mergePairs first count (i - 1) then []
    else [.one i]

section Blocks

variable {mergePairs : Bool} {first count : Nat}

/-- Two values joined to the next are not neighbours. -/
theorem Joined.not_succ {i : Nat} (h : Joined mergePairs first count i) :
    ¬Joined mergePairs first count (i + 1) := by
  intro h'
  have heven := h.2.1
  have heven' := h'.2.1
  omega

theorem joined_shift (n i : Nat) :
    Joined mergePairs first (count + n) (i + n) ↔ Joined mergePairs (first + n) count i := by
  have hregister : first + (i + n) = first + n + i := by omega
  simp only [Joined, hregister]
  constructor
  · intro ⟨hmerge, heven, hfile, hnext⟩
    exact ⟨hmerge, heven, hfile, by omega⟩
  · intro ⟨hmerge, heven, hfile, hnext⟩
    exact ⟨hmerge, heven, hfile, by omega⟩

/-- The blocks behind the first `n` values, none of which is joined to a later one. -/
theorem blocks_behind {n : Nat} (hn : 0 < n) (h : ¬Joined mergePairs first (count + n) (n - 1)) :
    ((List.range count).map (· + n)).flatMap (fun i =>
      if Joined mergePairs first (count + n) i then [Block.two i]
      else if 0 < i ∧ Joined mergePairs first (count + n) (i - 1) then []
      else [.one i]) = (blocks mergePairs (first + n) count).map (Block.shift n) := by
  rw [blocks, List.flatMap_map, List.map_flatMap]
  apply List.flatMap_congr
  intro i _
  have hbefore : (0 < i + n ∧ Joined mergePairs first (count + n) (i + n - 1)) ↔
      (0 < i ∧ Joined mergePairs (first + n) count (i - 1)) := by
    cases i with
    | zero => simp [h]
    | succ i =>
      have hpred : i + 1 + n - 1 = i + n := by omega
      rw [hpred, joined_shift]
      simp only [Nat.add_sub_cancel, Nat.succ_pos, true_and, and_iff_right_iff_imp]
      omega
  simp only [joined_shift, hbefore]
  split
  · rfl
  · split <;> rfl

theorem blocks_one (h : ¬Joined mergePairs first (count + 1) 0) :
    blocks mergePairs first (count + 1) =
      .one 0 :: (blocks mergePairs (first + 1) count).map (Block.shift 1) := by
  rw [← blocks_behind Nat.one_pos h, blocks, List.range_succ_eq_map, List.flatMap_cons, if_neg h,
    if_neg (by simp)]
  rfl

theorem blocks_two (h : Joined mergePairs first (count + 2) 0) :
    blocks mergePairs first (count + 2) =
      .two 0 :: (blocks mergePairs (first + 2) count).map (Block.shift 2) := by
  rw [← blocks_behind (by decide) h.not_succ, blocks, List.range_succ_eq_map, List.flatMap_cons,
    if_pos h, List.range_succ_eq_map, List.map_cons, List.flatMap_cons, if_neg h.not_succ,
    if_pos ⟨Nat.one_pos, h⟩, List.map_map]
  rfl

/-- **Every value is in exactly one block, in order.** -/
theorem flatten_blocks (mergePairs : Bool) (first count : Nat) :
    (blocks mergePairs first count).flatMap Block.values = List.range count := by
  induction count using Nat.strongRecOn generalizing first with
  | ind count ih =>
    cases count with
    | zero => rfl
    | succ count =>
      by_cases h : Joined mergePairs first (count + 1) 0
      · obtain ⟨n, rfl⟩ : ∃ n, count = n + 1 := ⟨count - 1, by have := h.2.2.2; omega⟩
        rw [blocks_two h, List.flatMap_cons, List.flatMap_map]
        simp only [Block.values_shift]
        rw [← List.map_flatMap, ih n (by omega), List.range_succ_eq_map, List.range_succ_eq_map,
          List.map_cons, List.map_map]
        rfl
      · rw [blocks_one h, List.flatMap_cons, List.flatMap_map]
        simp only [Block.values_shift]
        rw [← List.map_flatMap, ih count (by omega), List.range_succ_eq_map]
        rfl

/-- An odd register stands alone, and so does what is behind the file. -/
example : blocks true 19 4 = [.one 0, .two 1, .one 3] := by decide

end Blocks

/-! ## What a walk says -/

/-- The annotation of a block of values, the first value being that of register `first`. -/
def annotate (first : Nat) (values : List Spi.Word) : Block → Annotation
  | .one i =>
    let w := values[i]!
    if first + i < fileSize then
      .field "value" w.start w.stop s!"{fullName (first + i)}: {Numeral.hex 2 w.value.toNat}"
    else .warning w.start w.stop s!"Unknown register {Numeral.hex 2 (first + i)}"
  | .two i =>
    let low := values[i]!
    let high := values[i + 1]!
    .field "value" low.start high.stop
      s!"{portName (first + i)}: {Numeral.hex 4 (low.value.toNat + 256 * high.value.toNat)}"

/-- A block further on in a transfer is one of what is left of it. -/
theorem annotate_shift (first : Nat) (passed values : List Spi.Word) (b : Block) :
    annotate first (passed ++ values) (b.shift passed.length) =
      annotate (first + passed.length) values b := by
  have hregister : ∀ i, first + (i + passed.length) = first + passed.length + i := by omega
  have hvalue : ∀ i, (passed ++ values)[i + passed.length]! = values[i]! := by
    intro i
    rw [getElem!_def, getElem!_def, List.getElem?_append_right (by omega), Nat.add_sub_cancel]
  cases b with
  | one i => simp only [annotate, Block.shift, hregister, hvalue]
  | two i =>
    simp only [annotate, Block.shift, hregister, hvalue, Nat.add_right_comm i passed.length 1]

/-- What is said of the values of a transfer from register `first` on. -/
def told (mergePairs : Bool) (first : Nat) (values : List Spi.Word) : List Annotation :=
  (blocks mergePairs first values.length).map (annotate first values)

section Told

variable {mergePairs : Bool} {first : Nat} {low high w : Spi.Word} {rest : List Spi.Word}

theorem told_one (h : ¬Joined mergePairs first (rest.length + 1) 0) :
    told mergePairs first (w :: rest) =
      annotate first (w :: rest) (.one 0) :: told mergePairs (first + 1) rest := by
  rw [told, List.length_cons, blocks_one h, List.map_cons, List.map_map]
  congr 1
  apply List.map_congr_left
  intro b _
  exact annotate_shift first [w] rest b

theorem told_two (h : Joined mergePairs first (rest.length + 2) 0) :
    told mergePairs first (low :: high :: rest) =
      annotate first (low :: high :: rest) (.two 0) :: told mergePairs (first + 2) rest := by
  rw [told, List.length_cons, List.length_cons, blocks_two h, List.map_cons, List.map_map]
  congr 1
  apply List.map_congr_left
  intro b _
  exact annotate_shift first [low, high] rest b

theorem unknown_eq (h : registerName first = none) :
    unknown first w = annotate first (w :: rest) (.one 0) := by
  have hfile : ¬first < fileSize := by
    intro hfile
    simp [registerName_eq, hfile] at h
  simp [annotate, hfile, unknown]

theorem single_eq {name : String} (h : registerName first = some name) :
    single name w = annotate first (w :: rest) (.one 0) := by
  rw [registerName_eq] at h
  split at h
  · rename_i hfile
    obtain rfl : fullName first = name := Option.some.inj h
    simp [annotate, hfile, single, Numeral.hexByte]
  · cases h

theorem pair_eq {name : String} (h : registerName first = some name) :
    pair name low high = annotate first (low :: high :: rest) (.two 0) := by
  rw [registerName_eq] at h
  split at h
  · rename_i hfile
    obtain rfl : fullName first = name := Option.some.inj h
    simp [annotate, pair, pairName_fullName hfile, Numeral.hexWord, Numeral.word_toNat]
  · cases h

/-- The walk annotates block by block, after what is done. -/
theorem walkFrom_eq (mergePairs : Bool) (first : Nat) (values : List Spi.Word)
    (done : List Annotation) :
    walkFrom mergePairs first values done = done.reverse ++ told mergePairs first values := by
  fun_induction walkFrom mergePairs first values done with
  | case1 first done => simp [told, blocks]
  | case2 first done w hname =>
    rw [told_one (by simp [Joined]), ← unknown_eq hname]
    simp [told, blocks]
  | case3 first done w name hname =>
    rw [told_one (by simp [Joined]), ← single_eq hname]
    simp [told, blocks]
  | case4 first done low high rest hname ih =>
    have hapart : ¬Joined mergePairs first ((high :: rest).length + 1) 0 := by
      intro h
      have hfile : first < fileSize := h.2.2.1
      simp [registerName_eq, hfile] at hname
    rw [ih, told_one hapart, ← unknown_eq hname]
    simp
  | case5 first done low high rest name hname hmerge ih =>
    have hfile : first < fileSize := by
      by_contra hfile
      simp [registerName_eq, hfile] at hname
    have hjoined : Joined mergePairs first (rest.length + 2) 0 :=
      ⟨hmerge.1, hmerge.2, hfile, by omega⟩
    rw [ih, told_two hjoined, ← pair_eq hname]
    simp
  | case6 first done low high rest name hname hmerge ih =>
    have hapart : ¬Joined mergePairs first ((high :: rest).length + 1) 0 :=
      fun h => hmerge ⟨h.1, h.2.1⟩
    rw [ih, told_one hapart, ← single_eq hname]
    simp

end Told

/-! ## Packets -/

/-- Whether the lowest bit of a select byte asks for reading. -/
def Reads (select : Spi.Word) : Prop :=
  select.value.toNat % 2 = 1

instance (select : Spi.Word) : Decidable (Reads select) :=
  inferInstanceAs (Decidable (_ = _))

def selectField (select : Spi.Word) : Annotation :=
  let purpose := if Reads select then "read" else "write"
  .field "select" select.start select.stop
    s!"Select {Numeral.hex 2 (select.value.toNat / 2)} for {purpose}"

def addressField (address : Spi.Word) : Annotation :=
  .field "addr" address.start address.stop s!"Address {Numeral.hex 2 address.value.toNat}"

/-- What is said of a packet: the select byte, the register address behind it, and the values on the
line that is read or written, without its first two positions. -/
def said (mergePairs : Bool) : Spi.Packet → List Annotation
  | .transfer [select] _ => [selectField select]
  | .transfer (select :: address :: written) miso =>
    selectField select :: addressField address ::
      told mergePairs address.value.toNat (if Reads select then miso.drop 2 else written)
  | _ => []

theorem isRead_eq (select : Spi.Word) : isRead select = decide (Reads select) := by
  rw [isRead, decide_eq_decide, ← UInt8.toNat_inj, UInt8.toNat_and]
  change select.value.toNat &&& 2 ^ 1 - 1 = 1 ↔ _
  rw [Nat.and_two_pow_sub_one_eq_mod]
  rfl

theorem direction_eq (select : Spi.Word) :
    direction select = if Reads select then "read" else "write" := by
  simp [direction, isRead_eq]

theorem valuesOf_eq (select address : Spi.Word) (written miso : List Spi.Word) :
    valuesOf select (select :: address :: written) miso =
      if Reads select then miso.drop 2 else written := by
  by_cases h : Reads select <;> simp [valuesOf, isRead_eq, h]

namespace Decoder

variable {d : Decoder}

theorem answers_putSelect (select : Spi.Word) :
    Script.Answers (putSelect select) d fun _ d' xs => d' = d ∧ xs = [selectField select] := by
  have hdevice : (select.value >>> 1).toNat = select.value.toNat / 2 := by
    rw [UInt8.toNat_shiftRight]
    exact Nat.shiftRight_eq_div_pow _ 1
  refine .emit ⟨rfl, ?_⟩
  rw [selectField, direction_eq, Numeral.hexByte, hdevice]

theorem answers_emitAll (items : List Annotation) :
    Script.Answers (Script.emitAll items : Handling Unit) d fun _ d' xs => d' = d ∧ xs = items :=
  ⟨rfl, Trace.filterMap_emitted items d⟩

/-- A packet leaves the decoder as it was and adds what is said of it. -/
theorem answers_feed (p : Spi.Packet) :
    Script.Answers (feed p) d fun _ d' xs => d' = d ∧ xs = said d.config.mergePairs p := by
  match p with
  | .data _ _ => exact .answer ⟨rfl, rfl⟩
  | .chipSelect _ _ _ => exact .answer ⟨rfl, rfl⟩
  | .transfer [] _ => exact .answer ⟨rfl, rfl⟩
  | .transfer [select] _ => exact answers_putSelect select
  | .transfer (select :: address :: written) miso =>
    refine .bind ((answers_putSelect select).mono ?_)
    intro _ d₁ xs ⟨hd, hxs⟩
    subst hd hxs
    refine .bind (.emit (.bind (.note (.bind (.read ?_)))))
    refine (answers_emitAll _).mono ?_
    intro _ _ _ ⟨hd, hxs⟩
    refine ⟨hd, ?_⟩
    rw [hxs, walk, walkFrom_eq, valuesOf_eq]
    rfl

theorem answers_drain (packets : List Spi.Packet) :
    Script.Answers (Script.drain feed) (d, packets) fun _ _ xs =>
      xs = packets.flatMap (said d.config.mergePairs) := by
  induction packets with
  | nil => exact .drain_nil rfl
  | cons p packets ih =>
    refine .drain_cons ((answers_feed p).mono ?_)
    intro _ _ _ ⟨hd, hxs⟩
    rw [hd]
    apply ih.mono
    intro _ _ _ hys
    rw [hxs, hys, List.flatMap_cons]

end Decoder

/-- **The register walk in closed form.**  Decoding any list of packets into an array ends well, and
the array holds what is said of the packets one after the other; in every walk each value is in
exactly one block. -/
theorem decode_packets (d : Decoder) (packets : List Spi.Packet) :
    let run := (Decoder.decode.run (d, packets)).play (#[] : Array Annotation)
    run.result = .ok () ∧
      run.sink.toList = packets.flatMap (said d.config.mergePairs) ∧
      ∀ first count,
        (blocks d.config.mergePairs first count).flatMap Block.values = List.range count := by
  obtain ⟨_, s, xs, events, hplayed, hxs⟩ :=
    (Decoder.answers_drain (d := d) packets).played (#[] : Array Annotation)
  intro run
  have hrun : run = ⟨.ok (), s, #[] ++ xs.toArray, events⟩ := hplayed
  rw [hrun]
  refine ⟨rfl, ?_, flatten_blocks d.config.mergePairs⟩
  simpa using hxs

end Mcp23s17

end BusDecode
