import BusDecode.Proofs.Hvsp.Framing
import Mathlib.Data.List.DropRight

/-!
# Bits and their bytes

A byte is annotated when its last bit is, and from then on nothing says any more which bits it came
from.  The annotations themselves do: the last eight bits of its row, up to the byte, fill its range
without a gap and spell its value, and of the control lines shown next to them each stands under one
of these bits (`decode_tiles`).

What the edges of a frame put into a row of bits is one bit for each data position (`bits_before`),
so in front of a byte there are seven from the positions before it and one from its own edge.
-/

set_option autoImplicit false

namespace BusDecode

namespace Hvsp

open Clock

/-! ## Annotations that belong together -/

/-- The last `n` annotations in a row. -/
def lastOf (n : Nat) (row : String) (xs : List Annotation) : List Annotation :=
  (xs.filter fun a => a.row = row).rtake n

/-- The annotations follow one another from one point to another, without a gap or an overlap. -/
def Tiles (start stop : Nat) : List Annotation → Prop
  | [] => start = stop
  | a :: rest => a.start = start ∧ Tiles a.stop stop rest

/-- Eight bits fill the range of a byte and spell its value, most significant first. -/
structure Spelled (bits : List Annotation) (byte : Annotation) : Prop where
  tiles : Tiles byte.start byte.stop bits
  digits : ∃ levels : List Bool, levels.length = 8 ∧
    bits.map Annotation.texts = levels.map (fun level => [if level then "1" else "0"]) ∧
    byte.texts = [Numeral.hex 2 (number levels)]

/-- The control lines of an instruction word from bit 6 down, and the levels that assert them. -/
def asserting : List (String × Bool) :=
  [("XA1", true), ("XA0", true), ("BS1", true), ("WR", false), ("OE", false), ("BS2", true),
    ("PAGEL", true)]

/-- The names of control lines, or blanks for them, stand under all bits but the first one and show
what is asserted in a byte. -/
structure Labelled (bits names : List Annotation) (byte : Annotation) : Prop where
  ranges : names.map (fun a => (a.start, a.stop)) = bits.tail.map fun a => (a.start, a.stop)
  shown : ∃ value < 256, byte.texts = [Numeral.hex 2 value] ∧
    names.map Annotation.texts = asserting.zipIdx.map fun line =>
      [if value.testBit (6 - line.2) = line.1.2 then line.1.1 else " "]

theorem tiles_range {g : Nat → Annotation} (time : Nat → Nat) (n : Nat)
    (h : ∀ i, (g i).start = time i ∧ (g i).stop = time (i + 1)) :
    Tiles (time 0) (time n) ((List.range n).map g) := by
  suffices hfrom : ∀ first, Tiles (time first) (time (first + n))
      ((List.range n).map fun i => g (first + i)) by
    simpa using hfrom 0
  induction n with
  | zero => exact fun first => rfl
  | succ n ih =>
    intro first
    rw [List.range_succ_eq_map, List.map_cons, List.map_map]
    refine ⟨(h first).1, ?_⟩
    have hrest := ih (first + 1)
    rw [Nat.add_zero, (h first).2]
    simpa only [Function.comp_def, Nat.succ_eq_add_one, Nat.add_assoc, Nat.add_comm 1] using hrest

/-- The bits of a number are the levels that spell it. -/
theorem number_testBit (bits : List Bool) {i : Nat} (hi : i < bits.length) :
    (number bits).testBit (bits.length - 1 - i) = bits[i] := by
  induction bits using List.reverseRecOn with
  | nil => simp at hi
  | append_singleton bits b ih =>
    have hb : b.toNat < 2 := b.toNat_lt
    rw [number_append]
    by_cases h : i < bits.length
    · have hexp : (bits ++ [b]).length - 1 - i = bits.length - 1 - i + 1 := by
        rw [List.length_append, List.length_singleton]
        omega
      have hhalf : (2 * number bits + b.toNat) / 2 = number bits := by omega
      rw [hexp, Nat.testBit_succ, hhalf, ih h, List.getElem_append_left h]
    · rw [List.length_append, List.length_singleton] at hi
      obtain rfl : i = bits.length := by omega
      rw [List.getElem_concat_length rfl, List.length_append, List.length_singleton,
        Nat.add_sub_cancel, Nat.sub_self, Nat.testBit_zero]
      cases b <;> simp

/-! ## Where an annotation comes from -/

/-- An item of a sum over numbers is an item of one of them, behind everything from those before. -/
theorem split_flatMap {α : Type} {g : Nat → List α} {n : Nat} {before after : List α} {a : α}
    (h : (List.range n).flatMap g = before ++ a :: after) :
    ∃ m pre post rest, m < n ∧ g m = pre ++ a :: post ∧
      before = (List.range m).flatMap g ++ pre ∧ after = post ++ rest := by
  induction n generalizing after with
  | zero => simp at h
  | succ n ih =>
    rw [List.range_succ, List.flatMap_append, List.flatMap_singleton] at h
    rcases List.append_eq_append_iff.1 h with ⟨mid, rfl, hlast⟩ | ⟨mid, hfirst, hlast⟩
    · exact ⟨n, mid, after, [], Nat.lt_succ_self n, hlast, rfl, (List.append_nil _).symm⟩
    · cases mid with
      | nil =>
        refine ⟨n, [], after, [], Nat.lt_succ_self n, hlast.symm, ?_, (List.append_nil _).symm⟩
        rw [hfirst, List.append_nil, List.append_nil]
      | cons c mid =>
        obtain ⟨rfl, rfl⟩ := List.cons.inj hlast
        obtain ⟨m, pre, post, rest, hm, hg, hbefore, hafter⟩ := ih hfirst
        refine ⟨m, pre, post, rest ++ g n, Nat.lt_succ_of_lt hm, hg, hbefore, ?_⟩
        exact (congrArg (· ++ g n) hafter).trans (List.append_assoc ..)

/-- Where only one item has a property, a list can be split at such an item in one way only. -/
theorem split_unique {α : Type} {p : α → Prop} {l₁ l₂ pre post : List α} {w a : α}
    (h : l₁ ++ w :: l₂ = pre ++ a :: post) (h₁ : ∀ b ∈ l₁, ¬p b) (h₂ : ∀ b ∈ l₂, ¬p b)
    (ha : p a) : pre = l₁ ∧ a = w ∧ post = l₂ := by
  rcases List.append_eq_append_iff.1 h with ⟨mid, rfl, hrest⟩ | ⟨mid, rfl, hrest⟩
  · cases mid with
    | nil =>
      obtain ⟨rfl, rfl⟩ := List.cons.inj hrest
      exact ⟨List.append_nil _, rfl, rfl⟩
    | cons c mid =>
      obtain ⟨rfl, rfl⟩ := List.cons.inj hrest
      exact absurd ha (h₂ a (by simp))
  · cases mid with
    | nil =>
      obtain ⟨rfl, rfl⟩ := List.cons.inj hrest
      exact ⟨(List.append_nil _).symm, rfl, rfl⟩
    | cons c mid =>
      obtain ⟨rfl, rfl⟩ := List.cons.inj hrest
      exact absurd ha (h₁ a (by simp))

/-- A sum of single items is a list of them. -/
theorem flatMap_one {α : Type} {g : Nat → List α} {h : Nat → α} (hg : ∀ i, g i = [h i])
    (n : Nat) : (List.range n).flatMap g = (List.range n).map h := by
  rw [List.flatMap_congr fun i _ => hg i, List.map_eq_flatMap]

/-! ## Rows of the clock edges -/

section Edges

variable (es : List PinVector) {positions : Nat} (k : Nat) {row : String} {b : Annotation}
  {pre post : List Annotation}

def bitRows : List String :=
  ["sdo-bits", "sii-bits", "sdi-bits"]

def wordRows : List String :=
  ["sdo", "sii", "sdi"]

/-- What bit `i` of a frame puts into a row of bits. -/
def bitsOf (row : String) (first i : Nat) : List Annotation :=
  (sdoBit es first i :: siiBit es first i ++ [sdiBit es first i]).filter fun a => a.row = row

@[simp] theorem row_sdoBit (first i : Nat) : (sdoBit es first i).row = "sdo-bits" := rfl

@[simp] theorem row_sdiBit (first i : Nat) : (sdiBit es first i).row = "sdi-bits" := rfl

theorem row_siiBit {first i : Nat} (h : b ∈ siiBit es first i) : b.row = "sii-bits" := by
  obtain ⟨line, -, rfl⟩ := List.mem_map.1 h
  rfl

theorem row_outputWord {first : Nat} (h : b ∈ outputWord es first) : b.row = "sdo" := by
  unfold outputWord at h
  split at h
  · rw [List.mem_singleton.1 h]
    rfl
  · simp at h

theorem row_inputWords {first : Nat} (h : b ∈ inputWords es first) :
    b.row = "sii" ∨ b.row = "sdi" := by
  unfold inputWords at h
  split at h
  · rcases List.mem_pair.1 h with rfl | rfl
    · exact .inl rfl
    · exact .inr rfl
  · simp at h

theorem row_interpreted {first : Nat} (h : b ∈ interpreted es positions first) :
    b.row = "instr" ∨ b.row = Annotation.warningRow := by
  obtain ⟨w, -, rfl⟩ := List.mem_map.1 h
  cases Verdict.ofWords w.1 w.2
  · exact .inl rfl
  · exact .inr rfl

theorem filter_siiBit (row : String) (first i : Nat) :
    (siiBit es first i).filter (fun a => a.row = row) =
      if row = "sii-bits" then siiBit es first i else [] := by
  split
  · rename_i h
    rw [List.filter_eq_self]
    intro a ha
    rw [row_siiBit es ha, h]
    rfl
  · rename_i h
    rw [List.filter_eq_nil_iff]
    intro a ha
    rw [row_siiBit es ha]
    simpa using Ne.symm h

theorem bitsOf_sdo (first i : Nat) : bitsOf es "sdo-bits" first i = [sdoBit es first i] := by
  simp [bitsOf, filter_siiBit]

theorem bitsOf_sdi (first i : Nat) : bitsOf es "sdi-bits" first i = [sdiBit es first i] := by
  simp [bitsOf, filter_siiBit]

theorem bitsOf_sii (first i : Nat) : bitsOf es "sii-bits" first i = siiBit es first i := by
  simp [bitsOf, filter_siiBit]

/-- What is in other rows is not in a row of bits. -/
theorem filter_quiet {xs : List Annotation} (hrow : row ∈ bitRows)
    (hxs : ∀ a ∈ xs, a.row ∉ bitRows) : xs.filter (fun a => a.row = row) = [] := by
  rw [List.filter_eq_nil_iff]
  intro a ha hsame
  exact hxs a ha (of_decide_eq_true hsame ▸ hrow)

/-- The rows of the bits hold nothing else of a cycle than the bits of its position. -/
theorem filter_cycle {q : Nat} (hrow : row ∈ bitRows) (hq : q < positions) :
    (told es positions (2 * (k * positions + q)) ++
        told es positions (2 * (k * positions + q) + 1)).filter (fun a => a.row = row) =
      if isDataBit q then bitsOf es row (k * positions) (q - 1) else [] := by
  have hlast : (if q + 1 = positions then interpreted es positions (k * positions) else []).filter
      (fun a => a.row = row) = [] := by
    refine filter_quiet hrow fun a ha => ?_
    split at ha
    · rcases row_interpreted es ha with h | h <;> rw [h] <;> decide
    · simp at ha
  have houtput : (if q = 8 then outputWord es (k * positions) else []).filter
      (fun a => a.row = row) = [] := by
    refine filter_quiet hrow fun a ha => ?_
    split at ha
    · rw [row_outputWord es ha]
      decide
    · simp at ha
  have hinput : (if q = 8 then inputWords es (k * positions) else []).filter
      (fun a => a.row = row) = [] := by
    refine filter_quiet hrow fun a ha => ?_
    split at ha
    · rcases row_inputWords es ha with h | h <;> rw [h] <;> decide
    · simp at ha
  rw [told_rise es k hq, told_fall es k hq, List.filter_append, List.filter_append, hlast,
    List.nil_append]
  split
  · have halone : ∀ (a : Annotation) (xs : List Annotation),
        xs.filter (fun b => b.row = row) = [] →
        (a :: xs).filter (fun b => b.row = row) = [a].filter fun b => b.row = row := by
      intro a xs hxs
      rw [← List.singleton_append, List.filter_append, hxs, List.append_nil]
    rw [List.filter_append, halone _ _ hinput, halone _ _ houtput, bitsOf,
      ← List.filter_append, ← List.filter_append]
    rfl
  · rfl

/-- Up to the ninth cycle of a frame a row of bits holds the first seven bits of that frame, behind
what it held before. -/
theorem bits_before (hP : 9 ≤ positions) (hrow : row ∈ bitRows) :
    ∃ earlier, ((List.range (2 * (k * positions + 8))).flatMap (told es positions)).filter
        (fun a => a.row = row) =
      earlier ++ (List.range 7).flatMap (bitsOf es row (k * positions)) := by
  refine ⟨((List.range (2 * (k * positions))).flatMap (told es positions)).filter
    (fun a => a.row = row), ?_⟩
  have hcycles : ∀ q ∈ List.range 8,
      (told es positions (2 * (k * positions + q)) ++
        told es positions (2 * (k * positions + q) + 1)).filter (fun a => a.row = row) =
      if isDataBit q then bitsOf es row (k * positions) (q - 1) else [] := by
    intro q hq
    have hlt : q < 8 := List.mem_range.1 hq
    exact filter_cycle es k hrow (by omega)
  rw [Nat.mul_add, List.range_add, List.flatMap_append, List.filter_append, flatMap_pairs,
    List.filter_flatMap (l := List.range 8), List.flatMap_congr hcycles]
  rfl

/-- A rising edge annotates no word but that on SDO, in position 8. -/
theorem word_rise {q : Nat} (hq : q < positions)
    (h : b ∈ told es positions (2 * (k * positions + q))) (hb : b.row ∈ wordRows) :
    q = 8 ∧ b ∈ outputWord es (k * positions) := by
  rw [told_rise es k hq] at h
  split at h
  · have hword := (List.mem_cons.1 h).resolve_left (by
      rintro rfl
      exact absurd hb (by rw [row_sdoBit]; decide))
    split at hword
    · exact ⟨‹_›, hword⟩
    · simp at hword
  · simp at h

/-- A falling edge annotates no words but those on SII and SDI, in position 8. -/
theorem word_fall {q : Nat} (hq : q < positions)
    (h : b ∈ told es positions (2 * (k * positions + q) + 1)) (hb : b.row ∈ wordRows) :
    q = 8 ∧ b ∈ inputWords es (k * positions) := by
  rw [told_fall es k hq] at h
  rcases List.mem_append.1 h with h | h
  · split at h
    · rcases row_interpreted es h with h | h <;> rw [h] at hb <;> exact absurd hb (by decide)
    · simp at h
  · split at h
    · rcases List.mem_append.1 h with h | h
      · rw [row_siiBit es h] at hb
        exact absurd hb (by decide)
      · have hword := (List.mem_cons.1 h).resolve_left (by
          rintro rfl
          exact absurd hb (by rw [row_sdiBit]; decide))
        split at hword
        · exact ⟨‹_›, hword⟩
        · simp at hword
    · simp at h

/-- What the falling edge of position 8 annotates in front of its words. -/
def beforeWords (positions first : Nat) : List Annotation :=
  (if 8 + 1 = positions then interpreted es positions first else []) ++
    (siiBit es first 7 ++ [sdiBit es first 7])

theorem row_beforeWords {first : Nat} (h : b ∈ beforeWords es positions first) :
    b.row ∉ wordRows := by
  rcases List.mem_append.1 h with h | h
  · split at h
    · rcases row_interpreted es h with h | h <;> rw [h] <;> decide
    · simp at h
  · rcases List.mem_append.1 h with h | h
    · rw [row_siiBit es h]
      decide
    · rw [List.mem_singleton.1 h, row_sdiBit]
      decide

/-- The word on a line, as the falling edge of position 8 annotates it. -/
def inputWord (line first : Nat) (row : String) : Annotation :=
  byte row (f es first) (f es (first + 8)) (input es line first)

@[simp] theorem row_inputWord (line first : Nat) (row : String) :
    (inputWord es line first row).row = row := rfl

theorem told_fall_eight (hP : 9 ≤ positions) (hlen : 2 * (k * positions + 8) + 1 < es.length) :
    told es positions (2 * (k * positions + 8) + 1) =
      beforeWords es positions (k * positions) ++
        [inputWord es sii (k * positions) "sii", inputWord es sdi (k * positions) "sdi"] := by
  have hfell : fell es (k * positions + 8) = true := decide_eq_true hlen
  have hdata : isDataBit 8 = true := rfl
  rw [told_fall es k (by omega), if_pos hdata, if_pos rfl, inputWords, if_pos hfell, beforeWords,
    List.append_assoc, List.append_assoc]
  rfl

theorem told_rise_eight (hP : 9 ≤ positions) (hlen : 2 * (k * positions + 8) < es.length) :
    told es positions (2 * (k * positions + 8)) =
      [sdoBit es (k * positions) 7, byte "sdo" (r es (k * positions)) (r es (k * positions + 8))
        (output es (k * positions))] := by
  have hrose : rose es (k * positions + 8) = true := decide_eq_true hlen
  have hdata : isDataBit 8 = true := rfl
  rw [told_rise es k (by omega), if_pos hdata, if_pos rfl, outputWord, if_pos hrose]

/-- Words are in no row of bits. -/
theorem filter_words {words : List Annotation} (hrow : row ∈ bitRows)
    (hwords : ∀ a ∈ words, a.row ∈ wordRows) : words.filter (fun a => a.row = row) = [] := by
  have hapart : ∀ row ∈ wordRows, row ∉ bitRows := by decide
  exact filter_quiet hrow fun a ha => hapart _ (hwords a ha)

/-- The bits of SII and SDI that the ninth cycle puts in front of its words are the last ones. -/
theorem bits_beforeWords (hP : 9 ≤ positions) (hlen : 2 * (k * positions + 8) + 1 < es.length)
    (hrow : row ∈ bitRows) {words : List Annotation} (hwords : ∀ a ∈ words, a.row ∈ wordRows) :
    ∃ earlier, ((List.range (2 * (k * positions + 8) + 1)).flatMap (told es positions) ++
        (beforeWords es positions (k * positions) ++ words)).filter (fun a => a.row = row) =
      earlier ++ (List.range 8).flatMap (bitsOf es row (k * positions)) := by
  obtain ⟨earlier, hearlier⟩ := bits_before es k hP hrow
  refine ⟨earlier, ?_⟩
  have hcycle := filter_cycle es k hrow (by omega : 8 < positions)
  have hdata : isDataBit 8 = true := rfl
  have hboth : ∀ a ∈ [inputWord es sii (k * positions) "sii",
      inputWord es sdi (k * positions) "sdi"], a.row ∈ wordRows := by
    intro a ha
    rcases List.mem_pair.1 ha with rfl | rfl <;> rw [row_inputWord] <;> decide
  rw [if_pos hdata, told_fall_eight es k hP hlen, List.filter_append, List.filter_append,
    filter_words hrow hboth, List.append_nil] at hcycle
  rw [List.range_succ, List.flatMap_append, List.flatMap_singleton, List.append_assoc,
    List.filter_append, hearlier, List.filter_append, List.filter_append,
    filter_words hrow hwords, List.append_nil, hcycle, List.range_succ (n := 7),
    List.flatMap_append, List.flatMap_singleton, List.append_assoc]

/-- The bits of SDO that the ninth cycle puts in front of its word are the last ones. -/
theorem bits_beforeWord (hP : 9 ≤ positions) :
    ∃ earlier, ((List.range (2 * (k * positions + 8))).flatMap (told es positions) ++
        [sdoBit es (k * positions) 7]).filter (fun a => a.row = "sdo-bits") =
      earlier ++ (List.range 8).map (sdoBit es (k * positions)) := by
  have hrow : "sdo-bits" ∈ bitRows := by decide
  obtain ⟨earlier, hearlier⟩ := bits_before es k hP hrow
  refine ⟨earlier, ?_⟩
  rw [List.filter_append, hearlier, flatMap_one (bitsOf_sdo es _), List.range_succ (n := 7),
    List.map_append, List.append_assoc]
  rfl

/-! ## Bits of one byte -/

theorem lastOf_eq {n : Nat} {xs earlier bits : List Annotation}
    (h : xs.filter (fun a => a.row = row) = earlier ++ bits) (hn : bits.length = n) :
    lastOf n row xs = bits := by
  rw [lastOf, h, List.rtake, List.length_append, hn, Nat.add_sub_cancel]
  exact List.drop_left' rfl

theorem spelled_sdi (first : Nat) :
    Spelled ((List.range 8).map (sdiBit es first)) (inputWord es sdi first "sdi") where
  tiles := tiles_range (fun i => (f es (first + i)).time) 8 fun _ => ⟨rfl, rfl⟩
  digits := ⟨input es sdi first, rfl, rfl, rfl⟩

theorem spelled_sdo (first : Nat) :
    Spelled ((List.range 8).map (sdoBit es first))
      (byte "sdo" (r es first) (r es (first + 8)) (output es first)) where
  tiles := tiles_range (fun i => (r es (first + i)).time) 8 fun _ => ⟨rfl, rfl⟩
  digits := ⟨output es first, rfl, rfl, rfl⟩

theorem asserting_eq :
    asserting = controlLines.map fun line => (line.name, !line.activeLow) := rfl

theorem text_eq (line : ControlLine) (level : Bool) :
    line.text level = if level = !line.activeLow then line.name else " " := by
  rcases line with ⟨name, _ | _⟩ <;> cases level <;> rfl

theorem labelled_sii (first : Nat) :
    Labelled ((List.range 8).map (sdiBit es first)) ((List.range 8).flatMap (siiBit es first))
      (inputWord es sii first "sii") where
  ranges := rfl
  shown := by
    have hlength : (input es sii first).length = 8 := rfl
    have hlt := number_lt (input es sii first)
    rw [hlength] at hlt
    refine ⟨number (input es sii first), hlt, rfl, ?_⟩
    have htexts : ((List.range 8).flatMap (siiBit es first)).map Annotation.texts =
        controlLines.zipIdx.map fun line =>
          [line.1.text ((r es (first + 1 + (line.2 + 1))).pin sii)] := rfl
    rw [htexts, asserting_eq, List.zipIdx_map, List.map_map]
    refine List.map_congr_left fun line hline => ?_
    have hi : line.2 < 7 := (List.mem_zipIdx hline).2.1
    have hbit := number_testBit (input es sii first) (i := line.2 + 1) (by omega)
    have hlevel : (input es sii first)[line.2 + 1] = (r es (first + 1 + (line.2 + 1))).pin sii := by
      simp [input]
    have hexp : (input es sii first).length - 1 - (line.2 + 1) = 6 - line.2 := by omega
    rw [hlevel, hexp] at hbit
    rw [text_eq, ← hbit]
    rfl

/-- Whatever words follow, the last bits on SDI are those of the frame. -/
theorem lastOf_sdi (hP : 9 ≤ positions) (hlen : 2 * (k * positions + 8) + 1 < es.length)
    {words : List Annotation} (hwords : ∀ a ∈ words, a.row ∈ wordRows) :
    lastOf 8 "sdi-bits" ((List.range (2 * (k * positions + 8) + 1)).flatMap (told es positions) ++
        (beforeWords es positions (k * positions) ++ words)) =
      (List.range 8).map (sdiBit es (k * positions)) := by
  have hrow : "sdi-bits" ∈ bitRows := by decide
  obtain ⟨earlier, hbits⟩ := bits_beforeWords es k hP hlen hrow hwords
  rw [flatMap_one (bitsOf_sdi es _)] at hbits
  exact lastOf_eq hbits (by simp)

/-! ## Words at an edge -/

section Words

variable {q : Nat}

/-- A word at a rising edge is that on SDO, and its bits come last. -/
theorem tiles_rise (hP : 9 ≤ positions) (hq : q < positions)
    (hlen : 2 * (k * positions + q) < es.length)
    (h : told es positions (2 * (k * positions + q)) = pre ++ b :: post)
    (hb : b.row ∈ wordRows) :
    b.row = "sdo" ∧ Spelled (lastOf 8 "sdo-bits"
      ((List.range (2 * (k * positions + q))).flatMap (told es positions) ++ pre)) b := by
  obtain ⟨rfl, hword⟩ := word_rise es k hq (by simp [h]) hb
  have hrow := row_outputWord es hword
  refine ⟨hrow, ?_⟩
  rw [told_rise_eight es k hP hlen] at h
  have hfirst : ∀ a ∈ [sdoBit es (k * positions) 7], ¬a.row = "sdo" := by simp
  rw [← List.singleton_append] at h
  obtain ⟨rfl, rfl, -⟩ := split_unique (p := fun a => a.row = "sdo") h hfirst (by simp) hrow
  obtain ⟨earlier, hbits⟩ := bits_beforeWord es k hP
  rw [lastOf_eq hbits (by simp)]
  exact spelled_sdo es _

/-- A word at a falling edge is that on SII or SDI, and their bits come last. -/
theorem tiles_fall (hP : 9 ≤ positions) (hq : q < positions)
    (hlen : 2 * (k * positions + q) + 1 < es.length)
    (h : told es positions (2 * (k * positions + q) + 1) = pre ++ b :: post)
    (hb : b.row ∈ wordRows) :
    let before := (List.range (2 * (k * positions + q) + 1)).flatMap (told es positions) ++ pre
    (b.row = "sii" ∧ (∃ sdiByte, post = [sdiByte] ∧ sdiByte.row = "sdi") ∧
        Labelled (lastOf 8 "sdi-bits" before) (lastOf 7 "sii-bits" before) b) ∨
      (b.row = "sdi" ∧ Spelled (lastOf 8 "sdi-bits" before) b) := by
  obtain ⟨rfl, hword⟩ := word_fall es k hq (by simp [h]) hb
  rw [told_fall_eight es k hP hlen] at h
  rcases row_inputWords es hword with hrow | hrow
  · left
    obtain ⟨rfl, rfl, rfl⟩ := split_unique (p := fun a => a.row = "sii") h
      (fun a ha hsii => row_beforeWords es ha (by rw [hsii]; decide)) (by simp) hrow
    have hbitRow : "sii-bits" ∈ bitRows := by decide
    have hnone : ∀ a ∈ ([] : List Annotation), a.row ∈ wordRows := nofun
    obtain ⟨earlier, hbits⟩ := bits_beforeWords es k hP hlen hbitRow hnone
    rw [List.flatMap_congr fun i _ => bitsOf_sii es _ i] at hbits
    refine ⟨hrow, ⟨_, rfl, rfl⟩, ?_⟩
    have hlabels := labelled_sii es (k * positions)
    rw [← lastOf_eq hbits rfl, ← lastOf_sdi es k hP hlen hnone, List.append_nil] at hlabels
    exact hlabels
  · right
    rw [List.append_cons] at h
    have hfirst : ∀ a ∈ beforeWords es positions (k * positions) ++
        [inputWord es sii (k * positions) "sii"], ¬a.row = "sdi" := by
      intro a ha hsame
      rcases List.mem_append.1 ha with ha | ha
      · exact row_beforeWords es ha (by rw [hsame]; decide)
      · rw [List.mem_singleton.1 ha, row_inputWord] at hsame
        exact absurd hsame (by decide)
    obtain ⟨rfl, rfl, -⟩ := split_unique (p := fun a => a.row = "sdi") h hfirst (by simp) hrow
    refine ⟨hrow, ?_⟩
    have hsii : ∀ a ∈ [inputWord es sii (k * positions) "sii"], a.row ∈ wordRows := by
      simp [wordRows]
    rw [lastOf_sdi es k hP hlen hsii]
    exact spelled_sdi es _

end Words

end Edges

/-! ## Runs -/

/-- **Bits and their bytes.**  Up to the byte on SDI or SDO, the last eight bits in its row fill its
range and spell it.  Up to the byte on SII, which that on SDI follows, the last seven control lines
stand under the last seven of the bits on SDI and show what the byte asserts. -/
theorem decode_tiles (positions : Nat) (hP : 9 ≤ positions) (vs : List PinVector) :
    let run := (Decoder.decode.run ({ config := ⟨positions⟩ }, vs)).play (#[] : Array Annotation)
    run.result = .ok () ∧ ∀ before b after, run.sink.toList = before ++ b :: after →
      (b.row = "sdi" → Spelled (lastOf 8 "sdi-bits" before) b) ∧
      (b.row = "sdo" → Spelled (lastOf 8 "sdo-bits" before) b) ∧
      (b.row = "sii" →
        Labelled (lastOf 8 "sdi-bits" before) (lastOf 7 "sii-bits" before) b ∧
          ∃ sdiByte rest, after = sdiByte :: rest ∧ sdiByte.row = "sdi") := by
  obtain ⟨hresult, htold, -⟩ := played_told (by omega : 3 ≤ positions) vs
  intro run
  refine ⟨hresult, fun before b after hsplit => ?_⟩
  obtain ⟨m, pre, post, rest, hm, hedge, rfl, rfl⟩ := split_flatMap (htold.symm.trans hsplit)
  generalize cycles vs = es at hm hedge
  have hb : b ∈ told es positions m := by simp [hedge]
  have hj : m / 2 = m / 2 / positions * positions + m / 2 % positions := by
    rw [Nat.mul_comm, Nat.div_add_mod]
  have hq : m / 2 % positions < positions := Nat.mod_lt _ (by omega)
  generalize m / 2 / positions = k at hj
  generalize m / 2 % positions = q at hj hq
  have hapart : ∀ {row}, row ∈ wordRows → b.row = row → b.row ∈ wordRows := by
    rintro row hrow rfl
    exact hrow
  obtain rfl | rfl : m = 2 * (k * positions + q) ∨ m = 2 * (k * positions + q) + 1 := by omega
  · have hrise := tiles_rise es k hP hq hm hedge
    refine ⟨fun h => ?_, fun h => (hrise (hapart (by decide) h)).2, fun h => ?_⟩
    · exact absurd (h.symm.trans (hrise (hapart (by decide) h)).1) (by decide)
    · exact absurd (h.symm.trans (hrise (hapart (by decide) h)).1) (by decide)
  · have hfall := tiles_fall es k hP hq hm hedge
    refine ⟨fun h => ?_, fun h => ?_, fun h => ?_⟩
    · rcases hfall (hapart (by decide) h) with ⟨hrow, -⟩ | ⟨-, hspelled⟩
      · exact absurd (h.symm.trans hrow) (by decide)
      · exact hspelled
    · rcases hfall (hapart (by decide) h) with ⟨hrow, -⟩ | ⟨hrow, -⟩ <;>
        exact absurd (h.symm.trans hrow) (by decide)
    · rcases hfall (hapart (by decide) h) with ⟨-, ⟨sdiByte, rfl, hsdi⟩, hlabels⟩ | ⟨hrow, -⟩
      · exact ⟨hlabels, sdiByte, rest, rfl, hsdi⟩
      · exact absurd (h.symm.trans hrow) (by decide)

/-- A write strobe in frames of nine positions, on a clock that is high at first. -/
theorem decode_tiles_nine :
    9 ≤ 9 ∧
      let vs := List.zipWith PinVector.mk (List.range 20)
        [1, 0, 1, 0, 1, 0, 3, 10, 3, 0, 5, 4, 1, 0, 3, 10, 1, 0, 1, 0]
      let run := (Decoder.decode.run ({ config := ⟨9⟩ }, vs)).play (#[] : Array Annotation)
      ∃ before, run.sink.toList =
          before ++ [⟨.byte, "sii", 3, 19, ["64"]⟩, ⟨.byte, "sdi", 3, 19, ["10"]⟩] ∧
        (lastOf 7 "sii-bits" before).map Annotation.text =
          ["XA1", "XA0", " ", "WR", " ", " ", " "] ∧
        Labelled (lastOf 8 "sdi-bits" before) (lastOf 7 "sii-bits" before)
          ⟨.byte, "sii", 3, 19, ["64"]⟩ ∧
        Spelled (lastOf 8 "sdi-bits" (before ++ [⟨.byte, "sii", 3, 19, ["64"]⟩]))
          ⟨.byte, "sdi", 3, 19, ["10"]⟩ := by
  refine ⟨by decide, ?_⟩
  intro vs run
  have htold : run.sink.toList = (List.range 18).flatMap (told (cycles vs) 9) :=
    (played_told (by decide : 3 ≤ 9) vs).2.1
  have hsplit : run.sink.toList = ((List.range 18).flatMap (told (cycles vs) 9)).take 25 ++
      [⟨.byte, "sii", 3, 19, ["64"]⟩, ⟨.byte, "sdi", 3, 19, ["10"]⟩] :=
    htold.trans (by decide +kernel)
  have htiles := (decode_tiles 9 (by decide) vs).2
  have hsii := (htiles _ _ _ hsplit).2.2 rfl
  have hsdi := (htiles _ _ [] (hsplit.trans (List.append_cons ..))).1 rfl
  exact ⟨_, hsplit, by decide +kernel, hsii.1, hsdi⟩

end Hvsp

end BusDecode
