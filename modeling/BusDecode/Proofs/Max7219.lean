import BusDecode.Max7219
import BusDecode.Proofs.Script
import Mathlib.Data.List.Basic
import Mathlib.Data.List.Chain

/-!
# Windows of chip select

An assertion of chip select opens a window, and the next change of either kind ends it.  What is
said of a window is read off its words: the first two are an access to a register, and a release
tells whether there were too few or too many.  The decoder goes through the packets with a flag, a
count and a latched word, and says of any list of packets what is said of its windows one after the
other (`decode_windows`); what lies outside of them is never looked at.

Chip select may also be released again and again.  Each release then tells of the window before it
(`Window.toldAgain`), which is the general form (`answers_drain_fresh`).
-/

set_option autoImplicit false

namespace BusDecode

namespace Max7219

/-! ## Accesses -/

/-- The control registers: the address, the name, and what a value means there. -/
def controls : List (Nat × String × (Nat → String)) :=
  [(0x00, "No-op", fun _ => ""),
    (0x09, "Decode", fun value => s!"0b{Numeral.binary 8 value}"),
    (0x0A, "Intensity", fun value =>
      if value % 16 = 0 then "min" else if value % 16 = 15 then "max" else toString (value % 16)),
    (0x0B, "Scan limit", fun value => toString (value + 1)),
    (0x0C, "Shutdown", fun value => if value = 0 then "on" else "off"),
    (0x0F, "Display test", fun value => if value = 0 then "off" else "on")]

/-- Whether an address is that of a digit. -/
def IsDigit (address : Spi.Word) : Prop :=
  1 ≤ address.value.toNat ∧ address.value.toNat ≤ 8

instance (address : Spi.Word) : Decidable (IsDigit address) :=
  inferInstanceAs (Decidable (_ ∧ _))

/-- What is said of an address and the value for it. -/
def accessed (address value : Spi.Word) : Annotation :=
  let register := address.value.toNat
  if IsDigit address then
    .field "digit" address.start value.stop
      s!"Digit {register}: {Numeral.hex 2 value.value.toNat}"
  else
    match controls.lookup register with
    | some (name, meaning) =>
      .field "register" address.start value.stop s!"{name}: {meaning value.value.toNat}"
    | none => .warning address.start value.stop s!"Unknown register {Numeral.hex 2 register}"

theorem intensity_eq (value : UInt8) :
    intensity value =
      if value.toNat % 16 = 0 then "min" else if value.toNat % 16 = 15 then "max"
      else toString (value.toNat % 16) := by
  have hlow : (value &&& 0x0F).toNat = value.toNat % 16 := by
    rw [UInt8.toNat_and]
    exact Nat.and_two_pow_sub_one_eq_mod _ 4
  rw [intensity, hlow]
  split
  · simp_all
  · simp_all
  · rename_i hmin hmax
    rw [if_neg hmin, if_neg hmax]

theorem controlRegister_eq (address value : UInt8) :
    controlRegister address value =
      (controls.lookup address.toNat).map fun control => (control.1, control.2 value.toNat) := by
  have hzero : value = 0 ↔ value.toNat = 0 := UInt8.toNat_inj.symm
  unfold controlRegister
  simp only [intensity_eq, hzero]
  split
  case h_7 =>
    have hnone : controls.lookup address.toNat = none := by
      rw [List.lookup_eq_none_iff]
      simp_all [controls]
    rw [hnone]
    rfl
  all_goals
    rename_i haddress
    rw [haddress]
    rfl

theorem write_eq (address value : Spi.Word) : write address value = accessed address value := by
  have hdigit : (1 ≤ address.value ∧ address.value ≤ 8) ↔ IsDigit address := Iff.rfl
  unfold write accessed
  simp only [hdigit, controlRegister_eq, Numeral.hexByte]
  split
  · rfl
  · cases controls.lookup address.value.toNat <;> rfl

/-! ## Windows -/

/-- What happens from one assertion of chip select up to the next one. -/
structure Window where
  start : Nat
  /-- words on MOSI until chip select changes -/
  words : List Spi.Word
  /-- ends of the releases; the first of them ends the window -/
  releases : List Nat
  deriving DecidableEq, Repr

/-- The words on MOSI until chip select changes. -/
def wordsIn : List Spi.Packet → List Spi.Word
  | .data mosi _ :: rest => mosi :: wordsIn rest
  | .transfer _ _ :: rest => wordsIn rest
  | .chipSelect _ _ _ :: _ => []
  | [] => []

/-- The ends of the releases until chip select is asserted. -/
def releasesIn : List Spi.Packet → List Nat
  | .chipSelect false _ stop :: rest => stop :: releasesIn rest
  | .chipSelect true _ _ :: _ => []
  | _ :: rest => releasesIn rest
  | [] => []

/-- The windows of a list of packets. -/
def windows : List Spi.Packet → List Window
  | .chipSelect true start _ :: rest => ⟨start, wordsIn rest, releasesIn rest⟩ :: windows rest
  | _ :: rest => windows rest
  | [] => []

/-- What a release tells of the number of words since chip select was asserted. -/
def verdict (start words stop : Nat) : List Annotation :=
  if words = 1 then [.warning start stop "Short write"]
  else if 2 < words then [.warning start stop "Overlong write"]
  else []

namespace Window

/-- The access to a register, if there are words enough for one. -/
def access (w : Window) : List Annotation :=
  match w.words with
  | address :: value :: _ => [accessed address value]
  | _ => []

/-- What is said of a window: the access, and then what its end tells if it is a release. -/
def told (w : Window) : List Annotation :=
  w.access ++ w.releases.head?.toList.flatMap (verdict w.start w.words.length)

/-- What is said of a window if every release tells of it, not only the one that ends it. -/
def toldAgain (w : Window) : List Annotation :=
  w.access ++ w.releases.flatMap (verdict w.start w.words.length)

theorem toldAgain_eq {w : Window} (h : w.releases.length ≤ 1) : w.toldAgain = w.told := by
  unfold toldAgain told
  match hreleases : w.releases with
  | [] => rfl
  | [stop] => rfl
  | _ :: _ :: _ => simp [hreleases] at h

end Window

/-! ## Chip select that is released once -/

/-- What a packet does to chip select, if anything. -/
def level? : Spi.Packet → Option Bool
  | .chipSelect active _ _ => some active
  | _ => none

/-- Chip select is not released twice with nothing but words and transfers in between. -/
def ReleasedOnce (packets : List Spi.Packet) : Prop :=
  (packets.filterMap level?).IsChain fun before after => before = true ∨ after = true

instance (packets : List Spi.Packet) : Decidable (ReleasedOnce packets) :=
  inferInstanceAs (Decidable (List.IsChain _ _))

theorem ReleasedOnce.tail {p : Spi.Packet} {packets : List Spi.Packet}
    (h : ReleasedOnce (p :: packets)) : ReleasedOnce packets := by
  unfold ReleasedOnce at h ⊢
  cases hp : level? p with
  | none => rwa [List.filterMap_cons_none hp] at h
  | some active =>
    rw [List.filterMap_cons_some hp] at h
    exact h.tail

/-- After a release there is no other one before the next assertion. -/
theorem releasesIn_released {packets : List Spi.Packet}
    (h : (false :: packets.filterMap level?).IsChain fun before after =>
      before = true ∨ after = true) : releasesIn packets = [] := by
  induction packets with
  | nil => rfl
  | cons p packets ih =>
    match p with
    | .data _ _ => exact ih h
    | .transfer _ _ => exact ih h
    | .chipSelect true _ _ => rfl
    | .chipSelect false _ _ => simp [level?] at h

theorem ReleasedOnce.releases {packets : List Spi.Packet} (h : ReleasedOnce packets) :
    (releasesIn packets).length ≤ 1 := by
  induction packets with
  | nil => exact Nat.zero_le 1
  | cons p packets ih =>
    match p with
    | .data _ _ => exact ih h
    | .transfer _ _ => exact ih h
    | .chipSelect true _ _ => exact Nat.zero_le 1
    | .chipSelect false _ _ => simp [releasesIn, releasesIn_released h]

theorem ReleasedOnce.windows {packets : List Spi.Packet} (h : ReleasedOnce packets) :
    ∀ w ∈ windows packets, w.releases.length ≤ 1 := by
  induction packets with
  | nil => simp [Max7219.windows]
  | cons p packets ih =>
    match p with
    | .data _ _ => exact ih h.tail
    | .transfer _ _ => exact ih h.tail
    | .chipSelect false _ _ => exact ih h.tail
    | .chipSelect true _ _ => exact List.forall_mem_cons.2 ⟨h.tail.releases, ih h.tail⟩

/-! ## What has no effect -/

/-- The packets with nothing left but the changes of chip select and the words on MOSI inside of
windows. -/
def effective (selected : Bool) : List Spi.Packet → List Spi.Packet
  | .chipSelect active start stop :: rest => .chipSelect active start stop :: effective active rest
  | .data mosi _ :: rest =>
    if selected then .data mosi none :: effective selected rest else effective selected rest
  | .transfer _ _ :: rest => effective selected rest
  | [] => []

theorem wordsIn_effective (packets : List Spi.Packet) :
    wordsIn (effective true packets) = wordsIn packets := by
  induction packets with
  | nil => rfl
  | cons p packets ih =>
    match p with
    | .data mosi _ => exact congrArg (mosi :: ·) ih
    | .transfer _ _ => exact ih
    | .chipSelect _ _ _ => rfl

theorem releasesIn_effective (selected : Bool) (packets : List Spi.Packet) :
    releasesIn (effective selected packets) = releasesIn packets := by
  induction packets generalizing selected with
  | nil => rfl
  | cons p packets ih =>
    match p with
    | .data _ _ => cases selected <;> exact ih _
    | .transfer _ _ => exact ih _
    | .chipSelect true _ _ => rfl
    | .chipSelect false _ stop => exact congrArg (stop :: ·) (ih _)

theorem windows_effective (selected : Bool) (packets : List Spi.Packet) :
    windows (effective selected packets) = windows packets := by
  induction packets generalizing selected with
  | nil => rfl
  | cons p packets ih =>
    match p with
    | .data _ _ => cases selected <;> exact ih _
    | .transfer _ _ => exact ih _
    | .chipSelect false _ _ => exact ih _
    | .chipSelect true _ _ =>
      simp only [effective, windows, wordsIn_effective, releasesIn_effective, ih]

/-! ## The decoder in a window -/

namespace Decoder

open Script (Answers)

/-- The decoder has taken these words since chip select was asserted at `start`. -/
structure Saw (d : Decoder) (start : Nat) (seen : List Spi.Word) : Prop where
  start : d.windowStart = start
  words : d.words = seen.length
  address : d.address = seen.head?

variable {d : Decoder} {start : Nat} {seen : List Spi.Word}

/-- What is said of a word that comes behind others: the access, if it is the second one. -/
def saidOf (seen : List Spi.Word) (w : Spi.Word) : List Annotation :=
  match seen with
  | [address] => [accessed address w]
  | _ => []

theorem answers_data (hd : d.selected = true) (h : d.Saw start seen) (w : Spi.Word) :
    Answers (data w) d fun _ d' xs =>
      d'.selected = true ∧ d'.Saw start (seen ++ [w]) ∧ xs = saidOf seen w := by
  obtain ⟨hstart, hwords, haddress⟩ := h
  refine .bind (.read (.onlyIf (fun _ => ?_) fun hno => absurd hd hno))
  refine .bind (.bind (.read ?_))
  match seen with
  | [] =>
    rw [hwords, haddress]
    refine .modify (.modify ⟨hd, ⟨hstart, ?_, rfl⟩, rfl⟩)
    exact congrArg (· + 1) hwords
  | [address] =>
    rw [hwords, haddress]
    refine .emit (.modify ⟨hd, ⟨hstart, ?_, haddress⟩, ?_⟩)
    · exact congrArg (· + 1) hwords
    · rw [write_eq]
      rfl
  | first :: second :: more =>
    rw [hwords, haddress]
    refine .answer (.modify ⟨hd, ⟨hstart, ?_, haddress⟩, rfl⟩)
    change d.words + 1 = _
    rw [hwords]
    simp

theorem answers_data_outside (hd : d.selected = false) (w : Spi.Word) :
    Answers (data w) d fun _ d' xs => d' = d ∧ xs = [] := by
  refine .bind (.read (.onlyIf (fun hyes => ?_) fun _ => ⟨rfl, rfl⟩))
  rw [hd] at hyes
  cases hyes

theorem verdict_eq (start words stop : Nat) :
    verdict start words stop = (lengthFault words).toList.map (.warning start stop) := by
  unfold verdict lengthFault
  split
  · rfl
  · split <;> rfl

/-- A release tells of the words taken since chip select was asserted. -/
theorem answers_release (h : d.Saw start seen) (from_ stop : Nat) :
    Answers (chipSelect false from_ stop) d fun _ d' xs =>
      d'.selected = false ∧ d'.Saw start seen ∧ xs = verdict start seen.length stop := by
  have hafter : ({ d with selected := false } : Decoder).Saw start seen :=
    ⟨h.start, h.words, h.address⟩
  refine .bind (.modify (.bind (.read ?_)))
  rw [verdict_eq, ← h.words, ← h.start]
  dsimp only
  cases lengthFault d.words with
  | none => exact .answer ⟨rfl, ⟨rfl, h.words, h.address⟩, rfl⟩
  | some fault => exact .bind (.note (.emit ⟨rfl, ⟨rfl, h.words, h.address⟩, rfl⟩))

theorem answers_assert (from_ stop : Nat) :
    Answers (chipSelect true from_ stop) d fun _ d' xs =>
      d'.selected = true ∧ d'.Saw from_ [] ∧ xs = [] :=
  .modify ⟨rfl, ⟨rfl, rfl, rfl⟩, rfl⟩

/-! ## Lists of packets -/

/-- The window that is under way, as it will have been at the next assertion. -/
def underWay (selected : Bool) (start : Nat) (seen : List Spi.Word) (packets : List Spi.Packet) :
    Window :=
  ⟨start, seen ++ if selected then wordsIn packets else [], releasesIn packets⟩

/-- What is still to be said of the window under way.  Its access has been said with the second
word. -/
def unsaid (seen : List Spi.Word) (w : Window) : List Annotation :=
  (if seen.length < 2 then w.access else []) ++
    w.releases.flatMap (verdict w.start w.words.length)

/-- A word says its part of the window and leaves the rest to those behind it. -/
theorem unsaid_data (seen : List Spi.Word) (w : Spi.Word) (miso : Option Spi.Word)
    (packets : List Spi.Packet) :
    unsaid seen (underWay true start seen (.data w miso :: packets)) =
      saidOf seen w ++ unsaid (seen ++ [w]) (underWay true start (seen ++ [w]) packets) := by
  match seen with
  | [] => rfl
  | [_] => rfl
  | first :: second :: more =>
    have hmany : ∀ n, ¬n + 1 + 1 < 2 := by omega
    simp [unsaid, saidOf, underWay, wordsIn, releasesIn, hmany]

theorem access_outside (h : seen.length < 2) (packets : List Spi.Packet) :
    (underWay false start seen packets).access = [] := by
  match seen with
  | [] => rfl
  | [_] => rfl
  | _ :: _ :: _ =>
    simp only [List.length_cons] at h
    omega

theorem unsaid_outside (seen : List Spi.Word) (packets : List Spi.Packet) :
    unsaid seen (underWay false start seen packets) =
      (releasesIn packets).flatMap (verdict start seen.length) := by
  have hwords : (underWay false start seen packets).words = seen := List.append_nil seen
  unfold unsaid
  rw [hwords]
  split
  · rw [access_outside ‹_›]
    rfl
  · rfl

theorem unsaid_assert (selected : Bool) (seen : List Spi.Word) (from_ stop : Nat)
    (packets : List Spi.Packet) :
    unsaid seen (underWay selected start seen (.chipSelect true from_ stop :: packets)) = [] := by
  have hwords : underWay selected start seen (.chipSelect true from_ stop :: packets) =
      underWay false start seen (.chipSelect true from_ stop :: packets) := by
    cases selected <;> rfl
  rw [hwords, unsaid_outside]
  rfl

theorem unsaid_release (selected : Bool) (seen : List Spi.Word) (from_ stop : Nat)
    (packets : List Spi.Packet) :
    unsaid seen (underWay selected start seen (.chipSelect false from_ stop :: packets)) =
      verdict start seen.length stop ++ unsaid seen (underWay false start seen packets) := by
  have hwords : underWay selected start seen (.chipSelect false from_ stop :: packets) =
      underWay false start seen (.chipSelect false from_ stop :: packets) := by
    cases selected <;> rfl
  rw [hwords, unsaid_outside, unsaid_outside]
  rfl

/-- From within a window or behind it, the rest of that window is said, and then the windows that
follow. -/
theorem answers_drain (packets : List Spi.Packet) (h : d.Saw start seen) :
    Answers (Script.drain feed) (d, packets) fun _ _ xs =>
      xs = unsaid seen (underWay d.selected start seen packets) ++
        (windows packets).flatMap Window.toldAgain := by
  induction packets generalizing d start seen with
  | nil =>
    have hwindow : underWay d.selected start seen [] = underWay false start seen [] := by
      cases d.selected <;> rfl
    refine .drain_nil ?_
    rw [hwindow, unsaid_outside]
    rfl
  | cons p packets ih =>
    refine .drain_cons ?_
    match p with
    | .transfer _ _ => exact .answer (ih h)
    | .data w miso =>
      cases hd : d.selected with
      | true =>
        refine (answers_data hd h w).mono ?_
        rintro _ d' xs ⟨hd', h', rfl⟩
        refine (ih h').mono ?_
        rintro _ _ ys rfl
        rw [hd', unsaid_data, List.append_assoc]
        rfl
      | false =>
        refine (answers_data_outside hd w).mono ?_
        rintro _ d' xs ⟨rfl, rfl⟩
        refine (ih h).mono ?_
        rintro _ _ ys rfl
        rw [hd, unsaid_outside, unsaid_outside]
        rfl
    | .chipSelect false from_ stop =>
      refine (answers_release h from_ stop).mono ?_
      rintro _ d' xs ⟨hd', h', rfl⟩
      refine (ih h').mono ?_
      rintro _ _ ys rfl
      rw [hd', unsaid_release, List.append_assoc]
      rfl
    | .chipSelect true from_ stop =>
      refine (answers_assert from_ stop).mono ?_
      rintro _ d' xs ⟨hd', h', rfl⟩
      refine (ih h').mono ?_
      rintro _ _ ys rfl
      rw [hd', unsaid_assert]
      rfl

/-- A fresh decoder says of a list of packets what is said of its windows. -/
theorem answers_drain_fresh (name : String) (packets : List Spi.Packet) :
    Answers (Script.drain feed) (({ name } : Decoder), packets) fun _ _ xs =>
      xs = (windows packets).flatMap Window.toldAgain := by
  have hfresh : ({ name } : Decoder).Saw 0 [] := ⟨rfl, rfl, rfl⟩
  refine (answers_drain packets hfresh).mono ?_
  rintro _ _ xs rfl
  rw [unsaid_outside]
  simp [verdict]

end Decoder

/-- What a fresh decoder makes of a list of packets, all of it taken by an array. -/
theorem played_fresh (name : String) (packets : List Spi.Packet) :
    let run := (Decoder.decode.run (({ name } : Decoder), packets)).play (#[] : Array Annotation)
    run.result = .ok () ∧ run.sink.toList = (windows packets).flatMap Window.toldAgain := by
  obtain ⟨_, s, xs, events, hplayed, hxs⟩ :=
    (Decoder.answers_drain_fresh name packets).played (#[] : Array Annotation)
  intro run
  have hrun : run = ⟨.ok (), s, #[] ++ xs.toArray, events⟩ := hplayed
  rw [hrun]
  exact ⟨rfl, by simpa using hxs⟩

/-- **A decoder says what is said of the windows.**  If chip select is not released twice in a row,
a fresh decoder hands on, window by window, the access and what the release tells that ends it.
Transfers, MISO words and words outside of windows have no effect. -/
theorem decode_windows (name : String) (packets : List Spi.Packet) (h : ReleasedOnce packets) :
    let output := fun packets =>
      (Decoder.decode.run (({ name } : Decoder), packets)).play (#[] : Array Annotation)
    (output packets).result = .ok () ∧
      (output packets).sink.toList = (windows packets).flatMap Window.told ∧
      (output (effective false packets)).sink = (output packets).sink := by
  obtain ⟨hok, hsink⟩ := played_fresh name packets
  obtain ⟨-, heffective⟩ := played_fresh name (effective false packets)
  refine ⟨hok, ?_, ?_⟩
  · rw [hsink]
    exact List.flatMap_congr fun w hw => Window.toldAgain_eq (h.windows w hw)
  · rw [windows_effective, ← hsink] at heffective
    exact Array.toList_inj.1 heffective

/-- A window of three words, one that is opened again before its release, and a word outside. -/
theorem decode_windows_reopened :
    let packets : List Spi.Packet := [.chipSelect true 0 0, .data ⟨3, 1, 9⟩ none,
      .data ⟨0x7E, 9, 17⟩ (some ⟨1, 9, 17⟩), .data ⟨5, 17, 25⟩ none, .chipSelect false 26 27,
      .data ⟨1, 30, 38⟩ none, .chipSelect true 40 40, .data ⟨0x0D, 41, 49⟩ none,
      .chipSelect true 50 50, .transfer [] [], .data ⟨0x0C, 51, 59⟩ none, .chipSelect false 60 61]
    ReleasedOnce packets ∧
      ((Decoder.decode.run (({} : Decoder), packets)).play (#[] : Array Annotation)).sink.toList =
        [.field "digit" 1 17 "Digit 3: 7E", .warning 0 27 "Overlong write",
          .warning 50 61 "Short write"] := by
  intro packets
  have h : ReleasedOnce packets := by decide
  refine ⟨h, ?_⟩
  rw [(decode_windows "max7219" packets h).2.1]
  decide +kernel

end Max7219

end BusDecode
