import BusDecode.Proofs.Max7219
import BusDecode.Proofs.Rows

/-!
# Register writes in the order of time

If packets come in the order of time, so do the windows cut from them, and what is said of one
window starts before what is said of the next one.  Within a window the access starts at its first
word and what a release tells starts with the window itself.  Those are in different rows, unless
no register has the address; then a warning that starts later is handed on first
(`Window.Crossed`), and this is the only way for a row to go back (`decode_ascending`).
-/

set_option autoImplicit false

namespace BusDecode

namespace Max7219

open Annotation (Ascending ascending_append ascending_of_start ascending_one ascending_nil)

/-! ## Packets -/

/-- Where a packet starts and where it stops.  Whole transfers are ignored. -/
def span? : Spi.Packet → Option (Nat × Nat)
  | .data mosi _ => some (mosi.start, mosi.stop)
  | .chipSelect _ start stop => some (start, stop)
  | .transfer _ _ => none

/-- Where the packets start and stop. -/
def spans (packets : List Spi.Packet) : List (Nat × Nat) :=
  packets.filterMap span?

/-- No packet stops before it starts, or starts before one that came earlier. -/
structure InTime (packets : List Spi.Packet) : Prop where
  forward : ∀ s ∈ spans packets, s.1 ≤ s.2
  ordered : (spans packets).Pairwise fun s t => s.1 ≤ t.1

instance (packets : List Spi.Packet) : Decidable (InTime packets) :=
  decidable_of_iff _ ⟨fun h => InTime.mk h.1 h.2, fun h => And.intro h.forward h.ordered⟩

variable {packets : List Spi.Packet}

theorem InTime.tail {p : Spi.Packet} (h : InTime (p :: packets)) : InTime packets := by
  have hsublist : (spans packets).Sublist (spans (p :: packets)) :=
    (List.sublist_cons_self p packets).filterMap span?
  exact ⟨fun s hs => h.forward s (hsublist.subset hs), h.ordered.sublist hsublist⟩

theorem InTime.le_of_mem {p : Spi.Packet} {s t : Nat × Nat} (h : InTime (p :: packets))
    (hp : span? p = some s) (ht : t ∈ spans packets) : s.1 ≤ t.1 := by
  have hordered := h.ordered
  unfold spans at hordered
  rw [List.filterMap_cons_some hp] at hordered
  exact List.rel_of_pairwise_cons hordered ht

theorem mem_spans_cons {s : Nat × Nat} (p : Spi.Packet) (h : s ∈ spans packets) :
    s ∈ spans (p :: packets) :=
  ((List.sublist_cons_self p packets).filterMap span?).subset h

theorem mem_spans_head {p : Spi.Packet} {s : Nat × Nat} (hp : span? p = some s) :
    s ∈ spans (p :: packets) :=
  List.mem_filterMap.2 ⟨p, List.mem_cons_self, hp⟩

/-! ## Windows cut from packets -/

theorem mem_wordsIn {w : Spi.Word} (h : w ∈ wordsIn packets) :
    (w.start, w.stop) ∈ spans packets := by
  induction packets with
  | nil => cases h
  | cons p packets ih =>
    match p with
    | .transfer _ _ => exact ih h
    | .chipSelect _ _ _ => cases h
    | .data mosi _ =>
      rcases List.mem_cons.1 h with rfl | hrest
      · exact mem_spans_head rfl
      · exact mem_spans_cons _ (ih hrest)

theorem mem_releasesIn {stop : Nat} (h : stop ∈ releasesIn packets) :
    ∃ start, (start, stop) ∈ spans packets := by
  induction packets with
  | nil => cases h
  | cons p packets ih =>
    match p with
    | .transfer _ _ => exact ih h
    | .data _ _ =>
      obtain ⟨start, hstart⟩ := ih h
      exact ⟨start, mem_spans_cons _ hstart⟩
    | .chipSelect true _ _ => cases h
    | .chipSelect false from_ _ =>
      rcases List.mem_cons.1 h with rfl | hrest
      · exact ⟨from_, mem_spans_head rfl⟩
      · obtain ⟨start, hstart⟩ := ih hrest
        exact ⟨start, mem_spans_cons _ hstart⟩

theorem mem_windows {w : Window} (h : w ∈ windows packets) :
    ∃ stop, (w.start, stop) ∈ spans packets := by
  induction packets with
  | nil => cases h
  | cons p packets ih =>
    match p with
    | .transfer _ _ => exact ih h
    | .data _ _ =>
      obtain ⟨stop, hstop⟩ := ih h
      exact ⟨stop, mem_spans_cons _ hstop⟩
    | .chipSelect false _ _ =>
      obtain ⟨stop, hstop⟩ := ih h
      exact ⟨stop, mem_spans_cons _ hstop⟩
    | .chipSelect true _ to_ =>
      rcases List.mem_cons.1 h with rfl | hrest
      · exact ⟨to_, mem_spans_head rfl⟩
      · obtain ⟨stop, hstop⟩ := ih hrest
        exact ⟨stop, mem_spans_cons _ hstop⟩

namespace Window

/-- A window is before all that happens in it, and its words are in order. -/
structure Timely (w : Window) : Prop where
  words : ∀ x ∈ w.words, w.start ≤ x.start ∧ x.start ≤ x.stop
  ordered : w.words.Pairwise fun x y => x.start ≤ y.start
  releases : ∀ stop ∈ w.releases, w.start ≤ stop

/-- Another window starts no earlier than this one or any word in it. -/
def Before (w w' : Window) : Prop :=
  w.start ≤ w'.start ∧ ∀ x ∈ w.words, x.start ≤ w'.start

end Window

theorem InTime.words (h : InTime packets) :
    (wordsIn packets).Pairwise fun x y => x.start ≤ y.start := by
  induction packets with
  | nil => exact List.Pairwise.nil
  | cons p packets ih =>
    match p with
    | .transfer _ _ => exact ih h.tail
    | .chipSelect _ _ _ => exact List.Pairwise.nil
    | .data mosi _ =>
      exact List.pairwise_cons.2 ⟨fun x hx => h.le_of_mem rfl (mem_wordsIn hx), ih h.tail⟩

theorem InTime.timely (h : InTime packets) : ∀ w ∈ windows packets, w.Timely := by
  induction packets with
  | nil => simp [windows]
  | cons p packets ih =>
    cases p with
    | transfer _ _ => exact ih h.tail
    | data _ _ => exact ih h.tail
    | chipSelect active _ _ =>
      cases active with
      | false => exact ih h.tail
      | true =>
        refine List.forall_mem_cons.2 ⟨⟨?_, h.tail.words, ?_⟩, ih h.tail⟩
        · intro x hx
          exact ⟨h.le_of_mem rfl (mem_wordsIn hx), h.tail.forward _ (mem_wordsIn hx)⟩
        · intro stop hstop
          obtain ⟨start, hstart⟩ := mem_releasesIn hstop
          exact Nat.le_trans (h.le_of_mem rfl hstart) (h.tail.forward _ hstart)

/-- The words up to the next change of chip select are before the windows from there on. -/
theorem InTime.words_before (h : InTime packets) {x : Spi.Word} {w : Window}
    (hx : x ∈ wordsIn packets) (hw : w ∈ windows packets) : x.start ≤ w.start := by
  induction packets with
  | nil => cases hx
  | cons p packets ih =>
    match p with
    | .transfer _ _ => exact ih h.tail hx hw
    | .chipSelect _ _ _ => cases hx
    | .data mosi _ =>
      have hlater : w ∈ Max7219.windows packets := hw
      obtain ⟨stop, hstop⟩ := mem_windows hlater
      rcases List.mem_cons.1 hx with rfl | hrest
      · exact h.le_of_mem rfl hstop
      · exact ih h.tail hrest hw

theorem InTime.windows (h : InTime packets) : (windows packets).Pairwise Window.Before := by
  induction packets with
  | nil => exact List.Pairwise.nil
  | cons p packets ih =>
    cases p with
    | transfer _ _ => exact ih h.tail
    | data _ _ => exact ih h.tail
    | chipSelect active _ _ =>
      cases active with
      | false => exact ih h.tail
      | true =>
        refine List.pairwise_cons.2
          ⟨fun w hw => ⟨?_, fun x hx => h.tail.words_before hx hw⟩, ih h.tail⟩
        obtain ⟨stop, hstop⟩ := mem_windows hw
        exact h.le_of_mem rfl hstop

/-! ## What is said of one window -/

/-- No register has this address. -/
def Unknown (address : Spi.Word) : Prop :=
  ¬IsDigit address ∧ controls.lookup address.value.toNat = none

instance (address : Spi.Word) : Decidable (Unknown address) :=
  inferInstanceAs (Decidable (_ ∧ _))

theorem start_accessed (address value : Spi.Word) :
    (accessed address value).start = address.start := by
  unfold accessed
  dsimp only
  split
  · rfl
  · split <;> rfl

theorem stop_accessed (address value : Spi.Word) :
    (accessed address value).stop = value.stop := by
  unfold accessed
  dsimp only
  split
  · rfl
  · split <;> rfl

theorem row_accessed (address value : Spi.Word) :
    (accessed address value).row = Annotation.warningRow ↔ Unknown address := by
  unfold accessed Unknown
  dsimp only
  split
  case isTrue hdigit => simp [hdigit, Annotation.field, Annotation.warningRow]
  case isFalse hdigit =>
    split
    · rename_i hcontrol
      simp [hcontrol, Annotation.field, Annotation.warningRow]
    · rename_i hcontrol
      simp [hdigit, hcontrol, Annotation.warning]

theorem mem_verdict {a : Annotation} {start words stop : Nat} (h : a ∈ verdict start words stop) :
    a.row = Annotation.warningRow ∧ a.start = start ∧ a.stop = stop ∧ words ≠ 2 := by
  unfold verdict at h
  split at h
  · obtain rfl := List.mem_singleton.1 h
    exact ⟨rfl, rfl, rfl, by omega⟩
  · split at h
    · obtain rfl := List.mem_singleton.1 h
      exact ⟨rfl, rfl, rfl, by omega⟩
    · cases h

namespace Window

variable {w : Window}

theorem mem_access {a : Annotation} (h : a ∈ w.access) :
    ∃ address value more, w.words = address :: value :: more ∧ a = accessed address value := by
  unfold access at h
  split at h
  · rename_i address value more hwords
    exact ⟨address, value, more, hwords, List.mem_singleton.1 h⟩
  · cases h

theorem mem_verdicts {a : Annotation}
    (h : a ∈ w.releases.flatMap (verdict w.start w.words.length)) :
    a.row = Annotation.warningRow ∧ a.start = w.start ∧ a.stop ∈ w.releases ∧
      w.words.length ≠ 2 := by
  obtain ⟨stop, hstop, ha⟩ := List.mem_flatMap.1 h
  obtain ⟨hrow, hstart, rfl, hlength⟩ := mem_verdict ha
  exact ⟨hrow, hstart, hstop, hlength⟩

/-- Too many words, of which the first one is no register and comes behind the start of the
window. -/
structure Crossed (w : Window) : Prop where
  words : 2 < w.words.length
  releases : w.releases ≠ []
  address : ∃ address ∈ w.words.head?, Unknown address ∧ w.start < address.start

theorem Timely.forward (h : w.Timely) {a : Annotation} (ha : a ∈ w.toldAgain) :
    a.start ≤ a.stop := by
  rcases List.mem_append.1 ha with hacc | hver
  · obtain ⟨address, value, more, hwords, rfl⟩ := mem_access hacc
    have hvalue := h.words value (by simp [hwords])
    have hordered := h.ordered
    rw [hwords] at hordered
    rw [start_accessed, stop_accessed]
    exact Nat.le_trans (List.rel_of_pairwise_cons hordered List.mem_cons_self) hvalue.2
  · obtain ⟨_, hstart, hstop, _⟩ := mem_verdicts hver
    rw [hstart]
    exact h.releases _ hstop

/-- What is said of a window starts with it or with a word in it. -/
theorem start_told {a : Annotation} (ha : a ∈ w.toldAgain) :
    a.start = w.start ∨ ∃ x ∈ w.words, a.start = x.start := by
  rcases List.mem_append.1 ha with hacc | hver
  · obtain ⟨address, value, more, hwords, rfl⟩ := mem_access hacc
    exact .inr ⟨address, by simp [hwords], start_accessed address value⟩
  · exact .inl (mem_verdicts hver).2.1

theorem Timely.start_le (h : w.Timely) {a : Annotation} (ha : a ∈ w.toldAgain) :
    w.start ≤ a.start := by
  rcases start_told ha with hstart | ⟨x, hx, hstart⟩
  · exact Nat.le_of_eq hstart.symm
  · rw [hstart]
    exact (h.words x hx).1

theorem Before.start_le {w' : Window} (h : w.Before w') {a : Annotation} (ha : a ∈ w.toldAgain) :
    a.start ≤ w'.start := by
  rcases start_told ha with hstart | ⟨x, hx, hstart⟩
  · rw [hstart]
    exact h.1
  · rw [hstart]
    exact h.2 x hx

/-- What is said of one window is in order, unless a warning of an unknown register comes before one
of too many words. -/
theorem ascending_toldAgain (w : Window) (row : String) :
    Ascending row w.toldAgain ↔ (row = Annotation.warningRow → ¬w.Crossed) := by
  have haccess : Ascending row w.access := by
    unfold access
    split
    · exact ascending_one _
    · exact ascending_nil
  have hverdicts : Ascending row (w.releases.flatMap (verdict w.start w.words.length)) :=
    ascending_of_start fun a ha => (mem_verdicts ha).2.1
  unfold toldAgain
  rw [ascending_append]
  constructor
  · rintro ⟨-, -, hcross⟩ rfl ⟨hwords, hreleases, address, haddress, hunknown, hlate⟩
    obtain ⟨first, value, third, more, hw⟩ : ∃ first value third more,
        w.words = first :: value :: third :: more := by
      rcases hw : w.words with _ | ⟨first, _ | ⟨value, _ | ⟨third, more⟩⟩⟩ <;>
        rw [hw] at hwords
      · exact absurd hwords (by decide)
      · exact absurd hwords (by simp)
      · exact absurd hwords (by simp)
      · exact ⟨first, value, third, more, rfl⟩
    obtain ⟨stop, stops, hr⟩ := List.exists_cons_of_ne_nil hreleases
    rw [hw] at haddress
    obtain rfl : first = address := Option.some.inj haddress
    have hle := hcross (accessed first value) (by simp [access, hw])
      (.warning w.start stop "Overlong write") (by simp [hr, hw, verdict])
      ((row_accessed _ _).2 hunknown) rfl
    rw [start_accessed] at hle
    exact Nat.not_lt_of_le hle hlate
  · intro hcross
    refine ⟨haccess, hverdicts, fun a ha b hb hrowa hrowb => ?_⟩
    obtain ⟨address, value, more, hwords, rfl⟩ := mem_access ha
    obtain ⟨hwarning, hstart, hstop, hlength⟩ := mem_verdicts hb
    rw [start_accessed, hstart]
    refine Nat.le_of_not_lt fun hlate => hcross (hrowb.symm.trans hwarning) ⟨?_, ?_, ?_⟩
    · rw [hwords] at hlength ⊢
      simp only [List.length_cons] at hlength ⊢
      omega
    · exact List.ne_nil_of_mem hstop
    · refine ⟨address, by simp [hwords], ?_, hlate⟩
      rw [← row_accessed address value, hrowa, ← hrowb, hwarning]

end Window

/-! ## What is said of all of them -/

/-- A row is in order over all windows if it is so in each of them. -/
theorem ascending_windows (h : InTime packets) (row : String) :
    Ascending row ((windows packets).flatMap Window.toldAgain) ↔
      ∀ w ∈ windows packets, row = Annotation.warningRow → ¬w.Crossed := by
  have hbetween : (windows packets).Pairwise fun w w' =>
      ∀ a ∈ w.toldAgain, ∀ b ∈ w'.toldAgain, a.row = row → b.row = row → a.start ≤ b.start := by
    refine h.windows.imp_of_mem fun _ hw' hbefore a ha b hb _ _ => ?_
    exact Nat.le_trans (hbefore.start_le ha) ((h.timely _ hw').start_le hb)
  unfold Ascending
  rw [List.pairwise_flatMap, and_iff_left hbetween]
  exact forall₂_congr fun w _ => w.ascending_toldAgain row

/-- **Rows are in order but for one case.**  Of packets in the order of time, a fresh decoder says
nothing that stops before it starts, and no row but that of the warnings goes back.  The warnings go
back if and only if some window has an unknown register behind its start and too many words. -/
theorem decode_ascending (name : String) (packets : List Spi.Packet) (h : InTime packets) :
    let output :=
      ((Decoder.decode.run (({ name } : Decoder), packets)).play (#[] : Array Annotation)).sink
    (∀ a ∈ output.toList, a.start ≤ a.stop) ∧
      (∀ row, row ≠ Annotation.warningRow → Ascending row output.toList) ∧
      (Ascending Annotation.warningRow output.toList ↔ ∀ w ∈ windows packets, ¬w.Crossed) := by
  intro output
  have houtput : output.toList = (windows packets).flatMap Window.toldAgain :=
    (played_fresh name packets).2
  rw [houtput]
  refine ⟨fun a ha => ?_, fun row hrow => ?_, ?_⟩
  · obtain ⟨w, hw, haw⟩ := List.mem_flatMap.1 ha
    exact (h.timely w hw).forward haw
  · exact (ascending_windows h row).2 fun _ _ hwarning => absurd hwarning hrow
  · rw [ascending_windows h]
    simp only [forall_const]

/-- A warning of an unknown register that does not come back: the window with too many words is the
next one. -/
theorem decode_ascending_unknown :
    let packets : List Spi.Packet := [.chipSelect true 0 0, .data ⟨0x0D, 1, 9⟩ none,
      .data ⟨1, 9, 17⟩ none, .chipSelect false 18 18, .chipSelect true 20 20,
      .data ⟨3, 21, 29⟩ none, .data ⟨0, 29, 37⟩ none, .data ⟨0, 37, 45⟩ none,
      .chipSelect false 46 46]
    let output :=
      ((Decoder.decode.run (({} : Decoder), packets)).play (#[] : Array Annotation)).sink
    InTime packets ∧ Ascending Annotation.warningRow output.toList := by
  intro packets output
  have h : InTime packets := by decide
  refine ⟨h, (decode_ascending "max7219" packets h).2.2.2 ?_⟩
  rintro w hw ⟨hwords, -, address, haddress, hunknown, -⟩
  -- the first window has two words, and the second one a digit
  obtain rfl | rfl := List.mem_pair.1 hw
  · exact absurd hwords (by decide)
  · obtain rfl := Option.some.inj haddress
    exact absurd hunknown (by decide)

/-- A window of three words for a register that there is not: the warning of the register starts at
the first word, and the one of the length, which comes later, at the window. -/
theorem decode_descending :
    let packets : List Spi.Packet := [.chipSelect true 0 0, .data ⟨0x0D, 1, 9⟩ none,
      .data ⟨1, 9, 17⟩ none, .data ⟨2, 17, 25⟩ none, .chipSelect false 26 26]
    let output :=
      ((Decoder.decode.run (({} : Decoder), packets)).play (#[] : Array Annotation)).sink
    InTime packets ∧
      output.toList =
        [.warning 1 17 "Unknown register 0D", .warning 0 26 "Overlong write"] ∧
      ¬Ascending Annotation.warningRow output.toList := by
  intro packets output
  have houtput : output.toList =
      [.warning 1 17 "Unknown register 0D", .warning 0 26 "Overlong write"] := by
    rw [show output.toList = _ from (played_fresh "max7219" packets).2]
    decide +kernel
  refine ⟨by decide, houtput, ?_⟩
  rw [houtput]
  decide

end Max7219

end BusDecode
