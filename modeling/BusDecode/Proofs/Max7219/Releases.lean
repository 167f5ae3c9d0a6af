import BusDecode.Proofs.Max7219.Order
import BusDecode.Proofs.Max7219.Retries

/-!
# Warnings of a wrong number of words

Only a release warns of too few or too many words, and each release does so anew: from one assertion
of chip select up to the next one there are as many of these warnings as releases, all of the window
at its start, or none at all if the number of words is right (`framing_releases`).  Without an
assertion there is no window to warn of.
-/

set_option autoImplicit false

namespace BusDecode

namespace Max7219

/-! ## Framing warnings -/

/-- Whether an annotation warns of a wrong number of words. -/
def isFraming (a : Annotation) : Bool :=
  a.isWarning && (a.text = "Short write" || a.text = "Overlong write")

/-- A warning with another text. -/
theorem isFraming_of_apart {lead rest : String} {start stop : Nat}
    (hshort : Apart "Short write" lead) (hlong : Apart "Overlong write" lead) :
    isFraming (.warning start stop (lead ++ rest)) = false := by
  have hother : ∀ {text : String}, Apart text lead → lead ++ rest ≠ text := by
    intro text hapart heq
    refine Annotation.not_begins (a := .warning start stop (lead ++ rest)) rfl hapart ?_
    rw [heq]
    exact List.prefix_rfl
  have htext : Annotation.text (.warning start stop (lead ++ rest)) = lead ++ rest := rfl
  rw [isFraming, htext, decide_eq_false (hother hshort), decide_eq_false (hother hlong)]
  rfl

theorem isFraming_accessed (address value : Spi.Word) :
    isFraming (accessed address value) = false := by
  unfold accessed
  dsimp only
  split
  · rfl
  · split
    · rfl
    · exact isFraming_of_apart (by decide) (by decide)

theorem isFraming_verdict {a : Annotation} {start words stop : Nat}
    (h : a ∈ verdict start words stop) : isFraming a = true := by
  unfold verdict at h
  split at h
  · obtain rfl := List.mem_singleton.1 h
    rfl
  · split at h
    · obtain rfl := List.mem_singleton.1 h
      rfl
    · cases h

theorem length_verdict (start words stop : Nat) :
    (verdict start words stop).length = if words = 0 ∨ words = 2 then 0 else 1 := by
  match words with
  | 0 => rfl
  | 1 => rfl
  | 2 => rfl
  | n + 3 => simp [verdict]

/-- The warnings of a wrong number of words that a decoder hands on for a list of packets. -/
def framing (d : Decoder) (packets : List Spi.Packet) : List Annotation :=
  ((Decoder.decode.run (d, packets)).play (#[] : Array Annotation)).sink.toList.filter isFraming

/-- A decoder that has been given some packets and then an assertion of chip select. -/
def opened (name : String) (before : List Spi.Packet) (start stop : Nat) : Decoder :=
  ((Decoder.decode.run
    (({ name } : Decoder), before ++ [Spi.Packet.chipSelect true start stop])).play
      (#[] : Array Annotation)).state.1

/-- The packets do not assert chip select. -/
def Unasserted (packets : List Spi.Packet) : Prop :=
  ∀ p ∈ packets, level? p ≠ some true

instance (packets : List Spi.Packet) : Decidable (Unasserted packets) :=
  inferInstanceAs (Decidable (∀ p ∈ packets, _))

theorem Unasserted.windows {packets : List Spi.Packet} (h : Unasserted packets) :
    windows packets = [] := by
  induction packets with
  | nil => rfl
  | cons p packets ih =>
    have htail : Unasserted packets := fun q hq => h q (List.mem_cons_of_mem p hq)
    match p with
    | .data _ _ => exact ih htail
    | .transfer _ _ => exact ih htail
    | .chipSelect false _ _ => exact ih htail
    | .chipSelect true _ _ => exact absurd rfl (h _ List.mem_cons_self)

namespace Decoder

open Script (Answers)

/-- The last packet of a list is what a decoder goes by that has just been given an assertion. -/
theorem answers_drain_opened (d : Decoder) (before : List Spi.Packet) (start stop : Nat) :
    Answers (Script.drain feed) (d, before ++ [.chipSelect true start stop]) fun _ s _ =>
      s.1.selected = true ∧ s.1.Saw start [] := by
  induction before generalizing d with
  | nil =>
    apply Answers.drain_cons
    apply (answers_assert start stop).mono
    intro _ d' xs hassert
    exact .drain_nil ⟨hassert.1, hassert.2.1⟩
  | cons p before ih =>
    apply Answers.drain_cons
    exact Answers.of_result ((repeatable_feed p).result d) (ih _)

end Decoder

theorem opened_saw (name : String) (before : List Spi.Packet) (start stop : Nat) :
    (opened name before start stop).selected = true ∧
      (opened name before start stop).Saw start [] := by
  obtain ⟨_, s, xs, events, hplayed, hs⟩ :=
    (Decoder.answers_drain_opened { name } before start stop).played (#[] : Array Annotation)
  have hopened : opened name before start stop = s.1 := congrArg (fun p => p.state.1) hplayed
  rwa [hopened]

theorem framing_of_answers {d : Decoder} {packets : List Spi.Packet}
    (P : List Annotation → Prop)
    (h : Script.Answers (Script.drain Decoder.feed) (d, packets) fun _ _ xs =>
      P (xs.filter isFraming)) : P (framing d packets) := by
  obtain ⟨_, s, xs, events, hplayed, hxs⟩ := h.played (#[] : Array Annotation)
  have hrun : framing d packets = (#[] ++ xs.toArray).toList.filter isFraming :=
    congrArg (fun p => p.sink.toList.filter isFraming) hplayed
  rw [hrun]
  simpa using hxs

/-- Of what is said of a window, the verdicts are the warnings of a wrong number of words. -/
theorem filter_toldAgain (w : Window) :
    w.toldAgain.filter isFraming = w.releases.flatMap (verdict w.start w.words.length) := by
  have haccess : w.access.filter isFraming = [] := by
    refine List.filter_eq_nil_iff.2 fun a ha => ?_
    obtain ⟨address, value, more, -, rfl⟩ := Window.mem_access ha
    simp [isFraming_accessed]
  have hverdicts : ∀ a ∈ w.releases.flatMap (verdict w.start w.words.length),
      isFraming a = true := by
    intro a ha
    obtain ⟨stop, -, hverdict⟩ := List.mem_flatMap.1 ha
    exact isFraming_verdict hverdict
  rw [Window.toldAgain, List.filter_append, haccess, List.filter_eq_self.2 hverdicts]
  rfl

/-- Packets without an assertion are the rest of a window. -/
theorem framing_unasserted {d : Decoder} {start : Nat} {packets : List Spi.Packet}
    (h : Unasserted packets) (hd : d.Saw start []) :
    let words := if d.selected then wordsIn packets else []
    framing d packets = (releasesIn packets).flatMap (verdict start words.length) := by
  intro words
  apply framing_of_answers (· = (releasesIn packets).flatMap (verdict start words.length))
  apply (Decoder.answers_drain packets hd).mono
  intro _ s xs hxs
  have hrest : xs = (Decoder.underWay d.selected start [] packets).toldAgain := by
    rw [hxs, h.windows, List.flatMap_nil, List.append_nil]
    rfl
  rw [hrest, filter_toldAgain]
  rfl

/-! ## One packet -/

namespace Decoder

open Script (Answers)

theorem answers_data_framing (d : Decoder) (w : Spi.Word) :
    Answers (data w) d fun _ _ xs => xs.filter isFraming = [] := by
  refine .bind (.read (.onlyIf (fun _ => ?_) fun _ => rfl))
  refine .bind (.bind (.read ?_))
  split
  · exact .modify (.modify rfl)
  · refine .emit (.modify ?_)
    simp [write_eq, isFraming_accessed]
  · exact .answer (.modify rfl)

/-- Nothing but a release warns of a wrong number of words, and it does so once at most. -/
theorem answers_feed_framing (d : Decoder) (p : Spi.Packet) :
    Answers (feed p) d fun _ _ xs =>
      (xs.filter isFraming).length ≤ if level? p = some false then 1 else 0 := by
  match p with
  | .transfer _ _ => exact .answer (Nat.le_refl 0)
  | .chipSelect true _ _ => exact .modify (Nat.le_refl 0)
  | .data w _ =>
    apply (answers_data_framing d w).mono
    intro _ _ xs hxs
    rw [hxs]
    exact Nat.zero_le _
  | .chipSelect false start stop =>
    have hrelease := repeatable_chipSelect false start stop
    refine .of_result (hrelease.result d) ?_
    exact Nat.le_trans (List.length_filter_le _ _) (hrelease.length_items d)

end Decoder

/-- **Each release warns once at most, and nothing else does.**  Between an assertion of chip select
and the next one or the end, all releases warn of the same number of words, those of the window that
the first of them has ended; so there are as many warnings of it as releases, or none if it had no
words or two.  Before the first assertion there are none at all. -/
theorem framing_releases (name : String) :
    (∀ (d : Decoder) (p : Spi.Packet),
      (framing d [p]).length ≤ if level? p = some false then 1 else 0) ∧
    (∀ packets, Unasserted packets → framing { name } packets = []) ∧
    ∀ (before : List Spi.Packet) (start stop : Nat) (inside : List Spi.Packet),
      Unasserted inside →
      let told := framing (opened name before start stop) inside
      let words := (wordsIn inside).length
      told = (releasesIn inside).flatMap (verdict start words) ∧
        told.length = (if words = 0 ∨ words = 2 then 0 else (releasesIn inside).length) ∧
        ((releasesIn inside).length ≤ 1 → told.length ≤ 1) := by
  refine ⟨fun d p => ?_, fun packets h => ?_, fun before start stop inside h => ?_⟩
  · apply framing_of_answers fun xs => xs.length ≤ if level? p = some false then 1 else 0
    apply Script.Answers.drain_cons
    apply (Decoder.answers_feed_framing d p).mono
    intro _ d' xs hxs
    refine .drain_nil ?_
    rwa [List.append_nil]
  · have hfresh : ({ name } : Decoder).Saw 0 [] := ⟨rfl, rfl, rfl⟩
    rw [framing_unasserted h hfresh]
    simp [verdict]
  · intro told words
    obtain ⟨hselected, hsaw⟩ := opened_saw name before start stop
    have htold : told = (releasesIn inside).flatMap (verdict start words) := by
      have hrest := framing_unasserted h hsaw
      rwa [hselected] at hrest
    have hlength : told.length =
        if words = 0 ∨ words = 2 then 0 else (releasesIn inside).length := by
      rw [htold, List.length_flatMap]
      simp only [length_verdict, List.map_const', List.sum_replicate_nat]
      split <;> simp
    refine ⟨htold, hlength, fun honce => ?_⟩
    rw [hlength]
    split
    · exact Nat.zero_le 1
    · exact honce

/-- A word without a window, a window of three words that is released once, and one of them that is
released again behind another word. -/
theorem framing_releases_overlong :
    let outside : List Spi.Packet := [.data ⟨7, 1, 9⟩ none, .chipSelect false 10 11]
    let once : List Spi.Packet := [.data ⟨3, 21, 29⟩ none, .data ⟨1, 29, 37⟩ none,
      .data ⟨5, 37, 45⟩ none, .chipSelect false 46 47]
    let again : List Spi.Packet := once ++ [.data ⟨9, 50, 58⟩ none, .chipSelect false 60 61]
    Unasserted outside ∧ framing {} outside = [] ∧
      Unasserted once ∧ (releasesIn once).length ≤ 1 ∧
      (framing (opened "max7219" outside 20 20) once).length ≤ 1 ∧
      Unasserted again ∧ framing (opened "max7219" outside 20 20) again =
        [.warning 20 47 "Overlong write", .warning 20 61 "Overlong write"] := by
  intro outside once again
  obtain ⟨-, hbefore, hinside⟩ := framing_releases "max7219"
  have houtside : Unasserted outside := by decide
  have honce : Unasserted once := by decide
  have hagain : Unasserted again := by decide
  have hreleases : (releasesIn once).length ≤ 1 := by decide
  exact ⟨houtside, hbefore outside houtside, honce, hreleases,
    (hinside outside 20 20 once honce).2.2 hreleases, hagain,
    (hinside outside 20 20 again hagain).1⟩

/-- One window, two releases, and two warnings of its only word. -/
theorem framing_twice :
    let inside : List Spi.Packet :=
      [.data ⟨1, 1, 9⟩ none, .chipSelect false 10 10, .chipSelect false 12 12]
    Unasserted inside ∧
      framing (opened "max7219" [] 0 0) inside =
        [.warning 0 10 "Short write", .warning 0 12 "Short write"] ∧
      ¬(framing (opened "max7219" [] 0 0) inside).length ≤ 1 := by
  intro inside
  have h : Unasserted inside := by decide
  obtain ⟨hselected, hsaw⟩ := opened_saw "max7219" [] 0 0
  have htwo : framing (opened "max7219" [] 0 0) inside =
      [.warning 0 10 "Short write", .warning 0 12 "Short write"] := by
    have hrest := framing_unasserted h hsaw
    rwa [hselected] at hrest
  exact ⟨h, htwo, by rw [htwo]; decide⟩

end Max7219

end BusDecode
