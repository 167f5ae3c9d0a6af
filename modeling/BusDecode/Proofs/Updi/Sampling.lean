import BusDecode.Proofs.LineCursor.Falls
import BusDecode.Proofs.Updi.Acquisition
import Mathlib.Algebra.Group.Nat.Defs

/-!
# What ten samples of a frame decide

A frame begins at a fall of the line.  Halves of a bit time, one rounded down and one rounded up,
add up to whole bit times, so the level of bit `k` is that of the line at `k` bit times and a half
after the fall, wherever its edges are and whether or not the line has ended by then
(`readByte_samples`).  The position ends at the last of these samples, so what comes after it is
left for the next frame.
-/

set_option autoImplicit false

namespace BusDecode

namespace Bits

theorem value_lt (bits : List Bool) : value bits < 2 ^ bits.length := by
  induction bits with
  | nil => decide
  | cons b bits ih =>
    have hb : b.toNat ≤ 1 := b.toNat_le
    rw [value, List.length_cons, Nat.pow_succ]
    omega

theorem testBit_value {bits : List Bool} {k : Nat} (hk : k < bits.length) :
    (value bits).testBit k = bits[k] := by
  induction bits generalizing k with
  | nil => simp at hk
  | cons b bits ih =>
    cases k with
    | zero => cases b <;> simp [value, Nat.testBit_zero]
    | succ k =>
      have hhalf : (b.toNat + 2 * value bits) / 2 = value bits := by
        have hb : b.toNat ≤ 1 := b.toNat_le
        omega
      rw [value, Nat.testBit_succ, hhalf]
      exact ih (Nat.lt_of_succ_lt_succ hk)

/-- The byte of eight levels has them as its bits. -/
theorem testBit_byte (level : Nat → Bool) {k : Nat} (hk : k < 8) :
    (byte ((List.range 8).map level)).toNat.testBit k = level k := by
  have hlt : value ((List.range 8).map level) < 2 ^ 8 := by
    simpa using value_lt ((List.range 8).map level)
  have hbyte : (byte ((List.range 8).map level)).toNat =
      value ((List.range 8).map level) := Nat.mod_eq_of_lt hlt
  rw [hbyte, testBit_value (by simpa using hk)]
  simp

end Bits

namespace Updi

open LineCursor (Rising Reachable levelOf nextFall? fallFrom?)
open Script (Answers Ends)

/-! ## Annotations of a frame -/

/-- The annotations of data bits from a position on.  A bit reaches at least to `reach`, where the
frame before it ends. -/
def shownBits (start period reach : Nat) (bits : List Bool) : List Annotation :=
  bits.mapIdx fun k bit =>
    ⟨.bit, "data-bit", start + k * period, max (start + (k + 1) * period) reach,
      [if bit then "1" else "0"]⟩

/-- The annotations of the start bit and the data bits of a frame. -/
def shownFrame (start period reach : Nat) (bits : List Bool) : List Annotation :=
  ⟨.bit, "start-bit", start, max (start + period) reach, ["Start bit", "Start", "S"]⟩ ::
    shownBits (start + period) period reach bits

theorem shownBits_cons (start period reach : Nat) (bit : Bool) (bits : List Bool) :
    shownBits start period reach (bit :: bits) =
      ⟨.bit, "data-bit", start, max (start + period) reach, [if bit then "1" else "0"]⟩ ::
        shownBits (start + period) period reach bits := by
  have hnext : ∀ k, start + (k + 1) * period = start + period + k * period := by
    intro k
    rw [Nat.add_mul]
    omega
  rw [shownBits, List.mapIdx_cons]
  simp only [hnext, Nat.zero_mul, Nat.add_zero]
  rfl

/-! ## Positions on a line -/

/-- The session has moved on to a position, has left the samples from there on, and nothing else
has changed. -/
structure Skipped (line : List Sample) (t : Nat) (s s' : Session (List Sample)) : Prop where
  now : s'.now = t
  follows : LineCursor.Follows line s'.decoder.cursor s'.source
  left : s'.source = s.source.filter (t ≤ ·.time)
  rest : ∃ c source, s' = s.on c source

namespace Skipped

variable {line : List Sample} {t t' : Nat} {s s' s'' : Session (List Sample)}

theorem bitTime (h : Skipped line t s s') : s'.decoder.bitTime = s.decoder.bitTime := by
  obtain ⟨c, source, rfl⟩ := h.rest
  rfl

theorem frameEnd (h : Skipped line t s s') : s'.frameEnd = s.frameEnd := by
  obtain ⟨c, source, rfl⟩ := h.rest
  rfl

theorem stop (h : Skipped line t s s') : s'.stop = max t s.frameEnd := by
  rw [Session.stop, h.now, h.frameEnd]

theorem refl (h : LineCursor.Follows line s.decoder.cursor s.source) : Skipped line s.now s s where
  now := rfl
  follows := h
  left := (List.filter_eq_self.2 fun x hx => decide_eq_true (h.ahead x hx)).symm
  rest := ⟨_, _, rfl⟩

theorem trans (h : Skipped line t s s') (h' : Skipped line t' s' s'') (ht : t ≤ t') :
    Skipped line t' s s'' where
  now := h'.now
  follows := h'.follows
  left := by
    rw [h'.left, h.left, List.filter_filter]
    refine List.filter_congr fun x _ => ?_
    rw [← Bool.decide_and, decide_eq_decide]
    omega
  rest := by
    obtain ⟨c, source, rfl⟩ := h.rest
    obtain ⟨c', source', rfl⟩ := h'.rest
    exact ⟨c', source', rfl⟩

/-- What comes after a fall that was waited for is left all the same. -/
theorem of_wait {c : LineCursor} {f : Nat}
    (h : Skipped line t (s.on c (s.source.filter (f < ·.time))) s') (ht : f < t) :
    Skipped line t s s' where
  now := h.now
  follows := h.follows
  left := by
    rw [h.left]
    change (s.source.filter (f < ·.time)).filter (t ≤ ·.time) = _
    rw [List.filter_filter]
    refine List.filter_congr fun x _ => ?_
    rw [← Bool.decide_and, decide_eq_decide]
    omega
  rest := by
    obtain ⟨c', source, rfl⟩ := h.rest
    exact ⟨c', source, rfl⟩

end Skipped

namespace Reception

variable {line : List Sample} {s : Session (List Sample)}

/-! ## Bits -/

theorem skip_samples (h : LineCursor.Follows line s.decoder.cursor s.source) (count : Nat) :
    Answers (skip count) s fun level s' xs =>
      level = levelOf line (s.now + count) ∧ xs = [] ∧ Skipped line (s.now + count) s s' := by
  obtain ⟨hshown, hfollows⟩ := h.skip count
  rcases hskip : LineCursor.skip count s.decoder.cursor s.source with ⟨answer, c, source⟩
  rw [hskip] at hshown hfollows
  obtain ⟨rfl, hnow, hleft⟩ := LineCursor.Outcome.mk.inj hshown
  exact answers_move hskip ⟨rfl, rfl, hnow, hfollows, hleft, c, source, rfl⟩

theorem sampleBit_samples (h : LineCursor.Follows line s.decoder.cursor s.source) :
    Answers sampleBit s fun level s' xs => level = levelOf line (s.now + s.decoder.bitTime / 2) ∧
      xs = [] ∧ Skipped line (s.now + s.decoder.bitTime) s s' := by
  unfold sampleBit
  refine .bind (.read (.bind ((skip_samples h _).mono ?_)))
  rintro level s₁ _ ⟨rfl, rfl, h₁⟩
  refine .bind ((skip_samples h₁.follows _).mono ?_)
  rintro _ s₂ _ ⟨-, rfl, h₂⟩
  have hend : s₁.now + (s.decoder.bitTime + 1) / 2 = s.now + s.decoder.bitTime := by
    rw [h₁.now]
    omega
  rw [hend] at h₂
  exact .answer ⟨rfl, rfl, h₁.trans h₂ (by omega)⟩

/-- Data bits are the levels at their middles, and are annotated as such. -/
theorem dataBits_samples (h : LineCursor.Follows line s.decoder.cursor s.source) (n : Nat) :
    Answers (dataBits n) s fun bits s' xs =>
      bits = (List.range n).map (fun k =>
        levelOf line (s.now + k * s.decoder.bitTime + s.decoder.bitTime / 2)) ∧
      xs = shownBits s.now s.decoder.bitTime s.frameEnd bits ∧
      Skipped line (s.now + n * s.decoder.bitTime) s s' := by
  induction n generalizing s with
  | zero => exact .answer ⟨rfl, rfl, by simpa using Skipped.refl h⟩
  | succ n ih =>
    refine .bind (.bind (.read (.bind ((sampleBit_samples h).mono ?_))))
    rintro bit s₁ _ ⟨rfl, rfl, h₁⟩
    refine .bind (.emit (.answer (.bind ((ih h₁.follows).mono ?_))))
    rintro bits s₂ _ ⟨rfl, rfl, h₂⟩
    rw [h₁.now, h₁.bitTime] at h₂ ⊢
    have hnext : ∀ k, s.now + s.decoder.bitTime + k * s.decoder.bitTime =
        s.now + (k + 1) * s.decoder.bitTime := by
      intro k
      rw [Nat.add_mul]
      omega
    rw [hnext] at h₂
    refine .answer ⟨?_, ?_, h₁.trans h₂ ?_⟩
    · rw [List.range_succ_eq_map, List.map_cons, List.map_map]
      simp only [hnext, Nat.zero_mul, Nat.add_zero]
      rfl
    · rw [shownBits_cons, h₁.stop, h₁.frameEnd]
      simp only [List.append_nil]
      rfl
    · rw [Nat.add_mul]
      omega

/-- The level at the middle of the stop bits decides what they are annotated as. -/
theorem stopBits_samples (h : LineCursor.Follows line s.decoder.cursor s.source) :
    Answers stopBits s fun stopped s' xs =>
      stopped = levelOf line (s.now + s.decoder.bitTime / 2) ∧
      xs = [if stopped then ⟨.bit, "stop-bit", s.now, s.now + 2 * s.decoder.bitTime,
          ["Stop bit", "Stop", "T"]⟩
        else .warning s.now (s.now + 2 * s.decoder.bitTime) "Frame error"] ∧
      ∃ s₁, Skipped line (s.now + s.decoder.bitTime / 2) s s₁ ∧
        s' = { s₁ with frameEnd := s.now + 2 * s.decoder.bitTime } := by
  unfold stopBits
  refine .bind (.read (.bind (.read (.bind ((skip_samples h _).mono ?_)))))
  rintro level s₁ _ ⟨rfl, rfl, h₁⟩
  have hstop : Session.stop { s₁ with frameEnd := s.now + 2 * s.decoder.bitTime } =
      s.now + 2 * s.decoder.bitTime := by
    change max s₁.now (s.now + 2 * s.decoder.bitTime) = _
    rw [h₁.now]
    omega
  refine .bind (.modify (.bind (.ite (fun htrue => .emit ?_) fun hfalse => .emit ?_)))
  · refine .answer ⟨rfl, ?_, s₁, h₁, rfl⟩
    rw [if_pos htrue, hstop]
    rfl
  · refine .answer ⟨rfl, ?_, s₁, h₁, rfl⟩
    rw [if_neg hfalse, hstop]
    rfl

/-! ## The start bit -/

section Start

variable {x : Sample}

theorem startBit_none (hline : Rising line)
    (hreachable : Reachable line s.decoder.cursor s.source)
    (hx : nextFall? line s.source = none) :
    Ends startBit s (fun _ _ _ => False) fun e s' xs =>
      e = .halt .endOfStream ∧ xs = [] ∧ ∃ c source, s' = s.on c source := by
  obtain ⟨c, rest, hwait⟩ := hreachable.wait_none hline hx
  refine .bind_error ?_ ⟨rfl, rfl, c, rest, rfl⟩
  rw [orHalt, Script.run_mapError, waitEdge, run_move hwait]
  rfl

/-- From the fall on, the start bit is checked at its middle. -/
theorem ends_startBit {Q : Nat → Session (List Sample) → List Annotation → Prop}
    {E : Interrupt → Session (List Sample) → List Annotation → Prop} (hline : Rising line)
    (hreachable : Reachable line s.decoder.cursor s.source) (hperiod : 1 ≤ s.decoder.bitTime)
    (hx : nextFall? line s.source = some x)
    (hhigh : levelOf line (x.time + s.decoder.bitTime / 2) = true →
      ∀ c source, E .resync ((s.on c source).count fun n =>
        { n with frameErrors := n.frameErrors + 1 }) [])
    (hlow : levelOf line (x.time + s.decoder.bitTime / 2) = false →
      ∀ s', Skipped line (x.time + s.decoder.bitTime) s s' → Q x.time s'
        [⟨.bit, "start-bit", x.time, max (x.time + s.decoder.bitTime) s.frameEnd,
          ["Start bit", "Start", "S"]⟩]) :
    Ends startBit s Q E := by
  obtain ⟨c, hwait, hnow, hfollows⟩ := hreachable.wait_fall hline hx
  have hfall : (orHalt (waitEdge .falling none) : Reception (List Sample) Interrupt Bool).run s =
      ⟨.ok true, s.on c (s.source.filter (x.time < ·.time)), []⟩ := by
    rw [orHalt, Script.run_mapError, waitEdge, run_move hwait]
    rfl
  -- the session on the fall
  generalize hs₀ : s.on c (s.source.filter (x.time < ·.time)) = s₀ at hfall
  have hnow₀ : s₀.now = x.time := by rw [← hs₀]; exact hnow
  have hperiod₀ : s₀.decoder.bitTime = s.decoder.bitTime := by rw [← hs₀]; rfl
  have hfollows₀ : LineCursor.Follows line s₀.decoder.cursor s₀.source := by rwa [← hs₀]
  unfold startBit
  refine .bind_run hfall (.bind (.read (.bind (.read (.bind (.mapError ?_))))))
  refine (skip_samples hfollows₀ _).imp ?_ fun _ _ _ hfalse => hfalse.elim
  rintro level s₁ _ ⟨rfl, rfl, h₁⟩
  rw [hnow₀, hperiod₀] at h₁ ⊢
  refine .ite (fun hlevel => ?_) fun hlevel => ?_
  · obtain ⟨c₁, source₁, rfl⟩ := h₁.rest
    subst hs₀
    exact .bind (.note (.bind (.modify (.fail (hhigh hlevel c₁ source₁)))))
  · refine .bind (.mapError ((skip_samples h₁.follows _).imp ?_ fun _ _ _ hfalse => hfalse.elim))
    rintro _ s₂ _ ⟨-, rfl, h₂⟩
    have hend : s₁.now + (s.decoder.bitTime + 1) / 2 = x.time + s.decoder.bitTime := by
      rw [h₁.now]
      omega
    rw [hend] at h₂
    have h₂' := h₁.trans h₂ (by omega)
    rw [← hs₀] at h₂'
    have hstart := h₂'.of_wait (by omega)
    refine .bind (.emit (.answer ?_))
    rw [hstart.stop]
    exact hlow (Bool.eq_false_iff.2 hlevel) s₂ hstart

/-! ## A frame -/

/-- Past its start bit, a frame ends one way or the other, with the session at its last sample. -/
theorem ends_readByte {Q : UInt8 → Session (List Sample) → List Annotation → Prop}
    {E : Interrupt → Session (List Sample) → List Annotation → Prop} {f p : Nat}
    {bits : List Bool} (hline : Rising line)
    (hreachable : Reachable line s.decoder.cursor s.source) (hperiod : 1 ≤ s.decoder.bitTime)
    (hx : nextFall? line s.source = some x) (hf : x.time = f) (hp : s.decoder.bitTime = p)
    (hbits : (List.range 8).map (fun k => levelOf line (f + (k + 1) * p + p / 2)) = bits)
    (hlow : levelOf line (f + p / 2) = false)
    (hstopped : levelOf line (f + 9 * p + p / 2) = true →
      ∀ s', Skipped line (f + 9 * p + p / 2) s s' →
        Q (Bits.byte bits) { s' with frameEnd := f + 11 * p, byteStart := f }
          (shownFrame f p s.frameEnd bits ++
            [⟨.bit, "stop-bit", f + 9 * p, f + 11 * p, ["Stop bit", "Stop", "T"]⟩,
              ⟨.byte, "byte-value", f, f + 11 * p, [Numeral.hexByte (Bits.byte bits)]⟩]))
    (hbroken : levelOf line (f + 9 * p + p / 2) = false →
      ∀ s', Skipped line (f + 9 * p + p / 2) s s' →
        E .resync (Session.count (fun n => { n with frameErrors := n.frameErrors + 1 })
            { s' with frameEnd := f + 11 * p })
          (shownFrame f p s.frameEnd bits ++
            [.warning (f + 9 * p) (f + 11 * p) "Frame error"])) :
    Ends readByte s Q E := by
  have hnext : ∀ k, f + p + k * p = f + (k + 1) * p := by
    intro k
    rw [Nat.add_mul]
    omega
  have hstop : f + 9 * p + 2 * p = f + 11 * p := by omega
  unfold readByte
  rw [← hf, ← hp] at hlow
  refine .bind (ends_startBit hline hreachable hperiod hx (fun hhigh => ?_) fun _ s₁ h₁ => ?_)
  · rw [hlow] at hhigh
    cases hhigh
  rw [hf, hp] at h₁ ⊢
  have hp₁ : s₁.decoder.bitTime = p := h₁.bitTime.trans hp
  refine .bind (.mapError ((dataBits_samples h₁.follows 8).imp ?_ fun _ _ _ hfalse => hfalse.elim))
  rintro _ s₂ _ ⟨rfl, rfl, h₂⟩
  rw [h₁.now, hp₁, hnext] at h₂
  simp only [h₁.now, hp₁, h₁.frameEnd, hnext, hbits]
  have hp₂ : s₂.decoder.bitTime = p := h₂.bitTime.trans hp₁
  refine .bind (.mapError ((stopBits_samples h₂.follows).imp ?_ fun _ _ _ hfalse => hfalse.elim))
  rintro _ _ _ ⟨rfl, rfl, s₃, h₃, rfl⟩
  rw [h₂.now, hp₂] at h₃ ⊢
  have hlast := (h₁.trans h₂ (by omega)).trans h₃ (by omega)
  have hreach : Session.stop { s₃ with frameEnd := f + 9 * p + 2 * p, byteStart := f } =
      f + 11 * p := by
    change max s₃.now (f + 9 * p + 2 * p) = _
    rw [hlast.now]
    omega
  refine .ite (fun hlevel => ?_) fun hlevel => ?_
  · refine .bind (.modify (.bind (.note (.bind (.emit (.answer ?_))))))
    rw [if_pos hlevel, hreach, hstop]
    simpa [shownFrame] using hstopped hlevel s₃ hlast
  · refine .bind (.note (.bind (.modify (.fail ?_))))
    rw [if_neg hlevel, hstop]
    simpa [shownFrame] using hbroken (Bool.eq_false_iff.2 hlevel) s₃ hlast

/-- **A frame** that begins at the next fall of the line.  If the line is high again at the middle
of the start bit, nothing is annotated and the command is dropped.  Otherwise the bits of the byte
are the levels at the middles of the data bits, and the level at the middle of the stop bits decides
whether the byte is received or the command is dropped with a warning.  The position is then that of
the last sample, and no fall from there on is missed. -/
theorem readByte_samples (hline : Rising line)
    (hreachable : Reachable line s.decoder.cursor s.source) (hperiod : 1 ≤ s.decoder.bitTime) :
    (nextFall? line s.source = none →
      Ends readByte s (fun _ _ _ => False) fun e s' xs => e = .halt .endOfStream ∧ xs = [] ∧
        ∃ c, s'.decoder = { s.decoder with cursor := c }) ∧
    ∀ x, nextFall? line s.source = some x →
      let p := s.decoder.bitTime
      let f := x.time
      let last := f + 9 * p + p / 2
      let bits := (List.range 8).map fun k => levelOf line (f + (k + 1) * p + p / 2)
      (levelOf line (f + p / 2) = true →
        Ends readByte s (fun _ _ _ => False) fun e s' xs => e = .resync ∧ xs = [] ∧
          ∃ c, s'.decoder = { s.decoder with
            cursor := c
            stats.frameErrors := s.decoder.stats.frameErrors + 1 }) ∧
      (levelOf line (f + p / 2) = false →
        (levelOf line last = true →
          Answers readByte s fun value s' xs =>
            (∀ k < 8, value.toNat.testBit k = levelOf line (f + (k + 1) * p + p / 2)) ∧
            xs = shownFrame f p s.frameEnd bits ++
              [⟨.bit, "stop-bit", f + 9 * p, f + 11 * p, ["Stop bit", "Stop", "T"]⟩,
                ⟨.byte, "byte-value", f, f + 11 * p, [Numeral.hexByte value]⟩] ∧
            s'.now = last ∧ nextFall? line s'.source = fallFrom? line last ∧
            ∃ c, s'.decoder = { s.decoder with cursor := c }) ∧
        (levelOf line last = false →
          Ends readByte s (fun _ _ _ => False) fun e s' xs => e = .resync ∧
            xs = shownFrame f p s.frameEnd bits ++
              [.warning (f + 9 * p) (f + 11 * p) "Frame error"] ∧
            s'.now = last ∧ nextFall? line s'.source = fallFrom? line last ∧
            ∃ c, s'.decoder = { s.decoder with
              cursor := c
              stats.frameErrors := s.decoder.stats.frameErrors + 1 })) := by
  constructor
  · intro hx
    refine .bind ((startBit_none hline hreachable hx).imp (fun _ _ _ hfalse => hfalse.elim) ?_)
    rintro e s' _ ⟨rfl, rfl, c, source, rfl⟩
    exact ⟨rfl, rfl, c, rfl⟩
  intro x hx p f last bits
  -- what is left when the frame has been read
  have hleft : ∀ s', Skipped line last s s' → nextFall? line s'.source = fallFrom? line last := by
    intro s' h
    rw [h.left]
    exact LineCursor.nextFall_filter hline (hreachable.suffix hline)
      (LineCursor.mem_of_nextFall hx).2 (by omega)
  refine ⟨fun hhigh => ?_, fun hlow => ⟨fun hlevel => ?_, fun hlevel => ?_⟩⟩
  · refine .bind (ends_startBit hline hreachable hperiod hx (fun _ c source => ?_) fun hlow => ?_)
    · exact ⟨rfl, rfl, c, rfl⟩
    · rw [hhigh] at hlow
      cases hlow
  · refine ends_readByte hline hreachable hperiod hx rfl rfl rfl hlow (fun _ s' h => ?_) ?_
    · obtain ⟨c, source, rfl⟩ := h.rest
      exact ⟨fun k hk => Bits.testBit_byte _ hk, rfl, h.now, hleft (s.on c source) h, c, rfl⟩
    · intro hlevel'
      rw [hlevel] at hlevel'
      cases hlevel'
  · refine ends_readByte hline hreachable hperiod hx rfl rfl rfl hlow ?_ fun _ s' h => ?_
    · intro hlevel'
      rw [hlevel] at hlevel'
      cases hlevel'
    · obtain ⟨c, source, rfl⟩ := h.rest
      exact ⟨rfl, rfl, h.now, hleft (s.on c source) h, c, rfl⟩

/-- A frame with a repeated level, edges right where the line is sampled, two edges within one bit,
and a line that ends before its byte does. -/
theorem readByte_samples_cut :
    let line : List Sample := [⟨0, true⟩, ⟨5, true⟩, ⟨10, false⟩, ⟨14, true⟩, ⟨17, false⟩,
      ⟨18, true⟩, ⟨19, false⟩, ⟨22, true⟩]
    let s : Session (List Sample) := { decoder := { bitTime := 3 }, source := line }
    Rising line ∧ Reachable line s.decoder.cursor s.source ∧ 1 ≤ s.decoder.bitTime ∧
      nextFall? line s.source = some ⟨10, false⟩ ∧ levelOf line 11 = false ∧
      levelOf line 38 = true ∧
      Answers readByte s fun value s' _ =>
        (∀ k < 8, value.toNat.testBit k = Nat.testBit 0xF9 k) ∧ s'.now = 38 ∧
        nextFall? line s'.source = none := by
  intro line s
  have hline : Rising line := by decide
  have hreachable : Reachable line s.decoder.cursor s.source := .start
  have hperiod : 1 ≤ s.decoder.bitTime := by decide
  have hx : nextFall? line s.source = some ⟨10, false⟩ := by decide
  have hlow : levelOf line 11 = false := by decide
  have hlast : levelOf line 38 = true := by decide
  refine ⟨hline, hreachable, hperiod, hx, hlow, hlast, ?_⟩
  have hframe := (readByte_samples hline hreachable hperiod).2 _ hx
  refine ((hframe.2 (by decide)).1 (by decide)).mono ?_
  rintro value s' xs ⟨hvalue, -, hnow, hleft, -⟩
  refine ⟨fun k hk => ?_, hnow.trans (by decide), hleft.trans (by decide)⟩
  have hlevels : ∀ k < 8, levelOf line (10 + (k + 1) * 3 + 3 / 2) = Nat.testBit 0xF9 k := by decide
  exact (hvalue k hk).trans (hlevels k hk)

end Start

end Reception

end Updi

end BusDecode
