import BusDecode.Proofs.LineCursor
import BusDecode.Proofs.Updi.Dialogue

/-!
# Receiving from a known wave

What the scripts of a UPDI line answer when the wave of the line is known at the few places where
they look: a byte is its levels at the middles of its bits (`answers_readByte`), and a sync byte
gives away its period by its edges (`run_sync`).  Nothing is said here about how a wave comes to
have these levels.
-/

set_option autoImplicit false

namespace BusDecode

namespace Updi

open LineCursor (OnWave Settled Reads)
open Script (Answers Ends)

/-! ## What annotations account for -/

def OnBit (a : Annotation) : Prop :=
  a.kind = .bit ∧ a.row ∈ ["start-bit", "data-bit", "stop-bit"]

theorem onBit {row : String} (h : row ∈ ["start-bit", "data-bit", "stop-bit"]) (start stop : Nat)
    (texts : List String) : OnBit ⟨.bit, row, start, stop, texts⟩ :=
  ⟨rfl, h⟩

def rowTexts (row : String) (xs : List Annotation) : List (List String) :=
  (xs.filter (·.row = row)).map Annotation.texts

/-- Rows that show the line rather than what is said on it. -/
def lineRows : List String :=
  ["start-bit", "data-bit", "stop-bit", "byte-value", "sync"]

/-- The annotations are the bytes of frames without errors and what was made of them. -/
structure Accounts (xs : List Annotation) (bytes : List UInt8) (ms : List Mark) : Prop where
  bytes : rowTexts "byte-value" xs = bytes.map fun b => [Numeral.hexByte b]
  said : said xs = ms
  orderly : ∀ a ∈ xs, isSaid a = true ∨ a.row ∈ lineRows

namespace Accounts

variable {xs ys : List Annotation} {bs bs' : List UInt8} {ms ms' : List Mark}

theorem nil : Accounts [] [] [] :=
  ⟨rfl, rfl, by simp⟩

theorem append (h : Accounts xs bs ms) (h' : Accounts ys bs' ms') :
    Accounts (xs ++ ys) (bs ++ bs') (ms ++ ms') where
  bytes := by simp only [Updi.rowTexts, List.filter_append, List.map_append, ← h.bytes, ← h'.bytes]
  said := by rw [said_append, h.said, h'.said]
  orderly := List.forall_mem_append.2 ⟨h.orderly, h'.orderly⟩

theorem byte (b : UInt8) (start stop : Nat) :
    Accounts [⟨.byte, "byte-value", start, stop, [Numeral.hexByte b]⟩] [b] [] where
  bytes := rfl
  said := rfl
  orderly := by simp [isSaid, lineRows]

theorem sync (start stop : Nat) : Accounts [⟨.field, "sync", start, stop, ["SYNC"]⟩] [] [] where
  bytes := rfl
  said := rfl
  orderly := by simp [isSaid, lineRows]

theorem bits (h : ∀ a ∈ xs, OnBit a) : Accounts xs [] [] := by
  have hplain : ∀ a ∈ xs, Plain a := fun a ha => plain_bit (h a ha).1 (h a ha).2
  refine ⟨?_, said_plain hplain, fun a ha => .inr ?_⟩
  · have hnone : xs.filter (·.row = "byte-value") = [] := by
      rw [List.filter_eq_nil_iff]
      intro a ha
      simp [(hplain a ha).not_byte]
    rw [Updi.rowTexts, hnone]
    rfl
  · exact List.mem_append_left _ (h a ha).2

theorem mark {a : Annotation} (h : isSaid a = true) (hrow : a.row ≠ "byte-value") :
    Accounts [a] [] [mark a] where
  bytes := by simp [Updi.rowTexts, hrow]
  said := by simp [Updi.said, h]
  orderly := by simpa using .inl h

/-- A row of what was said can be read off the marks alone. -/
theorem rowTexts {row : String} (h : Accounts xs bs ms) (hrow : row ∉ lineRows) :
    Updi.rowTexts row xs = Mark.inRow row ms := by
  rw [← h.said, Updi.said, Mark.inRow, List.filter_map, List.map_map, List.filter_filter]
  have hsame : xs.filter (·.row = row) =
      xs.filter fun a => decide ((Updi.mark a).row = row) && isSaid a := by
    refine List.filter_congr fun a ha => ?_
    by_cases harow : a.row = row
    · have hsaid : isSaid a = true :=
        (h.orderly a ha).resolve_right fun hline => hrow (harow ▸ hline)
      rw [hsaid, Bool.and_true]
      rfl
    · simp [Updi.mark, harow]
  rw [Updi.rowTexts, hsame]
  rfl

end Accounts

/-! ## Levels and edges of a frame -/

/-- The level of a line in the bits of a byte: the start bit, the data bits from the lowest on, and
then stop bits. -/
def bitLevel (b : UInt8) : Nat → Bool
  | 0 => false
  | k + 1 => if k < 8 then b.toNat.testBit k else true

theorem byte_bitLevel (b : UInt8) :
    Bits.byte ((List.range 8).map fun i => bitLevel b (i + 1)) = b := by
  have h : ∀ n < 256, Bits.byte ((List.range 8).map fun i => bitLevel (UInt8.ofNat n) (i + 1)) =
      UInt8.ofNat n := by
    decide +kernel
  simpa using h b.toNat b.toNat_lt

variable {wave : Nat → Bool}

/-- The edges of a sync byte: the levels of its bits in turn, each for a credible time. -/
structure SyncEdges (wave : Nat → Bool) (maxBitTime : Nat) (e : Nat → Nat) : Prop where
  rising : ∀ k < 8, e k < e (k + 1)
  credible : ∀ k < 8, e (k + 1) ≤ e k + maxBitTime
  level : ∀ k < 8, ∀ t, e k ≤ t → t < e (k + 1) → wave t = bitLevel 0x55 k
  last : wave (e 8) = bitLevel 0x55 8

def measured (e : Nat → Nat) : Nat :=
  (e 8 - e 0 + 4) / 8

namespace SyncEdges

variable {maxBitTime : Nat} {e : Nat → Nat}

theorem level_edge (h : SyncEdges wave maxBitTime e) {k : Nat} (hk : k ≤ 8) :
    wave (e k) = bitLevel 0x55 k := by
  rcases Nat.lt_or_eq_of_le hk with hlt | rfl
  · exact h.level k hlt (e k) (Nat.le_refl _) (h.rising k hlt)
  · exact h.last

theorem level_next (h : SyncEdges wave maxBitTime e) {k : Nat} (hk : k < 8) :
    wave (e (k + 1)) = !bitLevel 0x55 k := by
  have hnext : ∀ k < 8, bitLevel 0x55 (k + 1) = !bitLevel 0x55 k := by decide
  rw [h.level_edge hk, hnext k hk]

theorem measured_pos (h : SyncEdges wave maxBitTime e) : 0 < measured e := by
  have hlater : ∀ k ≤ 8, e 0 + k ≤ e k := by
    intro k hk
    induction k with
    | zero => exact Nat.le_refl _
    | succ k ih =>
      have := h.rising k hk
      have := ih (by omega)
      omega
  have := hlater 8 (Nat.le_refl _)
  unfold measured
  omega

end SyncEdges

/-! ## Positions on a wave -/

/-- The session has moved on to a position on the wave and has annotated nothing but bits. -/
structure Reached (wave : Nat → Bool) (e : Nat) (s s' : Session (List Sample))
    (xs : List Annotation) : Prop where
  now : s'.now = e
  onWave : OnWave wave s'.decoder.cursor s'.source
  decoder : s'.decoder = { s.decoder with cursor := s'.decoder.cursor }
  bits : ∀ a ∈ xs, OnBit a

namespace Reached

variable {e e' : Nat} {s s' s'' : Session (List Sample)} {xs ys : List Annotation}

theorem bitTime (h : Reached wave e s s' xs) : s'.decoder.bitTime = s.decoder.bitTime := by
  rw [h.decoder]

theorem trans (h : Reached wave e s s' xs) (h' : Reached wave e' s' s'' ys) :
    Reached wave e' s s'' (xs ++ ys) where
  now := h'.now
  onWave := h'.onWave
  decoder := by rw [h'.decoder, h.decoder]
  bits := List.forall_mem_append.2 ⟨h.bits, h'.bits⟩

/-- One more bit is annotated where the session is. -/
theorem emit {a : Annotation} (h : Reached wave e s s' xs) (ha : OnBit a) :
    Reached wave e s s' (xs ++ [a]) :=
  h.trans ⟨h.now, h.onWave, rfl, by simpa using ha⟩

end Reached

namespace Reception

variable {s : Session (List Sample)}

/-! ## Bits -/

theorem run_move {step : LineCursor → List Sample → Except Halt Bool × LineCursor × List Sample}
    {r : Except Halt Bool} {c : LineCursor} {rest : List Sample}
    (h : step s.decoder.cursor s.source = (r, c, rest)) :
    (move step).run s = ⟨r, { s with decoder.cursor := c, source := rest }, []⟩ := by
  simp [move, h]

theorem answers_move {step : LineCursor → List Sample → Except Halt Bool × LineCursor × List Sample}
    {b : Bool} {c : LineCursor} {rest : List Sample}
    {Q : Bool → Session (List Sample) → List Annotation → Prop}
    (h : step s.decoder.cursor s.source = (.ok b, c, rest))
    (hQ : Q b { s with decoder.cursor := c, source := rest } []) : Answers (move step) s Q := by
  unfold Answers Script.Ends
  rw [run_move h]
  exact hQ

theorem answers_skip (h : OnWave wave s.decoder.cursor s.source) (n : Nat) :
    Answers (skip n) s fun b s' xs => b = wave (s.now + n) ∧ Reached wave (s.now + n) s s' xs := by
  obtain ⟨c, rest, hskip, hnow, hwave⟩ := LineCursor.skip_onWave h n
  exact answers_move hskip ⟨rfl, hnow, hwave, rfl, by simp⟩

theorem answers_sampleBit (h : OnWave wave s.decoder.cursor s.source) :
    Answers sampleBit s fun b s' xs => b = wave (s.now + s.decoder.bitTime / 2) ∧
      Reached wave (s.now + s.decoder.bitTime) s s' xs := by
  unfold sampleBit
  refine .bind (.read (.bind ((answers_skip h _).mono ?_)))
  rintro level s₁ xs ⟨rfl, h₁⟩
  refine .bind ((answers_skip h₁.onWave _).mono ?_)
  rintro _ s₂ ys ⟨_, h₂⟩
  refine .answer ⟨rfl, ?_⟩
  have hnow : s₁.now + (s.decoder.bitTime + 1) / 2 = s.now + s.decoder.bitTime := by
    rw [h₁.now]
    omega
  rw [hnow] at h₂
  simpa using h₁.trans h₂

theorem answers_dataBit (h : OnWave wave s.decoder.cursor s.source) (label : Option String) :
    Answers (dataBit label) s fun b s' xs => b = wave (s.now + s.decoder.bitTime / 2) ∧
      Reached wave (s.now + s.decoder.bitTime) s s' xs := by
  unfold dataBit
  refine .bind (.read (.bind ((answers_sampleBit h).mono ?_)))
  rintro bit s₁ xs ⟨rfl, h₁⟩
  refine .bind (.emit (.answer ⟨rfl, ?_⟩))
  simpa using h₁.emit (onBit (by decide) _ _ _)

/-- Data bits are the levels at their middles. -/
theorem answers_dataBits (h : OnWave wave s.decoder.cursor s.source) (n : Nat) :
    Answers (dataBits n) s fun bs s' xs =>
      bs = (List.range n).map (fun i =>
        wave (s.now + i * s.decoder.bitTime + s.decoder.bitTime / 2)) ∧
      Reached wave (s.now + n * s.decoder.bitTime) s s' xs := by
  induction n generalizing s with
  | zero => exact .answer ⟨rfl, by simp, h, rfl, by simp⟩
  | succ n ih =>
    refine .bind ((answers_dataBit h none).mono ?_)
    rintro bit s₁ xs ⟨rfl, h₁⟩
    refine .bind ((ih h₁.onWave).mono ?_)
    rintro bits s₂ ys ⟨rfl, h₂⟩
    rw [h₁.now, h₁.bitTime] at h₂ ⊢
    refine .answer ⟨?_, ?_⟩
    · rw [List.range_succ_eq_map, List.map_cons, List.map_map]
      simp only [Nat.zero_mul, Nat.add_zero, List.cons.injEq, true_and]
      refine List.map_congr_left fun i _ => ?_
      congr 1
      simp only [Nat.succ_eq_add_one, Nat.add_mul]
      omega
    · have hend : s.now + s.decoder.bitTime + n * s.decoder.bitTime =
          s.now + (n + 1) * s.decoder.bitTime := by
        rw [Nat.add_mul]
        omega
      rw [hend] at h₂
      simpa using h₁.trans h₂

theorem answers_stopBits (h : OnWave wave s.decoder.cursor s.source)
    (hhigh : wave (s.now + s.decoder.bitTime / 2) = true) :
    Answers stopBits s fun b s' xs => b = true ∧
      Reached wave (s.now + s.decoder.bitTime / 2) s s' xs := by
  unfold stopBits
  refine .bind (.read (.bind (.read (.bind ((answers_skip h _).mono ?_)))))
  rintro level s₁ xs ⟨rfl, h₁⟩
  rw [hhigh]
  refine .bind (.modify (.bind (.emit (.answer ⟨rfl, ?_⟩))))
  have hend : Reached wave (s.now + s.decoder.bitTime / 2) s
      { s₁ with frameEnd := s.now + 2 * s.decoder.bitTime } xs :=
    ⟨h₁.now, h₁.onWave, h₁.decoder, h₁.bits⟩
  simpa using hend.emit (onBit (by decide) _ _ _)

/-! ## Edges -/

theorem answers_fall {now e : Nat} (h : Reads wave now s.decoder.cursor s.source)
    (hnow : now < e) (hhigh : ∀ t, now ≤ t → t < e → wave t = true) (hlow : wave e = false) :
    Answers (waitEdge .falling none) s fun _ s' xs =>
      Reached wave e s s' xs ∧ Settled wave s'.decoder.cursor s'.source := by
  obtain ⟨rest, hwait, hsettled⟩ := LineCursor.waitEdge_fall h hnow hhigh hlow
  exact answers_move hwait ⟨⟨rfl, hsettled.toOnWave, rfl, by simp⟩, hsettled⟩

theorem answers_change {edge : Edge} {budget e : Nat} {level : Bool}
    (h : Settled wave s.decoder.cursor s.source) (hnow : s.now < e) (hbudget : e ≤ s.now + budget)
    (hbefore : ∀ t, s.now ≤ t → t < e → wave t = level) (hat : wave e = !level)
    (hmatch : edge.matches (!level) = true) :
    Answers (waitEdge edge (some budget)) s fun _ s' xs =>
      Reached wave e s s' xs ∧ Settled wave s'.decoder.cursor s'.source := by
  obtain ⟨rest, hwait, hsettled⟩ :=
    LineCursor.waitEdge_change h hnow hbudget hbefore hat hmatch
  exact answers_move hwait ⟨⟨rfl, hsettled.toOnWave, rfl, by simp⟩, hsettled⟩

/-! ## Bytes -/

theorem answers_startBit {now e : Nat} (h : Reads wave now s.decoder.cursor s.source)
    (hnow : now < e) (hhigh : ∀ t, now ≤ t → t < e → wave t = true) (hlow : wave e = false)
    (hmiddle : wave (e + s.decoder.bitTime / 2) = false) :
    Answers startBit s fun start s' xs => start = e ∧
      Reached wave (e + s.decoder.bitTime) s s' xs := by
  unfold startBit orHalt
  refine .bind (.mapError ((answers_fall h hnow hhigh hlow).mono ?_))
  rintro _ s₀ xs₀ ⟨h₀, _⟩
  rw [← h₀.bitTime] at hmiddle ⊢
  refine .bind (.read (.bind (.read (.bind (.mapError ((answers_skip h₀.onWave _).mono ?_))))))
  rintro high s₁ xs ⟨rfl, h₁⟩
  rw [h₀.now] at h₁ ⊢
  rw [hmiddle]
  refine .ite (by simp) fun _ => ?_
  refine .bind (.mapError ((answers_skip h₁.onWave _).mono ?_))
  rintro _ s₂ ys ⟨_, h₂⟩
  have hend : s₁.now + (s₀.decoder.bitTime + 1) / 2 = e + s₀.decoder.bitTime := by
    rw [h₁.now]
    omega
  rw [hend] at h₂
  refine .bind (.emit (.answer ⟨rfl, ?_⟩))
  simpa using ((h₀.trans h₁).trans h₂).emit (onBit (by decide) _ _ _)

/-- A frame is received as its byte, and the session ends at the middle of the first stop bit. -/
theorem answers_readByte {now e : Nat} {b : UInt8} (h : Reads wave now s.decoder.cursor s.source)
    (hnow : now < e) (hhigh : ∀ t, now ≤ t → t < e → wave t = true) (hlow : wave e = false)
    (hbits : ∀ k ≤ 9, wave (e + k * s.decoder.bitTime + s.decoder.bitTime / 2) = bitLevel b k) :
    Answers readByte s fun value s' xs => value = b ∧
      s'.now = e + 9 * s.decoder.bitTime + s.decoder.bitTime / 2 ∧
      OnWave wave s'.decoder.cursor s'.source ∧
      s'.decoder = { s.decoder with cursor := s'.decoder.cursor } ∧ Accounts xs [b] [] := by
  unfold readByte
  have hstart := hbits 0 (by decide)
  rw [Nat.zero_mul, Nat.add_zero] at hstart
  refine .bind ((answers_startBit h hnow hhigh hlow hstart).mono ?_)
  rintro start s₁ xs ⟨rfl, h₁⟩
  refine .bind (.mapError ((answers_dataBits h₁.onWave 8).mono ?_))
  rintro bits s₂ ys ⟨rfl, h₂⟩
  rw [h₁.now, h₁.bitTime] at h₂ ⊢
  have hvalue : (List.range 8).map (fun i => wave (start + s.decoder.bitTime +
      i * s.decoder.bitTime + s.decoder.bitTime / 2)) =
      (List.range 8).map fun i => bitLevel b (i + 1) := by
    refine List.map_congr_left fun i hi => ?_
    rw [← hbits (i + 1) (by have := List.mem_range.1 hi; omega)]
    congr 1
    rw [Nat.add_mul]
    omega
  rw [hvalue, byte_bitLevel]
  have h₂' := h₁.trans h₂
  have hend : start + s.decoder.bitTime + 8 * s.decoder.bitTime =
      start + 9 * s.decoder.bitTime := by omega
  rw [hend] at h₂'
  have hstop : wave (s₂.now + s₂.decoder.bitTime / 2) = true := by
    rw [h₂'.now, h₂'.bitTime, hbits 9 (by decide)]
    rfl
  refine .bind (.mapError ((answers_stopBits h₂'.onWave hstop).mono ?_))
  rintro _ s₃ zs ⟨rfl, h₃⟩
  rw [h₂'.now, h₂'.bitTime] at h₃
  have h₃' := h₂'.trans h₃
  refine .ite (fun _ => ?_) (by simp)
  refine .bind (.modify (.bind (.note (.bind (.emit (.answer ⟨rfl, ?_⟩))))))
  refine ⟨h₃'.now, h₃'.onWave, h₃'.decoder, ?_⟩
  simpa using (Accounts.bits h₃'.bits).append (.byte b _ _)

/-! ## Syncs -/

theorem answers_measureBits {maxBitTime n j : Nat} {e : Nat → Nat}
    (h : SyncEdges wave maxBitTime e) (hj : j + n = 8) (hnow : s.now = e j)
    (hs : Settled wave s.decoder.cursor s.source) :
    Answers (measureBits maxBitTime n) s fun b s' xs => b = true ∧
      Reached wave (e 8) s s' xs := by
  induction n generalizing s j with
  | zero =>
    obtain rfl : j = 8 := hj
    exact .answer ⟨rfl, hnow, hs.toOnWave, rfl, by simp⟩
  | succ n ih =>
    have hlt : j < 8 := by omega
    have hrising := h.rising j hlt
    have hcredible := h.credible j hlt
    unfold measureBits
    refine .bind (.read (.bind ((answers_change (e := e (j + 1)) hs (by omega) (by omega) ?_
      (h.level_next hlt) rfl).mono ?_)))
    · rw [hnow]
      exact h.level j hlt
    rintro _ s₀ xs₀ ⟨h₀, hs₀⟩
    refine .bind (.read ?_)
    rw [h₀.now, hnow]
    refine .ite (fun hlong => absurd hlong (by omega)) fun _ => ?_
    refine .bind (.emit ((ih (j := j + 1) (by omega) h₀.now hs₀).mono ?_))
    rintro _ s₁ xs ⟨rfl, h₁⟩
    refine ⟨rfl, ?_⟩
    simpa using (h₀.emit (onBit (by decide) _ _ _)).trans h₁

theorem answers_finishSync (start : Nat) (h : OnWave wave s.decoder.cursor s.source)
    (hstop : wave (s.now + s.decoder.bitTime + s.decoder.bitTime / 2) = true) :
    Answers (finishSync start) s fun b s' xs => b = true ∧
      s'.now = s.now + s.decoder.bitTime + s.decoder.bitTime / 2 ∧
      OnWave wave s'.decoder.cursor s'.source ∧
      s'.decoder = { s.decoder with cursor := s'.decoder.cursor } ∧ Accounts xs [0x55] [] := by
  unfold finishSync
  refine .bind ((answers_dataBit h _).mono ?_)
  rintro _ s₁ xs ⟨_, h₁⟩
  rw [← h₁.now, ← h₁.bitTime] at hstop
  refine .bind ((answers_stopBits h₁.onWave hstop).mono ?_)
  rintro _ s₂ ys ⟨rfl, h₂⟩
  rw [h₁.now, h₁.bitTime] at h₂
  have h₂' := h₁.trans h₂
  refine .ite (fun _ => ?_) (by simp)
  refine .bind (.emit (.bind (.emit (.answer ⟨rfl, h₂'.now, h₂'.onWave, h₂'.decoder, ?_⟩))))
  simpa using ((Accounts.bits h₂'.bits).append (.byte 0x55 _ _)).append (.sync _ _)

theorem answers_measureSync {e : Nat → Nat}
    (h : SyncEdges wave s.decoder.config.maxBitTime e) (hnow : s.now = e 0)
    (hs : Settled wave s.decoder.cursor s.source) (hintervals : s.decoder.config.syncIntervals = 8)
    (hstop : wave (e 8 + measured e + measured e / 2) = true) :
    Answers (measureSync (e 0)) s fun b s' xs => b = true ∧
      s'.now = e 8 + measured e + measured e / 2 ∧
      OnWave wave s'.decoder.cursor s'.source ∧
      s'.decoder = { s.decoder with cursor := s'.decoder.cursor, bitTime := measured e } ∧
      Accounts xs [0x55] [] := by
  have hrising : e 0 < e 1 := h.rising 0 (by decide)
  have hcredible : e 1 ≤ e 0 + s.decoder.config.maxBitTime := h.credible 0 (by decide)
  unfold measureSync
  refine .bind (.read (.bind ((answers_change (e := e 1) hs (by omega) (by omega) ?_
    (h.level_next (k := 0) (by decide)) rfl).mono ?_)))
  · rw [hnow]
    exact h.level 0 (by decide)
  rintro _ s₁ xs ⟨h₁, hs₁⟩
  refine .bind (.read ?_)
  rw [h₁.now, hintervals]
  refine .ite (fun hlong => absurd hlong (by omega)) fun _ => ?_
  refine .bind (.emit (.bind ((answers_measureBits h (j := 1) rfl h₁.now hs₁).mono ?_)))
  rintro _ s₂ ys ⟨rfl, h₂⟩
  have hbit : OnBit ⟨.bit, "start-bit", e 0, s₁.stop, ["Start bit", "Start", "S"]⟩ :=
    onBit (by decide) _ _ _
  have h₂' := (h₁.emit hbit).trans h₂
  refine .ite (fun _ => ?_) (by simp)
  unfold adoptPeriod
  refine .bind (.read (.ite (by simp) fun _ => ?_))
  rw [h₂.now]
  refine .ite (fun hzero => absurd hzero (Nat.ne_of_gt h.measured_pos)) fun _ => ?_
  refine .bind (.modify ?_)
  have hat : Session.now { s₂ with decoder.bitTime := measured e } = e 8 := h₂.now
  refine (answers_finishSync (s := { s₂ with decoder.bitTime := measured e }) (e 0) h₂.onWave
    (by rw [hat]; exact hstop)).mono ?_
  rintro b s₃ zs ⟨rfl, hnow₃, hs₃, hd₃, hzs⟩
  refine ⟨rfl, by rw [hnow₃, hat], hs₃, ?_, ?_⟩
  · rw [hd₃, h₂'.decoder]
  · simpa using (Accounts.bits h₂'.bits).append hzs

theorem ends_waitEdge (edge : Edge) (budget : Option Nat) :
    Ends (waitEdge edge budget) s (fun _ _ xs => xs = []) fun _ _ xs => xs = [] := by
  unfold waitEdge move
  exact .lift

/-- After an attempt without an answer a sync is what it would have been from there on. -/
theorem run_sync_again {s' : Session (List Sample)}
    {effects : List (Effect (Session (List Sample)) Annotation)}
    (h : attemptSync.run s = ⟨.ok none, s', effects⟩) :
    sync.run s = (sync.run s').after effects := by
  conv => lhs; rw [sync, Script.loop_eq, Script.run_bind_ok h]
  rfl

/-- A sync is over if there is no falling edge to begin with. -/
theorem run_sync_over {s' : Session (List Sample)} {e : Halt}
    {effects : List (Effect (Session (List Sample)) Annotation)}
    (h : (waitEdge .falling none).run s = ⟨.error e, s', effects⟩) :
    sync.run s = ⟨.error e, s', effects⟩ := by
  rw [sync, Script.loop_eq]
  apply Script.run_bind_error
  exact Script.run_bind_error (Script.run_bind_error h)

/-- A sync whose first attempt is accepted.  What it annotates is handed on at its end. -/
theorem run_sync_accepted {s₀ s₁ : Session (List Sample)}
    {effects : List (Effect (Session (List Sample)) Annotation)}
    (hfall : (waitEdge .falling none).run s = ⟨.ok true, s₀, []⟩)
    (hmeasure : (measureSync s₀.now).run { s₀ with frameEnd := s₀.now } =
      ⟨.ok true, s₁, effects⟩) :
    ∃ event, sync.run s = ⟨.ok (), { s₁ with
        decoder.syncStart := s₀.now
        decoder.stats.syncs := s₁.decoder.stats.syncs + 1 },
      effects.filter Effect.isNote ++
        (effects.filterMap Effect.item?).map (fun item => .emit item s₁) ++ [.note event]⟩ := by
  have hwithheld := Script.run_withhold hmeasure
  let s₂ : Session (List Sample) := { s₁ with
    decoder.syncStart := s₀.now
    decoder.stats.syncs := s₁.decoder.stats.syncs + 1 }
  refine ⟨.told s₂.decoder.name .debug s!"Sync at {s₀.now}: {speed s₂.decoder}",
    Script.run_loop_once ?_⟩
  unfold attemptSync trySync
  simp only [Script.run_bind, hfall, Script.run_read, Script.run_modify, hwithheld, tell,
    Script.run_note, Script.run_pure, Trace.after, if_true, Session.count, List.nil_append,
    List.append_nil, List.append_assoc]
  rfl

/-- A sync that begins with a fall of a line that was high is accepted, and everything it hands on
comes when its period stands. -/
theorem run_sync {now : Nat} {e : Nat → Nat} (h : SyncEdges wave s.decoder.config.maxBitTime e)
    (hs : Reads wave now s.decoder.cursor s.source) (hnow : now < e 0)
    (hhigh : ∀ t, now ≤ t → t < e 0 → wave t = true)
    (hintervals : s.decoder.config.syncIntervals = 8)
    (hstop : wave (e 8 + measured e + measured e / 2) = true) :
    ∃ s' effects, sync.run s = ⟨.ok (), s', effects⟩ ∧
      s'.now = e 8 + measured e + measured e / 2 ∧
      OnWave wave s'.decoder.cursor s'.source ∧
      s'.decoder = { s.decoder with
        cursor := s'.decoder.cursor
        bitTime := measured e
        syncStart := e 0
        stats.syncs := s.decoder.stats.syncs + 1 } ∧
      Accounts (effects.filterMap Effect.item?) [0x55] [] ∧
      ∀ item st, .emit item st ∈ effects → st.decoder.bitTime = measured e := by
  obtain ⟨rest, hwait, hsettled⟩ :=
    LineCursor.waitEdge_fall hs hnow hhigh (h.level_edge (by decide))
  let s₀ : Session (List Sample) :=
    { s with decoder.cursor := ⟨e 0, false, true⟩, source := rest, frameEnd := e 0 }
  obtain ⟨_, s₁, effects, hmeasure, rfl, hnow₁, hs₁, hd₁, hitems⟩ :=
    (answers_measureSync (s := s₀) h rfl hsettled hintervals hstop).run
  obtain ⟨event, hsync⟩ := run_sync_accepted (run_move hwait) hmeasure
  refine ⟨_, _, hsync, hnow₁, hs₁, ?_, ?_, ?_⟩
  · dsimp only
    rw [hd₁]
    rfl
  · rw [List.filterMap_append, List.filterMap_append, Trace.filterMap_notes,
      Trace.filterMap_emitted]
    simpa [List.filterMap_cons] using hitems
  · intro item st hemit
    have hperiod : s₁.decoder.bitTime = measured e := by rw [hd₁]
    simp only [List.mem_append, List.mem_filter, Effect.isNote, List.mem_map, List.mem_singleton,
      Bool.false_eq_true, and_false, false_or, reduceCtorEq, or_false, Effect.emit.injEq] at hemit
    obtain ⟨_, _, _, rfl⟩ := hemit
    exact hperiod

end Reception

end Updi

end BusDecode
