import BusDecode.Proofs.Updi.Waveform
import Mathlib.Data.Rat.Floor
import Mathlib.Tactic.Positivity
import Mathlib.Tactic.Ring

/-!
# Tolerance for uneven edges

A bit period need be no whole number of samples, and edges need not be where they should: as long as
a bit lasts sixteen samples and every change of level is recorded within half a sample of its time,
each sync finds the period up to five eighths of a sample and each byte is received as it was sent
(`decode_uneven`).
-/

set_option autoImplicit false

namespace BusDecode

namespace Updi

open LineCursor (Rising)

/-- The periods that a sync can find. -/
structure Close (p : ℚ) (s : Nat) : Prop where
  low : p - 1 / 2 ≤ s
  high : (s : ℚ) ≤ p + 5 / 8

section Uneven

variable {p : ℚ} {f g : Frame ℚ} {e : Nat → Nat}

theorem edge_bounds (h : Traces (1 / 2) p f e) {k : Nat} (hk : k ≤ 9) :
    f.start + k * p - 1 / 2 ≤ e k ∧ (e k : ℚ) ≤ f.start + k * p + 1 / 2 := by
  obtain ⟨hearly, hlate⟩ := h k hk
  unfold Frame.edge at hearly hlate
  constructor <;> linarith

/-- A sync finds a close period: the rounding of the average and both outer edges are each off by
at most a half, of a sample and of eight. -/
theorem close_measured (hp : 16 ≤ p) (h : Traces (1 / 2) p f e) : Close p (measured e) := by
  obtain ⟨hfirst, hfirst'⟩ := edge_bounds h (show 0 ≤ 9 by decide)
  obtain ⟨hlast, hlast'⟩ := edge_bounds h (show 8 ≤ 9 by decide)
  push_cast at hfirst hfirst' hlast hlast'
  have horder : e 0 ≤ e 8 := by
    have hle : (e 0 : ℚ) ≤ e 8 := by linarith
    exact_mod_cast hle
  have hlow : e 0 + 8 * measured e ≤ e 8 + 4 := by unfold measured; omega
  have hhigh : e 8 + 4 ≤ e 0 + 8 * measured e + 7 := by unfold measured; omega
  have hlow' : (e 0 : ℚ) + 8 * measured e ≤ e 8 + 4 := by exact_mod_cast hlow
  have hhigh' : (e 8 : ℚ) + 4 ≤ e 0 + 8 * measured e + 7 := by exact_mod_cast hhigh
  constructor <;> linarith

/-- Where the middle of bit `k` is looked for, from the start of the frame on. -/
theorem middle_bounds {s : Nat} (hs : Close p s) (k : Nat) :
    k * p - k / 2 + p / 2 - 3 / 4 ≤ ((k * s + s / 2 : Nat) : ℚ) ∧
      ((k * s + s / 2 : Nat) : ℚ) ≤ k * p + 5 * k / 8 + p / 2 + 5 / 16 := by
  have hlow : 2 * (s / 2) ≤ s := by omega
  have hhigh : s ≤ 2 * (s / 2) + 1 := by omega
  have hlow' : (2 : ℚ) * (s / 2 : Nat) ≤ s := by exact_mod_cast hlow
  have hhigh' : (s : ℚ) ≤ 2 * (s / 2 : Nat) + 1 := by exact_mod_cast hhigh
  have hk : (0 : ℚ) ≤ k := Nat.cast_nonneg k
  have hbits := mul_le_mul_of_nonneg_left hs.low hk
  have hbits' := mul_le_mul_of_nonneg_left hs.high hk
  have hs' := hs.low
  have hs'' := hs.high
  rw [Nat.cast_add, Nat.cast_mul]
  constructor <;> linarith

theorem sound_uneven {maxBitTime : Nat} (hp : 16 ≤ p) (hmax : p + 1 ≤ maxBitTime)
    (h : Traces (1 / 2) p f e) : Sound (Close p) maxBitTime e := by
  have hclose := close_measured hp h
  obtain ⟨hfirst, hfirst'⟩ := edge_bounds h (show 0 ≤ 9 by decide)
  obtain ⟨hstop, hstop'⟩ := edge_bounds h (show 9 ≤ 9 by decide)
  push_cast at hfirst hfirst' hstop hstop'
  constructor
  · intro k hk
    obtain ⟨_, hthis⟩ := edge_bounds h (Nat.le_of_lt hk)
    obtain ⟨hnext, _⟩ := edge_bounds h hk
    rw [Nat.cast_succ] at hnext
    have hlt : (e k : ℚ) < e (k + 1) := by linarith
    exact_mod_cast hlt
  · intro k hk
    obtain ⟨hthis, _⟩ := edge_bounds h (show k ≤ 9 by omega)
    obtain ⟨_, hnext⟩ := edge_bounds h (show k + 1 ≤ 9 by omega)
    rw [Nat.cast_succ] at hnext
    have hle : (e (k + 1) : ℚ) ≤ e k + maxBitTime := by linarith
    exact_mod_cast hle
  · intro s hs k hk
    have hk8 : (k : ℚ) ≤ 8 := by exact_mod_cast Nat.le_of_lt_succ hk
    obtain ⟨_, hthis⟩ := edge_bounds h (Nat.le_of_lt hk)
    obtain ⟨hnext, _⟩ := edge_bounds h hk
    rw [Nat.cast_succ] at hnext
    obtain ⟨hmiddle, hmiddle'⟩ := middle_bounds hs k
    have hle : (e k : ℚ) ≤ e 0 + (k * s + s / 2 : Nat) := by linarith
    have hlt : (e 0 : ℚ) + (k * s + s / 2 : Nat) < e (k + 1) := by linarith
    rw [Nat.add_assoc]
    exact ⟨by exact_mod_cast hle, by exact_mod_cast hlt⟩
  · intro s hs
    obtain ⟨hmiddle, _⟩ := middle_bounds hs 9
    push_cast at hmiddle
    have hle : (e 9 : ℚ) ≤ e 0 + (9 * s + s / 2 : Nat) := by push_cast; linarith
    rw [Nat.add_assoc]
    exact_mod_cast hle
  · exact hclose
  · obtain ⟨hlast, _⟩ := edge_bounds h (show 8 ≤ 9 by decide)
    obtain ⟨hmiddle, _⟩ := middle_bounds hclose 1
    push_cast at hlast hmiddle
    have hle : (e 9 : ℚ) ≤ e 8 + (1 * measured e + measured e / 2 : Nat) := by push_cast; linarith
    rw [Nat.one_mul] at hle
    rw [Nat.add_assoc]
    exact_mod_cast hle

theorem clear_uneven {n : Nat} (hp : 16 ≤ p) (hspaced : f.start + 11 * p ≤ g.start)
    (h : Traces (1 / 2) p f e) (hn : Near (1 / 2) n (g.edge p 0)) : Clear (Close p) e n := by
  have hnext := hn.late
  unfold Frame.edge at hnext
  push_cast at hnext
  constructor
  · intro s hs
    obtain ⟨_, hfirst⟩ := edge_bounds h (show 0 ≤ 9 by decide)
    obtain ⟨_, hmiddle⟩ := middle_bounds hs 9
    push_cast at hfirst hmiddle
    have hlt : (e 0 : ℚ) + (9 * s + s / 2 : Nat) < n := by push_cast; linarith
    rw [Nat.add_assoc]
    exact_mod_cast hlt
  · obtain ⟨_, hlast⟩ := edge_bounds h (show 8 ≤ 9 by decide)
    obtain ⟨_, hmiddle⟩ := middle_bounds (close_measured hp h) 1
    push_cast at hlast hmiddle
    have hlt : (e 8 : ℚ) + (1 * measured e + measured e / 2 : Nat) < n := by push_cast; linarith
    rw [Nat.one_mul] at hlt
    rw [Nat.add_assoc]
    exact_mod_cast hlt

/-- Every time from zero on has a sample number within half a sample. -/
theorem exists_near {τ : ℚ} (h : 0 ≤ τ) : ∃ n, Near (1 / 2) n τ := by
  have hlow := Nat.floor_le (show 0 ≤ τ + 1 / 2 by linarith)
  have hhigh := Nat.lt_floor_add_one (τ + 1 / 2)
  exact ⟨⌊τ + 1 / 2⌋₊, hlow, by linarith⟩

end Uneven

section Tolerance

variable {p : ℚ} {fs : List (Frame ℚ)} {xs : List Sample} {start : Nat}

/-- A line whose first fall is recorded after a sample starts its frames after time zero. -/
theorem start_nonneg (hp : 16 ≤ p) (hspaced : Spaced p fs)
    (hrising : Rising (⟨start, true⟩ :: xs)) (hrecords : Records (1 / 2) xs (Frame.line p fs)) :
    ∀ f ∈ fs, 0 ≤ f.start := by
  cases fs with
  | nil => simp
  | cons f fs =>
    obtain ⟨cs, hline⟩ : ∃ cs, Frame.line p (f :: fs) = ⟨f.edge p 0, false⟩ :: cs := ⟨_, rfl⟩
    rw [hline] at hrecords
    cases hrecords with
    | @cons x _ xs _ hx hxs =>
      have hlate : start < x.time := (List.pairwise_cons.1 hrising).1 x List.mem_cons_self
      have hnear := hx.2.early
      simp only [Frame.edge, Nat.cast_zero, zero_mul, add_zero] at hnear
      have hone : (1 : ℚ) ≤ x.time := by exact_mod_cast Nat.one_le_of_lt hlate
      have hfirst : 0 ≤ f.start := by linarith
      refine List.forall_mem_cons.2 ⟨hfirst, fun g hg => ?_⟩
      have hfg := (List.pairwise_cons.1 (hspaced.pairwise (by linarith))).1 g hg
      linarith

/-- **Reception tolerates uneven edges.**  On every record of commands sent at a period of sixteen
samples or more, with every change of level within half a sample of its time, a fresh decoder
receives each byte as it was sent, renders the commands, and counts every sync and no failure; and
wherever a sink stops it, its period is off by at most five eighths of a sample. -/
theorem decode_uneven (name : String) {config : Config} (hrate : config.samplerate.isSome)
    (hintervals : config.syncIntervals = 8) (hp : 16 ≤ p) (hmax : p + 1 ≤ config.maxBitTime)
    {cs : List Command} (hsymbols : fs.map Frame.symbol = cs.flatMap Command.symbols)
    (hspaced : Spaced p fs) (hrising : Rising (⟨start, true⟩ :: xs))
    (hrecords : Records (1 / 2) xs (Frame.line p fs)) :
    let d : Decoder := { name, config }
    Decoded d cs (d.decode (⟨start, true⟩ :: xs) (#[] : Array Annotation)) ∧
      ∀ {κ : Type} [Sink κ Annotation] (sink : κ), cs ≠ [] → ∃ s : Nat,
        (d.decode (⟨start, true⟩ :: xs) sink).state.decoder.samplesPerBit = some s ∧
          |(s : ℚ) - p| ≤ 5 / 8 := by
  intro d
  have hexpects := expects_record (d := d) rfl hintervals (show (0 : ℚ) ≤ 1 / 2 by norm_num)
    (show (1 : ℚ) / 2 + 1 / 2 < p by linarith) hspaced ?_ hrising hrecords
    (fun f _ e h => sound_uneven hp hmax h) (fun f g hfg e n h hn => clear_uneven hp hfg h hn)
  · rw [hsymbols] at hexpects
    refine ⟨decode_received hrate hexpects, fun sink hcs => ?_⟩
    obtain ⟨hlow, hhigh⟩ := decode_period hrate hcs hexpects sink
    refine ⟨(d.decode (⟨start, true⟩ :: xs) sink).state.decoder.bitTime, ?_,
      abs_le.2 ⟨by linarith, by linarith⟩⟩
    rw [Decoder.samplesPerBit, if_neg]
    intro hzero
    rw [hzero, Nat.cast_zero] at hlow
    linarith
  · intro f hf k _
    have hstart := start_nonneg hp hspaced hrising hrecords f hf
    apply exists_near
    unfold Frame.edge
    positivity

/-- A register that is read at sixteen and a half samples per bit. -/
theorem decode_uneven_ldcs :
    let d : Decoder := { config := { samplerate := some 1000000 } }
    let cs : List Command := [.single (.ldcs 0) (0x00 : UInt8)]
    let fs : List (Frame ℚ) := [⟨100, .sync⟩, ⟨563 / 2, .byte 0x80⟩, ⟨463, .byte 0x00⟩]
    let xs : List Sample := [⟨100, false⟩, ⟨117, true⟩, ⟨133, false⟩, ⟨149, true⟩, ⟨166, false⟩,
      ⟨183, true⟩, ⟨199, false⟩, ⟨215, true⟩, ⟨232, false⟩, ⟨248, true⟩, ⟨282, false⟩, ⟨413, true⟩,
      ⟨463, false⟩, ⟨612, true⟩]
    fs.map Frame.symbol = cs.flatMap Command.symbols ∧ Spaced (33 / 2) fs ∧
      Rising (⟨0, true⟩ :: xs) ∧ Records (1 / 2) xs (Frame.line (33 / 2) fs) ∧
      Decoded d cs (d.decode (⟨0, true⟩ :: xs) (#[] : Array Annotation)) ∧
        ∀ {κ : Type} [Sink κ Annotation] (sink : κ), ∃ s : Nat,
          (d.decode (⟨0, true⟩ :: xs) sink).state.decoder.samplesPerBit = some s ∧
            |(s : ℚ) - 33 / 2| ≤ 5 / 8 := by
  intro d cs fs xs
  have hsymbols : fs.map Frame.symbol = cs.flatMap Command.symbols := by decide
  have hspaced : Spaced (33 / 2) fs := by
    refine .cons_cons ?_ (.cons_cons ?_ (.singleton _)) <;> norm_num
  have hrising : Rising (⟨0, true⟩ :: xs) := by decide
  have hrecords : Records (1 / 2) xs (Frame.line (33 / 2) fs) := by
    repeat' first | exact List.Forall₂.nil | refine List.Forall₂.cons ⟨rfl, ?_, ?_⟩ ?_
    all_goals norm_num [Frame.edge]
  have hrate : d.config.samplerate.isSome := rfl
  have hintervals : d.config.syncIntervals = 8 := rfl
  have hmax : (33 / 2 : ℚ) + 1 ≤ d.config.maxBitTime := by norm_num [d]
  obtain ⟨hdecoded, hperiod⟩ := decode_uneven "avr_updi" hrate hintervals (by norm_num) hmax
    hsymbols hspaced hrising hrecords
  exact ⟨hsymbols, hspaced, hrising, hrecords, hdecoded,
    fun sink => hperiod sink (List.cons_ne_nil _ _)⟩

end Tolerance

end Updi

end BusDecode
