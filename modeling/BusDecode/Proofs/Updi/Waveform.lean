import BusDecode.Proofs.Updi.Transmission
import Mathlib.Algebra.Order.Ring.Defs
import Mathlib.Data.List.Chain
import Mathlib.Tactic.Linarith

/-!
# Waveforms of frames

A line that is idle but for frames, as the edges of its frames (`Drawn`).  If a set of periods is
good for the edges of every frame (`Sound`) and every frame is over before the next one starts
(`Clear`), the line carries the symbols of its frames (`carries_drawn`).
-/

set_option autoImplicit false

namespace BusDecode

namespace Updi

open LineCursor (levelAt levelAt_before levelAt_passed Rising)

/-! ## Frames with their edges -/

/-- A frame on a line: bit `k` of its byte begins at `edge k`, and bit 9 is the stop bits. -/
structure Drawn where
  symbol : Symbol
  edge : Nat → Nat

namespace Drawn

def sample (f : Drawn) (k : Nat) : Sample :=
  ⟨f.edge k, bitLevel f.symbol.value k⟩

def samples (f : Drawn) : List Sample :=
  (List.range 10).map f.sample

end Drawn

abbrev RisingEdges (e : Nat → Nat) : Prop :=
  ∀ k < 9, e k < e (k + 1)

theorem RisingEdges.le {e : Nat → Nat} (h : RisingEdges e) {j k : Nat} (hjk : j ≤ k) (hk : k ≤ 9) :
    e j ≤ e k := by
  induction k with
  | zero =>
    obtain rfl : j = 0 := by omega
    exact Nat.le_refl _
  | succ k ih =>
    rcases Nat.lt_or_eq_of_le hjk with hlt | rfl
    · have := ih (by omega) (by omega)
      have := h k (by omega)
      omega
    · exact Nat.le_refl _

namespace Drawn

variable {f : Drawn} {later : List Sample} {level : Bool} {t : Nat}

theorem samples_split (f : Drawn) {k : Nat} (hk : k ≤ 9) :
    f.samples = (List.range k).map f.sample ++
      f.sample k :: (List.range (9 - k)).map fun i => f.sample (k + 1 + i) := by
  have hbits : List.range 10 = List.range (k + ((9 - k) + 1)) := congrArg _ (by omega)
  rw [samples, hbits, List.range_add, List.range_succ_eq_map, List.map_append, List.map_cons,
    List.map_cons, List.map_map, List.map_map, Nat.add_zero]
  congr 2
  refine List.map_congr_left fun i _ => ?_
  change f.sample (k + (i + 1)) = f.sample (k + 1 + i)
  rw [Nat.add_comm i 1, Nat.add_assoc]

theorem time_of_mem (h : RisingEdges f.edge) {x : Sample} (hx : x ∈ f.samples) :
    f.edge 0 ≤ x.time ∧ x.time ≤ f.edge 9 := by
  obtain ⟨k, hk, rfl⟩ := List.mem_map.1 hx
  have hk9 : k ≤ 9 := by have := List.mem_range.1 hk; omega
  exact ⟨h.le (Nat.zero_le k) hk9, h.le hk9 (Nat.le_refl 9)⟩

theorem edge_lt_later (h : Rising (f.samples ++ later)) : ∀ x ∈ later, f.edge 9 < x.time :=
  (List.pairwise_append.1 h).2.2 (f.sample 9) (List.mem_map_of_mem (by decide))

theorem levelAt_idle (h : RisingEdges f.edge) (hlater : ∀ x ∈ later, f.edge 9 < x.time)
    (ht : t < f.edge 0) : levelAt level (f.samples ++ later) t = level := by
  refine levelAt_before (List.forall_mem_append.2 ⟨fun x hx => ?_, fun x hx => ?_⟩)
  · exact Nat.lt_of_lt_of_le ht (time_of_mem h hx).1
  · have := hlater x hx
    have := h.le (Nat.zero_le 9) (Nat.le_refl 9)
    omega

theorem levelAt_reached (h : RisingEdges f.edge) {k : Nat} (hk : k ≤ 9) (hfrom : f.edge k ≤ t) :
    levelAt level (f.samples ++ later) t = levelAt (bitLevel f.symbol.value k)
      (((List.range (9 - k)).map fun i => f.sample (k + 1 + i)) ++ later) t := by
  rw [f.samples_split hk, List.append_assoc, List.cons_append]
  refine levelAt_passed (fun x hx => ?_) hfrom
  obtain ⟨j, hj, rfl⟩ := List.mem_map.1 hx
  have hjk : j < k := List.mem_range.1 hj
  exact Nat.le_trans (h.le (Nat.le_of_lt hjk) hk) hfrom

theorem levelAt_bit (h : RisingEdges f.edge) (hlater : ∀ x ∈ later, f.edge 9 < x.time) {k : Nat}
    (hk : k < 9) (hfrom : f.edge k ≤ t) (hto : t < f.edge (k + 1)) :
    levelAt level (f.samples ++ later) t = bitLevel f.symbol.value k := by
  rw [levelAt_reached h (Nat.le_of_lt hk) hfrom]
  refine levelAt_before (List.forall_mem_append.2 ⟨fun x hx => ?_, fun x hx => ?_⟩)
  · obtain ⟨i, hi, rfl⟩ := List.mem_map.1 hx
    have hi9 : i < 9 - k := List.mem_range.1 hi
    exact Nat.lt_of_lt_of_le hto (h.le (by omega) (by omega))
  · have := hlater x hx
    have := h.le (j := k + 1) (k := 9) hk (Nat.le_refl 9)
    omega

/-- From its stop bits on, nothing is left of a frame but a line that is high. -/
theorem levelAt_over (h : RisingEdges f.edge) (hfrom : f.edge 9 ≤ t) :
    levelAt level (f.samples ++ later) t = levelAt true later t := by
  rw [levelAt_reached h (Nat.le_refl 9) hfrom]
  rfl

/-- A start bit is later than a sample before all changes of the line. -/
theorem start_lt {start : Nat} {xs : List Sample} (h : RisingEdges f.edge)
    (hrising : Rising (f.samples ++ later)) (hafter : ∀ x ∈ xs, start < x.time)
    (hwave : ∀ t, levelAt true (f.samples ++ later) t = levelAt true xs t) : start < f.edge 0 := by
  by_contra hlate
  have hlow : levelAt true (f.samples ++ later) (f.edge 0) = false :=
    levelAt_bit h (edge_lt_later hrising) (by decide) (Nat.le_refl _) (h 0 (by decide))
  have hhigh : levelAt true xs (f.edge 0) = true :=
    levelAt_before fun x hx => Nat.lt_of_le_of_lt (Nat.not_lt.1 hlate) (hafter x hx)
  rw [hwave, hhigh] at hlow
  cases hlow

end Drawn

/-! ## Lines that carry their frames -/

section Carrying

variable (Good : Nat → Prop)

/-- The edges of a frame suit a set of good periods: whoever samples it with one of them finds each
bit within its edges and stops in the stop bits, and a sync byte shows a period of the set. -/
structure Sound (maxBitTime : Nat) (e : Nat → Nat) : Prop where
  rising : RisingEdges e
  credible : ∀ k < 8, e (k + 1) ≤ e k + maxBitTime
  sampled : ∀ p, Good p → ∀ k < 9, e k ≤ e 0 + k * p + p / 2 ∧ e 0 + k * p + p / 2 < e (k + 1)
  stopped : ∀ p, Good p → e 9 ≤ e 0 + 9 * p + p / 2
  good : Good (measured e)
  measured : e 9 ≤ e 8 + measured e + measured e / 2

/-- A frame is over, for whoever has received it, before the next one starts. -/
structure Clear (e : Nat → Nat) (next : Nat) : Prop where
  byte : ∀ p, Good p → e 0 + 9 * p + p / 2 < next
  sync : e 8 + measured e + measured e / 2 < next

variable {Good} {maxBitTime : Nat} {wave : Nat → Bool} {fs : List Drawn}

theorem idle_before {now : Nat} (hsound : ∀ f ∈ fs, Sound Good maxBitTime f.edge)
    (hrising : Rising (fs.flatMap Drawn.samples)) (hnow : ∀ f ∈ fs.head?, now < f.edge 0) :
    levelAt true (fs.flatMap Drawn.samples) now = true := by
  cases fs with
  | nil => rfl
  | cons f fs =>
    rw [List.flatMap_cons] at hrising ⊢
    have hlater := Drawn.edge_lt_later hrising
    exact Drawn.levelAt_idle (hsound f List.mem_cons_self).rising hlater (hnow f rfl)

/-- **A line carries the symbols of its frames** if these suit the good periods. -/
theorem carries_drawn {now : Nat} (hsound : ∀ f ∈ fs, Sound Good maxBitTime f.edge)
    (hclear : fs.IsChain fun f g => Clear Good f.edge (g.edge 0))
    (hrising : Rising (fs.flatMap Drawn.samples)) (hnow : ∀ f ∈ fs.head?, now < f.edge 0)
    (hwave : ∀ t, now ≤ t → wave t = levelAt true (fs.flatMap Drawn.samples) t) :
    Carries wave Good maxBitTime now (fs.map Drawn.symbol) := by
  induction fs generalizing now with
  | nil => exact .idle hwave
  | cons f fs ih =>
    obtain ⟨hf, hfs⟩ := List.forall_mem_cons.1 hsound
    rw [List.flatMap_cons] at hrising hwave
    have hlater := Drawn.edge_lt_later hrising
    have hrest := (List.pairwise_append.1 hrising).2.1
    have hstart : now < f.edge 0 := hnow f rfl
    have hidle : ∀ t, now ≤ t → t < f.edge 0 → wave t = true := by
      intro t ht hlt
      rw [hwave t ht]
      exact Drawn.levelAt_idle hf.rising hlater hlt
    have hbit : ∀ k < 9, ∀ t, f.edge k ≤ t → t < f.edge (k + 1) →
        wave t = bitLevel f.symbol.value k := by
      intro k hk t hfrom hto
      have hfirst := hf.rising.le (Nat.zero_le k) (Nat.le_of_lt hk)
      rw [hwave t (by omega)]
      exact Drawn.levelAt_bit hf.rising hlater hk hfrom hto
    have hover : ∀ t, f.edge 9 ≤ t → wave t = levelAt true (fs.flatMap Drawn.samples) t := by
      intro t hfrom
      have hfirst := hf.rising.le (Nat.zero_le 9) (Nat.le_refl 9)
      rw [hwave t (by omega)]
      exact Drawn.levelAt_over hf.rising hfrom
    obtain ⟨hnext, hchain⟩ := List.isChain_cons.1 hclear
    have hstop : ∀ stop, f.edge 9 ≤ stop → (∀ g ∈ fs.head?, stop < g.edge 0) →
        wave stop = true ∧ Carries wave Good maxBitTime stop (fs.map Drawn.symbol) := by
      intro stop hfrom hto
      refine ⟨?_, ih hfs hchain hrest hto fun t ht => hover t (Nat.le_trans hfrom ht)⟩
      rw [hover stop hfrom]
      exact idle_before hfs hrest hto
    rw [List.map_cons]
    cases hsymbol : f.symbol with
    | sync =>
      rw [hsymbol] at hbit
      obtain ⟨hhigh, hcarries⟩ := hstop _ hf.measured fun g hg => (hnext g hg).sync
      refine .sync f.edge hstart hidle ?_ hf.good hhigh hcarries
      refine ⟨fun k hk => hf.rising k (by omega), hf.credible, fun k hk => hbit k (by omega), ?_⟩
      exact hbit 8 (by decide) _ (Nat.le_refl _) (hf.rising 8 (by decide))
    | byte b =>
      rw [hsymbol] at hbit
      have hend : ∀ p, Good p → _ := fun p hp =>
        hstop _ (hf.stopped p hp) fun g hg => (hnext g hg).byte p hp
      refine .byte (f.edge 0) hstart hidle ?_ ?_ fun p hp => (hend p hp).2
      · exact hbit 0 (by decide) _ (Nat.le_refl _) (hf.rising 0 (by decide))
      · intro p hp k hk
        rcases Nat.lt_or_eq_of_le hk with hlt | rfl
        · obtain ⟨hfrom, hto⟩ := hf.sampled p hp k hlt
          exact hbit k hlt _ hfrom hto
        · exact (hend p hp).1

end Carrying

/-! ## Ideal lines and their records -/

/-- A level from a time on, on an ideal line. -/
structure Change (α : Type) where
  time : α
  level : Bool
  deriving DecidableEq, Repr

/-- A frame on an ideal line. -/
structure Frame (α : Type) where
  start : α
  symbol : Symbol
  deriving DecidableEq, Repr

/-- The changes among levels that follow each other. -/
def changes {α : Type} (level : Bool) : List (Change α) → List (Change α)
  | [] => []
  | c :: cs => if c.level = level then changes level cs else c :: changes c.level cs

namespace Frame

variable {α : Type} [Semiring α]

/-- Where bit `k` of a frame begins at a period. -/
def edge (p : α) (f : Frame α) (k : Nat) : α :=
  f.start + k * p

def bits (p : α) (f : Frame α) : List (Change α) :=
  (List.range 10).map fun k => ⟨f.edge p k, bitLevel f.symbol.value k⟩

/-- The changes of level on a line that is idle but for frames. -/
def line (p : α) (fs : List (Frame α)) : List (Change α) :=
  changes true (fs.flatMap (bits p))

end Frame

section Records

variable {α : Type} [Semiring α] [LinearOrder α] [IsStrictOrderedRing α]

/-- A sample number and a time that differ by at most `δ`. -/
structure Near (δ : α) (n : Nat) (τ : α) : Prop where
  early : (n : α) ≤ τ + δ
  late : τ ≤ n + δ

/-- Samples that record changes, each of them within `δ` of its time. -/
def Records (δ : α) (xs : List Sample) (cs : List (Change α)) : Prop :=
  List.Forall₂ (fun x c => x.level = c.level ∧ Near δ x.time c.time) xs cs

def actual (act : α → Nat) (c : Change α) : Sample :=
  ⟨act c.time, c.level⟩

/-- A frame as it is recorded. -/
def Frame.draw (act : α → Nat) (p : α) (f : Frame α) : Drawn :=
  ⟨f.symbol, fun k => act (f.edge p k)⟩

omit [LinearOrder α] [IsStrictOrderedRing α] in
theorem map_actual_bits (act : α → Nat) (p : α) (fs : List (Frame α)) :
    (fs.flatMap (Frame.bits p)).map (actual act) =
      (fs.map (Frame.draw act p)).flatMap Drawn.samples := by
  rw [List.map_flatMap, List.flatMap_map]
  refine List.flatMap_congr fun f _ => ?_
  rw [Frame.bits, List.map_map]
  rfl

theorem rising_actual {δ : α} {act : α → Nat} {cs : List (Change α)}
    (hspaced : cs.Pairwise fun c d => c.time + δ + δ < d.time)
    (hnear : ∀ c ∈ cs, Near δ (act c.time) c.time) : Rising (cs.map (actual act)) := by
  rw [Rising, List.pairwise_map]
  refine hspaced.imp_of_mem fun {c d} hc hd hlt => ?_
  have hlow := (hnear c hc).early
  have hhigh := (hnear d hd).late
  have hcast : (act c.time : α) < act d.time := by
    have hsum : (act c.time : α) + δ < act d.time + δ :=
      calc (act c.time : α) + δ ≤ c.time + δ + δ := by gcongr
        _ < d.time := hlt
        _ ≤ act d.time + δ := hhigh
    exact lt_of_add_lt_add_right hsum
  exact Nat.cast_lt.1 hcast

theorem extend_actual {δ : α} {c : Change α} {cs : List (Change α)} {n : Nat} {act : α → Nat}
    (hδ : 0 ≤ δ) (hlater : ∀ d ∈ cs, c.time + δ + δ < d.time) (hn : Near δ n c.time)
    (hnear : ∀ d ∈ cs, Near δ (act d.time) d.time) :
    ∃ act' : α → Nat, (∀ d ∈ c :: cs, Near δ (act' d.time) d.time) ∧
      (c :: cs).map (actual act') = ⟨n, c.level⟩ :: cs.map (actual act) := by
  have hne : ∀ d ∈ cs, d.time ≠ c.time := by
    intro d hd heq
    have hlt := hlater d hd
    rw [heq, add_assoc] at hlt
    exact absurd hlt (not_lt.2 (le_add_of_nonneg_right (add_nonneg hδ hδ)))
  refine ⟨fun τ => if τ = c.time then n else act τ, List.forall_mem_cons.2 ⟨?_, ?_⟩, ?_⟩
  · dsimp only
    rw [if_pos rfl]
    exact hn
  · intro d hd
    dsimp only
    rw [if_neg (hne d hd)]
    exact hnear d hd
  · rw [List.map_cons]
    congr 1
    · simp [actual]
    · refine List.map_congr_left fun d hd => ?_
      simp [actual, hne d hd]

/-- Every level of an ideal line has a place on its record, also where nothing changes. -/
theorem exists_actual {δ : α} {cs : List (Change α)} {xs : List Sample} {level : Bool}
    (hround : ∀ c ∈ cs, ∃ n, Near δ n c.time) (hδ : 0 ≤ δ)
    (hspaced : cs.Pairwise fun c d => c.time + δ + δ < d.time)
    (h : Records δ xs (changes level cs)) :
    ∃ act : α → Nat, (∀ c ∈ cs, Near δ (act c.time) c.time) ∧
      ∀ t, levelAt level (cs.map (actual act)) t = levelAt level xs t := by
  induction cs generalizing xs level with
  | nil =>
    cases h
    exact ⟨fun _ => 0, by simp, fun _ => rfl⟩
  | cons c cs ih =>
    obtain ⟨hlater, hcs⟩ := List.pairwise_cons.1 hspaced
    obtain ⟨⟨n, hn⟩, hround'⟩ := List.forall_mem_cons.1 hround
    unfold changes at h
    by_cases hlevel : c.level = level
    · -- nothing changes here, so any place near the time will do
      rw [if_pos hlevel] at h
      obtain ⟨act, hnear, hwave⟩ := ih hround' hcs h
      obtain ⟨act', hnear', hmap⟩ := extend_actual hδ hlater hn hnear
      refine ⟨act', hnear', fun t => ?_⟩
      have hrising := rising_actual hspaced hnear'
      rw [hmap] at hrising ⊢
      rw [← hwave t, ← hlevel]
      exact LineCursor.levelAt_cons_same hrising t
    · rw [if_neg hlevel] at h
      cases h with
      | @cons x _ xs _ hx hxs =>
        obtain ⟨act, hnear, hwave⟩ := ih hround' hcs hxs
        obtain ⟨act', hnear', hmap⟩ := extend_actual hδ hlater hx.2 hnear
        refine ⟨act', hnear', fun t => ?_⟩
        rw [hmap]
        unfold levelAt
        rw [hwave t, hx.1]

variable {δ p : α} {fs : List (Frame α)}

/-- Each frame has its start bit, eight data bits and two stop bits before the next one starts. -/
def Spaced (p : α) (fs : List (Frame α)) : Prop :=
  fs.IsChain fun f g => f.start + 11 * p ≤ g.start

/-- Sample numbers for the bits of a frame. -/
def Traces (δ p : α) (f : Frame α) (e : Nat → Nat) : Prop :=
  ∀ k ≤ 9, Near δ (e k) (f.edge p k)

omit [LinearOrder α] [IsStrictOrderedRing α] in
theorem mem_bits {f : Frame α} {c : Change α} (h : c ∈ f.bits p) :
    ∃ k ≤ 9, c = ⟨f.edge p k, bitLevel f.symbol.value k⟩ := by
  obtain ⟨k, hk, rfl⟩ := List.mem_map.1 h
  exact ⟨k, by have := List.mem_range.1 hk; omega, rfl⟩

theorem edge_lt (hp : δ + δ < p) (hp' : 0 ≤ p) (f : Frame α) {j k : Nat} (hjk : j < k) :
    f.edge p j + δ + δ < f.edge p k :=
  calc f.edge p j + δ + δ
      = f.start + (j * p + (δ + δ)) := by simp only [Frame.edge, add_assoc]
    _ < f.start + (j * p + p) := by gcongr
    _ = f.start + (j + 1 : Nat) * p := by rw [Nat.cast_succ, add_one_mul]
    _ ≤ f.start + k * p := by gcongr; exact hjk

theorem Spaced.pairwise (h : Spaced p fs) (hp : 0 ≤ p) :
    fs.Pairwise fun f g => f.start + 11 * p ≤ g.start := by
  have htrans : ∀ f g h : Frame α, f.start + 11 * p ≤ g.start → g.start + 11 * p ≤ h.start →
      f.start + 11 * p ≤ h.start := by
    intro f g h hfg hgh
    exact hfg.trans ((le_add_of_nonneg_right (by positivity)).trans hgh)
  have : IsTrans (Frame α) fun f g => f.start + 11 * p ≤ g.start := ⟨htrans⟩
  exact List.isChain_iff_pairwise.1 h

theorem spaced_bits (h : Spaced p fs) (hδ : 0 ≤ δ) (hp : δ + δ < p) :
    (fs.flatMap (Frame.bits p)).Pairwise fun c d => c.time + δ + δ < d.time := by
  have hp' : 0 ≤ p := (add_nonneg hδ hδ).trans hp.le
  rw [List.pairwise_flatMap]
  refine ⟨fun f _ => ?_, (h.pairwise hp').imp fun {f g} hfg c hc d hd => ?_⟩
  · rw [Frame.bits, List.pairwise_map]
    exact List.pairwise_lt_range.imp fun hjk => edge_lt hp hp' f hjk
  · obtain ⟨j, hj, rfl⟩ := mem_bits hc
    obtain ⟨k, hk, rfl⟩ := mem_bits hd
    calc f.edge p j + δ + δ
        < f.edge p 11 := edge_lt hp hp' f (by omega)
      _ ≤ g.start := by simpa [Frame.edge] using hfg
      _ ≤ g.edge p k := le_add_of_nonneg_right (by positivity)

/-- **A record of an ideal line carries the symbols of its frames** if, however their edges are
recorded, the frames suit the good periods. -/
theorem expects_record {Good : Nat → Prop} {d : Decoder} {xs : List Sample} {start : Nat}
    (hfresh : d.cursor = {}) (hintervals : d.config.syncIntervals = 8) (hδ : 0 ≤ δ)
    (hp : δ + δ < p) (hspaced : Spaced p fs)
    (hround : ∀ f ∈ fs, ∀ k ≤ 9, ∃ n, Near δ n (f.edge p k))
    (hrising : Rising (⟨start, true⟩ :: xs)) (hrecords : Records δ xs (Frame.line p fs))
    (hsound : ∀ f ∈ fs, ∀ e, Traces δ p f e → Sound Good d.config.maxBitTime e)
    (hclear : ∀ f g : Frame α, f.start + 11 * p ≤ g.start → ∀ e n, Traces δ p f e →
      Near δ n (g.edge p 0) → Clear Good e n) :
    Expects (levelAt true xs) Good d (⟨start, true⟩ :: xs) (fs.map Frame.symbol) := by
  have hp' : 0 ≤ p := (add_nonneg hδ hδ).trans hp.le
  have hround' : ∀ c ∈ fs.flatMap (Frame.bits p), ∃ n, Near δ n c.time := by
    intro c hc
    obtain ⟨f, hf, hc⟩ := List.mem_flatMap.1 hc
    obtain ⟨k, hk, rfl⟩ := mem_bits hc
    exact hround f hf k hk
  have hbits := spaced_bits hspaced hδ hp
  obtain ⟨act, hnear, hwave⟩ := exists_actual hround' hδ hbits hrecords
  have htraces : ∀ f ∈ fs, Traces δ p f (f.draw act p).edge := by
    intro f hf k hk
    refine hnear ⟨f.edge p k, bitLevel f.symbol.value k⟩ (List.mem_flatMap.2 ⟨f, hf, ?_⟩)
    exact List.mem_map_of_mem (List.mem_range.2 (by omega))
  have hrise := rising_actual hbits hnear
  rw [map_actual_bits] at hrise hwave
  have hsymbols : fs.map Frame.symbol = (fs.map (Frame.draw act p)).map Drawn.symbol := by
    rw [List.map_map]
    rfl
  rw [hsymbols]
  refine ⟨hintervals, start, ?_, carries_drawn ?_ ?_ hrise ?_ fun t _ => (hwave t).symm⟩
  · rw [hfresh]
    exact LineCursor.reads_fresh hrising
  · rw [List.forall_mem_map]
    exact fun f hf => hsound f hf _ (htraces f hf)
  · rw [List.isChain_map]
    refine hspaced.imp_of_mem_imp fun f g hf hg hfg => ?_
    exact hclear f g hfg _ _ (htraces f hf) (htraces g hg 0 (Nat.zero_le 9))
  · cases fs with
    | nil => simp
    | cons f fs =>
      rintro _ ⟨rfl⟩
      have hedges := (hsound f List.mem_cons_self _ (htraces f List.mem_cons_self)).rising
      rw [List.map_cons, List.flatMap_cons] at hrise hwave
      exact Drawn.start_lt hedges hrise (List.pairwise_cons.1 hrising).1 hwave

end Records

end Updi

end BusDecode
