import BusDecode.Proofs.Updi.Encoding
import BusDecode.Proofs.Updi.Keeping
import BusDecode.Proofs.Updi.Reception

/-!
# Receiving a transmission

A host sends sync bytes and other bytes.  Where a wave carries them (`Carries`), every byte is
received as it was sent and every sync is accepted with a good period.  So a run that follows a
grammar takes the symbols the grammar takes (`Follows.received`), and the decoder receives command
after command until the line ends (`run_transmission`).
-/

set_option autoImplicit false

namespace BusDecode

namespace Updi

open LineCursor (Reads)

/-! ## Waves that carry symbols -/

section Waves

variable (wave : Nat → Bool) (Good : Nat → Prop)

/-- From a position on, the wave is high but for frames with the given symbols.  A sync shows a good
period by its edges; a byte has its levels wherever a decoder with a good period looks, and the next
frame starts after the place where such a decoder stops. -/
inductive Carries (maxBitTime : Nat) : Nat → List Symbol → Prop where
  | idle {now : Nat} (h : ∀ t, now ≤ t → wave t = true) : Carries maxBitTime now []
  | sync {now : Nat} {xs : List Symbol} (e : Nat → Nat) (hnow : now < e 0)
      (hhigh : ∀ t, now ≤ t → t < e 0 → wave t = true) (hedges : SyncEdges wave maxBitTime e)
      (hgood : Good (measured e)) (hstop : wave (e 8 + measured e + measured e / 2) = true)
      (h : Carries maxBitTime (e 8 + measured e + measured e / 2) xs) :
      Carries maxBitTime now (.sync :: xs)
  | byte {now : Nat} {b : UInt8} {xs : List Symbol} (e : Nat) (hnow : now < e)
      (hhigh : ∀ t, now ≤ t → t < e → wave t = true) (hlow : wave e = false)
      (hbits : ∀ p, Good p → ∀ k ≤ 9, wave (e + k * p + p / 2) = bitLevel b k)
      (h : ∀ p, Good p → Carries maxBitTime (e + 9 * p + p / 2) xs) :
      Carries maxBitTime now (.byte b :: xs)

/-- The decoder is set up for eight intervals, and what it has left to read carries symbols. -/
structure Expects (d : Decoder) (source : List Sample) (xs : List Symbol) : Prop where
  intervals : d.config.syncIntervals = 8
  carries : ∃ now, Reads wave now d.cursor source ∧ Carries wave Good d.config.maxBitTime now xs

/-- A decoder has gone through symbols: its counts show syncs and no failures, what it handed on
accounts for the bytes, and wherever it could have been stopped its period was good. -/
structure Heard {δ : Type} (view : δ → Decoder) (d d' : Decoder)
    (effects : List (Effect δ Annotation)) (xs : List Symbol) (ms : List Mark) : Prop where
  config : d'.config = d.config
  stats : ∃ commands, d'.stats =
    { d.stats with syncs := d.stats.syncs + Symbol.syncs xs, commands := commands }
  accounts : Accounts (effects.filterMap Effect.item?) (xs.map Symbol.value) ms
  periods : ∀ item st, .emit item st ∈ effects → Good (view st).bitTime

end Waves

variable {wave : Nat → Bool} {Good : Nat → Prop}

namespace Heard

variable {δ γ : Type} {view : δ → Decoder} {d d' d'' : Decoder}
  {effects effects' : List (Effect δ Annotation)} {xs xs' : List Symbol} {ms ms' : List Mark}

theorem nil (d : Decoder) : Heard Good view d d [] [] [] :=
  ⟨rfl, ⟨_, rfl⟩, .nil, by simp⟩

theorem note (d : Decoder) (event : Event) : Heard Good view d d [.note event] [] [] :=
  ⟨rfl, ⟨_, rfl⟩, .nil, by simp⟩

theorem emit {x : Annotation} {s : δ} (hx : isSaid x = true) (hrow : x.row ≠ "byte-value")
    (hgood : Good (view s).bitTime) : Heard Good view d d [.emit x s] [] [mark x] :=
  ⟨rfl, ⟨_, rfl⟩, .mark hx hrow, by simpa using hgood⟩

/-- Commands are counted by the way. -/
theorem aside (d : Decoder) (n : Nat) :
    Heard Good view d { d with stats.commands := n } [] [] [] :=
  ⟨rfl, ⟨n, rfl⟩, .nil, by simp⟩

theorem trans (h : Heard Good view d d' effects xs ms)
    (h' : Heard Good view d' d'' effects' xs' ms') :
    Heard Good view d d'' (effects ++ effects') (xs ++ xs') (ms ++ ms') where
  config := h'.config.trans h.config
  stats := by
    obtain ⟨n, hn⟩ := h.stats
    obtain ⟨n', hn'⟩ := h'.stats
    refine ⟨n', ?_⟩
    rw [hn', hn, Symbol.syncs, Symbol.syncs, Symbol.syncs, List.count_append, Nat.add_assoc]
  accounts := by
    rw [List.filterMap_append, List.map_append]
    exact h.accounts.append h'.accounts
  periods item st hemit := by
    rcases List.mem_append.1 hemit with hemit | hemit
    · exact h.periods item st hemit
    · exact h'.periods item st hemit

theorem mapState {f : γ → δ} {effects : List (Effect γ Annotation)}
    (h : Heard Good (fun s => view (f s)) d d' effects xs ms) :
    Heard Good view d d' (effects.map (Effect.mapState f)) xs ms where
  config := h.config
  stats := h.stats
  accounts := by
    have hitem : Effect.item? ∘ Effect.mapState f = (Effect.item? : Effect γ Annotation → _) :=
      funext (Trace.item?_mapState f)
    rw [List.filterMap_map, hitem]
    exact h.accounts
  periods item st hemit := by
    obtain ⟨e, he, heq⟩ := List.mem_map.1 hemit
    cases e with
    | note event => cases heq
    | emit item' st' =>
      cases heq
      exact h.periods _ _ he

end Heard

/-! ## Single symbols -/

section Symbols

variable {s : Session (List Sample)} {rest : List Symbol}

/-- A byte that is carried is received. -/
theorem Expects.byte {b : UInt8}
    (h : Expects wave Good s.decoder s.source (.byte b :: rest)) (hgood : Good s.decoder.bitTime) :
    ∃ s' effects, Reception.readByte.run s = ⟨.ok b, s', effects⟩ ∧
      Heard Good Session.decoder s.decoder s'.decoder effects [.byte b] [] ∧
      Expects wave Good s'.decoder s'.source rest ∧ Good s'.decoder.bitTime := by
  obtain ⟨now, hreads, hcarries⟩ := h.carries
  cases hcarries with
  | byte e hnow hhigh hlow hbits hrest =>
    obtain ⟨_, s', effects, hrun, rfl, hnow', hwave, hd, haccounts⟩ :=
      (Reception.answers_readByte hreads hnow hhigh hlow (hbits _ hgood)).run
    have hperiod : s'.decoder.bitTime = s.decoder.bitTime := by rw [hd]
    have hconfig : s'.decoder.config = s.decoder.config := by rw [hd]
    refine ⟨s', effects, hrun, ⟨hconfig, ?_, haccounts, ?_⟩, ⟨?_, _, hwave.reads, ?_⟩, ?_⟩
    · exact ⟨s.decoder.stats.commands, by rw [hd]; rfl⟩
    · intro item st hemit
      have hbyte := Reception.shows_readByte unsynced_moves s
      rw [hrun] at hbyte
      rw [(hbyte.2 item st hemit).1.bitTime]
      exact hgood
    · rw [hconfig, h.intervals]
    · rw [hconfig, ← Session.now, hnow']
      exact hrest _ hgood
    · rwa [hperiod]

/-- A sync that is carried is accepted. -/
theorem Expects.sync (h : Expects wave Good s.decoder s.source (.sync :: rest)) :
    ∃ s' effects, Reception.sync.run s = ⟨.ok (), s', effects⟩ ∧
      Heard Good Session.decoder s.decoder s'.decoder effects [.sync] [] ∧
      Expects wave Good s'.decoder s'.source rest ∧ Good s'.decoder.bitTime := by
  obtain ⟨now, hreads, hcarries⟩ := h.carries
  cases hcarries with
  | sync e hnow hhigh hedges hgood hstop hrest =>
    obtain ⟨s', effects, hrun, hnow', hwave, hd, haccounts, hperiods⟩ :=
      Reception.run_sync hedges hreads hnow hhigh h.intervals hstop
    have hperiod : s'.decoder.bitTime = measured e := by rw [hd]
    have hconfig : s'.decoder.config = s.decoder.config := by rw [hd]
    refine ⟨s', effects, hrun, ⟨hconfig, ?_, haccounts, ?_⟩, ⟨?_, _, hwave.reads, ?_⟩, ?_⟩
    · exact ⟨s.decoder.stats.commands, by rw [hd]; rfl⟩
    · intro item st hemit
      rw [hperiods item st hemit]
      exact hgood
    · rw [hconfig, h.intervals]
    · rw [hconfig, ← Session.now, hnow']
      exact hrest
    · rwa [hperiod]

/-- A line with nothing more on it ends. -/
theorem Expects.nothing (h : Expects wave Good s.decoder s.source []) :
    ∃ c source, Reception.sync.run s = ⟨.error .endOfStream,
      { s with decoder.cursor := c, source := source }, []⟩ := by
  obtain ⟨now, hreads, hcarries⟩ := h.carries
  cases hcarries with
  | idle hhigh =>
    obtain ⟨c, source, hwait⟩ := LineCursor.waitEdge_still hreads hhigh
    exact ⟨c, source, Reception.run_sync_over (Reception.run_move hwait)⟩

end Symbols

/-! ## Commands -/

section Commands

variable {α β : Type} {Q : α → β → Session (List Sample) → Prop}

/-- **A run that follows a grammar** takes the symbols the grammar takes and says its marks. -/
theorem Follows.received {g : Grammar β} {s : Session (List Sample)}
    {t : Trace (Session (List Sample)) Annotation Interrupt α} (h : Follows Q g s t)
    {xs rest : List Symbol} {b : β} {ms : List Mark} (htakes : g.Takes xs b ms)
    (hexpects : Expects wave Good s.decoder s.source (xs ++ rest))
    (hgood : Good s.decoder.bitTime) :
    (∃ a, t.result = .ok a) ∧
      Heard Good Session.decoder s.decoder t.state.decoder t.effects xs ms ∧
      Expects wave Good t.state.decoder t.state.source rest ∧ Good t.state.decoder.bitTime := by
  induction h generalizing xs ms with
  | @done a b s h =>
    cases htakes
    exact ⟨⟨a, rfl⟩, .nil _, hexpects, hgood⟩
  | refuse e s => cases htakes
  | @say g s t x hx hrow h ih =>
    cases htakes with
    | say m htakes =>
      obtain ⟨hok, hheard, hrest, hgood'⟩ := ih htakes hexpects hgood
      exact ⟨hok, (Heard.emit hx hrow hgood).trans hheard, hrest, hgood'⟩
  | @note g s t event h ih =>
    obtain ⟨hok, hheard, hrest, hgood'⟩ := ih htakes hexpects hgood
    exact ⟨hok, (Heard.note s.decoder event).trans hheard, hrest, hgood'⟩
  | @aside g s s' t hs h ih =>
    obtain ⟨hsource, n, hd⟩ := hs
    rw [hd, hsource] at ih
    obtain ⟨hok, hheard, hrest, hgood'⟩ :=
      ih htakes ⟨hexpects.intervals, hexpects.carries⟩ hgood
    exact ⟨hok, (Heard.aside s.decoder n).trans hheard, hrest, hgood'⟩
  | @byte k s s' b effects t hr h ih =>
    cases htakes with
    | byte htakes =>
      obtain ⟨s₁, effects₁, hrun, hheard₁, hexpects₁, hgood₁⟩ := hexpects.byte hgood
      rw [hr] at hrun
      cases hrun
      obtain ⟨hok, hheard, hrest, hgood'⟩ := ih htakes hexpects₁ hgood₁
      exact ⟨hok, hheard₁.trans hheard, hrest, hgood'⟩
  | @noByte s s' e effects k hr =>
    cases htakes with
    | byte htakes =>
      obtain ⟨s₁, effects₁, hrun, _⟩ := hexpects.byte hgood
      rw [hr] at hrun
      cases hrun
  | @resync g s s' effects t hr h ih =>
    cases htakes with
    | resync htakes =>
      obtain ⟨s₁, effects₁, hrun, hheard₁, hexpects₁, hgood₁⟩ := hexpects.sync
      rw [hr] at hrun
      cases hrun
      obtain ⟨hok, hheard, hrest, hgood'⟩ := ih htakes hexpects₁ hgood₁
      exact ⟨hok, hheard₁.trans hheard, hrest, hgood'⟩
  | @noResync s s' e effects k hr =>
    cases htakes with
    | resync htakes =>
      obtain ⟨s₁, effects₁, hrun, _⟩ := hexpects.sync
      rw [hr] at hrun
      cases hrun

theorem command_received {s : Session (List Sample)} {c : Command} {rest : List Symbol}
    {xs : List Symbol} {ms : List Mark} (hsymbols : c.symbols = .sync :: xs)
    (htakes : Grammar.command.Takes xs () ms)
    (hexpects : Expects wave Good s.decoder s.source (c.symbols ++ rest)) :
    ∃ s' effects, Reception.command.run s = ⟨.ok (), s', effects⟩ ∧
      Heard Good Session.decoder s.decoder s'.decoder effects c.symbols ms ∧
      Expects wave Good s'.decoder s'.source rest ∧ Good s'.decoder.bitTime := by
  rw [hsymbols] at hexpects ⊢
  obtain ⟨s₁, effects₁, hsync, hheard₁, hexpects₁, hgood₁⟩ := hexpects.sync
  obtain ⟨⟨u, hok⟩, hheard, hrest, hgood⟩ :=
    (follows_afterSync s₁).received htakes hexpects₁ hgood₁
  have hrun := run_command hsync
  rw [hok] at hrun
  exact ⟨_, _, hrun, hheard₁.trans hheard, hrest, hgood⟩

end Commands

/-! ## Runs -/

section Runs

open Decoder (OnLine run_step_ok run_step_error)

variable {s s' : OnLine (List Sample)} {effects : List (Effect (OnLine (List Sample)) Annotation)}

section Steps

variable {rest : List Symbol}

/-- The run of a command as a step, for a decoder that knows its sample rate. -/
theorem run_step (hrate : s.decoder.config.samplerate.isSome) :
    Decoder.step.run s = (Reception.command.run
      { decoder := s.decoder, source := s.source }).mapState fun s => ⟨s.decoder, s.source⟩ := by
  obtain ⟨hz, hhz⟩ := Option.isSome_iff_exists.1 hrate
  unfold Decoder.step
  dsimp only
  rw [hhz]
  rfl

theorem step_received {c : Command} {xs : List Symbol} {ms : List Mark}
    (hrate : s.decoder.config.samplerate.isSome) (hsymbols : c.symbols = .sync :: xs)
    (htakes : Grammar.command.Takes xs () ms)
    (hexpects : Expects wave Good s.decoder s.source (c.symbols ++ rest)) :
    ∃ s' effects, Decoder.step.run s = ⟨.ok (), s', effects⟩ ∧
      Heard Good OnLine.decoder s.decoder s'.decoder effects c.symbols ms ∧
      Expects wave Good s'.decoder s'.source rest ∧ Good s'.decoder.bitTime := by
  obtain ⟨s₁, effects₁, hrun, hheard, hrest, hgood⟩ :=
    command_received (s := { decoder := s.decoder, source := s.source }) hsymbols htakes hexpects
  rw [run_step hrate, hrun]
  refine ⟨⟨s₁.decoder, s₁.source⟩, _, rfl, ?_, hrest, hgood⟩
  exact Heard.mapState (f := fun s : Session (List Sample) => (⟨s.decoder, s.source⟩ : OnLine _))
    hheard

theorem step_ended (hrate : s.decoder.config.samplerate.isSome)
    (hexpects : Expects wave Good s.decoder s.source []) :
    ∃ s', Decoder.step.run s = ⟨.error .endOfStream, s', []⟩ ∧
      ∃ c, s'.decoder = { s.decoder with cursor := c } := by
  obtain ⟨c, source, hsync⟩ :=
    Expects.nothing (s := { decoder := s.decoder, source := s.source }) hexpects
  refine ⟨⟨{ s.decoder with cursor := c }, source⟩, ?_, c, rfl⟩
  rw [run_step hrate]
  unfold Reception.command
  rw [Script.run_bind_error hsync]
  rfl

/-- **A line that carries commands** is decoded command by command up to its end. -/
theorem run_received (cs : List Command) (hrate : s.decoder.config.samplerate.isSome)
    (hexpects : Expects wave Good s.decoder s.source (cs.flatMap Command.symbols)) :
    ∃ s' effects ms, Decoder.run.run s = ⟨.error .endOfStream, s', effects⟩ ∧
      Heard Good OnLine.decoder s.decoder s'.decoder effects (cs.flatMap Command.symbols) ms ∧
      (cs ≠ [] ∨ Good s.decoder.bitTime → Good s'.decoder.bitTime) ∧
      Mark.inRow "updi" ms = cs.flatMap Command.renderings ∧
      Mark.inRow "warnings" ms = (cs.flatMap Command.warnings).map ([·]) := by
  induction cs generalizing s with
  | nil =>
    obtain ⟨s', hstep, c, hd⟩ := step_ended hrate hexpects
    refine ⟨s', [], [], run_step_error hstep, ?_, ?_, rfl, rfl⟩
    · rw [hd]
      exact ⟨rfl, ⟨_, rfl⟩, .nil, by simp⟩
    · rintro (hne | hgood)
      · exact absurd rfl hne
      · rw [hd]
        exact hgood
  | cons c cs ih =>
    obtain ⟨xs, ms, hsymbols, htakes, hupdi, hwarnings⟩ := c.takes
    obtain ⟨s₁, effects₁, hstep, hheard₁, hexpects₁, hgood₁⟩ :=
      step_received hrate hsymbols htakes hexpects
    obtain ⟨s', effects, ms', hrun, hheard, hgood, hupdi', hwarnings'⟩ :=
      ih (by rw [hheard₁.config]; exact hrate) hexpects₁
    refine ⟨s', effects₁ ++ effects, ms ++ ms', ?_, hheard₁.trans hheard,
      fun _ => hgood (.inr hgood₁),
      ?_, ?_⟩
    · rw [run_step_ok hstep, hrun]
      rfl
    · rw [Mark.inRow_append, hupdi, hupdi', List.flatMap_cons]
    · rw [Mark.inRow_append, hwarnings, hwarnings', List.flatMap_cons, List.map_append]

end Steps

/-! ## Decoding -/

/-- What decoding commands leads to: success, every byte of the line, the texts of the commands and
the warnings about them, and counts without a failure. -/
structure Decoded (d : Decoder) (cs : List Command) (run : Played (OnLine (List Sample))
    (Array Annotation) Unit) : Prop where
  result : run.result = .ok ()
  bytes : rowTexts "byte-value" run.sink.toList =
    (cs.flatMap Command.symbols).map fun x => [Numeral.hexByte x.value]
  commands : rowTexts "updi" run.sink.toList = cs.flatMap Command.renderings
  warnings : rowTexts "warnings" run.sink.toList = (cs.flatMap Command.warnings).map ([·])
  syncs : run.state.decoder.stats.syncs =
    d.stats.syncs + Symbol.syncs (cs.flatMap Command.symbols)
  syncAbandoned : run.state.decoder.stats.syncAbandoned = d.stats.syncAbandoned
  frameErrors : run.state.decoder.stats.frameErrors = d.stats.frameErrors

section Decode

variable {d : Decoder} {source : List Sample} {cs : List Command}

/-- The decoding of a line as its run, but for the events. -/
theorem decode_eq {κ : Type} [Sink κ Annotation] (hrate : d.config.samplerate.isSome)
    (source : List Sample) (sink : κ) :
    ∃ events, d.decode source sink =
      ⟨Halt.untilEnd ((Decoder.run.run ⟨d, source⟩).play sink).result,
        ((Decoder.run.run ⟨d, source⟩).play sink).state,
        ((Decoder.run.run ⟨d, source⟩).play sink).sink, events⟩ := by
  obtain ⟨hz, hhz⟩ := Option.isSome_iff_exists.1 hrate
  unfold Decoder.decode
  rw [hhz]
  exact ⟨_, rfl⟩

/-- An array takes all that the run of a line hands on. -/
theorem decode_array (hrate : d.config.samplerate.isSome) (source : List Sample) :
    ∃ events, d.decode source (#[] : Array Annotation) =
      ⟨Halt.untilEnd (Decoder.run.run ⟨d, source⟩).result, (Decoder.run.run ⟨d, source⟩).state,
        (Decoder.run.run ⟨d, source⟩).items.toArray, events⟩ := by
  obtain ⟨events, hdecode⟩ := decode_eq hrate source (#[] : Array Annotation)
  rw [Trace.play_array, Array.empty_append] at hdecode
  exact ⟨events, hdecode⟩

theorem decode_received (hrate : d.config.samplerate.isSome)
    (hexpects : Expects wave Good d source (cs.flatMap Command.symbols)) :
    Decoded d cs (d.decode source (#[] : Array Annotation)) := by
  obtain ⟨s', effects, ms, hrun, hheard, _, hupdi, hwarnings⟩ :=
    run_received (s := ⟨d, source⟩) cs hrate hexpects
  obtain ⟨events, hdecode⟩ := decode_eq hrate source (#[] : Array Annotation)
  rw [hrun, Trace.play_array] at hdecode
  rw [hdecode]
  obtain ⟨commands, hstats⟩ := hheard.stats
  refine ⟨rfl, ?_, ?_, ?_, by rw [hstats], by rw [hstats], by rw [hstats]⟩
  · simpa [Function.comp_def] using hheard.accounts.bytes
  · rw [← hupdi]
    simpa using hheard.accounts.rowTexts (show "updi" ∉ lineRows by decide)
  · rw [← hwarnings]
    simpa using hheard.accounts.rowTexts (show "warnings" ∉ lineRows by decide)

/-- Wherever a sink stops the decoding, the period is a good one. -/
theorem decode_period {κ : Type} [Sink κ Annotation] (hrate : d.config.samplerate.isSome)
    (hcs : cs ≠ []) (hexpects : Expects wave Good d source (cs.flatMap Command.symbols))
    (sink : κ) : Good (d.decode source sink).state.decoder.bitTime := by
  obtain ⟨s', effects, ms, hrun, hheard, hgood, _⟩ :=
    run_received (s := ⟨d, source⟩) cs hrate hexpects
  obtain ⟨events, hdecode⟩ := decode_eq hrate source sink
  rw [hrun] at hdecode
  rw [hdecode]
  dsimp only
  rcases Trace.play_state ⟨.error .endOfStream, s', effects⟩ sink with hlast | ⟨item, hitem⟩
  · rw [hlast]
    exact hgood (.inl hcs)
  · exact hheard.periods _ _ hitem

end Decode

end Runs

end Updi

end BusDecode
