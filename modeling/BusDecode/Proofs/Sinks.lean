import BusDecode.Proofs.Script

/-!
# What sinks make of runs

A sink takes part in a run effect by effect, so a run after other effects is the second part played
to what the first one has left of the sink, unless that part has met a refusal (`play_after`).  The
sink to prove things with is one that refuses some of its offers and notes what became of each item
(`Picky`).

Some scripts can be run again after a refusal as if it had not been (`Repeatable`).  A caller that
does so with every item of a list (`Retried`) gets the same out of it as one whose sink takes all
(`Repeatable.retried`).
-/

set_option autoImplicit false

namespace BusDecode

/-! ## Parts of a run -/

namespace Trace

variable {δ β κ α : Type} [Sink κ β]

/-- What a sink makes of a run after other effects: these first, from any state on, and then the run
if none of them has been refused. -/
theorem play_after (before : List (Effect δ β)) (s : δ) (t : Trace δ β Halt α) (sink : κ) :
    (t.after before).play sink =
      match (⟨.ok (), s, before⟩ : Trace δ β Halt Unit).play sink with
      | ⟨.ok (), _, sink', told⟩ => (t.play sink').between told []
      | ⟨.error e, s', sink', told⟩ => ⟨.error e, s', sink', told⟩ := by
  have hdone : ∀ (effects : List (Effect δ β)) (sink : κ) (done : List Event),
      playFrom t.result t.state effects sink done =
        (playFrom t.result t.state effects sink []).between done.reverse [] := by
    intro effects
    induction effects with
    | nil => intro sink done; simp [playFrom, Played.between]
    | cons e rest ih =>
      intro sink done
      cases e with
      | note event =>
        rw [playFrom, playFrom, ih sink (event :: done), ih sink [event]]
        simp [Played.between]
      | emit item fallback =>
        rw [playFrom, playFrom]
        split
        · exact ih _ done
        · simp [Played.between]
  suffices h : ∀ (effects : List (Effect δ β)) (sink : κ) (done : List Event),
      playFrom t.result t.state (effects ++ t.effects) sink done =
        match playFrom (.ok () : Except Halt Unit) s effects sink done with
        | ⟨.ok (), _, sink', told⟩ => (t.play sink').between told []
        | ⟨.error e, s', sink', told⟩ => ⟨.error e, s', sink', told⟩ from h before sink []
  intro effects
  induction effects with
  | nil => exact fun sink done => hdone t.effects sink done
  | cons e rest ih =>
    intro sink done
    cases e with
    | note event => exact ih sink (event :: done)
    | emit item fallback =>
      simp only [List.cons_append, playFrom]
      split
      · exact ih _ done
      · rfl

/-- What a sink makes of a run is its own end, or that of the sink. -/
theorem play_cases (t : Trace δ β Halt α) (sink : κ) :
    ((t.play sink).result = t.result ∧ (t.play sink).state = t.state) ∨
      ∃ before item e, Sink.emit before item = (.error e, (t.play sink).sink) ∧
        (t.play sink).result = .error e := by
  suffices h : ∀ (effects : List (Effect δ β)) (sink : κ) (done : List Event),
      let p := playFrom t.result t.state effects sink done
      (p.result = t.result ∧ p.state = t.state) ∨
        ∃ before item e, Sink.emit before item = (.error e, p.sink) ∧ p.result = .error e from
    h t.effects sink []
  intro effects
  induction effects with
  | nil => exact fun sink done => .inl ⟨rfl, rfl⟩
  | cons e rest ih =>
    intro sink done
    cases e with
    | note event => exact ih sink (event :: done)
    | emit item fallback =>
      rw [playFrom]
      split
      · exact ih _ done
      · exact .inr ⟨sink, item, _, ‹_›, rfl⟩

/-- A run that a sink lets answer has answered. -/
theorem play_ok {t : Trace δ β Halt α} {sink : κ} {a : α} (h : (t.play sink).result = .ok a) :
    t.result = .ok a ∧ (t.play sink).state = t.state := by
  rcases t.play_cases sink with ⟨hresult, hstate⟩ | ⟨_, _, e, -, herror⟩
  · exact ⟨hresult ▸ h, hstate⟩
  · rw [h] at herror
    cases herror

/-- A sink takes part in two scripts one after the other as it does in each. -/
theorem play_bind (m m' : Script δ β Halt Unit) (s : δ) (sink : κ) :
    ((m >>= fun _ => m').run s).play sink =
      match (m.run s).play sink with
      | ⟨.ok (), s', sink', told⟩ => ((m'.run s').play sink').between told []
      | ⟨.error e, s', sink', told⟩ => ⟨.error e, s', sink', told⟩ := by
  rcases hrun : m.run s with ⟨e | ⟨⟩, s₁, effects⟩
  · rw [Script.run_bind_error hrun]
    rcases hplay : (⟨.error e, s₁, effects⟩ : Trace δ β Halt Unit).play sink with
      ⟨e' | _, s', sink', told⟩
    · rfl
    · have hok := play_ok (congrArg Played.result hplay)
      cases hok.1
  · rw [Script.run_bind_ok hrun, play_after effects s₁]
    rcases hplay : (⟨.ok (), s₁, effects⟩ : Trace δ β Halt Unit).play sink with
      ⟨e | _, s', sink', told⟩
    · rfl
    · obtain ⟨-, hstate⟩ := play_ok (congrArg Played.result hplay)
      rw [hplay] at hstate
      obtain rfl : s' = s₁ := hstate
      rfl

/-- What a sink makes of draining a list: it takes part in feeding the first item, and in draining
the rest if that has not failed. -/
theorem play_drain_cons {γ : Type} {feed : γ → Script δ β Halt Unit} (a : γ) (rest : List γ) (s : δ)
    (sink : κ) :
    ((Script.drain feed).run (s, a :: rest)).play sink =
      match ((feed a).run s).play sink with
      | ⟨.ok (), s', sink', told⟩ =>
        (((Script.drain feed).run (s', rest)).play sink').between told []
      | ⟨.error e, s', sink', told⟩ => ⟨.error e, (s', rest), sink', told⟩ := by
  have hrun : (Script.drain feed).run (s, a :: rest) =
      (Script.beside (feed a) >>= fun _ => Script.drain feed).run (s, rest) := by
    rcases hfed : (feed a).run s with ⟨e | ⟨⟩, s', effects⟩
    · have hbeside : (Script.beside (feed a)).run (s, rest) = _ := congrArg (mapState (·, rest)) hfed
      rw [Script.run_drain_cons_error hfed, Script.run_bind_error hbeside]
    · have hbeside : (Script.beside (feed a)).run (s, rest) = _ := congrArg (mapState (·, rest)) hfed
      rw [Script.run_drain_cons hfed, Script.run_bind_ok hbeside]
  have hbeside : ((Script.beside (feed a)).run (s, rest)).play sink = _ :=
    play_mapState (·, rest) ((feed a).run s) sink
  rw [hrun, play_bind, hbeside]
  rcases ((feed a).run s).play sink with ⟨e | ⟨⟩, s', sink', told⟩ <;> rfl

/-- A run that ends with the only item it hands on. -/
theorem play_emit_last (result : Except Halt α) (s : δ) (told : List Event) (item : β) (s' : δ)
    (sink : κ) :
    (⟨result, s, told.map .note ++ [.emit item s']⟩ : Trace δ β Halt α).play sink =
      match Sink.emit sink item with
      | (.ok (), sink') => ⟨result, s, sink', told⟩
      | (.error e, sink') => ⟨.error e, s', sink', told⟩ := by
  have h := play_after (told.map .note) s (⟨result, s, [.emit item s']⟩ : Trace δ β Halt α) sink
  rw [play_noted] at h
  refine h.trans ?_
  simp only [play, playFrom]
  rcases Sink.emit sink item with ⟨_ | _, sink'⟩ <;> simp [Played.between]

end Trace

/-- A script whose result is an answer. -/
theorem Script.Answers.of_result {δ β ε α : Type} {m : Script δ β ε α} {s : δ}
    {Q : α → δ → List β → Prop} {a : α} (ha : (m.run s).result = .ok a)
    (h : Q a (m.run s).state (m.run s).items) : Answers m s Q := by
  unfold Answers Ends
  rcases hrun : m.run s with ⟨e | b, s', effects⟩
  · rw [hrun] at ha
    cases ha
  · rw [hrun] at ha h
    obtain rfl : b = a := Except.ok.inj ha
    exact h

/-! ## A sink that refuses now and then -/

/-- A sink that refuses some of the offers made to it, by their numbers, and notes which items it
has taken and which it has refused. -/
structure Picky (β : Type) where
  refusal : Nat → Option Halt
  offers : Nat := 0
  taken : List β := []
  refused : List β := []

namespace Picky

variable {δ β α : Type}

instance sink : Sink (Picky β) β where
  emit sink item :=
    match sink.refusal sink.offers with
    | none => (.ok (), { sink with offers := sink.offers + 1, taken := sink.taken ++ [item] })
    | some e =>
      (.error e, { sink with offers := sink.offers + 1, refused := sink.refused ++ [item] })

/-- The same sink with its notes wiped out. -/
def wiped (sink : Picky β) : Picky β :=
  { sink with taken := [], refused := [] }

/-- A run that has been taken in full, or one that has met a refusal; a sink that refuses nothing
takes all of it. -/
theorem play_cases (t : Trace δ β Halt α) (sink : Picky β) :
    (t.play sink).sink.refusal = sink.refusal ∧
      (((t.play sink).result = t.result ∧ (t.play sink).state = t.state ∧
          (t.play sink).sink.taken = sink.taken ++ t.items ∧
          (t.play sink).sink.refused = sink.refused) ∨
        ∃ item n, (t.play sink).sink.refused = sink.refused ++ [item] ∧
          (sink.refusal n).isSome) := by
  suffices h : ∀ (effects : List (Effect δ β)) (sink : Picky β) (done : List Event),
      let p := Trace.playFrom t.result t.state effects sink done
      p.sink.refusal = sink.refusal ∧
        ((p.result = t.result ∧ p.state = t.state ∧
            p.sink.taken = sink.taken ++ effects.filterMap Effect.item? ∧
            p.sink.refused = sink.refused) ∨
          ∃ item n, p.sink.refused = sink.refused ++ [item] ∧ (sink.refusal n).isSome) from
    h t.effects sink []
  intro effects
  induction effects with
  | nil => exact fun sink done => ⟨rfl, .inl ⟨rfl, rfl, (List.append_nil _).symm, rfl⟩⟩
  | cons e rest ih =>
    intro sink done
    cases e with
    | note event => exact ih sink (event :: done)
    | emit item fallback =>
      cases h : sink.refusal sink.offers with
      | some e =>
        have hp : Trace.playFrom t.result t.state (.emit item fallback :: rest) sink done =
            ⟨.error e, fallback,
              { sink with offers := sink.offers + 1, refused := sink.refused ++ [item] },
              done.reverse⟩ := by
          simp [Trace.playFrom, Sink.emit, h]
        rw [hp]
        exact ⟨rfl, .inr ⟨item, _, rfl, by rw [h]; rfl⟩⟩
      | none =>
        have hp : Trace.playFrom t.result t.state (.emit item fallback :: rest) sink done =
            Trace.playFrom t.result t.state rest
              { sink with offers := sink.offers + 1, taken := sink.taken ++ [item] } done := by
          simp [Trace.playFrom, Sink.emit, h]
        rw [hp]
        obtain ⟨hrefusal, hcases⟩ := ih { sink with
          offers := sink.offers + 1
          taken := sink.taken ++ [item] } done
        refine ⟨hrefusal, ?_⟩
        rcases hcases with ⟨hresult, hstate, htaken, hrefused⟩ | hrefused
        · exact .inl ⟨hresult, hstate, by simpa using htaken, hrefused⟩
        · exact .inr hrefused

theorem of_taken {sink sink' : Picky β} {item : β} (h : Sink.emit sink item = (.ok (), sink')) :
    sink'.taken = sink.taken ++ [item] := by
  simp only [Sink.emit] at h
  split at h
  · rw [← (Prod.mk.inj h).2]
  · cases (Prod.mk.inj h).1

theorem of_refused {sink sink' : Picky β} {item : β} {e : Halt}
    (h : Sink.emit sink item = (.error e, sink')) :
    sink'.taken = sink.taken ∧ sink'.offers = sink.offers + 1 ∧
      sink.refusal sink.offers = some e := by
  simp only [Sink.emit] at h
  split at h
  · cases (Prod.mk.inj h).1
  · rename_i e' hrefusal
    obtain ⟨he, rfl⟩ := Prod.mk.inj h
    exact ⟨rfl, rfl, hrefusal.trans (congrArg some (Except.error.inj he))⟩

end Picky

/-! ## Running again what has been refused -/

section Retrying

variable {δ β κ α : Type} [Sink κ β]

/-- A script that never fails, hands on one item at most, does so at its end, and from the state it
falls back to does all of it again. -/
def Repeatable (m : Script δ β Halt Unit) : Prop :=
  ∀ s, ∃ (s' : δ) (told : List Event),
    m.run s = ⟨.ok (), s', told.map .note⟩ ∨
      ∃ item back, m.run s = ⟨.ok (), s', told.map .note ++ [.emit item back]⟩ ∧
        m.run back = m.run s

theorem Repeatable.result {m : Script δ β Halt Unit} (h : Repeatable m) (s : δ) :
    (m.run s).result = .ok () := by
  obtain ⟨s', told, hquiet | ⟨item, back, hrun, -⟩⟩ := h s
  · rw [hquiet]
  · rw [hrun]

theorem Repeatable.length_items {m : Script δ β Halt Unit} (h : Repeatable m) (s : δ) :
    (m.run s).items.length ≤ 1 := by
  obtain ⟨s', told, hquiet | ⟨item, back, hrun, -⟩⟩ := h s
  · rw [hquiet, Trace.items_mk, Trace.filterMap_noted]
    exact Nat.zero_le 1
  · rw [hrun, Trace.items_mk, List.filterMap_append, Trace.filterMap_noted]
    exact Nat.le_refl 1

/-- What a sink makes of it: all has been done, or the sink has refused the only item and all is
still to be done. -/
theorem Repeatable.play {m : Script δ β Halt Unit} (h : Repeatable m) (s : δ) (sink : κ) :
    let p := (m.run s).play sink
    (p.result = .ok () ∧ p.state = (m.run s).state ∧
        (((m.run s).items = [] ∧ p.sink = sink) ∨
          ∃ item, (m.run s).items = [item] ∧ Sink.emit sink item = (.ok (), p.sink))) ∨
      ∃ item e, (m.run s).items = [item] ∧ Sink.emit sink item = (.error e, p.sink) ∧
        p.result = .error e ∧ m.run p.state = m.run s := by
  obtain ⟨s', told, hquiet | ⟨item, back, hrun, hback⟩⟩ := h s
  · rw [hquiet, Trace.play_noted, Trace.items_mk, Trace.filterMap_noted]
    exact .inl ⟨rfl, rfl, .inl ⟨rfl, rfl⟩⟩
  · have hplay := Trace.play_emit_last (.ok ()) s' told item back sink
    have hitems : (m.run s).items = [item] := by
      rw [hrun, Trace.items_mk, List.filterMap_append, Trace.filterMap_noted]
      rfl
    rw [← hrun] at hplay
    rw [hplay, hitems]
    generalize hoffer : Sink.emit sink item = offer
    rcases offer with ⟨e | _, sink'⟩
    · exact .inr ⟨item, e, rfl, hoffer, rfl, hback⟩
    · exact .inl ⟨rfl, congrArg Trace.state hrun.symm, .inr ⟨item, rfl, hoffer⟩⟩

/-- With a picky sink the notes and the number of offers tell which of the two it is. -/
theorem Repeatable.play_picky {m : Script δ β Halt Unit} (h : Repeatable m) (s : δ)
    (sink : Picky β) :
    let p := (m.run s).play sink
    p.sink.refusal = sink.refusal ∧
      ((p.result = .ok () ∧ p.state = (m.run s).state ∧
          p.sink.taken = sink.taken ++ (m.run s).items) ∨
        ∃ e, p.result = .error e ∧ m.run p.state = m.run s ∧ p.sink.taken = sink.taken ∧
          p.sink.offers = sink.offers + 1 ∧ sink.refusal sink.offers = some e) := by
  intro p
  refine ⟨(Picky.play_cases (m.run s) sink).1, ?_⟩
  obtain ⟨hok, hstate, ⟨hitems, hsink⟩ | ⟨item, hitems, hsink⟩⟩ |
    ⟨item, e, -, hsink, herror, hagain⟩ := h.play s sink
  · exact .inl ⟨hok, hstate, by rw [hitems, List.append_nil, ← hsink]⟩
  · exact .inl ⟨hok, hstate, by rw [hitems, ← Picky.of_taken hsink]⟩
  · obtain ⟨htaken, hoffers, hrefusal⟩ := Picky.of_refused hsink
    exact .inr ⟨e, herror, hagain, htaken, hoffers, hrefusal⟩

variable {feed : α → Script δ β Halt Unit}

/-- What comes of a list of items that are fed one by one, each again and again until it does not
fail. -/
inductive Retried (feed : α → Script δ β Halt Unit) :
    δ → Picky β → List α → δ → Picky β → Prop
  | done (s : δ) (sink : Picky β) : Retried feed s sink [] s sink
  | next {s t : δ} {sink final : Picky β} {a : α} {rest : List α} :
      (((feed a).run s).play sink).result = .ok () →
      Retried feed (((feed a).run s).play sink).state (((feed a).run s).play sink).sink rest
        t final →
      Retried feed s sink (a :: rest) t final
  | again {s t : δ} {sink final : Picky β} {a : α} {rest : List α} {e : Halt} :
      (((feed a).run s).play sink).result = .error e →
      Retried feed (((feed a).run s).play sink).state (((feed a).run s).play sink).sink (a :: rest)
        t final →
      Retried feed s sink (a :: rest) t final

omit [Sink κ β] in
/-- What an item is fed from matters only for what feeding it does. -/
theorem run_drain_congr {s t : δ} {a : α} (h : (feed a).run s = (feed a).run t) (rest : List α) :
    (Script.drain feed).run (s, a :: rest) = (Script.drain feed).run (t, a :: rest) := by
  rcases hrun : (feed a).run t with ⟨e | _, t', effects⟩
  · rw [Script.run_drain_cons_error hrun, Script.run_drain_cons_error (h.trans hrun)]
  · rw [Script.run_drain_cons hrun, Script.run_drain_cons (h.trans hrun)]

omit [Sink κ β] in
/-- **A caller that feeds again what has failed** ends where one does whose feeds do not fail, and
the sink has taken the same items. -/
theorem Retried.drained (h : ∀ a, Repeatable (feed a)) {s t : δ} {sink final : Picky β}
    {xs : List α} (hretried : Retried feed s sink xs t final) :
    Script.Answers (Script.drain feed) (s, xs) fun _ u items =>
      u.1 = t ∧ final.taken = sink.taken ++ items := by
  induction hretried with
  | done s sink => exact .drain_nil ⟨rfl, (List.append_nil _).symm⟩
  | @next s t sink final a rest hok _ ih =>
    obtain ⟨-, ⟨-, hstate, htaken⟩ | ⟨e, herror, -⟩⟩ := (h a).play_picky s sink
    · rw [hstate, htaken] at ih
      apply Script.Answers.drain_cons
      apply Script.Answers.of_result ((h a).result s)
      apply ih.mono
      intro _ u items hrest
      exact ⟨hrest.1, by rw [hrest.2, List.append_assoc]⟩
    · rw [hok] at herror
      cases herror
  | @again s t sink final a rest e herror _ ih =>
    obtain ⟨-, ⟨hok, -⟩ | ⟨_, -, hagain, htaken, -⟩⟩ := (h a).play_picky s sink
    · rw [hok] at herror
      cases herror
    · unfold Script.Answers Script.Ends at ih ⊢
      rwa [run_drain_congr hagain, htaken] at ih

omit [Sink κ β] in
/-- A caller gets through if its sink does not refuse all offers from some number on. -/
theorem Repeatable.retried (h : ∀ a, Repeatable (feed a)) (xs : List α) (s : δ) (sink : Picky β)
    (hsink : ∀ n, ∃ m, n ≤ m ∧ sink.refusal m = none) :
    ∃ t final, Retried feed s sink xs t final := by
  induction xs generalizing s sink with
  | nil => exact ⟨s, sink, .done s sink⟩
  | cons a rest ih =>
    obtain ⟨m, hm, htaken⟩ := hsink sink.offers
    obtain ⟨tries, rfl⟩ := Nat.exists_eq_add_of_le hm
    -- one try less up to the offer that will be taken
    induction tries generalizing s sink with
    | zero =>
      obtain ⟨hrefusal, ⟨hok, -⟩ | ⟨e, -, -, -, -, hsome⟩⟩ := (h a).play_picky s sink
      · obtain ⟨t, final, hrest⟩ := ih _ _ (hrefusal ▸ hsink)
        exact ⟨t, final, .next hok hrest⟩
      · rw [Nat.add_zero, hsome] at htaken
        cases htaken
    | succ tries ihtries =>
      obtain ⟨hrefusal, ⟨hok, -⟩ | ⟨e, herror, -, -, hoffers, -⟩⟩ := (h a).play_picky s sink
      · obtain ⟨t, final, hrest⟩ := ih _ _ (hrefusal ▸ hsink)
        exact ⟨t, final, .next hok hrest⟩
      · obtain ⟨t, final, hrest⟩ := ihtries (((feed a).run s).play sink).state
          (((feed a).run s).play sink).sink (hrefusal ▸ hsink) (Nat.le_add_right _ _) (by
            rw [hrefusal, hoffers, Nat.add_right_comm]
            exact htaken)
        exact ⟨t, final, .again herror hrest⟩

end Retrying

end BusDecode
