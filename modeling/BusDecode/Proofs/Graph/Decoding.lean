import BusDecode.Proofs.Graph.Work
import BusDecode.Proofs.Merger.CutShort
import BusDecode.Proofs.Receiver.Prospect

/-!
# Decoders as nodes work them

A node works call by call on receivers, a decoder by itself step by step on lists.  A `Decoding`
says that the two agree, in both ways that matter: a call on receivers that serve lists does what a
step on the lists does, and a call on receivers that more is to arrive at does the same as far as it
gets.  Called until it halts on receivers that end, such a node sends what the steps hand on
(`Decoding.works_yields`).
-/

set_option autoImplicit false

namespace BusDecode

/-! ## Items under another type -/

/-- A run whose items are others under a function is a run with those, seen through it. -/
theorem Trace.exists_mapItem {δ β β' ε α : Type} {f : β → β'} {t : Trace δ β' ε α} {xs : List β}
    (h : t.items = xs.map f) : ∃ t' : Trace δ β ε α, t = t'.mapItem f ∧ t'.items = xs := by
  obtain ⟨result, state, effects⟩ := t
  suffices hall : ∃ before : List (Effect δ β), effects = before.map (Effect.mapItem f) ∧
      before.filterMap Effect.item? = xs by
    obtain ⟨before, rfl, hxs⟩ := hall
    exact ⟨⟨result, state, before⟩, rfl, hxs⟩
  rw [Trace.items_mk] at h
  induction effects generalizing xs with
  | nil =>
    obtain rfl : xs = [] := by simpa using h.symm
    exact ⟨[], rfl, rfl⟩
  | cons effect rest ih =>
    cases effect with
    | note event =>
      obtain ⟨before, rfl, hxs⟩ := ih h
      exact ⟨.note event :: before, rfl, hxs⟩
    | emit item fallback =>
      obtain ⟨x, ys, rfl, rfl, hys⟩ : ∃ x ys, xs = x :: ys ∧ f x = item ∧
          ys.map f = rest.filterMap Effect.item? := by
        cases xs with
        | nil => simp at h
        | cons x ys =>
          simp only [List.filterMap_cons, Trace.item?_emit, List.map_cons, List.cons.injEq] at h
          exact ⟨x, ys, rfl, h.1.symm, h.2.symm⟩
      obtain ⟨before, rfl, rfl⟩ := ih hys.symm
      exact ⟨.emit x fallback :: before, rfl, rfl⟩

/-- What a call hands on reaches every live destination of the first outlet. -/
theorem Outlet.play_items {type : ItemType} {sender : Sender type.Carrier} (h : sender.IsLive)
    {call : Node.Call} {xs : List type.Carrier} (hxs : call.items = xs.map (Item.mk type))
    (more : List Outlet) :
    ∃ events, call.play (connected type sender :: more) =
      ⟨call.result, call.state, connected type (sender.sent xs) :: more, events⟩ := by
  obtain ⟨t, rfl, rfl⟩ := Trace.exists_mapItem hxs
  exact ⟨t.events, play_live h t more⟩

/-! ## Steps up to a failure -/

/-- Repeated until it fails, a script hands on these items, fails for this reason and leaves this
state. -/
inductive Script.Yields {δ β ε : Type} (m : Script δ β ε Unit) : δ → List β → ε → δ → Prop
  | stop {s : δ} {e : ε} (h : (m.run s).result = .error e) :
      Yields m s (m.run s).items e (m.run s).state
  | again {s t : δ} {e : ε} {items : List β} (h : (m.run s).result = .ok ())
      (hrest : Yields m (m.run s).state items e t) : Yields m s ((m.run s).items ++ items) e t

namespace Script.Yields

variable {δ γ β ε : Type} {m : Script δ β ε Unit} {s final : δ} {e : ε} {items : List β}
  {t : Trace γ β ε Unit} {f : γ → δ}

/-- The last step, known as the run of another script. -/
theorem stop_of (h : m.run s = t.mapState f) (ht : t.result = .error e) :
    Yields m s t.items e (f t.state) := by
  have hstop : m.Yields s _ e _ := .stop ((congrArg Trace.result h).trans ht)
  rwa [h, Trace.items_mapState] at hstop

/-- A step, known as the run of another script, and those after it. -/
theorem again_of (h : m.run s = t.mapState f) (ht : t.result = .ok ())
    (hrest : Yields m (f t.state) items e final) : Yields m s (t.items ++ items) e final := by
  have hstep : (m.run s).state = f t.state := congrArg Trace.state h
  have hagain : m.Yields s _ e final := .again ((congrArg Trace.result h).trans ht) (hstep ▸ hrest)
  rwa [h, Trace.items_mapState] at hagain

end Script.Yields

/-- Repeated from a state, a script succeeds this many times before it fails. -/
inductive Script.Lasts {δ β ε : Type} (m : Script δ β ε Unit) : δ → Nat → Prop
  | stop {s : δ} {e : ε} (h : (m.run s).result = .error e) : Lasts m s 0
  | again {s : δ} {n : Nat} (h : (m.run s).result = .ok ()) (hrest : Lasts m (m.run s).state n) :
      Lasts m s (n + 1)

theorem Script.Yields.exists_lasts {δ β ε : Type} {m : Script δ β ε Unit} {s final : δ} {e : ε}
    {items : List β} (h : m.Yields s items e final) : ∃ n, m.Lasts s n := by
  induction h with
  | stop h => exact ⟨0, .stop h⟩
  | again h _ ih =>
    obtain ⟨n, hn⟩ := ih
    exact ⟨n + 1, .again h hn⟩

namespace Node

/-! ## Calls -/

section Calls

variable (type : ItemType) {Memory : Type}

/-- A node with the receivers of its inlets, all of one type. -/
def withLines (node : Memory → Node) (m : Memory) (lines : List (Receiver type.Carrier)) : State :=
  (node m, lines.map (Inlet.connected type))

/-- A call does what a step does: its result, its items and what it leaves agree. -/
structure Agrees (node : Memory → Node) (count : Nat) (call : Call)
    (t : Trace (Memory × List (List type.Carrier)) Annotation Halt Unit) : Prop where
  result : call.result.map (fun _ => ()) = t.result
  items : call.items = t.items.map (Item.mk .annotations)
  state : ∃ lines, call.state = withLines type node t.state.1 lines ∧ lines.length = count ∧
    List.Forall₂ Receiver.Serves lines t.state.2

namespace Agrees

variable {type : ItemType} {node : Memory → Node} {count : Nat} {call : Call}
  {t : Trace (Memory × List (List type.Carrier)) Annotation Halt Unit}

theorem error (h : Agrees type node count call t) {e : Halt} (ht : t.result = .error e) :
    call.result = .error e := by
  have hresult := h.result
  cases hcall : call.result <;> rw [hcall, ht] at hresult <;> cases hresult
  rfl

theorem ok (h : Agrees type node count call t) (ht : t.result = .ok ()) :
    ∃ produced, call.result = .ok produced := by
  have hresult := h.result
  cases hcall : call.result <;> rw [hcall, ht] at hresult <;> cases hresult
  exact ⟨_, rfl⟩

end Agrees

/-- A call is the beginning of another one, which finds more at its inlets: they do the same, or the
first one starves at some inlet after the first items. -/
inductive Lags (node : Memory → Node) (prospect : Nat → Receiver.Prospect type.Carrier)
    (count : Nat) (call call' : Call) : Prop
  | whole (result : call.result = call'.result) (items : call.items = call'.items)
      (state : ∃ (m : Memory) (lines lines' : List (Receiver type.Carrier)),
        call.state = withLines type node m lines ∧ call'.state = withLines type node m lines' ∧
        lines.length = count ∧ Linewise (fun j => Receiver.Grown (prospect j)) lines lines')
  | short (result : call.result = .error .starved) (items : call.items <+: call'.items)
      (state : ∃ (m : Memory) (lines : List (Receiver type.Carrier)),
        call.state = withLines type node m lines ∧ lines.length = count ∧
        (∀ (j : Nat) r, lines[j]? = some r → r.channel.hasSender = (prospect j).isOpen) ∧
        ∃ r ∈ lines, r.isDry = true)

namespace Lags

variable {type : ItemType} {node : Memory → Node}
  {prospect : Nat → Receiver.Prospect type.Carrier} {count : Nat}
  {call call' : Call}

theorem begins (h : Lags type node prospect count call call') : call.items <+: call'.items := by
  cases h with
  | whole _ items _ => exact items ▸ List.prefix_rfl
  | short _ items _ => exact items

/-- A call neither opens nor closes a channel. -/
theorem isOpen (h : Lags type node prospect count call call') :
    ∃ (m : Memory) (lines : List (Receiver type.Carrier)),
      call.state = withLines type node m lines ∧ lines.length = count ∧
      ∀ (j : Nat) r, lines[j]? = some r → r.channel.hasSender = (prospect j).isOpen := by
  cases h with
  | whole _ _ state =>
    obtain ⟨m, lines, lines', hcall, _, hcount, hrel⟩ := state
    refine ⟨m, lines, hcall, hcount, fun j r hr => ?_⟩
    have hlt : j < lines'.length := hrel.length ▸ (List.getElem?_eq_some_iff.1 hr).1
    exact (hrel.rel j r lines'[j] hr (List.getElem?_eq_getElem hlt)).isOpen
  | short _ _ state =>
    obtain ⟨m, lines, hcall, hcount, hopen, -⟩ := state
    exact ⟨m, lines, hcall, hcount, hopen⟩

/-- A call has waited at an inlet that may still be sent to. -/
theorem waits_isOpen (h : Lags type node prospect count call call') {j : Nat}
    (hdry : call.state.2.findIdx? Inlet.isDry = some j) :
    j < count ∧ (prospect j).isOpen = true := by
  obtain ⟨m, lines, hstate, hcount, hopen⟩ := h.isOpen
  rw [hstate] at hdry
  obtain ⟨hlt, hjdry, _⟩ := List.findIdx?_eq_some_iff_getElem.1 hdry
  have hlt' : j < lines.length := by simpa [withLines] using hlt
  have hjdry' : lines[j].isDry = true := by simpa [withLines, Inlet.isDry] using hjdry
  have hsender := hopen j _ (List.getElem?_eq_getElem hlt')
  simp only [Receiver.isDry, Bool.and_eq_true] at hjdry'
  exact ⟨hcount ▸ hlt', hsender.symm.trans hjdry'.2⟩

end Lags

end Calls

end Node

/-! ## Decoders -/

/-- A decoder as its node works it. -/
structure Decoding (type : ItemType) where
  /-- what the decoder is between two calls -/
  Memory : Type
  node : Memory → Node
  /-- number of inlets -/
  count : Nat
  /-- what a call does, to lists in place of inlets -/
  step : Script (Memory × List (List type.Carrier)) Annotation Halt Unit
  inputs : ∀ m, (node m).inputs.map Terminal.index = List.range count
  outputs : ∀ m, (node m).outputs.map Terminal.index = [0]
  kept : ∀ m, (node m).kept? = none
  agrees : ∀ {targets : List (Option ItemType)} (m : Memory) {lines : List (Receiver type.Carrier)}
    {xss : List (List type.Carrier)}, Node.writes .annotations targets → lines.length = count →
    List.Forall₂ Receiver.Serves lines xss →
    Node.Agrees type node count (Node.work targets (Node.withLines type node m lines))
      (step.run (m, xss))
  lags : ∀ {targets : List (Option ItemType)} (m : Memory)
    {lines lines' : List (Receiver type.Carrier)}
    {prospect : Nat → Receiver.Prospect type.Carrier}, Node.writes .annotations targets →
    lines.length = count → Linewise (fun j => Receiver.Grown (prospect j)) lines lines' →
    Node.Lags type node prospect count (Node.work targets (Node.withLines type node m lines))
      (Node.work targets (Node.withLines type node m lines'))

namespace Decoding

variable {type : ItemType} (D : Decoding type) {m : D.Memory} {lines : List (Receiver type.Carrier)}
  {xss : List (List type.Carrier)} {sender : Sender Annotation}

/-- The state of the node with the receivers of its inlets. -/
abbrev withLines (m : D.Memory) (lines : List (Receiver type.Carrier)) : Node.State :=
  Node.withLines type D.node m lines

/-- One call of the node, whose first outlet has a live destination. -/
theorem workOn_agrees (hcount : lines.length = D.count)
    (hserves : List.Forall₂ Receiver.Serves lines xss) (hlive : sender.IsLive)
    (more : List Outlet) :
    ∃ call events, Node.Agrees type D.node D.count call (D.step.run (m, xss)) ∧
      Node.workOn (D.withLines m lines).1 (D.withLines m lines).2
          (.connected .annotations sender :: more) =
        ⟨call.result, call.state,
          .connected .annotations (sender.sent (D.step.run (m, xss)).items) :: more, events⟩ := by
  have hagrees := D.agrees m (Node.writes_connected .annotations sender more) hcount hserves
  obtain ⟨events, hplay⟩ := Outlet.play_items hlive hagrees.items more
  exact ⟨_, events, hagrees, hplay⟩

/-- **Called until it halts**, the node sends what the steps of its decoder hand on, and halts for
the same reason. -/
theorem works_yields {items : List Annotation} {e : Halt}
    {final : D.Memory × List (List type.Carrier)} (h : D.step.Yields (m, xss) items e final)
    (hcount : lines.length = D.count) (hserves : List.Forall₂ Receiver.Serves lines xss)
    (hlive : sender.IsLive) (more : List Outlet) :
    ∃ lines', Node.Works (D.withLines m lines) (.connected .annotations sender :: more) e
      (D.withLines final.1 lines') (.connected .annotations (sender.sent items) :: more) := by
  generalize hs : (m, xss) = s at h
  induction h generalizing m lines xss sender with
  | stop h =>
    subst hs
    obtain ⟨call, events, hagrees, hwork⟩ := D.workOn_agrees hcount hserves hlive more
    obtain ⟨lines', hstate, _, _⟩ := hagrees.state
    rw [hagrees.error h, hstate] at hwork
    exact ⟨lines', .stop hwork⟩
  | again h hrest ih =>
    subst hs
    obtain ⟨call, events, hagrees, hwork⟩ := D.workOn_agrees hcount hserves hlive more
    obtain ⟨lines', hstate, hcount', hserves'⟩ := hagrees.state
    obtain ⟨produced, hresult⟩ := hagrees.ok h
    rw [hresult, hstate] at hwork
    obtain ⟨lines'', hworks⟩ := ih hcount' hserves' (hlive.sent _) rfl
    rw [Sender.sent_sent] at hworks
    exact ⟨lines'', .again hwork hworks⟩

end Decoding

end BusDecode
