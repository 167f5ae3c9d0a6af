import BusDecode.Graph.Node
import BusDecode.Proofs.Script

/-!
# Calls until the first halt

`Node.Works` says what comes of calling a node until a call stops it: it is determined by what the
node starts with (`Works.unique`), and a run of calls can be put together call by call.  A node
whose outlet has a live destination never stops for want of a receiver: what a call annotates is
sent to every such destination, in order (`Node.play_annotating`).
-/

set_option autoImplicit false

namespace BusDecode

/-! ## Sending -/

namespace Sender

variable {α : Type} {s : Sender α}

/-- Some destination still has its receiving end. -/
def IsLive (s : Sender α) : Prop :=
  ∃ c ∈ s.destinations, c.hasReceiver = true

/-- The sender once it has sent some items: every destination that still has its receiving end holds
them behind what it held. -/
def sent (s : Sender α) (items : List α) : Sender α :=
  ⟨s.destinations.map fun c =>
    if c.hasReceiver then { c with queue := c.queue ++ items.map .item } else c⟩

@[simp] theorem sent_nil : s.sent [] = s := by
  simp [sent]

theorem sent_sent (xs ys : List α) : (s.sent xs).sent ys = s.sent (xs ++ ys) := by
  simp only [sent, List.map_map, mk.injEq]
  refine List.map_congr_left fun c _ => ?_
  by_cases h : c.hasReceiver = true <;> simp [h]

theorem IsLive.sent (h : s.IsLive) (items : List α) : (s.sent items).IsLive := by
  obtain ⟨c, hc, hlive⟩ := h
  refine ⟨_, List.mem_map_of_mem hc, ?_⟩
  rw [if_pos hlive]
  exact hlive

theorem broadcast_item (a : α) : s.broadcast (.item a) = s.sent [a] := by
  simp only [broadcast, sent, mk.injEq]
  refine List.map_congr_left fun c _ => ?_
  by_cases h : c.hasReceiver = true <;> simp [Channel.send?, h]

/-- A sender with a live destination takes every item. -/
theorem IsLive.emit (h : s.IsLive) (a : α) : Sink.emit s a = (.ok (), s.sent [a]) := by
  obtain ⟨c, hc, hlive⟩ := h
  have hall : (s.destinations.all fun c => !c.hasReceiver) = false :=
    List.all_eq_false.2 ⟨c, hc, by simp [hlive]⟩
  have hforsaken : s.isForsaken = false := by rw [isForsaken, hall, Bool.and_false]
  change (sendFailure (if s.isForsaken then .error a else .ok ()), s.broadcast (.item a)) = _
  rw [hforsaken, broadcast_item]
  rfl

end Sender

namespace Outlet

variable {δ α : Type} {type : ItemType} {sender : Sender type.Carrier}

/-- What a run hands on reaches every live destination of the first outlet. -/
theorem play_live (h : sender.IsLive) (t : Trace δ type.Carrier Halt α) (more : List Outlet) :
    (t.mapItem (Item.mk type)).play (connected type sender :: more) =
      ⟨t.result, t.state, connected type (sender.sent t.items) :: more, t.events⟩ := by
  have haccept : ∀ (xs : List type.Carrier) b,
      Sink.emit (connected type (sender.sent xs) :: more) (Item.mk type b) =
        (.ok (), connected type (sender.sent (xs ++ [b])) :: more) := by
    intro xs b
    change emitFirst (connected type (sender.sent xs) :: more) (Item.mk type b) = _
    have hsender : (connected type (sender.sent xs)).sender? type = some (sender.sent xs) := by
      simp [sender?]
    simp only [emitFirst, hsender, (h.sent xs).emit, Sender.sent_sent]
  have hplay := Trace.play_mapItem haccept t
  rwa [Sender.sent_nil] at hplay

end Outlet

/-! ## Calls -/

namespace Node

theorem writes_connected (type : ItemType) (sender : Sender type.Carrier) (more : List Outlet) :
    writes type ((.connected type sender :: more : List Outlet).map Outlet.type?) :=
  rfl

/-- A call that annotates sends its annotations to every live destination. -/
theorem play_annotating {δ α : Type} {sender : Sender Annotation} (h : sender.IsLive)
    (t : Trace δ Annotation Halt α) (state : δ → State) (count : α → Nat) (told : List Event)
    (more : List Outlet) :
    ∃ events, ((annotating t state count).after (told.map .note)).play
        (.connected .annotations sender :: more) =
      ⟨t.result.map count, state t.state, .connected .annotations (sender.sent t.items) :: more,
        events⟩ := by
  let t' : Trace State Annotation Halt Nat :=
    .after (told.map .note) ⟨t.result.map count, state t.state, (t.mapState state).effects⟩
  have hcall : (annotating t state count).after (told.map .note) =
      t'.mapItem (Item.mk .annotations) := by
    simp only [t', annotating, Trace.after, Trace.mapItem, List.map_append, List.map_map]
    rfl
  have hitems : t'.items = t.items := by
    rw [Trace.items_after, Trace.filterMap_noted, List.nil_append]
    exact Trace.items_mapState state t
  refine ⟨t'.events, ?_⟩
  rw [hcall, Outlet.play_live h, hitems]
  rfl

/-- Called over and over from a state, with these outlets, the node stops for the reason `e`; the
state and the outlets it leaves come last. -/
inductive Works : State → List Outlet → Halt → State → List Outlet → Prop
  | stop {s s' : State} {outlets outlets' : List Outlet} {e : Halt} {events : List Event}
      (h : workOn s.1 s.2 outlets = ⟨.error e, s', outlets', events⟩) :
      Works s outlets e s' outlets'
  | again {s s' t : State} {outlets outlets' ends : List Outlet} {e : Halt} {count : Nat}
      {events : List Event} (h : workOn s.1 s.2 outlets = ⟨.ok count, s', outlets', events⟩)
      (hrest : Works s' outlets' e t ends) :
      Works s outlets e t ends

/-- There is one way to work. -/
theorem Works.unique {s t t' : State} {outlets ends ends' : List Outlet} {e e' : Halt}
    (h : Works s outlets e t ends) (h' : Works s outlets e' t' ends') :
    e = e' ∧ t = t' ∧ ends = ends' := by
  induction h with
  | stop h =>
    cases h' with
    | stop h' =>
      cases h.symm.trans h'
      exact ⟨rfl, rfl, rfl⟩
    | again h' _ => cases h.symm.trans h'
  | again h _ ih =>
    cases h' with
    | stop h' => cases h.symm.trans h'
    | again h' hrest =>
      cases h.symm.trans h'
      exact ih hrest

end Node

end BusDecode
