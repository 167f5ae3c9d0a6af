import BusDecode.Proofs.Graph.Awaiting
import BusDecode.Proofs.Graph.Threads

/-!
# The threads of a pipeline

What a replay, a decoder and a collector are while they work and after they have stopped
(`FeederAt`, `DecoderAt`, `CollectorAt`), each with the lemma that a step of theirs keeps them so.
They know of one another only what their links tell: how much is due to the receiver, and whether
either end is still held.  Each comes with a bound for the steps it still takes, which its own steps
lower and those of the others leave alone.
-/

set_option autoImplicit false

namespace BusDecode

/-- What its sender makes of a link: what is due to the receiver comes through it, and is all in the
channel once the sender is gone. -/
def Fed (type : ItemType) (c : Channel Item) (due : List type.Carrier) : Prop :=
  ∃ left, Supplies type c left due ∧ (c.hasSender = false → left = [])

/-- Nothing is due any more of what a receiver sees end. -/
theorem Fed.over {type : ItemType} {c : Channel Item} {due : List type.Carrier}
    (h : Fed type c due) (hheard : c.hasReceiver = true)
    (hend : (∃ rest, c.queue = .endOfStream :: rest) ∨ c.queue = [] ∧ c.hasSender = false) :
    c.hasSender = false ∧ due = [] := by
  obtain ⟨left, hleft, hlast⟩ := h
  obtain ⟨_, hmarked⟩ | ⟨hempty, hclosed⟩ := hend
  · exact absurd (hmarked ▸ List.mem_cons_self) (hleft.unmarked hheard)
  · rw [hlast hclosed] at hleft
    exact ⟨hclosed, hleft.settled hheard hempty⟩

/-- Reports of a thread that stopped for a reason. -/
def Said (name : String) (reason : Halt) (told : List (String × Option String)) : Prop :=
  ∀ report ∈ told, report.1 = name ∧ report.2 ∈ Thread.lastWords reason

theorem Said.nil (name : String) (reason : Halt) : Said name reason [] :=
  nofun

theorem Said.single {name : String} {reason : Halt} {failure : Option String}
    (h : failure ∈ Thread.lastWords reason) : Said name reason [(name, failure)] := by
  intro report hreport
  obtain rfl := List.mem_singleton.1 hreport
  exact ⟨rfl, h⟩

variable {n n' : Network} {i : Nat} {t : Thread} {c : Channel Item}

open Thread (Sending Leaving Told lastWords)

/-! ## Replays -/

namespace Node

variable (type : ItemType) (name : String) (sent : Nat) (inlets : List Inlet)

theorem work_replay_nil :
    work [some type] (.replay name type [] sent, inlets) =
      ⟨.error .endOfStream, (.replay name type [] sent, inlets),
        [.note (.told name .debug s!"Replayed {sent} items")]⟩ :=
  if_pos rfl

theorem work_replay_cons (x : type.Carrier) (rest : List type.Carrier) :
    work [some type] (.replay name type (x :: rest) sent, inlets) =
      ⟨.ok 1, (.replay name type rest (sent + 1), inlets),
        [.emit ⟨type, x⟩ (.replay name type rest sent, inlets)]⟩ :=
  if_pos rfl

end Node

/-- Why a replay stops: it has sent everything, or nobody receives from it any more. -/
def EndsReplay (reason : Halt) : Prop :=
  reason = .endOfStream ∨ reason = .sendFailed Halt.closedChannel

section Stands

variable (type : ItemType) (link : Nat) (t : Thread) (c : Channel Item) (due : List type.Carrier)
  (left : Nat)

/-- A replay at work has these items left to send. -/
structure FeederWorks (own : String) (items : List type.Carrier) (sent : Nat) : Prop where
  start : t.start = (.replay own type items sent, [])
  call : t.call = Node.work [some type] t.start
  sending : Sending type link t c items due
  bound : 3 * items.length + 3 ≤ left + t.done

/-- A replay that has stopped is to give up its link, if it still holds it, and to report. -/
structure FeederLeaves (reason : Halt) : Prop where
  ends : EndsReplay reason
  leaving : Leaving reason t
  supplies : Supplies type c [] due
  held : c.hasSender = true → .hangUp link ∈ t.todo
  bound : t.todo.length ≤ left

/-- The thread of a replay: it has as much left to send as is due and not yet in its link, for which
it takes no more than `left` steps. -/
structure FeederAt (name : String) : Prop where
  feeds : t.feeds = []
  fanouts : t.fanouts = [some ⟨type, [link]⟩]
  name : t.name = name
  kept : t.start.1.kept? = none
  stands : (∃ own items sent, FeederWorks type link t c due left own items sent) ∨
    ∃ reason, FeederLeaves type link t c due left reason

end Stands

namespace FeederAt

variable {type : ItemType} {link : Nat} {name : String} {due : List type.Carrier} {left : Nat}

theorem fed (h : FeederAt type link t c due left name) : Fed type c due := by
  obtain ⟨_, _, _, hworks⟩ | ⟨_, hleaves⟩ := h.stands
  · obtain ⟨_, n, _, _, _, _, hsupplies⟩ := hworks.sending.progress
    exact ⟨_, hsupplies, fun hclosed =>
      absurd hworks.sending.isOpen (hclosed ▸ Bool.false_ne_true)⟩
  · exact ⟨[], hleaves.supplies, fun _ => rfl⟩

/-- The decoder takes a step. -/
theorem receive {k : Nat} {t' : Thread} {c' : Channel Item} {due' : List type.Carrier}
    {told : List (String × Option String)} (h : FeederAt type link t c due left name)
    (hstep : n.AtReceiver type k t' link c c' due due' told n') :
    FeederAt type link t c' due' left name where
  feeds := h.feeds
  fanouts := h.fanouts
  name := h.name
  kept := h.kept
  stands := by
    obtain ⟨own, items, sent, hworks⟩ | ⟨reason, hleaves⟩ := h.stands
    · exact .inl ⟨own, items, sent, hworks.start, hworks.call, hworks.sending.receiver hstep,
        hworks.bound⟩
    · exact .inr ⟨reason, hleaves.ends, hleaves.leaving, hstep.supplies _ hleaves.supplies,
        hstep.sender ▸ hleaves.held, hleaves.bound⟩

/-- A call sends the first item that is left. -/
theorem sending {own : String} {items : List type.Carrier} {sent : Nat}
    (hfanouts : t.fanouts = [some ⟨type, [link]⟩]) (hstage : t.stage = .working)
    (htaken : t.taken = false) (hopen : c.hasSender = true)
    (hsupplies : Supplies type c items due) :
    Sending type link (t.resume (.replay own type items sent, []) 0) c items due := by
  have hcall : ∃ xs, (Node.work [some type] (.replay own type items sent, [])).items =
      xs.map (Item.mk type) ∧ xs <+: items := by
    cases items with
    | nil =>
      rw [Node.work_replay_nil]
      exact ⟨[], rfl, List.nil_prefix⟩
    | cons x rest =>
      rw [Node.work_replay_cons]
      exact ⟨[x], rfl, List.cons_prefix_cons.2 ⟨rfl, List.nil_prefix⟩⟩
  obtain ⟨xs, hitems, hxs⟩ := hcall
  exact Sending.resume (n := 0) hfanouts hstage htaken hopen hitems hxs (Nat.zero_le _) hsupplies

theorem farewell (h : FeederAt type link t c due left name) : t.farewell = [.hangUp link] := by
  simp [Thread.farewell, h.feeds, h.fanouts]

theorem stop {reason : Halt} (h : FeederAt type link t c due left name)
    (hreason : EndsReplay reason) (hsupplies : Supplies type c [] due) :
    FeederAt type link (t.stop reason) c due 2 name := by
  have hleaving := Thread.leaving_stop t reason
  have hheld := Thread.mem_todo_stop (h.farewell ▸ List.mem_singleton_self _) reason
  have hbound := Thread.length_todo_stop_le t reason
  rw [h.farewell] at hbound
  obtain ⟨stage, todo, hstop⟩ := t.stop_eq reason
  rw [hstop] at hleaving hheld hbound ⊢
  exact ⟨h.feeds, h.fanouts, h.name, h.kept,
    .inr ⟨reason, hreason, hleaving, hsupplies, fun _ => hheld, hbound⟩⟩

/-- A step of the replay concerns the sending end of its link. -/
def Steps (type : ItemType) (link : Nat) (c : Channel Item) (due : List type.Carrier) (left : Nat)
    (name : String) (n : Network) (i : Nat) (n' : Network) : Prop :=
  ∃ t' c' told, ∃ left' < left, n.AtSender i t' link c c' told n' ∧
    FeederAt type link t' c' due left' name ∧ ∃ reason, EndsReplay reason ∧ Said name reason told

/-- The replay changes alone, and says nothing. -/
theorem Steps.still {t' : Thread} {left' : Nat} (hless : left' < left)
    (hn' : n' = n.setThread i t') (h' : FeederAt type link t' c due left' name) :
    Steps type link c due left name n i n' :=
  ⟨t', c, [], left', hless, .still (hn' ▸ Network.setThread_eq_update _), h', _, .inl rfl,
    .nil _ .endOfStream⟩

section Step

variable (h : FeederAt type link t c due left name)
include h

theorem step_leaving {reason : Halt} (hleaves : FeederLeaves type link t c due left reason)
    (hstep : n.Step i t n') : Steps type link c due left name n i n' := by
  have hstay : ∀ {c'}, Supplies type c' [] due →
      (c'.hasSender = true → .hangUp link ∈ t.advance.todo) →
      FeederAt type link t.advance c' due (left - 1) name :=
    fun hsupplies hheld => ⟨h.feeds, h.fanouts, h.name, h.kept,
      .inr ⟨reason, hleaves.ends, hleaves.leaving.advance, hsupplies, hheld,
        Thread.length_todo_advance_le hleaves.bound⟩⟩
  obtain ⟨deed, rest, htodo, hcases⟩ := hleaves.leaving.step_cases hstep
  have hless := Thread.pred_lt_of_todo htodo hleaves.bound
  obtain ⟨link', rfl, hmem, hn'⟩ | ⟨link', rfl, hmem, -⟩ | ⟨failure, hfailure, rfl, hn'⟩ := hcases
  · obtain ⟨fanout, hfanout, hlink⟩ := Thread.hangUp_mem_farewell.1 hmem
    rw [h.fanouts, List.mem_singleton] at hfanout
    cases hfanout
    obtain rfl := List.mem_singleton.1 hlink
    exact ⟨_, _, _, _, hless, ⟨⟨_, rfl, hn'⟩, rfl, fun h => (Bool.false_ne_true h).elim⟩,
      hstay hleaves.supplies.dropSender fun h => (Bool.false_ne_true h).elim, reason, hleaves.ends,
      .nil _ _⟩
  · rw [Thread.turnAway_mem_farewell, h.feeds] at hmem
    cases hmem
  · exact ⟨_, _, _, _, hless, .still (hn' link), hstay hleaves.supplies fun hopen =>
      Thread.mem_todo_advance htodo nofun (hleaves.held hopen), reason, hleaves.ends,
      h.name ▸ .single hfailure⟩

variable {own : String} {items : List type.Carrier} {sent : Nat}
  (hworks : FeederWorks type link t c due left own items sent)
include hworks

/-- In the middle of a call an item is sent, unless nobody receives it. -/
theorem step_sending (hc : n.channel? link = some c) (hstep : n.Step i t n')
    (htodo : t.todo ≠ []) : Steps type link c due left name n i n' := by
  have hbound := hworks.bound
  have hdone := hworks.sending.done_lt htodo
  obtain ⟨todo, taken, c', hat, hsending⟩ | ⟨hgone, hn'⟩ := hworks.sending.step hc hstep htodo
  · refine ⟨_, c', [], left - 1, by omega, hat, ⟨h.feeds, h.fanouts, h.name, h.kept,
      .inl ⟨own, items, sent, hworks.start, hworks.call, hsending, ?_⟩⟩, _, .inl rfl,
      .nil _ .endOfStream⟩
    change _ ≤ left - 1 + (t.done + 1)
    omega
  · have hsupplies : Supplies type c [] due := fun hheard =>
      absurd hheard (hgone ▸ Bool.false_ne_true)
    exact .still (by omega) hn' (h.stop (.inr rfl) hsupplies)

/-- After a call the next one begins, unless nothing is left to send. -/
theorem step_turn (htodo : t.todo = []) (hturn : n.Turn i t n') :
    Steps type link c due left name n i n' := by
  obtain ⟨hstart, hcall, hsending, hbound⟩ := hworks
  obtain ⟨xs, hitems, hxs, hdone, htaken, hsupplies⟩ := hsending.finished htodo
  have hle := hxs.length_le
  rw [hstart] at hcall
  cases items with
  | nil =>
    rw [Node.work_replay_nil] at hcall
    cases hturn with
    | resumed hresult | fed hresult | closed hresult =>
      rw [hcall] at hresult
      cases hresult
    | stopped hresult =>
      rw [hcall] at hresult
      cases hresult
      rw [List.drop_nil] at hsupplies
      exact .still (by omega) rfl (h.stop (.inl rfl) hsupplies)
  | cons x rest =>
    rw [Node.work_replay_cons] at hcall
    obtain ⟨y, rfl⟩ : ∃ y, xs = [y] := by
      rw [hcall] at hitems
      have hlength := congrArg List.length hitems.symm
      exact List.length_eq_one_iff.1 (by simpa [Trace.items_mk] using hlength)
    cases hturn with
    | fed hresult | closed hresult | stopped hresult =>
      rw [hcall] at hresult
      cases hresult
    | resumed =>
      have hstate : t.call.state = (.replay own type rest (sent + 1), []) := by rw [hcall]
      rw [List.length_cons] at hbound
      rw [List.length_singleton] at hdone
      have hless : 3 * rest.length + 3 < left := by omega
      refine .still hless rfl ⟨h.feeds, h.fanouts, h.name, ?_,
        .inl ⟨own, rest, sent + 1, hstate, Thread.call_resume h.fanouts _ _, ?_, le_rfl⟩⟩
      · exact (congrArg (fun s => s.1.kept?) hstate).trans rfl
      · rw [hstate]
        exact sending h.fanouts hsending.stage htaken hsending.isOpen hsupplies

end Step

/-- **A step of a replay.** -/
theorem step (h : FeederAt type link t c due left name) (hc : n.channel? link = some c)
    (hstep : n.Step i t n') : Steps type link c due left name n i n' := by
  obtain ⟨own, items, sent, hworks⟩ | ⟨reason, hleaves⟩ := h.stands
  · by_cases htodo : t.todo = []
    · exact h.step_turn hworks htodo (hstep.turn htodo)
    · exact h.step_sending hworks hc hstep htodo
  · exact h.step_leaving hleaves hstep

end FeederAt

/-! ## Decoders -/

section Stands

variable {type : ItemType} (D : Decoding type) (feedLink : Nat → Nat) (outLink : Nat)
  (reason : Halt) (t : Thread) (out : Channel Item) (cs : Nat → Channel Item)
  (due : Nat → List type.Carrier) (dueOut : List Annotation)
  (reports : List (String × Option String)) (left : Nat)

/-- A decoder at work holds its links: it reads from them what is due at its inlets, and sends what
is due from it. -/
structure DecoderWorks : Prop where
  call : t.call = Node.work [some .annotations] t.start
  heard : ∀ j < D.count, (cs j).hasReceiver = true
  progress : ∃ items more, D.Reads due items reason more t.start ∧
    Sending .annotations outLink t out items dueOut ∧
    more + 2 * items.length + D.count + 3 ≤ left + t.done

/-- A decoder that has stopped is to give up the links that it still holds, and to report. -/
structure DecoderLeaves : Prop where
  leaving : Leaving reason t
  told : Told reason t reports
  supplies : Supplies .annotations out [] dueOut
  held : out.hasSender = true → .hangUp outLink ∈ t.todo
  heard : ∀ j < D.count, (cs j).hasReceiver = true → .turnAway (feedLink j) ∈ t.todo
  bound : t.todo.length ≤ left

/-- The thread of a decoder, with what is due at its inlets and what is due from it.  It stops for
the reason for which its decoder does, and takes no more than `left` steps. -/
structure DecoderAt (name : String) : Prop where
  feeds : t.feeds = (List.range D.count).map fun j => some (feedLink j)
  fanouts : t.fanouts = [some ⟨.annotations, [outLink]⟩]
  name : t.name = name
  kept : t.start.1.kept? = none
  stands : DecoderWorks D outLink reason t out cs due dueOut left ∨
    DecoderLeaves D feedLink outLink reason t out cs dueOut reports left

end Stands

namespace DecoderAt

variable {type : ItemType} {D : Decoding type} {feedLink : Nat → Nat} {outLink : Nat}
  {reason : Halt} {name : String} {out : Channel Item} {cs : Nat → Channel Item}
  {due : Nat → List type.Carrier} {dueOut : List Annotation}
  {reports : List (String × Option String)} {left : Nat}

theorem fed (h : DecoderAt D feedLink outLink reason t out cs due dueOut reports left name) :
    Fed .annotations out dueOut := by
  obtain hworks | hleaves := h.stands
  · obtain ⟨_, _, _, hsending, _⟩ := hworks.progress
    obtain ⟨_, _, _, _, _, _, hsupplies⟩ := hsending.progress
    exact ⟨_, hsupplies, fun hclosed => absurd hsending.isOpen (hclosed ▸ Bool.false_ne_true)⟩
  · exact ⟨[], hleaves.supplies, fun _ => rfl⟩

theorem feed_eq (h : DecoderAt D feedLink outLink reason t out cs due dueOut reports left name)
    {j link : Nat} (hfeed : t.feeds[j]? = some (some link)) : j < D.count ∧ link = feedLink j := by
  rw [h.feeds, List.getElem?_map] at hfeed
  obtain ⟨k, hk, hlink⟩ := Option.map_eq_some_iff.1 hfeed
  obtain ⟨hlt, rfl⟩ := List.getElem?_eq_some_iff.1 hk
  rw [List.getElem_range] at hlink
  exact ⟨by simpa using hlt, (Option.some.inj hlink).symm⟩

/-- The collector takes a step. -/
theorem receive {k : Nat} {t' : Thread} {c' : Channel Item} {due' : List Annotation}
    {told : List (String × Option String)}
    (h : DecoderAt D feedLink outLink reason t out cs due dueOut n.reports left name)
    (hstep : n.AtReceiver .annotations k t' outLink out c' dueOut due' told n') :
    DecoderAt D feedLink outLink reason t c' cs due due' n'.reports left name where
  feeds := h.feeds
  fanouts := h.fanouts
  name := h.name
  kept := h.kept
  stands := by
    obtain hworks | hleaves := h.stands
    · obtain ⟨items, more, hreads, hsending, hbound⟩ := hworks.progress
      exact .inl ⟨hworks.call, hworks.heard, items, more, hreads, hsending.receiver hstep, hbound⟩
    · obtain ⟨f, -, rfl⟩ := hstep.update
      exact .inr ⟨hleaves.leaving, hleaves.told.mono, hstep.supplies _ hleaves.supplies,
        hstep.sender ▸ hleaves.held, hleaves.heard, hleaves.bound⟩

/-- The replay of an inlet takes a step. -/
theorem feed {k : Nat} {t' : Thread} {j : Nat} {c' : Channel Item}
    {told : List (String × Option String)}
    (h : DecoderAt D feedLink outLink reason t out cs due dueOut n.reports left name)
    (hstep : n.AtSender k t' (feedLink j) (cs j) c' told n') :
    DecoderAt D feedLink outLink reason t out (Function.update cs j c') due dueOut n'.reports left
      name where
  feeds := h.feeds
  fanouts := h.fanouts
  name := h.name
  kept := h.kept
  stands := by
    have hsame : ∀ k, (Function.update cs j c' k).hasReceiver = (cs k).hasReceiver := by
      intro k
      by_cases hjk : k = j
      · rw [hjk, Function.update_self, hstep.receiver]
      · rw [Function.update_of_ne hjk]
    obtain hworks | hleaves := h.stands
    · exact .inl ⟨hworks.call, fun k hk => (hsame k).trans (hworks.heard k hk), hworks.progress⟩
    · obtain ⟨f, -, rfl⟩ := hstep.update
      exact .inr ⟨hleaves.leaving, hleaves.told.mono, hleaves.supplies, hleaves.held,
        fun k hk hheard => hleaves.heard k hk (hsame k ▸ hheard), hleaves.bound⟩

/-- A call, be it a new one or one that something has arrived for, after the first `k` items. -/
theorem working {items xs : List Annotation} {start : Node.State} {k more left' : Nat}
    (h : DecoderAt D feedLink outLink reason t out cs due dueOut reports left name)
    {due' : Nat → List type.Carrier} {cs' : Nat → Channel Item}
    (hstage : t.stage = .working) (htaken : t.taken = false) (hopen : out.hasSender = true)
    (hreads : D.Reads due' items reason more start)
    (hitems : (Node.work [some .annotations] start).items = xs.map (Item.mk .annotations))
    (hxs : xs <+: items) (hk : k ≤ xs.length)
    (hsupplies : Supplies .annotations out (items.drop k) dueOut)
    (hheard : ∀ j < D.count, (cs' j).hasReceiver = true)
    (hbound : more + 2 * items.length + D.count + 3 ≤ left' + 2 * k) :
    DecoderAt D feedLink outLink reason (t.resume start (2 * k)) out cs' due' dueOut reports left'
      name :=
  ⟨h.feeds, h.fanouts, h.name, hreads.kept, .inl ⟨Thread.call_resume h.fanouts _ _, hheard, items,
    more, hreads, .resume h.fanouts hstage htaken hopen hitems hxs hk hsupplies, hbound⟩⟩

theorem farewell (h : DecoderAt D feedLink outLink reason t out cs due dueOut reports left name) :
    t.farewell = .hangUp outLink :: (List.range D.count).map fun j => .turnAway (feedLink j) := by
  simp [Thread.farewell, h.feeds, h.fanouts, List.filterMap_map]

theorem stop (h : DecoderAt D feedLink outLink reason t out cs due dueOut reports left name)
    (hsupplies : Supplies .annotations out [] dueOut) :
    DecoderAt D feedLink outLink reason (t.stop reason) out cs due dueOut reports (D.count + 2)
      name := by
  have hleaving := Thread.leaving_stop t reason
  have htold := Thread.told_stop t reason reports
  have hheld := Thread.mem_todo_stop (h.farewell ▸ List.mem_cons_self) reason
  have hheard : ∀ j < D.count, .turnAway (feedLink j) ∈ (t.stop reason).todo := fun j hj =>
    Thread.mem_todo_stop (h.farewell ▸ List.mem_cons_of_mem _
      (List.mem_map_of_mem (List.mem_range.2 hj))) reason
  have hbound := Thread.length_todo_stop_le t reason
  rw [h.farewell, List.length_cons, List.length_map, List.length_range] at hbound
  obtain ⟨stage, todo, hstop⟩ := t.stop_eq reason
  rw [hstop] at hleaving htold hheld hheard hbound ⊢
  exact ⟨h.feeds, h.fanouts, h.name, h.kept,
    .inr ⟨hleaving, htold, hsupplies, fun _ => hheld, fun j hj _ => hheard j hj, hbound⟩⟩

/-- A step of the decoder concerns the sending end of its link to the collector, or the receiving
end of a link from a replay. -/
def Steps (D : Decoding type) (feedLink : Nat → Nat) (outLink : Nat) (reason : Halt)
    (out : Channel Item) (cs : Nat → Channel Item) (due : Nat → List type.Carrier)
    (dueOut : List Annotation) (left : Nat) (name : String) (n : Network) (i : Nat)
    (n' : Network) : Prop :=
  (∃ t' c' told, ∃ left' < left, n.AtSender i t' outLink out c' told n' ∧ Said name reason told ∧
    DecoderAt D feedLink outLink reason t' c' cs due dueOut n'.reports left' name) ∨
  ∃ j < D.count, ∃ t' c' due', ∃ left' < left,
    n.AtReceiver type i t' (feedLink j) (cs j) c' (due j) due' [] n' ∧
    DecoderAt D feedLink outLink reason t' out (Function.update cs j c')
      (Function.update due j due') dueOut n'.reports left' name

section Step

variable (h : DecoderAt D feedLink outLink reason t out cs due dueOut n.reports left name)
include h

theorem step_leaving (hlinks : ∀ j < D.count, ∀ k < D.count, feedLink j = feedLink k → j = k)
    (hleaves : DecoderLeaves D feedLink outLink reason t out cs dueOut n.reports left)
    (hstep : n.Step i t n') :
    Steps D feedLink outLink reason out cs due dueOut left name n i n' := by
  have hstay : ∀ {c' cs' due'}, Supplies .annotations c' [] dueOut →
      (c'.hasSender = true → .hangUp outLink ∈ t.advance.todo) →
      (∀ j < D.count, (cs' j).hasReceiver = true → .turnAway (feedLink j) ∈ t.advance.todo) →
      DecoderAt D feedLink outLink reason t.advance c' cs' due' dueOut n'.reports (left - 1) name :=
    fun hsupplies hheld hheard => ⟨h.feeds, h.fanouts, h.name, h.kept,
      .inr ⟨hleaves.leaving.advance, hleaves.leaving.told hleaves.told hstep, hsupplies, hheld,
        hheard, Thread.length_todo_advance_le hleaves.bound⟩⟩
  obtain ⟨deed, rest, htodo, hcases⟩ := hleaves.leaving.step_cases hstep
  have hless := Thread.pred_lt_of_todo htodo hleaves.bound
  -- What another deed gives up is still to be given up.
  have hheld : deed ≠ .hangUp outLink → out.hasSender = true →
      .hangUp outLink ∈ t.advance.todo :=
    fun hne hopen => Thread.mem_todo_advance htodo hne.symm (hleaves.held hopen)
  have hheard : ∀ j < D.count, deed ≠ .turnAway (feedLink j) → (cs j).hasReceiver = true →
      .turnAway (feedLink j) ∈ t.advance.todo :=
    fun j hj hne hopen => Thread.mem_todo_advance htodo hne.symm (hleaves.heard j hj hopen)
  obtain ⟨link', rfl, hmem, hn'⟩ | ⟨link', rfl, hmem, hn'⟩ | ⟨failure, hfailure, rfl, hn'⟩ := hcases
  · obtain ⟨fanout, hfanout, hlink⟩ := Thread.hangUp_mem_farewell.1 hmem
    rw [h.fanouts, List.mem_singleton] at hfanout
    cases hfanout
    obtain rfl := List.mem_singleton.1 hlink
    exact .inl ⟨_, _, _, _, hless, ⟨⟨_, rfl, hn'⟩, rfl, fun h => (Bool.false_ne_true h).elim⟩,
      .nil _ _, hstay hleaves.supplies.dropSender (fun h => (Bool.false_ne_true h).elim)
        fun j hj => hheard j hj nofun⟩
  · rw [Thread.turnAway_mem_farewell, h.feeds] at hmem
    obtain ⟨j, hj, hlink⟩ := List.mem_map.1 hmem
    have hj := List.mem_range.1 hj
    obtain rfl : feedLink j = link' := Option.some.inj hlink
    refine .inr ⟨j, hj, _, _, _, _, hless, .turnedAway hn', hstay hleaves.supplies (hheld nofun)
      fun k hk => ?_⟩
    by_cases hkj : k = j
    · rw [hkj, Function.update_self]
      exact fun h => (Bool.false_ne_true h).elim
    · rw [Function.update_of_ne hkj]
      exact hheard k hk fun heq => hkj (hlinks j hj k hk (Deed.turnAway.inj heq)).symm
  · exact .inl ⟨_, _, _, _, hless, .still (hn' outLink), h.name ▸ .single hfailure,
      hstay hleaves.supplies (hheld nofun) fun j hj => hheard j hj nofun⟩

variable (hworks : DecoderWorks D outLink reason t out cs due dueOut left)
include hworks

/-- In the middle of a call an annotation is sent, as long as there is a collector. -/
theorem step_sending (hout : n.channel? outLink = some out)
    (hopen : out.hasSender = true → out.hasReceiver = true) (hstep : n.Step i t n')
    (htodo : t.todo ≠ []) : Steps D feedLink outLink reason out cs due dueOut left name n i n' := by
  obtain ⟨items, more, hreads, hsending, hbound⟩ := hworks.progress
  have hdone := hsending.done_lt htodo
  obtain ⟨todo, taken, c', hat, hsending'⟩ | ⟨hgone, -⟩ := hsending.step hout hstep htodo
  · obtain ⟨f, -, rfl⟩ := id hat.update
    refine .inl ⟨_, c', [], left - 1, by omega, hat, .nil _ _, h.feeds, h.fanouts, h.name, h.kept,
      .inl ⟨hworks.call, hworks.heard, items, more, hreads, hsending', ?_⟩⟩
    change _ ≤ left - 1 + (t.done + 1)
    omega
  · exact absurd (hopen hsending.isOpen) (hgone ▸ Bool.false_ne_true)

variable (htodo : t.todo = [])
include htodo

/-- The call goes on behind what it has sent, once something has arrived. -/
theorem resume {change : Inlet → Inlet} {j more : Nat} {items : List Annotation}
    (hsending : Sending .annotations outLink t out items dueOut)
    (hbound : more + 2 * items.length + D.count + 3 ≤ left + t.done)
    {due' : Nat → List type.Carrier} {cs' : Nat → Channel Item}
    (hgrow : ∃ more' < more,
      D.Reads due' items reason more' (t.start.1, t.start.2.modify j change) ∧
      (Node.work [some .annotations] t.start).items <+:
        (Node.work [some .annotations] (t.start.1, t.start.2.modify j change)).items)
    (hheard : ∀ j < D.count, (cs' j).hasReceiver = true) :
    DecoderAt D feedLink outLink reason (t.touch j change) out cs' due' dueOut n.reports (left - 1)
      name := by
  obtain ⟨xs, hitems, hxs, hdone, htaken, hsupplies⟩ := hsending.finished htodo
  have hle := hxs.length_le
  obtain ⟨more', hmore, hreads, hbegins⟩ := hgrow
  obtain ⟨ys, hys, hprefix⟩ := hreads.items_call
  have hlength : xs.length ≤ ys.length := by
    have hle := hbegins.length_le
    rwa [← hworks.call, hitems, hys, List.length_map, List.length_map] at hle
  unfold Thread.touch
  rw [hdone] at hbound ⊢
  exact h.working hsending.stage htaken hsending.isOpen hreads hys hprefix hlength hsupplies hheard
    (by omega)

variable (hfed : ∀ j < D.count, Fed type (cs j) (due j))
  (hchannels : ∀ j < D.count, n.channel? (feedLink j) = some (cs j))
include hfed hchannels

/-- **After a call** the next one begins, or it goes on with what it waits for, or the decoder
stops. -/
theorem step_turn (hturn : n.Turn i t n') :
    Steps D feedLink outLink reason out cs due dueOut left name n i n' := by
  obtain ⟨items, more, hreads, hsending, hbound⟩ := hworks.progress
  obtain ⟨xs, hitems, hxs, hdone, htaken, hsupplies⟩ := hsending.finished htodo
  have hle := hxs.length_le
  have hless : left - 1 < left := by omega
  have hcall := hworks.call
  have hchannel : ∀ {j link l}, t.feeds[j]? = some (some link) → n.links[link]? = some l →
      j < D.count ∧ link = feedLink j ∧ l.channel = cs j := by
    intro j link l hfeed hl
    obtain ⟨hj, rfl⟩ := h.feed_eq hfeed
    exact ⟨hj, rfl, Option.some.inj ((Network.channel?_of_link hl).symm.trans (hchannels j hj))⟩
  cases hturn with
  | resumed hresult =>
    rw [hcall] at hresult hitems
    obtain ⟨ys, later, more', hmore, hys, rfl, hreads'⟩ := hreads.ok hresult
    have hlength : xs.length = ys.length := by
      simpa using congrArg List.length (hitems.symm.trans hys)
    rw [hlength, List.drop_left] at hsupplies
    rw [List.length_append] at hbound
    obtain ⟨zs, hzs, hprefix⟩ := hreads'.items_call
    refine .inl ⟨_, _, _, _, hless, .still (Network.setThread_eq_update _), .nil _ _, ?_⟩
    rw [hcall]
    exact h.working (k := 0) hsending.stage htaken hsending.isOpen hreads' hzs hprefix
      (Nat.zero_le _) hsupplies hworks.heard (by omega)
  | @fed j link item rest l _ hdry hfeed hl hqueue =>
    rw [Thread.dryInlet?, hcall] at hdry
    obtain ⟨hj, rfl, hsame⟩ := hchannel hfeed hl
    rw [hsame] at hqueue
    obtain ⟨waiting, hwaiting, -⟩ := hfed j hj
    obtain ⟨x, due', rfl, hdue, hat⟩ := Network.AtReceiver.fed hwaiting (hworks.heard j hj) hqueue
      (Network.setThread_changeLink_eq_update (n := n) (i := i)
        (t := t.touch j (Inlet.deliver item)) (feedLink j) _)
    have hgrow := hreads.grow hdry (Inlet.deliver_connected x) hdue nofun
      (.inl (List.cons_ne_nil _ _))
    refine .inr ⟨j, hj, _, _, _, _, hless, hat,
      h.resume hworks htodo hsending hbound hgrow fun k hk => ?_⟩
    by_cases hjk : k = j
    · subst hjk
      rw [Function.update_self]
      exact hworks.heard k hk
    · rw [Function.update_of_ne hjk]
      exact hworks.heard k hk
  | @closed j link l _ hdry hfeed hl hend =>
    rw [Thread.dryInlet?, hcall] at hdry
    obtain ⟨hj, rfl, hsame⟩ := hchannel hfeed hl
    rw [hsame] at hend
    obtain ⟨-, hdue⟩ := (hfed j hj).over (hworks.heard j hj) hend
    have hgrow := hreads.grow hdry Inlet.close_connected hdue (fun _ => rfl) (.inr rfl)
    rw [← hdue, Function.update_eq_self] at hgrow
    exact .inl ⟨_, _, _, _, hless, .still (Network.setThread_eq_update _), .nil _ _,
      h.resume hworks htodo hsending hbound hgrow hworks.heard⟩
  | stopped hresult hreason =>
    rw [hcall] at hresult hitems
    obtain ⟨rfl, hall⟩ := hreads.error hresult hreason
    have hlength : xs.length = items.length := by
      simpa using congrArg List.length (hitems.symm.trans hall)
    rw [hlength, List.drop_length] at hsupplies
    exact .inl ⟨_, _, _, D.count + 2, by omega, .still (Network.setThread_eq_update _), .nil _ _,
      h.stop hsupplies⟩

end Step

/-- **A step of a decoder.** -/
theorem step (h : DecoderAt D feedLink outLink reason t out cs due dueOut n.reports left name)
    (hlinks : ∀ j < D.count, ∀ k < D.count, feedLink j = feedLink k → j = k)
    (hfed : ∀ j < D.count, Fed type (cs j) (due j))
    (hchannels : ∀ j < D.count, n.channel? (feedLink j) = some (cs j))
    (hout : n.channel? outLink = some out)
    (hopen : out.hasSender = true → out.hasReceiver = true) (hstep : n.Step i t n') :
    Steps D feedLink outLink reason out cs due dueOut left name n i n' := by
  obtain hworks | hleaves := h.stands
  · by_cases htodo : t.todo = []
    · exact h.step_turn hworks htodo hfed hchannels (hstep.turn htodo)
    · exact h.step_sending hworks hout hopen hstep htodo
  · exact h.step_leaving hlinks hleaves hstep

end DecoderAt

/-! ## Collectors -/

namespace Node

variable (name : String) (kept : Array Annotation) (isOpen isHeard : Bool) (journal : List Event)

/-- A collector that has these annotations waiting in its channel. -/
def collecting (waiting : List Annotation) : State :=
  (.collector name kept,
    [.connected .annotations ⟨⟨waiting.map .item, isOpen, isHeard⟩, [], false, journal⟩])

theorem result_collecting_nil :
    (work [] (collecting name kept isOpen isHeard journal [])).result =
      .error (if isOpen then .starved else .endOfStream) := by
  cases isOpen <;> rfl

theorem work_collecting_cons (a : Annotation) (rest : List Annotation) :
    work [] (collecting name kept isOpen isHeard journal (a :: rest)) =
      ⟨.ok 1, collecting name (kept.push a) isOpen isHeard [] rest,
        (journal ++ [Event.told name .trace a.describe]).map .note⟩ := by
  rw [List.map_append]
  rfl

/-- A collector has nothing to hand on. -/
theorem items_collecting (waiting : List Annotation) :
    (work [] (collecting name kept isOpen isHeard journal waiting)).items = [] := by
  cases waiting with
  | nil => cases isOpen <;> exact Trace.filterMap_noted _
  | cons a rest =>
    rw [work_collecting_cons]
    exact Trace.filterMap_noted _

theorem deliver_collecting (a : Annotation) :
    (collecting name kept isOpen isHeard journal []).2.modify 0 (Inlet.deliver ⟨.annotations, a⟩) =
      (collecting name kept isOpen isHeard journal [a]).2 := by
  simp [collecting, Inlet.deliver]

theorem close_collecting (waiting : List Annotation) :
    (collecting name kept isOpen isHeard journal waiting).2.modify 0 Inlet.close =
      (collecting name kept false isHeard journal waiting).2 :=
  rfl

end Node

section Stands

variable (link : Nat) (items : List Annotation) (t : Thread) (c : Channel Item)
  (due : List Annotation) (left : Nat)

/-- A collector at work has kept everything but what waits at its inlet and what is still due. -/
structure CollectorWorks (name : String) (kept : Array Annotation) (waiting : List Annotation)
    (isOpen isHeard : Bool) (journal : List Event) : Prop where
  start : t.start = Node.collecting name kept isOpen isHeard journal waiting
  call : t.call = Node.work [] t.start
  todo : t.todo = []
  stage : t.stage = .working
  items : kept.toList ++ waiting ++ due = items
  heard : c.hasReceiver = true
  ends : isOpen = false → c.hasSender = false ∧ due = []
  bound : 2 * due.length + waiting.length + isOpen.toNat + 3 ≤ left

/-- A collector that has stopped has kept everything, and nobody sends any more. -/
structure CollectorLeaves : Prop where
  leaving : Leaving .endOfStream t
  kept : t.start.1.kept? = some (items.map (Item.mk .annotations))
  closed : c.hasSender = false
  bound : t.todo.length ≤ left

/-- The thread of a collector.  It takes no more than `left` steps. -/
structure CollectorAt (key : String) : Prop where
  feeds : t.feeds = [some link]
  fanouts : t.fanouts = []
  key : t.key = key
  stands : (∃ name kept waiting isOpen isHeard journal,
      CollectorWorks items t c due left name kept waiting isOpen isHeard journal) ∨
    CollectorLeaves items t c left

end Stands

namespace CollectorAt

variable {link : Nat} {key : String} {items due : List Annotation} {left : Nat}

/-- What has been kept are the first of the items, and all of them in the end. -/
theorem collected (h : CollectorAt link items t c due left key) :
    ∃ got, t.start.1.kept? = some (got.map (Item.mk .annotations)) ∧ got <+: items ∧
      (t.stage ≠ .working → got = items) := by
  obtain ⟨_, kept, _, _, _, _, hworks⟩ | hleaves := h.stands
  · refine ⟨kept.toList, ?_, ?_, fun hne => absurd hworks.stage hne⟩
    · rw [hworks.start]
      rfl
    · rw [← hworks.items, List.append_assoc]
      exact List.prefix_append _ _
  · exact ⟨items, hleaves.kept, List.prefix_rfl, fun _ => rfl⟩

/-- A collector receives as long as there is a sender. -/
theorem heard (h : CollectorAt link items t c due left key) (hopen : c.hasSender = true) :
    c.hasReceiver = true := by
  obtain ⟨_, _, _, _, _, _, hworks⟩ | hleaves := h.stands
  · exact hworks.heard
  · exact absurd hopen (hleaves.closed ▸ Bool.false_ne_true)

/-- The decoder takes a step. -/
theorem feed {k : Nat} {t' : Thread} {c' : Channel Item} {told : List (String × Option String)}
    (h : CollectorAt link items t c due left key) (hstep : n.AtSender k t' link c c' told n') :
    CollectorAt link items t c' due left key := by
  have hclosed : c.hasSender = false → c'.hasSender = false := by
    intro hclosed
    cases hsender : c'.hasSender with
    | false => rfl
    | true => exact absurd (hstep.sender hsender) (hclosed ▸ Bool.false_ne_true)
  refine ⟨h.feeds, h.fanouts, h.key, ?_⟩
  obtain ⟨name, kept, waiting, isOpen, isHeard, journal, hworks⟩ | hleaves := h.stands
  · exact .inl ⟨name, kept, waiting, isOpen, isHeard, journal,
      { hworks with
        heard := hstep.receiver.trans hworks.heard
        ends := fun hdone => (hworks.ends hdone).imp_left hclosed }⟩
  · exact .inr { hleaves with closed := hclosed hleaves.closed }

/-- A call, be it a new one or one that something has arrived for. -/
theorem working {name : String} {kept : Array Annotation} {waiting : List Annotation}
    {isOpen isHeard : Bool} {journal : List Event} (h : CollectorAt link items t c due left key)
    {start : Node.State} {done left' : Nat} {c' : Channel Item} {due' : List Annotation}
    (hstart : start = Node.collecting name kept isOpen isHeard journal waiting)
    (hstage : t.stage = .working) (hitems : kept.toList ++ waiting ++ due' = items)
    (hheard : c'.hasReceiver = true) (hends : isOpen = false → c'.hasSender = false ∧ due' = [])
    (hbound : 2 * due'.length + waiting.length + isOpen.toNat + 3 ≤ left') :
    CollectorAt link items (t.resume start done) c' due' left' key := by
  subst hstart
  have hcall := Thread.call_resume h.fanouts
    (Node.collecting name kept isOpen isHeard journal waiting) done
  refine ⟨h.feeds, h.fanouts, h.key, .inl ⟨name, kept, waiting, isOpen, isHeard, journal, rfl,
    hcall, ?_, hstage, hitems, hheard, hends, hbound⟩⟩
  change (Thread.deeds t.fanouts (Thread.resume t _ done).call).drop done = []
  rw [hcall, Thread.deeds, show Thread.targetTypes [] = [] from rfl, Node.items_collecting]
  exact List.drop_nil

theorem farewell (h : CollectorAt link items t c due left key) :
    t.farewell = [.turnAway link] := by
  simp [Thread.farewell, h.feeds, h.fanouts]

theorem stop (h : CollectorAt link items t c due left key)
    (hkept : t.start.1.kept? = some (items.map (Item.mk .annotations)))
    (hclosed : c.hasSender = false) :
    CollectorAt link items (t.stop .endOfStream) c due 2 key := by
  have hleaving := Thread.leaving_stop t .endOfStream
  have hbound := Thread.length_todo_stop_le t .endOfStream
  rw [h.farewell] at hbound
  obtain ⟨stage, todo, hstop⟩ := t.stop_eq .endOfStream
  rw [hstop] at hleaving hbound ⊢
  exact ⟨h.feeds, h.fanouts, h.key, .inr ⟨hleaving, hkept, hclosed, hbound⟩⟩

/-- A step of the collector concerns the receiving end of its link. -/
def Steps (link : Nat) (items : List Annotation) (c : Channel Item) (due : List Annotation)
    (left : Nat) (key name : String) (n : Network) (i : Nat) (n' : Network) : Prop :=
  ∃ t' c' due' told, ∃ left' < left,
    n.AtReceiver .annotations i t' link c c' due due' told n' ∧
    CollectorAt link items t' c' due' left' key ∧ Said name .endOfStream told

/-- The collector changes alone, and says nothing. -/
theorem Steps.still {t' : Thread} {left' : Nat} {name : String} (hless : left' < left)
    (hn' : n' = n.setThread i t') (h' : CollectorAt link items t' c due left' key) :
    Steps link items c due left key name n i n' :=
  ⟨t', c, due, [], left', hless, .still (hn' ▸ Network.setThread_eq_update _), h', .nil _ _⟩

section Step

variable (h : CollectorAt link items t c due left key)
include h

theorem step_leaving (hleaves : CollectorLeaves items t c left) (hstep : n.Step i t n') :
    Steps link items c due left key t.name n i n' := by
  have hstay : ∀ {c' due'}, c'.hasSender = false →
      CollectorAt link items t.advance c' due' (left - 1) key :=
    fun hclosed => ⟨h.feeds, h.fanouts, h.key, .inr ⟨hleaves.leaving.advance, hleaves.kept, hclosed,
      Thread.length_todo_advance_le hleaves.bound⟩⟩
  obtain ⟨deed, rest, htodo, hcases⟩ := hleaves.leaving.step_cases hstep
  have hless := Thread.pred_lt_of_todo htodo hleaves.bound
  obtain ⟨link', rfl, hmem, -⟩ | ⟨link', rfl, hmem, hn'⟩ | ⟨failure, hfailure, rfl, hn'⟩ := hcases
  · obtain ⟨fanout, hfanout, -⟩ := Thread.hangUp_mem_farewell.1 hmem
    rw [h.fanouts] at hfanout
    cases hfanout
  · rw [Thread.turnAway_mem_farewell, h.feeds, List.mem_singleton] at hmem
    cases hmem
    exact ⟨_, _, _, _, _, hless, .turnedAway hn', hstay hleaves.closed, .nil _ _⟩
  · exact ⟨_, _, _, _, _, hless, .still (hn' link), hstay hleaves.closed, .single hfailure⟩

variable {name : String} {kept : Array Annotation} {isOpen isHeard : Bool} {journal : List Event}

/-- An annotation that has arrived is kept. -/
theorem step_kept {a : Annotation} {waiting : List Annotation}
    (hworks : CollectorWorks items t c due left name kept (a :: waiting) isOpen isHeard journal)
    (hturn : n.Turn i t n') : Steps link items c due left key t.name n i n' := by
  obtain ⟨hstart, hcall, -, hstage, hitems, hheard, hends, hbound⟩ := hworks
  rw [hstart, Node.work_collecting_cons] at hcall
  cases hturn with
  | fed hresult | closed hresult | stopped hresult =>
    rw [hcall] at hresult
    cases hresult
  | resumed =>
    rw [List.length_cons] at hbound
    have hless : left - 1 < left := by omega
    refine .still hless rfl (h.working (by rw [hcall]) hstage ?_ hheard hends (by omega))
    simpa using hitems

/-- With nothing at its inlet a collector takes what arrives, or learns that nothing will, or
stops. -/
theorem step_waiting (hfed : Fed .annotations c due) (hc : n.channel? link = some c)
    (hworks : CollectorWorks items t c due left name kept [] isOpen isHeard journal)
    (hturn : n.Turn i t n') : Steps link items c due left key t.name n i n' := by
  obtain ⟨hstart, hcall, -, hstage, hitems, hheard, hends, hbound⟩ := hworks
  have hless : left - 1 < left := by omega
  have hresult := Node.result_collecting_nil name kept isOpen isHeard journal
  rw [← hstart, ← hcall] at hresult
  have hinlet : ∀ {j link' l}, t.feeds[j]? = some (some link') → n.links[link']? = some l →
      j = 0 ∧ link' = link ∧ l.channel = c := by
    intro j link' l hfeed hl
    rw [h.feeds] at hfeed
    obtain ⟨hj, hlink⟩ := List.getElem?_eq_some_iff.1 hfeed
    obtain rfl : j = 0 := Nat.lt_one_iff.1 hj
    obtain rfl : link' = link := (Option.some.inj hlink).symm
    exact ⟨rfl, rfl, Option.some.inj ((Network.channel?_of_link hl).symm.trans hc)⟩
  cases hturn with
  | resumed hok => cases hresult.symm.trans hok
  | @fed j link' item rest l _ _ hfeed hl hqueue =>
    obtain ⟨rfl, rfl, hsame⟩ := hinlet hfeed hl
    rw [hsame] at hqueue
    obtain ⟨more, hmore, -⟩ := hfed
    obtain ⟨x, due', rfl, rfl, hat⟩ := Network.AtReceiver.fed hmore hheard hqueue
      (Network.setThread_changeLink_eq_update (n := n) (i := i)
        (t := t.touch 0 (Inlet.deliver item)) link' _)
    have hstart' : (t.start.1, t.start.2.modify 0 (Inlet.deliver ⟨.annotations, x⟩)) =
        Node.collecting name kept isOpen isHeard journal [x] := by
      rw [hstart, Node.deliver_collecting]
      rfl
    rw [List.length_cons, List.length_nil] at hbound
    refine ⟨_, _, _, _, _, hless, hat, ?_, .nil _ _⟩
    refine h.working hstart' hstage ?_ hheard (fun hdone => nomatch (hends hdone).2) ?_
    · simpa using hitems
    · rw [List.length_singleton]
      omega
  | @closed j link' l hstarved _ hfeed hl hend =>
    obtain rfl : isOpen = true := by
      cases isOpen with
      | true => rfl
      | false => cases hresult.symm.trans hstarved
    obtain ⟨rfl, rfl, hsame⟩ := hinlet hfeed hl
    rw [hsame] at hend
    have hstart' : (t.start.1, t.start.2.modify 0 Inlet.close) =
        Node.collecting name kept false isHeard journal [] := by
      rw [hstart, Node.close_collecting]
      rfl
    rw [Bool.toNat_true] at hbound
    refine .still hless rfl (h.working hstart' hstage hitems hheard
      (fun _ => hfed.over hheard hend) ?_)
    rw [Bool.toNat_false]
    omega
  | @stopped reason herror hreason =>
    cases isOpen with
    | true => exact absurd (Except.error.inj (herror.symm.trans hresult)) hreason
    | false =>
      obtain rfl : reason = .endOfStream := Except.error.inj (herror.symm.trans hresult)
      obtain ⟨hclosed, rfl⟩ := hends rfl
      rw [List.append_nil, List.append_nil] at hitems
      exact .still (by omega) rfl (h.stop (hstart ▸ hitems ▸ rfl) hclosed)

end Step

/-- **A step of a collector.** -/
theorem step (h : CollectorAt link items t c due left key) (hfed : Fed .annotations c due)
    (hc : n.channel? link = some c) (hstep : n.Step i t n') :
    Steps link items c due left key t.name n i n' := by
  obtain ⟨name, kept, waiting, isOpen, isHeard, journal, hworks⟩ | hleaves := h.stands
  · have hturn := hstep.turn hworks.todo
    cases waiting with
    | nil => exact h.step_waiting hfed hc hworks hturn
    | cons a waiting => exact h.step_kept hworks hturn
  · exact h.step_leaving hleaves hstep

end CollectorAt

end BusDecode
