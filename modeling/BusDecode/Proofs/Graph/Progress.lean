import BusDecode.Proofs.Graph.Determinism

/-!
# Pipelines come to an end

A thread that can do nothing waits at a link: for room to send an item (`Network.SenderWaits`), or
for an item to arrive (`ReceiverWaits`).  No link has both its threads waiting, so in a pipeline
some thread can go on until all have ended (`Pipeline.Standing.progress`).  A step leaves fewer
steps to take; hence a pipeline comes to its end under every schedule, with links of any capacity
(`Pipeline.inevitably_hasEnded`).
-/

set_option autoImplicit false

namespace BusDecode

namespace Network

variable {n : Network} {i link : Nat} {t : Thread} {c : Channel Item} {rest : List Deed}

/-! ## Threads that can do nothing -/

/-- The sender of a link waits at it: the receiver is there, but does not wait for an item. -/
def SenderWaits (n : Network) (link : Nat) (c : Channel Item) : Prop :=
  c.hasReceiver = true ∧ (c.queue = [] → n.isAwaited link = false)

/-- The receiver of a link waits at it: the sender is there, but has put nothing in. -/
def ReceiverWaits (n : Network) (link : Nat) (c : Channel Item) : Prop :=
  c.hasSender = true ∧ c.queue = [] ∧ n.isAwaited link = true

theorem SenderWaits.not_receiverWaits (h : n.SenderWaits link c) : ¬ n.ReceiverWaits link c :=
  fun ⟨_, hempty, hawaited⟩ => Bool.false_ne_true ((h.2 hempty).symm.trans hawaited)

theorem step_of_deed {deed : Deed} (ht : n.threads[i]? = some t) (htodo : t.todo = deed :: rest) :
    n.step i = n.perform i t deed := by
  unfold step
  rw [ht]
  dsimp only
  rw [htodo]

theorem step_of_turn (ht : n.threads[i]? = some t) (htodo : t.todo = [])
    (hstage : t.stage = .working) : n.step i = n.turn i t := by
  unfold step
  rw [ht]
  dsimp only
  rw [htodo]
  exact if_pos hstage

section Stuck

variable (ht : n.threads[i]? = some t) (hstuck : n.step i = none)
include ht hstuck

/-- What is next for a thread that can do nothing is an offer, if anything is. -/
theorem offers_of_stuck {deed : Deed} (htodo : t.todo = deed :: rest) :
    ∃ link item, deed = .offer link item := by
  rw [step_of_deed ht htodo] at hstuck
  cases deed with
  | offer link item => exact ⟨link, item, rfl⟩
  | confirm =>
    dsimp only [perform] at hstuck
    split at hstuck <;> cases hstuck
  | hangUp | turnAway | report => cases hstuck

theorem senderWaits_of_stuck {item : Item} (htodo : t.todo = .offer link item :: rest)
    (hc : n.channel? link = some c) : n.SenderWaits link c := by
  obtain ⟨l, hl, rfl⟩ := Option.map_eq_some_iff.1 hc
  rw [step_of_deed ht htodo] at hstuck
  dsimp only [perform, offer] at hstuck
  rw [hl] at hstuck
  dsimp only at hstuck
  split at hstuck
  · cases hstuck
  rename_i hreceiver
  split at hstuck
  · cases hstuck
  rename_i hroom
  refine ⟨by simpa using hreceiver, fun hempty => ?_⟩
  simp only [hasRoom, hempty, List.isEmpty_nil, Bool.true_and, Bool.or_eq_true, not_or] at hroom
  simpa using hroom.2

/-- A working thread that can do nothing although nothing is left to do has starved. -/
theorem starved_of_stuck (htodo : t.todo = []) (hstage : t.stage = .working) :
    t.call.result = .error .starved := by
  rw [step_of_turn ht htodo hstage] at hstuck
  unfold turn at hstuck
  split at hstuck
  · cases hstuck
  · assumption
  · cases hstuck

theorem receiverWaits_of_stuck {inlet : Nat} (htodo : t.todo = []) (hstage : t.stage = .working)
    (hdry : t.dryInlet? = some inlet) (hfeed : t.feeds[inlet]? = some (some link))
    (hc : n.channel? link = some c) : n.ReceiverWaits link c := by
  have hstarved := starved_of_stuck ht hstuck htodo hstage
  have hjoin : (t.feeds[inlet]?).join = some link := Option.join_eq_some_iff.2 hfeed
  obtain ⟨l, hl, rfl⟩ := Option.map_eq_some_iff.1 hc
  have hawaited : n.isAwaited link = true := by
    refine List.any_eq_true.2 ⟨t, List.mem_of_getElem? ht, ?_⟩
    simp [Thread.awaited?, Thread.isStarved, hstage, htodo, hstarved, hdry, hjoin]
  rw [step_of_turn ht htodo hstage] at hstuck
  simp only [turn, hstarved, await, hdry, hjoin, hl, Option.bind_eq_bind, Option.bind_some]
    at hstuck
  split at hstuck
  · cases hstuck
  · cases hstuck
  rename_i hempty
  split at hstuck
  · rename_i hsender
    exact ⟨hsender, hempty, hawaited⟩
  · cases hstuck

end Stuck

end Network

/-! ## The threads of a pipeline -/

section Roles

variable {n : Network} {i : Nat} {t : Thread} {c : Channel Item}

/-- A thread that leaves can always go on until nothing is left to do. -/
theorem Thread.Leaving.todo_of_stuck {reason : Halt} (h : Leaving reason t)
    (ht : n.threads[i]? = some t) (hstuck : n.step i = none) : t.todo = [] := by
  cases htodo : t.todo with
  | nil => rfl
  | cons deed rest =>
    obtain ⟨link, item, rfl⟩ := Network.offers_of_stuck ht hstuck htodo
    obtain hmem | ⟨_, _, heq⟩ := h.todo _ (htodo ▸ List.mem_cons_self)
    · simp [farewell] at hmem
    · cases heq

/-- A sender that can do nothing waits at its link, or waits for an item itself. -/
theorem Thread.Sending.stuck {type : ItemType} {link : Nat} {items due : List type.Carrier}
    (h : Sending type link t c items due) (ht : n.threads[i]? = some t)
    (hc : n.channel? link = some c) (hstuck : n.step i = none) :
    n.SenderWaits link c ∨ t.todo = [] ∧ t.call.result = .error .starved := by
  cases htodo : t.todo with
  | nil => exact .inr ⟨rfl, Network.starved_of_stuck ht hstuck htodo h.stage⟩
  | cons deed rest =>
    obtain ⟨link', item, rfl⟩ := Network.offers_of_stuck ht hstuck htodo
    obtain rfl : link' = link := (h.offer htodo).1
    exact .inl (Network.senderWaits_of_stuck ht hstuck htodo hc)

/-- A replay that can do nothing has ended, or waits at its link. -/
theorem FeederAt.stuck {type : ItemType} {link left : Nat} {name : String}
    {due : List type.Carrier} (h : FeederAt type link t c due left name)
    (ht : n.threads[i]? = some t) (hc : n.channel? link = some c) (hstuck : n.step i = none) :
    (t.stage ≠ .working ∧ t.todo = []) ∧ c.hasSender = false ∨ n.SenderWaits link c := by
  obtain ⟨own, items, sent, hworks⟩ | ⟨reason, hleaves⟩ := h.stands
  · obtain hwaits | ⟨-, hstarved⟩ := hworks.sending.stuck ht hc hstuck
    · exact .inr hwaits
    · rw [hworks.call, hworks.start] at hstarved
      cases items with
      | nil =>
        rw [Node.work_replay_nil] at hstarved
        cases hstarved
      | cons x rest =>
        rw [Node.work_replay_cons] at hstarved
        cases hstarved
  · have htodo := hleaves.leaving.todo_of_stuck ht hstuck
    have hheld := hleaves.held
    rw [htodo] at hheld
    exact .inl ⟨⟨hleaves.leaving.stage, htodo⟩,
      Bool.eq_false_iff.2 fun hopen => nomatch hheld hopen⟩

/-- A decoder that can do nothing has ended, or waits at its link to the collector or at one from a
replay. -/
theorem DecoderAt.stuck {type : ItemType} {D : Decoding type} {feedLink : Nat → Nat}
    {outLink left : Nat} {reason : Halt} {name : String} {cs : Nat → Channel Item}
    {due : Nat → List type.Carrier} {dueOut : List Annotation}
    {reports : List (String × Option String)}
    (h : DecoderAt D feedLink outLink reason t c cs due dueOut reports left name)
    (hreason : reason ≠ .starved) (ht : n.threads[i]? = some t)
    (hchannels : ∀ j < D.count, n.channel? (feedLink j) = some (cs j))
    (hc : n.channel? outLink = some c) (hstuck : n.step i = none) :
    (t.stage ≠ .working ∧ t.todo = []) ∧ c.hasSender = false ∧
        (∀ j < D.count, (cs j).hasReceiver = false) ∨
      c.hasSender = true ∧ n.SenderWaits outLink c ∨
      ∃ j < D.count, n.ReceiverWaits (feedLink j) (cs j) := by
  obtain hworks | hleaves := h.stands
  · obtain ⟨items, more, hreads, hsending, -⟩ := hworks.progress
    obtain hwaits | ⟨htodo, hstarved⟩ := hsending.stuck ht hc hstuck
    · exact .inr (.inl ⟨hsending.isOpen, hwaits⟩)
    · rw [hworks.call] at hstarved
      obtain ⟨j, hj, hdry⟩ := hreads.starved hreason hstarved
      rw [← hworks.call] at hdry
      have hfeed : t.feeds[j]? = some (some (feedLink j)) := by
        rw [h.feeds, List.getElem?_map, List.getElem?_range hj]
        rfl
      exact .inr (.inr ⟨j, hj, Network.receiverWaits_of_stuck ht hstuck htodo hsending.stage hdry
        hfeed (hchannels j hj)⟩)
  · have htodo := hleaves.leaving.todo_of_stuck ht hstuck
    have hheld := hleaves.held
    have hheard := hleaves.heard
    rw [htodo] at hheld hheard
    exact .inl ⟨⟨hleaves.leaving.stage, htodo⟩,
      Bool.eq_false_iff.2 (fun hopen => nomatch hheld hopen),
      fun j hj => Bool.eq_false_iff.2 (fun hopen => nomatch hheard j hj hopen)⟩

/-- A collector that can do nothing has ended, or waits at its link. -/
theorem CollectorAt.stuck {link left : Nat} {key : String} {items due : List Annotation}
    (h : CollectorAt link items t c due left key) (ht : n.threads[i]? = some t)
    (hc : n.channel? link = some c) (hstuck : n.step i = none) :
    (t.stage ≠ .working ∧ t.todo = []) ∧ c.hasSender = false ∨ n.ReceiverWaits link c := by
  obtain ⟨name, kept, waiting, isOpen, isHeard, journal, hworks⟩ | hleaves := h.stands
  · right
    have hcall := hworks.call
    have hstarved := Network.starved_of_stuck ht hstuck hworks.todo hworks.stage
    rw [hworks.start] at hcall
    cases waiting with
    | cons a rest =>
      rw [hcall, Node.work_collecting_cons] at hstarved
      cases hstarved
    | nil =>
      rw [hcall, Node.result_collecting_nil] at hstarved
      cases isOpen with
      | false => cases hstarved
      | true =>
        have hdry : t.dryInlet? = some 0 := by
          rw [Thread.dryInlet?, hcall]
          rfl
        have hfeed : t.feeds[0]? = some (some link) := by
          rw [h.feeds]
          rfl
        exact Network.receiverWaits_of_stuck ht hstuck hworks.todo hworks.stage hdry hfeed hc
  · exact .inl ⟨⟨hleaves.leaving.stage, hleaves.leaving.todo_of_stuck ht hstuck⟩, hleaves.closed⟩

end Roles

/-! ## The end -/

namespace Pipeline

variable {g : Graph} {node : Node} {type : ItemType} {inputs : List (List type.Carrier)}
  {p : Pipeline g node type inputs}

namespace Standing

variable {D : Decoding type} {reason : Halt} {items : List Annotation} {n : Network}
  {threads : Part → Thread} {channels : Wire → Channel Item} {due : Nat → List type.Carrier}
  {dueOut : List Annotation} {left : Part → Nat}

/-- **A pipeline never gets stuck.**  Of two threads that can do nothing and have not ended, neither
waits for the other. -/
theorem progress (h : p.Standing D reason items n threads channels due dueOut left)
    (hcount : inputs.length = D.count) (hreason : reason ≠ .starved) :
    n.HasEnded ∨ ∃ n', n.Leads n' := by
  by_cases hstuck : ∀ i, n.step i = none
  case neg =>
    obtain ⟨i, hi⟩ := not_forall.1 hstuck
    obtain ⟨n', hn'⟩ := Option.ne_none_iff_exists'.1 hi
    exact .inr ⟨n', i, hn'⟩
  have hfeeders : ∀ j < inputs.length,
      ((threads (.feeder j)).stage ≠ .working ∧ (threads (.feeder j)).todo = []) ∧
        (channels (.feed j)).hasSender = false ∨
      n.SenderWaits (p.feedLink j) (channels (.feed j)) := fun j hj =>
    (h.feeders j hj).stuck (h.located.threads (.feeder j) hj) (h.located.channels (.feed j) hj)
      (hstuck _)
  have hcollector := h.collector.stuck (h.located.threads .collector trivial)
    (h.located.channels .out trivial) (hstuck _)
  have hdecoder := h.decoder.stuck hreason (h.located.threads .decoder trivial)
    (fun j hj => h.located.channels (.feed j) (show j < inputs.length from hcount ▸ hj))
    (h.located.channels .out trivial) (hstuck _)
  obtain ⟨hended, hclosed, hunheard⟩ | ⟨hopen, hwaits⟩ | ⟨j, hj, hwaits⟩ := hdecoder
  · left
    have hall : ∀ a : Part, a.Within inputs.length →
        (threads a).stage ≠ .working ∧ (threads a).todo = [] := by
      intro a ha
      cases a with
      | feeder j =>
        obtain ⟨hended, -⟩ | hwaits := hfeeders j ha
        · exact hended
        · exact absurd hwaits.1 (hunheard j (hcount ▸ ha) ▸ Bool.false_ne_true)
      | decoder => exact hended
      | collector =>
        obtain ⟨hended, -⟩ | hwaits := hcollector
        · exact hended
        · exact absurd hwaits.1 (hclosed ▸ Bool.false_ne_true)
    intro t ht
    obtain ⟨i, hi⟩ := List.mem_iff_getElem?.1 ht
    obtain ⟨a, ha, rfl, rfl⟩ := h.located.thread_cases hi
    exact hall a ha
  · obtain ⟨-, hclosed⟩ | hwaits' := hcollector
    · exact absurd hopen (hclosed ▸ Bool.false_ne_true)
    · exact absurd hwaits' hwaits.not_receiverWaits
  · obtain ⟨-, hclosed⟩ | hwaits' := hfeeders j (hcount ▸ hj)
    · exact absurd hwaits.1 (hclosed ▸ Bool.false_ne_true)
    · exact absurd hwaits hwaits'.not_receiverWaits

/-- The induction is on the steps still to take. -/
theorem inevitably_hasEnded (h : p.Standing D reason items n threads channels due dueOut left)
    (hcount : inputs.length = D.count) (hreason : reason ≠ .starved) :
    n.Inevitably Network.HasEnded := by
  induction hn : total inputs left using Nat.strongRecOn
    generalizing n threads channels due dueOut left with
  | ind steps ih =>
    subst hn
    obtain hended | hleads := h.progress hcount hreason
    · exact .now hended
    refine .later hleads fun n' hn' => ?_
    obtain ⟨threads', channels', due', dueOut', left', hfewer, hstanding⟩ := h.step hcount hn'
    exact ih _ hfewer hstanding rfl

end Standing

/-- **A pipeline comes to its end, under every schedule.** -/
theorem inevitably_hasEnded {result : Except Halt Unit} {items : List Annotation}
    (p : Pipeline g node type inputs) (hdirect : Decodes node type inputs result items)
    (hresult : Halt.ending result ≠ .starved) {registry : Registry} {start : Network}
    (hbuild : g.build registry = .ok start) : start.Inevitably Network.HasEnded := by
  obtain rfl := Network.ofGraph_of_build hbuild
  obtain ⟨D, hcount, threads, channels, due, dueOut, left, hstanding⟩ :=
    standing_ofGraph (p := p) hdirect
  exact hstanding.inevitably_hasEnded hcount hresult

end Pipeline

end BusDecode
