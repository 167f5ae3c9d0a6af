import BusDecode.Proofs.Graph.Steps

/-!
# Threads that send and threads that leave

A thread with one link to send to is somewhere in the items of its present call (`Sending`), or has
stopped and gives up its ends (`Leaving`).  For either, one lemma says what its next step can be and
that it stays what it is: a sender loses no item that its link has a receiver for.
-/

set_option autoImplicit false

namespace BusDecode

/-! ## The link of a sender -/

/-- What is in the channel and what its sender still sends are what is due to the receiver, as long
as there is one. -/
def Supplies (type : ItemType) (c : Channel Item) (left due : List type.Carrier) : Prop :=
  c.hasReceiver = true → ∃ queued : List type.Carrier,
    c.queue = queued.map (fun x => .item ⟨type, x⟩) ∧ queued ++ left = due

namespace Supplies

variable {type : ItemType} {c : Channel Item} {left due : List type.Carrier}

theorem push {x : type.Carrier} (h : Supplies type c (x :: left) due) :
    Supplies type { c with queue := c.queue ++ [.item ⟨type, x⟩] } left due := by
  intro hreceiver
  obtain ⟨queued, hqueue, hdue⟩ := h hreceiver
  refine ⟨queued ++ [x], ?_, ?_⟩
  · simp [hqueue]
  · rw [List.append_assoc, List.singleton_append, hdue]

theorem pull {item : Item} {rest : List (Message Item)} (h : Supplies type c left due)
    (hreceiver : c.hasReceiver = true) (hqueue : c.queue = .item item :: rest) :
    ∃ x due', item = ⟨type, x⟩ ∧ due = x :: due' ∧
      Supplies type { c with queue := rest } left due' := by
  obtain ⟨queued, hqueued, hdue⟩ := h hreceiver
  rw [hqueue] at hqueued
  cases queued with
  | nil => cases hqueued
  | cons x queued =>
    simp only [List.map_cons, List.cons.injEq, Message.item.injEq] at hqueued
    exact ⟨x, queued ++ left, hqueued.1, hdue.symm, fun _ => ⟨queued, hqueued.2, rfl⟩⟩

theorem dropSender (h : Supplies type c left due) : Supplies type c.dropSender left due :=
  h

theorem dropReceiver : Supplies type c.dropReceiver left due :=
  fun h => (Bool.false_ne_true h).elim

/-- Nothing is due once the channel is empty and nothing is left to send. -/
theorem settled (h : Supplies type c [] due) (hreceiver : c.hasReceiver = true)
    (hqueue : c.queue = []) : due = [] := by
  obtain ⟨queued, hqueued, rfl⟩ := h hreceiver
  rw [hqueue] at hqueued
  rw [List.map_eq_nil_iff.1 hqueued.symm, List.append_nil]

theorem unmarked (h : Supplies type c left due) (hreceiver : c.hasReceiver = true) :
    .endOfStream ∉ c.queue := by
  obtain ⟨queued, hqueued, _⟩ := h hreceiver
  simp [hqueued]

end Supplies

namespace Network

/-- A thread takes a step that concerns only the sending end of a link. -/
structure AtSender (n : Network) (i : Nat) (t : Thread) (link : Nat) (c c' : Channel Item)
    (told : List (String × Option String)) (n' : Network) : Prop where
  update : ∃ f, f c = c' ∧ n' = n.update i t link f told
  receiver : c'.hasReceiver = c.hasReceiver
  sender : c'.hasSender = true → c.hasSender = true

theorem AtSender.still {n n' : Network} {i link : Nat} {t : Thread} {c : Channel Item}
    {told : List (String × Option String)} (h : n' = n.update i t link id told) :
    n.AtSender i t link c c told n' :=
  ⟨⟨id, rfl, h⟩, rfl, id⟩

/-- A thread takes a step that concerns only the receiving end of a link, and finds less due. -/
structure AtReceiver (n : Network) (type : ItemType) (i : Nat) (t : Thread) (link : Nat)
    (c c' : Channel Item) (due due' : List type.Carrier) (told : List (String × Option String))
    (n' : Network) : Prop where
  update : ∃ f, f c = c' ∧ n' = n.update i t link f told
  sender : c'.hasSender = c.hasSender
  receiver : c'.hasReceiver = true → c.hasReceiver = true
  supplies : ∀ left, Supplies type c left due → Supplies type c' left due'

namespace AtReceiver

variable {n n' : Network} {type : ItemType} {i link : Nat} {t : Thread} {c : Channel Item}
  {due : List type.Carrier} {told : List (String × Option String)}

theorem still (h : n' = n.update i t link id told) :
    n.AtReceiver type i t link c c due due told n' :=
  ⟨⟨id, rfl, h⟩, rfl, id, fun _ => id⟩

theorem turnedAway (h : n' = n.update i t link Channel.dropReceiver told) :
    n.AtReceiver type i t link c c.dropReceiver due due told n' :=
  ⟨⟨_, rfl, h⟩, rfl, fun h => (Bool.false_ne_true h).elim, fun _ _ => .dropReceiver⟩

/-- The next item that is due has arrived. -/
theorem fed {left : List type.Carrier} {item : Item} {rest : List (Message Item)}
    (hsupplies : Supplies type c left due) (hreceiver : c.hasReceiver = true)
    (hqueue : c.queue = .item item :: rest)
    (h : n' = n.update i t link (fun c => { c with queue := rest }) told) :
    ∃ x due', item = ⟨type, x⟩ ∧ due = x :: due' ∧
      n.AtReceiver type i t link c { c with queue := rest } due due' told n' := by
  obtain ⟨x, due', rfl, rfl, -⟩ := hsupplies.pull hreceiver hqueue
  refine ⟨x, due', rfl, rfl, ⟨_, rfl, h⟩, rfl, id, fun left hleft => ?_⟩
  obtain ⟨_, _, _, hdue, hleft'⟩ := hleft.pull hreceiver hqueue
  cases hdue
  exact hleft'

end AtReceiver

end Network

namespace Thread

variable {t : Thread} {n n' : Network} {i : Nat}

theorem call_resume {fanouts : List (Option Fanout)} (h : t.fanouts = fanouts)
    (start : Node.State) (done : Nat) :
    (t.resume start done).call = Node.work (targetTypes fanouts) start := by
  subst h
  rfl

/-! ## Sending -/

/-- The deeds of offering items to one link. -/
def offers (link : Nat) (items : List Item) : List Deed :=
  items.flatMap fun item => [.offer link item, .confirm]

theorem deeds_single (type : ItemType) (link : Nat) (call : Node.Call) :
    deeds [some ⟨type, [link]⟩] call = offers link call.items :=
  rfl

theorem drop_offers (link : Nat) (items : List Item) (n : Nat) :
    (offers link items).drop (2 * n) = offers link (items.drop n) := by
  induction n generalizing items with
  | zero => rfl
  | succ n ih =>
    cases items with
    | nil => simp [offers]
    | cons item items => exact ih items

/-- Where a thread stands that offers the items of its call to one link: it has offered `n` of them,
and goes on with the next one or has yet to see whether the last one was taken. -/
inductive Offering (link n : Nat) (heard : Prop) (t : Thread) : Prop
  | next (done : t.done = 2 * n) (taken : t.taken = false)
      (todo : t.todo = offers link (t.call.items.drop n))
  | last (done : t.done + 1 = 2 * n) (taken : heard → t.taken = true)
      (todo : t.todo = .confirm :: offers link (t.call.items.drop n))

/-- A working thread sends the items of a list over its one link, as far as its present call goes,
and the link gets what is due to its receiver. -/
structure Sending (type : ItemType) (link : Nat) (t : Thread) (c : Channel Item)
    (items due : List type.Carrier) : Prop where
  fanouts : t.fanouts = [some ⟨type, [link]⟩]
  stage : t.stage = .working
  isOpen : c.hasSender = true
  progress : ∃ xs n, t.call.items = xs.map (Item.mk type) ∧ xs <+: items ∧ n ≤ xs.length ∧
    Offering link n (c.hasReceiver = true) t ∧ Supplies type c (items.drop n) due

namespace Sending

variable {type : ItemType} {link : Nat} {c : Channel Item} {items due : List type.Carrier}

/-- A call, be it a new one or one that something has arrived for, after the first `n` items. -/
theorem resume {start : Node.State} {xs : List type.Carrier} {n : Nat}
    (hfanouts : t.fanouts = [some ⟨type, [link]⟩]) (hstage : t.stage = .working)
    (htaken : t.taken = false) (hopen : c.hasSender = true)
    (hitems : (Node.work [some type] start).items = xs.map (Item.mk type)) (hxs : xs <+: items)
    (hn : n ≤ xs.length) (hsupplies : Supplies type c (items.drop n) due) :
    Sending type link (t.resume start (2 * n)) c items due where
  fanouts := hfanouts
  stage := hstage
  isOpen := hopen
  progress := by
    refine ⟨xs, n, ?_, hxs, hn, .next rfl htaken ?_, hsupplies⟩
    · exact (congrArg Trace.items (call_resume hfanouts start _)).trans hitems
    · change (deeds t.fanouts (t.resume start (2 * n)).call).drop (2 * n) = _
      rw [hfanouts, deeds_single, drop_offers]

/-- With nothing left to do, all items of the call have been sent. -/
theorem finished (h : Sending type link t c items due) (htodo : t.todo = []) :
    ∃ xs, t.call.items = xs.map (Item.mk type) ∧ xs <+: items ∧ t.done = 2 * xs.length ∧
      t.taken = false ∧ Supplies type c (items.drop xs.length) due := by
  obtain ⟨xs, n, hitems, hxs, hn, hoffering, hsupplies⟩ := h.progress
  cases hoffering with
  | last _ _ htodo' => cases htodo.symm.trans htodo'
  | next hdone htaken htodo' =>
    rw [htodo, hitems, ← List.map_drop] at htodo'
    have hall : xs.drop n = [] := by
      cases hrest : xs.drop n with
      | nil => rfl
      | cons x rest =>
        rw [hrest] at htodo'
        cases htodo'
    obtain rfl : n = xs.length := Nat.le_antisymm hn (List.drop_eq_nil_iff.1 hall)
    exact ⟨xs, hitems, hxs, hdone, htaken, hsupplies⟩

/-- The next offer is that of the next item, to the one link. -/
theorem offer {link' : Nat} {item : Item} {rest : List Deed}
    (h : Sending type link t c items due) (htodo : t.todo = .offer link' item :: rest) :
    link' = link ∧ ∃ x, item = ⟨type, x⟩ ∧
      (c.hasReceiver = false → Sending type link t.advance c items due) ∧
      Sending type link { t.advance with taken := true }
        { c with queue := c.queue ++ [.item item] } items due := by
  obtain ⟨hfanouts, hstage, hopen, xs, n, hitems, hxs, hn, hoffering, hsupplies⟩ := h
  cases hoffering with
  | last _ _ htodo' => cases htodo.symm.trans htodo'
  | next hdone htaken htodo' =>
    obtain ⟨x, ys, hys⟩ : ∃ x ys, xs.drop n = x :: ys := by
      rw [htodo, hitems, ← List.map_drop] at htodo'
      cases hrest : xs.drop n with
      | nil =>
        rw [hrest] at htodo'
        cases htodo'
      | cons x ys => exact ⟨x, ys, rfl⟩
    have hlt : n < xs.length := by
      refine Nat.lt_of_le_of_ne hn fun heq => ?_
      rw [List.drop_of_length_le (Nat.le_of_eq heq.symm)] at hys
      cases hys
    have hys' : xs.drop (n + 1) = ys := by rw [← List.tail_drop, hys, List.tail_cons]
    obtain ⟨more, rfl⟩ := hxs
    have hleft : (xs ++ more).drop n = x :: (xs ++ more).drop (n + 1) := by
      rw [List.drop_append_of_le_length hn, hys, List.drop_append_of_le_length hlt, hys']
      rfl
    rw [hitems, ← List.map_drop, hys, htodo] at htodo'
    cases htodo'
    have hrest : t.todo.tail =
        .confirm :: offers link (t.call.items.drop (n + 1)) := by
      rw [htodo, hitems, ← List.map_drop, hys']
      rfl
    have hcount : t.done + 1 + 1 = 2 * (n + 1) := by omega
    refine ⟨rfl, x, rfl, fun hgone => ?_, ?_⟩
    · refine ⟨hfanouts, hstage, hopen, xs, n + 1, hitems, List.prefix_append _ _, hlt, ?_, ?_⟩
      · exact .last hcount (fun hheard => (Bool.false_ne_true (hgone.symm.trans hheard)).elim) hrest
      · exact fun hheard => (Bool.false_ne_true (hgone.symm.trans hheard)).elim
    · refine ⟨hfanouts, hstage, hopen, xs, n + 1, hitems, List.prefix_append _ _, hlt, ?_, ?_⟩
      · exact .last hcount (fun _ => rfl) hrest
      · rw [hleft] at hsupplies
        exact hsupplies.push

/-- In the middle of a call there is an item left, offered or not. -/
theorem done_lt (h : Sending type link t c items due) (htodo : t.todo ≠ []) :
    t.done < 2 * items.length := by
  obtain ⟨xs, n, hitems, hxs, hn, hoffering, _⟩ := h.progress
  have hle := hxs.length_le
  cases hoffering with
  | next hdone _ htodo' =>
    have hlt : n < xs.length := by
      refine Nat.lt_of_le_of_ne hn fun heq => htodo ?_
      rw [htodo', hitems, ← List.map_drop, heq, List.drop_length]
      rfl
    omega
  | last hdone _ _ => omega

/-- An item that was taken is confirmed, and none is lost that there is a receiver for. -/
theorem confirm {rest : List Deed} (h : Sending type link t c items due)
    (htodo : t.todo = .confirm :: rest) :
    (c.hasReceiver = true → t.taken = true) ∧
      Sending type link { t.advance with taken := false } c items due := by
  obtain ⟨hfanouts, hstage, hopen, xs, n, hitems, hxs, hn, hoffering, hsupplies⟩ := h
  cases hoffering with
  | next _ _ htodo' =>
    rw [htodo] at htodo'
    cases hrest : t.call.items.drop n <;> rw [hrest] at htodo' <;> cases htodo'
  | last hdone htaken htodo' =>
    refine ⟨htaken, hfanouts, hstage, hopen, xs, n, hitems, hxs, hn, .next hdone rfl ?_, hsupplies⟩
    change t.todo.tail = _
    rw [htodo']
    rfl

/-- A sender at work gives up nothing. -/
theorem todo_cases {deed : Deed} {rest : List Deed} (h : Sending type link t c items due)
    (htodo : t.todo = deed :: rest) : (∃ item, deed = .offer link item) ∨ deed = .confirm := by
  obtain ⟨xs, n, _, _, _, hoffering, _⟩ := h.progress
  cases hoffering with
  | next _ _ htodo' =>
    rw [htodo] at htodo'
    cases hrest : t.call.items.drop n <;> rw [hrest] at htodo' <;> cases htodo'
    exact .inl ⟨_, rfl⟩
  | last _ _ htodo' =>
    cases htodo.symm.trans htodo'
    exact .inr rfl

/-- The receiver of the link takes a step of its own. -/
theorem receiver {k : Nat} {t' : Thread} {c' : Channel Item} {due' : List type.Carrier}
    {told : List (String × Option String)} (h : Sending type link t c items due)
    (hstep : n.AtReceiver type k t' link c c' due due' told n') :
    Sending type link t c' items due' := by
  obtain ⟨hfanouts, hstage, hopen, xs, n, hitems, hxs, hn, hoffering, hsupplies⟩ := h
  refine ⟨hfanouts, hstage, hstep.sender.trans hopen, xs, n, hitems, hxs, hn, ?_,
    hstep.supplies _ hsupplies⟩
  cases hoffering with
  | next hdone htaken htodo => exact .next hdone htaken htodo
  | last hdone htaken htodo =>
    exact .last hdone (fun hheard => htaken (hstep.receiver hheard)) htodo

end Sending

/-- **A step in the middle of a call** goes on with the items of the call, unless nobody receives
them any more. -/
theorem Sending.step {type : ItemType} {link : Nat} {c : Channel Item}
    {items due : List type.Carrier} (h : Sending type link t c items due)
    (hc : n.channel? link = some c) (hstep : n.Step i t n') (htodo : t.todo ≠ []) :
    (∃ todo taken c', n.AtSender i { t with todo := todo, done := t.done + 1, taken := taken } link
        c c' [] n' ∧
      Sending type link { t with todo := todo, done := t.done + 1, taken := taken } c' items due) ∨
    c.hasReceiver = false ∧ n' = n.setThread i (t.stop (.sendFailed Halt.closedChannel)) := by
  cases hstep with
  | refused htodo' hl hgone =>
    obtain ⟨rfl, x, rfl, hrefused, -⟩ := h.offer htodo'
    cases (Network.channel?_of_link hl).symm.trans hc
    exact .inl ⟨_, _, _, .still (Network.setThread_eq_update _), hrefused hgone⟩
  | taken htodo' hl hreceiver =>
    obtain ⟨rfl, x, rfl, -, htaken⟩ := h.offer htodo'
    cases (Network.channel?_of_link hl).symm.trans hc
    exact .inl ⟨_, _, _, ⟨⟨_, rfl, Network.setThread_changeLink_eq_update _ _⟩, rfl, id⟩, htaken⟩
  | confirmed htodo' =>
    exact .inl ⟨_, _, _, .still (Network.setThread_eq_update _), (h.confirm htodo').2⟩
  | forsaken htodo' htaken =>
    refine .inr ⟨?_, rfl⟩
    cases hheard : c.hasReceiver with
    | false => rfl
    | true => exact absurd ((h.confirm htodo').1 hheard) (htaken ▸ Bool.false_ne_true)
  | hungUp htodo' | turnedAway htodo' | reported htodo' =>
    obtain ⟨_, heq⟩ | heq := h.todo_cases htodo' <;> cases heq
  | turned htodo' => exact absurd htodo' htodo

/-! ## Leaving -/

/-- What is reported of a thread that stopped for a reason; a fault goes unreported. -/
def lastWords (reason : Halt) : List (Option String) :=
  if reason.isFault then [] else [if reason.isEndOfStream then none else some reason.message]

/-- The thread has stopped for a reason, and gives up its ends and reports. -/
structure Leaving (reason : Halt) (t : Thread) : Prop where
  stage : t.stage ≠ .working
  todo : ∀ deed ∈ t.todo, deed ∈ t.farewell ∨ ∃ failure ∈ lastWords reason, deed = .report failure

/-- What there is to report is still to be reported, or has been. -/
def Told (reason : Halt) (t : Thread) (reports : List (String × Option String)) : Prop :=
  ∀ failure ∈ lastWords reason, .report failure ∈ t.todo ∨ (t.name, failure) ∈ reports

theorem Told.mono {reason : Halt} {reports told : List (String × Option String)}
    (h : Told reason t reports) : Told reason t (reports ++ told) :=
  fun failure hfailure => (h failure hfailure).imp_right (List.mem_append_left _)

theorem leaving_stop (t : Thread) (reason : Halt) : Leaving reason (t.stop reason) := by
  unfold stop
  cases hfault : reason.isFault with
  | true => exact ⟨nofun, fun deed h => .inl h⟩
  | false =>
    have hwords : lastWords reason =
        [if reason.isEndOfStream then none else some reason.message] := by
      rw [lastWords, hfault]
      rfl
    rw [if_neg Bool.false_ne_true]
    cases hend : reason.isEndOfStream <;> rw [hend] at hwords <;> refine ⟨nofun, fun deed h => ?_⟩
    all_goals
      obtain h | h := List.mem_append.1 h
      · exact .inl h
      · exact .inr ⟨_, hwords ▸ List.mem_cons_self, List.mem_singleton.1 h⟩

theorem told_stop (t : Thread) (reason : Halt) (reports : List (String × Option String)) :
    Told reason (t.stop reason) reports := by
  intro failure hfailure
  unfold lastWords at hfailure
  unfold stop
  split at hfailure
  · cases hfailure
  rename_i hfault
  obtain rfl := List.mem_singleton.1 hfailure
  rw [if_neg hfault]
  left
  split <;> exact List.mem_append_right _ (List.mem_singleton.2 (by simp_all))

/-- All that is left to do then is to give up the ends, and at most to report. -/
theorem length_todo_stop_le (t : Thread) (reason : Halt) :
    (t.stop reason).todo.length ≤ t.farewell.length + 1 := by
  unfold stop
  split
  · exact Nat.le_succ _
  · split <;> exact Nat.le_of_eq List.length_append

theorem mem_todo_stop {deed : Deed} (h : deed ∈ t.farewell) (reason : Halt) :
    deed ∈ (t.stop reason).todo := by
  unfold stop
  split
  · exact h
  · split <;> exact List.mem_append_left _ h

/-- Stopping changes what the thread does from then on, and nothing else. -/
theorem stop_eq (t : Thread) (reason : Halt) :
    ∃ stage todo, t.stop reason = { t with stage := stage, todo := todo } := by
  unfold stop
  split
  · exact ⟨_, _, rfl⟩
  · split <;> exact ⟨_, _, rfl⟩

theorem hangUp_mem_farewell {link : Nat} :
    .hangUp link ∈ t.farewell ↔ ∃ fanout, some fanout ∈ t.fanouts ∧ link ∈ fanout.links := by
  simp [farewell]

theorem turnAway_mem_farewell {link : Nat} : .turnAway link ∈ t.farewell ↔ some link ∈ t.feeds := by
  simp [farewell]

/-- What is not done now is still to be done. -/
theorem mem_todo_advance {deed deed' : Deed} {rest : List Deed} (htodo : t.todo = deed :: rest)
    (hne : deed' ≠ deed) (h : deed' ∈ t.todo) : deed' ∈ t.advance.todo := by
  change deed' ∈ t.todo.tail
  rw [htodo] at h ⊢
  exact (List.mem_cons.1 h).resolve_left hne

theorem pred_lt_of_todo {deed : Deed} {rest : List Deed} {left : Nat}
    (htodo : t.todo = deed :: rest) (h : t.todo.length ≤ left) : left - 1 < left :=
  Nat.pred_lt_of_lt (htodo ▸ h : (deed :: rest).length ≤ left)

theorem length_todo_advance_le {left : Nat} (h : t.todo.length ≤ left) :
    t.advance.todo.length ≤ left - 1 := by
  change t.todo.tail.length ≤ left - 1
  rw [List.length_tail]
  exact Nat.sub_le_sub_right h 1

namespace Leaving

variable {reason : Halt}

theorem advance (h : Leaving reason t) : Leaving reason t.advance :=
  ⟨h.stage, fun deed hdeed => h.todo deed (List.mem_of_mem_tail hdeed)⟩

/-- **A step of a thread that leaves** gives up an end or reports. -/
theorem step_cases (h : Leaving reason t) (hstep : n.Step i t n') :
    ∃ deed rest, t.todo = deed :: rest ∧
      ((∃ link, deed = .hangUp link ∧ deed ∈ t.farewell ∧
          n' = n.update i t.advance link Channel.dropSender []) ∨
        (∃ link, deed = .turnAway link ∧ deed ∈ t.farewell ∧
          n' = n.update i t.advance link Channel.dropReceiver []) ∨
        ∃ failure ∈ lastWords reason, deed = .report failure ∧
          ∀ link, n' = n.update i t.advance link id [(t.name, failure)]) := by
  have hnext : ∀ {deed rest}, t.todo = deed :: rest →
      deed ∈ t.farewell ∨ ∃ failure ∈ lastWords reason, deed = .report failure :=
    fun htodo => h.todo _ (htodo ▸ List.mem_cons_self)
  cases hstep with
  | refused htodo | taken htodo | confirmed htodo | forsaken htodo =>
    obtain hmem | ⟨failure, _, heq⟩ := hnext htodo
    · simp [farewell] at hmem
    · cases heq
  | hungUp htodo =>
    obtain hmem | ⟨failure, _, heq⟩ := hnext htodo
    · exact ⟨_, _, htodo, .inl ⟨_, rfl, hmem, Network.setThread_changeLink_eq_update _ _⟩⟩
    · cases heq
  | turnedAway htodo =>
    obtain hmem | ⟨failure, _, heq⟩ := hnext htodo
    · exact ⟨_, _, htodo, .inr (.inl ⟨_, rfl, hmem, Network.setThread_changeLink_eq_update _ _⟩)⟩
    · cases heq
  | reported htodo =>
    obtain hmem | ⟨failure, hfailure, heq⟩ := hnext htodo
    · simp [farewell] at hmem
    · cases heq
      exact ⟨_, _, htodo, .inr (.inr ⟨_, hfailure, rfl, fun link =>
        Network.setThread_reports_eq_update link _⟩)⟩
  | turned _ hstage => exact absurd hstage h.stage

/-- What is off the list of a thread that leaves has been reported. -/
theorem told (h : Leaving reason t) (htold : Told reason t n.reports) (hstep : n.Step i t n') :
    Told reason t.advance n'.reports := by
  obtain ⟨deed, rest, htodo, hcases⟩ := h.step_cases hstep
  obtain ⟨told, hreports, hdeed⟩ : ∃ told, n'.reports = n.reports ++ told ∧
      ∀ failure, deed = .report failure → (t.name, failure) ∈ told := by
    obtain ⟨_, rfl, _, rfl⟩ | ⟨_, rfl, _, rfl⟩ | ⟨_, _, rfl, hn'⟩ := hcases
    · exact ⟨[], rfl, nofun⟩
    · exact ⟨[], rfl, nofun⟩
    · obtain rfl := hn' 0
      exact ⟨_, rfl, fun failure heq => Deed.report.inj heq ▸ List.mem_singleton_self _⟩
  intro failure hfailure
  rw [hreports]
  obtain hmem | hmem := htold failure hfailure
  · by_cases heq : deed = .report failure
    · exact .inr (List.mem_append_right _ (hdeed failure heq))
    · exact .inl (mem_todo_advance htodo (Ne.symm heq) hmem)
  · exact .inr (List.mem_append_left _ hmem)

end Leaving

end Thread

end BusDecode
