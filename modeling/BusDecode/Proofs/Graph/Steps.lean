import BusDecode.Graph.Network
import Mathlib.Logic.Relation

/-!
# Steps of a network

`Network.Step` lists what a step of a thread can be, one case for each thing a thread does, with
what must hold for it (`step_cases`); once all deeds of a call are done, it is a `Turn`.  A step
sets the thread that takes it, changes one link at most, and may add a report (`update`).  A run is
any number of steps, each by any thread that can take one (`Reaches`); what every run comes to is
`Inevitably` so.
-/

set_option autoImplicit false

namespace BusDecode

namespace Network

/-- What thread `t`, at position `i`, makes of the network when its call has done all it can. -/
inductive Turn (n : Network) (i : Nat) (t : Thread) : Network → Prop
  /-- begins the next call -/
  | resumed {count : Nat} (hresult : t.call.result = .ok count) :
      Turn n i t (n.setThread i (t.resume t.call.state 0))
  /-- takes the item that its call waits for -/
  | fed {inlet link : Nat} {item : Item} {rest : List (Message Item)} {l : Link}
      (hresult : t.call.result = .error .starved) (hdry : t.dryInlet? = some inlet)
      (hfeed : t.feeds[inlet]? = some (some link)) (hl : n.links[link]? = some l)
      (hqueue : l.channel.queue = .item item :: rest) :
      Turn n i t ((n.changeLink link fun c => { c with queue := rest }).setThread i
        (t.touch inlet (Inlet.deliver item)))
  /-- learns that what its call waits for will not come -/
  | closed {inlet link : Nat} {l : Link} (hresult : t.call.result = .error .starved)
      (hdry : t.dryInlet? = some inlet) (hfeed : t.feeds[inlet]? = some (some link))
      (hl : n.links[link]? = some l)
      (hend : (∃ rest, l.channel.queue = .endOfStream :: rest) ∨
        l.channel.queue = [] ∧ l.channel.hasSender = false) :
      Turn n i t (n.setThread i (t.touch inlet Inlet.close))
  | stopped {reason : Halt} (hresult : t.call.result = .error reason)
      (hreason : reason ≠ .starved) :
      Turn n i t (n.setThread i (t.stop reason))

/-- What thread `t`, at position `i`, makes of the network. -/
inductive Step (n : Network) (i : Nat) (t : Thread) : Network → Prop
  /-- offers an item to a link that nobody receives from -/
  | refused {link : Nat} {item : Item} {rest : List Deed} {l : Link}
      (htodo : t.todo = .offer link item :: rest) (hl : n.links[link]? = some l)
      (hgone : l.channel.hasReceiver = false) :
      Step n i t (n.setThread i t.advance)
  /-- puts an item into a link that has room -/
  | taken {link : Nat} {item : Item} {rest : List Deed} {l : Link}
      (htodo : t.todo = .offer link item :: rest) (hl : n.links[link]? = some l)
      (hreceiver : l.channel.hasReceiver = true) (hroom : n.hasRoom link l = true) :
      Step n i t ((n.changeLink link fun c => { c with queue := c.queue ++ [.item item] }).setThread
        i { t.advance with taken := true })
  /-- goes on, since the item was taken -/
  | confirmed {rest : List Deed} (htodo : t.todo = .confirm :: rest) (htaken : t.taken = true) :
      Step n i t (n.setThread i { t.advance with taken := false })
  /-- stops, since nobody took the item -/
  | forsaken {rest : List Deed} (htodo : t.todo = .confirm :: rest) (htaken : t.taken = false) :
      Step n i t (n.setThread i (t.stop (.sendFailed Halt.closedChannel)))
  | hungUp {link : Nat} {rest : List Deed} (htodo : t.todo = .hangUp link :: rest) :
      Step n i t ((n.changeLink link Channel.dropSender).setThread i t.advance)
  | turnedAway {link : Nat} {rest : List Deed} (htodo : t.todo = .turnAway link :: rest) :
      Step n i t ((n.changeLink link Channel.dropReceiver).setThread i t.advance)
  | reported {failure : Option String} {rest : List Deed}
      (htodo : t.todo = .report failure :: rest) :
      Step n i t ({ n with reports := n.reports ++ [(t.name, failure)] }.setThread i t.advance)
  | turned {n' : Network} (htodo : t.todo = []) (hstage : t.stage = .working)
      (hturn : Turn n i t n') : Step n i t n'

variable {n n' : Network} {i : Nat} {t : Thread}

theorem Step.turn (h : n.Step i t n') (htodo : t.todo = []) : n.Turn i t n' := by
  cases h with
  | refused htodo' | taken htodo' | confirmed htodo' | forsaken htodo' | hungUp htodo'
  | turnedAway htodo' | reported htodo' => cases htodo.symm.trans htodo'
  | turned _ _ hturn => exact hturn

theorem offer_cases {link : Nat} {item : Item} {rest : List Deed}
    (htodo : t.todo = .offer link item :: rest) (h : n.offer i t link item = some n') :
    n.Step i t n' := by
  unfold offer at h
  split at h
  · cases h
  rename_i l hl
  split at h
  · rename_i hgone
    cases h
    exact .refused htodo hl hgone
  rename_i hreceiver
  split at h
  · rename_i hroom
    cases h
    exact .taken htodo hl (by simpa using hreceiver) hroom
  · cases h

theorem perform_cases {deed : Deed} {rest : List Deed} (htodo : t.todo = deed :: rest)
    (h : n.perform i t deed = some n') : n.Step i t n' := by
  cases deed with
  | offer link item => exact offer_cases htodo h
  | confirm =>
    change (if t.taken = true then _ else _) = some n' at h
    split at h
    · rename_i htaken
      cases h
      exact .confirmed htodo htaken
    · rename_i htaken
      cases h
      exact .forsaken htodo (by simpa using htaken)
  | hangUp link =>
    cases h
    exact .hungUp htodo
  | turnAway link =>
    cases h
    exact .turnedAway htodo
  | report failure =>
    cases h
    exact .reported htodo

theorem await_cases (hresult : t.call.result = .error .starved) (h : n.await i t = some n') :
    n.Turn i t n' := by
  unfold await at h
  obtain ⟨inlet, hdry, h⟩ := Option.bind_eq_some_iff.1 h
  obtain ⟨link, hjoin, h⟩ := Option.bind_eq_some_iff.1 h
  obtain ⟨l, hl, h⟩ := Option.bind_eq_some_iff.1 h
  have hfeed : t.feeds[inlet]? = some (some link) := Option.join_eq_some_iff.1 hjoin
  split at h
  · rename_i hqueue
    cases h
    exact .fed hresult hdry hfeed hl hqueue
  · rename_i hqueue
    cases h
    exact .closed hresult hdry hfeed hl (.inl ⟨_, hqueue⟩)
  · rename_i hqueue
    split at h
    · cases h
    · rename_i hsender
      cases h
      exact .closed hresult hdry hfeed hl (.inr ⟨hqueue, by simpa using hsender⟩)

theorem turn_cases (h : n.turn i t = some n') : n.Turn i t n' := by
  unfold turn at h
  split at h
  · rename_i hresult
    cases h
    exact .resumed hresult
  · rename_i hresult
    exact await_cases hresult h
  · rename_i reason hreason hresult
    cases h
    exact .stopped hresult hreason

/-- **What a step can be.** -/
theorem step_cases (h : n.step i = some n') : ∃ t, n.threads[i]? = some t ∧ n.Step i t n' := by
  unfold step at h
  split at h
  · cases h
  rename_i t ht
  refine ⟨t, ht, ?_⟩
  split at h
  · rename_i htodo
    exact perform_cases htodo h
  rename_i htodo
  split at h
  · rename_i hstage
    exact .turned htodo hstage (turn_cases h)
  · cases h

/-! ## Runs -/

/-- Some thread takes a step from one network to the other. -/
def Leads (n n' : Network) : Prop :=
  ∃ i, n.step i = some n'

/-- A network becomes the other by steps of its threads, in any order. -/
def Reaches : Network → Network → Prop :=
  Relation.ReflTransGen Leads

/-- Letting the first thread that can do something do it is one of these orders. -/
theorem reaches_run (n : Network) (limit : Nat) : n.Reaches (n.run limit) := by
  induction limit generalizing n with
  | zero => exact .refl
  | succ limit ih =>
    unfold run
    split
    · exact .refl
    · rename_i n' hnext
      obtain ⟨i, -, hstep⟩ := List.exists_of_findSome?_eq_some hnext
      exact .head ⟨i, hstep⟩ (ih n')

/-- Every thread has stopped, given up its ends and reported. -/
def HasEnded (n : Network) : Prop :=
  ∀ t ∈ n.threads, t.stage ≠ .working ∧ t.todo = []

/-- However the threads go on, the network comes to be like this: no schedule goes on forever
before, and none gets stuck. -/
inductive Inevitably (P : Network → Prop) : Network → Prop
  | now {n : Network} (h : P n) : Inevitably P n
  | later {n : Network} (hleads : ∃ n', n.Leads n')
      (hall : ∀ n', n.Leads n' → Inevitably P n') : Inevitably P n

/-! ## What a step leaves as it is -/

/-- The channel of a link. -/
def channel? (n : Network) (link : Nat) : Option (Channel Item) :=
  n.links[link]?.map Link.channel

theorem channel?_of_link {link : Nat} {l : Link} (h : n.links[link]? = some l) :
    n.channel? link = some l.channel := by
  rw [channel?, h]
  rfl

/-- A thread is set, a link is changed, and reports come in. -/
def update (n : Network) (i : Nat) (t : Thread) (link : Nat)
    (f : Channel Item → Channel Item) (told : List (String × Option String)) : Network where
  threads := n.threads.set i t
  links := n.links.modify link fun l => { l with channel := f l.channel }
  reports := n.reports ++ told

theorem modify_channel_id (links : List Link) (link : Nat) :
    (links.modify link fun l => { l with channel := id l.channel }) = links :=
  List.modify_id link links

theorem setThread_eq_update (link : Nat) : n.setThread i t = n.update i t link id [] := by
  rw [setThread, update, modify_channel_id, List.append_nil]

theorem setThread_changeLink_eq_update (link : Nat) (f : Channel Item → Channel Item) :
    (n.changeLink link f).setThread i t = n.update i t link f [] := by
  simp [setThread, changeLink, update]

theorem setThread_reports_eq_update (link : Nat) (told : List (String × Option String)) :
    { n with reports := n.reports ++ told }.setThread i t = n.update i t link id told := by
  rw [setThread, update, modify_channel_id]

section Update

variable {link : Nat} {f : Channel Item → Channel Item} {told : List (String × Option String)}

theorem thread_update {t' : Thread} (h : n.threads[i]? = some t') :
    (n.update i t link f told).threads[i]? = some t := by
  obtain ⟨hlt, _⟩ := List.getElem?_eq_some_iff.1 h
  exact List.getElem?_set_self hlt

theorem thread_update_ne {k : Nat} (h : i ≠ k) :
    (n.update i t link f told).threads[k]? = n.threads[k]? :=
  List.getElem?_set_ne h

theorem channel?_update {c : Channel Item} (h : n.channel? link = some c) :
    (n.update i t link f told).channel? link = some (f c) := by
  obtain ⟨l, hl, rfl⟩ := Option.map_eq_some_iff.1 h
  simp [channel?, update, hl]

theorem channel?_update_ne {k : Nat} (h : link ≠ k) :
    (n.update i t link f told).channel? k = n.channel? k := by
  simp [channel?, update, h]

theorem length_update : (n.update i t link f told).threads.length = n.threads.length :=
  List.length_set

end Update

end Network

end BusDecode
