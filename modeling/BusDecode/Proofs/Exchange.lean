import BusDecode.Channel.Exchange
import Mathlib.Data.List.TakeWhile

/-!
# Broadcasting to every destination alike

What a destination of a broadcast receives is what was sent up to the moment its receiving end is
given up, in order, whatever becomes of the others, and a sender finds its item back exactly if all
of its destinations are gone (`broadcast_exact`).  One round over the destinations changes each
channel on its own (`getElem?_foldl_post`); `Standing` is what any actions keep, step by step
(`Standing.perform`).
-/

set_option autoImplicit false

namespace BusDecode

namespace Exchange

variable {α : Type}

/-! ## One round -/

/-- Whether somebody receives at a channel. -/
def receivesAt (channels : List (Channel α)) (i : Nat) : Bool :=
  channels[i]?.any Channel.hasReceiver

/-- A channel after a message, which is lost if nobody receives there. -/
def reach (m : Message α) (c : Channel α) : Channel α :=
  (c.send? m).getD c

@[simp] theorem hasReceiver_reach (m : Message α) (c : Channel α) :
    (reach m c).hasReceiver = c.hasReceiver := by
  unfold reach Channel.send?
  split <;> rfl

section Round

variable (m : Message α) (channels : List (Channel α))

theorem post?_isSome (d : Nat) : (post? channels m d).isSome = receivesAt channels d := by
  unfold post? receivesAt Channel.send?
  cases channels[d]? with
  | none => rfl
  | some c => cases h : c.hasReceiver <;> simp [h]

theorem getElem?_post (d i : Nat) :
    (post m channels d)[i]? = if i = d then channels[i]?.map (reach m) else channels[i]? := by
  unfold post post? reach
  cases hc : channels[d]? with
  | none =>
    by_cases hi : i = d
    · subst hi
      simp [hc]
    · simp [hi]
  | some c =>
    have hd := (List.getElem?_eq_some_iff.1 hc).1
    by_cases hi : i = d
    · subst hi
      rw [if_pos rfl, hc, Option.bind_some, Option.map_some]
      cases c.send? m with
      | none => exact hc
      | some after => exact List.getElem?_set_self hd
    · rw [if_neg hi, Option.bind_some]
      cases c.send? m with
      | none => rfl
      | some after => exact List.getElem?_set_ne (Ne.symm hi)

/-- Each channel gets the message once, if it is among the destinations. -/
theorem getElem?_foldl_post (n i : Nat) :
    ((List.range n).foldl (post m) channels)[i]? =
      if i < n then channels[i]?.map (reach m) else channels[i]? := by
  induction n with
  | zero => simp
  | succ n ih =>
    rw [List.range_succ, List.foldl_append, List.foldl_cons, List.foldl_nil, getElem?_post, ih]
    by_cases hi : i = n
    · simp [hi]
    · rw [if_neg hi]
      exact if_congr (by omega) rfl rfl

theorem receivesAt_post (d i : Nat) :
    receivesAt (post m channels d) i = receivesAt channels i := by
  unfold receivesAt
  rw [getElem?_post]
  split
  · cases channels[i]? <;> simp
  · rfl

theorem receivesAt_foldl_post (ds : List Nat) (i : Nat) :
    receivesAt (ds.foldl (post m) channels) i = receivesAt channels i := by
  induction ds generalizing channels with
  | nil => rfl
  | cons d ds ih => rw [List.foldl_cons, ih, receivesAt_post]

end Round

/-- What has arrived at a channel and is still to be received. -/
def queueAt (channels : List (Channel α)) (i : Nat) : List (Message α) :=
  (channels[i]?.map Channel.queue).getD []

theorem queueAt_foldl_post (m : Message α) (channels : List (Channel α)) {n i : Nat} (hi : i < n) :
    queueAt ((List.range n).foldl (post m) channels) i =
      queueAt channels i ++ if receivesAt channels i then [m] else [] := by
  unfold queueAt receivesAt
  rw [getElem?_foldl_post, if_pos hi]
  cases channels[i]? with
  | none => rfl
  | some c => cases h : c.hasReceiver <;> simp [h, reach, Channel.send?]

section Offers

variable (value : α) (channels : List (Channel α))

theorem channels_foldl_offer (ds : List Nat) (b : Broadcast α) :
    (ds.foldl (offer value) b).channels = ds.foldl (post (.item value)) b.channels := by
  induction ds generalizing b with
  | nil => rfl
  | cons d ds ih =>
    rw [List.foldl_cons, List.foldl_cons, ih]
    congr 1
    unfold offer post
    split <;> simp_all

/-- An item is offered to the first `n` destinations like any message; what is remembered is whether
one of them received it and whether one did not. -/
theorem foldl_offer (n : Nat) :
    (List.range n).foldl (offer value) { channels } =
      { channels := (List.range n).foldl (post (.item value)) channels
        anySuccess := (List.range n).any (receivesAt channels)
        lastError := if (List.range n).all (receivesAt channels) then none else some value } := by
  induction n with
  | zero => rfl
  | succ n ih =>
    have hhere : receivesAt ((List.range n).foldl (post (.item value)) channels) n =
        receivesAt channels n :=
      receivesAt_foldl_post _ _ _ _
    rw [List.range_succ, List.foldl_append, List.foldl_append, ih, List.any_append,
      List.all_append]
    simp only [List.foldl_cons, List.foldl_nil, offer, post, List.any_cons, List.any_nil,
      List.all_cons, List.all_nil, Bool.or_false, Bool.and_true]
    rw [← post?_isSome (.item value)] at hhere
    cases hpost : post? ((List.range n).foldl (post (.item value)) channels) (.item value) n with
    | none =>
      rw [hpost] at hhere
      simp [← hhere]
    | some after =>
      rw [hpost] at hhere
      simp [← hhere]

/-- Sending to destinations in turn. -/
theorem send_range (x : Exchange α) (n : Nat) :
    x.send (List.range n) value =
      (if 0 < n ∧ ∀ i < n, receivesAt x.channels i = false then .error value else .ok (),
        { x with channels := (List.range n).foldl (post (.item value)) x.channels }) := by
  unfold send
  cases n with
  | zero => rfl
  | succ n =>
    have hne : (List.range (n + 1)).isEmpty = false := by simp [List.range_succ]
    rw [hne, if_neg (by decide), foldl_offer]
    refine Prod.ext ?_ rfl
    dsimp only [Broadcast.result]
    by_cases hgone : ∀ i < n + 1, receivesAt x.channels i = false
    · have hany : (List.range (n + 1)).any (receivesAt x.channels) = false := by
        simpa [List.any_eq_false] using hgone
      have hall : ¬(List.range (n + 1)).all (receivesAt x.channels) = true := by
        simpa using ⟨0, by omega, hgone 0 (by omega)⟩
      rw [if_pos (And.intro (Nat.succ_pos n) hgone), hany, if_neg hall]
    · have hany : (List.range (n + 1)).any (receivesAt x.channels) = true := by
        simpa [List.any_eq_true] using hgone
      rw [if_neg fun h : _ ∧ _ => hgone h.2, hany]

end Offers

/-! ## Actions -/

namespace Action

/-- The message that an action sends to every destination. -/
def message? : Action α → Option (Message α)
  | send _ value => some (.item value)
  | emit _ value => some (.item value)
  | close _ => some .endOfStream
  | _ => none

/-- Whether an action gives up the receiving end of a destination. -/
def drops (i : Nat) : Action α → Bool
  | dropReceiver d => d = i
  | _ => false

/-- The sender that acts. -/
def sender? : Action α → Option Nat
  | send sender _ => some sender
  | emit sender _ => some sender
  | close sender => some sender
  | clone sender => some sender
  | _ => none

/-- The number of senders after an action. -/
def sendersAfter (count : Nat) : Action α → Nat
  | clone _ => count + 1
  | _ => count

end Action

/-- Every sender that acts is there by then; there are so many to begin with. -/
def Admissible : Nat → List (Action α) → Prop
  | _, [] => True
  | count, a :: rest => (∀ k, a.sender? = some k → k < count) ∧ Admissible (a.sendersAfter count) rest

/-- What has been drained from a destination. -/
def drained (i : Nat) (log : List (Action α × Answer α)) : List (Message α) :=
  log.flatMap fun
    | (.drain d, .drained (some messages)) => if d = i then messages else []
    | _ => []

@[simp] theorem drained_append (i : Nat) (log log' : List (Action α × Answer α)) :
    drained i (log ++ log') = drained i log ++ drained i log' :=
  List.flatMap_append

theorem channels_send (x : Exchange α) (ds : List Nat) (value : α) :
    (x.send ds value).2.channels = ds.foldl (post (.item value)) x.channels := by
  unfold send
  cases ds with
  | nil => rfl
  | cons d ds => exact channels_foldl_offer value _ _

@[simp] theorem senders_send (x : Exchange α) (ds : List Nat) (value : α) :
    (x.send ds value).2.senders = x.senders := by
  unfold send
  split <;> rfl

section Steps

variable {x : Exchange α} {a : Action α} {i n : Nat}

/-- A receiving end is held until it is given up. -/
theorem receivesAt_perform :
    receivesAt (x.perform a).2.channels i = (receivesAt x.channels i && !a.drops i) := by
  cases a with
  | send sender value | emit sender value =>
    simp [perform, Action.drops, channels_send, receivesAt_foldl_post]
  | close sender => simp [perform, Action.drops, close, receivesAt_foldl_post]
  | clone sender => simp [perform, Action.drops]
  | dropReceiver d =>
    simp only [perform, Action.drops, receivesAt, List.getElem?_modify]
    cases x.channels[i]? with
    | none => rfl
    | some c => by_cases hd : d = i <;> simp [hd, Channel.dropReceiver]
  | drain d =>
    simp only [perform, Action.drops, receivesAt, List.getElem?_modify]
    cases x.channels[i]? with
    | none => rfl
    | some c => by_cases hd : d = i <;> simp [hd, Channel.drain]

theorem senders_perform :
    (x.perform a).2.senders.length = a.sendersAfter x.senders.length := by
  cases a <;> simp [perform, Action.sendersAfter, close]

/-- Nothing comes from a destination whose receiving end is gone. -/
theorem drained_perform_gone (h : receivesAt x.channels i = false) :
    drained i [(a, (x.perform a).1)] = [] := by
  cases a with
  | drain d =>
    by_cases hd : d = i
    · subst hd
      have hnone : x.received? d = none := by
        unfold received? receivesAt at *
        cases hc : x.channels[d]? <;> simp_all
      simp [perform, hnone, drained]
    · simp only [perform, drained, List.flatMap_singleton]
      cases x.received? d <;> simp [hd]
  | _ => rfl

end Steps

/-! ## Histories -/

/-- Every sender sends to all `n` destinations, and of these, each that has its receiving end still
has had what the actions sent so far and nothing else. -/
structure Standing (n : Nat) (log : List (Action α × Answer α)) (x : Exchange α) : Prop where
  senders : ∀ ds ∈ x.senders, ds = List.range n
  receives : ∀ i < n, receivesAt x.channels i = !log.any fun e => e.1.drops i
  received : ∀ i < n, receivesAt x.channels i = true →
    drained i log ++ queueAt x.channels i = log.filterMap fun e => e.1.message?

theorem standing_fresh (n : Nat) : Standing n [] (fresh n : Exchange α) where
  senders := by simp [fresh]
  receives := by
    intro i hi
    simp [fresh, receivesAt, hi]
  received := by
    intro i hi _
    simp [fresh, drained, queueAt, hi]

namespace Standing

variable {n : Nat} {log : List (Action α × Answer α)} {x : Exchange α} {a : Action α}

theorem destinations (h : Standing n log x) {k : Nat} (hk : k < x.senders.length) :
    x.destinations k = List.range n := by
  rw [Exchange.destinations, List.getElem?_eq_getElem hk]
  exact h.senders _ (List.getElem_mem hk)

/-- What an action brings to a destination that somebody receives at, drained at once or not. -/
theorem delivered (h : Standing n log x) (ha : ∀ k, a.sender? = some k → k < x.senders.length)
    {i : Nat} (hi : i < n) (hlive : receivesAt x.channels i = true) (hdrops : a.drops i = false) :
    drained i [(a, (x.perform a).1)] ++ queueAt (x.perform a).2.channels i =
      queueAt x.channels i ++ a.message?.toList := by
  cases a with
  | send k value | emit k value =>
    rw [perform, h.destinations (ha k rfl)]
    simp [drained, channels_send, queueAt_foldl_post _ _ hi, hlive, Action.message?]
  | close k =>
    rw [perform, h.destinations (ha k rfl)]
    simp [drained, close, queueAt_foldl_post _ _ hi, hlive, Action.message?]
  | clone k => simp [perform, drained, Action.message?]
  | dropReceiver d =>
    have hd : d ≠ i := by simpa [Action.drops] using hdrops
    simp [perform, drained, Action.message?, queueAt, hd]
  | drain d =>
    by_cases hd : d = i
    · subst hd
      unfold receivesAt at hlive
      cases hc : x.channels[d]? with
      | none => simp [hc] at hlive
      | some c =>
        have hreceiver : c.hasReceiver = true := by simpa [hc] using hlive
        have hreceived : x.received? d = some c := by
          rw [received?, hc]
          exact if_pos hreceiver
        simp [perform, drained, Action.message?, queueAt, hreceived, hc, Channel.drain]
    · have hnone : drained i [(Action.drain d, (x.perform (.drain d)).1)] = [] := by
        simp only [perform, drained, List.flatMap_singleton]
        cases x.received? d <;> simp [hd]
      rw [hnone]
      simp [perform, Action.message?, queueAt, hd]

/-- **One action** leaves it so. -/
theorem perform (h : Standing n log x) (ha : ∀ k, a.sender? = some k → k < x.senders.length) :
    Standing n (log ++ [(a, (x.perform a).1)]) (x.perform a).2 where
  senders := by
    cases a with
    | clone k =>
      intro ds hds
      obtain hds | rfl : ds ∈ x.senders ∨ ds = x.destinations k := by
        simpa [Exchange.perform] using hds
      · exact h.senders ds hds
      · exact h.destinations (ha k rfl)
    | _ => simpa [Exchange.perform, close] using h.senders
  receives := by
    intro i hi
    rw [receivesAt_perform, h.receives i hi]
    simp
  received := by
    intro i hi hlive
    rw [receivesAt_perform, Bool.and_eq_true, Bool.not_eq_true'] at hlive
    rw [drained_append, List.append_assoc, h.delivered ha hi hlive.1 hlive.2, ← List.append_assoc,
      h.received i hi hlive.1, List.filterMap_append]
    cases hm : a.message? <;> simp [hm]

theorem run (h : Standing n log x) {actions : List (Action α)}
    (ha : Admissible x.senders.length actions) :
    Standing n (log ++ (x.run actions).1) (x.run actions).2 := by
  induction actions generalizing log x with
  | nil => simpa [Exchange.run] using h
  | cons a rest ih =>
    obtain ⟨ha, hrest⟩ := ha
    rw [← senders_perform] at hrest
    simpa [Exchange.run] using ih (h.perform ha) hrest

end Standing

section Runs

variable {x : Exchange α} {i : Nat}

theorem run_append (actions more : List (Action α)) :
    x.run (actions ++ more) =
      ((x.run actions).1 ++ ((x.run actions).2.run more).1, ((x.run actions).2.run more).2) := by
  induction actions generalizing x with
  | nil => rfl
  | cons a rest ih => simp [run, ih]

theorem run_actions (actions : List (Action α)) : (x.run actions).1.map Prod.fst = actions := by
  induction actions generalizing x with
  | nil => rfl
  | cons a rest ih => simp [run, ih]

theorem drained_run_gone (h : receivesAt x.channels i = false) (actions : List (Action α)) :
    drained i (x.run actions).1 = [] := by
  induction actions generalizing x with
  | nil => rfl
  | cons a rest ih =>
    have hrest := ih (x := (x.perform a).2) (by rw [receivesAt_perform, h, Bool.false_and])
    change drained i ([(a, (x.perform a).1)] ++ ((x.perform a).2.run rest).1) = []
    rw [drained_append, drained_perform_gone h, hrest]
    rfl

end Runs

section Histories

variable {history : List (Action α)} {count n i : Nat}

theorem Admissible.of_append {more : List (Action α)} (h : Admissible count (history ++ more)) :
    Admissible count history := by
  induction history generalizing count with
  | nil => trivial
  | cons a history ih => exact ⟨h.1, ih h.2⟩

/-- Whether somebody receives at a destination after a history. -/
theorem receivesAt_run (h : Admissible 1 history) (hi : i < n) :
    receivesAt ((fresh n).run history).2.channels i = !history.any (Action.drops i) := by
  have hstanding := (standing_fresh n).run h
  have hdropped := congrArg (List.any · (Action.drops i)) (run_actions (x := fresh n) history)
  rw [List.any_map] at hdropped
  rw [hstanding.receives i hi, List.nil_append]
  exact congrArg (!·) hdropped

/-- After the action that gives up its receiving end nothing is drained from a destination. -/
theorem drained_dropWhile (x : Exchange α) :
    drained i (x.run (history.dropWhile fun a => !a.drops i)).1 = [] := by
  cases hrest : history.dropWhile fun a => !a.drops i with
  | nil => rfl
  | cons a rest =>
    have hdrops : a.drops i = true := by
      have hfound : history.find? (Action.drops i) = some a := by
        rw [List.find?_eq_head?_dropWhile_not, hrest]
        rfl
      exact List.find?_some hfound
    have hgone : receivesAt (x.perform a).2.channels i = false := by
      rw [receivesAt_perform, hdrops]
      exact Bool.and_false _
    change drained i ([(a, (x.perform a).1)] ++ ((x.perform a).2.run rest).1) = []
    rw [drained_append, drained_run_gone hgone, List.append_nil]
    cases a with
    | dropReceiver d => rfl
    | _ => cases hdrops

/-- What came to a destination until its receiving end was given up, or until now. -/
theorem drained_takeWhile (h : Admissible 1 history) (hi : i < n) :
    let before := history.takeWhile fun a => !a.drops i
    drained i ((fresh n).run history).1 ++ queueAt ((fresh n).run before).2.channels i =
      before.filterMap Action.message? := by
  intro before
  have hsplit : history = before ++ history.dropWhile fun a => !a.drops i :=
    (List.takeWhile_append_dropWhile ..).symm
  have hbefore : Admissible 1 before := by
    rw [hsplit] at h
    exact h.of_append
  have hstanding := (standing_fresh n).run hbefore
  have hkept : before.any (Action.drops i) = false := by
    rw [List.any_eq_false]
    intro a ha
    simpa using List.mem_takeWhile_imp ha
  have hlive : receivesAt ((fresh n).run before).2.channels i = true := by
    rw [receivesAt_run hbefore hi, hkept]
    rfl
  have hreceived := hstanding.received i hi hlive
  have hmessages := congrArg (List.filterMap Action.message?) (run_actions (x := fresh n) before)
  rw [List.filterMap_map] at hmessages
  replace hreceived := hreceived.trans hmessages
  rw [hsplit, run_append, drained_append, drained_dropWhile, List.append_nil]
  exact hreceived

end Histories

/-- **Broadcasting.**  After any history, what a destination has received and what was waiting for
it when its receiving end was given up, or is waiting now, are the items of all sends and an end
marker for each close up to then, in order.  Sending an item fails, and gives it back, exactly if
there are destinations and all of them are gone; otherwise it comes to all that are not. -/
theorem broadcast_exact (n : Nat) (history : List (Action α)) (h : Admissible 1 history) :
    let run := (fresh n).run history
    (∀ i < n,
      let before := history.takeWhile fun a => !a.drops i
      drained i run.1 ++ queueAt ((fresh n).run before).2.channels i =
        before.filterMap Action.message?) ∧
      ∀ k < run.2.senders.length, ∀ value : α,
        let gone := 0 < n ∧ ∀ i < n, history.any (Action.drops i) = true
        let after := (run.2.perform (.send k value)).2
        (run.2.perform (.send k value)).1 = .sent (if gone then .error value else .ok ()) ∧
          run.2.perform (.emit k value) =
            (.emitted (if gone then .error (.sendFailed Halt.closedChannel) else .ok ()), after) ∧
          ∀ i < n, queueAt after.channels i = queueAt run.2.channels i ++
            if history.any (Action.drops i) then [] else [.item value] := by
  intro run
  refine ⟨fun i hi => drained_takeWhile h hi, fun k hk value => ?_⟩
  have hstanding := (standing_fresh n).run h
  have hdestinations : run.2.destinations k = List.range n := hstanding.destinations hk
  have hlive : ∀ i < n, receivesAt run.2.channels i = !history.any (Action.drops i) :=
    fun i hi => receivesAt_run h hi
  have hgone : (0 < n ∧ ∀ i < n, receivesAt run.2.channels i = false) ↔
      0 < n ∧ ∀ i < n, history.any (Action.drops i) = true := by
    refine and_congr_right fun _ => forall_congr' fun i => forall_congr' fun hi => ?_
    rw [hlive i hi, Bool.not_eq_false']
  have hsend := send_range value run.2 n
  simp only [hgone] at hsend
  refine ⟨?_, ?_, fun i hi => ?_⟩
  · simp only [perform, hdestinations, hsend]
  · simp only [perform, hdestinations, hsend]
    split <;> rfl
  · simp only [perform, hdestinations, channels_send, queueAt_foldl_post _ _ hi, hlive i hi]
    cases history.any (Action.drops i) <;> rfl

/-- An item sent before the first destination is given up, one sent by a clone after it, an end
marker, and one that nobody is left to take. -/
theorem broadcast_exact_clone :
    let history : List (Action Nat) :=
      [.send 0 5, .drain 1, .clone 0, .dropReceiver 0, .emit 1 6, .close 0, .dropReceiver 1]
    let run := (fresh 2).run history
    drained 0 run.1 ++ queueAt ((fresh 2).run (history.take 3)).2.channels 0 = [.item 5] ∧
      drained 1 run.1 ++ queueAt ((fresh 2).run (history.take 6)).2.channels 1 =
        [.item 5, .item 6, .endOfStream] ∧
      (run.2.perform (.send 1 7)).1 = .sent (.error 7) := by
  intro history run
  have hadmissible : Admissible 1 history := by
    simp [history, Admissible, Action.sender?, Action.sendersAfter]
  obtain ⟨hreceived, hsend⟩ := broadcast_exact 2 history hadmissible
  exact ⟨hreceived 0 (by decide), hreceived 1 (by decide), (hsend 1 (by decide) 7).1⟩

/-! ## A sender on its own -/

/-- A sender that shares its channels with nobody sends and closes as one of an exchange. -/
theorem send_alone (s : Sender α) (value : α) :
    let x : Exchange α := ⟨s.destinations, [List.range s.destinations.length]⟩
    x.send (x.destinations 0) value =
        ((s.send value).1, { x with channels := (s.send value).2.destinations }) ∧
      x.close (x.destinations 0) = { x with channels := s.close.destinations } := by
  intro x
  have hchannels : ∀ m : Message α, (List.range s.destinations.length).foldl (post m) x.channels =
      (s.broadcast m).destinations := by
    intro m
    refine List.ext_getElem? fun i => ?_
    rw [getElem?_foldl_post]
    by_cases hi : i < s.destinations.length
    · rw [if_pos hi]
      exact List.getElem?_map.symm
    · have hmissing : s.destinations[i]? = none := List.getElem?_eq_none (Nat.not_lt.1 hi)
      rw [if_neg hi, hmissing]
      refine (List.getElem?_eq_none ?_).symm
      rw [Sender.broadcast, List.length_map]
      exact Nat.not_lt.1 hi
  have hgone : (0 < s.destinations.length ∧
      ∀ i < s.destinations.length, receivesAt x.channels i = false) ↔ s.isForsaken = true := by
    rw [Sender.isForsaken, Bool.and_eq_true, List.all_eq_true, Bool.not_eq_true',
      List.isEmpty_eq_false_iff, ← List.length_pos_iff]
    refine and_congr_right fun _ => ?_
    constructor
    · intro h c hc
      obtain ⟨i, hi, rfl⟩ := List.getElem_of_mem hc
      simpa [receivesAt, x, hi] using h i hi
    · intro h i hi
      simpa [receivesAt, x, hi] using h _ (List.getElem_mem hi)
  have hdestinations : x.destinations 0 = List.range s.destinations.length := rfl
  refine ⟨?_, ?_⟩
  · rw [hdestinations, send_range, hchannels]
    simp only [hgone]
    rfl
  · rw [hdestinations, close, hchannels]
    rfl

end Exchange

end BusDecode
