import BusDecode.Proofs.Graph.Decoding
import Mathlib.Algebra.Order.BigOperators.Group.Finset
import Mathlib.Logic.Function.Basic

/-!
# Decoders that wait for their input

A node that is called before all of its input has arrived is as far as its decoder would be with
what there is, and what it annotates from here on is known (`Decoding.Reads`): it depends on what is
still due at its inlets and not on when it arrives.  How often something can still arrive and the
node still be called is bounded from the beginning.
-/

set_option autoImplicit false

namespace BusDecode

namespace Inlet

variable {type : ItemType}

theorem deliver_connected (x : type.Carrier) (r : Receiver type.Carrier) :
    deliver ⟨type, x⟩ (connected type r) = connected type (r.grow [x] false) := by
  simp [deliver, Receiver.grow]

theorem close_connected (r : Receiver type.Carrier) :
    close (connected type r) = connected type (r.grow [] true) := by
  simp [close, Receiver.grow, Channel.dropSender]

/-- An inlet that changes is a receiver that changes. -/
theorem modify_map_connected {change : Inlet → Inlet}
    {f : Receiver type.Carrier → Receiver type.Carrier}
    (h : ∀ r, change (connected type r) = connected type (f r)) (j : Nat)
    (lines : List (Receiver type.Carrier)) :
    (lines.map (connected type)).modify j change = (lines.modify j f).map (connected type) := by
  refine List.ext_getElem? fun k => ?_
  simp only [List.getElem?_modify, List.getElem?_map]
  cases lines[k]? with
  | none => rfl
  | some r =>
    by_cases hjk : j = k
    · simp [hjk, h]
    · simp [hjk]

end Inlet

namespace Decoding

variable {type : ItemType}

/-- How much can still arrive: the items that are due, and at each inlet the end. -/
def toArrive (D : Decoding type) (isOpen : Nat → Bool) (due : Nat → List type.Carrier) : Nat :=
  ∑ j ∈ Finset.range D.count, ((due j).length + (isOpen j).toNat)

/-- Whatever arrives at one inlet is no longer to arrive. -/
theorem toArrive_update_lt {D : Decoding type} {isOpen : Nat → Bool}
    {due : Nat → List type.Carrier} {j : Nat} (hj : j < D.count) {stays : Bool}
    {rest : List type.Carrier}
    (hfewer : rest.length + stays.toNat < (due j).length + (isOpen j).toNat) :
    D.toArrive (Function.update isOpen j stays) (Function.update due j rest) <
      D.toArrive isOpen due := by
  refine Finset.sum_lt_sum (fun k _ => ?_) ⟨j, Finset.mem_range.2 hj, ?_⟩
  · by_cases hkj : k = j
    · subst hkj
      rw [Function.update_self, Function.update_self]
      exact hfewer.le
    · rw [Function.update_of_ne hkj, Function.update_of_ne hkj]
  · rw [Function.update_self, Function.update_self]
    exact hfewer

/-- The node has read what has arrived of its input.  Once the rest arrives, which is still due at
its inlets, it will have annotated these items and halted for this reason, after no more than `left`
arrivals and calls. -/
inductive Reads (D : Decoding type) (due : Nat → List type.Carrier) (items : List Annotation)
    (reason : Halt) (left : Nat) : Node.State → Prop
  | intro (m : D.Memory) {lines lines' : List (Receiver type.Carrier)}
      {xss : List (List type.Carrier)} {final : D.Memory × List (List type.Carrier)}
      {isOpen : Nat → Bool} {calls : Nat} (count : lines.length = D.count)
      (grown : Linewise (fun j => Receiver.Grown ⟨isOpen j, due j, true⟩) lines lines')
      (serves : List.Forall₂ Receiver.Serves lines' xss)
      (yields : D.step.Yields (m, xss) items reason final) (lasts : D.step.Lasts (m, xss) calls)
      (bound : calls + D.toArrive isOpen due ≤ left) :
      Reads D due items reason left (D.withLines m lines)

namespace Reads

variable {D : Decoding type} {due : Nat → List type.Carrier} {items : List Annotation}
  {reason : Halt} {left : Nat} {s : Node.State}

theorem kept (h : D.Reads due items reason left s) : s.1.kept? = none := by
  obtain ⟨m, _, _, _, _⟩ := h
  exact D.kept m

/-- The present call lags behind the one on all of the input, which does what a step does. -/
theorem call (h : D.Reads due items reason left s) :
    ∃ call' m xss final, ∃ isOpen : Nat → Bool, ∃ calls,
      Node.Lags type D.node (fun j => ⟨isOpen j, due j, true⟩) D.count
        (Node.work [some .annotations] s) call' ∧
      Node.Agrees type D.node D.count call' (D.step.run (m, xss)) ∧
      D.step.Yields (m, xss) items reason final ∧ D.step.Lasts (m, xss) calls ∧
      calls + D.toArrive isOpen due ≤ left := by
  obtain ⟨m, count, grown, serves, yields, lasts, bound⟩ := h
  exact ⟨_, _, _, _, _, _, D.lags m rfl count grown,
    D.agrees m rfl (grown.length.symm.trans count) serves, yields, lasts, bound⟩

/-- What the present call annotates comes first. -/
theorem items_call (h : D.Reads due items reason left s) :
    ∃ xs, (Node.work [some .annotations] s).items = xs.map (Item.mk .annotations) ∧
      xs <+: items := by
  obtain ⟨call', m, xss, final, isOpen, _, hlags, hagrees, hyields, -, -⟩ := h.call
  obtain ⟨xs, hxs, hitems⟩ := List.prefix_map_iff.1 (hagrees.items ▸ hlags.begins)
  refine ⟨xs, hitems, hxs.trans ?_⟩
  cases hyields with
  | stop _ => exact List.prefix_rfl
  | again _ _ => exact List.prefix_append _ _

/-- A call that goes through is a step of the decoder. -/
theorem ok (h : D.Reads due items reason left s) {produced : Nat}
    (hresult : (Node.work [some .annotations] s).result = .ok produced) :
    ∃ xs later, ∃ left' < left,
      (Node.work [some .annotations] s).items = xs.map (Item.mk .annotations) ∧
      items = xs ++ later ∧
      D.Reads due later reason left' (Node.work [some .annotations] s).state := by
  obtain ⟨call', m, xss, final, isOpen, calls, hlags, hagrees, hyields, hlasts, hbound⟩ := h.call
  cases hlags with
  | short hstarved _ _ => cases hstarved.symm.trans hresult
  | whole hresult' hitems hstate =>
    have hok := hagrees.result
    rw [← hresult', hresult] at hok
    obtain ⟨m', lines, lines', hs, hs', hcount, hgrown⟩ := hstate
    obtain ⟨served, hserved, _, hserves⟩ := hagrees.state
    cases hyields with
    | stop herror => cases hok.trans herror
    | again _ hrest =>
      obtain ⟨calls, rfl, hlasts'⟩ : ∃ calls', calls = calls' + 1 ∧
          D.step.Lasts (D.step.run (m, xss)).state calls' := by
        cases hlasts with
        | stop herror => cases hok.trans herror
        | again _ hlasts' => exact ⟨_, rfl, hlasts'⟩
      refine ⟨_, _, calls + D.toArrive isOpen due, by omega, hitems.trans hagrees.items, rfl, ?_⟩
      obtain ⟨hnode, hlines⟩ := Prod.mk.inj (hs'.symm.trans hserved)
      obtain rfl := List.map_injective_iff.2 (fun _ _ h => by cases h; rfl) hlines
      have hstart : Node.withLines type D.node m' lines = D.withLines _ lines :=
        congrArg (·, lines.map (Inlet.connected type)) hnode
      rw [hs, hstart]
      exact ⟨_, hcount, hgrown, hserves, hrest, hlasts', le_rfl⟩

/-- A call that fails, but not for want of input, is the last step. -/
theorem error (h : D.Reads due items reason left s) {e : Halt}
    (hresult : (Node.work [some .annotations] s).result = .error e) (he : e ≠ .starved) :
    e = reason ∧ (Node.work [some .annotations] s).items = items.map (Item.mk .annotations) := by
  obtain ⟨call', m, xss, final, isOpen, _, hlags, hagrees, hyields, -, -⟩ := h.call
  cases hlags with
  | short hstarved _ _ =>
    cases hstarved.symm.trans hresult
    exact absurd rfl he
  | whole hresult' hitems _ =>
    have herror := hagrees.result
    rw [← hresult', hresult] at herror
    cases hyields with
    | stop hstop =>
      cases herror.trans hstop
      exact ⟨rfl, hitems.trans hagrees.items⟩
    | again hok _ => cases herror.trans hok

/-- A call that fails for want of input waits at an inlet. -/
theorem starved (h : D.Reads due items reason left s) (hreason : reason ≠ .starved)
    (hresult : (Node.work [some .annotations] s).result = .error .starved) :
    ∃ j < D.count, (Node.work [some .annotations] s).state.2.findIdx? Inlet.isDry = some j := by
  obtain ⟨call', m, xss, final, isOpen, _, hlags, hagrees, hyields, -, -⟩ := h.call
  cases hlags with
  | whole hresult' _ _ =>
    have hsame := hagrees.result
    rw [← hresult', hresult] at hsame
    cases hyields with
    | stop hstop =>
      cases hsame.trans hstop
      exact absurd rfl hreason
    | again hok _ => cases hsame.trans hok
  | short _ _ hstate =>
    obtain ⟨m', lines, hs, hcount, -, r, hr, hdry⟩ := hstate
    have hany : ((D.withLines m' lines).2.findIdx? Inlet.isDry).isSome = true := by
      rw [List.findIdx?_isSome, List.any_eq_true]
      exact ⟨_, List.mem_map_of_mem hr, hdry⟩
    obtain ⟨j, hj⟩ := Option.isSome_iff_exists.1 hany
    obtain ⟨hlt, _⟩ := List.findIdx?_eq_some_iff_getElem.1 hj
    rw [hs]
    exact ⟨j, by simpa [Node.withLines, hcount] using hlt, hj⟩

/-- **Something arrives** at an inlet that the present call waits at, or it becomes known that
nothing will.  What is annotated in the end stays the same, what has been annotated comes first, and
less is still to come. -/
theorem grow (h : D.Reads due items reason left s) {j : Nat} {change : Inlet → Inlet}
    {more rest : List type.Carrier} {closes : Bool}
    (hdry : (Node.work [some .annotations] s).state.2.findIdx? Inlet.isDry = some j)
    (hchange : ∀ r : Receiver type.Carrier,
      change (.connected type r) = .connected type (r.grow more closes))
    (hdue : due j = more ++ rest) (hrest : closes = true → rest = [])
    (hnews : more ≠ [] ∨ closes = true) :
    ∃ left' < left,
      D.Reads (Function.update due j rest) items reason left' (s.1, s.2.modify j change) ∧
      (Node.work [some .annotations] s).items <+:
        (Node.work [some .annotations] (s.1, s.2.modify j change)).items := by
  obtain @⟨m, lines, lines', xss, final, isOpen, calls, count, grown, serves, yields, lasts,
    bound⟩ := h
  have hwrites : Node.writes .annotations [some .annotations] := rfl
  -- The call has waited at this inlet, so its sender was still there when the call began.
  obtain ⟨hj, hopen⟩ : j < D.count ∧ isOpen j = true :=
    (D.lags m hwrites count grown).waits_isOpen hdry
  have hpart : ∀ r r', Receiver.Grown ⟨isOpen j, due j, true⟩ r r' →
      Receiver.Grown ⟨true, more, closes⟩ r (r.grow more closes) ∧
        Receiver.Grown ⟨!closes, rest, true⟩ (r.grow more closes) r' := by
    intro r r' h
    rw [hopen, hdue] at h
    exact h.part hrest
  let lines₁ := lines.modify j (Receiver.grow · more closes)
  have hcount₁ : lines₁.length = D.count := (List.length_modify _ _ _).trans count
  have hstart : ((D.withLines m lines).1, (D.withLines m lines).2.modify j change) =
      D.withLines m lines₁ :=
    congrArg (D.node m, ·) (Inlet.modify_map_connected hchange j lines)
  have hsoon : Linewise
      (fun k => Receiver.Grown (if j = k then ⟨true, more, closes⟩ else ⟨isOpen k, [], false⟩))
      lines lines₁ := by
    refine grown.modify_self (fun r r' h => ?_) fun k hkj r r' h => ?_
    · rw [if_pos rfl]
      exact (hpart r r' h).1
    · rw [if_neg hkj.symm]
      exact h.still
  have hlater : Linewise
      (fun k => Receiver.Grown ⟨Function.update isOpen j (!closes) k, Function.update due j rest k,
        true⟩) lines₁ lines' := by
    refine grown.modify_left (fun r r' h => ?_) fun k hkj r r' h => ?_
    · rw [Function.update_self, Function.update_self]
      exact (hpart r r' h).2
    · rwa [Function.update_of_ne hkj, Function.update_of_ne hkj]
  have hfewer : rest.length + (!closes).toNat < (due j).length + (isOpen j).toNat := by
    have hle := Bool.toNat_le (!closes)
    rw [hdue, hopen, List.length_append, Bool.toNat_true]
    obtain hmore | rfl := hnews
    · have hlt := List.length_pos_iff.2 hmore
      omega
    · rw [Bool.not_true, Bool.toNat_false]
      omega
  have hfewer := toArrive_update_lt hj hfewer
  rw [hstart]
  exact ⟨_, by omega, ⟨m, hcount₁, hlater, serves, yields, lasts, le_rfl⟩,
    (D.lags m hwrites count hsoon).begins⟩

end Reads

end Decoding

end BusDecode
