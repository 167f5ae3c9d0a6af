import BusDecode.LineCursor
import BusDecode.Proofs.CutShort

/-!
# Moves along a line that breaks

A wait or skip on a source that breaks goes as it does on a sound one, with the same answer and to
the same position, unless it comes to the break: then it fails with the fault.  A skip holds the
last level past the end of its source, so here it matters that the fault is not taken for that end.
-/

set_option autoImplicit false

namespace BusDecode

namespace LineCursor

open Source (Abreast Beside Until)

section Unfolding

variable {σ : Type} [Source σ Sample]

/-- What seeking does first. -/
theorem seek_eq (edge : Edge) (deadline : Option Nat) (c : LineCursor) (s : σ) :
    seek edge deadline c s =
      match Source.peek s with
      | (.error e, s') => (.error e, c, s')
      | (.ok next, s') =>
        match deadline.filter (· < next.time) with
        | some late => (.ok false, { c with now := late }, s')
        | none =>
          match Source.recv s' with
          | (.error e, s'') => (.error e, c, s'')
          | (.ok _, s'') =>
            if next.level = c.level then seek edge deadline c s'' else
            let c' := { c with level := next.level, now := max next.time c.now }
            if edge.matches next.level then (.ok true, c', s'') else seek edge deadline c' s'' := by
  rw [seek]
  split <;> rename_i hp <;> simp only [hp]
  cases deadline.filter _ with
  | some late => rfl
  | none =>
    dsimp only
    split <;> rename_i hr <;> simp only [hr]

/-- What advancing does first. -/
theorem advance_eq (target : Nat) (c : LineCursor) (s : σ) :
    advance target c s =
      match Source.peek? s with
      | (.error e, s') => (.error e, c, s')
      | (.ok none, s') => (.ok c.level, { c with now := target }, s')
      | (.ok (some next), s') =>
        if target < next.time then (.ok c.level, { c with now := target }, s') else
        if next.time = target then (.ok next.level, { c with now := target }, s') else
        match Source.recv s' with
        | (.error e, s'') => (.error e, c, s'')
        | (.ok _, s'') => advance target { c with level := next.level } s'' := by
  rw [advance]
  split <;> rename_i hp <;> simp only [hp]
  split
  · rfl
  split
  · rfl
  split <;> rename_i hr <;> simp only [hr]

/-- What is left to read once an item that was looked at has been taken. -/
theorem size_after_look {α : Type} {s s' s'' : σ} {looked : Except Halt α × σ} {r : Except Halt α}
    {x : Sample} (hle : Source.size looked.2 ≤ Source.size s) (hs : looked = (r, s'))
    (hs' : Source.recv s' = (.ok x, s'')) : Source.size s'' < Source.size s := by
  have hlt := Source.size_recv_lt (congrArg Prod.fst hs')
  rw [hs'] at hlt
  rw [hs] at hle
  exact Nat.lt_of_lt_of_le hlt hle

end Unfolding

variable {σ τ : Type} [Source σ Sample] [Source τ Sample] {fault : Halt} {lost : σ → Prop}
  {K : σ → τ → Prop} {s : σ} {t : τ}

theorem prime_until (hK : Until fault lost K) (c : LineCursor) (h : K s t) :
    Abreast fault (fun p => lost p.2) (Beside K) (prime c s) (prime c t) := by
  unfold prime
  split
  · exact .inl ⟨rfl, rfl, h⟩
  · obtain ⟨r, s', t', hs, ht, hrel⟩ | ⟨s', hs, hlost⟩ := (hK.recv s t h).cases
    · rw [hs, ht]
      cases r <;> exact .inl ⟨rfl, rfl, hrel⟩
    · rw [hs]
      exact .inr ⟨rfl, hlost⟩

theorem seek_until (hK : Until fault lost K) (edge : Edge) (deadline : Option Nat)
    (c : LineCursor) (h : K s t) :
    Abreast fault (fun p => lost p.2) (Beside K) (seek edge deadline c s)
      (seek edge deadline c t) := by
  induction hn : Source.size s using Nat.strongRecOn generalizing c s t with
  | ind n ih =>
    subst hn
    rw [seek_eq edge deadline c s, seek_eq edge deadline c t]
    obtain ⟨r, s', t', hs, ht, hrel⟩ | ⟨s', hs, hlost⟩ := (hK.peek s t h).cases
    case inr =>
      rw [hs]
      exact .inr ⟨rfl, hlost⟩
    rw [hs, ht]
    cases r with
    | error e => exact .inl ⟨rfl, rfl, hrel⟩
    | ok next =>
      dsimp only
      split
      · exact .inl ⟨rfl, rfl, hrel⟩
      obtain ⟨r, s'', t'', hs', ht', hrel'⟩ | ⟨s'', hs', hlost⟩ := (hK.recv s' t' hrel).cases
      case inr =>
        rw [hs']
        exact .inr ⟨rfl, hlost⟩
      rw [hs', ht']
      cases r with
      | error e => exact .inl ⟨rfl, rfl, hrel'⟩
      | ok x =>
        have hfewer := size_after_look (Source.size_peek_le s) hs hs'
        dsimp only
        split
        · exact ih _ hfewer _ hrel' rfl
        split
        · exact .inl ⟨rfl, rfl, hrel'⟩
        · exact ih _ hfewer _ hrel' rfl

theorem waitEdge_until (hK : Until fault lost K) (edge : Edge) (budget : Option Nat)
    (c : LineCursor) (h : K s t) :
    Abreast fault (fun p => lost p.2) (Beside K) (waitEdge edge budget c s)
      (waitEdge edge budget c t) := by
  unfold waitEdge
  obtain ⟨r, ⟨c', s'⟩, ⟨_, t'⟩, hs, ht, rfl, hrel⟩ | ⟨⟨c', s'⟩, hs, hlost⟩ :=
    (prime_until hK c h).cases
  · rw [hs, ht]
    cases r with
    | error e => exact .inl ⟨rfl, rfl, hrel⟩
    | ok _ => exact seek_until hK edge _ c' hrel
  · rw [hs]
    exact .inr ⟨rfl, hlost⟩

theorem advance_until (hK : Until fault lost K) (hfault : fault ≠ .endOfStream) (target : Nat)
    (c : LineCursor) (h : K s t) :
    Abreast fault (fun p => lost p.2) (Beside K) (advance target c s) (advance target c t) := by
  induction hn : Source.size s using Nat.strongRecOn generalizing c s t with
  | ind n ih =>
    subst hn
    rw [advance_eq target c s, advance_eq target c t]
    obtain ⟨r, s', t', hs, ht, hrel⟩ | ⟨s', hs, hlost⟩ := (hK.peek? hfault h).cases
    case inr =>
      rw [hs]
      exact .inr ⟨rfl, hlost⟩
    rw [hs, ht]
    rcases r with e | _ | next
    · exact .inl ⟨rfl, rfl, hrel⟩
    · exact .inl ⟨rfl, rfl, hrel⟩
    dsimp only
    split
    · exact .inl ⟨rfl, rfl, hrel⟩
    split
    · exact .inl ⟨rfl, rfl, hrel⟩
    obtain ⟨r, s'', t'', hs', ht', hrel'⟩ | ⟨s'', hs', hlost⟩ := (hK.recv s' t' hrel).cases
    case inr =>
      rw [hs']
      exact .inr ⟨rfl, hlost⟩
    rw [hs', ht']
    cases r with
    | error e => exact .inl ⟨rfl, rfl, hrel'⟩
    | ok x => exact ih _ (size_after_look (Source.size_peek?_le s) hs hs') _ hrel' rfl

theorem skip_until (hK : Until fault lost K) (hfault : fault ≠ .endOfStream) (count : Nat)
    (c : LineCursor) (h : K s t) :
    Abreast fault (fun p => lost p.2) (Beside K) (skip count c s) (skip count c t) := by
  unfold skip
  obtain ⟨r, ⟨c', s'⟩, ⟨_, t'⟩, hs, ht, rfl, hrel⟩ | ⟨⟨c', s'⟩, hs, hlost⟩ :=
    (prime_until hK c h).cases
  · rw [hs, ht]
    cases r with
    | error e => exact .inl ⟨rfl, rfl, hrel⟩
    | ok _ => exact advance_until hK hfault _ c' hrel
  · rw [hs]
    exact .inr ⟨rfl, hlost⟩

end LineCursor

end BusDecode
