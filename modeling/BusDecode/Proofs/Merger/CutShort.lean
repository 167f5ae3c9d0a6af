import BusDecode.Proofs.CutShort
import BusDecode.Proofs.Merger

/-!
# Merging lines that break

A step of the merger on lines that may break goes as it does on sound ones, unless it comes to the
break of a line: then it fails with the fault (`next_until`).  Each line has a relation of its own
to the sound one, which it keeps until it breaks.
-/

set_option autoImplicit false

namespace BusDecode

variable {σ τ : Type}

/-! ## Line by line -/

/-- Lists of lines of which each is related to its counterpart in its own way. -/
structure Linewise (K : Nat → σ → τ → Prop) (ss : List σ) (ts : List τ) : Prop where
  length : ss.length = ts.length
  rel : ∀ (j : Nat) s t, ss[j]? = some s → ts[j]? = some t → K j s t

namespace Linewise

variable {K : Nat → σ → τ → Prop} {s : σ} {t : τ} {ss : List σ} {ts : List τ}

theorem nil : Linewise K [] [] :=
  ⟨rfl, by simp⟩

theorem cons (h : K 0 s t) (hrest : Linewise (fun j => K (j + 1)) ss ts) :
    Linewise K (s :: ss) (t :: ts) where
  length := congrArg (· + 1) hrest.length
  rel j _ _ hs ht := by
    cases j with
    | zero =>
      obtain rfl := Option.some.inj hs
      obtain rfl := Option.some.inj ht
      exact h
    | succ j => exact hrest.rel j _ _ hs ht

theorem head (h : Linewise K (s :: ss) (t :: ts)) : K 0 s t :=
  h.rel 0 s t rfl rfl

theorem tail (h : Linewise K (s :: ss) (t :: ts)) : Linewise (fun j => K (j + 1)) ss ts where
  length := Nat.succ.inj h.length
  rel j _ _ hs ht := h.rel (j + 1) _ _ hs ht

/-- One of the first lines changes, and with it what relates it to its counterpart. -/
theorem modify_left {L : Nat → σ → τ → Prop} {j : Nat} {f : σ → σ} (h : Linewise K ss ts)
    (hat : ∀ s t, K j s t → L j (f s) t) (hothers : ∀ k ≠ j, ∀ s t, K k s t → L k s t) :
    Linewise L (ss.modify j f) ts where
  length := (List.length_modify _ _ _).trans h.length
  rel k s' t hs' ht := by
    obtain ⟨s, hs⟩ : ∃ s, ss[k]? = some s :=
      ⟨_, List.getElem?_eq_getElem (h.length ▸ (List.getElem?_eq_some_iff.1 ht).1)⟩
    have hrel := h.rel k s t hs ht
    rw [List.getElem?_modify, hs, Option.map_eq_map, Option.map_some] at hs'
    by_cases hjk : j = k
    · subst hjk
      rw [if_pos rfl] at hs'
      cases hs'
      exact hat s t hrel
    · rw [if_neg hjk] at hs'
      cases hs'
      exact hothers k (Ne.symm hjk) _ _ hrel

/-- Lines before and after one of them changes, when each line is known from its counterpart. -/
theorem modify_self {L : Nat → σ → σ → Prop} {j : Nat} {f : σ → σ} (h : Linewise K ss ts)
    (hat : ∀ s t, K j s t → L j s (f s)) (hothers : ∀ k ≠ j, ∀ s t, K k s t → L k s s) :
    Linewise L ss (ss.modify j f) where
  length := (List.length_modify _ _ _).symm
  rel k s s' hs hs' := by
    obtain ⟨t, ht⟩ : ∃ t, ts[k]? = some t :=
      ⟨_, List.getElem?_eq_getElem (h.length ▸ (List.getElem?_eq_some_iff.1 hs).1)⟩
    have hrel := h.rel k s t hs ht
    rw [List.getElem?_modify, hs, Option.map_eq_map, Option.map_some] at hs'
    by_cases hjk : j = k
    · subst hjk
      rw [if_pos rfl] at hs'
      cases hs'
      exact hat s t hrel
    · rw [if_neg hjk] at hs'
      cases hs'
      exact hothers k (Ne.symm hjk) _ _ hrel

end Linewise

/-- A number of lines of which each is still related to some sound one, or has broken, as some line
has. -/
structure Spoilt (K : Nat → σ → τ → Prop) (lost : Nat → σ → Prop) (count : Nat) (ss : List σ) :
    Prop where
  length : ss.length = count
  rel : ∀ (j : Nat) s, ss[j]? = some s → (∃ t, K j s t) ∨ lost j s
  broken : ∃ (j : Nat) (s : σ), ss[j]? = some s ∧ lost j s

namespace Spoilt

variable {K : Nat → σ → τ → Prop} {lost : Nat → σ → Prop} {s : σ} {t : τ} {ss : List σ}
  {ts : List τ} {count : Nat}

/-- The first line has broken, the others have not been read. -/
theorem here (h : lost 0 s) (hrest : Linewise (fun j => K (j + 1)) ss ts) :
    Spoilt K lost (ts.length + 1) (s :: ss) where
  length := congrArg (· + 1) hrest.length
  rel j s' hs := by
    cases j with
    | zero =>
      obtain rfl := Option.some.inj hs
      exact .inr h
    | succ j =>
      have hs' : ss[j]? = some s' := hs
      have hlt : j < ts.length := hrest.length ▸ (List.getElem?_eq_some_iff.1 hs').1
      exact .inl ⟨ts[j], hrest.rel j s' _ hs' (List.getElem?_eq_getElem hlt)⟩
  broken := ⟨0, s, rfl, h⟩

/-- A line behind the first one has broken. -/
theorem beyond (h : K 0 s t)
    (hrest : Spoilt (fun j => K (j + 1)) (fun j => lost (j + 1)) count ss) :
    Spoilt K lost (count + 1) (s :: ss) where
  length := congrArg (· + 1) hrest.length
  rel j _ hs := by
    cases j with
    | zero =>
      obtain rfl := Option.some.inj hs
      exact .inl ⟨t, h⟩
    | succ j => exact hrest.rel j _ hs
  broken := by
    obtain ⟨j, s', hs, hlost⟩ := hrest.broken
    exact ⟨j + 1, s', hs, hlost⟩

end Spoilt

namespace Merger

/-! ## The number of lines -/

section Length

variable [Source σ Sample]

theorem length_earliest (ss : List σ) : (earliest ss).2.1.length = ss.length := by
  induction ss with
  | nil => rfl
  | cons s ss ih =>
    unfold earliest
    split
    · rfl
    · split <;> rename_i hrest <;> rw [hrest] at ih <;> exact congrArg (· + 1) ih

theorem length_drain (time line : Nat) (pins : UInt16) (ss : List σ) :
    (drain time line pins ss).2.2.1.length = ss.length := by
  induction ss generalizing line pins with
  | nil => rfl
  | cons s ss ih =>
    unfold drain
    split
    · rfl
    · exact congrArg (· + 1) (ih _ _)

/-- A step takes samples and keeps the lines. -/
theorem length_next (m : Merger) (ss : List σ) : (m.next ss).2.2.1.length = ss.length := by
  have hearliest := length_earliest ss
  unfold next
  split <;> rename_i hrun <;> rw [hrun] at hearliest
  · exact hearliest
  · exact hearliest
  · exact (length_drain _ _ _ _).trans hearliest

end Length

variable [Source σ Sample] [Source τ Sample] {fault : Halt}

/-! ## One line -/

section Line

open Source (Breaks)

variable {lost : σ → Prop} {K : σ → τ → Prop} {s : σ} {t : τ}

theorem headTime_until (hK : Breaks fault lost K) (hfault : fault ≠ .endOfStream) (h : K s t) :
    (∃ r s' t' told, headTime s = (r, s', told) ∧ headTime t = (r, t', told) ∧ K s' t') ∨
      ∃ s', headTime s = (.error fault, s', []) ∧ lost s' := by
  unfold headTime
  obtain ⟨r, s', t', hs, ht, hrel⟩ | ⟨s', hs, hlost⟩ := (hK.peek? hfault h).cases
  · obtain ⟨hevents, hrel'⟩ := hK.takeEvents s' t' hrel
    rw [hs, ht]
    dsimp only
    rw [hevents]
    exact .inl ⟨_, _, _, _, rfl, rfl, hrel'⟩
  · rw [hs]
    dsimp only
    rw [hK.silent s' hlost]
    exact .inr ⟨s', rfl, hlost⟩

theorem drainLine_until (hK : Breaks fault lost K) (hfault : fault ≠ .endOfStream)
    (line time : Nat) (pins : UInt16) (told : List Event) (h : K s t) :
    (∃ r pins' s' t' told', drainLine line time pins s told = (r, pins', s', told') ∧
        drainLine line time pins t told = (r, pins', t', told') ∧ K s' t') ∨
      ∃ pins' s' told', drainLine line time pins s told = (.error fault, pins', s', told') ∧
        lost s' := by
  induction hn : Source.size s using Nat.strongRecOn generalizing s t pins told with
  | ind n ih =>
    subst hn
    rw [drainLine_eq line time pins s, drainLine_eq line time pins t]
    obtain ⟨r, s', t', told', hs, ht, hrel⟩ | ⟨s', hs, hlost⟩ := headTime_until hK hfault h
    case inr =>
      rw [hs]
      exact .inr ⟨_, _, _, rfl, hlost⟩
    rw [hs, ht]
    rcases r with e | _ | head
    · exact .inl ⟨_, _, _, _, _, rfl, rfl, hrel⟩
    · exact .inl ⟨_, _, _, _, _, rfl, rfl, hrel⟩
    dsimp only
    split
    · exact .inl ⟨_, _, _, _, _, rfl, rfl, hrel⟩
    obtain ⟨r, s'', t'', hs', ht', hrel'⟩ | ⟨s'', hs', hlost⟩ := (hK.recv s' t' hrel).cases
    case inr =>
      rw [hs']
      exact .inr ⟨_, _, _, rfl, hlost⟩
    rw [hs', ht']
    cases r with
    | error e => exact .inl ⟨_, _, _, _, _, rfl, rfl, hrel'⟩
    | ok x =>
      have hhead := size_headTime_le s
      have hfewer := Source.size_recv_lt (congrArg Prod.fst hs')
      rw [hs] at hhead
      rw [hs'] at hfewer
      exact ih _ (Nat.lt_of_lt_of_le hfewer hhead) _ _ hrel' rfl

end Line

/-! ## All lines -/

variable {lost : Nat → σ → Prop} {K : Nat → σ → τ → Prop} {ss : List σ} {ts : List τ}

theorem earliest_until (hK : ∀ j, Source.Breaks fault (lost j) (K j))
    (hfault : fault ≠ .endOfStream) (h : Linewise K ss ts) :
    (∃ r ss' ts' told, earliest ss = (r, ss', told) ∧ earliest ts = (r, ts', told) ∧
        Linewise K ss' ts') ∨
      ∃ ss' told, earliest ss = (.error fault, ss', told) ∧ Spoilt K lost ts.length ss' := by
  induction ss generalizing ts K lost with
  | nil =>
    obtain rfl : ts = [] := List.eq_nil_of_length_eq_zero h.length.symm
    exact .inl ⟨_, _, _, _, rfl, rfl, .nil⟩
  | cons s ss ih =>
    obtain ⟨t, ts, rfl⟩ := List.exists_cons_of_length_eq_add_one h.length.symm
    simp only [earliest]
    obtain ⟨r, s', t', told, hs, ht, hrel⟩ | ⟨s', hs, hlost⟩ := headTime_until (hK 0) hfault h.head
    case inr =>
      rw [hs]
      exact .inr ⟨_, _, rfl, .here hlost h.tail⟩
    rw [hs, ht]
    cases r with
    | error e => exact .inl ⟨_, _, _, _, rfl, rfl, .cons hrel h.tail⟩
    | ok head =>
      obtain ⟨r, ss', ts', told', hss, hts, hrels⟩ | ⟨ss', told', hss, hspoilt⟩ :=
        ih (fun j => hK (j + 1)) h.tail
      · dsimp only
        rw [hss, hts]
        cases r <;> exact .inl ⟨_, _, _, _, rfl, rfl, .cons hrel hrels⟩
      · dsimp only
        rw [hss]
        exact .inr ⟨_, _, rfl, .beyond hrel hspoilt⟩

theorem drain_until (hK : ∀ j, Source.Breaks fault (lost j) (K j))
    (hfault : fault ≠ .endOfStream) (time line : Nat) (pins : UInt16) (h : Linewise K ss ts) :
    (∃ r pins' ss' ts' told, drain time line pins ss = (r, pins', ss', told) ∧
        drain time line pins ts = (r, pins', ts', told) ∧ Linewise K ss' ts') ∨
      ∃ pins' ss' told, drain time line pins ss = (.error fault, pins', ss', told) ∧
        Spoilt K lost ts.length ss' := by
  induction ss generalizing ts K lost line pins with
  | nil =>
    obtain rfl : ts = [] := List.eq_nil_of_length_eq_zero h.length.symm
    exact .inl ⟨_, _, _, _, _, rfl, rfl, .nil⟩
  | cons s ss ih =>
    obtain ⟨t, ts, rfl⟩ := List.exists_cons_of_length_eq_add_one h.length.symm
    simp only [drain]
    obtain ⟨r, pins', s', t', told, hs, ht, hrel⟩ | ⟨pins', s', told, hs, hlost⟩ :=
      drainLine_until (hK 0) hfault line time pins [] h.head
    case inr =>
      rw [hs]
      exact .inr ⟨_, _, _, rfl, .here hlost h.tail⟩
    rw [hs, ht]
    cases r with
    | error e => exact .inl ⟨_, _, _, _, _, rfl, rfl, .cons hrel h.tail⟩
    | ok _ =>
      obtain ⟨r, pins'', ss', ts', told', hss, hts, hrels⟩ | ⟨pins'', ss', told', hss, hspoilt⟩ :=
        ih (fun j => hK (j + 1)) (line + 1) pins' h.tail
      · dsimp only
        rw [hss, hts]
        exact .inl ⟨_, _, _, _, _, rfl, rfl, .cons hrel hrels⟩
      · dsimp only
        rw [hss]
        exact .inr ⟨_, _, _, rfl, .beyond hrel hspoilt⟩

/-- **A step of the merger** on lines that may break is the step on the sound ones, or is cut short
by the fault. -/
theorem next_until (hK : ∀ j, Source.Breaks fault (lost j) (K j)) (hfault : fault ≠ .endOfStream)
    (m : Merger) (h : Linewise K ss ts) :
    (∃ r m' ss' ts' told, m.next ss = (r, m', ss', told) ∧ m.next ts = (r, m', ts', told) ∧
        Linewise K ss' ts') ∨
      ∃ m' ss' told, m.next ss = (.error fault, m', ss', told) ∧ Spoilt K lost ts.length ss' := by
  unfold next
  obtain ⟨r, ss', ts', told, hs, ht, hrel⟩ | ⟨ss', told, hs, hspoilt⟩ := earliest_until hK hfault h
  case inr =>
    rw [hs]
    exact .inr ⟨_, _, _, rfl, hspoilt⟩
  rw [hs, ht]
  rcases r with e | _ | time
  · exact .inl ⟨_, _, _, _, _, rfl, rfl, hrel⟩
  · exact .inl ⟨_, _, _, _, _, rfl, rfl, hrel⟩
  dsimp only
  have hcount : ts'.length = ts.length := by
    rw [← length_earliest ts, ht]
  obtain ⟨r, pins', ss'', ts'', told', hss, hts, hrels⟩ | ⟨pins', ss'', told', hss, hspoilt⟩ :=
    drain_until hK hfault time 0 m.pins hrel
  · rw [hss, hts]
    exact .inl ⟨_, _, _, _, _, rfl, rfl, hrels⟩
  · rw [hss]
    exact .inr ⟨_, _, _, rfl, hcount ▸ hspoilt⟩

end Merger

end BusDecode
