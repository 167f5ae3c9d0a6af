import BusDecode.Channel.Receiver
import BusDecode.LineCursor
import BusDecode.Proofs.Rows
import BusDecode.Updi.SystemInfo

/-!
# Messages in the journal

The journal of a decoder has its own messages, which begin with its name (`Event.Says`), and those
of the line it reads: whatever a source may report of itself while it is read (`Source.Reports`).
A cursor that moves along a line adds nothing to that.
-/

set_option autoImplicit false

namespace BusDecode

namespace Event

/-- The message begins with certain words, behind the name of who tells it. -/
def Says (name lead : String) (e : Event) : Prop :=
  s!"[{name}] {lead}".toList <+: e.message.toList

instance (name lead : String) (e : Event) : Decidable (Says name lead e) :=
  inferInstanceAs (Decidable (_ <+: _))

variable {name lead other message : String} {severity : Severity}

theorem says_told :
    Says name lead (told name severity message) ↔ lead.toList <+: message.toList := by
  simp only [Says, told, String.toList_append, List.prefix_append_right_inj]
  exact Iff.rfl

theorem not_says_told (h : other.toList <+: message.toList)
    (hapart : Apart lead other) : ¬Says name lead (told name severity message) := by
  rw [says_told]
  exact hapart.not_initial h

end Event

namespace Source

/-- An event that a source may report of itself while it is read. -/
inductive Reports {σ α : Type} [Source σ α] (e : Event) : σ → Prop
  | now {s : σ} (h : e ∈ (takeEvents s).1) : Reports e s
  | later {s : σ} (h : Reports e (takeEvents s).2) : Reports e s
  | recv {s : σ} (h : Reports e (recv s).2) : Reports e s
  | peek {s : σ} (h : Reports e (peek s).2) : Reports e s

/-- A list reports nothing. -/
theorem not_reports_list {α : Type} (e : Event) (xs : List α) : ¬Reports e xs := by
  intro h
  induction h with
  | now h => cases h
  | later _ ih => exact ih
  | recv _ ih => exact ih
  | peek _ ih => exact ih

end Source

namespace Receiver

variable {α : Type} {e : Event} {r : Receiver α}

theorem journal_pull (h : e ∈ r.pull.2.journal) :
    e ∈ r.journal ∨ "Receiver - ".toList <+: e.message.toList := by
  have hadded : ∀ message : String, "Receiver - ".toList <+: message.toList →
      e ∈ r.journal ++ [⟨.debug, message⟩] →
      e ∈ r.journal ∨ "Receiver - ".toList <+: e.message.toList := by
    intro message hmessage he
    refine (List.mem_append.1 he).imp_right fun hnew => ?_
    rw [List.mem_singleton.1 hnew]
    exact hmessage
  unfold pull at h
  split at h
  · exact .inl h
  · exact hadded _ (by decide) h
  · split at h
    · exact .inl h
    · exact hadded _ (by decide) h

theorem journal_recv (h : e ∈ r.recv.2.journal) :
    e ∈ r.journal ∨ "Receiver - ".toList <+: e.message.toList := by
  unfold recv at h
  split at h
  · exact .inl h
  · split at h
    · exact .inl h
    · exact journal_pull h

theorem journal_peek (h : e ∈ r.peek.2.journal) :
    e ∈ r.journal ∨ "Receiver - ".toList <+: e.message.toList := by
  unfold peek at h
  split at h
  · exact .inl h
  · split at h
    · exact .inl h
    · split at h
      · rename_i hpull
        exact journal_pull (hpull ▸ h)
      · rename_i hpull
        exact journal_pull (hpull ▸ h)

/-- Whatever a receiver reports was in its journal before, or says who tells it. -/
theorem reports_named (h : Source.Reports e r) :
    e ∈ r.journal ∨ "Receiver - ".toList <+: e.message.toList := by
  induction h with
  | now h => exact .inl h
  | later _ ih => exact .inr (ih.resolve_left List.not_mem_nil)
  | recv _ ih => exact ih.elim journal_recv .inr
  | peek _ ih => exact ih.elim journal_peek .inr

end Receiver

namespace LineCursor

open Source (Reports)

variable {σ : Type} [Source σ Sample] {e : Event} {c : LineCursor} {s : σ}

theorem reports_prime (h : Reports e (prime c s).2.2) : Reports e s := by
  unfold prime at h
  split at h
  · exact h
  · split at h
    · rename_i first s' hr
      exact .recv (hr ▸ h)
    · rename_i halt s' hr
      exact .recv (hr ▸ h)

theorem reports_seek {edge : Edge} {deadline : Option Nat}
    (h : Reports e (seek edge deadline c s).2.2) : Reports e s := by
  fun_induction seek edge deadline c s with
  | case1 c s halt s' hp => exact .peek (hp ▸ h)
  | case2 c s next s' hp late hd => exact .peek (hp ▸ h)
  | case3 c s next s' hp hd halt s'' hr => exact .peek (hp ▸ .recv (hr ▸ h))
  | case4 c s next s' hp hd x s'' hr hlt hlevel ih => exact .peek (hp ▸ .recv (hr ▸ ih h))
  | case5 c s next s' hp hd x s'' hr hlt hlevel c' hm => exact .peek (hp ▸ .recv (hr ▸ h))
  | case6 c s next s' hp hd x s'' hr hlt hlevel c' hm ih => exact .peek (hp ▸ .recv (hr ▸ ih h))

theorem reports_advance {target : Nat} (h : Reports e (advance target c s).2.2) :
    Reports e s := by
  have hlooked : ∀ {s : σ}, Reports e (Source.peek? s).2 → Reports e s := by
    intro s h
    rw [Source.peek?_snd] at h
    exact .peek h
  fun_induction advance target c s with
  | case1 c s halt s' hp => exact hlooked (hp ▸ h)
  | case2 c s s' hp => exact hlooked (hp ▸ h)
  | case3 c s next s' hp hlt => exact hlooked (hp ▸ h)
  | case4 c s next s' hp hlt heq => exact hlooked (hp ▸ h)
  | case5 c s next s' hp hlt heq halt s'' hr => exact hlooked (hp ▸ .recv (hr ▸ h))
  | case6 c s next s' hp hlt heq x s'' hr hless ih => exact hlooked (hp ▸ .recv (hr ▸ ih h))

theorem reports_waitEdge {edge : Edge} {budget : Option Nat}
    (h : Reports e (waitEdge edge budget c s).2.2) : Reports e s := by
  refine reports_prime (c := c) ?_
  unfold waitEdge at h
  generalize prime c s = primed at h ⊢
  rcases primed with ⟨_ | _, c', s'⟩
  · exact h
  · exact reports_seek h

theorem reports_skip {count : Nat} (h : Reports e (skip count c s).2.2) : Reports e s := by
  refine reports_prime (c := c) ?_
  unfold skip at h
  generalize prime c s = primed at h ⊢
  rcases primed with ⟨_ | _, c', s'⟩
  · exact h
  · exact reports_advance h

end LineCursor

/-- Whatever cannot be read in a system information block, its field is named. -/
theorem Updi.SystemInfo.parse_named {bytes : List UInt8} {e : DecodeError}
    (h : parse bytes = .error e) : "SIB ".toList <+: e.message.toList := by
  have hascii : ∀ field bs, ascii field bs = .error (.nonAscii field) ∨
      ∃ cs, ascii field bs = .ok cs := by
    intro field bs
    unfold ascii
    split
    · exact .inr ⟨_, rfl⟩
    · exact .inl rfl
  have hnamed : ∀ field : String, "SIB ".toList <+: field.toList →
      "SIB ".toList <+: (DecodeError.nonAscii field).message.toList :=
    fun _ hfield => hfield.trans (toList_initial _ _)
  unfold parse at h
  rcases hascii "SIB family" (bytes.take 7) with hf | ⟨f, hf⟩
  · rw [hf] at h
    cases h
    exact hnamed _ (by decide)
  rcases hascii "SIB NVM version" ((bytes.drop 8).take 3) with hn | ⟨n, hn⟩
  · rw [hf, hn] at h
    cases h
    exact hnamed _ (by decide)
  rcases hascii "SIB OCD version" ((bytes.drop 11).take 3) with ho | ⟨o, ho⟩
  · rw [hf, hn, ho] at h
    cases h
    exact hnamed _ (by decide)
  rcases hascii "SIB debug oscillator" ((bytes.drop 15).take 1) with hd | ⟨d, hd⟩
  · rw [hf, hn, ho, hd] at h
    cases h
    exact hnamed _ (by decide)
  · rw [hf, hn, ho, hd] at h
    cases h

end BusDecode
