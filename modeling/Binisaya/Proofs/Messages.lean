import Binisaya.Proofs.DebugLevel
import Binisaya.Proofs.Stepwise.Follow

/-! Debug messages among the effects of a run. They go to the log, or behind the output once the log is closed, and to
nothing else. An expression takes no notice of either, so at any level it has the value, the failure and the effect that
it has without messages, and these come on top. -/

namespace Binisaya

open Exec Stepwise

theorem Message.threshold_pos (msg : Message) : 0 < msg.threshold := by
  cases msg <;> simp [threshold]

namespace Machine

/-- The machine after messages were written: they are in the log if it is open, and behind the output if not. -/
def withMessages (m : Machine) (msgs : List Message) : Machine :=
  if m.logging then { m with log := m.log ++ msgs.toArray }
  else { m with output := m.output ++ String.join (msgs.map Message.line) }

variable {cfg : Settings} {m m' m'' : Machine}

@[simp]
theorem withMessages_nil (m : Machine) : m.withMessages [] = m := by
  unfold withMessages
  split_ifs <;> simp

theorem withMessages_append (m : Machine) (msgs more : List Message) :
    (m.withMessages msgs).withMessages more = m.withMessages (msgs ++ more) := by
  by_cases hlogging : m.logging = true
  · simp [withMessages, hlogging, Array.append_assoc]
  · simp [withMessages, hlogging, String.append_assoc]

theorem withMessages_of_logging (h : m.logging = true) (msgs : List Message) :
    m.withMessages msgs = { m with log := (m.withMessages msgs).log } := by
  rw [withMessages, if_pos h]

theorem withMessages_scope (m : Machine) (s : Scope) (msgs : List Message) :
    { m with scope := s }.withMessages msgs = { m.withMessages msgs with scope := s } := by
  unfold withMessages
  split_ifs <;> rfl

theorem withMessages_unread (m : Machine) (rest : List Char) (msgs : List Message) :
    { m with unread := rest }.withMessages msgs = { m.withMessages msgs with unread := rest } := by
  unfold withMessages
  split_ifs <;> rfl

/-- The second machine is the first one after messages for which the level is high enough. -/
def Notes (cfg : Settings) (m m' : Machine) : Prop :=
  ∃ msgs : List Message, (∀ msg ∈ msgs, msg.threshold ≤ cfg.level) ∧ m' = m.withMessages msgs

theorem Notes.refl (cfg : Settings) (m : Machine) : m.Notes cfg m :=
  ⟨[], List.forall_mem_nil _, m.withMessages_nil.symm⟩

theorem Notes.trans (h : m.Notes cfg m') (h' : m'.Notes cfg m'') : m.Notes cfg m'' := by
  obtain ⟨msgs, hmsgs, rfl⟩ := h
  obtain ⟨more, hmore, rfl⟩ := h'
  exact ⟨msgs ++ more, List.forall_mem_append.2 ⟨hmsgs, hmore⟩, m.withMessages_append msgs more⟩

theorem Notes.noted (cfg : Settings) (msg : Message) (m : Machine) : m.Notes cfg (noted cfg msg m) := by
  unfold Stepwise.noted
  split_ifs with hlevel hlogging
  · refine ⟨[msg], List.forall_mem_singleton.2 hlevel, ?_⟩
    simp [withMessages, hlogging]
  · refine ⟨[msg], List.forall_mem_singleton.2 hlevel, ?_⟩
    simp [withMessages, hlogging]
  · exact Notes.refl cfg m

theorem Notes.withScope (h : m.Notes cfg m') (s : Scope) : { m with scope := s }.Notes cfg { m' with scope := s } := by
  obtain ⟨msgs, hmsgs, rfl⟩ := h
  exact ⟨msgs, hmsgs, (m.withMessages_scope s msgs).symm⟩

theorem Notes.withUnread (h : m.Notes cfg m') (rest : List Char) :
    { m with unread := rest }.Notes cfg { m' with unread := rest } := by
  obtain ⟨msgs, hmsgs, rfl⟩ := h
  exact ⟨msgs, hmsgs, (m.withMessages_unread rest msgs).symm⟩

/-- At level 0 there are no messages. -/
theorem Notes.eq_of_level_zero (h : m.Notes cfg m') (hlevel : cfg.level = 0) : m' = m := by
  obtain ⟨msgs, hmsgs, rfl⟩ := h
  cases msgs with
  | nil => exact m.withMessages_nil
  | cons msg rest =>
      have hthreshold := hmsgs msg List.mem_cons_self
      have hpos := msg.threshold_pos
      omega

/-- Where messages go to the log, nothing else changes. -/
theorem Notes.eq_of_keepsOutput (h : m.Notes cfg m') (hm : m.KeepsOutput cfg) : m' = { m with log := m'.log } := by
  rcases hm with hlevel | hlogging
  · rw [h.eq_of_level_zero hlevel]
  · obtain ⟨msgs, -, rfl⟩ := h
    exact withMessages_of_logging hlogging msgs

/-- Messages change neither the variables nor their types nor the input. -/
theorem Notes.same (h : m.Notes cfg m') : m'.scope = m.scope ∧ m'.types = m.types ∧ m'.unread = m.unread := by
  obtain ⟨msgs, -, rfl⟩ := h
  unfold withMessages
  split_ifs <;> exact ⟨rfl, rfl, rfl⟩

end Machine

open Machine

/-- The settings without messages. -/
def Settings.silent (cfg : Settings) : Settings := { cfg with level := 0 }

/-- What an expression does at some level is what it does without messages, and these on top. -/
theorem expressionsAlike_silent (cfg : Settings) :
    ExpressionsAlike cfg cfg.silent (fun m₁ m₂ => m₂.Notes cfg m₁) fun _ => True where
  note msg m₁ m₂ hm := by
    rw [note_apply, note_of_level_zero rfl]
    exact .done () (hm.trans (Notes.noted cfg msg m₁))
  lookup _ := by
    refine alike_lookup fun m₁ m₂ hm => ?_
    rw [hm.same.1]
  assign _ v := by
    refine alike_modify fun m₁ m₂ hm => ?_
    rw [hm.same.1]
    exact hm.withScope _

/-- Without messages an expression changes the variables and nothing else. -/
theorem expressionsAlike_scope {cfg : Settings} (hlevel : cfg.level = 0) (m : Machine) :
    ExpressionsAlike cfg cfg (fun m₁ m₂ => m₁ = m₂ ∧ ∃ s, m₁ = { m with scope := s }) fun _ => True where
  note msg m₁ m₂ hm := by
    rw [note_of_level_zero hlevel]
    exact .done () hm
  lookup _ := by
    refine alike_lookup fun m₁ m₂ hm => ?_
    rw [hm.1]
  assign _ v := by
    apply alike_modify
    rintro m₁ _ ⟨rfl, s, rfl⟩
    exact ⟨rfl, _, rfl⟩

end Binisaya
