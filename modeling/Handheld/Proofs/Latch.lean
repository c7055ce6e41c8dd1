import Mathlib.Data.List.Induction

/-!
# Latches

A latch is set by some events and cleared by others.  Whether it is set after a history depends on
the last event that touched it, so it can be read off the history: some event set it and none since
has cleared it.  The state in which an event happens may decide whether the event sets the latch.
-/

namespace Handheld

variable {σ ε : Type}

/-- In the history `es` from `s` on, some event set the latch and none since has cleared it. -/
def SetSince (step : σ → ε → σ) (sets : σ → ε → Prop) (clears : ε → Prop) (s : σ) (es : List ε) :
    Prop :=
  ∃ before e after, es = before ++ e :: after ∧ sets (before.foldl step s) e ∧
    ∀ e' ∈ after, ¬ clears e'

variable {step : σ → ε → σ} {sets : σ → ε → Prop} {clears : ε → Prop} {s : σ}

theorem not_setSince_nil : ¬ SetSince step sets clears s [] := by
  rintro ⟨before, e, after, h, -⟩
  simp at h

theorem setSince_concat (es : List ε) (e : ε) :
    SetSince step sets clears s (es ++ [e]) ↔
      sets (es.foldl step s) e ∨ (SetSince step sets clears s es ∧ ¬ clears e) := by
  constructor
  · rintro ⟨before, e', after, heq, hset, hafter⟩
    -- The event that set the latch is the last one or an earlier one.
    rcases List.eq_nil_or_concat after with rfl | ⟨after, last, rfl⟩
    · obtain ⟨hes, he⟩ := List.append_inj' heq rfl
      rw [← List.singleton_inj.1 he, ← hes] at hset
      exact .inl hset
    · have heq' : es ++ [e] = (before ++ e' :: after) ++ [last] := by simpa using heq
      obtain ⟨hes, he⟩ := List.append_inj' heq' rfl
      rw [← List.singleton_inj.1 he] at hafter
      exact .inr ⟨⟨before, e', after, hes, hset, fun x hx => hafter x (by simp [hx])⟩,
        hafter e (by simp)⟩
  · rintro (hset | ⟨⟨before, e', after, rfl, hset, hafter⟩, he⟩)
    · exact ⟨es, e, [], rfl, hset, by simp⟩
    · refine ⟨before, e', after ++ [e], by simp, hset, fun x hx => ?_⟩
      rcases List.mem_append.1 hx with hmem | hmem
      · exact hafter x hmem
      · rw [List.mem_singleton.1 hmem]
        exact he

/-- A latch that starts clear is set exactly if some event set it and none since has cleared it. -/
theorem latched_foldl_iff (latched : σ → Prop)
    (h : ∀ s e, latched (step s e) ↔ sets s e ∨ (latched s ∧ ¬ clears e)) (hs : ¬ latched s)
    (es : List ε) : latched (es.foldl step s) ↔ SetSince step sets clears s es := by
  induction es using List.reverseRecOn with
  | nil => exact iff_of_false hs not_setSince_nil
  | append_singleton es e ih =>
    rw [List.foldl_append, List.foldl_cons, List.foldl_nil, h, ih, setSince_concat]

end Handheld
