import Mathlib.Tactic

/-!
# Lib/TimedLog — what happened when

A log holds events with the times at which they happened, the newest first.  `latest p log` is the
newest event with `p`.  In an ordered log all others with `p` are at least as old, so that what the
latest event allows, all of them do: `Spaced` says of two kinds of events that the ones with `p`
keep a distance unless one with `q` comes between them, and a further event may be added as soon as
the latest of both kinds is far enough back or one with `q` (`Ordered.may_follow`).
-/

namespace TimedLog

variable {ε : Type*} {p q : ε → Prop} {log : List (ℕ × ε)} {now gap : ℕ}

/-- **The log is in order**, and `now` is not before any of it. -/
structure Ordered (log : List (ℕ × ε)) (now : ℕ) : Prop where
  sorted : log.Pairwise fun newer older => older.1 ≤ newer.1
  past : ∀ e ∈ log, e.1 ≤ now

theorem Ordered.nil : Ordered ([] : List (ℕ × ε)) 0 := ⟨.nil, by simp⟩

/-- Time passes. -/
theorem Ordered.mono (h : Ordered log now) {now' : ℕ} (hle : now ≤ now') : Ordered log now' :=
  ⟨h.sorted, fun e he => (h.past e he).trans hle⟩

/-- An event now. -/
theorem Ordered.cons (h : Ordered log now) (e : ε) : Ordered ((now, e) :: log) now :=
  ⟨List.pairwise_cons.mpr ⟨h.past, h.sorted⟩, List.forall_mem_cons.mpr ⟨le_rfl, h.past⟩⟩

section Latest

variable [DecidablePred p]

variable (p) in
/-- The newest event with `p`. -/
def latest (log : List (ℕ × ε)) : Option (ℕ × ε) := log.find? fun e => p e.2

theorem latest_cons_of_pos {e : ℕ × ε} (h : p e.2) : latest p (e :: log) = some e :=
  List.find?_cons_of_pos (by simpa using h)

theorem latest_cons_of_neg {e : ℕ × ε} (h : ¬ p e.2) : latest p (e :: log) = latest p log :=
  List.find?_cons_of_neg (by simpa using h)

/-- Nothing after the latest event has `p`. -/
theorem latest_eq_some_iff {e : ℕ × ε} : latest p log = some e ↔
    p e.2 ∧ ∃ newer older, log = newer ++ e :: older ∧ ∀ x ∈ newer, ¬ p x.2 := by
  rw [latest, List.find?_eq_some_iff_append]
  simp

/-- There is no such event. -/
theorem latest_eq_none_iff : latest p log = none ↔ ∀ e ∈ log, ¬ p e.2 := by
  simp [latest]

end Latest

variable (p q gap) in
/-- **Events with `p` keep a distance** of more than `gap`, unless one with `q` is between them. -/
def Spaced (log : List (ℕ × ε)) : Prop :=
  ∀ newer between older e e', log = newer ++ e :: (between ++ e' :: older) → p e.2 → p e'.2 →
    e'.1 + gap < e.1 ∨ ∃ x ∈ between, q x.2

theorem Spaced.nil : Spaced p q gap ([] : List (ℕ × ε)) := by
  intro newer between older e e' hlog
  simp at hlog

/-- Another event is added: it has not `p`, or it keeps the distance from all before it. -/
theorem Spaced.cons (h : Spaced p q gap log) {e : ℕ × ε}
    (he : p e.2 → ∀ between older e', log = between ++ e' :: older → p e'.2 →
      e'.1 + gap < e.1 ∨ ∃ x ∈ between, q x.2) : Spaced p q gap (e :: log) := by
  intro newer between older e₁ e₂ hlog hp₁ hp₂
  cases newer with
  | nil =>
    obtain ⟨rfl, rfl⟩ := List.cons.inj hlog
    exact he hp₁ between older e₂ rfl hp₂
  | cons x newer =>
    obtain ⟨-, rfl⟩ := List.cons.inj hlog
    exact h newer between older e₁ e₂ rfl hp₁ hp₂

/-- Of two elements of a list, one is before the other or they are the same. -/
theorem split_cases {α : Type*} {l l' r r' : List α} {x y : α} (h : l ++ x :: r = l' ++ y :: r') :
    x ∈ l' ∨ x = y ∨ y ∈ l ∧ x ∈ r' := by
  rcases List.append_eq_append_iff.mp h with ⟨m, rfl, hm⟩ | ⟨m, rfl, hm⟩
  · cases m with
    | nil => exact .inr (.inl (List.cons.inj hm).1)
    | cons z m =>
      obtain ⟨rfl, -⟩ := List.cons.inj hm
      exact .inl (by simp)
  · cases m with
    | nil => exact .inr (.inl (List.cons.inj hm).1.symm)
    | cons z m =>
      obtain ⟨rfl, rfl⟩ := List.cons.inj hm
      exact .inr (.inr ⟨by simp, by simp⟩)

/-- **The latest event decides**: if it has `q`, or is far enough back, one with `p` may follow. -/
theorem Ordered.may_follow [DecidablePred fun e => p e ∨ q e] (h : Ordered log now)
    (hpq : ∀ e, p e → ¬ q e)
    (hlatest : ∀ e, latest (fun e => p e ∨ q e) log = some e → q e.2 ∨ e.1 + gap < now)
    {between older : List (ℕ × ε)} {e' : ℕ × ε} (hlog : log = between ++ e' :: older)
    (hp : p e'.2) : e'.1 + gap < now ∨ ∃ x ∈ between, q x.2 := by
  cases hl : latest (fun e => p e ∨ q e) log with
  | none => exact absurd (.inl hp) (latest_eq_none_iff.mp hl e' (by simp [hlog]))
  | some e =>
    obtain ⟨-, newer, older', hlog', hnewer⟩ := latest_eq_some_iff.mp hl
    obtain hmem | rfl | ⟨hbetween, hmem⟩ := split_cases (hlog.symm.trans hlog')
    · exact absurd (.inl hp) (hnewer e' hmem)
    · exact .inl ((hlatest e' hl).resolve_left (hpq _ hp))
    · -- the event is older than the latest one
      have hsorted := h.sorted
      rw [hlog', List.pairwise_append, List.pairwise_cons] at hsorted
      have hle : e'.1 ≤ e.1 := hsorted.2.1.1 e' hmem
      exact (hlatest e hl).symm.imp (fun hfar => by omega) fun hq => ⟨e, hbetween, hq⟩

end TimedLog
