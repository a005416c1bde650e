import Mathlib.Tactic

/-!
# Lib/Fifo — queues by key, and what passes through them

A log of entries under keys, read one key at a time (`logFor`), and the order of a queue before an
output: what was submitted is what came out followed by what still waits (`Fifo`).  An entry comes
out as something related to it, such as the bytes it is encoded as.  Where entries may overtake each
other or get lost, what is left is that none comes out twice (`Accounted`).
-/

variable {κ α β : Type*}

/-- What a log has under one key. -/
def logFor [DecidableEq κ] (a : κ) (log : List (κ × α)) : List α :=
  (log.filter fun entry => entry.1 = a).map Prod.snd

section LogFor

variable [DecidableEq κ] (a : κ)

@[simp] theorem logFor_append (log log' : List (κ × α)) :
    logFor a (log ++ log') = logFor a log ++ logFor a log' := by
  simp [logFor]

@[simp] theorem logFor_map (b : κ) (l : List α) :
    logFor a (l.map (b, ·)) = if a = b then l else [] := by
  split_ifs with hab
  · simp [logFor, hab, List.filter_map, Function.comp_def]
  · simp [logFor, Ne.symm hab, List.filter_map, Function.comp_def]

@[simp] theorem logFor_singleton (b : κ) (x : α) :
    logFor a [(b, x)] = if a = b then [x] else [] := logFor_map a b [x]

end LogFor

/-- **First in, first out**: what was submitted is what was emitted, followed by what waits. -/
def Fifo (R : α → β → Prop) (submitted : List α) (emitted : List β) (waiting : List α) : Prop :=
  ∃ sent, submitted = sent ++ waiting ∧ List.Forall₂ R sent emitted

namespace Fifo

variable {R : α → β → Prop} {submitted waiting : List α} {emitted : List β}

theorem empty : Fifo R [] [] [] := ⟨[], rfl, .nil⟩

/-- What is submitted waits behind the rest. -/
theorem submit (h : Fifo R submitted emitted waiting) (x : α) :
    Fifo R (submitted ++ [x]) emitted (waiting ++ [x]) := by
  obtain ⟨sent, rfl, hsent⟩ := h
  exact ⟨sent, List.append_assoc .., hsent⟩

/-- What is released comes from the front. -/
theorem release {front : List α} {out : List β} (h : Fifo R submitted emitted (front ++ waiting))
    (hout : List.Forall₂ R front out) : Fifo R submitted (emitted ++ out) waiting := by
  obtain ⟨sent, rfl, hsent⟩ := h
  exact ⟨sent ++ front, (List.append_assoc ..).symm, List.rel_append hsent hout⟩

/-- Past an empty queue an entry comes out at once. -/
theorem pass {x : α} {y : β} (h : Fifo R submitted emitted []) (hxy : R x y) :
    Fifo R (submitted ++ [x]) (emitted ++ [y]) [] := by
  have hsubmit : Fifo R (submitted ++ [x]) emitted ([x] ++ []) := h.submit x
  exact hsubmit.release (.cons hxy .nil)

end Fifo

/-! ## Without the order -/

section Accounted

open scoped List

/-- **Nothing twice**: what was submitted came out, waits or is lost, once each, in any order. -/
def Accounted (R : α → β → Prop) (Lost : α → Prop) (submitted : List α) (emitted : List β)
    (waiting : List α) : Prop :=
  ∃ sent lost, submitted ~ sent ++ waiting ++ lost ∧ List.Forall₂ R sent emitted ∧
    ∀ x ∈ lost, Lost x

namespace Accounted

variable {R : α → β → Prop} {Lost : α → Prop} {submitted waiting : List α} {emitted : List β}

theorem empty : Accounted R Lost [] [] [] := ⟨[], [], .nil, .nil, by simp⟩

/-- What is submitted may wait. -/
theorem submit (h : Accounted R Lost submitted emitted waiting) (x : α) :
    Accounted R Lost (submitted ++ [x]) emitted (waiting ++ [x]) := by
  obtain ⟨sent, lost, hperm, hsent, hlost⟩ := h
  have hswap : lost ++ [x] ~ [x] ++ lost := List.perm_append_comm
  refine ⟨sent, lost, ?_, hsent, hlost⟩
  calc submitted ++ [x] ~ (sent ++ waiting ++ lost) ++ [x] := hperm.append_right [x]
    _ ~ sent ++ (waiting ++ [x]) ++ lost := by simpa using hswap.append_left (sent ++ waiting)

/-- It may come out at once, whatever waits. -/
theorem pass (h : Accounted R Lost submitted emitted waiting) {x : α} {y : β} (hxy : R x y) :
    Accounted R Lost (submitted ++ [x]) (emitted ++ [y]) waiting := by
  obtain ⟨sent, lost, hperm, hsent, hlost⟩ := h
  have hswap : (waiting ++ lost) ++ [x] ~ [x] ++ (waiting ++ lost) := List.perm_append_comm
  refine ⟨sent ++ [x], lost, ?_, List.rel_append hsent (.cons hxy .nil), hlost⟩
  calc submitted ++ [x] ~ (sent ++ waiting ++ lost) ++ [x] := hperm.append_right [x]
    _ ~ sent ++ [x] ++ waiting ++ lost := by simpa using hswap.append_left sent

/-- It may get lost. -/
theorem lose (h : Accounted R Lost submitted emitted waiting) {x : α} (hx : Lost x) :
    Accounted R Lost (submitted ++ [x]) emitted waiting := by
  obtain ⟨sent, lost, hperm, hsent, hlost⟩ := h
  refine ⟨sent, lost ++ [x], ?_, hsent, by simpa [or_imp, forall_and] using ⟨hlost, hx⟩⟩
  simpa using hperm.append_right [x]

theorem release {front : List α} {out : List β}
    (h : Accounted R Lost submitted emitted (front ++ waiting)) (hout : List.Forall₂ R front out) :
    Accounted R Lost submitted (emitted ++ out) waiting := by
  obtain ⟨sent, lost, hperm, hsent, hlost⟩ := h
  exact ⟨sent ++ front, lost, by simpa using hperm, List.rel_append hsent hout, hlost⟩

end Accounted

end Accounted
